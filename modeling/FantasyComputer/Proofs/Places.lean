/-
# FantasyComputer.Proofs.Places — where a path leads, and what is read there.

A path is followed through directories, but which way it goes depends on its parts alone
(`Place.ofPath`): the directories on the way only decide whether it may be followed at all.  On its
way a path never comes to a file, and having come to a place it has been in every directory above it
(`Entered`).  So a path by which a file is read ends in the name of that file.

A file is written into a directory that is there already.  So a write changes what is found at one
place and at no other, be it a file, a directory or nothing (`entry_of_write_ne`); and what is
written is read back by the same path (`read_of_write`), until the same file is written again
(`read_of_write_ne`).  Only the device that keeps nothing is an exception.
-/
import FantasyComputer.Console.FileSystem
import Mathlib

namespace FantasyComputer

namespace FileSystem

variable {s : FileSystem} {place other : Place} {contents : Bytes}

/-! ## Files by place -/

/-- A row of files in which the contents of those at one place are replaced. -/
def replaced (place : Place) (contents : Bytes) (files : List (Place × Bytes)) :
    List (Place × Bytes) :=
  files.map fun file => if file.1 == place then (place, contents) else file

theorem lookup_replaced_self {files : List (Place × Bytes)} (contents : Bytes)
    (h : (files.any fun file => file.1 == place) = true) :
    (replaced place contents files).lookup place = some contents := by
  induction files with
  | nil => exact absurd h Bool.false_ne_true
  | cons file files ih =>
    obtain ⟨found, old⟩ := file
    by_cases hfile : found = place
    · simp [replaced, hfile]
    · have hother : (place == found) = false := by simpa using Ne.symm hfile
      have hrest : (files.any fun file => file.1 == place) = true := by simpa [hfile] using h
      simpa [replaced, hfile, List.lookup_cons, hother] using ih hrest

theorem lookup_replaced_of_ne (h : other ≠ place) (contents : Bytes)
    (files : List (Place × Bytes)) :
    (replaced place contents files).lookup other = files.lookup other := by
  have hother : (other == place) = false := by simpa using h
  induction files with
  | nil => rfl
  | cons file files ih =>
    obtain ⟨found, old⟩ := file
    by_cases hfile : found = place
    · simpa [replaced, hfile, List.lookup_cons, hother] using ih
    · simp only [replaced, List.map_cons, beq_iff_eq, hfile, if_false, List.lookup_cons] at ih ⊢
      rw [ih]

theorem get?_put_self (s : FileSystem) (place : Place) (contents : Bytes) :
    (s.put place contents).get? place = some contents := by
  unfold put get?
  split
  · next hany => exact lookup_replaced_self contents hany
  · next hnone =>
    have hlookup : s.files.lookup place = none := by
      rw [List.lookup_eq_none_iff]
      intro file hfile
      rw [bne_iff_ne]
      rintro rfl
      exact hnone (List.any_eq_true.mpr ⟨file, hfile, beq_self_eq_true _⟩)
    rw [List.lookup_append, hlookup]
    simp

theorem get?_put_of_ne (h : other ≠ place) (s : FileSystem) (contents : Bytes) :
    (s.put place contents).get? other = s.get? other := by
  unfold put get?
  split
  · exact lookup_replaced_of_ne h contents s.files
  · have hother : (other == place) = false := by simpa using h
    simp [List.lookup_append, List.lookup_cons, hother]

/-- The places on the way to a file that is put are passed, and no others besides those before. -/
theorem isPassed_put (s : FileSystem) (place other : Place) (contents : Bytes) :
    (s.put place contents).isPassed other = (s.isPassed other || other.isPrefixOf place) := by
  unfold isPassed put
  split
  · next hany =>
    have hplaces : ∀ file : Place × Bytes,
        (if file.1 == place then (place, contents) else file).1 = file.1 := by
      intro file
      split
      · next hfile => exact (eq_of_beq hfile).symm
      · rfl
    simp only [List.any_map, Function.comp_def, hplaces]
    -- the file was there before, so what is on the way to it was passed before
    rw [Bool.eq_iff_iff, Bool.or_eq_true]
    refine ⟨Or.inl, fun h => h.elim id fun hway => ?_⟩
    obtain ⟨file, hmem, hfile⟩ := List.any_eq_true.mp hany
    exact List.any_eq_true.mpr ⟨file, hmem, by rwa [eq_of_beq hfile]⟩
  · simp only [List.any_append, List.any_cons, List.any_nil, Bool.or_false]

@[simp]
theorem home_put (s : FileSystem) (place : Place) (contents : Bytes) :
    (s.put place contents).home = s.home := by
  unfold put
  split <;> rfl

@[simp]
theorem isStanding_put (s : FileSystem) (place other : Place) (contents : Bytes) :
    (s.put place contents).isStanding other = s.isStanding other := by
  unfold put
  split <;> rfl

/-! ## What is found at a place -/

theorem entry_eq_file (h : place ≠ .null) :
    s.entry place = .file contents
      ↔ s.isStanding place = false ∧ s.get? place = some contents := by
  unfold entry
  cases s.isStanding place with
  | true => simp
  | false =>
    rw [if_neg Bool.false_ne_true, if_neg h]
    cases s.get? place with
    | some found => simp
    | none => cases s.isPassed place <;> simp

theorem entry_of_isStanding (h : s.isStanding place = true) : s.entry place = .directory := by
  rw [entry, if_pos h]

theorem isStanding_of_ne_directory (h : s.entry place ≠ .directory) :
    s.isStanding place = false := by
  rw [← Bool.not_eq_true]
  exact fun hstanding => h (entry_of_isStanding hstanding)

/-- A file that is put into a directory changes what is found at its own place only. -/
theorem entry_put_of_ne (h : other ≠ place) (contents : Bytes)
    (habove : other <+: place → s.entry other = .directory) :
    (s.put place contents).entry other = s.entry other := by
  by_cases hway : other <+: place
  · have hdirectory := habove hway
    rw [hdirectory]
    unfold entry at hdirectory ⊢
    rw [isStanding_put, get?_put_of_ne h, isPassed_put, List.isPrefixOf_iff_prefix.mpr hway,
      Bool.or_true]
    split at hdirectory
    · next hstanding => rw [if_pos hstanding]
    · next hstanding =>
      rw [if_neg hstanding]
      split at hdirectory
      · cases hdirectory
      · next hnull =>
        rw [if_neg hnull]
        cases hget : s.get? other with
        | some found =>
          rw [hget] at hdirectory
          cases hdirectory
        | none => rfl
  · have hpassed : (s.put place contents).isPassed other = s.isPassed other := by
      rw [isPassed_put, Bool.eq_false_iff.mpr (hway ∘ List.isPrefixOf_iff_prefix.mp),
        Bool.or_false]
    rw [entry, entry, isStanding_put, get?_put_of_ne h, hpassed]

theorem entry_put_self (h : s.entry place ≠ .directory) (hnull : place ≠ .null)
    (contents : Bytes) : (s.put place contents).entry place = .file contents := by
  rw [entry_eq_file hnull, isStanding_put]
  exact ⟨isStanding_of_ne_directory h, get?_put_self s place contents⟩

end FileSystem

/-! ## The way of a path -/

namespace Place

/-- Where a part of a path leads, if it may be followed. -/
def go (place : Place) (part : String) : Place :=
  if part = "" ∨ part = "." then place
  else if part = ".." then place.parent
  else place.child part

/-- Where a path starts. -/
def origin (home : Place) (path : String) : Place :=
  if path.startsWith "/" then [] else home

/-- Where a path leads from a directory, if it may be followed. -/
def ofPath (home : Place) (path : String) : Place :=
  (path.splitToList (· = '/')).foldl go (origin home path)

/-- What lies on the way to a child is the child itself or on the way to its directory. -/
theorem prefix_child {place other : Place} {name : String} (h : other <+: place.child name) :
    other = place.child name ∨ other <+: place :=
  List.prefix_concat_iff.mp h

theorem prefix_of_parent (place : Place) : place.parent <+: place :=
  List.dropLast_prefix place

theorem ne_of_prefix_parent {place other : Place} (h : other <+: place.parent)
    (hne : other ≠ place.parent) : other ≠ place := by
  rintro rfl
  exact hne (h.eq_of_length_le (prefix_of_parent other).length_le)

theorem parent_ne_self {place : Place} (h : place ≠ []) : place.parent ≠ place := by
  intro hsame
  have hlength := congrArg List.length hsame
  rw [parent, List.length_dropLast] at hlength
  have hpos := List.length_pos_of_ne_nil h
  omega

end Place

namespace FileSystem

variable {s s' : FileSystem} {path : String} {contents : Bytes} {place other next : Place}
  {part : String} {before rest : List String}

theorem step_eq_go (h : step place part = .ok next) : next = place.go part := by
  unfold step at h
  unfold Place.go
  split at h
  · next hstay => rw [if_pos hstay, Except.ok.inj h]
  · next hmove =>
    rw [if_neg hmove]
    split at h
    · next hback => rw [if_pos hback, Except.ok.inj h]
    · next hname =>
      rw [if_neg hname]
      split at h
      · cases h
      · rw [Except.ok.inj h]

theorem follow_cons_eq_ok {parts : List String} :
    s.follow place (part :: parts) = .ok next
      ↔ s.entry place = .directory
        ∧ ∃ p, step place part = .ok p ∧ s.follow p parts = .ok next := by
  rw [follow]
  cases hentry : s.entry place with
  | directory =>
    cases hstep : step place part with
    | error fault => simp
    | ok p => simp
  | file contents => simp
  | missing => simp

/-- A path goes the same way in every file system in which it may be followed. -/
theorem follow_eq_foldl (h : s.follow place before = .ok next) :
    next = before.foldl Place.go place := by
  induction before generalizing place with
  | nil => exact (Except.ok.inj h).symm
  | cons part before ih =>
    rw [follow_cons_eq_ok] at h
    obtain ⟨-, p, hstep, hrest⟩ := h
    rw [List.foldl_cons, ← step_eq_go hstep]
    exact ih hrest

/-- A path may still be followed where every directory is one still. -/
theorem follow_of_directories
    (h : ∀ place, s.entry place = .directory → s'.entry place = .directory)
    (hfollow : s.follow place before = .ok next) : s'.follow place before = .ok next := by
  induction before generalizing place with
  | nil => exact hfollow
  | cons part before ih =>
    rw [follow_cons_eq_ok] at hfollow ⊢
    obtain ⟨hentry, p, hstep, hrest⟩ := hfollow
    exact ⟨h place hentry, p, hstep, ih hrest⟩

/-! ## No path ends in a file but by its name -/

/-- Whether every place on the way is a directory. -/
def Entered (s : FileSystem) (place : Place) : Prop :=
  ∀ other, other <+: place → other ≠ place → s.entry other = .directory

theorem entered_origin (s : FileSystem) (path : String) : s.Entered (Place.origin s.home path) := by
  intro other hway hne
  unfold Place.origin at hway hne
  split at hway
  · next hroot =>
    rw [if_pos hroot] at hne
    exact absurd (List.prefix_nil.mp hway) hne
  · apply entry_of_isStanding
    simp [isStanding, List.isPrefixOf_iff_prefix, hway]

/-- **Step lemma.** -/
theorem Entered.step (h : s.Entered place) (hentry : s.entry place = .directory)
    (hstep : step place part = .ok next) : s.Entered next := by
  rw [step_eq_go hstep]
  unfold Place.go
  split
  · exact h
  · split
    · intro other hway hne
      exact h other (hway.trans place.prefix_of_parent) (Place.ne_of_prefix_parent hway hne)
    · intro other hway hne
      have hbefore := (Place.prefix_child hway).resolve_left hne
      by_cases hsame : other = place
      · rwa [hsame]
      · exact h other hbefore hsame

/-- **Run lemma.** -/
theorem Entered.follow (h : s.Entered place) (hfollow : s.follow place before = .ok next) :
    s.Entered next := by
  induction before generalizing place with
  | nil => rwa [← Except.ok.inj hfollow]
  | cons part before ih =>
    rw [follow_cons_eq_ok] at hfollow
    obtain ⟨hentry, p, hstep, hrest⟩ := hfollow
    exact ih (h.step hentry hstep) hrest

/-- A directory that has been entered lies in one. -/
theorem Entered.parent (h : s.Entered place) (hentry : s.entry place = .directory) :
    s.entry place.parent = .directory := by
  by_cases hroot : place = []
  · rwa [hroot] at hentry ⊢
  · exact h _ place.prefix_of_parent (Place.parent_ne_self hroot)

theorem parts_eq_ok {ps : List String} (h : parts path = .ok ps) :
    ps = path.splitToList (· = '/') := by
  unfold parts at h
  split at h
  · cases h
  · split at h
    · cases h
    · exact (Except.ok.inj h).symm

/-- A path that may be followed leads where its parts lead. -/
theorem place_eq_ofPath {ps : List String} (hparts : parts path = .ok ps)
    (h : s.follow (Place.origin s.home path) ps = .ok place) :
    place = Place.ofPath s.home path := by
  rw [Place.ofPath, ← parts_eq_ok hparts, ← follow_eq_foldl h]

theorem target_eq_ok :
    s.target path = .ok place
      ↔ ∃ ps, parts path = .ok ps ∧ slashed? ps = none
        ∧ s.follow (Place.origin s.home path) ps = .ok place ∧ s.entry place ≠ .directory := by
  have horigin : ∀ ps, s.followFrom path ps = s.follow (Place.origin s.home path) ps :=
    fun _ => rfl
  unfold target
  cases hparts : parts path with
  | error fault => simp [bind, Except.bind]
  | ok ps =>
    simp only [bind, Except.bind, horigin, Except.ok.injEq, exists_eq_left']
    cases hslashed : slashed? ps with
    | some before =>
      cases hfollow : s.follow (Place.origin s.home path) before with
      | error fault => simp [hfollow]
      | ok found =>
        cases hentry : s.entry found <;>
          simp [hfollow, hentry, throw, throwThe, MonadExceptOf.throw]
    | none =>
      cases hfollow : s.follow (Place.origin s.home path) ps with
      | error fault => simp
      | ok found =>
        simp only [Except.ok.injEq, true_and]
        constructor
        · intro h
          split at h
          · cases h
          · next hnot =>
            obtain rfl := Except.ok.inj h
            exact ⟨rfl, hnot⟩
        · rintro ⟨rfl, hnot⟩
          split
          · next hdirectory => exact absurd hdirectory hnot
          · rfl

/-- What a write does: its path may be followed, and what lies there is no directory. -/
theorem write_eq_ok (h : s.write path contents = .ok s') :
    s' = s.store contents (Place.ofPath s.home path)
      ∧ ∃ ps, parts path = .ok ps
        ∧ s.follow (Place.origin s.home path) ps = .ok (Place.ofPath s.home path)
        ∧ s.entry (Place.ofPath s.home path) ≠ .directory := by
  unfold write at h
  cases htarget : s.target path with
  | error fault =>
    rw [htarget] at h
    cases h
  | ok place =>
    rw [htarget] at h
    obtain ⟨ps, hparts, -, hfollow, hentry⟩ := target_eq_ok.mp htarget
    obtain rfl := place_eq_ofPath hparts hfollow
    exact ⟨(Except.ok.inj h).symm, ps, hparts, hfollow, hentry⟩

theorem home_of_write (h : s.write path contents = .ok s') : s'.home = s.home := by
  rw [(write_eq_ok h).1, store]
  split
  · rfl
  · exact home_put s _ contents

/-- **A write changes nothing but the file that it writes.** -/
theorem entry_of_write_ne (h : s.write path contents = .ok s')
    (hne : other ≠ Place.ofPath s.home path) : s'.entry other = s.entry other := by
  obtain ⟨rfl, ps, -, hfollow, -⟩ := write_eq_ok h
  unfold store
  split
  · rfl
  · have hentered := (entered_origin s path).follow hfollow
    exact entry_put_of_ne hne contents fun hway => hentered other hway hne

theorem directory_of_write (h : s.write path contents = .ok s')
    (hentry : s.entry place = .directory) : s'.entry place = .directory := by
  obtain ⟨-, -, -, -, hnot⟩ := write_eq_ok h
  rw [entry_of_write_ne h (by rintro rfl; exact hnot hentry), hentry]

theorem not_directory_of_write (h : s.write path contents = .ok s')
    (hentry : s.entry place ≠ .directory) : s'.entry place ≠ .directory := by
  by_cases hplace : place = Place.ofPath s.home path
  · rw [(write_eq_ok h).1, ← hplace, store]
    split
    · exact hentry
    · next hnull =>
      rw [entry_put_self hentry hnull]
      nofun
  · rwa [entry_of_write_ne h hplace]

/-- What can be written can still be written when something has been. -/
theorem target_of_write {otherPath : String} (h : s.write path contents = .ok s')
    (htarget : s.target otherPath = .ok place) : s'.target otherPath = .ok place := by
  rw [target_eq_ok] at htarget ⊢
  obtain ⟨ps, hparts, hslashed, hfollow, hentry⟩ := htarget
  rw [home_of_write h]
  exact ⟨ps, hparts, hslashed, follow_of_directories (fun _ => directory_of_write h) hfollow,
    not_directory_of_write h hentry⟩

/-- Writes files in their order, each as a path and contents, and stops at the first that fails. -/
def writeAll (s : FileSystem) : List (String × Bytes) → Except FileError FileSystem
  | [] => .ok s
  | (path, contents) :: rest =>
    match s.write path contents with
    | .error e => .error e
    | .ok s' => s'.writeAll rest

variable {writes later : List (String × Bytes)}

theorem writeAll_cons_eq_ok :
    s.writeAll ((path, contents) :: writes) = .ok s'
      ↔ ∃ s₁, s.write path contents = .ok s₁ ∧ s₁.writeAll writes = .ok s' := by
  rw [writeAll]
  cases s.write path contents <;> simp

/-- **Run lemma.**  What each write keeps, all of them keep. -/
theorem writeAll_keeps {P : FileSystem → Prop} (h : s.writeAll writes = .ok s')
    (hkeeps : ∀ w ∈ writes, ∀ f f', f.home = s.home → f.write w.1 w.2 = .ok f' → P f → P f')
    (hstart : P s) : P s' := by
  induction writes generalizing s with
  | nil => rwa [← Except.ok.inj h]
  | cons first writes ih =>
    rw [writeAll_cons_eq_ok] at h
    obtain ⟨s₁, hfirst, hrest⟩ := h
    rw [List.forall_mem_cons] at hkeeps
    refine ih hrest ?_ (hkeeps.1 s s₁ rfl hfirst hstart)
    intro w hw f f' hhome
    exact hkeeps.2 w hw f f' (hhome.trans (home_of_write hfirst))

theorem home_of_writeAll (h : s.writeAll writes = .ok s') : s'.home = s.home := by
  refine writeAll_keeps (P := fun f => f.home = s.home) h ?_ rfl
  intro w _ f f' hhome hwrite _
  exact (home_of_write hwrite).trans hhome

theorem isPrefixOf?_append (place names : Place) :
    place.isPrefixOf? (place ++ names) = some names := by
  induction place with
  | nil => rfl
  | cons name place ih => simp [List.isPrefixOf?, ih]

theorem isPrefixOf?_eq_none (h : ¬place <+: other) : place.isPrefixOf? other = none := by
  induction place generalizing other with
  | nil => exact absurd List.nil_prefix h
  | cons name place ih =>
    cases other with
    | nil => rfl
    | cons first other =>
      rw [List.cons_prefix_cons] at h
      by_cases hfirst : name = first
      · simpa [List.isPrefixOf?, hfirst] using ih fun hplace => h ⟨hfirst, hplace⟩
      · simp [List.isPrefixOf?, hfirst]

theorem intercalate_splitToList (name : String) :
    "/".intercalate (name.splitToList (· = '/')) = name := by
  have hchars : String.toList ∘ String.ofList = id := funext fun _ => String.toList_ofList
  rw [← String.toList_inj, String.toList_intercalate, String.splitToList_of_valid, List.map_map,
    hchars, List.map_id]
  exact List.intercalate_splitOn '/'

/-- **The files in the session's own directory** are those that are put there. -/
theorem here_holding (h : ∀ file ∈ s.files, ¬s.home <+: file.1) (d : Directory) :
    (s.holding d).here = d := by
  have hothers : s.files.filterMap (fun file =>
      (s.home.isPrefixOf? file.1).map fun names => ("/".intercalate names, file.2)) = [] := by
    rw [List.filterMap_eq_nil_iff]
    intro file hfile
    rw [isPrefixOf?_eq_none (h file hfile), Option.map_none]
  have hnamed : d.files.filterMap (fun file =>
      (s.home.isPrefixOf? (s.home ++ file.1.splitToList (· = '/'))).map fun names =>
        ("/".intercalate names, file.2)) = d.files := by
    simp only [isPrefixOf?_append, Option.map_some, intercalate_splitToList, Prod.mk.eta,
      List.filterMap_some]
  obtain ⟨files⟩ := d
  unfold here holding
  simp only [List.filterMap_append, List.filterMap_map, Function.comp_def, hothers, hnamed,
    List.append_nil]

end FileSystem

end FantasyComputer
