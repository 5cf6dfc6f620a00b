/-
# FantasyComputer.Proofs.AddressTexts — which texts are addresses, and as which.

`Spells` is the language in which a person types an address: copies of `0x`, copies of `0X`, a plus
sign or none, and one or more digits of either case (`Writes`).  The digit `0` starts a prefix as
well as a number, and the reader drops prefixes without looking ahead.  That is no loss, because the
letter of a prefix is no digit: what is left after the prefixes and the sign is exactly the digits
(`stripped_eq`).  So the reader accepts this language as far as its numbers fit 16 bits, and nothing
else (`address?_eq_some_iff`).

On the command line an address stands in the argument after `--break` or behind `--break=`.  One
such text adds the address that it spells, or ends the reading (`readFrom_break`,
`readFrom_break_joined`); and all that a run stops at was spelled by texts among its arguments
(`stopsAt_readFrom`, by induction on the arguments).
-/
import FantasyComputer.Console.CommandLine
import FantasyComputer.Proofs.PositionalNumbers

namespace FantasyComputer

namespace Hexadecimal

variable {c : Char} {n : Nat} {ds : List Char} {text : String}

/-! ## Prefixes and sign -/

/-- Copies of two characters. -/
def copies (count : Nat) (a b : Char) : List Char :=
  (List.replicate count [a, b]).flatten

theorem copies_succ (count : Nat) (a b : Char) :
    copies (count + 1) a b = a :: b :: copies count a b := rfl

theorem exists_copies (a b : Char) (cs : List Char) :
    ∃ count, cs = copies count a b ++ dropPairs a b cs := by
  fun_induction dropPairs a b cs with
  | case1 c d rest h ih =>
    obtain ⟨count, hrest⟩ := ih
    obtain ⟨rfl, rfl⟩ := h
    refine ⟨count + 1, ?_⟩
    rw [copies_succ, List.cons_append, List.cons_append, ← hrest]
  | case2 c d rest h => exact ⟨0, rfl⟩
  | case3 cs hshort => exact ⟨0, rfl⟩

theorem dropPairs_copies (count : Nat) (a b : Char) (cs : List Char) :
    dropPairs a b (copies count a b ++ cs) = dropPairs a b cs := by
  induction count with
  | zero => rfl
  | succ count ih =>
    rw [copies_succ, List.cons_append, List.cons_append, dropPairs, if_pos ⟨rfl, rfl⟩, ih]

/-- Where the pair does not stand in front, nothing is dropped. -/
theorem dropPairs_of_ne {a b : Char} {cs : List Char} (h : cs[1]? ≠ some b) :
    dropPairs a b cs = cs := by
  unfold dropPairs
  split
  · next c d rest =>
    have hd : d ≠ b := by
      rintro rfl
      exact h rfl
    rw [if_neg fun hpair => hd hpair.2]
  · rfl

theorem exists_plus (cs : List Char) :
    ∃ plus, (plus = [] ∨ plus = ['+']) ∧ cs = plus ++ dropPlus cs := by
  unfold dropPlus
  split
  · exact ⟨['+'], Or.inr rfl, rfl⟩
  · exact ⟨[], Or.inl rfl, rfl⟩

theorem dropPlus_of_notMem (h : '+' ∉ ds) : dropPlus ds = ds := by
  unfold dropPlus
  split
  · exact absurd List.mem_cons_self h
  · rfl

/-! ## Addresses -/

/-- Whether a text spells a number as an address: copies of `0x`, copies of `0X`, a plus sign or
none, and digits. -/
def Spells (text : String) (n : Nat) : Prop :=
  ∃ (lower upper : Nat) (plus ds : List Char), (plus = [] ∨ plus = ['+']) ∧ Writes ds n
    ∧ text.toList = copies lower '0' 'x' ++ (copies upper '0' 'X' ++ (plus ++ ds))

/-- Prefixes and sign are dropped, and nothing of what follows them. -/
theorem stripped_eq {lower upper : Nat} {plus : List Char} (hplus : plus = [] ∨ plus = ['+'])
    (hds : Writes ds n) :
    dropPlus (dropPairs '0' 'X' (dropPairs '0' 'x'
      (copies lower '0' 'x' ++ (copies upper '0' 'X' ++ (plus ++ ds))))) = ds := by
  -- neither letter of a prefix can come second in a number
  have hsecond : ∀ b : Char, digitValue? b = none → b ≠ '+' → (plus ++ ds)[1]? ≠ some b := by
    intro b hdigit hsign hb
    rcases List.mem_append.1 (List.mem_of_getElem? hb) with hmem | hmem
    · rcases hplus with rfl | rfl
      · cases hmem
      · exact hsign (List.mem_singleton.1 hmem)
    · exact notMem_of_writes hds hdigit hmem
  have hupper : (copies upper '0' 'X' ++ (plus ++ ds))[1]? ≠ some 'x' := by
    cases upper with
    | zero => exact hsecond 'x' (by decide) (by decide)
    | succ upper =>
      rw [copies_succ]
      show some 'X' ≠ some 'x'
      decide
  rw [dropPairs_copies, dropPairs_of_ne hupper, dropPairs_copies,
    dropPairs_of_ne (hsecond 'X' (by decide) (by decide))]
  rcases hplus with rfl | rfl
  · exact dropPlus_of_notMem (notMem_of_writes hds (by decide))
  · rfl

theorem value?_stripped_iff :
    value? (dropPlus (dropPairs '0' 'X' (dropPairs '0' 'x' text.toList))) = some n
      ↔ Spells text n := by
  constructor
  · intro h
    obtain ⟨lower, hlower⟩ := exists_copies '0' 'x' text.toList
    obtain ⟨upper, hupper⟩ := exists_copies '0' 'X' (dropPairs '0' 'x' text.toList)
    obtain ⟨plus, hplus, hsign⟩ := exists_plus (dropPairs '0' 'X' (dropPairs '0' 'x' text.toList))
    refine ⟨lower, upper, plus, _, hplus, value?_eq_some_iff.1 h, ?_⟩
    rw [← hsign, ← hupper, ← hlower]
  · rintro ⟨lower, upper, plus, ds, hplus, hds, htext⟩
    rw [htext, stripped_eq hplus hds, value?_eq_some_iff]
    exact hds

theorem Spells.unique {n' : Nat} (h : Spells text n) (h' : Spells text n') : n = n' := by
  rw [← value?_stripped_iff] at h h'
  exact Option.some.inj (h.symm.trans h')

/-- **An address is a spelled number that fits.** -/
theorem address?_eq_some_iff {a : UInt16} : address? text = some a ↔ Spells text a.toNat := by
  rw [← value?_stripped_iff, address?]
  cases value? (dropPlus (dropPairs '0' 'X' (dropPairs '0' 'x' text.toList))) with
  | none => simp
  | some v =>
    simp only [Option.some.injEq]
    split
    · next hfits =>
      rw [Option.some.injEq, ← UInt16.toNat_inj, UInt16.toNat_ofNat', Nat.mod_eq_of_lt hfits]
    · next hlarge =>
      have hlt := a.toNat_lt
      exact iff_of_false (by simp) (by omega)

theorem address?_eq_none_iff : address? text = none ↔ ∀ n, Spells text n → 0xFFFF < n := by
  rw [Option.eq_none_iff_forall_ne_some]
  constructor
  · intro h n hn
    by_contra hsmall
    have hn' : (UInt16.ofNat n).toNat = n := by
      rw [UInt16.toNat_ofNat', Nat.mod_eq_of_lt (by omega)]
    exact h (UInt16.ofNat n) (address?_eq_some_iff.2 (hn'.symm ▸ hn))
  · intro h a ha
    have hlarge := h _ (address?_eq_some_iff.1 ha)
    have hlt := a.toNat_lt
    omega

/-- The characters that an address can have: digits, the letters of the prefixes, the sign. -/
def IsAddressCharacter (c : Char) : Prop :=
  c ∈ ['x', 'X', '+'] ∨ ∃ d, IsDigit c d

theorem mem_copies {count : Nat} {a b : Char} (h : c ∈ copies count a b) : c = a ∨ c = b := by
  obtain ⟨pair, hpair, hc⟩ := List.mem_flatten.1 h
  rw [List.eq_of_mem_replicate hpair] at hc
  simpa using hc

theorem isAddressCharacter_of_spells (h : Spells text n) :
    ∀ c ∈ text.toList, IsAddressCharacter c := by
  obtain ⟨lower, upper, plus, ds, hplus, ⟨-, values, hdigits, -⟩, htext⟩ := h
  have hzero : IsAddressCharacter '0' := Or.inr ⟨0, isDigit_of_digitValue? rfl⟩
  intro c hc
  rw [htext, List.mem_append, List.mem_append, List.mem_append] at hc
  rcases hc with hc | hc | hc | hc
  · rcases mem_copies hc with rfl | rfl
    · exact hzero
    · exact Or.inl (by decide)
  · rcases mem_copies hc with rfl | rfl
    · exact hzero
    · exact Or.inl (by decide)
  · rcases hplus with rfl | rfl
    · cases hc
    · rw [List.mem_singleton.1 hc]
      exact Or.inl (by decide)
  · exact Or.inr (isDigit_of_mem hdigits hc)

example : address? "0x0x0X+00fE" = some 0xFE ∧ address? "0X0x1" = none := by decide

/-- The form in which the computer shows an address. -/
theorem address?_shown (a : UInt16) : address? ("0x" ++ word a) = some a := by
  rw [address?_eq_some_iff]
  refine ⟨1, 0, [], digits 4 a.toNat, Or.inl rfl, writes_digits (by decide) a.toNat_lt, ?_⟩
  simp only [word, String.toList_append, String.toList_ofList]
  rfl

end Hexadecimal

namespace CommandLine

open Hexadecimal

variable {d : Draft} {text : String} {rest : List String}

/-! ## One value -/

/-- A draft with one more address to stop at. -/
def Draft.stoppingAt (d : Draft) (a : UInt16) : Draft :=
  { d with options.breakpoints := d.options.breakpoints ++ [a] }

theorem kind?_break :
    kind? "break" = some (.valued (fun _ => false) fun d v => (address? v).map d.stoppingAt) := rfl

/-- Name and value are the text before and after the first equals sign. -/
theorem splitValue_eq {name : String} {value : Option String} {text : List Char}
    (h : splitValue text = (name, value)) :
    text = name.toList ++ (value.elim [] fun v => '=' :: v.toList) := by
  have hparts : text.takeWhile (· ≠ '=') ++ text.dropWhile (· ≠ '=') = text :=
    List.takeWhile_append_dropWhile
  have hfirst := List.head?_dropWhile_not (· ≠ '=') text
  unfold splitValue at h
  generalize text.dropWhile (· ≠ '=') = after at h hparts hfirst
  cases after with
  | nil =>
    cases h
    rw [String.toList_ofList]
    exact hparts.symm
  | cons c after =>
    have hc : c = '=' := by simpa using hfirst
    cases h
    rw [hc] at hparts
    simp only [Option.elim_some, String.toList_ofList]
    exact hparts.symm

/-- An option with its value behind an equals sign. -/
theorem readFrom_joined {name value argument : String} {text : List Char} {isGiven : Draft → Bool}
    {take : Draft → String → Option Draft} (hargument : argument.toList = '-' :: '-' :: text)
    (htext : text ≠ []) (hsplit : splitValue text = (name, some value))
    (hkind : kind? name = some (.valued isGiven take)) :
    readFrom d (argument :: rest)
      = takeValue name isGiven take d value >>= fun d => readFrom d rest := by
  rw [readFrom.eq_def]
  simp only [hargument, hsplit, hkind]

/-- An option with its value in the next argument. -/
theorem readFrom_apart {name value argument : String} {text : List Char} {isGiven : Draft → Bool}
    {take : Draft → String → Option Draft} (hargument : argument.toList = '-' :: '-' :: text)
    (htext : text ≠ []) (hsplit : splitValue text = (name, none)) (hhelp : name ≠ "help")
    (hkind : kind? name = some (.valued isGiven take)) :
    readFrom d (argument :: value :: rest)
      = if isDashed value then .error (.missingValue name)
        else takeValue name isGiven take d value >>= fun d => readFrom d rest := by
  rw [readFrom.eq_def]
  simp only [hargument, hsplit, hkind]

theorem takeValue_break :
    takeValue "break" (fun _ => false) (fun d v => (address? v).map d.stoppingAt) d text
      = (address? text).elim (.error (.invalidValue "break" text)) fun a =>
          .ok (d.stoppingAt a) := by
  rw [takeValue, if_neg Bool.false_ne_true]
  cases address? text <;> rfl

/-- **`--break` and a text**, which must not look like another option. -/
theorem readFrom_break :
    readFrom d ("--break" :: text :: rest)
      = if isDashed text then .error (.missingValue "break")
        else (address? text).elim (.error (.invalidValue "break" text)) fun a =>
          readFrom (d.stoppingAt a) rest := by
  have hargument : "--break".toList = '-' :: '-' :: "break".toList := rfl
  have hsplit : splitValue "break".toList = ("break", none) := by decide
  rw [readFrom_apart hargument (List.cons_ne_nil _ _) hsplit (by decide) kind?_break,
    takeValue_break]
  cases address? text <;> rfl

/-- **`--break=` and a text.** -/
theorem readFrom_break_joined :
    readFrom d (("--break=" ++ text) :: rest)
      = (address? text).elim (.error (.invalidValue "break" text)) fun a =>
          readFrom (d.stoppingAt a) rest := by
  have hargument :
      ("--break=" ++ text).toList = '-' :: '-' :: ("break=".toList ++ text.toList) := by
    rw [String.toList_append]
    rfl
  have hname : ("break=".toList ++ text.toList).takeWhile (· ≠ '=') = "break".toList := rfl
  have hvalue : ("break=".toList ++ text.toList).dropWhile (· ≠ '=') = '=' :: text.toList := rfl
  have hsplit : splitValue ("break=".toList ++ text.toList) = ("break", some text) := by
    rw [splitValue]
    simp only [hname, hvalue, String.ofList_toList]
  rw [readFrom_joined hargument (List.cons_ne_nil _ _) hsplit kind?_break, takeValue_break]
  cases address? text <;> rfl

/-- What spells an address does not look like an option. -/
theorem isDashed_of_spells {n : Nat} (h : Spells text n) : isDashed text = false := by
  have hdash : '-' ∉ text.toList := by
    intro hmem
    rcases isAddressCharacter_of_spells h '-' hmem with hletter | ⟨d, hd⟩
    · exact absurd hletter (by decide)
    · exact Option.some_ne_none d (digitValue?_of_isDigit hd).symm
  unfold isDashed
  split
  · next htext =>
    rw [htext] at hdash
    exact absurd List.mem_cons_self hdash
  · rfl

theorem breakpoints_of_map {α : Type} {x : Option α} {f : α → Draft} {d' : Draft}
    (h : x.map f = some d') (hf : ∀ a, (f a).options.breakpoints = d.options.breakpoints) :
    d'.options.breakpoints = d.options.breakpoints := by
  obtain ⟨a, -, rfl⟩ := Option.map_eq_some_iff.1 h
  exact hf a

/-- Only `--break` takes a value that is an address to stop at. -/
theorem breakpoints_takeValue {name value : String} {isGiven : Draft → Bool}
    {take : Draft → String → Option Draft} {d' : Draft}
    (hkind : kind? name = some (.valued isGiven take))
    (h : takeValue name isGiven take d value = .ok d') :
    (name = "break" ∧ ∃ a, address? value = some a ∧ d' = d.stoppingAt a)
      ∨ d'.options.breakpoints = d.options.breakpoints := by
  have htake : take d value = some d' := by
    unfold takeValue at h
    split at h
    · cases h
    · split at h
      · next hd =>
        cases h
        exact hd
      · cases h
  unfold kind? at hkind
  split at hkind
  all_goals cases hkind
  · exact Or.inr (breakpoints_of_map htake fun _ => rfl)
  · exact Or.inr (breakpoints_of_map htake fun _ => rfl)
  · exact Or.inr (breakpoints_of_map htake fun _ => rfl)
  · simp only at htake
    split at htake
    · cases htake
    · cases htake
      exact Or.inr rfl
  · obtain ⟨a, ha, rfl⟩ := Option.map_eq_some_iff.1 htake
    exact Or.inl ⟨rfl, a, ha, rfl⟩
  · exact Or.inr (breakpoints_of_map htake fun _ => rfl)

/-- A switch leaves alone what a run stops at. -/
theorem breakpoints_turnOn {name : String} {isOn : Options → Bool} {turnOn : Options → Options}
    (hkind : kind? name = some (.switch isOn turnOn)) (o : Options) :
    (turnOn o).breakpoints = o.breakpoints := by
  unfold kind? at hkind
  split at hkind
  all_goals
    cases hkind
    try rfl

/-! ## Runs -/

/-- Whether a text was given among the arguments as an address to stop at. -/
def GivenIn (arguments : List String) (text : String) : Prop :=
  ["--break", text] <:+: arguments ∨ "--break=" ++ text ∈ arguments

/-- After the addresses known before come those that texts among the arguments spell. -/
def StopsAt (arguments : List String) (before after : List UInt16) : Prop :=
  ∃ given : List (String × UInt16), after = before ++ given.map Prod.snd
    ∧ ∀ g ∈ given, GivenIn arguments g.1 ∧ Spells g.1 g.2.toNat

variable {arguments : List String} {before after : List UInt16} {o : Options} {d' : Draft}

theorem stopsAt_self (arguments : List String) (before : List UInt16) :
    StopsAt arguments before before :=
  ⟨[], (List.append_nil _).symm, fun _ h => absurd h List.not_mem_nil⟩

theorem GivenIn.of_suffix (h : GivenIn rest text) (hrest : rest <:+ arguments) :
    GivenIn arguments text :=
  h.imp (fun h => h.trans hrest.isInfix) (fun h => hrest.subset h)

theorem StopsAt.of_suffix (h : StopsAt rest before after) (hrest : rest <:+ arguments) :
    StopsAt arguments before after := by
  obtain ⟨given, hafter, hgiven⟩ := h
  exact ⟨given, hafter, fun g hg => ⟨(hgiven g hg).1.of_suffix hrest, (hgiven g hg).2⟩⟩

theorem StopsAt.cons {a : UInt16} (h : StopsAt arguments (before ++ [a]) after)
    (htext : GivenIn arguments text) (ha : Spells text a.toNat) :
    StopsAt arguments before after := by
  obtain ⟨given, hafter, hgiven⟩ := h
  refine ⟨(text, a) :: given, ?_, List.forall_mem_cons.2 ⟨⟨htext, ha⟩, hgiven⟩⟩
  rw [hafter, List.append_assoc]
  rfl

theorem exists_of_bind_eq_ok {α β : Type} {x : Except Error α} {next : α → Except Error β} {b : β}
    (h : x >>= next = .ok b) : ∃ a, x = .ok a ∧ next a = .ok b := by
  cases x with
  | error e => cases h
  | ok a => exact ⟨a, rfl, h⟩

theorem breakpoints_finish (h : finish d = .ok (.run o)) :
    o.breakpoints = d.options.breakpoints := by
  unfold finish at h
  split at h
  · cases h
    rfl
  · cases h

theorem options_takePath {path : String} (h : takePath d path = .ok d') :
    d'.options = d.options := by
  unfold takePath at h
  split at h
  · cases h
  · split at h
    · cases h
    · cases h
      rfl

theorem options_takePaths (h : takePaths d rest = .ok d') : d'.options = d.options := by
  induction rest generalizing d with
  | nil =>
    cases h
    rfl
  | cons path rest ih =>
    obtain ⟨next, hpath, hrest⟩ := exists_of_bind_eq_ok h
    rw [ih hrest, options_takePath hpath]

/-- **Step lemma.**  A value that is taken adds at most the address that it spells. -/
theorem stopsAt_takeValue {name value : String} {isGiven : Draft → Bool}
    {take : Draft → String → Option Draft} (hkind : kind? name = some (.valued isGiven take))
    (h : takeValue name isGiven take d value = .ok d')
    (hgiven : name = "break" → GivenIn arguments value)
    (hrest : StopsAt arguments d'.options.breakpoints after) :
    StopsAt arguments d.options.breakpoints after := by
  rcases breakpoints_takeValue hkind h with ⟨hname, a, ha, rfl⟩ | hkept
  · rw [address?_eq_some_iff] at ha
    exact StopsAt.cons hrest (hgiven hname) ha
  · rw [← hkept]
    exact hrest

/-- **Run lemma.**  What is stopped at was given among the arguments. -/
theorem stopsAt_readFrom (h : readFrom d arguments = .ok (.run o)) :
    StopsAt arguments d.options.breakpoints o.breakpoints := by
  fun_induction readFrom d arguments with
  | case1 d =>
    rw [breakpoints_finish h]
    exact stopsAt_self _ _
  | case2 d path rest hdashes =>
    obtain ⟨d', hpaths, hfinish⟩ := exists_of_bind_eq_ok h
    rw [breakpoints_finish hfinish, options_takePaths hpaths]
    exact stopsAt_self _ _
  | case3 => cases h
  | case4 d path rest text hne hpath name isOn turnOn hkind hon hhelp hsplit =>
    simp only [hkind, if_pos hon] at h
    cases h
  | case5 d path rest text hne hpath name isOn turnOn hkind hon hhelp hsplit ih =>
    simp only [hkind, if_neg hon] at h
    have hrest := (ih h).of_suffix (List.suffix_cons path rest)
    rwa [breakpoints_turnOn hkind] at hrest
  | case6 d path rest text hne hpath name value isGiven take hkind hsplit ih =>
    simp only [hkind] at h
    obtain ⟨d', htake, hrest⟩ := exists_of_bind_eq_ok h
    refine stopsAt_takeValue hkind htake ?_ ((ih d' hrest).of_suffix (List.suffix_cons path rest))
    rintro rfl
    refine Or.inr (List.mem_cons.2 (Or.inl ?_))
    rw [← String.toList_inj, hpath, splitValue_eq hsplit, String.toList_append]
    rfl
  | case7 d path text hne hpath name isGiven take hkind hhelp hsplit =>
    simp only [hkind] at h
    cases h
  | case8 d path text hne hpath name isGiven take hkind value rest hdashed hhelp hsplit =>
    simp only [hkind, if_pos hdashed] at h
    cases h
  | case9 d path text hne hpath name isGiven take hkind value rest hdashed hhelp hsplit ih =>
    simp only [hkind, if_neg hdashed] at h
    obtain ⟨d', htake, hrest⟩ := exists_of_bind_eq_ok h
    refine stopsAt_takeValue hkind htake ?_
      ((ih d' hrest).of_suffix ((List.suffix_cons value rest).trans (List.suffix_cons path _)))
    rintro rfl
    have hbreak : path = "--break" := by
      rw [← String.toList_inj, hpath, splitValue_eq hsplit]
      rfl
    rw [hbreak]
    exact Or.inl (List.prefix_append ["--break", value] rest).isInfix
  | case10 d path rest text hne hpath name value hsplit hhelp hswitch hjoined hapart =>
    simp only at h
    cases h
  | case11 => cases h
  | case12 => cases h
  | case13 d path rest _ _ _ _ ih =>
    obtain ⟨d', hpath, hrest⟩ := exists_of_bind_eq_ok h
    have hrest := (ih d' hrest).of_suffix (List.suffix_cons path rest)
    rwa [options_takePath hpath] at hrest

/-- What is known of a text as an address. -/
structure ReadsExactly (text : String) : Prop where
  /-- It is an address if and only if it spells it. -/
  accepted : ∀ a, address? text = some a ↔ Spells text a.toNat
  /-- It is rejected if and only if what it spells, if anything, is too large. -/
  rejected : address? text = none ↔ ∀ n, Spells text n → 0xFFFF < n
  /-- It does not spell two numbers. -/
  unique : ∀ n n', Spells text n → Spells text n' → n = n'
  /-- With a sign other than plus, a blank or any other character, it spells nothing. -/
  characters : ∀ n, Spells text n → ∀ c ∈ text.toList, IsAddressCharacter c
  /-- Given to `--break` in either way, the address that it spells is stopped at. -/
  stops : ∀ d a rest, Spells text a.toNat →
    readFrom d ("--break" :: text :: rest) = readFrom (d.stoppingAt a) rest
      ∧ readFrom d (("--break=" ++ text) :: rest) = readFrom (d.stoppingAt a) rest
  /-- If it is rejected, so are the arguments. -/
  refused : ∀ d rest, address? text = none →
    (∃ e, readFrom d ("--break" :: text :: rest) = .error e)
      ∧ ∃ e, readFrom d (("--break=" ++ text) :: rest) = .error e

theorem readsExactly (text : String) : ReadsExactly text where
  accepted _ := address?_eq_some_iff
  rejected := address?_eq_none_iff
  unique _ _ h h' := h.unique h'
  characters _ h := isAddressCharacter_of_spells h
  stops d a rest h := by
    rw [readFrom_break, isDashed_of_spells h, readFrom_break_joined, address?_eq_some_iff.2 h]
    exact ⟨rfl, rfl⟩
  refused d rest h := by
    rw [readFrom_break, readFrom_break_joined, h]
    refine ⟨?_, _, rfl⟩
    split
    · exact ⟨_, rfl⟩
    · exact ⟨_, rfl⟩

/-- How addresses are read, wherever they come from. -/
structure AddressesExact : Prop where
  text : ∀ text, ReadsExactly text
  /-- What the computer shows is read back. -/
  shown : ∀ a, address? ("0x" ++ word a) = some a
  /-- A run stops at addresses that its arguments spell, and at no others. -/
  run : ∀ arguments o, read arguments = .ok (.run o) → StopsAt arguments [] o.breakpoints

/-- **Addresses are read exactly.** -/
theorem addressesExact : AddressesExact where
  text := readsExactly
  shown := address?_shown
  run _ _ := stopsAt_readFrom

end CommandLine

end FantasyComputer
