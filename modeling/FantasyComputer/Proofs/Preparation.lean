/-
# FantasyComputer.Proofs.Preparation — what the keys of a pass do before its frame.

Most of what a pass does before it runs a frame or goes back leaves the machine and the history
alone: gamepad events, a new scale, a screenshot, the registers on the screen, a saved state.  Two
keys change both, and only when they succeed: `F9` and `R`.  `forgets` says when that is.

`rewind_prepare` and `machine_prepare` are what later proofs use: a pass that forgets has an
empty history, and in any other pass the history stays and the machine only sees its buttons
change.
-/
import FantasyComputer.Proofs.Passes
import FantasyComputer.Proofs.RingStack

namespace FantasyComputer

theorem Rewind.clear_clear (r : Rewind) : r.clear.clear = r.clear :=
  congrArg (Rewind.mk · r.interval 0) (Ring.clear_clear r.history)

namespace Windowed.Session

/-! ## Acts that leave the machine and its history alone -/

/-- Two sessions with the same machine, the same history and the same keys held. -/
structure SameRun (s s' : Session) : Prop where
  machine : s.machine = s'.machine
  rewind : s.rewind = s'.rewind
  held : s.held = s'.held

theorem SameRun.refl (s : Session) : SameRun s s := ⟨rfl, rfl, rfl⟩

theorem SameRun.trans {s s' s'' : Session} (h : SameRun s s') (h' : SameRun s' s'') :
    SameRun s s'' :=
  ⟨h.machine.trans h'.machine, h.rewind.trans h'.rewind, h.held.trans h'.held⟩

theorem SameRun.struck {s s' : Session} (h : SameRun s s') (pass : Pass) (key : Key) :
    s.struck pass key = s'.struck pass key := by
  rw [Session.struck, Session.struck, h.held]

theorem sameRun_onStrike (pass : Pass) (key : Key) {act : Session → Session}
    (h : ∀ s, SameRun (act s) s) (s : Session) : SameRun (onStrike pass key act s) s := by
  unfold onStrike
  split
  · exact h s
  · exact SameRun.refl s

theorem sameRun_handleEvent (s : Session) (event : PadEvent) : SameRun (s.handleEvent event) s := by
  unfold handleEvent
  split <;> exact ⟨rfl, rfl, rfl⟩

theorem sameRun_events (events : List PadEvent) (s : Session) :
    SameRun (events.foldl handleEvent s) s := by
  induction events generalizing s with
  | nil => exact SameRun.refl s
  | cons event events ih => exact (ih _).trans (sameRun_handleEvent s event)

theorem sameRun_rescale (pass : Pass) (scales : List Nat) (before : Session × List Display) :
    SameRun (scales.foldl (rescale pass) before).1 before.1 := by
  induction scales generalizing before with
  | nil => exact SameRun.refl _
  | cons scale scales ih =>
    apply (ih _).trans
    unfold rescale
    simp only
    split <;> exact ⟨rfl, rfl, rfl⟩

theorem sameRun_takeScreenshot (codec : Codec) (s : Session) :
    SameRun (s.takeScreenshot codec) s := by
  unfold takeScreenshot
  simp only
  split <;> exact ⟨rfl, rfl, rfl⟩

theorem sameRun_showRegisters (s : Session) : SameRun s.showRegisters s := ⟨rfl, rfl, rfl⟩

theorem sameRun_quickSave (codec : Codec) (path : String) (s : Session) :
    SameRun (quickSave codec path s) s := by
  unfold quickSave
  split <;> exact ⟨rfl, rfl, rfl⟩

/-- The session up to the key that saves the state. -/
def afterSaving (setup : Setup) (pass : Pass) (s : Session) : Session :=
  let s := if setup.padsAvailable then pass.events.foldl handleEvent s else s
  let s := (scales.foldl (rescale pass) (s, [])).1
  onStrike pass .f5 (quickSave setup.states setup.statePath)
    (onStrike pass .d showRegisters (onStrike pass .s (takeScreenshot setup.pictures) s))

theorem sameRun_afterSaving (setup : Setup) (pass : Pass) (s : Session) :
    SameRun (s.afterSaving setup pass) s := by
  unfold afterSaving
  simp only
  -- from the last act to the first
  apply (sameRun_onStrike pass .f5 (sameRun_quickSave _ _) _).trans
  apply (sameRun_onStrike pass .d sameRun_showRegisters _).trans
  apply (sameRun_onStrike pass .s (sameRun_takeScreenshot _) _).trans
  apply (sameRun_rescale pass scales _).trans
  split
  · exact sameRun_events _ _
  · exact SameRun.refl s

/-! ## Acts that forget the history -/

/-- Whether there is a state to be loaded. -/
def canLoad (codec : Codec) (path : String) (s : Session) : Bool :=
  match s.files.read path with
  | .ok file => (SaveState.decode file codec).toBool
  | .error _ => false

/-- Whether the keys of a pass load a state. -/
def loads (setup : Setup) (pass : Pass) (s : Session) : Bool :=
  s.struck pass .f9 && (s.afterSaving setup pass).canLoad setup.states setup.statePath

/-- Whether the keys of a pass put the cartridge in again. -/
def reinserts (setup : Setup) (pass : Pass) (s : Session) : Bool :=
  s.struck pass .r && (Cartridge.parse setup.image).toBool

/-- Whether a pass forgets the history. -/
def forgets (setup : Setup) (pass : Pass) (s : Session) : Bool :=
  s.loads setup pass || s.reinserts setup pass

theorem quickLoad_of_canLoad {codec : Codec} {path : String} {s : Session}
    (h : s.canLoad codec path = true) :
    (quickLoad codec path s).rewind = s.rewind.clear ∧ (quickLoad codec path s).held = s.held := by
  unfold canLoad at h
  unfold quickLoad
  split at h
  · next file hread =>
    simp only [hread]
    cases hdecode : SaveState.decode file codec with
    | error e =>
      rw [hdecode] at h
      exact absurd h Bool.false_ne_true
    | ok state => exact ⟨rfl, rfl⟩
  · exact absurd h Bool.false_ne_true

theorem quickLoad_of_not_canLoad {codec : Codec} {path : String} {s : Session}
    (h : s.canLoad codec path = false) : SameRun (quickLoad codec path s) s := by
  unfold canLoad at h
  unfold quickLoad
  split at h
  · next file hread =>
    simp only [hread]
    cases hdecode : SaveState.decode file codec with
    | error e => exact ⟨rfl, rfl, rfl⟩
    | ok state =>
      rw [hdecode] at h
      exact absurd h.symm Bool.false_ne_true
  · next hread =>
    simp only [hread]
    exact ⟨rfl, rfl, rfl⟩

theorem reinsert_of_parse {image : Bytes} (h : (Cartridge.parse image).toBool = true)
    (s : Session) : (reinsert image s).rewind = s.rewind.clear := by
  unfold reinsert Machine.insert
  cases hparse : Cartridge.parse image with
  | error e =>
    rw [hparse] at h
    exact absurd h Bool.false_ne_true
  | ok cartridge => rfl

theorem reinsert_of_not_parse {image : Bytes} (h : (Cartridge.parse image).toBool = false)
    (s : Session) :
    (reinsert image s).machine = s.machine.silent ∧ (reinsert image s).rewind = s.rewind := by
  unfold reinsert Machine.insert
  cases hparse : Cartridge.parse image with
  | error e => exact ⟨rfl, rfl⟩
  | ok cartridge =>
    rw [hparse] at h
    exact absurd h.symm Bool.false_ne_true

/-! ## A pass before its frame -/

theorem onStrike_of_struck {pass : Pass} {key : Key} {s : Session} (h : s.struck pass key = true)
    (act : Session → Session) : onStrike pass key act s = act s :=
  if_pos h

theorem onStrike_of_not_struck {pass : Pass} {key : Key} {s : Session}
    (h : s.struck pass key = false) (act : Session → Session) : onStrike pass key act s = s :=
  if_neg (by rw [h]; exact Bool.false_ne_true)

/-- The session once `F9` has been acted on. -/
def afterLoading (setup : Setup) (pass : Pass) (s : Session) : Session :=
  onStrike pass .f9 (quickLoad setup.states setup.statePath) (s.afterSaving setup pass)

/-- The session once all keys have been acted on. -/
def afterKeys (setup : Setup) (pass : Pass) (s : Session) : Session :=
  onStrike pass .r (reinsert setup.image) (s.afterLoading setup pass)

theorem prepare_fst (setup : Setup) (pass : Pass) (s : Session) :
    (s.prepare setup pass).1
      = setButtons pass { s.afterKeys setup pass with held := pass.keys } := rfl

variable {setup : Setup} {pass : Pass} {s : Session}

theorem afterLoading_of_loads (h : s.loads setup pass = true) :
    (s.afterLoading setup pass).rewind = s.rewind.clear
      ∧ (s.afterLoading setup pass).held = s.held := by
  have hsame := sameRun_afterSaving setup pass s
  obtain ⟨hstruck, hload⟩ := Bool.and_eq_true_iff.mp h
  rw [afterLoading, onStrike_of_struck ((hsame.struck pass .f9).trans hstruck), ← hsame.rewind,
    ← hsame.held]
  exact quickLoad_of_canLoad hload

theorem afterLoading_of_not_loads (h : s.loads setup pass = false) :
    SameRun (s.afterLoading setup pass) s := by
  have hsame := sameRun_afterSaving setup pass s
  refine SameRun.trans ?_ hsame
  cases hstruck : (s.afterSaving setup pass).struck pass .f9 with
  | false =>
    rw [afterLoading, onStrike_of_not_struck hstruck]
    exact SameRun.refl _
  | true =>
    rw [loads, ← hsame.struck pass .f9, hstruck, Bool.true_and] at h
    rw [afterLoading, onStrike_of_struck hstruck]
    exact quickLoad_of_not_canLoad h

theorem rewind_afterLoading (setup : Setup) (pass : Pass) (s : Session) :
    (s.afterLoading setup pass).rewind
      = if s.loads setup pass then s.rewind.clear else s.rewind := by
  cases hload : s.loads setup pass with
  | true => exact (afterLoading_of_loads hload).1
  | false => exact (afterLoading_of_not_loads hload).rewind

theorem held_afterLoading (setup : Setup) (pass : Pass) (s : Session) :
    (s.afterLoading setup pass).held = s.held := by
  cases hload : s.loads setup pass with
  | true => exact (afterLoading_of_loads hload).2
  | false => exact (afterLoading_of_not_loads hload).held

theorem struck_afterLoading (setup : Setup) (pass : Pass) (s : Session) (key : Key) :
    (s.afterLoading setup pass).struck pass key = s.struck pass key := by
  rw [struck, struck, held_afterLoading]

theorem afterKeys_of_reinserts (h : s.reinserts setup pass = true) :
    (s.afterKeys setup pass).rewind = (s.afterLoading setup pass).rewind.clear := by
  obtain ⟨hstruck, hparse⟩ := Bool.and_eq_true_iff.mp h
  rw [afterKeys, onStrike_of_struck ((struck_afterLoading setup pass s .r).trans hstruck)]
  exact reinsert_of_parse hparse _

theorem afterKeys_of_not_reinserts (h : s.reinserts setup pass = false) :
    (s.afterKeys setup pass).machine.silent = (s.afterLoading setup pass).machine.silent
      ∧ (s.afterKeys setup pass).rewind = (s.afterLoading setup pass).rewind := by
  cases hstruck : (s.afterLoading setup pass).struck pass .r with
  | false =>
    rw [afterKeys, onStrike_of_not_struck hstruck]
    exact ⟨rfl, rfl⟩
  | true =>
    rw [reinserts, ← struck_afterLoading setup pass s .r, hstruck, Bool.true_and] at h
    obtain ⟨hmachine, hrewind⟩ := reinsert_of_not_parse h (s.afterLoading setup pass)
    rw [afterKeys, onStrike_of_struck hstruck, hmachine, hrewind]
    exact ⟨rfl, rfl⟩

theorem machine_setButtons (pass : Pass) (s : Session) :
    (setButtons pass s).machine = s.machine.setInput (heldMask s.gamepad pass) := rfl

/-- **The history before the frame.**  It is as it was, or forgotten. -/
theorem rewind_prepare (setup : Setup) (pass : Pass) (s : Session) :
    (s.prepare setup pass).1.rewind
      = if s.forgets setup pass then s.rewind.clear else s.rewind := by
  have hkeys : (s.prepare setup pass).1.rewind = (s.afterKeys setup pass).rewind := rfl
  have hloading := rewind_afterLoading setup pass s
  rw [hkeys, forgets]
  cases hput : s.reinserts setup pass with
  | false =>
    rw [(afterKeys_of_not_reinserts hput).2, hloading, Bool.or_false]
  | true =>
    rw [afterKeys_of_reinserts hput, hloading, Bool.or_true, if_pos rfl]
    split
    · exact Rewind.clear_clear _
    · rfl

/-- **The machine before the frame.**  Unless the pass forgets, only the buttons are set. -/
theorem machine_prepare (h : s.forgets setup pass = false) :
    ∃ mask, (s.prepare setup pass).1.machine.silent = (s.machine.setInput mask).silent := by
  obtain ⟨hload, hput⟩ := Bool.or_eq_false_iff.mp h
  have hkeys : (s.afterKeys setup pass).machine.silent = s.machine.silent := by
    rw [(afterKeys_of_not_reinserts hput).1, (afterLoading_of_not_loads hload).machine]
  refine ⟨heldMask (s.afterKeys setup pass).gamepad pass, ?_⟩
  rw [prepare_fst, machine_setButtons, ← Machine.silent_setInput, hkeys, Machine.silent_setInput]

end Windowed.Session

end FantasyComputer
