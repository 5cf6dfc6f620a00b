/-
# FantasyComputer.Proofs.Surroundings — what the acts of a pass leave alone.

A session has a machine and its history, and around them files, a gamepad and the keys of the last
pass.  Of all that happens in a pass only the gamepad's events change the gamepad, and only a
screenshot and a saved state change the files.  The other acts, loading, resetting and running the
machine among them, keep these `Surroundings`.

`surroundings_next` says so of a whole pass: what surrounds the session at its end is what
surrounded it once the state had been saved, with the keys of the pass as those last held.
-/
import FantasyComputer.Proofs.TimeTravel

namespace FantasyComputer.Windowed.Session

/-- What a session has besides its machine, the machine's history, the window and the reports. -/
structure Surroundings where
  files : FileSystem
  screenshots : Nat
  gamepad : Gamepad
  held : List Key

/-- The surroundings of a session. -/
def surroundings (s : Session) : Surroundings :=
  { files := s.files
    screenshots := s.screenshots
    gamepad := s.gamepad
    held := s.held }

variable {setup : Setup} {pass : Pass} {s : Session}

/-! ## Acts one by one -/

/-- What an act keeps is kept whether or not its key is struck. -/
theorem onStrike_keeps {α : Type} (part : Session → α) (key : Key) {act : Session → Session}
    (h : ∀ s, part (act s) = part s) (pass : Pass) (s : Session) :
    part (onStrike pass key act s) = part s := by
  unfold onStrike
  split
  · exact h s
  · rfl

theorem surroundings_rescale (pass : Pass) (scales : List Nat) (before : Session × List Display) :
    (scales.foldl (rescale pass) before).1.surroundings = before.1.surroundings := by
  induction scales generalizing before with
  | nil => rfl
  | cons scale scales ih =>
    rw [List.foldl_cons, ih]
    unfold rescale
    simp only
    split <;> rfl

/-- An act that touches only the machine, its history and the reports. -/
def ActsInside (act : Session → Session) : Prop :=
  ∀ s, ∃ machine rewind transcript, act s = { s with machine, rewind, transcript }

/-- An act that touches only the files and the reports. -/
def ActsOnFiles (act : Session → Session) : Prop :=
  ∀ s, ∃ files screenshots transcript, act s = { s with files, screenshots, transcript }

section Acts

variable {act : Session → Session}

theorem ActsInside.surroundings (h : ActsInside act) (s : Session) :
    (act s).surroundings = s.surroundings := by
  obtain ⟨machine, rewind, transcript, hact⟩ := h s
  rw [hact]
  rfl

theorem ActsInside.scale (h : ActsInside act) (s : Session) : (act s).scale = s.scale := by
  obtain ⟨machine, rewind, transcript, hact⟩ := h s
  rw [hact]

theorem ActsOnFiles.gamepad (h : ActsOnFiles act) (s : Session) :
    (act s).gamepad = s.gamepad := by
  obtain ⟨files, screenshots, transcript, hact⟩ := h s
  rw [hact]

theorem ActsOnFiles.scale (h : ActsOnFiles act) (s : Session) : (act s).scale = s.scale := by
  obtain ⟨files, screenshots, transcript, hact⟩ := h s
  rw [hact]

end Acts

theorem actsInside_showRegisters : ActsInside showRegisters :=
  fun _ => ⟨_, _, _, rfl⟩

theorem actsInside_quickLoad (codec : Codec) (path : String) :
    ActsInside (quickLoad codec path) := by
  intro s
  unfold quickLoad
  split
  · exact ⟨_, _, _, rfl⟩
  · split <;> exact ⟨_, _, _, rfl⟩

theorem actsInside_reinsert (image : Bytes) : ActsInside (reinsert image) := by
  intro s
  unfold reinsert
  split <;> exact ⟨_, _, _, rfl⟩

theorem actsInside_goBack : ActsInside goBack := by
  intro s
  unfold goBack
  split <;> exact ⟨_, _, _, rfl⟩

theorem actsInside_record : ActsInside record := by
  intro s
  unfold record
  simp only
  split <;> exact ⟨_, _, _, rfl⟩

theorem actsInside_runFrame : ActsInside runFrame := by
  intro s
  -- the frame and what is remembered of it come first, the instruction at a breakpoint after them
  obtain ⟨machine, rewind, transcript, hframe⟩ : ∃ machine rewind transcript,
      (if s.machine.stepFrame.1 then { s with machine := s.machine.stepFrame.2 }.settle.record
        else { s with machine := s.machine.stepFrame.2 }.settle)
      = { s with machine, rewind, transcript } := by
    split
    · exact actsInside_record { s with machine := s.machine.stepFrame.2 }.settle
    · exact ⟨_, _, _, rfl⟩
  unfold runFrame
  simp only [hframe]
  split <;> exact ⟨_, _, _, rfl⟩

theorem actsOnFiles_takeScreenshot (codec : Codec) : ActsOnFiles (takeScreenshot codec) := by
  intro s
  unfold takeScreenshot
  simp only
  split <;> exact ⟨_, _, _, rfl⟩

theorem actsOnFiles_quickSave (codec : Codec) (path : String) :
    ActsOnFiles (quickSave codec path) := by
  intro s
  unfold quickSave
  split <;> exact ⟨_, _, _, rfl⟩

theorem surroundings_events (events : List PadEvent) (s : Session) :
    (events.foldl handleEvent s).surroundings
      = { s.surroundings with gamepad := events.foldl Gamepad.handle s.gamepad } := by
  induction events generalizing s with
  | nil => rfl
  | cons event events ih =>
    have hevent : (s.handleEvent event).surroundings
        = { s.surroundings with gamepad := s.gamepad.handle event } := by
      unfold handleEvent
      split <;> rfl
    have hgamepad : (s.handleEvent event).gamepad = s.gamepad.handle event :=
      congrArg Surroundings.gamepad hevent
    rw [List.foldl_cons, ih, hevent, hgamepad]
    rfl

/-! ## Passes -/

/-- The session once the events and the scale of a pass have been dealt with. -/
def afterScaling (setup : Setup) (pass : Pass) (s : Session) : Session :=
  (scales.foldl (rescale pass)
    (if setup.padsAvailable then pass.events.foldl handleEvent s else s, [])).1

theorem afterSaving_eq (setup : Setup) (pass : Pass) (s : Session) :
    s.afterSaving setup pass
      = onStrike pass .f5 (quickSave setup.states setup.statePath)
          (onStrike pass .d showRegisters
            (onStrike pass .s (takeScreenshot setup.pictures) (s.afterScaling setup pass))) := rfl

theorem surroundings_afterScaling (setup : Setup) (pass : Pass) (s : Session) :
    (s.afterScaling setup pass).surroundings
      = { s.surroundings with
          gamepad := if setup.padsAvailable then pass.events.foldl Gamepad.handle s.gamepad
            else s.gamepad } := by
  rw [afterScaling, surroundings_rescale]
  split
  · exact surroundings_events _ _
  · rfl

theorem surroundings_afterKeys (setup : Setup) (pass : Pass) (s : Session) :
    (s.afterKeys setup pass).surroundings = (s.afterSaving setup pass).surroundings := by
  rw [afterKeys, onStrike_keeps surroundings .r (actsInside_reinsert setup.image).surroundings,
    afterLoading,
    onStrike_keeps surroundings .f9 (actsInside_quickLoad _ _).surroundings]

theorem surroundings_prepare (setup : Setup) (pass : Pass) (s : Session) :
    (s.prepare setup pass).1.surroundings
      = { (s.afterSaving setup pass).surroundings with held := pass.keys } := by
  rw [← surroundings_afterKeys]
  rfl

/-- **A pass keeps its surroundings** from the moment the state has been saved. -/
theorem surroundings_next (setup : Setup) (pass : Pass) (s : Session) :
    (s.next setup pass).surroundings
      = { (s.afterSaving setup pass).surroundings with held := pass.keys } := by
  rw [← surroundings_prepare, next, perform_fst]
  split
  · exact actsInside_goBack.surroundings _
  · exact actsInside_runFrame.surroundings _

/-- The gamepad of a pass has seen the events of the pass. -/
theorem gamepad_afterSaving (hpads : setup.padsAvailable = true) (pass : Pass) (s : Session) :
    (s.afterSaving setup pass).gamepad = pass.events.foldl Gamepad.handle s.gamepad := by
  have hregisters : ∀ s : Session, s.showRegisters.gamepad = s.gamepad :=
    fun s => congrArg Surroundings.gamepad (actsInside_showRegisters.surroundings s)
  rw [afterSaving_eq, onStrike_keeps gamepad .f5 (actsOnFiles_quickSave _ _).gamepad,
    onStrike_keeps gamepad .d hregisters,
    onStrike_keeps gamepad .s (actsOnFiles_takeScreenshot _).gamepad]
  have hscaled := congrArg Surroundings.gamepad (surroundings_afterScaling setup pass s)
  simp only [hpads, if_true] at hscaled
  exact hscaled

end FantasyComputer.Windowed.Session
