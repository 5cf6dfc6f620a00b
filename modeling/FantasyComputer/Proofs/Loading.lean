/-
# FantasyComputer.Proofs.Loading — a save state is loaded as a whole or not at all.

A file is data from outside: it may be no save state, and the regions of one may be shorter or
longer than the machine's.  A region is laid over what the machine holds (`Overlaid`), every other
part of the machine is either replaced or kept (`Resumed`), and nothing in between is ever to be
seen, since a file that is refused leaves a machine and its session alone.

A file with regions of full size replaces all that a save state has.  Of a row of such files the
last one that is accepted decides (`saveState_loadAll`), however many are refused before and after
it.
-/
import FantasyComputer.Proofs.Preparation
import FantasyComputer.Proofs.Resumption

namespace FantasyComputer

/-! ## Regions -/

/-- A region after an image was laid over it: the image as far as the region reaches, and then the
bytes that were there before. -/
def Overlaid (image : Array UInt8) {size : Nat} (before after : Vector UInt8 size) : Prop :=
  after.toList = image.toList.take size ++ before.toList.drop image.size

theorem overlaid_overlay (image : Array UInt8) {size : Nat} (region : Vector UInt8 size) :
    Overlaid image region (overlay image region) := by
  apply List.ext_getElem
  · simp
    omega
  · intro i hi _
    have hsize : i < size := by simpa using hi
    rw [Vector.getElem_toList, getElem_overlay]
    rcases Nat.lt_or_ge i image.size with hin | hout
    · rw [List.getElem_append_left (by simp; omega)]
      simp [hin]
    · rw [List.getElem_append_right (by simp; omega)]
      have hplace : image.size + (i - min size image.size) = i := by omega
      simp [hout, hplace]

/-- An image of the full size is all that remains. -/
theorem toArray_overlay {image : Array UInt8} {size : Nat} (hsize : image.size = size)
    (region : Vector UInt8 size) : (overlay image region).toArray = image :=
  congrArg Vector.toArray (overlay_toArray (Vector.mk image hsize) region)

/-- A save state with regions of the sizes that a machine has. -/
structure SaveState.FullSize (s : SaveState) : Prop where
  ram : s.ram.size = ramSize
  video : s.video.size = videoSize
  io : s.io.size = ioSize
  rom : s.rom.size = romSize

theorem SaveState.fullSize_saveState (m : Machine) : m.saveState.FullSize :=
  ⟨Vector.size_toArray _, Vector.size_toArray _, Vector.size_toArray _, Vector.size_toArray _⟩

namespace Machine

variable {m m' : Machine} {s : SaveState} {file : Bytes} {codec : Codec}

/-! ## What a save state replaces -/

/-- A machine `m'` that was `m` before a save state was put back. -/
structure Resumed (m : Machine) (s : SaveState) (m' : Machine) : Prop where
  registers : m'.registers = s.registers
  cycles : m'.cycles = s.cycles
  running : m'.running = s.running
  frameCount : m'.frameCount = s.frameCount
  palette : m'.memory.palette = s.palette
  ram : Overlaid s.ram m.memory.ram m'.memory.ram
  video : Overlaid s.video m.memory.video m'.memory.video
  io : Overlaid s.io m.memory.io m'.memory.io
  rom : Overlaid s.rom m.memory.rom m'.memory.rom
  framePosition : m'.framePosition = 0
  /-- The picture shows the new video RAM in the new colours, whatever was shown before. -/
  screen : ∀ shown : Screen, m'.screen = shown.render m'.memory.video.toArray m'.memory.palette
  breakpoints : m'.breakpoints = m.breakpoints
  breakpointHit : m'.breakpointHit = m.breakpointHit
  breakCount : m'.breakCount = m.breakCount
  debug : m'.debug = m.debug
  buttons : m'.buttons = m.buttons
  journal : m'.journal = m.journal

theorem resumed_resume (m : Machine) (s : SaveState) : Resumed m s (m.resume s) where
  registers := rfl
  cycles := rfl
  running := rfl
  frameCount := rfl
  palette := rfl
  ram := overlaid_overlay _ _
  video := overlaid_overlay _ _
  io := overlaid_overlay _ _
  rom := overlaid_overlay _ _
  framePosition := rfl
  screen _ := Screen.render_eq _ _ _ _
  breakpoints := rfl
  breakpointHit := rfl
  breakCount := rfl
  debug := rfl
  buttons := rfl
  journal := rfl

/-- A save state of full size is what the machine would save again. -/
theorem saveState_resume (hsize : s.FullSize) (m : Machine) : (m.resume s).saveState = s := by
  have hregions : (m.resume s).saveState
      = { s with
          ram := (overlay s.ram m.memory.ram).toArray
          video := (overlay s.video m.memory.video).toArray
          io := (overlay s.io m.memory.io).toArray
          rom := (overlay s.rom m.memory.rom).toArray } := rfl
  rw [hregions, toArray_overlay hsize.ram, toArray_overlay hsize.video, toArray_overlay hsize.io,
    toArray_overlay hsize.rom]

/-! ## One file after another -/

theorem load_of_error {fault : SaveState.Error} (h : SaveState.decode file codec = .error fault)
    (m : Machine) : m.load file codec = .error fault := by
  rw [load, h]
  rfl

theorem load_of_ok (h : SaveState.decode file codec = .ok s) (m : Machine) :
    m.load file codec = .ok (m.resume s) := by
  rw [load, h]
  rfl

/-- Loads a file if it is accepted. -/
def tryLoad (m : Machine) (file : Bytes) (codec : Codec) : Machine :=
  match m.load file codec with
  | .ok m' => m'
  | .error _ => m

theorem tryLoad_of_error {fault : SaveState.Error} (h : SaveState.decode file codec = .error fault)
    (m : Machine) : m.tryLoad file codec = m := by
  rw [tryLoad, load_of_error h]

theorem tryLoad_of_ok (h : SaveState.decode file codec = .ok s) (m : Machine) :
    m.tryLoad file codec = m.resume s := by
  rw [tryLoad, load_of_ok h]

/-- Loads files one after another. -/
def loadAll (m : Machine) (files : List Bytes) (codec : Codec) : Machine :=
  files.foldl (fun m file => m.tryLoad file codec) m

/-- **Run lemma.**  Of files of full size the last one that is accepted decides. -/
theorem saveState_loadAll (m : Machine) (files : List Bytes)
    (hsize : ∀ file ∈ files, ∀ s, SaveState.decode file codec = .ok s → s.FullSize) :
    (m.loadAll files codec).saveState
      = ((files.filterMap fun file => (SaveState.decode file codec).toOption).getLast?).getD
          m.saveState := by
  induction files generalizing m with
  | nil => rfl
  | cons file files ih =>
    rw [List.forall_mem_cons] at hsize
    rw [loadAll, List.foldl_cons, ← loadAll, ih _ hsize.2]
    cases hdecode : SaveState.decode file codec with
    | error fault => simp [hdecode, tryLoad_of_error hdecode, Except.toOption]
    | ok s =>
      have hsaved : (m.tryLoad file codec).saveState = s := by
        rw [tryLoad_of_ok hdecode, saveState_resume (hsize.1 s hdecode)]
      simp [hdecode, hsaved, Except.toOption, List.getLast?_cons]

end Machine

/-! ## The key that loads -/

namespace Windowed.Session

variable {setup : Setup} {pass : Pass} {s : Session} {path : String} {file : Bytes} {codec : Codec}

theorem quickLoad_of_refused {fault : SaveState.Error} (h : s.files.read path = .ok file)
    (hdecode : SaveState.decode file codec = .error fault) :
    quickLoad codec path s = s.report .error ("Load state: " ++ fault.message) := by
  unfold quickLoad
  simp only [h, hdecode]

theorem quickLoad_of_accepted {state : SaveState} (h : s.files.read path = .ok file)
    (hdecode : SaveState.decode file codec = .ok state) :
    quickLoad codec path s
      = { s with machine := s.machine.resume state, rewind := s.rewind.clear }.report .info
          ("Loaded state: " ++ path) := by
  unfold quickLoad
  simp only [h, hdecode]

/-- The file that a pass finds when it is to load a state. -/
def stateFile (setup : Setup) (pass : Pass) (s : Session) : Except FileError Bytes :=
  (s.afterSaving setup pass).files.read setup.statePath

theorem afterLoading_of_struck (h : s.struck pass .f9 = true) :
    s.afterLoading setup pass = quickLoad setup.states setup.statePath (s.afterSaving setup pass) :=
  onStrike_of_struck (((sameRun_afterSaving setup pass s).struck pass .f9).trans h) _

/-- A pass that finds no file, or one that is refused, keeps its machine and its history. -/
theorem afterLoading_of_failed
    (h : ∀ file state, s.stateFile setup pass = .ok file →
      SaveState.decode file setup.states ≠ .ok state) :
    (s.afterLoading setup pass).machine = s.machine
      ∧ (s.afterLoading setup pass).rewind = s.rewind := by
  have hcannot : (s.afterSaving setup pass).canLoad setup.states setup.statePath = false := by
    unfold canLoad
    split
    · next file hfile =>
      cases hdecode : SaveState.decode file setup.states with
      | error fault => rfl
      | ok state => exact absurd hdecode (h file state hfile)
    · rfl
  have hloads : s.loads setup pass = false := by
    rw [loads, hcannot, Bool.and_false]
  have hsame := afterLoading_of_not_loads hloads
  exact ⟨hsame.machine, hsame.rewind⟩

/-- A pass that finds a state resumes it and forgets its history. -/
theorem afterLoading_of_found {state : SaveState} (hstruck : s.struck pass .f9 = true)
    (hfile : s.stateFile setup pass = .ok file)
    (hdecode : SaveState.decode file setup.states = .ok state) :
    (s.afterLoading setup pass).machine = s.machine.resume state
      ∧ (s.afterLoading setup pass).rewind = s.rewind.clear := by
  have hsame := sameRun_afterSaving setup pass s
  rw [afterLoading_of_struck hstruck, quickLoad_of_accepted hfile hdecode, ← hsame.machine,
    ← hsame.rewind]
  exact ⟨rfl, rfl⟩

end Windowed.Session

/-! ## Loading is atomic and complete -/

namespace Machine

/-- What loading a file does to a machine and to a session that has it. -/
structure LoadExact (codec : Codec) (m : Machine) : Prop where
  /-- A file that is refused leaves the machine as it is. -/
  refused : ∀ file fault, SaveState.decode file codec = .error fault →
    m.load file codec = .error fault ∧ m.tryLoad file codec = m
  /-- A file that is accepted replaces what a save state has and nothing else. -/
  accepted : ∀ file s, SaveState.decode file codec = .ok s →
    m.load file codec = .ok (m.tryLoad file codec) ∧ Resumed m s (m.tryLoad file codec)
  /-- Of a state of full size nothing is missing. -/
  complete : ∀ file s, SaveState.decode file codec = .ok s → s.FullSize →
    (m.tryLoad file codec).saveState = s
  /-- The file of any machine brings back what that machine saved. -/
  restores : ∀ saved : Machine,
    (m.tryLoad (saved.saveState.encode codec) codec).saveState = saved.saveState
  /-- Of many files of full size the last that is accepted decides. -/
  last : ∀ files : List Bytes,
    (∀ file ∈ files, ∀ s, SaveState.decode file codec = .ok s → s.FullSize) →
    (m.loadAll files codec).saveState
      = ((files.filterMap fun file => (SaveState.decode file codec).toOption).getLast?).getD
          m.saveState
  /-- In a window a refused file changes nothing but for a report, the history included. -/
  refusedInWindow : ∀ (path : String) (s : Windowed.Session) (file : Bytes) fault,
    s.machine = m → s.files.read path = .ok file → SaveState.decode file codec = .error fault →
    s.quickLoad codec path = s.report .error ("Load state: " ++ fault.message)
  /-- A pass of a window goes on with the machine and the history it had if the file of its state
  cannot be read or is refused. -/
  failedInPass : ∀ (setup : Windowed.Session.Setup) (pass : Windowed.Pass) (s : Windowed.Session),
    s.machine = m →
    (∀ file state, s.stateFile setup pass = .ok file →
      SaveState.decode file setup.states ≠ .ok state) →
    (s.afterLoading setup pass).machine = m ∧ (s.afterLoading setup pass).rewind = s.rewind
  /-- A pass that strikes the key and finds a state loads it as a whole. -/
  foundInPass : ∀ (setup : Windowed.Session.Setup) (pass : Windowed.Pass) (s : Windowed.Session)
    (file : Bytes) state, s.machine = m → s.struck pass .f9 = true →
    s.stateFile setup pass = .ok file → SaveState.decode file setup.states = .ok state →
    (s.afterLoading setup pass).machine = m.tryLoad file setup.states
      ∧ (s.afterLoading setup pass).rewind = s.rewind.clear

/-- **Loading is atomic and complete**, whatever the file. -/
theorem loadExact (codec : LosslessCodec) (m : Machine) : LoadExact codec.toCodec m where
  refused _ _ h := ⟨load_of_error h m, tryLoad_of_error h m⟩
  accepted _ s h := by
    rw [tryLoad_of_ok h]
    exact ⟨load_of_ok h m, resumed_resume m s⟩
  complete _ _ h hsize := by rw [tryLoad_of_ok h, saveState_resume hsize]
  restores saved := by
    rw [tryLoad_of_ok (SaveState.decode_encode codec (SaveState.storable_saveState saved)),
      saveState_resume (SaveState.fullSize_saveState saved)]
  last files hsize := saveState_loadAll m files hsize
  refusedInWindow _ _ _ _ _ hread hdecode :=
    Windowed.Session.quickLoad_of_refused hread hdecode
  failedInPass _ _ _ hmachine hfailed := by
    rw [← hmachine]
    exact Windowed.Session.afterLoading_of_failed hfailed
  foundInPass _ _ _ _ _ hmachine hstruck hfile hdecode := by
    rw [← hmachine, tryLoad_of_ok hdecode]
    exact Windowed.Session.afterLoading_of_found hstruck hfile hdecode

end Machine

end FantasyComputer
