/-
# FantasyComputer.Proofs.Commands — everything that a host can do to a machine.

A host drives a machine by operations, and between them it changes the machine itself: it puts in a
cartridge, resets, starts and stops, sets palette entries, has a single instruction executed, and puts
back snapshots and save states (`Intervention`).  A `Command` is either of the two.

As operations are made of acts, commands are made of `Event`s: an act, or an intervention as a whole.
A sequence of commands has a `chronicle`, the row of all its events, and `inStep_chronicle` says that
undergoing the chronicle leads where the commands lead, in everything but the journal and what the
host alone has set.  What holds at every point of the chronicle holds at every point of the run, those
in the middle of a frame included.
-/
import FantasyComputer.Proofs.Timeline

namespace FantasyComputer

/-! ## Interventions, commands and events -/

/-- What a host does to a machine itself. -/
inductive Intervention where
  /-- Puts in a cartridge, if its image is accepted. -/
  | load (image : Bytes)
  | reset (entry : UInt16)
  | start
  | stop
  | setPaletteEntry (index : Nat) (color : UInt8)
  /-- Has an instruction of some length executed, wherever it comes from. -/
  | execute (i : Instruction) (length : UInt8)
  /-- Puts a snapshot back. -/
  | restore (s : Snapshot)
  /-- Puts a save state back. -/
  | resume (s : SaveState)

/-- What a host can do. -/
inductive Command where
  | operate (o : Operation)
  | setButton (button : Button) (pressed : Bool)
  | intervene (i : Intervention)

/-- Whether an intervention puts back a state from elsewhere. -/
def Intervention.PutsBack : Intervention → Prop
  | .restore _ => True
  | .resume _ => True
  | _ => False

/-- Whether a command puts back a state from elsewhere. -/
def Command.PutsBack : Command → Prop
  | .intervene i => i.PutsBack
  | _ => False

/-- The smallest parts of commands. -/
inductive Event where
  | act (a : Act)
  | intervene (i : Intervention)

/-- Whether an event puts back a state from elsewhere. -/
def Event.PutsBack : Event → Prop
  | .act _ => False
  | .intervene i => i.PutsBack

namespace Machine

variable {m m' : Machine}

/-- Carries out an intervention.  A cartridge image that is refused changes nothing. -/
def intervene (m : Machine) : Intervention → Machine
  | .load image =>
    match m.insert image with
    | .ok loaded => loaded
    | .error _ => m
  | .reset entry => m.reset entry
  | .start => m.start
  | .stop => m.stop
  | .setPaletteEntry index color => m.setPaletteEntry index color
  | .execute i length => m.execute i length
  | .restore s => m.restore s
  | .resume s => m.resume s

/-- Carries out a command. -/
def obey (m : Machine) : Command → Machine
  | .operate o => m.operate o
  | .setButton button pressed => m.setButton button pressed
  | .intervene i => m.intervene i

/-- Carries out the commands of a sequence. -/
def obeyAll (m : Machine) (commands : List Command) : Machine :=
  commands.foldl obey m

/-- Undergoes an event. -/
def undergo (m : Machine) : Event → Machine
  | .act a => m.act a
  | .intervene i => m.intervene i

/-- Undergoes the events of a row. -/
def undergoAll (m : Machine) (events : List Event) : Machine :=
  events.foldl undergo m

/-- The events of a command. -/
def eventsOf (m : Machine) : Command → List Event
  | .operate o => (m.actsOf o).map .act
  | .setButton button pressed =>
    [.act (.hold (if pressed then m.buttons ||| button.mask else m.buttons &&& ~~~button.mask))]
  | .intervene i => [.intervene i]

/-- The events of a sequence of commands. -/
def chronicle (m : Machine) : List Command → List Event
  | [] => []
  | c :: commands => m.eventsOf c ++ (m.obey c).chronicle commands

/-! ## Undergoing rows of events -/

theorem undergoAll_append (m : Machine) (first second : List Event) :
    m.undergoAll (first ++ second) = (m.undergoAll first).undergoAll second :=
  List.foldl_append

theorem undergoAll_acts (m : Machine) (acts : List Act) :
    m.undergoAll (acts.map .act) = m.play acts := by
  simp only [undergoAll, play, List.foldl_map]
  rfl

theorem chronicle_append (m : Machine) (first second : List Command) :
    m.chronicle (first ++ second) = m.chronicle first ++ (m.obeyAll first).chronicle second := by
  induction first generalizing m with
  | nil => rfl
  | cons c first ih =>
    show m.eventsOf c ++ (m.obey c).chronicle (first ++ second) = _
    rw [ih, chronicle, List.append_assoc]
    rfl

/-! ## Interventions one by one -/

theorem intervene_load_of_error {image : Bytes} {fault : Cartridge.Error}
    (h : Cartridge.parse image = .error fault) : m.intervene (.load image) = m := by
  simp only [intervene, insert, h]
  rfl

theorem intervene_load_of_ok {image : Bytes} {cartridge : Cartridge}
    (h : Cartridge.parse image = .ok cartridge) :
    m.intervene (.load image) = m.install cartridge := by
  simp only [intervene, insert, h]
  rfl

/-- An instruction and what leads up to it leave the host's part alone. -/
theorem sameHost_execute (m : Machine) (i : Instruction) (length : UInt8) :
    SameHost (m.execute i length) m := by
  have h := sameHost_perform (m.goto (m.registers.pc + length.toUInt16)) i
  exact ⟨h.screen, h.frameCount, h.breakpoints, h.breakpointHit, h.debug, h.buttons⟩

theorem breakCount_execute (m : Machine) (i : Instruction) (length : UInt8) :
    (m.execute i length).breakCount = m.breakCount + if i = .break then 1 else 0 :=
  breakCount_perform _ _

theorem Alike.execute (h : Alike m m') (i : Instruction) (length : UInt8) :
    Alike (m.execute i length) (m'.execute i length) := by
  unfold Machine.execute
  rw [h.registers]
  exact (h.goto _).perform i

theorem InStep.execute (h : InStep m m') (i : Instruction) (length : UInt8) :
    InStep (m.execute i length) (m'.execute i length) := by
  have halike := h.alike.execute i length
  have hhost := sameHost_execute m i length
  have hhost' := sameHost_execute m' i length
  refine ⟨⟨halike.registers, halike.memory, halike.cycles, halike.running, ?_⟩,
    halike.framePosition, ?_, ?_⟩
  · rw [breakCount_execute, breakCount_execute, h.breakCount]
  · rw [hhost.frameCount, hhost'.frameCount, h.frameCount]
  · rw [hhost.screen, hhost'.screen, h.screen]

theorem InStep.reset (h : InStep m m') (entry : UInt16) :
    InStep (m.reset entry) (m'.reset entry) := by
  have hmemory : m.memory.reset = m'.memory.reset := congrArg Memory.reset h.memory
  exact ⟨⟨rfl, hmemory, rfl, h.running, h.breakCount⟩, rfl, h.frameCount, h.screen⟩

theorem InStep.install (h : InStep m m') (cartridge : Cartridge) :
    InStep (m.install cartridge) (m'.install cartridge) := by
  have hmemory := congrArg (Memory.loadProgram · cartridge.program) h.memory
  have hplaced : InStep { m with memory := m.memory.loadProgram cartridge.program }
      { m' with memory := m'.memory.loadProgram cartridge.program } :=
    ⟨⟨h.registers, hmemory, h.cycles, h.running, h.breakCount⟩, h.framePosition, h.frameCount,
      h.screen⟩
  have hreset := hplaced.reset cartridge.entry
  exact ⟨⟨hreset.registers, hreset.memory, hreset.cycles, hreset.running, hreset.breakCount⟩,
    hreset.framePosition, hreset.frameCount, hreset.screen⟩

theorem InStep.restore (h : InStep m m') (s : Snapshot) :
    InStep (m.restore s) (m'.restore s) := by
  have hmemory : (m.restore s).memory = (m'.restore s).memory := by
    simp only [Machine.restore, Machine.render, h.memory]
  have hscreen : (m.restore s).screen = (m'.restore s).screen := by
    simp only [Machine.restore, Machine.render, h.memory, h.screen]
  exact ⟨⟨rfl, hmemory, rfl, rfl, h.breakCount⟩, rfl, rfl, hscreen⟩

theorem InStep.resume (h : InStep m m') (s : SaveState) :
    InStep (m.resume s) (m'.resume s) := by
  have hmemory : (m.resume s).memory = (m'.resume s).memory := by
    simp only [Machine.resume, Machine.restore, Machine.render, h.memory]
  have hscreen : (m.resume s).screen = (m'.resume s).screen := by
    simp only [Machine.resume, Machine.restore, Machine.render, h.memory, h.screen]
  exact ⟨⟨rfl, hmemory, rfl, rfl, h.breakCount⟩, rfl, rfl, hscreen⟩

theorem InStep.intervene (h : InStep m m') (i : Intervention) :
    InStep (m.intervene i) (m'.intervene i) := by
  cases i with
  | load image =>
    cases hparse : Cartridge.parse image with
    | error fault =>
      rw [intervene_load_of_error hparse, intervene_load_of_error hparse]
      exact h
    | ok cartridge =>
      rw [intervene_load_of_ok hparse, intervene_load_of_ok hparse]
      exact h.install cartridge
  | reset entry => exact h.reset entry
  | start =>
    exact ⟨⟨h.registers, h.memory, h.cycles, rfl, h.breakCount⟩, h.framePosition, h.frameCount,
      h.screen⟩
  | stop =>
    exact ⟨⟨h.registers, h.memory, h.cycles, rfl, h.breakCount⟩, h.framePosition, h.frameCount,
      h.screen⟩
  | setPaletteEntry index color =>
    have hmemory := congrArg (Memory.setPaletteEntry · index color) h.memory
    exact ⟨⟨h.registers, hmemory, h.cycles, h.running, h.breakCount⟩, h.framePosition, h.frameCount,
      h.screen⟩
  | execute i length => exact h.execute i length
  | restore s => exact h.restore s
  | resume s => exact h.resume s

theorem InStep.undergo (h : InStep m m') (e : Event) : InStep (m.undergo e) (m'.undergo e) := by
  cases e with
  | act a => exact h.act a
  | intervene i => exact h.intervene i

theorem InStep.undergoAll (h : InStep m m') (events : List Event) :
    InStep (m.undergoAll events) (m'.undergoAll events) := by
  induction events generalizing m m' with
  | nil => exact h
  | cons e events ih => exact ih (h.undergo e)

/-! ## The chronicle is the run -/

theorem inStep_obey (m : Machine) (c : Command) :
    InStep (m.obey c) (m.undergoAll (m.eventsOf c)) := by
  cases c with
  | operate o =>
    rw [eventsOf, undergoAll_acts]
    exact inStep_operate m o
  | setButton button pressed => exact InStep.refl _
  | intervene i => exact InStep.refl _

/-- **The chronicle is the run.**  Undergoing it leads where the commands lead. -/
theorem inStep_chronicle (m : Machine) (commands : List Command) :
    InStep (m.obeyAll commands) (m.undergoAll (m.chronicle commands)) := by
  induction commands generalizing m with
  | nil => exact InStep.refl m
  | cons c commands ih =>
    rw [chronicle, undergoAll_append]
    exact (ih (m.obey c)).trans ((inStep_obey m c).undergoAll _)

/-! ## Events of commands that put nothing back -/

theorem not_putsBack_of_mem_eventsOf {c : Command} (h : ¬c.PutsBack) {e : Event}
    (he : e ∈ m.eventsOf c) : ¬e.PutsBack := by
  cases c with
  | operate o =>
    obtain ⟨a, -, rfl⟩ := List.mem_map.mp he
    exact not_false
  | setButton button pressed =>
    rw [List.mem_singleton.mp he]
    exact not_false
  | intervene i =>
    rw [List.mem_singleton.mp he]
    exact h

theorem not_putsBack_of_mem_chronicle {commands : List Command}
    (h : ∀ c ∈ commands, ¬c.PutsBack) {e : Event} (he : e ∈ m.chronicle commands) :
    ¬e.PutsBack := by
  induction commands generalizing m with
  | nil => exact absurd he List.not_mem_nil
  | cons c commands ih =>
    rcases List.mem_append.mp he with hfirst | hlater
    · exact not_putsBack_of_mem_eventsOf (h c (List.mem_cons_self ..)) hfirst
    · exact ih (fun c hc => h c (List.mem_cons_of_mem _ hc)) hlater

end Machine

end FantasyComputer
