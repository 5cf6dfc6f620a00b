/-
# FantasyComputer.Proofs.Reloading — a reload forgets the past.

Putting in a cartridge resets the machine.  What survives the reset is the palette, the running flag,
the breakpoints and the part of ROM that the program does not reach; everything else that a program
or a host has left behind is gone, or is never looked at again by anything that a program can see.

Two machines that agree on what survives are therefore `Reunited` by the load, whatever their past,
and they stay so under every sequence of commands (`Reunited.obeyAll`).  Their counts of frames and
breaks keep the difference that they had, in the wrapping arithmetic of the counters, and their
pictures agree from the first frame that is rendered.  Three commands are left out because they look
at the past by design: a change of one button, which starts from the buttons held before, and the
two that put back an earlier state with a frame count of its own.
-/
import FantasyComputer.Proofs.Commands

namespace FantasyComputer

/-! ## Commands and what they return -/

/-- What a command returns. -/
inductive Reply where
  | answer (a : Machine.Answer)
  /-- The price of the instruction executed. -/
  | cost (cycles : Nat)
  /-- Whether the interrupt was taken. -/
  | taken (wasTaken : Bool)
  /-- The length of the program put in, or why it was refused. -/
  | loaded (result : Except Cartridge.Error Nat)

/-- Whether a command looks at nothing that a reload leaves behind. -/
def Command.ForgetsPast : Command → Prop
  | .setButton _ _ => False
  | c => ¬c.PutsBack

namespace Machine

variable {old old' m m' n n' : Machine} {drawn drawn' : Prop}

/-- What a command returns. -/
def reply (m : Machine) : Command → Reply
  | .operate (.call c) => .answer (m.call c).1
  | .operate .step => .cost m.nextCost
  | .operate .checkInterrupt => .taken m.interruptReady
  | .intervene (.load image) => .loaded ((Cartridge.parse image).map (·.program.length))
  | _ => .answer .nothing

/-- What the commands of a sequence return. -/
def replies (m : Machine) : List Command → List Reply
  | [] => []
  | c :: commands => m.reply c :: (m.obey c).replies commands

/-! ## Machines with the same present -/

/-- Two machines with the same present, compared with what they were before a load.  If a frame has
been `drawn` since, their pictures are the same too. -/
structure Reunited (old old' : Machine) (drawn : Prop) (m m' : Machine) : Prop
    extends Alike m m' where
  breakpoints : m.breakpoints = m'.breakpoints
  breakpointHit : m.breakpointHit = m'.breakpointHit
  /-- The frame counts keep the difference that they had. -/
  frameCount : m.frameCount + old'.frameCount = m'.frameCount + old.frameCount
  /-- The break counts keep the difference that they had. -/
  breakCount : m.breakCount + old'.breakCount = m'.breakCount + old.breakCount
  screen : drawn → m.screen = m'.screen

namespace Reunited

/-- Machines stay reunited if only what an instruction may change has changed, alike in both. -/
theorem of_sameHost (h : Reunited old old' drawn m m') (halike : Alike n n') (hhost : SameHost n m)
    (hhost' : SameHost n' m') {breaks : UInt64} (hbreak : n.breakCount = m.breakCount + breaks)
    (hbreak' : n'.breakCount = m'.breakCount + breaks) : Reunited old old' drawn n n' where
  toAlike := halike
  breakpoints := by rw [hhost.breakpoints, hhost'.breakpoints, h.breakpoints]
  breakpointHit := by rw [hhost.breakpointHit, hhost'.breakpointHit, h.breakpointHit]
  frameCount := by rw [hhost.frameCount, hhost'.frameCount, h.frameCount]
  breakCount := by
    calc n.breakCount + old'.breakCount
        = m.breakCount + old'.breakCount + breaks := by rw [hbreak]; ac_rfl
      _ = m'.breakCount + old.breakCount + breaks := by rw [h.breakCount]
      _ = n'.breakCount + old.breakCount := by rw [hbreak']; ac_rfl
  screen hdrawn := by rw [hhost.screen, hhost'.screen, h.screen hdrawn]

theorem mono (h : Reunited old old' drawn m m') (hdrawn : drawn' → drawn) :
    Reunited old old' drawn' m m' :=
  ⟨h.toAlike, h.breakpoints, h.breakpointHit, h.frameCount, h.breakCount, h.screen ∘ hdrawn⟩

theorem step (h : Reunited old old' drawn m m') : Reunited old old' drawn m.step m'.step := by
  refine h.of_sameHost h.toAlike.step (sameHost_step m) (sameHost_step m')
    (breakCount_perform _ _) ?_
  rw [h.nextInstruction]
  exact breakCount_perform _ _

theorem execute (h : Reunited old old' drawn m m') (i : Instruction) (length : UInt8) :
    Reunited old old' drawn (m.execute i length) (m'.execute i length) :=
  h.of_sameHost (h.toAlike.execute i length) (sameHost_execute m i length)
    (sameHost_execute m' i length) (breakCount_execute m i length) (breakCount_execute m' i length)

theorem checkInterrupt (h : Reunited old old' drawn m m') :
    Reunited old old' drawn m.checkInterrupt m'.checkInterrupt := by
  have hkept : ∀ m : Machine, SameHost m.checkInterrupt m
      ∧ m.checkInterrupt.breakCount = m.breakCount + 0 := by
    intro m
    obtain ⟨_, _, _, hcheck⟩ := checkInterrupt_eq m
    rw [hcheck]
    exact ⟨⟨rfl, rfl, rfl, rfl, rfl, rfl⟩, (UInt64.add_zero _).symm⟩
  exact h.of_sameHost h.toAlike.checkInterrupt (hkept m).1 (hkept m').1 (hkept m).2 (hkept m').2

theorem tick (h : Reunited old old' drawn m m') : Reunited old old' drawn m.tick m'.tick := by
  refine h.of_sameHost h.toAlike.tick (sameHost_tick m) (sameHost_tick m') (breakCount_tick m) ?_
  rw [h.nextInstruction]
  exact breakCount_tick m'

theorem ticks (h : Reunited old old' drawn m m') (k : Nat) :
    Reunited old old' drawn (Machine.tick^[k] m) (Machine.tick^[k] m') := by
  induction k generalizing m m' with
  | zero => exact h
  | succ k ih => exact ih h.tick

/-- The end of a frame renders the whole picture anew. -/
theorem endFrame (h : Reunited old old' drawn m m') :
    Reunited old old' drawn' m.endFrame m'.endFrame where
  registers := h.registers
  memory := h.memory
  cycles := h.cycles
  framePosition := rfl
  running := h.running
  breakpoints := h.breakpoints
  breakpointHit := h.breakpointHit
  frameCount := by
    calc m.frameCount + 1 + old'.frameCount
        = m.frameCount + old'.frameCount + 1 := by ac_rfl
      _ = m'.frameCount + old.frameCount + 1 := by rw [h.frameCount]
      _ = m'.frameCount + 1 + old.frameCount := by ac_rfl
  breakCount := h.breakCount
  screen _ := by
    show m.screen.render _ _ = m'.screen.render _ _
    rw [h.memory]
    exact Screen.render_eq _ _ _ _

/-- The report of a frame goes to the journal alone. -/
theorem noteFrame (h : Reunited old old' drawn m m') : Reunited old old' drawn m.noteFrame m'.noteFrame := by
  have hjournal : ∀ m : Machine, ∃ journal, m.noteFrame = { m with journal } := by
    intro m
    unfold Machine.noteFrame
    split
    · exact ⟨_, rfl⟩
    · exact ⟨_, rfl⟩
  obtain ⟨journal, hm⟩ := hjournal m
  obtain ⟨journal', hm'⟩ := hjournal m'
  rw [hm, hm']
  exact ⟨⟨h.registers, h.memory, h.cycles, h.framePosition, h.running⟩, h.breakpoints,
    h.breakpointHit, h.frameCount, h.breakCount, h.screen⟩

/-- Machines stay reunited when the mark of a breakpoint is set alike in both. -/
theorem mark (h : Reunited old old' drawn m m') (breakpointHit : Bool) :
    Reunited old old' drawn { m with breakpointHit } { m' with breakpointHit } :=
  ⟨⟨h.registers, h.memory, h.cycles, h.framePosition, h.running⟩, h.breakpoints, rfl, h.frameCount,
    h.breakCount, h.screen⟩

/-- Machines stay reunited when memory is changed alike in both. -/
theorem onMemory (h : Reunited old old' drawn m m') (change : Memory → Memory) :
    Reunited old old' drawn { m with memory := change m.memory }
      { m' with memory := change m'.memory } :=
  ⟨⟨h.registers, congrArg change h.memory, h.cycles, h.framePosition, h.running⟩, h.breakpoints,
    h.breakpointHit, h.frameCount, h.breakCount, h.screen⟩

theorem stepFrame (h : Reunited old old' drawn m m') :
    m.stepFrame.1 = m'.stepFrame.1
      ∧ Reunited old old' (drawn ∨ m.stepFrame.1 = true) m.stepFrame.2 m'.stepFrame.2 := by
  have hfresh : Reunited old old' drawn m.fresh m'.fresh := h.mark false
  cases hrun : m.running with
  | false =>
    rw [stepFrame_of_not_running hrun, stepFrame_of_not_running (h.running ▸ hrun)]
    exact ⟨rfl, hfresh.mono (Or.resolve_right · Bool.false_ne_true)⟩
  | true =>
    have hend : Reunited old old' drawn m.frameEnd m'.frameEnd := by
      unfold frameEnd
      rw [hfresh.toAlike.frameTicks hfresh.breakpoints]
      exact hfresh.ticks _
    rw [stepFrame_of_running hrun, stepFrame_of_running (h.running ▸ hrun)]
    by_cases hin : m.frameEnd.InFrame
    · rw [if_pos hin, if_pos (hend.toAlike.inFrame_iff.mp hin)]
      exact ⟨rfl, (hend.mark true).mono (Or.resolve_right · Bool.false_ne_true)⟩
    · rw [if_neg hin, if_neg (mt hend.toAlike.inFrame_iff.mpr hin)]
      exact ⟨rfl, hend.endFrame.noteFrame⟩

theorem stepOne (h : Reunited old old' drawn m m') :
    Reunited old old' (drawn ∨ m.StepEnds) m.stepOne m'.stepOne := by
  by_cases hends : m.StepEnds
  · have hends' : m'.StepEnds := by rwa [StepEnds, ← h.tick.framePosition]
    rw [stepOne_of_le hends, stepOne_of_le hends']
    exact h.tick.endFrame
  · have hends' : ¬m'.StepEnds := by rwa [StepEnds, ← h.tick.framePosition]
    rw [stepOne_of_lt (Nat.not_le.mp hends), stepOne_of_lt (Nat.not_le.mp hends')]
    exact h.tick.mono (Or.resolve_right · hends)

theorem reset (h : Reunited old old' drawn m m') (entry : UInt16) :
    Reunited old old' drawn (m.reset entry) (m'.reset entry) := by
  have hmemory := congrArg Memory.reset h.memory
  exact ⟨⟨rfl, hmemory, rfl, rfl, h.running⟩, h.breakpoints, rfl, h.frameCount, h.breakCount,
    h.screen⟩

/-- The journal, which the machine never reads, may differ. -/
theorem note (h : Reunited old old' drawn m m') (notice notice' : Notice) :
    Reunited old old' drawn (m.note notice) (m'.note notice') :=
  ⟨⟨h.registers, h.memory, h.cycles, h.framePosition, h.running⟩, h.breakpoints, h.breakpointHit,
    h.frameCount, h.breakCount, h.screen⟩

theorem install (h : Reunited old old' drawn m m') (cartridge : Cartridge) :
    Reunited old old' drawn (m.install cartridge) (m'.install cartridge) :=
  ((h.onMemory (·.loadProgram cartridge.program)).reset cartridge.entry).note _ _

theorem setRunning (h : Reunited old old' drawn m m') (running : Bool) :
    Reunited old old' drawn { m with running } { m' with running } :=
  ⟨⟨h.registers, h.memory, h.cycles, h.framePosition, rfl⟩, h.breakpoints, h.breakpointHit,
    h.frameCount, h.breakCount, h.screen⟩

theorem intervene (h : Reunited old old' drawn m m') {i : Intervention} (hi : ¬i.PutsBack) :
    Reunited old old' drawn (m.intervene i) (m'.intervene i) := by
  cases i with
  | load image =>
    cases hparse : Cartridge.parse image with
    | error fault =>
      rw [intervene_load_of_error hparse, intervene_load_of_error hparse]
      exact h
    | ok cartridge =>
      rw [intervene_load_of_ok hparse, intervene_load_of_ok hparse]
      exact h.install cartridge
  | reset entry => exact h.reset entry
  | start => exact h.setRunning true
  | stop => exact h.setRunning false
  | setPaletteEntry index color => exact h.onMemory (·.setPaletteEntry index color)
  | execute i length => exact h.execute i length
  | restore s => exact absurd trivial hi
  | resume s => exact absurd trivial hi

/-- The buttons that a host holds are written and not read. -/
theorem setInput (h : Reunited old old' drawn m m') (mask : UInt8) :
    Reunited old old' drawn (m.setInput mask) (m'.setInput mask) :=
  have hwritten := h.onMemory (·.write inputAddress mask)
  ⟨⟨h.registers, hwritten.memory, h.cycles, h.framePosition, h.running⟩, h.breakpoints,
    h.breakpointHit, h.frameCount, h.breakCount, h.screen⟩

theorem call (h : Reunited old old' drawn m m') (c : Call) :
    (m.call c).1 = (m'.call c).1
      ∧ Reunited old old' (drawn ∨ .endFrame ∈ m.actsOf (.call c)) (m.call c).2 (m'.call c).2 := by
  cases c with
  | setInput mask => exact ⟨rfl, (h.setInput mask).mono (Or.resolve_right · (by simp [actsOf]))⟩
  | requestInterrupt =>
    have hwritten := h.onMemory fun memory =>
      memory.write interruptStatus (memory.read interruptStatus ||| timerPending)
    exact ⟨rfl, hwritten.mono (Or.resolve_right · (by simp [actsOf]))⟩
  | stepFrame =>
    obtain ⟨hfinished, hnext⟩ := h.stepFrame
    exact ⟨congrArg Answer.finished hfinished, hnext.mono (Or.imp_right finished_of_endFrame_mem)⟩
  | stepOne =>
    have hline : m.nextLine = m'.nextLine := by
      rw [nextLine, nextLine, h.registers, h.nextInstruction]
    exact ⟨congrArg Answer.line hline, h.stepOne.mono (Or.imp_right stepEnds_of_endFrame_mem)⟩

/-- **Step lemma.**  A command returns the same from both, and leaves them reunited. -/
theorem obey (h : Reunited old old' drawn m m') {c : Command} (hc : c.ForgetsPast) :
    m.reply c = m'.reply c
      ∧ Reunited old old' (drawn ∨ .act .endFrame ∈ m.eventsOf c) (m.obey c) (m'.obey c) := by
  cases c with
  | operate o =>
    have hevents : .act .endFrame ∈ m.eventsOf (.operate o) → .endFrame ∈ m.actsOf o := by
      intro hmem
      obtain ⟨a, ha, heq⟩ := List.mem_map.mp hmem
      rwa [← Event.act.inj heq]
    cases o with
    | call c =>
      obtain ⟨hanswer, hnext⟩ := h.call c
      exact ⟨congrArg Reply.answer hanswer, hnext.mono (Or.imp_right hevents)⟩
    | step =>
      exact ⟨congrArg Reply.cost h.nextCost,
        h.step.mono (Or.resolve_right · (mt hevents (by simp [actsOf])))⟩
    | checkInterrupt =>
      exact ⟨congrArg Reply.taken h.interruptReady,
        h.checkInterrupt.mono (Or.resolve_right · (mt hevents (by simp [actsOf])))⟩
  | setButton button pressed => exact absurd hc not_false
  | intervene i =>
    refine ⟨?_, (h.intervene hc).mono (Or.resolve_right · (by simp [eventsOf]))⟩
    cases i <;> rfl

/-- **Run lemma.**  So does every sequence of commands. -/
theorem obeyAll (h : Reunited old old' drawn m m') {commands : List Command}
    (hcommands : ∀ c ∈ commands, c.ForgetsPast) :
    m.replies commands = m'.replies commands
      ∧ Reunited old old' (drawn ∨ .act .endFrame ∈ m.chronicle commands)
        (m.obeyAll commands) (m'.obeyAll commands) := by
  induction commands generalizing m m' drawn with
  | nil => exact ⟨rfl, h.mono (Or.resolve_right · List.not_mem_nil)⟩
  | cons c commands ih =>
    obtain ⟨hreply, hnext⟩ := h.obey (hcommands c (List.mem_cons_self ..))
    obtain ⟨hreplies, hend⟩ := ih hnext fun c hc => hcommands c (List.mem_cons_of_mem _ hc)
    rw [replies, replies, hreply, hreplies]
    refine ⟨rfl, hend.mono fun hdrawn => ?_⟩
    rwa [chronicle, List.mem_append, ← or_assoc] at hdrawn

end Reunited

/-! ## What survives a load -/

/-- Two machines that agree on all that a cartridge, once put in, leaves as it was and that a program
can come to see. -/
structure SameRemains (cartridge : Cartridge) (m m' : Machine) : Prop where
  palette : m.memory.palette = m'.memory.palette
  running : m.running = m'.running
  breakpoints : m.breakpoints = m'.breakpoints
  /-- ROM agrees from the end of the program on. -/
  tail : ∀ i (hi : i < romSize), cartridge.program.length ≤ i →
    m.memory.rom[i] = m'.memory.rom[i]

theorem overlay_eq_of_tail {size : Nat} {image : Array UInt8} {region region' : Vector UInt8 size}
    (h : ∀ i (hi : i < size), image.size ≤ i → region[i] = region'[i]) :
    overlay image region = overlay image region' := by
  apply Vector.ext
  intro i hi
  rw [getElem_overlay, getElem_overlay]
  rcases Nat.lt_or_ge i image.size with hlt | hge
  · rw [Array.getElem?_eq_getElem hlt]
    rfl
  · rw [h i hi hge]

/-- **A load reunites.** -/
theorem reunited_install {cartridge : Cartridge} (h : SameRemains cartridge m m') :
    Reunited m m' False (m.install cartridge) (m'.install cartridge) := by
  have hrom : (m.memory.loadProgram cartridge.program).rom
      = (m'.memory.loadProgram cartridge.program).rom :=
    overlay_eq_of_tail fun i hi hpast => h.tail i hi (by rwa [List.size_toArray] at hpast)
  have hmemory : (m.memory.loadProgram cartridge.program).reset
      = (m'.memory.loadProgram cartridge.program).reset := by
    have hpalette : (m.memory.loadProgram cartridge.program).palette
        = (m'.memory.loadProgram cartridge.program).palette := h.palette
    rw [Memory.reset, Memory.reset, hrom, hpalette]
  have hreset : Reunited m m' False
      (({ m with memory := m.memory.loadProgram cartridge.program } : Machine).reset cartridge.entry)
      (({ m' with memory := m'.memory.loadProgram cartridge.program } : Machine).reset
        cartridge.entry) :=
    { registers := rfl
      memory := hmemory
      cycles := rfl
      framePosition := rfl
      running := h.running
      breakpoints := h.breakpoints
      breakpointHit := rfl
      frameCount := UInt32.add_comm _ _
      breakCount := UInt64.add_comm _ _
      screen := False.elim }
  exact hreset.note _ _

/-- **A reload forgets the past.**  Machines that agree on what survives a load give the same answers
after it, whatever is asked of them, and show the same once a frame has ended. -/
theorem forgetsPast {image : Bytes} {cartridge : Cartridge}
    (hparse : Cartridge.parse image = .ok cartridge) (hremains : SameRemains cartridge m m')
    (commands : List Command) (hcommands : ∀ c ∈ commands, c.ForgetsPast) :
    let load : Command := .intervene (.load image)
    m.replies (load :: commands) = m'.replies (load :: commands)
      ∧ Reunited m m' (.act .endFrame ∈ (m.obey load).chronicle commands)
        ((m.obey load).obeyAll commands) ((m'.obey load).obeyAll commands) := by
  intro load
  have hload : Reunited m m' False (m.obey load) (m'.obey load) := by
    have hreunited := reunited_install hremains
    rwa [← intervene_load_of_ok hparse, ← intervene_load_of_ok hparse] at hreunited
  obtain ⟨hreplies, hend⟩ := hload.obeyAll hcommands
  have hreply : m.reply load = m'.reply load := rfl
  rw [replies, replies, hreply, hreplies]
  exact ⟨rfl, hend.mono Or.inr⟩

/-- A machine with a past: it stopped in the middle of its tenth frame. -/
def worn : Machine :=
  { initial.start with
    registers := { Registers.reset 0x1234 with a := 7, flags := 0x80 }
    memory := { Memory.initial with
      ram := Vector.replicate _ 9
      rom := (Vector.replicate _ 0).set 0 0x28 }
    cycles := 150077
    framePosition := 77
    frameCount := 9
    breakCount := 3
    debug := true
    buttons := 0x10 }

/-- A cartridge that halts at once. -/
def haltingImage : Bytes :=
  [0x58, 0x56, 0x4D, 0x38, 0x00, 0xE0, 0x01, 0x00, 0xFE]

/-- The machine with a past and one that has just been started are two such machines. -/
theorem forgetsPast_worn :
    SameRemains { entry := 0xE000, declaredSize := 1, program := [0xFE] } worn initial.start
      ∧ worn.replies [.intervene (.load haltingImage), .operate .step, .operate (.call .stepFrame)]
        = initial.start.replies
            [.intervene (.load haltingImage), .operate .step, .operate (.call .stepFrame)] := by
  have hremains : SameRemains { entry := 0xE000, declaredSize := 1, program := [0xFE] } worn
      initial.start := by
    refine ⟨rfl, rfl, rfl, fun i hi hpast => ?_⟩
    have hne : 0 ≠ i := Nat.ne_of_lt hpast
    exact Vector.getElem_set_ne (by decide) hi hne
  have hparse : Cartridge.parse haltingImage
      = .ok { entry := 0xE000, declaredSize := 1, program := [0xFE] } := rfl
  have hcommands : ∀ c ∈ [Command.operate .step, .operate (.call .stepFrame)],
      c.ForgetsPast := by
    intro c hc
    rcases List.mem_pair.mp hc with rfl | rfl <;> exact not_false
  exact ⟨hremains, (forgetsPast hparse hremains _ hcommands).1⟩

end Machine

end FantasyComputer
