/-
# FantasyComputer.Proofs.Timeline — what a host's operations are made of.

A frame executes thousands of instructions in one call, and interrupts are taken in between.  To say
what holds at every point of a run, each operation of a host is taken apart into acts: one
instruction, one check for the interrupt, one end of a frame, one request, one change of the buttons
(`actsOf`).  A sequence of operations has a `timeline`, the row of all its acts.

`inStep_timeline` says that nothing is lost: playing the timeline leads where the operations lead,
in everything but the journal and the mark of a breakpoint.  The points of a run are the machines
reached by playing a part of the timeline.  `deliveries` are those at which an interrupt is taken.
-/
import FantasyComputer.Proofs.Course
import FantasyComputer.Proofs.Resumption
import FantasyComputer.Proofs.Writes

namespace FantasyComputer

/-! ## Operations and acts -/

/-- What a host can do to a machine that it drives: a call, an instruction without the poll after
it, or a check for the interrupt at any time. -/
inductive Operation where
  | call (c : Machine.Call)
  | step
  | checkInterrupt
  deriving DecidableEq, Repr

/-- The smallest parts of operations. -/
inductive Act where
  /-- Executes an instruction. -/
  | execute
  /-- Checks for the interrupt, and takes it if it is ready. -/
  | check
  /-- Raises the timer's pending bit. -/
  | request
  /-- Holds the buttons of a mask. -/
  | hold (mask : UInt8)
  /-- Draws the picture and starts the next frame. -/
  | endFrame
  deriving DecidableEq, Repr

namespace Machine

variable {m m' x : Machine}

/-- Carries out an operation. -/
def operate (m : Machine) : Operation → Machine
  | .call c => (m.call c).2
  | .step => m.step
  | .checkInterrupt => m.checkInterrupt

/-- Carries out an act. -/
def act (m : Machine) : Act → Machine
  | .execute => m.step
  | .check => m.checkInterrupt
  | .request => m.requestInterrupt
  | .hold mask => m.setInput mask
  | .endFrame => m.endFrame

/-- Carries out the acts of a row. -/
def play (m : Machine) (acts : List Act) : Machine :=
  acts.foldl act m

/-- The acts of a tick: an instruction and, on the cadence, the check after it. -/
def tickActs (m : Machine) : List Act :=
  .execute :: if m.step.framePosition % interruptInterval = 0 then [.check] else []

/-- The acts of a number of ticks. -/
def ticksActs : Nat → Machine → List Act
  | 0, _ => []
  | n + 1, m => m.tickActs ++ ticksActs n m.tick

/-- The acts of an operation. -/
def actsOf (m : Machine) : Operation → List Act
  | .call (.setInput mask) => [.hold mask]
  | .call .requestInterrupt => [.request]
  | .call .stepOne =>
    m.tickActs ++ if cyclesPerFrame ≤ m.tick.framePosition then [.endFrame] else []
  | .call .stepFrame =>
    if m.running then
      ticksActs m.frameTicks m ++ if (tick^[m.frameTicks] m).InFrame then [] else [.endFrame]
    else []
  | .step => [.execute]
  | .checkInterrupt => [.check]

/-- The acts of a sequence of operations. -/
def timeline (m : Machine) : List Operation → List Act
  | [] => []
  | o :: operations => m.actsOf o ++ (m.operate o).timeline operations

/-- The machines at which an interrupt is taken, in order. -/
def deliveries (m : Machine) : List Act → List Machine
  | [] => []
  | a :: acts =>
    if a = .check ∧ m.interruptReady = true then m :: (m.act a).deliveries acts
    else (m.act a).deliveries acts

/-! ## Playing -/

theorem play_append (m : Machine) (first second : List Act) :
    m.play (first ++ second) = (m.play first).play second :=
  List.foldl_append

theorem play_tickActs (m : Machine) : m.play m.tickActs = m.tick := by
  unfold tickActs tick poll
  split <;> rfl

theorem play_ticksActs (n : Nat) (m : Machine) : m.play (ticksActs n m) = tick^[n] m := by
  induction n generalizing m with
  | zero => rfl
  | succ n ih => rw [ticksActs, play_append, play_tickActs, ih, Function.iterate_succ_apply]

theorem deliveries_of_ready (hready : m.interruptReady = true) (acts : List Act) :
    m.deliveries (.check :: acts) = m :: (m.act .check).deliveries acts :=
  if_pos ⟨rfl, hready⟩

theorem deliveries_of_not_ready {a : Act} (h : ¬(a = .check ∧ m.interruptReady = true))
    (acts : List Act) : m.deliveries (a :: acts) = (m.act a).deliveries acts :=
  if_neg h

theorem deliveries_execute (m : Machine) (acts : List Act) :
    m.deliveries (.execute :: acts) = m.step.deliveries acts :=
  deliveries_of_not_ready (fun hboth => Act.noConfusion hboth.1) acts

theorem mem_deliveries_check {acts : List Act} :
    x ∈ m.deliveries (.check :: acts)
      ↔ x = m ∧ m.interruptReady = true ∨ x ∈ (m.act .check).deliveries acts := by
  by_cases hready : m.interruptReady = true
  · rw [deliveries_of_ready hready, List.mem_cons]
    simp [hready]
  · rw [deliveries_of_not_ready fun hboth => hready hboth.2]
    simp [hready]

/-- A delivery is a point of the row at which a check comes. -/
theorem exists_of_mem_deliveries {acts : List Act} (hx : x ∈ m.deliveries acts) :
    ∃ before after, acts = before ++ .check :: after ∧ x = m.play before := by
  induction acts generalizing m with
  | nil => exact absurd hx List.not_mem_nil
  | cons a acts ih =>
    have hcases : a = .check ∧ x = m ∨ x ∈ (m.act a).deliveries acts := by
      rw [deliveries] at hx
      split at hx
      · rename_i hdeliver
        exact (List.mem_cons.mp hx).imp_left fun hfirst => ⟨hdeliver.1, hfirst⟩
      · exact Or.inr hx
    rcases hcases with ⟨rfl, rfl⟩ | hlater
    · exact ⟨[], acts, rfl, rfl⟩
    · obtain ⟨before, after, rfl, rfl⟩ := ih hlater
      exact ⟨a :: before, after, rfl, rfl⟩

/-! ## Machines in step play alike -/

theorem InStep.refl (m : Machine) : InStep m m :=
  ⟨⟨rfl, rfl, rfl, rfl, rfl⟩, rfl, rfl, rfl⟩

theorem InStep.act (h : InStep m m') (a : Act) : InStep (m.act a) (m'.act a) := by
  cases a with
  | execute =>
    have hstep := h.alike.step
    have hhost := sameHost_step m
    have hhost' := sameHost_step m'
    have hbreak : ∀ m : Machine, m.step.breakCount
        = m.breakCount + if m.nextInstruction = .break then 1 else 0 :=
      fun m => breakCount_perform _ _
    refine ⟨⟨hstep.registers, hstep.memory, hstep.cycles, hstep.running, ?_⟩, hstep.framePosition,
      hhost.frameCount.trans (h.frameCount.trans hhost'.frameCount.symm),
      hhost.screen.trans (h.screen.trans hhost'.screen.symm)⟩
    show m.step.breakCount = m'.step.breakCount
    rw [hbreak, hbreak, h.breakCount, h.alike.nextInstruction]
  | check =>
    have hcheck := h.alike.checkInterrupt
    obtain ⟨_, _, _, hm⟩ := checkInterrupt_eq m
    obtain ⟨_, _, _, hm'⟩ := checkInterrupt_eq m'
    refine ⟨⟨hcheck.registers, hcheck.memory, hcheck.cycles, hcheck.running, ?_⟩,
      hcheck.framePosition, ?_, ?_⟩
    · show m.checkInterrupt.breakCount = m'.checkInterrupt.breakCount
      rw [hm, hm']
      exact h.breakCount
    · show m.checkInterrupt.frameCount = m'.checkInterrupt.frameCount
      rw [hm, hm']
      exact h.frameCount
    · show m.checkInterrupt.screen = m'.checkInterrupt.screen
      rw [hm, hm']
      exact h.screen
  | request =>
    have hmemory : m.requestInterrupt.memory = m'.requestInterrupt.memory := by
      rw [requestInterrupt, requestInterrupt, h.memory]
    exact ⟨⟨h.registers, hmemory, h.cycles, h.running, h.breakCount⟩, h.framePosition, h.frameCount,
      h.screen⟩
  | hold mask =>
    have hmemory : (m.setInput mask).memory = (m'.setInput mask).memory := by
      rw [setInput, setInput, h.memory]
    exact ⟨⟨h.registers, hmemory, h.cycles, h.running, h.breakCount⟩, h.framePosition, h.frameCount,
      h.screen⟩
  | endFrame => exact h.endFrame

theorem InStep.play (h : InStep m m') (acts : List Act) : InStep (m.play acts) (m'.play acts) := by
  induction acts generalizing m m' with
  | nil => exact h
  | cons a acts ih => exact ih (h.act a)

theorem InStep.ticks (h : InStep m m') (n : Nat) :
    InStep (Machine.tick^[n] m) (Machine.tick^[n] m') := by
  induction n generalizing m m' with
  | zero => exact h
  | succ n ih => exact ih h.tick

/-! ## The timeline is the run -/

theorem inStep_stepFrame (m : Machine) :
    InStep m.stepFrame.2 (m.play (m.actsOf (.call .stepFrame))) := by
  cases hrun : m.running with
  | false =>
    have hacts : m.actsOf (.call .stepFrame) = [] := by
      rw [actsOf, hrun]
      rfl
    rw [hacts, stepFrame_of_not_running hrun]
    exact inStep_fresh m
  | true =>
    -- the mark of an earlier breakpoint does not change the instructions of the frame
    have hfresh : Alike m.fresh m := (inStep_fresh m).alike
    have hend : InStep m.frameEnd (tick^[m.frameTicks] m) := by
      rw [frameEnd, hfresh.frameTicks rfl]
      exact (inStep_fresh m).ticks _
    rw [actsOf, if_pos hrun, play_append, play_ticksActs, stepFrame_of_running hrun]
    by_cases hin : m.frameEnd.InFrame
    · rw [if_pos hin, if_pos (hend.alike.inFrame_iff.mp hin)]
      exact ⟨⟨hend.registers, hend.memory, hend.cycles, hend.running, hend.breakCount⟩,
        hend.framePosition, hend.frameCount, hend.screen⟩
    · rw [if_neg hin, if_neg (mt hend.alike.inFrame_iff.mpr hin)]
      exact (inStep_noteFrame _).trans hend.endFrame

theorem inStep_operate (m : Machine) (o : Operation) :
    InStep (m.operate o) (m.play (m.actsOf o)) := by
  cases o with
  | step => exact InStep.refl _
  | checkInterrupt => exact InStep.refl _
  | call c =>
    cases c with
    | setInput mask => exact InStep.refl _
    | requestInterrupt => exact InStep.refl _
    | stepFrame => exact inStep_stepFrame m
    | stepOne =>
      show InStep m.stepOne _
      rw [actsOf, play_append, play_tickActs, stepOne]
      split <;> exact InStep.refl _

/-! ## Where frames end -/

theorem endFrame_notMem_tickActs (m : Machine) : .endFrame ∉ m.tickActs := by
  unfold tickActs
  split <;> simp

theorem endFrame_notMem_ticksActs (n : Nat) (m : Machine) : .endFrame ∉ ticksActs n m := by
  induction n generalizing m with
  | zero => exact List.not_mem_nil
  | succ n ih =>
    rw [ticksActs, List.mem_append, not_or]
    exact ⟨endFrame_notMem_tickActs m, ih m.tick⟩

theorem finished_of_endFrame_mem (h : .endFrame ∈ m.actsOf (.call .stepFrame)) :
    m.stepFrame.1 = true := by
  rw [actsOf] at h
  split at h
  · next hrun =>
    rcases List.mem_append.mp h with htick | hend
    · exact absurd htick (endFrame_notMem_ticksActs _ m)
    · split at hend
      · exact absurd hend List.not_mem_nil
      · next hout =>
        rw [stepFrame_of_running hrun, if_neg (mt (alike_frameEnd m).inFrame_iff.mp hout)]
  · exact absurd h List.not_mem_nil

theorem stepEnds_of_endFrame_mem (h : .endFrame ∈ m.actsOf (.call .stepOne)) : m.StepEnds := by
  rw [actsOf] at h
  rcases List.mem_append.mp h with htick | hend
  · exact absurd htick (endFrame_notMem_tickActs m)
  · split at hend
    · next hends => exact hends
    · exact absurd hend List.not_mem_nil

/-! ## Sequences of operations -/

/-- Carries out the operations of a sequence. -/
def operateAll (m : Machine) (operations : List Operation) : Machine :=
  operations.foldl operate m

/-- **The timeline is the run.**  Playing it leads where the operations lead. -/
theorem inStep_timeline (m : Machine) (operations : List Operation) :
    InStep (m.operateAll operations) (m.play (m.timeline operations)) := by
  induction operations generalizing m with
  | nil => exact InStep.refl m
  | cons o operations ih =>
    rw [timeline, play_append]
    exact (ih (m.operate o)).trans ((inStep_operate m o).play _)

theorem timeline_append (m : Machine) (first second : List Operation) :
    m.timeline (first ++ second) = m.timeline first ++ (m.operateAll first).timeline second := by
  induction first generalizing m with
  | nil => rfl
  | cons o first ih =>
    show m.actsOf o ++ (m.operate o).timeline (first ++ second) = _
    rw [ih, timeline, List.append_assoc]
    rfl

/-! ## Single steps within a frame -/

theorem actsOf_stepOne (hin : m.tick.framePosition < cyclesPerFrame) :
    m.actsOf (.call .stepOne) = m.tickActs := by
  rw [actsOf, if_neg (Nat.not_le.mpr hin), List.append_nil]

theorem tickActs_of_onCadence (hon : m.tick.framePosition % interruptInterval = 0) :
    m.tickActs = [.execute, .check] := by
  rw [tick, framePosition_poll] at hon
  rw [tickActs, if_pos hon]

theorem tickActs_of_offCadence (hoff : m.tick.framePosition % interruptInterval ≠ 0) :
    m.tickActs = [.execute] := by
  rw [tick, framePosition_poll] at hoff
  rw [tickActs, if_neg hoff]

theorem ticksActs_add (n k : Nat) (m : Machine) :
    ticksActs (n + k) m = ticksActs n m ++ ticksActs k (tick^[n] m) := by
  induction n generalizing m with
  | zero => rw [Nat.zero_add]; rfl
  | succ n ih =>
    rw [Nat.add_right_comm, ticksActs, ih, ticksActs, List.append_assoc, Function.iterate_succ_apply]

theorem operate_stepOne (hin : m.tick.framePosition < cyclesPerFrame) :
    m.operate (.call .stepOne) = m.tick :=
  stepOne_of_lt hin

/-- Single steps within a frame are a run of ticks. -/
theorem timeline_stepOnes {n : Nat}
    (hin : ∀ i < n, (tick^[i + 1] m).framePosition < cyclesPerFrame) :
    m.timeline (List.replicate n (.call .stepOne)) = ticksActs n m
      ∧ m.operateAll (List.replicate n (.call .stepOne)) = tick^[n] m := by
  induction n generalizing m with
  | zero => exact ⟨rfl, rfl⟩
  | succ n ih =>
    have hfirst : m.tick.framePosition < cyclesPerFrame := hin 0 (Nat.zero_lt_succ n)
    obtain ⟨hrow, hend⟩ := ih (m := m.tick) fun i hi => hin (i + 1) (Nat.succ_lt_succ hi)
    constructor
    · rw [List.replicate_succ, timeline, actsOf_stepOne hfirst, operate_stepOne hfirst, hrow,
        ticksActs]
    · show (m.operate (.call .stepOne)).operateAll _ = _
      rw [operate_stepOne hfirst, hend, Function.iterate_succ_apply]

/-- Off the cadence they are nothing but their instructions. -/
theorem ticksActs_of_offCadence {n : Nat}
    (hoff : ∀ i < n, (tick^[i + 1] m).framePosition % interruptInterval ≠ 0) :
    ticksActs n m = List.replicate n .execute := by
  induction n generalizing m with
  | zero => rfl
  | succ n ih =>
    have hfirst : m.tickActs = [.execute] := tickActs_of_offCadence (hoff 0 (Nat.zero_lt_succ n))
    rw [ticksActs, hfirst, ih fun i hi => hoff (i + 1) (Nat.succ_lt_succ hi)]
    rfl

end Machine

end FantasyComputer
