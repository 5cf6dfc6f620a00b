/-
# FantasyComputer.Proofs.Course — breakpoints and single steps do not change the course of a machine.

A machine has one course: where `stepOne` takes it, instruction by instruction, with the interrupts,
the frame ends and the pictures on the way.  The drivers do not follow it step by step.  They run
frames, which stop wherever a breakpoint says, and step over the place where they stopped.

`OnCourse` compares a machine that a driver has left behind with a point of that course: everything
agrees while the machine runs (`InStep`), and what a program can see agrees once it has halted
(`SameCourse`).  A pass keeps a machine on course by as many single steps as it executes
instructions (`OnCourse.advance`); the main result is the induction over the passes, for every list
of breakpoints and for both drivers.
-/
import FantasyComputer.Proofs.Passes

namespace FantasyComputer

namespace Machine

variable {m m' s : Machine}

/-! ## Two machines on one course -/

/-- Two machines that have computed the same. -/
structure SameCourse (m m' : Machine) : Prop where
  registers : m.registers = m'.registers
  memory : m.memory = m'.memory
  cycles : m.cycles = m'.cycles
  running : m.running = m'.running
  breakCount : m.breakCount = m'.breakCount

/-- Two machines that have computed the same and stand at the same place of the same frame, with the
same picture. -/
structure InStep (m m' : Machine) : Prop extends SameCourse m m' where
  framePosition : m.framePosition = m'.framePosition
  frameCount : m.frameCount = m'.frameCount
  screen : m.screen = m'.screen

namespace SameCourse

theorem symm (h : SameCourse m m') : SameCourse m' m :=
  ⟨h.registers.symm, h.memory.symm, h.cycles.symm, h.running.symm, h.breakCount.symm⟩

theorem trans (h : SameCourse m m') (h' : SameCourse m' s) : SameCourse m s where
  registers := h.registers.trans h'.registers
  memory := h.memory.trans h'.memory
  cycles := h.cycles.trans h'.cycles
  running := h.running.trans h'.running
  breakCount := h.breakCount.trans h'.breakCount

end SameCourse

namespace InStep

theorem symm (h : InStep m m') : InStep m' m :=
  ⟨h.toSameCourse.symm, h.framePosition.symm, h.frameCount.symm, h.screen.symm⟩

theorem trans (h : InStep m m') (h' : InStep m' s) : InStep m s where
  toSameCourse := h.toSameCourse.trans h'.toSameCourse
  framePosition := h.framePosition.trans h'.framePosition
  frameCount := h.frameCount.trans h'.frameCount
  screen := h.screen.trans h'.screen

theorem alike (h : InStep m m') : Alike m m' :=
  ⟨h.registers, h.memory, h.cycles, h.framePosition, h.running⟩

theorem tick (h : InStep m m') : InStep m.tick m'.tick where
  registers := h.alike.tick.registers
  memory := h.alike.tick.memory
  cycles := h.alike.tick.cycles
  running := h.alike.tick.running
  framePosition := h.alike.tick.framePosition
  breakCount := by
    rw [breakCount_tick, breakCount_tick, h.breakCount, h.alike.nextInstruction]
  frameCount := by
    rw [(sameHost_tick m).frameCount, (sameHost_tick m').frameCount, h.frameCount]
  screen := by
    rw [(sameHost_tick m).screen, (sameHost_tick m').screen, h.screen]

theorem endFrame (h : InStep m m') : InStep m.endFrame m'.endFrame where
  registers := h.registers
  memory := h.memory
  cycles := h.cycles
  running := h.running
  breakCount := h.breakCount
  framePosition := rfl
  frameCount := congrArg (· + 1) h.frameCount
  screen := by
    show m.screen.render _ _ = m'.screen.render _ _
    rw [h.screen, h.memory]

theorem stepOne (h : InStep m m') : InStep m.stepOne m'.stepOne := by
  unfold Machine.stepOne
  simp only [h.tick.framePosition]
  split
  · exact h.tick.endFrame
  · exact h.tick

theorem stepOnes (h : InStep m m') (n : Nat) :
    InStep (Machine.stepOne^[n] m) (Machine.stepOne^[n] m') := by
  induction n generalizing m m' with
  | zero => exact h
  | succ n ih => exact ih h.stepOne

end InStep

theorem inStep_silent (m : Machine) : InStep m.silent m :=
  ⟨⟨rfl, rfl, rfl, rfl, rfl⟩, rfl, rfl, rfl⟩

theorem inStep_noteFrame (m : Machine) : InStep m.noteFrame m := by
  unfold noteFrame
  split <;> exact ⟨⟨rfl, rfl, rfl, rfl, rfl⟩, rfl, rfl, rfl⟩

/-! ## Single steps within one frame -/

/-- Single steps are ticks as long as none of them ends the frame. -/
theorem stepOnes_eq_ticks (n : Nat)
    (h : ∀ i < n, (tick^[i + 1] m).framePosition < cyclesPerFrame) :
    stepOne^[n] m = tick^[n] m := by
  induction n with
  | zero => rfl
  | succ n ih =>
    have hlast : (tick (tick^[n] m)).framePosition < cyclesPerFrame := by
      rw [← Function.iterate_succ_apply' tick]
      exact h n (Nat.lt_succ_self n)
    rw [Function.iterate_succ_apply', ih fun i hi => h i (by omega), stepOne_of_lt hlast,
      ← Function.iterate_succ_apply' tick]

/-- The single steps of a frame that is cut off are its ticks. -/
theorem stepOnes_of_inFrame (h : (tick^[m.frameTicks] m).framePosition < cyclesPerFrame) :
    stepOne^[m.frameTicks] m = tick^[m.frameTicks] m := by
  apply stepOnes_eq_ticks
  intro i hi
  rcases Nat.lt_or_ge (i + 1) m.frameTicks with hlt | hge
  · exact (runs_before_end m hlt).1.1
  · rwa [show i + 1 = m.frameTicks by omega]

/-- The single steps of a frame that spends its budget end the frame with the last of them. -/
theorem stepOnes_of_spent (hpos : m.framePosition < cyclesPerFrame)
    (h : cyclesPerFrame ≤ (tick^[m.frameTicks] m).framePosition) :
    stepOne^[m.frameTicks] m = (tick^[m.frameTicks] m).endFrame := by
  obtain ⟨n, hn⟩ : ∃ n, m.frameTicks = n + 1 := by
    apply Nat.exists_eq_succ_of_ne_zero
    intro hzero
    rw [hzero] at h
    exact absurd hpos (Nat.not_lt.mpr h)
  have hbefore : stepOne^[n] m = tick^[n] m :=
    stepOnes_eq_ticks n fun i hi => (runs_before_end m (by omega)).1.1
  rw [hn, Function.iterate_succ_apply'] at h
  rw [hn, Function.iterate_succ_apply', Function.iterate_succ_apply', hbefore, stepOne_of_le h]

/-! ## Passes stay on course -/

/-- A machine that a driver has left behind, beside the point of the single-step course that it has
reached. -/
structure OnCourse (m s : Machine) : Prop where
  sameCourse : SameCourse m s
  inStep : m.running = true → InStep m s
  inBudget : m.running = true → m.framePosition < cyclesPerFrame

theorem OnCourse.of_inStep (h : InStep m' m) (hc : OnCourse m s) : OnCourse m' s where
  sameCourse := h.toSameCourse.trans hc.sameCourse
  inStep hrun := h.trans (hc.inStep (h.running ▸ hrun))
  inBudget hrun := h.framePosition ▸ hc.inBudget (h.running ▸ hrun)

theorem OnCourse.of_running (h : InStep m s) (hpos : m.framePosition < cyclesPerFrame) :
    OnCourse m s :=
  ⟨h.toSameCourse, fun _ => h, fun _ => hpos⟩

theorem inStep_fresh (m : Machine) : InStep m.fresh m :=
  ⟨⟨rfl, rfl, rfl, rfl, rfl⟩, rfl, rfl, rfl⟩

/-- A frame leads where as many single steps lead. -/
theorem onCourse_stepFrame (h : InStep m s) (hrun : m.running = true)
    (hpos : m.framePosition < cyclesPerFrame) :
    OnCourse m.stepFrame.2 (stepOne^[m.fresh.frameTicks] s) := by
  have hsteps := ((inStep_fresh m).trans h).stepOnes m.fresh.frameTicks
  rw [stepFrame_of_running hrun]
  by_cases hin : m.frameEnd.InFrame
  · -- stopped at a breakpoint: no frame has ended on the way
    rw [stepOnes_of_inFrame hin.1] at hsteps
    rw [if_pos hin]
    exact OnCourse.of_running ⟨⟨hsteps.registers, hsteps.memory, hsteps.cycles, hsteps.running,
      hsteps.breakCount⟩, hsteps.framePosition, hsteps.frameCount, hsteps.screen⟩ hin.1
  · rw [if_neg hin]
    rcases Nat.lt_or_ge m.frameEnd.framePosition cyclesPerFrame with hlt | hge
    · -- halted within the frame, which the driver ends and the single step does not
      rw [stepOnes_of_inFrame hlt] at hsteps
      have hnote := (inStep_noteFrame m.frameEnd.endFrame).toSameCourse
      have hsame : SameCourse m.frameEnd.endFrame (stepOne^[m.fresh.frameTicks] s) :=
        ⟨hsteps.registers, hsteps.memory, hsteps.cycles, hsteps.running, hsteps.breakCount⟩
      have hhalt : ¬m.frameEnd.endFrame.noteFrame.running = true := fun hgo =>
        hin ⟨hlt, hnote.running ▸ hgo⟩
      exact ⟨hnote.trans hsame, fun hgo => absurd hgo hhalt, fun hgo => absurd hgo hhalt⟩
    · -- the budget is spent: both end the frame
      have hspent : stepOne^[m.fresh.frameTicks] m.fresh = m.frameEnd.endFrame :=
        stepOnes_of_spent hpos hge
      rw [hspent] at hsteps
      exact (OnCourse.of_running hsteps zero_lt_cyclesPerFrame).of_inStep (inStep_noteFrame _)

/-- The instructions that a pass executes: those of its frame, and the one at a breakpoint. -/
def passTicks (m : Machine) : Nat :=
  m.fresh.frameTicks + if m.stepFrame.2.breakpointHit then 1 else 0

theorem passTicks_of_hit (h : m.stepFrame.2.breakpointHit = true) :
    m.passTicks = m.fresh.frameTicks + 1 := by
  rw [passTicks, if_pos h]

theorem passTicks_of_not_hit (h : m.stepFrame.2.breakpointHit = false) :
    m.passTicks = m.fresh.frameTicks := by
  rw [passTicks, if_neg (by rw [h]; exact Bool.false_ne_true), Nat.add_zero]

theorem passTicks_of_not_running (hrun : m.running = false) : m.passTicks = 0 := by
  have hover : m.fresh.frameTicks = 0 :=
    frameTicks_of_over fun hin => absurd hin.2 (by rw [fresh, hrun]; exact Bool.false_ne_true)
  rw [passTicks_of_not_hit (by rw [stepFrame_of_not_running hrun]; rfl), hover]

/-- **Step lemma.**  A pass keeps a machine on course, by the instructions it executes. -/
theorem OnCourse.advance (h : OnCourse m s) : OnCourse m.advance (stepOne^[m.passTicks] s) := by
  cases hrun : m.running with
  | false =>
    rw [advance_of_not_running hrun, passTicks_of_not_running hrun]
    exact h.of_inStep (inStep_fresh m)
  | true =>
    have hframe := onCourse_stepFrame (h.inStep hrun) hrun (h.inBudget hrun)
    cases hhit : m.stepFrame.2.breakpointHit with
    | false =>
      rwa [advance_of_not_hit hhit, passTicks_of_not_hit hhit]
    | true =>
      have hin := inFrame_of_hit hrun hhit
      have hgo : m.stepFrame.2.running = true := by
        rw [stepFrame_of_running hrun, if_pos hin]
        exact hin.2
      rw [advance_of_hit hhit, passTicks_of_hit hhit, Function.iterate_succ_apply']
      exact OnCourse.of_running (hframe.inStep hgo).stepOne (stepOne_framePosition_lt _)

/-- A pass executes instructions only while the machine runs. -/
theorem running_before_pass_end (h : OnCourse m s) {i : Nat} (hi : i < m.passTicks) :
    (stepOne^[i] s).running = true := by
  cases hrun : m.running with
  | false =>
    rw [passTicks_of_not_running hrun] at hi
    exact absurd hi (Nat.not_lt_zero i)
  | true =>
    have hsteps := ((inStep_fresh m).trans (h.inStep hrun)).stepOnes i
    rw [← hsteps.running]
    rcases Nat.lt_or_ge i m.fresh.frameTicks with hlt | hge
    · rw [stepOnes_eq_ticks i fun j hj => (runs_before_end m.fresh (by omega)).1.1]
      exact (runs_before_end m.fresh hlt).1.2
    · -- the instruction at the breakpoint
      cases hhit : m.stepFrame.2.breakpointHit with
      | false =>
        rw [passTicks_of_not_hit hhit] at hi
        omega
      | true =>
        have hin := inFrame_of_hit hrun hhit
        rw [passTicks_of_hit hhit] at hi
        rw [show i = m.fresh.frameTicks by omega, stepOnes_of_inFrame hin.1]
        exact hin.2

/-! ## Any number of passes -/

/-- The instructions that a number of passes executes. -/
def passesTicks : Nat → Machine → Nat
  | 0, _ => 0
  | passes + 1, m => m.passTicks + passesTicks passes m.advance

/-- **Run lemma.**  Passes keep a machine on course. -/
theorem OnCourse.passes (h : OnCourse m s) (k : Nat) :
    OnCourse (Machine.advance^[k] m) (stepOne^[passesTicks k m] s) := by
  induction k generalizing m s with
  | zero => exact h
  | succ k ih =>
    rw [Function.iterate_succ_apply, passesTicks, Nat.add_comm, Function.iterate_add_apply]
    exact ih h.advance

theorem running_before_passes_end (h : OnCourse m s) (k : Nat) {i : Nat}
    (hi : i < passesTicks k m) : (stepOne^[i] s).running = true := by
  induction k generalizing m s i with
  | zero => exact absurd hi (Nat.not_lt_zero i)
  | succ k ih =>
    rw [passesTicks] at hi
    rcases Nat.lt_or_ge i m.passTicks with hlt | hge
    · exact running_before_pass_end h hlt
    · have hrest := ih h.advance (show i - m.passTicks < passesTicks k m.advance by omega)
      rwa [← Function.iterate_add_apply, Nat.sub_add_cancel hge] at hrest

theorem passesTicks_of_not_running (hrun : m.running = false) (k : Nat) : passesTicks k m = 0 := by
  induction k generalizing m with
  | zero => rfl
  | succ k ih =>
    have hstays : m.fresh.running = false := hrun
    rw [passesTicks, passTicks_of_not_running hrun, advance_of_not_running hrun, ih hstays]

theorem passTicks_silent (m : Machine) : m.silent.passTicks = m.passTicks := by
  have hfresh : Alike m.silent.fresh m.fresh := ⟨rfl, rfl, rfl, rfl, rfl⟩
  have hhit : m.silent.stepFrame.2.silent.breakpointHit = m.stepFrame.2.silent.breakpointHit := by
    rw [(stepFrame_silent m).2]
  change m.silent.stepFrame.2.breakpointHit = m.stepFrame.2.breakpointHit at hhit
  rw [passTicks, passTicks, hfresh.frameTicks rfl, hhit]

theorem passesTicks_silent (k : Nat) (m : Machine) : passesTicks k m.silent = passesTicks k m := by
  induction k generalizing m with
  | zero => rfl
  | succ k ih =>
    rw [passesTicks, passesTicks, passTicks_silent, ← ih m.silent.advance,
      ignoresJournal_advance m, ih]

end Machine

/-! ## The drivers' loops -/

theorem Windowed.Session.silent_runFrames (k : Nat) (s : Session) :
    (runFrame^[k] s).machine.silent = (Machine.advance^[k] s.machine).silent := by
  induction k generalizing s with
  | zero => rfl
  | succ k ih =>
    rw [Function.iterate_succ_apply, Function.iterate_succ_apply, ih, machine_runFrame]
    exact Machine.ignoresJournal_advance.iterate k s.machine.advance

/-- A run without a window in which no button is pressed stays on course, although it ends with the
pass in which the machine halts. -/
theorem Headless.onCourse_runFrames {o : Options} (hpress : o.press = none) (frames k : Nat)
    {r : Run} {s : Machine} (h : Machine.OnCourse r.machine s) :
    Machine.OnCourse (runFrames o frames k r).machine
      (Machine.stepOne^[Machine.passesTicks k r.machine] s) := by
  induction k generalizing r s with
  | zero => exact h
  | succ k ih =>
    set next := runFrame o frames (frames - (k + 1)) r with hnext
    have hmachine : next.machine = r.machine.advance.silent := by
      rw [hnext, machine_runFrame, press, hpress]
    have hcourse : Machine.OnCourse next.machine (Machine.stepOne^[r.machine.passTicks] s) := by
      rw [hmachine]
      exact h.advance.of_inStep (Machine.inStep_silent _)
    have hrest : Machine.passesTicks k next.machine = Machine.passesTicks k r.machine.advance := by
      rw [hmachine, Machine.passesTicks_silent]
    have hloop : runFrames o frames (k + 1) r
        = if next.machine.running then runFrames o frames k next else next := rfl
    rw [hloop, Machine.passesTicks, ← hrest, Nat.add_comm, Function.iterate_add_apply]
    split
    · exact ih hcourse
    · next hhalt =>
      rw [Machine.passesTicks_of_not_running (Bool.not_eq_true _ ▸ hhalt)]
      exact hcourse

namespace Machine

variable {m : Machine}

/-- A machine with other breakpoints. -/
def under (m : Machine) (breakpoints : List UInt16) : Machine :=
  { m with breakpoints }

theorem inStep_under (m : Machine) (breakpoints : List UInt16) : InStep (m.under breakpoints) m :=
  ⟨⟨rfl, rfl, rfl, rfl, rfl⟩, rfl, rfl, rfl⟩

/-- What a number of passes under some breakpoints does to a machine, measured by its single-step
course. -/
structure FollowsCourse (m : Machine) (breakpoints : List UInt16) (passes : Nat) : Prop where
  /-- The passes lead where as many single steps lead as they execute instructions. -/
  onCourse : OnCourse (advance^[passes] (m.under breakpoints))
    (stepOne^[passesTicks passes (m.under breakpoints)] m)
  /-- Each of these instructions is executed by a running machine. -/
  whileRunning : ∀ i < passesTicks passes (m.under breakpoints), (stepOne^[i] m).running = true
  /-- A run under any other breakpoints that has executed no fewer instructions is further on the
  same course. -/
  shared : ∀ (breakpoints' : List UInt16) (passes' : Nat),
    let executed := passesTicks passes (m.under breakpoints)
    let executed' := passesTicks passes' (m.under breakpoints')
    executed ≤ executed' →
      OnCourse (advance^[passes'] (m.under breakpoints'))
        (stepOne^[executed' - executed] (advance^[passes] (m.under breakpoints)))
  /-- All runs that halt do so in the same place. -/
  halted : ∀ (breakpoints' : List UInt16) (passes' : Nat),
    (advance^[passes] (m.under breakpoints)).running = false →
      (advance^[passes'] (m.under breakpoints')).running = false →
        SameCourse (advance^[passes] (m.under breakpoints))
          (advance^[passes'] (m.under breakpoints'))
  /-- The session in a window makes these passes. -/
  windowed : ∀ session : Windowed.Session, session.machine = m.under breakpoints →
    OnCourse (Windowed.Session.runFrame^[passes] session).machine
      (stepOne^[passesTicks passes (m.under breakpoints)] m)
  /-- The run without a window makes these passes, up to a halt. -/
  headless : ∀ (o : Options) (frames : Nat) (run : Headless.Run), o.press = none →
    run.machine = m.under breakpoints →
      OnCourse (Headless.runFrames o frames passes run).machine
        (stepOne^[passesTicks passes (m.under breakpoints)] m)

/-- A run that has halted has executed all that any other run executes. -/
theorem passesTicks_le_of_halted {s : Machine} {m' : Machine} (h : OnCourse m s)
    (h' : OnCourse m' s) (k k' : Nat) (hhalt : (advance^[k] m).running = false) :
    passesTicks k' m' ≤ passesTicks k m := by
  by_contra hmore
  have hgo := running_before_passes_end h' k' (Nat.lt_of_not_le hmore)
  rw [← (h.passes k).sameCourse.running, hhalt] at hgo
  exact Bool.false_ne_true hgo

/-- A later point of one course seen from an earlier one. -/
theorem OnCourse.shared {s m' : Machine} (h : OnCourse m s) (h' : OnCourse m' s) (k k' : Nat)
    (hle : passesTicks k m ≤ passesTicks k' m') :
    OnCourse (Machine.advance^[k'] m')
      (stepOne^[passesTicks k' m' - passesTicks k m] (Machine.advance^[k] m)) := by
  have hpast := h.passes k
  have hlater := h'.passes k'
  have hsplit : stepOne^[passesTicks k' m'] s
      = stepOne^[passesTicks k' m' - passesTicks k m] (stepOne^[passesTicks k m] s) := by
    rw [← Function.iterate_add_apply, Nat.sub_add_cancel hle]
  rw [hsplit] at hlater
  cases hrun : (Machine.advance^[k] m).running with
  | true =>
    have hstep := ((hpast.inStep hrun).symm.stepOnes (passesTicks k' m' - passesTicks k m))
    exact ⟨hlater.sameCourse.trans hstep.toSameCourse,
      fun hgo => (hlater.inStep hgo).trans hstep, hlater.inBudget⟩
  | false =>
    have hequal : passesTicks k' m' - passesTicks k m = 0 := by
      have := passesTicks_le_of_halted h h' k k' hrun
      omega
    rw [hequal] at hlater ⊢
    have hsame := hlater.sameCourse.trans hpast.sameCourse.symm
    have hstop : ¬(Machine.advance^[k'] m').running = true := by
      intro hgo
      rw [hsame.running, hrun] at hgo
      exact Bool.false_ne_true hgo
    exact ⟨hsame, fun hgo => absurd hgo hstop, fun hgo => absurd hgo hstop⟩

/-- **Breakpoints and single steps never change the execution.** -/
theorem followsCourse (m : Machine) (hpos : m.framePosition < cyclesPerFrame)
    (breakpoints : List UInt16) (passes : Nat) : FollowsCourse m breakpoints passes := by
  have start : ∀ breakpoints, OnCourse (m.under breakpoints) m := fun breakpoints =>
    OnCourse.of_running (inStep_under m breakpoints) hpos
  have hpasses := (start breakpoints).passes passes
  refine ⟨hpasses, fun i hi => running_before_passes_end (start breakpoints) passes hi,
    fun breakpoints' passes' hle => (start breakpoints).shared (start breakpoints') _ _ hle, ?_, ?_,
    ?_⟩
  · intro breakpoints' passes' hhalt hhalt'
    have hle :=
      passesTicks_le_of_halted (start breakpoints) (start breakpoints') passes passes' hhalt
    have hge :=
      passesTicks_le_of_halted (start breakpoints') (start breakpoints) passes' passes hhalt'
    have hend := ((start breakpoints').passes passes').sameCourse
    rw [Nat.le_antisymm hle hge] at hend
    exact hpasses.sameCourse.trans hend.symm
  · intro session hsession
    have hsame := Windowed.Session.silent_runFrames passes session
    rw [hsession] at hsame
    have hsilent := hpasses.of_inStep (inStep_silent _)
    rw [← hsame] at hsilent
    exact hsilent.of_inStep (inStep_silent _).symm
  · intro o frames run hpress hmachine
    have hstart : OnCourse run.machine m := by
      rw [hmachine]
      exact start breakpoints
    have hend := Headless.onCourse_runFrames hpress frames passes hstart
    rwa [hmachine] at hend

/-- A started machine without a cartridge, stopped at its second instruction and stepped past it. -/
theorem followsCourse_initial :
    Machine.initial.start.framePosition < cyclesPerFrame
      ∧ FollowsCourse Machine.initial.start [0xE001] 2 :=
  ⟨by decide, followsCourse Machine.initial.start (by decide) [0xE001] 2⟩

end Machine

end FantasyComputer
