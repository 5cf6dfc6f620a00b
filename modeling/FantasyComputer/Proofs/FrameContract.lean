/-
# FantasyComputer.Proofs.FrameContract — what a call for a frame promises its host.

A host that calls for a frame learns one bit.  This module says what the bit stands for.  Each call of
a running machine executes a number of instructions, none of them at a breakpoint, and goes in one of
two ways: the frame is complete after them (`CompletesAfter`), because its budget is spent or the last
one was a `HALT`, or a breakpoint is met (`MeetsAfter`).  There is no third way and no call goes both
ways, so each of them determines what is returned and what the machine is afterwards
(`stepFrame_of_completesAfter`, `stepFrame_of_meetsAfter`).

The tests of the loop come in a fixed order.  Where a spent budget or a halt and a breakpoint fall
together, the frame is complete; where the interrupt has just been let in and its vector is a
breakpoint, the handler does not start.

A call that stopped loses nothing.  `frameTicks_add` says that the instructions of a frame can be
counted in two parts, and breakpoints are nothing that an instruction reads (`tick_under`).  So a call
without breakpoints goes on from where the stopped call has left the machine to where a single call
would have led, after one stop (`stepFrame_resumed`) and after any number of them
(`stepFrame_visited`).
-/
import FantasyComputer.Proofs.FramePacing

namespace FantasyComputer.Machine

variable {m : Machine} {n : Nat}

/-! ## Breakpoints are not read by instructions

The equations hold of whole machines, the journal included. -/

theorem perform_under (m : Machine) (breakpoints : List UInt16) (i : Instruction) :
    (m.under breakpoints).perform i = (m.perform i).under breakpoints := by
  cases i with
  | jumpIf condition address =>
    show (if m.registers.satisfies condition then _ else _) = (if _ then _ else _ : Machine).under _
    split <;> rfl
  | undefined opcode =>
    show (if m.debug then _ else _) = (if m.debug then _ else _ : Machine).under _
    split <;> rfl
  | _ => rfl

theorem takeInterrupt_under (m : Machine) (breakpoints : List UInt16) :
    (m.under breakpoints).takeInterrupt = m.takeInterrupt.under breakpoints := by
  show (if m.debug then _ else _) = (if m.debug then _ else _ : Machine).under _
  split <;> rfl

theorem poll_under (m : Machine) (breakpoints : List UInt16) :
    (m.under breakpoints).poll = m.poll.under breakpoints := by
  have hready : (m.under breakpoints).interruptReady = m.interruptReady := rfl
  have hposition : (m.under breakpoints).framePosition = m.framePosition := rfl
  unfold poll checkInterrupt
  rw [hready, hposition, takeInterrupt_under]
  split_ifs <;> rfl

theorem tick_under (m : Machine) (breakpoints : List UInt16) :
    (m.under breakpoints).tick = m.tick.under breakpoints := by
  have hstep : (m.under breakpoints).step = m.step.under breakpoints :=
    congrArg (charge · m.nextCost) (perform_under (m.goto _) breakpoints m.nextInstruction)
  rw [tick, hstep, poll_under, tick]

theorem ticks_under (n : Nat) (m : Machine) (breakpoints : List UInt16) :
    tick^[n] (m.under breakpoints) = (tick^[n] m).under breakpoints := by
  induction n with
  | zero => rfl
  | succ n ih => rw [Function.iterate_succ_apply', Function.iterate_succ_apply', ih, tick_under]

/-! ## The instructions of a frame in two parts -/

/-- Whether the first `n` instructions of a frame are executed: before each of them the machine is
within the frame and on no breakpoint. -/
def Unhindered (m : Machine) (n : Nat) : Prop :=
  ∀ i < n, (tick^[i] m).InFrame ∧ (tick^[i] m).registers.pc ∉ m.breakpoints

theorem atBreakpoint_ticks (n : Nat) (m : Machine) :
    (tick^[n] m).atBreakpoint = true ↔ (tick^[n] m).registers.pc ∈ m.breakpoints := by
  rw [atBreakpoint, (sameHost_ticks n m).breakpoints, List.contains_iff_mem]

theorem Unhindered.rest (h : m.Unhindered (n + 1)) : m.tick.Unhindered n := by
  intro i hi
  rw [(sameHost_tick m).breakpoints, ← Function.iterate_succ_apply]
  exact h (i + 1) (Nat.succ_lt_succ hi)

/-- **A frame in two parts.**  After some of its instructions the others are still to come. -/
theorem frameTicks_add (h : m.Unhindered n) : m.frameTicks = n + (tick^[n] m).frameTicks := by
  induction n generalizing m with
  | zero => exact (Nat.zero_add _).symm
  | succ n ih =>
    obtain ⟨hin, hpass⟩ := h 0 (Nat.zero_lt_succ n)
    have hgo : ¬m.atBreakpoint = true := mt (atBreakpoint_ticks 0 m).mp hpass
    have hfirst : m.frameTicks = m.tick.frameTicks + 1 := frameTicks_of_tick hin hgo
    rw [hfirst, ih h.rest, Function.iterate_succ_apply]
    omega

theorem unhindered_frameTicks (m : Machine) : m.Unhindered m.frameTicks := by
  intro i hi
  obtain ⟨hin, hpass⟩ := runs_before_end m hi
  refine ⟨hin, fun hmem => ?_⟩
  rw [(atBreakpoint_ticks i m).mpr hmem] at hpass
  exact Bool.false_ne_true hpass.symm

/-! ## The two ways in which a frame goes -/

/-- Whether the frame is complete after `n` instructions: its budget is spent, or the last of them was
a `HALT`. -/
structure CompletesAfter (m : Machine) (n : Nat) : Prop where
  unhindered : m.Unhindered n
  complete : cyclesPerFrame ≤ (tick^[n] m).framePosition
    ∨ ∃ last, n = last + 1 ∧ (tick^[last] m).nextInstruction = .halt

/-- Whether a breakpoint is met after `n` instructions, within the frame. -/
structure MeetsAfter (m : Machine) (n : Nat) : Prop where
  unhindered : m.Unhindered n
  inFrame : (tick^[n] m).InFrame
  met : (tick^[n] m).registers.pc ∈ m.breakpoints

theorem CompletesAfter.not_inFrame (h : m.CompletesAfter n) : ¬(tick^[n] m).InFrame := by
  rintro ⟨hposition, hrun⟩
  rcases h.complete with hspent | ⟨last, rfl, hhalt⟩
  · omega
  · rw [Function.iterate_succ_apply', running_tick_of_halt hhalt] at hrun
    exact Bool.false_ne_true hrun

theorem CompletesAfter.frameTicks_eq (h : m.CompletesAfter n) : m.frameTicks = n := by
  rw [frameTicks_add h.unhindered, frameTicks_of_over h.not_inFrame, Nat.add_zero]

theorem MeetsAfter.frameTicks_eq (h : m.MeetsAfter n) : m.frameTicks = n := by
  rw [frameTicks_add h.unhindered, frameTicks_of_break h.inFrame ((atBreakpoint_ticks n m).mpr h.met),
    Nat.add_zero]

/-- A running machine that is no longer within its frame has completed it. -/
theorem completesAfter_frameTicks (hrun : m.running = true)
    (hout : ¬(tick^[m.frameTicks] m).InFrame) : m.CompletesAfter m.frameTicks := by
  refine ⟨unhindered_frameTicks m, ?_⟩
  by_contra hincomplete
  rw [not_or, not_le] at hincomplete
  obtain ⟨hposition, hlast⟩ := hincomplete
  refine hout ⟨hposition, ?_⟩
  -- only a `HALT` would have stopped it
  cases hcount : m.frameTicks with
  | zero => exact hrun
  | succ last =>
    have hbefore : (tick^[last] m).running = true :=
      (runs_before_end m (hcount ▸ Nat.lt_succ_self last)).1.2
    have hother : (tick^[last] m).nextInstruction ≠ .halt := fun hhalt => hlast ⟨last, hcount, hhalt⟩
    rw [Function.iterate_succ_apply', running_tick, hbefore, Bool.true_and, bne_iff_ne]
    exact hother

theorem meetsAfter_frameTicks (hin : (tick^[m.frameTicks] m).InFrame) :
    m.MeetsAfter m.frameTicks := by
  refine ⟨unhindered_frameTicks m, hin, ?_⟩
  rcases frame_over m with hout | hbreak
  · exact absurd hin hout
  · exact (atBreakpoint_ticks _ m).mp hbreak

/-- **There is no third way.** -/
theorem exists_way (hrun : m.running = true) : ∃ n, m.CompletesAfter n ∨ m.MeetsAfter n := by
  by_cases hin : (tick^[m.frameTicks] m).InFrame
  · exact ⟨m.frameTicks, Or.inr (meetsAfter_frameTicks hin)⟩
  · exact ⟨m.frameTicks, Or.inl (completesAfter_frameTicks hrun hin)⟩

/-- **No frame goes both ways.** -/
theorem CompletesAfter.not_meetsAfter {n' : Nat} (h : m.CompletesAfter n) : ¬m.MeetsAfter n' := by
  intro h'
  have hsame : n = n' := h.frameTicks_eq.symm.trans h'.frameTicks_eq
  rw [← hsame] at h'
  exact h.not_inFrame h'.inFrame

/-! ## What a call returns, and the machine after it -/

theorem alike_ticks_fresh (n : Nat) (m : Machine) : Alike (tick^[n] m.fresh) (tick^[n] m) :=
  (inStep_fresh m).alike.ticks n

/-- The machine after the instructions of a frame, whatever the last call was marked with. -/
theorem frameEnd_eq (hcount : m.frameTicks = n) : m.frameEnd = tick^[n] m.fresh := by
  have hfresh : m.fresh.frameTicks = m.frameTicks := (inStep_fresh m).alike.frameTicks rfl
  rw [frameEnd, hfresh, hcount]

theorem inFrame_frameEnd (hcount : m.frameTicks = n) :
    m.frameEnd.InFrame ↔ (tick^[n] m).InFrame := by
  rw [(alike_frameEnd m).inFrame_iff, hcount]

theorem stepFrame_of_completesAfter (hrun : m.running = true) (h : m.CompletesAfter n) :
    m.stepFrame = (true, (tick^[n] m.fresh).endFrame.noteFrame) := by
  have hout : ¬m.frameEnd.InFrame := mt (inFrame_frameEnd h.frameTicks_eq).mp h.not_inFrame
  rw [stepFrame_of_running hrun, if_neg hout, frameEnd_eq h.frameTicks_eq]

theorem stepFrame_of_meetsAfter (hrun : m.running = true) (h : m.MeetsAfter n) :
    m.stepFrame = (false, { tick^[n] m.fresh with breakpointHit := true }) := by
  have hin : m.frameEnd.InFrame := (inFrame_frameEnd h.frameTicks_eq).mpr h.inFrame
  rw [stepFrame_of_running hrun, if_pos hin, frameEnd_eq h.frameTicks_eq]

theorem finished_iff (m : Machine) :
    m.stepFrame.1 = true ↔ m.running = true ∧ ∃ n, m.CompletesAfter n := by
  constructor
  · intro h
    have hrun := running_of_finished h
    have hout : ¬(tick^[m.frameTicks] m).InFrame :=
      mt (inFrame_frameEnd rfl).mpr (not_inFrame_of_finished h)
    exact ⟨hrun, m.frameTicks, completesAfter_frameTicks hrun hout⟩
  · rintro ⟨hrun, n, h⟩
    rw [stepFrame_of_completesAfter hrun h]

/-- A call that is marked as stopped has met a breakpoint. -/
theorem exists_meetsAfter_of_hit (h : m.stepFrame.2.breakpointHit = true) :
    m.running = true ∧ ∃ n, m.MeetsAfter n := by
  cases hrun : m.running with
  | false =>
    rw [stepFrame_of_not_running hrun] at h
    exact absurd h Bool.false_ne_true
  | true =>
    have hin := (inFrame_frameEnd rfl).mp (inFrame_of_hit hrun h)
    exact ⟨rfl, m.frameTicks, meetsAfter_frameTicks hin⟩

/-! ## Going on after a stop -/

/-- **A stopped call goes on.**  Under breakpoints that none of its instructions stood on it would not
have stopped, and under these it ends as if it had not. -/
theorem stepFrame_resumed (hrun : m.running = true) (h : m.MeetsAfter n) {breakpoints : List UInt16}
    (hpass : ∀ i < n, (tick^[i] m).registers.pc ∉ breakpoints) :
    (m.stepFrame.2.under breakpoints).stepFrame = (m.under breakpoints).stepFrame := by
  -- where the call has stopped, without the mark
  set stop := (tick^[n] m.fresh).under breakpoints with hstop
  have hstopped : (m.stepFrame.2.under breakpoints).fresh = stop := by
    have hmark : stop.breakpointHit = false := (sameHost_ticks n m.fresh).breakpointHit
    rw [stepFrame_of_meetsAfter hrun h]
    show { stop with breakpointHit := false } = stop
    rw [← hmark]
  have hsingle : tick^[n] (m.under breakpoints).fresh = stop := ticks_under n m.fresh breakpoints
  -- the single call executes the same instructions first
  have hfirst : (m.under breakpoints).fresh.Unhindered n := by
    intro i hi
    have halike : Alike (tick^[i] (m.under breakpoints).fresh) (tick^[i] m) :=
      (alike_ticks_fresh i _).trans ((inStep_under m breakpoints).alike.ticks i)
    rw [halike.registers]
    exact ⟨halike.inFrame_iff.mpr (h.unhindered i hi).1, hpass i hi⟩
  have hend : (m.stepFrame.2.under breakpoints).frameEnd = (m.under breakpoints).frameEnd := by
    unfold frameEnd
    rw [hstopped, frameTicks_add hfirst, Nat.add_comm n, Function.iterate_add_apply, hsingle]
  have hgoes : (m.stepFrame.2.under breakpoints).running = true := by
    rw [stepFrame_of_meetsAfter hrun h]
    exact (alike_ticks_fresh n m).running.trans h.inFrame.2
  rw [stepFrame_of_running hgoes, stepFrame_of_running (m := m.under breakpoints) hrun, hend]

/-- The machine after calls under one list of breakpoints after the other. -/
def visit (m : Machine) (lists : List (List UInt16)) : Machine :=
  lists.foldl (fun m breakpoints => (m.under breakpoints).stepFrame.2) m

/-- Whether all these calls stop at a breakpoint. -/
def StopsEachTime : Machine → List (List UInt16) → Prop
  | _, [] => True
  | m, breakpoints :: lists =>
    (m.under breakpoints).stepFrame.2.breakpointHit = true
      ∧ StopsEachTime (m.under breakpoints).stepFrame.2 lists

/-- **Run lemma.**  After any number of stops a call without breakpoints ends where a single call
would have ended. -/
theorem stepFrame_visited (lists : List (List UInt16)) (h : m.StopsEachTime lists) :
    ((m.visit lists).under []).stepFrame = (m.under []).stepFrame := by
  induction lists generalizing m with
  | nil => rfl
  | cons breakpoints lists ih =>
    obtain ⟨hrun, n, hmeets⟩ := exists_meetsAfter_of_hit h.1
    have hstep := stepFrame_resumed hrun hmeets (fun _ _ => List.not_mem_nil)
    exact (ih h.2).trans hstep

/-! ## The contract -/

/-- What a call for a frame promises its host. -/
structure FrameContract (m : Machine) : Prop where
  /-- A frame is reported if the machine ran and completed it before it met a breakpoint. -/
  finished_iff : m.stepFrame.1 = true ↔ m.running = true ∧ ∃ n, m.CompletesAfter n
  /-- A running machine completes its frame or meets a breakpoint, and not both. -/
  ways : m.running = true → ((∃ n, m.CompletesAfter n) ↔ ¬∃ n, m.MeetsAfter n)
  /-- A reported frame is counted and drawn from the memory at its end, whatever was shown before, and
  the next one starts. -/
  finished : m.stepFrame.1 = true →
    m.stepFrame.2.frameCount = m.frameCount + 1
      ∧ (∀ shown : Screen, m.stepFrame.2.screen
          = shown.render m.stepFrame.2.memory.video.toArray m.stepFrame.2.memory.palette)
      ∧ m.stepFrame.2.framePosition = 0
      ∧ m.stepFrame.2.breakpointHit = false
  /-- The count of frames wraps; short of its width it has grown by exactly one. -/
  counted : m.stepFrame.1 = true → m.frameCount.toNat + 1 < 2 ^ 32 →
    (m.stepFrame.2.frameCount : Nat) = m.frameCount.toNat + 1
  /-- Otherwise the picture and the number of frames stay. -/
  unfinished : m.stepFrame.1 = false →
    m.stepFrame.2.screen = m.screen ∧ m.stepFrame.2.frameCount = m.frameCount
  /-- A machine that does not run forgets its last stop, and nothing else changes. -/
  standing : m.running = false → m.stepFrame = (false, { m with breakpointHit := false })
  /-- A running machine that reports no frame stands on a breakpoint within the frame. -/
  stopped : m.stepFrame.1 = false → m.running = true →
    m.stepFrame.2.breakpointHit = true
      ∧ m.stepFrame.2.running = true
      ∧ m.stepFrame.2.registers.pc ∈ m.breakpoints
      ∧ m.stepFrame.2.framePosition < cyclesPerFrame
  /-- The call executes a number of instructions, none of which is at a breakpoint. -/
  executed : SameCourse m.stepFrame.2 (tick^[m.frameTicks] m)
    ∧ ∀ i < m.frameTicks, (tick^[i] m).registers.pc ∉ m.breakpoints
  /-- If the vector is a breakpoint, the instruction before an interrupt is the last one. -/
  entered : interruptVector ∈ m.breakpoints →
    ∀ i < m.frameTicks, (tick^[i] m).InterruptsNext → i + 1 = m.frameTicks
  /-- A stopped call that goes on without breakpoints ends as a single call without them. -/
  resumed : m.stepFrame.2.breakpointHit = true →
    (m.stepFrame.2.under []).stepFrame = (m.under []).stepFrame
  /-- So do any number of them, under whatever breakpoints they have stopped. -/
  visited : ∀ lists : List (List UInt16), m.StopsEachTime lists →
    ((m.visit lists).under []).stepFrame = (m.under []).stepFrame

/-- **The contract of a frame**, for every machine and every list of breakpoints. -/
theorem frameContract (m : Machine) : FrameContract m where
  finished_iff := m.finished_iff
  ways hrun := by
    constructor
    · rintro ⟨n, hcompletes⟩ ⟨n', hmeets⟩
      exact hcompletes.not_meetsAfter hmeets
    · intro hnever
      obtain ⟨n, hcompletes | hmeets⟩ := exists_way hrun
      · exact ⟨n, hcompletes⟩
      · exact absurd ⟨n, hmeets⟩ hnever
  finished h := by
    have hend := inStep_of_finished h
    have hcount := (sameHost_frameEnd m).frameCount
    refine ⟨hend.frameCount.trans (congrArg (· + 1) hcount), fun shown => ?_, hend.framePosition,
      (stepFrame_of_finished h).2⟩
    rw [hend.screen, hend.memory]
    exact Screen.render_eq _ _ _ _
  counted h hroom := by
    have hcount := m.stepFrame_counters.2.2
    rw [h] at hcount
    rw [hcount]
    exact Counter.toNat_add_32 hroom
  unfinished h := by
    cases hrun : m.running with
    | false =>
      rw [stepFrame_of_not_running hrun]
      exact ⟨rfl, rfl⟩
    | true =>
      have hhost := sameHost_frameEnd m
      by_cases hin : m.frameEnd.InFrame
      · rw [stepFrame_of_running hrun, if_pos hin]
        exact ⟨hhost.screen, hhost.frameCount⟩
      · rw [stepFrame_of_running hrun, if_neg hin] at h
        exact absurd h.symm Bool.false_ne_true
  standing hrun := stepFrame_of_not_running hrun
  stopped h hrun := by
    obtain ⟨n, hcompletes | hmeets⟩ := exists_way hrun
    · rw [stepFrame_of_completesAfter hrun hcompletes] at h
      exact absurd h.symm Bool.false_ne_true
    · have hfresh := alike_ticks_fresh n m
      rw [stepFrame_of_meetsAfter hrun hmeets]
      refine ⟨rfl, hfresh.running.trans hmeets.inFrame.2, ?_, ?_⟩
      · show (tick^[n] m.fresh).registers.pc ∈ m.breakpoints
        rw [hfresh.registers]
        exact hmeets.met
      · show (tick^[n] m.fresh).framePosition < cyclesPerFrame
        rw [hfresh.framePosition]
        exact hmeets.inFrame.1
  executed := by
    have hcourse := sameCourse_stepFrame m
    rw [frameOpcodes, length_opcodes] at hcourse
    exact ⟨hcourse, fun i hi => (unhindered_frameTicks m i hi).2⟩
  entered hvector i hi hready := by
    by_contra hmore
    have hpass := (unhindered_frameTicks m (i + 1) (by omega)).2
    rw [Function.iterate_succ_apply', tick_of_interruptsNext hready, registers_takeInterrupt] at hpass
    exact hpass hvector
  resumed h := by
    obtain ⟨hrun, n, hmeets⟩ := exists_meetsAfter_of_hit h
    exact stepFrame_resumed hrun hmeets fun _ _ => List.not_mem_nil
  visited lists h := stepFrame_visited lists h

end FantasyComputer.Machine
