/-
# FantasyComputer.Proofs.Frames — a frame is a counted run of instructions.

`runFrame` is a loop with three ways out: the budget is spent, the machine has halted, or the program
counter stands on a breakpoint.  `frameTicks` counts the instructions it executes, by the same
recursion, and `runFrame_eq` says that the loop is nothing but that many ticks and, at a breakpoint,
the mark that it was met.  `runs_before_end` and `frame_over` say what holds before every tick and
after the last, so that no later proof opens the loop again.

`stepFrame_of_running` is the whole of a call in those terms.

`opcodes` is the row of opcodes that a number of instructions executes and `price` what they cost
together.  Both counters grow by that price and wrap (`cycles_ticks`, `framePosition_ticks`); within
a frame the place does not come near its width (`toNat_framePosition_ticks`).
-/
import FantasyComputer.Proofs.Execution

namespace FantasyComputer

/-! ## Prices -/

/-- What a row of opcodes costs. -/
def price (opcodes : List UInt8) : Nat :=
  (opcodes.map cost).sum

@[simp]
theorem price_nil : price [] = 0 := rfl

@[simp]
theorem price_cons (opcode : UInt8) (opcodes : List UInt8) :
    price (opcode :: opcodes) = cost opcode + price opcodes := by
  simp [price]

@[simp]
theorem price_append (first second : List UInt8) :
    price (first ++ second) = price first + price second := by
  simp [price]

theorem length_le_price (opcodes : List UInt8) : opcodes.length ≤ price opcodes := by
  induction opcodes with
  | nil => simp
  | cons opcode opcodes ih =>
    have := cost_pos opcode
    simp only [List.length_cons, price_cons]
    omega

/-- No instruction costs more than seven cycles. -/
theorem price_le (opcodes : List UInt8) : price opcodes ≤ 7 * opcodes.length := by
  induction opcodes with
  | nil => simp
  | cons opcode opcodes ih =>
    have := cost_le opcode
    simp only [List.length_cons, price_cons]
    omega

namespace Machine

variable {m m' : Machine}

/-! ## Runs of ticks -/

theorem Alike.ticks (h : Alike m m') (n : Nat) :
    Alike (Machine.tick^[n] m) (Machine.tick^[n] m') := by
  induction n generalizing m m' with
  | zero => exact h
  | succ n ih =>
    rw [Function.iterate_succ_apply, Function.iterate_succ_apply]
    exact ih h.tick

theorem sameHost_ticks (n : Nat) (m : Machine) : SameHost (tick^[n] m) m := by
  induction n generalizing m with
  | zero => exact SameHost.refl m
  | succ n ih =>
    rw [Function.iterate_succ_apply]
    exact (ih m.tick).trans (sameHost_tick m)

theorem rom_ticks (n : Nat) (m : Machine) : (tick^[n] m).memory.rom = m.memory.rom := by
  induction n generalizing m with
  | zero => rfl
  | succ n ih => rw [Function.iterate_succ_apply, ih, rom_tick]

/-- The opcodes of a number of instructions. -/
def opcodes : Nat → Machine → List UInt8
  | 0, _ => []
  | n + 1, m => m.opcode :: opcodes n m.tick

@[simp]
theorem length_opcodes (n : Nat) (m : Machine) : (opcodes n m).length = n := by
  induction n generalizing m with
  | zero => rfl
  | succ n ih => simp [opcodes, ih]

theorem cycles_ticks (n : Nat) (m : Machine) :
    (tick^[n] m).cycles = m.cycles + UInt64.ofNat (price (opcodes n m)) := by
  induction n generalizing m with
  | zero => exact (UInt64.add_zero _).symm
  | succ n ih =>
    rw [Function.iterate_succ_apply, ih, cycles_tick, opcodes, price_cons, nextCost,
      UInt64.ofNat_add, UInt64.add_assoc]

theorem framePosition_ticks (n : Nat) (m : Machine) :
    (tick^[n] m).framePosition = m.framePosition + UInt32.ofNat (price (opcodes n m)) := by
  induction n generalizing m with
  | zero => exact (UInt32.add_zero _).symm
  | succ n ih =>
    rw [Function.iterate_succ_apply, ih, framePosition_tick, opcodes, price_cons, nextCost,
      UInt32.ofNat_add, UInt32.add_assoc]

/-- Instructions that all start within the budget of a frame move the place like a number. -/
theorem toNat_framePosition_ticks {n : Nat}
    (hin : ∀ i < n, (tick^[i] m).framePosition < cyclesPerFrame) :
    ((tick^[n] m).framePosition : Nat) = m.framePosition + price (opcodes n m) := by
  induction n generalizing m with
  | zero => rfl
  | succ n ih =>
    have hfirst : (m.tick.framePosition : Nat) = m.framePosition + m.nextCost :=
      toNat_framePosition_tick (hin 0 (Nat.zero_lt_succ n))
    have hrest := ih fun i hi => hin (i + 1) (Nat.succ_lt_succ hi)
    rw [Function.iterate_succ_apply, hrest, hfirst, opcodes, price_cons, nextCost, Nat.add_assoc]

/-! ## Rows of `NOP`s

A zero byte is an instruction that does nothing for one cycle. -/

/-- A machine that has passed over a number of `NOP`s. -/
def pastNops (m : Machine) (n : Nat) : Machine :=
  { m with
    registers := { m.registers with pc := m.registers.pc + UInt16.ofNat n }
    cycles := m.cycles + UInt64.ofNat n
    framePosition := m.framePosition + UInt32.ofNat n }

theorem pastNops_zero (m : Machine) : m.pastNops 0 = m := by
  show { m with
    registers := { m.registers with pc := m.registers.pc + 0 }
    cycles := m.cycles + 0
    framePosition := m.framePosition + 0 } = m
  rw [UInt16.add_zero, UInt64.add_zero, UInt32.add_zero]

theorem pastNops_pastNops (m : Machine) (n k : Nat) :
    (m.pastNops n).pastNops k = m.pastNops (n + k) := by
  unfold pastNops
  rw [UInt16.ofNat_add, UInt64.ofNat_add, UInt32.ofNat_add, ← UInt16.add_assoc, ← UInt64.add_assoc,
    ← UInt32.add_assoc]

theorem step_of_nop (h : m.memory.read m.registers.pc = 0) : m.step = m.pastNops 1 := by
  have hread : m.memory.read (m.registers.pc + 0) = 0 := by rw [UInt16.add_zero, h]
  rw [step_of_reads m.registers.pc rfl hread rfl rfl]
  rfl

/-- Whether no interrupt can be taken while a number of `NOP`s is passed over: interrupts are masked,
or the place in the frame stays off the cadence. -/
def Undelayed (m : Machine) (n : Nat) : Prop :=
  m.registers.flag .interrupt = false
    ∨ ∀ i < n, (m.pastNops (i + 1)).framePosition % interruptInterval ≠ 0

theorem tick_of_nop (h : m.memory.read m.registers.pc = 0) (hquiet : m.Undelayed 1) :
    m.tick = m.pastNops 1 := by
  rw [tick, step_of_nop h]
  rcases hquiet with hmasked | hoff
  · exact poll_of_masked hmasked
  · exact poll_of_offCadence (hoff 0 Nat.one_pos)

theorem Undelayed.rest {n : Nat} (h : m.Undelayed (n + 1)) :
    m.Undelayed 1 ∧ (m.pastNops 1).Undelayed n := by
  rcases h with hmasked | hoff
  · exact ⟨Or.inl hmasked, Or.inl hmasked⟩
  · refine ⟨Or.inr fun i hi => hoff i (by omega), Or.inr fun i hi => ?_⟩
    rw [pastNops_pastNops, Nat.add_comm 1]
    exact hoff (i + 1) (by omega)

/-- **A row of `NOP`s** is passed over one by one. -/
theorem ticks_of_nops {n : Nat}
    (hnops : ∀ i < n, m.memory.read (m.registers.pc + UInt16.ofNat i) = 0)
    (hquiet : m.Undelayed n) : tick^[n] m = m.pastNops n := by
  induction n generalizing m with
  | zero => exact (pastNops_zero m).symm
  | succ n ih =>
    have hfirst : m.memory.read m.registers.pc = 0 := by
      have hzero := hnops 0 (Nat.zero_lt_succ n)
      rwa [show UInt16.ofNat 0 = 0 from rfl, UInt16.add_zero] at hzero
    have hrest : ∀ i < n, (m.pastNops 1).memory.read
        ((m.pastNops 1).registers.pc + UInt16.ofNat i) = 0 := by
      intro i hi
      have hlater := hnops (i + 1) (Nat.succ_lt_succ hi)
      rwa [Nat.add_comm, UInt16.ofNat_add, ← UInt16.add_assoc] at hlater
    rw [Function.iterate_succ_apply, tick_of_nop hfirst hquiet.rest.1, ih hrest hquiet.rest.2,
      pastNops_pastNops, Nat.add_comm]

/-! ## The frame as a run of ticks -/

/-- Whether the frame goes on: its budget is not spent and the machine runs. -/
def InFrame (m : Machine) : Prop :=
  m.framePosition < cyclesPerFrame ∧ m.running = true

instance (m : Machine) : Decidable m.InFrame :=
  inferInstanceAs (Decidable (_ ∧ _))

/-- The number of instructions that a frame executes from here. -/
def frameTicks (m : Machine) : Nat :=
  if _h : m.InFrame then
    if m.atBreakpoint then 0 else frameTicks m.tick + 1
  else 0
termination_by cyclesPerFrame - m.framePosition
decreasing_by
  have := framePosition_lt_tick _h.1
  have := _h.1
  omega

theorem frameTicks_of_break (hin : m.InFrame) (hbreak : m.atBreakpoint = true) :
    m.frameTicks = 0 := by
  rw [frameTicks, dif_pos hin, if_pos hbreak]

theorem frameTicks_of_tick (hin : m.InFrame) (hbreak : ¬m.atBreakpoint = true) :
    m.frameTicks = m.tick.frameTicks + 1 := by
  rw [frameTicks, dif_pos hin, if_neg hbreak]

theorem frameTicks_of_over (hout : ¬m.InFrame) : m.frameTicks = 0 := by
  rw [frameTicks, dif_neg hout]

/-- A machine marked as stopped at a breakpoint, if it stopped within its frame. -/
def marked (m : Machine) : Machine :=
  if m.InFrame then { m with breakpointHit := true } else m

/-- **The loop is its ticks.** -/
theorem runFrame_eq (m : Machine) : m.runFrame = (tick^[m.frameTicks] m).marked := by
  fun_induction frameTicks m with
  | case1 m hin hbreak =>
    have hstop : m.runFrame = { m with breakpointHit := true } := by
      rw [runFrame]
      exact (dif_pos hin).trans (if_pos hbreak)
    rw [hstop]
    exact (if_pos hin).symm
  | case2 m hin hbreak ih =>
    have hgo : m.runFrame = m.tick.runFrame := by
      rw [runFrame]
      exact (dif_pos hin).trans (if_neg hbreak)
    rw [hgo, ih, Function.iterate_succ_apply]
  | case3 m hout =>
    have hover : m.runFrame = m := by
      rw [runFrame]
      exact dif_neg hout
    rw [hover]
    exact (if_neg hout).symm

/-- Before every instruction of a frame the machine is within the frame and on no breakpoint. -/
theorem runs_before_end (m : Machine) {i : Nat} (hi : i < m.frameTicks) :
    (tick^[i] m).InFrame ∧ (tick^[i] m).atBreakpoint = false := by
  fun_induction frameTicks m generalizing i with
  | case1 m hin hbreak => exact absurd hi (Nat.not_lt_zero i)
  | case2 m hin hbreak ih =>
    cases i with
    | zero => exact ⟨hin, Bool.not_eq_true _ ▸ hbreak⟩
    | succ i =>
      rw [Function.iterate_succ_apply]
      exact ih (by omega)
  | case3 m hout => exact absurd hi (Nat.not_lt_zero i)

/-- After the last instruction of a frame either the frame is over or a breakpoint is met. -/
theorem frame_over (m : Machine) :
    ¬(tick^[m.frameTicks] m).InFrame ∨ (tick^[m.frameTicks] m).atBreakpoint = true := by
  fun_induction frameTicks m with
  | case1 m hin hbreak => exact Or.inr hbreak
  | case2 m hin hbreak ih => rwa [Function.iterate_succ_apply]
  | case3 m hout => exact Or.inl hout

theorem Alike.inFrame_iff (h : Alike m m') : m.InFrame ↔ m'.InFrame := by
  rw [InFrame, InFrame, h.framePosition, h.running]

theorem Alike.atBreakpoint (h : Alike m m') (hb : m.breakpoints = m'.breakpoints) :
    m.atBreakpoint = m'.atBreakpoint := by
  rw [Machine.atBreakpoint, Machine.atBreakpoint, hb, h.registers]

/-- The instructions of a frame depend on what instructions read and on the breakpoints. -/
theorem Alike.frameTicks (h : Alike m m') (hb : m.breakpoints = m'.breakpoints) :
    m.frameTicks = m'.frameTicks := by
  fun_induction Machine.frameTicks m generalizing m' with
  | case1 m hin hbreak =>
    rw [h.atBreakpoint hb] at hbreak
    exact (frameTicks_of_break (h.inFrame_iff.mp hin) hbreak).symm
  | case2 m hin hbreak ih =>
    have htick : m.tick.breakpoints = m'.tick.breakpoints := by
      rw [(sameHost_tick m).breakpoints, (sameHost_tick m').breakpoints, hb]
    rw [h.atBreakpoint hb] at hbreak
    rw [frameTicks_of_tick (h.inFrame_iff.mp hin) hbreak, ih h.tick htick]
  | case3 m hout => exact (frameTicks_of_over fun hin => hout (h.inFrame_iff.mpr hin)).symm

/-! ## Calls -/

/-- A machine whose last stop is forgotten, as it is at the start of every frame. -/
def fresh (m : Machine) : Machine :=
  { m with breakpointHit := false }

/-- Where the instructions of the next frame lead. -/
def frameEnd (m : Machine) : Machine :=
  tick^[m.fresh.frameTicks] m.fresh

theorem sameHost_frameEnd (m : Machine) : SameHost m.frameEnd m.fresh :=
  sameHost_ticks _ _

/-- The mark of an earlier breakpoint does not change the instructions of the frame. -/
theorem alike_frameEnd (m : Machine) : Alike m.frameEnd (tick^[m.frameTicks] m) := by
  have hfresh : Alike m.fresh m := ⟨rfl, rfl, rfl, rfl, rfl⟩
  rw [frameEnd, hfresh.frameTicks rfl]
  exact hfresh.ticks _

/-- The opcodes that the next frame executes. -/
def frameOpcodes (m : Machine) : List UInt8 :=
  opcodes m.frameTicks m

theorem cycles_frameEnd (m : Machine) :
    m.frameEnd.cycles = m.cycles + UInt64.ofNat (price m.frameOpcodes) := by
  rw [(alike_frameEnd m).cycles, cycles_ticks, frameOpcodes]

theorem toNat_framePosition_frameEnd (m : Machine) :
    (m.frameEnd.framePosition : Nat) = m.framePosition + price m.frameOpcodes := by
  rw [(alike_frameEnd m).framePosition, frameOpcodes]
  exact toNat_framePosition_ticks fun i hi => (runs_before_end m hi).1.1

/-- A frame has no more instructions than its budget has cycles. -/
theorem length_frameOpcodes_le (m : Machine) : m.frameOpcodes.length ≤ cyclesPerFrame := by
  cases hcount : m.frameTicks with
  | zero => simp [frameOpcodes, hcount]
  | succ n =>
    -- all instructions but the last have been paid out of the budget
    have hlast : (tick^[n] m).framePosition < cyclesPerFrame :=
      (runs_before_end m (by omega)).1.1
    have hpaid := length_le_price (opcodes n m)
    rw [toNat_framePosition_ticks fun i hi => (runs_before_end m (by omega)).1.1] at hlast
    rw [length_opcodes] at hpaid
    rw [frameOpcodes, length_opcodes, hcount]
    omega

theorem marked_of_inFrame (h : m.InFrame) : m.marked = { m with breakpointHit := true } :=
  if_pos h

theorem marked_of_not_inFrame (h : ¬m.InFrame) : m.marked = m :=
  if_neg h

/-- **A call of a running machine.**  The frame's instructions are executed; if the machine is then
still within the frame it has met a breakpoint, and otherwise the frame is finished. -/
theorem stepFrame_of_running (hrun : m.running = true) :
    m.stepFrame = if m.frameEnd.InFrame then (false, { m.frameEnd with breakpointHit := true })
      else (true, m.frameEnd.endFrame.noteFrame) := by
  have hstep : m.stepFrame = if m.fresh.runFrame.breakpointHit then (false, m.fresh.runFrame)
      else (true, m.fresh.runFrame.endFrame.noteFrame) := by
    show (if m.running = true then _ else _) = _
    rw [if_pos hrun]
    rfl
  have hend : m.fresh.runFrame = m.frameEnd.marked := runFrame_eq _
  rw [hstep, hend]
  by_cases hin : m.frameEnd.InFrame
  · rw [marked_of_inFrame hin, if_pos hin]
    rfl
  · have hmark : m.frameEnd.breakpointHit = false := (sameHost_frameEnd m).breakpointHit
    rw [marked_of_not_inFrame hin, if_neg hin, hmark]
    rfl

theorem stepFrame_of_not_running (hrun : m.running = false) : m.stepFrame = (false, m.fresh) := by
  show (if m.running = true then _ else _) = _
  rw [if_neg (by rw [hrun]; exact Bool.false_ne_true)]
  rfl

theorem stepOne_of_lt (h : m.tick.framePosition < cyclesPerFrame) : m.stepOne = m.tick :=
  if_neg (Nat.not_le.mpr h)

theorem stepOne_of_le (h : cyclesPerFrame ≤ m.tick.framePosition) : m.stepOne = m.tick.endFrame :=
  if_pos h

theorem cycles_endFrame (m : Machine) : m.endFrame.cycles = m.cycles := rfl

theorem cycles_stepOne (m : Machine) :
    m.stepOne.cycles = m.cycles + UInt64.ofNat m.nextCost := by
  rcases Nat.lt_or_ge m.tick.framePosition cyclesPerFrame with hlt | hge
  · rw [stepOne_of_lt hlt, cycles_tick]
  · rw [stepOne_of_le hge, cycles_endFrame, cycles_tick]

/-- A single step leaves the machine within the budget of a frame. -/
theorem stepOne_framePosition_lt (m : Machine) : m.stepOne.framePosition < cyclesPerFrame := by
  rcases Nat.lt_or_ge m.tick.framePosition cyclesPerFrame with hlt | hge
  · rwa [stepOne_of_lt hlt]
  · rw [stepOne_of_le hge]
    exact zero_lt_cyclesPerFrame

end Machine

end FantasyComputer
