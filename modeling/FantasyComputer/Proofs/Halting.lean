/-
# FantasyComputer.Proofs.Halting — what a halt leaves behind.

`HALT` moves the program counter past itself and stops the machine; nothing else that a program can
see changes.  No instruction is executed after it in the same call (`last_of_halt`).  But the poll
for the interrupt comes after every instruction, and it does not ask whether the machine still runs.

So there is one way in which a halted machine is not left as it was: the price of the `HALT` brings
the place in the frame to a multiple of the interval while interrupts are let in and the timer is
pending.  Then the interrupt is delivered to the stopped machine.  `haltOutcome` is that exact
condition, for every machine and every call, and `lateMachine` is a program that meets it.
-/
import FantasyComputer.Proofs.Timeline

namespace FantasyComputer

/-- `HALT` has no operands. -/
theorem lengthOf_of_halt {x y z : UInt8} (h : decode x y z = .halt) : lengthOf x = 1 := by
  unfold decode at h
  unfold lengthOf
  unfold encodingOf at *
  split at h
  all_goals first | rfl | exact absurd h nofun

theorem Memory.read_of_gap {m : Memory} {address : UInt16} (h : locate address = .gap) :
    m.read address = 0 := by
  rw [read, h]

namespace Machine

variable {m : Machine} {c : Call} {i : Nat}

/-! ## The instructions of a call -/

/-- The number of instructions that a call executes. -/
def callTicks (m : Machine) : Call → Nat
  | .stepFrame => m.frameTicks
  | .stepOne => 1
  | _ => 0

theorem sameCourse_endFrame (m : Machine) : SameCourse m.endFrame m :=
  ⟨rfl, rfl, rfl, rfl, rfl⟩

/-- A call that executes instructions leads where they lead, in all that a program can see. -/
theorem sameCourse_call (h : 0 < m.callTicks c) :
    SameCourse (m.call c).2 (tick^[m.callTicks c] m) := by
  have hacts : SameCourse (m.call c).2 (m.play (m.actsOf (.call c))) :=
    (inStep_operate m (.call c)).toSameCourse
  apply hacts.trans
  cases c with
  | setInput mask => exact absurd h (Nat.lt_irrefl 0)
  | requestInterrupt => exact absurd h (Nat.lt_irrefl 0)
  | stepOne =>
    show SameCourse _ m.tick
    rw [actsOf, play_append, play_tickActs]
    split
    · exact sameCourse_endFrame _
    · exact (InStep.refl _).toSameCourse
  | stepFrame =>
    change 0 < m.frameTicks at h
    have hrun : m.running = true := (runs_before_end m h).1.2
    show SameCourse _ (tick^[m.frameTicks] m)
    rw [actsOf, if_pos hrun, play_append, play_ticksActs]
    split
    · exact (InStep.refl _).toSameCourse
    · exact sameCourse_endFrame _

/-- How a frame's instructions are counted by looking at the points of its run. -/
theorem frameTicks_eq {n : Nat}
    (hbefore : ∀ i < n, (tick^[i] m).InFrame ∧ (tick^[i] m).atBreakpoint = false)
    (hover : ¬(tick^[n] m).InFrame) : m.frameTicks = n := by
  rcases Nat.lt_trichotomy m.frameTicks n with hlt | heq | hgt
  · obtain ⟨hin, hpass⟩ := hbefore _ hlt
    rcases frame_over m with hout | hbreak
    · exact absurd hin hout
    · rw [hpass] at hbreak
      exact absurd hbreak Bool.false_ne_true
  · exact heq
  · exact absurd (runs_before_end m hgt).1 hover

/-! ## One halt -/

/-- **What `HALT` does.** -/
theorem step_of_halt (h : m.nextInstruction = .halt) :
    m.step.registers = { m.registers with pc := m.registers.pc + 1 }
      ∧ m.step.memory = m.memory := by
  have hlength : lengthOf m.opcode = 1 := lengthOf_of_halt h
  unfold step execute
  rw [h, hlength]
  exact ⟨rfl, rfl⟩

/-- A machine does not run after a `HALT`, whether the interrupt comes or not. -/
theorem running_tick_of_halt (h : m.nextInstruction = .halt) : m.tick.running = false := by
  rw [running_tick, h, bne_self_eq_false, Bool.and_false]

/-- Whether the interrupt is ready at a poll right after the next instruction. -/
def InterruptsNext (m : Machine) : Prop :=
  m.step.framePosition % interruptInterval = 0 ∧ m.step.interruptReady = true

theorem tick_of_interruptsNext (h : m.InterruptsNext) : m.tick = m.step.takeInterrupt := by
  rw [tick, poll, if_pos h.1, checkInterrupt, if_pos h.2]

theorem tick_of_not_interruptsNext (h : ¬m.InterruptsNext) : m.tick = m.step := by
  unfold tick poll checkInterrupt
  split
  · rename_i hcadence
    exact if_neg fun hready => h ⟨hcadence, hready⟩
  · rfl

/-- `HALT` is the last instruction of its call. -/
theorem last_of_halt (hi : i < m.callTicks c) (hhalt : (tick^[i] m).nextInstruction = .halt) :
    i + 1 = m.callTicks c := by
  cases c with
  | setInput mask => exact absurd hi (Nat.not_lt_zero i)
  | requestInterrupt => exact absurd hi (Nat.not_lt_zero i)
  | stepOne =>
    change i < 1 at hi
    show i + 1 = 1
    omega
  | stepFrame =>
    change i < m.frameTicks at hi
    show i + 1 = m.frameTicks
    by_contra hmore
    have hrun := (runs_before_end m (show i + 1 < m.frameTicks by omega)).1.2
    rw [Function.iterate_succ_apply', running_tick_of_halt hhalt] at hrun
    exact absurd hrun Bool.false_ne_true

/-! ## Halting in a call -/

/-- Whether a machine is left as a `HALT` left it that was executed at some point. -/
structure HaltKept (point final : Machine) : Prop where
  pc : final.registers.pc = point.registers.pc + 1
  sp : final.registers.sp = point.step.registers.sp
  flags : final.registers.flags = point.step.registers.flags
  ram : final.memory.ram = point.step.memory.ram
  status : final.memory.read interruptStatus = point.step.memory.read interruptStatus

/-- What is true of the machine that is left by a call in which a `HALT` was executed at some
point. -/
structure HaltOutcome (point final : Machine) : Prop where
  /-- The machine stands still. -/
  stopped : final.running = false
  /-- The machine is left as `HALT` left it, unless the interrupt is ready at the poll after it. -/
  kept_iff : HaltKept point final ↔ ¬point.InterruptsNext
  /-- Without the interrupt, `HALT` has changed no register but the program counter, and nothing in
  memory. -/
  kept : ¬point.InterruptsNext →
    final.registers = { point.registers with pc := point.registers.pc + 1 }
      ∧ final.memory = point.memory
  /-- With it, the interrupt is delivered to the stopped machine, which is left at the vector with
  three more bytes on its stack. -/
  interrupted : point.InterruptsNext →
    final.registers = point.step.takeInterrupt.registers
      ∧ final.memory = point.step.takeInterrupt.memory
      ∧ final.registers.pc = interruptVector
      ∧ final.registers.sp = point.registers.sp - 1 - 1 - 1

theorem not_haltKept_of_sp {point final : Machine}
    (h : final.registers.sp = point.step.registers.sp - 1 - 1 - 1) : ¬HaltKept point final := by
  intro hkept
  have hsp := hkept.sp
  rw [h] at hsp
  grind

/-- **Halting.**  A `HALT` ends its call and stops the machine.  What it left is still there at the
end of the call unless the poll after it finds the interrupt ready. -/
theorem haltOutcome (m : Machine) (c : Call) (i : Nat) (hi : i < m.callTicks c)
    (hhalt : (tick^[i] m).nextInstruction = .halt) :
    HaltOutcome (tick^[i] m) (m.call c).2 := by
  set point := tick^[i] m with hpoint
  -- nothing is executed after the `HALT`, so its tick is where the call leads
  have hfinal : SameCourse (m.call c).2 point.tick := by
    have hcall := sameCourse_call (Nat.zero_lt_of_lt hi)
    rwa [← last_of_halt hi hhalt, Function.iterate_succ_apply', ← hpoint] at hcall
  obtain ⟨hregisters, hmemory⟩ := step_of_halt hhalt
  have hkept : ¬point.InterruptsNext →
      (m.call c).2.registers = { point.registers with pc := point.registers.pc + 1 }
        ∧ (m.call c).2.memory = point.memory := by
    intro hquiet
    rw [hfinal.registers, hfinal.memory, tick_of_not_interruptsNext hquiet]
    exact ⟨hregisters, hmemory⟩
  have htaken : point.InterruptsNext →
      (m.call c).2.registers = point.step.takeInterrupt.registers
        ∧ (m.call c).2.memory = point.step.takeInterrupt.memory := by
    intro hready
    rw [hfinal.registers, hfinal.memory, tick_of_interruptsNext hready]
    exact ⟨rfl, rfl⟩
  refine ⟨?stopped, ⟨fun hsame hready => ?kept, fun hquiet => ?quiet⟩, hkept, fun hready => ?taken⟩
  case stopped =>
    rw [hfinal.running, running_tick_of_halt hhalt]
  case kept =>
    refine not_haltKept_of_sp ?_ hsame
    rw [(htaken hready).1, registers_takeInterrupt]
  case quiet =>
    obtain ⟨hsameRegisters, hsameMemory⟩ := hkept hquiet
    constructor <;> simp only [hsameRegisters, hsameMemory, hregisters, hmemory]
  case taken =>
    obtain ⟨hvector, hpushed⟩ := htaken hready
    refine ⟨hvector, hpushed, ?_, ?_⟩
    · rw [hvector, registers_takeInterrupt]
    · rw [hvector, registers_takeInterrupt, hregisters]

/-! ## A halt that is interrupted

The program starts so far before ROM that its two instructions, `EI` and `HALT`, end at the cycle of
the first poll. -/

/-- A cartridge that starts in the gap before ROM, lets interrupts in and halts. -/
def lateHalt : Bytes :=
  [0x58, 0x56, 0x4D, 0x38, 0x20, 0xDC, 0x02, 0x00, 0xF0, 0xFE]

/-- The cartridge put in. -/
def lateInstalled : Machine :=
  initial.install { entry := 0xDC20, declaredSize := 2, program := [0xF0, 0xFE] }

theorem insert_lateHalt : initial.insert lateHalt = .ok lateInstalled := rfl

/-- The machine started, with a request of the timer. -/
def lateMachine : Machine :=
  lateInstalled.start.requestInterrupt

theorem reachable_lateMachine : Reachable lateMachine :=
  ((Reachable.initial.insert lateHalt insert_lateHalt).start).call .requestInterrupt

/-- The machine after its `EI`, before its `HALT`. -/
def lateEnabled : Machine :=
  { lateMachine with
    registers := { lateMachine.registers with pc := 0xE001, flags := 0x80 }
    cycles := 993
    framePosition := 993 }

/-- The gap reads as a row of `NOP`s. -/
theorem ticks_lateMachine {n : Nat} (hn : n ≤ 992) :
    tick^[n] lateMachine = lateMachine.pastNops n := by
  refine ticks_of_nops (fun i hi => ?_) (Or.inl (by decide))
  apply Memory.read_of_gap
  have haddress : (0xDC20 + UInt16.ofNat i).toNat = 0xDC20 + i := by
    rw [UInt16.toNat_add, UInt16.toNat_ofNat']
    show (0xDC20 + i % 65536) % 65536 = 0xDC20 + i
    omega
  change locate (0xDC20 + UInt16.ofNat i) = .gap
  rw [locate_eq]
  rw [dif_neg (by omega), dif_neg (by omega), dif_neg (by omega), if_pos (by omega)]

/-- The program in ROM. -/
theorem read_lateMachine {memory : Memory} (h : memory.rom = lateMachine.memory.rom) :
    memory.read 0xE000 = 0xF0 ∧ memory.read 0xE001 = 0xFE := by
  have hrom : memory.rom = overlay #[0xF0, 0xFE] (Vector.replicate romSize 0) := h
  have hfirst : locate 0xE000 = .rom ⟨0, by decide⟩ := by decide
  have hsecond : locate 0xE001 = .rom ⟨1, by decide⟩ := by decide
  rw [Memory.read_of_rom hfirst, Memory.read_of_rom hsecond, hrom]
  constructor
  · exact getElem_overlay _ _ 0 (by decide)
  · exact getElem_overlay _ _ 1 (by decide)

theorem ticks_lateEnabled : tick^[993] lateMachine = lateEnabled := by
  have hread := (read_lateMachine (show (lateMachine.pastNops 992).memory.rom = _ from rfl)).1
  rw [Function.iterate_succ_apply', ticks_lateMachine (Nat.le_refl 992), tick,
    step_of_reads 0xE000 rfl hread rfl rfl]
  -- off the cadence by seven cycles
  show lateEnabled.poll = lateEnabled
  exact poll_of_offCadence (by decide)

theorem nextInstruction_lateEnabled : lateEnabled.nextInstruction = .halt := by
  have hread := (read_lateMachine (show lateEnabled.memory.rom = _ from rfl)).2
  exact nextInstruction_of_reads 0xE001 rfl hread rfl rfl

theorem interruptsNext_lateEnabled : lateEnabled.InterruptsNext := by
  obtain ⟨hregisters, hmemory⟩ := step_of_halt nextInstruction_lateEnabled
  have hread := (read_lateMachine (show lateEnabled.memory.rom = _ from rfl)).2
  have hcadence : lateEnabled.step.framePosition = 993 + cost 0xFE := by
    rw [framePosition_step, nextCost, opcode_of_read 0xE001 rfl hread]
    rfl
  have hflags : lateEnabled.step.registers.flags = 0x80 := by
    rw [hregisters]
    rfl
  have hpending : lateEnabled.step.pending = true :=
    (pending_of_read_eq (congrArg (·.read interruptStatus) hmemory)).trans
      (pending_requestInterrupt lateInstalled.start)
  refine ⟨?_, ?_⟩
  · rw [hcadence]
    rfl
  · rw [interruptReady_eq, hpending, Registers.flag, hflags]
    rfl

/-- The frame of this machine ends with its `HALT`. -/
theorem callTicks_lateMachine : lateMachine.callTicks .stepFrame = 994 := by
  refine frameTicks_eq ?_ ?_
  · intro i hi
    rcases Nat.lt_or_ge i 993 with hlt | hge
    · rw [ticks_lateMachine (by omega)]
      refine ⟨⟨?_, rfl⟩, rfl⟩
      show (0 + UInt32.ofNat i).toNat < cyclesPerFrame
      rw [UInt32.zero_add, UInt32.toNat_ofNat', cyclesPerFrame_eq]
      omega
    · rw [show i = 993 by omega, ticks_lateEnabled]
      exact ⟨⟨by decide, rfl⟩, rfl⟩
  · rintro ⟨-, hrun⟩
    rw [Function.iterate_succ_apply', ticks_lateEnabled,
      running_tick_of_halt nextInstruction_lateEnabled] at hrun
    exact absurd hrun Bool.false_ne_true

/-- The frame of this machine is one that `haltOutcome` speaks of. -/
theorem haltOutcome_lateMachine :
    993 < lateMachine.callTicks .stepFrame
      ∧ (tick^[993] lateMachine).nextInstruction = .halt
      ∧ HaltOutcome (tick^[993] lateMachine) (lateMachine.call .stepFrame).2 := by
  have hlast : 993 < lateMachine.callTicks .stepFrame := by
    rw [callTicks_lateMachine]
    exact Nat.lt_succ_self 993
  have hhalt : (tick^[993] lateMachine).nextInstruction = .halt := by
    rw [ticks_lateEnabled, nextInstruction_lateEnabled]
  exact ⟨hlast, hhalt, haltOutcome lateMachine .stepFrame 993 hlast hhalt⟩

/-- The machine has halted at `0xE001`, and the call leaves it at the interrupt vector. -/
theorem lateMachine_interrupted :
    Reachable lateMachine ∧ lateMachine.running = true
      ∧ 993 < lateMachine.callTicks .stepFrame
      ∧ (tick^[993] lateMachine).nextInstruction = .halt
      ∧ (tick^[993] lateMachine).registers.pc = 0xE001
      ∧ (lateMachine.call .stepFrame).2.registers.pc = 0xFF00
      ∧ ¬HaltKept (tick^[993] lateMachine) (lateMachine.call .stepFrame).2 := by
  have hcount : 0 < lateMachine.callTicks .stepFrame := by
    rw [callTicks_lateMachine]
    exact Nat.zero_lt_succ 993
  have hregisters : (lateMachine.call .stepFrame).2.registers
      = lateEnabled.step.takeInterrupt.registers := by
    rw [(sameCourse_call hcount).registers, callTicks_lateMachine, Function.iterate_succ_apply',
      ticks_lateEnabled, tick_of_interruptsNext interruptsNext_lateEnabled]
  rw [ticks_lateEnabled, hregisters, registers_takeInterrupt, callTicks_lateMachine]
  refine ⟨reachable_lateMachine, rfl, Nat.lt_succ_self 993, nextInstruction_lateEnabled, rfl, rfl,
    not_haltKept_of_sp ?_⟩
  rw [hregisters, registers_takeInterrupt]

end Machine

end FantasyComputer
