/-
# FantasyComputer.Proofs.Execution — what instructions read, and what they leave alone.

An instruction and the poll after it read the registers, memory, the place in the frame and whether
the machine runs.  Two machines that share these are `Alike`, and they stay alike however many
instructions both execute (`Alike.tick`).

`perform_eq` and `checkInterrupt_eq` say once what an instruction and the check after it can change.
The lemmas on single fields follow from them: what belongs to the host (the picture, the number of
frames, breakpoints, the debug switch, buttons) is left as it was (`sameHost_tick`), and each counter
moves with the instruction alone.

ROM is not among the things that an instruction can change (`rom_tick`).
-/
import FantasyComputer.Console.Transcript
import FantasyComputer.Machine.Frame
import Mathlib

namespace FantasyComputer

theorem Memory.rom_write (m : Memory) (address : UInt16) (value : UInt8) :
    (m.write address value).rom = m.rom := by
  unfold write
  split <;> rfl

theorem Memory.read_of_rom {m : Memory} {address : UInt16} {i : Fin romSize}
    (h : locate address = .rom i) : m.read address = m.rom.get i := by
  rw [read, h]
  rfl

/-- The bytes of ROM lie one after the other. -/
theorem locate_rom {i : Nat} (hi : i < romSize) :
    locate (0xE000 + UInt16.ofNat i) = .rom ⟨i, hi⟩ := by
  have haddress : (0xE000 + UInt16.ofNat i).toNat = 0xE000 + i := by
    unfold romSize at hi
    rw [UInt16.toNat_add, UInt16.toNat_ofNat']
    show (0xE000 + i % 65536) % 65536 = 0xE000 + i
    omega
  have hindex : (0xE000 + UInt16.ofNat i).toNat - 0xE000 = i := by
    rw [haddress, Nat.add_sub_cancel_left]
  rw [locate_eq, dif_neg (by omega), dif_neg (by omega), dif_neg (by omega), if_neg (by omega)]
  exact congrArg Location.rom (Fin.ext hindex)

namespace Machine

variable {m m' m'' : Machine}

/-! ## Machines that go on alike -/

/-- Two machines that share everything an instruction or a poll reads. -/
structure Alike (m m' : Machine) : Prop where
  registers : m.registers = m'.registers
  memory : m.memory = m'.memory
  cycles : m.cycles = m'.cycles
  framePosition : m.framePosition = m'.framePosition
  running : m.running = m'.running

namespace Alike

theorem symm (h : Alike m m') : Alike m' m :=
  ⟨h.registers.symm, h.memory.symm, h.cycles.symm, h.framePosition.symm, h.running.symm⟩

theorem trans (h : Alike m m') (h' : Alike m' m'') : Alike m m'' where
  registers := h.registers.trans h'.registers
  memory := h.memory.trans h'.memory
  cycles := h.cycles.trans h'.cycles
  framePosition := h.framePosition.trans h'.framePosition
  running := h.running.trans h'.running

theorem fetch (h : Alike m m') (distance : UInt16) : m.fetch distance = m'.fetch distance := by
  rw [Machine.fetch, Machine.fetch, h.memory, h.registers]

theorem opcode (h : Alike m m') : m.opcode = m'.opcode :=
  h.fetch 0

theorem nextInstruction (h : Alike m m') : m.nextInstruction = m'.nextInstruction := by
  rw [Machine.nextInstruction, Machine.nextInstruction, h.opcode, h.fetch, h.fetch]

theorem nextCost (h : Alike m m') : m.nextCost = m'.nextCost := by
  rw [Machine.nextCost, Machine.nextCost, h.opcode]

theorem interruptReady (h : Alike m m') : m.interruptReady = m'.interruptReady := by
  rw [Machine.interruptReady, Machine.interruptReady, h.memory, h.registers]

/-- The instructions differ in what they write, never in what they may read. -/
theorem perform (h : Alike m m') (i : Instruction) : Alike (m.perform i) (m'.perform i) := by
  cases m
  cases m'
  obtain ⟨hregisters, hmemory, hcycles, hposition, hrunning⟩ := h
  simp only at hregisters hmemory hcycles hposition hrunning
  subst hregisters hmemory hcycles hposition hrunning
  cases i with
  | jumpIf condition address =>
    simp only [Machine.perform]
    split <;> constructor <;> rfl
  | undefined opcode =>
    -- the two machines may have different debug switches
    simp only [Machine.perform]
    split <;> split <;> constructor <;> rfl
  | _ => constructor <;> rfl

theorem goto (h : Alike m m') (address : UInt16) : Alike (m.goto address) (m'.goto address) where
  registers := by rw [Machine.goto, Machine.goto, h.registers]
  memory := h.memory
  cycles := h.cycles
  framePosition := h.framePosition
  running := h.running

theorem charge (h : Alike m m') (price : Nat) : Alike (m.charge price) (m'.charge price) where
  registers := h.registers
  memory := h.memory
  cycles := by rw [Machine.charge, Machine.charge, h.cycles]
  framePosition := by rw [Machine.charge, Machine.charge, h.framePosition]
  running := h.running

theorem step (h : Alike m m') : Alike m.step m'.step := by
  unfold Machine.step Machine.execute
  rw [h.nextCost, h.nextInstruction, h.opcode, h.registers]
  exact ((h.goto _).perform _).charge _

theorem takeInterrupt (h : Alike m m') : Alike m.takeInterrupt m'.takeInterrupt := by
  cases m
  cases m'
  obtain ⟨hregisters, hmemory, hcycles, hposition, hrunning⟩ := h
  simp only at hregisters hmemory hcycles hposition hrunning
  subst hregisters hmemory hcycles hposition hrunning
  simp only [Machine.takeInterrupt]
  split <;> split <;> constructor <;> rfl

theorem checkInterrupt (h : Alike m m') : Alike m.checkInterrupt m'.checkInterrupt := by
  unfold Machine.checkInterrupt
  rw [h.interruptReady]
  split
  · exact h.takeInterrupt
  · exact h

theorem poll (h : Alike m m') : Alike m.poll m'.poll := by
  unfold Machine.poll
  rw [h.framePosition]
  split
  · exact h.checkInterrupt
  · exact h

/-- **Step lemma.**  Machines that are alike are alike after the next instruction. -/
theorem tick (h : Alike m m') : Alike m.tick m'.tick :=
  h.step.poll

end Alike

/-! ## What an instruction and a poll can change -/

/-- **What an instruction can do.**  It may change registers, memory and the journal; `HALT` clears
the running flag, `BREAK` is counted, and there is nothing more. -/
theorem perform_eq (m : Machine) (i : Instruction) :
    ∃ registers memory journal, m.perform i = { m with
      registers, memory, journal
      running := if i = .halt then false else m.running
      breakCount := if i = .break then m.breakCount + 1 else m.breakCount } := by
  -- with the machine taken apart, every field of the result is read off by evaluation
  cases m
  cases i with
  | jumpIf condition address =>
    simp only [perform]
    split <;> exact ⟨_, _, _, rfl⟩
  | undefined opcode =>
    simp only [perform]
    split <;> exact ⟨_, _, _, rfl⟩
  | _ => exact ⟨_, _, _, rfl⟩

theorem takeInterrupt_eq (m : Machine) :
    ∃ registers memory journal, m.takeInterrupt = { m with registers, memory, journal } := by
  cases m
  simp only [takeInterrupt]
  split
  · exact ⟨_, _, _, rfl⟩
  · exact ⟨_, _, _, rfl⟩

/-- A check may change registers, memory and the journal, whether it takes the interrupt or not. -/
theorem checkInterrupt_eq (m : Machine) :
    ∃ registers memory journal, m.checkInterrupt = { m with registers, memory, journal } := by
  unfold checkInterrupt
  split
  · exact takeInterrupt_eq m
  · exact ⟨_, _, _, rfl⟩

theorem poll_eq (m : Machine) :
    ∃ registers memory journal, m.poll = { m with registers, memory, journal } := by
  unfold poll
  split
  · exact checkInterrupt_eq m
  · exact ⟨_, _, _, rfl⟩

/-! ## What belongs to the host -/

/-- Two machines with the same picture and the same settings of the host. -/
structure SameHost (m m' : Machine) : Prop where
  screen : m.screen = m'.screen
  frameCount : m.frameCount = m'.frameCount
  breakpoints : m.breakpoints = m'.breakpoints
  breakpointHit : m.breakpointHit = m'.breakpointHit
  debug : m.debug = m'.debug
  buttons : m.buttons = m'.buttons

theorem SameHost.refl (m : Machine) : SameHost m m := ⟨rfl, rfl, rfl, rfl, rfl, rfl⟩

theorem SameHost.trans (h : SameHost m m') (h' : SameHost m' m'') : SameHost m m'' where
  screen := h.screen.trans h'.screen
  frameCount := h.frameCount.trans h'.frameCount
  breakpoints := h.breakpoints.trans h'.breakpoints
  breakpointHit := h.breakpointHit.trans h'.breakpointHit
  debug := h.debug.trans h'.debug
  buttons := h.buttons.trans h'.buttons

theorem sameHost_perform (m : Machine) (i : Instruction) : SameHost (m.perform i) m := by
  obtain ⟨registers, memory, journal, h⟩ := perform_eq m i
  rw [h]
  exact ⟨rfl, rfl, rfl, rfl, rfl, rfl⟩

theorem sameHost_step (m : Machine) : SameHost m.step m := by
  have h := sameHost_perform (m.goto (m.registers.pc + (lengthOf m.opcode).toUInt16))
    m.nextInstruction
  exact ⟨h.screen, h.frameCount, h.breakpoints, h.breakpointHit, h.debug, h.buttons⟩

theorem sameHost_poll (m : Machine) : SameHost m.poll m := by
  obtain ⟨registers, memory, journal, h⟩ := poll_eq m
  rw [h]
  exact ⟨rfl, rfl, rfl, rfl, rfl, rfl⟩

/-- **Frame condition.**  An instruction and the poll after it leave the host's part alone. -/
theorem sameHost_tick (m : Machine) : SameHost m.tick m :=
  (sameHost_poll _).trans (sameHost_step m)

/-! ## Counters, the running flag and ROM -/

theorem breakCount_perform (m : Machine) (i : Instruction) :
    (m.perform i).breakCount = m.breakCount + if i = .break then 1 else 0 := by
  obtain ⟨registers, memory, journal, h⟩ := perform_eq m i
  rw [h]
  show (if i = .break then m.breakCount + 1 else m.breakCount) = _
  by_cases hbreak : i = .break
  · rw [if_pos hbreak, if_pos hbreak]
  · rw [if_neg hbreak, if_neg hbreak, UInt64.add_zero]

theorem breakCount_poll (m : Machine) : m.poll.breakCount = m.breakCount := by
  obtain ⟨registers, memory, journal, h⟩ := poll_eq m
  rw [h]

theorem breakCount_tick (m : Machine) :
    m.tick.breakCount = m.breakCount + if m.nextInstruction = .break then 1 else 0 := by
  rw [tick, breakCount_poll]
  exact breakCount_perform _ _

theorem cycles_perform (m : Machine) (i : Instruction) : (m.perform i).cycles = m.cycles := by
  obtain ⟨registers, memory, journal, h⟩ := perform_eq m i
  rw [h]

theorem cycles_poll (m : Machine) : m.poll.cycles = m.cycles := by
  obtain ⟨registers, memory, journal, h⟩ := poll_eq m
  rw [h]

theorem cycles_step (m : Machine) : m.step.cycles = m.cycles + UInt64.ofNat m.nextCost :=
  congrArg (· + UInt64.ofNat m.nextCost) (cycles_perform _ _)

theorem cycles_tick (m : Machine) : m.tick.cycles = m.cycles + UInt64.ofNat m.nextCost := by
  rw [tick, cycles_poll, cycles_step]

/-- `HALT` is the one instruction that clears the running flag. -/
theorem running_perform (m : Machine) (i : Instruction) :
    (m.perform i).running = (m.running && i != .halt) := by
  obtain ⟨registers, memory, journal, h⟩ := perform_eq m i
  rw [h]
  by_cases hhalt : i = .halt
  · rw [hhalt, bne_self_eq_false, Bool.and_false]
    rfl
  · rw [bne_iff_ne.mpr hhalt, Bool.and_true]
    exact if_neg hhalt

theorem running_poll (m : Machine) : m.poll.running = m.running := by
  obtain ⟨registers, memory, journal, h⟩ := poll_eq m
  rw [h]

theorem running_tick (m : Machine) :
    m.tick.running = (m.running && m.nextInstruction != .halt) := by
  rw [tick, running_poll]
  exact running_perform _ _

theorem rom_perform (m : Machine) (i : Instruction) : (m.perform i).memory.rom = m.memory.rom := by
  cases i with
  | store source address => exact Memory.rom_write _ _ _
  | output address => exact Memory.rom_write _ _ _
  | push source => exact Memory.rom_write _ _ _
  | call address =>
    show ((m.memory.write _ _).write _ _).rom = _
    rw [Memory.rom_write, Memory.rom_write]
  | jumpIf condition address => simp only [perform]; split <;> rfl
  | undefined opcode => simp only [perform]; split <;> rfl
  | _ => rfl

theorem rom_takeInterrupt (m : Machine) : m.takeInterrupt.memory.rom = m.memory.rom := by
  simp only [takeInterrupt]
  split
  all_goals
    -- the status byte and three bytes of stack
    show ((((m.memory.write _ _).write _ _).write _ _).write _ _).rom = _
    rw [Memory.rom_write, Memory.rom_write, Memory.rom_write, Memory.rom_write]

theorem rom_poll (m : Machine) : m.poll.memory.rom = m.memory.rom := by
  simp only [poll, checkInterrupt]
  repeat' split
  · exact rom_takeInterrupt m
  all_goals rfl

theorem rom_tick (m : Machine) : m.tick.memory.rom = m.memory.rom :=
  (rom_poll _).trans (rom_perform _ _)

/-! ## Single instructions -/

theorem poll_of_masked (h : m.registers.flag .interrupt = false) : m.poll = m := by
  have hready : ¬m.interruptReady = true := by
    rw [interruptReady, h, Bool.false_and]
    exact Bool.false_ne_true
  rw [poll, checkInterrupt, if_neg hready, ite_self]

theorem poll_of_offCadence (h : m.framePosition % interruptInterval ≠ 0) : m.poll = m :=
  if_neg h

theorem opcode_of_read (pc : UInt16) {x : UInt8} (hpc : m.registers.pc = pc)
    (hx : m.memory.read (pc + 0) = x) : m.opcode = x := by
  rw [opcode, fetch, hpc, hx]

theorem nextInstruction_of_reads (pc : UInt16) {x y z : UInt8} (hpc : m.registers.pc = pc)
    (hx : m.memory.read (pc + 0) = x) (hy : m.memory.read (pc + 1) = y)
    (hz : m.memory.read (pc + 2) = z) : m.nextInstruction = decode x y z := by
  rw [nextInstruction, opcode_of_read pc hpc hx, fetch, fetch, hpc, hy, hz]

/-- A step executes the instruction whose bytes are read. -/
theorem step_of_reads (pc : UInt16) {x y z : UInt8} (hpc : m.registers.pc = pc)
    (hx : m.memory.read (pc + 0) = x) (hy : m.memory.read (pc + 1) = y)
    (hz : m.memory.read (pc + 2) = z) :
    m.step = (m.execute (decode x y z) (lengthOf x)).charge (cost x) := by
  rw [step, nextCost, nextInstruction_of_reads pc hpc hx hy hz, opcode_of_read pc hpc hx]

/-- With interrupts masked, a tick is that step. -/
theorem tick_of_reads (pc : UInt16) {x y z : UInt8} (hpc : m.registers.pc = pc)
    (hx : m.memory.read (pc + 0) = x) (hy : m.memory.read (pc + 1) = y)
    (hz : m.memory.read (pc + 2) = z)
    (hmasked : (m.execute (decode x y z) (lengthOf x)).registers.flag .interrupt = false) :
    m.tick = (m.execute (decode x y z) (lengthOf x)).charge (cost x) := by
  rw [tick, step_of_reads pc hpc hx hy hz]
  exact poll_of_masked hmasked

end Machine

end FantasyComputer
