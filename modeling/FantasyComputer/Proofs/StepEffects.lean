/-
# FantasyComputer.Proofs.StepEffects — each instruction changes only what it names.

An instruction names what it changes: the registers that it puts a value into (`targets`), the flags
that it sets (`sets`), the addresses that it writes (`written`), how far it moves the stack pointer
(`lift`), and whether it goes on elsewhere (`diverts`).  For each part of the machine one lemma says
that an instruction leaves it alone unless it names it; the two register pairs share `C`, and all
flags share a byte.

`stepEffects` puts the lemmas together: a step changes what its instruction names and moves the
counters by its price, and there is nothing else that it does.
-/
import FantasyComputer.Proofs.FlagEffects
import FantasyComputer.Proofs.PaletteMirror
import FantasyComputer.Proofs.StackDiscipline

namespace FantasyComputer

/-! ## What an instruction names -/

namespace Instruction

/-- The general registers that an instruction puts a value into. -/
def targets : Instruction → List Register
  | loadImmediate target _ | loadAbsolute target _ | move target _ | increment target
  | decrement target | pop target => [target]
  | addRegister _ | addImmediate _ | subtractRegister _ | subtractImmediate _
  | .and | .or | .xor | .not
  | shiftLeft | shiftRight | rotateLeft | rotateRight
  | input _ => [.a]
  | loadBC _ | incrementBC | decrementBC => [.b, .c]
  | loadDC _ => [.d, .c]
  | _ => []

/-- How far an instruction raises the stack pointer. -/
def lift : Instruction → UInt16
  | push _ => -1
  | pop _ => 1
  | call _ => -2
  | .return => 2
  | returnFromInterrupt => 3
  | _ => 0

/-- Whether an instruction goes on elsewhere than behind itself. -/
def diverts (r : Registers) : Instruction → Bool
  | jump _ | call _ | .return | returnFromInterrupt => true
  | jumpIf condition _ => r.satisfies condition
  | _ => false

end Instruction

/-- A bit between the flags of arithmetic and the interrupt flag belongs to the reserved flag or to
none. -/
theorem Flag.bit_ne_of_reserved {f : Flag} (h : f ≠ .overflow) {bit : UInt8} (hlow : 3 ≤ bit)
    (hhigh : bit ≤ 6) : f.bit ≠ bit := by
  rintro rfl
  cases f with
  | overflow => exact h rfl
  | zero => exact absurd hlow (by decide)
  | carry => exact absurd hlow (by decide)
  | negative => exact absurd hlow (by decide)
  | interrupt => exact absurd hhigh (by decide)

/-! ## The registers -/

namespace Registers

variable {r : Registers} {target other : Register}

theorem get_set_of_ne (h : other ≠ target) (value : UInt8) :
    (r.set target value).get other = r.get other := by
  cases target <;> cases other <;> first | rfl | exact absurd rfl h

theorem get_setFlag (r : Registers) (f : Flag) (on : Bool) (other : Register) :
    (r.setFlag f on).get other = r.get other := by
  cases other <;> rfl

theorem get_describe (r : Registers) (value : UInt8) (other : Register) :
    (r.describe value).get other = r.get other := by
  rw [describe, get_setFlag, get_setFlag]

theorem get_load_of_ne (h : other ≠ target) (value : UInt8) :
    (r.load target value).get other = r.get other := by
  rw [load, get_describe, get_set_of_ne h]

/-- Arithmetic and shifts load `A`. -/
theorem get_calculate_of_ne (h : other ≠ .a) (carry : Bool) (value : UInt8) :
    ((r.setFlag .carry carry).load .a value).get other = r.get other := by
  rw [get_load_of_ne h, get_setFlag]

theorem get_compare (r : Registers) (value : UInt8) (other : Register) :
    (r.compare value).get other = r.get other := by
  rw [compare, get_describe, get_setFlag]

/-- The pair `BC` is the registers of its name. -/
theorem get_setBC_of_notMem (h : other ∉ [Register.b, .c]) (value : UInt16) :
    (r.setBC value).get other = r.get other := by
  cases other with
  | a => rfl
  | d => rfl
  | _ => exact absurd (by decide) h

theorem get_setDC_of_notMem (h : other ∉ [Register.d, .c]) (value : UInt16) :
    (r.setDC value).get other = r.get other := by
  cases other with
  | a => rfl
  | b => rfl
  | _ => exact absurd (by decide) h

theorem pc_set (r : Registers) (target : Register) (value : UInt8) :
    (r.set target value).pc = r.pc := by
  cases target <;> rfl

end Registers

namespace Machine

variable {m : Machine}

/-- **Registers.**  An instruction leaves alone the registers that are not its targets. -/
theorem get_perform (m : Machine) {i : Instruction} {r : Register} (h : r ∉ i.targets) :
    (m.perform i).registers.get r = m.registers.get r := by
  -- what an instruction with one target must leave alone
  have hone : ∀ target, i.targets = [target] → r ≠ target := by
    intro target htargets
    rw [htargets] at h
    exact List.ne_of_not_mem_cons h
  cases i with
  | loadImmediate target value => exact Registers.get_load_of_ne (hone target rfl) _
  | loadAbsolute target address => exact Registers.get_load_of_ne (hone target rfl) _
  | move target source => exact Registers.get_load_of_ne (hone target rfl) _
  | increment target => exact Registers.get_load_of_ne (hone target rfl) _
  | decrement target => exact Registers.get_load_of_ne (hone target rfl) _
  | and => exact Registers.get_load_of_ne (hone .a rfl) _
  | or => exact Registers.get_load_of_ne (hone .a rfl) _
  | xor => exact Registers.get_load_of_ne (hone .a rfl) _
  | not => exact Registers.get_load_of_ne (hone .a rfl) _
  | addRegister source => exact Registers.get_calculate_of_ne (hone .a rfl) _ _
  | addImmediate value => exact Registers.get_calculate_of_ne (hone .a rfl) _ _
  | subtractRegister source => exact Registers.get_calculate_of_ne (hone .a rfl) _ _
  | subtractImmediate value => exact Registers.get_calculate_of_ne (hone .a rfl) _ _
  | shiftLeft => exact Registers.get_calculate_of_ne (hone .a rfl) _ _
  | shiftRight => exact Registers.get_calculate_of_ne (hone .a rfl) _ _
  | rotateLeft => exact Registers.get_calculate_of_ne (hone .a rfl) _ _
  | rotateRight => exact Registers.get_calculate_of_ne (hone .a rfl) _ _
  | compareB => exact Registers.get_compare _ _ r
  | compareImmediate value => exact Registers.get_compare _ _ r
  | enableInterrupts => exact Registers.get_setFlag _ _ _ r
  | disableInterrupts => exact Registers.get_setFlag _ _ _ r
  | pop target => exact Registers.get_set_of_ne (hone target rfl) _
  | input address => exact Registers.get_set_of_ne (hone .a rfl) _
  | loadBC value => exact Registers.get_setBC_of_notMem h value
  | loadDC value => exact Registers.get_setDC_of_notMem h value
  | incrementBC => exact Registers.get_setBC_of_notMem h _
  | decrementBC => exact Registers.get_setBC_of_notMem h _
  | returnFromInterrupt =>
    simp only [perform, goto, dropWord, dropByte, onRegisters]
    cases r <;> rfl
  | jumpIf condition address =>
    simp only [perform]
    split <;> rfl
  | undefined opcode =>
    simp only [perform]
    split <;> rfl
  | _ => rfl

/-- **The program counter** stays where it is unless the instruction diverts it. -/
theorem pc_perform (m : Machine) {i : Instruction} (h : i.diverts m.registers = false) :
    (m.perform i).registers.pc = m.registers.pc := by
  cases i with
  | jump address => exact absurd h.symm Bool.false_ne_true
  | call address => exact absurd h.symm Bool.false_ne_true
  | «return» => exact absurd h.symm Bool.false_ne_true
  | returnFromInterrupt => exact absurd h.symm Bool.false_ne_true
  | jumpIf condition address =>
    have hstays : m.perform (.jumpIf condition address) = m :=
      if_neg (ne_true_of_eq_false h)
    rw [hstays]
  | undefined opcode =>
    simp only [perform]
    split <;> rfl
  | _ => first | rfl | exact Registers.pc_set _ _ _

/-- **The stack pointer** is raised by the lift of the instruction. -/
theorem sp_perform_eq_lift (m : Machine) (i : Instruction) :
    (m.perform i).registers.sp = m.registers.sp + i.lift := by
  have hlift : i.lift = UInt16.ofNat (Move.pops (.execute i 0))
      - UInt16.ofNat (Move.pushes (.execute i 0)) := by
    have hstays : (0 : UInt16) = UInt16.ofNat 0 - UInt16.ofNat 0 := by decide
    cases i with
    | push source =>
      show (-1 : UInt16) = UInt16.ofNat 0 - UInt16.ofNat 1
      decide
    | pop target =>
      show (1 : UInt16) = UInt16.ofNat 1 - UInt16.ofNat 0
      decide
    | call address =>
      show (-2 : UInt16) = UInt16.ofNat 0 - UInt16.ofNat 2
      decide
    | «return» =>
      show (2 : UInt16) = UInt16.ofNat 2 - UInt16.ofNat 0
      decide
    | returnFromInterrupt =>
      show (3 : UInt16) = UInt16.ofNat 3 - UInt16.ofNat 0
      decide
    | _ => exact hstays
  rw [sp_perform m i 0, hlift]
  generalize UInt16.ofNat (Move.pops (.execute i 0)) = popped
  generalize UInt16.ofNat (Move.pushes (.execute i 0)) = pushed
  grind

/-- **The journal** is written by two instructions, and by one of them only for a debugger. -/
theorem journal_perform (m : Machine) {i : Instruction} (hbreak : i ≠ .break)
    (hundefined : ∀ opcode, i = .undefined opcode → m.debug = false) :
    (m.perform i).journal = m.journal := by
  cases i with
  | «break» => exact absurd rfl hbreak
  | undefined opcode =>
    have hsilent : m.perform (.undefined opcode) = m :=
      if_neg (ne_true_of_eq_false (hundefined opcode rfl))
    rw [hsilent]
  | jumpIf condition address =>
    simp only [perform]
    split <;> rfl
  | _ => rfl

end Machine

/-- Above the I/O page lie the gap, which reads as zero, and ROM. -/
theorem Memory.read_eq_of_above {m m' : Memory} (hrom : m'.rom = m.rom) {address : UInt16}
    (habove : 0xC100 ≤ address) : m'.read address = m.read address := by
  have hlow : 0xC100 ≤ address.toNat := UInt16.le_iff_toNat_le.mp habove
  unfold read
  rw [hrom]
  cases hlocation : locate address with
  | gap => rfl
  | rom i => rfl
  | _ i =>
    -- the other regions end below
    rw [locate_eq] at hlocation
    split_ifs at hlocation
    all_goals omega

namespace Machine

/-! ## One step -/

/-- What a step changes, by the instruction that it executes. -/
structure StepEffects (m : Machine) : Prop where
  /-- The program counter moves past the instruction, if that does not go on elsewhere. -/
  pc : m.nextInstruction.diverts m.registers = false →
    m.step.registers.pc = m.registers.pc + (lengthOf m.opcode).toUInt16
  sp : m.step.registers.sp = m.registers.sp + m.nextInstruction.lift
  registers : ∀ r ∉ m.nextInstruction.targets, m.step.registers.get r = m.registers.get r
  flags : m.nextInstruction ≠ .returnFromInterrupt → ∀ bit < 8,
    (∀ f ∈ m.nextInstruction.sets, f.bit ≠ bit) →
      Flags.test m.step.registers.flags bit = Flags.test m.registers.flags bit
  /-- The reserved bits are set and cleared by no instruction. -/
  reserved : m.nextInstruction ≠ .returnFromInterrupt → ∀ bit, 3 ≤ bit → bit ≤ 6 →
    Flags.test m.step.registers.flags bit = Flags.test m.registers.flags bit
  /-- The return from the interrupt loads all flags from the stack. -/
  loaded : m.nextInstruction = .returnFromInterrupt →
    m.step.registers.flags = m.memory.read (m.registers.sp + 1)
  memory : ∀ address ∉ m.written m.nextInstruction,
    m.step.memory.read address = m.memory.read address
  rom : m.step.memory.rom = m.memory.rom
  /-- Neither the gap nor ROM changes, whatever is written there. -/
  above : ∀ address : UInt16, 0xC100 ≤ address →
    m.step.memory.read address = m.memory.read address
  palette : ∀ i, mirrorAddress i ∉ m.written m.nextInstruction →
    m.step.memory.palette.get i = m.memory.palette.get i
  running : m.step.running = (m.running && m.nextInstruction != .halt)
  breakCount : m.step.breakCount = m.breakCount + if m.nextInstruction = .break then 1 else 0
  /-- Both counters grow by the price, and wrap. -/
  cycles : m.step.cycles = m.cycles + UInt64.ofNat (cost m.opcode)
  framePosition : m.step.framePosition = m.framePosition + UInt32.ofNat (cost m.opcode)
  /-- As numbers they grow by it as long as they have room for it. -/
  exact : (m.cycles + cost m.opcode < 2 ^ 64 → (m.step.cycles : Nat) = m.cycles + cost m.opcode)
    ∧ (m.framePosition + cost m.opcode < 2 ^ 32 →
      (m.step.framePosition : Nat) = m.framePosition + cost m.opcode)
    ∧ (m.breakCount.toNat + 1 < 2 ^ 64 → (m.step.breakCount : Nat)
      = m.breakCount.toNat + if m.nextInstruction = .break then 1 else 0)
  journal : m.nextInstruction ≠ .break →
    (∀ opcode, m.nextInstruction = .undefined opcode → m.debug = false) →
      m.step.journal = m.journal
  /-- The picture, the number of frames and the settings of the host stay. -/
  host : SameHost m.step m

/-- **Each instruction changes only what it names**, in every state of the machine. -/
theorem stepEffects (m : Machine) : StepEffects m where
  pc h := pc_perform (m.goto _) h
  sp := sp_perform_eq_lift (m.goto _) _
  registers _ h := get_perform (m.goto _) h
  flags hloads := flags_perform (m.goto _) hloads
  reserved hloads bit hlow hhigh := by
    have hbit : bit < 8 := UInt8.lt_of_le_of_lt hhigh (by decide)
    refine flags_perform (m.goto _) hloads bit hbit fun f hf => ?_
    refine Flag.bit_ne_of_reserved ?_ hlow hhigh
    rintro rfl
    exact m.nextInstruction.overflow_notMem_sets hf
  loaded h := by
    show ((m.goto _).perform m.nextInstruction).registers.flags = _
    rw [h]
    rfl
  memory address h := by
    apply read_perform (m.goto _)
    rwa [written_goto]
  rom := rom_perform (m.goto _) _
  above address habove := Memory.read_eq_of_above (rom_perform (m.goto _) _) habove
  palette i h := (sameEntry_execute h (lengthOf m.opcode)).palette
  running := running_perform (m.goto _) _
  breakCount := breakCount_perform (m.goto _) _
  cycles := cycles_step m
  framePosition := framePosition_step m
  exact := by
    refine ⟨fun hroom => ?_, fun hroom => ?_, fun hroom => ?_⟩
    · rw [cycles_step, nextCost, Counter.toNat_add_64 hroom]
    · rw [framePosition_step, nextCost, Counter.toNat_add_32 hroom]
    · have hcount : m.step.breakCount = _ := breakCount_perform (m.goto _) m.nextInstruction
      rw [hcount]
      split
      · exact Counter.toNat_add_64 (c := m.breakCount) hroom
      · exact congrArg UInt64.toNat (UInt64.add_zero _)
  journal hbreak hundefined := journal_perform (m.goto _) hbreak hundefined
  host := sameHost_step m

end Machine

end FantasyComputer
