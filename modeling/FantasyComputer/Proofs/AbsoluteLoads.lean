/-
# FantasyComputer.Proofs.AbsoluteLoads — two ways to get a byte into `A`.

The load of `A` from an address and the input from that address read the same byte into the same
register, take the same number of bytes and the same number of cycles.  They differ in one respect:
the load describes the byte in the zero and the negative flag (`afterLoad_eq`), as every load does, and
the input leaves all flags alone (`afterInput_eq`).  So they are the same operation in exactly those
states whose two flags describe the byte already (`afterLoad_eq_afterInput_iff`).

`loadAgainstInput` collects this for every state and every address, and says what becomes of a program
in which one of the two stands in the place of the other.
-/
import FantasyComputer.Proofs.FlagEffects
import FantasyComputer.Proofs.PatchedPrograms

namespace FantasyComputer

/-! ## Describing a byte -/

/-- Setting a flag to what it is changes nothing. -/
theorem Flags.assign_test (flags : UInt8) (f : Flag) :
    assign flags f.bit (test flags f.bit) = flags := by
  have hbyte : ∀ n : Fin 256,
      assign (UInt8.ofFin n) f.bit (test (UInt8.ofFin n) f.bit) = UInt8.ofFin n := by
    cases f <;> decide +kernel
  exact hbyte flags.toFin

namespace Registers

/-- The two flags describe a byte. -/
def Describes (r : Registers) (value : UInt8) : Prop :=
  r.flag .zero = (value == 0) ∧ r.flag .negative = decide (0x80 ≤ value)

theorem describes_describe (r : Registers) (value : UInt8) : (r.describe value).Describes value := by
  constructor
  · -- the negative flag is set later and leaves the zero flag alone
    have hkeeps : Flags.Keeps [.negative] (r.setFlag .zero (value == 0)).flags
        (r.describe value).flags :=
      (Flags.Keeps.refl _ _).assign (List.mem_singleton_self _) _
    rw [flag_of_keeps hkeeps (by decide), flag_setFlag]
  · exact flag_setFlag _ _ _

/-- Describing changes nothing in exactly the registers that describe the byte already. -/
theorem describe_eq_self_iff (r : Registers) (value : UInt8) :
    r.describe value = r ↔ r.Describes value := by
  constructor
  · intro h
    have hdescribes := r.describes_describe value
    rwa [h] at hdescribes
  · rintro ⟨hzero, hnegative⟩
    have hsame : ∀ f, r.setFlag f (r.flag f) = r := fun f =>
      congrArg (fun flags => { r with flags }) (Flags.assign_test r.flags f)
    rw [describe, ← hzero, hsame, ← hnegative, hsame]

end Registers

namespace Machine

variable {m : Machine} {address : UInt16}

/-! ## The two instructions -/

/-- The machine after the instruction of some bytes, wherever these stand. -/
def carryOut (m : Machine) (opcode first second : UInt8) : Machine :=
  (m.execute (decode opcode first second) (lengthOf opcode)).charge (cost opcode)

/-- A step carries out the bytes at the program counter. -/
theorem step_eq_carryOut (m : Machine) : m.step = m.carryOut m.opcode (m.fetch 1) (m.fetch 2) :=
  rfl

/-- The opcode of the load of `A` from an address. -/
def loadOpcode : UInt8 := 0x05

/-- The opcode of the input from an address. -/
def inputOpcode : UInt8 := 0x70

/-- The machine after the load of `A` from an address. -/
def afterLoad (m : Machine) (address : UInt16) : Machine :=
  m.carryOut loadOpcode (Word.low address) (Word.high address)

/-- The machine after the input from an address. -/
def afterInput (m : Machine) (address : UInt16) : Machine :=
  m.carryOut inputOpcode (Word.low address) (Word.high address)

/-- The input changes `A`, the program counter and the counters of cycles. -/
theorem afterInput_eq (m : Machine) (address : UInt16) :
    m.afterInput address = { m with
      registers := { m.registers with a := m.memory.read address, pc := m.registers.pc + 3 }
      cycles := m.cycles + 4
      framePosition := m.framePosition + 4 } := by
  have hdecode : decode inputOpcode (Word.low address) (Word.high address) = .input address :=
    congrArg Instruction.input (Word.ofHalves_low_high address)
  rw [afterInput, carryOut, hdecode]
  rfl

/-- The load describes the byte besides. -/
theorem afterLoad_eq (m : Machine) (address : UInt16) :
    m.afterLoad address
      = (m.afterInput address).onRegisters (·.describe (m.memory.read address)) := by
  have hdecode : decode loadOpcode (Word.low address) (Word.high address)
      = .loadAbsolute .a address :=
    congrArg (Instruction.loadAbsolute .a) (Word.ofHalves_low_high address)
  rw [afterInput_eq, afterLoad, carryOut, hdecode]
  rfl

theorem afterLoad_eq_afterInput_iff (m : Machine) (address : UInt16) :
    m.afterLoad address = m.afterInput address
      ↔ m.registers.Describes (m.memory.read address) := by
  have hflags : (m.afterInput address).registers.Describes (m.memory.read address)
      ↔ m.registers.Describes (m.memory.read address) := by
    rw [afterInput_eq]
    rfl
  rw [afterLoad_eq, ← hflags, ← Registers.describe_eq_self_iff]
  constructor
  · exact fun h => congrArg Machine.registers h
  · intro h
    rw [onRegisters, h]

/-! ## One in the place of the other -/

/-- A step carries out the opcode with the word behind it as its operand. -/
theorem step_of_operand (haddress : Word.ofHalves (m.fetch 1) (m.fetch 2) = address) :
    m.step = m.carryOut m.opcode (Word.low address) (Word.high address) := by
  rw [step_eq_carryOut, ← haddress, Word.low_ofHalves, Word.high_ofHalves]

/-- Where a program has the load in the place of the input, it goes on with the two flags set. -/
theorem step_patch_loadOpcode (hopcode : m.opcode = inputOpcode)
    (haddress : Word.ofHalves (m.fetch 1) (m.fetch 2) = address)
    (hplace : address ≠ m.registers.pc) :
    (m.patch m.registers.pc loadOpcode).step
      = (m.step.onRegisters (·.describe (m.memory.read address))).patch m.registers.pc loadOpcode := by
  have hnonzero : m.opcode ≠ 0 := by
    rw [hopcode]
    decide
  have hinput : m.step = m.afterInput address := by
    rw [step_of_operand haddress, hopcode, afterInput]
  -- the other program, with its operand and the byte to be read as before
  set other := m.patch m.registers.pc loadOpcode
  have hother : Word.ofHalves (other.fetch 1) (other.fetch 2) = address := by
    rw [fetch_patch m loadOpcode (by decide), fetch_patch m loadOpcode (by decide), haddress]
  have hload : other.step = other.afterLoad address := by
    rw [step_of_operand hother, opcode_patch hnonzero, afterLoad]
  have hread : other.memory.read address = m.memory.read address :=
    m.memory.read_patch_of_ne loadOpcode hplace
  rw [hload, hinput, afterLoad_eq, afterInput_eq, afterInput_eq, hread]
  rfl

/-! ## The comparison -/

/-- The load of `A` against the input, from one address and in one state. -/
structure LoadAgainstInput (m : Machine) (address : UInt16) : Prop where
  /-- The input changes `A`, the program counter and the counters of cycles. -/
  input : m.afterInput address = { m with
    registers := { m.registers with a := m.memory.read address, pc := m.registers.pc + 3 }
    cycles := m.cycles + 4
    framePosition := m.framePosition + 4 }
  /-- The load does that and describes the byte. -/
  load : m.afterLoad address
    = (m.afterInput address).onRegisters (·.describe (m.memory.read address))
  described : (m.afterLoad address).registers.Describes (m.memory.read address)
  /-- They leave the same machine up to the flags byte, and in that byte up to two bits. -/
  upToFlags : (m.afterLoad address).onRegisters ({ · with flags := m.registers.flags })
    = m.afterInput address
  upToBits : Flags.Keeps [.zero, .negative] (m.afterInput address).registers.flags
    (m.afterLoad address).registers.flags
  /-- They are the same operation where the flags describe the byte already. -/
  same_iff : m.afterLoad address = m.afterInput address
    ↔ m.registers.Describes (m.memory.read address)
  /-- In a program, one in the place of the other makes the same difference. -/
  inPlace : m.opcode = inputOpcode → Word.ofHalves (m.fetch 1) (m.fetch 2) = address →
    address ≠ m.registers.pc →
      (m.patch m.registers.pc loadOpcode).step
        = (m.step.onRegisters (·.describe (m.memory.read address))).patch m.registers.pc loadOpcode

/-- **The load and the input**, in every state and from every address. -/
theorem loadAgainstInput (m : Machine) (address : UInt16) : LoadAgainstInput m address where
  input := m.afterInput_eq address
  load := m.afterLoad_eq address
  described := by
    rw [afterLoad_eq]
    exact Registers.describes_describe _ _
  upToFlags := by
    rw [afterLoad_eq, afterInput_eq]
    rfl
  upToBits := by
    rw [afterLoad_eq]
    exact Registers.keeps_describe (Flags.Keeps.refl _ _) (by decide) (by decide) _
  same_iff := m.afterLoad_eq_afterInput_iff address
  inPlace hopcode haddress hplace := step_patch_loadOpcode hopcode haddress hplace

/-- At power-on the flags are clear and RAM is zero: the load raises the zero flag and the input does
not. -/
theorem initial_load_ne_input :
    (Machine.initial.afterInput 0).registers.flags = 0x00
      ∧ (Machine.initial.afterLoad 0).registers.flags = 0x01
      ∧ Machine.initial.afterLoad 0 ≠ Machine.initial.afterInput 0 := by
  have hread : Machine.initial.memory.read 0 = 0 := Vector.getElem_replicate (by decide)
  have hinput : (Machine.initial.afterInput 0).registers.flags = 0x00 := by
    rw [afterInput_eq]
    rfl
  have hload : (Machine.initial.afterLoad 0).registers.flags = 0x01 := by
    rw [afterLoad_eq, afterInput_eq, hread]
    rfl
  refine ⟨hinput, hload, fun h => ?_⟩
  rw [h, hinput] at hload
  exact absurd hload (by decide)

end Machine

end FantasyComputer
