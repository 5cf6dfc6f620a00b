/-
# FantasyComputer.Machine.Execution — one instruction at a time.

`execute` carries out an instruction.  The program counter first moves past it, so a call pushes the
address of the instruction that follows.  The stack grows downwards: a push writes at the stack
pointer and then lowers it, a pop raises it and then reads; a word is pushed high byte first.  The
stack pointer wraps without a check.

`step` fetches the three bytes at the program counter, executes the instruction that they start and
charges its price to the cycle count and to the frame.
-/
import FantasyComputer.Instruction.Encoding
import FantasyComputer.Machine

namespace FantasyComputer.Machine

/-! ## The stack -/

/-- Pushes a byte. -/
def pushByte (m : Machine) (value : UInt8) : Machine :=
  { m with
    memory := m.memory.write m.registers.sp value
    registers := { m.registers with sp := m.registers.sp - 1 } }

/-- Pushes a word, high byte first. -/
def pushWord (m : Machine) (value : UInt16) : Machine :=
  (m.pushByte (Word.high value)).pushByte (Word.low value)

/-- The byte that the next pop reads. -/
def topByte (m : Machine) : UInt8 :=
  m.memory.read (m.registers.sp + 1)

/-- Raises the stack pointer past one byte. -/
def dropByte (m : Machine) : Machine :=
  { m with registers := { m.registers with sp := m.registers.sp + 1 } }

/-- The word that the next two pops read, low byte first. -/
def topWord (m : Machine) : UInt16 :=
  Word.ofHalves m.topByte m.dropByte.topByte

/-- Raises the stack pointer past one word. -/
def dropWord (m : Machine) : Machine :=
  m.dropByte.dropByte

/-! ## Instructions -/

/-- Moves the program counter to an address. -/
@[inline]
def goto (m : Machine) (address : UInt16) : Machine :=
  { m with registers := { m.registers with pc := address } }

/-- Changes the registers. -/
@[inline]
def onRegisters (m : Machine) (change : Registers → Registers) : Machine :=
  { m with registers := change m.registers }

/-- Writes a byte to memory. -/
@[inline]
def writeByte (m : Machine) (address : UInt16) (value : UInt8) : Machine :=
  { m with memory := m.memory.write address value }

/-- Carries out an instruction, the program counter being past it already. -/
def perform (m : Machine) (i : Instruction) : Machine :=
  match i with
  | .nop => m
  | .loadImmediate r k => m.onRegisters (·.load r k)
  | .loadAbsolute r addr =>
    let v := m.memory.read addr
    m.onRegisters (·.load r v)
  | .store r addr => m.writeByte addr (m.registers.get r)
  | .move target source => m.onRegisters fun r => r.load target (r.get source)
  | .addRegister source => m.onRegisters fun r => r.add (r.get source)
  | .addImmediate k => m.onRegisters (·.add k)
  | .subtractRegister source => m.onRegisters fun r => r.subtract (r.get source)
  | .subtractImmediate k => m.onRegisters (·.subtract k)
  | .increment target => m.onRegisters fun r => r.load target (r.get target + 1)
  | .decrement target => m.onRegisters fun r => r.load target (r.get target - 1)
  | .and => m.onRegisters fun r => r.load .a (r.a &&& r.b)
  | .or => m.onRegisters fun r => r.load .a (r.a ||| r.b)
  | .xor => m.onRegisters fun r => r.load .a (r.a ^^^ r.b)
  | .not => m.onRegisters fun r => r.load .a (~~~r.a)
  | .shiftLeft => m.onRegisters (·.shiftLeft false)
  | .shiftRight => m.onRegisters (·.shiftRight false)
  | .rotateLeft => m.onRegisters fun r => r.shiftLeft (r.flag .carry)
  | .rotateRight => m.onRegisters fun r => r.shiftRight (r.flag .carry)
  | .compareB => m.onRegisters fun r => r.compare r.b
  | .compareImmediate k => m.onRegisters (·.compare k)
  | .jump addr => m.goto addr
  | .jumpIf cond addr => if m.registers.satisfies cond then m.goto addr else m
  | .call addr => (m.pushWord m.registers.pc).goto addr
  | .return =>
    let pc := m.topWord
    m.dropWord.goto pc
  | .returnFromInterrupt =>
    let flags := m.topByte
    let m := m.dropByte.onRegisters ({ · with flags })
    let pc := m.topWord
    m.dropWord.goto pc
  | .push r => m.pushByte (m.registers.get r)
  | .pop r =>
    let v := m.topByte
    m.dropByte.onRegisters (·.set r v)
  | .input addr =>
    let v := m.memory.read addr
    m.onRegisters (·.set .a v)
  | .output addr => m.writeByte addr m.registers.a
  | .loadBC k => m.onRegisters (·.setBC k)
  | .loadDC k => m.onRegisters (·.setDC k)
  | .incrementBC => m.onRegisters fun r => r.setBC (r.bc + 1)
  | .decrementBC => m.onRegisters fun r => r.setBC (r.bc - 1)
  | .enableInterrupts => m.onRegisters (·.setFlag .interrupt true)
  | .disableInterrupts => m.onRegisters (·.setFlag .interrupt false)
  | .halt => m.stop
  | .break =>
    let m := { m with breakCount := m.breakCount + 1 }
    m.note (.breakExecuted (m.registers.pc - 1) m.registers m.cycles)
  | .undefined opcode =>
    if m.debug then m.note (.undefinedExecuted opcode (m.registers.pc - 1)) else m

/-- Moves the program counter past an instruction of some length and carries it out. -/
def execute (m : Machine) (i : Instruction) (length : UInt8) : Machine :=
  (m.goto (m.registers.pc + length.toUInt16)).perform i

/-! ## Fetch, execute, charge -/

/-- The byte at a distance from the program counter. -/
@[inline]
def fetch (m : Machine) (distance : UInt16) : UInt8 :=
  m.memory.read (m.registers.pc + distance)

/-- The opcode at the program counter. -/
def opcode (m : Machine) : UInt8 :=
  m.fetch 0

/-- The instruction at the program counter. -/
def nextInstruction (m : Machine) : Instruction :=
  decode m.opcode (m.fetch 1) (m.fetch 2)

/-- The price of the instruction at the program counter. -/
def nextCost (m : Machine) : Nat :=
  cost m.opcode

/-- Charges cycles to the run and to the frame. -/
def charge (m : Machine) (price : Nat) : Machine :=
  { m with
    cycles := m.cycles + UInt64.ofNat price
    framePosition := m.framePosition + UInt32.ofNat price }

/-- Executes the instruction at the program counter and charges its price. -/
def step (m : Machine) : Machine :=
  let price := m.nextCost
  (m.execute m.nextInstruction (lengthOf m.opcode)).charge price

/-! ## What execution leaves to others

No instruction moves the position in the frame, so a step moves it by its price.  Within a frame the
position is far from its width. -/

theorem framePosition_perform (m : Machine) (i : Instruction) :
    (m.perform i).framePosition = m.framePosition := by
  cases i <;> simp only [perform] <;> (try split) <;> rfl

theorem framePosition_step (m : Machine) :
    m.step.framePosition = m.framePosition + UInt32.ofNat m.nextCost := by
  simp only [step, charge, execute, framePosition_perform]
  rfl

theorem toNat_framePosition_step {m : Machine} (h : m.framePosition < cyclesPerFrame) :
    (m.step.framePosition : Nat) = m.framePosition + m.nextCost := by
  have hcost := cost_le m.opcode
  rw [cyclesPerFrame_eq] at h
  have hroom : m.framePosition.toNat + m.nextCost < UInt32.size := by
    rw [nextCost, show UInt32.size = 4294967296 from rfl]
    omega
  rw [framePosition_step, Counter.toNat_add_32 hroom]

end FantasyComputer.Machine
