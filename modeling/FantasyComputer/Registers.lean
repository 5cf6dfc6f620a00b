/-
# FantasyComputer.Registers — the register file and the arithmetic on it.

Four bytes `a b c d`, the program counter, the stack pointer and the flags byte.  All of them wrap.

Five bits of the flags byte have a name (`Flag`).  Zero and negative always describe the same byte
and are set together (`describe`); the carry is set by additions, subtractions, compares, shifts and
rotations alone; the overflow bit is reserved and no instruction sets it; the interrupt bit says
whether interrupts are let in.  A subtraction carries when it borrows.
-/
import FantasyComputer.Instruction
import FantasyComputer.Word

namespace FantasyComputer

/-! ## Flags -/

/-- A named bit of the flags byte. -/
inductive Flag where
  | zero
  | carry
  | negative
  /-- Reserved: no instruction sets it. -/
  | overflow
  | interrupt
  deriving DecidableEq, Repr

/-- The bit number of a flag. -/
def Flag.bit : Flag → UInt8
  | zero => 0
  | carry => 1
  | negative => 2
  | overflow => 3
  | interrupt => 7

namespace Flags

/-- Whether a bit of a flags byte is set. -/
@[inline]
def test (flags bit : UInt8) : Bool :=
  flags &&& (1 <<< bit) != 0

/-- A flags byte with one bit set or cleared. -/
@[inline]
def assign (flags bit : UInt8) (on : Bool) : UInt8 :=
  if on then flags ||| (1 <<< bit) else flags &&& ~~~(1 <<< bit)

/-- The letters that stand for the set bits, bit 0 first. -/
def letters : List Char :=
  ['Z', 'C', 'N', 'V', '4', '5', '6', 'I']

/-- A flags byte as eight characters, bit 7 first, with `-` for a clear bit. -/
def text (flags : UInt8) : String :=
  String.ofList (letters.zipIdx.map fun (letter, bit) =>
    if test flags (UInt8.ofNat bit) then letter else '-').reverse

end Flags

/-! ## The register file -/

/-- The contents of all registers. -/
structure Registers where
  /-- The accumulator. -/
  a : UInt8
  /-- The second operand of logic; high half of `BC`. -/
  b : UInt8
  /-- Low half of `BC` and of `DC`. -/
  c : UInt8
  /-- High half of `DC`. -/
  d : UInt8
  /-- Program counter: the address of the next instruction. -/
  pc : UInt16
  /-- Stack pointer: the address that the next push writes. -/
  sp : UInt16
  /-- Flags byte. -/
  flags : UInt8
  deriving DecidableEq, Repr

/-- The stack pointer after a reset: the last byte of RAM. -/
def stackTop : UInt16 := 0x7FFF

namespace Registers

/-- The registers after a reset to an entry point. -/
def reset (entry : UInt16) : Registers :=
  { a := 0, b := 0, c := 0, d := 0, pc := entry, sp := stackTop, flags := 0 }

/-- The contents of a general register. -/
@[inline]
def get (r : Registers) : Register → UInt8
  | .a => r.a
  | .b => r.b
  | .c => r.c
  | .d => r.d

/-- Replaces the contents of a general register. -/
@[inline]
def set (r : Registers) (target : Register) (value : UInt8) : Registers :=
  match target with
  | .a => { r with a := value }
  | .b => { r with b := value }
  | .c => { r with c := value }
  | .d => { r with d := value }

/-- The pair `BC`. -/
@[inline]
def bc (r : Registers) : UInt16 :=
  Word.ofHalves r.c r.b

/-- Replaces the pair `BC`. -/
@[inline]
def setBC (r : Registers) (value : UInt16) : Registers :=
  { r with b := Word.high value, c := Word.low value }

/-- Replaces the pair `DC`. -/
@[inline]
def setDC (r : Registers) (value : UInt16) : Registers :=
  { r with d := Word.high value, c := Word.low value }

/-- Whether a flag is set. -/
@[inline]
def flag (r : Registers) (f : Flag) : Bool :=
  Flags.test r.flags f.bit

/-- Sets or clears a flag. -/
@[inline]
def setFlag (r : Registers) (f : Flag) (on : Bool) : Registers :=
  { r with flags := Flags.assign r.flags f.bit on }

/-- Makes zero and negative describe a byte. -/
@[inline]
def describe (r : Registers) (value : UInt8) : Registers :=
  (r.setFlag .zero (value == 0)).setFlag .negative (0x80 ≤ value)

/-- Puts a byte into a register and describes it. -/
@[inline]
def load (r : Registers) (target : Register) (value : UInt8) : Registers :=
  (r.set target value).describe value

/-! ## Arithmetic on the accumulator -/

/-- Adds a byte to `A`; the carry is the bit that falls out. -/
def add (r : Registers) (value : UInt8) : Registers :=
  (r.setFlag .carry (256 ≤ r.a.toNat + value.toNat)).load .a (r.a + value)

/-- Subtracts a byte from `A`; the carry is the borrow. -/
def subtract (r : Registers) (value : UInt8) : Registers :=
  (r.setFlag .carry (r.a < value)).load .a (r.a - value)

/-- Sets the flags of a subtraction from `A` and keeps `A`. -/
def compare (r : Registers) (value : UInt8) : Registers :=
  (r.setFlag .carry (r.a < value)).describe (r.a - value)

/-- Shifts `A` left and brings in a bit on the right. -/
def shiftLeft (r : Registers) (enter : Bool) : Registers :=
  (r.setFlag .carry (0x80 ≤ r.a)).load .a (r.a <<< 1 ||| enter.toUInt8)

/-- Shifts `A` right and brings in a bit on the left. -/
def shiftRight (r : Registers) (enter : Bool) : Registers :=
  (r.setFlag .carry (r.a &&& 1 == 1)).load .a (r.a >>> 1 ||| enter.toUInt8 <<< 7)

/-- Whether a condition holds. -/
def satisfies (r : Registers) : Condition → Bool
  | .zero => r.flag .zero
  | .notZero => !r.flag .zero
  | .carry => r.flag .carry
  | .noCarry => !r.flag .carry
  | .negative => r.flag .negative
  | .notNegative => !r.flag .negative

end Registers

end FantasyComputer
