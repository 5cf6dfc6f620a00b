/-
# FantasyComputer.Instruction.Encoding — machine code, its length and its price.

The first byte of an instruction says which operands follow it: none, one byte, or one word with
its low byte first.  `encodingOf` is that table, with an `Encoding` for each opcode; `decode` puts
the operand bytes in.  Because the length is part of the encoding, a decoded instruction depends on
the bytes it covers and on no others.

`cost` is the number of cycles that an opcode takes.  It is a table of its own, by opcode and not by
instruction, and some undefined opcodes are priced like their neighbours.  Every cost is positive
(`cost_pos`), which is what makes a frame end, and at most seven (`cost_le`).
-/
import FantasyComputer.Instruction
import FantasyComputer.Word

namespace FantasyComputer

/-! ## The opcode map -/

/-- What follows an opcode, and the instruction that results. -/
inductive Encoding where
  /-- No operand follows. -/
  | bare (instruction : Instruction)
  /-- One operand byte follows. -/
  | withByte (instruction : UInt8 → Instruction)
  /-- One operand word follows, low byte first. -/
  | withWord (instruction : UInt16 → Instruction)

/-- The opcode map. -/
def encodingOf (opcode : UInt8) : Encoding :=
  match opcode with
  | 0x00 => .bare .nop
  | 0x01 => .withByte (.loadImmediate .a)
  | 0x02 => .withByte (.loadImmediate .b)
  | 0x03 => .withByte (.loadImmediate .c)
  | 0x04 => .withByte (.loadImmediate .d)
  | 0x05 => .withWord (.loadAbsolute .a)
  | 0x06 => .withWord (.loadAbsolute .b)
  | 0x07 => .withWord (.loadAbsolute .c)
  | 0x08 => .withWord (.loadAbsolute .d)
  | 0x09 => .withWord (.store .a)
  | 0x0A => .withWord (.store .b)
  | 0x0B => .withWord (.store .c)
  | 0x0C => .withWord (.store .d)
  | 0x10 => .bare (.move .a .b)
  | 0x11 => .bare (.move .a .c)
  | 0x12 => .bare (.move .a .d)
  | 0x13 => .bare (.move .b .a)
  | 0x14 => .bare (.move .c .a)
  | 0x15 => .bare (.move .d .a)
  | 0x20 => .bare (.addRegister .b)
  | 0x21 => .bare (.addRegister .c)
  | 0x22 => .bare (.addRegister .d)
  | 0x23 => .withByte .addImmediate
  | 0x24 => .bare (.subtractRegister .b)
  | 0x25 => .bare (.subtractRegister .c)
  | 0x26 => .bare (.subtractRegister .d)
  | 0x27 => .withByte .subtractImmediate
  | 0x28 => .bare (.increment .a)
  | 0x29 => .bare (.decrement .a)
  | 0x2A => .bare (.increment .b)
  | 0x2B => .bare (.decrement .b)
  | 0x2C => .bare (.increment .c)
  | 0x2D => .bare (.decrement .c)
  | 0x2E => .bare (.increment .d)
  | 0x2F => .bare (.decrement .d)
  | 0x30 => .bare .and
  | 0x31 => .bare .or
  | 0x32 => .bare .xor
  | 0x33 => .bare .not
  | 0x34 => .bare .shiftLeft
  | 0x35 => .bare .shiftRight
  | 0x36 => .bare .rotateLeft
  | 0x37 => .bare .rotateRight
  | 0x38 => .bare .compareB
  | 0x39 => .withByte .compareImmediate
  | 0x40 => .withWord .jump
  | 0x41 => .withWord (.jumpIf .zero)
  | 0x42 => .withWord (.jumpIf .notZero)
  | 0x43 => .withWord (.jumpIf .carry)
  | 0x44 => .withWord (.jumpIf .noCarry)
  | 0x45 => .withWord (.jumpIf .negative)
  | 0x46 => .withWord (.jumpIf .notNegative)
  | 0x50 => .withWord .call
  | 0x51 => .bare .return
  | 0x52 => .bare .returnFromInterrupt
  | 0x60 => .bare (.push .a)
  | 0x61 => .bare (.push .b)
  | 0x62 => .bare (.push .c)
  | 0x63 => .bare (.push .d)
  | 0x64 => .bare (.pop .a)
  | 0x65 => .bare (.pop .b)
  | 0x66 => .bare (.pop .c)
  | 0x67 => .bare (.pop .d)
  | 0x70 => .withWord .input
  | 0x71 => .withWord .output
  | 0x80 => .withWord .loadBC
  | 0x81 => .withWord .loadDC
  | 0x82 => .bare .incrementBC
  | 0x83 => .bare .decrementBC
  | 0xF0 => .bare .enableInterrupts
  | 0xF1 => .bare .disableInterrupts
  | 0xFE => .bare .halt
  | 0xFF => .bare .break
  | other => .bare (.undefined other)

namespace Encoding

/-- The number of bytes of an instruction, opcode included. -/
def length : Encoding → UInt8
  | bare _ => 1
  | withByte _ => 2
  | withWord _ => 3

/-- The instruction once the two bytes after the opcode are known. -/
def complete (first second : UInt8) : Encoding → Instruction
  | bare i => i
  | withByte i => i first
  | withWord i => i (Word.ofHalves first second)

end Encoding

/-- The instruction that starts with an opcode and the two bytes after it. -/
def decode (opcode first second : UInt8) : Instruction :=
  (encodingOf opcode).complete first second

/-- The number of bytes of the instruction that starts with an opcode. -/
def lengthOf (opcode : UInt8) : UInt8 :=
  (encodingOf opcode).length

/-! ## The price list -/

/-- The number of cycles that the instruction of an opcode takes. -/
def cost (opcode : UInt8) : Nat :=
  let n := opcode.toNat
  if 0x01 ≤ n ∧ n ≤ 0x04 then 2
  else if 0x05 ≤ n ∧ n ≤ 0x0C then 4
  else if n = 0x23 ∨ n = 0x27 ∨ n = 0x39 then 2
  else if 0x40 ≤ n ∧ n ≤ 0x48 then 3
  else if n = 0x50 then 5
  else if n = 0x51 ∨ n = 0x52 then 4
  else if 0x60 ≤ n ∧ n ≤ 0x6F then 3
  else if n = 0x70 ∨ n = 0x71 then 4
  else if n = 0x80 ∨ n = 0x81 then 3
  else if n = 0x82 ∨ n = 0x83 then 2
  else if n = 0xFE then 7
  else 1

theorem cost_bounds : ∀ n : Fin 256, 0 < cost (UInt8.ofFin n) ∧ cost (UInt8.ofFin n) ≤ 7 := by
  decide +kernel

theorem cost_pos (opcode : UInt8) : 0 < cost opcode :=
  (cost_bounds opcode.toFin).1

theorem cost_le (opcode : UInt8) : cost opcode ≤ 7 :=
  (cost_bounds opcode.toFin).2

end FantasyComputer
