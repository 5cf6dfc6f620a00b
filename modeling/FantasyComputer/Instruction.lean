/-
# FantasyComputer.Instruction — the instruction set.

The computer has four general registers.  `A` is the implicit destination of arithmetic, logic
and shifts; `B` is the implicit second operand of logic and of the bare compare; `B` and `C`
together are the pair `BC` with `B` high, and `D` and `C` together are the pair `DC` with `D`
high, so the two pairs share `C`.

An `Instruction` carries its operands.  Every byte is the first byte of some instruction: a byte
without a meaning of its own is the instruction `undefined`, which does nothing.
-/

namespace FantasyComputer

/-- A general register. -/
inductive Register where
  | a
  | b
  | c
  | d
  deriving DecidableEq, Repr

/-- What a conditional jump tests: the zero, carry or negative flag, set or clear. -/
inductive Condition where
  | zero
  | notZero
  | carry
  | noCarry
  | negative
  | notNegative
  deriving DecidableEq, Repr

/-- An instruction with its operands. -/
inductive Instruction where
  /-- Does nothing. -/
  | nop
  /-- Loads a constant into a register. -/
  | loadImmediate (target : Register) (value : UInt8)
  /-- Loads the byte at an address into a register. -/
  | loadAbsolute (target : Register) (address : UInt16)
  /-- Stores a register at an address. -/
  | store (source : Register) (address : UInt16)
  /-- Copies one register into another. -/
  | move (target source : Register)
  /-- Adds a register to `A`. -/
  | addRegister (source : Register)
  /-- Adds a constant to `A`. -/
  | addImmediate (value : UInt8)
  /-- Subtracts a register from `A`. -/
  | subtractRegister (source : Register)
  /-- Subtracts a constant from `A`. -/
  | subtractImmediate (value : UInt8)
  /-- Adds one to a register. -/
  | increment (target : Register)
  /-- Subtracts one from a register. -/
  | decrement (target : Register)
  /-- Bitwise and of `A` and `B`, into `A`. -/
  | and
  /-- Bitwise or of `A` and `B`, into `A`. -/
  | or
  /-- Bitwise exclusive or of `A` and `B`, into `A`. -/
  | xor
  /-- Bitwise complement of `A`. -/
  | not
  /-- Shifts `A` left; the bit that falls out is the carry. -/
  | shiftLeft
  /-- Shifts `A` right; the bit that falls out is the carry. -/
  | shiftRight
  /-- Rotates `A` and the carry, nine bits together, to the left. -/
  | rotateLeft
  /-- Rotates `A` and the carry, nine bits together, to the right. -/
  | rotateRight
  /-- Sets the flags of `A - B` and keeps `A`. -/
  | compareB
  /-- Sets the flags of `A` less a constant and keeps `A`. -/
  | compareImmediate (value : UInt8)
  /-- Goes on at an address. -/
  | jump (address : UInt16)
  /-- Goes on at an address if a condition holds. -/
  | jumpIf (condition : Condition) (address : UInt16)
  /-- Pushes the address of the next instruction and goes on at an address. -/
  | call (address : UInt16)
  /-- Pops an address and goes on there. -/
  | return
  /-- Pops the flags and then an address, and goes on there. -/
  | returnFromInterrupt
  /-- Pushes a register. -/
  | push (source : Register)
  /-- Pops a register. -/
  | pop (target : Register)
  /-- Loads the byte at an address into `A` and leaves the flags alone. -/
  | input (address : UInt16)
  /-- Stores `A` at an address. -/
  | output (address : UInt16)
  /-- Loads a constant into the pair `BC`. -/
  | loadBC (value : UInt16)
  /-- Loads a constant into the pair `DC`. -/
  | loadDC (value : UInt16)
  /-- Adds one to the pair `BC`. -/
  | incrementBC
  /-- Subtracts one from the pair `BC`. -/
  | decrementBC
  /-- Enables interrupts. -/
  | enableInterrupts
  /-- Disables interrupts. -/
  | disableInterrupts
  /-- Stops the machine. -/
  | halt
  /-- Reports the registers to the host. -/
  | break
  /-- Stands for a byte that means nothing; does nothing. -/
  | undefined (opcode : UInt8)
  deriving DecidableEq, Repr

end FantasyComputer
