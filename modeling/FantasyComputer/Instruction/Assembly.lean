/-
# FantasyComputer.Instruction.Assembly — instructions as assembly text.

A line of assembly is a mnemonic and a list of operands (`Line`).  `Instruction.line` writes an
instruction that way and `Line.text` spells the line: the mnemonic, then the operands after a blank
and with a comma and a blank between them.

Constants and addresses are written in full width, two or four digits, so the text tells a byte
from a word; an address that is read or written through stands in brackets, except as the target
of a store.  A byte without meaning is shown as the datum it is, `DB`.
-/
import FantasyComputer.Instruction
import FantasyComputer.Text.Hexadecimal

namespace FantasyComputer

/-! ## Lines -/

namespace Assembly

/-- An operand of a line of assembly. -/
inductive Operand where
  /-- A register or a register pair, by name. -/
  | name (text : String)
  /-- A byte constant. -/
  | byte (value : UInt8)
  /-- A word constant or a bare address. -/
  | word (value : UInt16)
  /-- The contents of an address. -/
  | contents (address : UInt16)
  deriving DecidableEq, Repr

/-- A mnemonic and its operands. -/
structure Line where
  /-- The name of the operation. -/
  mnemonic : String
  /-- The operands, destination first. -/
  operands : List Operand
  deriving DecidableEq, Repr

/-- The spelling of an operand. -/
def Operand.text : Operand → String
  | name text => text
  | byte value => "0x" ++ Hexadecimal.byte value
  | word value => "0x" ++ Hexadecimal.word value
  | contents address => "[0x" ++ Hexadecimal.word address ++ "]"

/-- The spelling of a line. -/
def Line.text (line : Line) : String :=
  match line.operands with
  | [] => line.mnemonic
  | operands => line.mnemonic ++ " " ++ ", ".intercalate (operands.map Operand.text)

end Assembly

/-! ## Instructions -/

/-- The name of a register. -/
def Register.name : Register → String
  | a => "A"
  | b => "B"
  | c => "C"
  | d => "D"

/-- A register as an operand. -/
def Register.operand (r : Register) : Assembly.Operand :=
  .name r.name

/-- The mnemonic of the jump on a condition. -/
def Condition.mnemonic : Condition → String
  | zero => "JZ"
  | notZero => "JNZ"
  | carry => "JC"
  | noCarry => "JNC"
  | negative => "JN"
  | notNegative => "JNN"

open Assembly in
/-- An instruction as a line of assembly. -/
def Instruction.line : Instruction → Line
  | nop => ⟨"NOP", []⟩
  | loadImmediate r k => ⟨"LD", [r.operand, .byte k]⟩
  | loadAbsolute r addr => ⟨"LD", [r.operand, .contents addr]⟩
  | store r addr => ⟨"ST", [.word addr, r.operand]⟩
  | move target source => ⟨"MOV", [target.operand, source.operand]⟩
  | addRegister r => ⟨"ADD", [.name "A", r.operand]⟩
  | addImmediate k => ⟨"ADD", [.name "A", .byte k]⟩
  | subtractRegister r => ⟨"SUB", [.name "A", r.operand]⟩
  | subtractImmediate k => ⟨"SUB", [.name "A", .byte k]⟩
  | increment r => ⟨"INC", [r.operand]⟩
  | decrement r => ⟨"DEC", [r.operand]⟩
  | .and => ⟨"AND", [.name "A", .name "B"]⟩
  | .or => ⟨"OR", [.name "A", .name "B"]⟩
  | .xor => ⟨"XOR", [.name "A", .name "B"]⟩
  | .not => ⟨"NOT", [.name "A"]⟩
  | shiftLeft => ⟨"SHL", [.name "A"]⟩
  | shiftRight => ⟨"SHR", [.name "A"]⟩
  | rotateLeft => ⟨"ROL", [.name "A"]⟩
  | rotateRight => ⟨"ROR", [.name "A"]⟩
  | compareB => ⟨"CMP", [.name "A", .name "B"]⟩
  | compareImmediate k => ⟨"CMP", [.name "A", .byte k]⟩
  | jump addr => ⟨"JMP", [.word addr]⟩
  | jumpIf cond addr => ⟨cond.mnemonic, [.word addr]⟩
  | call addr => ⟨"CALL", [.word addr]⟩
  | .return => ⟨"RET", []⟩
  | returnFromInterrupt => ⟨"RETI", []⟩
  | push r => ⟨"PUSH", [r.operand]⟩
  | pop r => ⟨"POP", [r.operand]⟩
  | input addr => ⟨"IN", [.name "A", .contents addr]⟩
  | output addr => ⟨"OUT", [.contents addr, .name "A"]⟩
  | loadBC k => ⟨"LD", [.name "BC", .word k]⟩
  | loadDC k => ⟨"LD", [.name "DC", .word k]⟩
  | incrementBC => ⟨"INC", [.name "BC"]⟩
  | decrementBC => ⟨"DEC", [.name "BC"]⟩
  | enableInterrupts => ⟨"EI", []⟩
  | disableInterrupts => ⟨"DI", []⟩
  | halt => ⟨"HALT", []⟩
  | .break => ⟨"BREAK", []⟩
  | undefined op => ⟨"DB", [.byte op]⟩

/-- An instruction as assembly text. -/
def Instruction.text (i : Instruction) : String :=
  i.line.text

end FantasyComputer
