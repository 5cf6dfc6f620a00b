/-
# FantasyComputer.Proofs.Disassembly — the bytes of an instruction from its text.

The opcode map goes from bytes to instructions, and assembly from instructions to text.  Here is the
way back, in two tables of its own: `Line.instruction?` finds the instruction that a line stands for,
and `Instruction.code?` its bytes, if the computer has such an instruction.

Each table undoes one of the others.  Every instruction is found from its line
(`instruction?_line`), and every instruction of the opcode map has the bytes that it was decoded
from (`code?_decode`).  With the reading of lines this makes `assemble?` a left inverse of
disassembly (`assemble?_text`).  Two byte strings with the same text therefore have the same bytes,
as far as their instructions go.
-/
import FantasyComputer.Proofs.AssemblyLines
import FantasyComputer.Proofs.UndefinedOpcodes

namespace FantasyComputer

/-! ## From lines to instructions -/

namespace Assembly

/-- The register of a name. -/
def register? : String → Option Register
  | "A" => some .a
  | "B" => some .b
  | "C" => some .c
  | "D" => some .d
  | _ => none

/-- The condition of a jump. -/
def condition? : String → Option Condition
  | "JZ" => some .zero
  | "JNZ" => some .notZero
  | "JC" => some .carry
  | "JNC" => some .noCarry
  | "JN" => some .negative
  | "JNN" => some .notNegative
  | _ => none

/-- The instructions without operands. -/
def bare? : String → Option Instruction
  | "NOP" => some .nop
  | "RET" => some .return
  | "RETI" => some .returnFromInterrupt
  | "EI" => some .enableInterrupts
  | "DI" => some .disableInterrupts
  | "HALT" => some .halt
  | "BREAK" => some .break
  | _ => none

/-- The instructions with one operand, a register or a pair. -/
def unary? (mnemonic name : String) : Option Instruction :=
  match mnemonic, name with
  | "NOT", "A" => some .not
  | "SHL", "A" => some .shiftLeft
  | "SHR", "A" => some .shiftRight
  | "ROL", "A" => some .rotateLeft
  | "ROR", "A" => some .rotateRight
  | "INC", "BC" => some .incrementBC
  | "DEC", "BC" => some .decrementBC
  | "INC", name => (register? name).map .increment
  | "DEC", name => (register? name).map .decrement
  | "PUSH", name => (register? name).map .push
  | "POP", name => (register? name).map .pop
  | _, _ => none

/-- The instructions with two registers. -/
def binary? (mnemonic target source : String) : Option Instruction :=
  match mnemonic, target, source with
  | "AND", "A", "B" => some .and
  | "OR", "A", "B" => some .or
  | "XOR", "A", "B" => some .xor
  | "CMP", "A", "B" => some .compareB
  | "ADD", "A", source => (register? source).map .addRegister
  | "SUB", "A", source => (register? source).map .subtractRegister
  | "MOV", target, source => (register? target).bind fun r => (register? source).map (.move r)
  | _, _, _ => none

/-- The instructions with a register and a byte. -/
def withByte? (mnemonic target : String) (k : UInt8) : Option Instruction :=
  match mnemonic, target with
  | "ADD", "A" => some (.addImmediate k)
  | "SUB", "A" => some (.subtractImmediate k)
  | "CMP", "A" => some (.compareImmediate k)
  | "LD", target => (register? target).map (.loadImmediate · k)
  | _, _ => none

/-- The instructions with an address alone. -/
def withAddress? (mnemonic : String) (address : UInt16) : Option Instruction :=
  match mnemonic with
  | "JMP" => some (.jump address)
  | "CALL" => some (.call address)
  | mnemonic => (condition? mnemonic).map (.jumpIf · address)

/-- The instruction that a line stands for. -/
def Line.instruction? (line : Line) : Option Instruction :=
  match line.operands with
  | [] => bare? line.mnemonic
  | [.name name] => unary? line.mnemonic name
  | [.name target, .name source] => binary? line.mnemonic target source
  | [.name target, .byte k] => withByte? line.mnemonic target k
  | [.word address] => withAddress? line.mnemonic address
  | [.name target, .word k] =>
    match line.mnemonic, target with
    | "LD", "BC" => some (.loadBC k)
    | "LD", "DC" => some (.loadDC k)
    | _, _ => none
  | [.name target, .contents address] =>
    match line.mnemonic, target with
    | "LD", target => (register? target).map (.loadAbsolute · address)
    | "IN", "A" => some (.input address)
    | _, _ => none
  | [.word address, .name source] =>
    if line.mnemonic = "ST" then (register? source).map (.store · address) else none
  | [.contents address, .name source] =>
    if line.mnemonic = "OUT" ∧ source = "A" then some (.output address) else none
  | [.byte k] => if line.mnemonic = "DB" then some (.undefined k) else none
  | _ => none

end Assembly

namespace Instruction

open Assembly

/-- **An instruction is found from its line.** -/
theorem instruction?_line (i : Instruction) : i.line.instruction? = some i := by
  cases i
  case move target source => cases target <;> cases source <;> rfl
  case jumpIf condition address => cases condition <;> rfl
  case loadImmediate r k | loadAbsolute r k | store r k => cases r <;> rfl
  case addRegister r | subtractRegister r => cases r <;> rfl
  case increment r | decrement r | push r | pop r => cases r <;> rfl
  all_goals rfl

/-- Mnemonics and names have capital letters only. -/
theorem isCapital_line (i : Instruction) : i.line.isCapital = true := by
  have hname : ∀ r : Register, Assembly.isCapital r.name = true := by
    intro r
    cases r <;> rfl
  have hpair : ∀ name ∈ ["A", "B", "BC", "DC"], Assembly.isCapital name = true := by decide
  rw [Line.isCapital, Bool.and_eq_true_iff]
  constructor
  · cases i
    case jumpIf condition address =>
      cases condition <;> simp only [line, Condition.mnemonic] <;> rfl
    all_goals
      simp only [line]
      rfl
  · cases i
    all_goals simp [line, Register.operand, Operand.isCapital, hname, hpair]

end Instruction

/-! ## From instructions to bytes -/

/-- The place of a register among the registers. -/
def Register.index : Register → UInt8
  | a => 0
  | b => 1
  | c => 2
  | d => 3

/-- The place of a condition among the conditional jumps. -/
def Condition.index : Condition → UInt8
  | zero => 0
  | notZero => 1
  | carry => 2
  | noCarry => 3
  | negative => 4
  | notNegative => 5

namespace Instruction

/-- An opcode with an operand word, low byte first. -/
def codeWord (opcode : UInt8) (w : UInt16) : Bytes :=
  [opcode, Word.low w, Word.high w]

/-- The bytes of an instruction, if the computer has it. -/
def code? : Instruction → Option Bytes
  | nop => some [0x00]
  | loadImmediate r k => some [0x01 + r.index, k]
  | loadAbsolute r address => some (codeWord (0x05 + r.index) address)
  | store r address => some (codeWord (0x09 + r.index) address)
  | move .a .a => none
  | move .a source => some [0x0F + source.index]
  | move target .a => some [0x12 + target.index]
  | move _ _ => none
  | addRegister .a => none
  | addRegister r => some [0x1F + r.index]
  | addImmediate k => some [0x23, k]
  | subtractRegister .a => none
  | subtractRegister r => some [0x23 + r.index]
  | subtractImmediate k => some [0x27, k]
  | increment r => some [0x28 + 2 * r.index]
  | decrement r => some [0x29 + 2 * r.index]
  | .and => some [0x30]
  | .or => some [0x31]
  | .xor => some [0x32]
  | .not => some [0x33]
  | shiftLeft => some [0x34]
  | shiftRight => some [0x35]
  | rotateLeft => some [0x36]
  | rotateRight => some [0x37]
  | compareB => some [0x38]
  | compareImmediate k => some [0x39, k]
  | jump address => some (codeWord 0x40 address)
  | jumpIf condition address => some (codeWord (0x41 + condition.index) address)
  | call address => some (codeWord 0x50 address)
  | .return => some [0x51]
  | returnFromInterrupt => some [0x52]
  | push r => some [0x60 + r.index]
  | pop r => some [0x64 + r.index]
  | input address => some (codeWord 0x70 address)
  | output address => some (codeWord 0x71 address)
  | loadBC k => some (codeWord 0x80 k)
  | loadDC k => some (codeWord 0x81 k)
  | incrementBC => some [0x82]
  | decrementBC => some [0x83]
  | enableInterrupts => some [0xF0]
  | disableInterrupts => some [0xF1]
  | halt => some [0xFE]
  | .break => some [0xFF]
  | undefined opcode => if decode opcode 0 0 = .undefined opcode then some [opcode] else none

end Instruction

/-- The bytes that an instruction covers, from its opcode and the two bytes after it. -/
def covered (opcode first second : UInt8) : Bytes :=
  [opcode, first, second].take (lengthOf opcode).toNat

theorem covered_of_alone {opcode : UInt8} (h : lengthOf opcode = 1) (first second : UInt8) :
    covered opcode first second = [opcode] := by
  rw [covered, h]
  rfl

theorem codeWord_ofHalves (opcode first second : UInt8) :
    Instruction.codeWord opcode (Word.ofHalves first second) = [opcode, first, second] := by
  rw [Instruction.codeWord, Word.low_ofHalves, Word.high_ofHalves]

/-- **The bytes of a decoded instruction are those that it covers.** -/
theorem code?_decode (opcode first second : UInt8) :
    (decode opcode first second).code? = some (covered opcode first second) := by
  unfold decode covered lengthOf
  generalize hencoding : encodingOf opcode = encoding
  have hundefined : encoding = .bare (.undefined opcode) →
      (Instruction.undefined opcode).code? = some [opcode] := by
    rintro rfl
    exact if_pos (congrArg (Encoding.complete 0 0) hencoding)
  -- row by row; only the last one asks whether a byte is without meaning
  unfold encodingOf at hencoding
  split at hencoding
  all_goals
    subst hencoding
    first
      | rfl
      | exact congrArg some (codeWord_ofHalves _ _ _)
      | exact hundefined rfl

/-- An opcode with an operand word, and the halves of the word after it. -/
theorem decode_of_withWord {opcode : UInt8} {f : UInt16 → Instruction}
    (h : encodingOf opcode = .withWord f) (w : UInt16) :
    decode opcode (Word.low w) (Word.high w) = f w := by
  rw [decode, h, Encoding.complete, Word.ofHalves_low_high]

/-- **The bytes of an instruction decode to it**, if it has any. -/
theorem decode_of_code? {i : Instruction} {bytes : Bytes} (h : i.code? = some bytes) :
    ∃ opcode first second,
      decode opcode first second = i ∧ covered opcode first second = bytes := by
  -- where an instruction has no operands, zeros stand behind it
  have hbytes : decode (bytes.getD 0 0) (bytes.getD 1 0) (bytes.getD 2 0) = i
      ∧ covered (bytes.getD 0 0) (bytes.getD 1 0) (bytes.getD 2 0) = bytes := by
    cases i
    case loadAbsolute r address | store r address =>
      cases r <;> cases h <;> exact ⟨decode_of_withWord rfl address, rfl⟩
    case jumpIf condition address =>
      cases condition <;> cases h <;> exact ⟨decode_of_withWord rfl address, rfl⟩
    case jump w | call w | input w | output w | loadBC w | loadDC w =>
      cases h
      exact ⟨decode_of_withWord rfl w, rfl⟩
    case move target source => cases target <;> cases source <;> cases h <;> exact ⟨rfl, rfl⟩
    case loadImmediate r k => cases r <;> cases h <;> exact ⟨rfl, rfl⟩
    case addRegister r | subtractRegister r => cases r <;> cases h <;> exact ⟨rfl, rfl⟩
    case increment r | decrement r | push r | pop r => cases r <;> cases h <;> exact ⟨rfl, rfl⟩
    case undefined opcode =>
      obtain ⟨hundefined, hopcode⟩ := Option.ite_none_right_eq_some.1 h
      cases hopcode
      have halone : lengthOf opcode = 1 := by
        rw [lengthOf, (encodingOf_of_undefined hundefined).2, Encoding.length]
      exact ⟨hundefined, covered_of_alone halone 0 0⟩
    all_goals
      cases h
      exact ⟨rfl, rfl⟩
  exact ⟨_, _, _, hbytes⟩

/-! ## The bytes that count -/

theorem lengthOf_pos (opcode : UInt8) : 0 < (lengthOf opcode).toNat := by
  unfold lengthOf
  cases encodingOf opcode <;> simp [Encoding.length]

theorem head?_covered (opcode first second : UInt8) :
    (covered opcode first second).head? = some opcode := by
  rw [covered, List.head?_take, if_neg (lengthOf_pos opcode).ne', List.head?_cons]

/-- An instruction and its size come from the bytes that it covers, whatever stands behind them. -/
theorem decode_of_covered {opcode first second opcode' first' second' : UInt8}
    (h : [opcode', first', second'].take (lengthOf opcode).toNat = covered opcode first second) :
    decode opcode' first' second' = decode opcode first second
      ∧ lengthOf opcode' = lengthOf opcode := by
  have hat : ∀ k < (lengthOf opcode).toNat,
      [opcode', first', second'][k]? = [opcode, first, second][k]? := by
    intro k hk
    have hboth := congrArg (·[k]?) h
    simp only [covered, List.getElem?_take_of_lt hk] at hboth
    exact hboth
  have hopcode : opcode' = opcode := Option.some.inj (hat 0 (lengthOf_pos opcode))
  subst hopcode
  refine ⟨decode_congr ?_ ?_, rfl⟩
  · exact fun hfirst => Option.some.inj (hat 1 hfirst)
  · exact fun hsecond => Option.some.inj (hat 2 hsecond)

/-! ## The assembler -/

namespace Assembly

/-- The bytes of a line of assembly, if it is a line of an instruction that the computer has. -/
def assemble? (text : String) : Option Bytes :=
  ((Line.read? text).bind Line.instruction?).bind Instruction.code?

/-- The text of an instruction is read as that instruction. -/
theorem read?_text_bind (i : Instruction) :
    (Line.read? i.text).bind Line.instruction? = some i := by
  rw [Instruction.text, Line.read?_text i.isCapital_line, Option.bind_some, i.instruction?_line]

/-- **Assembling undoes disassembling.** -/
theorem assemble?_text (opcode first second : UInt8) :
    assemble? (decode opcode first second).text = some (covered opcode first second) := by
  rw [assemble?, read?_text_bind, Option.bind_some, code?_decode]

example : assemble? "DB 0xAB" = some [0xAB] := by decide +kernel

/-- What is assembled are the bytes of the instruction that the line stands for. -/
theorem exists_of_assemble? {text : String} {bytes : Bytes} (h : assemble? text = some bytes) :
    ∃ opcode first second,
      (Line.read? text).bind Line.instruction? = some (decode opcode first second)
        ∧ covered opcode first second = bytes := by
  obtain ⟨i, hi, hbytes⟩ := Option.bind_eq_some_iff.1 h
  obtain ⟨opcode, first, second, rfl, hcovered⟩ := decode_of_code? hbytes
  exact ⟨opcode, first, second, hi, hcovered⟩

/-- Disassembly loses nothing of an instruction. -/
structure Lossless : Prop where
  /-- The bytes behind an instruction do not count. -/
  behind : ∀ opcode first second opcode' first' second',
    [opcode', first', second'].take (lengthOf opcode).toNat = covered opcode first second →
      decode opcode' first' second' = decode opcode first second
        ∧ lengthOf opcode' = lengthOf opcode
  /-- Bytes with the same text are the same instruction, byte by byte. -/
  told : ∀ opcode first second opcode' first' second',
    (decode opcode first second).text = (decode opcode' first' second').text →
      decode opcode first second = decode opcode' first' second'
        ∧ lengthOf opcode = lengthOf opcode'
        ∧ covered opcode first second = covered opcode' first' second'
  /-- An assembler finds the bytes of every text. -/
  assembled : ∀ opcode first second,
    assemble? (decode opcode first second).text = some (covered opcode first second)
  /-- It makes bytes only of texts of instructions, and bytes that decode to these. -/
  meant : ∀ text bytes, assemble? text = some bytes →
    ∃ opcode first second,
      (Line.read? text).bind Line.instruction? = some (decode opcode first second)
        ∧ covered opcode first second = bytes

/-- **Disassembly is lossless.** -/
theorem lossless : Lossless where
  behind _ _ _ _ _ _ := decode_of_covered
  told opcode first second opcode' first' second' htext := by
    have hcovered : covered opcode first second = covered opcode' first' second' := by
      have hbytes := assemble?_text opcode first second
      rw [htext, assemble?_text] at hbytes
      exact (Option.some.inj hbytes).symm
    have hread := read?_text_bind (decode opcode first second)
    rw [htext, read?_text_bind] at hread
    have hhead := congrArg List.head? hcovered
    rw [head?_covered, head?_covered] at hhead
    have hopcode : opcode = opcode' := Option.some.inj hhead
    exact ⟨(Option.some.inj hread).symm, congrArg lengthOf hopcode, hcovered⟩
  assembled := assemble?_text
  meant _ _ := exists_of_assemble?

end Assembly

end FantasyComputer
