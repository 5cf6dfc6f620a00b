/-
# FantasyComputer.Proofs.AssemblyLines — a line of assembly is read as it was spelled.

`Line.read?` takes a text apart at its blanks; commas only set operands off and are left out.  An
operand is told from its first characters: `0x` starts a constant, whose digits say whether it is a
byte or a word, `[0x` starts an address in brackets, and all else is a name.

Names and mnemonics of capital letters hold no blank and no comma and do not start like a constant.
So every line made of such (`Line.isCapital`) is read back from its text: `read?_text`, operand by
operand from `Operand.read?_text`.
-/
import FantasyComputer.Instruction.Assembly
import FantasyComputer.Proofs.PositionalNumbers

namespace FantasyComputer.Assembly

open Hexadecimal

/-! ## Operands -/

/-- Whether a text has capital letters only. -/
def isCapital (text : String) : Bool :=
  text.toList.all Char.isUpper

namespace Operand

/-- Whether an operand is a constant, an address or a name of capital letters. -/
def isCapital : Operand → Bool
  | name text => Assembly.isCapital text
  | byte _ => true
  | word _ => true
  | contents _ => true

/-- Reads the digits of a constant: two for a byte, four for a word. -/
def constant? (ds : List Char) : Option Operand :=
  if ds.length = 2 then (value? ds).map fun n => byte (UInt8.ofNat n)
  else if ds.length = 4 then (value? ds).map fun n => word (UInt16.ofNat n)
  else none

/-- Reads an operand. -/
def read? : List Char → Option Operand
  | '0' :: 'x' :: ds => constant? ds
  | '[' :: '0' :: 'x' :: rest => (value? rest.dropLast).map fun n => contents (UInt16.ofNat n)
  | cs => some (name (String.ofList cs))

theorem value?_digits {width n : Nat} (hpos : 0 < width) (hn : n < 16 ^ width) :
    value? (digits width n) = some n :=
  value?_eq_some_iff.2 (writes_digits hpos hn)

theorem toList_byte (b : UInt8) : (byte b).text.toList = '0' :: 'x' :: digits 2 b.toNat := by
  simp only [text, Hexadecimal.byte, String.toList_append, String.toList_ofList]
  rfl

theorem toList_word (w : UInt16) : (word w).text.toList = '0' :: 'x' :: digits 4 w.toNat := by
  simp only [text, Hexadecimal.word, String.toList_append, String.toList_ofList]
  rfl

theorem toList_contents (w : UInt16) :
    (contents w).text.toList = '[' :: '0' :: 'x' :: (digits 4 w.toNat ++ [']']) := by
  simp only [text, Hexadecimal.word, String.toList_append, String.toList_ofList]
  rfl

/-- **An operand is read back.** -/
theorem read?_text {o : Operand} (h : o.isCapital = true) : read? o.text.toList = some o := by
  cases o with
  | name text =>
    have hupper := List.all_eq_true.1 h
    show read? text.toList = _
    unfold read?
    split
    · next ds hds => exact absurd (hupper '0' (by rw [hds]; simp)) (by decide)
    · next rest hrest => exact absurd (hupper '[' (by rw [hrest]; simp)) (by decide)
    · rw [String.ofList_toList]
  | byte b =>
    rw [toList_byte, read?, constant?, length_digits, if_pos rfl,
      value?_digits (by decide) b.toNat_lt, Option.map_some, UInt8.ofNat_toNat]
  | word w =>
    rw [toList_word, read?, constant?, length_digits, if_neg (by decide), if_pos rfl,
      value?_digits (by decide) w.toNat_lt, Option.map_some, UInt16.ofNat_toNat]
  | contents w =>
    rw [toList_contents, read?, List.dropLast_concat, value?_digits (by decide) w.toNat_lt,
      Option.map_some, UInt16.ofNat_toNat]

/-- What separates operands does not occur in them. -/
theorem notMem_text {o : Operand} (h : o.isCapital = true) {c : Char} (hc : c = ' ' ∨ c = ',') :
    c ∉ o.text.toList := by
  have hdigit : digitValue? c = none := by
    rcases hc with rfl | rfl <;> decide
  have hdigits : ∀ {width n : Nat}, 0 < width → n < 16 ^ width → c ∉ digits width n :=
    fun hpos hn => notMem_of_writes (writes_digits hpos hn) hdigit
  have hmarks : c ≠ '0' ∧ c ≠ 'x' ∧ c ≠ '[' ∧ c ≠ ']' := by
    rcases hc with rfl | rfl <;> decide
  obtain ⟨hzero, hx, hopen, hclose⟩ := hmarks
  cases o with
  | name text =>
    intro hmem
    have hupper := List.all_eq_true.1 h c hmem
    rcases hc with rfl | rfl
    · exact absurd hupper (by decide)
    · exact absurd hupper (by decide)
  | byte b =>
    rw [toList_byte]
    simp [hzero, hx, hdigits (by decide : 0 < 2) b.toNat_lt]
  | word w =>
    rw [toList_word]
    simp [hzero, hx, hdigits (by decide : 0 < 4) w.toNat_lt]
  | contents w =>
    rw [toList_contents]
    simp [hzero, hx, hopen, hclose, hdigits (by decide : 0 < 4) w.toNat_lt]

end Operand

/-! ## Lines -/

/-- The words of a text: what stands between its blanks, without the commas. -/
def words (text : String) : List (List Char) :=
  (text.toList.filter (· ≠ ',')).splitOn ' '

theorem filter_of_notMem {cs : List Char} (h : ',' ∉ cs) : cs.filter (· ≠ ',') = cs := by
  rw [List.filter_eq_self]
  rintro c hc
  rw [decide_eq_true_iff]
  rintro rfl
  exact h hc

/-- Without the commas, blanks are left between the operands. -/
theorem filter_intercalate {texts : List (List Char)} (h : ∀ cs ∈ texts, ',' ∉ cs) :
    ([',', ' '].intercalate texts).filter (· ≠ ',') = [' '].intercalate texts := by
  induction texts with
  | nil => rfl
  | cons cs texts ih =>
    obtain ⟨hcs, htexts⟩ := List.forall_mem_cons.1 h
    cases texts with
    | nil => simpa using filter_of_notMem hcs
    | cons cs' texts =>
      rw [List.intercalate_cons_cons, List.intercalate_cons_cons, List.filter_append,
        List.filter_append, ih htexts, filter_of_notMem hcs]
      rfl

namespace Line

/-- Reads a line. -/
def read? (text : String) : Option Line :=
  match words text with
  | [] => none
  | mnemonic :: operands =>
    (operands.mapM Operand.read?).map (Line.mk (String.ofList mnemonic))

/-- Whether mnemonic and names have capital letters only. -/
def isCapital (line : Line) : Bool :=
  Assembly.isCapital line.mnemonic && line.operands.all Operand.isCapital

/-- The spelling of a line, character by character. -/
theorem toList_text (line : Line) :
    line.text.toList = if line.operands = [] then line.mnemonic.toList
      else line.mnemonic.toList
        ++ ' ' :: [',', ' '].intercalate (line.operands.map (·.text.toList)) := by
  obtain ⟨mnemonic, operands⟩ := line
  cases operands with
  | nil => rfl
  | cons o operands =>
    rw [if_neg (List.cons_ne_nil o operands)]
    show (mnemonic ++ " " ++ ", ".intercalate ((o :: operands).map Operand.text)).toList = _
    rw [String.toList_append, String.toList_append, String.toList_intercalate, List.map_map,
      List.append_assoc]
    rfl

/-- The words of a line are its mnemonic and its operands. -/
theorem words_text {line : Line} (h : line.isCapital = true) :
    words line.text = line.mnemonic.toList :: line.operands.map (·.text.toList) := by
  obtain ⟨hmnemonic, hoperands⟩ := Bool.and_eq_true_iff.1 h
  -- a mnemonic is spelled like an operand that is a name
  have hname : (Operand.name line.mnemonic).isCapital = true := hmnemonic
  have hplain : ∀ c, c = ' ' ∨ c = ',' →
      ∀ cs ∈ line.mnemonic.toList :: line.operands.map (·.text.toList), c ∉ cs := by
    intro c hc
    rw [List.forall_mem_cons, List.forall_mem_map]
    refine ⟨Operand.notMem_text hname hc, fun o ho => Operand.notMem_text ?_ hc⟩
    exact List.all_eq_true.1 hoperands o ho
  have hfilter : line.text.toList.filter (· ≠ ',')
      = [' '].intercalate (line.mnemonic.toList :: line.operands.map (·.text.toList)) := by
    have hcommas := hplain ',' (Or.inr rfl)
    obtain ⟨hfirst, hrest⟩ := List.forall_mem_cons.1 hcommas
    rw [toList_text]
    split
    · next hnone =>
      rw [hnone, filter_of_notMem hfirst]
      simp
    · next hsome =>
      rw [List.filter_append, filter_of_notMem hfirst, List.filter_cons_of_pos (by decide),
        filter_intercalate hrest]
      obtain ⟨o, operands, hoperands⟩ := List.exists_cons_of_ne_nil hsome
      rw [hoperands, List.map_cons, List.intercalate_cons_cons]
      simp
  rw [words, hfilter]
  exact List.splitOn_intercalate ' ' (hplain ' ' (Or.inl rfl)) (List.cons_ne_nil _ _)

theorem mapM_read?_text {operands : List Operand} (h : operands.all Operand.isCapital = true) :
    (operands.map (·.text.toList)).mapM Operand.read? = some operands := by
  induction operands with
  | nil => rfl
  | cons o operands ih =>
    obtain ⟨ho, hoperands⟩ := Bool.and_eq_true_iff.1 h
    rw [List.map_cons, List.mapM_cons, Operand.read?_text ho, ih hoperands]
    rfl

/-- **A line is read back.** -/
theorem read?_text {line : Line} (h : line.isCapital = true) : read? line.text = some line := by
  have hread := mapM_read?_text (Bool.and_eq_true_iff.1 h).2
  rw [read?, words_text h]
  simp only [hread, String.ofList_toList, Option.map_some]

end Line

end FantasyComputer.Assembly
