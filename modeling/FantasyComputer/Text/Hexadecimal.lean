/-
# FantasyComputer.Text.Hexadecimal — addresses and bytes in base sixteen.

Everything the computer shows in base sixteen has a fixed number of upper-case digits: two for a
byte, four for a word.  `digits` writes them and `value?` reads digits of either case back: a digit
is read as the value it was written for (`digitValue?_digit`), and reading goes from left to right,
so that a text may be read in pieces (`valueFrom?_append`).

`address?` reads an address the way a person types it.  The digits may follow any number of `0x`,
then any number of `0X`, then one `+`; the value has to fit 16 bits.  Nothing else is an address,
so a mistyped one is refused rather than cut short.
-/
import FantasyComputer.Word

namespace FantasyComputer.Hexadecimal

/-! ## Writing -/

/-- The upper-case digit of a value below sixteen. -/
def digit (n : Nat) : Char :=
  if n < 10 then Char.ofNat (48 + n) else Char.ofNat (55 + n)

/-- The lowest `width` digits of a number. -/
def digits : (width : Nat) → Nat → List Char
  | 0, _ => []
  | width + 1, n => digits width (n / 16) ++ [digit (n % 16)]

/-- A byte as two digits. -/
def byte (b : UInt8) : String :=
  String.ofList (digits 2 b.toNat)

/-- A word as four digits. -/
def word (w : UInt16) : String :=
  String.ofList (digits 4 w.toNat)

@[simp]
theorem length_digits (width n : Nat) : (digits width n).length = width := by
  induction width generalizing n with
  | zero => rfl
  | succ width ih => simp [digits, ih]

/-! ## Reading -/

/-- The value of a digit of either case. -/
def digitValue? (c : Char) : Option Nat :=
  if '0' ≤ c ∧ c ≤ '9' then some (c.toNat - 48)
  else if 'A' ≤ c ∧ c ≤ 'F' then some (c.toNat - 55)
  else if 'a' ≤ c ∧ c ≤ 'f' then some (c.toNat - 87)
  else none

/-- Reads digits after a number already read. -/
def valueFrom? (acc : Nat) : List Char → Option Nat
  | [] => some acc
  | c :: rest =>
    match digitValue? c with
    | some d => valueFrom? (16 * acc + d) rest
    | none => none

/-- The value of one or more digits. -/
def value? : List Char → Option Nat
  | [] => none
  | cs => valueFrom? 0 cs

theorem digitValue?_digit {n : Nat} (h : n < 16) : digitValue? (digit n) = some n := by
  revert n
  decide

theorem valueFrom?_append (acc : Nat) (cs ds : List Char) :
    valueFrom? acc (cs ++ ds) = (valueFrom? acc cs).bind (valueFrom? · ds) := by
  induction cs generalizing acc with
  | nil => rfl
  | cons c cs ih =>
    simp only [List.cons_append, valueFrom?]
    cases digitValue? c <;> simp [ih]

/-- Drops every leading copy of the two characters `a b`. -/
def dropPairs (a b : Char) : List Char → List Char
  | c :: d :: rest => if c = a ∧ d = b then dropPairs a b rest else c :: d :: rest
  | cs => cs

/-- Drops one leading plus sign. -/
def dropPlus : List Char → List Char
  | '+' :: rest => rest
  | cs => cs

/-- Reads an address: copies of `0x`, copies of `0X`, at most one plus sign, then digits whose
value fits 16 bits. -/
def address? (text : String) : Option UInt16 :=
  match value? (dropPlus (dropPairs '0' 'X' (dropPairs '0' 'x' text.toList))) with
  | some v => if v < 0x10000 then some (UInt16.ofNat v) else none
  | none => none

end FantasyComputer.Hexadecimal
