/-
# FantasyComputer.Text.Decimal — numbers in base ten, as typed and as shown in columns.

`natural?` reads a number that a person typed: at most one plus sign, then one or more ASCII
digits.  `counter?` also asks that it fit 64 bits, the size of every count of steps and frames.

`padLeft` sets a text flush right in a column and never cuts it; `zeroPadded` fills with zeros.
-/

namespace FantasyComputer.Decimal

/-! ## Reading -/

/-- Reads ASCII digits after a number already read. -/
def valueFrom? (acc : Nat) : List Char → Option Nat
  | [] => some acc
  | c :: rest =>
    if '0' ≤ c ∧ c ≤ '9' then valueFrom? (10 * acc + (c.toNat - 48)) rest else none

/-- Reads at most one plus sign and then one or more ASCII digits. -/
def natural? (text : String) : Option Nat :=
  match text.toList with
  | [] => none
  | ['+'] => none
  | '+' :: ds => valueFrom? 0 ds
  | ds => valueFrom? 0 ds

/-- Reads a number of steps or frames, which has to fit 64 bits. -/
def counter? (text : String) : Option Nat :=
  match natural? text with
  | some n => if n < UInt64.size then some n else none
  | none => none

/-! ## Columns -/

/-- Sets a text flush right in a column of the given width, with blanks before it. -/
def padLeft (width : Nat) (text : String) : String :=
  "".pushn ' ' (width - text.length) ++ text

/-- A number with leading zeros up to the given width. -/
def zeroPadded (width n : Nat) : String :=
  let text := toString n
  "".pushn '0' (width - text.length) ++ text

end FantasyComputer.Decimal
