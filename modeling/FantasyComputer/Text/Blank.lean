/-
# FantasyComputer.Text.Blank — the blanks around a typed command.

A blank is a character with the Unicode property White_Space: the ASCII controls from tab to
carriage return, the space, and nineteen characters beyond ASCII.  A command is read without
the blanks before and after it (`trimmed`).
-/

namespace FantasyComputer.Blank

/-- Ranges of code points with the property White_Space, both ends included. -/
def ranges : List (Nat × Nat) :=
  [(0x09, 0x0D), (0x20, 0x20), (0x85, 0x85), (0xA0, 0xA0), (0x1680, 0x1680), (0x2000, 0x200A),
    (0x2028, 0x2029), (0x202F, 0x202F), (0x205F, 0x205F), (0x3000, 0x3000)]

/-- Whether a character is a blank. -/
def isBlank (c : Char) : Bool :=
  ranges.any fun (first, last) => first ≤ c.toNat && c.toNat ≤ last

/-- A text without the blanks before and after it. -/
def trimmed (text : String) : String :=
  let body := text.toList.dropWhile isBlank
  String.ofList (body.reverse.dropWhile isBlank).reverse

example : ranges.length = 10 ∧ (ranges.map fun (a, b) => b + 1 - a).sum = 25 := by decide

example : [' ', '\t', '\r', '\n'].all isBlank = true := by decide

end FantasyComputer.Blank
