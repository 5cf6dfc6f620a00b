/-
# FantasyComputer.Picture.Preview — the picture as text.

A pixel is lit when its brightness, a weighted mean of its colour parts, is above a threshold.  The
preview shows two rows of pixels in one row of characters: a full block where both are lit, a half
block where one is, and a blank where none is.
-/
import FantasyComputer.Screen

namespace FantasyComputer.Preview

/-- The brightness above which a pixel is lit. -/
def threshold : Nat := 64

/-- The brightness of a pixel, rounded down. -/
def brightness (p : Rgba) : Nat :=
  (299 * p.red.toNat + 587 * p.green.toNat + 114 * p.blue.toNat) / 1000

/-- Whether a pixel is lit. -/
def isLit (p : Rgba) : Bool :=
  threshold < brightness p

/-- The number of pixels that are lit. -/
def litCount (s : Screen) : Nat :=
  s.pixels.toList.countP isLit

/-- The character for a pixel and the one below it. -/
def block (upper lower : Bool) : Char :=
  match upper, lower with
  | true, true => '█'
  | true, false => '▀'
  | false, true => '▄'
  | false, false => ' '

/-- Whether the pixel in a column and a row is lit; there are none outside the picture. -/
def litAt (s : Screen) (column row : Nat) : Bool :=
  match s.pixels[screenWidth * row + column]? with
  | some p => isLit p
  | none => false

/-- The characters for two rows of pixels. -/
def blocks (s : Screen) (pair : Nat) : List Char :=
  (List.range screenWidth).map fun column =>
    block (litAt s column (2 * pair)) (litAt s column (2 * pair + 1))

/-- The preview: how many pixels are lit, and a framed line for every two rows. -/
def lines (s : Screen) : List String :=
  ("  (" ++ toString (litCount s) ++ " px lit)")
    :: (List.range (screenHeight / 2)).map fun pair =>
      "  |" ++ String.ofList (blocks s pair) ++ "|"

end FantasyComputer.Preview
