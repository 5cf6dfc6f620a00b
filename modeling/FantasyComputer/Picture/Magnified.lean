/-
# FantasyComputer.Picture.Magnified — the picture in a window.

A window shows every pixel as a square of `scale` by `scale` points.  Each row of pixels is
stretched and then stands `scale` times, so the points of a window of scale `s` are the
`128 * s` rows of `128 * s` points from the top.
-/
import FantasyComputer.Screen

namespace FantasyComputer.Magnified

/-- A row with every pixel several times. -/
def stretched (scale : Nat) (row : Array UInt32) : Array UInt32 :=
  row.flatMap fun pixel => Array.replicate scale pixel

/-- A row of the picture. -/
def row (pixels : Vector UInt32 pixelCount) (y : Nat) : Array UInt32 :=
  pixels.toArray.extract (screenWidth * y) (screenWidth * y + screenWidth)

/-- The points of a window, row by row from the top. -/
def points (scale : Nat) (pixels : Vector UInt32 pixelCount) : Array UInt32 :=
  (Array.range screenHeight).flatMap fun y =>
    (Array.replicate scale (stretched scale (row pixels y))).flatten

end FantasyComputer.Magnified
