/-
# FantasyComputer.Screen — from colour indices to a picture.

A palette entry packs a colour into a byte: three bits of red, three of green and two of blue.
`Color.expand` spreads each part over a full byte; every colour is opaque.

The picture has 128 rows of 128 pixels.  `Screen.render` replaces the pixels for which there is a
byte of video RAM by the palette colour of the byte's low four bits.  Given all of video RAM it
replaces every pixel, so what was shown before leaves no trace.
-/
import FantasyComputer.Memory

namespace FantasyComputer

/-! ## Colours -/

/-- A colour with an opacity, a byte for each part. -/
structure Rgba where
  red : UInt8
  green : UInt8
  blue : UInt8
  alpha : UInt8
  deriving DecidableEq, Repr

namespace Rgba

/-- The four parts in order. -/
def bytes (p : Rgba) : Bytes :=
  [p.red, p.green, p.blue, p.alpha]

/-- The colour as one number `0x00RRGGBB`. -/
def packed (p : Rgba) : UInt32 :=
  p.red.toUInt32 * 0x10000 + p.green.toUInt32 * 0x100 + p.blue.toUInt32

/-- Opaque black. -/
def black : Rgba :=
  { red := 0, green := 0, blue := 0, alpha := 0xFF }

end Rgba

/-- The colour that a byte packs: three bits of red, three of green, two of blue. -/
def Color.expand (packed : UInt8) : Rgba :=
  { red := (packed >>> 5) * 36
    green := (packed >>> 2 &&& 7) * 36
    blue := (packed &&& 3) * 85
    alpha := 0xFF }

/-! ## The picture -/

/-- Pixels in a row. -/
abbrev screenWidth : Nat := 128

/-- Rows of the picture. -/
abbrev screenHeight : Nat := 128

/-- Pixels of the picture. -/
abbrev pixelCount : Nat := 16384

/-- The picture, row by row from the top, and whether it has ever been rendered. -/
structure Screen where
  /-- The pixels, row by row from the top and each row from the left. -/
  pixels : Vector Rgba pixelCount
  /-- Whether the picture has been rendered since power-on. -/
  rendered : Bool
  deriving DecidableEq

namespace Screen

/-- The screen at power-on: opaque black, not rendered. -/
def initial : Screen :=
  { pixels := Vector.replicate _ Rgba.black, rendered := false }

/-- The colours of a palette, expanded. -/
def colors (palette : Palette) : Vector Rgba paletteSize :=
  palette.map Color.expand

/-- Renders a stretch of video RAM from the first pixel on, as far as both reach. -/
def render (s : Screen) (video : Array UInt8) (palette : Palette) : Screen :=
  let shades := colors palette
  { pixels := s.pixels.mapIdx fun i old =>
      match video[i]? with
      | some index => shades.get ⟨index.toNat % paletteSize, Nat.mod_lt _ (by decide)⟩
      | none => old
    rendered := true }

/-- Given all of video RAM, a pixel is the colour that its byte stands for. -/
theorem getElem_render (s : Screen) (video : Vector UInt8 videoSize) (palette : Palette) (i : Nat)
    (h : i < pixelCount) :
    (s.render video.toArray palette).pixels[i]
      = (colors palette).get ⟨video[i].toNat % paletteSize, Nat.mod_lt _ (by decide)⟩ := by
  have hvideo : video.toArray[i]? = some video[i] := by simp
  simp only [render, Vector.getElem_mapIdx, hvideo]

/-- What was shown before leaves no trace. -/
theorem render_eq (s s' : Screen) (video : Vector UInt8 videoSize) (palette : Palette) :
    s.render video.toArray palette = s'.render video.toArray palette := by
  have hpixels : (s.render video.toArray palette).pixels = (s'.render video.toArray palette).pixels :=
    Vector.ext fun i h => by rw [getElem_render, getElem_render]
  exact congrArg (mk · true) hpixels

/-- The pixels as numbers `0x00RRGGBB`. -/
def packed (s : Screen) : Vector UInt32 pixelCount :=
  s.pixels.map Rgba.packed

/-- The picture as bytes, four for each pixel. -/
def bytes (s : Screen) : Bytes :=
  s.pixels.toList.flatMap Rgba.bytes

end Screen

end FantasyComputer
