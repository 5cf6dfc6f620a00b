/-
# FantasyComputer.Memory — the address space.

A 16-bit address leads to one of four regions or into a gap (`locate`):

| addresses       | region                                          |
|-----------------|-------------------------------------------------|
| `0x0000-0x7FFF` | RAM, which also holds the stack                 |
| `0x8000-0xBFFF` | video RAM, one colour index per pixel           |
| `0xC000-0xC0FF` | the I/O page, with the palette mirror at `0x20` |
| `0xC100-0xDFFF` | a gap: reads as zero, writes vanish             |
| `0xE000-0xFFFF` | ROM: programs read it and cannot write it       |

A region is a vector of its full size and a `Location` carries an index below that size, so every
access is in bounds by its type.

The palette that colours the picture lies outside the address space.  A write into the mirror
window also changes the palette entry of the same number.  In the other direction only `reset`
copies, from the palette into the mirror; until then a palette entry set by the host
(`setPaletteEntry`) and its mirror byte may differ.
-/
import FantasyComputer.Word

namespace FantasyComputer

/-! ## Regions -/

/-- Number of bytes of RAM. -/
abbrev ramSize : Nat := 0x8000

/-- Number of bytes of video RAM, one for each pixel. -/
abbrev videoSize : Nat := 0x4000

/-- Number of bytes of the I/O page. -/
abbrev ioSize : Nat := 0x100

/-- Number of bytes of ROM. -/
abbrev romSize : Nat := 0x2000

/-- Number of palette entries. -/
abbrev paletteSize : Nat := 16

/-- First address of video RAM. -/
def videoBase : UInt16 := 0x8000

/-- First address of the I/O page. -/
def ioBase : UInt16 := 0xC000

/-- First address of ROM. -/
def romBase : UInt16 := 0xE000

/-- First address of the palette mirror. -/
def mirrorBase : UInt16 := 0xC020

/-- Offset of the palette mirror in the I/O page. -/
abbrev mirrorOffset : Nat := 0x20

/-- What an address leads to. -/
inductive Location where
  | ram (index : Fin ramSize)
  | video (index : Fin videoSize)
  | io (index : Fin ioSize)
  | gap
  | rom (index : Fin romSize)
  deriving DecidableEq, Repr

theorem offset_lt_videoSize {n : Nat} (h : n < 0xC000) : n - 0x8000 < videoSize := by
  unfold videoSize
  omega

theorem offset_lt_ioSize {n : Nat} (h : n < 0xC100) : n - 0xC000 < ioSize := by
  unfold ioSize
  omega

theorem offset_lt_romSize (address : UInt16) : address.toNat - 0xE000 < romSize := by
  have := address.toNat_lt
  unfold romSize
  omega

/-- The location of an address. -/
@[inline]
def locate (address : UInt16) : Location :=
  let n := address.toNat
  if h : n < videoBase.toNat then .ram ⟨n, h⟩
  else if h : n < ioBase.toNat then .video ⟨n - videoBase.toNat, offset_lt_videoSize h⟩
  else if h : n < ioBase.toNat + ioSize then .io ⟨n - ioBase.toNat, offset_lt_ioSize h⟩
  else if n < romBase.toNat then .gap
  else .rom ⟨n - romBase.toNat, offset_lt_romSize address⟩

/-- The map in numbers. -/
theorem locate_eq (address : UInt16) : locate address =
    if h : address.toNat < 0x8000 then .ram ⟨address.toNat, h⟩
    else if h : address.toNat < 0xC000 then
      .video ⟨address.toNat - 0x8000, offset_lt_videoSize h⟩
    else if h : address.toNat < 0xC100 then .io ⟨address.toNat - 0xC000, offset_lt_ioSize h⟩
    else if address.toNat < 0xE000 then .gap
    else .rom ⟨address.toNat - 0xE000, offset_lt_romSize address⟩ := rfl

/-- A region with the first bytes replaced by an image: the image is cut to the size of the region,
and the region keeps the bytes past the end of a shorter image. -/
def overlay (image : Array UInt8) {size : Nat} (region : Vector UInt8 size) : Vector UInt8 size :=
  region.mapIdx fun i old => image[i]?.getD old

@[simp]
theorem getElem_overlay (image : Array UInt8) {size : Nat} (region : Vector UInt8 size) (i : Nat)
    (h : i < size) : (overlay image region)[i] = image[i]?.getD region[i] := by
  simp [overlay]

/-- An image of the full size replaces the whole region. -/
theorem overlay_toArray {size : Nat} (image region : Vector UInt8 size) :
    overlay image.toArray region = image := by
  apply Vector.ext
  intro i h
  rw [getElem_overlay, Vector.getElem?_toArray, Vector.getElem?_eq_getElem h, Option.getD_some]

/-! ## Memory -/

/-- A palette: sixteen colours, each packed in a byte. -/
abbrev Palette := Vector UInt8 paletteSize

/-- The palette at power-on. -/
def Palette.initial : Palette :=
  #v[0x00, 0x03, 0x1C, 0x1F, 0xE0, 0xE3, 0xFC, 0xFF,
    0x49, 0x92, 0xB6, 0xDB, 0x24, 0x6D, 0xB0, 0xFF]

/-- The contents of all regions, and the palette. -/
structure Memory where
  /-- Working memory and stack. -/
  ram : Vector UInt8 ramSize
  /-- One byte for each pixel; the low four bits are its colour index. -/
  video : Vector UInt8 videoSize
  /-- The I/O page. -/
  io : Vector UInt8 ioSize
  /-- The program. -/
  rom : Vector UInt8 romSize
  /-- The colours of the picture. -/
  palette : Palette
  deriving DecidableEq

namespace Memory

/-- An I/O page that holds a palette in its mirror window and is zero elsewhere. -/
def mirroring (palette : Palette) : Vector UInt8 ioSize :=
  Vector.ofFn fun i =>
    if h : mirrorOffset ≤ i.val ∧ i.val < mirrorOffset + paletteSize then
      palette.get ⟨i.val - mirrorOffset, by omega⟩
    else 0

/-- Clears RAM, video RAM and the I/O page and copies the palette into its mirror.  ROM and the
palette stay. -/
def reset (m : Memory) : Memory :=
  { m with
    ram := Vector.replicate _ 0
    video := Vector.replicate _ 0
    io := mirroring m.palette }

/-- Memory at power-on: an empty ROM and the initial palette. -/
def initial : Memory :=
  { ram := Vector.replicate _ 0
    video := Vector.replicate _ 0
    io := mirroring Palette.initial
    rom := Vector.replicate _ 0
    palette := Palette.initial }

/-! ## Access by address -/

/-- The byte at an address. -/
def read (m : Memory) (address : UInt16) : UInt8 :=
  match locate address with
  | .ram i => m.ram[i]
  | .video i => m.video[i]
  | .io i => m.io[i]
  | .gap => 0
  | .rom i => m.rom[i]

/-- Writes the palette entry, if there is one, whose mirror is at an offset of the I/O page. -/
def setMirrored (palette : Palette) (offset : Nat) (value : UInt8) : Palette :=
  if mirrorOffset ≤ offset then palette.setIfInBounds (offset - mirrorOffset) value else palette

/-- Writes a byte at an address.  Writes into the gap and into ROM vanish. -/
def write (m : Memory) (address : UInt16) (value : UInt8) : Memory :=
  match locate address with
  | .ram i => { m with ram := m.ram.set i value }
  | .video i => { m with video := m.video.set i value }
  | .io i => { m with io := m.io.set i value, palette := setMirrored m.palette i value }
  | .gap => m
  | .rom _ => m

/-- The word at an address, low byte first.  The address of the high byte wraps. -/
def readWord (m : Memory) (address : UInt16) : UInt16 :=
  Word.ofHalves (m.read address) (m.read (address + 1))

/-- Writes a word at an address, low byte first. -/
def writeWord (m : Memory) (address value : UInt16) : Memory :=
  (m.write address (Word.low value)).write (address + 1) (Word.high value)

/-! ## Access by the host -/

/-- Sets a palette entry and not its mirror; a number past the last entry changes nothing. -/
def setPaletteEntry (m : Memory) (index : Nat) (color : UInt8) : Memory :=
  { m with palette := m.palette.setIfInBounds index color }

/-- Copies a program to the start of ROM.  Bytes past its end keep what they held. -/
def loadProgram (m : Memory) (program : Bytes) : Memory :=
  { m with rom := overlay program.toArray m.rom }

end Memory

end FantasyComputer
