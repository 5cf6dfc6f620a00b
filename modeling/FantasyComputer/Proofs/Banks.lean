/-
# FantasyComputer.Proofs.Banks — memory without sizes.

A region of `Memory` has its size in its type, so an access to it cannot go wrong.  `Banks` hold the
same bytes without that help: rows of any length, in which an access beyond the end fails.  The
address ranges, the copies and the painting of the picture are stated here once more, each with the
index that it uses.

`Banks.of` lays out a memory and a picture as banks.  There every access succeeds and does what the
memory does (`read?_of`, `write?_of`, `clear?_of`, `loadProgram?_of`, `restore?_of`, `draw?_of`): the
ranges of the address space match the sizes of the regions at both ends.
-/
import FantasyComputer.Proofs.Accesses
import FantasyComputer.Snapshot

namespace FantasyComputer

/-! ## Rows of bytes -/

/-- Rows of bytes, of whatever length. -/
structure Banks where
  ram : Array UInt8
  video : Array UInt8
  io : Array UInt8
  rom : Array UInt8
  palette : Array UInt8
  /-- The picture, four bytes for each pixel. -/
  frame : Bytes

namespace Banks

/-- Puts a byte into a row, if the index is below its length. -/
def put? (row : Array UInt8) (index : Nat) (value : UInt8) : Option (Array UInt8) :=
  if h : index < row.size then some (row.set index value) else none

/-- Copies an image into a row from a place on, if it ends within the row. -/
def copyTo? (row : Array UInt8) (start : Nat) (image : Array UInt8) : Option (Array UInt8) :=
  if start + image.size ≤ row.size then
    some (row.mapIdx fun i old => if start ≤ i then image[i - start]?.getD old else old)
  else none

/-- Copies as much of an image as fits to the start of a row. -/
def copyPrefix? (row image : Array UInt8) : Option (Array UInt8) :=
  copyTo? row 0 (image.extract 0 (min row.size image.size))

/-! ## Accesses -/

/-- The byte at an address. -/
def read? (b : Banks) (address : UInt16) : Option UInt8 :=
  let n := address.toNat
  if n < 0x8000 then b.ram[n]?
  else if n < 0xC000 then b.video[n - 0x8000]?
  else if n < 0xC100 then b.io[n - 0xC000]?
  else if n < 0xE000 then some 0
  else b.rom[n - 0xE000]?

/-- Writes a byte at an address, and a palette entry with it in the mirror window. -/
def write? (b : Banks) (address : UInt16) (value : UInt8) : Option Banks :=
  let n := address.toNat
  if n < 0x8000 then do
    let ram ← put? b.ram n value
    return { b with ram }
  else if n < 0xC000 then do
    let video ← put? b.video (n - 0x8000) value
    return { b with video }
  else if n < 0xC100 then do
    let io ← put? b.io (n - 0xC000) value
    if 0xC020 ≤ n ∧ n < 0xC030 then
      let palette ← put? b.palette (n - 0xC020) value
      return { b with io, palette }
    else return { b with io }
  else some b

/-- Clears RAM, video RAM and the I/O page and copies the palette into its mirror. -/
def clear? (b : Banks) : Option Banks := do
  let io ← copyTo? (Array.replicate b.io.size 0) mirrorOffset b.palette
  return { b with ram := Array.replicate b.ram.size 0, video := Array.replicate b.video.size 0, io }

/-- Copies a program to the start of ROM. -/
def loadProgram? (b : Banks) (program : Bytes) : Option Banks := do
  let rom ← copyTo? b.rom 0 program.toArray
  return { b with rom }

/-- Puts the regions and the palette of a snapshot back. -/
def restore? (b : Banks) (s : Snapshot) : Option Banks := do
  let ram ← copyPrefix? b.ram s.ram
  let video ← copyPrefix? b.video s.video
  let io ← copyPrefix? b.io s.io
  return { b with ram, video, io, palette := s.palette.toArray }

/-- Puts ROM back. -/
def restoreRom? (b : Banks) (image : Array UInt8) : Option Banks := do
  let rom ← copyPrefix? b.rom image
  return { b with rom }

/-- Paints pixels in the palette colours of bytes of video RAM, as far as both reach. -/
def paint? (palette : Array UInt8) : Bytes → Bytes → Option Bytes
  | _ :: _ :: _ :: _ :: frame, index :: video => do
    let color ← palette[index.toNat % paletteSize]?
    let rest ← paint? palette frame video
    return (Color.expand color).bytes ++ rest
  | frame, _ => some frame

/-- Paints the picture. -/
def draw? (b : Banks) : Option Banks := do
  let frame ← paint? b.palette b.frame b.video.toList
  return { b with frame }

/-- The ways in which banks are accessed. -/
inductive Access where
  | read (address : UInt16)
  | write (address : UInt16) (value : UInt8)
  | clear
  | loadProgram (program : Bytes)
  | restore (s : Snapshot)
  | restoreRom (image : Array UInt8)
  /-- Sets a palette entry; a number past the last one is no entry. -/
  | setEntry (index : Nat) (color : UInt8)
  | draw

/-- Carries out an access, if it stays within the rows. -/
def access? (b : Banks) : Access → Option Banks
  | .read address => (b.read? address).map fun _ => b
  | .write address value => b.write? address value
  | .clear => b.clear?
  | .loadProgram program => b.loadProgram? program
  | .restore s => b.restore? s
  | .restoreRom image => b.restoreRom? image
  | .setEntry index color => some { b with palette := b.palette.setIfInBounds index color }
  | .draw => b.draw?

/-- Carries out the accesses of a row, if all of them stay within the rows. -/
def accessAll? (b : Banks) (accesses : List Access) : Option Banks :=
  accesses.foldlM access? b

theorem accessAll?_cons (b : Banks) (a : Access) (accesses : List Access) :
    b.accessAll? (a :: accesses) = (b.access? a).bind (·.accessAll? accesses) := rfl

theorem accessAll?_append (b : Banks) (first second : List Access) :
    b.accessAll? (first ++ second) = (b.accessAll? first).bind (·.accessAll? second) := by
  rw [accessAll?, List.foldlM_append]
  rfl

/-! ## A memory and a picture as banks -/

/-- The banks that hold a memory and a picture. -/
def of (memory : Memory) (screen : Screen) : Banks :=
  { ram := memory.ram.toArray
    video := memory.video.toArray
    io := memory.io.toArray
    rom := memory.rom.toArray
    palette := memory.palette.toArray
    frame := screen.bytes }

theorem put?_toArray {size : Nat} (row : Vector UInt8 size) {index : Nat} (value : UInt8)
    (h : index < size) : put? row.toArray index value = some (row.set index value).toArray := by
  rw [put?, dif_pos (by rwa [Vector.size_toArray])]
  rfl

/-- A program that fits is copied as it is laid over ROM. -/
theorem copyTo?_toArray {size : Nat} (row : Vector UInt8 size) {image : Array UInt8}
    (h : image.size ≤ size) : copyTo? row.toArray 0 image = some (overlay image row).toArray := by
  rw [copyTo?, if_pos (by rwa [Nat.zero_add, Vector.size_toArray])]
  rfl

theorem copyPrefix?_toArray {size : Nat} (row : Vector UInt8 size) (image : Array UInt8) :
    copyPrefix? row.toArray image = some (overlay image row).toArray := by
  have hfits : (image.extract 0 (min row.toArray.size image.size)).size ≤ size := by
    rw [Array.size_extract, Vector.size_toArray]
    omega
  rw [copyPrefix?, copyTo?_toArray row hfits]
  congr 2
  apply Vector.ext
  intro i hi
  rw [getElem_overlay, getElem_overlay]
  by_cases himage : i < image.size
  · rw [Array.getElem?_extract_of_lt (by simp; omega)]
    simp [himage]
  · rw [Array.getElem?_eq_none (by simp; omega), Array.getElem?_eq_none (by omega)]

theorem read?_of (memory : Memory) (screen : Screen) (address : UInt16) :
    (of memory screen).read? address = some (memory.read address) := by
  have hlt := address.toNat_lt
  unfold read? Memory.read of
  rw [locate_eq]
  simp only
  split_ifs with hram hvideo hio hgap
  all_goals simp

theorem write?_of (memory : Memory) (screen : Screen) (address : UInt16) (value : UInt8) :
    (of memory screen).write? address value = some (of (memory.write address value) screen) := by
  unfold write? Memory.write of
  rw [locate_eq]
  simp only
  split_ifs with hram hvideo hio hmirror hgap
  · rw [put?_toArray memory.ram value hram]
    rfl
  · have hindex : address.toNat - 0x8000 < 0x4000 := by omega
    rw [put?_toArray memory.video value hindex]
    rfl
  · -- the window is as long as the palette
    have hentry : address.toNat - 0xC000 - mirrorOffset < 16 := by
      unfold mirrorOffset
      omega
    have hbelow : mirrorOffset ≤ address.toNat - 0xC000 := by
      unfold mirrorOffset
      omega
    have hset := Memory.setMirrored_of_window memory.palette value hbelow hentry
    have hsame : address.toNat - 0xC020 = address.toNat - 0xC000 - mirrorOffset :=
      Nat.sub_add_eq address.toNat 0xC000 mirrorOffset
    have hindex : address.toNat - 0xC000 < 0x100 :=
      Nat.sub_lt_left_of_lt_add (not_lt.mp hvideo) hio
    rw [hsame, put?_toArray memory.io value hindex, put?_toArray memory.palette value hentry]
    simp only [hset]
    rfl
  · have houtside : ¬(mirrorOffset ≤ address.toNat - 0xC000
        ∧ address.toNat - 0xC000 < mirrorOffset + paletteSize) := by
      unfold mirrorOffset paletteSize
      omega
    have hset := Memory.setMirrored_of_not_window memory.palette value houtside
    have hindex : address.toNat - 0xC000 < 0x100 :=
      Nat.sub_lt_left_of_lt_add (not_lt.mp hvideo) hio
    rw [put?_toArray memory.io value hindex]
    simp only [hset]
    rfl
  · rfl
  · rfl

/-- The palette fits into the I/O page behind the offset of its mirror. -/
theorem copyTo?_zeros (palette : Palette) :
    copyTo? (Array.replicate ioSize 0) mirrorOffset palette.toArray
      = some (Memory.mirroring palette).toArray := by
  have hfits : mirrorOffset + palette.toArray.size ≤ (Array.replicate ioSize (0 : UInt8)).size := by
    rw [Vector.size_toArray, Array.size_replicate]
    decide
  rw [copyTo?, if_pos hfits]
  refine congrArg some (Array.ext ?_ ?_)
  · simp
  · intro i hi hi'
    simp only [Array.getElem_mapIdx, Array.getElem_replicate, Memory.mirroring,
      Vector.getElem_toArray, Vector.getElem_ofFn, Vector.getElem?_toArray]
    -- a byte of the page is copied from the palette or is one of the zeros around the window
    by_cases hwindow : mirrorOffset ≤ i ∧ i < mirrorOffset + paletteSize
    · have hentry : i - mirrorOffset < paletteSize := by omega
      rw [if_pos hwindow.1, dif_pos hwindow, Vector.getElem?_eq_getElem hentry]
      rfl
    · rw [dif_neg hwindow]
      split
      · rw [Vector.getElem?_eq_none (by omega)]
        rfl
      · rfl

theorem clear?_of (memory : Memory) (screen : Screen) :
    (of memory screen).clear? = some (of memory.reset screen) := by
  have hmirror : copyTo? (Array.replicate (of memory screen).io.size 0) mirrorOffset
      (of memory screen).palette = some (Memory.mirroring memory.palette).toArray := by
    rw [← copyTo?_zeros]
    unfold of
    rw [Vector.size_toArray]
  rw [clear?, hmirror]
  unfold of Memory.reset
  simp

theorem loadProgram?_of (memory : Memory) (screen : Screen) {program : Bytes}
    (h : program.length ≤ romSize) :
    (of memory screen).loadProgram? program = some (of (memory.loadProgram program) screen) := by
  have hfits : program.toArray.size ≤ romSize := by simpa using h
  have hcopy := copyTo?_toArray memory.rom hfits
  rw [loadProgram?]
  unfold of
  rw [hcopy]
  rfl

theorem restore?_of (memory : Memory) (screen : Screen) (s : Snapshot) :
    (of memory screen).restore? s
      = some (of { memory with
          ram := overlay s.ram memory.ram
          video := overlay s.video memory.video
          io := overlay s.io memory.io
          palette := s.palette } screen) := by
  unfold restore? of
  simp only [copyPrefix?_toArray]
  rfl

theorem restoreRom?_of (memory : Memory) (screen : Screen) (image : Array UInt8) :
    (of memory screen).restoreRom? image
      = some (of { memory with rom := overlay image memory.rom } screen) := by
  unfold restoreRom? of
  simp only [copyPrefix?_toArray]
  rfl

/-! ## The picture -/

/-- The colour of a byte of video RAM. -/
def shade (palette : Palette) (index : UInt8) : Rgba :=
  (Screen.colors palette).get (Fin.ofNat paletteSize index.toNat)

/-- Pixels and bytes of video RAM go together one by one. -/
theorem paint?_flatMap (palette : Palette) (pixels : List Rgba) (video : Bytes) :
    paint? palette.toArray (pixels.flatMap Rgba.bytes) video
      = some ((pixels.mapIdx fun i old =>
          match video[i]? with
          | some index => shade palette index
          | none => old).flatMap Rgba.bytes) := by
  induction pixels generalizing video with
  | nil => cases video <;> rfl
  | cons pixel pixels ih =>
    cases video with
    | nil =>
      -- no byte of video RAM is left, so the other pixels stay
      have hsame : (pixel :: pixels).mapIdx (fun i old =>
          match ([] : Bytes)[i]? with
          | some index => shade palette index
          | none => old) = pixel :: pixels := by
        apply List.ext_getElem
        · exact List.length_mapIdx
        · intro i hi hi'
          rw [List.getElem_mapIdx, List.getElem?_nil]
      rw [hsame]
      rfl
    | cons index video =>
      have hcolor : palette.toArray[index.toNat % paletteSize]?
          = some (palette.get (Fin.ofNat paletteSize index.toNat)) := by
        rw [Vector.getElem?_toArray]
        exact Vector.getElem?_eq_getElem (Fin.ofNat paletteSize index.toNat).isLt
      show (do
        let color ← palette.toArray[index.toNat % paletteSize]?
        let rest ← paint? palette.toArray (pixels.flatMap Rgba.bytes) video
        return (Color.expand color).bytes ++ rest) = _
      rw [hcolor, ih, List.mapIdx_cons]
      have hshade : shade palette index
          = Color.expand (palette.get (Fin.ofNat paletteSize index.toNat)) :=
        Vector.getElem_map _ (Fin.ofNat paletteSize index.toNat).isLt
      simp [hshade]

/-- The bytes of a picture are painted as its pixels are. -/
theorem paint?_bytes (screen : Screen) (video : Array UInt8) (palette : Palette) :
    paint? palette.toArray screen.bytes video.toList
      = some (screen.render video palette).bytes := by
  rw [Screen.bytes, paint?_flatMap]
  simp only [Screen.bytes, Screen.render, Vector.toList_mapIdx, Array.getElem?_toList]
  rfl

/-- **The picture is painted in bounds.**  Every byte of video RAM has its pixel and its colour. -/
theorem draw?_of (memory : Memory) (screen : Screen) :
    (of memory screen).draw?
      = some (of memory (screen.render memory.video.toArray memory.palette)) := by
  unfold draw? of
  simp only [paint?_bytes]
  rfl

end Banks

end FantasyComputer
