/-
# FantasyComputer.Proofs.PngReading — a picture's file is read back as the picture.

A file nests the picture three times: chunks around compressed data, the compression around rows,
and the rows around colours.  The reader undoes them in this order, and each has its lemma:

* `Chunk.take?_bytes` and `chunksOf?_flatMap` — chunks that keep the widths of their fields are
  taken apart as they were put together, whatever follows the first;
* the law of the codec, which expands what it has compressed;
* `unfilter?_flatMap` — rows behind a zero each are found again, with three bytes for each pixel.

What stands in the rows is said by place: `rows_eq` cuts the bytes at the multiples of the length,
and `pictureOf` names the three bytes of every pixel.

`decodes_of_expand` says all this of any data that expands to the rows; `decodesToPicture` adds what
`encode?` writes with a lossless codec.
-/
import FantasyComputer.Picture.Png
import FantasyComputer.Proofs.Codecs
import FantasyComputer.Proofs.PositionalNumbers

namespace FantasyComputer.Png

/-! ## Chunks -/

namespace Chunk

theorem number_bigEndian {n : Nat} (h : n < 2 ^ 32) : number (bigEndian 4 n) = n := by
  rw [number, bigEndian, List.reverse_reverse]
  exact ofLittleEndian_littleEndian h

/-- A chunk whose parts have the widths that a file gives them. -/
structure WellFormed (c : Chunk) : Prop where
  type : c.type.length = 4
  data : c.data.length < 2 ^ 32
  check : c.check < 2 ^ 32

theorem wellFormed_make {type : String} {data : Bytes} (htype : (letters type).length = 4)
    (hdata : data.length < 2 ^ 32) : (make type data).WellFormed where
  type := htype
  data := hdata
  check := UInt32.toNat_lt _

theorem check_make (type : String) (data : Bytes) :
    (make type data).check = (crc32 ((make type data).type ++ (make type data).data)).toNat :=
  rfl

theorem number_take_bytes {c : Chunk} (hc : c.WellFormed) (rest : Bytes) :
    number ((c.bytes ++ rest).take 4) = c.data.length := by
  rw [bytes, List.append_assoc, List.append_assoc, List.append_assoc,
    List.take_left' (length_bigEndian 4 _), number_bigEndian hc.data]

/-- The chunk that a byte string starts with is taken, and what follows it is left. -/
theorem take?_bytes {c : Chunk} (hc : c.WellFormed) (rest : Bytes) :
    take? (c.bytes ++ rest) = some (c, rest) := by
  have hlength := length_bigEndian 4 c.data.length
  have hcheck := length_bigEndian 4 c.check
  have hfile : c.bytes ++ rest = (bigEndian 4 c.data.length ++ c.type)
      ++ (c.data ++ (bigEndian 4 c.check ++ rest)) := by
    simp only [bytes, List.append_assoc]
  have htype : ((c.bytes ++ rest).drop 4).take 4 = c.type := by
    rw [hfile, List.append_assoc, List.drop_left' hlength, List.take_left' hc.type]
  have hbody : (c.bytes ++ rest).drop 8 = c.data ++ (bigEndian 4 c.check ++ rest) := by
    rw [hfile]
    apply List.drop_left'
    rw [List.length_append, hlength, hc.type]
  have hrest : (c.data ++ (bigEndian 4 c.check ++ rest)).drop (c.data.length + 4) = rest := by
    rw [← List.drop_drop, List.drop_left, List.drop_left' hcheck]
  have hlong : ¬ (c.bytes ++ rest).length < c.data.length + 12 := by
    rw [hfile]
    simp only [List.length_append, hlength, hcheck, hc.type]
    omega
  rw [take?, number_take_bytes hc, if_neg hlong, htype, hbody]
  simp only [List.take_left, List.drop_left, List.take_left' hcheck, hrest,
    number_bigEndian hc.check]

end Chunk

/-- **Chunks are taken apart as they were put together.** -/
theorem chunksOf?_flatMap {parts : List Chunk} (h : ∀ c ∈ parts, c.WellFormed) :
    chunksOf? (parts.flatMap Chunk.bytes) = some parts := by
  induction parts with
  | nil =>
    rw [chunksOf?]
    rfl
  | cons c parts ih =>
    obtain ⟨hc, hparts⟩ := List.forall_mem_cons.1 h
    have htake := Chunk.take?_bytes hc (parts.flatMap Chunk.bytes)
    have hne : c.bytes ++ parts.flatMap Chunk.bytes ≠ [] := by
      intro hnil
      have hshort := Chunk.length_take? htake
      rw [hnil] at hshort
      exact Nat.not_lt_zero _ hshort
    rw [List.flatMap_cons, chunksOf?, if_neg hne]
    split
    · next hnone =>
      rw [htake] at hnone
      cases hnone
    · next hsome =>
      rw [htake] at hsome
      cases hsome
      rw [ih hparts]
      rfl

/-- A signature and chunks as a file. -/
def fileOf (parts : List Chunk) : Bytes :=
  signature ++ parts.flatMap Chunk.bytes

theorem chunks?_fileOf {parts : List Chunk} (h : ∀ c ∈ parts, c.WellFormed) :
    chunks? (fileOf parts) = some parts := by
  rw [chunks?, fileOf, List.take_left' (show signature.length = 8 from rfl), if_pos rfl,
    List.drop_left' (show signature.length = 8 from rfl), chunksOf?_flatMap h]

/-- No two ways to put a file together from chunks. -/
theorem fileOf_injective {parts others : List Chunk} (hparts : ∀ c ∈ parts, c.WellFormed)
    (hothers : ∀ c ∈ others, c.WellFormed) (h : fileOf others = fileOf parts) :
    others = parts := by
  have hread := chunks?_fileOf hothers
  rw [h, chunks?_fileOf hparts] at hread
  exact (Option.some.inj hread).symm

/-! ## Rows -/

/-- The bytes are cut at the multiples of the length, as often as a whole row fits. -/
theorem rows_eq {length : Nat} (hlength : 0 < length) (bytes : Bytes) (count : Nat) :
    rows length bytes count = (List.range (min count (bytes.length / length))).map
      fun y => (bytes.drop (length * y)).take length := by
  induction count generalizing bytes with
  | zero => simp [rows]
  | succ count ih =>
    have hhead : (bytes.take length).length < length ↔ bytes.length < length := by
      rw [List.length_take]
      omega
    rw [rows]
    split
    · next hshort =>
      rw [Nat.div_eq_of_lt (hhead.1 hshort)]
      simp
    · next hwhole =>
      have hfits : length ≤ bytes.length := Nat.le_of_not_lt (mt hhead.2 hwhole)
      have hcount : min (count + 1) (bytes.length / length)
          = min count ((bytes.drop length).length / length) + 1 := by
        rw [List.length_drop, Nat.div_eq_sub_div hlength hfits]
        omega
      rw [ih, hcount, List.range_succ_eq_map, List.map_cons, List.map_map, Nat.mul_zero,
        List.drop_zero]
      congr 1
      apply List.map_congr_left
      intro y _
      rw [Function.comp_apply, List.drop_drop, Nat.succ_eq_add_one, Nat.mul_add_one, Nat.add_comm]

/-! ## Pixels -/

/-- Red, green and blue of a pixel. -/
structure Pixel where
  red : UInt8
  green : UInt8
  blue : UInt8
  deriving DecidableEq, Repr

/-- The pixels that bytes spell out, three for each. -/
def pixels : Bytes → List Pixel
  | red :: green :: blue :: rest => ⟨red, green, blue⟩ :: pixels rest
  | _ => []

/-- The pixel with a number in a buffer of four bytes for each. -/
def pixelAt (rgba : Bytes) (i : Nat) : Pixel :=
  ⟨rgba.getD (4 * i) 0, rgba.getD (4 * i + 1) 0, rgba.getD (4 * i + 2) 0⟩

theorem exists_cons_of_four_le {l : Bytes} (h : 4 ≤ l.length) :
    ∃ red green blue opacity rest, l = red :: green :: blue :: opacity :: rest := by
  rcases l with _ | ⟨red, _ | ⟨green, _ | ⟨blue, _ | ⟨opacity, rest⟩⟩⟩⟩
  case cons.cons.cons.cons => exact ⟨red, green, blue, opacity, rest, rfl⟩
  all_goals
    simp only [List.length_nil, List.length_cons] at h
    omega

/-- The first pixel of a row, and a row with one pixel less. -/
theorem exists_cons_of_length {row : Bytes} {n : Nat} (h : row.length = 4 * (n + 1)) :
    ∃ red green blue opacity rest,
      row = red :: green :: blue :: opacity :: rest ∧ rest.length = 4 * n := by
  have hfour : 4 ≤ row.length := by omega
  obtain ⟨red, green, blue, opacity, rest, rfl⟩ := exists_cons_of_four_le hfour
  simp only [List.length_cons] at h
  exact ⟨red, green, blue, opacity, rest, rfl, by omega⟩

theorem length_colors {n : Nat} {row : Bytes} (h : row.length = 4 * n) :
    (colors row).length = 3 * n := by
  induction n generalizing row with
  | zero =>
    rw [List.eq_nil_of_length_eq_zero h]
    rfl
  | succ n ih =>
    obtain ⟨red, green, blue, opacity, rest, rfl, hrest⟩ := exists_cons_of_length h
    have hcolors := ih hrest
    simp only [colors, List.length_cons]
    omega

/-- The colours of a row spell out its pixels. -/
theorem pixels_colors {n : Nat} {row : Bytes} (h : row.length = 4 * n) :
    pixels (colors row) = (List.range n).map (pixelAt row) := by
  induction n generalizing row with
  | zero =>
    rw [List.eq_nil_of_length_eq_zero h]
    rfl
  | succ n ih =>
    obtain ⟨red, green, blue, opacity, rest, rfl, hrest⟩ := exists_cons_of_length h
    rw [colors, pixels, ih hrest, List.range_succ_eq_map, List.map_cons, List.map_map]
    rfl

/-- A pixel of a row is a pixel of the buffer. -/
theorem pixelAt_row {width x : Nat} (rgba : Bytes) (y : Nat) (hx : x < width) :
    pixelAt ((rgba.drop (4 * width * y)).take (4 * width)) x = pixelAt rgba (y * width + x) := by
  have hplace : 4 * width * y + 4 * x = 4 * (y * width + x) := by ring
  have hbyte : ∀ k < 4, ((rgba.drop (4 * width * y)).take (4 * width)).getD (4 * x + k) 0
      = rgba.getD (4 * (y * width + x) + k) 0 := by
    intro k hk
    rw [List.getD_eq_getElem?_getD, List.getD_eq_getElem?_getD,
      List.getElem?_take_of_lt (by omega), List.getElem?_drop, ← hplace, Nat.add_assoc]
  simp only [pixelAt, Pixel.mk.injEq]
  exact ⟨hbyte 0 (by decide), hbyte 1 (by decide), hbyte 2 (by decide)⟩

/-! ## The reader -/

/-- A picture: its size as declared, and its rows. -/
structure Picture where
  width : Nat
  height : Nat
  rows : List (List Pixel)
  deriving DecidableEq, Repr

/-- The pixel in a column and a row, if there is one. -/
def Picture.pixel? (p : Picture) (x y : Nat) : Option Pixel :=
  p.rows[y]?.bind (·[x]?)

/-- Reads rows of pixels until nothing is left.  Before each stands a zero: it is stored as is. -/
def unfilter? (width : Nat) (raw : Bytes) : Option (List (List Pixel)) :=
  match raw with
  | [] => some []
  | filter :: rest =>
    if filter = 0 ∧ 3 * width ≤ rest.length then
      (unfilter? width (rest.drop (3 * width))).map (pixels (rest.take (3 * width)) :: ·)
    else none
termination_by raw.length
decreasing_by
  rw [List.length_drop, List.length_cons]
  omega

/-- Width and height from a header for rows of red, green and blue, a byte each. -/
def size? (header : Bytes) : Option (Nat × Nat) :=
  if header.length = 13 ∧ header.drop 8 = [8, 2, 0, 0, 0] then
    some (Chunk.number (header.take 4), Chunk.number ((header.drop 4).take 4))
  else none

/-- Reads a file that has one chunk for its header, one for its rows and one for its end. -/
def read? (codec : Codec) (file : Bytes) : Option Picture :=
  match chunks? file with
  | some [head, body, tail] =>
    if head = Chunk.make "IHDR" head.data ∧ body = Chunk.make "IDAT" body.data
        ∧ tail = Chunk.make "IEND" [] then
      (size? head.data).bind fun (width, height) =>
        (codec.expand body.data).toOption.bind fun raw =>
          (unfilter? width raw).map (Picture.mk width height)
    else none
  | _ => none

/-- Rows behind a zero each are found again. -/
theorem unfilter?_flatMap {width : Nat} {lines : List Bytes}
    (h : ∀ row ∈ lines, row.length = 4 * width) :
    unfilter? width (lines.flatMap fun row => 0 :: colors row)
      = some (lines.map fun row => (List.range width).map (pixelAt row)) := by
  induction lines with
  | nil =>
    rw [List.flatMap_nil, unfilter?]
    rfl
  | cons row lines ih =>
    obtain ⟨hrow, hlines⟩ := List.forall_mem_cons.1 h
    have hcolors := length_colors hrow
    rw [List.flatMap_cons, List.cons_append, unfilter?, List.drop_left' hcolors,
      List.take_left' hcolors, if_pos, ih hlines, pixels_colors hrow]
    · rfl
    · rw [List.length_append, hcolors]
      exact ⟨rfl, Nat.le_add_right _ _⟩

/-- The picture in a buffer of four bytes for each pixel: as many whole rows as it has, and no more
than its height. -/
def pictureOf (width height : UInt32) (rgba : Bytes) : Picture where
  width := width.toNat
  height := height.toNat
  rows := (List.range (min height.toNat (rgba.length / (4 * width.toNat)))).map fun y =>
    (List.range width.toNat).map fun x => pixelAt rgba (y * width.toNat + x)

section PictureOf

variable {width height : UInt32} {rgba : Bytes}

theorem toNat_pos (hwidth : width ≠ 0) : 0 < width.toNat :=
  Nat.pos_of_ne_zero fun hzero => hwidth (UInt32.toNat_inj.1 hzero)

/-- A whole row lies within the buffer. -/
theorem row_end_le {length y : Nat} (hy : y < rgba.length / length) :
    length * y + length ≤ rgba.length := by
  have hend := Nat.mul_le_of_le_div length (y + 1) rgba.length hy
  rwa [Nat.succ_mul, Nat.mul_comm y] at hend

theorem unfilter?_contents (hwidth : width ≠ 0) (height : UInt32) (rgba : Bytes) :
    unfilter? width.toNat (contents width height rgba)
      = some (pictureOf width height rgba).rows := by
  have hpos : 0 < 4 * width.toNat := Nat.mul_pos (by decide) (toNat_pos hwidth)
  rw [contents, rows_eq hpos, unfilter?_flatMap]
  · simp only [List.map_map, pictureOf]
    congr 1
    apply List.map_congr_left
    intro y _
    apply List.map_congr_left
    intro x hx
    exact pixelAt_row rgba y (List.mem_range.1 hx)
  · intro row hrow
    obtain ⟨y, hy, rfl⟩ := List.mem_map.1 hrow
    have hend := row_end_le (lt_of_lt_of_le (List.mem_range.1 hy) (min_le_right _ _))
    rw [List.length_take, List.length_drop]
    omega

theorem length_rows_pictureOf (width height : UInt32) (rgba : Bytes) :
    (pictureOf width height rgba).rows.length
      = min height.toNat (rgba.length / (4 * width.toNat)) := by
  simp only [pictureOf, List.length_map, List.length_range]

theorem pixel?_pictureOf {x y : Nat} (hx : x < width.toNat)
    (hy : y < (pictureOf width height rgba).rows.length) :
    (pictureOf width height rgba).pixel? x y
      = some (pixelAt rgba (y * width.toNat + x)) := by
  rw [length_rows_pictureOf] at hy
  simp only [Picture.pixel?, pictureOf, List.getElem?_map, List.getElem?_range hy, Option.map_some,
    Option.bind_some, List.getElem?_range hx]

theorem exists_bytes_pixelAt {i : Nat} (h : 4 * i + 4 ≤ rgba.length) :
    ∃ red green blue opacity, (rgba.drop (4 * i)).take 4 = [red, green, blue, opacity]
      ∧ pixelAt rgba i = ⟨red, green, blue⟩ := by
  have hfour : 4 ≤ (rgba.drop (4 * i)).length := by
    rw [List.length_drop]
    omega
  obtain ⟨red, green, blue, opacity, rest, hrest⟩ := exists_cons_of_four_le hfour
  have hbyte : ∀ k, rgba.getD (4 * i + k) 0
      = (red :: green :: blue :: opacity :: rest).getD k 0 := by
    intro k
    rw [← hrest, List.getD_eq_getElem?_getD, List.getD_eq_getElem?_getD, List.getElem?_drop]
  refine ⟨red, green, blue, opacity, by rw [hrest]; rfl, ?_⟩
  simp only [pixelAt, Pixel.mk.injEq]
  exact ⟨hbyte 0, hbyte 1, hbyte 2⟩

/-- Each pixel has four bytes of its own in the buffer. -/
theorem exists_pixel {x y : Nat} (hx : x < width.toNat)
    (hy : y < (pictureOf width height rgba).rows.length) :
    ∃ red green blue opacity,
      (rgba.drop (4 * (y * width.toNat + x))).take 4 = [red, green, blue, opacity]
        ∧ (pictureOf width height rgba).pixel? x y = some ⟨red, green, blue⟩ := by
  have hroom : 4 * (y * width.toNat + x) + 4 ≤ rgba.length := by
    have hrow := hy
    rw [length_rows_pictureOf] at hrow
    have hend := row_end_le (lt_of_lt_of_le hrow (min_le_right _ _))
    rw [Nat.mul_assoc, Nat.mul_comm width.toNat y] at hend
    omega
  obtain ⟨red, green, blue, opacity, hbytes, hpixel⟩ := exists_bytes_pixelAt hroom
  refine ⟨red, green, blue, opacity, hbytes, ?_⟩
  rw [pixel?_pictureOf hx hy, hpixel]

end PictureOf

/-! ## Whole files -/

section Files

variable {width height : UInt32} {rgba data : Bytes} {codec : Codec}

/-- The chunks of a picture whose rows are compressed to some data. -/
def parts (width height : UInt32) (data : Bytes) : List Chunk :=
  [Chunk.make "IHDR" (header width height), Chunk.make "IDAT" data, Chunk.make "IEND" []]

/-- The rows of a picture, compressed. -/
def packed (codec : Codec) (width height : UInt32) (rgba : Bytes) : Bytes :=
  codec.compress (contents width height rgba)

theorem encode_eq (codec : Codec) (width height : UInt32) (rgba : Bytes) :
    encode width height rgba codec
      = fileOf (parts width height (packed codec width height rgba)) := by
  simp only [encode, fileOf, parts, packed, List.flatMap_cons, List.flatMap_nil, List.append_nil,
    List.append_assoc]

theorem length_header (width height : UInt32) : (header width height).length = 13 := by
  simp only [header, List.length_append, length_bigEndian]
  rfl

theorem size?_header (width height : UInt32) :
    size? (header width height) = some (width.toNat, height.toNat) := by
  have hwidth := length_bigEndian 4 width.toNat
  have hheight := length_bigEndian 4 height.toNat
  have hchoices : (header width height).drop 8 = [8, 2, 0, 0, 0] := by
    apply List.drop_left'
    rw [List.length_append, hwidth, hheight]
  rw [size?, if_pos ⟨length_header width height, hchoices⟩, header, List.append_assoc,
    List.take_left' hwidth, List.drop_left' hwidth, List.take_left' hheight,
    Chunk.number_bigEndian (UInt32.toNat_lt width), Chunk.number_bigEndian (UInt32.toNat_lt height)]

theorem wellFormed_parts (hshort : data.length < 2 ^ 32) :
    ∀ c ∈ parts width height data, c.WellFormed := by
  simp only [parts, List.forall_mem_cons]
  refine ⟨Chunk.wellFormed_make rfl ?_, Chunk.wellFormed_make rfl hshort,
    Chunk.wellFormed_make rfl (Nat.two_pow_pos 32), fun c hc => absurd hc List.not_mem_nil⟩
  rw [length_header]
  norm_num

/-- The check of each chunk is that of its type and data. -/
theorem check_parts (width height : UInt32) (data : Bytes) :
    ∀ c ∈ parts width height data, c.check = (crc32 (c.type ++ c.data)).toNat := by
  simp only [parts, List.forall_mem_cons]
  exact ⟨Chunk.check_make _ _, Chunk.check_make _ _, Chunk.check_make _ _,
    fun c hc => absurd hc List.not_mem_nil⟩

theorem read?_fileOf (hwidth : width ≠ 0)
    (hdata : codec.expand data = .ok (contents width height rgba))
    (hshort : data.length < 2 ^ 32) :
    read? codec (fileOf (parts width height data)) = some (pictureOf width height rgba) := by
  have hraw : (codec.expand data).toOption = some (contents width height rgba) := by
    rw [hdata]
    rfl
  rw [read?, chunks?_fileOf (wellFormed_parts hshort)]
  show (if _ ∧ _ ∧ _ then
      (size? (header width height)).bind fun size =>
        (codec.expand data).toOption.bind fun raw =>
          (unfilter? size.1 raw).map (Picture.mk size.1 size.2)
    else none) = _
  rw [if_pos ⟨rfl, rfl, rfl⟩, size?_header, hraw, Option.bind_some, Option.bind_some,
    unfilter?_contents hwidth]
  rfl

/-- What a reader finds in a picture's file whose rows are compressed to some data. -/
structure Decodes (codec : Codec) (width height : UInt32) (rgba data file : Bytes) : Prop where
  /-- The file is the signature, the header, the data and the empty end. -/
  layout : file = fileOf (parts width height data)
  /-- It comes apart into these chunks, with nothing left over. -/
  split : chunks? file = some (parts width height data)
  /-- It comes apart in no other way. -/
  unique : ∀ others, (∀ c ∈ others, c.WellFormed) → file = fileOf others →
    others = parts width height data
  /-- Every chunk starts with its length and ends with the check of its type and data. -/
  framed : ∀ c ∈ parts width height data,
    Chunk.number (c.bytes.take 4) = c.data.length
      ∧ c.bytes.drop (c.data.length + 8) = bigEndian 4 (crc32 (c.type ++ c.data)).toNat
  /-- The header has thirteen bytes and gives width and height. -/
  header : (header width height).length = 13
    ∧ size? (header width height) = some (width.toNat, height.toNat)
  /-- The data expands to the rows, each behind a zero. -/
  inflated : codec.expand data = .ok (contents width height rgba)
  /-- The picture is read. -/
  picture : read? codec file = some (pictureOf width height rgba)
  /-- It has as many rows as the buffer has whole ones, but no more than its height. -/
  count : (pictureOf width height rgba).rows.length
    = min height.toNat (rgba.length / (4 * width.toNat))
  /-- Each pixel of these rows is the first three of its four bytes. -/
  pixel : ∀ x < width.toNat, ∀ y < (pictureOf width height rgba).rows.length,
    ∃ red green blue opacity,
      (rgba.drop (4 * (y * width.toNat + x))).take 4 = [red, green, blue, opacity]
        ∧ (pictureOf width height rgba).pixel? x y = some ⟨red, green, blue⟩
  /-- No row has another pixel. -/
  row : ∀ row ∈ (pictureOf width height rgba).rows, row.length = width.toNat
  /-- A buffer of the right length has all rows. -/
  whole : rgba.length = width.toNat * height.toNat * 4 →
    (pictureOf width height rgba).rows.length = height.toNat

/-- **Any data that expands to the rows** makes a file that is read back as the picture. -/
theorem decodes_of_expand (hwidth : width ≠ 0)
    (hdata : codec.expand data = .ok (contents width height rgba))
    (hshort : data.length < 2 ^ 32) :
    Decodes codec width height rgba data (fileOf (parts width height data)) where
  layout := rfl
  split := chunks?_fileOf (wellFormed_parts hshort)
  unique others hothers h := fileOf_injective (wellFormed_parts hshort) hothers h.symm
  framed c hc := by
    have hwell := wellFormed_parts hshort c hc
    refine ⟨?_, ?_⟩
    · rw [← Chunk.number_take_bytes hwell [], List.append_nil]
    · rw [← check_parts width height data c hc, Chunk.bytes]
      apply List.drop_left'
      simp only [List.length_append, length_bigEndian, hwell.type]
      omega
  header := ⟨length_header width height, size?_header width height⟩
  inflated := hdata
  picture := read?_fileOf hwidth hdata hshort
  count := length_rows_pictureOf width height rgba
  pixel x hx y hy := exists_pixel hx hy
  row row hrow := by
    obtain ⟨y, -, rfl⟩ := List.mem_map.1 hrow
    rw [List.length_map, List.length_range]
  whole h := by
    have hpos : 0 < width.toNat * 4 := Nat.mul_pos (toNat_pos hwidth) (by decide)
    rw [length_rows_pictureOf, h, Nat.mul_right_comm, Nat.mul_comm 4,
      Nat.mul_div_cancel_left _ hpos, min_self]

theorem le_of_mem_distances : ∀ d ∈ distances width, d ≤ 32768 :=
  fun _ hd => of_decide_eq_true (List.mem_filter.1 hd).2

/-- The codec that is used when nothing else is said. -/
def standardCodec (width : UInt32) : LosslessCodec :=
  .zlib (distances width) le_of_mem_distances

/-- What is known of a picture's file. -/
structure DecodesToPicture (codec : Codec) (width height : UInt32) (rgba : Bytes) : Prop where
  /-- It is written, and read back as the picture. -/
  written : (packed codec width height rgba).length < 2 ^ 32 →
    ∃ file, encode? width height rgba codec = some file
      ∧ Decodes codec width height rgba (packed codec width height rgba) file
  /-- The same holds for any other data that expands to the rows. -/
  compressed : ∀ data, codec.expand data = .ok (contents width height rgba) →
    data.length < 2 ^ 32 →
    Decodes codec width height rgba data (fileOf (parts width height data))

/-- **A picture's file decodes to the picture.** -/
theorem decodesToPicture (codec : LosslessCodec) (height : UInt32) (rgba : Bytes)
    (hwidth : width ≠ 0) : DecodesToPicture codec.toCodec width height rgba where
  written hshort := by
    refine ⟨encode width height rgba codec.toCodec, if_neg hwidth, ?_⟩
    rw [encode_eq]
    exact decodes_of_expand hwidth (codec.expand_compress _) hshort
  compressed data hdata hshort := decodes_of_expand hwidth hdata hshort

/-- Two columns and two rows. -/
theorem decodesToPicture_two_by_two :
    (2 : UInt32) ≠ 0 ∧ ∃ file,
      encode? 2 2 [255, 0, 0, 255, 0, 255, 0, 255, 0, 0, 255, 255, 10, 20, 30, 255] = some file
        ∧ read? (compression 2) file
          = some ⟨2, 2, [[⟨255, 0, 0⟩, ⟨0, 255, 0⟩], [⟨0, 0, 255⟩, ⟨10, 20, 30⟩]]⟩ := by
  have hwidth : (2 : UInt32) ≠ 0 := by decide
  have hshort : (packed (compression 2) 2 2
      [255, 0, 0, 255, 0, 255, 0, 255, 0, 0, 255, 255, 10, 20, 30, 255]).length < 2 ^ 32 := by
    decide +kernel
  obtain ⟨file, hfile, hdecodes⟩ := (decodesToPicture (standardCodec 2) 2 _ hwidth).written hshort
  exact ⟨hwidth, file, hfile, hdecodes.picture.trans rfl⟩

end Files

end FantasyComputer.Png
