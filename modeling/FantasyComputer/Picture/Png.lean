/-
# FantasyComputer.Picture.Png — pictures as PNG files.

A file is a signature of eight bytes and a sequence of chunks.  A chunk is its length, its type of
four letters, its data, and the check of type and data; numbers stand with the most significant
byte first.

A picture is written with three chunks: the header `IHDR` with the size and the format, eight bits
for each of red, green and blue; the rows in `IDAT`, compressed; and the empty `IEND`.  A row is a
zero, which says that the row is stored as it is, and then the three colour parts of each pixel.
The opacity is dropped.

`encode?` refuses a picture without columns, which has no rows to speak of.  `chunks?` takes a file
apart again, and succeeds only if nothing is left over.
-/
import FantasyComputer.Compression.Codec

namespace FantasyComputer.Png

/-- The first eight bytes of a file. -/
def signature : Bytes :=
  [0x89, 0x50, 0x4E, 0x47, 0x0D, 0x0A, 0x1A, 0x0A]

/-! ## Chunks -/

/-- A chunk: the letters of its type, its data, and the check that stands after them. -/
structure Chunk where
  /-- Four letters. -/
  type : Bytes
  /-- The contents. -/
  data : Bytes
  /-- The check, as it stands. -/
  check : Nat
  deriving DecidableEq, Repr

namespace Chunk

/-- Letters as bytes. -/
def letters (text : String) : Bytes :=
  text.toList.map fun c => UInt8.ofNat c.toNat

/-- A chunk with its right check. -/
def make (type : String) (data : Bytes) : Chunk :=
  { type := letters type, data, check := (crc32 (letters type ++ data)).toNat }

/-- A chunk as bytes. -/
def bytes (c : Chunk) : Bytes :=
  bigEndian 4 c.data.length ++ c.type ++ c.data ++ bigEndian 4 c.check

/-- The number that four bytes write with the most significant byte first. -/
def number (bytes : Bytes) : Nat :=
  ofLittleEndian bytes.reverse

/-- Takes the first chunk from a byte string. -/
def take? (file : Bytes) : Option (Chunk × Bytes) :=
  let length := number (file.take 4)
  if file.length < length + 12 then none
  else
    let body := file.drop 8
    some ({ type := (file.drop 4).take 4
            data := body.take length
            check := number ((body.drop length).take 4) },
      body.drop (length + 4))

theorem length_take? {file rest : Bytes} {c : Chunk} (h : take? file = some (c, rest)) :
    rest.length < file.length := by
  simp only [take?] at h
  split at h
  · cases h
  · cases h
    simp only [List.length_drop]
    omega

end Chunk

/-- Takes a byte string apart into chunks. -/
def chunksOf? (file : Bytes) : Option (List Chunk) :=
  if file = [] then some []
  else
    match _first : Chunk.take? file with
    | none => none
    | some (c, rest) => (chunksOf? rest).map (c :: ·)
termination_by file.length
decreasing_by exact Chunk.length_take? _first

/-- Takes a file apart into chunks. -/
def chunks? (file : Bytes) : Option (List Chunk) :=
  if file.take 8 = signature then chunksOf? (file.drop 8) else none

/-! ## Pictures -/

/-- The header: width, height, eight bits, red green and blue, and no choices made. -/
def header (width height : UInt32) : Bytes :=
  bigEndian 4 width.toNat ++ bigEndian 4 height.toNat ++ [8, 2, 0, 0, 0]

/-- Cuts bytes into as many whole rows of a length as there are, at most a number of them. -/
def rows (length : Nat) (bytes : Bytes) : (count : Nat) → List Bytes
  | 0 => []
  | count + 1 =>
    let row := bytes.take length
    if row.length < length then [] else row :: rows length (bytes.drop length) count

/-- The colour parts of the pixels of a row. -/
def colors : Bytes → Bytes
  | red :: green :: blue :: _ :: rest => red :: green :: blue :: colors rest
  | _ => []

/-- The rows of a picture as they stand in the file before compression. -/
def contents (width height : UInt32) (rgba : Bytes) : Bytes :=
  (rows (4 * width.toNat) rgba height.toNat).flatMap fun row => 0 :: colors row

/-- Distances at which pictures repeat themselves: a byte, a pixel, and a row. -/
def distances (width : UInt32) : List Nat :=
  [1, 3, 3 * width.toNat + 1].filter (· ≤ 32768)

/-- How the rows of a picture are compressed when nothing else is said. -/
def compression (width : UInt32) : Codec :=
  .zlib (distances width)

/-- A picture with at least one column as a file.  Its pixels are four bytes each, row by row. -/
def encode (width height : UInt32) (rgba : Bytes) (codec : Codec := compression width) : Bytes :=
  let data := codec.compress (contents width height rgba)
  signature
    ++ (Chunk.make "IHDR" (header width height)).bytes
    ++ (Chunk.make "IDAT" data).bytes
    ++ (Chunk.make "IEND" []).bytes

/-- A picture as a file, if it has columns. -/
def encode? (width height : UInt32) (rgba : Bytes) (codec : Codec := compression width) :
    Option Bytes :=
  if width = 0 then none else some (encode width height rgba codec)

end FantasyComputer.Png
