/-
# FantasyComputer.Compression.Codec — a compressor and what undoes it.

Save states and pictures are compressed.  What the program does with them is the same for every
`Codec`; the ones it has when nothing else is said are those of `Deflate` and `Zlib`.
-/
import FantasyComputer.Compression.Zlib

namespace FantasyComputer

/-- A compressor and what undoes it. -/
structure Codec where
  compress : Bytes → Bytes
  /-- What was compressed, or what a report of damaged data ends with. -/
  expand : Bytes → Except String Bytes

namespace Codec

/-- What a reader gives, with no words for damaged data. -/
def wordless : Option Bytes → Except String Bytes
  | some data => .ok data
  | none => .error ""

/-- Compressed streams alone, with repetitions at the given distances. -/
def deflate (distances : List Nat) : Codec where
  compress := FantasyComputer.deflate distances
  expand data := wordless (inflate? data)

/-- Compressed streams in their wrapper, with repetitions at the given distances. -/
def zlib (distances : List Nat) : Codec where
  compress := Zlib.compress distances
  expand data := wordless (Zlib.decompress? data)

end Codec

end FantasyComputer
