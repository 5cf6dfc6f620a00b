/-
# FantasyComputer.Compression.Zlib — compressed data in its wrapper.

The wrapper is a header of two bytes, the compressed stream, and the Adler checksum of the contents,
most significant byte first.  The header names the method and the window and is a multiple of 31 as
a number; a stream that asks for a preset dictionary is refused.
-/
import FantasyComputer.Checksum
import FantasyComputer.Compression.Deflate

namespace FantasyComputer.Zlib

/-- The header: method 8, a window of 32768 bytes, no dictionary. -/
def header : Bytes :=
  [0x78, 0x01]

/-- Compresses data, looking for repetitions at the given distances. -/
def compress (distances : List Nat) (data : Bytes) : Bytes :=
  header ++ deflate distances data ++ bigEndian 4 (adler32 data)

/-- Whether two bytes can be a header. -/
def isHeader (method flags : UInt8) : Bool :=
  method.toNat % 16 = 8 && method.toNat / 16 ≤ 7 && (256 * method.toNat + flags.toNat) % 31 = 0
    && flags.toNat / 32 % 2 = 0

/-- Decompresses data and checks the wrapper. -/
def decompress? (data : Bytes) : Option Bytes :=
  match data with
  | method :: flags :: stream =>
    if isHeader method flags then
      match Inflate.split? stream with
      | some (contents, rest) =>
        if rest.take 4 = bigEndian 4 (adler32 contents) then some contents else none
      | none => none
    else none
  | _ => none

end FantasyComputer.Zlib
