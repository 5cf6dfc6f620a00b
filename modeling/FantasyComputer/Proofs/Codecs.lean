/-
# FantasyComputer.Proofs.Codecs — codecs that lose nothing.

A `LosslessCodec` carries the law that what it compresses it expands again.  Nothing else is needed
of a codec by which states are saved or pictures are written, so what is proved of a lossless codec
holds whatever its compressed data look like.  The codecs of this project are lossless
(`LosslessCodec.deflate`, `LosslessCodec.zlib`), as far as their distances stay within the window.
-/
import FantasyComputer.Compression.Codec
import FantasyComputer.Proofs.Deflation
import FantasyComputer.Proofs.ZlibStreams

namespace FantasyComputer

/-- A codec that gives back what it has compressed. -/
structure LosslessCodec extends Codec where
  expand_compress : ∀ data, expand (compress data) = .ok data

namespace LosslessCodec

variable (distances : List Nat)

/-- Compressed streams alone. -/
def deflate (hreach : ∀ d ∈ distances, d ≤ 32768) : LosslessCodec where
  toCodec := .deflate distances
  expand_compress data := congrArg Codec.wordless (inflate?_deflate hreach data)

/-- Compressed streams in their wrapper. -/
def zlib (hreach : ∀ d ∈ distances, d ≤ 32768) : LosslessCodec where
  toCodec := .zlib distances
  expand_compress data := congrArg Codec.wordless (Zlib.decompress?_compress hreach data)

end LosslessCodec

end FantasyComputer
