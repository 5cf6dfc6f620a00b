/-
# FantasyComputer.Proofs.ZlibStreams — compressed data in its wrapper is read back.

The wrapper puts a checksum behind the compressed stream, at the next whole byte.  Where that byte
is depends on how the stream was read: a reader has the bits of the byte that it has begun before
it, and the bytes not begun.  The begun byte never has eight bits left (`WithinByte`), whatever was
read, and a compressed stream is filled up with fewer than eight zeros; so at its end the bits left
are just those zeros, and the bytes not begun are the ones that stand behind the stream
(`split?_deflate`).

`decompress?_compress` is the round trip with the wrapper around it.
-/
import FantasyComputer.Compression.Zlib
import FantasyComputer.Proofs.Deflation

namespace FantasyComputer

/-! ## The byte that was begun -/

/-- Whether the byte that was begun has some bits read already. -/
def BitStream.WithinByte (s : BitStream) : Prop :=
  s.pending.length < 8

namespace BitStream

variable {s t : BitStream}

theorem withinByte_ofBytes (bytes : Bytes) : (ofBytes bytes).WithinByte :=
  Nat.zero_lt_succ 7

theorem WithinByte.next? {bit : Bool} (hs : s.WithinByte) (h : s.next? = some (bit, t)) :
    t.WithinByte := by
  obtain ⟨pending, rest⟩ := s
  cases pending with
  | cons first pending =>
    cases h
    exact Nat.lt_of_succ_lt hs
  | nil =>
    cases rest with
    | nil => cases h
    | cons byte rest =>
      cases h
      exact Nat.lt_succ_self 7

theorem WithinByte.number? {width n : Nat} (hs : s.WithinByte)
    (h : s.number? width = some (n, t)) : t.WithinByte := by
  induction width generalizing s n with
  | zero =>
    cases h
    exact hs
  | succ width ih =>
    rw [BitStream.number?] at h
    split at h
    · cases h
    next hbit =>
    split at h
    · cases h
    next hrest =>
    cases h
    exact ih (hs.next? hbit) hrest

end BitStream

namespace CodeTree

theorem withinByte_decode? {tree : CodeTree} {s t : BitStream} {symbol : Nat}
    (hs : s.WithinByte) (h : tree.decode? s = some (symbol, t)) : t.WithinByte := by
  induction tree generalizing s with
  | empty => cases h
  | leaf =>
    cases h
    exact hs
  | node zero one ihz iho =>
    rw [decode?] at h
    split at h
    · cases h
    · next hbit => exact ihz (hs.next? hbit) h
    · next hbit => exact iho (hs.next? hbit) h

end CodeTree

theorem PrefixCode.withinByte_decode? {code : PrefixCode} {s t : BitStream} {symbol : Nat}
    (hs : s.WithinByte) (h : code.decode? s = some (symbol, t)) : t.WithinByte := by
  rw [decode?] at h
  split at h
  · cases h
  · next hbit => exact CodeTree.withinByte_decode? (hs.next? hbit) h
  · next hbit => exact CodeTree.withinByte_decode? (hs.next? hbit) h

namespace Token

variable {s t : BitStream} {literals distances : PrefixCode} {token : Token}

theorem withinByte_readRanged? {ranges : Array Range} {symbol n : Nat} (hs : s.WithinByte)
    (h : readRanged? ranges symbol s = some (n, t)) : t.WithinByte := by
  rw [readRanged?] at h
  split at h
  · cases h
  split at h
  · cases h
  next hextra =>
  cases h
  exact hs.number? hextra

theorem withinByte_readAfter? {symbol : Nat} (hs : s.WithinByte)
    (h : readAfter? distances symbol s = some (token, t)) : t.WithinByte := by
  rw [readAfter?] at h
  split at h
  · cases h
    exact hs
  split at h
  · cases h
    exact hs
  split at h
  · cases h
  next hlength =>
  have hs := withinByte_readRanged? hs hlength
  rw [readDistance?] at h
  split at h
  · cases h
  next hsymbol =>
  have hs := PrefixCode.withinByte_decode? hs hsymbol
  split at h
  · cases h
  next hdistance =>
  cases h
  exact withinByte_readRanged? hs hdistance

theorem withinByte_read? (hs : s.WithinByte)
    (h : read? literals distances s = some (token, t)) : t.WithinByte := by
  rw [read?] at h
  split at h
  · cases h
  next hsymbol => exact withinByte_readAfter? (PrefixCode.withinByte_decode? hs hsymbol) h

end Token

namespace Inflate

theorem withinByte_readTokens? {literals distances : PrefixCode} {s t : BitStream}
    {out all : Array UInt8} (hs : s.WithinByte)
    (h : readTokens? literals distances s out = some (all, t)) : t.WithinByte := by
  fun_induction readTokens? literals distances s out with
  | case1 => cases h
  | case2 _ _ _ htoken =>
    cases h
    exact Token.withinByte_read? hs htoken
  | case3 _ _ _ _ htoken ih => exact ih (Token.withinByte_read? hs htoken) h
  | case4 _ _ _ _ _ htoken _ ih => exact ih (Token.withinByte_read? hs htoken) h
  | case5 => cases h

/-! ## The bytes behind a stream -/

theorem byteOfBits_bitsOfByte (b : UInt8) : byteOfBits (bitsOfByte b) = b := by
  have hall : ∀ i : Fin 256, byteOfBits (bitsOfByte (UInt8.ofFin i)) = UInt8.ofFin i := by
    decide +kernel
  exact hall b.toFin

/-- Bytes with the same bits are the same. -/
theorem flatMap_bitsOfByte_injective {bytes more : Bytes}
    (h : bytes.flatMap bitsOfByte = more.flatMap bitsOfByte) : bytes = more := by
  induction bytes generalizing more with
  | nil =>
    cases more with
    | nil => rfl
    | cons byte more => cases h
  | cons byte bytes ih =>
    cases more with
    | nil => cases h
    | cons other more =>
      obtain ⟨hbyte, hrest⟩ := List.append_inj h rfl
      have hsame : byte = other := by
        rw [← byteOfBits_bitsOfByte byte, hbyte, byteOfBits_bitsOfByte]
      rw [hsame, ih hrest]

/-- Where less than a byte of bits stands before some bytes, aligning leads to these bytes. -/
theorem rest_of_bits {s : BitStream} (hs : s.WithinByte) {filling : List Bool} {more : Bytes}
    (hfew : filling.length < 8) (h : s.bits = filling ++ more.flatMap bitsOfByte) :
    s.align.rest = more := by
  have hlength := congrArg List.length h
  rw [BitStream.bits, List.length_append, List.length_append, length_flatMap_bitsOfByte,
    length_flatMap_bitsOfByte] at hlength
  have hpending : s.pending.length = filling.length := by
    unfold BitStream.WithinByte at hs
    omega
  exact flatMap_bitsOfByte_injective (List.append_inj h hpending).2

/-- **A compressed stream ends where it was written to end.** -/
theorem split?_deflate {distances : List Nat} (hreach : ∀ d ∈ distances, d ≤ 32768)
    (data more : Bytes) : split? (deflate distances data ++ more) = some (data, more) := by
  obtain ⟨zeros, hfew, t, u, hmark, hblock, hu⟩ := exists_block_deflate hreach data more
  have hu' : u.WithinByte :=
    withinByte_readTokens? ((BitStream.withinByte_ofBytes _).number? hmark) hblock
  have hrest : u.align.rest = more := by
    apply rest_of_bits hu' _ hu
    rwa [List.length_replicate]
  rw [split?, readBlocks?_of_fixed hmark hblock, ← hrest]
  rfl

end Inflate

namespace Zlib

/-- **Wrapped data is read back**, with its checksum found right. -/
theorem decompress?_compress {distances : List Nat} (hreach : ∀ d ∈ distances, d ≤ 32768)
    (data : Bytes) : decompress? (compress distances data) = some data := by
  have hcheck : (bigEndian 4 (adler32 data)).take 4 = bigEndian 4 (adler32 data) :=
    List.take_of_length_le (length_bigEndian 4 _).le
  have hwrapped : compress distances data
      = 0x78 :: 0x01 :: (deflate distances data ++ bigEndian 4 (adler32 data)) := rfl
  rw [hwrapped, decompress?, if_pos (by decide), Inflate.split?_deflate hreach]
  exact if_pos hcheck

end Zlib

end FantasyComputer
