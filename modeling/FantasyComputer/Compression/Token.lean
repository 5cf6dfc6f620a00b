/-
# FantasyComputer.Compression.Token — literals, copies and their bit strings.

A block of compressed data is a sequence of tokens: a literal byte, a copy of earlier output by
length and distance, or the end of the block.  Lengths from 3 to 258 and distances from 1 to 32768
are written as a symbol that names a range and extra bits that choose within it (`lengthRanges`,
`distanceRanges`).

`read?` reads a token under two prefix codes, one for literals and lengths and one for distances,
and always takes at least one bit (`size_read?`).  `expand` carries a copy out: it may reach into
what it has itself just written.
-/
import FantasyComputer.Compression.PrefixCode

namespace FantasyComputer

/-- A token of compressed data. -/
inductive Token where
  | literal (byte : UInt8)
  | copy (length distance : Nat)
  | endOfBlock
  deriving DecidableEq, Repr

namespace Token

/-- A range of values that share a symbol: its first value and the number of extra bits. -/
structure Range where
  base : Nat
  extraBits : Nat
  deriving DecidableEq, Repr

/-- The ranges of lengths, for the symbols from 257 on. -/
def lengthRanges : Array Range :=
  #[⟨3, 0⟩, ⟨4, 0⟩, ⟨5, 0⟩, ⟨6, 0⟩, ⟨7, 0⟩, ⟨8, 0⟩, ⟨9, 0⟩, ⟨10, 0⟩, ⟨11, 1⟩, ⟨13, 1⟩, ⟨15, 1⟩,
    ⟨17, 1⟩, ⟨19, 2⟩, ⟨23, 2⟩, ⟨27, 2⟩, ⟨31, 2⟩, ⟨35, 3⟩, ⟨43, 3⟩, ⟨51, 3⟩, ⟨59, 3⟩, ⟨67, 4⟩,
    ⟨83, 4⟩, ⟨99, 4⟩, ⟨115, 4⟩, ⟨131, 5⟩, ⟨163, 5⟩, ⟨195, 5⟩, ⟨227, 5⟩, ⟨258, 0⟩]

/-- The ranges of distances, for the symbols from 0 on. -/
def distanceRanges : Array Range :=
  #[⟨1, 0⟩, ⟨2, 0⟩, ⟨3, 0⟩, ⟨4, 0⟩, ⟨5, 1⟩, ⟨7, 1⟩, ⟨9, 2⟩, ⟨13, 2⟩, ⟨17, 3⟩, ⟨25, 3⟩, ⟨33, 4⟩,
    ⟨49, 4⟩, ⟨65, 5⟩, ⟨97, 5⟩, ⟨129, 6⟩, ⟨193, 6⟩, ⟨257, 7⟩, ⟨385, 7⟩, ⟨513, 8⟩, ⟨769, 8⟩,
    ⟨1025, 9⟩, ⟨1537, 9⟩, ⟨2049, 10⟩, ⟨3073, 10⟩, ⟨4097, 11⟩, ⟨6145, 11⟩, ⟨8193, 12⟩,
    ⟨12289, 12⟩, ⟨16385, 13⟩, ⟨24577, 13⟩]

/-- The symbol that ends a block. -/
def endSymbol : Nat := 256

/-- Reads a value of the range that a symbol names. -/
def readRanged? (ranges : Array Range) (symbol : Nat) (s : BitStream) : Option (Nat × BitStream) :=
  match ranges[symbol]? with
  | none => none
  | some range =>
    match s.number? range.extraBits with
    | none => none
    | some (extra, s) => some (range.base + extra, s)

/-- Reads the distance of a copy whose length is known. -/
def readDistance? (distances : PrefixCode) (length : Nat) (s : BitStream) :
    Option (Token × BitStream) :=
  match distances.decode? s with
  | none => none
  | some (symbol, s) =>
    match readRanged? distanceRanges symbol s with
    | none => none
    | some (distance, s) => some (copy length distance, s)

/-- Reads the rest of a token after its first symbol. -/
def readAfter? (distances : PrefixCode) (symbol : Nat) (s : BitStream) :
    Option (Token × BitStream) :=
  if symbol < endSymbol then some (literal (UInt8.ofNat symbol), s)
  else if symbol = endSymbol then some (endOfBlock, s)
  else
    match readRanged? lengthRanges (symbol - (endSymbol + 1)) s with
    | none => none
    | some (length, s) => readDistance? distances length s

/-- Reads a token. -/
def read? (literals distances : PrefixCode) (s : BitStream) : Option (Token × BitStream) :=
  match literals.decode? s with
  | none => none
  | some (symbol, s) => readAfter? distances symbol s

/-- Appends a copy of earlier output, byte by byte. -/
def expand (out : Array UInt8) (distance : Nat) : (length : Nat) → Array UInt8
  | 0 => out
  | length + 1 => expand (out.push (out.getD (out.size - distance) 0)) distance length

/-! ## Every token takes bits -/

theorem size_readRanged? {ranges : Array Range} {symbol n : Nat} {s t : BitStream}
    (h : readRanged? ranges symbol s = some (n, t)) : t.size ≤ s.size := by
  simp only [readRanged?] at h
  split at h
  · contradiction
  · split at h
    · contradiction
    · next extra u hu =>
      simp only [Option.some.injEq, Prod.mk.injEq] at h
      obtain ⟨-, rfl⟩ := h
      have := BitStream.size_number? hu
      omega

theorem size_readDistance? {distances : PrefixCode} {length : Nat} {token : Token}
    {s t : BitStream} (h : readDistance? distances length s = some (token, t)) :
    t.size ≤ s.size := by
  simp only [readDistance?] at h
  split at h
  · contradiction
  · next symbol u hu =>
    split at h
    · contradiction
    · next distance v hv =>
      simp only [Option.some.injEq, Prod.mk.injEq] at h
      obtain ⟨-, rfl⟩ := h
      have := PrefixCode.size_decode? hu
      have := size_readRanged? hv
      omega

theorem size_readAfter? {distances : PrefixCode} {symbol : Nat} {token : Token}
    {s t : BitStream} (h : readAfter? distances symbol s = some (token, t)) :
    t.size ≤ s.size := by
  simp only [readAfter?] at h
  split at h
  · simp only [Option.some.injEq, Prod.mk.injEq] at h
    obtain ⟨-, rfl⟩ := h
    exact Nat.le_refl _
  · split at h
    · simp only [Option.some.injEq, Prod.mk.injEq] at h
      obtain ⟨-, rfl⟩ := h
      exact Nat.le_refl _
    · split at h
      · cases h
      · next length u hu =>
        have := size_readRanged? hu
        have := size_readDistance? h
        omega

theorem size_read? {literals distances : PrefixCode} {token : Token} {s t : BitStream}
    (h : read? literals distances s = some (token, t)) : t.size < s.size := by
  simp only [read?] at h
  split at h
  · contradiction
  · next symbol u hu =>
    have := PrefixCode.size_decode? hu
    have := size_readAfter? h
    omega

end Token

end FantasyComputer
