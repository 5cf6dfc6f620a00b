/-
# FantasyComputer.Compression.Deflate — compression.

The compressor looks for repetitions at a few distances that the caller expects in the data, such as
one byte for runs and one row for pictures.  At each position it takes the longest repetition it
finds, or the byte itself when none has the least length of a copy.  The tokens go into one block
under the fixed codes.

Only repetitions that were compared byte by byte are used, so the choice of distances decides how
much is saved and never what the stream expands to.
-/
import FantasyComputer.Compression.Inflate

namespace FantasyComputer.Deflate

/-! ## Tokens -/

/-- The longest copy that a token can hold. -/
def maxCopy : Nat := 258

/-- The shortest copy that a token can hold. -/
def minCopy : Nat := 3

/-- The number of bytes from a position on, up to a limit, that repeat those at a distance. -/
def repetition (data : Array UInt8) (distance position : Nat) : (limit : Nat) → Nat
  | 0 => 0
  | limit + 1 =>
    if h : position < data.size then
      if data[position] = data[position - distance] then
        1 + repetition data distance (position + 1) limit
      else 0
    else 0

/-- The better of a copy already found and the repetition at a distance. -/
def longer (data : Array UInt8) (position : Nat) (best : Nat × Nat) (distance : Nat) : Nat × Nat :=
  if 0 < distance ∧ distance ≤ position then
    let length := repetition data distance position maxCopy
    if best.1 < length then (length, distance) else best
  else best

/-- The length and distance of the longest repetition at a position; the length is zero if there is
none. -/
def longest (distances : List Nat) (data : Array UInt8) (position : Nat) : Nat × Nat :=
  distances.foldl (longer data position) (0, 0)

/-- Splits the data from a position on into tokens, after the tokens found before. -/
def tokensFrom (distances : List Nat) (data : Array UInt8) (position : Nat)
    (found : Array Token) : Array Token :=
  if h : position < data.size then
    let (length, distance) := longest distances data position
    if minCopy ≤ length then
      tokensFrom distances data (position + length) (found.push (.copy length distance))
    else tokensFrom distances data (position + 1) (found.push (.literal data[position]))
  else found
termination_by data.size - position
decreasing_by
  · have : 0 < minCopy := by decide
    omega
  · omega

/-- Splits data into tokens. -/
def tokens (distances : List Nat) (data : Array UInt8) : List Token :=
  (tokensFrom distances data 0 #[]).toList

/-! ## Bits -/

/-- The bit strings of a code by symbol. -/
def stringTable (size : Nat) (code : PrefixCode) : Array (List Bool) :=
  let strings := code.strings
  Array.ofFn fun symbol : Fin size => (strings.lookup symbol.val).getD []

/-- The bit strings of the fixed code for literals and lengths. -/
def literalStrings : Array (List Bool) :=
  stringTable 288 Inflate.fixedLiterals

/-- The bit strings of the fixed code for distances. -/
def distanceStrings : Array (List Bool) :=
  stringTable 32 Inflate.fixedDistances

/-- The number of the last range that starts at a value or below it. -/
def rangeOf (ranges : Array Token.Range) (value : Nat) : Nat :=
  (ranges.toList.takeWhile fun range => range.base ≤ value).length - 1

/-- The extra bits of a value in a range. -/
def extraBits (ranges : Array Token.Range) (symbol value : Nat) : List Bool :=
  match ranges[symbol]? with
  | some range => bitsOfNat range.extraBits (value - range.base)
  | none => []

/-- The bits of a token under the fixed codes. -/
def tokenBits : Token → List Bool
  | .literal byte => literalStrings.getD byte.toNat []
  | .endOfBlock => literalStrings.getD Token.endSymbol []
  | .copy length distance =>
    let lengthSymbol := rangeOf Token.lengthRanges length
    let distanceSymbol := rangeOf Token.distanceRanges distance
    literalStrings.getD (lengthSymbol + Token.endSymbol + 1) []
      ++ extraBits Token.lengthRanges lengthSymbol length
      ++ distanceStrings.getD distanceSymbol []
      ++ extraBits Token.distanceRanges distanceSymbol distance

/-- The mark of a last block under the fixed codes. -/
def lastFixedMark : Nat := 3

end FantasyComputer.Deflate

namespace FantasyComputer

/-- Compresses data, looking for repetitions at the given distances. -/
def deflate (distances : List Nat) (data : Bytes) : Bytes :=
  let tokens := Deflate.tokens distances data.toArray ++ [Token.endOfBlock]
  pack (bitsOfNat 3 Deflate.lastFixedMark ++ tokens.flatMap Deflate.tokenBits)

end FantasyComputer
