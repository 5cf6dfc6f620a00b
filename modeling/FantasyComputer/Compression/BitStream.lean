/-
# FantasyComputer.Compression.BitStream — byte strings read and written bit by bit.

A compressed stream is a sequence of bits that lie in bytes with the least significant bit first.
`BitStream` reads such a sequence: the bits still to come of the byte that was begun, and the bytes
after it.  `bits` is the whole sequence still to come, `size` is its length, and every reader
leaves a smaller or equal size; that is what makes the decoders end.

`pack` writes bits into bytes and fills the last byte with zeros.
-/
import FantasyComputer.Word

namespace FantasyComputer

/-- The bits of a byte, least significant first. -/
def bitsOfByte (b : UInt8) : List Bool :=
  let n := b.toNat
  [n.testBit 0, n.testBit 1, n.testBit 2, n.testBit 3, n.testBit 4, n.testBit 5, n.testBit 6,
    n.testBit 7]

theorem length_flatMap_bitsOfByte (bytes : Bytes) :
    (bytes.flatMap bitsOfByte).length = 8 * bytes.length := by
  simp only [List.length_flatMap, bitsOfByte, List.length_cons, List.length_nil, List.map_const',
    List.sum_replicate_nat]
  omega

/-- The byte with the given bits, least significant first. -/
def byteOfBits (bits : List Bool) : UInt8 :=
  UInt8.ofNat (bits.foldr (fun bit n => bit.toNat + 2 * n) 0)

/-- The lowest `width` bits of a number, least significant first. -/
def bitsOfNat : (width : Nat) → Nat → List Bool
  | 0, _ => []
  | width + 1, n => (n % 2 == 1) :: bitsOfNat width (n / 2)

/-- Packs bits into bytes after the bytes packed already. -/
def packFrom (packed : Array UInt8) : List Bool → Array UInt8
  | [] => packed
  | b₀ :: b₁ :: b₂ :: b₃ :: b₄ :: b₅ :: b₆ :: b₇ :: rest =>
    packFrom (packed.push (byteOfBits [b₀, b₁, b₂, b₃, b₄, b₅, b₆, b₇])) rest
  | last => packed.push (byteOfBits last)

/-- Packs bits into bytes and fills the last byte with zeros. -/
def pack (bits : List Bool) : Bytes :=
  (packFrom #[] bits).toList

/-! ## Reading -/

/-- A sequence of bits to be read. -/
structure BitStream where
  /-- The bits still to come of the byte that was begun. -/
  pending : List Bool
  /-- The bytes not yet begun. -/
  rest : Bytes

namespace BitStream

/-- The bits of a byte string. -/
def ofBytes (bytes : Bytes) : BitStream :=
  { pending := [], rest := bytes }

/-- The bits still to come. -/
def bits (s : BitStream) : List Bool :=
  s.pending ++ s.rest.flatMap bitsOfByte

/-- The number of bits still to come. -/
def size (s : BitStream) : Nat :=
  s.pending.length + 8 * s.rest.length

/-- The next bit and what follows it. -/
def next? (s : BitStream) : Option (Bool × BitStream) :=
  match s.pending with
  | bit :: pending => some (bit, { s with pending })
  | [] =>
    match s.rest with
    | [] => none
    | byte :: rest =>
      some (byte.toNat.testBit 0, { pending := (bitsOfByte byte).tail, rest })

/-- A number of the given width, least significant bit first, and what follows it. -/
def number? (s : BitStream) : (width : Nat) → Option (Nat × BitStream)
  | 0 => some (0, s)
  | width + 1 =>
    match s.next? with
    | none => none
    | some (bit, s) =>
      match s.number? width with
      | none => none
      | some (n, s) => some (bit.toNat + 2 * n, s)

/-- What follows the byte that was begun. -/
def align (s : BitStream) : BitStream :=
  { s with pending := [] }

theorem size_next? {s t : BitStream} {bit : Bool} (h : s.next? = some (bit, t)) :
    t.size + 1 = s.size := by
  obtain ⟨pending, rest⟩ := s
  cases pending with
  | cons b pending =>
    simp only [next?, Option.some.injEq, Prod.mk.injEq] at h
    obtain ⟨-, rfl⟩ := h
    simp only [size, List.length_cons]
    omega
  | nil =>
    cases rest with
    | nil => simp [next?] at h
    | cons byte rest =>
      simp only [next?, Option.some.injEq, Prod.mk.injEq] at h
      obtain ⟨-, rfl⟩ := h
      simp only [size, bitsOfByte, List.tail_cons, List.length_cons, List.length_nil]
      omega

theorem size_number? {s t : BitStream} {width n : Nat} (h : s.number? width = some (n, t)) :
    t.size + width = s.size := by
  induction width generalizing s n with
  | zero =>
    simp only [number?, Option.some.injEq, Prod.mk.injEq] at h
    obtain ⟨-, rfl⟩ := h
    rfl
  | succ width ih =>
    simp only [number?] at h
    split at h
    · contradiction
    · next bit u hbit =>
      split at h
      · contradiction
      · next m v hm =>
        simp only [Option.some.injEq, Prod.mk.injEq] at h
        obtain ⟨-, rfl⟩ := h
        have := size_next? hbit
        have := ih hm
        omega

end BitStream

end FantasyComputer
