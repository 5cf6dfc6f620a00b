/-
# FantasyComputer.Proofs.BitStrings — a bit string is read as it was packed.

A reader of bits is described by the bits it has before it: `Yields` says which value it gives and
which bits are left, whatever the boundaries of the bytes.  A bit, a number of a fixed width and, in
the modules that follow, symbols and tokens are read off the front of a bit string in that sense.

`bits_ofBytes_pack` starts such a reading: packing a bit string and reading the bytes gives the bit
string back, with the zeros that fill its last byte.
-/
import FantasyComputer.Compression.BitStream
import Mathlib

namespace FantasyComputer

namespace BitStream

variable {α : Type} {s : BitStream} {rest : List Bool}

/-! ## Reading from the front -/

/-- A reader gave a value and left a stream with these bits still to come. -/
def Yields (result : Option (α × BitStream)) (value : α) (rest : List Bool) : Prop :=
  ∃ t : BitStream, result = some (value, t) ∧ t.bits = rest

/-- The next bit is the first one. -/
theorem yields_next? {bit : Bool} (h : s.bits = bit :: rest) : Yields s.next? bit rest := by
  obtain ⟨pending, bytes⟩ := s
  cases pending with
  | cons first pending =>
    obtain ⟨rfl, hrest⟩ := List.cons.inj h
    exact ⟨_, rfl, hrest⟩
  | nil =>
    cases bytes with
    | nil => exact absurd h (List.cons_ne_nil _ _).symm
    | cons byte bytes =>
      obtain ⟨hbit, hrest⟩ := List.cons.inj h
      exact ⟨{ pending := (bitsOfByte byte).tail, rest := bytes }, by rw [← hbit]; rfl, hrest⟩

/-- A number is read back from its bits. -/
theorem yields_number? {width n : Nat} (hn : n < 2 ^ width)
    (h : s.bits = bitsOfNat width n ++ rest) : Yields (s.number? width) n rest := by
  induction width generalizing n s with
  | zero =>
    have hzero : n = 0 := by
      rw [Nat.pow_zero] at hn
      omega
    exact ⟨s, by rw [hzero]; rfl, h⟩
  | succ width ih =>
    -- the first bit is the parity, and the other bits are those of the half
    obtain ⟨t, hbit, ht⟩ := yields_next? h
    obtain ⟨u, hnumber, hu⟩ := ih (show n / 2 < 2 ^ width by rw [Nat.pow_succ] at hn; omega) ht
    have hsum : (n % 2 == 1).toNat + 2 * (n / 2) = n := by
      rcases Nat.mod_two_eq_zero_or_one n with heven | hodd
      · rw [heven]
        show 0 + 2 * (n / 2) = n
        omega
      · rw [hodd]
        show 1 + 2 * (n / 2) = n
        omega
    refine ⟨u, ?_, hu⟩
    rw [number?, hbit]
    simp only [hnumber, hsum]

end BitStream

/-! ## Packing -/

/-- The number with the given bits. -/
def numberOfBits (bits : List Bool) : Nat :=
  bits.foldr (fun bit n => bit.toNat + 2 * n) 0

theorem numberOfBits_cons (bit : Bool) (bits : List Bool) :
    numberOfBits (bit :: bits) = bit.toNat + 2 * numberOfBits bits := rfl

theorem numberOfBits_lt (bits : List Bool) : numberOfBits bits < 2 ^ bits.length := by
  induction bits with
  | nil => exact Nat.one_pos
  | cons bit bits ih =>
    have hbit := Bool.toNat_lt bit
    rw [numberOfBits_cons, List.length_cons, Nat.pow_succ]
    omega

theorem testBit_numberOfBits (bits : List Bool) (i : Nat) :
    (numberOfBits bits).testBit i = bits.getD i false := by
  induction bits generalizing i with
  | nil => exact Nat.zero_testBit i
  | cons bit bits ih =>
    -- the first bit is the remainder, the others are the half
    have hhalf : (bit.toNat + 2 * numberOfBits bits) / 2 = numberOfBits bits := by
      have hbit := Bool.toNat_lt bit
      omega
    rw [numberOfBits_cons]
    cases i with
    | zero =>
      rw [Nat.testBit_zero, Nat.add_mul_mod_self_left, List.getD_cons_zero]
      cases bit <;> rfl
    | succ i => rw [Nat.testBit_succ, hhalf, ih, List.getD_cons_succ]

/-- A byte holds the bits it was made of, and zeros after them. -/
theorem bitsOfByte_byteOfBits {bits : List Bool} (h : bits.length ≤ 8) :
    bitsOfByte (byteOfBits bits) = bits ++ List.replicate (8 - bits.length) false := by
  have hbyte : (byteOfBits bits).toNat = numberOfBits bits := by
    have hlt : numberOfBits bits < 2 ^ 8 :=
      Nat.lt_of_lt_of_le (numberOfBits_lt bits) (Nat.pow_le_pow_right (by decide) h)
    exact UInt8.toNat_ofNat_of_lt hlt
  have hbits : bitsOfByte (byteOfBits bits) = (List.range 8).map (numberOfBits bits).testBit := by
    rw [← hbyte]
    rfl
  rw [hbits]
  apply List.ext_getElem
  · simp only [List.length_map, List.length_range, List.length_append, List.length_replicate]
    omega
  · intro i hi hi'
    rw [List.getElem_map, List.getElem_range, testBit_numberOfBits, List.getD_eq_getElem?_getD,
      List.getElem_append]
    split
    · next hlt => rw [List.getElem?_eq_getElem hlt, Option.getD_some]
    · next hge =>
      rw [List.getElem?_eq_none (Nat.not_lt.mp hge), Option.getD_none, List.getElem_replicate]

/-- Bits that do not fill a byte. -/
theorem length_lt_of_short {bits : List Bool}
    (h : ∀ b₀ b₁ b₂ b₃ b₄ b₅ b₆ b₇ more,
      bits ≠ b₀ :: b₁ :: b₂ :: b₃ :: b₄ :: b₅ :: b₆ :: b₇ :: more) :
    bits.length < 8 := by
  rcases bits with
    _ | ⟨b₀, _ | ⟨b₁, _ | ⟨b₂, _ | ⟨b₃, _ | ⟨b₄, _ | ⟨b₅, _ | ⟨b₆, _ | ⟨b₇, more⟩⟩⟩⟩⟩⟩⟩⟩
  case cons.cons.cons.cons.cons.cons.cons.cons => exact absurd rfl (h b₀ b₁ b₂ b₃ b₄ b₅ b₆ b₇ more)
  all_goals
    simp only [List.length_cons, List.length_nil]
    omega

/-- Packing appends the bits to those packed already, and fills up with zeros. -/
theorem flatMap_packFrom (packed : Array UInt8) (bits : List Bool) :
    ∃ zeros < 8, (packFrom packed bits).toList.flatMap bitsOfByte
      = packed.toList.flatMap bitsOfByte ++ (bits ++ List.replicate zeros false) := by
  fun_induction packFrom packed bits with
  | case1 packed => exact ⟨0, by decide, (List.append_nil _).symm⟩
  | case2 packed b₀ b₁ b₂ b₃ b₄ b₅ b₆ b₇ more ih =>
    obtain ⟨zeros, hfew, hmore⟩ := ih
    have hbyte : bitsOfByte (byteOfBits [b₀, b₁, b₂, b₃, b₄, b₅, b₆, b₇])
        = [b₀, b₁, b₂, b₃, b₄, b₅, b₆, b₇] := bitsOfByte_byteOfBits (Nat.le_refl 8)
    refine ⟨zeros, hfew, ?_⟩
    rw [hmore, Array.toList_push, List.flatMap_append, List.flatMap_singleton, hbyte,
      List.append_assoc]
    rfl
  | case3 packed last hlast hshort =>
    have hlength := length_lt_of_short hshort
    have hpositive : 0 < last.length := List.length_pos_of_ne_nil hlast
    refine ⟨8 - last.length, by omega, ?_⟩
    rw [Array.toList_push, List.flatMap_append, List.flatMap_singleton,
      bitsOfByte_byteOfBits (Nat.le_of_lt hlength)]

/-- **Packed bits are read back**, with less than a byte of zeros after them and then the bits of
whatever bytes follow. -/
theorem bits_ofBytes_pack (bits : List Bool) (more : Bytes) :
    ∃ zeros < 8, (BitStream.ofBytes (pack bits ++ more)).bits
      = bits ++ (List.replicate zeros false ++ more.flatMap bitsOfByte) := by
  obtain ⟨zeros, hfew, hpack⟩ := flatMap_packFrom #[] bits
  refine ⟨zeros, hfew, ?_⟩
  show (pack bits ++ more).flatMap bitsOfByte = _
  rw [List.flatMap_append, ← List.append_assoc]
  exact congrArg (· ++ more.flatMap bitsOfByte) hpack

end FantasyComputer
