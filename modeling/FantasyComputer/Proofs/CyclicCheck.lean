/-
# FantasyComputer.Proofs.CyclicCheck — the check of a chunk is a remainder of polynomials.

A sequence of bits is a polynomial over the field of two elements, with the first bit as the
coefficient of the highest power (`polynomial`).  The register of `crc32` is read that way too, from
its lowest bit on.  So a shift to the right multiplies by `X`: the bit that falls out belongs to
`X ^ 32`, and stands for the rest of the generator.

The equations are in the ring of polynomials modulo the generator (`residue`).  There a shift
multiplies by `X` (`residue_shift`), and a byte string takes a register `r` to `X ^ n * r` plus
`X ^ 32` times the string, where `n` is the number of its bits (`residue_foldl_update`).  The register
starts with all bits set, which is the same as to complement the first 32 bits of the message.
-/
import FantasyComputer.Compression.BitStream
import FantasyComputer.Picture.Png
import Mathlib.Algebra.Field.ZMod
import Mathlib.RingTheory.AdjoinRoot
import Mathlib.Tactic.ComputeDegree

namespace FantasyComputer.Crc32

open Polynomial
open AdjoinRoot (root)

/-! ## Bits as polynomials -/

/-- A bit as an element of the field of two elements. -/
def coefficient (bit : Bool) : ZMod 2 :=
  if bit then 1 else 0

theorem coefficient_xor (a b : Bool) :
    coefficient (a ^^ b) = coefficient a + coefficient b := by
  cases a <;> cases b <;> decide

/-- Bits as a polynomial, the first the coefficient of the highest power. -/
noncomputable def polynomial : List Bool → (ZMod 2)[X]
  | [] => 0
  | bit :: bits => C (coefficient bit) * X ^ bits.length + polynomial bits

theorem polynomial_append (bits rest : List Bool) :
    polynomial (bits ++ rest) = polynomial bits * X ^ rest.length + polynomial rest := by
  induction bits with
  | nil => simp [polynomial]
  | cons bit bits ih =>
    rw [List.cons_append, polynomial, ih, polynomial, List.length_append, pow_add]
    ring

theorem polynomial_replicate_false (n : Nat) : polynomial (List.replicate n false) = 0 := by
  induction n with
  | zero => rfl
  | succ n ih => simp [List.replicate_succ, polynomial, coefficient, ih]

theorem polynomial_xor {α : Type} (f g : α → Bool) (places : List α) :
    polynomial (places.map fun i => f i ^^ g i)
      = polynomial (places.map f) + polynomial (places.map g) := by
  induction places with
  | nil => simp [polynomial]
  | cons i places ih =>
    simp only [List.map_cons, polynomial, ih, coefficient_xor, List.length_map, C_add]
    ring

/-- To complement bits is to add ones. -/
theorem polynomial_not (bits : List Bool) :
    polynomial (bits.map (!·))
      = polynomial bits + polynomial (List.replicate bits.length true) := by
  have hones := polynomial_xor id (fun _ => true) bits
  simpa only [id, Bool.xor_true, List.map_id, List.map_const'] using hones

theorem degree_polynomial_lt (bits : List Bool) : (polynomial bits).degree < bits.length := by
  induction bits with
  | nil => simp [polynomial]
  | cons bit bits ih =>
    rw [polynomial, List.length_cons]
    refine (degree_add_le _ _).trans_lt (max_lt ?_ ?_)
    · refine (degree_C_mul_X_pow_le _ _).trans_lt ?_
      exact_mod_cast Nat.lt_succ_self bits.length
    · exact ih.trans (by exact_mod_cast Nat.lt_succ_self bits.length)

/-- The bits are the coefficients, from the highest power down. -/
theorem coeff_polynomial {bits : List Bool} {i : Nat} (hi : i < bits.length) :
    (polynomial bits).coeff (bits.length - 1 - i) = coefficient bits[i] := by
  induction bits generalizing i with
  | nil => exact absurd hi (Nat.not_lt_zero i)
  | cons bit bits ih =>
    rw [polynomial, coeff_add, coeff_C_mul, coeff_X_pow, List.length_cons, Nat.add_sub_cancel]
    cases i with
    | zero =>
      rw [Nat.sub_zero, if_pos rfl, mul_one, coeff_eq_zero_of_degree_lt (degree_polynomial_lt bits),
        add_zero, List.getElem_cons_zero]
    | succ i =>
      have hi' : i < bits.length := Nat.lt_of_succ_lt_succ hi
      rw [if_neg (by omega), mul_zero, zero_add, List.getElem_cons_succ, ← ih hi']
      congr 1
      omega

/-! ## The generator -/

/-- The generator of the check. -/
noncomputable def generator : (ZMod 2)[X] :=
  X ^ 32 + X ^ 26 + X ^ 23 + X ^ 22 + X ^ 16 + X ^ 12 + X ^ 11 + X ^ 10 + X ^ 8 + X ^ 7 + X ^ 5
    + X ^ 4 + X ^ 2 + X + 1

theorem natDegree_generator : generator.natDegree = 32 := by
  unfold generator
  compute_degree!

theorem monic_generator : generator.Monic := by
  unfold generator
  monicity!

theorem degree_generator : generator.degree = 32 := by
  rw [degree_eq_natDegree monic_generator.ne_zero, natDegree_generator]
  rfl

/-- The bits of a word, from the lowest. -/
def bitsOfWord (w : UInt32) : List Bool :=
  (List.range 32).map w.toNat.testBit

/-- The generator is its highest power and the divisor. -/
theorem polynomial_divisor : X ^ 32 + polynomial (bitsOfWord divisor) = generator := by
  have hbits : bitsOfWord divisor =
      [false, false, false, false, false, true, false, false, true, true, false, false, false, false,
        false, true, false, false, false, true, true, true, false, true, true, false, true, true,
        false, true, true, true] := by
    decide
  rw [hbits]
  simp only [polynomial, coefficient, List.length_cons, List.length_nil, generator, if_true,
    Bool.false_eq_true, if_false, C_0, C_1, zero_mul, one_mul, Nat.reduceAdd]
  ring

/-! ## The register -/

/-- Bits as a polynomial modulo the generator. -/
noncomputable def residue (bits : List Bool) : AdjoinRoot generator :=
  AdjoinRoot.mk generator (polynomial bits)

theorem bitsOfWord_xor (a b : UInt32) :
    bitsOfWord (a ^^^ b) = (List.range 32).map fun i => a.toNat.testBit i ^^ b.toNat.testBit i := by
  rw [bitsOfWord]
  refine List.map_congr_left fun i _ => ?_
  rw [UInt32.toNat_xor, Nat.testBit_xor]

theorem residue_xor (a b : UInt32) :
    residue (bitsOfWord (a ^^^ b)) = residue (bitsOfWord a) + residue (bitsOfWord b) := by
  rw [bitsOfWord_xor, residue, polynomial_xor, map_add]
  rfl

/-- Bits in front of others stand at the powers above theirs. -/
theorem residue_append (bits rest : List Bool) :
    residue (bits ++ rest)
      = residue bits * root generator ^ rest.length + residue rest := by
  rw [residue, polynomial_append, map_add, map_mul, map_pow, AdjoinRoot.mk_X]
  rfl

theorem residue_singleton (bit : Bool) : residue [bit] = if bit then 1 else 0 := by
  cases bit <;> simp [residue, polynomial, coefficient]

theorem residue_divisor : residue (bitsOfWord divisor) = root generator ^ 32 := by
  have hsum : polynomial (bitsOfWord divisor) = generator + X ^ 32 := by
    rw [← polynomial_divisor, add_right_comm, CharTwo.add_self_eq_zero, zero_add]
  rw [residue, hsum, map_add, AdjoinRoot.mk_self, zero_add, map_pow, AdjoinRoot.mk_X]

/-! ## Shifts -/

theorem bitsOfWord_eq_cons (w : UInt32) :
    bitsOfWord w = w.toNat.testBit 0 :: (bitsOfWord w).tail :=
  rfl

/-- A shift moves the lowest bit out and a zero in. -/
theorem bitsOfWord_shiftRight (w : UInt32) :
    bitsOfWord (w >>> 1) = (bitsOfWord w).tail ++ [false] := by
  have hbit : ∀ i, (w >>> 1).toNat.testBit i = w.toNat.testBit (i + 1) := by
    intro i
    rw [UInt32.toNat_shiftRight, Nat.testBit_shiftRight, Nat.add_comm]
    rfl
  have hout : w.toNat.testBit 32 = false := Nat.testBit_lt_two_pow w.toNat_lt
  rw [bitsOfWord, List.map_congr_left fun i _ => hbit i, List.range_succ, List.map_append,
    List.map_singleton, hout]
  rfl

theorem and_one_eq_one_iff (w : UInt32) : w &&& 1 = 1 ↔ w.toNat.testBit 0 = true := by
  rw [← UInt32.toNat_inj, UInt32.toNat_and, Nat.testBit_zero, decide_eq_true_iff]
  exact Eq.congr_left (Nat.and_one_is_mod w.toNat)

/-- **A shift multiplies by `X`.** -/
theorem residue_shift (w : UInt32) :
    residue (bitsOfWord (shift w)) = root generator * residue (bitsOfWord w) := by
  have hplain : residue (bitsOfWord (w >>> 1))
      = root generator * residue (bitsOfWord w).tail := by
    rw [bitsOfWord_shiftRight, residue_append, residue_singleton, List.length_singleton, pow_one]
    simp [mul_comm]
  have hwhole : residue (bitsOfWord w)
      = (if w.toNat.testBit 0 then 1 else 0) * root generator ^ 31
        + residue (bitsOfWord w).tail := by
    rw [bitsOfWord_eq_cons, ← List.singleton_append, residue_append, residue_singleton]
    rfl
  rw [shift, hwhole]
  by_cases hbit : w.toNat.testBit 0 = true
  · rw [if_pos ((and_one_eq_one_iff w).2 hbit), residue_xor, hplain, residue_divisor, if_pos hbit]
    ring
  · rw [if_neg (mt (and_one_eq_one_iff w).1 hbit), hplain, if_neg hbit]
    ring

theorem residue_shiftBy (count : Nat) (w : UInt32) :
    residue (bitsOfWord (shiftBy count w))
      = root generator ^ count * residue (bitsOfWord w) := by
  induction count generalizing w with
  | zero => rw [shiftBy, pow_zero, one_mul]
  | succ count ih =>
    rw [shiftBy, ih, residue_shift]
    ring

/-! ## Bytes -/

/-- A byte stands in a word with its bits at the highest powers. -/
theorem bitsOfWord_toUInt32 (b : UInt8) :
    bitsOfWord b.toUInt32 = bitsOfByte b ++ List.replicate 24 false := by
  have hzeros : (List.range 24).map (fun i => b.toNat.testBit (8 + i)) = List.replicate 24 false := by
    refine List.map_eq_replicate_iff.2 fun i _ => Nat.testBit_lt_two_pow ?_
    exact b.toNat_lt.trans_le (Nat.pow_le_pow_right (by decide) (Nat.le_add_right 8 i))
  rw [← hzeros, bitsOfWord, UInt8.toNat_toUInt32]
  rfl

/-- **A byte enters the register**, after what the register holds. -/
theorem residue_update (w : UInt32) (b : UInt8) :
    residue (bitsOfWord (update w b))
      = root generator ^ 8 * residue (bitsOfWord w)
        + residue (bitsOfByte b) * root generator ^ 32 := by
  have hzeros : residue (List.replicate 24 false) = 0 := by
    rw [residue, polynomial_replicate_false, map_zero]
  rw [update, residue_shiftBy, residue_xor, bitsOfWord_toUInt32, residue_append, hzeros,
    List.length_replicate]
  ring

/-- **Bytes enter the register one after the other.** -/
theorem residue_foldl_update (bytes : Bytes) (w : UInt32) :
    residue (bitsOfWord (bytes.foldl update w))
      = root generator ^ (8 * bytes.length) * residue (bitsOfWord w)
        + residue (bytes.flatMap bitsOfByte) * root generator ^ 32 := by
  induction bytes generalizing w with
  | nil => simp [residue, polynomial]
  | cons b bytes ih =>
    rw [List.foldl_cons, ih, residue_update, List.flatMap_cons, residue_append,
      length_flatMap_bitsOfByte, List.length_cons]
    ring

/-! ## The message -/

/-- A message as it is divided: its first 32 bits are complemented. -/
def message (bits : List Bool) : List Bool :=
  (bits.take 32).map (!·) ++ bits.drop 32

/-- To complement the first bits is to start with all bits set. -/
theorem residue_message {bits : List Bool} (h : 32 ≤ bits.length) :
    residue (message bits) * root generator ^ 32
      = root generator ^ bits.length * residue (bitsOfWord 0xFFFFFFFF)
        + residue bits * root generator ^ 32 := by
  have hones : bitsOfWord 0xFFFFFFFF = List.replicate (bits.take 32).length true := by
    rw [List.length_take_of_le h]
    decide
  have hnot : residue ((bits.take 32).map (!·))
      = residue (bits.take 32) + residue (bitsOfWord 0xFFFFFFFF) := by
    rw [residue, polynomial_not, map_add, hones]
    rfl
  have hbits : residue bits
      = residue (bits.take 32) * root generator ^ (bits.drop 32).length
        + residue (bits.drop 32) := by
    rw [← residue_append, List.take_append_drop]
  have hlength : bits.length = (bits.drop 32).length + 32 := by
    rw [List.length_drop, Nat.sub_add_cancel h]
  rw [message, residue_append, hnot, hbits, hlength, pow_add]
  ring

/-- The register holds the remainder. -/
theorem polynomial_register {bytes : Bytes} (h : 4 ≤ bytes.length) :
    polynomial (bitsOfWord (bytes.foldl update 0xFFFFFFFF))
      = polynomial (message (bytes.flatMap bitsOfByte)) * X ^ 32 %ₘ generator := by
  have hresidue : residue (bitsOfWord (bytes.foldl update 0xFFFFFFFF))
      = residue (message (bytes.flatMap bitsOfByte)) * root generator ^ 32 := by
    have hlength := length_flatMap_bitsOfByte bytes
    rw [residue_foldl_update, residue_message (by omega), hlength]
  have hdvd : generator ∣ polynomial (bitsOfWord (bytes.foldl update 0xFFFFFFFF))
      - polynomial (message (bytes.flatMap bitsOfByte)) * X ^ 32 := by
    rw [← AdjoinRoot.mk_eq_mk, map_mul, map_pow, AdjoinRoot.mk_X]
    exact hresidue
  have hdegree : (polynomial (bitsOfWord (bytes.foldl update 0xFFFFFFFF))).degree
      < generator.degree := by
    rw [degree_generator]
    exact degree_polynomial_lt _
  rw [← modByMonic_eq_of_dvd_sub monic_generator hdvd,
    (modByMonic_eq_self_iff monic_generator).2 hdegree]

/-- A word is the complement of a polynomial with the bits reversed: its lowest bit is the complement
of the highest coefficient, of `X ^ 31`. -/
structure ReversedComplement (w : UInt32) (p : (ZMod 2)[X]) : Prop where
  /-- There are no more coefficients than bits. -/
  degree : p.degree < 32
  bits : ∀ i < 32, p.coeff (31 - i) = coefficient (!w.toNat.testBit i)

/-- **The check is the remainder**, complemented and with its bits reversed. -/
theorem reversedComplement_crc32 {bytes : Bytes} (h : 4 ≤ bytes.length) :
    ReversedComplement (crc32 bytes)
      (polynomial (message (bytes.flatMap bitsOfByte)) * X ^ 32 %ₘ generator) where
  degree := by
    rw [← polynomial_register h]
    exact degree_polynomial_lt _
  bits i hi := by
    have hones : (0xFFFFFFFF : UInt32).toNat.testBit i = true := by
      rw [show (0xFFFFFFFF : UInt32).toNat = 2 ^ 32 - 1 from rfl, Nat.testBit_two_pow_sub_one,
        decide_eq_true hi]
    have hlength : (bitsOfWord (bytes.foldl update 0xFFFFFFFF)).length = 32 := rfl
    have hcoeff := coeff_polynomial (hlength ▸ hi)
    rw [← polynomial_register h, crc32, UInt32.toNat_xor, Nat.testBit_xor, hones, Bool.xor_true,
      Bool.not_not]
    simpa [hlength, bitsOfWord] using hcoeff

/-! ## Chunks -/

/-- What the check of a chunk says of its type and its data. -/
structure ChecksByDivision (type data : Bytes) : Prop where
  /-- The bits that are complemented are those of the type. -/
  supplied : message ((type ++ data).flatMap bitsOfByte)
    = (type.flatMap bitsOfByte).map (!·) ++ data.flatMap bitsOfByte
  remainder : ReversedComplement (crc32 (type ++ data))
    (polynomial (message ((type ++ data).flatMap bitsOfByte)) * X ^ 32 %ₘ generator)
  /-- Wherever a type ends and its data begin, one loop over both gives the same. -/
  parts : ∀ type' data', type' ++ data' = type ++ data →
    data'.foldl update (type'.foldl update 0xFFFFFFFF) ^^^ 0xFFFFFFFF = crc32 (type ++ data)

/-- **The check of a chunk is a remainder** on division by the generator. -/
theorem checksByDivision {type : Bytes} (h : type.length = 4) (data : Bytes) :
    ChecksByDivision type data where
  supplied := by
    have hlength : (type.flatMap bitsOfByte).length = 32 := by
      rw [length_flatMap_bitsOfByte, h]
    rw [message, List.flatMap_append, List.take_left' hlength, List.drop_left' hlength]
  remainder := by
    apply reversedComplement_crc32
    rw [List.length_append, h]
    exact Nat.le_add_right 4 data.length
  parts type' data' hsame := by
    rw [← List.foldl_append, hsame, crc32]

/-- The header of a picture of the screen. -/
theorem checksByDivision_header :
    (Png.Chunk.letters "IHDR").length = 4
      ∧ ChecksByDivision (Png.Chunk.letters "IHDR") (Png.header 128 128)
      ∧ crc32 (Png.Chunk.letters "IHDR" ++ Png.header 128 128) = 0x4C5CF69C :=
  ⟨by decide, checksByDivision (by decide) (Png.header 128 128), by decide +kernel⟩

end FantasyComputer.Crc32
