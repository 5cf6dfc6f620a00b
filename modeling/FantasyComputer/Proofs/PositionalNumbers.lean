/-
# FantasyComputer.Proofs.PositionalNumbers — what fits a fixed width is read back as it was written.

Two forms of a number have a fixed width: bytes with the least significant one first, and upper case
hexadecimal digits.  For both, a number below the power that the width allows survives the way out
and back:

* `ofLittleEndian_littleEndian` for bytes, with `ofLittleEndian_lt`, the bound that every byte string
  of that width keeps;
* `valueFrom?_digits` for digits.

Both are inductions on the width that peel off the least significant place.

A number that a person typed has no fixed width.  `Writes` says of digits which number they write,
in base ten and in base sixteen, and is what the readers test: `Hexadecimal.value?_eq_some_iff` and,
with a sign, `natural?_eq_some_iff`.
-/
import FantasyComputer.Text.Decimal
import FantasyComputer.Text.Hexadecimal
import Mathlib

namespace FantasyComputer

/-! ## Bytes -/

theorem ofLittleEndian_lt (bytes : Bytes) : ofLittleEndian bytes < 256 ^ bytes.length := by
  induction bytes with
  | nil => simp [ofLittleEndian]
  | cons b rest ih =>
    have := b.toNat_lt
    simp only [ofLittleEndian, List.length_cons, Nat.pow_succ]
    omega

theorem ofLittleEndian_littleEndian {width n : Nat} (h : n < 256 ^ width) :
    ofLittleEndian (littleEndian width n) = n := by
  induction width generalizing n with
  | zero => simp only [Nat.pow_zero] at h; simp only [littleEndian, ofLittleEndian]; omega
  | succ width ih =>
    rw [Nat.pow_succ] at h
    simp only [littleEndian, ofLittleEndian, ih (show n / 256 < 256 ^ width by omega),
      UInt8.toNat_ofNat']
    omega

/-! ## Hexadecimal digits -/

namespace Hexadecimal

theorem valueFrom?_digits {width n : Nat} (h : n < 16 ^ width) :
    valueFrom? 0 (digits width n) = some n := by
  induction width generalizing n with
  | zero => simp only [Nat.pow_zero] at h; simp only [digits, valueFrom?]; congr 1; omega
  | succ width ih =>
    rw [Nat.pow_succ] at h
    have hdigit := digitValue?_digit (show n % 16 < 16 by omega)
    simp only [digits, valueFrom?_append, ih (show n / 16 < 16 ^ width by omega),
      Option.bind_some, valueFrom?, hdigit]
    congr 1
    omega

/-- The digits of either case, in the order of their values. -/
def alphabets : List (List Char) :=
  ["0123456789abcdef".toList, "0123456789ABCDEF".toList]

/-- Whether a character is the digit of a value. -/
def IsDigit (c : Char) (value : Nat) : Prop :=
  ∃ digits ∈ alphabets, digits[value]? = some c

variable {c : Char} {d n : Nat} {ds : List Char}

theorem digitValue?_of_isDigit (h : IsDigit c d) : digitValue? c = some d := by
  have hall : ∀ digits ∈ alphabets, ∀ d, (hd : d < digits.length) →
      digitValue? digits[d] = some d := by
    decide
  obtain ⟨digits, hdigits, hc⟩ := h
  obtain ⟨hd, rfl⟩ := List.getElem?_eq_some_iff.1 hc
  exact hall digits hdigits d hd

theorem isDigit_of_digitValue? (h : digitValue? c = some d) : IsDigit c d := by
  -- all characters up to the last letter that is a digit
  have hall : ∀ n < 103, ∀ d < 16, digitValue? (Char.ofNat n) = some d →
      ∃ digits ∈ alphabets, digits[d]? = some (Char.ofNat n) := by
    decide +kernel
  have hrange : ∀ first last : Char,
      first ≤ c ∧ c ≤ last ↔ first.toNat ≤ c.toNat ∧ c.toNat ≤ last.toNat := by
    intro first last
    exact Iff.rfl
  have hsmall : c.toNat < 103 ∧ d < 16 := by
    have hd := h
    simp only [digitValue?, hrange, Char.reduceToNat] at hd
    split at hd
    · cases hd
      omega
    · split at hd
      · cases hd
        omega
      · split at hd
        · cases hd
          omega
        · cases hd
  have hc := hall c.toNat hsmall.1 d hsmall.2
  rw [Char.ofNat_toNat] at hc
  exact hc h

theorem digitValue?_eq_some_iff : digitValue? c = some d ↔ IsDigit c d :=
  ⟨isDigit_of_digitValue?, digitValue?_of_isDigit⟩

/-- Whether characters write a number in one or more digits. -/
def Writes (ds : List Char) (n : Nat) : Prop :=
  ds ≠ [] ∧ ∃ values, List.Forall₂ IsDigit ds values ∧ Nat.ofDigits 16 values.reverse = n

theorem valueFrom?_eq_some_iff {acc : Nat} :
    valueFrom? acc ds = some n ↔ ∃ values, List.Forall₂ IsDigit ds values
      ∧ acc * 16 ^ values.length + Nat.ofDigits 16 values.reverse = n := by
  induction ds generalizing acc with
  | nil => simp [valueFrom?]
  | cons c ds ih =>
    -- the first digit has the weight of all that follow it
    have hweight : ∀ (d : Nat) (values : List Nat),
        acc * 16 ^ (d :: values).length + Nat.ofDigits 16 (d :: values).reverse
          = (16 * acc + d) * 16 ^ values.length + Nat.ofDigits 16 values.reverse := by
      intro d values
      rw [List.reverse_cons, Nat.ofDigits_append, Nat.ofDigits_singleton, List.length_reverse,
        List.length_cons]
      ring
    rw [valueFrom?]
    constructor
    · intro h
      split at h
      · next d hd =>
        rw [ih] at h
        obtain ⟨values, hvalues, hsum⟩ := h
        rw [digitValue?_eq_some_iff] at hd
        exact ⟨d :: values, .cons hd hvalues, (hweight d values).trans hsum⟩
      · cases h
    · rintro ⟨_, hdigits, hsum⟩
      cases hdigits with
      | cons hd hvalues =>
        rw [hweight] at hsum
        rw [digitValue?_of_isDigit hd]
        exact ih.2 ⟨_, hvalues, hsum⟩

theorem value?_eq_some_iff : value? ds = some n ↔ Writes ds n := by
  unfold value?
  split
  · simp [Writes]
  · next hne =>
    rw [valueFrom?_eq_some_iff, Writes]
    simp only [Nat.zero_mul, Nat.zero_add]
    exact (and_iff_right fun h => hne h).symm

theorem writes_digits {width : Nat} (hpos : 0 < width) (hn : n < 16 ^ width) :
    Writes (digits width n) n := by
  rw [← value?_eq_some_iff]
  have hne : digits width n ≠ [] := by
    rw [← List.length_pos_iff_ne_nil, length_digits]
    exact hpos
  rw [value?.eq_2 _ hne]
  exact valueFrom?_digits hn

theorem isDigit_of_mem {values : List Nat} (h : List.Forall₂ IsDigit ds values) (hc : c ∈ ds) :
    ∃ d, IsDigit c d := by
  induction h with
  | nil => cases hc
  | cons hd _ ih =>
    rcases List.mem_cons.1 hc with rfl | hc
    · exact ⟨_, hd⟩
    · exact ih hc

/-- A character that is no digit is not among the digits of a number. -/
theorem notMem_of_writes (h : Writes ds n) (hc : digitValue? c = none) : c ∉ ds := by
  intro hmem
  obtain ⟨-, values, hdigits, -⟩ := h
  obtain ⟨d, hd⟩ := isDigit_of_mem hdigits hmem
  rw [digitValue?_of_isDigit hd] at hc
  cases hc

end Hexadecimal

/-! ## Numbers as typed -/

namespace Decimal

theorem valueFrom?_eq_some_iff {acc n : Nat} {ds : List Char} :
    valueFrom? acc ds = some n
      ↔ (∀ c ∈ ds, c.isDigit = true) ∧ Nat.ofDigitChars 10 ds acc = n := by
  induction ds generalizing acc with
  | nil => simp [valueFrom?]
  | cons c rest ih =>
    have hdigit : ('0' ≤ c ∧ c ≤ '9') ↔ c.isDigit = true := by
      simp [Char.isDigit, Char.le_def]
    rw [valueFrom?, Nat.ofDigitChars_cons, List.forall_mem_cons, ← hdigit]
    split
    · next h =>
      rw [ih, and_iff_right h]
      rfl
    · next h => simp [h]

/-- Whether characters write a number in digits. -/
def Writes (ds : List Char) (n : Nat) : Prop :=
  ds ≠ [] ∧ (∀ c ∈ ds, c.isDigit = true) ∧ Nat.ofDigitChars 10 ds 0 = n

/-- A natural number is one or more digits, perhaps after a plus sign. -/
theorem natural?_eq_some_iff {text : String} {n : Nat} :
    natural? text = some n
      ↔ Writes text.toList n ∨ ∃ ds : List Char, text.toList = '+' :: ds ∧ Writes ds n := by
  have hplus : ∀ ds : List Char, ¬Writes ('+' :: ds) n := by
    rintro ds ⟨-, hdigits, -⟩
    exact absurd (hdigits '+' List.mem_cons_self) (by decide)
  unfold natural?
  split
  · next hempty =>
    rw [hempty]
    simp [Writes]
  · next hsign =>
    rw [hsign]
    simp [Writes]
  · next ds hne hsigned =>
    rw [hsigned, valueFrom?_eq_some_iff]
    have hds : ds ≠ [] := by
      rintro rfl
      exact hne rfl
    simp [Writes, hds]
  · next hempty hsign hunsigned =>
    rw [valueFrom?_eq_some_iff]
    constructor
    · rintro ⟨hdigits, hvalue⟩
      exact Or.inl ⟨hempty, hdigits, hvalue⟩
    · rintro (⟨-, hdigits, hvalue⟩ | ⟨ds, hds, -⟩)
      · exact ⟨hdigits, hvalue⟩
      · exact absurd hds (hunsigned ds)

end Decimal

end FantasyComputer
