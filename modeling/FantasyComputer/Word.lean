/-
# FantasyComputer.Word — bytes, 16-bit words, and numbers written as byte strings.

A byte is a `UInt8` and a word is a `UInt16`; both wrap, as the registers of the machine do.
Images, files and messages are plain lists of bytes (`Bytes`), so that a format can be read off
its pattern and its laws go by induction on the list.

The two halves of a word are `low` and `high`, and `ofHalves` puts a word together again:
`ofHalves_low_high`, `low_ofHalves` and `high_ofHalves` say that nothing is lost either way.

Numbers of a fixed width are written with the least significant byte first (`littleEndian`) or
last (`bigEndian`).  `ofLittleEndian` reads the first form back, and writing what was read gives the
bytes again: `littleEndian_ofLittleEndian`.
-/

namespace FantasyComputer

/-! ## Counters

A counter is a `UInt32` or a `UInt64` and wraps like a register.  Where its value is compared with
other numbers it is read as a number. -/

namespace Counter

instance coe32 : Coe UInt32 Nat := ⟨UInt32.toNat⟩

instance coe64 : Coe UInt64 Nat := ⟨UInt64.toNat⟩

/-- A counter that does not reach its width goes on like a number. -/
theorem toNat_add_32 {c : UInt32} {k : Nat} (h : c + k < UInt32.size) :
    ((c + UInt32.ofNat k : UInt32) : Nat) = c + k := by
  rw [UInt32.toNat_add, UInt32.toNat_ofNat', Nat.add_mod_mod, Nat.mod_eq_of_lt h]

/-- A counter that does not reach its width goes on like a number. -/
theorem toNat_add_64 {c : UInt64} {k : Nat} (h : c + k < UInt64.size) :
    ((c + UInt64.ofNat k : UInt64) : Nat) = c + k := by
  rw [UInt64.toNat_add, UInt64.toNat_ofNat', Nat.add_mod_mod, Nat.mod_eq_of_lt h]

/-- A counter never shows more than the number that it stands for. -/
theorem toNat_add_le_32 (c : UInt32) (k : Nat) : ((c + UInt32.ofNat k : UInt32) : Nat) ≤ c + k := by
  rw [UInt32.toNat_add, UInt32.toNat_ofNat', Nat.add_mod_mod]
  exact Nat.mod_le _ _

/-- A counter never shows more than the number that it stands for. -/
theorem toNat_add_le_64 (c : UInt64) (k : Nat) : ((c + UInt64.ofNat k : UInt64) : Nat) ≤ c + k := by
  rw [UInt64.toNat_add, UInt64.toNat_ofNat', Nat.add_mod_mod]
  exact Nat.mod_le _ _

end Counter

/-- Byte strings: images, files and chunk contents. -/
abbrev Bytes := List UInt8

/-! ## The two halves of a word -/

namespace Word

/-- The word with the given low and high byte. -/
@[inline]
def ofHalves (low high : UInt8) : UInt16 :=
  low.toUInt16 + 256 * high.toUInt16

/-- The low byte of a word. -/
@[inline]
def low (w : UInt16) : UInt8 :=
  w.toUInt8

/-- The high byte of a word. -/
@[inline]
def high (w : UInt16) : UInt8 :=
  (w / 256).toUInt8

theorem toNat_ofHalves (low high : UInt8) :
    (ofHalves low high).toNat = low.toNat + 256 * high.toNat := by
  have := low.toNat_lt
  have := high.toNat_lt
  simp only [ofHalves, UInt16.toNat_add, UInt16.toNat_mul, UInt8.toNat_toUInt16,
    UInt16.reduceToNat]
  omega

theorem toNat_low (w : UInt16) : (low w).toNat = w.toNat % 256 := by
  simp [low]

theorem toNat_high (w : UInt16) : (high w).toNat = w.toNat / 256 := by
  have := w.toNat_lt
  simp only [high, UInt16.toNat_toUInt8, UInt16.toNat_div, UInt16.reduceToNat]
  omega

@[simp]
theorem low_ofHalves (l h : UInt8) : low (ofHalves l h) = l := by
  apply UInt8.toNat_inj.1
  have := l.toNat_lt
  rw [toNat_low, toNat_ofHalves]
  omega

@[simp]
theorem high_ofHalves (l h : UInt8) : high (ofHalves l h) = h := by
  apply UInt8.toNat_inj.1
  have := l.toNat_lt
  rw [toNat_high, toNat_ofHalves]
  omega

@[simp]
theorem ofHalves_low_high (w : UInt16) : ofHalves (low w) (high w) = w := by
  apply UInt16.toNat_inj.1
  rw [toNat_ofHalves, toNat_low, toNat_high]
  omega

end Word

/-! ## Numbers of a fixed width -/

/-- The lowest `width` bytes of a number, least significant byte first. -/
def littleEndian : (width : Nat) → Nat → Bytes
  | 0, _ => []
  | width + 1, n => UInt8.ofNat n :: littleEndian width (n / 256)

/-- The lowest `width` bytes of a number, most significant byte first. -/
def bigEndian (width n : Nat) : Bytes :=
  (littleEndian width n).reverse

/-- The number that a byte string writes with its least significant byte first. -/
def ofLittleEndian : Bytes → Nat
  | [] => 0
  | b :: rest => b.toNat + 256 * ofLittleEndian rest

@[simp]
theorem length_littleEndian (width n : Nat) : (littleEndian width n).length = width := by
  induction width generalizing n with
  | zero => rfl
  | succ width ih => simp [littleEndian, ih]

@[simp]
theorem length_bigEndian (width n : Nat) : (bigEndian width n).length = width := by
  simp [bigEndian]

theorem littleEndian_ofLittleEndian (bytes : Bytes) :
    littleEndian bytes.length (ofLittleEndian bytes) = bytes := by
  induction bytes with
  | nil => rfl
  | cons b rest ih =>
    have := b.toNat_lt
    simp only [List.length_cons, littleEndian, ofLittleEndian]
    rw [show (b.toNat + 256 * ofLittleEndian rest) / 256 = ofLittleEndian rest by omega, ih]
    congr 1
    apply UInt8.toNat_inj.1
    rw [UInt8.toNat_ofNat']
    omega

end FantasyComputer
