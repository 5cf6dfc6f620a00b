/-
# FantasyComputer.Proofs.FlatMemory — the address space as one array of bytes.

Behind an address lie four regions and a gap, and a write may reach a region and the palette at
once.  A program sees none of this: below the gap an address holds the last byte that was written to
it, wherever the borders of the regions are, and from the gap on it holds what it always held.

A store writes a byte or a word.  `bytesOf` lists the bytes that stores write, in their order, and
`lastByte?` picks the last one for an address.  One write is the step (`read_write`,
`palette_write`), a row of writes the run (`read_writeAll`, `palette_writeAll`), and `lastWriteWins`
puts together what holds after any stores.
-/
import FantasyComputer.Proofs.Halting
import FantasyComputer.Proofs.PaletteMirror
import FantasyComputer.Proofs.StepEffects

namespace FantasyComputer.Memory

variable {m : Memory}

/-! ## Stores of bytes and words -/

/-- A write of a byte or of a word. -/
inductive Store where
  | byte (address : UInt16) (value : UInt8)
  | word (address value : UInt16)

/-- Carries out a store. -/
def store (m : Memory) : Store → Memory
  | .byte address value => m.write address value
  | .word address value => m.writeWord address value

/-- Carries out stores one after another. -/
def storeAll (m : Memory) (stores : List Store) : Memory :=
  stores.foldl store m

/-- The bytes that a store writes, in their order.  The address after the last one is the first. -/
def Store.bytes : Store → List (UInt16 × UInt8)
  | .byte address value => [(address, value)]
  | .word address value => [(address, Word.low value), (address + 1, Word.high value)]

/-- The bytes that stores write, in their order. -/
def bytesOf (stores : List Store) : List (UInt16 × UInt8) :=
  stores.flatMap Store.bytes

/-- The last of some bytes that is for an address. -/
def lastByte? (address : UInt16) (bytes : List (UInt16 × UInt8)) : Option UInt8 :=
  (bytes.reverse.find? (·.1 == address)).map Prod.snd

theorem lastByte?_concat_self (address : UInt16) (bytes : List (UInt16 × UInt8)) (value : UInt8) :
    lastByte? address (bytes ++ [(address, value)]) = some value := by
  simp [lastByte?]

theorem lastByte?_concat_of_ne {address : UInt16} {byte : UInt16 × UInt8} (h : byte.1 ≠ address)
    (bytes : List (UInt16 × UInt8)) :
    lastByte? address (bytes ++ [byte]) = lastByte? address bytes := by
  simp [lastByte?, h]

/-- Stores are rows of bytes. -/
theorem storeAll_eq_writeAll (m : Memory) (stores : List Store) :
    m.storeAll stores = m.writeAll (bytesOf stores) := by
  induction stores generalizing m with
  | nil => rfl
  | cons store stores ih =>
    have hstore : m.store store = m.writeAll store.bytes := by
      cases store <;> rfl
    show (m.store store).storeAll stores = m.writeAll (store.bytes ++ bytesOf stores)
    rw [ih, hstore, writeAll, writeAll, writeAll, List.foldl_append]

/-! ## One write -/

/-- **One write.**  Below the gap it is seen at its own address and at no other. -/
theorem read_write (m : Memory) (address : UInt16) (value : UInt8) {other : UInt16}
    (hother : other.toNat < 0xC100) :
    (m.write address value).read other = if address = other then value else m.read other := by
  split
  · next heq =>
    rw [heq]
    exact read_write_self m value hother
  · next hne => exact read_write_of_ne m value (Ne.symm hne)

/-- A write to the mirror byte of a palette entry sets the entry, and no other write does. -/
theorem palette_write (m : Memory) (address : UInt16) (value : UInt8) (i : Fin paletteSize) :
    (m.write address value).palette.get i
      = if address = mirrorAddress i then value else m.palette.get i := by
  split
  · next heq =>
    rw [heq]
    exact palette_write_self m i value
  · next hne => exact palette_write_of_ne m value hne

/-! ## Rows of writes -/

theorem writeAll_concat (m : Memory) (bytes : List (UInt16 × UInt8)) (byte : UInt16 × UInt8) :
    m.writeAll (bytes ++ [byte]) = (m.writeAll bytes).write byte.1 byte.2 :=
  List.foldl_concat ..

/-- Whatever shows a write at one address and nowhere else shows the last byte for that address. -/
theorem eq_lastByte?_of_write (part : Memory → UInt8) (address : UInt16)
    (hwrite : ∀ (m : Memory) (target : UInt16) (value : UInt8),
      part (m.write target value) = if target = address then value else part m)
    (m : Memory) (bytes : List (UInt16 × UInt8)) :
    part (m.writeAll bytes) = (lastByte? address bytes).getD (part m) := by
  induction bytes using List.reverseRecOn with
  | nil => rfl
  | append_singleton bytes byte ih =>
    rw [writeAll_concat, hwrite]
    split
    · next heq =>
      subst heq
      rw [lastByte?_concat_self, Option.getD_some]
    · next hne => rw [lastByte?_concat_of_ne hne, ih]

theorem read_writeAll (m : Memory) (bytes : List (UInt16 × UInt8)) {address : UInt16}
    (h : address.toNat < 0xC100) :
    (m.writeAll bytes).read address = (lastByte? address bytes).getD (m.read address) :=
  eq_lastByte?_of_write (read · address) address (fun m target value => read_write m target value h)
    m bytes

theorem palette_writeAll (m : Memory) (bytes : List (UInt16 × UInt8)) (i : Fin paletteSize) :
    (m.writeAll bytes).palette.get i
      = (lastByte? (mirrorAddress i) bytes).getD (m.palette.get i) :=
  eq_lastByte?_of_write (palette · |>.get i) (mirrorAddress i)
    (fun m target value => palette_write m target value i) m bytes

theorem rom_writeAll (m : Memory) (bytes : List (UInt16 × UInt8)) :
    (m.writeAll bytes).rom = m.rom := by
  induction bytes generalizing m with
  | nil => rfl
  | cons byte bytes ih => exact (ih _).trans (rom_write m byte.1 byte.2)

/-! ## Words -/

/-- A word is read with its low byte first. -/
theorem toNat_readWord (m : Memory) (address : UInt16) :
    (m.readWord address).toNat = (m.read address).toNat + 256 * (m.read (address + 1)).toNat :=
  Word.toNat_ofHalves _ _

theorem address_ne_succ (address : UInt16) : address ≠ address + 1 := by
  intro h
  have hnat := congrArg UInt16.toNat h
  rw [UInt16.toNat_add] at hnat
  have := address.toNat_lt
  change address.toNat = (address.toNat + 1) % 65536 at hnat
  omega

/-- A word that is written below the gap is read back, even across the border of two regions. -/
theorem readWord_writeWord (m : Memory) {address : UInt16} (value : UInt16)
    (hlow : address.toNat < 0xC100) (hhigh : (address + 1).toNat < 0xC100) :
    (m.writeWord address value).readWord address = value := by
  have hfirst : (m.writeWord address value).read address = Word.low value := by
    rw [writeWord, read_write_of_ne _ _ (address_ne_succ address), read_write_self _ _ hlow]
  have hsecond : (m.writeWord address value).read (address + 1) = Word.high value :=
    read_write_self _ _ hhigh
  rw [readWord, hfirst, hsecond, Word.ofHalves_low_high]

/-! ## The whole address space -/

/-- What holds of a memory after stores. -/
structure LastWriteWins (m : Memory) (stores : List Store) : Prop where
  /-- Below the gap an address holds the last byte written to it. -/
  below : ∀ address, address.toNat < 0xC100 →
    (m.storeAll stores).read address
      = (lastByte? address (bytesOf stores)).getD (m.read address)
  /-- From the gap on an address holds what it held. -/
  above : ∀ address, 0xC100 ≤ address.toNat →
    (m.storeAll stores).read address = m.read address
  /-- The gap is zero. -/
  gap : ∀ address, 0xC100 ≤ address.toNat → address.toNat < 0xE000 →
    (m.storeAll stores).read address = 0
  /-- A palette entry is the last byte written to its mirror byte. -/
  palette : ∀ i, (m.storeAll stores).palette.get i
    = (lastByte? (mirrorAddress i) (bytesOf stores)).getD (m.palette.get i)
  rom : (m.storeAll stores).rom = m.rom
  /-- A word is written with its low byte first and its high byte behind it. -/
  writeWord : ∀ address value, (m.storeAll stores).writeWord address value
    = ((m.storeAll stores).write address (Word.low value)).write (address + 1) (Word.high value)
  /-- A word is read in the same order. -/
  readWord : ∀ address, ((m.storeAll stores).readWord address).toNat
    = ((m.storeAll stores).read address).toNat
      + 256 * ((m.storeAll stores).read (address + 1)).toNat
  /-- Below the gap a word is read back as it was written. -/
  readWord_writeWord : ∀ address value, address.toNat < 0xC100 → (address + 1).toNat < 0xC100 →
    ((m.storeAll stores).writeWord address value).readWord address = value
  /-- At the last address a word pairs the last byte of ROM with the first of RAM. -/
  readWord_last : (m.storeAll stores).readWord 0xFFFF
    = Word.ofHalves ((m.storeAll stores).rom.get 0x1FFF) ((m.storeAll stores).ram.get 0)
  /-- Of a word that is written there the high byte arrives. -/
  writeWord_last : ∀ value, (m.storeAll stores).writeWord 0xFFFF value
    = { m.storeAll stores with
        ram := (m.storeAll stores).ram.set (0 : Fin ramSize) (Word.high value) (Fin.isLt 0) }

/-- **The last write wins**, below the gap and nowhere else. -/
theorem lastWriteWins (m : Memory) (stores : List Store) : LastWriteWins m stores where
  below address h := by
    rw [storeAll_eq_writeAll]
    exact read_writeAll m _ h
  above address h := by
    rw [storeAll_eq_writeAll]
    exact read_eq_of_above (rom_writeAll m _) (UInt16.le_iff_toNat_le.mpr h)
  gap address hlow hhigh := by
    apply read_of_gap
    rw [locate_eq]
    rw [dif_neg (by omega), dif_neg (by omega), dif_neg (by omega), if_pos hhigh]
  palette i := by
    rw [storeAll_eq_writeAll]
    exact palette_writeAll m _ i
  rom := by
    rw [storeAll_eq_writeAll]
    exact rom_writeAll m _
  writeWord _ _ := rfl
  readWord address := toNat_readWord _ address
  readWord_writeWord address value := readWord_writeWord _ value
  readWord_last := rfl
  writeWord_last _ := rfl

end FantasyComputer.Memory
