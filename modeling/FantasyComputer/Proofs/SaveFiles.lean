/-
# FantasyComputer.Proofs.SaveFiles — a save state file is read back.

A reader `Reads` a value from the bytes that write it if it takes these bytes and no more, whatever
comes after them.  The readers of single fields do so, one after the other reads one field after the
other (`Reads.bind`), and so the whole payload is read (`reads_saveState`).

With a lossless codec this gives `decode_encode`.  Every region may have any length that its length
field can hold.
-/
import FantasyComputer.Proofs.Codecs
import FantasyComputer.Proofs.PositionalNumbers
import FantasyComputer.SaveState.File

namespace FantasyComputer.SaveState

/-! ## Reading what was written -/

/-- A reader takes these bytes and gives this value, whatever follows. -/
def Reads {α : Type} (reader : Reader α) (bytes : Bytes) (value : α) : Prop :=
  ∀ rest, reader.run (bytes ++ rest) = .ok (value, rest)

namespace Reads

variable {α β : Type} {reader : Reader α} {next : α → Reader β} {bytes more : Bytes} {value : α}
  {result : β}

theorem pure (value : α) : Reads (pure value) [] value :=
  fun _ => rfl

/-- One field after another. -/
theorem bind (h : Reads reader bytes value) (hnext : Reads (next value) more result) :
    Reads (reader >>= next) (bytes ++ more) result := by
  intro rest
  rw [StateT.run_bind, List.append_assoc, h]
  exact hnext rest

/-- A value made from one field. -/
theorem map (h : Reads reader bytes value) (f : α → β) :
    Reads (reader >>= fun value => Pure.pure (f value)) bytes (f value) := by
  intro rest
  rw [StateT.run_bind, h]
  rfl

end Reads

/-! ## Fields -/

theorem reads_take (bytes : Bytes) : Reads (Reader.take bytes.length) bytes bytes := by
  intro rest
  show (if (bytes ++ rest).length < bytes.length then _ else _) = _
  rw [if_neg (by rw [List.length_append]; omega), List.take_left, List.drop_left]

theorem reads_number {width n : Nat} (hn : n < 256 ^ width) :
    Reads (Reader.number width) (littleEndian width n) n := by
  have htake := reads_take (littleEndian width n)
  rw [length_littleEndian] at htake
  have hmap := htake.map ofLittleEndian
  rwa [ofLittleEndian_littleEndian hn] at hmap

theorem reads_byte (byte : UInt8) : Reads Reader.byte [byte] byte := by
  have hnumber := (reads_number (show byte.toNat < 256 ^ 1 from byte.toNat_lt)).map UInt8.ofNat
  rw [UInt8.ofNat_toNat] at hnumber
  have hbytes : littleEndian 1 byte.toNat = [byte] := by
    show [UInt8.ofNat byte.toNat] = [byte]
    rw [UInt8.ofNat_toNat]
  rwa [hbytes] at hnumber

theorem reads_word (word : UInt16) : Reads Reader.word (littleEndian 2 word.toNat) word := by
  have hnumber := (reads_number (show word.toNat < 256 ^ 2 from word.toNat_lt)).map UInt16.ofNat
  rwa [UInt16.ofNat_toNat] at hnumber

theorem reads_flag (flag : Bool) : Reads Reader.flag [if flag then 1 else 0] flag := by
  cases flag with
  | false => exact (reads_byte 0).bind (Reads.pure false)
  | true => exact (reads_byte 1).bind (Reads.pure true)

theorem reads_region {region : Array UInt8} (hsize : region.size < 2 ^ 64) :
    Reads Reader.region (regionBytes region) region := by
  have hlength : region.size < 256 ^ 8 := hsize
  have htake := (reads_take region.toList).map List.toArray
  rw [Array.length_toList, Array.toArray_toList] at htake
  exact (reads_number hlength).bind htake

theorem reads_palette (palette : Palette) : Reads Reader.palette palette.toList palette := by
  have htake := (reads_take palette.toList).map
    fun bytes => (Vector.ofFn fun i : Fin paletteSize => bytes.getD i 0 : Palette)
  have hsame : (Vector.ofFn fun i : Fin paletteSize => palette.toList.getD i 0 : Palette)
      = palette := by
    apply Vector.ext
    intro i hi
    rw [Vector.getElem_ofFn, List.getD_eq_getElem?_getD, Vector.getElem?_toList,
      Vector.getElem?_eq_getElem hi, Option.getD_some]
  rw [hsame, Vector.length_toList] at htake
  exact htake

theorem reads_registers (r : Registers) : Reads Reader.registers (registerBytes r) r := by
  unfold registerBytes
  simp only [List.append_assoc]
  exact (reads_byte r.a).bind ((reads_byte r.b).bind ((reads_byte r.c).bind ((reads_byte r.d).bind
    ((reads_word r.pc).bind ((reads_word r.sp).bind ((reads_byte r.flags).map _))))))

/-! ## Payloads and files -/

/-- Whether all regions have lengths that a length field can hold. -/
structure Storable (s : SaveState) : Prop where
  ram : s.ram.size < 2 ^ 64
  video : s.video.size < 2 ^ 64
  io : s.io.size < 2 ^ 64
  rom : s.rom.size < 2 ^ 64

/-- **The payload.**  The fields are read in the order in which they are written. -/
theorem reads_saveState {s : SaveState} (h : s.Storable) : Reads Reader.saveState s.payload s := by
  have hcycles : s.cycles.toNat < 256 ^ 8 := lt_of_lt_of_eq s.cycles.toNat_lt (by norm_num)
  have hframes : s.frameCount.toNat < 256 ^ 4 := lt_of_lt_of_eq s.frameCount.toNat_lt (by norm_num)
  have hlast : Reads (Reader.region >>= fun rom => pure
      { s with cycles := UInt64.ofNat s.cycles.toNat
               frameCount := UInt32.ofNat s.frameCount.toNat
               rom }) (regionBytes s.rom) s := by
    have hmap := (reads_region h.rom).map fun rom => { s with rom }
    rwa [UInt64.ofNat_toNat, UInt32.ofNat_toNat]
  unfold payload
  simp only [List.append_assoc]
  refine (reads_registers s.registers).bind ?_
  refine (reads_number hcycles).bind ?_
  refine (reads_number hframes).bind ?_
  refine (reads_flag s.running).bind ?_
  refine (reads_region h.ram).bind ?_
  refine (reads_region h.video).bind ?_
  refine (reads_region h.io).bind ?_
  refine (reads_palette s.palette).bind ?_
  exact hlast

/-- **A save state file is read back.** -/
theorem decode_encode (codec : LosslessCodec) {s : SaveState} (h : s.Storable) :
    decode (s.encode codec.toCodec) codec.toCodec = .ok s := by
  have hpayload : ofPayload s.payload = .ok s := by
    have hread := reads_saveState h []
    rw [List.append_nil] at hread
    rw [ofPayload, hread]
    rfl
  have hfile : s.encode codec.toCodec = 0x58 :: 0x56 :: 0x4D :: 0x53 :: 1 :: 0 :: 0 :: 0
      :: codec.compress s.payload := rfl
  rw [hfile, decode, if_neg (by decide), if_neg (by decide), codec.expand_compress]
  exact hpayload

/-- The codec that is used when nothing else is said. -/
def standardCodec : LosslessCodec :=
  .deflate distances (by decide)

/-- The regions of a machine have their full sizes. -/
theorem storable_saveState (m : Machine) : m.saveState.Storable where
  ram := by rw [Machine.saveState, Vector.size_toArray]; norm_num
  video := by rw [Machine.saveState, Vector.size_toArray]; norm_num
  io := by rw [Machine.saveState, Vector.size_toArray]; norm_num
  rom := by rw [Machine.saveState, Vector.size_toArray]; norm_num

end FantasyComputer.SaveState
