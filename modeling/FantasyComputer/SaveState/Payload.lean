/-
# FantasyComputer.SaveState.Payload — a save state as a byte string.

The fields stand in a fixed order and numbers have a fixed width, least significant byte first:
the registers `A B C D`, program counter, stack pointer and flags; the cycle count in eight bytes and
the frame count in four; the running flag as a byte 0 or 1; RAM, video RAM and the I/O page; the
palette; and ROM.  A region is its length in eight bytes and then its bytes; the palette has no
length.

Reading takes the fields in that order and stops at the first that is wrong.  Bytes after the last
field are not looked at.
-/
import FantasyComputer.SaveState

namespace FantasyComputer.SaveState

/-- Why a file is refused. -/
inductive Error where
  /-- The file is shorter than its header. -/
  | tooSmall
  /-- The file does not start with the letters of the format. -/
  | badMagic
  /-- The file has another version of the format. -/
  | unsupportedVersion (version : UInt32)
  /-- The compressed part cannot be decompressed, about which the codec has some words. -/
  | notInflatable {words : String}
  /-- The payload ends before its last field. -/
  | unexpectedEnd
  /-- The running flag is neither 0 nor 1. -/
  | invalidFlag (found : UInt8)
  deriving DecidableEq, Repr

/-- The wording of an error. -/
def Error.message : Error → String
  | tooSmall => "save state error: file too small"
  | badMagic => "save state error: bad magic"
  | unsupportedVersion version =>
    "save state error: unsupported version " ++ toString version.toNat ++ " (expected 1)"
  | @notInflatable words => "save state error: decompress error" ++ words
  | unexpectedEnd => "encode error: io error: unexpected end of file"
  | invalidFlag found =>
    "encode error: invalid u8 while decoding bool, expected 0 or 1, found "
      ++ toString found.toNat

/-! ## Writing -/

/-- A region as its length and its bytes. -/
def regionBytes (region : Array UInt8) : Bytes :=
  littleEndian 8 region.size ++ region.toList

/-- The registers. -/
def registerBytes (r : Registers) : Bytes :=
  [r.a, r.b, r.c, r.d] ++ littleEndian 2 r.pc.toNat ++ littleEndian 2 r.sp.toNat ++ [r.flags]

/-- A save state as a byte string. -/
def payload (s : SaveState) : Bytes :=
  registerBytes s.registers
    ++ littleEndian 8 s.cycles.toNat
    ++ littleEndian 4 s.frameCount.toNat
    ++ [if s.running then 1 else 0]
    ++ regionBytes s.ram
    ++ regionBytes s.video
    ++ regionBytes s.io
    ++ s.palette.toList
    ++ regionBytes s.rom

/-! ## Reading -/

/-- A reader takes a field from the front of a byte string or says what is wrong. -/
abbrev Reader := StateT Bytes (Except Error)

namespace Reader

/-- Takes a number of bytes. -/
def take (count : Nat) : Reader Bytes := fun bytes =>
  if bytes.length < count then .error .unexpectedEnd
  else .ok (bytes.take count, bytes.drop count)

/-- Takes a number of a fixed width. -/
def number (width : Nat) : Reader Nat := do
  let bytes ← take width
  return ofLittleEndian bytes

/-- Takes a byte. -/
def byte : Reader UInt8 := do
  let n ← number 1
  return UInt8.ofNat n

/-- Takes a word. -/
def word : Reader UInt16 := do
  let n ← number 2
  return UInt16.ofNat n

/-- Takes a flag. -/
def flag : Reader Bool := do
  let b ← byte
  match b with
  | 0 => return false
  | 1 => return true
  | found => throw (.invalidFlag found)

/-- Takes a region: its length, then its bytes. -/
def region : Reader (Array UInt8) := do
  let length ← number 8
  let bytes ← take length
  return bytes.toArray

/-- Takes a palette. -/
def palette : Reader Palette := do
  let bytes ← take paletteSize
  return Vector.ofFn fun i => bytes.getD i 0

/-- Takes the registers. -/
def registers : Reader Registers := do
  let a ← byte
  let b ← byte
  let c ← byte
  let d ← byte
  let pc ← word
  let sp ← word
  let flags ← byte
  return { a, b, c, d, pc, sp, flags }

/-- Takes a save state. -/
def saveState : Reader SaveState := do
  let registers ← registers
  let cycles ← number 8
  let frameCount ← number 4
  let running ← flag
  let ram ← region
  let video ← region
  let io ← region
  let palette ← palette
  let rom ← region
  return {
    registers, running, ram, video, io, palette, rom
    cycles := UInt64.ofNat cycles
    frameCount := UInt32.ofNat frameCount }

end Reader

/-- Reads a save state from the front of a byte string. -/
def ofPayload (bytes : Bytes) : Except Error SaveState :=
  (Reader.saveState.run bytes).map Prod.fst

end FantasyComputer.SaveState
