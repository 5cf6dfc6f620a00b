/-
# FantasyComputer.SaveState.File — save state files.

A file is the four letters `XVMS`, the version of the format in four bytes with the least significant
first, and the compressed payload.  Faults are found in that order: a file shorter than the header,
wrong letters, another version, a part that cannot be decompressed, and then those of the payload.
-/
import FantasyComputer.Compression.Codec
import FantasyComputer.SaveState.Payload

namespace FantasyComputer.SaveState

/-- The letters at the start of a file. -/
def magic : Bytes :=
  [0x58, 0x56, 0x4D, 0x53]

/-- The version of the format. -/
def version : UInt32 := 1

/-- Distances at which a payload repeats itself: a byte, and a row of the picture. -/
def distances : List Nat :=
  [1, 128]

/-- How payloads are compressed when nothing else is said. -/
def compression : Codec :=
  .deflate distances

/-- A save state as a file. -/
def encode (s : SaveState) (codec : Codec := compression) : Bytes :=
  magic ++ littleEndian 4 version.toNat ++ codec.compress s.payload

/-- Reads a file. -/
def decode (file : Bytes) (codec : Codec := compression) : Except Error SaveState :=
  match file with
  | m₀ :: m₁ :: m₂ :: m₃ :: v₀ :: v₁ :: v₂ :: v₃ :: compressed =>
    let found := UInt32.ofNat (ofLittleEndian [v₀, v₁, v₂, v₃])
    if [m₀, m₁, m₂, m₃] ≠ magic then .error .badMagic
    else if found ≠ version then .error (.unsupportedVersion found)
    else
      match codec.expand compressed with
      | .error words => .error (@Error.notInflatable words)
      | .ok bytes => ofPayload bytes
  | _ => .error .tooSmall

end FantasyComputer.SaveState
