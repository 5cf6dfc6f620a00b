/-
# FantasyComputer.Checksum — the two checksums of compressed pictures.

`crc32` is the cyclic redundancy check of picture chunks.  The register holds the remainder with its
bits reversed, so a byte enters at the low end and each bit that falls out subtracts the divisor;
the register starts with all bits set and is complemented at the end.

`adler32` is the checksum of a compressed stream's contents: a sum of the bytes and a sum of these
sums, both modulo the largest prime below 65536.
-/
import FantasyComputer.Word

namespace FantasyComputer

namespace Crc32

/-- The divisor with its bits reversed and its highest term left out. -/
def divisor : UInt32 := 0xEDB88320

/-- Moves the register on by one bit. -/
def shift (register : UInt32) : UInt32 :=
  if register &&& 1 = 1 then register >>> 1 ^^^ divisor else register >>> 1

/-- Moves the register on by several bits. -/
def shiftBy : (count : Nat) → UInt32 → UInt32
  | 0, register => register
  | count + 1, register => shiftBy count (shift register)

/-- Lets a byte into the register. -/
def update (register : UInt32) (byte : UInt8) : UInt32 :=
  shiftBy 8 (register ^^^ byte.toUInt32)

end Crc32

/-- The cyclic redundancy check of a byte string. -/
def crc32 (bytes : Bytes) : UInt32 :=
  bytes.foldl Crc32.update 0xFFFFFFFF ^^^ 0xFFFFFFFF

namespace Adler32

/-- The largest prime below 65536. -/
def modulus : Nat := 65521

/-- Lets a byte into the two sums. -/
def update (sums : Nat × Nat) (byte : UInt8) : Nat × Nat :=
  let low := (sums.1 + byte.toNat) % modulus
  (low, (sums.2 + low) % modulus)

end Adler32

/-- The sum of the bytes and the sum of these sums, as one number. -/
def adler32 (bytes : Bytes) : Nat :=
  let (low, high) := bytes.foldl Adler32.update (1, 0)
  high * 0x10000 + low

end FantasyComputer
