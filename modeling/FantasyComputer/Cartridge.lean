/-
# FantasyComputer.Cartridge — cartridge images.

An image is the four letters `XVM8`, the entry point and a size field as words with the low byte
first, and then the program, at most as long as ROM.  The size field is carried along and not
checked, and neither is the entry point: a program may start in what ROM held before.
-/
import FantasyComputer.Memory
import FantasyComputer.Text.Hexadecimal

namespace FantasyComputer

/-- What a cartridge image holds. -/
structure Cartridge where
  /-- Address of the first instruction. -/
  entry : UInt16
  /-- The size field, as it stands. -/
  declaredSize : UInt16
  /-- The bytes for the start of ROM. -/
  program : Bytes
  deriving DecidableEq, Repr

namespace Cartridge

/-- Why an image is refused. -/
inductive Error where
  /-- The image is shorter than its header. -/
  | tooShort (length : Nat)
  /-- The image does not start with the letters of the format. -/
  | badMagic (first second third fourth : UInt8)
  /-- The program does not fit into ROM. -/
  | tooLarge (length : Nat)
  deriving DecidableEq, Repr

/-- The wording of an error. -/
def Error.message : Error → String
  | tooShort length => "ROM image too short: " ++ toString length ++ " bytes (header is 8)"
  | badMagic m₀ m₁ m₂ m₃ =>
    "invalid ROM format: bad magic [" ++ ", ".intercalate ([m₀, m₁, m₂, m₃].map Hexadecimal.byte)
      ++ "] (expected \"XVM8\")"
  | tooLarge length => "ROM program too large: " ++ toString length ++ " bytes (max 8192)"

/-- The letters at the start of an image. -/
def magic : Bytes :=
  [0x58, 0x56, 0x4D, 0x38]

/-- Reads an image. -/
def parse (image : Bytes) : Except Error Cartridge :=
  match image with
  | m₀ :: m₁ :: m₂ :: m₃ :: e₀ :: e₁ :: s₀ :: s₁ :: program =>
    if [m₀, m₁, m₂, m₃] ≠ magic then .error (.badMagic m₀ m₁ m₂ m₃)
    else if romSize < program.length then .error (.tooLarge program.length)
    else .ok { entry := Word.ofHalves e₀ e₁, declaredSize := Word.ofHalves s₀ s₁, program }
  | short => .error (.tooShort short.length)

end Cartridge

end FantasyComputer
