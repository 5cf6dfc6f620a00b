/-
# FantasyComputer.Notice — what the machine reports to its host while it works.

A `Notice` records an event together with the facts that its report shows; `Notice.level` says how
important it is and `Notice.text` words it.  The machine collects notices in the order of the events
and never looks at them again.

`Registers.summary` is the two-line view of all registers and the cycle count that debuggers show;
the report of a `BREAK` puts both lines into one.
-/
import FantasyComputer.Cartridge
import FantasyComputer.Registers

namespace FantasyComputer

/-! ## The register view -/

/-- All registers and the cycle count, in two lines. -/
def Registers.summary (r : Registers) (cycles : UInt64) : List String :=
  ["A=" ++ Hexadecimal.byte r.a ++ " B=" ++ Hexadecimal.byte r.b ++ " C=" ++ Hexadecimal.byte r.c
      ++ " D=" ++ Hexadecimal.byte r.d,
    "PC=" ++ Hexadecimal.word r.pc ++ " SP=" ++ Hexadecimal.word r.sp ++ " F="
      ++ Flags.text r.flags ++ " (0x" ++ Hexadecimal.byte r.flags ++ ") cycles=" ++ toString cycles]

/-! ## Notices -/

/-- How important a report is. -/
inductive Level where
  | error
  | warning
  | info
  | debug
  deriving DecidableEq, Repr

/-- The name of a level in a report. -/
def Level.name : Level → String
  | error => "ERROR"
  | warning => "WARN"
  | info => "INFO"
  | debug => "DEBUG"

/-- An event that the host may want to hear of. -/
inductive Notice where
  /-- A cartridge was put in. -/
  | cartridgeLoaded (length : Nat) (entry : UInt16)
  /-- A cartridge image was refused. -/
  | cartridgeRejected (error : Cartridge.Error)
  /-- A `BREAK` at an address was executed, with these registers after it. -/
  | breakExecuted (address : UInt16) (registers : Registers) (cycles : UInt64)
  /-- A byte without meaning was executed. -/
  | undefinedExecuted (opcode : UInt8) (address : UInt16)
  /-- An interrupt was let in before the instruction at an address. -/
  | interruptTaken (address : UInt16) (cycles : UInt64)
  /-- A frame was finished. -/
  | frameFinished (number : UInt32) (pc : UInt16) (cycles : UInt64) (running : Bool)
  deriving DecidableEq, Repr

/-- How important a notice is. -/
def Notice.level : Notice → Level
  | cartridgeLoaded .. => .info
  | cartridgeRejected .. => .warning
  | breakExecuted .. => .info
  | undefinedExecuted .. => .debug
  | interruptTaken .. => .debug
  | frameFinished .. => .debug

/-- The wording of a notice. -/
def Notice.text : Notice → String
  | cartridgeLoaded length entry =>
    "Loaded ROM: " ++ toString length ++ " bytes, entry 0x" ++ Hexadecimal.word entry
  | cartridgeRejected error => "ROM rejected: " ++ error.message
  | breakExecuted address registers cycles =>
    "BREAK at PC=0x" ++ Hexadecimal.word address ++ ": "
      ++ " ".intercalate (registers.summary cycles)
  | undefinedExecuted opcode address =>
    "unknown opcode 0x" ++ Hexadecimal.byte opcode ++ " at pc=0x" ++ Hexadecimal.word address
  | interruptTaken address cycles =>
    "IRQ taken at pc=0x" ++ Hexadecimal.word address ++ ", cycles=" ++ toString cycles
  | frameFinished number pc cycles running =>
    "Frame " ++ toString number ++ ": pc=0x" ++ Hexadecimal.word pc ++ " cycles="
      ++ toString cycles ++ " running=" ++ (if running then "true" else "false")

end FantasyComputer
