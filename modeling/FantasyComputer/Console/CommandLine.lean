/-
# FantasyComputer.Console.CommandLine — the arguments of the program.

Arguments are read from left to right and the first fault decides.  A long option takes its value
after an equals sign or as the next argument; a next argument that starts with a dash is no value,
unless it is the dash alone.  Options that do not list things may be given once.  After `--` every
argument is a path.  One path is needed, that of the cartridge.

`--help` and `-h` ask for the help text as soon as they are reached.
-/
import FantasyComputer.Text.Decimal
import FantasyComputer.Text.Hexadecimal

namespace FantasyComputer

/-- What the program is asked to do. -/
structure Options where
  /-- Path of the cartridge image. -/
  cartridge : String
  /-- Run without a window. -/
  headless : Bool := false
  /-- Frames to run, or the most steps of a run in the debugger. -/
  frames : Option Nat := none
  /-- Report what goes on. -/
  debug : Bool := false
  /-- Points to a pixel in the window at first. -/
  scale : Nat := 4
  /-- Addresses to stop at. -/
  breakpoints : List UInt16 := []
  /-- Run the debugger. -/
  step : Bool := false
  /-- Frame at which button A is pressed. -/
  press : Option Nat := none
  /-- Frames to preview. -/
  snapshots : List Nat := []
  /-- Path for a picture of the last frame. -/
  screenshot : Option String := none
  deriving Repr

namespace CommandLine

/-- Why arguments are rejected. -/
inductive Error where
  /-- An argument that means nothing here. -/
  | unexpected (argument : String)
  /-- An option without the value it needs. -/
  | missingValue (option : String)
  /-- An option with a value that it cannot have. -/
  | invalidValue (option value : String)
  /-- An option given twice. -/
  | repeated (option : String)
  /-- No path of a cartridge. -/
  | missingCartridge
  deriving DecidableEq, Repr

/-- The wording of an error. -/
def Error.message : Error → String
  | unexpected argument => "unexpected argument " ++ argument
  | missingValue option => "a value is required for " ++ option
  | invalidValue option value => "invalid value " ++ value ++ " for " ++ option
  | repeated option => option ++ " cannot be used multiple times"
  | missingCartridge => "the path of a cartridge is required"

/-- What the arguments ask for. -/
inductive Request where
  | run (options : Options)
  | help

/-! ## Options -/

/-- The options that are read so far; the cartridge and the scale may still be open. -/
structure Draft where
  cartridge : Option String := none
  scale : Option Nat := none
  options : Options := { cartridge := "" }

/-- An option: a switch, or one that takes a value. -/
inductive Kind where
  /-- Whether it is on already, and how to switch it on. -/
  | switch (isOn : Options → Bool) (turnOn : Options → Options)
  /-- Whether it is given already, and how to take a value, if the value is valid. -/
  | valued (isGiven : Draft → Bool) (take : Draft → String → Option Draft)

/-- Reads the scale of the window, from one to six. -/
def scale? (text : String) : Option Nat :=
  match Decimal.natural? text with
  | some n => if 1 ≤ n ∧ n ≤ 6 then some n else none
  | none => none

/-- The options by name. -/
def kind? (name : String) : Option Kind :=
  match name with
  | "headless" => some (.switch (·.headless) ({ · with headless := true }))
  | "debug" => some (.switch (·.debug) ({ · with debug := true }))
  | "step" => some (.switch (·.step) ({ · with step := true }))
  | "frames" =>
    some (.valued (·.options.frames.isSome) fun d v =>
      (Decimal.counter? v).map fun n => { d with options.frames := some n })
  | "press" =>
    some (.valued (·.options.press.isSome) fun d v =>
      (Decimal.counter? v).map fun n => { d with options.press := some n })
  | "scale" =>
    some (.valued (·.scale.isSome) fun d v =>
      (scale? v).map fun n => { d with scale := some n })
  | "screenshot" =>
    some (.valued (·.options.screenshot.isSome) fun d v =>
      if v = "" then none else some { d with options.screenshot := some v })
  | "break" =>
    some (.valued (fun _ => false) fun d v =>
      (Hexadecimal.address? v).map fun a =>
        { d with options.breakpoints := d.options.breakpoints ++ [a] })
  | "snapshot" =>
    some (.valued (fun _ => false) fun d v =>
      (Decimal.counter? v).map fun n =>
        { d with options.snapshots := d.options.snapshots ++ [n] })
  | _ => none

/-- Takes the value of an option. -/
def takeValue (name : String) (isGiven : Draft → Bool) (take : Draft → String → Option Draft)
    (d : Draft) (value : String) : Except Error Draft :=
  if isGiven d then .error (.repeated name)
  else
    match take d value with
    | some d => .ok d
    | none => .error (.invalidValue name value)

/-- Takes a path. -/
def takePath (d : Draft) (path : String) : Except Error Draft :=
  if path = "" then .error .missingCartridge
  else if d.cartridge.isSome then .error (.unexpected path)
  else .ok { d with cartridge := some path }

/-- Takes paths only. -/
def takePaths (d : Draft) : List String → Except Error Draft
  | [] => .ok d
  | path :: rest => do
    let d ← takePath d path
    takePaths d rest

/-- The request of a finished draft. -/
def finish (d : Draft) : Except Error Request :=
  match d.cartridge with
  | some cartridge => .ok (.run { d.options with cartridge, scale := d.scale.getD 4 })
  | none => .error .missingCartridge

/-- Whether an argument cannot be the value of an option before it. -/
def isDashed (argument : String) : Bool :=
  match argument.toList with
  | '-' :: _ :: _ => true
  | _ => false

/-- Splits the rest of a long option at its first equals sign. -/
def splitValue (text : List Char) : String × Option String :=
  let name := String.ofList (text.takeWhile (· ≠ '='))
  match text.dropWhile (· ≠ '=') with
  | [] => (name, none)
  | _ :: value => (name, some (String.ofList value))

/-- Reads arguments into a draft. -/
def readFrom (d : Draft) : List String → Except Error Request
  | [] => finish d
  | argument :: rest =>
    match argument.toList with
    | ['-', '-'] => takePaths d rest >>= finish
    | '-' :: '-' :: text =>
      let (name, value) := splitValue text
      match name, value, kind? name with
      | "help", none, _ => .ok .help
      | _, none, some (.switch isOn turnOn) =>
        if isOn d.options then .error (.repeated name)
        else readFrom { d with options := turnOn d.options } rest
      | _, some value, some (.valued isGiven take) =>
        takeValue name isGiven take d value >>= fun d => readFrom d rest
      | _, none, some (.valued isGiven take) =>
        match rest with
        | [] => .error (.missingValue name)
        | value :: rest =>
          if isDashed value then .error (.missingValue name)
          else takeValue name isGiven take d value >>= fun d => readFrom d rest
      | _, _, _ => .error (.unexpected argument)
    | '-' :: 'h' :: _ => .ok .help
    | '-' :: _ :: _ => .error (.unexpected argument)
    | _ => takePath d argument >>= fun d => readFrom d rest

/-- Reads the arguments of the program. -/
def read (arguments : List String) : Except Error Request :=
  readFrom {} arguments

/-- The help text. -/
def helpText : String :=
  "XVM-8 fantasy computer emulator

Usage: xvm8-emu [OPTIONS] <ROM>

Arguments:
  <ROM>  Cartridge image (.xvm)

Options:
      --headless           Run without a window
      --frames <FRAMES>    Frames to run (headless), or max steps for `r` (step mode)
      --debug              Per-frame diagnostics and debug logging
      --scale <SCALE>      Initial window scale [default: 4]
      --break <ADDR>       Breakpoint at hex address (repeatable)
      --step               Interactive step debugger
      --press <FRAME>      Press A on this frame (headless)
      --snapshot <FRAME>   Print the display at this frame (headless, repeatable)
      --screenshot <PATH>  Write a PNG of the last frame (headless)
  -h, --help               Print help
"

end CommandLine

end FantasyComputer
