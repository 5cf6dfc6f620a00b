/-
# FantasyComputer.Console — the program as a function.

A `Host` is what the program finds where it runs: files in the session's own directory and around
it, typed input, and perhaps a window and gamepads.  `Console.run` gives the `Outcome` of the program
with some arguments: its exit code, what it printed, the file system afterwards, and what its window
answered.

The exit code is 2 when the arguments are rejected, 1 when the cartridge cannot be read or is
refused, when no window can be opened or when the picture of a headless run cannot be written, and
otherwise 0.
-/
import FantasyComputer.Console.Debugger
import FantasyComputer.Console.Headless
import FantasyComputer.Console.Windowed

namespace FantasyComputer

/-- What the program finds where it runs. -/
structure Host where
  /-- The files in the session's own directory. -/
  files : Directory
  /-- What is typed. -/
  input : Debugger.Input
  /-- What a window reports pass by pass, if there can be a window. -/
  window : Option (List Windowed.Pass)
  /-- The gamepads that are present, if there can be gamepads. -/
  pads : Option (List String)
  /-- The file system in which the session's directory lies. -/
  around : FileSystem := .bare
  /-- How save states are compressed. -/
  states : Codec := SaveState.compression
  /-- How pictures are compressed. -/
  pictures : Codec := Png.compression 128

/-- The file system that the program finds. -/
def Host.system (host : Host) : FileSystem :=
  host.around.holding host.files

/-- What the program leaves behind. -/
structure Outcome (α : Type) where
  code : Nat
  transcript : Transcript
  system : FileSystem
  /-- What the window answered to each order. -/
  answers : Array α

variable {α : Type}

/-- The files that the program leaves in the session's own directory. -/
def Outcome.files (o : Outcome α) : Directory :=
  o.system.here

namespace Console

/-- A machine with a cartridge, ready to run. -/
def boot (o : Options) (image : Bytes) : Except Cartridge.Error Machine :=
  let m := { Machine.initial with debug := o.debug, breakpoints := o.breakpoints }
  (m.insert image).map Machine.start

/-- Reports what happened while a machine was made ready. -/
def reportBoot (o : Options) (m : Machine) (t : Transcript) : Machine × Transcript :=
  let (notices, m) := m.takeJournal
  (m, o.breakpoints.foldl (fun t address =>
    t.report .debug ("Breakpoint: 0x" ++ Hexadecimal.word address)) (t.reportNotices notices))

/-- The reason given for a cartridge that cannot be read or is refused. -/
def cartridgeReason (path message : String) : String :=
  path ++ ": " ++ message

/-- The report of a program that fails. -/
def complainFailure (t : Transcript) (reason : String) : Transcript :=
  t.complain ("Error: " ++ reason)

/-- The reason given when no window can be opened. -/
def noWindow : String :=
  "no display"

/-- The report of arguments that are rejected. -/
def complainArguments (t : Transcript) (e : CommandLine.Error) : Transcript :=
  t.complain ("error: " ++ e.message)

/-- The end of a program that fails. -/
def fail (system : FileSystem) (t : Transcript) (reason : String) : Outcome α :=
  { code := 1, transcript := complainFailure t reason, system, answers := #[] }

/-- Runs without a window. -/
def runHeadless (o : Options) (host : Host) (m : Machine) (t : Transcript) : Outcome α :=
  let r := Headless.run o { machine := m, transcript := t }
  let done (system : FileSystem) (r : Headless.Run) : Outcome α :=
    { code := 0, transcript := (Headless.conclude r).transcript, system, answers := #[] }
  match o.screenshot with
  | none => done host.system r
  | some path =>
    match host.system.write path (Headless.picture host.pictures r.machine) with
    | .ok system => done system (r.printing (Headless.reportPicture path))
    | .error e => fail host.system r.transcript e.message

/-- Runs the debugger. -/
def runDebugger (o : Options) (host : Host) (m : Machine) (t : Transcript) : Outcome α :=
  let s := Debugger.Session.run (o.frames.getD Debugger.defaultLimit) (Debugger.lines host.input)
    { machine := m, steps := 0, transcript := t }
  { code := 0, transcript := s.transcript, system := host.system, answers := #[] }

/-- Runs in a window. -/
def runWindowed (o : Options) (host : Host) (window : Windowed.Display → α) (image : Bytes)
    (m : Machine) (t : Transcript) : Outcome α :=
  match host.window with
  | none => fail host.system t noWindow
  | some passes =>
    let setup : Windowed.Session.Setup :=
      { image
        statePath := Path.saveState o.cartridge
        padsAvailable := host.pads.isSome
        states := host.states
        pictures := host.pictures }
    let s := Windowed.Session.start o.scale host.system m (Windowed.reportPads host.pads t)
    let (s, answers) := s.performAll setup window #[window (Windowed.Session.opening o.scale)] passes
    { code := 0, transcript := s.transcript, system := s.files, answers }

/-- Runs with options. -/
def runWith (o : Options) (host : Host) (window : Windowed.Display → α) : Outcome α :=
  let t : Transcript := { debug := o.debug }
  match host.system.read o.cartridge with
  | .error e => fail host.system t (cartridgeReason o.cartridge e.message)
  | .ok image =>
    match boot o image with
    | .error e =>
      fail host.system (t.reportNotices #[.cartridgeRejected e])
        (cartridgeReason o.cartridge e.message)
    | .ok m =>
      let (m, t) := reportBoot o m t
      if o.step then runDebugger o host m t
      else if o.headless then runHeadless o host m t
      else runWindowed o host window image m t

/-- Runs the program. -/
def run (arguments : List String) (host : Host) (window : Windowed.Display → α) : Outcome α :=
  let t : Transcript := { debug := false }
  match CommandLine.read arguments with
  | .error e =>
    { code := 2, transcript := complainArguments t e, system := host.system, answers := #[] }
  | .ok .help =>
    { code := 0, transcript := t.print CommandLine.helpText, system := host.system, answers := #[] }
  | .ok (.run o) => runWith o host window

end Console

end FantasyComputer
