/-
# FantasyComputer.Main — the program on a terminal.

Reads files and typed lines, prints, and writes files; everything that is decided is decided by
`FantasyComputer.Console` and the modules below it.  There is no window here, so a session in a
window ends with the report that there is no display.
-/
import FantasyComputer.Console

open FantasyComputer

/-- Prints what a transcript holds and empties it. -/
def Terminal.flush (t : Transcript) : IO Transcript := do
  let out ← IO.getStdout
  let err ← IO.getStderr
  err.putStr t.err
  out.putStr t.out
  out.flush
  return { t with out := "", err := "" }

/-- The number by which the system knows a failure to read or write a file; some of its parts give
the number with its sign turned. -/
def Terminal.errorNumber? (e : IO.Error) : Option Nat :=
  match e with
  | .noFileOrDirectory _ code _ | .inappropriateType _ code _ | .invalidArgument _ code _
  | .permissionDenied _ code _ | .resourceExhausted _ code _ | .otherError code _ =>
    some (min code.toNat (0 - code).toNat)
  | _ => none

/-- The wording of a failure to read or write a file. -/
def Terminal.fileMessage (e : IO.Error) : String :=
  match (Terminal.errorNumber? e).bind FileError.ofNumber? with
  | some cause => cause.message
  | none => toString e

/-- Ends with a failure. -/
def Terminal.fail (t : Transcript) (reason : String) : IO UInt32 := do
  let _ ← Terminal.flush (Console.complainFailure t reason)
  return 1

/-- Asks for lines and carries them out until the session ends. -/
partial def Terminal.converse (limit : Nat) (s : Debugger.Session) : IO Debugger.Session := do
  let s := s.ask
  let s := { s with transcript := ← Terminal.flush s.transcript }
  -- a line that is no text cannot be read, and ends the session as the end of the input does
  match ← (← IO.getStdin).getLine.toBaseIO with
  | .error _ | .ok "" => return s
  | .ok line =>
    match Debugger.Session.perform limit (Debugger.Command.read line) s with
    | none => return s
    | some s => Terminal.converse limit s

/-- Runs the debugger. -/
def Terminal.runDebugger (o : Options) (m : Machine) (t : Transcript) : IO UInt32 := do
  let s : Debugger.Session := { machine := m, steps := 0, transcript := t }
  let s ← Terminal.converse (o.frames.getD Debugger.defaultLimit) s.greet
  let _ ← Terminal.flush s.farewell.transcript
  return 0

/-- Runs without a window. -/
def Terminal.runHeadless (o : Options) (m : Machine) (t : Transcript) : IO UInt32 := do
  let r := Headless.run o { machine := m, transcript := t }
  match o.screenshot with
  | none =>
    let _ ← Terminal.flush (Headless.conclude r).transcript
    return 0
  | some path =>
    try
      IO.FS.writeBinFile path ⟨(Headless.picture (Png.compression 128) r.machine).toArray⟩
    catch e =>
      return ← Terminal.fail r.transcript (Terminal.fileMessage e)
    let _ ← Terminal.flush (Headless.conclude (r.printing (Headless.reportPicture path))).transcript
    return 0

/-- Runs with options. -/
def Terminal.run (o : Options) : IO UInt32 := do
  let t : Transcript := { debug := o.debug }
  match ← (IO.FS.readBinFile o.cartridge).toBaseIO with
  | .error e => Terminal.fail t (Console.cartridgeReason o.cartridge (Terminal.fileMessage e))
  | .ok image =>
    match Console.boot o image.toList with
    | .error e =>
      Terminal.fail (t.reportNotices #[.cartridgeRejected e])
        (Console.cartridgeReason o.cartridge e.message)
    | .ok m =>
      let (m, t) := Console.reportBoot o m t
      if o.step then Terminal.runDebugger o m t
      else if o.headless then Terminal.runHeadless o m t
      else Terminal.fail t Console.noWindow

/-- Runs the program. -/
def main (arguments : List String) : IO UInt32 := do
  let t : Transcript := { debug := false }
  match CommandLine.read arguments with
  | .error e =>
    let _ ← Terminal.flush (Console.complainArguments t e)
    return 2
  | .ok .help =>
    let _ ← Terminal.flush (t.print CommandLine.helpText)
    return 0
  | .ok (.run o) => Terminal.run o
