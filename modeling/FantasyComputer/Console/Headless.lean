/-
# FantasyComputer.Console.Headless — running without a window.

A headless run lets a number of frames go by, at most until the machine halts.  A frame that stops
at a breakpoint is reported, and the instruction there is executed so that the next frame makes
progress.  Button `A` can be pressed at one frame, for five frames.  Previews are printed after the
frames that were asked for, and under `debug` after the last one.

Frames are numbered from zero and shown from one.
-/
import FantasyComputer.Console.CommandLine
import FantasyComputer.Console.Transcript
import FantasyComputer.Machine.Frame
import FantasyComputer.Picture.Png
import FantasyComputer.Picture.Preview

namespace FantasyComputer.Headless

/-- Frames in a run when no number is given. -/
def defaultFrames : Nat := 60

/-- Frames for which the button stays pressed. -/
def pressLength : Nat := 5

/-- A run: the machine and what was printed. -/
structure Run where
  machine : Machine
  transcript : Transcript

namespace Run

/-- Prints. -/
@[inline]
def printing (r : Run) (f : Transcript → Transcript) : Run :=
  { r with transcript := f r.transcript }

/-- Reports the notices that the machine has collected. -/
def settle (r : Run) : Run :=
  let (notices, machine) := r.machine.takeJournal
  { machine, transcript := r.transcript.reportNotices notices }

end Run

/-- Presses or releases the button, where one of these is due before a frame. -/
def press (o : Options) (frame : Nat) (r : Run) : Run :=
  match o.press with
  | none => r
  | some due =>
    if frame = due then
      { r with machine := r.machine.setButton .a true }.printing (·.report .debug "  >> A pressed")
    else if frame = due + pressLength then
      { r with machine := r.machine.setButton .a false }.printing
        (·.report .debug "  >> A released")
    else r

/-- Reports a breakpoint and executes the instruction there. -/
def passBreakpoint (frame : Nat) (r : Run) : Run :=
  if r.machine.breakpointHit then
    let line := "*** Break: " ++ r.machine.nextLine ++ " (frame " ++ toString (frame + 1) ++ ") ***"
    let registers := r.machine.summary
    let r := r.printing fun t => (t.printLine line).printLine registers
    { r with machine := r.machine.stepOne }.settle
  else r

/-- Whether a frame of a run is shown under `debug`: all of the first, then fewer and fewer, and the
last. -/
def isShown (frames frame : Nat) : Bool :=
  frame < 15 || (frame < 100 && frame % 10 = 0) || (frame < 1000 && frame % 100 = 0)
    || frame + 1 = frames

/-- The line that shows a frame. -/
def frameLine (frame : Nat) (spent : UInt64) (m : Machine) : String :=
  "  Frame " ++ Decimal.padLeft 3 (toString (frame + 1)) ++ ": +"
    ++ Decimal.padLeft 6 (toString spent) ++ " cyc  px="
    ++ Decimal.padLeft 5 (toString (Preview.litCount m.screen)) ++ "  pc=0x"
    ++ Hexadecimal.word m.registers.pc

/-- Runs one frame of a run. -/
def runFrame (o : Options) (frames frame : Nat) (r : Run) : Run :=
  let r := press o frame r
  let ⟨machine, transcript⟩ := r
  let before := machine.cycles
  let (rendered, machine) := machine.stepFrame
  let r := passBreakpoint frame (Run.settle ⟨machine, transcript⟩)
  let r :=
    if o.debug && rendered && isShown frames frame then
      let line := frameLine frame (r.machine.cycles - before) r.machine
      r.printing (·.printLine line)
    else r
  let r :=
    if o.snapshots.contains (frame + 1) || (o.debug && frame + 1 = frames) then
      let lines := Preview.lines r.machine.screen
      r.printing fun t =>
        (t.printLine ("\n  === Frame " ++ toString (frame + 1) ++ " ===")).printLines lines
    else r
  if r.machine.running then r
  else
    let line := "Halted at frame " ++ toString (frame + 1) ++ " (PC=0x"
      ++ Hexadecimal.word r.machine.registers.pc ++ ")"
    r.printing (·.printLine line)

/-- Runs the remaining frames of a run, or those up to a halt. -/
def runFrames (o : Options) (frames : Nat) : (remaining : Nat) → Run → Run
  | 0, r => r
  | remaining + 1, r =>
    let r := runFrame o frames (frames - (remaining + 1)) r
    if r.machine.running then runFrames o frames remaining r else r

/-- A whole run. -/
def run (o : Options) (r : Run) : Run :=
  let frames := o.frames.getD defaultFrames
  let r :=
    match o.press with
    | some due => r.printing (·.report .debug ("Press A on frame " ++ toString due))
    | none => r
  let r := r.printing (·.report .debug ("Running " ++ toString frames ++ " frames..."))
  runFrames o frames frames r

/-- The picture of the last frame as a file. -/
def picture (codec : Codec) (m : Machine) : Bytes :=
  Png.encode 128 128 m.screen.bytes codec

/-- Reports that a picture was written. -/
def reportPicture (path : String) (t : Transcript) : Transcript :=
  t.report .info ("Screenshot: " ++ path)

/-- Reports the end of a run. -/
def conclude (r : Run) : Run :=
  let text := "Done. " ++ toString r.machine.cycles ++ " cycles, "
    ++ toString r.machine.breakCount ++ " BREAKs."
  r.printing (·.report .debug text)

end FantasyComputer.Headless
