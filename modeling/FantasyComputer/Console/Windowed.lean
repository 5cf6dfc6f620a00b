/-
# FantasyComputer.Console.Windowed — a session in a window.

The session goes in passes.  In each pass the window says which keys are held and what happened to
the gamepad; the session acts on the keys that were not held in the pass before, sets the buttons of
the computer, runs a frame or goes back in time, and shows the picture.  The order within a pass is
fixed:

1. gamepad events;
2. the keys `1` to `6`, which open a window of that scale;
3. `S` writes a screenshot, `D` shows the registers, `F5` saves the state, `F9` loads it and forgets
   the history, and `R` puts the cartridge in again and forgets the history;
4. the buttons, from keys and gamepad;
5. with Backspace held, one snapshot back; otherwise a frame, and a snapshot when one is due.  At a
   breakpoint the instruction there is executed, so that the next frame makes progress;
6. the picture.

The session ends when Escape is held or the window is closed.
-/
import FantasyComputer.Console.CommandLine
import FantasyComputer.Console.FileSystem
import FantasyComputer.Console.Gamepad
import FantasyComputer.Console.Path
import FantasyComputer.Console.Transcript
import FantasyComputer.Machine.Frame
import FantasyComputer.Picture.Magnified
import FantasyComputer.Picture.Png
import FantasyComputer.SaveState.File

namespace FantasyComputer.Windowed

/-! ## What a window reports and shows -/

/-- A key that the session knows. -/
inductive Key where
  | escape
  | s
  | d
  | f5
  | f9
  | r
  | up
  | down
  | left
  | right
  | z
  | x
  | backspace
  | digit (n : Nat)
  deriving DecidableEq, Repr

/-- What a window reports in one pass. -/
structure Pass where
  /-- The keys held. -/
  keys : List Key
  /-- What happened to the gamepad, in order. -/
  events : List PadEvent

/-- What a window is told to do. -/
inductive Display where
  /-- Open with a size in points. -/
  | opened (width height : Nat)
  /-- Show points, row by row from the top. -/
  | shown (width height : Nat) (points : Array UInt32)

/-! ## The session -/

/-- Snapshots that are kept. -/
def historyLength : Nat := 60

/-- Frames between two snapshots. -/
def historyInterval : Nat := 30

/-- A session between two passes. -/
structure Session where
  machine : Machine
  rewind : Rewind
  gamepad : Gamepad
  /-- Points to a pixel. -/
  scale : Nat
  /-- The keys held in the last pass. -/
  held : List Key
  /-- Screenshots written. -/
  screenshots : Nat
  files : FileSystem
  transcript : Transcript

namespace Session

/-- The start of a session. -/
def start (scale : Nat) (files : FileSystem) (machine : Machine) (transcript : Transcript) :
    Session :=
  { machine, scale, files, transcript
    rewind := Rewind.new historyLength historyInterval
    gamepad := {}
    held := []
    screenshots := 0 }

/-- Makes a report. -/
@[inline]
def report (s : Session) (level : Level) (text : String) : Session :=
  { s with transcript := s.transcript.report level text }

/-- Prints a line among the reports. -/
@[inline]
def complain (s : Session) (line : String) : Session :=
  { s with transcript := s.transcript.complain line }

/-- Reports the notices that the machine has collected. -/
def settle (s : Session) : Session :=
  let (notices, machine) := s.machine.takeJournal
  { s with machine, transcript := s.transcript.reportNotices notices }

/-- Whether a key is held in a pass and was not held in the pass before. -/
def struck (s : Session) (pass : Pass) (key : Key) : Bool :=
  pass.keys.contains key && !s.held.contains key

/-! ## The parts of a pass -/

/-- Handles one gamepad event. -/
def handleEvent (s : Session) (event : PadEvent) : Session :=
  let s := { s with gamepad := s.gamepad.handle event }
  match event with
  | .connected => s.report .debug "Gamepad connected"
  | .disconnected => s.report .debug "Gamepad disconnected"
  | _ => s

/-- The scales that have a key. -/
def scales : List Nat :=
  [1, 2, 3, 4, 5, 6]

/-- The order to open a window for a scale. -/
def opening (scale : Nat) : Display :=
  .opened (screenWidth * scale) (screenHeight * scale)

/-- Changes the scale if its key was struck. -/
def rescale (pass : Pass) (before : Session × List Display) (scale : Nat) :
    Session × List Display :=
  let (s, orders) := before
  if s.struck pass (.digit scale) && s.scale ≠ scale then
    ({ s with scale }, orders ++ [opening scale])
  else (s, orders)

/-- The name of a screenshot. -/
def screenshotName (number : Nat) : String :=
  "screenshot_" ++ Decimal.zeroPadded 4 number ++ ".png"

/-- Writes a screenshot. -/
def takeScreenshot (codec : Codec) (s : Session) : Session :=
  let name := screenshotName s.screenshots
  match s.files.write name (Png.encode 128 128 s.machine.screen.bytes codec) with
  | .ok files =>
    { s with files, screenshots := s.screenshots + 1 }.report .info ("Screenshot: " ++ name)
  | .error e => s.report .error ("Screenshot " ++ name ++ ": " ++ e.message)

/-- Shows the registers. -/
def showRegisters (s : Session) : Session :=
  let text := "--- Regs (frame " ++ toString s.machine.frameCount ++ ") ---\n" ++ s.machine.summary
    ++ "\nNext: " ++ s.machine.nextLine ++ "\n---"
  s.complain text

/-- Saves the state. -/
def quickSave (codec : Codec) (path : String) (s : Session) : Session :=
  match s.files.write path (s.machine.saveState.encode codec) with
  | .ok files => { s with files }.report .info ("Saved state: " ++ path)
  | .error e => s.report .error ("Save state: io error: " ++ e.message)

/-- Loads the state and forgets the history. -/
def quickLoad (codec : Codec) (path : String) (s : Session) : Session :=
  match s.files.read path with
  | .error e => s.report .error ("Load state: io error: " ++ e.message)
  | .ok file =>
    match SaveState.decode file codec with
    | .error e => s.report .error ("Load state: " ++ e.message)
    | .ok state =>
      { s with machine := s.machine.resume state, rewind := s.rewind.clear }.report .info
        ("Loaded state: " ++ path)

/-- Puts the cartridge in again and forgets the history. -/
def reinsert (image : Bytes) (s : Session) : Session :=
  match s.machine.insert image with
  | .ok machine => { s with machine := machine.start, rewind := s.rewind.clear }.settle
  | .error e => s.settle.report .warning (Notice.cartridgeRejected e).text

/-- The key that stands for a button. -/
def keyOf : Button → Key
  | .up => .up
  | .down => .down
  | .left => .left
  | .right => .right
  | .a => .z
  | .b => .x

/-- The buttons that keys and gamepad hold together. -/
def heldMask (g : Gamepad) (pass : Pass) : UInt8 :=
  Button.all.foldl (fun mask button =>
    if pass.keys.contains (keyOf button) || g.holds button then mask ||| button.mask else mask) 0

/-- Goes one snapshot back. -/
def goBack (s : Session) : Session :=
  match s.rewind.pop? with
  | some (snapshot, rewind) => { s with machine := s.machine.restore snapshot, rewind }
  | none => s

/-- Counts a finished frame and takes a snapshot when one is due. -/
def record (s : Session) : Session :=
  let (due, rewind) := s.rewind.tick
  if due then { s with rewind := rewind.push s.machine.snapshot } else { s with rewind }

/-- Runs a frame, and past a breakpoint if it stopped at one. -/
def runFrame (s : Session) : Session :=
  let (finished, machine) := s.machine.stepFrame
  let s := { s with machine }.settle
  let s := if finished then s.record else s
  if s.machine.breakpointHit then
    let text := "*** Breakpoint: " ++ s.machine.nextLine ++ " ***\n" ++ s.machine.summary
    let s := s.complain text
    { s with machine := s.machine.stepOne }.settle
  else s

/-- Shows the picture. -/
def showing (s : Session) : Display :=
  .shown (screenWidth * s.scale) (screenHeight * s.scale)
    (Magnified.points s.scale s.machine.screen.packed)

/-! ## Passes -/

/-- Acts if a key was struck. -/
def onStrike (pass : Pass) (key : Key) (act : Session → Session) (s : Session) : Session :=
  if s.struck pass key then act s else s

/-- Sets the buttons of the computer. -/
def setButtons (pass : Pass) (s : Session) : Session :=
  let mask := heldMask s.gamepad pass
  { s with machine := s.machine.setInput mask }

/-- What a session is set up with: the cartridge, where its state is kept, whether gamepads are
available, and how states and pictures are compressed. -/
structure Setup where
  image : Bytes
  statePath : String
  padsAvailable : Bool
  states : Codec := SaveState.compression
  pictures : Codec := Png.compression 128

/-- Acts on the events and keys of a pass and sets the buttons, up to the point where the session
goes back or runs a frame. -/
def prepare (setup : Setup) (pass : Pass) (s : Session) : Session × List Display :=
  let s := if setup.padsAvailable then pass.events.foldl handleEvent s else s
  let (s, orders) := scales.foldl (rescale pass) (s, [])
  let s := onStrike pass .s (takeScreenshot setup.pictures) s
  let s := onStrike pass .d showRegisters s
  let s := onStrike pass .f5 (quickSave setup.states setup.statePath) s
  let s := onStrike pass .f9 (quickLoad setup.states setup.statePath) s
  let s := onStrike pass .r (reinsert setup.image) s
  (setButtons pass { s with held := pass.keys }, orders)

/-- Carries out one pass, with the orders to the window in their order. -/
def perform (setup : Setup) (pass : Pass) (s : Session) : Session × List Display :=
  let (s, orders) := s.prepare setup pass
  let s := if pass.keys.contains .backspace then s.goBack else s.runFrame
  let order := s.showing
  (s, orders ++ [order])

/-- Carries out passes until Escape is held or there are no more, and hands every order to the
window. -/
def performAll {α : Type} (setup : Setup) (window : Display → α) (s : Session)
    (answers : Array α) : List Pass → Session × Array α
  | [] => (s, answers)
  | pass :: rest =>
    if pass.keys.contains .escape then (s, answers)
    else
      let (s, orders) := s.perform setup pass
      s.performAll setup window (orders.foldl (fun answers o => answers.push (window o)) answers)
        rest

end Session

/-! ## Gamepads at the start -/

/-- Reports the gamepads that are present at the start, if gamepads are available at all. -/
def reportPads (pads : Option (List String)) (t : Transcript) : Transcript :=
  match pads with
  | none => t.report .warning "gamepad: not supported"
  | some [] => t.report .debug "No gamepad (hot-plug supported)."
  | some names =>
    names.zipIdx.foldl (fun t (name, id) =>
      t.report .debug ("Gamepad: [" ++ toString id ++ "] \"" ++ name ++ "\" (" ++ name ++ ")")) t

end FantasyComputer.Windowed
