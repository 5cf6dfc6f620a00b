/-
# FantasyComputer.Console.Gamepad — a gamepad as the buttons of the computer.

The computer has six buttons.  A gamepad has more, and sticks and triggers besides: several of its
buttons stand for one of the computer's, the left stick stands for the directions outside a dead
zone in its middle, and a trigger presses `A` when it is pulled far enough.

Events change one thing each.  Pressing or releasing any of the buttons that stand for a button of
the computer presses or releases that one; moving the stick changes the sides on which it stands
outside its dead zone; a gamepad that goes away leaves nothing held.
-/
import FantasyComputer.Machine

namespace FantasyComputer

/-! ## Events -/

/-- A button of a gamepad. -/
inductive PadButton where
  | south
  | east
  | north
  | west
  | leftTrigger
  | leftTrigger2
  | rightTrigger
  | rightTrigger2
  | dPadUp
  | dPadDown
  | dPadLeft
  | dPadRight
  /-- A button that stands for nothing. -/
  | other
  deriving DecidableEq, Repr

/-- An axis of a gamepad. -/
inductive PadAxis where
  | leftStickX
  | leftStickY
  | leftZ
  | rightZ
  | dPadX
  | dPadY
  /-- An axis that stands for nothing. -/
  | other
  deriving DecidableEq, Repr

/-- Something that happens to a gamepad. -/
inductive PadEvent where
  | pressed (button : PadButton)
  | released (button : PadButton)
  | moved (axis : PadAxis) (value : Float32)
  | connected
  | disconnected
  /-- An event of no interest. -/
  | ignored

/-! ## State -/

/-- What is held on a gamepad. -/
structure Gamepad where
  up : Bool := false
  down : Bool := false
  left : Bool := false
  right : Bool := false
  a : Bool := false
  b : Bool := false
  /-- Whether the left stick was last seen above its dead zone, and so on for the other sides. -/
  stickUp : Bool := false
  stickDown : Bool := false
  stickLeft : Bool := false
  stickRight : Bool := false

namespace Gamepad

/-- The dead zone of the stick and of a directional axis. -/
def stickDeadZone : Float32 := 0.3

/-- How far a trigger is pulled to press. -/
def triggerPressed : Float32 := 0.2

/-- How little a trigger is pulled to release. -/
def triggerReleased : Float32 := 0.05

/-- Presses or releases a button. -/
def setButton (g : Gamepad) (button : PadButton) (held : Bool) : Gamepad :=
  match button with
  | .dPadUp => { g with up := held }
  | .dPadDown => { g with down := held }
  | .dPadLeft => { g with left := held }
  | .dPadRight => { g with right := held }
  | .south | .leftTrigger2 | .rightTrigger2 => { g with a := held }
  | .east | .west | .north => { g with b := held }
  | .leftTrigger | .rightTrigger | .other => g

/-- Pulls a trigger.  Between the two thresholds it changes nothing. -/
def pull (g : Gamepad) (value : Float32) : Gamepad :=
  if triggerPressed < value then { g with a := true }
  else if value < triggerReleased then { g with a := false }
  else g

/-- Moves an axis.  The stick and the directional axes report up as positive. -/
def move (g : Gamepad) (axis : PadAxis) (value : Float32) : Gamepad :=
  match axis with
  | .leftStickX =>
    { g with stickLeft := value < -stickDeadZone, stickRight := stickDeadZone < value }
  | .leftStickY =>
    { g with stickUp := -value < -stickDeadZone, stickDown := stickDeadZone < -value }
  | .dPadX => { g with left := value < -stickDeadZone, right := stickDeadZone < value }
  | .dPadY => { g with up := stickDeadZone < value, down := value < -stickDeadZone }
  | .leftZ | .rightZ => g.pull value
  | .other => g

/-- What is held after an event. -/
def handle (g : Gamepad) : PadEvent → Gamepad
  | .pressed button => g.setButton button true
  | .released button => g.setButton button false
  | .moved axis value => g.move axis value
  | .connected => g
  | .disconnected => {}
  | .ignored => g

/-- Whether a button of the computer is held. -/
def holds (g : Gamepad) : Button → Bool
  | .up => g.up || g.stickUp
  | .down => g.down || g.stickDown
  | .left => g.left || g.stickLeft
  | .right => g.right || g.stickRight
  | .a => g.a
  | .b => g.b

end Gamepad

end FantasyComputer
