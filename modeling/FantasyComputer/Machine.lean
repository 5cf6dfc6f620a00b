/-
# FantasyComputer.Machine — the whole computer and what its host may do to it.

A `Machine` is the registers, the memory and the screen, the counters of the run, and what the host
has set: breakpoints, the debug switch and the buttons held.  `framePosition` counts the cycles of
the frame that is under way.  The counters have a fixed width and wrap.

Host calls, none of which executes an instruction:

* `reset` clears registers, RAM, video RAM, the I/O page and the position in the run.  It keeps ROM,
  palette, picture, the running flag, the counters of frames and breaks, breakpoints and buttons.
* `insert` checks a cartridge image, copies its program into ROM and resets to its entry point.  An
  image that is refused yields an error and no machine, so nothing can be half loaded.
* `start` and `stop` set the running flag.
* `setInput` and `setButton` keep the host's own mask of buttons and write it to the input byte.
  The mask follows these two calls alone, whatever a program writes over the input byte.
* `requestInterrupt` sets the pending bit of the timer in the interrupt status byte.
-/
import FantasyComputer.Notice
import FantasyComputer.Screen

namespace FantasyComputer

/-! ## Fixed numbers of the computer -/

/-- Cycles in a second. -/
abbrev clockRate : Nat := 1000000

/-- Frames in a second. -/
abbrev frameRate : Nat := 60

/-- Cycles in a frame: a second's share, rounded up. -/
abbrev cyclesPerFrame : Nat := (clockRate + frameRate - 1) / frameRate

theorem cyclesPerFrame_eq : cyclesPerFrame = 16667 := rfl

/-- The start of a frame lies within its budget. -/
theorem zero_lt_cyclesPerFrame : ((0 : UInt32) : Nat) < cyclesPerFrame := by decide

/-- Interrupts are let in where the frame position is a multiple of this many cycles. -/
abbrev interruptInterval : Nat := 1000

/-- Address of the interrupt status byte. -/
def interruptStatus : UInt16 := 0xC001

/-- Bit of the timer in the interrupt status byte. -/
def timerPending : UInt8 := 0x02

/-- Address where an interrupt goes on. -/
def interruptVector : UInt16 := 0xFF00

/-- Address of the byte that shows the buttons held. -/
def inputAddress : UInt16 := 0xC010

/-- Entry point of a machine without a cartridge. -/
def defaultEntry : UInt16 := 0xE000

/-! ## Buttons -/

/-- A button of the computer. -/
inductive Button where
  | up
  | down
  | left
  | right
  | a
  | b
  deriving DecidableEq, Repr

namespace Button

/-- All buttons. -/
def all : List Button :=
  [up, down, left, right, a, b]

/-- The bit of a button in the input byte. -/
def mask : Button → UInt8
  | up => 0x01
  | down => 0x02
  | left => 0x04
  | right => 0x08
  | a => 0x10
  | b => 0x20

end Button

/-! ## The machine -/

/-- The state of the computer. -/
structure Machine where
  registers : Registers
  memory : Memory
  screen : Screen
  /-- Cycles executed since the last reset. -/
  cycles : UInt64
  /-- Whether the machine runs; `HALT` and the host clear it. -/
  running : Bool
  /-- Cycles of the frame that is under way. -/
  framePosition : UInt32
  /-- Frames finished since power-on. -/
  frameCount : UInt32
  /-- Addresses at which a frame stops. -/
  breakpoints : List UInt16
  /-- Whether the last frame stopped at a breakpoint. -/
  breakpointHit : Bool
  /-- `BREAK` instructions executed since power-on. -/
  breakCount : UInt64
  /-- Whether notices of level `debug` are collected. -/
  debug : Bool
  /-- The buttons that the host holds down. -/
  buttons : UInt8
  /-- The notices not yet taken by the host, oldest first. -/
  journal : Array Notice

namespace Machine

/-- Adds a notice to the journal. -/
@[inline]
def note (m : Machine) (notice : Notice) : Machine :=
  { m with journal := m.journal.push notice }

/-- Resets to an entry point. -/
def reset (m : Machine) (entry : UInt16) : Machine :=
  { m with
    registers := Registers.reset entry
    memory := m.memory.reset
    cycles := 0
    framePosition := 0
    breakpointHit := false }

/-- The machine at power-on: reset, with an empty ROM, and not running. -/
def initial : Machine :=
  { registers := Registers.reset defaultEntry
    memory := Memory.initial
    screen := Screen.initial
    cycles := 0
    running := false
    framePosition := 0
    frameCount := 0
    breakpoints := []
    breakpointHit := false
    breakCount := 0
    debug := false
    buttons := 0
    journal := #[] }

/-- Puts in a cartridge: its program goes to the start of ROM and the machine is reset to its entry
point. -/
def install (m : Machine) (cartridge : Cartridge) : Machine :=
  let m := { m with memory := m.memory.loadProgram cartridge.program }
  (m.reset cartridge.entry).note (.cartridgeLoaded cartridge.program.length cartridge.entry)

/-- Checks a cartridge image and puts it in. -/
def insert (m : Machine) (image : Bytes) : Except Cartridge.Error Machine :=
  (Cartridge.parse image).map m.install

/-- Lets the machine run. -/
def start (m : Machine) : Machine :=
  { m with running := true }

/-- Stops the machine. -/
def stop (m : Machine) : Machine :=
  { m with running := false }

/-- Holds exactly the buttons of a mask. -/
def setInput (m : Machine) (mask : UInt8) : Machine :=
  { m with buttons := mask, memory := m.memory.write inputAddress mask }

/-- Presses or releases one button. -/
def setButton (m : Machine) (button : Button) (pressed : Bool) : Machine :=
  m.setInput (if pressed then m.buttons ||| button.mask else m.buttons &&& ~~~button.mask)

/-- Sets a palette entry; its mirror byte follows at the next reset. -/
def setPaletteEntry (m : Machine) (index : Nat) (color : UInt8) : Machine :=
  { m with memory := m.memory.setPaletteEntry index color }

/-- Raises the timer's pending bit. -/
def requestInterrupt (m : Machine) : Machine :=
  let status := m.memory.read interruptStatus
  { m with memory := m.memory.write interruptStatus (status ||| timerPending) }

/-- Redraws the picture from video RAM and the palette. -/
def render (m : Machine) : Machine :=
  { m with screen := m.screen.render m.memory.video.toArray m.memory.palette }

end Machine

end FantasyComputer
