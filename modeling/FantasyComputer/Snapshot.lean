/-
# FantasyComputer.Snapshot — going back in time.

A `Snapshot` holds everything that a running program can change: registers, RAM, video RAM, the I/O
page, the palette, the cycle count, the running flag and the frame number.  ROM is not part of it,
since a session runs one cartridge.

`Machine.restore` puts a snapshot back, starts a new frame and redraws the picture.  The regions of a
snapshot may have any length: a longer one is cut, and a shorter one leaves the rest of the region
as it was.

`Rewind` keeps the latest snapshots and a clock that says after how many finished frames the next
one is due.
-/
import FantasyComputer.Machine
import FantasyComputer.Ring

namespace FantasyComputer

/-- The state of a machine at the end of a frame, without its ROM. -/
structure Snapshot where
  registers : Registers
  cycles : UInt64
  running : Bool
  ram : Array UInt8
  video : Array UInt8
  io : Array UInt8
  palette : Palette
  /-- The number of frames finished. -/
  frame : UInt32
  deriving DecidableEq

namespace Machine

/-- The snapshot of a machine. -/
def snapshot (m : Machine) : Snapshot :=
  { registers := m.registers
    cycles := m.cycles
    running := m.running
    ram := m.memory.ram.toArray
    video := m.memory.video.toArray
    io := m.memory.io.toArray
    palette := m.memory.palette
    frame := m.frameCount }

/-- Puts a snapshot back and redraws the picture. -/
def restore (m : Machine) (s : Snapshot) : Machine :=
  { m with
    registers := s.registers
    cycles := s.cycles
    running := s.running
    memory :=
      { m.memory with
        ram := overlay s.ram m.memory.ram
        video := overlay s.video m.memory.video
        io := overlay s.io m.memory.io
        palette := s.palette }
    frameCount := s.frame
    framePosition := 0 }.render

end Machine

/-! ## Rewinding -/

/-- The latest snapshots and the clock for the next one. -/
structure Rewind where
  /-- The snapshots. -/
  history : Ring Snapshot
  /-- Frames between two snapshots. -/
  interval : Nat
  /-- Frames since the last snapshot was due. -/
  ticks : Nat

namespace Rewind

/-- An empty history for a number of snapshots, one due after each interval. -/
def new (capacity interval : Nat) : Rewind :=
  { history := Ring.withCapacity capacity, interval, ticks := 0 }

/-- Counts a finished frame and tells whether a snapshot is due. -/
def tick (r : Rewind) : Bool × Rewind :=
  if r.interval ≤ r.ticks + 1 then (true, { r with ticks := 0 })
  else (false, { r with ticks := r.ticks + 1 })

/-- Adds a snapshot, over the oldest one when the history is full. -/
def push (r : Rewind) (s : Snapshot) : Rewind :=
  { r with history := r.history.push s }

/-- Takes the latest snapshot, if there is one. -/
def pop? (r : Rewind) : Option (Snapshot × Rewind) :=
  r.history.pop?.map fun (s, history) => (s, { r with history })

/-- Drops all snapshots and restarts the clock. -/
def clear (r : Rewind) : Rewind :=
  { r with history := r.history.clear, ticks := 0 }

/-- The number of snapshots held. -/
def length (r : Rewind) : Nat :=
  r.history.count

/-- Whether no snapshot is held. -/
def isEmpty (r : Rewind) : Bool :=
  r.history.count == 0

end Rewind

end FantasyComputer
