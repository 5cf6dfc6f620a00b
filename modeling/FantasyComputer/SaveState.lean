/-
# FantasyComputer.SaveState — a machine to be resumed later.

A `SaveState` holds what a snapshot holds and ROM as well.  `Machine.saveState` takes one and
`Machine.resume` puts one back.  As with snapshots, regions may have any length, and what they do not
reach stays as it was.
-/
import FantasyComputer.Snapshot

namespace FantasyComputer

/-- The state of a machine with its ROM. -/
structure SaveState where
  registers : Registers
  cycles : UInt64
  frameCount : UInt32
  running : Bool
  ram : Array UInt8
  video : Array UInt8
  io : Array UInt8
  palette : Palette
  rom : Array UInt8
  deriving DecidableEq

/-- The snapshot in a save state. -/
def SaveState.snapshot (s : SaveState) : Snapshot :=
  { registers := s.registers
    cycles := s.cycles
    running := s.running
    ram := s.ram
    video := s.video
    io := s.io
    palette := s.palette
    frame := s.frameCount }

namespace Machine

/-- The save state of a machine. -/
def saveState (m : Machine) : SaveState :=
  { registers := m.registers
    cycles := m.cycles
    frameCount := m.frameCount
    running := m.running
    ram := m.memory.ram.toArray
    video := m.memory.video.toArray
    io := m.memory.io.toArray
    palette := m.memory.palette
    rom := m.memory.rom.toArray }

/-- Puts a save state back and redraws the picture. -/
def resume (m : Machine) (s : SaveState) : Machine :=
  { m with memory := { m.memory with rom := overlay s.rom m.memory.rom } }.restore s.snapshot

end Machine

end FantasyComputer
