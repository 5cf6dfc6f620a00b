/-
# FantasyComputer.Machine.Frame — frames, single steps and breakpoints.

A `tick` is one instruction and the poll for the interrupt after it.  `runFrame` ticks until the
frame's budget is spent, the machine halts, or the program counter stands on a breakpoint.  Every
instruction has a positive price, so the budget bounds the recursion.

`stepFrame` runs a frame and tells whether it was finished.  A frame that stopped at a breakpoint
keeps its position and goes on from there at the next call.  `stepOne` ticks once, wherever the
program counter stands, and finishes the frame when the tick has spent its budget.
-/
import FantasyComputer.Machine.Interrupt
import FantasyComputer.Instruction.Assembly

namespace FantasyComputer.Machine

/-- One instruction and the poll for the interrupt after it. -/
def tick (m : Machine) : Machine :=
  m.step.poll

theorem framePosition_tick (m : Machine) :
    m.tick.framePosition = m.framePosition + UInt32.ofNat m.nextCost := by
  rw [tick, framePosition_poll, framePosition_step]

theorem toNat_framePosition_tick {m : Machine} (h : m.framePosition < cyclesPerFrame) :
    (m.tick.framePosition : Nat) = m.framePosition + m.nextCost := by
  rw [tick, framePosition_poll, toNat_framePosition_step h]

theorem framePosition_lt_tick {m : Machine} (h : m.framePosition < cyclesPerFrame) :
    m.framePosition.toNat < m.tick.framePosition := by
  have := cost_pos m.opcode
  rw [toNat_framePosition_tick h, nextCost]
  omega

/-- Whether the program counter stands on a breakpoint. -/
def atBreakpoint (m : Machine) : Bool :=
  m.breakpoints.contains m.registers.pc

/-- Ticks until the frame's budget is spent, the machine halts or a breakpoint is met. -/
def runFrame (m : Machine) : Machine :=
  if _h : m.framePosition < cyclesPerFrame ∧ m.running = true then
    if m.atBreakpoint then { m with breakpointHit := true } else runFrame m.tick
  else m
termination_by cyclesPerFrame - m.framePosition
decreasing_by
  have := framePosition_lt_tick _h.1
  omega

/-- Renders the picture, counts the frame and starts the next one. -/
def endFrame (m : Machine) : Machine :=
  let m := { m with framePosition := 0 }.render
  { m with frameCount := m.frameCount + 1 }

/-- The number of frames that are reported one by one. -/
def reportedFrames : Nat := 10

/-- Reports the frame just finished, as long as frames are reported. -/
def noteFrame (m : Machine) : Machine :=
  if m.debug ∧ m.frameCount ≤ reportedFrames then
    m.note (.frameFinished m.frameCount m.registers.pc m.cycles m.running)
  else m

/-- Runs a frame, and tells whether it was finished.  It is not if the machine does not run or a
breakpoint was met. -/
def stepFrame (m : Machine) : Bool × Machine :=
  let m := { m with breakpointHit := false }
  if m.running then
    let m := m.runFrame
    if m.breakpointHit then (false, m) else (true, m.endFrame.noteFrame)
  else (false, m)

/-- Ticks once and finishes the frame if its budget is spent. -/
def stepOne (m : Machine) : Machine :=
  let m := m.tick
  if cyclesPerFrame ≤ m.framePosition then m.endFrame else m

/-! ## Views for a debugger -/

/-- The instruction at the program counter as a line of text. -/
def nextLine (m : Machine) : String :=
  "0x" ++ Hexadecimal.word m.registers.pc ++ ": " ++ m.nextInstruction.text

/-- All registers and the cycle count, as two lines of text. -/
def summary (m : Machine) : String :=
  "\n".intercalate (m.registers.summary m.cycles)

end FantasyComputer.Machine
