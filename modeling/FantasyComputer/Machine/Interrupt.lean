/-
# FantasyComputer.Machine.Interrupt — the timer interrupt.

There is one interrupt.  It is taken when the interrupt flag is set and the timer is pending in the
status byte (`interruptReady`).  Taking it clears the pending bit, pushes the program counter and
then the flags, clears the interrupt flag and goes on at the vector.  Since the flag is clear from
then on, a handler is not interrupted unless it allows it; the return from the interrupt restores
the flags and with them the permission.
-/
import FantasyComputer.Machine.Execution

namespace FantasyComputer.Machine

/-- Whether the timer is pending and interrupts are let in. -/
def interruptReady (m : Machine) : Bool :=
  m.registers.flag .interrupt && m.memory.read interruptStatus &&& timerPending != 0

/-- Takes the interrupt. -/
def takeInterrupt (m : Machine) : Machine :=
  let pc := m.registers.pc
  let status := m.memory.read interruptStatus
  let m := m.writeByte interruptStatus (status &&& ~~~timerPending)
  let m := (m.pushWord pc).pushByte m.registers.flags
  let m := (m.onRegisters (·.setFlag .interrupt false)).goto interruptVector
  if m.debug then m.note (.interruptTaken pc m.cycles) else m

/-- Takes the interrupt if it is ready. -/
def checkInterrupt (m : Machine) : Machine :=
  if m.interruptReady then m.takeInterrupt else m

/-- Checks for the interrupt where the frame position is a multiple of the interval. -/
def poll (m : Machine) : Machine :=
  if m.framePosition % interruptInterval = 0 then m.checkInterrupt else m

theorem framePosition_poll (m : Machine) : m.poll.framePosition = m.framePosition := by
  simp only [poll, checkInterrupt, takeInterrupt]
  repeat' split
  all_goals rfl

end FantasyComputer.Machine
