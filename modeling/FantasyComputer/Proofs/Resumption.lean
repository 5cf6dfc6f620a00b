/-
# FantasyComputer.Proofs.Resumption — what a save state brings back and what it loses.

A host drives a machine by four calls, and after each it sees an answer and a `View`: registers,
memory, the counters and the running flag.  A machine `ResumesExactly` if every machine with the same
breakpoints, once the file of its save state is loaded there, shows the same under every sequence of
calls.

All that calls read is shared by `Interchangeable` machines (`drive_eq`).  A file holds all of it but
the place in the frame, so that what is resumed is the saved machine with its frame begun anew
(`resumesExactly_iff_restarted`).  Saved at the start of a frame, a machine therefore resumes exactly.
Within a frame it may not: as long as no instruction costs more than the cycles that were forgotten,
the saved machine ends its frame and the resumed one does not (`exists_drive_ne`).
-/
import FantasyComputer.Proofs.Passes
import FantasyComputer.Proofs.SaveFiles

namespace FantasyComputer.Machine

variable {m m' m'' : Machine}

/-! ## Calls and what they show -/

/-- A call by which a host drives a machine. -/
inductive Call where
  | setInput (mask : UInt8)
  | requestInterrupt
  | stepFrame
  | stepOne
  deriving DecidableEq, Repr

/-- What a call returns. -/
inductive Answer where
  | nothing
  /-- Whether the frame was finished. -/
  | finished (wasFinished : Bool)
  /-- The instruction executed, as a line of text. -/
  | line (text : String)
  deriving DecidableEq, Repr

/-- Carries out a call. -/
def call (m : Machine) (c : Call) : Answer × Machine :=
  match c with
  | .setInput mask => (.nothing, m.setInput mask)
  | .requestInterrupt => (.nothing, m.requestInterrupt)
  | .stepFrame => (.finished m.stepFrame.1, m.stepFrame.2)
  | .stepOne => (.line m.nextLine, m.stepOne)

/-- What a host sees of a machine between two calls. -/
structure View where
  registers : Registers
  /-- All regions, ROM among them, and the palette. -/
  memory : Memory
  cycles : UInt64
  running : Bool
  frameCount : UInt32
  deriving DecidableEq

/-- The view of a machine. -/
def view (m : Machine) : View :=
  { registers := m.registers
    memory := m.memory
    cycles := m.cycles
    running := m.running
    frameCount := m.frameCount }

/-- What a host sees after each call of a sequence. -/
def drive (m : Machine) : List Call → List (Answer × View)
  | [] => []
  | c :: calls => ((m.call c).1, (m.call c).2.view) :: (m.call c).2.drive calls

/-! ## Machines that no call tells apart -/

/-- Two machines that share everything a call reads. -/
structure Interchangeable (m m' : Machine) : Prop extends Alike m m' where
  breakpoints : m.breakpoints = m'.breakpoints
  frameCount : m.frameCount = m'.frameCount

namespace Interchangeable

theorem symm (h : Interchangeable m m') : Interchangeable m' m :=
  ⟨h.toAlike.symm, h.breakpoints.symm, h.frameCount.symm⟩

theorem trans (h : Interchangeable m m') (h' : Interchangeable m' m'') : Interchangeable m m'' :=
  ⟨h.toAlike.trans h'.toAlike, h.breakpoints.trans h'.breakpoints,
    h.frameCount.trans h'.frameCount⟩

theorem view (h : Interchangeable m m') : m.view = m'.view := by
  rw [Machine.view, Machine.view, h.registers, h.memory, h.cycles, h.running, h.frameCount]

theorem fresh (h : Interchangeable m m') : Interchangeable m.fresh m'.fresh :=
  ⟨⟨h.registers, h.memory, h.cycles, h.framePosition, h.running⟩, h.breakpoints, h.frameCount⟩

theorem ticks (h : Interchangeable m m') (n : Nat) :
    Interchangeable (Machine.tick^[n] m) (Machine.tick^[n] m') where
  toAlike := h.toAlike.ticks n
  breakpoints := by
    rw [(sameHost_ticks n m).breakpoints, (sameHost_ticks n m').breakpoints, h.breakpoints]
  frameCount := by
    rw [(sameHost_ticks n m).frameCount, (sameHost_ticks n m').frameCount, h.frameCount]

theorem frameEnd (h : Interchangeable m m') : Interchangeable m.frameEnd m'.frameEnd := by
  unfold Machine.frameEnd
  rw [h.fresh.toAlike.frameTicks h.fresh.breakpoints]
  exact h.fresh.ticks _

theorem endFrame (h : Interchangeable m m') : Interchangeable m.endFrame m'.endFrame :=
  ⟨⟨h.registers, h.memory, h.cycles, rfl, h.running⟩, h.breakpoints,
    congrArg (· + 1) h.frameCount⟩

theorem noteFrame (m : Machine) : Interchangeable m.noteFrame m := by
  unfold Machine.noteFrame
  split <;> exact ⟨⟨rfl, rfl, rfl, rfl, rfl⟩, rfl, rfl⟩

theorem stepFrame (h : Interchangeable m m') :
    m.stepFrame.1 = m'.stepFrame.1 ∧ Interchangeable m.stepFrame.2 m'.stepFrame.2 := by
  cases hrun : m.running with
  | false =>
    rw [stepFrame_of_not_running hrun, stepFrame_of_not_running (h.running ▸ hrun)]
    exact ⟨rfl, h.fresh⟩
  | true =>
    have hend := h.frameEnd
    rw [stepFrame_of_running hrun, stepFrame_of_running (h.running ▸ hrun)]
    by_cases hin : m.frameEnd.InFrame
    · rw [if_pos hin, if_pos (hend.toAlike.inFrame_iff.mp hin)]
      exact ⟨rfl, ⟨hend.registers, hend.memory, hend.cycles, hend.framePosition, hend.running⟩,
        hend.breakpoints, hend.frameCount⟩
    · rw [if_neg hin, if_neg (mt hend.toAlike.inFrame_iff.mpr hin)]
      exact ⟨rfl, (noteFrame _).trans (hend.endFrame.trans (noteFrame _).symm)⟩

theorem stepOne (h : Interchangeable m m') : Interchangeable m.stepOne m'.stepOne := by
  have htick : Interchangeable m.tick m'.tick := h.ticks 1
  rcases Nat.lt_or_ge m.tick.framePosition cyclesPerFrame with hlt | hge
  · rw [stepOne_of_lt hlt, stepOne_of_lt (htick.framePosition ▸ hlt)]
    exact htick
  · rw [stepOne_of_le hge, stepOne_of_le (htick.framePosition ▸ hge)]
    exact htick.endFrame

/-- **Step lemma.**  A call gets the same answer from both, and leaves them interchangeable. -/
theorem call (h : Interchangeable m m') (c : Call) :
    (m.call c).1 = (m'.call c).1 ∧ Interchangeable (m.call c).2 (m'.call c).2 := by
  cases c with
  | setInput mask =>
    have hmemory : (m.setInput mask).memory = (m'.setInput mask).memory := by
      rw [Machine.setInput, Machine.setInput, h.memory]
    exact ⟨rfl, ⟨h.registers, hmemory, h.cycles, h.framePosition, h.running⟩, h.breakpoints,
      h.frameCount⟩
  | requestInterrupt =>
    have hmemory : m.requestInterrupt.memory = m'.requestInterrupt.memory := by
      rw [Machine.requestInterrupt, Machine.requestInterrupt, h.memory]
    exact ⟨rfl, ⟨h.registers, hmemory, h.cycles, h.framePosition, h.running⟩, h.breakpoints,
      h.frameCount⟩
  | stepFrame => exact ⟨congrArg Answer.finished h.stepFrame.1, h.stepFrame.2⟩
  | stepOne =>
    have hline : m.nextLine = m'.nextLine := by
      rw [nextLine, nextLine, h.registers, h.toAlike.nextInstruction]
    exact ⟨congrArg Answer.line hline, h.stepOne⟩

end Interchangeable

/-- **Run lemma.**  No sequence of calls tells interchangeable machines apart. -/
theorem drive_eq (h : Interchangeable m m') (calls : List Call) : m.drive calls = m'.drive calls := by
  induction calls generalizing m m' with
  | nil => rfl
  | cons c calls ih =>
    obtain ⟨hanswer, hnext⟩ := h.call c
    rw [drive, drive, hanswer, hnext.view, ih hnext]

/-! ## Saving and loading -/

/-- Loads a save state file. -/
def load (m : Machine) (file : Bytes) (codec : Codec) : Except SaveState.Error Machine :=
  (SaveState.decode file codec).map m.resume

/-- Whether a machine can be resumed from its file with nothing to tell the difference, in any
machine with the same breakpoints. -/
def ResumesExactly (m : Machine) (codec : Codec) : Prop :=
  ∀ other : Machine, other.breakpoints = m.breakpoints →
    ∃ resumed, other.load (m.saveState.encode codec) codec = .ok resumed
      ∧ ∀ calls, resumed.drive calls = m.drive calls

/-- A machine at the start of its frame. -/
def restarted (m : Machine) : Machine :=
  { m with framePosition := 0 }

variable {codec : LosslessCodec}

theorem load_saveState (m other : Machine) :
    other.load (m.saveState.encode codec.toCodec) codec.toCodec
      = .ok (other.resume m.saveState) := by
  rw [load, SaveState.decode_encode codec (SaveState.storable_saveState m)]
  rfl

theorem memory_resume (m other : Machine) : (other.resume m.saveState).memory = m.memory := by
  show Memory.mk (overlay m.memory.ram.toArray other.memory.ram)
    (overlay m.memory.video.toArray other.memory.video)
    (overlay m.memory.io.toArray other.memory.io)
    (overlay m.memory.rom.toArray other.memory.rom) m.memory.palette = m.memory
  rw [overlay_toArray, overlay_toArray, overlay_toArray, overlay_toArray]

/-- Nothing that a call reads is left over from the machine into which a save state is loaded, and
nothing but the place in the frame is missing from it. -/
theorem interchangeable_resume {other : Machine}
    (hbreak : other.breakpoints = m.breakpoints) :
    Interchangeable (other.resume m.saveState) m.restarted where
  registers := rfl
  memory := memory_resume m other
  cycles := rfl
  framePosition := rfl
  running := rfl
  breakpoints := hbreak
  frameCount := rfl

/-- **What is resumed.**  It is the saved machine with its frame begun anew. -/
theorem resumesExactly_iff_restarted :
    m.ResumesExactly codec.toCodec ↔ ∀ calls, m.restarted.drive calls = m.drive calls := by
  constructor
  · intro h calls
    obtain ⟨resumed, hload, hsame⟩ := h m rfl
    rw [load_saveState] at hload
    rw [← hsame calls, ← Except.ok.inj hload]
    exact (drive_eq (interchangeable_resume rfl) calls).symm
  · intro h other hbreak
    refine ⟨_, load_saveState m other, ?_⟩
    intro calls
    rw [drive_eq (interchangeable_resume hbreak) calls, h calls]

/-- At the start of a frame there is no place in it to lose. -/
theorem resumesExactly_of_frameStart (hstart : m.framePosition = 0) :
    m.ResumesExactly codec.toCodec := by
  have hsame : m.restarted = m := by
    rw [restarted, ← hstart]
  apply resumesExactly_iff_restarted.mpr
  intro calls
  rw [hsame]

/-- A machine that has just finished a frame can be saved without loss. -/
theorem resumesExactly_of_finished (hfinished : m.stepFrame.1 = true) :
    m.stepFrame.2.ResumesExactly codec.toCodec := by
  apply resumesExactly_of_frameStart
  rw [(stepFrame_of_finished hfinished).1, (Interchangeable.noteFrame _).framePosition]
  rfl

/-! ## Cycles that are forgotten -/

theorem frameCount_endFrame (m : Machine) : m.endFrame.frameCount = m.frameCount + 1 := rfl

theorem counters_of_view (h : m.view = m'.view) :
    m.cycles = m'.cycles ∧ m.frameCount = m'.frameCount :=
  ⟨congrArg View.cycles h, congrArg View.frameCount h⟩

/-- Prices are far below the width of the cycle count. -/
theorem nextCost_inj
    (h : m'.cycles + UInt64.ofNat m.nextCost = m'.cycles + UInt64.ofNat m'.nextCost) :
    m.nextCost = m'.nextCost := by
  have hfirst := cost_le m.opcode
  have hsecond := cost_le m'.opcode
  have hsame := congrArg UInt64.toNat (UInt64.add_right_inj _ |>.mp h)
  rw [UInt64.toNat_ofNat', UInt64.toNat_ofNat'] at hsame
  unfold nextCost at *
  omega

/-- What is the same after one more single step. -/
theorem drive_stepOne_inj {calls : List Call}
    (h : m.drive (.stepOne :: calls) = m'.drive (.stepOne :: calls)) :
    m.stepOne.view = m'.stepOne.view ∧ m.stepOne.drive calls = m'.stepOne.drive calls := by
  obtain ⟨hfirst, hrest⟩ := List.cons.inj h
  exact ⟨congrArg Prod.snd hfirst, hrest⟩

/-- **A lead shows.**  Of two machines with the same counters let one be ahead in its frame.  As long
as no instruction costs more than the lead, single steps tell them apart: at the latest when the
leading machine ends its frame, since the other one is then still within its own. -/
theorem exists_drive_ne (lead : Nat) (hahead : (m.framePosition : Nat) = m'.framePosition + lead)
    (hin : m.framePosition < cyclesPerFrame) (hcycles : m.cycles = m'.cycles)
    (hcount : m.frameCount = m'.frameCount)
    (hcheap : ∀ i, i + m.framePosition < cyclesPerFrame → (tick^[i] m).nextCost ≤ lead) :
    ∃ calls, m'.drive calls ≠ m.drive calls := by
  induction hleft : cyclesPerFrame - m.framePosition using Nat.strong_induction_on
    generalizing m m' with
  | _ left ih =>
    -- suppose that nothing shows: then both pay the same price for their next instruction
    by_contra! hsame
    obtain ⟨hcycles₁, hcount₁⟩ := counters_of_view (drive_stepOne_inj (hsame [.stepOne])).1
    have hprice : m.nextCost = m'.nextCost := by
      rw [cycles_stepOne, cycles_stepOne, hcycles] at hcycles₁
      exact nextCost_inj hcycles₁.symm
    have hposition := toNat_framePosition_tick hin
    have hposition' := toNat_framePosition_tick (m := m') (by omega)
    have hprogress := framePosition_lt_tick hin
    have hfirst : m.nextCost ≤ lead := hcheap 0 (by omega)
    have hbehind : m'.tick.framePosition < cyclesPerFrame := by omega
    rcases Nat.lt_or_ge m.tick.framePosition cyclesPerFrame with hlt | hge
    · -- neither frame ends, and the lead is kept
      have hahead' : (m.tick.framePosition : Nat) = m'.tick.framePosition + lead := by omega
      have hcycles' : m.tick.cycles = m'.tick.cycles := by
        rw [cycles_tick, cycles_tick, hcycles, hprice]
      have hcount' : m.tick.frameCount = m'.tick.frameCount := by
        rw [(sameHost_tick m).frameCount, (sameHost_tick m').frameCount, hcount]
      obtain ⟨calls, hdiffer⟩ := ih (cyclesPerFrame - m.tick.framePosition) (by omega) hahead' hlt
        hcycles' hcount' (fun i hi => hcheap (i + 1) (by omega)) rfl
      have hrest := (drive_stepOne_inj (hsame (.stepOne :: calls))).2
      rw [stepOne_of_lt hlt, stepOne_of_lt hbehind] at hrest
      exact hdiffer hrest
    · -- the leading machine ends its frame alone
      rw [stepOne_of_le hge, stepOne_of_lt hbehind, frameCount_endFrame,
        (sameHost_tick m).frameCount, (sameHost_tick m').frameCount, hcount] at hcount₁
      exact absurd hcount₁ (by simp)

/-- A machine saved within a frame does not resume exactly if what follows is cheap. -/
theorem not_resumesExactly_of_cheap (hin : m.framePosition < cyclesPerFrame)
    (hcheap : ∀ i, i + m.framePosition < cyclesPerFrame →
      (tick^[i] m).nextCost ≤ m.framePosition) : ¬m.ResumesExactly codec.toCodec := by
  intro hexact
  have hlead : (m.framePosition : Nat) = m.restarted.framePosition + m.framePosition :=
    (Nat.zero_add _).symm
  obtain ⟨calls, hdiffer⟩ := exists_drive_ne m.framePosition hlead hin rfl rfl hcheap
  exact hdiffer (resumesExactly_iff_restarted.mp hexact calls)

/-! ## Machines that a host can reach -/

/-- The machines that a host reaches from power-on: it puts in cartridges, starts the machine, sets
breakpoints and makes calls. -/
inductive Reachable : Machine → Prop where
  | initial : Reachable initial
  | insert {m m' : Machine} (h : Reachable m) (image : Bytes) (hinsert : m.insert image = .ok m') :
    Reachable m'
  | start {m : Machine} (h : Reachable m) : Reachable m.start
  | setBreakpoints {m : Machine} (h : Reachable m) (breakpoints : List UInt16) :
    Reachable { m with breakpoints }
  | call {m : Machine} (h : Reachable m) (c : Call) : Reachable (m.call c).2

theorem framePosition_insert {image : Bytes} (h : m.insert image = .ok m') :
    m'.framePosition = 0 := by
  unfold insert at h
  cases hparse : Cartridge.parse image with
  | error fault =>
    rw [hparse] at h
    exact absurd h (by nofun)
  | ok cartridge =>
    rw [hparse] at h
    rw [← Except.ok.inj h]
    rfl

theorem framePosition_stepFrame_lt (h : m.framePosition < cyclesPerFrame) :
    m.stepFrame.2.framePosition < cyclesPerFrame := by
  cases hrun : m.running with
  | false =>
    rw [stepFrame_of_not_running hrun]
    exact h
  | true =>
    rw [stepFrame_of_running hrun]
    by_cases hin : m.frameEnd.InFrame
    · rw [if_pos hin]
      exact hin.1
    · rw [if_neg hin, (Interchangeable.noteFrame _).framePosition]
      exact zero_lt_cyclesPerFrame

/-- **Invariant.**  A host always finds the machine within the budget of a frame. -/
theorem Reachable.framePosition_lt (h : Reachable m) : m.framePosition < cyclesPerFrame := by
  induction h with
  | initial => exact zero_lt_cyclesPerFrame
  | insert _ image hinsert _ =>
    rw [framePosition_insert hinsert]
    exact zero_lt_cyclesPerFrame
  | start _ ih => exact ih
  | setBreakpoints _ breakpoints ih => exact ih
  | call _ c ih =>
    cases c with
    | setInput mask => exact ih
    | requestInterrupt => exact ih
    | stepFrame => exact framePosition_stepFrame_lt ih
    | stepOne => exact stepOne_framePosition_lt _

/-! ## A machine without a program

ROM and RAM are empty at power-on, and a zero byte is an instruction that does nothing for one cycle.
So this machine can be stopped at any place of its first frame. -/

/-- A machine without a program that has executed a number of instructions of its first frame. -/
def idle (n : Nat) : Machine :=
  initial.start.pastNops n

theorem read_initial {address : UInt16} (h : address.toNat < 0x8000 ∨ 0xE000 ≤ address.toNat) :
    Memory.initial.read address = 0 := by
  unfold Memory.read
  rw [locate_eq]
  rcases h with hram | hrom
  · rw [dif_pos hram]
    exact Vector.getElem_replicate _
  · rw [dif_neg (by omega), dif_neg (by omega), dif_neg (by omega), if_neg (by omega)]
    exact Vector.getElem_replicate _

/-- In its first frame the machine does not get past RAM. -/
theorem read_idle {n : Nat} (hn : n < cyclesPerFrame) :
    Memory.initial.read (defaultEntry + UInt16.ofNat n) = 0 := by
  apply read_initial
  rw [UInt16.toNat_add, UInt16.toNat_ofNat']
  have hentry : defaultEntry.toNat = 0xE000 := rfl
  rw [cyclesPerFrame_eq] at hn
  omega

theorem ticks_idle {n : Nat} (i : Nat) (h : i + n ≤ cyclesPerFrame) :
    tick^[i] (idle n) = idle (i + n) := by
  have hnops : ∀ k < i, (idle n).memory.read ((idle n).registers.pc + UInt16.ofNat k) = 0 := by
    intro k hk
    show Memory.initial.read (defaultEntry + UInt16.ofNat n + UInt16.ofNat k) = 0
    rw [UInt16.add_assoc, ← UInt16.ofNat_add]
    exact read_idle (by omega)
  have hmasked : (idle n).registers.flag .interrupt = false := by
    show Flags.test 0 Flag.interrupt.bit = false
    decide
  rw [ticks_of_nops hnops (Or.inl hmasked), idle, pastNops_pastNops, Nat.add_comm, idle]

theorem tick_idle {n : Nat} (hn : n < cyclesPerFrame) : (idle n).tick = idle (n + 1) := by
  rw [Nat.add_comm]
  exact ticks_idle 1 (by omega)

theorem toNat_framePosition_idle {n : Nat} (hn : n ≤ cyclesPerFrame) :
    ((idle n).framePosition : Nat) = n := by
  rw [cyclesPerFrame_eq] at hn
  show (0 + UInt32.ofNat n).toNat = n
  rw [UInt32.zero_add, UInt32.toNat_ofNat', Nat.mod_eq_of_lt (by omega)]

theorem nextCost_idle {n : Nat} (hn : n < cyclesPerFrame) : (idle n).nextCost = 1 := by
  have hplace := toNat_framePosition_idle hn.le
  have hspent := toNat_framePosition_tick (m := idle n) (by rwa [hplace])
  rw [tick_idle hn, toNat_framePosition_idle hn, hplace] at hspent
  exact (Nat.add_left_cancel hspent).symm

theorem stepOne_idle {n : Nat} (hn : n + 1 < cyclesPerFrame) : (idle n).stepOne = idle (n + 1) := by
  have htick : (idle n).tick = idle (n + 1) := tick_idle (Nat.lt_of_succ_lt hn)
  rw [stepOne_of_lt, htick]
  rw [htick, toNat_framePosition_idle hn.le]
  exact hn

theorem reachable_idle {n : Nat} (hn : n < cyclesPerFrame) : Reachable (idle n) := by
  induction n with
  | zero =>
    rw [idle, pastNops_zero]
    exact Reachable.initial.start
  | succ n ih =>
    rw [← stepOne_idle hn]
    exact (ih (Nat.lt_of_succ_lt hn)).call .stepOne

theorem not_resumesExactly_idle {n : Nat} (hpositive : 0 < n) (hn : n < cyclesPerFrame) :
    ¬(idle n).ResumesExactly codec.toCodec := by
  have hplace := toNat_framePosition_idle hn.le
  apply not_resumesExactly_of_cheap (by rwa [hplace])
  intro i hi
  rw [hplace] at hi ⊢
  rw [ticks_idle i hi.le, nextCost_idle hi]
  exact hpositive

/-! ## Where a save state may be taken -/

/-- **Exact resumption.**  The start of a frame is the one place where every machine that a host can
reach resumes exactly.  Where the place in the frame is at least the price of every instruction, no
machine does. -/
theorem resumesExactly_iff (codec : LosslessCodec) (position : Fin cyclesPerFrame) :
    ((∀ m, Reachable m → (m.framePosition : Nat) = position → m.ResumesExactly codec.toCodec)
        ↔ position.val = 0)
      ∧ ((∀ opcode, cost opcode ≤ position) →
          ∀ m : Machine, (m.framePosition : Nat) = position →
            ¬m.ResumesExactly codec.toCodec) := by
  obtain ⟨p, hp⟩ := position
  refine ⟨⟨?_, ?_⟩, ?_⟩
  · intro hall
    by_contra hne
    exact not_resumesExactly_idle (Nat.pos_of_ne_zero hne) hp
      (hall (idle p) (reachable_idle hp) (toNat_framePosition_idle hp.le))
  · intro hstart m _ hposition
    exact resumesExactly_of_frameStart (UInt32.toNat_inj.mp (hposition.trans hstart))
  · intro hprices m hposition
    change m.framePosition.toNat = p at hposition
    apply not_resumesExactly_of_cheap (by rwa [hposition])
    intro i _
    rw [hposition]
    exact hprices _

/-- A machine that has executed a single instruction can be saved and loaded, and has lost its place
in the frame. -/
theorem single_step_lost :
    Reachable initial.start.stepOne
      ∧ ¬initial.start.stepOne.ResumesExactly SaveState.standardCodec.toCodec := by
  have hpower : initial.start = idle 0 := (pastNops_zero _).symm
  have hone : 1 < cyclesPerFrame := by decide
  rw [hpower, stepOne_idle hone]
  exact ⟨reachable_idle hone, not_resumesExactly_idle Nat.one_pos hone⟩

end FantasyComputer.Machine
