/-
# FantasyComputer.Proofs.Passes — what the drivers do to the machine in one pass.

Without a window and in one, a pass runs a frame and, where the frame met a breakpoint, executes the
instruction there.  Between the two the drivers report and take the machine's journal.  `advance` is
that pass without the reports, and `Headless.machine_runFrame` and
`Windowed.Session.machine_runFrame` say that both drivers advance their machine and leave its
journal empty.

Taking the journal early changes nothing but the journal.  An operation for which that holds
`IgnoresJournal`; so do ticks, frames, single steps and passes.
-/
import FantasyComputer.Console.Headless
import FantasyComputer.Console.Windowed
import FantasyComputer.Proofs.Frames

namespace FantasyComputer

namespace Machine

variable {m m' : Machine}

/-! ## The journal is not read -/

/-- A machine whose journal has been taken. -/
def silent (m : Machine) : Machine :=
  { m with journal := #[] }

theorem silent_silent (m : Machine) : m.silent.silent = m.silent := rfl

/-- Machines that agree on all that runs, on the host's part and on the breaks differ in their
journals only. -/
theorem silent_ext (h : Alike m m') (hhost : SameHost m m') (hbreak : m.breakCount = m'.breakCount) :
    m.silent = m'.silent := by
  obtain ⟨hregisters, hmemory, hcycles, hposition, hrunning⟩ := h
  obtain ⟨hscreen, hcount, hpoints, hhit, hdebug, hbuttons⟩ := hhost
  unfold silent
  rw [hregisters, hmemory, hcycles, hposition, hrunning, hscreen, hcount, hpoints, hhit, hdebug,
    hbuttons, hbreak]

/-- An operation that does the same, up to the journal, when the journal is taken before it. -/
def IgnoresJournal (f : Machine → Machine) : Prop :=
  ∀ m, (f m.silent).silent = (f m).silent

namespace IgnoresJournal

variable {f g : Machine → Machine}

theorem comp (hg : IgnoresJournal g) (hf : IgnoresJournal f) : IgnoresJournal (g ∘ f) := by
  intro m
  show (g (f m.silent)).silent = (g (f m)).silent
  rw [← hg, hf, hg]

theorem iterate (hf : IgnoresJournal f) (n : Nat) : IgnoresJournal f^[n] := by
  induction n with
  | zero => exact silent_silent
  | succ n ih =>
    rw [Function.iterate_succ]
    exact ih.comp hf

end IgnoresJournal

theorem alike_silent (m : Machine) : Alike m.silent m := ⟨rfl, rfl, rfl, rfl, rfl⟩

theorem ignoresJournal_tick : IgnoresJournal tick := by
  intro m
  refine silent_ext (alike_silent m).tick ?_ ?_
  · obtain ⟨hscreen, hcount, hpoints, hhit, hdebug, hbuttons⟩ := sameHost_tick m
    exact (sameHost_tick m.silent).trans
      ⟨hscreen.symm, hcount.symm, hpoints.symm, hhit.symm, hdebug.symm, hbuttons.symm⟩
  · rw [breakCount_tick, breakCount_tick, (alike_silent m).nextInstruction]
    rfl

theorem ignoresJournal_endFrame : IgnoresJournal endFrame := fun _ => rfl

theorem silent_noteFrame (m : Machine) : m.noteFrame.silent = m.silent := by
  unfold noteFrame
  split <;> rfl

theorem ignoresJournal_stepOne : IgnoresJournal stepOne := by
  intro m
  have hposition : m.silent.tick.framePosition = m.tick.framePosition :=
    (alike_silent m).tick.framePosition
  have htick := ignoresJournal_tick m
  unfold stepOne
  simp only [hposition]
  split
  · rw [← ignoresJournal_endFrame, htick, ignoresJournal_endFrame]
  · exact htick

theorem silent_setInput (m : Machine) (mask : UInt8) :
    (m.silent.setInput mask).silent = (m.setInput mask).silent := rfl

theorem silent_frameEnd (m : Machine) : m.silent.frameEnd.silent = m.frameEnd.silent := by
  have hfresh : Alike m.silent.fresh m.fresh := ⟨rfl, rfl, rfl, rfl, rfl⟩
  have hticks : m.silent.fresh.frameTicks = m.fresh.frameTicks := hfresh.frameTicks rfl
  unfold frameEnd
  rw [hticks]
  exact ignoresJournal_tick.iterate m.fresh.frameTicks m.fresh

theorem inFrame_silent (m : Machine) : m.silent.InFrame ↔ m.InFrame :=
  (alike_silent m).inFrame_iff

/-- A frame ignores the journal in what it tells and in what it does. -/
theorem stepFrame_silent (m : Machine) :
    m.silent.stepFrame.1 = m.stepFrame.1 ∧ m.silent.stepFrame.2.silent = m.stepFrame.2.silent := by
  cases hrun : m.running with
  | false =>
    have hsilent : m.silent.running = false := hrun
    rw [stepFrame_of_not_running hrun, stepFrame_of_not_running hsilent]
    exact ⟨rfl, rfl⟩
  | true =>
    have hsilent : m.silent.running = true := hrun
    have hend := silent_frameEnd m
    have hin : m.silent.frameEnd.InFrame ↔ m.frameEnd.InFrame := by
      rw [← inFrame_silent m.silent.frameEnd, hend, inFrame_silent]
    rw [stepFrame_of_running hrun, stepFrame_of_running hsilent]
    by_cases h : m.frameEnd.InFrame
    · rw [if_pos h, if_pos (hin.mpr h)]
      exact ⟨rfl, congrArg (fun r : Machine => { r with breakpointHit := true }) hend⟩
    · rw [if_neg h, if_neg (mt hin.mp h)]
      refine ⟨rfl, ?_⟩
      rw [silent_noteFrame, silent_noteFrame, ← ignoresJournal_endFrame, hend,
        ignoresJournal_endFrame]

/-! ## A pass without its reports -/

/-- What a driver does in one pass: a frame and, at a breakpoint, the instruction there. -/
def advance (m : Machine) : Machine :=
  let m := m.stepFrame.2
  if m.breakpointHit then m.stepOne else m

theorem advance_of_hit (h : m.stepFrame.2.breakpointHit = true) :
    m.advance = m.stepFrame.2.stepOne :=
  if_pos h

theorem advance_of_not_hit (h : m.stepFrame.2.breakpointHit = false) :
    m.advance = m.stepFrame.2 :=
  if_neg (by rw [h]; exact Bool.false_ne_true)

/-- A stopped machine stays as it is. -/
theorem advance_of_not_running (hrun : m.running = false) : m.advance = m.fresh := by
  have hstays := stepFrame_of_not_running hrun
  rw [advance_of_not_hit (by rw [hstays]; rfl), hstays]

/-- A frame that reports a breakpoint stopped within its budget, with the machine running. -/
theorem inFrame_of_hit (hrun : m.running = true) (hhit : m.stepFrame.2.breakpointHit = true) :
    m.frameEnd.InFrame := by
  by_contra hout
  rw [stepFrame_of_running hrun, if_neg hout] at hhit
  have hnote : m.frameEnd.endFrame.noteFrame.breakpointHit = false := by
    unfold noteFrame
    split <;> exact (sameHost_frameEnd m).breakpointHit
  exact absurd hhit (by rw [hnote]; exact Bool.false_ne_true)

/-- A frame that is reported as finished ends with its picture, on no breakpoint. -/
theorem stepFrame_of_finished (h : m.stepFrame.1 = true) :
    m.stepFrame.2 = m.frameEnd.endFrame.noteFrame ∧ m.stepFrame.2.breakpointHit = false := by
  cases hrun : m.running with
  | false =>
    rw [stepFrame_of_not_running hrun] at h
    exact absurd h Bool.false_ne_true
  | true =>
    rw [stepFrame_of_running hrun] at h ⊢
    by_cases hin : m.frameEnd.InFrame
    · rw [if_pos hin] at h
      exact absurd h Bool.false_ne_true
    · rw [if_neg hin]
      have hsilent := silent_noteFrame m.frameEnd.endFrame
      refine ⟨rfl, ?_⟩
      show m.frameEnd.endFrame.noteFrame.silent.breakpointHit = false
      rw [hsilent]
      exact (sameHost_frameEnd m).breakpointHit

theorem ignoresJournal_advance : IgnoresJournal advance := by
  intro m
  have hframe := (stepFrame_silent m).2
  have hhit : m.silent.stepFrame.2.silent.breakpointHit = m.stepFrame.2.silent.breakpointHit := by
    rw [hframe]
  change m.silent.stepFrame.2.breakpointHit = m.stepFrame.2.breakpointHit at hhit
  unfold advance
  simp only [hhit]
  split
  · rw [← ignoresJournal_stepOne, hframe, ignoresJournal_stepOne]
  · exact hframe

/-! ## What a pass adds to the counters

Both counters wrap.  What a pass adds to them is told apart from what they show, so that one can say
whether they have room for it. -/

theorem frameOpcodes_of_not_running (hrun : m.running = false) : m.frameOpcodes = [] := by
  have hout : ¬m.InFrame := fun hin => Bool.false_ne_true (hrun.symm.trans hin.2)
  rw [frameOpcodes, frameTicks_of_over hout, opcodes]

/-- What a frame does to the counters, and that it leaves the ROM alone. -/
theorem stepFrame_counters (m : Machine) :
    m.stepFrame.2.memory.rom = m.memory.rom
      ∧ m.stepFrame.2.cycles = m.cycles + UInt64.ofNat (price m.frameOpcodes)
      ∧ m.stepFrame.2.frameCount = m.frameCount + UInt32.ofNat m.stepFrame.1.toNat := by
  cases hrun : m.running with
  | false =>
    rw [stepFrame_of_not_running hrun, frameOpcodes_of_not_running hrun]
    exact ⟨rfl, (UInt64.add_zero _).symm, (UInt32.add_zero _).symm⟩
  | true =>
    have hrom : m.frameEnd.memory.rom = m.memory.rom := rom_ticks _ m.fresh
    have hcount : m.frameEnd.frameCount = m.frameCount := (sameHost_frameEnd m).frameCount
    rw [stepFrame_of_running hrun]
    split
    · exact ⟨hrom, cycles_frameEnd m, hcount.trans (UInt32.add_zero _).symm⟩
    · have hsilent := silent_noteFrame m.frameEnd.endFrame
      refine ⟨?_, ?_, ?_⟩
      · exact (congrArg (·.memory.rom) hsilent).trans hrom
      · exact (congrArg (·.cycles) hsilent).trans (cycles_frameEnd m)
      · exact (congrArg (·.frameCount) hsilent).trans (congrArg (· + 1) hcount)

theorem rom_stepFrame (m : Machine) : m.stepFrame.2.memory.rom = m.memory.rom :=
  m.stepFrame_counters.1

/-- Whether a single step finishes the frame. -/
def StepEnds (m : Machine) : Prop :=
  cyclesPerFrame ≤ m.tick.framePosition

instance (m : Machine) : Decidable m.StepEnds :=
  inferInstanceAs (Decidable (_ ≤ _))

theorem rom_stepOne (m : Machine) : m.stepOne.memory.rom = m.memory.rom := by
  unfold stepOne
  simp only
  split <;> exact rom_tick m

theorem frameCount_stepOne (m : Machine) :
    m.stepOne.frameCount = m.frameCount + UInt32.ofNat (if m.StepEnds then 1 else 0) := by
  have hcount : m.tick.frameCount = m.frameCount := (sameHost_tick m).frameCount
  by_cases hends : m.StepEnds
  · rw [stepOne_of_le hends, if_pos hends]
    exact congrArg (· + 1) hcount
  · rw [stepOne_of_lt (Nat.not_le.mp hends), if_neg hends]
    exact hcount.trans (UInt32.add_zero _).symm

/-- The opcodes that a pass executes: those of its frame and, at a breakpoint, the one there. -/
def passOpcodes (m : Machine) : List UInt8 :=
  m.frameOpcodes ++ if m.stepFrame.2.breakpointHit then [m.stepFrame.2.opcode] else []

/-- The number of frames that a pass finishes. -/
def passFrames (m : Machine) : Nat :=
  m.stepFrame.1.toNat
    + if m.stepFrame.2.breakpointHit = true ∧ m.stepFrame.2.StepEnds then 1 else 0

theorem cycles_advance (m : Machine) :
    m.advance.cycles = m.cycles + UInt64.ofNat (price m.passOpcodes) := by
  obtain ⟨-, hcycles, -⟩ := m.stepFrame_counters
  rw [passOpcodes, price_append, UInt64.ofNat_add, ← UInt64.add_assoc, ← hcycles]
  cases hhit : m.stepFrame.2.breakpointHit with
  | true =>
    rw [advance_of_hit hhit, cycles_stepOne, if_pos rfl, price_cons, price_nil, nextCost,
      Nat.add_zero]
  | false =>
    rw [advance_of_not_hit hhit, if_neg Bool.false_ne_true]
    exact (UInt64.add_zero _).symm

theorem frameCount_advance (m : Machine) :
    m.advance.frameCount = m.frameCount + UInt32.ofNat m.passFrames := by
  obtain ⟨-, -, hcount⟩ := m.stepFrame_counters
  rw [passFrames, UInt32.ofNat_add, ← UInt32.add_assoc, ← hcount]
  cases hhit : m.stepFrame.2.breakpointHit with
  | true => simp only [advance_of_hit hhit, frameCount_stepOne, true_and]
  | false =>
    rw [advance_of_not_hit hhit, if_neg fun hboth => Bool.false_ne_true hboth.1]
    exact (UInt32.add_zero _).symm

theorem rom_advance (m : Machine) : m.advance.memory.rom = m.memory.rom := by
  unfold advance
  simp only
  split
  · exact (rom_stepOne _).trans (rom_stepFrame m)
  · exact rom_stepFrame m

/-- Whether the counters have room for the next pass. -/
structure HasRoom (m : Machine) : Prop where
  cycles : m.cycles + price m.passOpcodes < 2 ^ 64
  frameCount : m.frameCount + m.passFrames < 2 ^ 32

/-- What a pass costs at most: one instruction more than a frame has cycles, each at seven. -/
def dearestPass : Nat :=
  7 * (cyclesPerFrame + 1)

theorem price_passOpcodes_le (m : Machine) : price m.passOpcodes ≤ dearestPass := by
  have hframe := length_frameOpcodes_le m
  have hlast : (if m.stepFrame.2.breakpointHit then [m.stepFrame.2.opcode] else []).length ≤ 1 := by
    split <;> simp
  apply (price_le m.passOpcodes).trans
  rw [passOpcodes, List.length_append, dearestPass]
  exact Nat.mul_le_mul_left 7 (Nat.add_le_add hframe hlast)

theorem passFrames_le (m : Machine) : m.passFrames ≤ 2 := by
  have hframe := m.stepFrame.1.toNat_le
  unfold passFrames
  split <;> omega

/-- Counters far enough from their widths have room. -/
theorem hasRoom_of_lt (hcycles : m.cycles + dearestPass < 2 ^ 64)
    (hframes : m.frameCount.toNat + 2 < 2 ^ 32) : m.HasRoom where
  cycles := (Nat.add_le_add_left m.price_passOpcodes_le _).trans_lt hcycles
  frameCount := (Nat.add_le_add_left m.passFrames_le _).trans_lt hframes

/-- A machine whose counters show no more than so many passes can have added to those of another. -/
structure Within (first : Machine) (passes : Nat) (m : Machine) : Prop where
  cycles : (m.cycles : Nat) ≤ first.cycles + passes * dearestPass
  frameCount : (m.frameCount : Nat) ≤ first.frameCount + passes * 2

theorem Within.mono {first : Machine} {n k : Nat} (h : Within first n m) (hle : n ≤ k) :
    Within first k m where
  cycles := h.cycles.trans (Nat.add_le_add_left (Nat.mul_le_mul_right _ hle) _)
  frameCount := h.frameCount.trans (Nat.add_le_add_left (Nat.mul_le_mul_right _ hle) _)

theorem Within.advance {first : Machine} {n : Nat} (h : Within first n m) :
    Within first (n + 1) m.advance where
  cycles := by
    have hadded := Counter.toNat_add_le_64 m.cycles (price m.passOpcodes)
    have hprice := m.price_passOpcodes_le
    have hbefore := h.cycles
    rw [cycles_advance, Nat.succ_mul]
    omega
  frameCount := by
    have hadded := Counter.toNat_add_le_32 m.frameCount m.passFrames
    have hframes := m.passFrames_le
    have hbefore := h.frameCount
    rw [frameCount_advance]
    omega

theorem Within.hasRoom {first : Machine} {n k : Nat} (h : Within first n m) (hlt : n < k)
    (hcycles : first.cycles + k * dearestPass < 2 ^ 64)
    (hframes : first.frameCount + k * 2 < 2 ^ 32) : m.HasRoom := by
  have hmore : (n + 1) * dearestPass ≤ k * dearestPass := Nat.mul_le_mul_right _ hlt
  have hbefore := h.cycles
  have hcount := h.frameCount
  rw [Nat.succ_mul] at hmore
  exact hasRoom_of_lt (by omega) (by omega)

/-! ## What a pass never undoes -/

/-- Two machines with the same ROM, the second with no fewer cycles and frames behind it as long as
no counter overflows. -/
structure Onward (fits : Prop) (m m' : Machine) : Prop where
  rom : m'.memory.rom = m.memory.rom
  cycles : fits → (m.cycles : Nat) ≤ m'.cycles
  frameCount : fits → (m.frameCount : Nat) ≤ m'.frameCount

namespace Onward

variable {fits fits' : Prop}

theorem refl (m : Machine) : Onward fits m m :=
  ⟨rfl, fun _ => Nat.le_refl _, fun _ => Nat.le_refl _⟩

theorem trans {m'' : Machine} (h : Onward fits m m') (h' : Onward fits m' m'') :
    Onward fits m m'' where
  rom := h'.rom.trans h.rom
  cycles hfits := (h.cycles hfits).trans (h'.cycles hfits)
  frameCount hfits := (h.frameCount hfits).trans (h'.frameCount hfits)

theorem mono (h : Onward fits m m') (hfits : fits' → fits) : Onward fits' m m' :=
  ⟨h.rom, h.cycles ∘ hfits, h.frameCount ∘ hfits⟩

theorem of_silent_eq (h : m.silent = m'.silent) : Onward fits m m' where
  rom := (congrArg (·.memory.rom) h).symm
  cycles _ := Nat.le_of_eq (congrArg (·.cycles.toNat) h)
  frameCount _ := Nat.le_of_eq (congrArg (·.frameCount.toNat) h)

/-- **A pass goes onward**, if the counters have room for it. -/
theorem advance (m : Machine) : Onward m.HasRoom m m.advance where
  rom := rom_advance m
  cycles hroom := by
    rw [cycles_advance, Counter.toNat_add_64 hroom.cycles]
    exact Nat.le_add_right _ _
  frameCount hroom := by
    rw [frameCount_advance, Counter.toNat_add_32 hroom.frameCount]
    exact Nat.le_add_right _ _

end Onward

end Machine

/-! ## The two drivers -/

theorem Headless.machine_passBreakpoint (frame : Nat) (r : Run) :
    (passBreakpoint frame r).machine
      = if r.machine.breakpointHit then r.machine.stepOne.silent else r.machine := by
  unfold passBreakpoint
  rw [apply_ite Run.machine]
  rfl

/-- A pass without a window advances the machine, once the button is pressed or released. -/
theorem Headless.machine_runFrame (o : Options) (frames frame : Nat) (r : Run) :
    (runFrame o frames frame r).machine = (press o frame r).machine.advance.silent := by
  have hreports : (runFrame o frames frame r).machine
      = (passBreakpoint frame (Run.settle
          ⟨(press o frame r).machine.stepFrame.2, (press o frame r).transcript⟩)).machine := by
    unfold runFrame
    simp only [apply_ite Run.machine, Run.printing, ite_self]
  rw [hreports, machine_passBreakpoint]
  unfold Machine.advance
  rw [apply_ite Machine.silent]
  have hstep := Machine.ignoresJournal_stepOne (press o frame r).machine.stepFrame.2
  exact if_congr Iff.rfl hstep rfl

namespace Windowed.Session

theorem machine_settle (s : Session) : s.settle.machine = s.machine.silent := rfl

theorem machine_record (s : Session) : s.record.machine = s.machine := by
  unfold record
  simp only
  split <;> rfl

/-- A pass in a window prepares and then goes back or runs a frame. -/
theorem perform_fst (setup : Setup) (pass : Pass) (s : Session) :
    (s.perform setup pass).1
      = if pass.keys.contains .backspace then (s.prepare setup pass).1.goBack
        else (s.prepare setup pass).1.runFrame := rfl

/-- A frame in a window advances the machine. -/
theorem machine_runFrame (s : Session) : s.runFrame.machine = s.machine.advance.silent := by
  have hreports : s.runFrame.machine
      = if s.machine.stepFrame.2.breakpointHit then s.machine.stepFrame.2.silent.stepOne.silent
        else s.machine.stepFrame.2.silent := by
    unfold runFrame
    simp only [apply_ite Session.machine, machine_settle, machine_record, complain, ite_self]
    rfl
  rw [hreports]
  unfold Machine.advance
  rw [apply_ite Machine.silent]
  exact if_congr Iff.rfl (Machine.ignoresJournal_stepOne _) rfl

end Windowed.Session

end FantasyComputer
