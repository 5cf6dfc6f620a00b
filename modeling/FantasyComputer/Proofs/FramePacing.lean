/-
# FantasyComputer.Proofs.FramePacing — how long a frame is.

Nothing counts the instructions of a frame.  It ends because every instruction has a price, and it
overruns its budget by what its last instruction costs beyond it.  The dearest instruction is `HALT`
at seven cycles, but after it the machine does not run; of those that leave it running the dearest
is a call at five (`cost_le_five`).  So a frame of a running machine takes from 16667 to 16671
cycles, and one that ends in a halt takes at most 16673.

Both counters of cycles grow by the price of the opcodes that are executed (`stepFrame_counters`).
From one frame (`framePosition_frameEnd_lt`, `spent_of_finished`) the bounds carry over to any number
of frames in a row (`price_framesOpcodes`), since each starts where the one before has ended.  The
bounds are those of a price, which is a number; the counters themselves wrap, and show the number as
long as it fits (`evenFrames`).
-/
import FantasyComputer.Proofs.Commands
import FantasyComputer.Proofs.Halting
import FantasyComputer.Proofs.InterruptCadence
import FantasyComputer.Proofs.TimeTravel

namespace FantasyComputer

/-! ## Prices -/

/-- `HALT` alone costs more than five cycles. -/
theorem cost_le_five : ∀ n : Fin 256, UInt8.ofFin n ≠ 0xFE → cost (UInt8.ofFin n) ≤ 5 := by
  decide +kernel

namespace Machine

variable {m : Machine}

/-! ## One frame -/

/-- A machine that still runs after an instruction has paid at most five cycles for it. -/
theorem nextCost_le_five (h : m.tick.running = true) : m.nextCost ≤ 5 := by
  apply cost_le_five m.opcode.toFin
  intro hhalt
  have hnext : m.nextInstruction = .halt := by
    rw [nextInstruction, show m.opcode = 0xFE from hhalt]
    rfl
  rw [running_tick_of_halt hnext] at h
  exact Bool.false_ne_true h

/-- **The overrun of a frame.**  It is less than the price of the last instruction. -/
theorem framePosition_frameEnd_lt (hpos : m.framePosition < cyclesPerFrame) :
    m.frameEnd.framePosition < cyclesPerFrame + 7
      ∧ (m.frameEnd.running = true → m.frameEnd.framePosition < cyclesPerFrame + 5) := by
  have hend := alike_frameEnd m
  rw [hend.framePosition, hend.running]
  cases hcount : m.frameTicks with
  | zero => exact ⟨Nat.lt_add_right 7 hpos, fun _ => Nat.lt_add_right 5 hpos⟩
  | succ n =>
    -- before its last instruction the frame was within its budget
    have hlast : (tick^[n] m).framePosition < cyclesPerFrame :=
      (runs_before_end m (by omega)).1.1
    have hposition := toNat_framePosition_tick hlast
    rw [Function.iterate_succ_apply']
    constructor
    · have hprice : (tick^[n] m).nextCost ≤ 7 := cost_le _
      omega
    · intro hrun
      have hprice := nextCost_le_five hrun
      omega

/-! ## One call -/

theorem running_of_finished (h : m.stepFrame.1 = true) : m.running = true := by
  by_contra hstopped
  rw [stepFrame_of_not_running (Bool.not_eq_true _ ▸ hstopped)] at h
  exact Bool.false_ne_true h

/-- A frame that is reported as finished has spent its budget or halted. -/
theorem not_inFrame_of_finished (h : m.stepFrame.1 = true) : ¬m.frameEnd.InFrame := by
  intro hin
  rw [stepFrame_of_running (running_of_finished h), if_pos hin] at h
  exact Bool.false_ne_true h

/-- A call that leaves the machine running and on no breakpoint has finished its frame. -/
theorem finished_of_going (hrun : m.stepFrame.2.running = true)
    (hpass : m.stepFrame.2.breakpointHit = false) : m.stepFrame.1 = true := by
  cases hbefore : m.running with
  | false =>
    rw [stepFrame_of_not_running hbefore] at hrun
    exact absurd (hbefore.symm.trans hrun) Bool.false_ne_true
  | true =>
    rw [stepFrame_of_running hbefore] at hpass ⊢
    by_cases hin : m.frameEnd.InFrame
    · rw [if_pos hin] at hpass
      exact absurd hpass.symm Bool.false_ne_true
    · rw [if_neg hin]

/-- A call in which the machine halts has finished its frame. -/
theorem finished_of_halted (hrun : m.running = true) (hhalt : m.stepFrame.2.running = false) :
    m.stepFrame.1 = true := by
  rw [stepFrame_of_running hrun] at hhalt ⊢
  by_cases hin : m.frameEnd.InFrame
  · rw [if_pos hin] at hhalt
    exact absurd (hhalt.symm.trans hin.2) Bool.false_ne_true
  · rw [if_neg hin]

/-- What a finished frame leaves behind. -/
theorem inStep_of_finished (h : m.stepFrame.1 = true) :
    InStep m.stepFrame.2 m.frameEnd.endFrame := by
  rw [(stepFrame_of_finished h).1]
  exact inStep_noteFrame _

theorem sameCourse_stepFrame (m : Machine) :
    SameCourse m.stepFrame.2 (tick^[m.frameOpcodes.length] m) := by
  rw [frameOpcodes, length_opcodes]
  rcases Nat.eq_zero_or_pos m.frameTicks with hzero | hpos
  · have hacts := (inStep_operate m (.call .stepFrame)).toSameCourse
    apply hacts.trans
    rw [actsOf, hzero]
    -- no instruction: at most the frame is ended
    split
    · split
      · exact (InStep.refl m).toSameCourse
      · exact sameCourse_endFrame m
    · exact (InStep.refl m).toSameCourse
  · exact sameCourse_call (c := .stepFrame) hpos

/-- A finished frame has executed something, since it started within its budget. -/
theorem frameOpcodes_pos (hpos : m.framePosition < cyclesPerFrame) (h : m.stepFrame.1 = true) :
    0 < m.frameOpcodes.length := by
  by_contra hnone
  have hcount : m.frameTicks = 0 := by
    rw [frameOpcodes, length_opcodes] at hnone
    omega
  have hend := alike_frameEnd m
  rw [hcount] at hend
  exact not_inFrame_of_finished h (hend.inFrame_iff.mpr ⟨hpos, running_of_finished h⟩)

/-- **The cycles of a frame.**  They reach the budget as long as the machine runs, and overrun it by
at most four cycles, or six with a halt. -/
theorem spent_of_finished (hpos : m.framePosition < cyclesPerFrame) (h : m.stepFrame.1 = true) :
    (m.stepFrame.2.running = true →
        16667 ≤ m.framePosition + price m.frameOpcodes
          ∧ m.framePosition + price m.frameOpcodes ≤ 16671)
      ∧ m.framePosition + price m.frameOpcodes ≤ 16673 := by
  have hrunning : m.stepFrame.2.running = m.frameEnd.running := (inStep_of_finished h).running
  have hspent := toNat_framePosition_frameEnd m
  obtain ⟨hseven, hfive⟩ := framePosition_frameEnd_lt hpos
  constructor
  · intro hrun
    rw [hrunning] at hrun
    have hover : ¬m.frameEnd.framePosition < cyclesPerFrame :=
      fun hlt => not_inFrame_of_finished h ⟨hlt, hrun⟩
    have hfew := hfive hrun
    rw [cyclesPerFrame_eq] at *
    omega
  · rw [cyclesPerFrame_eq] at *
    omega

/-! ## Frames in a row -/

/-- The machine after a number of frames. -/
def frames (n : Nat) (m : Machine) : Machine :=
  (fun m => m.stepFrame.2)^[n] m

theorem frames_succ (n : Nat) (m : Machine) : frames (n + 1) m = frames n m.stepFrame.2 :=
  Function.iterate_succ_apply _ _ _

/-- The opcodes that a number of frames executes. -/
def framesOpcodes : Nat → Machine → List UInt8
  | 0, _ => []
  | n + 1, m => m.frameOpcodes ++ framesOpcodes n m.stepFrame.2

/-- Whether a number of frames goes by without a halt and without a breakpoint. -/
def Undisturbed (n : Nat) (m : Machine) : Prop :=
  ∀ i < n, (frames (i + 1) m).running = true ∧ (frames (i + 1) m).breakpointHit = false

theorem Undisturbed.first {n : Nat} (h : Undisturbed (n + 1) m) : m.stepFrame.1 = true := by
  obtain ⟨hrun, hpass⟩ := h 0 (Nat.zero_lt_succ n)
  exact finished_of_going hrun hpass

theorem Undisturbed.rest {n : Nat} (h : Undisturbed (n + 1) m) : Undisturbed n m.stepFrame.2 := by
  intro i hi
  rw [← frames_succ]
  exact h (i + 1) (Nat.succ_lt_succ hi)

/-- What a number of frames costs that start one after the other.  Both counters grow, and wrap. -/
structure EvenFrames (n : Nat) (m : Machine) : Prop where
  cycles : (frames n m).cycles = m.cycles + UInt64.ofNat (price (framesOpcodes n m))
  atLeast : 16667 * n ≤ price (framesOpcodes n m)
  atMost : price (framesOpcodes n m) ≤ 16671 * n
  frameCount : (frames n m).frameCount = m.frameCount + UInt32.ofNat n
  framePosition : (frames n m).framePosition = 0
  /-- As numbers the counters grow by so much as long as they have room for it. -/
  exact : (m.cycles + price (framesOpcodes n m) < 2 ^ 64 →
      ((frames n m).cycles : Nat) = m.cycles + price (framesOpcodes n m))
    ∧ (m.frameCount + n < 2 ^ 32 → ((frames n m).frameCount : Nat) = m.frameCount + n)

/-- **The counters.**  Frames in a row that nothing disturbs are counted, and their instructions paid
for. -/
theorem counters_frames {n : Nat} (h : Undisturbed n m) :
    (frames n m).cycles = m.cycles + UInt64.ofNat (price (framesOpcodes n m))
      ∧ (frames n m).frameCount = m.frameCount + UInt32.ofNat n := by
  induction n generalizing m with
  | zero => exact ⟨(UInt64.add_zero _).symm, (UInt32.add_zero _).symm⟩
  | succ n ih =>
    obtain ⟨-, hcycles, hcount⟩ := m.stepFrame_counters
    obtain ⟨hcycles', hcount'⟩ := ih h.rest
    rw [h.first] at hcount
    have hone : m.stepFrame.2.frameCount = m.frameCount + 1 := hcount
    rw [frames_succ, hcycles', hcount', framesOpcodes, price_append, hcycles, hone, UInt64.ofNat_add,
      UInt32.ofNat_add, UInt64.add_assoc, UInt32.add_assoc, UInt32.add_comm (UInt32.ofNat n)]
    exact ⟨rfl, rfl⟩

/-- **Run lemma.**  Each of such frames takes its share and leaves the next one at its start. -/
theorem price_framesOpcodes {n : Nat} (hstart : m.framePosition = 0) (h : Undisturbed n m) :
    16667 * n ≤ price (framesOpcodes n m) ∧ price (framesOpcodes n m) ≤ 16671 * n
      ∧ (frames n m).framePosition = 0 := by
  induction n generalizing m with
  | zero => exact ⟨Nat.le_refl _, Nat.le_refl _, hstart⟩
  | succ n ih =>
    have hend := inStep_of_finished h.first
    have hin : m.framePosition < cyclesPerFrame := by
      rw [hstart]
      exact zero_lt_cyclesPerFrame
    obtain ⟨hleast, hmost⟩ :=
      (spent_of_finished hin h.first).1 (h 0 (Nat.zero_lt_succ n)).1
    have hzero : m.framePosition.toNat = 0 := congrArg UInt32.toNat hstart
    obtain ⟨hleast', hmost', hposition'⟩ := ih hend.framePosition h.rest
    rw [frames_succ, framesOpcodes, price_append]
    refine ⟨?_, ?_, hposition'⟩
    all_goals omega

theorem evenFrames {n : Nat} (hstart : m.framePosition = 0) (h : Undisturbed n m) :
    EvenFrames n m := by
  obtain ⟨hcycles, hcount⟩ := counters_frames h
  obtain ⟨hleast, hmost, hposition⟩ := price_framesOpcodes hstart h
  refine ⟨hcycles, hleast, hmost, hcount, hposition, fun hroom => ?_, fun hroom => ?_⟩
  · rw [hcycles, Counter.toNat_add_64 hroom]
  · rw [hcount, Counter.toNat_add_32 hroom]

/-! ## The budget as an invariant -/

/-- **Step lemma.**  A command leaves the machine within the budget of a frame, unless it is a bare
instruction, after which the end of the frame is left to the host. -/
theorem framePosition_obey_lt (h : m.framePosition < cyclesPerFrame) {c : Command}
    (hc : c ≠ .operate .step) : (m.obey c).framePosition < cyclesPerFrame := by
  cases c with
  | setButton button pressed => exact h
  | operate o =>
    cases o with
    | step => exact absurd rfl hc
    | call c => exact framePosition_call_lt h c
    | checkInterrupt =>
      obtain ⟨_, _, _, hcheck⟩ := checkInterrupt_eq m
      show m.checkInterrupt.framePosition.toNat < _
      rwa [hcheck]
  | intervene i =>
    cases i with
    | load image =>
      show (m.intervene (.load image)).framePosition.toNat < _
      cases hparse : Cartridge.parse image with
      | error fault => rwa [intervene_load_of_error hparse]
      | ok cartridge =>
        rw [intervene_load_of_ok hparse]
        exact zero_lt_cyclesPerFrame
    | execute i length =>
      show ((m.goto _).perform i).framePosition.toNat < _
      rw [framePosition_perform]
      exact h
    | reset entry => exact zero_lt_cyclesPerFrame
    | restore s => exact zero_lt_cyclesPerFrame
    | resume s => exact zero_lt_cyclesPerFrame
    | _ => exact h

/-- **Run lemma.** -/
theorem framePosition_obeyAll_lt (h : m.framePosition < cyclesPerFrame) {commands : List Command}
    (hcommands : ∀ c ∈ commands, c ≠ .operate .step) :
    (m.obeyAll commands).framePosition < cyclesPerFrame := by
  induction commands generalizing m with
  | nil => exact h
  | cons c commands ih =>
    rw [List.forall_mem_cons] at hcommands
    exact ih (framePosition_obey_lt h hcommands.1) hcommands.2

/-! ## The pace of frames -/

/-- How a machine within the budget of a frame is paced. -/
structure FramePacing (m : Machine) : Prop where
  /-- A call executes a row of instructions, and pays for each by its opcode. -/
  executed : SameCourse m.stepFrame.2 (tick^[m.frameOpcodes.length] m)
    ∧ m.stepFrame.2.cycles = m.cycles + UInt64.ofNat (price m.frameOpcodes)
  /-- The row is not longer than the budget. -/
  atMost : m.frameOpcodes.length ≤ 16667
  /-- A frame that is finished has executed something and makes way for the next one. -/
  finished : m.stepFrame.1 = true →
    0 < m.frameOpcodes.length ∧ m.stepFrame.2.framePosition = 0
      ∧ m.stepFrame.2.frameCount = m.frameCount + 1
  /-- The cycles of a finished frame since its start, if the machine runs on. -/
  running : m.stepFrame.1 = true → m.stepFrame.2.running = true →
    16667 ≤ m.framePosition + price m.frameOpcodes
      ∧ m.framePosition + price m.frameOpcodes ≤ 16671
  /-- A frame in which the machine halts is finished, and these are its cycles since its start. -/
  halted : m.running = true → m.stepFrame.2.running = false →
    m.stepFrame.1 = true ∧ m.framePosition + price m.frameOpcodes ≤ 16673
  /-- Whatever the host does between its calls, the machine stays within the budget. -/
  withinBudget : ∀ commands : List Command, (∀ c ∈ commands, c ≠ .operate .step) →
    (m.obeyAll commands).framePosition < cyclesPerFrame
  /-- Frames in a row from the start of one. -/
  even : m.framePosition = 0 → ∀ n, Undisturbed n m → EvenFrames n m

/-- **Frames are paced**, whatever the program and the breakpoints. -/
theorem framePacing (m : Machine) (hpos : m.framePosition < cyclesPerFrame) : FramePacing m where
  executed := by
    have hcourse := sameCourse_stepFrame m
    exact ⟨hcourse, m.stepFrame_counters.2.1⟩
  atMost := length_frameOpcodes_le m
  finished h := by
    have hend := inStep_of_finished h
    exact ⟨frameOpcodes_pos hpos h, hend.framePosition,
      hend.frameCount.trans (congrArg (· + 1) (sameHost_frameEnd m).frameCount)⟩
  running h := (spent_of_finished hpos h).1
  halted hrun hhalt := by
    have hfinished := finished_of_halted hrun hhalt
    exact ⟨hfinished, (spent_of_finished hpos hfinished).2⟩
  withinBudget _ hcommands := framePosition_obeyAll_lt hpos hcommands
  even hstart _ h := evenFrames hstart h

theorem Spinning.undisturbed (h : Spinning m) (n : Nat) : Undisturbed n m := by
  induction n generalizing m with
  | zero =>
    intro i hi
    exact absurd hi (Nat.not_lt_zero i)
  | succ n ih =>
    obtain ⟨hfinished, hspins⟩ := h.stepFrame
    intro i hi
    cases i with
    | zero => exact ⟨hspins.running, (stepFrame_of_finished hfinished).2⟩
    | succ i =>
      have hnext : Spinning m.stepFrame.2 := hspins.of_silent_eq rfl
      rw [frames_succ]
      exact ih hnext i (Nat.lt_of_succ_lt_succ hi)

theorem Spinning.running_stepFrame (h : Spinning m) : m.stepFrame.2.running = true :=
  h.stepFrame.2.running

/-- A second of a machine that jumps on the spot, and its first frame. -/
theorem framePacing_spinner :
    spinner.framePosition < cyclesPerFrame ∧ FramePacing spinner
      ∧ (16667 ≤ price spinner.frameOpcodes ∧ price spinner.frameOpcodes ≤ 16671)
      ∧ EvenFrames 60 spinner := by
  have hpos : spinner.framePosition < cyclesPerFrame := zero_lt_cyclesPerFrame
  have hpacing := framePacing spinner hpos
  have hundisturbed := spinning_spinner.undisturbed 60
  have hfirst : spinner.stepFrame.1 = true := spinning_spinner.stepFrame.1
  have hspent := hpacing.running hfirst spinning_spinner.running_stepFrame
  have hstart : spinner.framePosition = 0 := rfl
  rw [hstart, UInt32.toNat_zero, Nat.zero_add] at hspent
  exact ⟨hpos, hpacing, hspent, hpacing.even hstart 60 hundisturbed⟩

end Machine

end FantasyComputer
