/-
# FantasyComputer.Proofs.TimeTravel — going back in time is exact.

A snapshot holds neither ROM nor the place in the frame nor the picture, so putting one back is exact
only because of when snapshots are taken and when they are dropped.  The invariant is `Remembers`: it
ties the ring of a session to the numbers of the passes whose snapshots are still there (`history`),
and says of the machine at the end of each of these passes that it had today's ROM, stood at the
start of a frame and showed what its video RAM held.  The passes are ordered in time, although going
back sets the machine's own counters back.  Counters wrap, so that their order is promised only as
long as they have room (`CountersHold`); all else holds without that.

`Remembers.next` carries the invariant over a pass, `remembers_sessionAt` over a run, and
`goBack_exact` reads the result off for every pass with Backspace held.
-/
import FantasyComputer.Proofs.Preparation

namespace FantasyComputer

namespace Machine

variable {m m' : Machine}

/-! ## Putting a snapshot back -/

/-- Two machines at one moment: everything that a program can change agrees, with ROM, the place in
the frame and the picture. -/
structure SameMoment (m m' : Machine) : Prop extends Alike m m' where
  frameCount : m.frameCount = m'.frameCount
  screen : m.screen = m'.screen

/-- A machine that has just finished a frame: it starts the next one and shows its video RAM. -/
structure AtFrameStart (m : Machine) : Prop where
  framePosition : m.framePosition = 0
  screen : m.render.screen = m.screen

theorem memory_restore (hrom : m.memory.rom = m'.memory.rom) :
    (m.restore m'.snapshot).memory = m'.memory := by
  show Memory.mk (overlay m'.memory.ram.toArray m.memory.ram)
    (overlay m'.memory.video.toArray m.memory.video) (overlay m'.memory.io.toArray m.memory.io)
    m.memory.rom m'.memory.palette = m'.memory
  rw [overlay_toArray, overlay_toArray, overlay_toArray, hrom]

/-- **A snapshot put back.**  Under the ROM it was taken with, a snapshot from the start of a frame
restores the moment it was taken. -/
theorem sameMoment_restore (hrom : m.memory.rom = m'.memory.rom) (hstart : m'.AtFrameStart) :
    SameMoment (m.restore m'.snapshot) m' where
  registers := rfl
  memory := memory_restore hrom
  cycles := rfl
  framePosition := hstart.framePosition.symm
  running := rfl
  frameCount := rfl
  screen := by
    have hdrawn : (m.restore m'.snapshot).screen
        = m.screen.render (m.restore m'.snapshot).memory.video.toArray
          (m.restore m'.snapshot).memory.palette := rfl
    rw [hdrawn, memory_restore hrom, ← hstart.screen]
    exact Screen.render_eq _ _ _ _

theorem atFrameStart_of_finished (h : m.stepFrame.1 = true) : m.stepFrame.2.silent.AtFrameStart := by
  rw [(stepFrame_of_finished h).1, silent_noteFrame]
  exact ⟨rfl, Screen.render_eq _ _ _ _⟩

end Machine

namespace Windowed.Session

/-! ## The passes that are remembered -/

/-- Whether a frame run now would be remembered: it is finished, and a snapshot is due. -/
def records (s : Session) : Bool :=
  s.machine.stepFrame.1 && s.rewind.tick.1

/-- The passes remembered when a pass has acted on its keys. -/
def kept (setup : Setup) (pass : Pass) (s : Session) (history : List Nat) : List Nat :=
  if s.forgets setup pass then [] else history

/-- The passes remembered after pass `n`, newest first.  With Backspace held the newest is used up.
Otherwise the pass itself may be remembered, over the oldest when there are sixty. -/
def remembered (setup : Setup) (pass : Pass) (s : Session) (n : Nat) (history : List Nat) :
    List Nat :=
  if pass.keys.contains .backspace then (s.kept setup pass history).tail
  else if (s.prepare setup pass).1.records then
    (n :: s.kept setup pass history).take historyLength
  else s.kept setup pass history

/-- The session after a pass. -/
def next (setup : Setup) (pass : Pass) (s : Session) : Session :=
  (s.perform setup pass).1

/-- The session after a number of passes of a script. -/
def sessionAt (setup : Setup) (script : Nat → Pass) (s : Session) : Nat → Session
  | 0 => s
  | n + 1 => (sessionAt setup script s n).next setup (script n)

/-- The passes remembered after a number of passes of a script. -/
def history (setup : Setup) (script : Nat → Pass) (s : Session) : Nat → List Nat
  | 0 => []
  | n + 1 => (sessionAt setup script s n).remembered setup (script n) n (history setup script s n)

/-! ## Room in the counters -/

/-- Whether the counters have room for a pass, in which a frame is run unless Backspace is held. -/
def HasRoom (setup : Setup) (pass : Pass) (s : Session) : Prop :=
  pass.keys.contains .backspace = true ∨ (s.prepare setup pass).1.machine.HasRoom

/-- Whether no counter overflows in a number of passes of a script. -/
def CountersHold (setup : Setup) (script : Nat → Pass) (s : Session) (n : Nat) : Prop :=
  ∀ i < n, (sessionAt setup script s i).HasRoom setup (script i)

/-! ## The invariant -/

/-- A session remembers the ends of some passes, newest first.  If nothing overflows, they come
before it in the order of the counters. -/
structure Remembers (fits : Prop) (ends : Nat → Machine) (s : Session) (history : List Nat) :
    Prop where
  capacity : s.rewind.history.capacity = historyLength
  holds : s.rewind.history.Holds (history.map fun i => (ends i).snapshot)
  atFrameStart : ∀ i ∈ history, (ends i).AtFrameStart
  onward : ∀ i ∈ history, Machine.Onward fits (ends i) s.machine
  ordered : history.Pairwise fun i j => Machine.Onward fits (ends j) (ends i)

variable {fits fits' : Prop} {ends : Nat → Machine} {setup : Setup} {pass : Pass} {s : Session}
  {history : List Nat}

theorem Remembers.mono (h : Remembers fits ends s history) (hfits : fits' → fits) :
    Remembers fits' ends s history where
  capacity := h.capacity
  holds := h.holds
  atFrameStart := h.atFrameStart
  onward i hi := (h.onward i hi).mono hfits
  ordered := h.ordered.imp fun honward => honward.mono hfits

theorem Remembers.of_onward {s' : Session} (h : Remembers fits ends s history)
    (hrewind : s'.rewind.history = s.rewind.history)
    (honward : Machine.Onward fits s.machine s'.machine) : Remembers fits ends s' history where
  capacity := by rw [hrewind, h.capacity]
  holds := by
    rw [hrewind]
    exact h.holds
  atFrameStart := h.atFrameStart
  onward i hi := (h.onward i hi).trans honward
  ordered := h.ordered

theorem Remembers.nil (hcapacity : s.rewind.history.capacity = historyLength)
    (hholds : s.rewind.history.Holds []) : Remembers fits ends s [] :=
  ⟨hcapacity, hholds, fun _ hi => absurd hi List.not_mem_nil, fun _ hi => absurd hi List.not_mem_nil,
    List.Pairwise.nil⟩

theorem onward_prepare (h : s.forgets setup pass = false) :
    Machine.Onward fits s.machine (s.prepare setup pass).1.machine := by
  obtain ⟨mask, hmask⟩ := machine_prepare h
  have hbuttons : Machine.Onward fits s.machine (s.machine.setInput mask) :=
    ⟨Memory.rom_write _ _ _, fun _ => Nat.le_refl _, fun _ => Nat.le_refl _⟩
  exact hbuttons.trans (Machine.Onward.of_silent_eq hmask.symm)

/-- The keys of a pass drop the whole history or leave it. -/
theorem Remembers.prepare (h : Remembers fits ends s history) :
    Remembers fits ends (s.prepare setup pass).1 (s.kept setup pass history) := by
  have hrewind := rewind_prepare setup pass s
  unfold kept
  cases hforgets : s.forgets setup pass with
  | true =>
    rw [hforgets, if_pos rfl] at hrewind
    rw [if_pos rfl]
    apply Remembers.nil
    · rw [hrewind]
      exact (Ring.capacity_clear _).trans h.capacity
    · rw [hrewind]
      exact Ring.holds_clear _
  | false =>
    rw [hforgets, if_neg Bool.false_ne_true] at hrewind
    rw [if_neg Bool.false_ne_true]
    exact h.of_onward (congrArg Rewind.history hrewind) (onward_prepare hforgets)

/-! ## Going back -/

theorem Remembers.pop?_nil (h : Remembers fits ends s []) : s.rewind.pop? = none := by
  rw [Rewind.pop?, h.holds.pop?_nil, Option.map_none]

theorem Remembers.isSome_pop? {i : Nat} (h : Remembers fits ends s (i :: history)) :
    s.rewind.pop?.isSome = true := by
  obtain ⟨rest, hpop, -⟩ := h.holds.pop?_cons
  rw [Rewind.pop?, hpop, Option.map_some]
  rfl

theorem goBack_nil (h : Remembers fits ends s []) : s.goBack = s := by
  unfold goBack
  rw [h.pop?_nil]

/-- **One snapshot back.**  The machine is at the moment at which the newest remembered pass ended,
and that pass is used up. -/
theorem Remembers.goBack {i : Nat} (h : Remembers fits ends s (i :: history)) :
    Machine.SameMoment s.goBack.machine (ends i) ∧ Remembers fits ends s.goBack history := by
  obtain ⟨rest, hpop, hrest, hcapacity⟩ := h.holds.pop?_cons
  have hback : s.goBack = { s with
      machine := s.machine.restore (ends i).snapshot
      rewind := { s.rewind with history := rest } } := by
    unfold Session.goBack
    rw [Rewind.pop?, hpop, Option.map_some]
  have honward := h.onward i List.mem_cons_self
  have hmoment := Machine.sameMoment_restore honward.rom (h.atFrameStart i List.mem_cons_self)
  rw [hback]
  refine ⟨hmoment, hcapacity.trans h.capacity, hrest,
    fun j hj => h.atFrameStart j (List.mem_cons_of_mem i hj), fun j hj => ?_,
    (List.pairwise_cons.mp h.ordered).2⟩
  -- the older passes lie before the one that is gone back to
  have hold := (List.pairwise_cons.mp h.ordered).1 j hj
  exact ⟨honward.rom.trans hold.rom, hold.cycles, hold.frameCount⟩

/-! ## Running a frame -/

theorem rewind_record (s : Session) : s.record.rewind
    = if s.rewind.tick.1 then s.rewind.tick.2.push s.machine.snapshot else s.rewind.tick.2 := by
  unfold record
  simp only
  split <;> rfl

theorem rewind_settle (s : Session) : s.settle.rewind = s.rewind := rfl

theorem rewind_runFrame (s : Session) : s.runFrame.rewind
    = if s.machine.stepFrame.1 then { s with machine := s.machine.stepFrame.2 }.settle.record.rewind
      else s.rewind := by
  unfold runFrame
  simp only [apply_ite Session.rewind, complain, rewind_settle, ite_self]

theorem history_runFrame (s : Session) : s.runFrame.rewind.history
    = if s.records then s.rewind.history.push s.machine.stepFrame.2.snapshot
      else s.rewind.history := by
  have htick : s.rewind.tick.2.history = s.rewind.history := by
    unfold Rewind.tick
    split <;> rfl
  rw [rewind_runFrame, records]
  cases s.machine.stepFrame.1 with
  | false => rfl
  | true =>
    rw [if_pos rfl, Bool.true_and, rewind_record, rewind_settle]
    split
    · exact congrArg (·.push s.machine.stepFrame.2.snapshot) htick
    · exact htick

theorem onward_runFrame (s : Session) :
    Machine.Onward s.machine.HasRoom s.machine s.runFrame.machine :=
  (Machine.Onward.advance s.machine).trans
    (Machine.Onward.of_silent_eq (congrArg Machine.silent (machine_runFrame s)).symm)

/-- **One frame.**  It is remembered if it is finished when a snapshot is due. -/
theorem Remembers.runFrame {n : Nat} (h : Remembers fits ends s history)
    (hfits : fits → s.machine.HasRoom) (hend : ends n = s.runFrame.machine) :
    Remembers fits ends s.runFrame
      (if s.records then (n :: history).take historyLength else history) := by
  have hhistory := history_runFrame s
  have hpass : Machine.Onward fits s.machine s.runFrame.machine := (onward_runFrame s).mono hfits
  cases hrecords : s.records with
  | false =>
    rw [hrecords, if_neg Bool.false_ne_true] at hhistory
    rw [if_neg Bool.false_ne_true]
    exact h.of_onward hhistory hpass
  | true =>
    rw [hrecords, if_pos rfl] at hhistory
    rw [if_pos rfl]
    have hfinished : s.machine.stepFrame.1 = true := (Bool.and_eq_true_iff.mp hrecords).1
    have hmachine : ends n = s.machine.stepFrame.2.silent := by
      rw [hend, machine_runFrame,
        Machine.advance_of_not_hit (Machine.stepFrame_of_finished hfinished).2]
    have honward : ∀ i ∈ n :: history, Machine.Onward fits (ends i) s.runFrame.machine := by
      intro i hi
      rcases List.mem_cons.mp hi with rfl | hold
      · rw [hend]
        exact Machine.Onward.refl _
      · exact (h.onward i hold).trans hpass
    refine ⟨?_, ?_, ?_, fun i hi => honward i (List.mem_of_mem_take hi), ?_⟩
    · rw [hhistory, Ring.capacity_push, h.capacity]
    · have hpush := h.holds.push s.machine.stepFrame.2.snapshot
      rw [hhistory, List.map_take, List.map_cons, hmachine, ← h.capacity]
      exact hpush
    · intro i hi
      rcases List.mem_cons.mp (List.mem_of_mem_take hi) with rfl | hold
      · rw [hmachine]
        exact Machine.atFrameStart_of_finished hfinished
      · exact h.atFrameStart i hold
    · -- the new pass comes after all that are remembered
      apply List.Pairwise.sublist (List.take_sublist _ _)
      apply List.pairwise_cons.mpr
      refine ⟨?_, h.ordered⟩
      intro j hj
      rw [hend]
      exact honward j (List.mem_cons_of_mem n hj)

/-! ## Passes and runs -/

theorem next_eq (setup : Setup) (pass : Pass) (s : Session) :
    s.next setup pass = if pass.keys.contains .backspace then (s.prepare setup pass).1.goBack
      else (s.prepare setup pass).1.runFrame :=
  perform_fst setup pass s

/-- **Step lemma.**  A pass remembers what `remembered` says. -/
theorem Remembers.next {n : Nat} (h : Remembers fits ends s history)
    (hfits : fits → s.HasRoom setup pass) (hend : ends n = (s.next setup pass).machine) :
    Remembers fits ends (s.next setup pass) (s.remembered setup pass n history) := by
  have hprepared : Remembers fits ends (s.prepare setup pass).1 (s.kept setup pass history) :=
    h.prepare
  rw [next_eq] at hend ⊢
  unfold remembered
  split
  · -- back to the newest pass, if there is one
    generalize s.kept setup pass history = passes at hprepared
    cases passes with
    | nil =>
      rw [goBack_nil hprepared]
      exact hprepared
    | cons i older => exact hprepared.goBack.2
  · next hback =>
    rw [if_neg hback] at hend
    exact hprepared.runFrame (fun h => (hfits h).resolve_left hback) hend

theorem remembers_start (ends : Nat → Machine) (scale : Nat) (files : FileSystem) (machine : Machine)
    (transcript : Transcript) : Remembers fits ends (start scale files machine transcript) [] :=
  Remembers.nil (Ring.capacity_withCapacity _) (Ring.holds_withCapacity _)

/-- **Run lemma.**  After any number of passes a session remembers the ends of passes of its run. -/
theorem remembers_sessionAt (setup : Setup) (script : Nat → Pass) (scale : Nat) (files : FileSystem)
    (machine : Machine) (transcript : Transcript) (n : Nat) :
    let first := start scale files machine transcript
    let run := sessionAt setup script first
    Remembers (CountersHold setup script first n) (fun i => (run (i + 1)).machine) (run n)
      (Session.history setup script first n) := by
  intro first run
  induction n with
  | zero => exact remembers_start _ scale files machine transcript
  | succ n ih =>
    have hearlier : Remembers (CountersHold setup script first (n + 1))
        (fun i => (run (i + 1)).machine) (run n) (Session.history setup script first n) :=
      ih.mono fun hhold i hi => hhold i (Nat.lt_succ_of_lt hi)
    exact hearlier.next (fun hhold => hhold n (Nat.lt_succ_self n)) rfl

theorem mem_history_of_mem_kept {i : Nat} (hi : i ∈ s.kept setup pass history) : i ∈ history := by
  unfold kept at hi
  split at hi
  · exact absurd hi List.not_mem_nil
  · exact hi

/-- A remembered pass is over, and its frame was recorded. -/
theorem mem_history {script : Nat → Pass} {n i : Nat} (hi : i ∈ Session.history setup script s n) :
    i < n ∧ ((sessionAt setup script s i).prepare setup (script i)).1.records = true := by
  induction n generalizing i with
  | zero => exact absurd hi List.not_mem_nil
  | succ n ih =>
    have hkept : ∀ j ∈ (sessionAt setup script s n).kept setup (script n)
        (Session.history setup script s n), j < n + 1
          ∧ ((sessionAt setup script s j).prepare setup (script j)).1.records = true := by
      intro j hj
      have hold := ih (mem_history_of_mem_kept hj)
      exact ⟨Nat.lt_succ_of_lt hold.1, hold.2⟩
    rw [Session.history, remembered] at hi
    split at hi
    · exact hkept i (List.mem_of_mem_tail hi)
    · split at hi
      · next hrecords =>
        rcases List.mem_cons.mp (List.mem_of_mem_take hi) with rfl | hold
        · exact ⟨Nat.lt_succ_self _, hrecords⟩
        · exact hkept i hold
      · exact hkept i hi

/-! ## Runs that load no state

Only a state that is loaded can bring a counter near its width.  Without one the counters show no
more than the passes have added to them, also where a pass goes back. -/

theorem within_reinsert {first : Machine} {n : Nat} (image : Bytes)
    (h : Machine.Within first n s.machine) : Machine.Within first n (reinsert image s).machine := by
  unfold reinsert Machine.insert
  cases Cartridge.parse image with
  | error fault => exact ⟨h.cycles, h.frameCount⟩
  | ok cartridge => exact ⟨Nat.zero_le _, h.frameCount⟩

theorem within_prepare {first : Machine} {n : Nat} (hloads : s.loads setup pass = false)
    (h : Machine.Within first n s.machine) :
    Machine.Within first n (s.prepare setup pass).1.machine := by
  have hloaded : Machine.Within first n (s.afterLoading setup pass).machine := by
    rwa [(afterLoading_of_not_loads hloads).machine]
  have hkeys : Machine.Within first n (s.afterKeys setup pass).machine := by
    unfold afterKeys onStrike
    split
    · exact within_reinsert _ hloaded
    · exact hloaded
  exact ⟨hkeys.cycles, hkeys.frameCount⟩

variable {script : Nat → Pass} {scale n : Nat} {files : FileSystem} {machine : Machine}
  {transcript : Transcript} {first : Session}

/-- **Run lemma.** -/
theorem within_sessionAt (hfirst : first = start scale files machine transcript)
    (hloads : ∀ i < n, (sessionAt setup script first i).loads setup (script i) = false) :
    ∀ k ≤ n, Machine.Within machine k (sessionAt setup script first k).machine := by
  have hremembers : ∀ k, Remembers (CountersHold setup script first k)
      (fun i => (sessionAt setup script first (i + 1)).machine) (sessionAt setup script first k)
      (Session.history setup script first k) := by
    rw [hfirst]
    exact remembers_sessionAt setup script scale files machine transcript
  intro k
  induction k using Nat.strong_induction_on with
  | _ k ih =>
    intro hk
    cases k with
    | zero =>
      rw [sessionAt, hfirst]
      exact ⟨Nat.le_add_right _ _, Nat.le_add_right _ _⟩
    | succ k =>
      have hprepared := within_prepare (hloads k hk) (ih k (Nat.lt_succ_self k) (Nat.le_of_lt hk))
      rw [sessionAt, next_eq]
      split
      · have hkept : Remembers _ _ ((sessionAt setup script first k).prepare setup (script k)).1
            ((sessionAt setup script first k).kept setup (script k) _) := (hremembers k).prepare
        generalize hpasses : (sessionAt setup script first k).kept setup (script k) _ = passes
          at hkept
        cases passes with
        | nil =>
          rw [goBack_nil hkept]
          exact hprepared.mono (Nat.le_succ k)
        | cons i older =>
          -- the pass gone back to came before, and so did its bounds
          have hmoment := hkept.goBack.1
          have hpast := (mem_history (mem_history_of_mem_kept (hpasses ▸ List.mem_cons_self))).1
          have hthen := (ih (i + 1) (by omega) (by omega)).mono (by omega : i + 1 ≤ k + 1)
          constructor
          · rw [hmoment.cycles]
            exact hthen.cycles
          · rw [hmoment.frameCount]
            exact hthen.frameCount
      · have hpass := hprepared.advance
        rw [machine_runFrame]
        exact ⟨hpass.cycles, hpass.frameCount⟩

/-- **A run that loads no state has room** in its counters for two thousand million passes. -/
theorem countersHold_of_not_loads (hfirst : first = start scale files machine transcript)
    (hloads : ∀ i < n, (sessionAt setup script first i).loads setup (script i) = false)
    (hcycles : machine.cycles + n * Machine.dearestPass < 2 ^ 64)
    (hframes : machine.frameCount + n * 2 < 2 ^ 32) : CountersHold setup script first n := by
  intro i hi
  have hwithin := within_sessionAt hfirst hloads i (Nat.le_of_lt hi)
  exact Or.inr ((within_prepare (hloads i hi) hwithin).hasRoom hi hcycles hframes)

/-! ## Runs in a window -/

theorem sessionAt_succ (setup : Setup) (script : Nat → Pass) (s : Session) (n : Nat) :
    sessionAt setup script s (n + 1)
      = sessionAt setup (fun i => script (i + 1)) (s.next setup (script 0)) n := by
  induction n with
  | zero => rfl
  | succ n ih =>
    rw [sessionAt, ih]
    rfl

/-- **Rewind is exact time travel.**  In any run, a pass with Backspace held goes back to the end of
the newest pass that is remembered, and never forward unless a counter has overflowed; where none is
remembered it changes nothing more. -/
theorem goBack_exact (setup : Setup) (script : Nat → Pass) (scale : Nat) (files : FileSystem)
    (machine : Machine) (transcript : Transcript) (n : Nat)
    (hback : (script n).keys.contains .backspace = true) :
    let first := start scale files machine transcript
    let run := sessionAt setup script first
    let passes := (run n).kept setup (script n) (Session.history setup script first n)
    let prepared := ((run n).prepare setup (script n)).1
    (passes = [] → prepared.rewind.pop? = none ∧ (run (n + 1)).machine = prepared.machine)
      ∧ ∀ i older, passes = i :: older →
        i < n ∧ prepared.rewind.pop?.isSome = true
          ∧ Machine.SameMoment (run (n + 1)).machine (run (i + 1)).machine
          ∧ (CountersHold setup script first n →
            (run (n + 1)).machine.cycles ≤ prepared.machine.cycles
              ∧ (run (n + 1)).machine.frameCount ≤ prepared.machine.frameCount) := by
  intro first run passes prepared
  have hremembers : Remembers (CountersHold setup script first n)
      (fun i => (run (i + 1)).machine) prepared passes :=
    (remembers_sessionAt setup script scale files machine transcript n).prepare
  have hrun : run (n + 1) = prepared.goBack :=
    (next_eq setup (script n) (run n)).trans (if_pos hback)
  have hmachine : (run (n + 1)).machine = prepared.goBack.machine := congrArg Session.machine hrun
  constructor
  · intro hnone
    rw [hnone] at hremembers
    rw [hmachine, goBack_nil hremembers]
    exact ⟨hremembers.pop?_nil, rfl⟩
  · intro i older hsome
    have hpast : i ∈ Session.history setup script first n :=
      mem_history_of_mem_kept (show i ∈ passes by rw [hsome]; exact List.mem_cons_self)
    rw [hsome] at hremembers
    have hmoment := hremembers.goBack.1
    have honward := hremembers.onward i List.mem_cons_self
    rw [hmachine, hmoment.cycles, hmoment.frameCount]
    exact ⟨(mem_history hpast).1, hremembers.isSome_pop?, hmoment,
      fun hhold => ⟨honward.cycles hhold, honward.frameCount hhold⟩⟩

end Windowed.Session

/-! ## A run that goes back -/

namespace Machine

variable {m m' : Machine}

/-- A machine that jumps on the spot for ever: interrupts are masked and there is no breakpoint. -/
structure Spinning (m : Machine) : Prop where
  running : m.running = true
  breakpoints : m.breakpoints = []
  pc : m.registers.pc = 0xE000
  masked : m.registers.flag .interrupt = false
  program : m.memory.rom[0] = 0x40 ∧ m.memory.rom[1] = 0x00 ∧ m.memory.rom[2] = 0xE0

theorem Spinning.tick (h : Spinning m) : Spinning m.tick := by
  obtain ⟨hx, hy, hz⟩ := h.program
  have hjump : m.tick = (m.goto 0xE000).charge (cost 0x40) := by
    have hread : ∀ (address : UInt16) (i : Fin romSize), locate address = .rom i →
        m.memory.read address = m.memory.rom.get i := fun _ _ hlocate => Memory.read_of_rom hlocate
    rw [tick_of_reads 0xE000 h.pc ((hread _ 0 (by decide)).trans hx)
      ((hread _ 1 (by decide)).trans hy) ((hread _ 2 (by decide)).trans hz) h.masked]
    rfl
  rw [hjump]
  exact ⟨h.running, h.breakpoints, rfl, h.masked, h.program⟩

theorem Spinning.ticks (h : Spinning m) (n : Nat) : Spinning (Machine.tick^[n] m) := by
  induction n generalizing m with
  | zero => exact h
  | succ n ih => exact ih h.tick

/-- Its frames are finished. -/
theorem Spinning.stepFrame (h : Spinning m) :
    m.stepFrame.1 = true ∧ Spinning m.stepFrame.2.silent := by
  have hfresh : Spinning m.fresh := ⟨h.running, h.breakpoints, h.pc, h.masked, h.program⟩
  have hend : Spinning m.frameEnd := hfresh.ticks _
  have hout : ¬m.frameEnd.InFrame := by
    rcases frame_over m.fresh with hover | hbreak
    · exact hover
    · change m.frameEnd.atBreakpoint = true at hbreak
      rw [atBreakpoint, hend.breakpoints] at hbreak
      exact absurd hbreak Bool.false_ne_true
  rw [stepFrame_of_running h.running, if_neg hout, silent_noteFrame]
  exact ⟨rfl, hend.running, hend.breakpoints, hend.pc, hend.masked, hend.program⟩

theorem Spinning.of_silent_eq (h : Spinning m) (hsilent : m'.silent = m.silent) : Spinning m' := by
  have hspins : Spinning m.silent := ⟨h.running, h.breakpoints, h.pc, h.masked, h.program⟩
  rw [← hsilent] at hspins
  exact ⟨hspins.running, hspins.breakpoints, hspins.pc, hspins.masked, hspins.program⟩

theorem Spinning.setInput (h : Spinning m) (mask : UInt8) : Spinning (m.setInput mask) := by
  have hrom : (m.setInput mask).memory.rom = m.memory.rom := Memory.rom_write _ _ _
  refine ⟨h.running, h.breakpoints, h.pc, h.masked, ?_⟩
  rw [hrom]
  exact h.program

/-- A cartridge with one jump, put in and started. -/
def spinner : Machine :=
  (Machine.initial.install
    { entry := 0xE000, declaredSize := 3, program := [0x40, 0x00, 0xE0] }).start

theorem spinning_spinner : Spinning spinner := by
  have hrom : spinner.memory.rom
      = overlay [0x40, 0x00, 0xE0].toArray (Vector.replicate romSize 0) := rfl
  refine ⟨rfl, rfl, rfl, rfl, ?_⟩
  rw [hrom, getElem_overlay, getElem_overlay, getElem_overlay]
  exact ⟨rfl, rfl, rfl⟩

end Machine

namespace Windowed.Session

/-- A pass in which nothing is held and nothing happens. -/
def idle : Pass :=
  { keys := [], events := [] }

/-- Thirty idle passes, and then Backspace. -/
def waitAndGoBack (n : Nat) : Pass :=
  if n < historyInterval then idle else { keys := [.backspace], events := [] }

/-- A session with a spinning machine, some frames after the last snapshot was due. -/
structure Waiting (frames : Nat) (s : Session) : Prop where
  spinning : s.machine.Spinning
  interval : s.rewind.interval = historyInterval
  ticks : s.rewind.ticks = frames

variable {frames : Nat} {s : Session}

theorem Waiting.prepare (h : Waiting frames s) (setup : Setup) :
    Waiting frames (s.prepare setup idle).1 := by
  have hremains : s.forgets setup idle = false := rfl
  have hrewind := (rewind_prepare setup idle s).trans (if_neg Bool.false_ne_true)
  obtain ⟨mask, hmask⟩ := machine_prepare hremains
  refine ⟨(h.spinning.setInput mask).of_silent_eq hmask, ?_, ?_⟩
  · rw [hrewind, h.interval]
  · rw [hrewind, h.ticks]

theorem Waiting.records_eq (h : Waiting frames s) :
    s.records = decide (historyInterval ≤ frames + 1) := by
  rw [records, h.spinning.stepFrame.1, Bool.true_and, Rewind.tick, h.interval, h.ticks]
  split
  · next hdue => exact (decide_eq_true hdue).symm
  · next hdue => exact (decide_eq_false hdue).symm

theorem Waiting.runFrame (h : Waiting frames s) (hearly : frames + 1 < historyInterval) :
    Waiting (frames + 1) s.runFrame := by
  obtain ⟨hfinished, hspins⟩ := h.spinning.stepFrame
  have hmachine : s.runFrame.machine = s.machine.stepFrame.2.silent := by
    rw [machine_runFrame, Machine.advance_of_not_hit (Machine.stepFrame_of_finished hfinished).2]
  have hrewind : s.runFrame.rewind = { s.rewind with ticks := frames + 1 } := by
    have hnot : ¬s.rewind.interval ≤ s.rewind.ticks + 1 := by
      rw [h.interval, h.ticks]
      exact Nat.not_le.mpr hearly
    have htick : s.rewind.tick = (false, { s.rewind with ticks := s.rewind.ticks + 1 }) :=
      if_neg hnot
    rw [rewind_runFrame, hfinished, if_pos rfl, rewind_record, rewind_settle, htick, h.ticks]
    rfl
  refine ⟨by rwa [hmachine], ?_, ?_⟩
  · rw [hrewind]
    exact h.interval
  · rw [hrewind]

/-- An idle pass goes on waiting until a snapshot is due, and is remembered then. -/
theorem Waiting.remembered (h : Waiting frames s) (setup : Setup) (n : Nat) :
    s.remembered setup idle n [] = if historyInterval ≤ frames + 1 then [n] else [] := by
  have hrecords := (h.prepare setup).records_eq
  have hkept : s.kept setup idle [] = [] := ite_self []
  have hidle : ¬idle.keys.contains .backspace = true := Bool.false_ne_true
  rw [Session.remembered, if_neg hidle, hrecords, hkept]
  by_cases hdue : historyInterval ≤ frames + 1
  · rw [if_pos hdue, if_pos (decide_eq_true hdue)]
    rfl
  · rw [if_neg hdue, if_neg (by rwa [decide_eq_true_eq])]

/-- Nothing is remembered before the thirtieth idle pass. -/
theorem Waiting.sessionAt (h : Waiting 0 s) (setup : Setup) (n : Nat) (hn : n < historyInterval) :
    Waiting n (Session.sessionAt setup waitAndGoBack s n)
      ∧ Session.history setup waitAndGoBack s n = [] := by
  induction n with
  | zero => exact ⟨h, rfl⟩
  | succ n ih =>
    obtain ⟨hwaiting, hnothing⟩ := ih (by omega)
    have hpass : waitAndGoBack n = idle := if_pos (by omega)
    constructor
    · rw [Session.sessionAt, hpass, next_eq]
      exact (hwaiting.prepare setup).runFrame hn
    · rw [Session.history, hpass, hnothing, hwaiting.remembered setup, if_neg (Nat.not_le.mpr hn)]

theorem Waiting.history_eq (h : Waiting 0 s) (setup : Setup) :
    Session.history setup waitAndGoBack s historyInterval = [29] := by
  obtain ⟨hwaiting, hnothing⟩ := h.sessionAt setup 29 (by decide)
  show (Session.sessionAt setup waitAndGoBack s 29).remembered setup idle 29 _ = _
  rw [hnothing, hwaiting.remembered setup]
  rfl

/-- A session without files, set up for the spinning machine. -/
def spinnerSession : Session :=
  start 1 .bare Machine.spinner { debug := false }

/-- What that session is set up with: no cartridge to put in again and no gamepads. -/
def spinnerSetup : Setup :=
  { image := [], statePath := "", padsAvailable := false }

/-- No key of this run loads a state, so its counters hold. -/
theorem countersHold_spinnerSession :
    CountersHold spinnerSetup waitAndGoBack spinnerSession 30 := by
  have hkeys : ∀ i, (waitAndGoBack i).keys.contains .f9 = false := by
    intro i
    unfold waitAndGoBack
    split <;> rfl
  refine countersHold_of_not_loads rfl (fun i _ => ?_) (by decide) (by decide)
  rw [loads, struck, hkeys, Bool.false_and, Bool.false_and]

/-- Pass 30 of this run goes back to the end of pass 29, the only one remembered, and to counters
that show no more. -/
theorem goBack_exact_spinner :
    (waitAndGoBack 30).keys.contains .backspace = true
      ∧ ((sessionAt spinnerSetup waitAndGoBack spinnerSession (30 + 1)).machine.cycles
          ≤ ((sessionAt spinnerSetup waitAndGoBack spinnerSession 30).prepare spinnerSetup
            (waitAndGoBack 30)).1.machine.cycles)
      ∧ Machine.SameMoment (sessionAt spinnerSetup waitAndGoBack spinnerSession (30 + 1)).machine
          (sessionAt spinnerSetup waitAndGoBack spinnerSession (29 + 1)).machine := by
  have hback : (waitAndGoBack 30).keys.contains .backspace = true := rfl
  have hwaiting : Waiting 0 spinnerSession := ⟨Machine.spinning_spinner, rfl, rfl⟩
  have hhistory : Session.history spinnerSetup waitAndGoBack spinnerSession 30 = [29] :=
    hwaiting.history_eq spinnerSetup
  have hkept : (sessionAt spinnerSetup waitAndGoBack spinnerSession 30).kept spinnerSetup
      (waitAndGoBack 30) [29] = [29] := if_neg Bool.false_ne_true
  have hexact := (goBack_exact spinnerSetup waitAndGoBack 1 .bare Machine.spinner
    { debug := false } 30 hback).2 29 [] (by rw [← hkept, ← hhistory]; rfl)
  have hsession : start 1 .bare Machine.spinner { debug := false } = spinnerSession := rfl
  rw [hsession] at hexact
  exact ⟨hback, (hexact.2.2.2 countersHold_spinnerSession).1, hexact.2.2.1⟩

end Windowed.Session

end FantasyComputer
