/-
# FantasyComputer.Proofs.StepScripts — a debugger session carries out its script.

Of a session only its machine and its count of instructions go on from one command to the next; what
it prints is never read.  `Progress` is these two, commands act on them without any printing, and
`progress_converse` says that a session over a script makes the progress of its commands.

An instruction is executed in one place, and only if the machine runs (`Progress.step`).  `Went` is
the relation that this leaves behind: so many single steps, each of them by a running machine.  Every
command keeps it (`went_perform`), so every script does (`went_converse`), and the number printed at
the end of a session is the number of single steps from the fresh machine to its last one.
-/
import FantasyComputer.Proofs.Passes
import FantasyComputer.Proofs.PositionalNumbers
import FantasyComputer.Proofs.SessionFiles
import FantasyComputer.Proofs.TypedLines

namespace FantasyComputer

namespace Machine

/-! ## Single steps -/

theorem breakpoints_endFrame (m : Machine) : m.endFrame.breakpoints = m.breakpoints := rfl

theorem breakpoints_stepOnes (n : Nat) (m : Machine) :
    (stepOne^[n] m).breakpoints = m.breakpoints := by
  induction n with
  | zero => rfl
  | succ n ih =>
    have htick := (sameHost_tick (stepOne^[n] m)).breakpoints
    rw [Function.iterate_succ_apply', ← ih, ← htick]
    rcases Nat.lt_or_ge (stepOne^[n] m).tick.framePosition cyclesPerFrame with hlt | hge
    · rw [stepOne_of_lt hlt]
    · rw [stepOne_of_le hge, breakpoints_endFrame]

/-- The journal does not count. -/
theorem silent_stepOnes (n : Nat) (m : Machine) :
    (stepOne^[n] m.silent).silent = (stepOne^[n] m).silent :=
  ignoresJournal_stepOne.iterate n m

/-- **Cycles.**  Single steps cost what their instructions cost. -/
theorem cycles_stepOnes (n : Nat) (m : Machine) :
    (stepOne^[n] m).cycles
      = m.cycles + UInt64.ofNat (∑ i ∈ Finset.range n, (stepOne^[i] m).nextCost) := by
  induction n with
  | zero => exact (UInt64.add_zero _).symm
  | succ n ih =>
    rw [Function.iterate_succ_apply', cycles_stepOne, ih, Finset.sum_range_succ, UInt64.ofNat_add,
      UInt64.add_assoc]

end Machine

namespace Debugger

open Machine

/-! ## Reading lines -/

/-- The words that are commands. -/
def commandWords : List String :=
  ["q", "quit", "d", "dump", "r", "run"]

/-- Whether a line holds a number that fits 64 bits: digits, perhaps after a plus sign. -/
def HoldsNumber (line : String) (n : Nat) : Prop :=
  n < UInt64.size ∧ (Decimal.Writes (Blank.trimmed line).toList n
    ∨ ∃ ds : List Char, (Blank.trimmed line).toList = '+' :: ds ∧ Decimal.Writes ds n)

theorem holdsNumber_iff {line : String} {n : Nat} :
    HoldsNumber line n ↔ Decimal.counter? (Blank.trimmed line) = some n := by
  rw [HoldsNumber, ← Decimal.natural?_eq_some_iff, Decimal.counter?]
  cases Decimal.natural? (Blank.trimmed line) with
  | none => simp
  | some k =>
    simp only [Option.some.injEq]
    split
    · next hfits =>
      rw [Option.some.injEq]
      exact ⟨fun h => h.2, fun h => ⟨h ▸ hfits, h⟩⟩
    · next hlarge =>
      exact iff_of_false (fun h => hlarge (h.2 ▸ h.1)) (by simp)

theorem counter?_commandWord {word : String} (h : word ∈ commandWords) :
    Decimal.counter? word = none := by
  revert word
  decide

/-- A line that is no command word steps, once if it holds no number. -/
theorem read_of_notMem {line : String} (h : Blank.trimmed line ∉ commandWords) :
    Command.read line = .step ((Decimal.counter? (Blank.trimmed line)).getD 1) := by
  unfold Command.read
  split
  case h_7 => rfl
  all_goals
    next hword =>
    rw [hword] at h
    exact absurd (by decide) h

theorem read_of_holdsNumber {line : String} {n : Nat} (h : HoldsNumber line n) :
    Command.read line = .step n := by
  rw [holdsNumber_iff] at h
  have hword : Blank.trimmed line ∉ commandWords := by
    intro hmem
    rw [counter?_commandWord hmem] at h
    cases h
  rw [read_of_notMem hword, h]
  rfl

theorem read_of_other {line : String} (hword : Blank.trimmed line ∉ commandWords)
    (hnumber : ∀ n, ¬HoldsNumber line n) : Command.read line = .step 1 := by
  have hnone : Decimal.counter? (Blank.trimmed line) = none := by
    rw [Option.eq_none_iff_forall_ne_some]
    exact fun n hn => hnumber n (holdsNumber_iff.mpr hn)
  rw [read_of_notMem hword, hnone]
  rfl

theorem read_empty : Command.read "" = .step 1 := by
  decide

theorem read_of_quit {line : String} (h : Blank.trimmed line ∈ ["q", "quit"]) :
    Command.read line = .quit := by
  unfold Command.read
  rcases List.mem_pair.mp h with h | h <;> simp only [h]

theorem read_of_dump {line : String} (h : Blank.trimmed line ∈ ["d", "dump"]) :
    Command.read line = .dump := by
  unfold Command.read
  rcases List.mem_pair.mp h with h | h <;> simp only [h]

theorem read_of_run {line : String} (h : Blank.trimmed line ∈ ["r", "run"]) :
    Command.read line = .run := by
  unfold Command.read
  rcases List.mem_pair.mp h with h | h <;> simp only [h]

/-! ## Progress -/

/-- What goes on from one command to the next. -/
structure Progress where
  machine : Machine
  /-- The number of instructions executed. -/
  steps : Nat

namespace Progress

/-- Executes an instruction and counts it, if the machine runs. -/
def step (p : Progress) : Progress :=
  if p.machine.running then { machine := p.machine.stepOne.silent, steps := p.steps + 1 } else p

/-- Steps until the machine halts or, but for the first time, stands on a breakpoint. -/
def runOn (p : Progress) (first : Bool) : (remaining : Nat) → Progress
  | 0 => p
  | remaining + 1 =>
    if !p.machine.running then p
    else if !first && p.machine.atBreakpoint then p
    else p.step.runOn false remaining

/-- Carries out a command. -/
def perform (limit : Nat) (command : Command) (p : Progress) : Progress :=
  match command with
  | .quit => p
  | .dump => p
  | .run => p.runOn true limit
  | .step count => step^[count] p

/-- Carries out the lines of a script, up to one that ends the session. -/
def converse (limit : Nat) (p : Progress) : List String → Progress
  | [] => p
  | line :: rest =>
    if Command.read line = .quit then p
    else (perform limit (Command.read line) p).converse limit rest

theorem step_of_running {p : Progress} (h : p.machine.running = true) :
    p.step = { machine := p.machine.stepOne.silent, steps := p.steps + 1 } :=
  if_pos h

theorem step_of_halted {p : Progress} (h : p.machine.running = false) : p.step = p :=
  if_neg (ne_true_of_eq_false h)

end Progress

namespace Session

/-- What goes on of a session. -/
def progress (s : Session) : Progress :=
  { machine := s.machine, steps := s.steps }

/-- Executing an instruction is a step, whatever is printed. -/
theorem progress_stepOne {s : Session} (h : s.machine.running = true) :
    s.stepOne.progress = s.progress.step := by
  have hrun : s.progress.machine.running = true := h
  rw [Progress.step_of_running hrun]
  rfl

theorem progress_stepOn (count remaining : Nat) (s : Session) :
    (s.stepOn count remaining).progress = Progress.step^[remaining] s.progress := by
  induction remaining generalizing s with
  | zero => rfl
  | succ remaining ih =>
    rw [Function.iterate_succ_apply, stepOn]
    cases hrun : s.machine.running with
    | false =>
      have hstays : s.progress.step = s.progress := Progress.step_of_halted hrun
      rw [hstays, Function.iterate_fixed hstays]
      rfl
    | true =>
      rw [← progress_stepOne hrun]
      simp only [Bool.not_true, Bool.false_eq_true, if_false, ih]
      -- what is shown of the step is print
      generalize s.stepOne = s'
      split_ifs <;> rfl

theorem progress_runOn (first : Bool) (remaining : Nat) (s : Session) :
    (s.runOn first remaining).progress = s.progress.runOn first remaining := by
  induction remaining generalizing s first with
  | zero => rfl
  | succ remaining ih =>
    have hmachine : s.progress.machine = s.machine := rfl
    rw [runOn, Progress.runOn, hmachine]
    cases hrun : s.machine.running with
    | false => rfl
    | true =>
      simp only [Bool.not_true, Bool.false_eq_true, if_false]
      split_ifs
      · rfl
      · rw [ih, progress_stepOne hrun]

/-- What is carried out does not depend on what is printed, and a session ends with `quit`. -/
theorem perform_eq (limit : Nat) (command : Command) (s : Session) :
    (perform limit command s).map progress
      = if command = .quit then none else some (Progress.perform limit command s.progress) := by
  cases command with
  | quit => rfl
  | dump => rfl
  | run => exact congrArg some (progress_runOn true limit s)
  | step count => exact congrArg some (progress_stepOn count count s)

/-- **A session makes the progress of its script.** -/
theorem progress_converse (limit : Nat) (lines : List String) (s : Session) :
    (s.converse limit lines).progress = s.progress.converse limit lines := by
  induction lines generalizing s with
  | nil => rfl
  | cons line rest ih =>
    have hperform := perform_eq limit (Command.read line) s.ask
    rw [converse, Progress.converse]
    by_cases hquit : Command.read line = .quit
    · rw [if_pos hquit, hquit]
      rfl
    · rw [if_neg hquit] at hperform ⊢
      obtain ⟨next, hnext, hprogress⟩ := Option.map_eq_some_iff.mp hperform
      simp only [hnext, ih, hprogress]
      rfl

end Session

/-! ## Single steps of a running machine -/

/-- How far progress went: so many single steps, each by a running machine. -/
structure Progress.Went (p : Progress) (n : Nat) (p' : Progress) : Prop where
  steps : p'.steps = p.steps + n
  machine : p'.machine.silent = (stepOne^[n] p.machine).silent
  running : ∀ i < n, (stepOne^[i] p.machine).running = true

namespace Progress

variable {p p' p'' : Progress} {n k : Nat}

theorem Went.refl (p : Progress) : Went p 0 p :=
  ⟨rfl, rfl, fun _ hi => absurd hi (Nat.not_lt_zero _)⟩

/-- What comes later is counted from the start. -/
theorem Went.later (h : Went p n p') (i : Nat) :
    (stepOne^[i] p'.machine).silent = (stepOne^[n + i] p.machine).silent := by
  rw [← silent_stepOnes, h.machine, silent_stepOnes, Nat.add_comm, Function.iterate_add_apply]

theorem Went.running_later (h : Went p n p') (i : Nat) :
    (stepOne^[i] p'.machine).running = (stepOne^[n + i] p.machine).running :=
  show (stepOne^[i] p'.machine).silent.running = (stepOne^[n + i] p.machine).silent.running from
    congrArg Machine.running (h.later i)

theorem Went.atBreakpoint_later (h : Went p n p') (i : Nat) :
    (stepOne^[i] p'.machine).atBreakpoint = (stepOne^[n + i] p.machine).atBreakpoint :=
  show (stepOne^[i] p'.machine).silent.atBreakpoint
      = (stepOne^[n + i] p.machine).silent.atBreakpoint from
    congrArg atBreakpoint (h.later i)

theorem Went.trans (h : Went p n p') (h' : Went p' k p'') : Went p (n + k) p'' where
  steps := by rw [h'.steps, h.steps, Nat.add_assoc]
  machine := h'.machine.trans (h.later k)
  running i hi := by
    rcases Nat.lt_or_ge i n with hlt | hge
    · exact h.running i hlt
    · obtain ⟨j, rfl⟩ := Nat.exists_eq_add_of_le hge
      rw [← h.running_later]
      exact h'.running j (by omega)

/-- **Step lemma.**  An instruction is executed by a running machine only. -/
theorem went_step (h : p.machine.running = true) : Went p 1 p.step where
  steps := by rw [step_of_running h]
  machine := by rw [step_of_running h, silent_silent, Function.iterate_one]
  running i hi := by rwa [Nat.lt_one_iff.mp hi]

theorem exists_went_steps (count : Nat) (p : Progress) : ∃ n, Went p n (step^[count] p) := by
  induction count generalizing p with
  | zero => exact ⟨0, .refl p⟩
  | succ count ih =>
    rw [Function.iterate_succ_apply]
    obtain ⟨n, hn⟩ := ih p.step
    cases hrun : p.machine.running with
    | true => exact ⟨1 + n, (went_step hrun).trans hn⟩
    | false =>
      rw [step_of_halted hrun] at hn ⊢
      exact ⟨n, hn⟩

/-- What a run executes: as many instructions as allowed, unless the machine halts or a breakpoint is
met before. -/
structure Ran (first : Bool) (limit : Nat) (p : Progress) (n : Nat) (p' : Progress) : Prop where
  went : Went p n p'
  bounded : n ≤ limit
  /-- No instruction at a breakpoint is executed, but for the first of the run. -/
  unbroken : ∀ i < n, (first = true → 0 < i) → (stepOne^[i] p.machine).atBreakpoint = false
  /-- A run that ends early has a reason. -/
  stopped : n < limit → (stepOne^[n] p.machine).running = false
    ∨ (first = true → 0 < n) ∧ (stepOne^[n] p.machine).atBreakpoint = true

theorem exists_ran (first : Bool) (limit : Nat) (p : Progress) :
    ∃ n, Ran first limit p n (p.runOn first limit) := by
  induction limit generalizing p first with
  | zero =>
    exact ⟨0, .refl p, Nat.le_refl 0, fun _ hi => absurd hi (Nat.not_lt_zero _),
      fun hlt => absurd hlt (Nat.lt_irrefl 0)⟩
  | succ limit ih =>
    rw [runOn]
    cases hrun : p.machine.running with
    | false =>
      exact ⟨0, .refl p, Nat.zero_le _, fun _ hi => absurd hi (Nat.not_lt_zero _),
        fun _ => Or.inl hrun⟩
    | true =>
      simp only [Bool.not_true, Bool.false_eq_true, if_false]
      split_ifs with hstands
      · obtain ⟨hlater, hbreak⟩ := Bool.and_eq_true_iff.mp hstands
        have hnotFirst : first ≠ true := by simpa using hlater
        exact ⟨0, .refl p, Nat.zero_le _, fun _ hi => absurd hi (Nat.not_lt_zero _),
          fun _ => Or.inr ⟨fun hfirst => absurd hfirst hnotFirst, hbreak⟩⟩
      · obtain ⟨n, hran⟩ := ih false p.step
        have hstep := went_step hrun
        have hbounded := hran.bounded
        refine ⟨1 + n, hstep.trans hran.went, by omega, fun i hi hfirst => ?_, fun hlt => ?_⟩
        · cases i with
          | zero =>
            have hnotFirst : first = false := by
              cases first with
              | false => rfl
              | true => exact absurd (hfirst rfl) (Nat.lt_irrefl 0)
            simpa [hnotFirst] using hstands
          | succ i =>
            rw [Nat.add_comm i 1, ← hstep.atBreakpoint_later]
            exact hran.unbroken i (by omega) (fun h => absurd h Bool.false_ne_true)
        · rw [← hstep.atBreakpoint_later, ← hstep.running_later]
          rcases hran.stopped (by omega) with hhalted | ⟨-, hstops⟩
          · exact Or.inl hhalted
          · exact Or.inr ⟨fun _ => by omega, hstops⟩

/-- **Command lemma.**  Every command goes on by single steps. -/
theorem exists_went_perform (limit : Nat) (command : Command) (p : Progress) :
    ∃ n, Went p n (perform limit command p) := by
  cases command with
  | quit => exact ⟨0, .refl p⟩
  | dump => exact ⟨0, .refl p⟩
  | step count => exact exists_went_steps count p
  | run =>
    obtain ⟨n, hran⟩ := exists_ran true limit p
    exact ⟨n, hran.went⟩

/-- **Run lemma.**  Every script does. -/
theorem exists_went_converse (limit : Nat) (lines : List String) (p : Progress) :
    ∃ n, Went p n (p.converse limit lines) := by
  induction lines generalizing p with
  | nil => exact ⟨0, .refl p⟩
  | cons line rest ih =>
    rw [converse]
    split_ifs
    · exact ⟨0, .refl p⟩
    · obtain ⟨n, hfirst⟩ := exists_went_perform limit (Command.read line) p
      obtain ⟨k, hrest⟩ := ih (perform limit (Command.read line) p)
      exact ⟨n + k, hfirst.trans hrest⟩

/-! ## Scripts with the same progress -/

theorem converse_append_of_quit {limit : Nat} {before : List String}
    (h : ∃ line ∈ before, Command.read line = .quit) (more : List String) (p : Progress) :
    p.converse limit (before ++ more) = p.converse limit before := by
  induction before generalizing p with
  | nil => simp at h
  | cons line before ih =>
    rw [List.cons_append, converse, converse]
    split_ifs with hquit
    · rfl
    · refine ih ?_ _
      rcases h with ⟨other, hmem, hother⟩
      rcases List.mem_cons.mp hmem with rfl | hbefore
      · exact absurd hother hquit
      · exact ⟨other, hbefore, hother⟩

theorem converse_append_of_open {limit : Nat} {before : List String}
    (h : ∀ line ∈ before, Command.read line ≠ .quit) (more : List String) (p : Progress) :
    p.converse limit (before ++ more) = (p.converse limit before).converse limit more := by
  induction before generalizing p with
  | nil => rfl
  | cons line before ih =>
    rw [List.cons_append, converse, converse, if_neg (h line (List.mem_cons_self ..)),
      if_neg (h line (List.mem_cons_self ..))]
    exact ih (fun other hother => h other (List.mem_cons_of_mem _ hother)) _

/-- Lines that always lead to the same place may stand for each other in any script. -/
theorem converse_congr {limit : Nat} {lines lines' : List String}
    (h : ∀ p : Progress, p.converse limit lines = p.converse limit lines') (before : List String)
    (p : Progress) : p.converse limit (before ++ lines) = p.converse limit (before ++ lines') := by
  by_cases hquit : ∃ line ∈ before, Command.read line = .quit
  · rw [converse_append_of_quit hquit, converse_append_of_quit hquit]
  · have hopen : ∀ line ∈ before, Command.read line ≠ .quit := fun line hline hline' =>
      hquit ⟨line, hline, hline'⟩
    rw [converse_append_of_open hopen, converse_append_of_open hopen, h]

theorem converse_of_read {limit : Nat} {line : String} {command : Command}
    (h : Command.read line = command) (hopen : command ≠ .quit) (more : List String) (p : Progress) :
    p.converse limit (line :: more) = (perform limit command p).converse limit more := by
  rw [converse, h, if_neg hopen]

theorem converse_empties (limit n : Nat) (more : List String) (p : Progress) :
    p.converse limit (List.replicate n "" ++ more) = (step^[n] p).converse limit more := by
  induction n generalizing p with
  | zero => rfl
  | succ n ih =>
    rw [List.replicate_succ, List.cons_append, converse_of_read read_empty (by simp), ih,
      Function.iterate_succ_apply]
    rfl

end Progress

end Debugger

/-! ## A run of the program -/

namespace Console

open Debugger

/-- The fresh machine has executed nothing and has the breakpoints that were asked for. -/
theorem fresh_boot {o : Options} {image : Bytes} {m : Machine} (h : boot o image = .ok m) :
    m.cycles = 0 ∧ m.breakpoints = o.breakpoints := by
  unfold boot Machine.insert at h
  cases hparse : Cartridge.parse image with
  | error fault =>
    rw [hparse] at h
    cases h
  | ok cartridge =>
    rw [hparse] at h
    cases h
    exact ⟨rfl, rfl⟩

/-- A run of the program in step mode: its cartridge can be read and is accepted. -/
structure StepRun where
  options : Options
  host : Host
  image : Bytes
  machine : Machine
  stepping : options.step = true
  readable : host.system.read options.cartridge = .ok image
  accepted : boot options image = .ok machine

namespace StepRun

variable (r : StepRun)

/-- The session before its first line. -/
def first : Session :=
  let booted := reportBoot r.options r.machine { debug := r.options.debug }
  { machine := booted.1, steps := 0, transcript := booted.2 }

/-- The most instructions of a run. -/
def limit : Nat :=
  r.options.frames.getD defaultLimit

/-- The session after the commands of some lines. -/
def session (before : List String) : Session :=
  r.first.greet.converse r.limit before

theorem transcript_runWith {α : Type} (window : Windowed.Display → α) :
    (runWith r.options r.host window).transcript
      = (r.session (lines r.host.input)).farewell.transcript := by
  unfold runWith
  simp only [r.readable, r.accepted, r.stepping, if_true]
  rfl

theorem progress_session (before : List String) :
    (r.session before).progress
      = Progress.converse r.limit { machine := r.machine.silent, steps := 0 } before :=
  Session.progress_converse r.limit before r.first.greet

/-- The session has gone on from the fresh machine by as many single steps as it has counted. -/
theorem went_session (before : List String) :
    Progress.Went { machine := r.machine.silent, steps := 0 } (r.session before).steps
      (r.session before).progress := by
  obtain ⟨n, hwent⟩ := Progress.exists_went_converse r.limit before
    { machine := r.machine.silent, steps := 0 }
  rw [← r.progress_session] at hwent
  have hsteps : (r.session before).steps = 0 + n := hwent.steps
  rwa [hsteps, Nat.zero_add]

theorem machine_session (before : List String) :
    (r.session before).machine.silent
      = (Machine.stepOne^[(r.session before).steps] r.machine).silent :=
  (r.went_session before).machine.trans (Machine.silent_stepOnes _ r.machine)

/-- What the instructions of a session cost. -/
def spent (before : List String) : Nat :=
  ∑ i ∈ Finset.range (r.session before).steps, (Machine.stepOne^[i] r.machine).nextCost

theorem cycles_session (before : List String) :
    (r.session before).machine.cycles
      = UInt64.ofNat (r.spent before) := by
  have hcycles : (r.session before).machine.silent.cycles
      = (Machine.stepOne^[(r.session before).steps] r.machine).silent.cycles :=
    congrArg Machine.cycles (r.machine_session before)
  show (r.session before).machine.silent.cycles = _
  rw [hcycles, Machine.silent, Machine.cycles_stepOnes, (fresh_boot r.accepted).1, UInt64.zero_add]
  rfl

theorem running_session {before : List String} {i : Nat} (hi : i < (r.session before).steps) :
    (Machine.stepOne^[i] r.machine).running = true := by
  have hsilent : (Machine.stepOne^[i] r.machine.silent).silent.running
      = (Machine.stepOne^[i] r.machine).silent.running :=
    congrArg Machine.running (Machine.silent_stepOnes i r.machine)
  exact hsilent.symm.trans ((r.went_session before).running i hi)

theorem breakpoints_session (before : List String) (i : Nat) :
    (Machine.stepOne^[i] (r.session before).machine).breakpoints = r.options.breakpoints := by
  have hbreakpoints : (r.session before).machine.silent.breakpoints
      = (Machine.stepOne^[(r.session before).steps] r.machine).silent.breakpoints :=
    congrArg Machine.breakpoints (r.machine_session before)
  rw [Machine.breakpoints_stepOnes, ← (fresh_boot r.accepted).2]
  exact hbreakpoints.trans (Machine.breakpoints_stepOnes _ _)

/-- As long as the session is not ended, more lines are carried out where the earlier ones lead. -/
theorem session_append {before : List String} (hopen : ∀ line ∈ before, Command.read line ≠ .quit)
    (more : List String) :
    (r.session (before ++ more)).progress
      = (r.session before).progress.converse r.limit more := by
  rw [progress_session, progress_session, Progress.converse_append_of_open hopen]

theorem session_congr {lines lines' : List String}
    (h : ∀ p : Progress, p.converse r.limit lines = p.converse r.limit lines')
    (before : List String) :
    (r.session (before ++ lines)).progress = (r.session (before ++ lines')).progress := by
  rw [progress_session, progress_session, Progress.converse_congr h]

/-- What a session in step mode does with its script, `before` being any lines that it may have
carried out. -/
structure FollowsScript (before : List String) : Prop where
  /-- The lines that it carries out are those of its input. -/
  outcome : ∀ {α : Type} (window : Windowed.Display → α), before = lines r.host.input →
    (runWith r.options r.host window).transcript = (r.session before).farewell.transcript
  /-- The number of steps is the one that it prints if it ends there. -/
  total : (r.session before).farewell.transcript.out = (r.session before).transcript.out
    ++ ("Total: " ++ toString (r.session before).steps ++ " steps, "
      ++ toString (r.session before).machine.cycles ++ " cycles") ++ "\n"
  /-- Its machine is the fresh one after so many single steps. -/
  machine : (r.session before).machine.silent
    = (Machine.stepOne^[(r.session before).steps] r.machine).silent
  /-- Its cycles are the sum of what they cost, and that is exact up to the width of the counter. -/
  cycles : (r.session before).machine.cycles = UInt64.ofNat (r.spent before)
    ∧ (r.spent before < 2 ^ 64 → ((r.session before).machine.cycles : Nat) = r.spent before)
  /-- No instruction is executed by a machine that has halted. -/
  running : ∀ i < (r.session before).steps, (Machine.stepOne^[i] r.machine).running = true
  /-- A number is so many empty lines, whatever follows. -/
  number : ∀ line n, HoldsNumber line n → ∀ more,
    (r.session (before ++ line :: more)).progress
      = (r.session (before ++ (List.replicate n "" ++ more))).progress
  /-- Showing the registers executes nothing. -/
  dump : ∀ line, Blank.trimmed line ∈ ["d", "dump"] → ∀ more,
    (r.session (before ++ line :: more)).progress = (r.session (before ++ more)).progress
  /-- Any other line is an empty one, -/
  other : ∀ line, Blank.trimmed line ∉ commandWords → (∀ n, ¬HoldsNumber line n) → ∀ more,
    (r.session (before ++ line :: more)).progress = (r.session (before ++ "" :: more)).progress
  /-- and an empty line executes one instruction, if the machine runs. -/
  empty : (∀ line ∈ before, Command.read line ≠ .quit) →
    (r.session (before ++ [""])).progress = (r.session before).progress.step
  quit : ∀ line, Blank.trimmed line ∈ ["q", "quit"] → ∀ more,
    (r.session (before ++ line :: more)).progress = (r.session before).progress
  /-- The breakpoints are those of the options, however far the session goes. -/
  breakpoints : ∀ i,
    (Machine.stepOne^[i] (r.session before).machine).breakpoints = r.options.breakpoints
  /-- A run executes no more than the limit and stops before a breakpoint, but for its first
  instruction. -/
  run : ∀ line, Blank.trimmed line ∈ ["r", "run"] →
    (∀ earlier ∈ before, Command.read earlier ≠ .quit) →
      ∃ n, Progress.Ran true r.limit (r.session before).progress n
        (r.session (before ++ [line])).progress

/-- **A session in step mode carries out its script**, instruction by instruction. -/
theorem followsScript (before : List String) : r.FollowsScript before := by
  constructor
  case outcome =>
    rintro α window rfl
    exact r.transcript_runWith window
  case total => rfl
  case machine => exact r.machine_session before
  case cycles =>
    refine ⟨r.cycles_session before, fun hfits => ?_⟩
    rw [r.cycles_session, UInt64.toNat_ofNat', Nat.mod_eq_of_lt hfits]
  case running => exact fun i hi => r.running_session hi
  case number =>
    intro line n hnumber more
    apply session_congr
    intro p
    rw [Progress.converse_of_read (read_of_holdsNumber hnumber) (by simp),
      Progress.converse_empties]
    rfl
  case dump =>
    intro line hdump more
    apply session_congr
    intro p
    rw [Progress.converse_of_read (read_of_dump hdump) (by simp)]
    rfl
  case other =>
    intro line hword hnumber more
    apply session_congr
    intro p
    rw [Progress.converse_of_read (read_of_other hword hnumber) (by simp),
      Progress.converse_of_read read_empty (by simp)]
  case empty =>
    intro hopen
    rw [r.session_append hopen, Progress.converse_of_read read_empty (by simp)]
    rfl
  case quit =>
    intro line hquit more
    have hends : ∀ p : Progress, p.converse r.limit (line :: more) = p.converse r.limit [] :=
      fun _ => if_pos (read_of_quit hquit)
    rw [r.session_congr hends, List.append_nil]
  case breakpoints => exact r.breakpoints_session before
  case run =>
    intro line hrun hopen
    rw [r.session_append hopen, Progress.converse_of_read (read_of_run hrun) (by simp)]
    exact Progress.exists_ran true r.limit _

end StepRun

end Console

/-! ## A script for a machine that runs for ever -/

namespace Machine

theorem Spinning.endFrame {m : Machine} (h : Spinning m) : Spinning m.endFrame :=
  ⟨h.running, h.breakpoints, h.pc, h.masked, h.program⟩

theorem Spinning.stepOne {m : Machine} (h : Spinning m) : Spinning m.stepOne := by
  rcases Nat.lt_or_ge m.tick.framePosition cyclesPerFrame with hlt | hge
  · rw [stepOne_of_lt hlt]
    exact h.tick
  · rw [stepOne_of_le hge]
    exact h.tick.endFrame

end Machine

namespace Debugger.Progress

/-- Progress with a machine that jumps on the spot, and so many steps of it. -/
structure Spun (steps : Nat) (p : Progress) : Prop where
  spinning : p.machine.Spinning
  steps_eq : p.steps = steps

variable {p : Progress} {k : Nat}

theorem Spun.step (h : Spun k p) : Spun (k + 1) p.step := by
  rw [step_of_running h.spinning.running]
  have hsilent : p.machine.stepOne.silent.silent = p.machine.stepOne.silent :=
    Machine.silent_silent _
  exact ⟨h.spinning.stepOne.of_silent_eq hsilent, congrArg (· + 1) h.steps_eq⟩

theorem Spun.steps (h : Spun k p) (count : Nat) : Spun (k + count) (Progress.step^[count] p) := by
  induction count with
  | zero => exact h
  | succ count ih =>
    rw [Function.iterate_succ_apply']
    exact ih.step

/-- Nothing ends a run of it but the limit. -/
theorem Spun.runOn (h : Spun k p) (first : Bool) (limit : Nat) :
    Spun (k + limit) (p.runOn first limit) := by
  induction limit generalizing p k first with
  | zero => exact h
  | succ limit ih =>
    have hfree : p.machine.atBreakpoint = false := by
      rw [Machine.atBreakpoint, h.spinning.breakpoints]
      rfl
    rw [Progress.runOn, h.spinning.running, hfree, Bool.and_false, Nat.add_comm limit,
      ← Nat.add_assoc]
    exact ih h.step false

end Debugger.Progress

namespace Console.StepRun

open Debugger

/-- A number, a run, the registers and some other line. -/
def spinnerScript : List String :=
  ["2", "r", "d", "x"]

/-- A run in step mode of a cartridge that jumps on the spot.  After the script a byte is typed that
no text has, and one more line. -/
def spinnerSteps : StepRun where
  options := { cartridge := "spin.xvm", step := true, frames := some 3 }
  host :=
    { files := { files := [("spin.xvm", WindowRun.spinnerImage)] }
      input := { bytes := typed spinnerScript ++ [0xFF] ++ newline :: typed ["7"] }
      window := none
      pads := none }
  image := WindowRun.spinnerImage
  machine := Machine.spinner
  stepping := rfl
  readable := by decide +kernel
  accepted := rfl

theorem lines_spinnerSteps : lines spinnerSteps.host.input = spinnerScript :=
  lines_damaged (by decide) (by decide) (by decide +kernel) (typed ["7"])

theorem steps_progress (s : Session) : s.progress.steps = s.steps := rfl

/-- What the script does with such a machine. -/
theorem spun_spinnerScript {p : Progress} (h : Progress.Spun 0 p) :
    Progress.Spun 6 (p.converse 3 spinnerScript) := by
  have hnumber : Command.read "2" = .step 2 := by decide
  have hrun : Command.read "r" = .run := by decide
  have hdump : Command.read "d" = .dump := by decide
  have hother : Command.read "x" = .step 1 := by decide
  rw [spinnerScript, Progress.converse_of_read hnumber (by simp),
    Progress.converse_of_read hrun (by simp), Progress.converse_of_read hdump (by simp),
    Progress.converse_of_read hother (by simp)]
  exact ((h.steps 2).runOn true 3).steps 1

theorem spun_spinnerSteps : Progress.Spun 6 (spinnerSteps.session spinnerScript).progress := by
  have hsilent : Machine.spinner.silent.silent = Machine.spinner.silent := Machine.silent_silent _
  have hlimit : spinnerSteps.limit = 3 := rfl
  rw [progress_session, hlimit]
  exact spun_spinnerScript ⟨Machine.spinning_spinner.of_silent_eq hsilent, rfl⟩

/-- Two instructions for the number, three for the run, none for the registers and one for the other
line: what is typed after the damaged line is not read. -/
theorem followsScript_spinnerSteps :
    spinnerSteps.FollowsScript spinnerScript
      ∧ lines spinnerSteps.host.input = spinnerScript
      ∧ (spinnerSteps.session spinnerScript).steps = 6 := by
  refine ⟨spinnerSteps.followsScript spinnerScript, lines_spinnerSteps, ?_⟩
  rw [← steps_progress, spun_spinnerSteps.steps_eq]

end Console.StepRun

end FantasyComputer
