/-
# FantasyComputer.Proofs.InterruptCadence — when interrupts are taken, and how often.

A host that makes calls lets an instruction be followed by a check for the interrupt only where the
instruction has brought the place in the frame to a multiple of the interval.  A row of acts of that
shape is `Paced`, and the timeline of every sequence of calls is (`paced_timeline`).

Two properties follow.  Between two ends of frames the place only grows (`later_play`), so that the
deliveries of a frame stand at different multiples of the interval (`apart_of_paced`), of which a
frame has sixteen.  A frame is a stretch of the timeline in which no frame ends: the count of frames
wraps and so does not tell them apart.  And a delivery masks interrupts: among all instructions only
`EI` and a `RETI` that pops the permission let them in again (`flag_perform`), so one of these is
executed before the next delivery (`reenabled_of_play`).
-/
import FantasyComputer.Proofs.FlagEffects
import FantasyComputer.Proofs.Timeline

namespace FantasyComputer

/-! ## The interrupt flag -/

namespace Machine

variable {m m' x : Machine}

/-- **What instructions do to the interrupt flag.**  Two set and clear it, one pops it, and all
others leave it alone. -/
theorem flag_perform (m : Machine) (i : Instruction) :
    (m.perform i).registers.flag .interrupt = match i with
      | .enableInterrupts => true
      | .disableInterrupts => false
      | .returnFromInterrupt => Flags.test m.topByte Flag.interrupt.bit
      | _ => m.registers.flag .interrupt := by
  cases i with
  | enableInterrupts => exact Registers.flag_setFlag _ .interrupt true
  | disableInterrupts => exact Registers.flag_setFlag _ .interrupt false
  | returnFromInterrupt => rfl
  | _ =>
    refine Registers.flag_of_keeps (flags_perform m Instruction.noConfusion) ?_
    exact Instruction.interrupt_notMem_sets Instruction.noConfusion Instruction.noConfusion

/-- Whether the next instruction lets interrupts in: it is `EI`, or a `RETI` that pops a flags byte
with the permission. -/
def Reenables (m : Machine) : Prop :=
  m.nextInstruction = .enableInterrupts
    ∨ m.nextInstruction = .returnFromInterrupt ∧ Flags.test m.topByte Flag.interrupt.bit = true

theorem flag_takeInterrupt (m : Machine) : m.takeInterrupt.registers.flag .interrupt = false := by
  rw [registers_takeInterrupt]
  exact Registers.flag_setFlag m.registers .interrupt false

theorem flag_of_ready (h : m.interruptReady = true) : m.registers.flag .interrupt = true := by
  rw [interruptReady_eq, Bool.and_eq_true] at h
  exact h.1

/-- **Step lemma.**  The interrupt flag is not set by any act but an instruction that reenables. -/
theorem flag_act {a : Act} (hbefore : m.registers.flag .interrupt = false)
    (hafter : (m.act a).registers.flag .interrupt = true) : a = .execute ∧ m.Reenables := by
  cases a with
  | execute =>
    refine ⟨rfl, ?_⟩
    -- the instruction is performed past its own bytes, which moves neither the flags nor the stack
    change (m.goto _ |>.perform m.nextInstruction).registers.flag .interrupt = true at hafter
    rw [flag_perform] at hafter
    split at hafter
    · exact Or.inl ‹_›
    · exact absurd hafter Bool.false_ne_true
    · exact Or.inr ⟨‹_›, hafter⟩
    · change m.registers.flag .interrupt = true at hafter
      rw [hbefore] at hafter
      exact absurd hafter Bool.false_ne_true
  | check =>
    change m.checkInterrupt.registers.flag .interrupt = true at hafter
    unfold checkInterrupt at hafter
    split at hafter
    · rw [flag_takeInterrupt] at hafter
      exact absurd hafter Bool.false_ne_true
    · rw [hbefore] at hafter
      exact absurd hafter Bool.false_ne_true
  | request => exact absurd (hbefore.symm.trans hafter) Bool.false_ne_true
  | hold mask => exact absurd (hbefore.symm.trans hafter) Bool.false_ne_true
  | endFrame => exact absurd (hbefore.symm.trans hafter) Bool.false_ne_true

/-- **Run lemma.**  Where a row of acts finds interrupts masked and leaves them let in, an
instruction in it has reenabled them. -/
theorem reenabled_of_play {acts : List Act} (hbefore : m.registers.flag .interrupt = false)
    (hafter : (m.play acts).registers.flag .interrupt = true) :
    ∃ earlier later : List Act, acts = earlier ++ Act.execute :: later
      ∧ (m.play earlier).Reenables := by
  induction acts generalizing m with
  | nil => exact absurd (hbefore.symm.trans hafter) Bool.false_ne_true
  | cons a acts ih =>
    cases hflag : (m.act a).registers.flag .interrupt with
    | true =>
      -- this is the act that lets interrupts in
      obtain ⟨rfl, hreenables⟩ := flag_act hbefore hflag
      exact ⟨[], acts, rfl, hreenables⟩
    | false =>
      obtain ⟨earlier, later, rfl, hreenables⟩ := ih hflag hafter
      exact ⟨a :: earlier, later, rfl, hreenables⟩

/-! ## Paced rows of acts -/

/-- A row of acts in which the machine executes instructions only within the budget of a frame and
checks for the interrupt after an instruction that leads to a multiple of the interval, and nowhere
else. -/
inductive Paced : Machine → List Act → Prop where
  | nil (m : Machine) : Paced m []
  /-- An act of the host, or the end of a frame. -/
  | other {m : Machine} {a : Act} {acts : List Act} (hexecute : a ≠ .execute) (hcheck : a ≠ .check)
      (h : Paced (m.act a) acts) : Paced m (a :: acts)
  /-- An instruction that leads off the cadence. -/
  | off {m : Machine} {acts : List Act} (hin : m.framePosition < cyclesPerFrame)
      (hoff : m.step.framePosition % interruptInterval ≠ 0) (h : Paced m.step acts) :
      Paced m (.execute :: acts)
  /-- An instruction that leads onto the cadence, and the check after it. -/
  | on {m : Machine} {acts : List Act} (hin : m.framePosition < cyclesPerFrame)
      (hon : m.step.framePosition % interruptInterval = 0) (h : Paced m.step.checkInterrupt acts) :
      Paced m (.execute :: .check :: acts)

namespace Paced

/-- Machines in step have the same paced rows. -/
theorem of_inStep {acts : List Act} (hpaced : Paced m acts) (h : InStep m m') : Paced m' acts := by
  induction hpaced generalizing m' with
  | nil m => exact .nil m'
  | other hexecute hcheck _ ih => exact .other hexecute hcheck (ih (h.act _))
  | off hin hoff _ ih =>
    have hstep : InStep _ m'.step := h.act .execute
    exact .off (h.framePosition ▸ hin) (hstep.framePosition ▸ hoff) (ih hstep)
  | on hin hon _ ih =>
    have hstep : InStep _ m'.step := h.act .execute
    exact .on (h.framePosition ▸ hin) (hstep.framePosition ▸ hon) (ih (hstep.act .check))

theorem append {first second : List Act} (hfirst : Paced m first)
    (hsecond : Paced (m.play first) second) : Paced m (first ++ second) := by
  induction hfirst with
  | nil m => exact hsecond
  | other hexecute hcheck _ ih => exact .other hexecute hcheck (ih hsecond)
  | off hin hoff _ ih => exact .off hin hoff (ih hsecond)
  | on hin hon _ ih => exact .on hin hon (ih hsecond)

theorem tickActs (hin : m.framePosition < cyclesPerFrame) : Paced m m.tickActs := by
  unfold Machine.tickActs
  by_cases hon : m.step.framePosition % interruptInterval = 0
  · rw [if_pos hon]
    exact .on hin hon (.nil _)
  · rw [if_neg hon]
    exact .off hin hon (.nil _)

theorem ticksActs (n : Nat) (hin : ∀ i < n, (tick^[i] m).framePosition < cyclesPerFrame) :
    Paced m (Machine.ticksActs n m) := by
  induction n generalizing m with
  | zero => exact .nil m
  | succ n ih =>
    apply (Paced.tickActs (hin 0 (Nat.zero_lt_succ n))).append
    rw [play_tickActs]
    exact ih fun i hi => hin (i + 1) (Nat.succ_lt_succ hi)

theorem endFrame (m : Machine) : Paced m [.endFrame] :=
  .other nofun nofun (.nil _)

end Paced

/-- The acts of a call are paced. -/
theorem paced_actsOf (hin : m.framePosition < cyclesPerFrame) (c : Call) :
    Paced m (m.actsOf (.call c)) := by
  cases c with
  | setInput mask => exact .other nofun nofun (.nil _)
  | requestInterrupt => exact .other nofun nofun (.nil _)
  | stepOne =>
    apply (Paced.tickActs hin).append
    split
    · exact .endFrame _
    · exact .nil _
  | stepFrame =>
    rw [actsOf]
    split
    · apply (Paced.ticksActs _ fun i hi => (runs_before_end m hi).1.1).append
      split
      · exact .nil _
      · exact .endFrame _
    · exact .nil m

/-- A call leaves the machine within the budget of a frame. -/
theorem framePosition_call_lt (h : m.framePosition < cyclesPerFrame) (c : Call) :
    (m.call c).2.framePosition < cyclesPerFrame := by
  cases c with
  | setInput mask => exact h
  | requestInterrupt => exact h
  | stepFrame => exact framePosition_stepFrame_lt h
  | stepOne => exact stepOne_framePosition_lt m

/-- **The timeline of calls is paced.** -/
theorem paced_timeline (hin : m.framePosition < cyclesPerFrame) (calls : List Call) :
    Paced m (m.timeline (calls.map .call)) := by
  induction calls generalizing m with
  | nil => exact .nil m
  | cons c calls ih =>
    apply (paced_actsOf hin c).append
    exact (ih (framePosition_call_lt hin c)).of_inStep (inStep_operate m (.call c))

/-! ## Where checks come -/

/-- The multiples of the interval that a frame reaches. -/
def cadencePoints : List Nat :=
  (List.range' 1 16).map (· * interruptInterval)

/-- The last instruction of a frame overruns it by less than the way to a further multiple. -/
theorem mem_cadencePoints {position : Nat} (hpositive : 0 < position)
    (hlast : position ≤ cyclesPerFrame + 7) (hon : position % interruptInterval = 0) :
    position ∈ cadencePoints := by
  refine List.mem_map.mpr ⟨position / interruptInterval, List.mem_range'_1.mpr ⟨?_, ?_⟩, ?_⟩
  all_goals
    rw [cyclesPerFrame_eq] at hlast
    unfold interruptInterval at *
    omega

theorem onCadence_of_mem {position : Nat} (h : position ∈ cadencePoints) :
    0 < position ∧ position % interruptInterval = 0 := by
  obtain ⟨i, hi, rfl⟩ := List.mem_map.mp h
  exact ⟨Nat.mul_pos (List.mem_range'_1.mp hi).1 (Nat.zero_lt_succ _), Nat.mul_mod_left _ _⟩

/-- Two different multiples are an interval apart. -/
theorem interval_le_of_cadencePoints {first second : Nat} (hfirst : first ∈ cadencePoints)
    (hsecond : second ∈ cadencePoints) (hlt : first < second) :
    first + interruptInterval ≤ second := by
  obtain ⟨i, -, rfl⟩ := List.mem_map.mp hfirst
  obtain ⟨j, -, rfl⟩ := List.mem_map.mp hsecond
  have hindex : i < j := Nat.lt_of_mul_lt_mul_right hlt
  have := Nat.mul_le_mul_right interruptInterval hindex
  rwa [Nat.succ_mul] at this

theorem framePosition_lt_step (hin : m.framePosition < cyclesPerFrame) :
    m.framePosition.toNat < m.step.framePosition := by
  have := cost_pos m.opcode
  rw [toNat_framePosition_step hin, nextCost]
  omega

theorem step_mem_cadencePoints (hin : m.framePosition < cyclesPerFrame)
    (hon : m.step.framePosition % interruptInterval = 0) :
    m.step.framePosition.toNat ∈ cadencePoints := by
  have hprice : m.nextCost ≤ 7 := cost_le m.opcode
  have hposition := toNat_framePosition_step hin
  exact mem_cadencePoints (Nat.zero_lt_of_lt (framePosition_lt_step hin)) (by omega) hon

/-- A row that is split at an act other than its first is split after its first. -/
theorem exists_rest_of_split {a b : Act} {acts before after : List Act}
    (hsplit : a :: acts = before ++ b :: after) (hne : a ≠ b) :
    ∃ rest, before = a :: rest ∧ acts = rest ++ b :: after := by
  cases before with
  | nil => exact absurd (List.cons.inj hsplit).1 hne
  | cons first rest =>
    obtain ⟨rfl, hrest⟩ := List.cons.inj hsplit
    exact ⟨rest, rfl, hrest⟩

/-- In a paced row a check comes after an instruction that leads onto the cadence. -/
theorem Paced.onCadence {acts before after : List Act} (h : Paced m acts)
    (hsplit : acts = before ++ .check :: after) :
    (∃ earlier, before = earlier ++ [.execute])
      ∧ (m.play before).framePosition.toNat ∈ cadencePoints := by
  induction h generalizing before with
  | nil m => exact absurd hsplit.symm (List.append_ne_nil_of_right_ne_nil _ (List.cons_ne_nil _ _))
  | other hexecute hcheck _ ih =>
    obtain ⟨rest, rfl, hrest⟩ := exists_rest_of_split hsplit hcheck
    obtain ⟨⟨earlier, rfl⟩, hposition⟩ := ih hrest
    exact ⟨⟨_ :: earlier, rfl⟩, hposition⟩
  | off hin hoff _ ih =>
    obtain ⟨rest, rfl, hrest⟩ := exists_rest_of_split hsplit nofun
    obtain ⟨⟨earlier, rfl⟩, hposition⟩ := ih hrest
    exact ⟨⟨_ :: earlier, rfl⟩, hposition⟩
  | @on m acts hin hon _ ih =>
    obtain ⟨rest, rfl, hrest⟩ := exists_rest_of_split hsplit nofun
    -- it is the check of this very instruction, or one further on
    cases rest with
    | nil => exact ⟨⟨[], rfl⟩, step_mem_cadencePoints hin hon⟩
    | cons b rest =>
      obtain ⟨rfl, hlater⟩ := List.cons.inj hrest
      obtain ⟨⟨earlier, rfl⟩, hposition⟩ := ih hlater
      exact ⟨⟨_ :: _ :: earlier, rfl⟩, hposition⟩

/-- In a paced row the check is not left out where an instruction leads onto the cadence. -/
theorem Paced.checked {acts before after : List Act} (h : Paced m acts)
    (hsplit : acts = before ++ .execute :: after)
    (hon : (m.play before).step.framePosition % interruptInterval = 0) :
    ∃ later, after = .check :: later := by
  induction h generalizing before with
  | nil m => exact absurd hsplit.symm (List.append_ne_nil_of_right_ne_nil _ (List.cons_ne_nil _ _))
  | other hexecute hcheck _ ih =>
    obtain ⟨rest, rfl, hrest⟩ := exists_rest_of_split hsplit hexecute
    exact ih hrest hon
  | off hin hoff _ ih =>
    cases before with
    | nil => exact absurd hon hoff
    | cons b rest =>
      obtain ⟨rfl, hrest⟩ := List.cons.inj hsplit
      exact ih hrest hon
  | on hin hstep _ ih =>
    cases before with
    | nil => exact ⟨_, (List.cons.inj hsplit).2.symm⟩
    | cons b rest =>
      obtain ⟨rfl, hrest⟩ := List.cons.inj hsplit
      obtain ⟨rest, rfl, hlater⟩ := exists_rest_of_split hrest nofun
      exact ih hlater hon

/-- In a paced row every instruction starts within the budget of a frame. -/
theorem Paced.inFrame {acts before after : List Act} (h : Paced m acts)
    (hsplit : acts = before ++ .execute :: after) :
    (m.play before).framePosition < cyclesPerFrame := by
  induction h generalizing before with
  | nil m => exact absurd hsplit.symm (List.append_ne_nil_of_right_ne_nil _ (List.cons_ne_nil _ _))
  | other hexecute hcheck _ ih =>
    obtain ⟨rest, rfl, hrest⟩ := exists_rest_of_split hsplit hexecute
    exact ih hrest
  | off hin hoff _ ih =>
    cases before with
    | nil => exact hin
    | cons b rest =>
      obtain ⟨rfl, hrest⟩ := List.cons.inj hsplit
      exact ih hrest
  | on hin hon _ ih =>
    cases before with
    | nil => exact hin
    | cons b rest =>
      obtain ⟨rfl, hrest⟩ := List.cons.inj hsplit
      obtain ⟨rest, rfl, hlater⟩ := exists_rest_of_split hrest nofun
      exact ih hlater

/-! ## Deliveries within a frame -/

/-- Whether a machine comes later in its frame than another one, or at the same place, by as many
cycles as the places are apart. -/
structure Later (m x : Machine) : Prop where
  position : m.framePosition.toNat ≤ x.framePosition
  cycles : x.cycles = m.cycles + UInt64.ofNat (x.framePosition - m.framePosition : Nat)

theorem later_of_eq (hposition : x.framePosition = m.framePosition) (hcycles : x.cycles = m.cycles) :
    Later m x where
  position := Nat.le_of_eq (congrArg UInt32.toNat hposition.symm)
  cycles := by
    rw [hposition, hcycles, Nat.sub_self]
    exact (UInt64.add_zero _).symm

theorem Later.trans (h : Later m m') (h' : Later m' x) : Later m x where
  position := h.position.trans h'.position
  cycles := by
    have hposition := h.position
    have hposition' := h'.position
    have hsum : (x.framePosition - m.framePosition : Nat)
        = (m'.framePosition - m.framePosition : Nat)
          + (x.framePosition - m'.framePosition : Nat) := by
      omega
    rw [h'.cycles, h.cycles, hsum, UInt64.ofNat_add, UInt64.add_assoc]

theorem later_step (hin : m.framePosition < cyclesPerFrame) : Later m m.step := by
  have hposition := toNat_framePosition_step hin
  constructor
  · omega
  · rw [cycles_step, hposition, Nat.add_sub_cancel_left]

/-- **Step lemma.**  No act but the end of a frame goes back in it. -/
theorem later_act {a : Act} (hend : a ≠ .endFrame)
    (hin : a = .execute → m.framePosition < cyclesPerFrame) : Later m (m.act a) := by
  cases a with
  | execute => exact later_step (hin rfl)
  | check =>
    obtain ⟨_, _, _, hcheck⟩ := checkInterrupt_eq m
    show Later m m.checkInterrupt
    rw [hcheck]
    exact later_of_eq rfl rfl
  | request => exact later_of_eq rfl rfl
  | hold mask => exact later_of_eq rfl rfl
  | endFrame => exact absurd rfl hend

/-- **Run lemma.**  Nor does a row in which no frame ends. -/
theorem later_play {acts : List Act} (hend : .endFrame ∉ acts)
    (hin : ∀ before after, acts = before ++ .execute :: after →
      (m.play before).framePosition < cyclesPerFrame) : Later m (m.play acts) := by
  induction acts generalizing m with
  | nil => exact later_of_eq rfl rfl
  | cons a acts ih =>
    rw [List.mem_cons, not_or] at hend
    have hfirst : Later m (m.act a) := by
      refine later_act (Ne.symm hend.1) fun hexecute => hin [] acts ?_
      rw [hexecute, List.nil_append]
    refine hfirst.trans (ih hend.2 fun before after hsplit => hin (a :: before) after ?_)
    rw [hsplit, List.cons_append]

/-- Two points of a frame that are an interval apart, in their places and so in cycles. -/
structure Apart (x y : Machine) : Prop where
  position : x.framePosition + interruptInterval ≤ (y.framePosition : Nat)
  cycles : y.cycles = x.cycles + UInt64.ofNat (y.framePosition - x.framePosition : Nat)

/-- Between two checks of a paced row comes at least the instruction that leads to the second. -/
theorem Paced.execute_between {acts before between after : List Act} (h : Paced m acts)
    (hsplit : acts = before ++ .check :: (between ++ .check :: after)) :
    ∃ rest, between = rest ++ [.execute] := by
  have hsplit' : acts = (before ++ .check :: between) ++ .check :: after := by
    rw [hsplit, List.append_assoc, List.cons_append]
  obtain ⟨earlier, hearlier⟩ := (h.onCadence hsplit').1
  rcases List.eq_nil_or_concat between with rfl | ⟨rest, last, rfl⟩
  · exact absurd (List.append_inj_right' hearlier rfl) (by simp)
  · rw [List.concat_eq_append, ← List.cons_append, ← List.append_assoc] at hearlier
    exact ⟨rest, by rw [List.concat_eq_append, List.append_inj_right' hearlier rfl]⟩

/-- **Spacing.**  Checks in one frame are an interval apart. -/
theorem apart_of_paced {acts before between after : List Act} (h : Paced m acts)
    (hsplit : acts = before ++ .check :: (between ++ .check :: after))
    (hend : .endFrame ∉ between) : Apart (m.play before) (m.play (before ++ .check :: between)) := by
  have hfirst := (h.onCadence hsplit).2
  have hsplit' : acts = (before ++ .check :: between) ++ .check :: after := by
    rw [hsplit, List.append_assoc, List.cons_append]
  have hsecond := (h.onCadence hsplit').2
  obtain ⟨rest, hrest⟩ := h.execute_between hsplit
  have hcheck : Later (m.play before) ((m.play before).act .check) := later_act nofun nofun
  have hplay : ∀ row, m.play (before ++ .check :: row) = ((m.play before).act .check).play row :=
    fun row => play_append m before (.check :: row)
  have hin : ∀ early late, between = early ++ .execute :: late →
      (((m.play before).act .check).play early).framePosition < cyclesPerFrame := by
    intro early late hbetween
    have hsplit'' : acts = (before ++ .check :: early) ++ .execute :: (late ++ .check :: after) := by
      rw [hsplit, hbetween]
      simp
    rw [← hplay]
    exact h.inFrame hsplit''
  have hlater : Later (m.play before) (m.play (before ++ .check :: between)) := by
    rw [hplay]
    exact hcheck.trans (later_play hend hin)
  -- the second check follows an instruction, which lies after the first check
  have hstrict : (m.play before).framePosition.toNat
      < (m.play (before ++ .check :: between)).framePosition := by
    have hend' : .endFrame ∉ rest := fun hmem => hend (hrest ▸ List.mem_append_left _ hmem)
    have hrestLater := hcheck.trans (later_play hend' fun early late hsplit =>
      hin early (late ++ [.execute]) (by rw [hrest, hsplit, List.append_assoc, List.cons_append]))
    have hlast := framePosition_lt_step (hin rest [] hrest)
    rw [hplay, hrest, play_append]
    exact hrestLater.position.trans_lt hlast
  exact ⟨interval_le_of_cadencePoints hfirst hsecond hstrict, hlater.cycles⟩

/-- What holds of any two deliveries of a row holds of its deliveries pairwise. -/
theorem pairwise_deliveries {R : Machine → Machine → Prop} {acts : List Act}
    (h : ∀ before between after, acts = before ++ .check :: (between ++ .check :: after) →
      R (m.play before) (m.play (before ++ .check :: between))) :
    (m.deliveries acts).Pairwise R := by
  induction acts generalizing m with
  | nil => exact List.Pairwise.nil
  | cons a acts ih =>
    have hrest : ((m.act a).deliveries acts).Pairwise R :=
      ih fun before between after hsplit =>
        h (a :: before) between after (by rw [hsplit, List.cons_append])
    rw [deliveries]
    split
    · next hdeliver =>
      refine hrest.cons fun y hy => ?_
      obtain ⟨between, after, rfl, rfl⟩ := exists_of_mem_deliveries hy
      rw [hdeliver.1] at h ⊢
      exact h [] between after rfl
    · exact hrest

/-- **Number.**  A stretch of a paced row in which no frame ends has no more deliveries than a frame
has multiples of the interval. -/
theorem length_deliveries_le {acts before stretch after : List Act} (h : Paced m acts)
    (hsplit : acts = before ++ (stretch ++ after)) (hend : .endFrame ∉ stretch) :
    ((m.play before).deliveries stretch).length ≤ 16 := by
  set places := ((m.play before).deliveries stretch).map (·.framePosition.toNat) with hplaces
  -- the places are distinct members of a list of sixteen
  have hapart : ((m.play before).deliveries stretch).Pairwise Apart := by
    refine pairwise_deliveries fun first between last hstretch => ?_
    have hsplit' : acts
        = (before ++ first) ++ .check :: (between ++ .check :: (last ++ after)) := by
      rw [hsplit, hstretch]
      simp
    have hinner : .endFrame ∉ between := fun hmem => hend (by rw [hstretch]; simp [hmem])
    rw [← play_append, ← play_append, ← List.append_assoc]
    exact apart_of_paced h hsplit' hinner
  have hnodup : places.Nodup := by
    rw [hplaces, List.Nodup, List.pairwise_map]
    refine hapart.imp fun {x y} hxy hsame => ?_
    have hposition := hxy.position
    change x.framePosition.toNat = y.framePosition.toNat at hsame
    unfold interruptInterval at hposition
    omega
  have hsubset : places ⊆ cadencePoints := by
    intro position hposition
    obtain ⟨x, hx, rfl⟩ := List.mem_map.mp hposition
    obtain ⟨first, last, hstretch, rfl⟩ := exists_of_mem_deliveries hx
    have hsplit' : acts = (before ++ first) ++ .check :: (last ++ after) := by
      rw [hsplit, hstretch]
      simp
    rw [← play_append]
    exact (h.onCadence hsplit').2
  calc ((m.play before).deliveries stretch).length = places.length := (List.length_map _).symm
    _ ≤ cadencePoints.length := (hnodup.subperm hsubset).length_le
    _ = 16 := rfl

/-! ## Calls of a host -/

/-- What is true of the interrupts in a sequence of calls. -/
structure KeepsCadence (m : Machine) (calls : List Call) : Prop where
  /-- The machine between two calls is a point of the timeline. -/
  course : ∀ done rest : List Call, calls = done ++ rest →
    m.timeline (calls.map Operation.call) = m.timeline (done.map Operation.call)
        ++ (m.operateAll (done.map Operation.call)).timeline (rest.map Operation.call)
      ∧ InStep (m.operateAll (done.map Operation.call))
        (m.play (m.timeline (done.map Operation.call)))
  /-- A delivery comes directly after an instruction that leads to a positive multiple of the
  interval, with interrupts let in and the timer pending. -/
  onCadence : ∀ before after : List Act,
    m.timeline (calls.map Operation.call) = before ++ .check :: after →
    (m.play before).interruptReady = true →
      (∃ earlier : List Act, before = earlier ++ [.execute])
        ∧ 0 < (m.play before).framePosition.toNat
        ∧ (m.play before).framePosition % interruptInterval = 0
        ∧ (m.play before).registers.flag .interrupt = true ∧ (m.play before).pending = true
  /-- At every such point at which the machine runs there is a delivery. -/
  delivered : ∀ before after : List Act,
    m.timeline (calls.map Operation.call) = before ++ .execute :: after →
    (m.play before).step.framePosition % interruptInterval = 0 →
    (m.play before).step.registers.flag .interrupt = true →
    (m.play before).step.pending = true → (m.play before).step.running = true →
      ∃ later : List Act, after = .check :: later
        ∧ (m.play before).step.checkInterrupt = (m.play before).step.takeInterrupt
  /-- Deliveries with no end of a frame between them are an interval apart. -/
  apart : ∀ before between after : List Act,
    m.timeline (calls.map Operation.call) = before ++ Act.check :: (between ++ Act.check :: after) →
    (m.play before).interruptReady = true →
    (m.play (before ++ Act.check :: between)).interruptReady = true → .endFrame ∉ between →
      Apart (m.play before) (m.play (before ++ Act.check :: between))
  /-- A stretch in which no frame ends has at most sixteen of them. -/
  perFrame : ∀ before stretch after : List Act,
    m.timeline (calls.map Operation.call) = before ++ (stretch ++ after) → .endFrame ∉ stretch →
      ((m.play before).deliveries stretch).length ≤ 16
  /-- Between two deliveries an instruction lets interrupts in again. -/
  reenabled : ∀ before between after : List Act,
    m.timeline (calls.map Operation.call) = before ++ Act.check :: (between ++ Act.check :: after) →
    (m.play before).interruptReady = true →
    (m.play (before ++ Act.check :: between)).interruptReady = true →
      ∃ earlier later : List Act, between = earlier ++ Act.execute :: later
        ∧ (m.play (before ++ Act.check :: earlier)).Reenables

/-- **Interrupts keep the cadence and do not nest**, whatever calls a host makes. -/
theorem keepsCadence (m : Machine) (calls : List Call) (hin : m.framePosition < cyclesPerFrame) :
    KeepsCadence m calls where
  course done rest hsplit := by
    rw [hsplit, List.map_append]
    exact ⟨timeline_append m _ _, inStep_timeline m _⟩
  onCadence before after hsplit hready := by
    obtain ⟨hinstruction, hposition⟩ := (paced_timeline hin calls).onCadence hsplit
    obtain ⟨hpositive, hon⟩ := onCadence_of_mem hposition
    rw [interruptReady_eq, Bool.and_eq_true] at hready
    exact ⟨hinstruction, hpositive, hon, hready⟩
  delivered before after hsplit hon hflag hpending _ := by
    obtain ⟨later, hlater⟩ := (paced_timeline hin calls).checked hsplit hon
    refine ⟨later, hlater, if_pos ?_⟩
    rw [interruptReady_eq, hflag, hpending]
    rfl
  apart _ _ _ hsplit _ _ hend := apart_of_paced (paced_timeline hin calls) hsplit hend
  perFrame _ _ _ hsplit hend := length_deliveries_le (paced_timeline hin calls) hsplit hend
  reenabled before between after _ hfirst hsecond := by
    have htaken : (m.play before).act .check = (m.play before).takeInterrupt := if_pos hfirst
    rw [play_append] at hsecond
    change (((m.play before).act .check).play between).interruptReady = true at hsecond
    rw [htaken] at hsecond
    obtain ⟨earlier, later, hbetween, hreenables⟩ :=
      reenabled_of_play (flag_takeInterrupt _) (flag_of_ready hsecond)
    refine ⟨earlier, later, hbetween, ?_⟩
    rw [play_append]
    show (((m.play before).act .check).play earlier).Reenables
    rwa [htaken]

/-! ## A run with two deliveries -/

/-- A machine one cycle before a check, with interrupts let in and the timer pending.  ROM is empty
but for the handler, which lets interrupts in again and goes to the start of ROM. -/
def ticking : Machine :=
  { initial with
    registers := { Registers.reset defaultEntry with flags := 0x80 }
    memory := { Memory.initial with
      rom := (((Vector.replicate romSize 0).set 0x1F00 0xF0).set 0x1F01 0x40).set 0x1F03 0xE0 }
    cycles := 999
    framePosition := 999 }.requestInterrupt

/-- What is read of the program and of the handler. -/
theorem read_ticking {memory : Memory} (h : memory.rom = ticking.memory.rom) :
    (∀ i < 0x1F00, memory.read (0xE000 + UInt16.ofNat i) = 0)
      ∧ memory.read 0xFF00 = 0xF0 ∧ memory.read 0xFF01 = 0x40 ∧ memory.read 0xFF02 = 0x00
      ∧ memory.read 0xFF03 = 0xE0 := by
  have hrom : memory.rom
      = (((Vector.replicate romSize 0).set 0x1F00 0xF0).set 0x1F01 0x40).set 0x1F03 0xE0 :=
    h.trans (Memory.rom_write _ _ _)
  have hread : ∀ i (hi : i < romSize),
      memory.read (0xE000 + UInt16.ofNat i) = memory.rom[i] := fun i hi =>
    Memory.read_of_rom (locate_rom hi)
  refine ⟨fun i hi => ?_, ?_, ?_, ?_, ?_⟩
  · rw [hread i (lt_trans hi (by decide))]
    simp only [hrom]
    rw [Vector.getElem_set_ne _ _ (by omega), Vector.getElem_set_ne _ _ (by omega),
      Vector.getElem_set_ne _ _ (by omega), Vector.getElem_replicate]
  · refine (hread 0x1F00 (by decide)).trans ?_
    simp [hrom]
  · refine (hread 0x1F01 (by decide)).trans ?_
    simp [hrom]
  · refine (hread 0x1F02 (by decide)).trans ?_
    simp [hrom]
  · refine (hread 0x1F03 (by decide)).trans ?_
    simp [hrom]


/-- The machine when the first interrupt has been taken and the timer has requested again. -/
def ticked : Machine :=
  (ticking.pastNops 1).takeInterrupt.requestInterrupt

theorem read_pc_ticking : ticking.memory.read ticking.registers.pc = 0 :=
  (read_ticking rfl).1 0 (by decide)

theorem ready_first : (ticking.pastNops 1).interruptReady = true := by
  have hflag : (ticking.pastNops 1).registers.flag .interrupt = true := by decide
  have hpending : (ticking.pastNops 1).pending = true := pending_requestInterrupt _
  rw [interruptReady_eq, hflag, hpending]
  rfl

theorem tick_ticking : ticking.tick = (ticking.pastNops 1).takeInterrupt := by
  rw [tick, step_of_nop read_pc_ticking, poll, if_pos (by decide), checkInterrupt,
    if_pos ready_first]

theorem rom_ticked : ticked.memory.rom = ticking.memory.rom :=
  (Memory.rom_write _ _ _).trans (rom_takeInterrupt _)

theorem place_ticked : ticked.framePosition = 1000 ∧ ticked.registers.pc = 0xFF00 := by
  obtain ⟨_, _, _, htaken⟩ := takeInterrupt_eq (ticking.pastNops 1)
  have hplace : ticked.framePosition = (ticking.pastNops 1).takeInterrupt.framePosition := rfl
  have hpc : ticked.registers = (ticking.pastNops 1).takeInterrupt.registers := rfl
  constructor
  · rw [hplace, htaken]
    rfl
  · rw [hpc, registers_takeInterrupt]
    rfl

/-- The machine behind the first instruction of the handler. -/
def enabled : Machine :=
  { ticked with
    registers := { ticked.registers.setFlag .interrupt true with pc := 0xFF01 }
    cycles := ticked.cycles + 1
    framePosition := ticked.framePosition + 1 }

/-- The machine behind the handler, at the start of ROM. -/
def handled : Machine :=
  { enabled with
    registers := { enabled.registers with pc := 0xE000 }
    cycles := enabled.cycles + 3
    framePosition := enabled.framePosition + 3 }

theorem tick_ticked : ticked.tick = enabled := by
  obtain ⟨hplace, hpc⟩ := place_ticked
  have hread := (read_ticking rom_ticked).2.1
  have hstep : ticked.step = enabled := by
    rw [step_of_reads 0xFF00 hpc hread rfl rfl]
    show ((ticked.goto (ticked.registers.pc + 1)).onRegisters (·.setFlag .interrupt true)).charge 1
      = enabled
    rw [hpc]
    rfl
  rw [tick, hstep]
  apply poll_of_offCadence
  show (ticked.framePosition + 1).toNat % interruptInterval ≠ 0
  rw [hplace]
  decide

theorem tick_enabled : enabled.tick = handled := by
  obtain ⟨hplace, -⟩ := place_ticked
  obtain ⟨-, -, hx, hy, hz⟩ := read_ticking (show enabled.memory.rom = _ from rom_ticked)
  have hstep : enabled.step = handled := by
    rw [step_of_reads 0xFF01 rfl hx hy hz]
    rfl
  rw [tick, hstep]
  apply poll_of_offCadence
  show (ticked.framePosition + 1 + 3).toNat % interruptInterval ≠ 0
  rw [hplace]
  decide

theorem ticks_handled {n : Nat} (hn : n < 996) : tick^[n] handled = handled.pastNops n := by
  refine ticks_of_nops (fun i hi => ?_) (Or.inr fun i hi => ?_)
  · exact (read_ticking (show handled.memory.rom = _ from rom_ticked)).1 i (by omega)
  · show (ticked.framePosition + 1 + 3 + UInt32.ofNat (i + 1)).toNat % interruptInterval ≠ 0
    rw [place_ticked.1, UInt32.toNat_add, UInt32.toNat_ofNat']
    show (1004 + (i + 1) % 4294967296) % 4294967296 % 1000 ≠ 0
    rw [Nat.mod_eq_of_lt (show i + 1 < 4294967296 by omega),
      Nat.mod_eq_of_lt (show 1004 + (i + 1) < 4294967296 by omega)]
    omega

theorem place_handled (n : Nat) (hn : n < 1000) :
    (handled.pastNops n).framePosition.toNat = 1004 + n := by
  show (ticked.framePosition + 1 + 3 + UInt32.ofNat n).toNat = 1004 + n
  rw [place_ticked.1, UInt32.toNat_add, UInt32.toNat_ofNat']
  show (1004 + n % 4294967296) % 4294967296 = 1004 + n
  omega

/-- Where the first steps after the interrupt lead. -/
theorem place_ticks_ticked {i : Nat} (hi : i < 997) :
    (tick^[i + 1] ticked).framePosition % interruptInterval ≠ 0
      ∧ (tick^[i + 1] ticked).framePosition < cyclesPerFrame := by
  obtain ⟨hplace, -⟩ := place_ticked
  cases i with
  | zero =>
    rw [Function.iterate_one, tick_ticked]
    show (ticked.framePosition + 1).toNat % _ ≠ 0 ∧ (ticked.framePosition + 1).toNat < _
    rw [hplace]
    decide
  | succ i =>
    rw [Function.iterate_succ_apply, Function.iterate_succ_apply, tick_ticked, tick_enabled,
      ticks_handled (by omega), place_handled i (by omega), cyclesPerFrame_eq]
    unfold interruptInterval
    omega

theorem ready_last : (handled.pastNops 996).interruptReady = true := by
  have hflag : (handled.pastNops 996).registers.flag .interrupt = true :=
    Registers.flag_setFlag ticked.registers .interrupt true
  have hpending : (handled.pastNops 996).pending = true := pending_requestInterrupt _
  rw [interruptReady_eq, hflag, hpending]
  rfl

/-- The calls of a host that steps, requests a second interrupt and steps on. -/
def tickingCalls : List Call :=
  .stepOne :: .requestInterrupt :: List.replicate 998 .stepOne

/-- What the host and the program do between the two interrupts. -/
def tickingRow : List Act :=
  .request :: List.replicate 998 .execute

theorem tick_last : (handled.pastNops 995).step = handled.pastNops 996
    ∧ (handled.pastNops 995).tick.framePosition = 2000 := by
  have hnop : (handled.pastNops 995).memory.read (handled.pastNops 995).registers.pc = 0 :=
    (read_ticking (show handled.memory.rom = _ from rom_ticked)).1 995 (by decide)
  have hstep : (handled.pastNops 995).step = handled.pastNops 996 := by
    rw [step_of_nop hnop, pastNops_pastNops]
  refine ⟨hstep, UInt32.toNat_inj.mp ?_⟩
  rw [tick, framePosition_poll, hstep, place_handled 996 (by decide)]
  rfl

theorem ticks_ticked : tick^[997] ticked = handled.pastNops 995 := by
  rw [Function.iterate_succ_apply, Function.iterate_succ_apply, tick_ticked, tick_enabled,
    ticks_handled (by decide)]

/-- From the first interrupt the steps lead to the check for the second. -/
theorem ticksActs_ticked : ticksActs 998 ticked = List.replicate 998 .execute ++ [.check]
    ∧ ticked.play (List.replicate 998 .execute) = handled.pastNops 996 := by
  have hrow := ticksActs_of_offCadence fun i (hi : i < 997) => (place_ticks_ticked hi).1
  have hlast : ticksActs 1 (handled.pastNops 995) = [.execute, .check] := by
    rw [ticksActs, tickActs_of_onCadence (by rw [tick_last.2]; decide)]
    rfl
  have hrow' : List.replicate 998 Act.execute = List.replicate 997 .execute ++ [.execute] :=
    List.replicate_succ'
  constructor
  · rw [show 998 = 997 + 1 from rfl, ticksActs_add, hrow, ticks_ticked, hlast, hrow',
      List.append_assoc]
    rfl
  · rw [hrow', play_append, ← hrow, play_ticksActs, ticks_ticked]
    exact tick_last.1

/-- The row of these calls ends with the check after the step onto the second multiple. -/
theorem timeline_ticking : ticking.timeline (tickingCalls.map .call)
    = [.execute] ++ .check :: (tickingRow ++ .check :: []) := by
  have hplace : ticking.tick.framePosition = 1000 := by
    rw [tick_ticking]
    exact place_ticked.1
  have hfirst : ticking.actsOf (.call .stepOne) = [.execute, .check] := by
    rw [actsOf_stepOne (by rw [hplace]; decide), tickActs_of_onCadence (by rw [hplace]; decide)]
  have hticked : (ticking.operate (.call .stepOne)).operate (.call .requestInterrupt) = ticked := by
    rw [operate_stepOne (by rw [hplace]; decide), tick_ticking]
    rfl
  have hrest : ticked.timeline (List.replicate 998 (.call .stepOne)) = ticksActs 998 ticked := by
    refine (timeline_stepOnes fun i hi => ?_).1
    rcases Nat.lt_or_ge i 997 with hlt | hge
    · exact (place_ticks_ticked hlt).2
    · have hlast : tick^[i + 1] ticked = (handled.pastNops 995).tick := by
        rw [show i = 997 by omega, Function.iterate_succ_apply', ticks_ticked]
      rw [hlast, tick_last.2]
      decide
  have hcalls : tickingCalls.map Operation.call
      = .call .stepOne :: .call .requestInterrupt :: List.replicate 998 (.call .stepOne) := by
    rw [tickingCalls, List.map_cons, List.map_cons, List.map_replicate]
  rw [hcalls, timeline, timeline, hfirst, hticked, hrest, ticksActs_ticked.1]
  rfl

theorem play_check_request (m : Machine) (acts : List Act) :
    m.play (.check :: .request :: acts) = m.checkInterrupt.requestInterrupt.play acts := rfl

/-- Two interrupts are taken in one frame of this run, an interval apart. -/
theorem keepsCadence_ticking :
    ticking.framePosition < cyclesPerFrame ∧ KeepsCadence ticking tickingCalls
      ∧ (ticking.pastNops 1).interruptReady = true ∧ (handled.pastNops 996).interruptReady = true
      ∧ Apart (ticking.pastNops 1) (handled.pastNops 996) := by
  have hin : ticking.framePosition < cyclesPerFrame := by decide
  have hkeeps := keepsCadence ticking tickingCalls hin
  have hapart := hkeeps.apart [.execute] tickingRow [] timeline_ticking
  have hfirst : ticking.play [Act.execute] = ticking.pastNops 1 := step_of_nop read_pc_ticking
  have hsecond : ticking.play ([Act.execute] ++ Act.check :: tickingRow) = handled.pastNops 996 := by
    rw [play_append, hfirst, tickingRow, play_check_request, checkInterrupt, if_pos ready_first]
    exact ticksActs_ticked.2
  rw [hfirst, hsecond] at hapart
  have hend : Act.endFrame ∉ tickingRow := by
    rw [tickingRow, List.mem_cons, List.mem_replicate]
    rintro (h | ⟨-, h⟩) <;> exact Act.noConfusion h
  exact ⟨hin, hkeeps, ready_first, ready_last, hapart ready_first ready_last hend⟩

end Machine

end FantasyComputer
