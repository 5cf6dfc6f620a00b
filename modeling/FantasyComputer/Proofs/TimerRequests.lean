/-
# FantasyComputer.Proofs.TimerRequests — no request of the timer is lost or served twice.

The timer's requests share one bit of the status byte with whatever else is written there.  As long
as the program leaves that byte alone, only two acts change the bit: a request sets it, and the
delivery of an interrupt clears it (`pending_act`).  Requests that come before a delivery therefore
count as one, and none that comes after it is forgotten.

`timerExact` says so at every point of a run: the bit is set if and only if a request was made after
the last delivery.  It follows that there are no more deliveries than requests, a bit that was set
from the start counted as one.
-/
import FantasyComputer.Proofs.Timeline

namespace FantasyComputer.Machine

variable {m : Machine}

/-! ## What happens to the pending bit -/

/-- Whether an act of the program writes the status byte: a store or a push of an instruction, or
one of the three pushes of an interrupt. -/
def WritesStatus (m : Machine) : Act → Prop
  | .execute => interruptStatus ∈ m.written m.nextInstruction
  | .check => m.interruptReady = true ∧ interruptStatus ∈ m.slots 3
  | _ => False

/-- Whether the program leaves the status byte alone in a row of acts. -/
def LeavesStatus (m : Machine) : List Act → Prop
  | [] => True
  | a :: acts => ¬m.WritesStatus a ∧ (m.act a).LeavesStatus acts

/-- An instruction that does not write the status byte does not touch the bit. -/
theorem pending_step (h : interruptStatus ∉ m.written m.nextInstruction) :
    m.step.pending = m.pending :=
  pending_of_read_eq (read_perform _ _ h)

theorem pending_setInput (m : Machine) (mask : UInt8) : (m.setInput mask).pending = m.pending := by
  have hne : interruptStatus ≠ inputAddress := by decide
  exact pending_of_read_eq (Memory.read_write_of_ne m.memory mask hne)

/-- **Step lemma.**  A request sets the bit, a delivery clears it, and nothing else touches it. -/
theorem pending_act (a : Act) (h : ¬m.WritesStatus a) :
    (m.act a).pending = true
      ↔ a = .request ∨ m.pending = true ∧ ¬(a = .check ∧ m.interruptReady = true) := by
  cases a with
  | execute =>
    show m.step.pending = true ↔ _
    rw [pending_step h]
    simp
  | check =>
    show m.checkInterrupt.pending = true ↔ _
    unfold checkInterrupt
    by_cases hready : m.interruptReady = true
    · rw [if_pos hready, pending_takeInterrupt m fun hslot => h ⟨hready, hslot⟩]
      simp [hready]
    · rw [if_neg hready]
      simp [hready]
  | request =>
    show m.requestInterrupt.pending = true ↔ _
    simp [pending_requestInterrupt]
  | hold mask =>
    show (m.setInput mask).pending = true ↔ _
    rw [pending_setInput]
    simp
  | endFrame =>
    show m.pending = true ↔ _
    simp

/-! ## Rows of acts -/

/-- Whether a request was made in a row of acts and no interrupt delivered after it. -/
def RequestedSince (m : Machine) (acts : List Act) : Prop :=
  ∃ earlier later, acts = earlier ++ .request :: later
    ∧ (m.play (earlier ++ [.request])).deliveries later = []

theorem requestedSince_cons (a : Act) (acts : List Act) :
    m.RequestedSince (a :: acts)
      ↔ a = .request ∧ (m.act a).deliveries acts = [] ∨ (m.act a).RequestedSince acts := by
  constructor
  · rintro ⟨earlier, later, hsplit, hnone⟩
    cases earlier with
    | nil =>
      obtain ⟨rfl, rfl⟩ := List.cons.inj hsplit
      exact Or.inl ⟨rfl, hnone⟩
    | cons b earlier =>
      obtain ⟨rfl, rfl⟩ := List.cons.inj hsplit
      exact Or.inr ⟨earlier, later, rfl, hnone⟩
  · rintro (⟨rfl, hnone⟩ | ⟨earlier, later, rfl, hnone⟩)
    · exact ⟨[], acts, rfl, hnone⟩
    · exact ⟨a :: earlier, later, rfl, hnone⟩

/-- **Run lemma.**  The bit is set if and only if a request was made after the last delivery, or it
was set from the start and nothing was delivered. -/
theorem pending_play {acts : List Act} (h : m.LeavesStatus acts) :
    (m.play acts).pending = true
      ↔ m.RequestedSince acts ∨ m.pending = true ∧ m.deliveries acts = [] := by
  induction acts generalizing m with
  | nil =>
    have hnone : ¬m.RequestedSince [] := by
      rintro ⟨earlier, later, hsplit, -⟩
      exact absurd hsplit.symm (List.append_ne_nil_of_right_ne_nil _ (List.cons_ne_nil _ _))
    show m.pending = true ↔ _
    simp [hnone, deliveries]
  | cons a acts ih =>
    have hfirst := pending_act a h.1
    show ((m.act a).play acts).pending = true ↔ _
    rw [ih h.2, requestedSince_cons, hfirst]
    by_cases hdeliver : a = .check ∧ m.interruptReady = true
    · obtain ⟨rfl, hready⟩ := hdeliver
      simp [deliveries_of_ready hready, hready]
    · rw [deliveries_of_not_ready hdeliver]
      tauto

/-- A delivery uses up what was pending. -/
theorem delivered_act (a : Act) (h : ¬m.WritesStatus a) :
    (if a = .check ∧ m.interruptReady = true then 1 else 0) + (m.act a).pending.toNat
      ≤ (if a = .request then 1 else 0) + m.pending.toNat := by
  have hstep := pending_act a h
  by_cases hdeliver : a = .check ∧ m.interruptReady = true
  · obtain ⟨rfl, hready⟩ := hdeliver
    have hpending : m.pending = true := by
      rw [interruptReady_eq, Bool.and_eq_true] at hready
      exact hready.2
    have hcleared : (m.act .check).pending = false := by
      rw [← Bool.not_eq_true, hstep]
      simp [hready]
    rw [hcleared, hpending, if_pos ⟨rfl, hready⟩]
    exact Nat.le_refl 1
  · rw [if_neg hdeliver]
    by_cases hrequest : a = .request
    · rw [if_pos hrequest]
      have := Bool.toNat_le (m.act a).pending
      omega
    · have hsame : (m.act a).pending = m.pending := by
        rw [Bool.eq_iff_iff, hstep]
        tauto
      rw [if_neg hrequest, hsame]

/-- Every delivery has a request of its own, or the bit that was set from the start; a bit that is
still set has one more. -/
theorem length_deliveries_add_pending_le {acts : List Act} (h : m.LeavesStatus acts) :
    (m.deliveries acts).length + (m.play acts).pending.toNat
      ≤ acts.count .request + m.pending.toNat := by
  induction acts generalizing m with
  | nil =>
    show 0 + m.pending.toNat ≤ 0 + m.pending.toNat
    exact Nat.le_refl _
  | cons a acts ih =>
    have hfirst := delivered_act a h.1
    have hrest := ih h.2
    have hcount : (a :: acts).count .request
        = acts.count .request + if a = .request then 1 else 0 := by
      rw [List.count_cons]
      simp
    have hlength : (m.deliveries (a :: acts)).length = ((m.act a).deliveries acts).length
        + if a = .check ∧ m.interruptReady = true then 1 else 0 := by
      rw [deliveries]
      split <;> rfl
    show _ + ((m.act a).play acts).pending.toNat ≤ _
    omega

theorem leavesStatus_append (m : Machine) (first second : List Act) :
    m.LeavesStatus (first ++ second)
      ↔ m.LeavesStatus first ∧ (m.play first).LeavesStatus second := by
  induction first generalizing m with
  | nil => exact (iff_of_eq (true_and _)).symm
  | cons a first ih =>
    show ¬m.WritesStatus a ∧ (m.act a).LeavesStatus (first ++ second) ↔ _
    rw [ih, ← and_assoc]
    rfl

/-! ## Operations of a host -/

/-- What is true of the timer's requests in a sequence of operations. -/
structure TimerExact (m : Machine) (operations : List Operation) : Prop where
  /-- The machine between two operations is a point of the timeline. -/
  course : ∀ done rest, operations = done ++ rest →
    m.timeline operations = m.timeline done ++ (m.operateAll done).timeline rest
      ∧ InStep (m.operateAll done) (m.play (m.timeline done))
  /-- At every point the bit is set if and only if a request was made after the last delivery, or it
  was set from the start and nothing has been delivered. -/
  pending_iff : ∀ past future, m.timeline operations = past ++ future →
    ((m.play past).pending = true
      ↔ m.RequestedSince past ∨ m.pending = true ∧ m.deliveries past = [])
  /-- A request stays pending until it is delivered. -/
  kept : ∀ earlier later future, m.timeline operations = earlier ++ .request :: (later ++ future) →
    (m.play (earlier ++ [.request])).deliveries later = [] →
      (m.play (earlier ++ .request :: later)).pending = true
  /-- There are no more deliveries than requests, a bit that was set from the start counted as
  one. -/
  served : ∀ past future, m.timeline operations = past ++ future →
    (m.deliveries past).length ≤ past.count .request + m.pending.toNat

/-- **No request is lost or served twice**, however operations of the host and the program
interleave, if the program leaves the status byte alone. -/
theorem timerExact (m : Machine) (operations : List Operation)
    (hleaves : m.LeavesStatus (m.timeline operations)) : TimerExact m operations where
  course done rest hsplit := by
    rw [hsplit]
    exact ⟨timeline_append m done rest, inStep_timeline m done⟩
  pending_iff past future hsplit := by
    rw [hsplit] at hleaves
    exact pending_play ((leavesStatus_append m past future).mp hleaves).1
  kept earlier later future hsplit hnone := by
    have hpast : m.timeline operations = (earlier ++ .request :: later) ++ future := by
      rw [hsplit, List.append_assoc]
      rfl
    rw [hpast] at hleaves
    rw [pending_play ((leavesStatus_append m _ future).mp hleaves).1]
    exact Or.inl ⟨earlier, later, rfl, hnone⟩
  served past future hsplit := by
    rw [hsplit] at hleaves
    have hpast :=
      length_deliveries_add_pending_le ((leavesStatus_append m past future).mp hleaves).1
    omega

/-- A machine without a program that lets interrupts in. -/
def listening : Machine :=
  { initial with registers := { Registers.reset defaultEntry with flags := 0x80 } }

theorem step_listening : listening.step = (listening.execute .nop 1).charge 1 := by
  have hzero : listening.memory.read (defaultEntry + 0) = 0 := read_initial (Or.inr (by decide))
  rw [step_of_reads defaultEntry rfl hzero rfl rfl]
  rfl

/-- An instruction, a request and its delivery are operations that `timerExact` speaks of. -/
theorem timerExact_listening :
    listening.LeavesStatus (listening.timeline [.step, .call .requestInterrupt, .checkInterrupt])
      ∧ TimerExact listening [.step, .call .requestInterrupt, .checkInterrupt] := by
  have hleaves : listening.LeavesStatus
      (listening.timeline [.step, .call .requestInterrupt, .checkInterrupt]) := by
    have hzero : listening.memory.read (defaultEntry + 0) = 0 := read_initial (Or.inr (by decide))
    have hnext : listening.nextInstruction = .nop :=
      nextInstruction_of_reads defaultEntry rfl hzero rfl rfl
    refine ⟨?_, nofun, ?_, trivial⟩
    · show interruptStatus ∉ listening.written listening.nextInstruction
      rw [hnext]
      exact List.not_mem_nil
    · have hsp : listening.step.requestInterrupt.registers.sp = stackTop := by
        rw [step_listening]
        rfl
      rintro ⟨-, hslot⟩
      change interruptStatus ∈ slotsFrom listening.step.requestInterrupt.registers.sp 3 at hslot
      rw [hsp] at hslot
      exact absurd hslot (by decide)
  exact ⟨hleaves, timerExact listening _ hleaves⟩

end FantasyComputer.Machine
