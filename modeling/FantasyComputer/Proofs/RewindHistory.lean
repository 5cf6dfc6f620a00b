/-
# FantasyComputer.Proofs.RewindHistory — a history is a bounded stack with a steady clock.

Four calls are made to a history.  What a row of them amounts to can be said without the circle of
slots and without the clock: `held` is the plain list of the snapshots that are left, newest first,
and `framesCounted` is the number of frames counted since the history was last cleared.

`Recalls` ties a history to the two, wherever in the circle its next slot lies and whatever the clock
shows.  A call keeps the tie (`Recalls.call`), so every row of calls does (`recalls_callAll`), and
`boundedStack` reads off the answers: a pop gives the newest snapshot of the list, and the clock
says that a snapshot is due at every multiple of the interval.
-/
import FantasyComputer.Proofs.RingStack
import FantasyComputer.Snapshot

namespace FantasyComputer.Rewind

/-! ## Calls -/

/-- What can be asked of a history. -/
inductive Call where
  | push (s : Snapshot)
  | pop
  | clear
  /-- Counts a finished frame. -/
  | tick
  deriving DecidableEq

/-- The history after a call. -/
def call (r : Rewind) : Call → Rewind
  | .push s => r.push s
  | .pop =>
    match r.pop? with
    | some (_, rest) => rest
    | none => r
  | .clear => r.clear
  | .tick => r.tick.2

/-- The history after the calls of a row. -/
def callAll (r : Rewind) (calls : List Call) : Rewind :=
  calls.foldl call r

/-! ## The list and the count -/

/-- The snapshots held after one more call, newest first.  A push drops the oldest one when there
would be more than fit. -/
def heldAfter (capacity : Nat) (values : List Snapshot) : Call → List Snapshot
  | .push s => if values.length < capacity then s :: values else s :: values.dropLast
  | .pop => values.tail
  | .clear => []
  | .tick => values

/-- The snapshots held after a row of calls, newest first. -/
def held (capacity : Nat) (calls : List Call) : List Snapshot :=
  calls.foldl (heldAfter capacity) []

/-- The frames counted since the last time that a row of calls cleared the history. -/
def framesCounted (calls : List Call) : Nat :=
  (calls.rtakeWhile (· ≠ .clear)).countP (· = .tick)

variable {capacity interval : Nat} {calls : List Call} {r : Rewind}

theorem held_concat (capacity : Nat) (calls : List Call) (c : Call) :
    held capacity (calls ++ [c]) = heldAfter capacity (held capacity calls) c :=
  List.foldl_concat ..

theorem framesCounted_concat (calls : List Call) (c : Call) :
    framesCounted (calls ++ [c]) = match c with
      | .clear => 0
      | .tick => framesCounted calls + 1
      | _ => framesCounted calls := by
  unfold framesCounted
  cases c with
  | clear => rw [List.rtakeWhile_concat_neg _ _ _ (by simp)]; rfl
  | _ => simp [List.countP_append]

/-- A push onto a list that fits cuts it to the capacity. -/
theorem heldAfter_push {values : List Snapshot} (h : values.length ≤ capacity) (hroom : 0 < capacity)
    (s : Snapshot) : heldAfter capacity values (.push s) = (s :: values).take capacity := by
  show (if values.length < capacity then s :: values else s :: values.dropLast) = _
  split
  · next hlt => exact (List.take_of_length_le hlt).symm
  · next hfull =>
    obtain ⟨room, rfl⟩ : ∃ room, capacity = room + 1 := ⟨capacity - 1, by omega⟩
    have hlength : values.length - 1 = room := by omega
    rw [List.take_succ_cons, List.dropLast_eq_take, hlength]

/-! ## The clock -/

/-- A clock that shows the frames since the last multiple of its interval goes on to do so, and tells
when the next multiple is reached.  An interval of zero counts as one. -/
theorem tick_of_ticks {n : Nat} (h : r.ticks = n % max r.interval 1) :
    (r.tick.1 = true ↔ max r.interval 1 ∣ n + 1)
      ∧ r.tick.2.ticks = (n + 1) % max r.interval 1 := by
  have hlt : n % max r.interval 1 < max r.interval 1 := Nat.mod_lt n (by omega)
  have hnext : (n + 1) % max r.interval 1 = (r.ticks + 1) % max r.interval 1 := by
    rw [h, Nat.mod_add_mod]
  rw [Nat.dvd_iff_mod_eq_zero, hnext]
  unfold tick
  split
  · next hdue =>
    -- the clock never runs past its interval
    have hfull : r.ticks + 1 = max r.interval 1 := by omega
    rw [hfull, Nat.mod_self]
    exact ⟨iff_of_true rfl rfl, rfl⟩
  · next hwait =>
    have hshort : (r.ticks + 1) % max r.interval 1 = r.ticks + 1 := Nat.mod_eq_of_lt (by omega)
    rw [hshort]
    exact ⟨iff_of_false Bool.false_ne_true (Nat.succ_ne_zero _), rfl⟩

/-! ## The invariant -/

/-- A history that has answered a row of calls since it was new. -/
structure Recalls (capacity interval : Nat) (calls : List Call) (r : Rewind) : Prop where
  capacity_eq : r.history.capacity = max capacity 1
  holds : r.history.Holds (held (max capacity 1) calls)
  interval_eq : r.interval = interval
  ticks_eq : r.ticks = framesCounted calls % max interval 1

theorem recalls_new (capacity interval : Nat) :
    Recalls capacity interval [] (new capacity interval) where
  capacity_eq := Ring.capacity_withCapacity capacity
  holds := Ring.holds_withCapacity capacity
  interval_eq := rfl
  ticks_eq := (Nat.zero_mod _).symm

/-- No more is held than fits. -/
theorem Recalls.length_le (h : Recalls capacity interval calls r) :
    (held (max capacity 1) calls).length ≤ max capacity 1 := by
  rw [h.holds.length_eq, ← h.capacity_eq]
  exact r.history.count_le

/-- **Pop.**  The newest snapshot held is popped, and the others stay. -/
theorem Recalls.pop (h : Recalls capacity interval calls r) :
    r.pop?.map Prod.fst = (held (max capacity 1) calls).head?
      ∧ Recalls capacity interval (calls ++ [.pop]) (r.call .pop) := by
  have hcounted := framesCounted_concat calls .pop
  have hheld : held (max capacity 1) (calls ++ [.pop]) = (held (max capacity 1) calls).tail :=
    held_concat ..
  have hholds := h.holds
  rw [call, pop?]
  generalize held (max capacity 1) calls = values at hheld hholds
  cases values with
  | nil =>
    rw [hholds.pop?_nil]
    refine ⟨rfl, h.capacity_eq, ?_, h.interval_eq, ?_⟩
    · rw [hheld]
      exact hholds
    · rw [hcounted]
      exact h.ticks_eq
  | cons s older =>
    obtain ⟨rest, hpop, hrest, hcapacity⟩ := hholds.pop?_cons
    rw [hpop]
    refine ⟨rfl, hcapacity.trans h.capacity_eq, ?_, h.interval_eq, ?_⟩
    · rw [hheld]
      exact hrest
    · rw [hcounted]
      exact h.ticks_eq

/-- **Tick.**  A snapshot is due when a multiple of the interval is reached. -/
theorem Recalls.tick (h : Recalls capacity interval calls r) :
    (r.tick.1 = true ↔ max interval 1 ∣ framesCounted calls + 1)
      ∧ Recalls capacity interval (calls ++ [.tick]) (r.call .tick) := by
  obtain ⟨hdue, hticks⟩ := tick_of_ticks (h.interval_eq ▸ h.ticks_eq)
  rw [h.interval_eq] at hdue hticks
  have hkept : r.tick.2.history = r.history ∧ r.tick.2.interval = r.interval := by
    unfold Rewind.tick
    split <;> exact ⟨rfl, rfl⟩
  refine ⟨hdue, ?_, ?_, hkept.2.trans h.interval_eq, ?_⟩
  · show r.tick.2.history.capacity = _
    rw [hkept.1]
    exact h.capacity_eq
  · show r.tick.2.history.Holds _
    rw [hkept.1, held_concat]
    exact h.holds
  · rw [framesCounted_concat]
    exact hticks

/-- **Step lemma.**  A call keeps the tie. -/
theorem Recalls.call (h : Recalls capacity interval calls r) (c : Call) :
    Recalls capacity interval (calls ++ [c]) (r.call c) := by
  cases c with
  | pop => exact h.pop.2
  | tick => exact h.tick.2
  | push s =>
    have hpush := h.holds.push s
    rw [h.capacity_eq, ← heldAfter_push h.length_le (by omega), ← held_concat] at hpush
    refine ⟨(Ring.capacity_push _ s).trans h.capacity_eq, hpush, h.interval_eq, ?_⟩
    rw [framesCounted_concat]
    exact h.ticks_eq
  | clear =>
    refine ⟨(Ring.capacity_clear _).trans h.capacity_eq, ?_, h.interval_eq, ?_⟩
    · rw [held_concat]
      exact Ring.holds_clear _
    · rw [framesCounted_concat]
      exact (Nat.zero_mod _).symm

/-- **Run lemma.** -/
theorem recalls_callAll (capacity interval : Nat) (calls : List Call) :
    Recalls capacity interval calls ((new capacity interval).callAll calls) := by
  induction calls using List.reverseRecOn with
  | nil => exact recalls_new capacity interval
  | append_singleton calls c ih =>
    rw [callAll, List.foldl_concat]
    exact ih.call c

/-! ## Answers -/

/-- What a history answers after a row of calls since it was new. -/
structure BoundedStack (capacity interval : Nat) (calls : List Call) (r : Rewind) : Prop where
  /-- A pop gives the newest snapshot of the list. -/
  pop : r.pop?.map Prod.fst = (held (max capacity 1) calls).head?
  /-- It gives nothing if the list is empty, and never otherwise. -/
  pop_eq_none_iff : r.pop? = none ↔ held (max capacity 1) calls = []
  length : r.length = (held (max capacity 1) calls).length
  isEmpty : r.isEmpty = true ↔ held (max capacity 1) calls = []
  /-- The list is never longer than the capacity. -/
  bounded : (held (max capacity 1) calls).length ≤ max capacity 1
  /-- The next frame counted is the one after those since the last clear, and a snapshot is due if
  its number is a multiple of the interval. -/
  tick : r.tick.1 = true ↔ max interval 1 ∣ framesCounted calls + 1

/-- **A history is a bounded stack with a steady clock**, after every row of calls. -/
theorem boundedStack (capacity interval : Nat) (calls : List Call) :
    BoundedStack capacity interval calls ((new capacity interval).callAll calls) := by
  have hrecalls := recalls_callAll capacity interval calls
  have hcount := hrecalls.holds.length_eq
  have hpop := hrecalls.pop.1
  constructor
  case pop => exact hpop
  case pop_eq_none_iff => rw [← Option.map_eq_none_iff, hpop, List.head?_eq_none_iff]
  case length => exact hcount.symm
  case isEmpty => rw [isEmpty, beq_iff_eq, ← hcount, List.length_eq_zero_iff]
  case bounded => exact hrecalls.length_le
  case tick => exact hrecalls.tick.1

end FantasyComputer.Rewind
