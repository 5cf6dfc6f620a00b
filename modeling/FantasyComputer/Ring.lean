/-
# FantasyComputer.Ring — a bounded stack in a circle of slots.

A ring holds the most recent values up to its capacity, which is at least one.  `push` writes the
next slot and moves on, over the oldest value once every slot is taken; `pop` moves back and takes
what it finds there.  `next` stays a slot number and `count` never exceeds the number of slots; both
facts are part of the type.
-/

namespace FantasyComputer

/-- A circle of slots with the most recent values in the slots behind `next`. -/
structure Ring (α : Type) where
  /-- The slots. -/
  slots : Array (Option α)
  /-- The slot that the next push writes. -/
  next : Nat
  /-- The number of values held. -/
  count : Nat
  next_lt : next < slots.size
  count_le : count ≤ slots.size

namespace Ring

variable {α : Type}

/-- An empty ring for a number of values, at least one. -/
def withCapacity (capacity : Nat) : Ring α :=
  { slots := Array.replicate (max capacity 1) none
    next := 0
    count := 0
    next_lt := by simp only [Array.size_replicate]; omega
    count_le := by omega }

/-- The number of values that fit. -/
def capacity (r : Ring α) : Nat :=
  r.slots.size

/-- Adds a value, over the oldest one when the ring is full. -/
def push (r : Ring α) (value : α) : Ring α :=
  { slots := r.slots.set r.next (some value) r.next_lt
    next := (r.next + 1) % r.slots.size
    count := min (r.count + 1) r.slots.size
    next_lt := by
      simp only [Array.size_set]
      exact Nat.mod_lt _ (Nat.lt_of_le_of_lt (Nat.zero_le _) r.next_lt)
    count_le := by simp only [Array.size_set]; omega }

/-- The slot before the next one. -/
def last (r : Ring α) : Nat :=
  if r.next = 0 then r.slots.size - 1 else r.next - 1

theorem last_lt (r : Ring α) : r.last < r.slots.size := by
  have := r.next_lt
  simp only [last]
  split <;> omega

/-- Takes the most recent value, if there is one. -/
def pop? (r : Ring α) : Option (α × Ring α) :=
  if r.count = 0 then none
  else
    have last_lt := r.last_lt
    match r.slots[r.last] with
    | none => none
    | some value =>
      some (value,
        { slots := r.slots.set r.last none r.last_lt
          next := r.last
          count := r.count - 1
          next_lt := by simp only [Array.size_set]; exact r.last_lt
          count_le := by simp only [Array.size_set]; have := r.count_le; omega })

/-- Drops all values. -/
def clear (r : Ring α) : Ring α :=
  { slots := Array.replicate r.slots.size none
    next := 0
    count := 0
    next_lt := by
      simp only [Array.size_replicate]
      exact Nat.lt_of_le_of_lt (Nat.zero_le _) r.next_lt
    count_le := by omega }

end Ring

end FantasyComputer
