/-
# FantasyComputer.Proofs.RingStack — a ring is a bounded stack.

`Holds` relates a ring to the list of its values, newest first: there are as many values as the ring
counts, and the value of age `k` lies `k` places behind the newest one, around the circle (`slot`).
Under that relation `push` puts a value in front and cuts the list to the capacity, `pop?` takes the
value in front, and `clear` empties the list, wherever in the circle the ring has got to.
-/
import FantasyComputer.Ring
import Mathlib

namespace FantasyComputer.Ring

variable {α : Type} {r : Ring α} {value : α} {values : List α}

/-! ## The slots behind the next one -/

/-- The slot of the value of an age, the newest having age zero. -/
def slot (r : Ring α) (age : Nat) : Nat :=
  if age < r.next then r.next - 1 - age else r.next + r.slots.size - 1 - age

theorem size_push (r : Ring α) (value : α) : (r.push value).slots.size = r.slots.size :=
  Array.size_set r.next_lt

theorem next_push (r : Ring α) (value : α) :
    (r.push value).next = if r.next + 1 = r.slots.size then 0 else r.next + 1 := by
  have hlt := r.next_lt
  show (r.next + 1) % r.slots.size = _
  split
  · next h => rw [h, Nat.mod_self]
  · exact Nat.mod_eq_of_lt (by omega)

theorem slot_push_zero (r : Ring α) (value : α) : (r.push value).slot 0 = r.next := by
  have hlt := r.next_lt
  have hnext := next_push r value
  have hsize := size_push r value
  unfold slot
  split at hnext <;> split <;> omega

/-- A push makes every value older by one. -/
theorem slot_push_succ (r : Ring α) (value : α) {age : Nat} (h : age + 1 < r.slots.size) :
    (r.push value).slot (age + 1) = r.slot age := by
  have hlt := r.next_lt
  have hnext := next_push r value
  have hsize := size_push r value
  unfold slot
  split at hnext <;> split <;> split <;> omega

/-- Only the oldest value of a full ring can lie in the next slot. -/
theorem slot_ne_next (r : Ring α) {age : Nat} (h : age + 1 < r.slots.size) : r.slot age ≠ r.next := by
  have hlt := r.next_lt
  unfold slot
  split <;> omega

theorem last_eq_slot (r : Ring α) : r.last = r.slot 0 := by
  unfold last slot
  split <;> split <;> omega

theorem slot_injective (r : Ring α) {age age' : Nat} (h : age < r.slots.size)
    (h' : age' < r.slots.size) (heq : r.slot age = r.slot age') : age = age' := by
  have hlt := r.next_lt
  unfold slot at heq
  split at heq <;> split at heq <;> omega

/-- Going back to the last slot makes every value younger by one. -/
theorem slot_of_next_eq_last {rest : Ring α} (hnext : rest.next = r.last)
    (hsize : rest.slots.size = r.slots.size) {age : Nat} (h : age + 1 < r.slots.size) :
    rest.slot age = r.slot (age + 1) := by
  have hlt := r.next_lt
  unfold last at hnext
  unfold slot
  split at hnext <;> split <;> split <;> omega

/-! ## The values of a ring -/

/-- A ring and its values, newest first. -/
structure Holds (r : Ring α) (values : List α) : Prop where
  length_eq : values.length = r.count
  getElem_eq : ∀ (age : Nat) (h : age < values.length),
    r.slots[r.slot age]? = some (some values[age])

theorem holds_withCapacity (capacity : Nat) : Holds (withCapacity capacity : Ring α) [] :=
  ⟨rfl, fun age h => absurd h (Nat.not_lt_zero age)⟩

theorem holds_clear (r : Ring α) : Holds r.clear [] :=
  ⟨rfl, fun age h => absurd h (Nat.not_lt_zero age)⟩

theorem capacity_withCapacity (capacity : Nat) :
    (withCapacity capacity : Ring α).capacity = max capacity 1 :=
  Array.size_replicate

theorem capacity_clear (r : Ring α) : r.clear.capacity = r.capacity :=
  Array.size_replicate

theorem clear_clear (r : Ring α) : r.clear.clear = r.clear := by
  simp only [clear, Array.size_replicate]

theorem capacity_push (r : Ring α) (value : α) : (r.push value).capacity = r.capacity :=
  size_push r value

/-- **Push.**  The value comes first, and the oldest one goes when there is no room for it. -/
theorem Holds.push (h : Holds r values) (value : α) :
    Holds (r.push value) ((value :: values).take r.capacity) := by
  have hcount := r.count_le
  have hlength := h.length_eq
  constructor
  · rw [List.length_take, List.length_cons, h.length_eq]
    exact Nat.min_comm _ _
  · intro age hage
    have hroom : age < r.slots.size ∧ age < values.length + 1 := by
      rw [List.length_take, List.length_cons] at hage
      exact ⟨Nat.lt_of_lt_of_le hage (Nat.min_le_left _ _),
        Nat.lt_of_lt_of_le hage (Nat.min_le_right _ _)⟩
    rw [List.getElem_take]
    show (r.slots.set r.next (some value) r.next_lt)[(r.push value).slot age]? = _
    cases age with
    | zero =>
      -- the new value lies where the next one was to go
      rw [slot_push_zero, Array.getElem?_set_self]
      rfl
    | succ age =>
      have hslot := slot_push_succ r value hroom.1
      have hne := slot_ne_next r hroom.1
      rw [hslot, Array.getElem?_set_ne r.next_lt (Ne.symm hne), h.getElem_eq age (by omega)]
      rfl

theorem Holds.pop?_nil (h : Holds r []) : r.pop? = none := by
  have hcount : r.count = 0 := h.length_eq.symm
  rw [pop?, if_pos hcount]

/-- **Pop.**  The newest value is taken, and the others stay. -/
theorem Holds.pop?_cons (h : Holds r (value :: values)) :
    ∃ rest : Ring α, r.pop? = some (value, rest) ∧ Holds rest values
      ∧ rest.capacity = r.capacity := by
  have hcount : r.count = values.length + 1 := h.length_eq.symm
  have hle := r.count_le
  have hlast := r.last_lt
  have hnewest : r.slots[r.last] = some value := by
    have hfound := h.getElem_eq 0 (Nat.zero_lt_succ _)
    rw [← last_eq_slot, Array.getElem?_eq_getElem hlast] at hfound
    exact Option.some.inj hfound
  obtain ⟨rest, hpop, hslots, hnext, hrest⟩ : ∃ rest : Ring α, r.pop? = some (value, rest)
      ∧ rest.slots = r.slots.set r.last none r.last_lt ∧ rest.next = r.last
      ∧ rest.count = r.count - 1 := by
    rw [pop?, if_neg (by omega)]
    simp only [hnewest]
    exact ⟨_, rfl, rfl, rfl, rfl⟩
  have hsize : rest.slots.size = r.slots.size := by rw [hslots, Array.size_set]
  refine ⟨rest, hpop, ⟨by omega, fun age hage => ?_⟩, hsize⟩
  have hslot := slot_of_next_eq_last hnext hsize (show age + 1 < r.slots.size by omega)
  have hne : r.slot (age + 1) ≠ r.last := by
    intro heq
    rw [last_eq_slot] at heq
    exact absurd (slot_injective r (by omega) (by omega) heq) (Nat.succ_ne_zero age)
  rw [hslot, hslots, Array.getElem?_set_ne r.last_lt (Ne.symm hne)]
  exact h.getElem_eq (age + 1) (Nat.succ_lt_succ hage)

end FantasyComputer.Ring
