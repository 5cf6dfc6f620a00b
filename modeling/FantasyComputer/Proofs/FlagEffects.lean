/-
# FantasyComputer.Proofs.FlagEffects — which flags an instruction sets.

All flags share one byte, so an instruction that sets one of them writes them all.  `Keeps` is the
relation between the byte before and after: outside some flags every bit is as it was, the unnamed
bits among them.  An assignment keeps all bits but its own (`Keeps.assign`), loads and arithmetic are
rows of assignments, and `flags_perform` says for every instruction which flags those are.
-/
import FantasyComputer.Proofs.Execution

namespace FantasyComputer

/-! ## The flags byte -/

namespace Flags

theorem test_eq_testBit (flags : UInt8) (bit : Fin 8) :
    test flags (UInt8.ofNat bit) = flags.toNat.testBit bit := by
  have hbyte : ∀ (n : Fin 256) (bit : Fin 8),
      test (UInt8.ofFin n) (UInt8.ofNat bit) = n.val.testBit bit := by
    decide +kernel
  exact hbyte flags.toFin bit

theorem testBit_bit (f : Flag) (bit : Fin 8) :
    (1 <<< f.bit : UInt8).toNat.testBit bit = decide (f.bit = UInt8.ofNat bit)
      ∧ (~~~(1 <<< f.bit) : UInt8).toNat.testBit bit = !decide (f.bit = UInt8.ofNat bit) := by
  revert bit
  cases f <;> decide

/-- Setting a flag decides its bit and no other. -/
theorem test_assign (flags : UInt8) (f : Flag) (on : Bool) (bit : Fin 8) :
    test (assign flags f.bit on) (UInt8.ofNat bit)
      = if f.bit = UInt8.ofNat bit then on else test flags (UInt8.ofNat bit) := by
  obtain ⟨hset, hclear⟩ := testBit_bit f bit
  rw [test_eq_testBit, test_eq_testBit]
  cases on with
  | true =>
    show (flags ||| 1 <<< f.bit).toNat.testBit bit = _
    rw [UInt8.toNat_or, Nat.testBit_or, hset]
    by_cases hbit : f.bit = UInt8.ofNat bit <;> simp [hbit]
  | false =>
    show (flags &&& ~~~(1 <<< f.bit)).toNat.testBit bit = _
    rw [UInt8.toNat_and, Nat.testBit_and, hclear]
    by_cases hbit : f.bit = UInt8.ofNat bit <;> simp [hbit]

/-- Whether a flags byte is another one up to some flags. -/
def Keeps (changed : List Flag) (flags flags' : UInt8) : Prop :=
  ∀ bit < 8, (∀ f ∈ changed, f.bit ≠ bit) → test flags' bit = test flags bit

variable {changed : List Flag} {flags flags' : UInt8}

theorem Keeps.refl (changed : List Flag) (flags : UInt8) : Keeps changed flags flags :=
  fun _ _ _ => rfl

theorem Keeps.assign (h : Keeps changed flags flags') {f : Flag} (hf : f ∈ changed) (on : Bool) :
    Keeps changed flags (assign flags' f.bit on) := by
  intro bit hbit hother
  have hnat : UInt8.ofNat (⟨bit.toNat, hbit⟩ : Fin 8) = bit := UInt8.ofNat_toNat
  have hassign := test_assign flags' f on ⟨bit.toNat, hbit⟩
  rw [hnat, if_neg (hother f hf)] at hassign
  exact hassign.trans (h bit hbit hother)

end Flags

/-! ## Loads and arithmetic -/

namespace Registers

open Flags

variable {changed : List Flag} {flags : UInt8} {r : Registers}

/-- A flag that is not among the changed ones is as it was. -/
theorem flag_of_keeps {r' : Registers} (h : Keeps changed r.flags r'.flags) {f : Flag}
    (hf : f ∉ changed) : r'.flag f = r.flag f := by
  refine h f.bit (by cases f <;> decide) fun g hg hbit => hf ?_
  -- no two flags share a bit
  have hsame : g = f := by
    revert hbit
    cases g <;> cases f <;> decide
  exact hsame ▸ hg

theorem flag_setFlag (r : Registers) (f : Flag) (on : Bool) : (r.setFlag f on).flag f = on := by
  obtain ⟨bit, hbit⟩ : ∃ bit : Fin 8, UInt8.ofNat bit = f.bit :=
    ⟨⟨f.bit.toNat, by cases f <;> decide⟩, UInt8.ofNat_toNat⟩
  have hassign := test_assign r.flags f on bit
  rw [if_pos hbit.symm, hbit] at hassign
  exact hassign

/-- Describing a byte sets zero and negative. -/
theorem keeps_describe (h : Keeps changed flags r.flags) (hzero : .zero ∈ changed)
    (hnegative : .negative ∈ changed) (value : UInt8) :
    Keeps changed flags (r.describe value).flags :=
  (h.assign hzero _).assign hnegative _

theorem keeps_set (h : Keeps changed flags r.flags) (target : Register) (value : UInt8) :
    Keeps changed flags (r.set target value).flags := by
  cases target <;> exact h

/-- A load puts a byte into a register and describes it. -/
theorem keeps_load (r : Registers) (target : Register) (value : UInt8) :
    Keeps [.zero, .negative] r.flags (r.load target value).flags :=
  keeps_describe (keeps_set (Keeps.refl _ _) target value) (by decide) (by decide) value

theorem keeps_carry (r : Registers) (carry : Bool) :
    Keeps [.zero, .negative, .carry] r.flags (r.setFlag .carry carry).flags :=
  (Keeps.refl _ _).assign (by decide) carry

/-- Arithmetic and shifts set the carry and then load `A`. -/
theorem keeps_calculate (r : Registers) (carry : Bool) (value : UInt8) :
    Keeps [.zero, .negative, .carry] r.flags ((r.setFlag .carry carry).load .a value).flags :=
  keeps_describe (keeps_set (keeps_carry r carry) .a value) (by decide) (by decide) value

/-- A compare sets the same flags. -/
theorem keeps_compare (r : Registers) (value : UInt8) :
    Keeps [.zero, .negative, .carry] r.flags (r.compare value).flags :=
  keeps_describe (keeps_carry r _) (by decide) (by decide) _

end Registers

/-! ## Instructions -/

/-- The flags that an instruction sets or clears.  The return from the interrupt, which loads the
whole byte, is not meant here. -/
def Instruction.sets : Instruction → List Flag
  | loadImmediate _ _ | loadAbsolute _ _ | move _ _ | increment _ | decrement _
  | .and | .or | .xor | .not => [.zero, .negative]
  | addRegister _ | addImmediate _ | subtractRegister _ | subtractImmediate _
  | shiftLeft | shiftRight | rotateLeft | rotateRight
  | compareB | compareImmediate _ => [.zero, .negative, .carry]
  | enableInterrupts | disableInterrupts => [.interrupt]
  | _ => []

/-- Two instructions set the interrupt flag, and no other one sets more than the three flags of
arithmetic. -/
theorem Instruction.sets_cases (i : Instruction) :
    i = .enableInterrupts ∨ i = .disableInterrupts ∨ i.sets ⊆ [.zero, .negative, .carry] := by
  have hload : [Flag.zero, .negative] ⊆ [.zero, .negative, .carry] := by decide
  cases i with
  | enableInterrupts => exact Or.inl rfl
  | disableInterrupts => exact Or.inr (Or.inl rfl)
  | _ =>
    refine Or.inr (Or.inr ?_)
    first | exact List.nil_subset _ | exact List.Subset.refl _ | exact hload

theorem Instruction.interrupt_notMem_sets {i : Instruction} (henable : i ≠ .enableInterrupts)
    (hdisable : i ≠ .disableInterrupts) : Flag.interrupt ∉ i.sets := by
  intro h
  rcases i.sets_cases with rfl | rfl | harithmetic
  · exact henable rfl
  · exact hdisable rfl
  · exact absurd (harithmetic h) (by decide)

/-- No instruction sets the reserved flag. -/
theorem Instruction.overflow_notMem_sets (i : Instruction) : Flag.overflow ∉ i.sets := by
  intro h
  rcases i.sets_cases with rfl | rfl | harithmetic
  · exact absurd h (by decide)
  · exact absurd h (by decide)
  · exact absurd (harithmetic h) (by decide)

/-- **What an instruction does to the flags.**  All bits but those of the flags that it sets are as
they were, unless it loads the whole byte. -/
theorem Machine.flags_perform (m : Machine) {i : Instruction} (hloads : i ≠ .returnFromInterrupt) :
    Flags.Keeps i.sets m.registers.flags (m.perform i).registers.flags := by
  cases i with
  | returnFromInterrupt => exact absurd rfl hloads
  | loadImmediate target value => exact Registers.keeps_load _ target _
  | loadAbsolute target address => exact Registers.keeps_load _ target _
  | move target source => exact Registers.keeps_load _ target _
  | increment target => exact Registers.keeps_load _ target _
  | decrement target => exact Registers.keeps_load _ target _
  | and => exact Registers.keeps_load _ .a _
  | or => exact Registers.keeps_load _ .a _
  | xor => exact Registers.keeps_load _ .a _
  | not => exact Registers.keeps_load _ .a _
  | addRegister source => exact Registers.keeps_calculate _ _ _
  | addImmediate value => exact Registers.keeps_calculate _ _ _
  | subtractRegister source => exact Registers.keeps_calculate _ _ _
  | subtractImmediate value => exact Registers.keeps_calculate _ _ _
  | shiftLeft => exact Registers.keeps_calculate _ _ _
  | shiftRight => exact Registers.keeps_calculate _ _ _
  | rotateLeft => exact Registers.keeps_calculate _ _ _
  | rotateRight => exact Registers.keeps_calculate _ _ _
  | compareB => exact Registers.keeps_compare _ _
  | compareImmediate value => exact Registers.keeps_compare _ _
  | enableInterrupts => exact (Flags.Keeps.refl _ _).assign (List.mem_singleton_self _) true
  | disableInterrupts => exact (Flags.Keeps.refl _ _).assign (List.mem_singleton_self _) false
  | jumpIf condition address =>
    simp only [perform]
    split <;> exact Flags.Keeps.refl _ _
  | undefined opcode =>
    simp only [perform]
    split <;> exact Flags.Keeps.refl _ _
  | pop target => exact Registers.keeps_set (Flags.Keeps.refl _ _) target _
  | _ => exact Flags.Keeps.refl _ _

end FantasyComputer
