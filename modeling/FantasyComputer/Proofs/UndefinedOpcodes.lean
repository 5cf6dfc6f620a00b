/-
# FantasyComputer.Proofs.UndefinedOpcodes — bytes without meaning, against a `NOP`.

A byte that means nothing is passed over: the program counter moves on by one, a debugger is told, and
the price is paid (`step_of_undefined`).  The decoder and the price list are two tables, and they do
not draw the same line.  Two bytes behind the jumps and eight behind the stack instructions mean
nothing and are priced like their neighbours (`Overpriced`); all the others cost the one cycle of a
`NOP` (`cost_of_undefined`).

So a byte without meaning may stand for a `NOP`, and a `NOP` for it, unless it is overpriced
(`step_patch_nop_iff`).  A program in which the one is replaced by the other runs on at the same
cycles, with its interrupts and the ends of its frames at the same instructions, as long as it does not
read the byte; behind an overpriced one the clock is two cycles ahead.
-/
import FantasyComputer.Proofs.PatchedPrograms

namespace FantasyComputer

/-! ## The two tables -/

/-- The byte of an undefined instruction is its opcode, and no operand follows. -/
theorem encodingOf_of_undefined {x y z opcode : UInt8} (h : decode x y z = .undefined opcode) :
    opcode = x ∧ encodingOf x = .bare (.undefined x) := by
  unfold decode at h
  generalize hencoding : encodingOf x = encoding at h ⊢
  unfold encodingOf at hencoding
  split at hencoding
  all_goals
    subst hencoding
    cases h
  -- the last row of the table
  exact ⟨rfl, rfl⟩

/-- The undefined opcodes that are priced like their neighbours: two behind the jumps and eight behind
the stack instructions. -/
def Overpriced (opcode : UInt8) : Prop :=
  0x47 ≤ opcode ∧ opcode ≤ 0x48 ∨ 0x68 ≤ opcode ∧ opcode ≤ 0x6F

instance (opcode : UInt8) : Decidable (Overpriced opcode) :=
  inferInstanceAs (Decidable (_ ∨ _))

theorem cost_of_undefined {opcode : UInt8} (h : decode opcode 0 0 = .undefined opcode) :
    cost opcode = if Overpriced opcode then 3 else 1 := by
  -- the price is looked up first, since most bytes pass there
  have hbyte : ∀ n : Fin 256, (cost (UInt8.ofFin n) = if Overpriced (UInt8.ofFin n) then 3 else 1)
      ∨ decode (UInt8.ofFin n) 0 0 ≠ .undefined (UInt8.ofFin n) := by
    decide +kernel
  exact (hbyte opcode.toFin).resolve_right (not_not.mpr h)

namespace Machine

variable {m : Machine} {opcode : UInt8}

/-- What the two tables say of the byte at the program counter, when it means nothing. -/
structure Meaningless (m : Machine) (opcode : UInt8) : Prop where
  byte : m.opcode = opcode
  alone : lengthOf opcode = 1
  nothing : decode opcode 0 0 = .undefined opcode
  price : cost opcode = if Overpriced opcode then 3 else 1

theorem meaningless_of_undefined (h : m.nextInstruction = .undefined opcode) :
    Meaningless m opcode := by
  obtain ⟨rfl, hencoding⟩ := encodingOf_of_undefined h
  have hnothing : decode m.opcode 0 0 = .undefined m.opcode :=
    congrArg (Encoding.complete 0 0) hencoding
  exact ⟨rfl, congrArg Encoding.length hencoding, hnothing, cost_of_undefined hnothing⟩

namespace Meaningless

theorem opcode_ne_zero (h : Meaningless m opcode) : m.opcode ≠ 0 := by
  intro hzero
  have hnop := h.nothing
  rw [← h.byte, hzero] at hnop
  exact Instruction.noConfusion hnop

theorem idles (h : Meaningless m opcode) (hprice : ¬Overpriced opcode) : Idles opcode :=
  ⟨h.alone, Or.inr h.nothing, h.price.trans (if_neg hprice)⟩

end Meaningless

theorem idles_nop : Idles 0 :=
  ⟨rfl, Or.inl rfl, rfl⟩

/-! ## One step -/

/-- An undefined opcode is passed over, and told to a debugger. -/
theorem step_of_undefined (h : m.nextInstruction = .undefined opcode) :
    m.step = ((if m.debug then m.note (.undefinedExecuted opcode m.registers.pc) else m).goto
      (m.registers.pc + 1)).charge (cost opcode) := by
  have hbyte := meaningless_of_undefined h
  have hback : m.registers.pc + 1 - 1 = m.registers.pc := UInt16.add_sub_cancel _ _
  unfold step execute nextCost
  rw [h, hbyte.byte, hbyte.alone]
  show (if m.debug then _ else _ : Machine).charge _ = _
  split
  · show ((m.goto (m.registers.pc + 1)).note
        (.undefinedExecuted opcode (m.registers.pc + 1 - 1))).charge (cost opcode) = _
    rw [hback]
    rfl
  · rfl

/-- A `NOP` in its place is passed over at the price of a cycle. -/
theorem step_patch_nop (h : m.nextInstruction = .undefined opcode) :
    (m.patch m.registers.pc 0).step
      = ((m.patch m.registers.pc 0).goto (m.registers.pc + 1)).charge 1 := by
  have hnop : (m.patch m.registers.pc 0).opcode = 0 :=
    opcode_patch (meaningless_of_undefined h).opcode_ne_zero 0
  unfold step execute nextCost nextInstruction
  rw [hnop]
  rfl

theorem charge_charge (m : Machine) (price surcharge : Nat) :
    (m.charge price).charge surcharge = m.charge (price + surcharge) := by
  unfold charge
  rw [UInt64.ofNat_add, UInt32.ofNat_add, UInt64.add_assoc, UInt32.add_assoc]

theorem charge_zero (m : Machine) : m.charge 0 = m := by
  show { m with cycles := m.cycles + 0, framePosition := m.framePosition + 0 } = m
  rw [UInt64.add_zero, UInt32.add_zero]

/-- What the undefined opcode costs more than the `NOP` is all that tells them apart. -/
theorem silent_step_patch (h : m.nextInstruction = .undefined opcode) (surcharge : Nat)
    (hprice : cost opcode = 1 + surcharge) :
    (m.step.patch m.registers.pc 0).silent
      = ((m.patch m.registers.pc 0).step.charge surcharge).silent := by
  rw [step_of_undefined h, step_patch_nop h, charge_charge, hprice]
  split <;> rfl

/-- **An undefined opcode is a `NOP` in exactly the cases in which it is not overpriced.** -/
theorem step_patch_nop_iff (h : m.nextInstruction = .undefined opcode) :
    (m.patch m.registers.pc 0).step.silent = (m.step.patch m.registers.pc 0).silent
      ↔ ¬Overpriced opcode := by
  have hprice := (meaningless_of_undefined h).price
  by_cases hover : Overpriced opcode
  · rw [if_pos hover] at hprice
    rw [silent_step_patch h 2 hprice]
    refine iff_of_false (fun hsame => ?_) (not_not.mpr hover)
    have hcycles := congrArg Machine.cycles hsame
    change (m.patch m.registers.pc 0).step.cycles
      = (m.patch m.registers.pc 0).step.cycles + 2 at hcycles
    exact absurd hcycles (by simp)
  · rw [if_neg hover] at hprice
    rw [silent_step_patch h 0 hprice, charge_zero]
    exact iff_of_true rfl hover

/-! ## The run that follows -/

/-- A machine and the same one with a `NOP` at its program counter are twins. -/
theorem twins_patch_nop (h : m.nextInstruction = .undefined opcode) (hprice : ¬Overpriced opcode) :
    Twins m.registers.pc m (m.patch m.registers.pc 0) where
  memory := by
    have hbyte := meaningless_of_undefined h
    have hread : m.memory.read m.registers.pc = opcode := by
      rw [← hbyte.byte, Machine.opcode, fetch, UInt16.add_zero]
    exact ⟨0, rfl, Or.inr ⟨hread ▸ hbyte.idles hprice, idles_nop⟩⟩
  alike := ⟨rfl, rfl, rfl, rfl, rfl⟩
  breakCount := rfl
  host := ⟨rfl, rfl, rfl, rfl, rfl, rfl⟩
  screen _ := rfl

/-- Executing a byte is no other use of it, unless the byte is the interrupt status. -/
theorem overlooks_of_undefined (h : m.nextInstruction = .undefined opcode)
    (hstatus : m.registers.pc ≠ interruptStatus) : m.Overlooks m.registers.pc where
  operands distance hbelow habove := by
    rw [(meaningless_of_undefined h).byte, (meaningless_of_undefined h).alone] at hbelow
    exact absurd habove (by grind)
  data := by
    rw [h]
    exact List.not_mem_nil
  status _ := hstatus

/-- What an undefined opcode does, against the `NOP`. -/
structure UndefinedStep (m : Machine) (opcode : UInt8) : Prop where
  /-- The program counter moves on by one, a debugger is told, and the price is paid. -/
  step : m.step
    = ((if m.debug then m.note (.undefinedExecuted opcode m.registers.pc) else m).goto
        (m.registers.pc + 1)).charge (cost opcode)
  price : cost opcode = if Overpriced opcode then 3 else 1
  /-- The `NOP` does the same for one cycle. -/
  nop : (m.patch m.registers.pc 0).step
    = ((m.patch m.registers.pc 0).goto (m.registers.pc + 1)).charge 1
  /-- Up to the byte itself and to what a debugger is told, the machines are the same unless the
  opcode is overpriced. -/
  same_iff : (m.patch m.registers.pc 0).step.silent = (m.step.patch m.registers.pc 0).silent
    ↔ ¬Overpriced opcode
  /-- Behind an overpriced opcode both counters of cycles are two ahead, and nothing else differs. -/
  ahead : Overpriced opcode → (m.step.patch m.registers.pc 0).silent
    = ((m.patch m.registers.pc 0).step.charge 2).silent
  /-- Otherwise the runs stay together, instruction by instruction, as long as they do not read the
  byte: the same registers, the same memory, the same cycles, the same place in the same frame. -/
  run : ¬Overpriced opcode → ∀ n, (∀ i < n, (stepOne^[i] m).Overlooks m.registers.pc) →
    Twins m.registers.pc (stepOne^[n] m) (stepOne^[n] (m.patch m.registers.pc 0))

/-- **An undefined opcode against the `NOP`**, in every state of the machine. -/
theorem undefinedStep (h : m.nextInstruction = .undefined opcode) : UndefinedStep m opcode where
  step := step_of_undefined h
  price := (meaningless_of_undefined h).price
  nop := step_patch_nop h
  same_iff := step_patch_nop_iff h
  ahead hover := silent_step_patch h 2 ((meaningless_of_undefined h).price.trans (if_pos hover))
  run hprice _ := (twins_patch_nop h hprice).stepOnes

/-! ## A machine in front of a byte -/

/-- The machine at power-on with a cartridge whose program is one byte. -/
def facing (opcode : UInt8) : Machine :=
  Machine.initial.install { entry := 0xE000, declaredSize := 1, program := [opcode] }

theorem opcode_facing (opcode : UInt8) : (facing opcode).opcode = opcode := by
  have hlocate : locate (0xE000 + 0) = .rom ⟨0, by decide⟩ := by decide
  show (facing opcode).memory.read (0xE000 + 0) = opcode
  rw [Memory.read_of_rom hlocate]
  show (overlay [opcode].toArray (Vector.replicate romSize 0))[0] = opcode
  rw [getElem_overlay]
  rfl

theorem nextInstruction_facing {opcode : UInt8} (h : lengthOf opcode = 1) :
    (facing opcode).nextInstruction = decode opcode 0 0 := by
  unfold nextInstruction
  rw [opcode_facing, decode_of_alone h]

/-- `0x90` is passed over like a `NOP`, and the run goes on alike. -/
theorem undefinedStep_facing :
    (facing 0x90).nextInstruction = .undefined 0x90
      ∧ (facing 0x90).step.cycles = 1
      ∧ Twins 0xE000 (facing 0x90).stepOne ((facing 0x90).patch 0xE000 0).stepOne := by
  have hundefined : (facing 0x90).nextInstruction = .undefined 0x90 := nextInstruction_facing rfl
  have hstep := undefinedStep hundefined
  refine ⟨hundefined, ?_, ?_⟩
  · rw [hstep.step]
    rfl
  · have hfirst := overlooks_of_undefined hundefined (show (0xE000 : UInt16) ≠ 0xC001 by decide)
    have hrun := hstep.run (by decide) 1 fun i hi => by
      rw [Nat.lt_one_iff.mp hi]
      exact hfirst
    rwa [Function.iterate_one] at hrun

/-- `0x47` means nothing and costs three cycles, where a `NOP` costs one. -/
theorem overpriced_facing :
    (facing 0x47).nextInstruction = .undefined 0x47
      ∧ (facing 0x47).step.cycles = 3
      ∧ ((facing 0x47).patch 0xE000 0).step.cycles = 1
      ∧ ((facing 0x47).patch 0xE000 0).step.silent ≠ ((facing 0x47).step.patch 0xE000 0).silent := by
  have hundefined : (facing 0x47).nextInstruction = .undefined 0x47 := nextInstruction_facing rfl
  refine ⟨hundefined, ?_, ?_, ?_⟩
  · rw [step_of_undefined hundefined]
    rfl
  · have hnop := step_patch_nop hundefined
    change ((facing 0x47).patch 0xE000 0).step = _ at hnop
    rw [hnop]
    rfl
  · exact mt (step_patch_nop_iff hundefined).mp (not_not.mpr (by decide))

end Machine

end FantasyComputer
