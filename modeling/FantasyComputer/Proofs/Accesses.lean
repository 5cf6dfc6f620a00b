/-
# FantasyComputer.Proofs.Accesses — what passes between the processor and memory.

An instruction reads some bytes (`reads`) and stores others (`stores`), in that order and with
addresses and values that depend on the registers alone.  `perform_withMemory` says that this is all
that it has to do with memory: in any memory that holds the same bytes at the addresses read, the
instruction does the same, and what it leaves in memory is what its stores make of it.

The interrupt stores four bytes (`memory_takeInterrupt_eq`).  So memory is only ever changed by one
`write` after another, and what holds of every write holds of every instruction.  A write into the
mirror window sets the palette entry of the same number, and any other write sets none
(`setMirrored_of_window`, `setMirrored_of_not_window`).
-/
import FantasyComputer.Proofs.Writes

namespace FantasyComputer

/-- Writes bytes at addresses, one after the other. -/
def Memory.writeAll (m : Memory) (stores : List (UInt16 × UInt8)) : Memory :=
  stores.foldl (fun m store => m.write store.1 store.2) m

/-! ## The mirror window -/

namespace Memory

/-- Behind the offset of the window a write sets the entry. -/
theorem setMirrored_of_window (palette : Palette) {offset : Nat} (value : UInt8)
    (hbelow : mirrorOffset ≤ offset) (hentry : offset - mirrorOffset < paletteSize) :
    setMirrored palette offset value = palette.set (offset - mirrorOffset) value hentry := by
  rw [setMirrored, if_pos hbelow]
  apply Vector.ext
  intro i hi
  rw [Vector.getElem_setIfInBounds, Vector.getElem_set]

/-- Outside the window a write sets no entry. -/
theorem setMirrored_of_not_window (palette : Palette) {offset : Nat} (value : UInt8)
    (h : ¬(mirrorOffset ≤ offset ∧ offset < mirrorOffset + paletteSize)) :
    setMirrored palette offset value = palette := by
  rw [setMirrored]
  split
  · apply Vector.ext
    intro i hi
    rw [Vector.getElem_setIfInBounds, if_neg (by omega)]
  · rfl

end Memory

namespace Machine

variable {m : Machine}

/-! ## Pushes as stores -/

/-- The stores that push bytes, the first of them first. -/
def pushStores (m : Machine) (bytes : List UInt8) : List (UInt16 × UInt8) :=
  (m.slots bytes.length).zip bytes

theorem length_slotsFrom (sp : UInt16) (count : Nat) : (slotsFrom sp count).length = count := by
  induction count generalizing sp with
  | zero => rfl
  | succ count ih => exact congrArg (· + 1) (ih (sp - 1))

theorem map_fst_pushStores (m : Machine) (bytes : List UInt8) :
    (m.pushStores bytes).map Prod.fst = m.slots bytes.length := by
  rw [pushStores]
  apply List.map_fst_zip
  exact (length_slotsFrom _ _).le

theorem memory_pushAll (m : Machine) (bytes : List UInt8) :
    (m.pushAll bytes).memory = m.memory.writeAll (m.pushStores bytes) := by
  induction bytes generalizing m with
  | nil => rfl
  | cons value bytes ih => exact ih (m.pushByte value)

/-! ## Instructions -/

/-- The addresses that an instruction reads, once it has been fetched. -/
def reads (m : Machine) : Instruction → List UInt16
  | .loadAbsolute _ address => [address]
  | .input address => [address]
  | .pop _ => [m.registers.sp + 1]
  | .return => [m.registers.sp + 1, m.registers.sp + 1 + 1]
  | .returnFromInterrupt =>
    [m.registers.sp + 1, m.registers.sp + 1 + 1, m.registers.sp + 1 + 1 + 1]
  | _ => []

/-- The bytes that an instruction stores, and where. -/
def stores (m : Machine) : Instruction → List (UInt16 × UInt8)
  | .store source address => [(address, m.registers.get source)]
  | .output address => [(address, m.registers.a)]
  | .push source => m.pushStores [m.registers.get source]
  | .call _ => m.pushStores [Word.high m.registers.pc, Word.low m.registers.pc]
  | _ => []

/-- The stores go to the addresses written. -/
theorem map_fst_stores (m : Machine) (i : Instruction) :
    (m.stores i).map Prod.fst = m.written i := by
  cases i <;> rfl

/-- The machine with another memory. -/
def withMemory (m : Machine) (memory : Memory) : Machine :=
  { m with memory }

/-- **An instruction is its reads and its stores.**  With the same bytes at the addresses read, it
does the same in any memory, and changes memory by its stores alone. -/
theorem perform_withMemory (m : Machine) (i : Instruction) (memory : Memory)
    (h : ∀ address ∈ m.reads i, memory.read address = m.memory.read address) :
    (m.withMemory memory).perform i
      = (m.perform i).withMemory (memory.writeAll (m.stores i)) := by
  cases i with
  | loadAbsolute r address =>
    have hread := h address (List.mem_singleton_self address)
    exact congrArg (fun v => (m.withMemory memory).onRegisters (·.load r v)) hread
  | input address =>
    have hread := h address (List.mem_singleton_self address)
    exact congrArg (fun v => (m.withMemory memory).onRegisters (·.set .a v)) hread
  | pop r =>
    have hread := h (m.registers.sp + 1) (List.mem_singleton_self _)
    show _ = (m.perform (.pop r)).withMemory memory
    exact congrArg (fun v => (m.withMemory memory).dropByte.onRegisters (·.set r v)) hread
  | «return» =>
    have hlow := h (m.registers.sp + 1) (List.mem_cons_self ..)
    have hhigh := h (m.registers.sp + 1 + 1) (List.mem_cons_of_mem _ (List.mem_cons_self ..))
    have hword : (m.withMemory memory).topWord = m.topWord :=
      congrArg₂ Word.ofHalves hlow hhigh
    show (m.withMemory memory).dropWord.goto (m.withMemory memory).topWord
      = (m.dropWord.goto m.topWord).withMemory memory
    rw [hword]
    rfl
  | returnFromInterrupt =>
    have hbyte : (m.withMemory memory).topByte = m.topByte :=
      h (m.registers.sp + 1) (List.mem_cons_self ..)
    have hlow := h (m.registers.sp + 1 + 1) (List.mem_cons_of_mem _ (List.mem_cons_self ..))
    have hhigh := h (m.registers.sp + 1 + 1 + 1)
      (List.mem_cons_of_mem _ (List.mem_cons_of_mem _ (List.mem_cons_self ..)))
    have hword : (m.withMemory memory).dropByte.topWord = m.dropByte.topWord :=
      congrArg₂ Word.ofHalves hlow hhigh
    show ((m.withMemory memory).dropByte.onRegisters
        ({ · with flags := (m.withMemory memory).topByte })).dropWord.goto
        (m.withMemory memory).dropByte.topWord
      = ((m.dropByte.onRegisters ({ · with flags := m.topByte })).dropWord.goto
          m.dropByte.topWord).withMemory memory
    rw [hbyte, hword]
    rfl
  | jumpIf condition address =>
    show (if m.registers.satisfies condition then (m.withMemory memory).goto address
      else m.withMemory memory) = (if m.registers.satisfies condition then m.goto address
        else m).withMemory memory
    split <;> rfl
  | undefined opcode =>
    show (if m.debug then (m.withMemory memory).note _ else m.withMemory memory)
      = (if m.debug then m.note _ else m).withMemory memory
    split <;> rfl
  | _ => rfl

theorem memory_perform (m : Machine) (i : Instruction) :
    (m.perform i).memory = m.memory.writeAll (m.stores i) :=
  congrArg Machine.memory (perform_withMemory m i m.memory fun _ _ => rfl)

/-! ## The interrupt -/

/-- The bytes that the interrupt stores: the status without its pending bit, and three bytes on the
stack. -/
def interruptStores (m : Machine) : List (UInt16 × UInt8) :=
  (interruptStatus, m.memory.read interruptStatus &&& ~~~timerPending)
    :: m.pushStores [Word.high m.registers.pc, Word.low m.registers.pc, m.registers.flags]

theorem memory_takeInterrupt_eq (m : Machine) :
    m.takeInterrupt.memory = m.memory.writeAll m.interruptStores := by
  rw [memory_takeInterrupt, memory_pushAll]
  rfl

end Machine

end FantasyComputer
