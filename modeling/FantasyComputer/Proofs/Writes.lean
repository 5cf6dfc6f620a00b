/-
# FantasyComputer.Proofs.Writes — which bytes an instruction and an interrupt write.

A write is seen at its own address, where memory can be written at all, and at no other
(`read_write_self`, `read_write_of_ne`).

Everything that goes onto the stack goes there byte by byte.  `pushAll` pushes any number of bytes;
`slots` are the addresses that it uses, and `carries_pushAll` says that they hold the bytes
afterwards.  A call pushes two bytes in this way and an interrupt three, so the layouts of the stack
are one definition with different bytes.

`written` lists the addresses that an instruction writes.  `read_perform` is the frame condition of
the whole instruction set: at any other address an instruction leaves what was there.
`read_takeInterrupt` says the same of the interrupt, which writes the status byte and three slots.
-/
import FantasyComputer.Proofs.Frames

namespace FantasyComputer

namespace Memory

/-! ## One write -/

/-- Two addresses that lead to the same byte are equal. -/
theorem eq_of_locate_eq {address other : UInt16} (h : locate address = locate other)
    (hgap : locate address ≠ .gap) : address = other := by
  apply UInt16.toNat_inj.mp
  rw [locate_eq address, locate_eq other] at h
  rw [locate_eq] at hgap
  split_ifs at h hgap <;> simp at h hgap <;> omega

theorem read_write_of_ne (m : Memory) {address other : UInt16} (value : UInt8)
    (hne : other ≠ address) : (m.write address value).read other = m.read other := by
  have hlocation : locate address = locate other → locate address = .gap := by
    intro h
    by_contra hgap
    exact hne (eq_of_locate_eq h hgap).symm
  unfold write read
  cases haddress : locate address with
  | gap => rfl
  | rom i => rfl
  | _ i =>
    rw [haddress] at hlocation
    cases hother : locate other
    all_goals first | rfl | skip
    -- both addresses lead into the same region
    refine Vector.getElem_set_ne i.isLt _ fun hindex => ?_
    exact absurd (hlocation (by rw [hother, Fin.ext hindex])) (by nofun)

/-- Below the gap every byte can be written. -/
theorem read_write_self (m : Memory) {address : UInt16} (value : UInt8)
    (h : address.toNat < 0xC100) : (m.write address value).read address = value := by
  have hgap : locate address ≠ .gap := by
    rw [locate_eq]
    split_ifs <;> exact Location.noConfusion
  have hrom : ∀ i, locate address ≠ .rom i := by
    intro i
    rw [locate_eq]
    split_ifs <;> exact Location.noConfusion
  unfold write read
  cases haddress : locate address with
  | gap => exact absurd haddress hgap
  | rom i => exact absurd haddress (hrom i)
  | _ i => exact Vector.getElem_set_self i.isLt

end Memory

namespace Machine

variable {m : Machine}

/-! ## Bytes on the stack -/

/-- The addresses that a number of pushes writes to, from a stack pointer downwards. -/
def slotsFrom : UInt16 → Nat → List UInt16
  | _, 0 => []
  | sp, count + 1 => sp :: slotsFrom (sp - 1) count

/-- The addresses that the next pushes write to. -/
def slots (m : Machine) (count : Nat) : List UInt16 :=
  slotsFrom m.registers.sp count

/-- Pushes bytes, the first of them first. -/
def pushAll (m : Machine) (bytes : List UInt8) : Machine :=
  bytes.foldl pushByte m

/-- Whether a memory holds bytes from an address downwards. -/
def Carries (memory : Memory) : UInt16 → List UInt8 → Prop
  | _, [] => True
  | sp, value :: bytes => memory.read sp = value ∧ Carries memory (sp - 1) bytes

/-- Pushes that have room lower the stack pointer as a number. -/
theorem toNat_sub_ofNat {sp : UInt16} {count : Nat} (hroom : count ≤ sp.toNat) :
    (sp - UInt16.ofNat count).toNat = sp.toNat - count := by
  have hsmall : (UInt16.ofNat count).toNat = count :=
    UInt16.toNat_ofNat_of_lt' (Nat.lt_of_le_of_lt hroom sp.toNat_lt)
  rw [UInt16.toNat_sub_of_le _ _ (UInt16.le_iff_toNat_le.mpr (by rwa [hsmall])), hsmall]

/-- Where the stack pointer does not wrap, the slots lie right above the place that it moves to. -/
theorem toNat_of_mem_slotsFrom {sp address : UInt16} {count : Nat} (hroom : count ≤ sp.toNat)
    (h : address ∈ slotsFrom sp count) :
    sp.toNat - count < address.toNat ∧ address.toNat ≤ sp.toNat := by
  induction count generalizing sp with
  | zero => exact absurd h List.not_mem_nil
  | succ count ih =>
    rcases List.mem_cons.mp h with rfl | hrest
    · omega
    · have hbelow := toNat_sub_ofNat (show 1 ≤ sp.toNat by omega)
      change (sp - 1).toNat = sp.toNat - 1 at hbelow
      have hslot := ih (by omega) hrest
      omega

/-- Pushing leaves alone what lies outside its slots. -/
theorem read_pushAll (m : Machine) (bytes : List UInt8) {address : UInt16}
    (h : address ∉ m.slots bytes.length) :
    (m.pushAll bytes).memory.read address = m.memory.read address := by
  induction bytes generalizing m with
  | nil => rfl
  | cons value bytes ih =>
    have hne : address ≠ m.registers.sp := fun heq => h (List.mem_cons.mpr (Or.inl heq))
    have hrest : address ∉ (m.pushByte value).slots bytes.length :=
      fun hmem => h (List.mem_cons.mpr (Or.inr hmem))
    show ((m.pushByte value).pushAll bytes).memory.read address = _
    rw [ih (m.pushByte value) hrest]
    exact Memory.read_write_of_ne _ _ hne

/-- What is pushed into RAM is there. -/
theorem carries_pushAll (m : Machine) (bytes : List UInt8)
    (hroom : bytes.length ≤ m.registers.sp.toNat) (hram : m.registers.sp.toNat < ramSize) :
    Carries (m.pushAll bytes).memory m.registers.sp bytes := by
  induction bytes generalizing m with
  | nil => trivial
  | cons value bytes ih =>
    rw [List.length_cons] at hroom
    have hbelow := toNat_sub_ofNat (show 1 ≤ m.registers.sp.toNat by omega)
    change (m.registers.sp - 1).toNat = m.registers.sp.toNat - 1 at hbelow
    have hlater : m.registers.sp ∉ (m.pushByte value).slots bytes.length := by
      intro hmem
      have hslot := toNat_of_mem_slotsFrom
        (show bytes.length ≤ (m.registers.sp - 1).toNat by omega) hmem
      omega
    have hfirst : ((m.pushByte value).pushAll bytes).memory.read m.registers.sp = value := by
      rw [read_pushAll _ _ hlater]
      exact Memory.read_write_self _ _ (Nat.lt_of_lt_of_le hram (by decide))
    have hsp : (m.pushByte value).registers.sp.toNat = m.registers.sp.toNat - 1 := hbelow
    exact ⟨hfirst, ih (m.pushByte value) (by omega) (by omega)⟩

/-- Bytes stay where they are as long as nothing is written to their slots. -/
theorem Carries.of_read_eq {memory memory' : Memory} {sp : UInt16} {bytes : List UInt8}
    (h : Carries memory sp bytes)
    (hread : ∀ address ∈ slotsFrom sp bytes.length, memory'.read address = memory.read address) :
    Carries memory' sp bytes := by
  induction bytes generalizing sp with
  | nil => trivial
  | cons value bytes ih =>
    refine ⟨(hread sp (List.mem_cons_self ..)).trans h.1, ih h.2 fun address hmem => ?_⟩
    exact hread address (List.mem_cons_of_mem _ hmem)

/-! ## What an instruction writes -/

/-- The addresses that an instruction writes. -/
def written (m : Machine) : Instruction → List UInt16
  | .store _ address => [address]
  | .output address => [address]
  | .push _ => m.slots 1
  | .call _ => m.slots 2
  | _ => []

/-- **Frame condition.**  An instruction leaves alone every byte that it does not write. -/
theorem read_perform (m : Machine) (i : Instruction) {address : UInt16}
    (h : address ∉ m.written i) :
    (m.perform i).memory.read address = m.memory.read address := by
  cases i with
  | store source target => exact Memory.read_write_of_ne _ _ (List.ne_of_not_mem_cons h)
  | output target => exact Memory.read_write_of_ne _ _ (List.ne_of_not_mem_cons h)
  | push source => exact read_pushAll m [_] h
  | call target => exact read_pushAll m [_, _] h
  | jumpIf condition target => simp only [perform]; split <;> rfl
  | undefined opcode => simp only [perform]; split <;> rfl
  | _ => rfl

/-- The memory after an interrupt: the pending bit is cleared, then three bytes are pushed. -/
theorem memory_takeInterrupt (m : Machine) :
    m.takeInterrupt.memory
      = ((m.writeByte interruptStatus (m.memory.read interruptStatus &&& ~~~timerPending)).pushAll
          [Word.high m.registers.pc, Word.low m.registers.pc, m.registers.flags]).memory := by
  simp only [takeInterrupt]
  split <;> rfl

theorem registers_takeInterrupt (m : Machine) :
    m.takeInterrupt.registers = { m.registers with
      sp := m.registers.sp - 1 - 1 - 1
      flags := Flags.assign m.registers.flags Flag.interrupt.bit false
      pc := interruptVector } := by
  simp only [takeInterrupt]
  split <;> rfl

/-- An interrupt leaves alone every byte but the status byte and its three slots. -/
theorem read_takeInterrupt (m : Machine) {address : UInt16} (hstatus : address ≠ interruptStatus)
    (h : address ∉ m.slots 3) : m.takeInterrupt.memory.read address = m.memory.read address := by
  rw [memory_takeInterrupt, read_pushAll _ _ h]
  exact Memory.read_write_of_ne _ _ hstatus

/-! ## The pending bit of the timer -/

/-- Whether a request of the timer is pending. -/
def pending (m : Machine) : Bool :=
  m.memory.read interruptStatus &&& timerPending != 0

theorem interruptReady_eq (m : Machine) :
    m.interruptReady = (m.registers.flag .interrupt && m.pending) := rfl

theorem pending_of_read_eq {m m' : Machine}
    (h : m'.memory.read interruptStatus = m.memory.read interruptStatus) :
    m'.pending = m.pending := by
  rw [pending, pending, h]

theorem raised_and_cleared (status : Fin 256) :
    (UInt8.ofFin status ||| timerPending) &&& timerPending ≠ 0
      ∧ (UInt8.ofFin status &&& ~~~timerPending) &&& timerPending = 0 := by
  revert status
  decide +kernel

/-- A request is pending once it is made. -/
theorem pending_requestInterrupt (m : Machine) : m.requestInterrupt.pending = true := by
  show (m.memory.write interruptStatus _).read interruptStatus &&& timerPending != 0
  rw [Memory.read_write_self _ _ (by decide), bne_iff_ne]
  exact (raised_and_cleared (m.memory.read interruptStatus).toFin).1

/-- An interrupt that does not push onto the status byte leaves nothing pending. -/
theorem pending_takeInterrupt (m : Machine) (h : interruptStatus ∉ m.slots 3) :
    m.takeInterrupt.pending = false := by
  show (m.takeInterrupt.memory.read interruptStatus &&& timerPending != 0) = false
  rw [memory_takeInterrupt, read_pushAll _ _ h]
  show ((m.memory.write interruptStatus _).read interruptStatus &&& timerPending != 0) = false
  rw [Memory.read_write_self _ _ (by decide), bne_eq_false_iff_eq]
  exact (raised_and_cleared (m.memory.read interruptStatus).toFin).2

end Machine

end FantasyComputer
