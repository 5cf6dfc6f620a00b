/-
# FantasyComputer.Proofs.PatchedPrograms — machines that differ in one byte.

`patch` replaces the byte at an address from outside, in ROM as well, and nothing besides: a palette
entry stays when its mirror byte is replaced.  What the two memories have in common goes through every
write.  A write elsewhere leaves them apart in that byte alone (`write_patch_of_ne`), and a write to
the byte makes them one (`write_patch_self`).

`Twins` are machines that differ in one byte where it makes no difference to execute it: both bytes
are idle, which is to do nothing for one cycle.  `Overlooks` says that the next instruction has no
other use for the byte.  It is then no matter which of the two is there: `Twins.stepOne` is the step
and `Twins.stepOnes` the run.
-/
import FantasyComputer.Proofs.Halting
import FantasyComputer.Proofs.Accesses

namespace FantasyComputer

/-! ## One byte replaced -/

namespace Memory

/-- The memory with another byte at an address; in the gap there is none to replace. -/
def patch (m : Memory) (address : UInt16) (value : UInt8) : Memory :=
  match locate address with
  | .rom i => { m with rom := m.rom.set i value i.isLt }
  | .ram i => { m with ram := m.ram.set i value i.isLt }
  | .video i => { m with video := m.video.set i value i.isLt }
  | .io i => { m with io := m.io.set i value i.isLt }
  | .gap => m

variable {address other : UInt16}

/-- Addresses of different bytes lead to different places. -/
theorem locate_ne_of_ne (hne : other ≠ address) (hgap : locate address ≠ .gap) :
    locate other ≠ locate address :=
  fun h => hne (eq_of_locate_eq h.symm hgap).symm

theorem read_patch_self (m : Memory) (value : UInt8) (h : locate address ≠ .gap) :
    (m.patch address value).read address = value := by
  unfold patch read
  cases haddress : locate address with
  | gap => exact absurd haddress h
  | _ i => exact Vector.getElem_set_self i.isLt

theorem read_patch_of_ne (m : Memory) (value : UInt8) (hne : other ≠ address) :
    (m.patch address value).read other = m.read other := by
  have hplaces := locate_ne_of_ne hne
  unfold patch read
  cases haddress : locate address with
  | gap => rfl
  | _ i =>
    rw [haddress] at hplaces
    cases hother : locate other
    all_goals first | rfl | skip
    -- both addresses lead into the same region
    refine Vector.getElem_set_ne i.isLt _ fun hindex => ?_
    exact hplaces Location.noConfusion (by rw [hother, Fin.ext hindex])

/-- The byte that is there anyway. -/
theorem patch_read (m : Memory) (address : UInt16) : m.patch address (m.read address) = m := by
  unfold patch read
  cases locate address with
  | gap => rfl
  | ram i => exact congrArg (fun ram => { m with ram }) (Vector.set_getElem_self i.isLt)
  | video i => exact congrArg (fun video => { m with video }) (Vector.set_getElem_self i.isLt)
  | io i => exact congrArg (fun io => { m with io }) (Vector.set_getElem_self i.isLt)
  | rom i => exact congrArg (fun rom => { m with rom }) (Vector.set_getElem_self i.isLt)

/-- Of the address space, the picture shows video RAM alone. -/
theorem video_patch (m : Memory) (value : UInt8) (h : ∀ i, locate address ≠ .video i) :
    (m.patch address value).video = m.video := by
  unfold patch
  cases haddress : locate address with
  | video i => exact absurd haddress (h i)
  | _ => rfl

theorem palette_patch (m : Memory) (address : UInt16) (value : UInt8) :
    (m.patch address value).palette = m.palette := by
  unfold patch
  split <;> rfl

/-- A write elsewhere goes through. -/
theorem write_patch_of_ne (m : Memory) (value old : UInt8) (hne : other ≠ address) :
    (m.patch address old).write other value = (m.write other value).patch address old := by
  have hplaces := locate_ne_of_ne hne
  unfold patch write
  cases haddress : locate address with
  | gap => cases locate other <;> rfl
  | _ i =>
    rw [haddress] at hplaces
    cases hother : locate other
    all_goals first | rfl | skip
    -- both addresses lead into the same region
    all_goals
      rename_i j
      have hindex : i.val ≠ j.val := fun h =>
        hplaces Location.noConfusion (by rw [hother, Fin.ext h])
      simp only [Vector.set_comm _ _ hindex]

/-- A write to the byte itself leaves nothing of what was there, or it vanishes. -/
theorem write_patch_self (m : Memory) (address : UInt16) (value old : UInt8) :
    (m.patch address old).write address value = m.write address value
      ∨ ∀ memory : Memory, memory.write address value = memory := by
  unfold patch write
  cases locate address with
  | gap => exact Or.inr fun _ => rfl
  | rom i => exact Or.inr fun _ => rfl
  | _ i =>
    refine Or.inl ?_
    simp only [Vector.set_set]

end Memory

/-! ## Bytes that do nothing -/

/-- Whether a byte, executed, stands alone, does nothing and takes one cycle. -/
structure Idles (opcode : UInt8) : Prop where
  alone : lengthOf opcode = 1
  nothing : decode opcode 0 0 = .nop ∨ decode opcode 0 0 = .undefined opcode
  cycle : cost opcode = 1

/-- An instruction does not depend on the bytes behind it. -/
theorem decode_congr {opcode first second first' second' : UInt8}
    (hfirst : 1 < lengthOf opcode → first = first')
    (hsecond : 2 < lengthOf opcode → second = second') :
    decode opcode first second = decode opcode first' second' := by
  unfold lengthOf at hfirst hsecond
  unfold decode
  cases hencoding : encodingOf opcode with
  | bare i => rfl
  | withByte i =>
    rw [hencoding] at hfirst
    exact congrArg i (hfirst (show (1 : UInt8) < 2 by decide))
  | withWord i =>
    rw [hencoding] at hfirst hsecond
    rw [hfirst (show (1 : UInt8) < 3 by decide), hsecond (show (2 : UInt8) < 3 by decide)]

theorem decode_of_alone {opcode : UInt8} (h : lengthOf opcode = 1) (first second : UInt8) :
    decode opcode first second = decode opcode 0 0 := by
  apply decode_congr <;> rw [h] <;> exact fun hlength => absurd hlength (by decide)

/-- Two memories that differ at one address at most, and there in idle bytes only. -/
def Memory.Twins (address : UInt16) (m m' : Memory) : Prop :=
  ∃ value, m' = m.patch address value
    ∧ (value = m.read address ∨ Idles (m.read address) ∧ Idles value)

namespace Memory.Twins

variable {m m' : Memory} {address other : UInt16}

theorem refl (address : UInt16) (m : Memory) : m.Twins address m :=
  ⟨m.read address, (m.patch_read address).symm, Or.inl rfl⟩

theorem read_of_ne (h : m.Twins address m') (hne : other ≠ address) :
    m'.read other = m.read other := by
  obtain ⟨value, rfl, -⟩ := h
  exact m.read_patch_of_ne value hne

theorem palette (h : m.Twins address m') : m'.palette = m.palette := by
  obtain ⟨value, rfl, -⟩ := h
  exact m.palette_patch address value

/-- Memories that do differ hold idle bytes at the address, so it is not in the gap. -/
theorem eq_or_idles (h : m.Twins address m') :
    m' = m ∨ Idles (m.read address) ∧ Idles (m'.read address) := by
  obtain ⟨value, rfl, rfl | ⟨hold, hnew⟩⟩ := h
  · exact Or.inl (m.patch_read address)
  · by_cases hgap : locate address = .gap
    · left
      unfold patch
      rw [hgap]
    · right
      rw [m.read_patch_self value hgap]
      exact ⟨hold, hnew⟩

theorem write (h : m.Twins address m') (other : UInt16) (value : UInt8) :
    (m.write other value).Twins address (m'.write other value) := by
  obtain ⟨old, rfl, hbyte⟩ := h
  by_cases hne : other = address
  · subst hne
    rcases m.write_patch_self other value old with hover | hvanishes
    · rw [hover]
      exact refl other _
    · rw [hvanishes, hvanishes]
      exact ⟨old, rfl, hbyte⟩
  · refine ⟨old, m.write_patch_of_ne value old hne, ?_⟩
    rwa [m.read_write_of_ne value (Ne.symm hne)]

theorem writeAll (h : m.Twins address m') (stores : List (UInt16 × UInt8)) :
    (m.writeAll stores).Twins address (m'.writeAll stores) := by
  induction stores generalizing m m' with
  | nil => exact h
  | cons store stores ih => exact ih (h.write store.1 store.2)

end Memory.Twins

/-! ## Machines that differ in an idle byte -/

namespace Machine

variable {m m' : Machine} {address : UInt16}

/-- The machine with another byte at an address. -/
def patch (m : Machine) (address : UInt16) (value : UInt8) : Machine :=
  m.withMemory (m.memory.patch address value)

/-- In the gap there is no opcode but the `NOP`. -/
theorem opcode_patch (h : m.opcode ≠ 0) (value : UInt8) :
    (m.patch m.registers.pc value).opcode = value := by
  have hgap : locate m.registers.pc ≠ .gap := by
    intro hgap
    apply h
    rw [opcode, fetch, UInt16.add_zero]
    exact Memory.read_of_gap hgap
  show (m.memory.patch m.registers.pc value).read (m.registers.pc + 0) = value
  rw [UInt16.add_zero]
  exact m.memory.read_patch_self value hgap

theorem fetch_patch (m : Machine) (value : UInt8) {distance : UInt16} (h : distance ≠ 0) :
    (m.patch m.registers.pc value).fetch distance = m.fetch distance := by
  apply m.memory.read_patch_of_ne value
  intro heq
  exact h (UInt16.add_eq_left.mp heq)

/-- Two machines that differ in a byte of memory at most, where both have idle ones, and in their
journals.  The pictures may differ where the byte is a pixel. -/
structure Twins (address : UInt16) (m m' : Machine) : Prop where
  memory : m.memory.Twins address m'.memory
  alike : Alike (m.withMemory m'.memory) m'
  breakCount : m'.breakCount = m.breakCount
  host : SameHost { m' with screen := m.screen } m
  screen : (∀ i, locate address ≠ .video i) → m'.screen = m.screen

/-- Whether the next instruction and the poll after it have no use for the byte at an address but to
execute it. -/
structure Overlooks (m : Machine) (address : UInt16) : Prop where
  operands : ∀ distance < lengthOf m.opcode, 0 < distance →
    m.registers.pc + distance.toUInt16 ≠ address
  data : address ∉ m.reads m.nextInstruction
  status : m.step.framePosition % interruptInterval = 0 → address ≠ interruptStatus

/-- The interrupt reads the status byte and nothing else of memory. -/
theorem alike_takeInterrupt (m : Machine) {memory : Memory}
    (h : memory.read interruptStatus = m.memory.read interruptStatus) :
    Alike (m.takeInterrupt.withMemory (memory.writeAll m.interruptStores))
      (m.withMemory memory).takeInterrupt := by
  have hstores : (m.withMemory memory).interruptStores = m.interruptStores :=
    congrArg (fun status => (interruptStatus, status &&& ~~~timerPending)
      :: m.pushStores [Word.high m.registers.pc, Word.low m.registers.pc, m.registers.flags]) h
  have hregisters : (m.withMemory memory).takeInterrupt.registers = m.takeInterrupt.registers := by
    rw [registers_takeInterrupt, registers_takeInterrupt]
    rfl
  have hmemory : (m.withMemory memory).takeInterrupt.memory
      = memory.writeAll m.interruptStores := by
    rw [memory_takeInterrupt_eq, hstores]
    rfl
  obtain ⟨registers, _, _, hplain⟩ := takeInterrupt_eq m
  obtain ⟨registers', _, _, hother⟩ := takeInterrupt_eq (m.withMemory memory)
  refine ⟨hregisters.symm, hmemory.symm, ?_, ?_, ?_⟩ <;> rw [hplain, hother] <;> rfl

/-- An idle byte is passed over. -/
theorem step_of_idles (h : Idles m.opcode) :
    m.step.silent = ((m.goto (m.registers.pc + 1)).charge 1).silent := by
  unfold step execute nextCost nextInstruction
  rw [h.alone, h.cycle, decode_of_alone h.alone]
  rcases h.nothing with hnop | hundefined
  · rw [hnop]
    rfl
  · rw [hundefined]
    simp only [perform]
    split <;> rfl

theorem Alike.withMemory (h : Alike m m') (memory : Memory) :
    Alike (m.withMemory memory) (m'.withMemory memory) :=
  ⟨h.registers, rfl, h.cycles, h.framePosition, h.running⟩

theorem Alike.of_silent_eq (h : m.silent = m'.silent) : Alike m m' :=
  (alike_silent m).symm.trans (h ▸ alike_silent m')

theorem breakCount_step (m : Machine) :
    m.step.breakCount = m.breakCount + if m.nextInstruction = .break then 1 else 0 :=
  breakCount_perform _ _

/-- The same instruction in a memory that has the same bytes where it reads. -/
theorem step_withMemory (m : Machine) {memory : Memory}
    (hopcode : (m.withMemory memory).opcode = m.opcode)
    (hinstruction : (m.withMemory memory).nextInstruction = m.nextInstruction)
    (hreads : ∀ address ∈ m.reads m.nextInstruction,
      memory.read address = m.memory.read address) :
    ∃ stores, m.step.memory = m.memory.writeAll stores
      ∧ (m.withMemory memory).step = m.step.withMemory (memory.writeAll stores) := by
  let past := m.goto (m.registers.pc + (lengthOf m.opcode).toUInt16)
  refine ⟨past.stores m.nextInstruction, memory_perform past m.nextInstruction, ?_⟩
  have hperform := perform_withMemory past m.nextInstruction memory hreads
  unfold step nextCost
  rw [hopcode, hinstruction]
  exact congrArg (charge · (cost m.opcode)) hperform

namespace Twins

theorem pc_eq (h : Twins address m m') : m'.registers.pc = m.registers.pc :=
  congrArg Registers.pc h.alike.registers.symm

theorem fetch_of_ne (h : Twins address m m') {distance : UInt16}
    (hne : m.registers.pc + distance ≠ address) : m'.fetch distance = m.fetch distance := by
  rw [fetch, fetch, h.pc_eq, h.memory.read_of_ne hne]

/-- Both machines execute the same instruction, or both an idle byte. -/
theorem same_or_idles (h : Twins address m m') (hover : m.Overlooks address) :
    m'.opcode = m.opcode ∧ m'.nextInstruction = m.nextInstruction
      ∨ Idles m.opcode ∧ Idles m'.opcode := by
  by_cases hat : m.registers.pc + 0 = address
  · rcases h.memory.eq_or_idles with hmemory | hidle
    · have halike : Alike m m' := by
        have := h.alike
        rwa [hmemory] at this
      exact Or.inl ⟨halike.opcode.symm, halike.nextInstruction.symm⟩
    · right
      rw [← hat] at hidle
      unfold opcode fetch
      rwa [h.pc_eq]
  · left
    have hopcode : m'.opcode = m.opcode := h.fetch_of_ne hat
    refine ⟨hopcode, ?_⟩
    unfold nextInstruction
    rw [hopcode]
    apply decode_congr
    · exact fun hlength => h.fetch_of_ne (hover.operands 1 (hopcode ▸ hlength) (by decide))
    · exact fun hlength => h.fetch_of_ne (hover.operands 2 (hopcode ▸ hlength) (by decide))

/-- Operations that leave the host's part alone need no further proof that it stays the same. -/
theorem of_sameHost (h : Twins address m m') {n n' : Machine} (hplain : SameHost n m)
    (hother : SameHost n' m') (hmemory : n.memory.Twins address n'.memory)
    (halike : Alike (n.withMemory n'.memory) n') (hbreak : n'.breakCount = n.breakCount) :
    Twins address n n' where
  memory := hmemory
  alike := halike
  breakCount := hbreak
  host := by
    have hboth := h.host
    exact ⟨rfl, hother.frameCount.trans (hboth.frameCount.trans hplain.frameCount.symm),
      hother.breakpoints.trans (hboth.breakpoints.trans hplain.breakpoints.symm),
      hother.breakpointHit.trans (hboth.breakpointHit.trans hplain.breakpointHit.symm),
      hother.debug.trans (hboth.debug.trans hplain.debug.symm),
      hother.buttons.trans (hboth.buttons.trans hplain.buttons.symm)⟩
  screen hvideo := by
    rw [hother.screen, hplain.screen]
    exact h.screen hvideo

/-- The same instruction in two memories. -/
theorem step_of_same (h : Twins address m m') (hdata : address ∉ m.reads m.nextInstruction)
    (hopcode : m'.opcode = m.opcode) (hinstruction : m'.nextInstruction = m.nextInstruction) :
    Twins address m.step m'.step := by
  have hreads : ∀ other ∈ m.reads m.nextInstruction,
      m'.memory.read other = m.memory.read other :=
    fun other hmem => h.memory.read_of_ne fun heq => hdata (heq ▸ hmem)
  obtain ⟨stores, hmemory, hstep⟩ := m.step_withMemory (h.alike.opcode.trans hopcode)
    (h.alike.nextInstruction.trans hinstruction) hreads
  have halike := h.alike.step
  rw [hstep] at halike
  have hmemory' : m'.step.memory = m'.memory.writeAll stores := halike.memory.symm
  refine h.of_sameHost (sameHost_step m) (sameHost_step m') ?_ ?_ ?_
  · rw [hmemory, hmemory']
    exact h.memory.writeAll stores
  · rwa [hmemory']
  · rw [breakCount_step, breakCount_step, hinstruction, h.breakCount]

/-- An idle byte on either side. -/
theorem step_of_idle (h : Twins address m m') (hidle : Idles m.opcode) (hidle' : Idles m'.opcode) :
    Twins address m.step m'.step := by
  have hplain := step_of_idles hidle
  have hother := step_of_idles hidle'
  rw [h.pc_eq] at hother
  have halike := Alike.of_silent_eq hplain
  have halike' := Alike.of_silent_eq hother
  have hmemory : m.step.memory = m.memory := halike.memory
  have hmemory' : m'.step.memory = m'.memory := halike'.memory
  refine h.of_sameHost (sameHost_step m) (sameHost_step m') ?_ ?_ ?_
  · rw [hmemory, hmemory']
    exact h.memory
  · have hboth := (h.alike.goto (m.registers.pc + 1)).charge 1
    rw [hmemory']
    exact (halike.withMemory m'.memory).trans (hboth.trans halike'.symm)
  · show m'.step.silent.breakCount = m.step.silent.breakCount
    rw [hplain, hother]
    exact h.breakCount

theorem step (h : Twins address m m') (hover : m.Overlooks address) :
    Twins address m.step m'.step := by
  rcases h.same_or_idles hover with ⟨hopcode, hinstruction⟩ | ⟨hidle, hidle'⟩
  · exact h.step_of_same hover.data hopcode hinstruction
  · exact h.step_of_idle hidle hidle'

theorem poll (h : Twins address m m')
    (hstatus : m.framePosition % interruptInterval = 0 → address ≠ interruptStatus) :
    Twins address m.poll m'.poll := by
  have hposition : m'.framePosition = m.framePosition := h.alike.framePosition.symm
  have hmachine : m.poll.memory.Twins address m'.poll.memory
      ∧ Alike (m.poll.withMemory m'.poll.memory) m'.poll := by
    unfold Machine.poll
    rw [hposition]
    split
    case isFalse => exact ⟨h.memory, h.alike⟩
    case isTrue hcadence =>
      have hread := h.memory.read_of_ne (hstatus hcadence).symm
      have hready : m'.interruptReady = m.interruptReady := by
        rw [interruptReady, interruptReady, hread, ← h.alike.registers]
        rfl
      unfold checkInterrupt
      rw [hready]
      split
      case isFalse => exact ⟨h.memory, h.alike⟩
      case isTrue =>
        have halike := (m.alike_takeInterrupt hread).trans h.alike.takeInterrupt
        have hmemory : m'.takeInterrupt.memory = m'.memory.writeAll m.interruptStores :=
          halike.memory.symm
        rw [hmemory, memory_takeInterrupt_eq]
        exact ⟨h.memory.writeAll m.interruptStores, halike⟩
  refine h.of_sameHost (sameHost_poll m) (sameHost_poll m') hmachine.1 hmachine.2 ?_
  rw [breakCount_poll, breakCount_poll, h.breakCount]

theorem endFrame (h : Twins address m m') : Twins address m.endFrame m'.endFrame where
  memory := h.memory
  alike := ⟨h.alike.registers, rfl, h.alike.cycles, rfl, h.alike.running⟩
  breakCount := h.breakCount
  host := ⟨rfl, congrArg (· + 1) h.host.frameCount, h.host.breakpoints, h.host.breakpointHit,
    h.host.debug, h.host.buttons⟩
  screen hvideo := by
    obtain ⟨value, hmemory, -⟩ := h.memory
    have hpixels : m'.memory.video = m.memory.video := by
      rw [hmemory, Memory.video_patch _ _ hvideo]
    show m'.screen.render m'.memory.video.toArray m'.memory.palette
      = m.screen.render m.memory.video.toArray m.memory.palette
    rw [h.screen hvideo, hpixels, h.memory.palette]

/-- **Step lemma.**  An instruction that overlooks the byte, the poll after it and the end of a frame
leave twins. -/
theorem stepOne (h : Twins address m m') (hover : m.Overlooks address) :
    Twins address m.stepOne m'.stepOne := by
  have htick : Twins address m.tick m'.tick := (h.step hover).poll hover.status
  rcases Nat.lt_or_ge m.tick.framePosition cyclesPerFrame with hlt | hge
  · have hlt' : m'.tick.framePosition < cyclesPerFrame := htick.alike.framePosition ▸ hlt
    rwa [stepOne_of_lt hlt, stepOne_of_lt hlt']
  · have hge' : cyclesPerFrame ≤ m'.tick.framePosition := htick.alike.framePosition ▸ hge
    rw [stepOne_of_le hge, stepOne_of_le hge']
    exact htick.endFrame

/-- **Run lemma.**  As long as the byte is only executed, the machines stay twins: they execute the
same instructions at the same cycles, and finish their frames together. -/
theorem stepOnes (h : Twins address m m') {n : Nat}
    (hover : ∀ i < n, (Machine.stepOne^[i] m).Overlooks address) :
    Twins address (Machine.stepOne^[n] m) (Machine.stepOne^[n] m') := by
  induction n with
  | zero => exact h
  | succ n ih =>
    rw [Function.iterate_succ_apply', Function.iterate_succ_apply']
    exact (ih fun i hi => hover i (Nat.lt_succ_of_lt hi)).stepOne (hover n (Nat.lt_succ_self n))

end Twins

end Machine

end FantasyComputer
