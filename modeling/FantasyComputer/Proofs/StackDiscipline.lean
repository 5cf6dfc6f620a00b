/-
# FantasyComputer.Proofs.StackDiscipline — what nested pushes, calls and interrupts bring back.

A `Move` executes an instruction or takes an interrupt.  Three kinds of moves put something on the
stack, and each has a move that takes it off again: a register is pushed and popped, a call returns,
an interrupt is returned from.  A word of moves is `WellNested` when they open and close like
brackets, with any other moves between them.

`wellNested_keeps` is the invariant of such a word: the stack pointer comes back, and above it RAM
changes only where the word stores something itself.  So what an opening move left on the stack is
still there when its closing move takes it off (`restored_of_pair`).  `stackKept` says this of every
pair of a word, and that every closing move has its pair.

Nothing in the machine guards the stack: the slots must lie in RAM, and no store in between may hit
one that is in use.
-/
import FantasyComputer.Proofs.Writes

namespace FantasyComputer

/-! ## Moves -/

/-- What moves the machine on: an instruction of some length, or an interrupt. -/
inductive Move where
  | execute (i : Instruction) (length : UInt8)
  | interrupt
  deriving DecidableEq, Repr

namespace Move

/-- The number of bytes that a move pushes. -/
def pushes : Move → Nat
  | .execute (.push _) _ => 1
  | .execute (.call _) _ => 2
  | .interrupt => 3
  | _ => 0

/-- The number of bytes that a move pops. -/
def pops : Move → Nat
  | .execute (.pop _) _ => 1
  | .execute .return _ => 2
  | .execute .returnFromInterrupt _ => 3
  | _ => 0

/-- The address at which a move stores a register. -/
def target? : Move → Option UInt16
  | .execute (.store _ address) _ => some address
  | .execute (.output address) _ => some address
  | _ => none

/-- The pairs of an opening and a closing move. -/
inductive Closes : Move → Move → Prop where
  | pop (source target : Register) (length length' : UInt8) :
    Closes (.execute (.push source) length) (.execute (.pop target) length')
  | return (address : UInt16) (length length' : UInt8) :
    Closes (.execute (.call address) length) (.execute .return length')
  | returnFromInterrupt (length : UInt8) :
    Closes .interrupt (.execute .returnFromInterrupt length)

/-- Words whose opening and closing moves pair up like brackets. -/
inductive WellNested : List Move → Prop where
  | nil : WellNested []
  | other {x : Move} {rest : List Move} (hpushes : x.pushes = 0) (hpops : x.pops = 0)
    (hrest : WellNested rest) : WellNested (x :: rest)
  | pair {o c : Move} {inner rest : List Move} (hcloses : Closes o c) (hinner : WellNested inner)
    (hrest : WellNested rest) : WellNested (o :: (inner ++ c :: rest))

namespace Closes

variable {o c : Move}

theorem pops_eq (h : Closes o c) : c.pops = o.pushes := by
  cases h <;> rfl

theorem pops_opening (h : Closes o c) : o.pops = 0 := by
  cases h <;> rfl

theorem pushes_closing (h : Closes o c) : c.pushes = 0 := by
  cases h <;> rfl

theorem target_closing (h : Closes o c) : c.target? = none := by
  cases h <;> rfl

end Closes

/-- Where a member of a list stands that was put together around another member. -/
theorem append_cons_cases {inner rest before after : List Move} {c c' : Move}
    (h : inner ++ c' :: rest = before ++ c :: after) :
    (∃ more, inner = before ++ c :: more) ∨ (before = inner ∧ c = c')
      ∨ ∃ more, before = inner ++ c' :: more ∧ rest = more ++ c :: after := by
  induction inner generalizing before with
  | nil =>
    cases before with
    | nil => exact Or.inr (Or.inl ⟨rfl, (List.cons.inj h).1.symm⟩)
    | cons y before =>
      obtain ⟨rfl, hrest⟩ := List.cons.inj h
      exact Or.inr (Or.inr ⟨before, rfl, hrest⟩)
  | cons x inner ih =>
    cases before with
    | nil =>
      obtain ⟨rfl, -⟩ := List.cons.inj h
      exact Or.inl ⟨inner, rfl⟩
    | cons y before =>
      obtain ⟨rfl, hrest⟩ := List.cons.inj h
      rcases ih hrest with ⟨more, rfl⟩ | ⟨rfl, rfl⟩ | ⟨more, rfl, hmore⟩
      · exact Or.inl ⟨more, rfl⟩
      · exact Or.inr (Or.inl ⟨rfl, rfl⟩)
      · exact Or.inr (Or.inr ⟨more, rfl, hmore⟩)

/-- **Every closing move has its opening one**, with a well-nested word between the two. -/
theorem WellNested.exists_opening {word : List Move} (h : WellNested word)
    {before after : List Move} {c : Move} (hsplit : word = before ++ c :: after) (hc : 0 < c.pops) :
    ∃ outer o inner, before = outer ++ o :: inner ∧ Closes o c ∧ WellNested inner := by
  induction h generalizing before after with
  | nil => exact absurd hsplit.symm (List.append_ne_nil_of_right_ne_nil _ (List.cons_ne_nil _ _))
  | @other x rest hpushes hpops hrest ih =>
    cases before with
    | nil =>
      obtain ⟨rfl, -⟩ := List.cons.inj hsplit
      exact absurd hc (by rw [hpops]; exact Nat.lt_irrefl 0)
    | cons y before =>
      obtain ⟨rfl, hlater⟩ := List.cons.inj hsplit
      obtain ⟨outer, o, inner, rfl, hpair⟩ := ih hlater
      exact ⟨x :: outer, o, inner, rfl, hpair⟩
  | @pair o' c' inner' rest hcloses hinner hrest ihinner ihrest =>
    cases before with
    | nil =>
      obtain ⟨rfl, -⟩ := List.cons.inj hsplit
      exact absurd hc (by rw [hcloses.pops_opening]; exact Nat.lt_irrefl 0)
    | cons y before =>
      obtain ⟨rfl, hlater⟩ := List.cons.inj hsplit
      rcases append_cons_cases hlater with ⟨more, hinside⟩ | ⟨rfl, rfl⟩ | ⟨more, rfl, hafter⟩
      · obtain ⟨outer, o, inner, rfl, hpair⟩ := ihinner hinside
        exact ⟨o' :: outer, o, inner, rfl, hpair⟩
      · exact ⟨[], o', before, rfl, hcloses, hinner⟩
      · obtain ⟨outer, o, inner, rfl, hpair⟩ := ihrest hafter
        exact ⟨o' :: (inner' ++ c' :: outer), o, inner, by simp, hpair⟩

end Move

namespace Machine

open Move

variable {m : Machine}

/-! ## Moves of a machine -/

/-- Makes a move.  An interrupt is taken if it is ready. -/
def move (m : Machine) : Move → Machine
  | .execute i length => m.execute i length
  | .interrupt => m.checkInterrupt

/-- Makes the moves of a word. -/
def moves (m : Machine) (word : List Move) : Machine :=
  word.foldl move m

/-- The bytes that a move pushes. -/
def bytesOf (m : Machine) : Move → List UInt8
  | .execute (.push source) _ => [m.registers.get source]
  | .execute (.call _) length =>
    [Word.high (m.registers.pc + length.toUInt16), Word.low (m.registers.pc + length.toUInt16)]
  | .interrupt => [Word.high m.registers.pc, Word.low m.registers.pc, m.registers.flags]
  | _ => []

/-- Whether a move finds what it needs: the slots that it uses lie in RAM and the stack pointer does
not wrap; an interrupt is ready. -/
structure Fits (m : Machine) (x : Move) : Prop where
  inRam : 0 < x.pushes → m.registers.sp.toNat < ramSize
  room : x.pushes ≤ m.registers.sp.toNat
  ready : x = .interrupt → m.interruptReady = true

/-- Whether every move of a word finds what it needs when its turn comes. -/
def Feasible (m : Machine) : List Move → Prop
  | [] => True
  | x :: rest => m.Fits x ∧ (m.move x).Feasible rest

theorem moves_append (m : Machine) (first second : List Move) :
    m.moves (first ++ second) = (m.moves first).moves second :=
  List.foldl_append

theorem feasible_append (m : Machine) (first second : List Move) :
    m.Feasible (first ++ second) ↔ m.Feasible first ∧ (m.moves first).Feasible second := by
  induction first generalizing m with
  | nil => exact (iff_of_eq (true_and _)).symm
  | cons x first ih =>
    show m.Fits x ∧ (m.move x).Feasible (first ++ second) ↔ _
    rw [ih, ← and_assoc]
    rfl

theorem length_bytesOf (m : Machine) (x : Move) : (m.bytesOf x).length = x.pushes := by
  cases x with
  | interrupt => rfl
  | execute i length => cases i <;> rfl

/-! ## The stack pointer -/

theorem sp_set (r : Registers) (target : Register) (value : UInt8) :
    (r.set target value).sp = r.sp := by
  cases target <;> rfl

/-- **The stack pointer moves by what is pushed and popped**, and by nothing else. -/
theorem sp_perform (m : Machine) (i : Instruction) (length : UInt8) :
    (m.perform i).registers.sp
      = m.registers.sp - UInt16.ofNat (pushes (.execute i length))
        + UInt16.ofNat (pops (.execute i length)) := by
  have hstays : m.registers.sp = m.registers.sp - UInt16.ofNat 0 + UInt16.ofNat 0 := by
    show m.registers.sp = m.registers.sp - 0 + 0
    rw [UInt16.add_zero, UInt16.sub_zero]
  cases i with
  | push source =>
    show m.registers.sp - 1 = m.registers.sp - 1 + 0
    rw [UInt16.add_zero]
  | pop target =>
    show (Registers.set _ target _).sp = m.registers.sp - 0 + 1
    rw [sp_set, UInt16.sub_zero]
    rfl
  | call address =>
    show m.registers.sp - 1 - 1 = m.registers.sp - 2 + 0
    grind
  | «return» =>
    show m.registers.sp + 1 + 1 = m.registers.sp - 0 + 2
    grind
  | returnFromInterrupt =>
    show m.registers.sp + 1 + 1 + 1 = m.registers.sp - 0 + 3
    grind
  | loadImmediate target value => exact (sp_set _ target _).trans hstays
  | loadAbsolute target address => exact (sp_set _ target _).trans hstays
  | move target source => exact (sp_set _ target _).trans hstays
  | increment target => exact (sp_set _ target _).trans hstays
  | decrement target => exact (sp_set _ target _).trans hstays
  | jumpIf condition address =>
    simp only [perform]
    split <;> exact hstays
  | undefined opcode =>
    simp only [perform]
    split <;> exact hstays
  | _ => exact hstays

theorem sp_move {x : Move} (h : m.Fits x) :
    (m.move x).registers.sp
      = m.registers.sp - UInt16.ofNat x.pushes + UInt16.ofNat x.pops := by
  cases x with
  | interrupt =>
    show m.checkInterrupt.registers.sp = m.registers.sp - 3 + 0
    rw [checkInterrupt, if_pos (h.ready rfl), registers_takeInterrupt]
    show m.registers.sp - 1 - 1 - 1 = _
    grind
  | execute i length => exact sp_perform (m.goto _) i length

/-- What an opening move leaves lower, its closing move raises again. -/
theorem toNat_sp_opening {o c : Move} (h : Closes o c) (hfits : m.Fits o) :
    (m.move o).registers.sp.toNat + o.pushes = m.registers.sp.toNat := by
  have hroom := hfits.room
  rw [sp_move hfits, h.pops_opening]
  show (m.registers.sp - UInt16.ofNat o.pushes + 0).toNat + o.pushes = _
  rw [UInt16.add_zero, toNat_sub_ofNat hroom]
  omega

/-- A closing move raises the stack pointer to where its opening move found it. -/
theorem sp_closing {o c : Move} (h : Closes o c) (hfits : m.Fits o) {m' : Machine}
    (hinside : m'.registers.sp = (m.move o).registers.sp) (hfits' : m'.Fits c) :
    (m'.move c).registers.sp = m.registers.sp := by
  rw [sp_move hfits', hinside, sp_move hfits, h.pops_opening, h.pushes_closing, h.pops_eq]
  show m.registers.sp - UInt16.ofNat o.pushes + 0 - 0 + UInt16.ofNat o.pushes = _
  grind

/-! ## Memory -/

/-- A move leaves alone what it neither stores nor pushes onto.  RAM does not hold the status byte,
which an interrupt changes as well. -/
theorem read_move {x : Move} (h : m.Fits x) {address : UInt16} (hram : address.toNat < ramSize)
    (htarget : x.target? ≠ some address) (hslots : address ∉ m.slots x.pushes) :
    (m.move x).memory.read address = m.memory.read address := by
  cases x with
  | interrupt =>
    have hstatus : address ≠ interruptStatus := by
      rintro rfl
      exact absurd hram (by decide)
    show m.checkInterrupt.memory.read address = _
    rw [checkInterrupt, if_pos (h.ready rfl)]
    exact read_takeInterrupt m hstatus hslots
  | execute i length =>
    refine read_perform (m.goto _) i fun hwritten => ?_
    cases i with
    | store source target => exact htarget (congrArg some (List.mem_singleton.mp hwritten).symm)
    | output target => exact htarget (congrArg some (List.mem_singleton.mp hwritten).symm)
    | push source => exact hslots hwritten
    | call target => exact hslots hwritten
    | _ => exact List.not_mem_nil hwritten

/-- An opening move leaves its bytes in its slots. -/
theorem carries_opening {o c : Move} (h : Closes o c) (hfits : m.Fits o) :
    Carries (m.move o).memory m.registers.sp (m.bytesOf o) := by
  have hroom := hfits.room
  cases h with
  | pop source target length length' =>
    exact carries_pushAll (m.goto _) [_] hroom (hfits.inRam Nat.one_pos)
  | «return» address length length' =>
    exact carries_pushAll (m.goto _) [_, _] hroom (hfits.inRam Nat.two_pos)
  | returnFromInterrupt length =>
    show Carries m.checkInterrupt.memory _ _
    rw [checkInterrupt, if_pos (hfits.ready rfl), memory_takeInterrupt]
    exact carries_pushAll (m.writeByte _ _) [_, _, _] hroom (hfits.inRam (Nat.zero_lt_succ 2))

/-- **Invariant of a well-nested word.**  It brings back the stack pointer, and above that RAM
changes only where the word stores something. -/
theorem wellNested_keeps {word : List Move} (h : WellNested word) (hfeasible : m.Feasible word) :
    (m.moves word).registers.sp = m.registers.sp
      ∧ ∀ address : UInt16, m.registers.sp.toNat < address.toNat → address.toNat < ramSize →
        (∀ x ∈ word, x.target? ≠ some address) →
          (m.moves word).memory.read address = m.memory.read address := by
  induction h generalizing m with
  | nil => exact ⟨rfl, fun _ _ _ _ => rfl⟩
  | @other x rest hpushes hpops hrest ih =>
    obtain ⟨hfits, hlater⟩ := hfeasible
    obtain ⟨hsp, hread⟩ := ih hlater
    have hstays : (m.move x).registers.sp = m.registers.sp := by
      rw [sp_move hfits, hpushes, hpops]
      show m.registers.sp - 0 + 0 = _
      rw [UInt16.add_zero, UInt16.sub_zero]
    refine ⟨hsp.trans hstays, fun address habove hram hstores => ?_⟩
    have hfirst : (m.move x).memory.read address = m.memory.read address := by
      apply read_move hfits hram (hstores x (List.mem_cons_self ..))
      rw [hpushes]
      exact List.not_mem_nil
    rw [← hstays] at habove
    exact (hread address habove hram fun y hy => hstores y (List.mem_cons_of_mem _ hy)).trans hfirst
  | @pair o c inner rest hcloses hinner hrest ihinner ihrest =>
    obtain ⟨hopens, hrun⟩ := hfeasible
    obtain ⟨hinside, hends, hlater⟩ := (feasible_append _ inner (c :: rest)).mp hrun
    obtain ⟨hspInside, hreadInside⟩ := ihinner hinside
    obtain ⟨hspRest, hreadRest⟩ := ihrest hlater
    have hback := sp_closing hcloses hopens hspInside hends
    have hlow := toNat_sp_opening hcloses hopens
    have hword : m.moves (o :: (inner ++ c :: rest))
        = (((m.move o).moves inner).move c).moves rest := moves_append _ inner (c :: rest)
    rw [hword]
    refine ⟨hspRest.trans hback, fun address habove hram hstores => ?_⟩
    have hopening : (m.move o).memory.read address = m.memory.read address := by
      apply read_move hopens hram (hstores o (List.mem_cons_self ..))
      intro hslot
      have hslot := toNat_of_mem_slotsFrom hopens.room hslot
      omega
    have hclosing : (((m.move o).moves inner).move c).memory.read address
        = ((m.move o).moves inner).memory.read address := by
      apply read_move hends hram (by rw [hcloses.target_closing]; nofun)
      rw [hcloses.pushes_closing]
      exact List.not_mem_nil
    rw [hreadRest address (by rw [hback]; exact habove) hram fun y hy => hstores y (by simp [hy]),
      hclosing, hreadInside address (by omega) hram fun y hy => hstores y (by simp [hy]), hopening]

/-! ## What comes back -/

/-- Whether a closing move brings back what its opening move put on the stack, given the machine
before the opening and the machine after the closing move. -/
def Restores (o c : Move) (opened closed : Machine) : Prop :=
  closed.registers.sp = opened.registers.sp ∧
    match o, c with
    | .execute (.push source) _, .execute (.pop target) _ =>
      closed.registers.get target = opened.registers.get source
    | .execute (.call _) length, .execute .return _ =>
      closed.registers.pc = opened.registers.pc + length.toUInt16
    | .interrupt, .execute .returnFromInterrupt _ =>
      closed.registers.pc = opened.registers.pc ∧ closed.registers.flags = opened.registers.flags
    | _, _ => False

theorem get_set (r : Registers) (target : Register) (value : UInt8) :
    (r.set target value).get target = value := by
  cases target <;> rfl

/-- A closing move reads what its opening move left, if that is still there. -/
theorem restores_of_carries {o c : Move} (h : Closes o c) (hfits : m.Fits o) {m' : Machine}
    (hinside : m'.registers.sp = (m.move o).registers.sp) (hfits' : m'.Fits c)
    (hcarries : Carries m'.memory m.registers.sp (m.bytesOf o)) : Restores o c m (m'.move c) := by
  refine ⟨sp_closing h hfits hinside hfits', ?_⟩
  have hsp : m'.registers.sp = m.registers.sp - UInt16.ofNat o.pushes := by
    rw [hinside, sp_move hfits, h.pops_opening]
    exact UInt16.add_zero _
  cases h with
  | pop source target length length' =>
    have htop : m'.registers.sp + 1 = m.registers.sp := by
      rw [hsp]
      exact UInt16.sub_add_cancel _ _
    show (Registers.set _ target (m'.memory.read (m'.registers.sp + 1))).get target = _
    rw [get_set, htop]
    exact hcarries.1
  | «return» address length length' =>
    have hlow : m'.registers.sp + 1 = m.registers.sp - 1 := by
      rw [hsp]
      show m.registers.sp - 2 + 1 = _
      grind
    have hhigh : m'.registers.sp + 1 + 1 = m.registers.sp := by
      rw [hlow, UInt16.sub_add_cancel]
    show Word.ofHalves (m'.memory.read (m'.registers.sp + 1))
      (m'.memory.read (m'.registers.sp + 1 + 1)) = _
    rw [hhigh, hlow, hcarries.1, hcarries.2.1, Word.ofHalves_low_high]
  | returnFromInterrupt length =>
    have hflags : m'.registers.sp + 1 = m.registers.sp - 1 - 1 := by
      rw [hsp]
      show m.registers.sp - 3 + 1 = _
      grind
    have hlow : m'.registers.sp + 1 + 1 = m.registers.sp - 1 := by
      rw [hflags, UInt16.sub_add_cancel]
    have hhigh : m'.registers.sp + 1 + 1 + 1 = m.registers.sp := by
      rw [hlow, UInt16.sub_add_cancel]
    show Word.ofHalves (m'.memory.read (m'.registers.sp + 1 + 1))
        (m'.memory.read (m'.registers.sp + 1 + 1 + 1)) = _
      ∧ m'.memory.read (m'.registers.sp + 1) = _
    rw [hhigh, hlow, hflags, hcarries.1, hcarries.2.1, hcarries.2.2.1, Word.ofHalves_low_high]
    exact ⟨rfl, rfl⟩

/-- **A pair.**  If the word between an opening and a closing move is well nested and stores nothing
in the slots of the opening move, the closing move brings everything back. -/
theorem restores_of_pair {o c : Move} {inner : List Move} (h : Closes o c)
    (hinner : WellNested inner) (hfeasible : m.Feasible (o :: (inner ++ [c])))
    (hspared : ∀ x ∈ inner, ∀ address, x.target? = some address → address ∉ m.slots o.pushes) :
    Restores o c m (((m.move o).moves inner).move c) := by
  obtain ⟨hopens, hrun⟩ := hfeasible
  obtain ⟨hinside, hends, -⟩ := (feasible_append _ inner [c]).mp hrun
  obtain ⟨hsp, hread⟩ := wellNested_keeps hinner hinside
  have hlow := toNat_sp_opening h hopens
  apply restores_of_carries h hopens hsp hends
  apply (carries_opening h hopens).of_read_eq
  rw [length_bytesOf]
  intro address hslot
  have hrange := toNat_of_mem_slotsFrom hopens.room hslot
  have hram := hopens.inRam (by omega)
  exact hread address (by omega) (by omega) fun x hx htarget => hspared x hx address htarget hslot

/-- Whether no store of a word hits a slot that is in use: one of an opening move whose closing move
is still to come. -/
def SparesStack (m : Machine) (word : List Move) : Prop :=
  ∀ outer o inner c after, word = outer ++ o :: (inner ++ c :: after) → Closes o c →
    WellNested inner → ∀ x ∈ inner, ∀ address, x.target? = some address →
      address ∉ (m.moves outer).slots o.pushes

/-- What a word leaves in order on the stack. -/
structure StackKept (m : Machine) (word : List Move) : Prop where
  /-- Every closing move has its opening one. -/
  paired : ∀ before c after, word = before ++ c :: after → 0 < c.pops →
    ∃ outer o inner, before = outer ++ o :: inner ∧ Closes o c ∧ WellNested inner
  /-- Every pair brings back what it put on the stack. -/
  restored : ∀ outer o inner c after, word = outer ++ o :: (inner ++ c :: after) → Closes o c →
    WellNested inner →
      Restores o c (m.moves outer) (m.moves (outer ++ o :: (inner ++ [c])))
  /-- The word as a whole leaves the stack pointer where it was. -/
  settled : (m.moves word).registers.sp = m.registers.sp

/-- **Stack discipline.**  In a well-nested word whose slots lie in RAM and are spared while they
are in use, every pop loads the byte that was pushed, every return goes on behind its call, and every
return from an interrupt restores the program counter and all flags. -/
theorem stackKept {word : List Move} (hnested : WellNested word) (hfeasible : m.Feasible word)
    (hspared : m.SparesStack word) : StackKept m word where
  paired before c after hsplit hc := hnested.exists_opening hsplit hc
  restored outer o inner c after hsplit hcloses hinner := by
    have hspared := hspared outer o inner c after hsplit hcloses hinner
    have hpair : word = (outer ++ o :: (inner ++ [c])) ++ after := by
      rw [hsplit]
      simp
    rw [hpair] at hfeasible
    have hfeasible := ((feasible_append m _ after).mp hfeasible).1
    have hrestores := restores_of_pair hcloses hinner ((feasible_append m outer _).mp hfeasible).2
      hspared
    have hword : m.moves (outer ++ o :: (inner ++ [c]))
        = (((m.moves outer).move o).moves inner).move c := by
      rw [moves_append]
      exact moves_append _ inner [c]
    rwa [hword]
  settled := (wellNested_keeps hnested hfeasible).1

/-! ## A word with all three layouts -/

/-- A word whose stores all lie above RAM spares the stack. -/
theorem sparesStack_of_above {word : List Move} (hfeasible : m.Feasible word)
    (habove : ∀ x ∈ word, ∀ address ∈ x.target?, ramSize ≤ address.toNat) :
    m.SparesStack word := by
  intro outer o inner c after hsplit hcloses hinner x hx address htarget hslot
  rw [hsplit] at hfeasible habove
  have hopens := ((feasible_append m outer _).mp hfeasible).2.1
  have hpushes : 0 < o.pushes := by
    cases hcloses <;> exact Nat.zero_lt_succ _
  have hrange := toNat_of_mem_slotsFrom hopens.room hslot
  have hram := hopens.inRam hpushes
  have hhigh := habove x (by simp [hx]) address htarget
  omega

/-- A machine that lets interrupts in, with one pending. -/
def attentive : Machine :=
  { initial with registers := { Registers.reset defaultEntry with flags := 0x82 } }.requestInterrupt

/-- A handler that calls a subroutine, which saves a register, draws a pixel and returns. -/
def handling : List Move :=
  [.interrupt, .execute (.call 0xE100) 3, .execute (.push .a) 1, .execute (.store .a 0x8000) 3,
    .execute (.pop .b) 1, .execute .return 1, .execute .returnFromInterrupt 1]

theorem wellNested_handling : WellNested handling := by
  have hdraw : WellNested [.execute (.store .a 0x8000) 3] := .other rfl rfl .nil
  have hsave : WellNested (.execute (.push .a) 1 :: (_ ++ .execute (.pop .b) 1 :: [])) :=
    .pair (.pop .a .b 1 1) hdraw .nil
  have hcall : WellNested (.execute (.call 0xE100) 3 :: (_ ++ .execute .return 1 :: [])) :=
    .pair (.return 0xE100 3 1) hsave .nil
  exact .pair (.returnFromInterrupt 1) hcall .nil

theorem interruptReady_attentive : attentive.interruptReady = true := by
  have hflag : attentive.registers.flag .interrupt = true := by decide
  rw [interruptReady_eq, hflag, attentive, pending_requestInterrupt]
  rfl

theorem feasible_handling : attentive.Feasible handling := by
  have hfirst : attentive.move .interrupt = attentive.takeInterrupt := by
    show attentive.checkInterrupt = _
    rw [checkInterrupt, if_pos interruptReady_attentive]
  have hexecute : ∀ {m : Machine} {i : Instruction} {length : UInt8},
      m.registers.sp.toNat < ramSize → pushes (.execute i length) ≤ m.registers.sp.toNat →
        m.Fits (.execute i length) :=
    fun hram hroom => ⟨fun _ => hram, hroom, fun hinterrupt => Move.noConfusion hinterrupt⟩
  refine ⟨⟨fun _ => by decide, by decide, fun _ => interruptReady_attentive⟩, ?_⟩
  rw [hfirst]
  refine ⟨hexecute ?_ ?_, hexecute ?_ ?_, hexecute ?_ ?_, hexecute ?_ ?_, hexecute ?_ ?_,
    hexecute ?_ ?_, trivial⟩
  all_goals decide

/-- The word of this handler is one that `stackKept` speaks of. -/
theorem stackKept_handling :
    WellNested handling ∧ attentive.Feasible handling ∧ attentive.SparesStack handling
      ∧ StackKept attentive handling := by
  have hspared : attentive.SparesStack handling := by
    apply sparesStack_of_above feasible_handling
    intro x hx address htarget
    have htargets : handling.filterMap target? = [0x8000] := rfl
    have hmem : address ∈ handling.filterMap target? := List.mem_filterMap.mpr ⟨x, hx, htarget⟩
    rw [htargets, List.mem_singleton] at hmem
    rw [hmem]
    decide
  exact ⟨wellNested_handling, feasible_handling, hspared,
    stackKept wellNested_handling feasible_handling hspared⟩

end Machine

end FantasyComputer
