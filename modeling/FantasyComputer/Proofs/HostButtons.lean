/-
# FantasyComputer.Proofs.HostButtons — the host's buttons follow the host's calls alone.

The machine keeps the mask of the buttons that the host holds beside the byte that a program reads.
Programs, resets and whatever is put back overwrite the byte; the mask is changed by the host's own
calls and by nothing else (`buttons_obey`), and each of them copies it to the byte
(`read_input_obey`).

So the mask is the fold of the calls (`maskAfter`), whatever comes between them.  `nextMask_bit` is
the step for one button: a call presses it, or keeps it unless it releases it.  `maskAfter_bit` is the
run: a button is held if it was pressed and not released since.
-/
import FantasyComputer.Proofs.Commands
import FantasyComputer.Proofs.PadButtons

namespace FantasyComputer

/-! ## Bits of a mask -/

theorem or_and_right_self (x y : UInt8) : (x ||| y) &&& y = y := by
  apply UInt8.toBitVec_inj.mp
  ext i hi
  simp
  tauto

theorem or_and_not_right (x y : UInt8) : (x ||| y) &&& ~~~y = x &&& ~~~y := by
  apply UInt8.toBitVec_inj.mp
  ext i hi
  simp [Bool.and_or_distrib_right]

theorem and_not_and_self (x y : UInt8) : x &&& ~~~y &&& y = 0 := by
  rw [UInt8.and_assoc]
  simp

/-! ## Calls about buttons -/

namespace Command

/-- Whether a command is a call about buttons. -/
def IsInput : Command → Prop
  | .operate (.call (.setInput _)) => True
  | .setButton _ _ => True
  | _ => False

/-- Whether a command presses a button. -/
def Presses (button : Button) : Command → Prop
  | .operate (.call (.setInput chosen)) => chosen &&& button.mask ≠ 0
  | .setButton other pressed => other = button ∧ pressed = true
  | _ => False

/-- Whether a command releases a button. -/
def Releases (button : Button) : Command → Prop
  | .operate (.call (.setInput chosen)) => chosen &&& button.mask = 0
  | .setButton other pressed => other = button ∧ pressed = false
  | _ => False

/-- The mask of the buttons after a command. -/
def nextMask (mask : UInt8) : Command → UInt8
  | .operate (.call (.setInput chosen)) => chosen
  | .setButton button true => mask ||| button.mask
  | .setButton button false => mask &&& ~~~button.mask
  | _ => mask

/-- The mask of the buttons after a row of commands, none being held before. -/
def maskAfter (commands : List Command) : UInt8 :=
  commands.foldl nextMask 0

variable {commands : List Command} {c : Command} {button : Button}

theorem maskAfter_concat (commands : List Command) (c : Command) :
    maskAfter (commands ++ [c]) = c.nextMask (maskAfter commands) :=
  List.foldl_concat ..

/-- A call about buttons sets the mask or one button. -/
theorem isInput_cases (c : Command) :
    (∃ chosen, c = .operate (.call (.setInput chosen)))
      ∨ (∃ button pressed, c = .setButton button pressed) ∨ ¬c.IsInput := by
  cases c with
  | setButton button pressed => exact Or.inr (Or.inl ⟨button, pressed, rfl⟩)
  | intervene i => exact Or.inr (Or.inr not_false)
  | operate o =>
    cases o with
    | step => exact Or.inr (Or.inr not_false)
    | checkInterrupt => exact Or.inr (Or.inr not_false)
    | call call =>
      cases call with
      | setInput chosen => exact Or.inl ⟨chosen, rfl⟩
      | _ => exact Or.inr (Or.inr not_false)

/-- Any other command neither presses nor releases a button. -/
theorem idle_of_not_isInput (h : ¬c.IsInput) (mask : UInt8) (button : Button) :
    c.nextMask mask = mask ∧ ¬c.Presses button ∧ ¬c.Releases button := by
  cases c with
  | setButton other pressed => exact absurd trivial h
  | intervene i => exact ⟨rfl, not_false, not_false⟩
  | operate o =>
    cases o with
    | step => exact ⟨rfl, not_false, not_false⟩
    | checkInterrupt => exact ⟨rfl, not_false, not_false⟩
    | call call =>
      cases call with
      | setInput chosen => exact absurd trivial h
      | _ => exact ⟨rfl, not_false, not_false⟩

/-! ## One button -/

/-- Pressing or releasing a button decides its own bit and keeps all others. -/
theorem nextMask_setButton (mask : UInt8) (button : Button) (pressed : Bool) :
    nextMask mask (.setButton button pressed) &&& button.mask = (if pressed then button.mask else 0)
      ∧ nextMask mask (.setButton button pressed) &&& ~~~button.mask
        = mask &&& ~~~button.mask := by
  cases pressed with
  | true => exact ⟨or_and_right_self mask button.mask, or_and_not_right mask button.mask⟩
  | false =>
    refine ⟨and_not_and_self mask button.mask, ?_⟩
    show mask &&& ~~~button.mask &&& ~~~button.mask = _
    rw [UInt8.and_assoc, UInt8.and_self]

theorem clear_and_mask (mask : UInt8) (button other : Button) :
    mask &&& ~~~button.mask &&& other.mask ≠ 0 ↔ button ≠ other ∧ mask &&& other.mask ≠ 0 := by
  by_cases hsame : button = other
  · rw [hsame, and_not_and_self]
    exact iff_of_false (fun h => h rfl) fun h => h.1 rfl
  · have hother : ~~~button.mask &&& other.mask = other.mask := by
      revert hsame
      cases button <;> cases other <;> decide
    rw [UInt8.and_assoc, hother]
    exact (and_iff_right hsame).symm

/-- **Step lemma.**  A button is held after a command that presses it, and after any other one if it
was held before and is not released. -/
theorem nextMask_bit (mask : UInt8) (c : Command) (button : Button) :
    c.nextMask mask &&& button.mask ≠ 0
      ↔ c.Presses button ∨ mask &&& button.mask ≠ 0 ∧ ¬c.Releases button := by
  rcases isInput_cases c with ⟨chosen, rfl⟩ | ⟨other, pressed, rfl⟩ | hidle
  · show chosen &&& button.mask ≠ 0 ↔ chosen &&& button.mask ≠ 0
      ∨ mask &&& button.mask ≠ 0 ∧ ¬chosen &&& button.mask = 0
    tauto
  · cases pressed with
    | true =>
      have hbit := Button.mask_and_mask other button
      show (mask ||| other.mask) &&& button.mask ≠ 0 ↔ other = button ∧ true = true
        ∨ mask &&& button.mask ≠ 0 ∧ ¬(other = button ∧ true = false)
      rw [or_and_mask, ne_eq, UInt8.or_eq_zero_iff]
      tauto
    | false =>
      show mask &&& ~~~other.mask &&& button.mask ≠ 0 ↔ other = button ∧ false = true
        ∨ mask &&& button.mask ≠ 0 ∧ ¬(other = button ∧ false = false)
      rw [clear_and_mask]
      tauto
  · obtain ⟨hmask, hpresses, hreleases⟩ := idle_of_not_isInput hidle mask button
    rw [hmask]
    tauto

/-- **Run lemma.**  A button is held if it was pressed and not released since. -/
theorem maskAfter_bit (commands : List Command) (button : Button) :
    maskAfter commands &&& button.mask ≠ 0
      ↔ ∃ before press after, commands = before ++ press :: after ∧ press.Presses button
        ∧ ∀ c ∈ after, ¬c.Releases button := by
  induction commands using List.reverseRecOn with
  | nil =>
    refine iff_of_false (fun h => h (UInt8.zero_and)) ?_
    rintro ⟨before, press, after, hsplit, -⟩
    exact absurd hsplit.symm (List.append_ne_nil_of_right_ne_nil _ (List.cons_ne_nil _ _))
  | append_singleton commands c ih =>
    rw [maskAfter_concat, nextMask_bit, ih]
    constructor
    · rintro (hpress | ⟨⟨before, press, after, rfl, hpress, hafter⟩, hlast⟩)
      · exact ⟨commands, c, [], rfl, hpress, by simp⟩
      · refine ⟨before, press, after ++ [c], by simp, hpress, ?_⟩
        rw [List.forall_mem_append]
        exact ⟨hafter, by simpa using hlast⟩
    · rintro ⟨before, press, after, hsplit, hpress, hafter⟩
      rcases concat_eq_split.mp hsplit with ⟨rfl, rfl, -⟩ | ⟨rest, rfl, hcommands⟩
      · exact Or.inl hpress
      · rw [List.forall_mem_append] at hafter
        exact Or.inr ⟨⟨before, press, rest, hcommands, hpress, hafter.1⟩, hafter.2 c (by simp)⟩

end Command

namespace Machine

open Command

variable {m : Machine}

/-! ## The mask of a machine -/

theorem buttons_endFrame (m : Machine) : m.endFrame.buttons = m.buttons := rfl

theorem buttons_noteFrame (m : Machine) : m.noteFrame.buttons = m.buttons := by
  unfold noteFrame
  split <;> rfl

theorem buttons_stepFrame (m : Machine) : m.stepFrame.2.buttons = m.buttons := by
  cases hrun : m.running with
  | false =>
    rw [stepFrame_of_not_running hrun]
    rfl
  | true =>
    have hend : m.frameEnd.buttons = m.buttons := (sameHost_frameEnd m).buttons
    have hnote : m.frameEnd.endFrame.noteFrame.buttons = m.frameEnd.buttons := by
      rw [buttons_noteFrame, buttons_endFrame]
    rw [stepFrame_of_running hrun]
    split
    · exact hend
    · exact hnote.trans hend

theorem buttons_operate {o : Operation} (h : ¬(Command.operate o).IsInput) :
    (m.operate o).buttons = m.buttons := by
  cases o with
  | step => exact (sameHost_step m).buttons
  | checkInterrupt =>
    obtain ⟨_, _, _, hcheck⟩ := checkInterrupt_eq m
    show m.checkInterrupt.buttons = _
    rw [hcheck]
  | call c =>
    cases c with
    | setInput mask => exact absurd trivial h
    | requestInterrupt => rfl
    | stepFrame => exact buttons_stepFrame m
    | stepOne =>
      have htick := (sameHost_tick m).buttons
      rcases Nat.lt_or_ge m.tick.framePosition cyclesPerFrame with hlt | hge
      · show m.stepOne.buttons = _
        rw [stepOne_of_lt hlt, htick]
      · show m.stepOne.buttons = _
        rw [stepOne_of_le hge, buttons_endFrame, htick]

theorem buttons_intervene (m : Machine) (i : Intervention) :
    (m.intervene i).buttons = m.buttons := by
  cases i with
  | load image =>
    cases hparse : Cartridge.parse image with
    | error fault => rw [intervene_load_of_error hparse]
    | ok cartridge =>
      rw [intervene_load_of_ok hparse]
      rfl
  | execute i length => exact (sameHost_execute m i length).buttons
  | _ => rfl

/-- **Step lemma.**  A command changes the mask as a call about buttons, or not at all. -/
theorem buttons_obey (m : Machine) (c : Command) : (m.obey c).buttons = c.nextMask m.buttons := by
  rcases isInput_cases c with ⟨chosen, rfl⟩ | ⟨button, pressed, rfl⟩ | hidle
  · rfl
  · cases pressed <;> rfl
  · rw [(idle_of_not_isInput hidle m.buttons .a).1]
    cases c with
    | operate o => exact buttons_operate hidle
    | setButton button pressed => exact absurd trivial hidle
    | intervene i => exact buttons_intervene m i

/-- **Run lemma.** -/
theorem buttons_obeyAll (hstart : m.buttons = 0) (commands : List Command) :
    (m.obeyAll commands).buttons = maskAfter commands := by
  induction commands using List.reverseRecOn with
  | nil => exact hstart
  | append_singleton commands c ih =>
    rw [obeyAll, List.foldl_concat, maskAfter_concat, ← ih]
    exact buttons_obey _ c

/-- A call about buttons puts the mask where a program reads it. -/
theorem read_input_obey {c : Command} (h : c.IsInput) :
    (m.obey c).memory.read inputAddress = (m.obey c).buttons := by
  have hbelow : inputAddress.toNat < 0xC100 := by decide
  rcases isInput_cases c with ⟨chosen, rfl⟩ | ⟨button, pressed, rfl⟩ | hidle
  · exact Memory.read_write_self _ _ hbelow
  · exact Memory.read_write_self _ _ hbelow
  · exact absurd h hidle

/-- After a call about buttons a program reads the fold of all calls. -/
theorem read_input_obeyAll (hstart : m.buttons = 0) (commands : List Command) {c : Command}
    (h : c.IsInput) :
    ((m.obeyAll commands).obey c).memory.read inputAddress = maskAfter (commands ++ [c]) := by
  rw [read_input_obey h, buttons_obey, buttons_obeyAll hstart, maskAfter_concat]

/-! ## What a program reads -/

/-- What is true of the buttons after a row of commands. -/
structure TracksButtons (m : Machine) (commands : List Command) : Prop where
  /-- After a call about buttons a program reads the fold of all calls so far. -/
  shown : ∀ c : Command, c.IsInput →
    ((m.obeyAll commands).obey c).memory.read inputAddress = maskAfter (commands ++ [c])
  /-- It sees a button if that was pressed and not released since, whatever came between. -/
  held : ∀ c : Command, c.IsInput → ∀ button : Button,
    (((m.obeyAll commands).obey c).memory.read inputAddress &&& button.mask ≠ 0
      ↔ ∃ before press after, commands ++ [c] = before ++ press :: after ∧ press.Presses button
        ∧ ∀ d ∈ after, ¬d.Releases button)
  /-- A button that is pressed or released is the only one to change. -/
  single : ∀ (button : Button) (pressed : Bool),
    ((m.obeyAll commands).obey (.setButton button pressed)).memory.read inputAddress &&& button.mask
        = (if pressed then button.mask else 0)
      ∧ ((m.obeyAll commands).obey (.setButton button pressed)).memory.read inputAddress
          &&& ~~~button.mask
        = maskAfter commands &&& ~~~button.mask

/-- **The host's buttons follow the host's calls alone**, whatever programs, resets, loads and
restores come between them. -/
theorem tracksButtons (hstart : m.buttons = 0) (commands : List Command) :
    TracksButtons m commands where
  shown _ hc := read_input_obeyAll hstart commands hc
  held _ hc button := by
    rw [read_input_obeyAll hstart commands hc]
    exact maskAfter_bit _ button
  single button pressed := by
    have hinput : (Command.setButton button pressed).IsInput := trivial
    rw [read_input_obeyAll hstart commands hinput, maskAfter_concat]
    exact nextMask_setButton _ button pressed

/-- A button stays held through a reset and a program that overwrites the byte. -/
theorem tracksButtons_pressed :
    initial.buttons = 0
      ∧ TracksButtons initial [.setButton .left true, .intervene (.reset defaultEntry),
          .intervene (.execute (.output inputAddress) 3)]
      ∧ maskAfter [.setButton .left true, .intervene (.reset defaultEntry),
          .intervene (.execute (.output inputAddress) 3), .setButton .a true] = 0x14 :=
  ⟨rfl, tracksButtons rfl _, by decide⟩

end Machine

end FantasyComputer
