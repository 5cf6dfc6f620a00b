/-
# FantasyComputer.Proofs.PadButtons — the buttons of a gamepad and those of the computer.

Three buttons of a gamepad stand for `A` and three for `B`, but for each of the two there is only
one bit (`pressed`), which every press sets and every release clears.  So a release of one of the
three also drops the others, if they are held: `Dropped` says that the last event about a button was
such a release.  It is the only way in which the bit differs from what is held (`pressed_iff`).  A
direction has one button alone and the sides of the stick have bits of their own, so that neither is
ever dropped.

The proofs follow the events from the last one back, by what the last event adds to each notion
(`held_concat`, `dropped_concat`).  `followsPad` takes the result to the byte that a program reads,
in every pass of a session.
-/
import FantasyComputer.Proofs.Surroundings
import FantasyComputer.Proofs.Writes

namespace FantasyComputer

/-! ## Buttons that stand for buttons -/

/-- The button of the computer that a button of a gamepad stands for. -/
def PadButton.standsFor : PadButton → Option Button
  | dPadUp => some .up
  | dPadDown => some .down
  | dPadLeft => some .left
  | dPadRight => some .right
  | south | leftTrigger2 | rightTrigger2 => some .a
  | east | west | north => some .b
  | leftTrigger | rightTrigger | other => none

/-- A direction has a single button. -/
theorem PadButton.eq_of_direction {p q : PadButton} {button : Button} (ha : button ≠ .a)
    (hb : button ≠ .b) (hp : p.standsFor = some button) (hq : q.standsFor = some button) :
    p = q := by
  cases p <;> cases hp <;> first | contradiction | skip
  all_goals cases q <;> first | rfl | cases hq

namespace Gamepad

/-- Whether a gamepad has a button of the computer down as a button. -/
def pressed (g : Gamepad) : Button → Bool
  | .up => g.up
  | .down => g.down
  | .left => g.left
  | .right => g.right
  | .a => g.a
  | .b => g.b

/-- Whether the stick of a gamepad stands on the side of a button. -/
def tilted (g : Gamepad) : Button → Bool
  | .up => g.stickUp
  | .down => g.stickDown
  | .left => g.stickLeft
  | .right => g.stickRight
  | .a | .b => false

theorem holds_eq (g : Gamepad) (button : Button) :
    g.holds button = (g.pressed button || g.tilted button) := by
  cases button <;> simp [holds, pressed, tilted]

theorem pressed_setButton (g : Gamepad) (p : PadButton) (held : Bool) (button : Button) :
    (g.setButton p held).pressed button
      = if p.standsFor = some button then held else g.pressed button := by
  cases p <;> cases button <;> rfl

theorem tilted_setButton (g : Gamepad) (p : PadButton) (held : Bool) (button : Button) :
    (g.setButton p held).tilted button = g.tilted button := by
  cases p <;> cases button <;> rfl

end Gamepad

/-! ## What is held, and what is lost -/

/-- The splits of a row with one more member: at that member, or before it. -/
theorem concat_eq_split {α : Type} {row before after : List α} {last x : α} :
    row ++ [last] = before ++ x :: after
      ↔ (row = before ∧ last = x ∧ after = [])
        ∨ ∃ rest, after = rest ++ [last] ∧ row = before ++ x :: rest := by
  rcases List.eq_nil_or_concat' after with rfl | ⟨rest, final, rfl⟩
  · constructor
    · intro h
      obtain ⟨hrow, hlast⟩ := List.append_inj' h rfl
      exact Or.inl ⟨hrow, List.head_eq_of_cons_eq hlast, rfl⟩
    · rintro (⟨rfl, rfl, -⟩ | ⟨rest, hnil, -⟩)
      · rfl
      · simp at hnil
  · rw [← List.cons_append, ← List.append_assoc]
    constructor
    · intro h
      obtain ⟨hrow, hlast⟩ := List.append_inj' h rfl
      exact Or.inr ⟨rest, by rw [List.head_eq_of_cons_eq hlast], hrow⟩
    · rintro (⟨-, -, hnil⟩ | ⟨rest', hafter, hrow⟩)
      · simp at hnil
      · obtain ⟨rfl, hlast⟩ := List.append_inj' hafter rfl
        rw [hrow, List.head_eq_of_cons_eq hlast]

namespace PadEvent

/-- Whether an event is about a button of the computer. -/
def Concerns : PadEvent → Button → Prop
  | .pressed p, button => p.standsFor = some button
  | .released p, button => p.standsFor = some button
  | .disconnected, _ => True
  | _, _ => False

/-- Whether no axis is moved. -/
def NoAxis (events : List PadEvent) : Prop :=
  ∀ e ∈ events, ∀ axis value, e ≠ .moved axis value

/-- A button of a gamepad that was pressed and not released since, nor lost with its gamepad. -/
def Held (events : List PadEvent) (p : PadButton) : Prop :=
  ∃ before after, events = before ++ .pressed p :: after ∧ .released p ∉ after
    ∧ .disconnected ∉ after

/-- A button of the computer for which some button of a gamepad is held. -/
def HeldFor (events : List PadEvent) (button : Button) : Prop :=
  ∃ p : PadButton, p.standsFor = some button ∧ Held events p

/-- A button of the computer about which the last event is the release of one button of a gamepad
while another that stands for it is held. -/
def Dropped (events : List PadEvent) (button : Button) : Prop :=
  ∃ before p after, events = before ++ .released p :: after ∧ p.standsFor = some button
    ∧ (∃ q, q ≠ p ∧ q.standsFor = some button ∧ Held before q) ∧ ∀ e ∈ after, ¬e.Concerns button

variable {events : List PadEvent} {e : PadEvent} {p : PadButton} {button : Button}

theorem held_concat :
    Held (events ++ [e]) p
      ↔ e = .pressed p ∨ Held events p ∧ e ≠ .released p ∧ e ≠ .disconnected := by
  constructor
  · rintro ⟨before, after, hsplit, hreleased, hlost⟩
    rcases concat_eq_split.mp hsplit with ⟨-, rfl, -⟩ | ⟨rest, rfl, hevents⟩
    · exact Or.inl rfl
    · simp only [List.mem_append, List.mem_singleton, not_or] at hreleased hlost
      exact Or.inr ⟨⟨before, rest, hevents, hreleased.1, hlost.1⟩, Ne.symm hreleased.2,
        Ne.symm hlost.2⟩
  · rintro (rfl | ⟨⟨before, after, rfl, hreleased, hlost⟩, hne, hne'⟩)
    · exact ⟨events, [], rfl, by simp, by simp⟩
    · refine ⟨before, after ++ [e], by simp, ?_, ?_⟩
      · simp [hreleased, Ne.symm hne]
      · simp [hlost, Ne.symm hne']

/-- An event about something else changes nothing about a button. -/
theorem held_concat_of_not_concerns (h : ¬e.Concerns button) (hp : p.standsFor = some button) :
    Held (events ++ [e]) p ↔ Held events p := by
  have hpressed : e ≠ .pressed p := fun he => h (by rw [he]; exact hp)
  have hreleased : e ≠ .released p := fun he => h (by rw [he]; exact hp)
  have hlost : e ≠ .disconnected := fun he => h (by rw [he]; exact trivial)
  simp [held_concat, hpressed, hreleased, hlost]

theorem heldFor_concat_of_not_concerns (h : ¬e.Concerns button) :
    HeldFor (events ++ [e]) button ↔ HeldFor events button := by
  constructor
  · rintro ⟨p, hp, hheld⟩
    exact ⟨p, hp, (held_concat_of_not_concerns h hp).mp hheld⟩
  · rintro ⟨p, hp, hheld⟩
    exact ⟨p, hp, (held_concat_of_not_concerns h hp).mpr hheld⟩

theorem dropped_concat :
    Dropped (events ++ [e]) button
      ↔ (∃ p, e = .released p ∧ p.standsFor = some button
            ∧ ∃ q, q ≠ p ∧ q.standsFor = some button ∧ Held events q)
        ∨ Dropped events button ∧ ¬e.Concerns button := by
  constructor
  · rintro ⟨before, p, after, hsplit, hp, hother, hquiet⟩
    rcases concat_eq_split.mp hsplit with ⟨rfl, rfl, -⟩ | ⟨rest, rfl, hevents⟩
    · exact Or.inl ⟨p, rfl, hp, hother⟩
    · rw [List.forall_mem_append] at hquiet
      exact Or.inr ⟨⟨before, p, rest, hevents, hp, hother, hquiet.1⟩, hquiet.2 e (by simp)⟩
  · rintro (⟨p, rfl, hp, hother⟩ | ⟨⟨before, p, after, rfl, hp, hother, hquiet⟩, hlast⟩)
    · exact ⟨events, p, [], rfl, hp, hother, by simp⟩
    · refine ⟨before, p, after ++ [e], by simp, hp, hother, ?_⟩
      rw [List.forall_mem_append]
      exact ⟨hquiet, by simpa using hlast⟩

/-- What is still held after a release about a button is dropped. -/
theorem dropped_of_released (hp : p.standsFor = some button)
    (h : HeldFor (events ++ [.released p]) button) : Dropped (events ++ [.released p]) button := by
  obtain ⟨q, hq, hheld⟩ := h
  rw [held_concat] at hheld
  rcases hheld with hpress | ⟨hbefore, hne, -⟩
  · cases hpress
  · have hother : q ≠ p := by
      rintro rfl
      exact hne rfl
    exact dropped_concat.mpr (Or.inl ⟨p, rfl, hp, q, hother, hq, hbefore⟩)

theorem not_heldFor_disconnected : ¬HeldFor (events ++ [.disconnected]) button := by
  rintro ⟨q, -, hheld⟩
  rw [held_concat] at hheld
  rcases hheld with hpress | ⟨-, -, hne⟩
  · cases hpress
  · exact hne rfl

theorem dropped_concat_of_not_concerns (h : ¬e.Concerns button) :
    Dropped (events ++ [e]) button ↔ Dropped events button := by
  rw [dropped_concat]
  constructor
  · rintro (⟨p, rfl, hp, -⟩ | ⟨hdropped, -⟩)
    · exact absurd hp h
    · exact hdropped
  · intro hdropped
    exact Or.inr ⟨hdropped, h⟩

/-- What is dropped is held. -/
theorem Dropped.heldFor (h : Dropped events button) : HeldFor events button := by
  induction events using List.reverseRecOn with
  | nil =>
    obtain ⟨before, p, after, hsplit, -⟩ := h
    simp at hsplit
  | append_singleton events e ih =>
    rcases dropped_concat.mp h with ⟨p, rfl, -, q, hne, hq, hheld⟩ | ⟨hdropped, hother⟩
    · refine ⟨q, hq, held_concat.mpr (Or.inr ⟨hheld, ?_, nofun⟩)⟩
      intro hsame
      exact hne (by injection hsame with hsame; exact hsame.symm)
    · exact (heldFor_concat_of_not_concerns hother).mpr (ih hdropped)

/-- A direction is never dropped. -/
theorem not_dropped_direction (ha : button ≠ .a) (hb : button ≠ .b) : ¬Dropped events button := by
  rintro ⟨before, p, after, -, hp, ⟨q, hne, hq, -⟩, -⟩
  exact hne (PadButton.eq_of_direction ha hb hq hp)

end PadEvent

namespace Gamepad

open PadEvent

variable {events : List PadEvent} {e : PadEvent} {g : Gamepad} {button : Button}

/-! ## Events and bits -/

theorem pressed_handle_of_not_concerns (h : ¬e.Concerns button)
    (haxis : ∀ axis value, e ≠ .moved axis value) :
    (g.handle e).pressed button = g.pressed button := by
  cases e with
  | pressed p => exact (pressed_setButton g p true button).trans (if_neg h)
  | released p => exact (pressed_setButton g p false button).trans (if_neg h)
  | moved axis value => exact absurd rfl (haxis axis value)
  | disconnected => exact absurd trivial h
  | connected => rfl
  | ignored => rfl

/-- **Step lemma.**  The bit after one more event. -/
theorem pressed_step
    (ih : g.pressed button = true ↔ HeldFor events button ∧ ¬Dropped events button)
    (haxis : ∀ axis value, e ≠ .moved axis value) :
    (g.handle e).pressed button = true
      ↔ HeldFor (events ++ [e]) button ∧ ¬Dropped (events ++ [e]) button := by
  by_cases hconcerns : e.Concerns button
  · cases e with
    | pressed p =>
      -- the button itself is held now
      have hbit : (g.handle (.pressed p)).pressed button = true :=
        (pressed_setButton g p true button).trans (if_pos hconcerns)
      have hheld : HeldFor (events ++ [.pressed p]) button :=
        ⟨p, hconcerns, held_concat.mpr (Or.inl rfl)⟩
      simp [hbit, hheld, hconcerns, dropped_concat]
    | released p =>
      -- whatever is still held is another button, and it is dropped
      have hbit : (g.handle (.released p)).pressed button = false :=
        (pressed_setButton g p false button).trans (if_pos hconcerns)
      simp only [hbit, Bool.false_eq_true, false_iff, not_and, not_not]
      exact dropped_of_released hconcerns
    | disconnected =>
      have hbit : (g.handle .disconnected).pressed button = false := by cases button <;> rfl
      simp [hbit, not_heldFor_disconnected]
    | moved axis value => exact absurd rfl (haxis axis value)
    | connected => exact absurd hconcerns id
    | ignored => exact absurd hconcerns id
  · rw [pressed_handle_of_not_concerns hconcerns haxis, ih,
      heldFor_concat_of_not_concerns hconcerns, dropped_concat_of_not_concerns hconcerns]

/-- **Run lemma.**  A bit is set if a button of the gamepad is held for it and none was dropped. -/
theorem pressed_iff (haxis : NoAxis events) (button : Button) :
    (events.foldl handle {}).pressed button = true
      ↔ HeldFor events button ∧ ¬Dropped events button := by
  induction events using List.reverseRecOn with
  | nil =>
    have hnone : ¬HeldFor [] button := by
      rintro ⟨p, -, before, after, hsplit, -⟩
      simp at hsplit
    have hbit : ({} : Gamepad).pressed button = false := by cases button <;> rfl
    simp [hbit, hnone]
  | append_singleton events e ih =>
    rw [NoAxis, List.forall_mem_append] at haxis
    rw [List.foldl_concat]
    exact pressed_step (ih haxis.1) (haxis.2 e (by simp))

theorem tilted_eq_false (haxis : NoAxis events) (button : Button) :
    (events.foldl handle {}).tilted button = false := by
  induction events using List.reverseRecOn with
  | nil => cases button <;> rfl
  | append_singleton events e ih =>
    rw [NoAxis, List.forall_mem_append] at haxis
    rw [List.foldl_concat]
    cases e with
    | pressed p => exact (tilted_setButton _ p true button).trans (ih haxis.1)
    | released p => exact (tilted_setButton _ p false button).trans (ih haxis.1)
    | moved axis value => exact absurd rfl (haxis.2 _ (by simp) axis value)
    | disconnected => cases button <;> rfl
    | connected => exact ih haxis.1
    | ignored => exact ih haxis.1

theorem holds_iff (haxis : NoAxis events) (button : Button) :
    (events.foldl handle {}).holds button = true
      ↔ HeldFor events button ∧ ¬Dropped events button := by
  rw [holds_eq, tilted_eq_false haxis, Bool.or_false, pressed_iff haxis]

end Gamepad

/-! ## The byte that a program reads -/

theorem or_and_mask (x y z : UInt8) : (x ||| y) &&& z = x &&& z ||| y &&& z := by
  apply UInt8.toBitVec_inj.mp
  simp [BitVec.and_or_distrib_right]

/-- Every button has a bit of its own. -/
theorem Button.mask_and_mask (button other : Button) :
    button.mask &&& other.mask ≠ 0 ↔ button = other := by
  cases button <;> cases other <;> decide

namespace Windowed.Session

open PadEvent

/-- A mask with the bits of those buttons of a row that are chosen. -/
def withBits (chosen : Button → Bool) (buttons : List Button) (mask : UInt8) : UInt8 :=
  buttons.foldl (fun mask button => if chosen button then mask ||| button.mask else mask) mask

theorem withBits_cons (chosen : Button → Bool) (first : Button) (rest : List Button)
    (mask : UInt8) :
    withBits chosen (first :: rest) mask
      = withBits chosen rest (if chosen first then mask ||| first.mask else mask) := rfl

theorem withBits_bit (chosen : Button → Bool) (buttons : List Button) (mask : UInt8)
    (button : Button) :
    withBits chosen buttons mask &&& button.mask ≠ 0
      ↔ mask &&& button.mask ≠ 0 ∨ button ∈ buttons ∧ chosen button = true := by
  induction buttons generalizing mask with
  | nil => simp [withBits]
  | cons first rest ih =>
    rw [withBits_cons, ih, List.mem_cons]
    cases hchosen : chosen first with
    | false =>
      have hother : chosen button = true → button ≠ first := by
        rintro hbutton rfl
        exact absurd (hchosen.symm.trans hbutton) Bool.false_ne_true
      rw [if_neg Bool.false_ne_true]
      grind
    | true =>
      have hbit := Button.mask_and_mask first button
      rw [if_pos rfl, or_and_mask, ne_eq, UInt8.or_eq_zero_iff]
      grind

theorem withBits_high (chosen : Button → Bool) (buttons : List Button) {mask : UInt8}
    (h : mask &&& 0xC0 = 0) : withBits chosen buttons mask &&& 0xC0 = 0 := by
  induction buttons generalizing mask with
  | nil => exact h
  | cons first rest ih =>
    rw [withBits_cons]
    apply ih
    split
    · have hfirst : first.mask &&& 0xC0 = 0 := by cases first <;> decide
      rw [or_and_mask, h, hfirst]
      rfl
    · exact h

theorem heldMask_eq (g : Gamepad) (pass : Pass) :
    heldMask g pass
      = withBits (fun button => pass.keys.contains (keyOf button) || g.holds button) Button.all
          0 := rfl

/-- The bits of the mask are the buttons that a key or the gamepad holds. -/
theorem heldMask_bit (g : Gamepad) (pass : Pass) (button : Button) :
    heldMask g pass &&& button.mask ≠ 0
      ↔ pass.keys.contains (keyOf button) = true ∨ g.holds button = true := by
  have hall : button ∈ Button.all := by cases button <;> decide
  rw [heldMask_eq, withBits_bit, ← Bool.or_eq_true]
  simp [hall]

/-! ## Passes -/

variable {setup : Setup} {script : Nat → Pass} {s : Session}

/-- The events of the first passes of a script. -/
def padEvents (script : Nat → Pass) (n : Nat) : List PadEvent :=
  (List.range n).flatMap fun i => (script i).events

theorem padEvents_succ (script : Nat → Pass) (n : Nat) :
    padEvents script (n + 1) = padEvents script n ++ (script n).events := by
  simp [padEvents, List.range_succ]

theorem noAxis_padEvents (h : ∀ n, NoAxis (script n).events) (n : Nat) :
    NoAxis (padEvents script n) := by
  intro e he
  obtain ⟨i, -, hi⟩ := List.mem_flatMap.mp he
  exact h i e hi

theorem gamepad_prepare (hpads : setup.padsAvailable = true) (pass : Pass) (s : Session) :
    (s.prepare setup pass).1.gamepad = pass.events.foldl Gamepad.handle s.gamepad := by
  rw [← gamepad_afterSaving hpads]
  exact congrArg Surroundings.gamepad (surroundings_prepare setup pass s)

theorem gamepad_next (hpads : setup.padsAvailable = true) (pass : Pass) (s : Session) :
    (s.next setup pass).gamepad = pass.events.foldl Gamepad.handle s.gamepad := by
  rw [← gamepad_afterSaving hpads]
  exact congrArg Surroundings.gamepad (surroundings_next setup pass s)

/-- **Run lemma.**  The gamepad has seen the events of all passes. -/
theorem gamepad_sessionAt (hpads : setup.padsAvailable = true) (script : Nat → Pass) (s : Session)
    (n : Nat) :
    (sessionAt setup script s n).gamepad
      = (padEvents script n).foldl Gamepad.handle s.gamepad := by
  induction n with
  | zero => rfl
  | succ n ih => rw [sessionAt, gamepad_next hpads, ih, padEvents_succ, List.foldl_append]

/-- How the buttons of the computer follow keys and gamepad in pass `n` of a script, in the session
`s` that is about to run the frame of that pass. -/
structure FollowsPad (script : Nat → Pass) (n : Nat) (s : Session) : Prop where
  /-- A button is down on the gamepad if one is held for it and none was dropped. -/
  holds_iff : ∀ button, s.gamepad.holds button = true
    ↔ HeldFor (padEvents script (n + 1)) button ∧ ¬Dropped (padEvents script (n + 1)) button
  /-- So it is down as long as one is held for it, unless one was dropped. -/
  exact_iff : ∀ button,
    (s.gamepad.holds button = true ↔ HeldFor (padEvents script (n + 1)) button)
      ↔ ¬Dropped (padEvents script (n + 1)) button
  /-- Directions are never dropped. -/
  direction : ∀ button, button ≠ .a → button ≠ .b →
    ¬Dropped (padEvents script (n + 1)) button
  /-- The byte that a program reads is the mask of the buttons. -/
  written : s.machine.memory.read inputAddress = s.machine.buttons
  /-- Its bits are the keys and the buttons of the gamepad together. -/
  bit_iff : ∀ button, s.machine.buttons &&& button.mask ≠ 0
    ↔ (script n).keys.contains (keyOf button) = true ∨ s.gamepad.holds button = true
  /-- It has no other bits. -/
  high : s.machine.buttons &&& 0xC0 = 0
  /-- The byte shows what is held if every button that was dropped has its key held. -/
  shows_iff :
    (∀ button, s.machine.buttons &&& button.mask ≠ 0
        ↔ (script n).keys.contains (keyOf button) = true
          ∨ HeldFor (padEvents script (n + 1)) button)
      ↔ ∀ button, Dropped (padEvents script (n + 1)) button →
          (script n).keys.contains (keyOf button) = true

/-- **A button follows the gamepad but for what is dropped**, in every pass of a session that starts
with nothing held and has no axis moved. -/
theorem followsPad (hpads : setup.padsAvailable = true) (haxis : ∀ n, NoAxis (script n).events)
    (hstart : s.gamepad = {}) (n : Nat) :
    FollowsPad script n ((sessionAt setup script s n).prepare setup (script n)).1 := by
  have hgamepad : ((sessionAt setup script s n).prepare setup (script n)).1.gamepad
      = (padEvents script (n + 1)).foldl Gamepad.handle {} := by
    rw [gamepad_prepare hpads, gamepad_sessionAt hpads, padEvents_succ, List.foldl_append, hstart]
  have hholds := fun button => Gamepad.holds_iff (noAxis_padEvents haxis (n + 1)) button
  have hbits : ∀ button,
      ((sessionAt setup script s n).prepare setup (script n)).1.machine.buttons &&& button.mask ≠ 0
        ↔ (script n).keys.contains (keyOf button) = true
          ∨ ((sessionAt setup script s n).prepare setup (script n)).1.gamepad.holds button = true :=
    heldMask_bit _ _
  constructor
  case holds_iff =>
    rw [hgamepad]
    exact hholds
  case exact_iff =>
    intro button
    rw [hgamepad, hholds]
    constructor
    · intro h hdropped
      exact (h.mpr hdropped.heldFor).2 hdropped
    · intro hkept
      exact ⟨And.left, fun hheld => ⟨hheld, hkept⟩⟩
  case direction => exact fun button ha hb => not_dropped_direction ha hb
  case written => exact Memory.read_write_self _ _ (show inputAddress.toNat < 0xC100 by decide)
  case bit_iff => exact hbits
  case high => exact withBits_high _ _ rfl
  case shows_iff =>
    apply forall_congr'
    intro button
    have hlost : Dropped (padEvents script (n + 1)) button
      → HeldFor (padEvents script (n + 1)) button := Dropped.heldFor
    rw [hbits, hgamepad, hholds]
    tauto

/-- South and the left trigger are pressed in one pass, and the trigger is released in the next. -/
def tapScript : Nat → Pass
  | 0 => ⟨[], [.pressed .south, .pressed .leftTrigger2]⟩
  | 1 => ⟨[], [.released .leftTrigger2]⟩
  | _ => ⟨[], []⟩

theorem noAxis_tapScript (n : Nat) : NoAxis (tapScript n).events := by
  intro e he axis value
  match n, he with
  | 0, he => rcases List.mem_pair.mp he with rfl | rfl <;> nofun
  | 1, he => rcases List.mem_singleton.mp he with rfl; nofun
  | _ + 2, he => exact absurd he List.not_mem_nil

/-- A session with a gamepad, at its start. -/
def tapStart : Session :=
  start 1 .bare Machine.initial { debug := false }

/-- The setup of that session. -/
def tapSetup : Setup :=
  { image := [], statePath := "", padsAvailable := true }

/-- The pass in which the trigger is released. -/
theorem followsPad_tapScript :
    tapSetup.padsAvailable = true ∧ tapStart.gamepad = {} ∧ (∀ n, NoAxis (tapScript n).events)
      ∧ FollowsPad tapScript 1
        ((sessionAt tapSetup tapScript tapStart 1).prepare tapSetup (tapScript 1)).1 :=
  ⟨rfl, rfl, noAxis_tapScript, followsPad rfl noAxis_tapScript rfl 1⟩

/-- The trigger drops South, which is still held: in the second pass the byte shows nothing. -/
theorem tapScript_drops :
    Held (padEvents tapScript 2) .south
      ∧ ((padEvents tapScript 2).foldl Gamepad.handle {}).a = false
      ∧ heldMask ((padEvents tapScript 2).foldl Gamepad.handle {}) (tapScript 1) = 0 := by
  refine ⟨⟨[], [.pressed .leftTrigger2, .released .leftTrigger2], rfl, ?_, ?_⟩, rfl, rfl⟩
  · simp
  · simp

end Windowed.Session

end FantasyComputer
