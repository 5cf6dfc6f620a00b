/-
# FantasyComputer.Proofs.TypedLines — the lines of what is typed.

Lines that are typed one after another, each with its end, are read as these lines (`lines_typed`),
whatever text they hold: the byte that ends a line is part of no other character.  A line that is no
text is not read, and nothing that is typed after it is (`lines_damaged`).
-/
import FantasyComputer.Console.Debugger
import Mathlib

namespace FantasyComputer.Debugger

/-! ## Texts as bytes -/

/-- The bytes of a text. -/
def bytesOf (text : String) : Bytes :=
  text.toUTF8.data.toList

theorem fromUTF8?_bytesOf (text : String) :
    String.fromUTF8? ⟨(bytesOf text).toArray⟩ = some text := by
  have hvalid : text.toUTF8.IsValidUTF8 := text.isValidUTF8
  show String.fromUTF8? text.toUTF8 = some text
  rw [String.fromUTF8?, dif_pos hvalid]
  rfl

theorem bytesOf_ofList (chars : List Char) :
    bytesOf (String.ofList chars) = chars.flatMap String.utf8EncodeChar := by
  show (String.ofList chars).toByteArray.data.toList = _
  rw [String.toByteArray_ofList]
  simp [List.utf8Encode]

/-- Of a character of several bytes none ends a line. -/
theorem eq_newline_of_mem {c : Char} (h : newline ∈ String.utf8EncodeChar c) : c = '\n' := by
  have hbyte : ∀ n : Nat, n % 256 ≠ 10 → newline ≠ UInt8.ofNat n := by
    intro n hn hsame
    have hvalue := congrArg UInt8.toNat hsame
    rw [UInt8.toNat_ofNat'] at hvalue
    exact hn hvalue.symm
  unfold String.utf8EncodeChar at h
  simp only at h
  split at h
  · next hsmall =>
    have hvalue := congrArg UInt8.toNat (List.mem_singleton.mp h)
    rw [UInt8.toNat_ofNat', Nat.mod_eq_of_lt (by omega)] at hvalue
    exact Char.ext (UInt32.toNat_inj.mp hvalue.symm)
  · -- every byte of a longer character is 128 or more
    split at h
    · simp only [List.mem_cons, List.not_mem_nil, or_false] at h
      rcases h with h | h <;> exact absurd h (hbyte _ (by omega))
    · split at h
      · simp only [List.mem_cons, List.not_mem_nil, or_false] at h
        rcases h with h | h | h <;> exact absurd h (hbyte _ (by omega))
      · simp only [List.mem_cons, List.not_mem_nil, or_false] at h
        rcases h with h | h | h | h <;> exact absurd h (hbyte _ (by omega))

theorem newline_not_mem_bytesOf {text : String} (h : '\n' ∉ text.toList) :
    newline ∉ bytesOf text := by
  rw [← String.ofList_toList (s := text), bytesOf_ofList]
  intro hmem
  obtain ⟨c, hc, hbyte⟩ := List.mem_flatMap.mp hmem
  exact h (eq_newline_of_mem hbyte ▸ hc)

/-! ## Lines -/

/-- Lines as they are typed, each with its end. -/
def typed (texts : List String) : Bytes :=
  texts.flatMap fun text => bytesOf text ++ [newline]

variable {script : List String} {line rest : Bytes}

theorem splitOn_typed (h : ∀ text ∈ script, '\n' ∉ text.toList) (rest : Bytes) :
    (typed script ++ rest).splitOn newline = script.map bytesOf ++ rest.splitOn newline := by
  induction script with
  | nil => rfl
  | cons text script ih =>
    obtain ⟨hfirst, hlater⟩ := List.forall_mem_cons.mp h
    rw [typed, List.flatMap_cons, List.append_assoc, List.append_assoc, List.singleton_append,
      List.splitOn_append_cons_self_of_not_mem (newline_not_mem_bytesOf hfirst), ← typed,
      ih hlater]
    rfl

theorem texts_append (script : List String) (more : List Bytes) :
    texts (script.map bytesOf ++ more) = script ++ texts more := by
  induction script with
  | nil => rfl
  | cons text script ih =>
    rw [List.map_cons, List.cons_append, texts, fromUTF8?_bytesOf]
    exact congrArg (text :: ·) ih

theorem lines_of_splitOn {input : Input} {found : List Bytes}
    (h : input.bytes.splitOn newline = found ++ [[]]) : lines input = texts found := by
  unfold lines
  rw [h, List.reverse_append, List.reverse_singleton, List.singleton_append]
  exact congrArg texts found.reverse_reverse

/-- **Typed lines are read.** -/
theorem lines_typed (h : ∀ text ∈ script, '\n' ∉ text.toList) :
    lines { bytes := typed script } = script := by
  have hsplit := splitOn_typed h []
  rw [List.append_nil, List.splitOn_nil] at hsplit
  have hlines : lines { bytes := typed script } = texts (script.map bytesOf) :=
    lines_of_splitOn hsplit
  have htexts := texts_append script []
  rw [List.append_nil] at htexts
  rw [hlines, htexts]
  exact script.append_nil

/-- **A line that is no text ends the input.** -/
theorem lines_damaged (h : ∀ text ∈ script, '\n' ∉ text.toList) (hline : newline ∉ line)
    (hdamaged : String.fromUTF8? ⟨line.toArray⟩ = none) (rest : Bytes) :
    lines { bytes := typed script ++ line ++ newline :: rest } = script := by
  have hends : ∀ more, texts (script.map bytesOf ++ line :: more) = script := by
    intro more
    rw [texts_append, texts, hdamaged, List.append_nil]
  have hsplit := splitOn_typed h (line ++ newline :: rest)
  rw [← List.append_assoc, List.splitOn_append_cons_self_of_not_mem hline] at hsplit
  unfold lines
  rw [hsplit]
  split
  · next later hlast =>
    -- the end of the last line is dropped, and what is left still starts with the damaged one
    obtain ⟨more, hmore⟩ : ∃ more, later.reverse = script.map bytesOf ++ line :: more := by
      have hall := congrArg List.reverse hlast
      rw [List.reverse_reverse, List.reverse_cons] at hall
      refine ⟨(rest.splitOn newline).dropLast, ?_⟩
      have hdrop := congrArg List.dropLast hall
      rw [List.dropLast_concat] at hdrop
      rw [← hdrop, List.dropLast_append_of_ne_nil (List.cons_ne_nil _ _),
        List.dropLast_cons_of_ne_nil (List.splitOn_ne_nil _ _)]
    rw [hmore, hends]
  · rw [List.reverse_reverse, hends]

end FantasyComputer.Debugger
