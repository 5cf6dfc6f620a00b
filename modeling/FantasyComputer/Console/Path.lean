/-
# FantasyComputer.Console.Path — the name of a save state file.

The save state of a cartridge lies beside it under the same name with another extension.  The
extension is the last dot of a name and what follows it, unless the dot comes first.  What stands
after the name, slashes and single dots, goes with it.  A path without a name, such as `/`, `.` or
`a/..`, stays as it is.

One name is special: two dots, then anything without a dot, as in `..a`.  Without its extension it is
the parent directory `..`, which has no name of its own to extend, and that is what is left of it.
-/

namespace FantasyComputer.Path

/-- Drops slashes and single dots after a slash from the front of a reversed path. -/
def withoutTrail : List Char → List Char
  | '/' :: rest => withoutTrail rest
  | '.' :: '/' :: rest => withoutTrail ('/' :: rest)
  | path => path
termination_by path => path.length

/-- A path that ends in a name: what comes before it, the name, and whether anything follows. -/
structure Named where
  parent : List Char
  name : List Char
  trailed : Bool
  deriving DecidableEq, Repr

/-- Finds the name at the end of a path, if there is one. -/
def named? (path : List Char) : Option Named :=
  let whole := withoutTrail path.reverse
  let name := (whole.takeWhile (· ≠ '/')).reverse
  if name = [] ∨ name = ['.'] ∨ name = ['.', '.'] then none
  else
    some { parent := (whole.dropWhile (· ≠ '/')).reverse
           name
           trailed := whole.length < path.length }

/-- A name without its extension. -/
def stem (name : List Char) : List Char :=
  let before := ((name.reverse.dropWhile (· ≠ '.')).drop 1).reverse
  if before = [] then name else before

/-- A path with the extension of its name replaced, or added if there is none. -/
def withExtension (path extension : String) : String :=
  match named? path.toList with
  | none => path
  | some n =>
    if stem n.name = ['.'] ∧ !n.trailed then String.ofList (n.parent ++ ['.', '.'])
    else String.ofList (n.parent ++ stem n.name ++ ['.']) ++ extension

/-- The path of the save state that belongs to a cartridge. -/
def saveState (cartridge : String) : String :=
  withExtension cartridge "state"

end FantasyComputer.Path
