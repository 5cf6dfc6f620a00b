/-
# FantasyComputer.Console.FileSystem — the files that a session reads and writes.

A `Place` is given by the names on the way from the root.  A `FileSystem` holds files by their
places, and knows which place is the session's own directory.  Besides the directories that are
listed, a place is a directory exactly when some file lies in it.  There are no links.  The root
holds at least `dev`, and `dev` holds `null`, which is empty and keeps nothing.

A path is followed part by part from the session's directory, or from the root if it starts with a
slash, and every part needs a directory to start from (`follow`).  Empty parts and single dots stay
where they are, two dots go back, though not beyond the root, and any other part names what lies in
the directory.

A path or a name that is too long is refused (`longestPath`, `longestName`).  A file is never read
through a path that ends in a slash, and a path that ends in a name and a slash is never written,
whether or not there is such a file (`read`, `write`).

What a session finds and leaves in its own directory is a `Directory`: files by name, where a name
is a path without detours, such as `roms/game.xvm`.
-/
import FantasyComputer.Word

namespace FantasyComputer

/-- Why a file cannot be read or written. -/
inductive FileError where
  | notFound
  | notADirectory
  | isADirectory
  | nameTooLong
  deriving DecidableEq, Repr

namespace FileError

/-- The number by which a system knows a file error. -/
def number : FileError → Nat
  | notFound => 2
  | notADirectory => 20
  | isADirectory => 21
  | nameTooLong => 36

/-- What a file error says. -/
def reason : FileError → String
  | notFound => "No such file or directory"
  | notADirectory => "Not a directory"
  | isADirectory => "Is a directory"
  | nameTooLong => "File name too long"

/-- The file error of a number. -/
def ofNumber? (n : Nat) : Option FileError :=
  [notFound, notADirectory, isADirectory, nameTooLong].find? (·.number = n)

/-- The wording of a file error. -/
def message (e : FileError) : String :=
  e.reason ++ " (os error " ++ toString e.number ++ ")"

end FileError

/-! ## Places -/

/-- Where a file or a directory lies: the names on the way from the root. -/
abbrev Place := List String

namespace Place

/-- The directory that a place lies in; the root lies in itself. -/
def parent (place : Place) : Place :=
  place.dropLast

/-- What has a name in a directory. -/
def child (name : String) (place : Place) : Place :=
  place ++ [name]

/-- The device that is empty and keeps nothing. -/
def null : Place :=
  ["dev", "null"]

end Place

/-- What is found at a place. -/
inductive Entry where
  | file (contents : Bytes)
  | directory
  | missing
  deriving DecidableEq, Repr

/-- Files and directories by their places. -/
structure FileSystem where
  /-- The session's own directory, where a path starts that does not start with a slash. -/
  home : Place
  files : List (Place × Bytes)
  /-- Directories that are there whether or not a file lies in them. -/
  directories : List Place

namespace FileSystem

/-! ## What lies where -/

/-- The contents of the file at a place. -/
def get? (s : FileSystem) (place : Place) : Option Bytes :=
  s.files.lookup place

/-- Replaces the contents of the file at a place, or adds the file. -/
def put (s : FileSystem) (place : Place) (contents : Bytes) : FileSystem :=
  if s.files.any (·.1 == place) then
    { s with files := s.files.map fun file => if file.1 == place then (place, contents) else file }
  else { s with files := s.files ++ [(place, contents)] }

/-- Whether a place is a directory whatever files there are: the session's own, one that is listed,
that of the devices, or one on the way to these. -/
def isStanding (s : FileSystem) (place : Place) : Bool :=
  (s.home :: Place.null.parent :: s.directories).any (place.isPrefixOf ·)

/-- Whether a place is on the way to a file. -/
def isPassed (s : FileSystem) (place : Place) : Bool :=
  s.files.any (place.isPrefixOf ·.1)

/-- What is found at a place. -/
def entry (s : FileSystem) (place : Place) : Entry :=
  if s.isStanding place then .directory
  else if place = Place.null then .file []
  else
    match s.get? place with
    | some contents => .file contents
    | none => if s.isPassed place then .directory else .missing

/-- Puts a file at a place. -/
def store (s : FileSystem) (contents : Bytes) (place : Place) : FileSystem :=
  if place = Place.null then s else s.put place contents

/-! ## Following a path -/

/-- The most bytes in a path. -/
def longestPath : Nat := 4095

/-- The most bytes in a name. -/
def longestName : Nat := 255

/-- Goes on from a directory by one part of a path. -/
def step (place : Place) (part : String) : Except FileError Place :=
  if part = "" ∨ part = "." then .ok place
  else if part = ".." then .ok place.parent
  else if longestName < part.utf8ByteSize then .error .nameTooLong
  else .ok (place.child part)

/-- Follows the parts of a path from a place. -/
def follow (s : FileSystem) (place : Place) : List String → Except FileError Place
  | [] => .ok place
  | part :: rest =>
    match s.entry place with
    | .missing => .error .notFound
    | .file _ => .error .notADirectory
    | .directory =>
      match step place part with
      | .error e => .error e
      | .ok place => s.follow place rest

/-- Follows the parts of a path from where the path starts. -/
def followFrom (s : FileSystem) (path : String) (parts : List String) : Except FileError Place :=
  s.follow (if path.startsWith "/" then [] else s.home) parts

/-- The parts of a path that may be followed at all. -/
def parts (path : String) : Except FileError (List String) :=
  if path = "" then .error .notFound
  else if longestPath < path.utf8ByteSize then .error .nameTooLong
  else .ok (path.splitToList (· = '/'))

/-- Whether a part of a path is the name of something. -/
def isName (part : String) : Bool :=
  part ≠ "" && part ≠ "." && part ≠ ".."

/-- The directory in which a path looks for its last name, if a slash stands after that name. -/
def slashed? (parts : List String) : Option (List String) :=
  match parts.reverse with
  | "" :: before =>
    match before.dropWhile (· = "") with
    | part :: rest => if isName part then some rest.reverse else none
    | [] => none
  | _ => none

/-! ## Reading and writing -/

/-- Reads a file. -/
def read (s : FileSystem) (path : String) : Except FileError Bytes := do
  let place ← s.followFrom path (← parts path)
  match s.entry place with
  | .file contents => return contents
  | .directory => throw .isADirectory
  | .missing => throw .notFound

/-- The place at which a file may be written. -/
def target (s : FileSystem) (path : String) : Except FileError Place := do
  let parts ← parts path
  match slashed? parts with
  | some before =>
    let place ← s.followFrom path before
    match s.entry place with
    | .file _ => throw .notADirectory
    | .directory => throw .isADirectory
    | .missing => throw .notFound
  | none =>
    let place ← s.followFrom path parts
    match s.entry place with
    | .directory => throw .isADirectory
    | _ => return place

/-- Writes a file. -/
def write (s : FileSystem) (path : String) (contents : Bytes) : Except FileError FileSystem :=
  (s.target path).map (s.store contents)

end FileSystem

/-! ## The session's own directory -/

/-- Files by name. -/
structure Directory where
  files : List (String × Bytes)

namespace FileSystem

/-- A file system with files by name in the session's own directory. -/
def holding (s : FileSystem) (d : Directory) : FileSystem :=
  let files := d.files.map fun (name, contents) =>
    (s.home ++ name.splitToList (· = '/'), contents)
  { s with files := files ++ s.files }

/-- The files in the session's own directory by name. -/
def here (s : FileSystem) : Directory :=
  { files := s.files.filterMap fun (place, contents) =>
      (s.home.isPrefixOf? place).map fun names => ("/".intercalate names, contents) }

/-- A file system without files, in which the session's directory lies among the temporary ones. -/
def bare : FileSystem :=
  { home := ["tmp", "session"]
    files := []
    directories := [] }

end FileSystem

end FantasyComputer
