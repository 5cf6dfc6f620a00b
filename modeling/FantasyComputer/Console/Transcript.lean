/-
# FantasyComputer.Console.Transcript — what a session prints.

A session prints on two channels: its results on one, and reports about itself on the other.  A
report is a line with the name of its level in front.  Reports of level `debug` appear only when
they are asked for.  The notices that the machine has collected are reported in their order.
-/
import FantasyComputer.Machine

namespace FantasyComputer

/-- What was printed so far. -/
structure Transcript where
  /-- Whether reports of level `debug` appear. -/
  debug : Bool
  /-- The results. -/
  out : String := ""
  /-- The reports. -/
  err : String := ""

namespace Transcript

/-- Prints a text among the results. -/
def print (t : Transcript) (text : String) : Transcript :=
  { t with out := t.out ++ text }

/-- Prints a line among the results. -/
def printLine (t : Transcript) (line : String) : Transcript :=
  { t with out := t.out ++ line ++ "\n" }

/-- Prints lines among the results. -/
def printLines (t : Transcript) (lines : List String) : Transcript :=
  lines.foldl printLine t

/-- Prints a line among the reports. -/
def complain (t : Transcript) (line : String) : Transcript :=
  { t with err := t.err ++ line ++ "\n" }

/-- Makes a report. -/
def report (t : Transcript) (level : Level) (text : String) : Transcript :=
  if level = .debug ∧ !t.debug then t
  else t.complain ("[" ++ level.name ++ "] " ++ text)

/-- Reports the notices that a machine has collected. -/
def reportNotices (t : Transcript) (notices : Array Notice) : Transcript :=
  notices.foldl (fun t n => t.report n.level n.text) t

end Transcript

/-- Takes the notices that a machine has collected. -/
def Machine.takeJournal (m : Machine) : Array Notice × Machine :=
  (m.journal, { m with journal := #[] })

end FantasyComputer
