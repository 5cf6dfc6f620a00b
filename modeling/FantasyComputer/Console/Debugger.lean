/-
# FantasyComputer.Console.Debugger — stepping through a program by commands.

A command is one line.  `q` ends the session, `d` shows the registers, `r` runs up to a breakpoint,
a number steps that often, and any other line, an empty one too, steps once.  A run executes at most
as many instructions as the session allows.  Its first instruction is executed even at a breakpoint,
so that a run can leave the one it stopped at.

No command executes an instruction once the machine has halted.

What is typed is bytes.  A session ends before a line that is no text, as it does where there are no
more lines.
-/
import FantasyComputer.Console.Transcript
import FantasyComputer.Machine.Frame
import FantasyComputer.Text.Blank
import FantasyComputer.Text.Decimal

namespace FantasyComputer.Debugger

/-! ## Commands -/

/-- What a line asks for. -/
inductive Command where
  | quit
  | dump
  | run
  | step (count : Nat)
  deriving DecidableEq, Repr

/-- Reads a line. -/
def Command.read (line : String) : Command :=
  match Blank.trimmed line with
  | "q" | "quit" => quit
  | "d" | "dump" => dump
  | "r" | "run" => run
  | text => step ((Decimal.counter? text).getD 1)

/-! ## Sessions -/

/-- The machine, the number of instructions executed, and what was printed. -/
structure Session where
  machine : Machine
  steps : Nat
  transcript : Transcript

/-- Instructions in a run when no limit is given. -/
def defaultLimit : Nat := 100000

/-- What is asked before each line. -/
def prompt : String :=
  "step> "

namespace Session

/-- Prints a line. -/
@[inline]
def say (s : Session) (line : String) : Session :=
  { s with transcript := s.transcript.printLine line }

/-- Executes an instruction and counts it. -/
def stepOne (s : Session) : Session :=
  let (notices, machine) := s.machine.stepOne.takeJournal
  { machine, steps := s.steps + 1, transcript := s.transcript.reportNotices notices }

/-- Shows the registers. -/
def showRegisters (s : Session) : Session :=
  let registers := s.machine.summary
  s.say registers

/-- Shows the registers and the next instruction. -/
def showPosition (s : Session) : Session :=
  let line := "Next: " ++ s.machine.nextLine
  s.showRegisters.say line

/-- Executes instructions until the machine halts or the program counter stands on a breakpoint;
the first one is executed even there. -/
def runOn (s : Session) (first : Bool) : (remaining : Nat) → Session
  | 0 => s
  | remaining + 1 =>
    if !s.machine.running then s.say "*** Halted ***"
    else if !first && s.machine.atBreakpoint then
      let line := "*** Breakpoint: " ++ s.machine.nextLine ++ " ***"
      s.say line
    else s.stepOne.runOn false remaining

/-- The most steps of one command that are shown one by one. -/
def shownSteps : Nat := 20

/-- Executes the remaining steps of a command and shows them, or only the last if they are many. -/
def stepOn (s : Session) (count : Nat) : (remaining : Nat) → Session
  | 0 => s
  | remaining + 1 =>
    if !s.machine.running then s.say "  *** Halted ***"
    else
      let line := s.machine.nextLine
      let s := s.stepOne
      let s :=
        if count ≤ shownSteps then s.say ("  " ++ line)
        else if remaining = 0 then
          s.say ("  ... " ++ toString count ++ " steps, last: " ++ line)
        else s
      s.stepOn count remaining

/-- Carries out a command; nothing is left to do after `quit`. -/
def perform (limit : Nat) (command : Command) (s : Session) : Option Session :=
  match command with
  | .quit => none
  | .dump => some s.showRegisters
  | .run => some (s.runOn true limit).showPosition
  | .step count => some (s.stepOn count count).showPosition

/-- The start of a session. -/
def greet (s : Session) : Session :=
  (s.say "Step mode: Enter=step, N<enter>=step N, r=run to break, d=dump, q=quit").showPosition

/-- Asks for a line. -/
def ask (s : Session) : Session :=
  { s with transcript := s.transcript.print prompt }

/-- The end of a session. -/
def farewell (s : Session) : Session :=
  let line := "Total: " ++ toString s.steps ++ " steps, " ++ toString s.machine.cycles ++ " cycles"
  s.say line

/-- Asks for lines and carries them out, until one ends the session or there are no more. -/
def converse (limit : Nat) (s : Session) : List String → Session
  | [] => s.ask
  | line :: rest =>
    let s := s.ask
    match perform limit (Command.read line) s with
    | none => s
    | some s => s.converse limit rest

/-- A whole session over the lines of an input. -/
def run (limit : Nat) (lines : List String) (s : Session) : Session :=
  (s.greet.converse limit lines).farewell

end Session

/-! ## Input -/

/-- What is typed, which need not be text. -/
structure Input where
  bytes : Bytes

/-- Text that is typed. -/
instance Input.ofText : Coe String Input where
  coe text := { bytes := text.toUTF8.data.toList }

/-- The byte that ends a line. -/
def newline : UInt8 := 0x0A

/-- The texts of lines, up to the first that is no text. -/
def texts : List Bytes → List String
  | [] => []
  | line :: rest =>
    match String.fromUTF8? ⟨line.toArray⟩ with
    | some text => text :: texts rest
    | none => []

/-- The lines of an input, which ends before a line that is no text.  A last line without its end
counts if it is not empty. -/
def lines (input : Input) : List String :=
  match (input.bytes.splitOn newline).reverse with
  | [] :: rest => texts rest.reverse
  | all => texts all.reverse

end FantasyComputer.Debugger
