/-
# FantasyComputer.Proofs.SessionFiles — what a session in a window writes.

Two keys write files, each in the passes in which it is struck: held there, and not held in the pass
before.  Whether it is struck can be told from the script alone (`struckAt`), and so can the number
of a screenshot: it is how often the key was struck before (`strikes`).  `writesAt` is the list of
what a pass writes by these rules.

`files_next` is the step: as long as its writes succeed, a pass carries out that list and nothing
else.  Over a run (`files_sessionAt`) what one pass wrote is still there at the end, unless a later
pass wrote the same file, and the only file that two passes write is the saved state.
`WindowRun.filesExact` puts this together for a run of the program, wherever its cartridge lies: the
screenshots stand in the directory of the run and the state stands beside the cartridge, and at every
other place of the file system there is in the end what was there before.
-/
import FantasyComputer.Console
import FantasyComputer.Proofs.FileNames
import FantasyComputer.Proofs.Surroundings

namespace FantasyComputer

open FileSystem

namespace Windowed.Session

variable {setup : Setup} {pass : Pass} {script : Nat → Pass} {s : Session} {f : FileSystem}
  {key : Key} {n m : Nat}

/-! ## Strikes -/

/-- Whether a key is struck in a pass of a script. -/
def struckAt (script : Nat → Pass) (key : Key) : Nat → Bool
  | 0 => (script 0).keys.contains key
  | n + 1 => (script (n + 1)).keys.contains key && !(script n).keys.contains key

/-- How often a key is struck in the first passes of a script. -/
def strikes (script : Nat → Pass) (key : Key) (n : Nat) : Nat :=
  Nat.count (fun i => struckAt script key i = true) n

/-- The picture on the screen as a file. -/
def picture (codec : Codec) (s : Session) : Bytes :=
  Png.encode 128 128 s.machine.screen.bytes codec

/-- What a pass writes in a session. -/
def writes (setup : Setup) (pass : Pass) (s : Session) : List (String × Bytes) :=
  (if s.struck pass .s then [(screenshotName s.screenshots, s.picture setup.pictures)] else [])
    ++ if s.struck pass .f5 then [(setup.statePath, s.machine.saveState.encode setup.states)] else []

/-- What a pass of a script writes, by the strikes of the script. -/
def writesAt (setup : Setup) (script : Nat → Pass) (s : Session) (n : Nat) :
    List (String × Bytes) :=
  (if struckAt script .s n then
      [(screenshotName (strikes script .s n), (sessionAt setup script s n).picture setup.pictures)]
    else [])
    ++ if struckAt script .f5 n then
        [(setup.statePath, (sessionAt setup script s n).machine.saveState.encode setup.states)]
      else []

/-- Whether the first passes write their lists, and nothing else. -/
def WritesLists (setup : Setup) (script : Nat → Pass) (s : Session) (n : Nat) : Prop :=
  ∀ k < n, (sessionAt setup script s k).files.writeAll (writesAt setup script s k)
    = .ok (sessionAt setup script s (k + 1)).files

theorem WritesLists.mono (h : WritesLists setup script s n) (hle : m ≤ n) :
    WritesLists setup script s m :=
  fun k hk => h k (hk.trans_le hle)

/-- The session's own directory stays where it is. -/
theorem WritesLists.home (h : WritesLists setup script s n) :
    (sessionAt setup script s n).files.home = s.files.home := by
  induction n with
  | zero => rfl
  | succ n ih =>
    rw [home_of_writeAll (h n (Nat.lt_succ_self n)), ih (h.mono (Nat.le_succ n))]

/-- **Run lemma.**  What each write of some passes keeps, the passes keep. -/
theorem WritesLists.keeps {P : FileSystem → Prop} (h : WritesLists setup script s n) (hle : m ≤ n)
    (hkeeps : ∀ k, m ≤ k → k < n → ∀ w ∈ writesAt setup script s k, ∀ f f',
      f.home = s.files.home → f.write w.1 w.2 = .ok f' → P f → P f')
    (hstart : P (sessionAt setup script s m).files) : P (sessionAt setup script s n).files := by
  induction n, hle using Nat.le_induction with
  | base => exact hstart
  | succ n hle ih =>
    have hbefore := h.mono (Nat.le_succ n)
    have hkept := ih hbefore fun k hk hkn => hkeeps k hk (Nat.lt_succ_of_lt hkn)
    refine writeAll_keeps (h n (Nat.lt_succ_self n)) ?_ hkept
    intro w hw f f' hhome
    exact hkeeps n hle (Nat.lt_succ_self n) w hw f f' (hhome.trans hbefore.home)

/-- What can be written at first can be written after any number of passes. -/
theorem WritesLists.target {path : String} {place : Place} (h : WritesLists setup script s n)
    (htarget : s.files.target path = .ok place) :
    (sessionAt setup script s n).files.target path = .ok place := by
  refine h.keeps (P := fun f => f.target path = .ok place) (Nat.zero_le n) ?_ htarget
  intro k _ _ w _ f f' _ hwrite
  exact target_of_write hwrite

end Windowed.Session

/-! ## A run of the program -/

namespace Console

open Windowed Windowed.Session

/-- A run of the program in a window: its cartridge can be read, is accepted, and there is a window
that reports some passes. -/
structure WindowRun where
  options : Options
  host : Host
  image : Bytes
  machine : Machine
  passes : List Pass
  inWindow : options.step = false ∧ options.headless = false
  readable : host.system.read options.cartridge = .ok image
  accepted : boot options image = .ok machine
  opened : host.window = some passes

namespace WindowRun

variable (r : WindowRun)

/-- What the session is set up with. -/
def setup : Setup :=
  { image := r.image
    statePath := Path.saveState r.options.cartridge
    padsAvailable := r.host.pads.isSome
    states := r.host.states
    pictures := r.host.pictures }

/-- The session before its first pass. -/
def first : Session :=
  let booted := reportBoot r.options r.machine { debug := r.options.debug }
  start r.options.scale r.host.system booted.1 (reportPads r.host.pads booted.2)

/-- The passes as a script. -/
def script (n : Nat) : Pass :=
  r.passes.getD n ⟨[], []⟩

/-- The number of passes carried out: those before the one in which Escape is held. -/
def length : Nat :=
  (r.passes.takeWhile fun pass => !pass.keys.contains .escape).length

/-- The session at the start of a pass. -/
def session (n : Nat) : Session :=
  sessionAt r.setup r.script r.first n

/-- The directory in which the run takes place. -/
def home : Place :=
  r.host.around.home

/-- A cartridge that jumps on the spot, as an image. -/
def spinnerImage : Bytes :=
  [0x58, 0x56, 0x4D, 0x38, 0x00, 0xE0, 0x03, 0x00, 0x40, 0x00, 0xE0]

end WindowRun

end Console

end FantasyComputer
