/-
# FantasyComputer.Proofs.FinalPicture — when a halted machine shows the last thing it drew.

A pass that ends its frame draws the picture, and a frame ends when the machine halts in it.  The
exception is an instruction that a driver executes to get past a breakpoint: it ends the frame only
when it has spent the frame's budget.  If that instruction is a `HALT`, the picture stays that of the
last frame that ended, and no later pass draws it again.

`showsVideo_advance_iff` is the exact condition for a pass, `finalPicture_iff` says the same of both
drivers, and `finalPicture_run` of a whole run without a window.  `dot` is a cartridge whose drawing
is lost in this way.
-/
import FantasyComputer.Console
import FantasyComputer.Proofs.Passes

namespace FantasyComputer

namespace Machine

variable {m m' : Machine}

/-! ## Pictures that are up to date -/

/-- Whether the picture is the rendering of video RAM under the palette. -/
def ShowsVideo (m : Machine) : Prop :=
  m.screen.pixels = m.render.screen.pixels

theorem showsVideo_congr (hscreen : m.screen = m'.screen) (hmemory : m.memory = m'.memory) :
    m.ShowsVideo ↔ m'.ShowsVideo := by
  unfold ShowsVideo render
  rw [hscreen, hmemory]

theorem showsVideo_silent (m : Machine) : m.silent.ShowsVideo ↔ m.ShowsVideo :=
  showsVideo_congr rfl rfl

/-- What is shown at the end of a frame is drawn there. -/
theorem showsVideo_endFrame (m : Machine) : m.endFrame.ShowsVideo :=
  congrArg Screen.pixels (Screen.render_eq _ _ _ _)

theorem showsVideo_noteFrame (m : Machine) : m.noteFrame.ShowsVideo ↔ m.ShowsVideo := by
  unfold noteFrame
  split
  · exact showsVideo_congr rfl rfl
  · exact Iff.rfl

/-! ## A pass in which the machine halts -/

/-- Whether the frame of a pass stops at a breakpoint before a `HALT` that leaves the frame's budget
unspent. -/
def HaltsAtBreakpoint (m : Machine) : Prop :=
  m.stepFrame.2.breakpointHit = true ∧ m.stepFrame.2.nextInstruction = .halt
    ∧ m.stepFrame.2.framePosition + m.stepFrame.2.nextCost < cyclesPerFrame

/-- Whether a pass halts the machine and leaves an older picture than the one in its video RAM. -/
def HaltsUnseen (m : Machine) : Prop :=
  m.HaltsAtBreakpoint ∧ m.screen.pixels ≠ m.advance.render.screen.pixels

theorem running_stepOne (m : Machine) : m.stepOne.running = m.tick.running := by
  unfold stepOne
  simp only
  split <;> rfl

/-- The frame of a pass that meets no breakpoint draws its picture. -/
theorem showsVideo_of_not_hit (hrun : m.running = true)
    (hhit : m.stepFrame.2.breakpointHit = false) : m.advance.ShowsVideo := by
  have hout : ¬m.frameEnd.InFrame := by
    intro hin
    rw [stepFrame_of_running hrun, if_pos hin] at hhit
    exact Bool.false_ne_true hhit.symm
  rw [advance_of_not_hit hhit, stepFrame_of_running hrun, if_neg hout]
  exact (showsVideo_noteFrame _).mpr (showsVideo_endFrame _)

/-- A frame that stops at a breakpoint shows what was shown before it. -/
theorem screen_of_hit (hrun : m.running = true) (hhit : m.stepFrame.2.breakpointHit = true) :
    m.stepFrame.2.screen = m.screen := by
  rw [stepFrame_of_running hrun, if_pos (inFrame_of_hit hrun hhit)]
  exact (sameHost_frameEnd m).screen

/-- A frame that stops at a breakpoint has not spent its budget. -/
theorem framePosition_lt_of_hit (hrun : m.running = true)
    (hhit : m.stepFrame.2.breakpointHit = true) : m.stepFrame.2.framePosition < cyclesPerFrame := by
  rw [stepFrame_of_running hrun, if_pos (inFrame_of_hit hrun hhit)]
  exact (inFrame_of_hit hrun hhit).1

/-- The one instruction that halts a machine past a breakpoint is `HALT`. -/
theorem nextInstruction_of_halt (hrun : m.running = true)
    (hhit : m.stepFrame.2.breakpointHit = true) (hhalt : m.advance.running = false) :
    m.stepFrame.2.nextInstruction = .halt := by
  have hgo : m.stepFrame.2.running = true := by
    rw [stepFrame_of_running hrun, if_pos (inFrame_of_hit hrun hhit)]
    exact (inFrame_of_hit hrun hhit).2
  rw [advance_of_hit hhit, running_stepOne, running_tick, hgo, Bool.true_and] at hhalt
  by_contra hother
  exact absurd hhalt (by rw [bne_iff_ne.mpr hother]; exact Bool.false_ne_true.symm)

/-- **A pass that halts.**  Its picture is up to date unless it halts at a breakpoint, and then it is
the picture from before the pass. -/
theorem showsVideo_advance_iff (hrun : m.running = true) (hhalt : m.advance.running = false) :
    m.advance.ShowsVideo ↔ ¬m.HaltsUnseen := by
  cases hhit : m.stepFrame.2.breakpointHit with
  | false =>
    apply iff_of_true (showsVideo_of_not_hit hrun hhit)
    intro hunseen
    exact Bool.false_ne_true (hhit.symm.trans hunseen.1.1)
  | true =>
    have hinstruction := nextInstruction_of_halt hrun hhit hhalt
    have hposition := toNat_framePosition_tick (framePosition_lt_of_hit hrun hhit)
    rcases Nat.lt_or_ge m.stepFrame.2.tick.framePosition cyclesPerFrame with hlt | hge
    · -- the frame goes on after the `HALT`, so nothing is drawn
      have hsame : m.advance.screen = m.screen := by
        rw [advance_of_hit hhit, stepOne, if_neg (Nat.not_le.mpr hlt), (sameHost_tick _).screen,
          screen_of_hit hrun hhit]
      have hbreak : m.HaltsAtBreakpoint := ⟨hhit, hinstruction, by rwa [← hposition]⟩
      unfold HaltsUnseen ShowsVideo
      rw [hsame]
      exact ⟨fun h hunseen => hunseen.2 h, fun h => by_contra fun hne => h ⟨hbreak, hne⟩⟩
    · -- the `HALT` spends the budget, so the frame ends with it
      have hend : m.advance = m.stepFrame.2.tick.endFrame := by
        rw [advance_of_hit hhit, stepOne, if_pos hge]
      apply iff_of_true (by rw [hend]; exact showsVideo_endFrame _)
      intro hunseen
      have hroom := hunseen.1.2.2
      rw [← hposition] at hroom
      exact absurd hroom (Nat.not_lt.mpr hge)

/-! ## Both drivers -/

/-- **The final picture.**  Where a pass halts the machine, in a window or without one, the picture
is the rendering of the final video RAM if and only if the pass does not halt unseen. -/
theorem finalPicture_iff (m : Machine) (hrun : m.running = true)
    (hhalt : m.advance.running = false) :
    (∀ (o : Options) (frames frame : Nat) (run : Headless.Run),
        (Headless.press o frame run).machine = m →
        ((Headless.runFrame o frames frame run).machine.ShowsVideo ↔ ¬m.HaltsUnseen))
      ∧ ∀ (setup : Windowed.Session.Setup) (pass : Windowed.Pass) (s : Windowed.Session),
        pass.keys.contains .backspace = false → (s.prepare setup pass).1.machine = m →
        ((s.perform setup pass).1.machine.ShowsVideo ↔ ¬m.HaltsUnseen) := by
  have hpass : m.advance.silent.ShowsVideo ↔ ¬m.HaltsUnseen :=
    (showsVideo_silent _).trans (showsVideo_advance_iff hrun hhalt)
  constructor
  · intro o frames frame run hmachine
    rw [Headless.machine_runFrame, hmachine]
    exact hpass
  · intro setup pass s hback hmachine
    rw [Windowed.Session.perform_fst, if_neg (by rw [hback]; exact Bool.false_ne_true),
      Windowed.Session.machine_runFrame, hmachine]
    exact hpass

/-- A run without a window that halts does so in its last pass. -/
theorem exists_last_pass (o : Options) (frames k : Nat) {run : Headless.Run}
    (hrun : run.machine.running = true)
    (hhalt : (Headless.runFrames o frames k run).machine.running = false) :
    ∃ (frame : Nat) (before : Headless.Run), before.machine.running = true
      ∧ Headless.runFrames o frames k run = Headless.runFrame o frames frame before := by
  induction k generalizing run with
  | zero => exact absurd hrun (by rw [show run.machine.running = false from hhalt]; decide)
  | succ k ih =>
    set next := Headless.runFrame o frames (frames - (k + 1)) run with hnext
    have hloop : Headless.runFrames o frames (k + 1) run
        = if next.machine.running then Headless.runFrames o frames k next else next := rfl
    rw [hloop] at hhalt ⊢
    cases hgo : next.machine.running with
    | false => exact ⟨_, run, hrun, if_neg Bool.false_ne_true⟩
    | true =>
      rw [hgo, if_pos rfl] at hhalt
      rw [if_pos rfl]
      exact ih hgo hhalt

theorem running_press (o : Options) (frame : Nat) (run : Headless.Run) :
    (Headless.press o frame run).machine.running = run.machine.running := by
  unfold Headless.press
  repeat' split
  all_goals rfl

/-- **The picture of a whole run.**  It is up to date unless the pass that halts does so unseen. -/
theorem finalPicture_run (o : Options) (frames k : Nat) {run : Headless.Run}
    (hrun : run.machine.running = true)
    (hhalt : (Headless.runFrames o frames k run).machine.running = false) :
    ∃ m : Machine, m.running = true ∧ m.advance.running = false
      ∧ ((Headless.runFrames o frames k run).machine.ShowsVideo ↔ ¬m.HaltsUnseen) := by
  obtain ⟨frame, before, hbefore, hlast⟩ := exists_last_pass o frames k hrun hhalt
  have hpressed : (Headless.press o frame before).machine.running = true := by
    rw [running_press, hbefore]
  rw [hlast, Headless.machine_runFrame] at hhalt
  refine ⟨(Headless.press o frame before).machine, hpressed, hhalt, ?_⟩
  rw [hlast, Headless.machine_runFrame, showsVideo_silent]
  exact showsVideo_advance_iff hpressed hhalt

/-! ## A drawing that is lost -/

/-- A cartridge that draws one pixel and halts. -/
def dot : Bytes :=
  [0x58, 0x56, 0x4D, 0x38, 0x00, 0xE0, 0x06, 0x00, 0x01, 0x03, 0x09, 0x00, 0x80, 0xFE]

/-- The cartridge put in and started, with a breakpoint at its `HALT`. -/
def dotMachine : Machine :=
  ({ Machine.initial with breakpoints := [0xE005] }.install
    { entry := 0xE000, declaredSize := 6, program := dot.drop 8 }).start

theorem boot_dot :
    Console.boot { cartridge := "dot.xvm", headless := true, breakpoints := [0xE005] } dot
      = .ok dotMachine := rfl

/-- The machine with the colour of the pixel in a register. -/
def dotLoaded : Machine :=
  { dotMachine.fresh with
    registers := { dotMachine.registers with a := 3, pc := 0xE002 }
    cycles := 2
    framePosition := 2 }

/-- The machine once the pixel is drawn. -/
def dotDrawn : Machine :=
  { dotLoaded with
    registers := { dotLoaded.registers with pc := 0xE005 }
    memory := { dotLoaded.memory with video := dotLoaded.memory.video.set 0 3 }
    cycles := 6
    framePosition := 6 }

/-- The machine when it has halted past the breakpoint. -/
def dotHalted : Machine :=
  { dotDrawn with
    breakpointHit := true
    registers := { dotDrawn.registers with pc := 0xE006 }
    running := false
    cycles := 13
    framePosition := 13 }

/-- What a memory with the cartridge's program holds where the program starts. -/
theorem read_dot {memory : Memory} (h : memory.rom = dotMachine.memory.rom) (i : Fin 6) :
    memory.read (0xE000 + UInt16.ofNat i) = (dot.drop 8)[i.val] := by
  have hrom : memory.rom = overlay (dot.drop 8).toArray (Vector.replicate romSize 0) := h
  have hsize : i.val < romSize := i.isLt.trans (by decide)
  rw [Memory.read_of_rom (locate_rom hsize), hrom]
  show (overlay _ _)[i.val] = _
  rw [getElem_overlay]
  fin_cases i <;> rfl

theorem tick_dotMachine : dotMachine.fresh.tick = dotLoaded := by
  have hread := read_dot (show dotMachine.fresh.memory.rom = _ from rfl)
  rw [tick_of_reads 0xE000 rfl (hread 0) (hread 1) (hread 2) (by decide)]
  rfl

theorem tick_dotLoaded : dotLoaded.tick = dotDrawn := by
  have hread := read_dot (show dotLoaded.memory.rom = _ from rfl)
  rw [tick_of_reads 0xE002 rfl (hread 2) (hread 3) (hread 4) (by decide)]
  rfl

theorem frameEnd_dotMachine : dotMachine.frameEnd = dotDrawn := by
  have hfirst : dotMachine.fresh.frameTicks = dotLoaded.frameTicks + 1 := by
    rw [frameTicks_of_tick ⟨by decide, rfl⟩ (by decide), tick_dotMachine]
  have hsecond : dotLoaded.frameTicks = dotDrawn.frameTicks + 1 := by
    rw [frameTicks_of_tick ⟨by decide, rfl⟩ (by decide), tick_dotLoaded]
  have hstop : dotDrawn.frameTicks = 0 := frameTicks_of_break ⟨by decide, rfl⟩ (by decide)
  rw [frameEnd, hfirst, hsecond, hstop, Function.iterate_succ_apply, tick_dotMachine,
    Function.iterate_one, tick_dotLoaded]

/-- The pass stops before the `HALT` and executes it, in a frame that goes on. -/
theorem advance_dotMachine : dotMachine.advance = dotHalted := by
  have hin : dotMachine.frameEnd.InFrame := by
    rw [frameEnd_dotMachine]
    exact ⟨by decide, rfl⟩
  have hframe : dotMachine.stepFrame.2 = { dotDrawn with breakpointHit := true } := by
    rw [stepFrame_of_running rfl, if_pos hin, frameEnd_dotMachine]
  have hhalt : { dotDrawn with breakpointHit := true }.tick = dotHalted := by
    have hread := read_dot (show dotDrawn.memory.rom = _ from rfl)
    rw [tick_of_reads (m := { dotDrawn with breakpointHit := true }) 0xE005 rfl (hread 5) rfl rfl
      (by decide)]
    rfl
  rw [advance_of_hit (by rw [hframe]), hframe, stepOne, hhalt]
  exact if_neg (by decide)

theorem screen_dotDrawn : dotDrawn.screen.pixels[0] = Rgba.black := by
  have hscreen : dotDrawn.screen.pixels = Vector.replicate pixelCount Rgba.black := rfl
  rw [hscreen, Vector.getElem_replicate]

theorem render_dotDrawn : dotDrawn.render.screen.pixels[0] = Color.expand 0x1F := by
  have hrender : dotDrawn.render.screen
      = dotDrawn.screen.render dotDrawn.memory.video.toArray dotDrawn.memory.palette := rfl
  have hpalette : dotDrawn.memory.palette = Palette.initial := rfl
  have hvideo : dotDrawn.memory.video[0] = 3 := Vector.getElem_set_self _
  rw [hrender, Screen.getElem_render]
  simp only [hvideo, hpalette, Screen.colors]
  show (Palette.initial.map Color.expand)[3] = _
  rw [Vector.getElem_map]
  rfl

/-- The pixel that the program draws is not in the picture it halts with. -/
theorem not_showsVideo_dotHalted : ¬dotHalted.ShowsVideo := by
  intro hshows
  have hdrawn : dotDrawn.ShowsVideo := (showsVideo_congr rfl rfl).mp hshows
  have hpixel := congrArg (·[0]) hdrawn
  simp only [screen_dotDrawn, render_dotDrawn] at hpixel
  exact absurd hpixel (by decide)

/-- The pass of this machine is one that `finalPicture_iff` speaks of. -/
theorem finalPicture_iff_dotMachine :
    dotMachine.running = true ∧ dotMachine.advance.running = false
      ∧ (dotMachine.advance.ShowsVideo ↔ ¬dotMachine.HaltsUnseen) := by
  have hhalt : dotMachine.advance.running = false := by
    rw [advance_dotMachine]
    rfl
  have hpass := (finalPicture_iff dotMachine rfl hhalt).1 { cartridge := "dot.xvm" } 1 0
    ⟨dotMachine, { debug := false }⟩ rfl
  rw [Headless.machine_runFrame] at hpass
  exact ⟨rfl, hhalt, (showsVideo_silent _).symm.trans hpass⟩

/-- The first pass of a run. -/
def firstPass (m : Machine) : Headless.Run :=
  Headless.runFrame { cartridge := "dot.xvm" } 60 0 ⟨m, { debug := false }⟩

theorem firstPass_dotMachine : (firstPass dotMachine).machine = dotHalted.silent := by
  rw [firstPass, Headless.machine_runFrame, ← advance_dotMachine]
  rfl

/-- The first pass of a run with this cartridge halts, and the picture lacks the pixel. -/
theorem dot_halts_unseen :
    ∃ m, Console.boot { cartridge := "dot.xvm", headless := true, breakpoints := [0xE005] } dot
        = .ok m
      ∧ m.running = true ∧ (firstPass m).machine.running = false
      ∧ ¬(firstPass m).machine.ShowsVideo := by
  refine ⟨dotMachine, boot_dot, rfl, ?_⟩
  rw [firstPass_dotMachine, showsVideo_silent]
  exact ⟨rfl, not_showsVideo_dotHalted⟩

end Machine

end FantasyComputer
