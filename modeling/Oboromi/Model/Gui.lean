import Oboromi.Model.Boot

/-!
# The desktop window

The window draws a frame at a time.  A frame collects the background threads that have ended,
then starts one for a button that is clicked, and draws what came of it.  The two threads, for
the CPU tests and for the boot, run beside the frames.
-/

set_option autoImplicit false

namespace Oboromi.Model

open Oboromi.Lib

/-! ## Threads -/

/-- A background thread: still running, ended with a value, or ended by a panic. -/
inductive JoinHandle (α : Type) where
  | running
  | finished (value : α)
  | panicked

namespace JoinHandle

variable {α : Type}

/-- The thread ends, unless it has. -/
def finish (outcome : Except Fault α) : JoinHandle α → JoinHandle α
  | .running => match outcome with
    | .ok value => .finished value
    | .error _ => .panicked
  | ended => ended

/-- The same thread with its value seen through a function. -/
def map {β : Type} (f : α → β) : JoinHandle α → JoinHandle β
  | .running => .running
  | .finished value => .finished (f value)
  | .panicked => .panicked

/-- Collect a thread that has ended: its value, and the handle that is kept.  The panic of a
thread is passed on by `unwrap`.
SOURCE: gui/src/gui/gui.rs:162-168 -/
def collect : Option (JoinHandle α) → Except Fault (Option α × Option (JoinHandle α))
  | some (.finished value) => .ok (some value, none)
  | some .panicked => .error .panic
  | some .running => .ok (none, some .running)
  | none => .ok (none, none)

end JoinHandle

/-! ## The window -/

/-- SOURCE: core/src/sys/boot.rs:22-30 -/
def Boot.FirmwareConfig.default : Boot.FirmwareConfig where
  nandPath := "nand.img"
  package2Path := none

/-- What the window reads of a boot's result. -/
structure BootReport where
  phase : Boot.BootPhase
  log : List String

/-- SOURCE: gui/src/gui/gui.rs:8-15 -/
structure GUI where
  logs : List String
  testThread : Option (JoinHandle (List String))
  bootThread : Option (JoinHandle BootReport)
  bootPhase : Boot.BootPhase

/-- The buttons that are clicked in a frame; a button that is disabled does not report it. -/
structure Clicks where
  tests : Bool
  boot : Bool

/-- The splash before the window, by the time since the start.
SOURCE: gui/src/gui/gui.rs:46-65 -/
inductive SplashPhase where
  | fadeIn
  | hold
  | fadeOut
  | done
  deriving DecidableEq

/-- 400, 20000 and 400 milliseconds. -/
def SplashPhase.ofElapsed (elapsed : ℕ) : SplashPhase :=
  let fadeIn := 400 * 1000000
  let hold := 20000 * 1000000
  let fadeOut := 400 * 1000000
  let total := fadeIn + hold + fadeOut
  if elapsed < fadeIn then .fadeIn
  else if elapsed < fadeIn + hold then .hold
  else if elapsed < total then .fadeOut
  else .done

/-- What a frame draws: the status indicator, the boot status bar and the output. -/
structure Screen where
  status : Option String
  bootStatus : Option String
  output : List String

namespace Boot.BootPhase

/-- The phase as the `Debug` text of its name. -/
def debug : Boot.BootPhase → String
  | .off => "Off"
  | .hardwareInit => "HardwareInit"
  | .kernelLoad => "KernelLoad"
  | .serviceInit => "ServiceInit"
  | .homeMenu => "HomeMenu"
  | .running => "Running"
  | .failed => "Failed"

/-- The phase in the status bar.
SOURCE: gui/src/gui/gui.rs:222-230 -/
def text : Boot.BootPhase → String
  | .off => "Off"
  | .hardwareInit => "Hardware Init"
  | .kernelLoad => "Kernel Load"
  | .serviceInit => "Service Init"
  | .homeMenu => "Home Menu"
  | .running => "Running"
  | .failed => "FAILED"

end Boot.BootPhase

namespace GUI

/-- SOURCE: gui/src/gui/gui.rs:17-28 -/
def default : GUI where
  logs := ["click 'Run CPU Tests' or 'Boot Firmware' to begin"]
  testThread := none
  bootThread := none
  bootPhase := .off

/-- SOURCE: gui/src/gui/gui.rs:161-168 -/
def collectTests (g : GUI) : Except Fault GUI := do
  let (logs, testThread) ← JoinHandle.collect g.testThread
  return { g with testThread, logs := logs.getD g.logs }

/-- SOURCE: gui/src/gui/gui.rs:169-177 -/
def collectBoot (g : GUI) : Except Fault GUI := do
  let (result, bootThread) ← JoinHandle.collect g.bootThread
  return { g with
    bootThread
    bootPhase := (result.map BootReport.phase).getD g.bootPhase
    logs := (result.map BootReport.log).getD g.logs }

/-- SOURCE: gui/src/gui/gui.rs:179 -/
def busy (g : GUI) : Bool := g.testThread.isSome || g.bootThread.isSome

/-- SOURCE: gui/src/gui/gui.rs:183-193 -/
def startTests (g : GUI) : GUI :=
  { g with
    testThread := some .running
    logs := ["Warming up JIT compiler...", "Running ARM64 tests..."] }

/-- SOURCE: gui/src/gui/gui.rs:196-206 -/
def startBoot (g : GUI) : GUI :=
  { g with
    bootPhase := .hardwareInit
    bootThread := some .running
    logs := ["Booting firmware..."] }

/-- Both buttons are disabled while a thread is kept; they are looked at one after the other.
SOURCE: gui/src/gui/gui.rs:179-206 -/
def buttons (clicks : Clicks) (g : GUI) : GUI :=
  let busy := g.busy
  let g := if !busy && clicks.tests then g.startTests else g
  if !busy && clicks.boot then g.startBoot else g

/-- What is drawn, where `busy` is from before the buttons.
SOURCE: gui/src/gui/gui.rs:208-254 -/
def draw (busy : Bool) (g : GUI) : Screen where
  status :=
    if busy then
      if g.bootThread.isSome then some ("Boot phase: " ++ g.bootPhase.debug)
      else some "Running tests..."
    else none
  bootStatus := if g.bootPhase ≠ .off then some g.bootPhase.text else none
  output := g.logs

/-- One frame, `elapsed` nanoseconds after the start.  While the splash is shown nothing else
happens.
SOURCE: gui/src/gui/gui.rs:31-256 -/
def update (elapsed : ℕ) (clicks : Clicks) (g : GUI) : Except Fault (Option Screen × GUI) :=
  if SplashPhase.ofElapsed elapsed ≠ .done then .ok (none, g)
  else do
    let g ← g.collectTests
    let g ← g.collectBoot
    let busy := g.busy
    let g := g.buttons clicks
    return (some (g.draw busy), g)

end GUI

end Oboromi.Model
