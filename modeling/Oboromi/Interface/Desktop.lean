import Oboromi.Model.Gui

/-!
# The window and its threads

Frames of the window and the ends of its two threads come in any order.  The window keeps four
fields for them; what it is for is a desk with one job at a time (`Desk`), on which a boot is
remembered only by whether the NAND opened.  A desk says what every field of the window holds
(`Desk.gui`).
-/

set_option autoImplicit false

namespace Oboromi.Interface

open Oboromi.Lib Oboromi.Model

/-! ## Runs of the window -/

/-- A frame, or the end of a thread: of the tests with their lines, or of a boot of what is on
the host then.  No event follows where the host services of a boot end the process. -/
inductive DesktopEvent where
  | frame (elapsed : ℕ) (clicks : Clicks)
  | testsEnd (outcome : Except Fault (List String))
  | bootEnd (emu : Emulator) (host : Boot.Host) (log : List String)

namespace DesktopEvent

/-- No frame reports a click on both buttons. -/
def OneClick : DesktopEvent → Prop
  | .frame _ clicks => ¬ (clicks.tests = true ∧ clicks.boot = true)
  | _ => True

/-- The thread does not panic. -/
def Returns (b : Build) : DesktopEvent → Prop
  | .frame _ _ => True
  | .testsEnd outcome => ∃ lines, outcome = .ok lines
  | .bootEnd emu host _ => ∃ result, Boot.boot b emu host .default = .ok result

end DesktopEvent

variable (b : Build)

/-- One event, and what it draws. -/
def GUI.happen : DesktopEvent → GUI → Except Fault (Option Screen × GUI)
  | .frame elapsed clicks, g => g.update elapsed clicks
  | .testsEnd outcome, g => .ok (none, { g with
      testThread := g.testThread.map (JoinHandle.finish outcome) })
  | .bootEnd emu host log, g => .ok (none, { g with
      bootThread := g.bootThread.map (JoinHandle.finish
        ((Boot.boot b emu host .default).map fun result => ⟨result.phase, log⟩)) })

/-- The events in their order; a panic ends the program. -/
def GUI.run : List DesktopEvent → GUI → Except Fault (List (Option Screen) × GUI)
  | [], g => .ok ([], g)
  | e :: events, g => do
    let (screen, g) ← GUI.happen b e g
    let (screens, g) ← GUI.run events g
    return (screen :: screens, g)

/-! ## One job at a time -/

/-- Whether the NAND opened, and the lines of the boot. -/
structure BootEnd where
  opened : Bool
  log : List String

/-- A boot ends with the system running when the NAND opened, else it failed. -/
def BootEnd.report (e : BootEnd) : BootReport where
  phase := if e.opened then .running else .failed
  log := e.log

inductive Job where
  | tests (thread : JoinHandle (List String))
  | boot (thread : JoinHandle BootEnd)

/-- The job that is under way, the lines that are shown, and whether the NAND opened in the last
boot that was collected. -/
structure Desk where
  job : Option Job
  lines : List String
  opened : Option Bool

namespace Desk

def start : Desk where
  job := none
  lines := GUI.default.logs
  opened := none

/-- What has ended is taken off the desk, with its lines. -/
def collect (d : Desk) : Except Fault Desk :=
  match d.job with
  | some (.tests (.finished lines)) => .ok { d with job := none, lines }
  | some (.boot (.finished e)) => .ok ⟨none, e.log, some e.opened⟩
  | some (.tests .panicked) => .error .panic
  | some (.boot .panicked) => .error .panic
  | _ => .ok d

/-- A click starts a job on an empty desk. -/
def click (clicks : Clicks) (d : Desk) : Desk :=
  match d.job with
  | some _ => d
  | none =>
    if clicks.tests then
      { d with
        job := some (.tests .running)
        lines := ["Warming up JIT compiler...", "Running ARM64 tests..."] }
    else if clicks.boot then
      { d with job := some (.boot .running), lines := ["Booting firmware..."] }
    else d

/-- The job that was under way before the click. -/
def status : Option Job → Option String
  | none => none
  | some (.tests _) => some "Running tests..."
  | some (.boot _) => some "Boot phase: HardwareInit"

/-- How the last boot ended. -/
def lastStatus : Option Bool → Option String
  | none => none
  | some true => some "Running"
  | some false => some "FAILED"

/-- The boot under way, or how the last one ended. -/
def bootStatus (d : Desk) : Option String :=
  match d.job with
  | some (.boot _) => some "Hardware Init"
  | _ => lastStatus d.opened

def frame (elapsed : ℕ) (clicks : Clicks) (d : Desk) : Except Fault (Option Screen × Desk) :=
  if SplashPhase.ofElapsed elapsed ≠ .done then .ok (none, d)
  else do
    let collected ← d.collect
    let d := collected.click clicks
    return (some ⟨status collected.job, d.bootStatus, d.lines⟩, d)

/-- Whether the NAND opens, as a boot would find it. -/
def nandOpens (host : Boot.Host) : Bool :=
  match host.openFile Boot.FirmwareConfig.default.nandPath >>= Nand.openFile b with
  | .ok _ => true
  | .error _ => false

/-- A job ends with what its thread returned. -/
def finish (e : DesktopEvent) : Job → Job
  | .tests thread => match e with
    | .testsEnd outcome => .tests (thread.finish outcome)
    | _ => .tests thread
  | .boot thread => match e with
    | .bootEnd emu host log => .boot (thread.finish
        ((Boot.boot b emu host .default).map fun _ => ⟨nandOpens b host, log⟩))
    | _ => .boot thread

def happen : DesktopEvent → Desk → Except Fault (Option Screen × Desk)
  | .frame elapsed clicks, d => d.frame elapsed clicks
  | e, d => .ok (none, { d with job := d.job.map (finish b e) })

def run : List DesktopEvent → Desk → Except Fault (List (Option Screen) × Desk)
  | [], d => .ok ([], d)
  | e :: events, d => do
    let (screen, d) ← happen b e d
    let (screens, d) ← run events d
    return (screen :: screens, d)

/-! ## The fields of the window -/

/-- The thread of the tests, if they are under way. -/
def testThread : Option Job → Option (JoinHandle (List String))
  | some (.tests thread) => some thread
  | _ => none

/-- The thread of the boot, if one is under way. -/
def bootThread : Option Job → Option (JoinHandle BootReport)
  | some (.boot thread) => some (thread.map BootEnd.report)
  | _ => none

/-- The phase the last boot left. -/
def lastPhase : Option Bool → Boot.BootPhase
  | none => .off
  | some true => .running
  | some false => .failed

/-- The phase that is kept; a boot under way never gets past the first. -/
def bootPhase (d : Desk) : Boot.BootPhase :=
  match d.job with
  | some (.boot _) => .hardwareInit
  | _ => lastPhase d.opened

/-- The window a desk is shown by. -/
def gui (d : Desk) : GUI where
  logs := d.lines
  testThread := testThread d.job
  bootThread := bootThread d.job
  bootPhase := d.bootPhase

end Desk

/-- The window runs one job at a time: it draws and keeps what the desk does, it stops only after a
thread that panicked, and the phase it keeps is that of the boot under way or of one that ended. -/
structure OneJob (events : List DesktopEvent) : Prop where
  refines : GUI.run b events GUI.default =
    (Desk.run b events Desk.start).map fun r => (r.1, r.2.gui)
  returns : (∀ e ∈ events, e.Returns b) → ∃ r, GUI.run b events GUI.default = .ok r
  phase : ∀ (screens : List (Option Screen)) (g : GUI),
    GUI.run b events GUI.default = .ok (screens, g) →
      (g.bootThread.isSome ∧ g.testThread = none ∧ g.bootPhase = .hardwareInit) ∨
        (g.bootThread = none ∧ (g.bootPhase = .off ∨
          ∃ emu host log, DesktopEvent.bootEnd emu host log ∈ events ∧
            g.bootPhase = if Desk.nandOpens b host then .running else .failed))

end Oboromi.Interface
