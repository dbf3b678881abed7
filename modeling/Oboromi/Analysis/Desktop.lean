import Oboromi.Interface.Desktop

/-!
# The window runs one job at a time

Every event of the window is matched by one of the desk (`happen_gui`): what a frame collects,
what a click starts and what is drawn.  So the four fields of the window stay those of a desk,
over every order of frames and thread ends in which no frame reports both buttons; with both,
two threads are kept.  A boot that ends does so in one of two phases (`phase_of_boot`).
-/

set_option autoImplicit false

namespace Oboromi.Analysis

open Oboromi.Lib Oboromi.Model Oboromi.Interface

variable (b : Build)

/-! ## Boots -/

/-- A boot that returns ends in the phase its NAND says. -/
theorem phase_of_boot {emu : Emulator} {host : Boot.Host} {result : Boot.BootResult}
    (h : Boot.boot b emu host .default = .ok result) :
    result.phase = if Desk.nandOpens b host then .running else .failed := by
  unfold Boot.boot at h
  unfold Desk.nandOpens
  rcases hnand : host.openFile Boot.FirmwareConfig.default.nandPath >>= Nand.openFile b with
    (e | _) | nand
  · rw [hnand] at h
    cases h
    rfl
  · rw [hnand] at h
    cases h
  · rw [hnand] at h
    obtain ⟨image, -, h⟩ := bind_eq_ok h
    obtain ⟨loaded, -, h⟩ := bind_eq_ok h
    obtain ⟨_, -, h⟩ := bind_eq_ok h
    obtain ⟨registered, -, h⟩ := bind_eq_ok h
    obtain ⟨started, -, h⟩ := bind_eq_ok h
    obtain ⟨stepped, -, h⟩ := bind_eq_ok h
    cases h
    rfl

/-- What the window is given of a boot is what the desk is, reported. -/
theorem report_of_boot (emu : Emulator) (host : Boot.Host) (log : List String) :
    ((Boot.boot b emu host .default).map fun result => (⟨result.phase, log⟩ : BootReport)) =
      ((Boot.boot b emu host .default).map fun _ =>
        (⟨Desk.nandOpens b host, log⟩ : BootEnd)).map BootEnd.report := by
  rcases hboot : Boot.boot b emu host .default with e | result
  · rfl
  · have hphase := phase_of_boot b hboot
    show Except.ok (⟨result.phase, log⟩ : BootReport) = _
    rw [hphase]
    rfl

/-- A thread that ends under a mapped result is a mapped thread that ends. -/
theorem finish_map {α β : Type} (f : α → β) (outcome : Except Fault α) (thread : JoinHandle α) :
    (thread.map f).finish (outcome.map f) = (thread.finish outcome).map f := by
  cases thread <;> cases outcome <;> rfl

/-! ## One event -/

/-- Collecting the jobs of the window is collecting the desk's job. -/
theorem collect_gui (d : Desk) :
    (d.gui.collectTests >>= GUI.collectBoot) = d.collect.map Desk.gui := by
  rcases d with ⟨_ | ⟨_ | lines | _⟩ | ⟨_ | e | _⟩, shown, opened⟩
  case some.boot.finished =>
    rcases e with ⟨_ | _, log⟩ <;> rfl
  all_goals rfl

/-- A click on one of the buttons is a click at the desk. -/
theorem click_gui {clicks : Clicks} (h : ¬ (clicks.tests = true ∧ clicks.boot = true)) (d : Desk) :
    d.gui.buttons clicks = (d.click clicks).gui := by
  rcases d with ⟨_ | ⟨thread⟩ | ⟨thread⟩, lines, opened⟩
  · rcases clicks with ⟨_ | _, _ | _⟩
    case none.true.true => exact absurd ⟨rfl, rfl⟩ h
    all_goals rfl
  · rfl
  · rfl

/-- The status line is the text of the last phase, unless nothing was booted. -/
theorem text_lastPhase (opened : Option Bool) :
    (if Desk.lastPhase opened ≠ .off then some (Desk.lastPhase opened).text else none) =
      Desk.lastStatus opened := by
  rcases opened with _ | _ | _ <;> rfl

/-- The spinner is drawn for the job that was under way before the click. -/
theorem draw_gui (clicks : Clicks) (d : Desk) :
    (d.click clicks).gui.draw d.gui.busy =
      ⟨Desk.status d.job, (d.click clicks).bootStatus, (d.click clicks).lines⟩ := by
  rcases d with ⟨_ | ⟨thread⟩ | ⟨thread⟩, lines, opened⟩
  · rcases clicks with ⟨_ | _, _ | _⟩
    case none.false.true => rfl
    all_goals exact congrArg (Screen.mk none · _) (text_lastPhase opened)
  · exact congrArg (Screen.mk (some "Running tests...") · lines) (text_lastPhase opened)
  · rfl

/-- By what is on the desk. -/
theorem frame_gui {elapsed : ℕ} {clicks : Clicks}
    (h : ¬ (clicks.tests = true ∧ clicks.boot = true)) (d : Desk) :
    d.gui.update elapsed clicks = (d.frame elapsed clicks).map fun r => (r.1, r.2.gui) := by
  unfold GUI.update Desk.frame
  split
  · rfl
  · rw [← bind_assoc, collect_gui]
    rcases d.collect with e | collected
    · rfl
    · show Except.ok (some ((collected.gui.buttons clicks).draw collected.gui.busy),
        collected.gui.buttons clicks) = _
      rw [click_gui h, draw_gui]
      rfl

/-- Every event in which one button at most is clicked happens at the desk as in the window. -/
theorem happen_gui {e : DesktopEvent} (h : e.OneClick) (d : Desk) :
    GUI.happen b e d.gui = (Desk.happen b e d).map fun r => (r.1, r.2.gui) := by
  cases e with
  | frame elapsed clicks => exact frame_gui h d
  | testsEnd outcome => rcases d with ⟨_ | ⟨thread⟩ | ⟨thread⟩, lines, opened⟩ <;> rfl
  | bootEnd emu host log =>
    rcases d with ⟨_ | ⟨thread⟩ | ⟨thread⟩, lines, opened⟩
    · rfl
    · rfl
    · have hthread := finish_map BootEnd.report
        ((Boot.boot b emu host .default).map fun _ => ⟨Desk.nandOpens b host, log⟩) thread
      rw [← report_of_boot] at hthread
      exact congrArg
        (fun thread => Except.ok (none, (⟨lines, none, some thread, .hardwareInit⟩ : GUI))) hthread

/-! ## Runs -/

/-- By induction on the events. -/
theorem run_gui {events : List DesktopEvent} (h : ∀ e ∈ events, e.OneClick) (d : Desk) :
    GUI.run b events d.gui = (Desk.run b events d).map fun r => (r.1, r.2.gui) := by
  induction events generalizing d with
  | nil => rfl
  | cons e events ih =>
    unfold GUI.run Desk.run
    rw [happen_gui b (h e List.mem_cons_self)]
    rcases Desk.happen b e d with _ | ⟨screen, d'⟩
    · rfl
    · have hrest := ih (fun e he => h e (List.mem_cons_of_mem _ he)) d'
      show (GUI.run b events d'.gui >>= fun r => Except.ok (screen :: r.1, r.2)) = _
      rw [hrest]
      show _ = (Desk.run b events d' >>= fun r => Except.ok (screen :: r.1, r.2)).map _
      rcases Desk.run b events d' with _ | ⟨screens, d''⟩ <;> rfl

/-! ## What a run can come to -/

/-- No thread on the desk has panicked. -/
def Sound (d : Desk) : Prop :=
  d.job ≠ some (.tests .panicked) ∧ d.job ≠ some (.boot .panicked)

/-- A job that returns does not leave a panicked thread. -/
theorem finish_ne_panicked {α : Type} {outcome : Except Fault α} (h : ∃ a, outcome = .ok a)
    {thread : JoinHandle α} (hthread : thread ≠ .panicked) : thread.finish outcome ≠ .panicked := by
  obtain ⟨a, rfl⟩ := h
  cases thread with
  | running => exact fun heq => nomatch heq
  | finished value => exact fun heq => nomatch heq
  | panicked => exact absurd rfl hthread

/-- Collecting a job that did not panic returns. -/
theorem collect_sound {d : Desk} (hd : Sound d) : ∃ d', d.collect = .ok d' ∧ Sound d' := by
  obtain ⟨htests, hboot⟩ := hd
  rcases d with ⟨_ | ⟨_ | lines | _⟩ | ⟨_ | e | _⟩, shown, opened⟩
  case some.tests.panicked => exact absurd rfl htests
  case some.boot.panicked => exact absurd rfl hboot
  all_goals exact ⟨_, rfl, by simp [Sound]⟩

/-- A click leaves a desk sound. -/
theorem click_sound {d : Desk} (hd : Sound d) (clicks : Clicks) : Sound (d.click clicks) := by
  rcases d with ⟨_ | job, lines, opened⟩
  · rcases clicks with ⟨_ | _, _ | _⟩ <;> simp [Sound, Desk.click]
  · exact hd

/-- An event whose job returns leaves a desk sound. -/
theorem happen_sound {e : DesktopEvent} (h : e.Returns b) {d : Desk} (hd : Sound d) :
    ∃ r, Desk.happen b e d = .ok r ∧ Sound r.2 := by
  cases e with
  | frame elapsed clicks =>
    show ∃ r, d.frame elapsed clicks = .ok r ∧ Sound r.2
    unfold Desk.frame
    split
    · exact ⟨_, rfl, hd⟩
    · obtain ⟨collected, hcollect, hsound⟩ := collect_sound hd
      rw [hcollect]
      exact ⟨_, rfl, click_sound hsound clicks⟩
  | testsEnd outcome =>
    refine ⟨_, rfl, ?_⟩
    rcases d with ⟨_ | ⟨thread⟩ | ⟨thread⟩, lines, opened⟩
    · exact hd
    · have hthread : thread ≠ .panicked := fun heq => hd.1 (by rw [heq])
      have hfinish := finish_ne_panicked h hthread
      exact ⟨fun heq => hfinish (Job.tests.inj (Option.some.inj heq)), fun heq => nomatch heq⟩
    · exact hd
  | bootEnd emu host log =>
    refine ⟨_, rfl, ?_⟩
    rcases d with ⟨_ | ⟨thread⟩ | ⟨thread⟩, lines, opened⟩
    · exact hd
    · exact hd
    · have hthread : thread ≠ .panicked := fun heq => hd.2 (by rw [heq])
      obtain ⟨result, hboot⟩ := h
      have hreturns : ∃ e, ((Boot.boot b emu host .default).map fun _ =>
          (⟨Desk.nandOpens b host, log⟩ : BootEnd)) = .ok e := by
        rw [hboot]
        exact ⟨_, rfl⟩
      have hfinish := finish_ne_panicked hreturns hthread
      exact ⟨fun heq => (nomatch heq), fun heq => hfinish (Job.boot.inj (Option.some.inj heq))⟩

/-- No run whose jobs return panics: by induction over the events. -/
theorem run_sound {events : List DesktopEvent} (h : ∀ e ∈ events, e.Returns b) {d : Desk}
    (hd : Sound d) : ∃ r, Desk.run b events d = .ok r := by
  induction events generalizing d with
  | nil => exact ⟨_, rfl⟩
  | cons e events ih =>
    obtain ⟨⟨screen, d'⟩, hhappen, hsound⟩ := happen_sound b (h e List.mem_cons_self) hd
    obtain ⟨rest, hrest⟩ := ih (fun e he => h e (List.mem_cons_of_mem _ he)) hsound
    refine ⟨(screen :: rest.1, rest.2), ?_⟩
    unfold Desk.run
    rw [hhappen]
    show (Desk.run b events d' >>= fun r => Except.ok (screen :: r.1, r.2)) = _
    rw [hrest]
    rfl

/-! ## How boots ended -/

/-- Every boot that ended, collected or not, ended in a way that is known. -/
def Explained (P : Bool → Prop) (d : Desk) : Prop :=
  (∀ o, d.opened = some o → P o) ∧ ∀ e, d.job = some (.boot (.finished e)) → P e.opened

variable {P : Bool → Prop}

/-- Collecting a job keeps what is known of the boots. -/
theorem collect_explained {d d' : Desk} (hd : Explained P d) (h : d.collect = .ok d') :
    Explained P d' := by
  obtain ⟨hopened, hjob⟩ := hd
  rcases d with ⟨_ | ⟨_ | lines | _⟩ | ⟨_ | e | _⟩, shown, opened⟩
  case some.tests.panicked => cases h
  case some.boot.panicked => cases h
  case some.boot.finished =>
    cases h
    have hend : P e.opened := hjob e rfl
    exact ⟨fun o ho => Option.some.inj ho ▸ hend, fun e he => nomatch he⟩
  all_goals
    cases h
    exact ⟨hopened, fun e he => nomatch he⟩

/-- A click keeps it. -/
theorem click_explained {d : Desk} (hd : Explained P d) (clicks : Clicks) :
    Explained P (d.click clicks) := by
  obtain ⟨hopened, hjob⟩ := hd
  rcases d with ⟨_ | job, lines, opened⟩
  · rcases clicks with ⟨_ | _, _ | _⟩
    all_goals exact ⟨hopened, fun e he => nomatch he⟩
  · exact ⟨hopened, hjob⟩

/-- An event keeps it, when the boot that ends in it has the property. -/
theorem happen_explained {e : DesktopEvent}
    (h : ∀ emu host log, e = .bootEnd emu host log → P (Desk.nandOpens b host)) {d : Desk}
    {r : Option Screen × Desk} (hd : Explained P d) (hreturns : Desk.happen b e d = .ok r) :
    Explained P r.2 := by
  cases e with
  | frame elapsed clicks =>
    replace hreturns : d.frame elapsed clicks = .ok r := hreturns
    unfold Desk.frame at hreturns
    split at hreturns
    · cases hreturns
      exact hd
    · obtain ⟨collected, hcollect, hframe⟩ := bind_eq_ok hreturns
      cases hframe
      exact click_explained (collect_explained hd hcollect) clicks
  | testsEnd outcome =>
    cases hreturns
    rcases d with ⟨_ | ⟨thread⟩ | ⟨thread⟩, lines, opened⟩
    · exact hd
    · exact ⟨hd.1, fun e he => nomatch he⟩
    · exact hd
  | bootEnd emu host log =>
    cases hreturns
    rcases d with ⟨_ | ⟨thread⟩ | ⟨_ | e | _⟩, lines, opened⟩
    case some.boot.running =>
      refine ⟨hd.1, fun e he => ?_⟩
      have hthread := Job.boot.inj (Option.some.inj he)
      have hend : e.opened = Desk.nandOpens b host := by
        rcases hboot : Boot.boot b emu host .default with _ | result
        · rw [hboot] at hthread
          cases hthread
        · rw [hboot] at hthread
          cases hthread
          rfl
      rw [hend]
      exact h emu host log rfl
    all_goals exact hd

/-- A run keeps it: by induction over the events. -/
theorem run_explained {events : List DesktopEvent}
    (h : ∀ emu host log, DesktopEvent.bootEnd emu host log ∈ events → P (Desk.nandOpens b host))
    {d : Desk} {r : List (Option Screen) × Desk} (hd : Explained P d)
    (hreturns : Desk.run b events d = .ok r) : Explained P r.2 := by
  induction events generalizing d r with
  | nil =>
    cases hreturns
    exact hd
  | cons e events ih =>
    unfold Desk.run at hreturns
    obtain ⟨first, hhappen, hreturns⟩ := bind_eq_ok hreturns
    obtain ⟨rest, hrest, hreturns⟩ := bind_eq_ok hreturns
    cases hreturns
    have hfirst : Explained P first.2 := happen_explained b
      (fun emu host log he => h emu host log (he ▸ List.mem_cons_self)) hd hhappen
    have htail : ∀ emu host log, DesktopEvent.bootEnd emu host log ∈ events →
        P (Desk.nandOpens b host) := fun emu host log he =>
      h emu host log (List.mem_cons_of_mem _ he)
    exact ih (r := rest) htail hfirst hrest

/-- What the window shows is a boot under way, none, or the outcome of one with the property. -/
theorem bootPhase_explained {d : Desk} (hd : Explained P d) :
    (d.gui.bootThread.isSome ∧ d.gui.testThread = none ∧ d.gui.bootPhase = .hardwareInit) ∨
      (d.gui.bootThread = none ∧ (d.gui.bootPhase = .off ∨
        ∃ o, P o ∧ d.gui.bootPhase = if o then .running else .failed)) := by
  have hlast : Desk.lastPhase d.opened = .off ∨
      ∃ o, P o ∧ Desk.lastPhase d.opened = if o then .running else .failed := by
    rcases hopened : d.opened with _ | o
    · exact .inl rfl
    · refine .inr ⟨o, hd.1 o hopened, ?_⟩
      cases o <;> rfl
  rcases d with ⟨_ | ⟨thread⟩ | ⟨thread⟩, lines, opened⟩
  · exact .inr ⟨rfl, hlast⟩
  · exact .inr ⟨rfl, hlast⟩
  · exact .inl ⟨rfl, rfl, rfl⟩

/-- **Whatever the order of frames and thread ends, the window runs one job at a time, loses no
result, and shows the phase its boots ended in.**
SOURCE: gui/src/gui/gui.rs:8-256, core/src/sys/boot.rs:82-210 -/
theorem window_runs_one_job {events : List DesktopEvent} (h : ∀ e ∈ events, e.OneClick) :
    OneJob b events := by
  have hrun : GUI.run b events GUI.default =
      (Desk.run b events Desk.start).map fun r => (r.1, r.2.gui) := run_gui b h Desk.start
  constructor
  · exact hrun
  · intro hreturns
    obtain ⟨r, hr⟩ := run_sound b hreturns (d := Desk.start) (by simp [Sound, Desk.start])
    rw [hrun, hr]
    exact ⟨_, rfl⟩
  · intro screens g hg
    rw [hrun] at hg
    obtain ⟨r, hr, hg⟩ := map_eq_ok hg
    cases hg
    have hstart : Explained (fun o => ∃ emu host log,
        DesktopEvent.bootEnd emu host log ∈ events ∧ Desk.nandOpens b host = o) Desk.start :=
      ⟨fun o ho => (nomatch ho), fun e he => (nomatch he)⟩
    have hd := run_explained b (fun emu host log he => ⟨emu, host, log, he, rfl⟩) hstart hr
    rcases bootPhase_explained hd with hbooting | ⟨hidle, hoff | ⟨o, ⟨emu, host, log, he, ho⟩, ho'⟩⟩
    · exact .inl hbooting
    · exact .inr ⟨hidle, .inl hoff⟩
    · refine .inr ⟨hidle, .inr ⟨emu, host, log, he, ?_⟩⟩
      rw [ho]
      exact ho'

/-- A click on the boot button, a boot that cannot open its NAND, and the frame after it. -/
def failedBoot : List DesktopEvent :=
  [.frame 20800000000 ⟨false, true⟩,
    .bootEnd stuckEmulator
      ⟨fun _ => .ok [], fun _ => false, fun _ => .error (.io ⟨.permissionDenied, "denied"⟩), true⟩
      ["  NAND open failed: denied"],
    .frame 20900000000 ⟨false, false⟩]

/-- A boot whose NAND does not open, in a debug build. -/
theorem window_runs_one_job_failed :
    ∃ screens, GUI.run .debug failedBoot GUI.default =
      .ok (screens, (⟨none, ["  NAND open failed: denied"], some false⟩ : Desk).gui) := by
  have hclicks : ∀ e ∈ failedBoot, e.OneClick := by
    simp [failedBoot, DesktopEvent.OneClick]
  rw [(window_runs_one_job .debug hclicks).refines]
  exact ⟨_, rfl⟩

/-- With a click on both buttons in one frame, both threads are started. -/
example : (GUI.run .debug [.frame 20800000000 ⟨true, true⟩] GUI.default).map
    (fun r => (r.2.testThread.isSome, r.2.bootThread.isSome)) = .ok (true, true) := rfl

end Oboromi.Analysis
