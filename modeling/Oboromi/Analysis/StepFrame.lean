import Oboromi.Analysis.SchedulerStep

/-!
# What a scheduler step keeps

A step saves registers into threads and marks them running, and that is all it does to the
kernel's objects: no process or thread is added, removed, renamed or moved in the order the
maps iterate, and the tables and counters stay as they are (`step_kept`).
-/

set_option autoImplicit false

namespace Oboromi.Analysis

open Oboromi.Lib Oboromi.Model Oboromi.Interface

/-- A thread with another context, which may have been marked running. -/
structure ThreadKept (t t' : Thread) : Prop where
  fields : t' = { t with context := t'.context, state := t'.state }
  state : t'.state = t.state ∨ t'.state = .running

/-- A process whose threads were kept. -/
structure ProcessKept (p p' : Process) : Prop where
  fields : p' = { p with threads := p'.threads }
  threads : HashMap.Rel ThreadKept p.threads p'.threads

/-- A kernel whose objects were kept. -/
structure ObjectsKept (k k' : Kernel) : Prop where
  processes : HashMap.Rel ProcessKept k.processes k'.processes
  nextPid : k'.nextPid = k.nextPid
  handleTable : k'.handleTable = k.handleTable
  nextHandle : k'.nextHandle = k.nextHandle
  namedPorts : k'.namedPorts = k.namedPorts
  booted : k'.booted = k.booted

/-- A thread is kept when nothing happens. -/
theorem ThreadKept.refl (t : Thread) : ThreadKept t t := ⟨rfl, .inl rfl⟩

/-- A thread kept twice is kept. -/
theorem ThreadKept.trans {t t' t'' : Thread} (h : ThreadKept t t') (h' : ThreadKept t' t'') :
    ThreadKept t t'' := by
  refine ⟨?_, ?_⟩
  · rw [h'.fields, h.fields]
  · rcases h'.state with hsame | hrun
    · rw [hsame]
      exact h.state
    · exact .inr hrun

/-- A process is kept when nothing happens. -/
theorem ProcessKept.refl (p : Process) : ProcessKept p p :=
  ⟨rfl, HashMap.Rel.refl ThreadKept.refl p.threads⟩

/-- A process kept twice is kept. -/
theorem ProcessKept.trans {p p' p'' : Process} (h : ProcessKept p p') (h' : ProcessKept p' p'') :
    ProcessKept p p'' := by
  refine ⟨?_, HashMap.Rel.trans (fun _ _ _ ht ht' => ht.trans ht') h.threads h'.threads⟩
  rw [h'.fields, h.fields]

/-- The objects are kept when nothing happens. -/
theorem ObjectsKept.refl (k : Kernel) : ObjectsKept k k :=
  ⟨HashMap.Rel.refl ProcessKept.refl k.processes, rfl, rfl, rfl, rfl, rfl⟩

/-- Objects kept twice are kept. -/
theorem ObjectsKept.trans {k k' k'' : Kernel} (h : ObjectsKept k k') (h' : ObjectsKept k' k'') :
    ObjectsKept k k'' where
  processes := HashMap.Rel.trans (fun _ _ _ hp hp' => hp.trans hp') h.processes h'.processes
  nextPid := h'.nextPid.trans h.nextPid
  handleTable := h'.handleTable.trans h.handleTable
  nextHandle := h'.nextHandle.trans h.nextHandle
  namedPorts := h'.namedPorts.trans h.namedPorts
  booted := h'.booted.trans h.booted

/-! ## The three loops -/

/-- Assigning a core keeps the objects. -/
theorem assignCore_kept (ready : List ThreadRef) (k : Kernel) (i : Fin CORE_COUNT) :
    ObjectsKept k (Kernel.assignCore ready k i) := by
  have hprocesses := (assignCore_frame ready k i).1
  refine ⟨?_, ?_, ?_, ?_, ?_, ?_⟩
  · rw [hprocesses]
    exact HashMap.Rel.refl ProcessKept.refl k.processes
  all_goals
    unfold Kernel.assignCore
    split
    · rfl
    · dsimp only
      split <;> rfl

/-- Executing a core keeps the objects. -/
theorem executeCore_kept {b : Build} {emu : Emulator} {k k' : Kernel} {i : Fin CORE_COUNT}
    (h : Kernel.executeCore b emu k i = .ok k') : ObjectsKept k k' := by
  unfold Kernel.executeCore at h
  split at h
  · obtain ⟨r, -, h⟩ := bind_eq_ok h
    cases h
    exact ⟨HashMap.Rel.refl ProcessKept.refl k.processes, rfl, rfl, rfl, rfl, rfl⟩
  · cases h
    exact ObjectsKept.refl k

/-- Saving a context keeps the thread. -/
theorem saveContext_kept (core : UnicornCPU) (t : Thread) :
    ThreadKept t (Kernel.saveContext core t) := by
  rw [saveContext_eq]
  exact ⟨rfl, .inr rfl⟩

/-- Saving a core keeps the objects. -/
theorem saveCore_kept (k : Kernel) (i : Fin CORE_COUNT) :
    ObjectsKept k (Kernel.saveCore k i) := by
  unfold Kernel.saveCore
  split
  · exact ObjectsKept.refl k
  · next pid tid _ =>
      refine ⟨?_, rfl, rfl, rfl, rfl, rfl⟩
      apply HashMap.rel_modify ProcessKept.refl
      intro p
      exact ⟨rfl, HashMap.rel_modify ThreadKept.refl (saveContext_kept _) p.threads tid⟩

/-- **A step keeps the kernel's objects.**
SOURCE: core/src/sys/kernel.rs:122-174 -/
theorem step_kept {b : Build} {emu : Emulator} {k k' : Kernel} (h : k.step b emu = .ok k') :
    ObjectsKept k k' := by
  obtain ⟨m, hexec, hsaved⟩ := step_eq_ok h
  rw [hsaved]
  have hassign : ObjectsKept k k.assign :=
    foldl_invariant
      (fun s i (hs : ObjectsKept k s) => hs.trans (assignCore_kept k.readyThreads s i)) _
      (ObjectsKept.refl k)
  have hexecute : ObjectsKept k m :=
    foldlM_invariant (List.finRange CORE_COUNT)
      (fun i _ s s' hs hbody => hs.trans (executeCore_kept hbody)) hassign hexec
  exact foldl_invariant (fun s i hs => hs.trans (saveCore_kept s i)) _ hexecute

/-! ## Lookups -/

/-- A process is found before and after, or in neither. -/
theorem ObjectsKept.process {k k' : Kernel} (h : ObjectsKept k k') (pid : ProcessId) :
    Option.Rel ProcessKept (k.processes.get pid) (k'.processes.get pid) :=
  h.processes.get pid

/-- A thread is found before and after, or in neither. -/
theorem ObjectsKept.thread {k k' : Kernel} (h : ObjectsKept k k') (r : ThreadRef) :
    Option.Rel ThreadKept (threadAt k r) (threadAt k' r) := by
  unfold threadAt Kernel.thread
  have hprocess := h.process r.1
  generalize k.processes.get r.1 = p at hprocess
  generalize k'.processes.get r.1 = p' at hprocess
  cases hprocess with
  | none => exact .none
  | some hp => exact hp.threads.get r.2

end Oboromi.Analysis
