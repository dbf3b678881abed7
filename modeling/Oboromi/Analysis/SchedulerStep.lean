import Oboromi.Interface.Scheduling
import Oboromi.Lib.Loop

/-!
# What each loop of a scheduler step does

The assign loop fills the slots as `slot` says and leaves every core as `startCore` says
(`assign_slot`, `assign_core`).  The execute loop changes cores and memory only, and only
the cores whose slot is occupied.  The save loop changes a thread only through the slots
that name it (`save_thread`).
-/

set_option autoImplicit false

namespace Oboromi.Analysis

open Oboromi.Lib Oboromi.Model Oboromi.Interface

/-! ## The ready list -/

/-- A loop that pushes what passes a test is a filter and a map. -/
theorem foldl_append_filter {α β : Type} (p : α → Bool) (f : α → β) (l : List α) (acc : List β) :
    l.foldl (fun acc a => if p a then acc ++ [f a] else acc) acc =
      acc ++ (l.filter p).map f := by
  induction l generalizing acc with
  | nil => simp
  | cons a l ih =>
      rw [List.foldl_cons, ih]
      cases hp : p a with
      | true => simp [hp]
      | false => simp [hp]

/-- A loop that appends lists is a flat map. -/
theorem foldl_append_flatMap {α β : Type} (f : α → List β) (l : List α) (acc : List β) :
    l.foldl (fun acc a => acc ++ f a) acc = acc ++ l.flatMap f := by
  induction l generalizing acc with
  | nil => simp
  | cons a l ih => rw [List.foldl_cons, ih, List.flatMap_cons, List.append_assoc]

/-- SOURCE: core/src/sys/kernel.rs:124-131 -/
theorem readyThreads_eq (k : Kernel) : k.readyThreads = runnable k := by
  have hinner (p : Process) (acc : List ThreadRef) :
      p.threads.values.foldl (fun ready thread =>
        if thread.state = .ready ∨ thread.state = .running then
          ready ++ [(p.pid, thread.id)]
        else ready) acc =
      acc ++ (p.threads.values.filter fun t => decide (Runnable t)).map
        fun t => (p.pid, t.id) := by
    rw [← foldl_append_filter (fun t => decide (Runnable t)) (fun t : Thread => (p.pid, t.id))]
    simp only [decide_eq_true_eq]
    rfl
  unfold Kernel.readyThreads runnable
  simp only [hinner]
  exact foldl_append_flatMap _ _ []

/-! ## Registers -/

/-- Reading a register reads the register file. -/
@[simp] theorem getX_eq (core : UnicornCPU) (r : Fin 31) : core.getX r = core.regs.x.get r :=
  dif_pos r.isLt

/-- Writing a register changes the register file only. -/
theorem setX_eq (core : UnicornCPU) (r : Fin 31) (value : UInt64) :
    core.setX r value = { core with regs := { core.regs with x := put core.regs.x r value } } :=
  dif_pos r.isLt

/-- A loop that sets every register. -/
theorem foldl_setX (x : Vector UInt64 31) (core : UnicornCPU) :
    (List.finRange 31).foldl (fun core (r : Fin 31) => core.setX r (x.get r)) core =
      { core with regs := { core.regs with x := x } } := by
  have hfold (l : List (Fin 31)) (c : UnicornCPU) :
      l.foldl (fun c (r : Fin 31) => c.setX r (x.get r)) c =
        { c with regs := { c.regs with
          x := l.foldl (fun y (r : Fin 31) => put y r (x.get r)) c.regs.x } } := by
    induction l generalizing c with
    | nil => rfl
    | cons r l ih => rw [List.foldl_cons, ih, List.foldl_cons, setX_eq]
  rw [hfold, foldl_put, ofFn_get]

/-- Loading a context sets the registers, the stack pointer and the program counter.
SOURCE: core/src/sys/kernel.rs:141-146 -/
theorem loadContext_eq (context : CpuContext) (core : UnicornCPU) :
    Kernel.loadContext context core =
      { core with regs :=
        { core.regs with x := context.x, sp := context.sp, pc := context.pc } } := by
  unfold Kernel.loadContext
  rw [foldl_setX]
  rfl

/-- Saving a core keeps the saved flags and thread-local pointer.
SOURCE: core/src/sys/kernel.rs:163-169 -/
theorem saveContext_eq (core : UnicornCPU) (t : Thread) :
    Kernel.saveContext core t = { t with
      context := { t.context with x := core.regs.x, sp := core.regs.sp, pc := core.regs.pc }
      state := .running } := by
  have hfold (l : List (Fin 31)) (c : CpuContext) :
      l.foldl (fun c (r : Fin 31) => { c with x := put c.x r (core.getX r) }) c =
        { c with x := l.foldl (fun x (r : Fin 31) => put x r (core.getX r)) c.x } := by
    induction l generalizing c with
    | nil => rfl
    | cons r l ih => rw [List.foldl_cons, ih, List.foldl_cons]
  have hx : (fun r : Fin 31 => core.getX r) = core.regs.x.get := by
    funext r
    exact getX_eq core r
  unfold Kernel.saveContext
  dsimp only
  rw [hfold, foldl_put, hx, ofFn_get]
  rfl

/-! ## The assign loop -/

/-- Assigning a core changes neither processes nor shared memory. -/
theorem assignCore_frame (ready : List ThreadRef) (k : Kernel) (i : Fin CORE_COUNT) :
    (Kernel.assignCore ready k i).processes = k.processes ∧
      (Kernel.assignCore ready k i).cpu.sharedMemory = k.cpu.sharedMemory := by
  unfold Kernel.assignCore
  cases ready[i.val]? with
  | none => exact ⟨rfl, rfl⟩
  | some r =>
      obtain ⟨pid, tid⟩ := r
      simp only
      split <;> exact ⟨rfl, rfl⟩

/-- The assignment changes neither processes nor shared memory. -/
theorem assign_frame (k : Kernel) :
    k.assign.processes = k.processes ∧
      k.assign.cpu.sharedMemory = k.cpu.sharedMemory := by
  have hkeep : ∀ (k' : Kernel) (i : Fin CORE_COUNT),
      k'.processes = k.processes ∧ k'.cpu.sharedMemory = k.cpu.sharedMemory →
      (Kernel.assignCore k.readyThreads k' i).processes = k.processes ∧
        (Kernel.assignCore k.readyThreads k' i).cpu.sharedMemory = k.cpu.sharedMemory := by
    rintro k' i ⟨hproc, hmem⟩
    obtain ⟨hproc', hmem'⟩ := assignCore_frame k.readyThreads k' i
    exact ⟨hproc'.trans hproc, hmem'.trans hmem⟩
  exact foldl_invariant hkeep (List.finRange CORE_COUNT) ⟨rfl, rfl⟩

/-- What the assign loop leaves in a slot and its core, given what was there. -/
def assigned (k : Kernel) (ready : List ThreadRef) (i : Fin CORE_COUNT)
    (e : Option ThreadRef × UnicornCPU) : Option ThreadRef × UnicornCPU :=
  match ready[i.val]? with
  | none => e
  | some r =>
    (some r, match threadAt k r with
      | none => e.2
      | some t => Kernel.loadContext t.context e.2)

/-- Threads are found in the processes alone. -/
theorem threadAt_congr {k k' : Kernel} (h : k'.processes = k.processes) (r : ThreadRef) :
    threadAt k' r = threadAt k r := by
  unfold threadAt Kernel.thread
  rw [h]

/-- What assigning a core does to its own slot and core. -/
theorem assignCore_self (k₀ k : Kernel) (ready : List ThreadRef) (i : Fin CORE_COUNT)
    (h : k.processes = k₀.processes) :
    ((Kernel.assignCore ready k i).runningOn.get i, (Kernel.assignCore ready k i).cpu.cores.get i) =
      assigned k₀ ready i (k.runningOn.get i, k.cpu.cores.get i) := by
  unfold Kernel.assignCore assigned
  cases ready[i.val]? with
  | none => rfl
  | some r =>
      obtain ⟨pid, tid⟩ := r
      have hthread : Kernel.thread { k with runningOn := put k.runningOn i (some (pid, tid)) }
          pid tid = threadAt k₀ (pid, tid) := threadAt_congr h (pid, tid)
      cases hfound : threadAt k₀ (pid, tid) with
      | none =>
          rw [hfound] at hthread
          simp only [hthread]
          simp [hfound]
      | some t =>
          rw [hfound] at hthread
          simp only [hthread]
          simp [hfound]

/-- Assigning a core leaves the other cores alone. -/
theorem assignCore_other (k : Kernel) (ready : List ThreadRef) {i j : Fin CORE_COUNT}
    (hne : j ≠ i) :
    ((Kernel.assignCore ready k i).runningOn.get j, (Kernel.assignCore ready k i).cpu.cores.get j) =
      (k.runningOn.get j, k.cpu.cores.get j) := by
  unfold Kernel.assignCore
  cases ready[i.val]? with
  | none => rfl
  | some r =>
      obtain ⟨pid, tid⟩ := r
      simp only
      split <;> simp [get_put_of_ne, hne]

/-- SOURCE: core/src/sys/kernel.rs:133-149 -/
theorem assign_entry (k : Kernel) (i : Fin CORE_COUNT) :
    (k.assign.runningOn.get i, k.assign.cpu.cores.get i) =
      assigned k (runnable k) i (k.runningOn.get i, k.cpu.cores.get i) := by
  have hentry := foldl_entry
    (fun (k' : Kernel) (j : Fin CORE_COUNT) => (k'.runningOn.get j, k'.cpu.cores.get j))
    (assigned k (runnable k)) (fun k' => k'.processes = k.processes)
    (fun k' j h => (assignCore_frame (runnable k) k' j).1.trans h)
    (fun k' j h => assignCore_self k k' (runnable k) j h)
    (fun k' j j' _ hne => assignCore_other k' (runnable k) hne)
    (List.nodup_finRange CORE_COUNT) k rfl i
  rw [if_pos (List.mem_finRange _)] at hentry
  unfold Kernel.assign
  rw [readyThreads_eq]
  exact hentry

/-- The slot of a core after the assignment. -/
theorem assign_slot (k : Kernel) (i : Fin CORE_COUNT) : k.assign.runningOn.get i = slot k i := by
  have h := congrArg Prod.fst (assign_entry k i)
  rw [show k.assign.runningOn.get i = _ from h]
  unfold assigned slot
  cases (runnable k)[i.val]? <;> rfl

/-- The state of a core after the assignment. -/
theorem assign_core (k : Kernel) (i : Fin CORE_COUNT) :
    k.assign.cpu.cores.get i = startCore k i := by
  have h := congrArg Prod.snd (assign_entry k i)
  rw [show k.assign.cpu.cores.get i = _ from h]
  unfold assigned startCore
  cases (runnable k)[i.val]? with
  | none => rfl
  | some r =>
      simp only [Option.bind_some]
      cases threadAt k r <;> rfl

/-! ## The execute loop -/

/-- An iteration keeps the objects and the slots, and every core but its own. -/
theorem executeCore_frame {b : Build} {emu : Emulator} {k k' : Kernel} {i : Fin CORE_COUNT}
    (h : Kernel.executeCore b emu k i = .ok k') :
    k'.processes = k.processes ∧ k'.runningOn = k.runningOn ∧
      ∀ j : Fin CORE_COUNT, j ≠ i → k'.cpu.cores.get j = k.cpu.cores.get j := by
  unfold Kernel.executeCore at h
  cases hslot : (k.runningOn.get i).isSome with
  | false =>
      rw [hslot] at h
      cases h
      exact ⟨rfl, rfl, fun _ _ => rfl⟩
  | true =>
      rw [hslot, if_pos rfl] at h
      obtain ⟨r, -, h⟩ := bind_eq_ok h
      cases h
      refine ⟨rfl, rfl, ?_⟩
      intro j hne
      exact get_put_of_ne k.cpu.cores r.1 hne

/-- A core step that returned ran the emulator once.
SOURCE: core/src/cpu/unicorn_interface.rs:94-102 -/
theorem cpuStep_eq_ok {b : Build} {emu : Emulator} {c : UnicornCPU} {mem : SharedMemory}
    {r : UnicornCPU × SharedMemory} (h : c.step b emu mem = .ok r) :
    r.1.regs = (runOnce emu c.regs mem).1 ∧ r.2 = (runOnce emu c.regs mem).2 := by
  simp only [UnicornCPU.step, Build.addU64, Build.checked] at h
  split at h
  · cases h
    exact ⟨rfl, rfl⟩
  · cases b with
    | debug => cases h
    | release =>
        cases h
        exact ⟨rfl, rfl⟩

/-- What an iteration does to its own core and to the memory. -/
theorem executeCore_own {b : Build} {emu : Emulator} {k k' : Kernel} {i : Fin CORE_COUNT}
    (hslot : (k.runningOn.get i).isSome) (h : Kernel.executeCore b emu k i = .ok k') :
    (k'.cpu.cores.get i).regs =
        (runOnce emu (k.cpu.cores.get i).regs k.cpu.sharedMemory).1 ∧
      k'.cpu.sharedMemory = (runOnce emu (k.cpu.cores.get i).regs k.cpu.sharedMemory).2 := by
  unfold Kernel.executeCore at h
  rw [if_pos hslot] at h
  obtain ⟨r, hstep, h⟩ := bind_eq_ok h
  obtain ⟨hregs, hmem⟩ := cpuStep_eq_ok hstep
  cases h
  refine ⟨?_, hmem⟩
  rw [← hregs]
  simp

/-- Executing changes neither processes nor slots. -/
theorem execute_frame {b : Build} {emu : Emulator} {k k' : Kernel}
    (h : k.execute b emu = .ok k') :
    k'.processes = k.processes ∧ k'.runningOn = k.runningOn := by
  have hkeep : ∀ i ∈ List.finRange CORE_COUNT, ∀ s s' : Kernel,
      s.processes = k.processes ∧ s.runningOn = k.runningOn →
      Kernel.executeCore b emu s i = .ok s' →
      s'.processes = k.processes ∧ s'.runningOn = k.runningOn := by
    intro i _ s s' hinv hbody
    obtain ⟨hproc, hslots, -⟩ := executeCore_frame hbody
    exact ⟨hproc.trans hinv.1, hslots.trans hinv.2⟩
  exact foldlM_invariant (List.finRange CORE_COUNT) hkeep ⟨rfl, rfl⟩ h

/-! ## The save loop -/

/-- An iteration changes the thread its slot names and no other. -/
theorem saveCore_thread (k : Kernel) (i : Fin CORE_COUNT) (r : ThreadRef) :
    threadAt (Kernel.saveCore k i) r = (threadAt k r).map fun t =>
      if k.runningOn.get i = some r then Kernel.saveContext (k.cpu.cores.get i) t else t := by
  unfold Kernel.saveCore
  cases hslot : k.runningOn.get i with
  | none => simp
  | some r' =>
      obtain ⟨pid, tid⟩ := r'
      simp only [threadAt, Kernel.thread, HashMap.get_modify]
      cases k.processes.get r.1 with
      | none => rfl
      | some p =>
          simp only [Option.map_some, Option.bind_eq_bind, Option.bind_some]
          by_cases hpid : r.1 = pid
          · rw [if_pos hpid, HashMap.get_modify]
            congr 1
            funext t
            by_cases htid : r.2 = tid
            · have hr : r = (pid, tid) := Prod.ext hpid htid
              simp [hr]
            · have hr : (pid, tid) ≠ r := fun h => htid (by rw [← h])
              simp [htid, hr]
          · have hr : (pid, tid) ≠ r := fun h => hpid (by rw [← h])
            simp [hpid, hr]

/-- Saving a core changes neither slots nor cores. -/
theorem saveCore_frame (k : Kernel) (i : Fin CORE_COUNT) :
    (Kernel.saveCore k i).runningOn = k.runningOn ∧ (Kernel.saveCore k i).cpu = k.cpu := by
  unfold Kernel.saveCore
  split <;> exact ⟨rfl, rfl⟩

/-- The saves a thread receives, in core order. -/
def saves (k : Kernel) (r : ThreadRef) (l : List (Fin CORE_COUNT)) (t : Thread) : Thread :=
  l.foldl (fun t i =>
    if k.runningOn.get i = some r then Kernel.saveContext (k.cpu.cores.get i) t else t) t

/-- A thread after the cores of a list have been saved. -/
theorem save_thread_list (k : Kernel) (r : ThreadRef) (l : List (Fin CORE_COUNT)) :
    threadAt (l.foldl Kernel.saveCore k) r = (threadAt k r).map (saves k r l) := by
  induction l generalizing k with
  | nil => cases hr : threadAt k r <;> simp [saves, hr]
  | cons i l ih =>
      obtain ⟨hslots, hcpu⟩ := saveCore_frame k i
      rw [List.foldl_cons, ih, saveCore_thread, Option.map_map]
      congr 1
      funext t
      simp only [saves, Function.comp_apply, List.foldl_cons, hslots, hcpu]

/-- SOURCE: core/src/sys/kernel.rs:158-173 -/
theorem save_thread (k : Kernel) (r : ThreadRef) :
    threadAt k.save r = (threadAt k r).map (saves k r (List.finRange CORE_COUNT)) :=
  save_thread_list k r _

/-- Saving changes neither slots nor cores. -/
theorem save_frame (k : Kernel) : k.save.runningOn = k.runningOn ∧ k.save.cpu = k.cpu := by
  have hkeep : ∀ (k' : Kernel) (i : Fin CORE_COUNT),
      k'.runningOn = k.runningOn ∧ k'.cpu = k.cpu →
      (Kernel.saveCore k' i).runningOn = k.runningOn ∧ (Kernel.saveCore k' i).cpu = k.cpu := by
    rintro k' i ⟨hslots, hcpu⟩
    obtain ⟨hslots', hcpu'⟩ := saveCore_frame k' i
    exact ⟨hslots'.trans hslots, hcpu'.trans hcpu⟩
  exact foldl_invariant hkeep (List.finRange CORE_COUNT) ⟨rfl, rfl⟩

/-- A thread no slot names is not saved. -/
theorem saves_of_absent {k : Kernel} {r : ThreadRef} {l : List (Fin CORE_COUNT)}
    (h : ∀ i ∈ l, k.runningOn.get i ≠ some r) (t : Thread) : saves k r l t = t :=
  foldl_stationary l fun i hi => if_neg (h i hi)

/-- No save touches the saved flags and thread-local pointer. -/
theorem saves_flags (k : Kernel) (r : ThreadRef) (l : List (Fin CORE_COUNT)) (t : Thread) :
    (saves k r l t).context.pstate = t.context.pstate ∧
      (saves k r l t).context.tpidrEl0 = t.context.tpidrEl0 := by
  have hkeep : ∀ (t' : Thread) (i : Fin CORE_COUNT),
      t'.context.pstate = t.context.pstate ∧ t'.context.tpidrEl0 = t.context.tpidrEl0 →
      (if k.runningOn.get i = some r then Kernel.saveContext (k.cpu.cores.get i) t' else
          t').context.pstate = t.context.pstate ∧
        (if k.runningOn.get i = some r then Kernel.saveContext (k.cpu.cores.get i) t' else
          t').context.tpidrEl0 = t.context.tpidrEl0 := by
    rintro t' i ⟨hps, htp⟩
    split
    · rw [saveContext_eq]
      exact ⟨hps, htp⟩
    · exact ⟨hps, htp⟩
  exact foldl_invariant hkeep l ⟨rfl, rfl⟩

/-- A thread some slot names is running afterwards, whatever it was before. -/
theorem saves_state {k : Kernel} {r : ThreadRef} {i : Fin CORE_COUNT}
    (hi : k.runningOn.get i = some r) (t : Thread) :
    (saves k r (List.finRange CORE_COUNT) t).state = .running := by
  obtain ⟨before, after, hsplit⟩ := List.append_of_mem (List.mem_finRange i)
  have hkeep : ∀ (t' : Thread) (j : Fin CORE_COUNT), t'.state = .running →
      (if k.runningOn.get j = some r then Kernel.saveContext (k.cpu.cores.get j) t' else t').state =
        .running := by
    intro t' j ht'
    split
    · rw [saveContext_eq]
    · exact ht'
  unfold saves
  rw [hsplit, List.foldl_append, List.foldl_cons, if_pos hi]
  exact foldl_invariant hkeep after (by rw [saveContext_eq])

/-- A thread exactly one slot names is saved from that slot's core. -/
theorem saves_of_unique {k : Kernel} {r : ThreadRef} {i : Fin CORE_COUNT}
    (hi : k.runningOn.get i = some r)
    (huniq : ∀ j : Fin CORE_COUNT, k.runningOn.get j = some r → j = i)
    (t : Thread) :
    saves k r (List.finRange CORE_COUNT) t = Kernel.saveContext (k.cpu.cores.get i) t := by
  obtain ⟨before, after, hsplit⟩ := List.append_of_mem (List.mem_finRange i)
  have hnodup := List.nodup_finRange CORE_COUNT
  rw [hsplit, List.nodup_append, List.nodup_cons] at hnodup
  obtain ⟨-, ⟨hafter, -⟩, hbefore⟩ := hnodup
  have hb : ∀ j ∈ before, k.runningOn.get j ≠ some r := by
    intro j hj hr
    exact hbefore j hj i List.mem_cons_self (huniq j hr)
  have ha : ∀ j ∈ after, k.runningOn.get j ≠ some r := by
    intro j hj hr
    exact hafter (huniq j hr ▸ hj)
  have hfirst : saves k r before t = t := saves_of_absent hb t
  have hlast := saves_of_absent ha (Kernel.saveContext (k.cpu.cores.get i) t)
  unfold saves at hfirst hlast ⊢
  rw [hsplit, List.foldl_append, List.foldl_cons, hfirst, if_pos hi]
  exact hlast

/-! ## The step -/

/-- A step that returned: its three loops. -/
theorem step_eq_ok {b : Build} {emu : Emulator} {k k' : Kernel} (h : k.step b emu = .ok k') :
    ∃ m, k.assign.execute b emu = .ok m ∧ k' = m.save := by
  unfold Kernel.step at h
  obtain ⟨m, hexec, hsave⟩ := bind_eq_ok h
  exact ⟨m, hexec, (Except.ok.inj hsave).symm⟩

/-- After a step the slots are those of the step. -/
theorem step_slot {b : Build} {emu : Emulator} {k k' : Kernel} (h : k.step b emu = .ok k')
    (i : Fin CORE_COUNT) : k'.runningOn.get i = slot k i := by
  obtain ⟨m, hexec, hsave⟩ := step_eq_ok h
  rw [hsave, (save_frame m).1, (execute_frame hexec).2, assign_slot]

/-- After a step a thread is what the save loop makes of it. -/
theorem step_thread {b : Build} {emu : Emulator} {k m : Kernel}
    (h : k.assign.execute b emu = .ok m) (r : ThreadRef) :
    threadAt m.save r = (threadAt k r).map (saves m r (List.finRange CORE_COUNT)) := by
  rw [save_thread, threadAt_congr (execute_frame h).1, threadAt_congr (assign_frame k).1]

/-- The slots the save loop goes by are those of the step. -/
theorem executed_slot {b : Build} {emu : Emulator} {k m : Kernel}
    (h : k.assign.execute b emu = .ok m) (i : Fin CORE_COUNT) : m.runningOn.get i = slot k i := by
  rw [(execute_frame h).2, assign_slot]

/-- A step returns unless some occupied core would run past the end of the address space in
a debug build. -/
theorem step_returns {b : Build} (emu : Emulator) {k : Kernel} (h : ¬ Aborts b k) :
    ∃ k', k.step b emu = .ok k' := by
  -- a core still to run is the core the step started with, so its program counter is known
  let Inv : List (Fin CORE_COUNT) → Kernel → Prop := fun l s =>
    l.Nodup ∧ s.runningOn = k.assign.runningOn ∧ ∀ j ∈ l, s.cpu.cores.get j = startCore k j
  have hbody : ∀ i l s, Inv (i :: l) s →
      ∃ s', Kernel.executeCore b emu s i = .ok s' ∧ Inv l s' := by
    rintro i l s ⟨hnodup, hslots, hcores⟩
    obtain ⟨hfresh, hnodup'⟩ := List.nodup_cons.mp hnodup
    have hreturns : ∃ s', Kernel.executeCore b emu s i = .ok s' := by
      unfold Kernel.executeCore
      split
      · next hsome =>
          have hocc : (slot k i).isSome := by rwa [← assign_slot, ← hslots]
          have hcore : s.cpu.cores.get i = startCore k i := hcores i List.mem_cons_self
          have hadd : b.addU64 (s.cpu.cores.get i).getPc 4 =
              .ok ((s.cpu.cores.get i).getPc + 4) := by
            cases b with
            | release => exact Build.addU64_release
            | debug =>
                refine Build.addU64_of_fits (Nat.lt_of_not_le fun hover => h ⟨rfl, i, hocc, ?_⟩)
                rwa [hcore] at hover
          simp only [UnicornCPU.step, hadd]
          exact ⟨_, rfl⟩
      · exact ⟨s, rfl⟩
    obtain ⟨s', hs'⟩ := hreturns
    obtain ⟨-, hslots', hothers⟩ := executeCore_frame hs'
    refine ⟨s', hs', hnodup', hslots'.trans hslots, ?_⟩
    intro j hj
    have hne : j ≠ i := fun hji => hfresh (hji ▸ hj)
    rw [hothers j hne]
    exact hcores j (List.mem_cons_of_mem _ hj)
  have hstart : Inv (List.finRange CORE_COUNT) k.assign :=
    ⟨List.nodup_finRange CORE_COUNT, rfl, fun j _ => assign_core k j⟩
  obtain ⟨m, hm⟩ := foldlM_returns hbody (List.finRange CORE_COUNT) hstart
  refine ⟨m.save, ?_⟩
  have hexec : k.assign.execute b emu = .ok m := hm
  unfold Kernel.step
  rw [hexec]
  rfl

end Oboromi.Analysis
