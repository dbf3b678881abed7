import Oboromi.Analysis.SchedulerSlots

/-!
# What a step keeps apart

The assign loop loads `x`, `sp` and `pc`, the save loop saves the same three, and the flags
and the thread-local pointer are neither loaded nor saved.  So an instruction that reads
them sees what an earlier thread left in the core, and one that writes them loses the
result: over every emulator the contexts are kept apart only by a step that saves nothing
(`contexts_isolated_iff`, first part).  For an emulator that ignores the two fields the
three that are loaded are all there is, and a step without leftover slots keeps the
contexts apart (second part).
-/

set_option autoImplicit false

namespace Oboromi.Analysis

open Oboromi.Lib Oboromi.Model Oboromi.Interface

/-! ## One core's turn -/

section Turn

variable {b : Build} {emu : Emulator} {k m : Kernel}

/-- The execute loop at one core: the state its turn starts from, its own iteration, and
the rest, which leaves the core alone. -/
theorem execute_turn (h : k.assign.execute b emu = .ok m) (i : Fin CORE_COUNT) :
    ∃ s s' : Kernel,
      ((List.finRange CORE_COUNT).take i).foldlM (Kernel.executeCore b emu) k.assign = .ok s ∧
      Kernel.executeCore b emu s i = .ok s' ∧ s.runningOn = k.assign.runningOn ∧
      s.cpu.cores.get i = startCore k i ∧ m.cpu.cores.get i = s'.cpu.cores.get i := by
  have hlen : i.val < (List.finRange CORE_COUNT).length := by
    rw [List.length_finRange]
    exact i.isLt
  have hi : (List.finRange CORE_COUNT)[i.val] = i := by simp
  have hsplit : List.finRange CORE_COUNT = (List.finRange CORE_COUNT).take i ++
      i :: (List.finRange CORE_COUNT).drop (i + 1) := by
    conv_lhs => rw [← List.take_append_drop i.val (List.finRange CORE_COUNT),
      List.drop_eq_getElem_cons hlen, hi]
  have hnodup := List.nodup_finRange CORE_COUNT
  rw [hsplit, List.nodup_append, List.nodup_cons] at hnodup
  obtain ⟨-, ⟨hafter, -⟩, hbefore⟩ := hnodup
  -- an iteration at another core leaves core i and the slots alone
  have hkeep (c : UnicornCPU) (l : List (Fin CORE_COUNT)) (hl : i ∉ l) :
      ∀ j ∈ l, ∀ s s' : Kernel,
        s.runningOn = k.assign.runningOn ∧ s.cpu.cores.get i = c →
        Kernel.executeCore b emu s j = .ok s' →
        s'.runningOn = k.assign.runningOn ∧ s'.cpu.cores.get i = c := by
    rintro j hj s s' ⟨hslots, hcore⟩ hbody
    obtain ⟨-, hslots', hothers⟩ := executeCore_frame hbody
    have hne : i ≠ j := fun hij => hl (hij ▸ hj)
    exact ⟨hslots'.trans hslots, (hothers i hne).trans hcore⟩
  have hloop : (List.finRange CORE_COUNT).foldlM (Kernel.executeCore b emu) k.assign = .ok m := h
  rw [hsplit] at hloop
  obtain ⟨s, hs, hrest⟩ := foldlM_append_eq_ok hloop
  obtain ⟨s', hs', hend⟩ := foldlM_cons_eq_ok hrest
  have hbefore' : i ∉ (List.finRange CORE_COUNT).take i :=
    fun hmem => hbefore i hmem i List.mem_cons_self rfl
  obtain ⟨hslots, hcore⟩ :=
    foldlM_invariant _ (hkeep (startCore k i) _ hbefore') ⟨rfl, assign_core k i⟩ hs
  obtain ⟨-, hslots', -⟩ := executeCore_frame hs'
  obtain ⟨-, hlast⟩ :=
    foldlM_invariant _ (hkeep (s'.cpu.cores.get i) _ hafter) ⟨hslots'.trans hslots, rfl⟩ hend
  exact ⟨s, s', hs, hs', hslots, hcore, hlast⟩

/-- A step that returned did not abort. -/
theorem not_aborts_of_step {k' : Kernel} (h : k.step b emu = .ok k') : ¬ Aborts b k := by
  rintro ⟨rfl, i, hocc, hover⟩
  obtain ⟨m, hexec, -⟩ := step_eq_ok h
  obtain ⟨s, s', -, hturn, hslots, hcore, -⟩ := execute_turn hexec i
  have hsome : (s.runningOn.get i).isSome := by rwa [hslots, assign_slot]
  unfold Kernel.executeCore at hturn
  rw [if_pos hsome, hcore] at hturn
  have hpanic : Build.debug.addU64 (startCore k i).getPc 4 = .error .panic :=
    Build.addU64_debug_of_wraps hover
  simp only [UnicornCPU.step, hpanic] at hturn
  cases hturn

/-- A thread without a slot is what it was. -/
theorem step_thread_of_absent {k' : Kernel} (h : k.step b emu = .ok k') {r : ThreadRef}
    (habsent : ∀ i : Fin CORE_COUNT, slot k i ≠ some r) : threadAt k' r = threadAt k r := by
  obtain ⟨m, hexec, hsave⟩ := step_eq_ok h
  rw [hsave, step_thread hexec]
  cases threadAt k r with
  | none => rfl
  | some t =>
      rw [Option.map_some,
        saves_of_absent fun i _ => by rw [executed_slot hexec]; exact habsent i]

/-- A thread that is saved after an instruction that changes the flags is not saved what
that instruction left. -/
theorem not_isolated_of_flags (habort : ¬ Aborts b k) {i : Fin CORE_COUNT} {r : ThreadRef}
    {t : Thread} (hslot : slot k i = some r) (ht : threadAt k r = some t)
    (hflags : ∀ mem, (runOnce emu t.context mem).1.pstate ≠ t.context.pstate) :
    ¬ Isolated b emu k := by
  rintro ⟨-, hown⟩
  obtain ⟨k', hk'⟩ := step_returns emu habort
  obtain ⟨m, hexec, hsave⟩ := step_eq_ok hk'
  obtain ⟨mem, -, hcontext⟩ := hown k' hk' i r t (by rw [step_slot hk', hslot]) ht
  rw [hsave, step_thread hexec, ht, Option.map_some, Option.map_some,
    Option.some.injEq] at hcontext
  have hkept := (saves_flags m r (List.finRange CORE_COUNT) t).1
  rw [hcontext] at hkept
  exact hflags mem hkept

/-- A step that saves nothing keeps everything apart. -/
theorem isolated_of_idle (h : ∀ i r, slot k i = some r → threadAt k r = none) :
    Isolated b emu k := by
  have habsent {r : ThreadRef} {t : Thread} (ht : threadAt k r = some t) :
      ∀ i : Fin CORE_COUNT, slot k i ≠ some r := by
    intro i hi
    rw [h i r hi] at ht
    cases ht
  have hsame (k₀ k' : Kernel) (hslot : ∀ i, slot k₀ i = slot k i)
      (hthread : ∀ r, threadAt k₀ r = threadAt k r) (hstep : k₀.step b emu = .ok k')
      (r : ThreadRef) : threadAt k' r = threadAt k r := by
    by_cases hfound : ∃ i, slot k₀ i = some r
    · obtain ⟨i, hi⟩ := hfound
      have hnone : threadAt k r = none := h i r (by rw [← hslot i, hi])
      obtain ⟨m, hexec, hsave⟩ := step_eq_ok hstep
      rw [hsave, step_thread hexec, hthread, hnone]
      rfl
    · rw [step_thread_of_absent hstep (fun i hi => hfound ⟨i, hi⟩), hthread]
  constructor
  · intro cores k₁ k₂ h₁ h₂ r
    rw [hsame k k₁ (fun _ => rfl) (fun _ => rfl) h₁ r,
      hsame { k with cpu := { k.cpu with cores := cores } } k₂
        (fun _ => rfl) (fun _ => rfl) h₂ r]
  · intro k' hk' i r t hi ht
    rw [step_slot hk'] at hi
    exact absurd hi (habsent ht i)

end Turn

/-! ## Emulators that ignore the flags -/

/-- The registers the scheduler loads and saves are the same. -/
def SameRun (a a' : CpuContext) : Prop := a'.x = a.x ∧ a'.sp = a.sp ∧ a'.pc = a.pc

/-- Contexts of the same run differ in the two fields that are not switched. -/
theorem SameRun.eq {a a' : CpuContext} (h : SameRun a a') :
    a' = { a with pstate := a'.pstate, tpidrEl0 := a'.tpidrEl0 } := by
  obtain ⟨hx, hsp, hpc⟩ := h
  cases a'
  cases a
  simp only at hx hsp hpc
  subst hx hsp hpc
  rfl

section Ignoring

variable {b : Build} {emu : Emulator} (hemu : IgnoresFlags emu)

include hemu

/-- Cores that differ in the two fields only take the same step. -/
theorem runOnce_sameRun {a a' : CpuContext} (h : SameRun a a') (mem : SharedMemory) :
    SameRun (runOnce emu a mem).1 (runOnce emu a' mem).1 ∧
      (runOnce emu a' mem).2 = (runOnce emu a mem).2 := by
  have hrun : runOnce emu a' mem =
      ({ (runOnce emu a mem).1 with pstate := a'.pstate, tpidrEl0 := a'.tpidrEl0 },
        (runOnce emu a mem).2) := by
    unfold runOnce
    rw [h.2.2]
    conv_lhs => rw [h.eq]
    exact hemu a.pc (a.pc + 4) a mem a'.pstate a'.tpidrEl0
  rw [hrun]
  exact ⟨⟨rfl, rfl, rfl⟩, rfl⟩

/-- Such an emulator leaves the two fields as they are. -/
theorem runOnce_flags (a : CpuContext) (mem : SharedMemory) :
    (runOnce emu a mem).1.pstate = a.pstate ∧ (runOnce emu a mem).1.tpidrEl0 = a.tpidrEl0 := by
  have h : (runOnce emu a mem).1 =
      { (runOnce emu a mem).1 with pstate := a.pstate, tpidrEl0 := a.tpidrEl0 } :=
    congrArg Prod.fst (hemu a.pc (a.pc + 4) a mem a.pstate a.tpidrEl0)
  have hps := congrArg CpuContext.pstate h
  have htp := congrArg CpuContext.tpidrEl0 h
  exact ⟨hps, htp⟩

omit hemu in
/-- An occupied slot's core starts from the registers of its own thread. -/
theorem startCore_of_owned {k : Kernel} (howned : SlotsOwned k) {i : Fin CORE_COUNT}
    {r : ThreadRef} (hi : slot k i = some r) :
    ∃ t, threadAt k r = some t ∧ SameRun t.context (startCore k i).regs := by
  have hready : (runnable k)[i.val]? = some r := runnable_of_slot howned.vacant hi
  obtain ⟨t, ht⟩ := howned.exists_thread r ((mem_selected_iff r).mpr ⟨i, hready⟩)
  have hcore : startCore k i = Kernel.loadContext t.context (k.cpu.cores.get i) := by
    unfold startCore
    simp only [hready, Option.bind_some, ht]
  refine ⟨t, ht, ?_⟩
  rw [hcore, loadContext_eq]
  exact ⟨rfl, rfl, rfl⟩

/-- The cores of two runs that started with different leftovers. -/
structure Paired (k s s' : Kernel) : Prop where
  slots : ∀ i : Fin CORE_COUNT, s.runningOn.get i = slot k i ∧ s'.runningOn.get i = slot k i
  memory : s'.cpu.sharedMemory = s.cpu.sharedMemory
  cores : ∀ i : Fin CORE_COUNT, (slot k i).isSome →
    SameRun (s.cpu.cores.get i).regs (s'.cpu.cores.get i).regs

/-- One iteration of the execute loop keeps two runs paired. -/
theorem executeCore_paired {k s s' u u' : Kernel} {i : Fin CORE_COUNT} (h : Paired k s s')
    (hs : Kernel.executeCore b emu s i = .ok u) (hs' : Kernel.executeCore b emu s' i = .ok u') :
    Paired k u u' := by
  obtain ⟨-, hslots, hothers⟩ := executeCore_frame hs
  obtain ⟨-, hslots', hothers'⟩ := executeCore_frame hs'
  by_cases hocc : (slot k i).isSome
  · obtain ⟨hcore, hmem⟩ := executeCore_own (by rwa [(h.slots i).1]) hs
    obtain ⟨hcore', hmem'⟩ := executeCore_own (by rwa [(h.slots i).2]) hs'
    obtain ⟨hsame, hsameMem⟩ := runOnce_sameRun hemu (h.cores i hocc) s.cpu.sharedMemory
    rw [h.memory] at hcore' hmem'
    constructor
    · intro j
      rw [hslots, hslots']
      exact h.slots j
    · rw [hmem, hmem', hsameMem]
    · intro j hj
      by_cases hji : j = i
      · subst hji
        rw [hcore, hcore']
        exact hsame
      · rw [hothers j hji, hothers' j hji]
        exact h.cores j hj
  · have hidle : (s.runningOn.get i).isSome = false := by
      rw [(h.slots i).1]
      exact Bool.eq_false_iff.mpr hocc
    have hidle' : (s'.runningOn.get i).isSome = false := by
      rw [(h.slots i).2]
      exact Bool.eq_false_iff.mpr hocc
    unfold Kernel.executeCore at hs hs'
    rw [hidle] at hs
    rw [hidle'] at hs'
    cases hs
    cases hs'
    exact h

omit hemu in
/-- Paired runs save the same contexts. -/
theorem saves_paired {k s s' : Kernel} (h : Paired k s s') (r : ThreadRef)
    (l : List (Fin CORE_COUNT)) (t : Thread) : saves s' r l t = saves s r l t := by
  induction l generalizing t with
  | nil => rfl
  | cons i l ih =>
      have hone :
          (if s'.runningOn.get i = some r then Kernel.saveContext (s'.cpu.cores.get i) t else t) =
          if s.runningOn.get i = some r then Kernel.saveContext (s.cpu.cores.get i) t else t := by
        rw [(h.slots i).1, (h.slots i).2]
        by_cases hi : slot k i = some r
        · obtain ⟨hx, hsp, hpc⟩ := h.cores i (by rw [hi]; rfl)
          rw [if_pos hi, if_pos hi, saveContext_eq, saveContext_eq, hx, hsp, hpc]
        · rw [if_neg hi, if_neg hi]
      have hrest := ih
        (if s.runningOn.get i = some r then Kernel.saveContext (s.cpu.cores.get i) t else t)
      unfold saves at hrest ⊢
      rw [List.foldl_cons, List.foldl_cons, hone]
      exact hrest

omit hemu in
/-- Once the threads are loaded, what the cores held before does not show. -/
theorem assign_paired {k : Kernel} (howned : SlotsOwned k) (cores : Vector UnicornCPU CORE_COUNT) :
    Paired k k.assign (Kernel.assign { k with cpu := { k.cpu with cores := cores } }) := by
  have howned' : SlotsOwned { k with cpu := { k.cpu with cores := cores } } :=
    ⟨howned.vacant, howned.distinct, howned.exists_thread⟩
  constructor
  · intro i
    exact ⟨assign_slot k i, assign_slot _ i⟩
  · rw [(assign_frame k).2, (assign_frame _).2]
  · intro i hocc
    obtain ⟨r, hr⟩ := Option.isSome_iff_exists.mp hocc
    obtain ⟨t, ht, hsame⟩ := startCore_of_owned howned hr
    obtain ⟨t', ht', hsame'⟩ := startCore_of_owned howned' hr
    have htt : t' = t := Option.some.inj (ht'.symm.trans ht)
    rw [htt] at hsame'
    rw [assign_core, assign_core]
    exact ⟨hsame'.1.trans hsame.1.symm, hsame'.2.1.trans hsame.2.1.symm,
      hsame'.2.2.trans hsame.2.2.symm⟩

/-- Two steps from the same threads save the same contexts, whatever the cores held. -/
theorem step_context_of_cores {k k₁ k₂ : Kernel} (howned : SlotsOwned k)
    (cores : Vector UnicornCPU CORE_COUNT) (h₁ : k.step b emu = .ok k₁)
    (h₂ : { k with cpu := { k.cpu with cores := cores } }.step b emu = .ok k₂) (r : ThreadRef) :
    (threadAt k₁ r).map (fun t => t.context) = (threadAt k₂ r).map (fun t => t.context) := by
  obtain ⟨m₁, hexec₁, hsave₁⟩ := step_eq_ok h₁
  obtain ⟨m₂, hexec₂, hsave₂⟩ := step_eq_ok h₂
  have hturn : ∀ i ∈ List.finRange CORE_COUNT, ∀ s s' u u' : Kernel, Paired k s s' →
      Kernel.executeCore b emu s i = .ok u → Kernel.executeCore b emu s' i = .ok u' →
      Paired k u u' := by
    intro i _ s s' u u' hp hs hs'
    exact executeCore_paired hemu hp hs hs'
  have hend : Paired k m₁ m₂ :=
    foldlM_related (List.finRange CORE_COUNT) hturn (assign_paired howned cores) hexec₁ hexec₂
  rw [hsave₁, hsave₂, step_thread hexec₁, step_thread hexec₂]
  have hthread : threadAt { k with cpu := { k.cpu with cores := cores } } r = threadAt k r := rfl
  rw [hthread]
  cases threadAt k r with
  | none => rfl
  | some t => simp only [Option.map_some, saves_paired hend]

/-- The saved context is one run of the emulator from the thread's own. -/
theorem step_context_own {k k' : Kernel} (howned : SlotsOwned k) (hk' : k.step b emu = .ok k')
    {i : Fin CORE_COUNT} {r : ThreadRef} {t : Thread} (hi : k'.runningOn.get i = some r)
    (ht : threadAt k r = some t) :
    ∃ mem, memoryAtTurn b emu k i = .ok mem ∧
      (threadAt k' r).map (fun t => t.context) = some (runOnce emu t.context mem).1 := by
  obtain ⟨m, hexec, hsave⟩ := step_eq_ok hk'
  rw [step_slot hk'] at hi
  obtain ⟨t', ht', hsame⟩ := startCore_of_owned howned hi
  have htt : t' = t := Option.some.inj (ht'.symm.trans ht)
  rw [htt] at hsame
  obtain ⟨s, s', hearlier, hturn, hslots, hcore, hlast⟩ := execute_turn hexec i
  have hocc : (s.runningOn.get i).isSome := by
    rw [hslots, assign_slot, hi]
    rfl
  obtain ⟨hregs, -⟩ := executeCore_own hocc hturn
  rw [hcore] at hregs
  obtain ⟨⟨hx, hsp, hpc⟩, -⟩ := runOnce_sameRun hemu hsame s.cpu.sharedMemory
  obtain ⟨hps, htp⟩ := runOnce_flags hemu t.context s.cpu.sharedMemory
  refine ⟨s.cpu.sharedMemory, ?_, ?_⟩
  · unfold memoryAtTurn
    rw [hearlier]
    rfl
  · have hunique : ∀ j : Fin CORE_COUNT, m.runningOn.get j = some r → j = i := by
      intro j hj
      rw [executed_slot hexec] at hj
      exact slot_injective howned.vacant howned.distinct hj hi
    rw [hsave, step_thread hexec, ht, Option.map_some, Option.map_some,
      saves_of_unique (by rw [executed_slot hexec, hi]) hunique, saveContext_eq, hlast, hregs,
      hx, hsp, hpc, Option.some.injEq]
    -- the two fields the save loop keeps are the ones the emulator kept
    show CpuContext.mk _ _ _ t.context.pstate t.context.tpidrEl0 = _
    rw [← hps, ← htp]

/-- Without leftover slots, and with an emulator that ignores the flags, a step keeps the
contexts apart. -/
theorem isolated_of_ignoresFlags {k : Kernel} (howned : SlotsOwned k) : Isolated b emu k := by
  constructor
  · intro cores k₁ k₂ h₁ h₂ r
    exact step_context_of_cores hemu howned cores h₁ h₂ r
  · intro k' hk' i r t hi ht
    exact step_context_own hemu howned hk' hi ht

end Ignoring

/-! ## The condition -/

/-- An emulator that changes the flags at every step. -/
def flagEmulator : Emulator :=
  .overBytes fun _ _ regs mem => ({ regs with pstate := regs.pstate + 1 }, mem)

/-- **Over every emulator, a step keeps the contexts apart only if it saves none** (or does
not return); for an emulator that ignores the flags and the thread-local pointer it is enough
that every occupied slot belongs to a thread of its own.
SOURCE: core/src/sys/kernel.rs:122-174 -/
theorem contexts_isolated_iff (b : Build) (k : Kernel) :
    ((∀ emu, Isolated b emu k) ↔
      Aborts b k ∨ ∀ i r, slot k i = some r → threadAt k r = none) ∧
    ∀ emu, IgnoresFlags emu → SlotsOwned k → Isolated b emu k := by
  refine ⟨⟨?_, ?_⟩, fun emu hemu howned => isolated_of_ignoresFlags hemu howned⟩
  · intro h
    by_contra hnot
    obtain ⟨habort, hidle⟩ := not_or.mp hnot
    apply hidle
    intro i r hi
    cases ht : threadAt k r with
    | none => rfl
    | some t =>
        apply absurd (h flagEmulator)
        apply not_isolated_of_flags habort hi ht
        intro mem heq
        have hnat : (t.context.pstate + 1).toNat = t.context.pstate.toNat :=
          congrArg UInt32.toNat heq
        rw [UInt32.toNat_add] at hnat
        have hlt := t.context.pstate.toNat_lt
        have hone : (1 : UInt32).toNat = 1 := rfl
        omega
  · rintro (habort | hidle) emu
    · have hnever : ∀ k' : Kernel, k.step b emu ≠ .ok k' :=
        fun k' hk' => not_aborts_of_step hk' habort
      exact ⟨fun _ k₁ _ h₁ => absurd h₁ (hnever k₁), fun k' hk' => absurd hk' (hnever k')⟩
    · exact isolated_of_idle hidle

/-- On a new kernel with one ready thread, over an emulator stuck on zeroed memory. -/
theorem contexts_isolated_iff_ready :
    Isolated .release stuckEmulator (soloKernel .ready none) :=
  (contexts_isolated_iff .release (soloKernel .ready none)).2 stuckEmulator
    (fun _ _ _ _ _ _ => rfl)
    { vacant := by decide
      distinct := by decide
      exists_thread := by
        intro r hr
        have hsel : selected (soloKernel .ready none) = [(1, 1)] := by rfl
        rw [hsel, List.mem_singleton] at hr
        subst hr
        exact ⟨_, rfl⟩ }

/-- The emulator over memory that holds `cmp x0, x0` everywhere: every step sets the zero
and carry flags. -/
def compareEmulator : Emulator :=
  .overBytes fun _ stop regs mem => ({ regs with pc := stop, pstate := 0x60000000 }, mem)

/-- A new kernel with one ready thread over that memory. -/
def compareKernel : Kernel :=
  let k := soloKernel .ready none
  { k with cpu := { k.cpu with
      sharedMemory := fun a => #v[0x1F, 0x00, 0x00, 0xEB].get ⟨a.val % 4, by omega⟩ } }

/-- The flags a thread's comparison sets are lost. -/
theorem compared_flags_are_lost : ¬ Isolated .release compareEmulator compareKernel := by
  have hthread : threadAt compareKernel (1, 1) =
      some { Thread.new 1 1 0x1000 0x2000 with state := .ready } := by
    rfl
  have hslot : slot compareKernel 0 = some (1, 1) := by
    rfl
  exact not_isolated_of_flags (fun h => by cases h.1) hslot hthread fun mem => by
    show (0x60000000 : UInt32) ≠ 0
    decide

end Oboromi.Analysis
