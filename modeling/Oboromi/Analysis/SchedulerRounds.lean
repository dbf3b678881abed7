import Oboromi.Interface.VirtualCores
import Oboromi.Analysis.ReachedKernels

/-!
# The scheduler is threads taking turns

`Playing` relates a kernel inside a step to a round of turns: the core of a seated thread holds
what the thread's context will be, and the turns of the cores keep that.  So one step is one
round (`step_round`).  A step changes neither the candidates nor the seating, so `n` steps are
`n` rounds.  That no slot is left over holds of every kernel the calls reach, since no call
parks a thread or takes one away (`reached_tidy`).
-/

set_option autoImplicit false

namespace Oboromi.Analysis

open Oboromi.Lib Oboromi.Model Oboromi.Interface

/-! ## Seats -/

section Seats

variable {k : Kernel}

/-- Core `i` is seated with the `i`-th runnable thread. -/
theorem seating_eq (i : Fin CORE_COUNT) :
    seating (selected k) i = (runnable k)[i.val]? := by
  unfold seating selected
  rw [List.getElem?_take, if_pos i.isLt]

/-- A thread with a seat is in the order. -/
theorem mem_of_seating {order : List ThreadRef} {i : Fin CORE_COUNT} {r : ThreadRef}
    (h : seating order i = some r) : r ∈ order :=
  List.mem_of_getElem? h

variable (hkeys : KeysConsistent k) (hfresh : SlotsFresh k)

include hfresh

/-- Without leftovers the slots are the seats. -/
theorem slot_eq_seating (i : Fin CORE_COUNT) : slot k i = seating (selected k) i := by
  rw [seating_eq]
  by_cases hlen : (runnable k).length ≤ i.val
  · rw [slot_of_length_le hlen, hfresh.vacant i hlen, List.getElem?_eq_none hlen]
  · have hsome := List.getElem?_eq_getElem (Nat.lt_of_not_le hlen)
    rw [slot_of_runnable hsome, hsome]

/-- No thread has two seats. -/
theorem seat_injective {i j : Fin CORE_COUNT} {r : ThreadRef}
    (hi : seating (selected k) i = some r) (hj : seating (selected k) j = some r) : i = j := by
  rw [← slot_eq_seating hfresh] at hi hj
  exact slot_injective hfresh.vacant hfresh.distinct hi hj

include hkeys

omit hfresh in
/-- The core of a seat starts with the context of its thread. -/
theorem startCore_of_seated {i : Fin CORE_COUNT} {r : ThreadRef}
    (hi : seating (selected k) i = some r) :
    ∃ t, threadAt k r = some t ∧
      startCore k i = Kernel.loadContext t.context (k.cpu.cores.get i) := by
  obtain ⟨t, ht, -⟩ := exists_thread_of_runnable hkeys (List.mem_of_mem_take (mem_of_seating hi))
  refine ⟨t, ht, ?_⟩
  unfold startCore
  rw [← seating_eq, hi, Option.bind_some, ht]

/-- A step aborts exactly when a seated thread overruns. -/
theorem aborts_iff_overruns (b : Build) :
    Aborts b k ↔ Overruns b (selected k) (board k) := by
  constructor
  · rintro ⟨hb, i, hocc, hover⟩
    obtain ⟨r, hr⟩ := Option.isSome_iff_exists.mp hocc
    rw [slot_eq_seating hfresh] at hr
    obtain ⟨t, ht, hcore⟩ := startCore_of_seated hkeys hr
    rw [hcore, loadContext_eq] at hover
    refine ⟨hb, i, r, t.context, hr, ?_, hover⟩
    rw [board_context, ht, Option.map_some]
  · rintro ⟨hb, i, r, c, hr, hc, hover⟩
    obtain ⟨t, ht, hcore⟩ := startCore_of_seated hkeys hr
    have hcontext : t.context = c := by
      rw [board_context, ht, Option.map_some] at hc
      exact Option.some.inj hc
    refine ⟨hb, i, ?_, ?_⟩
    · rw [slot_eq_seating hfresh, hr]
      rfl
    · rw [hcore, loadContext_eq, hcontext]
      exact hover

end Seats

/-! ## One step is one round -/

/-- A context with the registers of a core. -/
def holding (c : CpuContext) (regs : CpuContext) : CpuContext :=
  { c with x := regs.x, sp := regs.sp, pc := regs.pc }

/-- Inside the execute loop of a step from `k`: the kernel and the board that has had as many
turns. -/
structure Playing (k s : Kernel) (B : ThreadBoard) : Prop where
  slots : s.runningOn = k.assign.runningOn
  memory : B.memory = s.cpu.sharedMemory
  leftover : ∀ i, B.leftover i =
    ((s.cpu.cores.get i).regs.pstate, (s.cpu.cores.get i).regs.tpidrEl0)
  seated : ∀ (i : Fin CORE_COUNT) (r : ThreadRef), seating (selected k) i = some r →
    ∃ t, threadAt k r = some t ∧
      B.context r = some (holding t.context (s.cpu.cores.get i).regs)
  others : ∀ r ∉ selected k, B.context r = (threadAt k r).map fun t => t.context

section Round

variable {b : Build} {emu : Emulator} {k : Kernel} (hkeys : KeysConsistent k)
  (hfresh : SlotsFresh k)

include hkeys

/-- Once the threads are loaded the round may begin. -/
theorem playing_assign : Playing k k.assign (board k) := by
  refine ⟨rfl, (assign_frame k).2.symm, ?_, ?_, fun r _ => rfl⟩
  · intro i
    rw [assign_core]
    unfold startCore
    split
    · rw [loadContext_eq]
      rfl
    · rfl
  · intro i r hr
    obtain ⟨t, ht, hcore⟩ := startCore_of_seated hkeys hr
    refine ⟨t, ht, ?_⟩
    rw [board_context, ht, Option.map_some, assign_core, hcore, loadContext_eq]
    rfl

include hfresh

omit hkeys in
/-- The turn of one core. -/
theorem playing_turn {s s' : Kernel} {B : ThreadBoard} {i : Fin CORE_COUNT} (h : Playing k s B)
    (hs : Kernel.executeCore b emu s i = .ok s') :
    Playing k s' (B.turn (runOn emu) (seating (selected k)) i) := by
  have hslot : s.runningOn.get i = seating (selected k) i := by
    rw [h.slots, assign_slot, slot_eq_seating hfresh]
  cases hseat : seating (selected k) i with
  | none =>
      rw [hseat] at hslot
      unfold Kernel.executeCore at hs
      rw [hslot] at hs
      cases hs
      rw [Board.turn_of_empty hseat]
      exact h
  | some r =>
      obtain ⟨t, ht, hc⟩ := h.seated i r hseat
      obtain ⟨-, hslots, hothers⟩ := executeCore_frame hs
      obtain ⟨hregs, hmem⟩ := executeCore_own (by rw [hslot, hseat]; rfl) hs
      -- the thread runs with the leftover of its core, which makes the whole register file
      have hrun : runOn emu (holding t.context (s.cpu.cores.get i).regs) (B.leftover i) B.memory =
          (holding t.context (s'.cpu.cores.get i).regs,
            ((s'.cpu.cores.get i).regs.pstate, (s'.cpu.cores.get i).regs.tpidrEl0),
            s'.cpu.sharedMemory) := by
        rw [h.leftover, h.memory, hregs, hmem]
        rfl
      rw [Board.turn_of_seated hseat hc, hrun]
      refine ⟨hslots.trans h.slots, rfl, ?_, ?_, ?_⟩
      · intro j
        show Function.update B.leftover i _ j = _
        by_cases hji : j = i
        · rw [hji, Function.update_self]
        · rw [Function.update_of_ne hji, hothers j hji]
          exact h.leftover j
      · intro j r' hr'
        show ∃ t', _ ∧ Function.update B.context r _ r' = _
        by_cases hji : j = i
        · rw [hji] at hr' ⊢
          have hrr : r = r' := Option.some.inj (hseat.symm.trans hr')
          rw [← hrr]
          exact ⟨t, ht, Function.update_self _ _ _⟩
        · obtain ⟨t', ht', hc'⟩ := h.seated j r' hr'
          have hne : r' ≠ r := fun heq => hji (seat_injective hfresh (heq ▸ hr') hseat)
          rw [Function.update_of_ne hne, hothers j hji]
          exact ⟨t', ht', hc'⟩
      · intro r' hr'
        show Function.update B.context r _ r' = _
        have hne : r' ≠ r := fun heq => hr' (heq ▸ mem_of_seating hseat)
        rw [Function.update_of_ne hne]
        exact h.others r' hr'

omit hkeys in
/-- What the save loop leaves is the board after the last turn. -/
theorem board_save {m : Kernel} {B : ThreadBoard} (h : Playing k m B)
    (hexec : k.assign.execute b emu = .ok m) : board m.save = B := by
  have hcpu := (save_frame m).2
  have hcontext (r : ThreadRef) :
      (threadAt m.save r).map (fun t => t.context) = B.context r := by
    rw [step_thread hexec, Option.map_map]
    by_cases hr : r ∈ selected k
    · obtain ⟨i, hi⟩ := (mem_selected_iff r).mp hr
      rw [← seating_eq] at hi
      obtain ⟨t, ht, hc⟩ := h.seated i r hi
      have hown : m.runningOn.get i = some r := by
        rw [executed_slot hexec, slot_eq_seating hfresh, hi]
      have honly : ∀ j : Fin CORE_COUNT, m.runningOn.get j = some r → j = i := by
        intro j hj
        rw [executed_slot hexec, slot_eq_seating hfresh] at hj
        exact seat_injective hfresh hj hi
      rw [ht, hc, Option.map_some, Function.comp_apply, saves_of_unique hown honly,
        saveContext_eq]
      rfl
    · rw [h.others r hr]
      cases threadAt k r with
      | none => rfl
      | some t =>
          rw [Option.map_some, Option.map_some, Function.comp_apply, saves_of_absent]
          intro i _ hi
          rw [executed_slot hexec, slot_eq_seating hfresh] at hi
          exact hr (mem_of_seating hi)
  apply Board.ext
  · funext r
    rw [board_context, hcontext]
  · funext i
    rw [board_leftover, h.leftover, hcpu]
  · rw [board_memory, h.memory, hcpu]

/-- **One step is one round of the selected threads.** -/
theorem step_round {k' : Kernel} (h : k.step b emu = .ok k') :
    board k' = threadRound emu (selected k) (board k) := by
  obtain ⟨m, hexec, hsave⟩ := step_eq_ok h
  have hturns : (List.finRange CORE_COUNT).foldlM (m := Except Fault)
      (fun B i => .ok (B.turn (runOn emu) (seating (selected k)) i)) (board k) =
      .ok (threadRound emu (selected k) (board k)) :=
    List.foldlM_pure
  have hturn : ∀ i ∈ List.finRange CORE_COUNT, ∀ (s : Kernel) (B : ThreadBoard) (s' : Kernel)
      (B' : ThreadBoard), Playing k s B → Kernel.executeCore b emu s i = .ok s' →
      (.ok (B.turn (runOn emu) (seating (selected k)) i) : Except Fault ThreadBoard) = .ok B' →
      Playing k s' B' := by
    intro i _ s B s' B' hplay hs hB
    cases hB
    exact playing_turn hfresh hplay hs
  have hend := foldlM_related _ hturn (playing_assign hkeys) hexec hturns
  rw [hsave]
  exact board_save hfresh hend hexec

end Round

/-! ## The candidates stay -/

section Staying

variable {b : Build} {emu : Emulator} {k k' : Kernel} (hkeys : KeysConsistent k)
  (hfresh : SlotsFresh k) (h : k.step b emu = .ok k')

include hkeys hfresh h

/-- A thread runnable after a step was runnable before it. -/
theorem step_candidate {r : ThreadRef} (hr : r ∈ runnable k') : r ∈ runnable k := by
  by_cases hsel : r ∈ selected k
  · exact List.mem_of_mem_take hsel
  · have habsent : ∀ i : Fin CORE_COUNT, slot k i ≠ some r := by
      intro i hi
      rw [slot_eq_seating hfresh] at hi
      exact hsel (mem_of_seating hi)
    have hkept := step_kept h
    obtain ⟨t, ht, hrun⟩ :=
      exists_thread_of_runnable (keysConsistent_of_kept hkept hkeys) hr
    rw [step_thread_of_absent h habsent] at ht
    exact mem_runnable hkeys ht hrun

/-- A step takes no candidate away and adds none, nor does it change their order. -/
theorem step_runnable : runnable k' = runnable k := by
  have hkept := step_kept h
  have hnodup := runnable_nodup (keysConsistent_of_kept hkept hkeys)
  have hlen : (runnable k').length ≤ (runnable k).length :=
    (List.subperm_of_subset hnodup fun r hr => step_candidate hkeys hfresh h hr).length_le
  exact ((runnable_sublist hkept).eq_of_length_le hlen).symm

/-- A step does not change who is selected. -/
theorem step_selected : selected k' = selected k := by
  unfold selected
  rw [step_runnable hkeys hfresh h]

/-- The next step finds no slot left over either. -/
theorem step_fresh : SlotsFresh k' := by
  refine (slotsFresh_iff_vacant (keysConsistent_of_kept (step_kept h) hkeys)).mpr ?_
  intro i hlen
  rw [step_runnable hkeys hfresh h] at hlen
  rw [step_slot h, slot_of_length_le hlen]
  exact hfresh.vacant i hlen

end Staying

/-! ## Many steps -/

/-- Several steps are one step and the rest. -/
theorem steps_succ (b : Build) (emu : Emulator) (n : ℕ) (k : Kernel) :
    steps b emu (n + 1) k = k.step b emu >>= steps b emu n := rfl

section Many

variable {b : Build} {emu : Emulator} {k : Kernel} (hkeys : KeysConsistent k)
  (hfresh : SlotsFresh k)

include hkeys hfresh

/-- By induction on the number of steps. -/
theorem steps_rounds {n : ℕ} {k' : Kernel} (h : steps b emu n k = .ok k') :
    board k' = (threadRound emu (selected k))^[n] (board k) ∧ runnable k' = runnable k ∧
      ∀ r ∉ selected k, threadAt k' r = threadAt k r := by
  induction n generalizing k with
  | zero =>
      cases h
      exact ⟨rfl, rfl, fun _ _ => rfl⟩
  | succ n ih =>
      obtain ⟨k₁, hstep, hrest⟩ := bind_eq_ok h
      have hselected := step_selected hkeys hfresh hstep
      obtain ⟨hboard, hrunnable, hthreads⟩ :=
        ih (keysConsistent_of_kept (step_kept hstep) hkeys) (step_fresh hkeys hfresh hstep) hrest
      rw [hselected, step_round hkeys hfresh hstep] at hboard
      refine ⟨?_, hrunnable.trans (step_runnable hkeys hfresh hstep), ?_⟩
      · rw [hboard, Function.iterate_succ_apply]
      · intro r hr
        rw [hthreads r (by rwa [hselected])]
        apply step_thread_of_absent hstep
        intro i hi
        rw [slot_eq_seating hfresh] at hi
        exact hr (mem_of_seating hi)

/-- A step returns unless a selected thread overruns the address space. -/
theorem step_returns_iff :
    (∃ k', k.step b emu = .ok k') ↔ ¬ Overruns b (selected k) (board k) := by
  rw [← aborts_iff_overruns hkeys hfresh]
  refine ⟨?_, step_returns emu⟩
  rintro ⟨k', h⟩
  exact not_aborts_of_step h

/-- The steps return exactly as long as no thread overruns. -/
theorem steps_return_iff (n : ℕ) :
    (∃ k', steps b emu n k = .ok k') ↔
      ∀ j < n, ¬ Overruns b (selected k) ((threadRound emu (selected k))^[j] (board k)) := by
  induction n generalizing k with
  | zero =>
      refine ⟨fun _ j hj => absurd hj (Nat.not_lt_zero j), fun _ => ⟨k, rfl⟩⟩
  | succ n ih =>
      constructor
      · rintro ⟨k', h⟩ j hj
        obtain ⟨k₁, hstep, hrest⟩ := bind_eq_ok h
        cases j with
        | zero => exact (step_returns_iff hkeys hfresh).mp ⟨k₁, hstep⟩
        | succ j =>
            have hlater := (ih (keysConsistent_of_kept (step_kept hstep) hkeys)
              (step_fresh hkeys hfresh hstep)).mp ⟨k', hrest⟩ j (Nat.lt_of_succ_lt_succ hj)
            rw [step_selected hkeys hfresh hstep, step_round hkeys hfresh hstep] at hlater
            rwa [Function.iterate_succ_apply]
      · intro h
        obtain ⟨k₁, hstep⟩ : ∃ k₁, k.step b emu = .ok k₁ :=
          (step_returns_iff hkeys hfresh).mpr (h 0 n.succ_pos)
        have hlater : ∀ j < n, ¬ Overruns b (selected k₁)
            ((threadRound emu (selected k₁))^[j] (board k₁)) := by
          intro j hj
          rw [step_selected hkeys hfresh hstep, step_round hkeys hfresh hstep,
            ← Function.iterate_succ_apply]
          exact h (j + 1) (Nat.succ_lt_succ hj)
        obtain ⟨k', hrest⟩ := (ih (keysConsistent_of_kept (step_kept hstep) hkeys)
          (step_fresh hkeys hfresh hstep)).mpr hlater
        refine ⟨k', ?_⟩
        rw [steps_succ, hstep]
        exact hrest

/-- With fresh slots the scheduler takes turns. -/
theorem takesTurns_of_fresh : TakesTurns b emu k where
  returns := fun n => steps_return_iff hkeys hfresh n
  rounds := fun _ _ h => (steps_rounds hkeys hfresh h).1
  candidates := fun _ _ h => (steps_rounds hkeys hfresh h).2.1
  others := fun _ _ h => (steps_rounds hkeys hfresh h).2.2

end Many

end Oboromi.Analysis
