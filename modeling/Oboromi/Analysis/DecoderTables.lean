import Oboromi.Interface.GeneratedDecoder
import Oboromi.Lib.Loop

/-!
# The tables the generator's parser returns

In a debug build the parser's arithmetic panics before it underflows, so the ranges of a field
it returns are in order and make up the field's bits; and an opcode field holds the opcode of
the instruction it is pushed to.  A table it returns therefore is an instruction table once all
opcode fields have the same two ranges (`isTable_of_collected`).
-/

set_option autoImplicit false

namespace Oboromi.Analysis.DecoderGenerator

open Oboromi.Lib
open Oboromi.Model.DecoderGenerator
open Oboromi.Interface.DecoderGenerator

/-! ## Fields -/

/-- What is unwrapped was there. -/
theorem unwrap_eq_ok {α : Type} {o : Option α} {a : α} (h : unwrap o = .ok a) : o = some a := by
  cases o with
  | none => cases h
  | some a' => exact congrArg some (Except.ok.inj h)

/-- The ranges of a segment are in order and make up its bits. -/
theorem readRanges_fits {remSize : UInt64} {pairs rest : List (List Char)}
    {bits : List (UInt64 × UInt64)} (h : readRanges .debug remSize pairs = .ok (bits, rest)) :
    (∀ r ∈ bits, r.1 ≤ r.2) ∧ remSize.toNat = (bits.map width).sum := by
  induction remSize, pairs using readRanges.induct generalizing bits rest with
  | case1 pairs =>
    unfold readRanges at h
    rw [if_pos rfl] at h
    cases h
    simp
  | case2 remSize hzero lastText firstText pairs ih =>
    rw [readRanges, if_neg hzero] at h
    obtain ⟨last, -, h⟩ := bind_eq_ok h
    obtain ⟨first, -, h⟩ := bind_eq_ok h
    obtain ⟨distance, hdistance, h⟩ := bind_eq_ok h
    obtain ⟨bitSize, hbitSize, h⟩ := bind_eq_ok h
    obtain ⟨remSize', hremSize, h⟩ := bind_eq_ok h
    obtain ⟨⟨bits', rest'⟩, hrest, h⟩ := bind_eq_ok h
    cases h
    obtain ⟨horder, rfl⟩ := Build.eq_of_debug_checked hdistance
    obtain ⟨hone, rfl⟩ := Build.eq_of_debug_checked hbitSize
    obtain ⟨hroom, rfl⟩ := Build.eq_of_debug_checked hremSize
    obtain ⟨hordered, htotal⟩ := ih _ hrest
    have hwidth : (last - first + 1).toNat = width (first, last) := by
      rw [toNat_add_of_fits hone, toNat_sub_of_fits horder]
      rfl
    refine ⟨?_, ?_⟩
    · exact List.forall_mem_cons.mpr ⟨UInt64.le_iff_toNat_le.mpr horder, hordered⟩
    · rw [toNat_sub_of_fits hroom, hwidth] at htotal
      rw [hwidth] at hroom
      rw [List.map_cons, List.sum_cons]
      omega
  | case3 pairs remSize hzero hshort =>
    rw [readRanges, if_neg hzero] at h
    · cases h
    · exact hshort

/-- Only a name without a dot is left alone by the replacement of dots. -/
theorem eq_of_replaceChar {old new : Char} {s t : List Char} (hnew : new ∉ t)
    (h : Text.replaceChar old new s = t) : s = t := by
  subst h
  unfold Text.replaceChar at hnew ⊢
  induction s with
  | nil => rfl
  | cons c s ih =>
    rw [List.map_cons, List.mem_cons, not_or] at hnew
    rw [List.map_cons, ← ih hnew.2]
    congr 1
    by_cases hc : c = old
    · exact absurd (if_pos hc).symm hnew.1
    · exact (if_neg hc).symm

/-! ## Instructions -/

/-- What the parser maintains of an instruction while it adds fields. -/
structure Collecting (inst : ParserInst) : Prop where
  fields : ∀ f ∈ inst.fixedFields ++ inst.fields, FieldFits f
  fixed : ∀ f ∈ inst.fixedFields, f.value.isSome = true
  opcode : ∀ f ∈ inst.fixedFields, f.name = "opcode".toList → f.value = some inst.op

/-- What the parser maintains is what a table asks for. -/
theorem Collecting.instFits {inst : ParserInst} (h : Collecting inst) : InstFits inst := by
  refine ⟨h.fields, h.fixed, ?_⟩
  intro f hf
  have hname : f.name = "opcode".toList := by simpa using List.find?_some hf
  exact h.opcode f (List.mem_of_find?_eq_some hf) hname

/-- Adding a field that fits. -/
theorem readField_collecting {lower : List Char → List Char} {value seg : List Char}
    {inst inst' : ParserInst} (hinst : Collecting inst)
    (h : readField .debug lower value inst seg = .ok inst') : Collecting inst' := by
  unfold readField at h
  obtain ⟨totalBits, -, h⟩ := bind_eq_ok h
  obtain ⟨⟨bits, rest⟩, hranges, h⟩ := bind_eq_ok h
  obtain ⟨hordered, htotal⟩ := readRanges_fits hranges
  dsimp only at h
  generalize hv : (if lower (['_'].intercalate rest) = "opcode".toList then some inst.op
    else parseUsize value) = v at h
  split at h
  · next hvalue =>
    cases h
    refine ⟨?_, ?_, ?_⟩
    · intro f hf
      rw [List.append_assoc, List.mem_append, List.mem_append, List.mem_singleton] at hf
      rcases hf with hfixed | rfl | hvar
      · exact hinst.fields f (List.mem_append_left _ hfixed)
      · exact ⟨hordered, htotal⟩
      · exact hinst.fields f (List.mem_append_right _ hvar)
    · intro f hf
      rcases List.mem_append.mp hf with hfixed | hnew
      · exact hinst.fixed f hfixed
      · rw [List.mem_singleton.mp hnew]
        exact hvalue
    · intro f hf hname
      rcases List.mem_append.mp hf with hfixed | hnew
      · exact hinst.opcode f hfixed hname
      · rw [List.mem_singleton.mp hnew] at hname ⊢
        rw [if_pos (eq_of_replaceChar (by decide) hname)] at hv
        exact hv.symm
  · next hvalue =>
    cases h
    refine ⟨?_, hinst.fixed, hinst.opcode⟩
    intro f hf
    rw [← List.append_assoc, List.mem_append, List.mem_singleton] at hf
    rcases hf with hold | rfl
    · exact hinst.fields f hold
    · exact ⟨hordered, htotal⟩

/-! ## Tables -/

/-- A new instruction has no fields yet. -/
theorem readOpcode_collecting {line : List Char} {inst : ParserInst}
    (h : readOpcode line = .ok (some (some inst))) : Collecting inst := by
  unfold readOpcode at h
  obtain ⟨name, -, h⟩ := bind_eq_ok h
  split at h
  · cases h
  · obtain ⟨bits, -, h⟩ := bind_eq_ok h
    dsimp only at h
    split at h
    · cases h
    · cases h
      exact ⟨by simp, by simp, by simp⟩

/-- One line keeps what is maintained of all instructions. -/
theorem readLine_collecting {lower : List Char → List Char} {line : List Char}
    {c c' : Collected} (hc : ∀ inst ∈ c.instructions, Collecting inst)
    (h : readLine .debug lower c line = .ok (some c')) :
    ∀ inst ∈ c'.instructions, Collecting inst := by
  unfold readLine at h
  split at h
  · cases h
    exact hc
  split at h
  · cases h
    exact hc
  split at h
  · cases h
    exact hc
  split at h
  · -- A line of the opcode section adds an instruction without fields, or nothing.
    obtain ⟨added, hadded, h⟩ := bind_eq_ok h
    rcases added with _ | _ | inst
    · cases h
    · cases h
      exact hc
    · cases h
      intro j hj
      rcases List.mem_append.mp hj with hold | hnew
      · exact hc j hold
      · rw [List.mem_singleton.mp hnew]
        exact readOpcode_collecting hadded
  split at h
  · -- A line of the encoding section adds fields to the last instruction.
    obtain ⟨⟨segments, value⟩, -, h⟩ := bind_eq_ok h
    obtain ⟨last, hlast, h⟩ := bind_eq_ok h
    obtain ⟨last', hfields, h⟩ := bind_eq_ok h
    cases h
    have hmem := List.mem_of_getLast? (unwrap_eq_ok hlast)
    have hlast' : Collecting last' := by
      refine foldlM_invariant _ ?_ (hc last hmem) hfields
      intro seg _ inst inst' hinst hfield
      exact readField_collecting hinst hfield
    intro inst hinst
    rcases List.mem_append.mp hinst with hinit | hnew
    · exact hc inst (List.dropLast_subset _ hinit)
    · rw [List.mem_singleton.mp hnew]
      exact hlast'
  · cases h
    exact hc

/-- The loop over the lines maintains it: by induction over them. -/
theorem readLines_collecting {lower : List Char → List Char} {lines : List (List Char)}
    {c : Collected} {table : List ParserInst} (hc : ∀ inst ∈ c.instructions, Collecting inst)
    (h : readLines .debug lower c lines = .ok (some table)) :
    ∀ inst ∈ table, Collecting inst := by
  induction lines generalizing c with
  | nil =>
    cases h
    exact hc
  | cons line lines ih =>
    rw [readLines] at h
    obtain ⟨c', hline, h⟩ := bind_eq_ok h
    cases c' with
    | none => cases h
    | some c' => exact ih (readLine_collecting hc hline) h

/-- Every instruction of a table that a debug build of the parser returns fits.
SOURCE: scripts/decoder_generator.rs:27-109 -/
theorem collectSassInstructions_fits {lower : List Char → List Char} {text : List Char}
    {table : List ParserInst}
    (h : collectSassInstructions .debug lower text = .ok (some table)) :
    ∀ inst ∈ table, InstFits inst := by
  intro inst hinst
  exact (readLines_collecting (by simp) h inst hinst).instFits

/-- A table the parser returns is an instruction table once its opcode fields have the same two
ranges. -/
theorem isTable_of_collected {lower : List Char → List Char} {text : List Char}
    {table : List ParserInst} {first second : UInt64 × UInt64}
    (h : collectSassInstructions .debug lower text = .ok (some table))
    (hopcode : ∀ inst ∈ table, ∀ f, inst.opcodeField = some f → f.bits = [first, second]) :
    IsTable first second table :=
  ⟨collectSassInstructions_fits h, hopcode⟩

end Oboromi.Analysis.DecoderGenerator
