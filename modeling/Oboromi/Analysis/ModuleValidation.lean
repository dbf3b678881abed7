import Oboromi.Interface.SpirvGrammar

/-!
# What the validator accepts

The validation loop walks the stream by the word counts in its headers, as the frame reader
does (`validateFrom_iff`), and it never passes the end.  So a module is valid exactly when the
words behind its header are a cut into instructions, and the check behind the loop is idle.
-/

set_option autoImplicit false

namespace Oboromi.Analysis.Spirv

open Oboromi.Lib
open Oboromi.Model.Spirv
open Oboromi.Interface.Spirv

/-- A chunk whose header has opcode 0 is the header alone. -/
def NopsAlone (chunks : List (List UInt32)) : Prop :=
  ∀ header operands, header :: operands ∈ chunks → header &&& 0xFFFF = 0 → operands = []

/-- The words behind a module's header, cut into chunks that are not empty and as long as their
own headers say. -/
structure CutsInto (words : List UInt32) (chunks : List (List UInt32)) : Prop where
  cut : words.drop 5 = chunks.flatten
  counted : ∀ chunk ∈ chunks, Framing.IsFrame wordCount chunk
  nops : NopsAlone chunks

/-! ## The loop -/

section Loop

variable {words : List UInt32}

/-- The first frame at a position inside the stream. -/
theorem unframe_drop {pos : ℕ} (hpos : pos < words.length) :
    Framing.unframe wordCount (words.drop pos) =
      if 0 < wordCount words[pos] ∧ pos + wordCount words[pos] ≤ words.length then
        (Framing.unframe wordCount (words.drop (pos + wordCount words[pos]))).map
          ((words[pos] :: (words.drop (pos + 1)).take (wordCount words[pos] - 1)) :: ·)
      else none := by
  rw [List.drop_eq_getElem_cons hpos, Framing.unframe, List.length_drop]
  by_cases hfits : 0 < wordCount words[pos] ∧ pos + wordCount words[pos] ≤ words.length
  · have hnext : pos + 1 + (wordCount words[pos] - 1) = pos + wordCount words[pos] := by omega
    rw [if_pos hfits, if_pos (by omega), List.drop_drop, hnext]
  · rw [if_neg hfits, if_neg (by omega)]

/-- A no-op in front of a cut has to be its header alone. -/
theorem nopsAlone_cons {header : UInt32} {operands : List UInt32} {chunks : List (List UInt32)} :
    NopsAlone ((header :: operands) :: chunks) ↔
      (header &&& 0xFFFF = 0 → operands = []) ∧ NopsAlone chunks := by
  constructor
  · intro h
    refine ⟨h header operands List.mem_cons_self, ?_⟩
    intro header' operands' hmem
    exact h header' operands' (List.mem_cons_of_mem _ hmem)
  · rintro ⟨hfirst, hrest⟩ header' operands' hmem
    rcases List.mem_cons.mp hmem with heq | hmem
    · obtain ⟨rfl, rfl⟩ := List.cons.inj heq
      exact hfirst
    · exact hrest header' operands' hmem

/-- The loop succeeds where the frame reader does, unless a no-op has operands. -/
theorem validateFrom_iff (pos : ℕ) (hpos : pos ≤ words.length) :
    validateFrom words pos = .ok () ↔
      ∃ chunks, Framing.unframe wordCount (words.drop pos) = some chunks ∧ NopsAlone chunks := by
  fun_induction validateFrom words pos with
  | case1 pos hlt header wc hzero =>
      refine iff_of_false (by simp) ?_
      rintro ⟨chunks, hchunks, -⟩
      have hcount : wordCount words[pos] = 0 := hzero
      rw [unframe_drop hlt, if_neg (by omega)] at hchunks
      cases hchunks
  | case2 pos hlt header wc hzero hend =>
      refine iff_of_false (by simp) ?_
      rintro ⟨chunks, hchunks, -⟩
      have hcount : words.length < pos + wordCount words[pos] := hend
      rw [unframe_drop hlt, if_neg (by omega)] at hchunks
      cases hchunks
  | case3 pos hlt header wc opcode hzero hend hnop =>
      refine iff_of_false (by simp) ?_
      rintro ⟨chunks, hchunks, halone⟩
      have hcount : wordCount words[pos] = wc := rfl
      rw [unframe_drop hlt, if_pos (by omega), hcount] at hchunks
      obtain ⟨rest, -, rfl⟩ := Option.map_eq_some_iff.mp hchunks
      have hnil := congrArg List.length ((nopsAlone_cons.mp halone).1 hnop.1)
      rw [List.length_take, List.length_drop, List.length_nil] at hnil
      omega
  | case4 pos hlt header wc opcode hzero hend hnop ih =>
      have hcount : wordCount words[pos] = wc := rfl
      have hfirst (hop : words[pos] &&& 0xFFFF = 0) :
          (words.drop (pos + 1)).take (wc - 1) = [] := by
        have hone : wc = 1 := by
          by_contra hone
          exact hnop ⟨hop, hone⟩
        rw [hone]
        rfl
      rw [ih (by omega), unframe_drop hlt, if_pos (by omega), hcount]
      constructor
      · rintro ⟨chunks, hchunks, halone⟩
        rw [hchunks]
        exact ⟨_, rfl, nopsAlone_cons.mpr ⟨hfirst, halone⟩⟩
      · rintro ⟨chunks, hchunks, halone⟩
        obtain ⟨rest, hrest, rfl⟩ := Option.map_eq_some_iff.mp hchunks
        exact ⟨rest, hrest, (nopsAlone_cons.mp halone).2⟩
  | case5 pos hlt hne => omega
  | case6 pos hlt heq =>
      have hend : words.drop pos = [] := List.drop_eq_nil_of_le (by omega)
      refine iff_of_true rfl ⟨[], ?_, ?_⟩
      · rw [hend, Framing.unframe]
      · intro header operands hmem
        cases hmem

/-- The loop never stops behind the end of the stream. -/
theorem validateFrom_ne_trailing (pos : ℕ) (hpos : pos ≤ words.length) :
    validateFrom words pos ≠ .error "Trailing data after last instruction" := by
  fun_induction validateFrom words pos with
  | case1 pos hlt header wc hzero => simp
  | case2 pos hlt header wc hzero hend => simp
  | case3 pos hlt header wc opcode hzero hend hnop => simp
  | case4 pos hlt header wc opcode hzero hend hnop ih => exact ih (by omega)
  | case5 pos hlt hne => omega
  | case6 pos hlt heq => simp

end Loop

/-! ## The whole check -/

/-- A cut of the words is their unframing after the header, with nops alone. -/
theorem cutsInto_iff {words : List UInt32} {chunks : List (List UInt32)} :
    CutsInto words chunks ↔
      Framing.unframe wordCount (words.drop 5) = some chunks ∧ NopsAlone chunks := by
  rw [Framing.unframe_eq_some_iff]
  constructor
  · intro h
    exact ⟨⟨h.cut, h.counted⟩, h.nops⟩
  · rintro ⟨⟨hcut, hcounted⟩, hnops⟩
    exact ⟨hcut, hcounted, hnops⟩

/-- `validate` accepts exactly a header with the magic number and words that can be cut. -/
theorem validate_ok_iff (e : Emitter) :
    e.validate = .ok () ↔
      5 ≤ e.words.length ∧ e.words[0]? = some MAGIC ∧ ∃ chunks, CutsInto e.words chunks := by
  simp only [cutsInto_iff]
  unfold Emitter.validate
  by_cases hshort : e.words.length < 5
  · rw [dif_pos hshort]
    exact iff_of_false (by simp) fun h => Nat.not_lt.mpr h.1 hshort
  · have hlong : 5 ≤ e.words.length := by omega
    have hfirst : e.words[0]? = some e.words[0] := List.getElem?_eq_getElem (by omega)
    rw [dif_neg hshort, hfirst, Option.some_inj]
    by_cases hmagic : e.words[0] = MAGIC
    · rw [if_neg (fun h => h hmagic), validateFrom_iff 5 hlong]
      exact ⟨fun h => ⟨hlong, hmagic, h⟩, fun h => h.2.2⟩
    · rw [if_pos hmagic]
      exact iff_of_false (by simp) fun h => hmagic h.2.1

/-- **The validator accepts exactly the framed modules**: it decides whether the words behind a
header with the magic number are a cut into instructions, there is at most one cut, and the
error behind its loop is never reported.
SOURCE: core/src/gpu/spirv.rs:1089-1119 -/
theorem validate_decides_framing (e : Emitter) :
    (e.validate = .ok () ↔ 5 ≤ e.words.length ∧ e.words[0]? = some 0x07230203 ∧
      ∃ chunks, CutsInto e.words chunks) ∧
    (∀ chunks chunks', CutsInto e.words chunks → CutsInto e.words chunks' → chunks = chunks') ∧
    e.validate ≠ .error "Trailing data after last instruction" := by
  refine ⟨validate_ok_iff e, ?_, ?_⟩
  · intro chunks chunks' h h'
    have hread := (cutsInto_iff.mp h).1
    rw [(cutsInto_iff.mp h').1] at hread
    exact (Option.some.inj hread).symm
  · unfold Emitter.validate
    split
    · simp
    · split
      · simp
      · exact validateFrom_ne_trailing 5 (by omega)

end Oboromi.Analysis.Spirv
