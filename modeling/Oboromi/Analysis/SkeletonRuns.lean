import Oboromi.Analysis.DecoderDispatch

/-!
# Writing and running the skeletons

The generator gets through a table of the parser exactly when its masks can be computed and its
opcode fields have two ranges (`writeRust_returns_iff`).  The skeleton for a name is then that of
the first entry with the name (`skeletonOf_writeRust`), and running it gives a name the value of
the last `let` with it (`runLets_eq`).  What a `let` reads is told bit by bit
(`evalMerged_bits`).
-/

set_option autoImplicit false

namespace Oboromi.Analysis.DecoderGenerator

open Oboromi.Lib
open Oboromi.Model.DecoderGenerator
open Oboromi.Interface.DecoderGenerator

/-! ## Getting through a table -/

section Write

variable {b : Build} {lower : List Char → List Char} {table : List ParserInst}

/-- A condition is written exactly when its mask can be computed. -/
theorem writeCondition_returns_iff {f : ParserField} (hfits : FieldFits f)
    (hvalue : f.value.isSome = true) :
    (∃ c, writeCondition b f = .ok c) ↔ Maskable b f.bits := by
  constructor
  · rintro ⟨c, hc⟩
    exact maskable_of_writeCondition hfits hc
  · intro hmask
    exact ⟨_, writeCondition_eq hfits hmask hvalue⟩

/-- An arm is written exactly when the opcode has two ranges and every mask can be computed. -/
theorem writeArm_returns_iff {j : ParserInst} (hj : InstFits j) :
    (∃ arm, writeArm b lower j = .ok arm) ↔ ∀ f, j.opcodeField = some f →
      f.bits.length = 2 ∧ ∀ g ∈ j.fixedFields, Maskable b g.bits := by
  unfold writeArm
  cases hfield : j.opcodeField with
  | none => simp [pure, Except.pure]
  | some f =>
    have hconditions : (∃ conditions, j.fixedFields.mapM (writeCondition b) = .ok conditions) ↔
        ∀ g ∈ j.fixedFields, Maskable b g.bits := by
      rw [mapM_returns_iff]
      apply forall₂_congr
      intro g hg
      exact writeCondition_returns_iff (hj.fields g (List.mem_append_left _ hg)) (hj.fixed g hg)
    dsimp only
    split
    · next htwo =>
      constructor
      · rintro ⟨arm, harm⟩ g hg
        cases hg
        obtain ⟨conditions, h, -⟩ := bind_eq_ok harm
        exact ⟨htwo, hconditions.mp ⟨conditions, h⟩⟩
      · intro h
        obtain ⟨conditions, hc⟩ := hconditions.mpr (h f rfl).2
        exact ⟨_, by rw [hc]; rfl⟩
    · next htwo =>
      refine iff_of_false ?_ fun h => htwo (h f rfl).1
      rintro ⟨arm, harm⟩
      cases harm

/-- The generator gets through exactly the tables whose masks can be computed. -/
theorem writeRust_returns_iff (lower : List Char → List Char)
    (htable : ∀ inst ∈ table, InstFits inst) :
    (∃ out, writeRust b lower table = .ok out) ↔ Generable b table := by
  have harms : (∃ arms, (prepare table).2.mapM (writeArm b lower) = .ok arms) ↔
      ∀ inst ∈ table, ∀ f, inst.opcodeField = some f →
        f.bits.length = 2 ∧ ∀ g ∈ inst.fixedFields, Maskable b g.bits := by
    rw [mapM_returns_iff]
    constructor
    · intro h inst hinst
      have hfits := instFits_tidied (htable inst hinst)
      exact (writeArm_returns_iff hfits).mp (h (tidied inst) (mem_prepare_of_mem hinst))
    · intro h j hj
      obtain ⟨inst, hinst, rfl⟩ := mem_prepare.mp hj
      exact (writeArm_returns_iff (instFits_tidied (htable inst hinst))).mpr (h inst hinst)
  constructor
  · rintro ⟨out, hout⟩
    obtain ⟨arms, h, hhandlers, -⟩ := writeRust_eq_ok hout
    have hopcode := harms.mp ⟨arms, h⟩
    have htwo := fun inst hinst f hfield => (hopcode inst hinst f hfield).1
    refine ⟨htwo, ?_, (handlers_return_iff htable htwo).mp ⟨_, hhandlers⟩⟩
    intro inst hinst hsome
    obtain ⟨f, hfield⟩ := Option.isSome_iff_exists.mp hsome
    exact (hopcode inst hinst f hfield).2
  · intro h
    have hopcode : ∀ inst ∈ table, ∀ f, inst.opcodeField = some f →
        f.bits.length = 2 ∧ ∀ g ∈ inst.fixedFields, Maskable b g.bits := by
      intro inst hinst f hfield
      exact ⟨h.opcode inst hinst f hfield, h.conditions inst hinst (by rw [hfield]; rfl)⟩
    obtain ⟨arms, harms⟩ := harms.mpr hopcode
    obtain ⟨handlers, hhandlers⟩ := (handlers_return_iff htable h.opcode).mpr h.skeletons
    unfold writeRust
    dsimp only
    rw [harms, ok_bind, hhandlers]
    exact ⟨_, rfl⟩

/-! ## The skeleton for a name -/

/-- An instruction that is skipped adds no skeleton. -/
theorem skeletonNames_of_skipped {seen : List (List Char)} {k : ParserInst}
    (hskip : Skipped seen k) (instructions : List ParserInst) :
    skeletonNames seen (k :: instructions) = skeletonNames seen instructions := by
  rw [skeletonNames, if_neg]
  intro h
  simp only [Bool.and_eq_true, Bool.not_eq_true', List.contains_eq_mem,
    decide_eq_false_iff_not] at h
  exact h.2 (hskip h.1)

/-- An instruction of a new name adds its skeleton. -/
theorem skeletonNames_of_new {seen : List (List Char)} {k : ParserInst}
    (hsome : k.opcodeField.isSome = true) (hnew : k.name ∉ seen)
    (instructions : List ParserInst) :
    skeletonNames seen (k :: instructions) =
      k.name :: skeletonNames (k.name :: seen) instructions := by
  rw [skeletonNames, if_pos]
  simp [hsome, hnew]

/-- The loop over the skeletons writes the one for a name from the first instruction with it. -/
theorem lookup_writeHandlers {instructions : List ParserInst}
    (hbits : ∀ j ∈ instructions, ∀ f, j.opcodeField = some f → f.bits.length = 2)
    {seen : List (List Char)} {handlers : List Handler}
    (h : writeHandlers b lower seen instructions = .ok handlers)
    {j : ParserInst} (hj : Written instructions j) (hnew : j.name ∉ seen) :
    ∃ lets, j.fields.mapM (writeLet b) = .ok lets ∧
      ((skeletonNames seen instructions).zip handlers).lookup j.name =
        some ⟨handlerName lower j, lets⟩ := by
  induction instructions generalizing seen handlers with
  | nil => cases hj
  | cons k instructions ih =>
    obtain ⟨htwo, hbits⟩ := List.forall_mem_cons.mp hbits
    by_cases hskip : Skipped seen k
    · rw [writeHandlers_of_skipped hskip] at h
      rw [skeletonNames_of_skipped hskip]
      exact ih hbits h ((written_of_skipped hskip hnew instructions).mp hj) hnew
    · obtain ⟨hsome, hseen⟩ := of_not_skipped hskip
      rw [writeHandlers_of_new htwo hsome hseen] at h
      obtain ⟨lets, hlets, h⟩ := bind_eq_ok h
      obtain ⟨handlers', hhandlers, h⟩ := bind_eq_ok h
      cases h
      rw [skeletonNames_of_new hsome hseen, List.zip_cons_cons, List.lookup_cons]
      by_cases hname : k.name = j.name
      · have hkj := Written.eq_of_name hj hsome hname
        subst hkj
        exact ⟨lets, hlets, by simp⟩
      · obtain ⟨hwritten, hnew'⟩ := written_of_ne hname hnew instructions
        rw [beq_false_of_ne fun heq => hname heq.symm]
        exact ih hbits hhandlers (hwritten.mp hj) hnew'

/-- The skeleton for a name reads the fields of the first entry with the name. -/
theorem skeletonOf_writeRust (htable : ∀ inst ∈ table, InstFits inst) {out : Output}
    (hout : writeRust b lower table = .ok out) {first : ParserInst}
    (hfirst : Written table first) :
    skeletonOf table out first.name =
      some ⟨handlerName lower first, (skeletonFields first).map letOf⟩ := by
  have hgenerable := (writeRust_returns_iff lower htable).mp ⟨out, hout⟩
  obtain ⟨-, -, hhandlers, -⟩ := writeRust_eq_ok hout
  have hwritten : Written (prepare table).2 (tidied first) :=
    written_prepare.mpr ⟨first, hfirst, rfl⟩
  have hbits : ∀ j ∈ (prepare table).2, ∀ f, j.opcodeField = some f → f.bits.length = 2 := by
    intro j hj
    obtain ⟨inst, hinst, rfl⟩ := mem_prepare.mp hj
    exact hgenerable.opcode inst hinst
  obtain ⟨lets, hlets, hskeleton⟩ :=
    lookup_writeHandlers hbits hhandlers hwritten List.not_mem_nil
  have hfits := instFits_tidied (htable first (List.mem_of_find?_eq_some hfirst))
  have hletOf : (tidied first).fields.mapM (writeLet b) =
      .ok ((tidied first).fields.map letOf) := by
    apply mapM_of_returns
    intro f hf
    exact writeLet_eq (hfits.fields f (List.mem_append_right _ hf))
      (hgenerable.skeletons first hfirst f (mem_fields_tidied.mp hf).1)
  rw [hletOf] at hlets
  cases hlets
  exact hskeleton

end Write

/-! ## Running a skeleton -/

/-- A bound variable has its value. -/
theorem bind_self {vars : Variables} {name : List Char} (hname : name ≠ []) (v : BitVec 128) :
    vars.bind name v name = some v := by
  rw [Variables.bind, if_neg hname, Function.update_self]

/-- Binding a variable leaves the others alone. -/
theorem bind_of_ne {vars : Variables} {name name' : List Char} (hne : name' ≠ name)
    (v : BitVec 128) : vars.bind name v name' = vars name' := by
  unfold Variables.bind
  split
  · rfl
  · exact Function.update_of_ne hne _ _

/-- A field without a name is no variable. -/
theorem bind_nil {vars : Variables} (name : List Char) (v : BitVec 128) :
    vars.bind name v [] = vars [] := by
  by_cases hname : name = []
  · rw [Variables.bind, if_pos hname]
  · exact bind_of_ne (fun heq => hname heq.symm) v

/-- The last of a name is sought in the rest first. -/
theorem lastNamed_cons (g : ParserField) (fields : List ParserField) (name : List Char) :
    lastNamed (g :: fields) name =
      (lastNamed fields name).or (if g.name = name then some g else none) := by
  unfold lastNamed
  rw [List.reverse_cons, List.find?_append, List.find?_singleton]
  simp

/-- **Running the lets.**  A name has the value of the last field with it. -/
theorem runLets_eq {word : BitVec 128} {fields : List ParserField} {vars vars' : Variables}
    (h : runLets word vars (fields.map letOf) = some vars') {name : List Char}
    (hname : name ≠ []) :
    vars' name = (lastNamed fields name).elim (vars name) fun g =>
      evalMerged word (letOf g).2 := by
  induction fields generalizing vars with
  | nil =>
    cases h
    rfl
  | cons g fields ih =>
    rw [List.map_cons, runLets] at h
    obtain ⟨v, hv, h⟩ := Option.bind_eq_some_iff.mp h
    rw [ih h, lastNamed_cons]
    cases lastNamed fields name with
    | some g' => rfl
    | none =>
      rw [Option.elim_none, Option.none_or]
      split
      · next heq =>
        subst heq
        exact (bind_self hname v).trans hv.symm
      · next hne => exact bind_of_ne (fun heq => hne heq.symm) v

/-- The bindings never touch the empty name. -/
theorem runLets_nil_name {word : BitVec 128} {lets : List (List Char × List RangeExpr)}
    {vars vars' : Variables} (h : runLets word vars lets = some vars') : vars' [] = vars [] := by
  induction lets generalizing vars with
  | nil =>
    cases h
    rfl
  | cons l lets ih =>
    rw [runLets] at h
    obtain ⟨v, -, h⟩ := Option.bind_eq_some_iff.mp h
    rw [ih h, bind_nil]

/-- A skeleton runs exactly when all of its lets have a value. -/
theorem runLets_returns_iff {word : BitVec 128} {lets : List (List Char × List RangeExpr)}
    {vars : Variables} :
    (∃ vars', runLets word vars lets = some vars') ↔
      ∀ l ∈ lets, ∃ v, evalMerged word l.2 = some v := by
  induction lets generalizing vars with
  | nil => simp [runLets]
  | cons l lets ih =>
    rw [runLets, List.forall_mem_cons]
    constructor
    · rintro ⟨vars', h⟩
      obtain ⟨v, hv, h⟩ := Option.bind_eq_some_iff.mp h
      exact ⟨⟨v, hv⟩, ih.mp ⟨vars', h⟩⟩
    · rintro ⟨⟨v, hv⟩, hrest⟩
      rw [hv]
      exact ih.mpr hrest

/-! ## The bits of a value -/

/-- Past the widths of the ranges there is no bit. -/
theorem sourceBit_of_le {ranges : List (UInt64 × UInt64)} {i : ℕ}
    (hi : (ranges.map width).sum ≤ i) : sourceBit ranges i = none := by
  induction ranges with
  | nil => rfl
  | cons r ranges ih =>
    rw [List.map_cons, List.sum_cons] at hi
    have hmod := Nat.mod_le (width r) 64
    rw [sourceBit, if_neg (by omega), if_neg (by omega)]

/-- The bits of a range, each moved to its place. -/
theorem evalRange_bits {r : UInt64 × UInt64} (hstart : r.1.toNat < 128) {place : ℕ}
    (hplace : place < 128) (word : BitVec 128) :
    ∃ v, evalRange word ⟨r.1, maskOf r, UInt64.ofNat place⟩ = some v ∧
      ∀ i < 128, v.getLsbD i =
        (!decide (i < place) && (decide (i - place < width r % 64) &&
          word.getLsbD (r.1.toNat + (i - place)))) := by
  have hshift : (UInt64.ofNat place).toNat = place := toNat_ofNat_of_lt (by omega)
  have hplace128 : (UInt64.ofNat place).toNat < 128 := by omega
  refine ⟨_, if_pos ⟨hstart, hplace128⟩, ?_⟩
  intro i hi
  dsimp only
  have hk : i - place < 128 := by omega
  rw [maskOf_toNat, hshift, BitVec.getLsbD_shiftLeft, BitVec.getLsbD_and,
    BitVec.getLsbD_ushiftRight, BitVec.getLsbD_ofNat, Nat.testBit_two_pow_sub_one]
  simp [hi, hk, Bool.and_comm]

/-- The loop invariant, bit by bit: what stands to the left is joined with the bits of the
ranges. -/
theorem evalFrom_bits {ranges : List (UInt64 × UInt64)} (hexpressible : Expressible ranges)
    {remBits : ℕ} (hsum : (ranges.map width).sum = remBits) (word left : BitVec 128) :
    ∃ v, evalFrom word left (placed remBits ranges) = some v ∧
      ∀ i < 128, v.getLsbD i = (left.getLsbD i || (sourceBit ranges i).any word.getLsbD) := by
  induction ranges generalizing remBits left with
  | nil => exact ⟨left, rfl, by simp [sourceBit]⟩
  | cons r ranges ih =>
    obtain ⟨hstarts, hplace⟩ := hexpressible
    rw [List.map_cons, List.sum_cons] at hsum
    rw [List.map_cons, List.tail_cons] at hplace
    have hrest : remBits - width r = (ranges.map width).sum := by omega
    have htail : (ranges.map width).tail.sum < 128 := by
      rw [List.tail_sum]
      omega
    obtain ⟨v, hv, hbits⟩ := evalRange_bits (hstarts r List.mem_cons_self)
      (hrest ▸ hplace : remBits - width r < 128) word
    obtain ⟨value, hvalue, hjoined⟩ :=
      ih ⟨fun s hs => hstarts s (List.mem_cons_of_mem _ hs), htail⟩ hrest.symm (left ||| v)
    refine ⟨value, ?_, ?_⟩
    · rw [placed, evalFrom, hv]
      exact hvalue
    · intro i hi
      rw [hjoined i hi, BitVec.getLsbD_or, hbits i hi, hrest, sourceBit]
      by_cases hlow : i < (ranges.map width).sum
      · simp [hlow]
      · rw [sourceBit_of_le (by omega), if_neg hlow]
        by_cases hmask : i - (ranges.map width).sum < width r % 64
        · simp [hlow, hmask]
        · simp [hmask]

/-- The value of an expression that compiles. -/
theorem evalMerged_bits {f : ParserField} (hfits : FieldFits f) (hne : f.bits ≠ [])
    (hexpressible : Expressible f.bits) (word : BitVec 128) :
    ∃ v, evalMerged word (letOf f).2 = some v ∧
      ∀ i < 128, v.getLsbD i = (sourceBit f.bits i).any word.getLsbD := by
  have hplaced : placed f.totalBits.toNat f.bits ≠ [] := by
    cases hbits : f.bits with
    | nil => exact absurd hbits hne
    | cons r ranges => exact List.cons_ne_nil _ _
  obtain ⟨v, hv, hbits⟩ := evalFrom_bits hexpressible hfits.total.symm word 0
  refine ⟨v, ?_, ?_⟩
  · unfold letOf evalMerged
    rw [if_neg hplaced]
    exact hv
  · intro i hi
    rw [hbits i hi]
    simp

end Oboromi.Analysis.DecoderGenerator
