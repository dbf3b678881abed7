import Oboromi.Analysis.FieldDeposits
import Oboromi.Analysis.SkeletonRuns

/-!
# Which fields a skeleton reads

Fields of distinct bits keep what is deposited in them (`extract_depositAll`), and they are the
only ones that do (`separateFields_of_injective`).  A `let` reads the field it is meant for
exactly when it takes the field's bits from their places (`readsBits_iff`).  So the skeleton that
the entries of a name share reads an entry's own fields exactly when the first entry of the name
has its fields at the same places (`readsOwnFields_iff`).
-/

set_option autoImplicit false

namespace Oboromi.Analysis.DecoderGenerator

open Oboromi.Lib
open Oboromi.Model.DecoderGenerator
open Oboromi.Interface.DecoderGenerator

/-! ## Words with deposited fields -/

/-- The positions of all fields, in the order of the deposits. -/
def allPositions (fields : List ParserField) : List ℕ :=
  fields.flatMap fun f => fieldPositions f.bits

/-- The positions of a list of fields are those of its members in order. -/
theorem allPositions_cons (f : ParserField) (fields : List ParserField) :
    allPositions (f :: fields) = fieldPositions f.bits ++ allPositions fields :=
  List.flatMap_cons

/-- Depositing leaves the bits outside the fields alone. -/
theorem getLsbD_depositAll_of_notMem {deposits : List (ParserField × ℕ)} {i : ℕ}
    (hi : i ∉ allPositions (deposits.map Prod.fst)) (word : BitVec 128) :
    (depositAll word deposits).getLsbD i = word.getLsbD i := by
  induction deposits generalizing word with
  | nil => rfl
  | cons d deposits ih =>
    rw [List.map_cons, allPositions_cons, List.mem_append, not_or] at hi
    have hrest := ih hi.2 (deposit word d.1.bits d.2)
    exact hrest.trans (BitPositions.getLsbD_deposit_of_notMem hi.1 word d.2)

/-- Fields of distinct bits of the word keep what is deposited in them. -/
theorem extract_depositAll {deposits : List (ParserField × ℕ)}
    (hnodup : (allPositions (deposits.map Prod.fst)).Nodup)
    (hinWord : ∀ p ∈ allPositions (deposits.map Prod.fst), p < 128)
    (hfits : ∀ d ∈ deposits, d.2 < 2 ^ (fieldPositions d.1.bits).length) (word : BitVec 128) :
    ∀ d ∈ deposits,
      BitPositions.extract (depositAll word deposits) (fieldPositions d.1.bits) = d.2 := by
  induction deposits generalizing word with
  | nil => simp
  | cons d deposits ih =>
    rw [List.map_cons, allPositions_cons] at hnodup hinWord
    obtain ⟨hself, hrest, hdisjoint⟩ := List.nodup_append'.mp hnodup
    obtain ⟨hselfWord, hrestWord⟩ := List.forall_mem_append.mp hinWord
    obtain ⟨hselfFits, hrestFits⟩ := List.forall_mem_cons.mp hfits
    have hkept : BitPositions.extract (depositAll word (d :: deposits)) (fieldPositions d.1.bits) =
        BitPositions.extract (deposit word d.1.bits d.2) (fieldPositions d.1.bits) :=
      BitPositions.extract_congr fun p hp => getLsbD_depositAll_of_notMem (hdisjoint hp) _
    refine List.forall_mem_cons.mpr ⟨?_, ih hrest hrestWord hrestFits _⟩
    rw [hkept]
    exact BitPositions.extract_deposit hself hselfWord word hselfFits

/-- Depositing what the fields have. -/
theorem depositAll_extract (fields : List ParserField) (word : BitVec 128) :
    depositAll word (fields.map fun f =>
      (f, BitPositions.extract word (fieldPositions f.bits))) = word := by
  induction fields with
  | nil => rfl
  | cons f fields ih =>
    rw [List.map_cons, depositAll, List.foldl_cons, deposit, BitPositions.deposit_extract]
    exact ih

/-- The bits of one number shared out among the fields. -/
def shareOut : List ParserField → ℕ → List (ParserField × ℕ)
  | [], _ => []
  | f :: fields, v =>
    (f, v % 2 ^ (fieldPositions f.bits).length) ::
      shareOut fields (v / 2 ^ (fieldPositions f.bits).length)

/-- Sharing a number out keeps the fields. -/
theorem map_fst_shareOut (fields : List ParserField) (v : ℕ) :
    (shareOut fields v).map Prod.fst = fields := by
  induction fields generalizing v with
  | nil => rfl
  | cons f fields ih => rw [shareOut, List.map_cons, ih]

/-- Every share fits its field. -/
theorem shareOut_fits (fields : List ParserField) (v : ℕ) :
    ∀ d ∈ shareOut fields v, d.2 < 2 ^ (fieldPositions d.1.bits).length := by
  induction fields generalizing v with
  | nil => simp [shareOut]
  | cons f fields ih =>
    rw [shareOut]
    exact List.forall_mem_cons.mpr ⟨Nat.mod_lt _ (Nat.two_pow_pos _), ih _⟩

/-- All fields together take one number. -/
theorem depositAll_shareOut (fields : List ParserField) (word : BitVec 128) (v : ℕ) :
    depositAll word (shareOut fields v) =
      BitPositions.deposit word (allPositions fields) v := by
  induction fields generalizing word v with
  | nil => rfl
  | cons f fields ih =>
    rw [allPositions_cons, BitPositions.deposit_append, ← ih, shareOut, depositAll,
      List.foldl_cons, deposit, BitPositions.deposit_mod]
    rfl

/-- The shares determine the number. -/
theorem shareOut_injective {fields : List ParserField} {v v' : ℕ}
    (hv : v < 2 ^ (allPositions fields).length) (hv' : v' < 2 ^ (allPositions fields).length)
    (h : shareOut fields v = shareOut fields v') : v = v' := by
  induction fields generalizing v v' with
  | nil =>
    simp only [allPositions, List.flatMap_nil, List.length_nil, Nat.pow_zero,
      Nat.lt_one_iff] at hv hv'
    rw [hv, hv']
  | cons f fields ih =>
    rw [allPositions_cons, List.length_append, Nat.pow_add] at hv hv'
    simp only [shareOut, List.cons.injEq, Prod.mk.injEq, true_and] at h
    have hquotient := ih (Nat.div_lt_of_lt_mul hv) (Nat.div_lt_of_lt_mul hv') h.2
    rw [← Nat.div_add_mod v (2 ^ (fieldPositions f.bits).length), hquotient, h.1,
      Nat.div_add_mod]

/-- If a word tells the values that were deposited in the fields, their bits are distinct ones
of the word. -/
theorem separateFields_of_injective {inst : ParserInst}
    (h : ∀ word v v', depositAll word (shareOut inst.fields v) =
      depositAll word (shareOut inst.fields v') →
        shareOut inst.fields v = shareOut inst.fields v') : SeparateFields inst := by
  have hinjective (word : BitVec 128) (v v' : ℕ)
      (hv : v < 2 ^ (allPositions inst.fields).length)
      (hv' : v' < 2 ^ (allPositions inst.fields).length)
      (heq : BitPositions.deposit word (allPositions inst.fields) v =
        BitPositions.deposit word (allPositions inst.fields) v') : v = v' := by
    rw [← depositAll_shareOut, ← depositAll_shareOut] at heq
    exact shareOut_injective hv hv' (h word v v' heq)
  obtain ⟨hnodup, hinWord⟩ := BitPositions.nodup_of_deposit_injective hinjective
  exact ⟨hnodup, hinWord⟩

/-! ## Reading a field from its bits -/

/-- A value taken bit by bit from a field's places is the number in the field. -/
theorem toNat_of_readsBits {ranges : List (UInt64 × UInt64)} {f : ParserField}
    (hreads : ReadsBits ranges f) (hlen : (fieldPositions f.bits).length ≤ 128)
    {word v : BitVec 128}
    (hv : ∀ i < 128, v.getLsbD i = (sourceBit ranges i).any word.getLsbD) :
    v.toNat = BitPositions.extract word (fieldPositions f.bits) := by
  apply Nat.eq_of_testBit_eq
  intro i
  rw [BitPositions.testBit_extract, BitVec.testBit_toNat]
  by_cases hi : i < 128
  · rw [hv i hi, ← BitPositions.any_filter, hreads i hi]
  · rw [BitVec.getLsbD_of_ge _ _ (by omega), List.getElem?_eq_none (by omega)]
    rfl

/-- A value that is the number in the field on every word takes its bits from the field's
places. -/
theorem readsBits_of_toNat {ranges : List (UInt64 × UInt64)} {f : ParserField}
    (hinWord : ∀ p ∈ fieldPositions f.bits, p < 128)
    (h : ∀ word : BitVec 128, ∃ v : BitVec 128,
      v.toNat = BitPositions.extract word (fieldPositions f.bits) ∧
        ∀ i < 128, v.getLsbD i = (sourceBit ranges i).any word.getLsbD) :
    ReadsBits ranges f := by
  intro i hi
  have hany (word : BitVec 128) :
      (sourceBit ranges i).any word.getLsbD = (fieldPositions f.bits)[i]?.any word.getLsbD := by
    obtain ⟨v, hv, hbits⟩ := h word
    rw [← hbits i hi, ← BitPositions.testBit_extract, ← hv, BitVec.testBit_toNat]
  rw [BitPositions.filter_eq_of_any_eq hany, BitPositions.filter_getElem? hinWord]

/-! ## Reading the fields of another entry -/

/-- The lets for some fields read every field of an instruction from a word with deposited
values. -/
def LetsRead (fields : List ParserField) (inst : ParserInst) : Prop :=
  ∀ deposits, Deposits inst deposits → ∀ word, ∃ vars,
    runLets (depositAll word deposits) (fun _ => none) (fields.map letOf) = some vars ∧
    ∀ p ∈ deposits, (vars p.1.name).map BitVec.toNat = some p.2

variable {first inst : ParserInst}

/-- The fields of a skeleton are those with bits. -/
theorem mem_skeletonFields {f : ParserField} :
    f ∈ skeletonFields first ↔ f ∈ first.fields ∧ f.bits ≠ [] := mem_fields_tidied

/-- The last field of a name is one of the fields. -/
theorem mem_of_lastNamed {fields : List ParserField} {name : List Char} {g : ParserField}
    (h : lastNamed fields name = some g) : g ∈ fields :=
  List.mem_reverse.mp (List.mem_of_find?_eq_some h)

/-- In an instruction that fits, every field fits. -/
theorem fits_of_mem_fields (hinst : InstFits inst) {f : ParserField} (hf : f ∈ inst.fields) :
    FieldFits f := hinst.fields f (List.mem_append_right _ hf)

/-- A field that fits has as many positions as it says. -/
theorem length_of_fits {f : ParserField} (hfits : FieldFits f) :
    (fieldPositions f.bits).length = f.totalBits.toNat := by
  rw [length_fieldPositions, hfits.total]

/-- Values that fit the fields make deposits of the instruction. -/
theorem deposits_of_fits (hinst : InstFits inst) {deposits : List (ParserField × ℕ)}
    (hfields : deposits.map Prod.fst = inst.fields)
    (hfits : ∀ d ∈ deposits, d.2 < 2 ^ (fieldPositions d.1.bits).length) :
    Deposits inst deposits := by
  refine ⟨hfields, ?_⟩
  intro d hd
  have hmem : d.1 ∈ inst.fields := hfields ▸ List.mem_map_of_mem hd
  rw [← length_of_fits (fits_of_mem_fields hinst hmem)]
  exact hfits d hd

/-- What is deposited goes to a field of the instruction. -/
theorem mem_fields_of_deposits {deposits : List (ParserField × ℕ)}
    (hdeposits : Deposits inst deposits) {d : ParserField × ℕ} (hd : d ∈ deposits) :
    d.1 ∈ inst.fields := by
  rw [← hdeposits.fields]
  exact List.mem_map_of_mem hd

/-- Separate fields keep the values deposited in them. -/
theorem extract_deposits (hinst : InstFits inst) (hseparate : SeparateFields inst)
    {deposits : List (ParserField × ℕ)} (hdeposits : Deposits inst deposits) (word : BitVec 128)
    {d : ParserField × ℕ} (hd : d ∈ deposits) :
    BitPositions.extract (depositAll word deposits) (fieldPositions d.1.bits) = d.2 := by
  obtain ⟨hnodup, hinWord⟩ := hseparate
  rw [← hdeposits.fields] at hnodup hinWord
  refine extract_depositAll hnodup hinWord ?_ word d hd
  intro e he
  rw [length_of_fits (fits_of_mem_fields hinst (mem_fields_of_deposits hdeposits he))]
  exact hdeposits.fits e he

/-- A field of distinct bits of the word has at most 128. -/
theorem length_le_of_separateFields (hseparate : SeparateFields inst) {f : ParserField}
    (hf : f ∈ inst.fields) : (fieldPositions f.bits).length ≤ 128 := by
  apply BitPositions.length_le_of_nodup ((List.nodup_flatMap.mp hseparate.nodup).1 f hf)
  intro p hp
  exact hseparate.inWord p (List.mem_flatMap.mpr ⟨f, hf, hp⟩)

/-- The values a function tells for the fields are the only ones. -/
theorem deposits_unique (value : ParserField → Option ℕ)
    {deposits deposits' : List (ParserField × ℕ)}
    (hfields : deposits.map Prod.fst = deposits'.map Prod.fst)
    (h : ∀ d ∈ deposits, value d.1 = some d.2) (h' : ∀ d ∈ deposits', value d.1 = some d.2) :
    deposits = deposits' := by
  have htold {ds : List (ParserField × ℕ)} (hds : ∀ d ∈ ds, value d.1 = some d.2) :
      ds = (ds.map Prod.fst).map fun f => (f, (value f).getD 0) := by
    calc
      ds = ds.map id := (List.map_id ds).symm
      _ = ds.map fun d => (d.1, (value d.1).getD 0) := by
        apply List.map_congr_left
        intro d hd
        rw [hds d hd]
        rfl
      _ = (ds.map Prod.fst).map fun f => (f, (value f).getD 0) := by
        rw [List.map_map]
        rfl
  rw [htold h, htold h', hfields]

/-- Lets that read every field tell what was deposited, so the fields are separate. -/
theorem separateFields_of_letsRead (hinst : InstFits inst) {fields : List ParserField}
    (h : LetsRead fields inst) : SeparateFields inst := by
  apply separateFields_of_injective
  intro word v v' heq
  have hdeposits (u : ℕ) : Deposits inst (shareOut inst.fields u) :=
    deposits_of_fits hinst (map_fst_shareOut inst.fields u) (shareOut_fits inst.fields u)
  obtain ⟨vars, hrun, hvalues⟩ := h _ (hdeposits v) word
  obtain ⟨vars', hrun', hvalues'⟩ := h _ (hdeposits v') word
  rw [heq, hrun', Option.some.injEq] at hrun
  subst hrun
  have hfields : (shareOut inst.fields v).map Prod.fst =
      (shareOut inst.fields v').map Prod.fst := by
    rw [map_fst_shareOut, map_fst_shareOut]
  exact deposits_unique (fun f => (vars' f.name).map BitVec.toNat) hfields hvalues hvalues'

/-- On a word as it is, lets that read every field give the numbers in the fields. -/
theorem letsRead_self (hinst : InstFits inst) {fields : List ParserField}
    (h : LetsRead fields inst) (word : BitVec 128) :
    ∃ vars, runLets word (fun _ => none) (fields.map letOf) = some vars ∧
      ∀ f ∈ inst.fields, (vars f.name).map BitVec.toNat =
        some (BitPositions.extract word (fieldPositions f.bits)) := by
  have hdeposits : Deposits inst (inst.fields.map fun f =>
      (f, BitPositions.extract word (fieldPositions f.bits))) := by
    apply deposits_of_fits hinst
    · rw [List.map_map]
      exact List.map_id _
    · intro d hd
      obtain ⟨f, -, rfl⟩ := List.mem_map.mp hd
      exact BitPositions.extract_lt word _
  obtain ⟨vars, hrun, hvalues⟩ := h _ hdeposits word
  rw [depositAll_extract] at hrun
  refine ⟨vars, hrun, ?_⟩
  intro f hf
  exact hvalues _ (List.mem_map_of_mem hf)

/-- Lets that read every field compile. -/
theorem expressible_of_letsRead (hfirst : InstFits first) (hinst : InstFits inst)
    (h : LetsRead (skeletonFields first) inst) : ∀ g ∈ first.fields, Expressible g.bits := by
  intro g hg
  by_cases hempty : g.bits = []
  · rw [hempty]
    exact ⟨by simp, by simp⟩
  · obtain ⟨vars, hrun, -⟩ := letsRead_self hinst h 0
    have hlet := List.mem_map_of_mem (f := letOf) (mem_skeletonFields.mpr ⟨hg, hempty⟩)
    obtain ⟨v, hv⟩ := runLets_returns_iff.mp ⟨vars, hrun⟩ _ hlet
    exact expressible_of_evalMerged (fits_of_mem_fields hfirst hg) hv

/-- Lets that read every field have a variable of its name. -/
theorem lastNamed_of_letsRead (hinst : InstFits inst) {fields : List ParserField}
    (h : LetsRead fields inst) {f : ParserField} (hf : f ∈ inst.fields) :
    f.name ≠ [] ∧ ∃ g, lastNamed fields f.name = some g := by
  obtain ⟨vars, hrun, hvalues⟩ := letsRead_self hinst h 0
  have hvalue := hvalues f hf
  have hname : f.name ≠ [] := by
    intro hname
    rw [hname, runLets_nil_name hrun] at hvalue
    cases hvalue
  refine ⟨hname, Option.ne_none_iff_exists'.mp ?_⟩
  intro hnone
  rw [runLets_eq hrun hname, hnone] at hvalue
  cases hvalue

/-- Lets that read every field compile and read the bits of the field. -/
theorem sharesFields_of_letsRead (hfirst : InstFits first) (hinst : InstFits inst)
    (h : LetsRead (skeletonFields first) inst) : SharesFields first inst := by
  have hseparate := separateFields_of_letsRead hinst h
  have hcompiles := expressible_of_letsRead hfirst hinst h
  refine ⟨hcompiles, ?_⟩
  intro f hf
  obtain ⟨hname, g, hlast⟩ := lastNamed_of_letsRead hinst h hf
  obtain ⟨hg, hne⟩ := mem_skeletonFields.mp (mem_of_lastNamed hlast)
  refine ⟨hname, g, hlast, readsBits_of_toNat ?_ ?_⟩
  · intro p hp
    exact hseparate.inWord p (List.mem_flatMap.mpr ⟨f, hf, hp⟩)
  · intro word
    obtain ⟨vars, hrun, hvalues⟩ := letsRead_self hinst h word
    have hvalue := hvalues f hf
    obtain ⟨v, hv, hbits⟩ := evalMerged_bits (fits_of_mem_fields hfirst hg) hne
      (hcompiles g hg) word
    rw [runLets_eq hrun hname, hlast, Option.elim_some, hv, Option.map_some,
      Option.some.injEq] at hvalue
    exact ⟨v, hvalue, hbits⟩

/-- Lets that compile and read the bits of separate fields read what is deposited. -/
theorem letsRead_of_sharesFields (hfirst : InstFits first) (hinst : InstFits inst)
    (hseparate : SeparateFields inst) (hshares : SharesFields first inst) :
    LetsRead (skeletonFields first) inst := by
  intro deposits hdeposits word
  have hvalues : ∀ l ∈ (skeletonFields first).map letOf,
      ∃ v, evalMerged (depositAll word deposits) l.2 = some v := by
    intro l hl
    obtain ⟨g, hg, rfl⟩ := List.mem_map.mp hl
    obtain ⟨hmem, hne⟩ := mem_skeletonFields.mp hg
    obtain ⟨v, hv, -⟩ := evalMerged_bits (fits_of_mem_fields hfirst hmem) hne
      (hshares.compiles g hmem) (depositAll word deposits)
    exact ⟨v, hv⟩
  obtain ⟨vars, hrun⟩ := runLets_returns_iff.mpr hvalues
  refine ⟨vars, hrun, ?_⟩
  intro d hd
  have hf := mem_fields_of_deposits hdeposits hd
  have hdeposited := extract_deposits hinst hseparate hdeposits word hd
  obtain ⟨hname, g, hlast, hreads⟩ := hshares.fields d.1 hf
  obtain ⟨hg, hne⟩ := mem_skeletonFields.mp (mem_of_lastNamed hlast)
  obtain ⟨v, hv, hbits⟩ := evalMerged_bits (fits_of_mem_fields hfirst hg) hne
    (hshares.compiles g hg) (depositAll word deposits)
  rw [runLets_eq hrun hname, hlast, Option.elim_some, hv, Option.map_some,
    toNat_of_readsBits hreads (length_le_of_separateFields hseparate hf) hbits, hdeposited]

/-! ## Every entry of a name -/

/-- An entry with an opcode field has a first entry of its name. -/
theorem exists_written {table : List ParserInst} (hinst : inst ∈ table)
    (hfield : inst.opcodeField.isSome = true) :
    ∃ first, Written table first ∧ first.name = inst.name := by
  have hsome : (table.find? fun j =>
      j.opcodeField.isSome && decide (j.name = inst.name)).isSome = true :=
    List.find?_isSome.mpr ⟨inst, hinst, by simp [hfield]⟩
  obtain ⟨first, hfirst⟩ := Option.isSome_iff_exists.mp hsome
  have hname : first.name = inst.name := by
    have hpasses := List.find?_some hfirst
    simp only [Bool.and_eq_true, decide_eq_true_eq] at hpasses
    exact hpasses.2
  refine ⟨first, ?_, hname⟩
  unfold Written
  rw [hname]
  exact hfirst

/-- An entry that has its own fields read shares the fields of the first entry of its name. -/
theorem letsRead_of_readsOwnFields {b : Build} {lower : List Char → List Char}
    {table : List ParserInst} (htable : ∀ inst ∈ table, InstFits inst)
    (hfirst : Written table first) (hname : first.name = inst.name)
    (h : ReadsOwnFields b lower table inst) :
    Generable b table ∧ LetsRead (skeletonFields first) inst := by
  obtain ⟨out, skeleton, hout, hskeleton, hreads⟩ := h
  rw [← hname, skeletonOf_writeRust htable hout hfirst, Option.some.injEq] at hskeleton
  subst hskeleton
  exact ⟨(writeRust_returns_iff lower htable).mp ⟨out, hout⟩, hreads⟩

/-- **The fields a skeleton reads.**  For every table of the generator's parser and every entry
of it with an opcode field: the skeleton that is written for the entry's name, applied to any
word with any values deposited in the entry's own fields, has every value under the name of its
field exactly when the generator gets through the table, the entry's fields are made of distinct
bits of the word, and the first entry with the name has, for each of them, a field of the same
name that is not shadowed and reads the same bits.
SOURCE: scripts/decoder_generator.rs:111-228 -/
theorem readsOwnFields_iff (b : Build) (lower : List Char → List Char) (table : List ParserInst)
    (htable : ∀ inst ∈ table, InstFits inst) (inst : ParserInst) (hinst : inst ∈ table)
    (hfield : inst.opcodeField.isSome = true) :
    ReadsOwnFields b lower table inst ↔
      Generable b table ∧ SeparateFields inst ∧
        ∃ first, Written table first ∧ first.name = inst.name ∧ SharesFields first inst := by
  have hfits (first : ParserInst) (hfirst : Written table first) : InstFits first :=
    htable first (List.mem_of_find?_eq_some hfirst)
  constructor
  · intro h
    obtain ⟨first, hfirst, hname⟩ := exists_written hinst hfield
    obtain ⟨hgenerable, hlets⟩ := letsRead_of_readsOwnFields htable hfirst hname h
    exact ⟨hgenerable, separateFields_of_letsRead (htable inst hinst) hlets, first, hfirst, hname,
      sharesFields_of_letsRead (hfits first hfirst) (htable inst hinst) hlets⟩
  · rintro ⟨hgenerable, hseparate, first, hfirst, hname, hshares⟩
    obtain ⟨out, hout⟩ := (writeRust_returns_iff lower htable).mpr hgenerable
    refine ⟨out, ⟨handlerName lower first, (skeletonFields first).map letOf⟩, hout, ?_, ?_⟩
    · rw [← hname]
      exact skeletonOf_writeRust htable hout hfirst
    · exact letsRead_of_sharesFields (hfits first hfirst) (htable inst hinst) hseparate hshares

/-! ## What the condition says -/

/-- For ranges of at most 63 bits a `let` takes all bits of the ranges. -/
theorem sourceBit_of_narrow {ranges : List (UInt64 × UInt64)} (hnarrow : ∀ r ∈ ranges, width r ≤ 63)
    (i : ℕ) : sourceBit ranges i = (fieldPositions ranges)[i]? := by
  induction ranges with
  | nil => rfl
  | cons r ranges ih =>
    obtain ⟨hr, hrest⟩ := List.forall_mem_cons.mp hnarrow
    rw [sourceBit, fieldPositions, Nat.mod_eq_of_lt (show width r < 64 by omega), ih hrest]
    by_cases hlow : i < (ranges.map width).sum
    · rw [if_pos hlow, List.getElem?_append_left (by rwa [length_fieldPositions])]
    · rw [if_neg hlow, List.getElem?_append_right (by rw [length_fieldPositions]; omega),
        length_fieldPositions]
      split
      · next hin =>
        rw [List.getElem?_range' hin]
        simp
      · next hout => exact (List.getElem?_eq_none (by simpa using hout)).symm

/-- For ranges of at most 63 bits in the word a `let` reads another field exactly when both have
the same bits in the same order. -/
theorem readsBits_iff_of_narrow {ranges : List (UInt64 × UInt64)} {f : ParserField}
    (hnarrow : ∀ r ∈ ranges, width r ≤ 63) (hinWord : ∀ p ∈ fieldPositions ranges, p < 128)
    (hlen : (fieldPositions ranges).length ≤ 128) (hlenf : (fieldPositions f.bits).length ≤ 128) :
    ReadsBits ranges f ↔ fieldPositions ranges = fieldPositions f.bits := by
  have hfilter (i : ℕ) :
      (sourceBit ranges i).filter (· < 128) = (fieldPositions ranges)[i]? := by
    rw [sourceBit_of_narrow hnarrow, BitPositions.filter_getElem? hinWord]
  unfold ReadsBits
  simp only [hfilter]
  constructor
  · intro h
    apply List.ext_getElem?
    intro i
    by_cases hi : i < 128
    · exact h i hi
    · rw [List.getElem?_eq_none (by omega), List.getElem?_eq_none (by omega)]
  · intro h i _
    rw [h]

/-- The fields with bits of an entry that has its own fields read have different names: of two
variables with one name only the second is left. -/
theorem names_ne_of_sharesFields (hseparate : SeparateFields inst)
    (hshares : SharesFields first inst) :
    (inst.fields.filter fun f => f.bits ≠ []).Pairwise fun f g => f.name ≠ g.name := by
  rw [List.pairwise_filter]
  apply (List.nodup_flatMap.mp hseparate.nodup).2.imp_of_mem
  intro f g hf hg hdisjoint hfbits _ hname
  obtain ⟨-, h, hlast, hreads⟩ := hshares.fields f hf
  obtain ⟨-, h', hlast', hreads'⟩ := hshares.fields g hg
  rw [hname, hlast', Option.some.injEq] at hlast
  subst hlast
  -- Both fields have their lowest bit where the one variable takes it.
  have hsame : (fieldPositions f.bits)[0]? = (fieldPositions g.bits)[0]? := by
    rw [← hreads 0 (by omega), ← hreads' 0 (by omega)]
  have hne := fieldPositions_ne_nil (by simpa using hfbits)
  have hmem := List.getElem?_eq_getElem (List.length_pos_iff.mpr hne)
  rw [hmem] at hsame
  exact hdisjoint (List.getElem_mem _) (List.mem_of_getElem? hsame.symm)

/-! ## Two forms of one instruction -/

/-- A field with one range and no value. -/
def variableField (name : List Char) (first last : UInt64) : ParserField where
  name := name
  totalBits := last - first + 1
  bits := [(first, last)]
  value := none

/-- A form of `MOV` with its opcode and its fields. -/
def movForm (op : UInt64) (fields : List ParserField) : ParserInst where
  name := "MOV".toList
  op := op
  fixedFields := [⟨"opcode".toList, 13, [(91, 91), (0, 11)], some op⟩]
  fields := fields

/-- `MOV` from a constant bank. -/
def movConst : ParserInst :=
  movForm 0xa02 [variableField "rd".toList 16 23, variableField "sc_addr".toList 40 53]

/-- `MOV` from a register. -/
def movRegister : ParserInst :=
  movForm 0x202 [variableField "rd".toList 16 23, variableField "rb".toList 32 39]

/-- The forms of `MOV`, the constant bank first. -/
def movTable : List ParserInst := [movConst, movRegister]

/-- A form of the sample fits when its fields do. -/
theorem instFits_movForm {op : UInt64} {fields : List ParserField}
    (hfields : ∀ f ∈ fields, FieldFits f) : InstFits (movForm op fields) := by
  have hopcode : FieldFits ⟨"opcode".toList, 13, [(91, 91), (0, 11)], some op⟩ :=
    ⟨by simp, rfl⟩
  refine ⟨?_, by simp [movForm], ?_⟩
  · rw [movForm, List.singleton_append]
    exact List.forall_mem_cons.mpr ⟨hopcode, hfields⟩
  · intro f hf
    cases hf
    rfl

/-- Every instruction of the sample table fits. -/
theorem instFits_movTable : ∀ inst ∈ movTable, InstFits inst := by
  have hconst : InstFits movConst := by
    apply instFits_movForm
    simp only [List.forall_mem_cons, List.not_mem_nil, false_implies, implies_true, and_true]
    exact ⟨⟨by simp [variableField], rfl⟩, ⟨by simp [variableField], rfl⟩⟩
  have hregister : InstFits movRegister := by
    apply instFits_movForm
    simp only [List.forall_mem_cons, List.not_mem_nil, false_implies, implies_true, and_true]
    exact ⟨⟨by simp [variableField], rfl⟩, ⟨by simp [variableField], rfl⟩⟩
  exact List.forall_mem_cons.mpr ⟨hconst, List.forall_mem_singleton.mpr hregister⟩

/-- The constant move is written by the table. -/
theorem written_movConst : Written movTable movConst := written_cons_self rfl _

/-- The skeleton of `MOV` has the fields of the constant bank form. -/
theorem skeletonFields_movConst : skeletonFields movConst = movConst.fields := by
  simp [skeletonFields, movConst, movForm, removeEmpty, variableField, firstBit]

/-- The ranges of a form are narrow when those of its fields are. -/
theorem narrow_movForm (op : UInt64) {fields : List ParserField}
    (hfields : ∀ f ∈ fields, ∀ r ∈ f.bits, width r ≤ 63) :
    ∀ f ∈ (movForm op fields).fixedFields ++ (movForm op fields).fields,
      ∀ r ∈ f.bits, width r ≤ 63 := by
  rw [movForm, List.singleton_append]
  exact List.forall_mem_cons.mpr ⟨narrow_addOpcode, hfields⟩

/-- The ranges of the sample table are narrow. -/
theorem narrow_movTable : ∀ inst ∈ movTable, ∀ f ∈ inst.fixedFields ++ inst.fields,
    ∀ r ∈ f.bits, width r ≤ 63 := by
  refine List.forall_mem_cons.mpr ⟨narrow_movForm 0xa02 ?_, List.forall_mem_singleton.mpr
    (narrow_movForm 0x202 ?_)⟩
  · simp [variableField, width]
  · simp [variableField, width]

/-- A debug build generates code from the sample table. -/
theorem generable_movTable : Generable .debug movTable := by
  refine ⟨?_, ?_, ?_⟩
  · simp only [movTable, List.forall_mem_cons, List.not_mem_nil, false_implies, implies_true,
      and_true]
    exact ⟨fun f hf => by cases hf; rfl, fun f hf => by cases hf; rfl⟩
  · intro inst hinst _ f hf _
    exact narrow_movTable inst hinst f (List.mem_append_left _ hf)
  · intro inst hwritten f hf _
    exact narrow_movTable inst (List.mem_of_find?_eq_some hwritten) f (List.mem_append_right _ hf)

/-- The fields of the constant move do not overlap. -/
theorem separateFields_movConst : SeparateFields movConst := ⟨by decide, by decide⟩

/-- A field of one range of the word reads itself. -/
theorem readsBits_variableField {name : List Char} {first last : UInt64}
    (hlast : last.toNat < 128) (hnarrow : width (first, last) ≤ 63) (hle : first ≤ last) :
    ReadsBits (variableField name first last).bits (variableField name first last) := by
  have hordered : ∀ r ∈ (variableField name first last).bits, r.1 ≤ r.2 :=
    List.forall_mem_singleton.mpr hle
  have hinWord : ∀ r ∈ (variableField name first last).bits, r.2.toNat ≤ 127 :=
    List.forall_mem_singleton.mpr (Nat.le_of_lt_succ hlast)
  have hlen : (fieldPositions (variableField name first last).bits).length ≤ 128 := by
    rw [length_fieldPositions]
    simp only [variableField, List.map_cons, List.map_nil, List.sum_cons, List.sum_nil]
    omega
  exact (readsBits_iff_of_narrow (List.forall_mem_singleton.mpr hnarrow)
    (fieldPositions_lt hordered hinWord) hlen hlen).mpr rfl

/-- The constant move shares its fields with itself. -/
theorem sharesFields_movConst : SharesFields movConst movConst := by
  refine ⟨?_, ?_⟩
  · simp [movConst, movForm, variableField, Expressible]
  · rw [skeletonFields_movConst]
    simp only [movConst, movForm, List.forall_mem_cons, List.not_mem_nil, false_implies,
      implies_true, and_true]
    refine ⟨⟨by simp [variableField], _, rfl, ?_⟩, ⟨by simp [variableField], _, rfl, ?_⟩⟩
    · exact readsBits_variableField (by decide) (by decide) (by decide)
    · exact readsBits_variableField (by decide) (by decide) (by decide)

/-- The constant bank form of `MOV` has its fields read. -/
theorem readsOwnFields_iff_movConst :
    ReadsOwnFields .debug (List.map Char.toLower) movTable movConst := by
  apply (readsOwnFields_iff .debug (List.map Char.toLower) movTable instFits_movTable movConst
    List.mem_cons_self rfl).mpr
  exact ⟨generable_movTable, separateFields_movConst, movConst, written_movConst, rfl,
    sharesFields_movConst⟩

/-- The register form has a field `rb`, which the skeleton of `MOV` does not read. -/
theorem mov_register_form_is_not_read :
    (∀ inst ∈ movTable, InstFits inst) ∧ movRegister ∈ movTable ∧
      movRegister.opcodeField.isSome = true ∧
      ¬ ReadsOwnFields .debug (List.map Char.toLower) movTable movRegister := by
  have hmem : movRegister ∈ movTable := List.mem_cons_of_mem _ List.mem_cons_self
  refine ⟨instFits_movTable, hmem, rfl, ?_⟩
  intro h
  have hconst := instFits_movTable movConst List.mem_cons_self
  have hname : movConst.name = movRegister.name := rfl
  obtain ⟨-, hlets⟩ := letsRead_of_readsOwnFields instFits_movTable written_movConst hname h
  have hshares := sharesFields_of_letsRead hconst (instFits_movTable movRegister hmem) hlets
  obtain ⟨-, g, hlast, -⟩ := hshares.fields (variableField "rb".toList 32 39) (by
    simp [movRegister, movForm])
  rw [skeletonFields_movConst] at hlast
  cases hlast

end Oboromi.Analysis.DecoderGenerator
