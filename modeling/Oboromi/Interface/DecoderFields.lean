import Mathlib.Logic.Function.Basic
import Oboromi.Interface.GeneratedDecoder
import Oboromi.Lib.BitPositions

/-!
# The fields of a word and the skeletons that read them

The bit ranges of a field say at which positions of a word its value is deposited.  A skeleton
is applied to a word by running its `let`s in order: a later variable shadows an earlier one of
its name, and a field without a name is bound to `_`, which is no variable.  Names are taken as
parts of identifiers.

`write_rust` writes one skeleton for each name, so the entries of a name share it
(`ReadsOwnFields` is what an entry needs from it).  What the skeleton of one entry does for
another depends on the ranges and names of their fields (`SharesFields`).
-/

set_option autoImplicit false

namespace Oboromi.Interface.DecoderGenerator

open Oboromi.Lib
open Oboromi.Model.DecoderGenerator

/-! ## Fields of a word -/

/-- The positions of the bits of a field, the least significant first. -/
def fieldPositions : List (UInt64 × UInt64) → List ℕ
  | [] => []
  | r :: ranges => fieldPositions ranges ++ List.range' r.1.toNat (width r)

/-- The word with a value deposited at the ranges of a field. -/
def deposit (word : BitVec 128) (ranges : List (UInt64 × UInt64)) (v : ℕ) : BitVec 128 :=
  BitPositions.deposit word (fieldPositions ranges) v

/-- The range has the bit. -/
def Covers (r : UInt64 × UInt64) (i : ℕ) : Prop := r.1.toNat ≤ i ∧ i ≤ r.2.toNat

/-- No bit is in both ranges. -/
def RangesApart (r s : UInt64 × UInt64) : Prop := r.2 < s.1 ∨ s.2 < r.1

/-- Ranges of at most 63 bits of the word, which make up at most 63 bits. -/
structure RangesFit (totalBits : UInt64) (ranges : List (UInt64 × UInt64)) : Prop where
  ordered : ∀ r ∈ ranges, r.1 ≤ r.2
  inWord : ∀ r ∈ ranges, r.2.toNat ≤ 127
  narrow : ∀ r ∈ ranges, width r ≤ 63
  total : totalBits.toNat = (ranges.map width).sum
  short : totalBits.toNat ≤ 63

/-! ## Applying a skeleton -/

/-- The variables in scope, by the names of their fields. -/
abbrev Variables := List Char → Option (BitVec 128)

/-- The variables after `let _name = v`. -/
def Variables.bind (vars : Variables) (name : List Char) (v : BitVec 128) : Variables :=
  if name = [] then vars else Function.update vars name (some v)

/-- The variables after the lets of a skeleton; `none` if one does not compile. -/
def runLets (inst : BitVec 128) (vars : Variables) :
    List (List Char × List RangeExpr) → Option Variables
  | [] => some vars
  | l :: lets => do
    let v ← evalMerged inst l.2
    runLets inst (vars.bind l.1 v) lets

/-- Applying a skeleton to a word. -/
def Handler.apply (h : Handler) (inst : BitVec 128) : Option Variables :=
  runLets inst (fun _ => none) h.lets

/-- The names skeletons are written for, in the order of the skeletons: one for each name of an
entry with an opcode field that was not seen before. -/
def skeletonNames (seenNames : List (List Char)) : List ParserInst → List (List Char)
  | [] => []
  | inst :: instructions =>
    if inst.opcodeField.isSome && !seenNames.contains inst.name then
      inst.name :: skeletonNames (inst.name :: seenNames) instructions
    else skeletonNames seenNames instructions

/-- The skeleton that is written for a name. -/
def skeletonOf (table : List ParserInst) (out : Output) (name : List Char) : Option Handler :=
  ((skeletonNames [] (prepare table).2).zip out.handlers).lookup name

/-! ## Reading one's own fields -/

/-- A value for each variable field of an instruction, of no more bits than the field has. -/
structure Deposits (inst : ParserInst) (deposits : List (ParserField × ℕ)) : Prop where
  fields : deposits.map Prod.fst = inst.fields
  fits : ∀ p ∈ deposits, p.2 < 2 ^ p.1.totalBits.toNat

/-- The word with every value deposited at its own field's ranges. -/
def depositAll (word : BitVec 128) (deposits : List (ParserField × ℕ)) : BitVec 128 :=
  deposits.foldl (fun word p => deposit word p.1.bits p.2) word

/-- The generator writes a skeleton for the instruction's name that, applied to a word with
deposited values, has every value under the name of its field. -/
def ReadsOwnFields (b : Build) (lower : List Char → List Char) (table : List ParserInst)
    (inst : ParserInst) : Prop :=
  ∃ out skeleton, writeRust b lower table = .ok out ∧
    skeletonOf table out inst.name = some skeleton ∧
    ∀ deposits, Deposits inst deposits → ∀ word, ∃ vars,
      Handler.apply skeleton (depositAll word deposits) = some vars ∧
      ∀ p ∈ deposits, (vars p.1.name).map BitVec.toNat = some p.2

/-! ## What a skeleton reads for another entry -/

/-- The generator gets through the table: every opcode field has two ranges, and the masks of
the conditions and of the skeletons that are written can be computed. -/
structure Generable (b : Build) (table : List ParserInst) : Prop where
  opcode : ∀ inst ∈ table, ∀ f, inst.opcodeField = some f → f.bits.length = 2
  conditions : ∀ inst ∈ table, inst.opcodeField.isSome = true →
    ∀ f ∈ inst.fixedFields, Maskable b f.bits
  skeletons : ∀ inst, Written table inst → ∀ f ∈ inst.fields, Maskable b f.bits

/-- The variable fields are made of distinct bits of the word. -/
structure SeparateFields (inst : ParserInst) : Prop where
  nodup : (inst.fields.flatMap fun f => fieldPositions f.bits).Nodup
  inWord : ∀ p ∈ inst.fields.flatMap fun f => fieldPositions f.bits, p < 128

/-- The expression for the ranges compiles: every range starts in the word and is shifted to a
place in it. -/
def Expressible (ranges : List (UInt64 × UInt64)) : Prop :=
  (∀ r ∈ ranges, r.1.toNat < 128) ∧ (ranges.map width).tail.sum < 128

/-- The bit that the expression for the ranges shifts to a place of its value: the mask of a
range of 64 bits or more, which only a release build computes, counts them modulo 64. -/
def sourceBit : List (UInt64 × UInt64) → ℕ → Option ℕ
  | [], _ => none
  | r :: ranges, i =>
    let place := (ranges.map width).sum
    if i < place then sourceBit ranges i
    else if i - place < width r % 64 then some (r.1.toNat + (i - place)) else none

/-- The expression for the ranges reads, place by place, the bits of the word that the field
has. -/
def ReadsBits (ranges : List (UInt64 × UInt64)) (f : ParserField) : Prop :=
  ∀ i < 128, (sourceBit ranges i).filter (· < 128) = (fieldPositions f.bits)[i]?

/-- The last of the fields with a name. -/
def lastNamed (fields : List ParserField) (name : List Char) : Option ParserField :=
  fields.reverse.find? fun f => f.name = name

/-- The variable fields in the order of a skeleton: without the empty ones, by first bit. -/
def skeletonFields (inst : ParserInst) : List ParserField :=
  (removeEmpty inst.name [] inst.fields).2.insertionSort fun f g => firstBit f ≤ firstBit g

/-- The skeleton of the first instruction compiles, and for every variable field of the second
its last field with this name reads the same bits. -/
structure SharesFields (first inst : ParserInst) : Prop where
  compiles : ∀ f ∈ first.fields, Expressible f.bits
  fields : ∀ f ∈ inst.fields, f.name ≠ [] ∧
    ∃ g, lastNamed (skeletonFields first) f.name = some g ∧ ReadsBits g.bits f

end Oboromi.Interface.DecoderGenerator
