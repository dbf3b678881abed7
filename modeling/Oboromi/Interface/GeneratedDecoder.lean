import Oboromi.Lib.FirstMatch
import Oboromi.Model.DecoderGenerator

/-!
# The meaning of a generated decoder

A condition is an expression over the 128-bit instruction word, and an arm tests its one
condition; two conditions written one after the other are no Rust expression, so a decoder
with such an arm does not compile.  `translateWord` takes the first arm whose test holds.

An instruction table is what the generator's own parser hands over: bit ranges that add up to
the bits of their field, an opcode field that holds the opcode of its instruction, and the same
two opcode ranges throughout.  Whether the generator gets through a table, and whether its text
compiles, depends on how wide the ranges are and where they start (`Writable`).
-/

set_option autoImplicit false

namespace Oboromi.Interface.DecoderGenerator

open Oboromi.Lib
open Oboromi.Model.DecoderGenerator

/-! ## Running a decoder -/

/-- The value of one range of an expression; a shift by 128 or more does not compile. -/
def evalRange (inst : BitVec 128) (e : RangeExpr) : Option (BitVec 128) :=
  if e.start.toNat < 128 ∧ e.place.toNat < 128 then
    some (((inst >>> e.start.toNat) &&& BitVec.ofNat 128 e.mask.toNat) <<< e.place.toNat)
  else none

/-- The value of ranges joined by `|`, from what stands to their left. -/
def evalFrom (inst : BitVec 128) (left : BitVec 128) : List RangeExpr → Option (BitVec 128)
  | [] => some left
  | e :: exprs => do
    let v ← evalRange inst e
    evalFrom inst (left ||| v) exprs

/-- The value of a merged field; without a range it is the unit value, no number. -/
def evalMerged (inst : BitVec 128) (exprs : List RangeExpr) : Option (BitVec 128) :=
  if exprs = [] then none else evalFrom inst 0 exprs

/-- The truth value of a condition. -/
def evalCondition (inst : BitVec 128) (c : Condition) : Option Bool :=
  (evalMerged inst c.merged).map fun v => v == BitVec.ofNat 128 c.value.toNat

/-- The test of an arm. -/
def evalArm (inst : BitVec 128) (arm : Arm) : Option Bool :=
  match arm.conditions with
  | [c] => evalCondition inst c
  | _ => none

/-- The handler a decoder calls for a word, if any; `none` for a decoder that does not
compile. -/
def translateWord (out : Output) (inst : BitVec 128) : Option (Option (List Char)) :=
  (firstMatch (evalArm inst) out.arms).map (Option.map Arm.handler)

/-! ## Instruction tables -/

/-- The number of bits of a range. -/
def width (r : UInt64 × UInt64) : ℕ := r.2.toNat - r.1.toNat + 1

/-- The bits of a word in a range. -/
def rangeBits (inst : BitVec 128) (r : UInt64 × UInt64) : ℕ :=
  inst.toNat / 2 ^ r.1.toNat % 2 ^ width r

/-- The bits of a word in a list of ranges, the first range most significant. -/
def fieldBits (inst : BitVec 128) (ranges : List (UInt64 × UInt64)) : ℕ :=
  ranges.foldl (fun high r => high * 2 ^ width r + rangeBits inst r) 0

/-- The ranges of a field are in order and make up all of its bits. -/
structure FieldFits (f : ParserField) : Prop where
  ordered : ∀ r ∈ f.bits, r.1 ≤ r.2
  total : f.totalBits.toNat = (f.bits.map width).sum

/-- An instruction as the generator's parser returns it. -/
structure InstFits (inst : ParserInst) : Prop where
  fields : ∀ f ∈ inst.fixedFields ++ inst.fields, FieldFits f
  fixed : ∀ f ∈ inst.fixedFields, f.value.isSome = true
  opcode : ∀ f, inst.opcodeField = some f → f.value = some inst.op

/-- An instruction table whose opcode fields have the given two ranges. -/
structure IsTable (first second : UInt64 × UInt64) (table : List ParserInst) : Prop where
  fits : ∀ inst ∈ table, InstFits inst
  opcodeBits : ∀ inst ∈ table, ∀ f, inst.opcodeField = some f → f.bits = [first, second]

/-! ## What can be written -/

/-- Every mask of the ranges can be computed: the shift of a debug build panics from 64 bits
on, the one of a release build takes the width modulo 64. -/
def Maskable (b : Build) (ranges : List (UInt64 × UInt64)) : Prop :=
  b = .debug → ∀ r ∈ ranges, width r ≤ 63

/-- The instruction is the first of its name among those with an opcode field, and the one
whose handler is written. -/
def Written (table : List ParserInst) (inst : ParserInst) : Prop :=
  (table.find? fun j => j.opcodeField.isSome && decide (j.name = inst.name)) = some inst

/-- The generator gets through the table, and the text it writes compiles as far as the opcode
ranges go. -/
structure Writable (b : Build) (first second : UInt64 × UInt64) (table : List ParserInst) :
    Prop where
  starts : first.1.toNat < 128 ∧ second.1.toNat < 128
  place : width second < 128
  opcode : Maskable b [first, second]
  handlers : ∀ inst, Written table inst → ∀ f ∈ inst.fields, Maskable b f.bits

/-- The bits of a word in a range that its mask lets through. -/
def maskedBits (inst : BitVec 128) (r : UInt64 × UInt64) : ℕ :=
  inst.toNat / 2 ^ r.1.toNat % 2 ^ (width r % 64)

/-- What the expression for a list of ranges reads from a word: the bits in the ranges, where
no range is wider than 63 bits. -/
def readBits (inst : BitVec 128) (ranges : List (UInt64 × UInt64)) : ℕ :=
  ranges.foldl (fun high r => high * 2 ^ width r + maskedBits inst r) 0

/-! ## Dispatch -/

/-- The generator writes a decoder that calls the instruction's own handler for the word. -/
def CallsOwnHandler (b : Build) (lower : List Char → List Char) (table : List ParserInst)
    (inst : ParserInst) (word : BitVec 128) : Prop :=
  ∃ out, writeRust b lower table = .ok out ∧
    translateWord out word = some (some (handlerName lower inst))

/-- The instruction has an opcode field, with the given opcode. -/
def HasOpcode (op : UInt64) (inst : ParserInst) : Prop :=
  inst.opcodeField.isSome = true ∧ inst.op = op

instance (op : UInt64) (inst : ParserInst) : Decidable (HasOpcode op inst) :=
  inferInstanceAs (Decidable (_ ∧ _))

/-- No instruction with an opcode field has a second fixed field. -/
def OpcodesOnly (table : List ParserInst) : Prop :=
  ∀ inst ∈ table, inst.opcodeField.isSome = true → inst.fixedFields.length = 1

/-- The first name, in alphabetical order, among the instructions with the opcode has the
instruction's handler. -/
def FirstOfOpcode (lower : List Char → List Char) (table : List ParserInst) (op : UInt64)
    (inst : ParserInst) : Prop :=
  ∃ j ∈ table, HasOpcode op j ∧ (∀ k ∈ table, HasOpcode op k → j.name ≤ k.name) ∧
    handlerName lower j = handlerName lower inst

end Oboromi.Interface.DecoderGenerator
