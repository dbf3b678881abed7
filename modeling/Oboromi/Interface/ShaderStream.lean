import Oboromi.Interface.ShaderRegisters

/-!
# The stream a shader translation leaves

What is asked of the instructions that `init` and the translated instructions append, whatever
the emitter held before: that declarations stand in front of function bodies, and that every id
an instruction uses is the result of an earlier one.
-/

set_option autoImplicit false

namespace Oboromi.Interface.Sm86

open Oboromi.Lib
open Oboromi.Model.Sm86
open Oboromi.Model.Spirv
open Oboromi.Interface.Spirv

/-- The instructions that translate: the implemented ones on registers, and `kill`. -/
def Translatable (inst : BitVec 128) : Prop :=
  Implemented inst ∨ dispatch (opcode inst) = some .kill

/-! ## Layout order -/

/-- `OpType*`, `OpConstant*`, and `OpVariable` outside the storage class of functions. -/
def IsDeclaration (i : Inst) : Prop :=
  19 ≤ i.opcode ∧ i.opcode ≤ 39 ∨ 41 ≤ i.opcode ∧ i.opcode ≤ 52 ∨
    i.opcode = 59 ∧ i.operands[2]? ≠ some 7

/-- `OpNop`, `OpLoad`, `OpStore`, `OpIAdd` and `OpKill`. -/
def IsBody (i : Inst) : Prop :=
  i.opcode = 0 ∨ i.opcode = 61 ∨ i.opcode = 62 ∨ i.opcode = 128 ∨ i.opcode = 252

instance (i : Inst) : Decidable (IsDeclaration i) := inferInstanceAs (Decidable (_ ∨ _ ∨ _))

instance (i : Inst) : Decidable (IsBody i) :=
  inferInstanceAs (Decidable (_ ∨ _ ∨ _ ∨ _ ∨ _))

/-- No declaration after an instruction of a body. -/
def InLayoutOrder (insts : List Inst) : Prop :=
  insts.Pairwise fun i j => IsBody i → ¬ IsDeclaration j

/-- An `al2p` only as the very first instruction, and then only on the zero register. -/
def AddressFirst (insts : List (BitVec 128)) : Prop :=
  ∀ (k : ℕ) (inst : BitVec 128), insts[k]? = some inst →
    dispatch (opcode inst) = some .al2p → k = 0 ∧ field inst 24 8 = 255

/-! ## Ids -/

/-- The words at `<id>` positions, without the result. -/
def usesFrom (rest : Rest) : List Operand → List UInt32 → List UInt32
  | [], ws => rest.idWords ws
  | .string :: ks, ws => usesFrom rest ks (skipString ws)
  | .literal :: ks, _ :: ws => usesFrom rest ks ws
  | .result :: ks, _ :: ws => usesFrom rest ks ws
  | .resultType :: ks, w :: ws => w :: usesFrom rest ks ws
  | .id :: ks, w :: ws => w :: usesFrom rest ks ws
  | _ :: _, [] => []

/-- The ids an instruction uses. -/
def usedIds (i : Inst) : List UInt32 :=
  usesFrom (layout i.opcode).rest (layout i.opcode).required i.operands

/-- Every id that an instruction uses is known, or the result of an earlier one. -/
def UsesKnown : List UInt32 → List Inst → Prop
  | _, [] => True
  | known, i :: insts =>
    (∀ id ∈ usedIds i, id ∈ known) ∧ UsesKnown (known ++ (resultId i).toList) insts

/-- The twelve type tables. -/
def typeTables (d : Decoder) : List TypeIds :=
  [d.typeU8, d.typeU16, d.typeU32, d.typeU64, d.typeS8, d.typeS16, d.typeS32, d.typeS64,
    d.typeF16, d.typeF32, d.typeF64, d.typeBool]

/-- A table has an entry for its scalar type. -/
theorem scalarEntry_lt : 1 < 5 := by decide

/-- Where a table holds its scalar type. -/
abbrev scalarEntry : Fin 5 := ⟨1, scalarEntry_lt⟩

/-- Each table holds at `n` the id of the type of `n` components over its scalar type. -/
def TablesFilled (d : Decoder) (emitted : List Inst) : Prop :=
  ∀ types ∈ typeTables d, ∀ n : Fin 5, 2 ≤ n.val →
    ⟨23, [types.get n, types.get scalarEntry, UInt32.ofNat n]⟩ ∈ emitted

/-- A run of `init` and of a list of instructions uses only ids it obtained, and `init` fills
the type tables. -/
def UsesOwnIds (build : Build) (d₀ : Decoder) (insts : List (BitVec 128)) : Prop :=
  ∃ d d' declared emitted,
    (init build).run d₀ = (.ok (), d) ∧ (translateAll build insts).run d = (.ok (), d') ∧
    appended d₀ d = some declared ∧ appended d₀ d' = some emitted ∧
    TablesFilled d declared ∧ UsesKnown [] emitted

/-- The entries that nothing sets hold, by accident, ids that were taken by the time `init`
reads them: those of two components first, each table in turn. -/
def UnsetEntriesObtained (d : Decoder) : Prop :=
  ∀ (t : ℕ) (types : TypeIds) (n : Fin 5), (typeTables d)[t]? = some types → 2 ≤ n.val →
    ∃ j < 13 + 12 * (n.val - 2) + t, types.get n = d.ir.nextId + UInt32.ofNat j

end Oboromi.Interface.Sm86
