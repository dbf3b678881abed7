import Oboromi.Analysis.EmitterRuns
import Oboromi.Interface.ShaderStream

/-!
# What initialisation leaves

`init` is a list of declarations (`initDecls`): 13 scalar types, 36 vector types, the pointer
type and one variable for each register.  Each takes the next id, appends one instruction and
keeps the id somewhere in the decoder, or nowhere.  So what `init` appends can be read off the
list (`declareAll_ir`), and the register variables are its last 254 ids, in order.
-/

set_option autoImplicit false

namespace Oboromi.Analysis.Sm86

open Oboromi.Lib
open Oboromi.Model.Spirv
open Oboromi.Model.Sm86
open Oboromi.Interface.Spirv
open Oboromi.Interface.Sm86
open Oboromi.Analysis.Spirv

/-- A fault of the emitter is one of the decoder. -/
theorem onIr_run_error {α : Type} {x : Sys Emitter α} {d : Decoder} {e : Fault} {ir : Emitter}
    (h : x.run d.ir = (.error e, ir)) : (onIr x).run d = (.error e, { d with ir := ir }) := by
  change ((x.run d.ir).1, { d with ir := (x.run d.ir).2 }) = _
  rw [h]

/-- What the emitter does, the decoder does to its emitter. -/
theorem onIr_run_ok {α : Type} {x : Sys Emitter α} {d : Decoder} {a : α} {ir : Emitter}
    (h : x.run d.ir = (.ok a, ir)) : (onIr x).run d = (.ok a, { d with ir := ir }) := by
  change ((x.run d.ir).1, { d with ir := (x.run d.ir).2 }) = _
  rw [h]

/-! ## Ids -/

/-- The counter after an id was taken. -/
theorem toNat_succ {n : UInt32} (h : n.toNat + 1 < 2 ^ 32) : (n + 1).toNat = n.toNat + 1 :=
  (UInt32.toNat_add n 1).trans (Nat.mod_eq_of_lt h)

/-- The id after some more were taken. -/
def idAt (next : UInt32) : ℕ → UInt32
  | 0 => next
  | k + 1 => idAt (next + 1) k

/-- The `k`-th id from here on, in words of 32 bits. -/
theorem idAt_eq (next : UInt32) (k : ℕ) : idAt next k = next + UInt32.ofNat k := by
  induction k generalizing next with
  | zero => exact (UInt32.add_zero next).symm
  | succ k ih =>
    rw [idAt, ih, UInt32.add_assoc, UInt32.add_comm 1, UInt32.ofNat_add]
    rfl

/-- Ids are counted on. -/
theorem idAt_add (next : UInt32) (j k : ℕ) : idAt (idAt next j) k = idAt next (j + k) := by
  rw [idAt_eq, idAt_eq, idAt_eq, UInt32.ofNat_add, UInt32.add_assoc]

/-- The number of an id, where the counter may wrap. -/
theorem toNat_idAt (next : UInt32) (k : ℕ) : (idAt next k).toNat = (next.toNat + k) % 2 ^ 32 := by
  rw [idAt_eq, UInt32.toNat_add, UInt32.toNat_ofNat', Nat.add_mod_mod]

/-- Ids that were taken in one go are different. -/
theorem idAt_injOn {next : UInt32} {j k : ℕ} (hj : j < 2 ^ 32) (hk : k < 2 ^ 32)
    (h : idAt next j = idAt next k) : j = k := by
  have hnat := congrArg UInt32.toNat h
  have hnext := next.toNat_lt
  rw [toNat_idAt, toNat_idAt] at hnat
  omega

/-- There is room for `k` more ids, or the counter may wrap. -/
def Room (build : Build) (next : UInt32) (k : ℕ) : Prop :=
  build = .release ∨ next.toNat + k < 2 ^ 32

section Room

variable {build : Build} {n : UInt32} {j k : ℕ}

/-- There is always room for no id. -/
theorem room_zero (build : Build) (n : UInt32) : Room build n 0 := .inr n.toNat_lt

/-- There is room for some ids and then for more. -/
theorem room_add_iff : Room build n (j + k) ↔ Room build n j ∧ Room build (idAt n j) k := by
  unfold Room
  rw [toNat_idAt]
  constructor
  · rintro (hrelease | hroom)
    · exact ⟨.inl hrelease, .inl hrelease⟩
    · rw [Nat.mod_eq_of_lt (by omega)]
      exact ⟨.inr (by omega), .inr (by omega)⟩
  · rintro ⟨hrelease | hfirst, hrest⟩
    · exact .inl hrelease
    · rw [Nat.mod_eq_of_lt hfirst] at hrest
      apply hrest.imp_right
      intro hroom
      omega

end Room

/-! ## Emission -/

/-- The decoder after emitting some instructions. -/
def extend (d : Decoder) (insts : List Inst) (next : UInt32) : Decoder :=
  { d with ir := { d.ir with
      words := d.ir.words ++ (insts.map Inst.words).flatten
      nextId := next } }

/-- Appending twice is appending both. -/
theorem extend_extend (d : Decoder) (a b : List Inst) (n n' : UInt32) :
    extend (extend d a n) b n' = extend d (a ++ b) n' := by
  unfold extend
  dsimp only
  rw [List.append_assoc, ← List.flatten_append, ← List.map_append]

/-- Appending nothing changes nothing. -/
theorem extend_nil (d : Decoder) : extend d [] d.ir.nextId = d := by
  unfold extend
  rw [List.map_nil, List.flatten_nil, List.append_nil]

/-- What the emitter becomes does not depend on the rest of the decoder. -/
theorem extend_ir_congr {d e : Decoder} (h : d.ir = e.ir) (insts : List Inst) (next : UInt32) :
    (extend d insts next).ir = (extend e insts next).ir := by
  unfold extend
  dsimp only
  rw [h]

/-- An id is taken while there is one. -/
theorem onIr_emitResult_returns (build : Build) (i : UInt32 → Inst) (d : Decoder) :
    (onIr (emitResult build i)).Returns d (Room build d.ir.nextId 1) d.ir.nextId
      (extend d [i d.ir.nextId] (d.ir.nextId + 1)) := by
  by_cases hroom : Room build d.ir.nextId 1
  · refine Sys.returns_of_run ?_ hroom
    rw [onIr_run_ok (emitResult_run i hroom)]
    simp [extend]
  · unfold Room at hroom
    rw [not_or] at hroom
    have hdebug : build = .debug := by
      cases build with
      | debug => rfl
      | release => exact absurd rfl hroom.1
    subst hdebug
    have hpanics : (emitResult .debug i).run d.ir = _ :=
      Sys.run_bind_error (allocId_panics hroom.2) _
    exact Sys.returns_of_error (onIr_run_error hpanics) (not_or.mpr hroom)

/-- A plain instruction is always emitted. -/
theorem onIr_inst_returns (i : Inst) (d : Decoder) :
    (onIr (inst i.opcode i.operands)).Returns d True () (extend d [i] d.ir.nextId) := by
  refine Sys.returns_of_run ?_ trivial
  rw [onIr_run_ok (inst_run i d.ir)]
  simp [extend]

/-! ## Declarations -/

/-- A declaration of `init`: its instruction, given the id, and where the id is kept. -/
structure Declaration where
  inst : UInt32 → Inst
  keep : UInt32 → Decoder → Decoder
  keep_ir : ∀ id d, (keep id d).ir = d.ir

/-- The decoder after a declaration. -/
def Declaration.declare (c : Declaration) (d : Decoder) : Decoder :=
  c.keep d.ir.nextId (extend d [c.inst d.ir.nextId] (d.ir.nextId + 1))

/-- The decoder after some declarations. -/
def declareAll (d : Decoder) (cs : List Declaration) : Decoder :=
  cs.foldl (fun d c => c.declare d) d

/-- The instructions of some declarations. -/
def declared (next : UInt32) : List Declaration → List Inst
  | [] => []
  | c :: cs => c.inst next :: declared (next + 1) cs

/-- A declaration appends its instruction and takes an id. -/
theorem declare_ir (c : Declaration) (d : Decoder) :
    (c.declare d).ir = (extend d [c.inst d.ir.nextId] (d.ir.nextId + 1)).ir :=
  c.keep_ir _ _

/-- What declarations do to the emitter. -/
theorem declareAll_ir (d : Decoder) (cs : List Declaration) :
    (declareAll d cs).ir =
      (extend d (declared d.ir.nextId cs) (idAt d.ir.nextId cs.length)).ir := by
  induction cs generalizing d with
  | nil => exact congrArg Decoder.ir (extend_nil d).symm
  | cons c cs ih =>
    have hfirst := declare_ir c d
    have hnext : (c.declare d).ir.nextId = d.ir.nextId + 1 := congrArg Emitter.nextId hfirst
    have hrest := ih (c.declare d)
    rw [hnext] at hrest
    exact hrest.trans ((extend_ir_congr hfirst _ _).trans
      (congrArg Decoder.ir (extend_extend d _ _ _ _)))

/-- Declarations are made one list after the other. -/
theorem declareAll_append (d : Decoder) (as bs : List Declaration) :
    declareAll d (as ++ bs) = declareAll (declareAll d as) bs := List.foldl_append

/-- Every declaration takes one id. -/
theorem declareAll_nextId (d : Decoder) (cs : List Declaration) :
    (declareAll d cs).ir.nextId = idAt d.ir.nextId cs.length :=
  congrArg Emitter.nextId (declareAll_ir d cs)

/-- What neither the emitter nor a declaration's own place matters to stays. -/
theorem declareAll_keeps {β : Type} (f : Decoder → β)
    (hextend : ∀ d insts next, f (extend d insts next) = f d) {cs : List Declaration}
    (hkeep : ∀ c ∈ cs, ∀ id d, f (c.keep id d) = f d) (d : Decoder) :
    f (declareAll d cs) = f d := by
  induction cs generalizing d with
  | nil => rfl
  | cons c cs ih =>
    have hfirst : f (c.declare d) = f d := (hkeep c List.mem_cons_self _ _).trans (hextend d _ _)
    have hrest := ih (fun c' hc' => hkeep c' (List.mem_cons_of_mem c hc')) (c.declare d)
    exact hrest.trans hfirst

/-- What was declared is a declaration's instruction under some id. -/
theorem mem_declared {next : UInt32} {cs : List Declaration} {i : Inst}
    (hi : i ∈ declared next cs) : ∃ c ∈ cs, ∃ id, i = c.inst id := by
  induction cs generalizing next with
  | nil => cases hi
  | cons c cs ih =>
    rcases List.mem_cons.mp hi with rfl | hrest
    · exact ⟨c, List.mem_cons_self, next, rfl⟩
    · obtain ⟨c', hc', hid⟩ := ih hrest
      exact ⟨c', List.mem_cons_of_mem c hc', hid⟩

/-- The instruction at a position of the list. -/
theorem getElem?_declared (next : UInt32) (cs : List Declaration) (k : ℕ) :
    (declared next cs)[k]? = cs[k]?.map fun c => c.inst (idAt next k) := by
  induction cs generalizing next k with
  | nil => rfl
  | cons c cs ih =>
    cases k with
    | zero => rfl
    | succ k => exact ih (next + 1) k

/-! ## Programs that declare -/

section Declares

variable {build : Build} {d : Decoder}

/-- Run from `d`, the program makes the declarations, if there are ids for them. -/
def Declares (build : Build) (d : Decoder) (cs : List Declaration) (x : Sys Decoder Unit) : Prop :=
  x.Returns d (Room build d.ir.nextId cs.length) () (declareAll d cs)

/-- A type is declared and its id is kept. -/
theorem declares_one {x : Sys Emitter UInt32} {c : Declaration} (hx : x = emitResult build c.inst) :
    Declares build d [c] (onIr x >>= fun id => Sys.modify (c.keep id)) := by
  have hemit := onIr_emitResult_returns build c.inst d
  have hkeep : (Sys.modify (c.keep d.ir.nextId)).Returns
      (extend d [c.inst d.ir.nextId] (d.ir.nextId + 1)) True () (c.declare d) :=
    Sys.returns_of_run (Sys.run_modify _ _) trivial
  rw [hx]
  exact (hemit.bind hkeep).of_iff (iff_of_eq (and_true _)).symm

/-- Two computations that declare, one after the other. -/
theorem Declares.bind {x y : Sys Decoder Unit} {as bs : List Declaration}
    (hx : Declares build d as x) (hy : Declares build (declareAll d as) bs y) :
    Declares build d (as ++ bs) (x >>= fun _ => y) := by
  unfold Declares at hy ⊢
  rw [declareAll_append, List.length_append]
  rw [declareAll_nextId] at hy
  exact (Sys.Returns.bind hx hy).of_iff room_add_iff

/-- A declaration whose id is kept, and then others. -/
theorem Declares.cons {x : Sys Emitter UInt32} {c : Declaration} {rest : Sys Decoder Unit}
    {cs : List Declaration} (hx : x = emitResult build c.inst)
    (hrest : Declares build (c.declare d) cs rest) :
    Declares build d (c :: cs)
      (onIr x >>= fun id => Sys.modify (c.keep id) >>= fun _ => rest) := by
  rw [← Sys.bind_assoc]
  exact (declares_one hx).bind hrest

/-- A computation that reads the state first. -/
theorem Declares.get {f : Decoder → Sys Decoder Unit} {cs : List Declaration}
    (h : Declares build d cs (f d)) : Declares build d cs (Sys.get >>= f) := h

/-- A loop whose body declares the same whatever was declared before, as long as `I` holds. -/
theorem Declares.forM {α : Type} {g : α → Sys Decoder Unit} {f : α → List Declaration}
    (I : Decoder → Prop) {l : List α} (hbody : ∀ a ∈ l, ∀ d, I d → Declares build d (f a) (g a))
    (hkeep : ∀ a ∈ l, ∀ d, I d → I (declareAll d (f a))) (h : I d) :
    Declares build d (l.flatMap f) (l.forM g) := by
  induction l generalizing d with
  | nil => exact Sys.returns_of_run rfl (room_zero build _)
  | cons a l ih =>
    have hhead := hbody a List.mem_cons_self d h
    have hstill := hkeep a List.mem_cons_self d h
    exact hhead.bind (ih (fun b hb => hbody b (List.mem_cons_of_mem a hb))
      (fun b hb => hkeep b (List.mem_cons_of_mem a hb)) hstill)

end Declares

/-! ## The declarations of initialisation -/

/-- The scalar types. -/
def scalars : List Declaration :=
  [⟨fun r => ⟨19, [r]⟩, fun id d => { d with typeVoid := id }, fun _ _ => rfl⟩,
    ⟨fun r => ⟨21, [r, 8, 0]⟩, fun id d => { d with typeU8 := put d.typeU8 scalarEntry id },
      fun _ _ => rfl⟩,
    ⟨fun r => ⟨21, [r, 16, 0]⟩, fun id d => { d with typeU16 := put d.typeU16 scalarEntry id },
      fun _ _ => rfl⟩,
    ⟨fun r => ⟨21, [r, 32, 0]⟩, fun id d => { d with typeU32 := put d.typeU32 scalarEntry id },
      fun _ _ => rfl⟩,
    ⟨fun r => ⟨21, [r, 64, 0]⟩, fun id d => { d with typeU64 := put d.typeU64 scalarEntry id },
      fun _ _ => rfl⟩,
    ⟨fun r => ⟨21, [r, 8, 1]⟩, fun id d => { d with typeS8 := put d.typeS8 scalarEntry id },
      fun _ _ => rfl⟩,
    ⟨fun r => ⟨21, [r, 16, 1]⟩, fun id d => { d with typeS16 := put d.typeS16 scalarEntry id },
      fun _ _ => rfl⟩,
    ⟨fun r => ⟨21, [r, 32, 1]⟩, fun id d => { d with typeS32 := put d.typeS32 scalarEntry id },
      fun _ _ => rfl⟩,
    ⟨fun r => ⟨21, [r, 64, 1]⟩, fun id d => { d with typeS64 := put d.typeS64 scalarEntry id },
      fun _ _ => rfl⟩,
    ⟨fun r => ⟨22, [r, 16]⟩, fun id d => { d with typeF16 := put d.typeF16 scalarEntry id },
      fun _ _ => rfl⟩,
    ⟨fun r => ⟨22, [r, 32]⟩, fun id d => { d with typeF32 := put d.typeF32 scalarEntry id },
      fun _ _ => rfl⟩,
    ⟨fun r => ⟨22, [r, 64]⟩, fun id d => { d with typeF64 := put d.typeF64 scalarEntry id },
      fun _ _ => rfl⟩,
    ⟨fun r => ⟨20, [r]⟩, fun id d => { d with typeBool := put d.typeBool scalarEntry id },
      fun _ _ => rfl⟩]

/-- A vector type, whose id is dropped. -/
def vector (i : Fin 5) (types : TypeIds) : Declaration :=
  ⟨fun r => ⟨23, [r, types.get i, UInt32.ofNat i]⟩, fun _ d => d, fun _ _ => rfl⟩

/-- The entries of a table that belong to vector types. -/
def vectorEntries : List (Fin 5) := (List.finRange 5).drop 2

/-- The entries for two, three and four components. -/
theorem vectorEntries_eq : vectorEntries = [2, 3, 4] := rfl

/-- The vector types over the entries of some tables. -/
def vectors (tables : List TypeIds) : List Declaration :=
  vectorEntries.flatMap fun i => tables.map (vector i)

/-- The pointer type. -/
def pointer (u32 : UInt32) : Declaration :=
  ⟨fun r => ⟨32, [r, 7, u32]⟩, fun id d => { d with typePtrU32 := id }, fun _ _ => rfl⟩

/-- The variable of a register. -/
def register (ptr : UInt32) (r : Fin MAX_REG_COUNT) : Declaration :=
  ⟨fun id => ⟨59, [ptr, id, 7]⟩, fun id d => { d with regs := put d.regs r id }, fun _ _ => rfl⟩

/-- The declarations of `init` behind the scalar types. -/
def laterDecls (d : Decoder) : List Declaration :=
  vectors (typeTables d) ++
    pointer (idAt d.ir.nextId 3) ::
      (List.finRange MAX_REG_COUNT).map (register (idAt d.ir.nextId 49))

/-- The declarations of `init`. -/
def initDecls (d : Decoder) : List Declaration := scalars ++ laterDecls d

/-- Behind the scalar types are vector types, the pointer type and registers. -/
theorem laterDecls_cases {d : Decoder} {c : Declaration} (hc : c ∈ laterDecls d) :
    (∃ i : Fin 5, 2 ≤ i.val ∧ ∃ types ∈ typeTables d, c = vector i types) ∨
      (∃ u32, c = pointer u32) ∨ ∃ ptr r, c = register ptr r := by
  unfold laterDecls at hc
  rw [List.mem_append, List.mem_cons] at hc
  rcases hc with hvector | rfl | hregister
  · obtain ⟨i, hi, hvector⟩ := List.mem_flatMap.mp hvector
    obtain ⟨types, htypes, rfl⟩ := List.mem_map.mp hvector
    have hentry : ∀ i ∈ vectorEntries, 2 ≤ i.val := by decide
    exact .inl ⟨i, hentry i hi, types, htypes, rfl⟩
  · exact .inr (.inl ⟨_, rfl⟩)
  · obtain ⟨r, -, rfl⟩ := List.mem_map.mp hregister
    exact .inr (.inr ⟨_, r, rfl⟩)

/-- What the scalar types are declared by. -/
theorem scalars_opcode {c : Declaration} (hc : c ∈ scalars) (id : UInt32) :
    (c.inst id).opcode ∈ ([19, 20, 21, 22] : List UInt32) ∧ (c.inst id).operands.length ≤ 3 := by
  simp only [scalars, List.mem_cons, List.not_mem_nil, or_false] at hc
  rcases hc with rfl | rfl | rfl | rfl | rfl | rfl | rfl | rfl | rfl | rfl | rfl | rfl | rfl
  all_goals simp

section Stages

variable (build : Build) (d : Decoder)

/-- The integer types pass their assertions. -/
theorem emitTypeInt_result {width sign : UInt32}
    (hwidth : width = 8 ∨ width = 16 ∨ width = 32 ∨ width = 64) (hsign : sign ≤ 1) :
    emitTypeInt build width sign = emitResult build fun r => ⟨21, [r, width, sign]⟩ :=
  emitTypeInt_eq (.inr (decide_eq_true hwidth)) (.inr (decide_eq_true hsign))

/-- The float types pass their assertion. -/
theorem emitTypeFloat_result {width : UInt32} (h : width = 16 ∨ width = 32 ∨ width = 64) :
    emitTypeFloat build width = emitResult build fun r => ⟨22, [r, width]⟩ :=
  emitTypeFloat_eq (.inr (decide_eq_true h))

/-- The first statements of `init` declare the scalar types. -/
theorem initScalars_declares : Declares build d scalars (initScalars build) := by
  unfold initScalars scalars
  refine Declares.cons rfl ?_
  refine Declares.cons (emitTypeInt_result build (by decide) (by decide)) ?_
  refine Declares.cons (emitTypeInt_result build (by decide) (by decide)) ?_
  refine Declares.cons (emitTypeInt_result build (by decide) (by decide)) ?_
  refine Declares.cons (emitTypeInt_result build (by decide) (by decide)) ?_
  refine Declares.cons (emitTypeInt_result build (by decide) (by decide)) ?_
  refine Declares.cons (emitTypeInt_result build (by decide) (by decide)) ?_
  refine Declares.cons (emitTypeInt_result build (by decide) (by decide)) ?_
  refine Declares.cons (emitTypeInt_result build (by decide) (by decide)) ?_
  refine Declares.cons (emitTypeFloat_result build (by decide)) ?_
  refine Declares.cons (emitTypeFloat_result build (by decide)) ?_
  refine Declares.cons (emitTypeFloat_result build (by decide)) ?_
  exact declares_one rfl

/-- What the tables hold after the scalar types: each its own at 1, and the rest as before. -/
theorem typeTables_scalars :
    typeTables (declareAll d scalars) =
      List.zipWith (fun types k => put types 1 (idAt d.ir.nextId (k + 1)))
        (typeTables d) (List.range 12) := rfl

/-- Declarations that keep no type leave the tables. -/
theorem typeTables_declareAll {cs : List Declaration}
    (h : ∀ c ∈ cs, ∀ id d, typeTables (c.keep id d) = typeTables d) :
    typeTables (declareAll d cs) = typeTables d :=
  declareAll_keeps typeTables (fun _ _ _ => rfl) h d

/-- The ids of vector types are dropped. -/
theorem vectors_keep {tables : List TypeIds} {c : Declaration} (hc : c ∈ vectors tables)
    (id : UInt32) : c.keep id d = d := by
  obtain ⟨i, -, hi⟩ := List.mem_flatMap.mp hc
  obtain ⟨types, -, rfl⟩ := List.mem_map.mp hi
  rfl

/-- The integer type is the fourth that is declared. -/
theorem u32_scalars : (declareAll d scalars).u32 = idAt d.ir.nextId 3 :=
  get_put_self d.typeU32 1 (idAt d.ir.nextId 3)

/-- A vector type does not depend on the scalar entry of its table. -/
theorem vector_put {i : Fin 5} (h : i ≠ 1) (types : TypeIds) (id : UInt32) :
    vector i (put types 1 id) = vector i types := by
  unfold vector
  rw [get_put_of_ne types id h]

/-- The scalar types leave the entries that the vector types are declared over. -/
theorem vectors_scalars : vectors (typeTables (declareAll d scalars)) = vectors (typeTables d) := by
  apply List.flatMap_congr
  intro i hi
  have hne : i ≠ 1 := by
    rintro rfl
    simp [vectorEntries_eq] at hi
  rw [typeTables_scalars, List.map_zipWith]
  simp only [vector_put hne]
  rfl

/-- The two loops of `init` declare the vector types. -/
theorem initVectors_declares :
    Declares build d (vectors (typeTables d)) (initVectors build) := by
  unfold initVectors vectors
  rw [vectorEntries_eq]
  apply Declares.forM (fun e => typeTables e = typeTables d)
  · intro i hi e htables
    have hcounts : ∀ i ∈ ([2, 3, 4] : List (Fin 5)), UInt32.ofNat i ≥ 2 ∧ UInt32.ofNat i ≤ 16 := by
      decide
    have hbody : ∀ types ∈ typeTables e, ∀ e', True →
        Declares build e' [vector i types]
          (onIr (emitTypeVector build (types.get i) (UInt32.ofNat i)) >>= fun _ => pure ()) := by
      intro types _ e' _
      exact declares_one (c := vector i types)
        (emitTypeVector_eq (.inr (decide_eq_true (hcounts i hi))))
    have hloop := Declares.forM (fun _ => True) hbody (fun _ _ _ _ => trivial) trivial (d := e)
    rw [← htables, List.map_eq_flatMap]
    exact Declares.get hloop
  · intro i hi e htables
    rw [← htables]
    apply typeTables_declareAll
    intro c hc id d'
    obtain ⟨types, -, rfl⟩ := List.mem_map.mp hc
    rfl
  · rfl

/-- The next statement declares the pointer type. -/
theorem initPointer_declares : Declares build d [pointer d.u32] (initPointer build) :=
  Declares.get (declares_one rfl)

/-- The last loop declares the registers: by induction over them. -/
theorem initRegs_declares (rs : List (Fin MAX_REG_COUNT)) :
    Declares build d (rs.map (register d.typePtrU32)) (rs.forM (initReg build)) := by
  rw [List.map_eq_flatMap]
  apply Declares.forM (fun e => e.typePtrU32 = d.typePtrU32)
  · intro r _ e hptr
    rw [← hptr]
    exact Declares.get (declares_one rfl)
  · intro r _ e hptr
    exact hptr
  · rfl

/-- `init` makes its declarations. -/
theorem init_declares : Declares build d (initDecls d) (init build) := by
  have hu32 : (declareAll (declareAll d scalars) (vectors (typeTables d))).u32 =
      idAt d.ir.nextId 3 := by
    have hkeep : ∀ c ∈ vectors (typeTables d), ∀ id e, (c.keep id e).u32 = e.u32 :=
      fun c hc id e => congrArg Decoder.u32 (vectors_keep e hc id)
    have hsame := declareAll_keeps Decoder.u32 (fun _ _ _ => rfl) hkeep (declareAll d scalars)
    exact hsame.trans (u32_scalars d)
  have hptr : ((pointer (idAt d.ir.nextId 3)).declare
      (declareAll (declareAll d scalars) (vectors (typeTables d)))).typePtrU32 =
        idAt d.ir.nextId 49 := by
    change (declareAll (declareAll d scalars) (vectors (typeTables d))).ir.nextId = _
    rw [declareAll_nextId, declareAll_nextId, idAt_add]
    rfl
  have hvectors := initVectors_declares build (declareAll d scalars)
  rw [vectors_scalars] at hvectors
  have hpointer := initPointer_declares build
    (declareAll (declareAll d scalars) (vectors (typeTables d)))
  rw [hu32] at hpointer
  have hregs := initRegs_declares build ((pointer (idAt d.ir.nextId 3)).declare
    (declareAll (declareAll d scalars) (vectors (typeTables d)))) (List.finRange MAX_REG_COUNT)
  rw [hptr] at hregs
  exact (initScalars_declares build d).bind (hvectors.bind (hpointer.bind hregs))

end Stages

/-! ## What initialisation leaves -/

/-- The decoder after `init`. -/
def initialised (d : Decoder) : Decoder := declareAll d (initDecls d)

section Initialised

variable (d : Decoder)

/-- Only the scalar types are kept in the tables. -/
theorem laterDecls_keep_tables {c : Declaration} (hc : c ∈ laterDecls d) (id : UInt32)
    (e : Decoder) : typeTables (c.keep id e) = typeTables e := by
  rcases laterDecls_cases hc with ⟨i, -, types, -, rfl⟩ | ⟨u32, rfl⟩ | ⟨ptr, r, rfl⟩
  · rfl
  · rfl
  · rfl

/-- Every table holds its scalar type at 1, and elsewhere what it held before. -/
theorem typeTables_initialised :
    typeTables (initialised d) =
      List.zipWith (fun types k => put types 1 (idAt d.ir.nextId (k + 1)))
        (typeTables d) (List.range 12) := by
  unfold initialised initDecls
  rw [declareAll_append, typeTables_declareAll _ fun c hc id e => laterDecls_keep_tables d hc id e,
    typeTables_scalars]

/-- The integer type after `init`. -/
theorem u32_initialised : (initialised d).u32 = idAt d.ir.nextId 3 := by
  have htable := congrArg (fun tables : List TypeIds => tables[2]?) (typeTables_initialised d)
  have hu32 : (initialised d).typeU32 = put d.typeU32 1 (idAt d.ir.nextId 3) :=
    Option.some.inj htable
  unfold Decoder.u32
  rw [hu32, get_put_self]

/-- The variables of distinct registers get consecutive ids. -/
theorem declareAll_registers (ptr : UInt32) {rs : List (Fin MAX_REG_COUNT)} (hrs : rs.Nodup)
    (e : Decoder) :
    (∀ r ∉ rs, (declareAll e (rs.map (register ptr))).regs.get r = e.regs.get r) ∧
      ∀ (i : ℕ) (hi : i < rs.length),
        (declareAll e (rs.map (register ptr))).regs.get rs[i] = idAt e.ir.nextId i := by
  induction rs generalizing e with
  | nil => exact ⟨fun _ _ => rfl, fun i hi => absurd hi (Nat.not_lt_zero i)⟩
  | cons r rs ih =>
    rw [List.nodup_cons] at hrs
    obtain ⟨hframe, hids⟩ := ih hrs.2 ((register ptr r).declare e)
    constructor
    · intro r' hr'
      rw [List.mem_cons, not_or] at hr'
      exact (hframe r' hr'.2).trans (get_put_of_ne e.regs e.ir.nextId hr'.1)
    · intro i hi
      cases i with
      | zero => exact (hframe r hrs.1).trans (get_put_self e.regs r e.ir.nextId)
      | succ i => exact hids i (Nat.lt_of_succ_lt_succ hi)

/-- The variable of a register after `init`. -/
theorem regs_initialised (r : Fin MAX_REG_COUNT) :
    (initialised d).regs.get r = idAt d.ir.nextId (50 + r.val) := by
  let before := declareAll d (scalars ++ (vectors (typeTables d) ++ [pointer (idAt d.ir.nextId 3)]))
  have hbefore : initialised d = declareAll before
      ((List.finRange MAX_REG_COUNT).map (register (idAt d.ir.nextId 49))) := by
    rw [← declareAll_append, List.append_assoc, List.append_assoc]
    rfl
  have hnext : before.ir.nextId = idAt d.ir.nextId 50 := declareAll_nextId d _
  have hr : r.val < (List.finRange MAX_REG_COUNT).length := by
    rw [List.length_finRange]
    exact r.isLt
  have hid := (declareAll_registers (idAt d.ir.nextId 49) (List.nodup_finRange MAX_REG_COUNT)
    before).2 r.val hr
  rw [hnext, idAt_add, ← hbefore] at hid
  simp only [List.getElem_finRange] at hid
  exact hid

/-- `init` makes 304 declarations. -/
theorem initDecls_length : (initDecls d).length = 304 := by
  simp [initDecls, laterDecls, scalars, vectors, vectorEntries_eq, typeTables]
  rfl

/-- The counter after `init`. -/
theorem nextId_initialised : (initialised d).ir.nextId = idAt d.ir.nextId 304 := by
  rw [initialised, declareAll_nextId, initDecls_length]

/-- What `init` declares: types, and variables. -/
theorem initDecls_opcode {c : Declaration} (hc : c ∈ initDecls d) (id : UInt32) :
    (c.inst id).opcode ∈ ([19, 20, 21, 22, 23, 32, 59] : List UInt32) ∧
      (c.inst id).operands.length ≤ 3 := by
  rcases List.mem_append.mp hc with hscalar | hlater
  · obtain ⟨hop, hlen⟩ := scalars_opcode hscalar id
    exact ⟨List.mem_append_left [23, 32, 59] hop, hlen⟩
  · rcases laterDecls_cases hlater with ⟨i, -, types, -, rfl⟩ | ⟨u32, rfl⟩ | ⟨ptr, r, rfl⟩
    · simp [vector]
    · simp [pointer]
    · simp [register]

/-- `init` takes 304 ids. -/
theorem init_returns (build : Build) :
    (init build).Returns d (Room build d.ir.nextId 304) () (initialised d) := by
  have hdeclares := init_declares build d
  unfold Declares at hdeclares
  rw [initDecls_length] at hdeclares
  exact hdeclares

/-- Registers have variables of their own. -/
theorem regs_injective : Function.Injective (initialised d).regs.get := by
  intro r r' heq
  rw [regs_initialised, regs_initialised] at heq
  have hr : r.val < 254 := r.isLt
  have hr' : r'.val < 254 := r'.isLt
  have hsum := idAt_injOn (by omega) (by omega) heq
  apply Fin.ext
  omega

variable {d}

/-- The counter after `init` when it did not wrap. -/
theorem toNat_nextId_initialised (h : d.ir.nextId.toNat + 304 < 2 ^ 32) :
    (initialised d).ir.nextId.toNat = d.ir.nextId.toNat + 304 := by
  rw [nextId_initialised, toNat_idAt, Nat.mod_eq_of_lt h]

/-- Their ids were all taken. -/
theorem regs_below (h : d.ir.nextId.toNat + 304 < 2 ^ 32) (r : Fin MAX_REG_COUNT) :
    (initialised d).regs.get r < (initialised d).ir.nextId := by
  have hr : r.val < 254 := r.isLt
  rw [UInt32.lt_iff_toNat_lt, toNat_nextId_initialised h, regs_initialised, toNat_idAt,
    Nat.mod_eq_of_lt (by omega)]
  omega

end Initialised

end Oboromi.Analysis.Sm86
