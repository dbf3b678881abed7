import Oboromi.Lib.FixedArray
import Oboromi.Model.Sm86Table
import Oboromi.Model.SpirvMethods

/-!
# The shader decoder

`Decoder` translates 128-bit shader instructions to SPIR-V.  `init` declares the types and
one variable for each of the 254 registers; a handler reads its fields from the instruction
word and emits.  Of the handlers only `al2p`, `nop` and `kill` are implemented; the others
are `todo!()`.  Fields a handler extracts and does not use are left out.
-/

set_option autoImplicit false

namespace Oboromi.Model.Sm86

open Oboromi.Lib
open Oboromi.Model.Spirv

def MAX_REG_COUNT : ℕ := 254

/-- The ids of a scalar type and its vectors, by number of components. -/
abbrev TypeIds := Vector UInt32 5

/-- SOURCE: core/src/gpu/sm86.rs:185-205 -/
structure Decoder where
  ir : Emitter
  typeVoid : UInt32
  typePtrU32 : UInt32
  typeU8 : TypeIds
  typeU16 : TypeIds
  typeU32 : TypeIds
  typeU64 : TypeIds
  typeS8 : TypeIds
  typeS16 : TypeIds
  typeS32 : TypeIds
  typeS64 : TypeIds
  typeF16 : TypeIds
  typeF32 : TypeIds
  typeF64 : TypeIds
  typeBool : TypeIds
  regs : Vector UInt32 MAX_REG_COUNT

/-- The 32-bit integer type. -/
def Decoder.u32 (d : Decoder) : UInt32 := d.typeU32.get 1

/-- A decoder over an emitter, before `init`. -/
def Decoder.zeroed (ir : Emitter) : Decoder where
  ir := ir
  typeVoid := 0
  typePtrU32 := 0
  typeU8 := Vector.replicate 5 0
  typeU16 := Vector.replicate 5 0
  typeU32 := Vector.replicate 5 0
  typeU64 := Vector.replicate 5 0
  typeS8 := Vector.replicate 5 0
  typeS16 := Vector.replicate 5 0
  typeS32 := Vector.replicate 5 0
  typeS64 := Vector.replicate 5 0
  typeF16 := Vector.replicate 5 0
  typeF32 := Vector.replicate 5 0
  typeF64 := Vector.replicate 5 0
  typeBool := Vector.replicate 5 0
  regs := Vector.replicate MAX_REG_COUNT 0

/-- Run a program of the emitter on the decoder's `ir`. -/
def onIr {α : Type} (x : Sys Emitter α) : Sys Decoder α := fun d =>
  match x.run d.ir with
  | (result, ir) => (result, { d with ir := ir })

variable (build : Build)

/-! ## Initialisation -/

/-- The scalar types. -/
def initScalars : Sys Decoder Unit := do
  let void ← onIr (emitTypeVoid build)
  Sys.modify fun d => { d with typeVoid := void }
  let u8 ← onIr (emitTypeInt build 8 0)
  Sys.modify fun d => { d with typeU8 := put d.typeU8 1 u8 }
  let u16 ← onIr (emitTypeInt build 16 0)
  Sys.modify fun d => { d with typeU16 := put d.typeU16 1 u16 }
  let u32 ← onIr (emitTypeInt build 32 0)
  Sys.modify fun d => { d with typeU32 := put d.typeU32 1 u32 }
  let u64 ← onIr (emitTypeInt build 64 0)
  Sys.modify fun d => { d with typeU64 := put d.typeU64 1 u64 }
  let s8 ← onIr (emitTypeInt build 8 1)
  Sys.modify fun d => { d with typeS8 := put d.typeS8 1 s8 }
  let s16 ← onIr (emitTypeInt build 16 1)
  Sys.modify fun d => { d with typeS16 := put d.typeS16 1 s16 }
  let s32 ← onIr (emitTypeInt build 32 1)
  Sys.modify fun d => { d with typeS32 := put d.typeS32 1 s32 }
  let s64 ← onIr (emitTypeInt build 64 1)
  Sys.modify fun d => { d with typeS64 := put d.typeS64 1 s64 }
  let f16 ← onIr (emitTypeFloat build 16)
  Sys.modify fun d => { d with typeF16 := put d.typeF16 1 f16 }
  let f32 ← onIr (emitTypeFloat build 32)
  Sys.modify fun d => { d with typeF32 := put d.typeF32 1 f32 }
  let f64 ← onIr (emitTypeFloat build 64)
  Sys.modify fun d => { d with typeF64 := put d.typeF64 1 f64 }
  let bool ← onIr (emitTypeBool build)
  Sys.modify fun d => { d with typeBool := put d.typeBool 1 bool }

/-- The vector types of two to four components.  The element type is read at the vector's own
index, and the new ids are dropped, as the source has it. -/
def initVectors : Sys Decoder Unit :=
  ([2, 3, 4] : List (Fin 5)).forM fun i => do
    let d ← Sys.get
    [d.typeU8, d.typeU16, d.typeU32, d.typeU64, d.typeS8, d.typeS16, d.typeS32, d.typeS64,
      d.typeF16, d.typeF32, d.typeF64, d.typeBool].forM fun typeSxx => do
        let _ ← onIr (emitTypeVector build (typeSxx.get i) (UInt32.ofNat i))

/-- The generic pointer type, in storage class Function. -/
def initPointer : Sys Decoder Unit := do
  let d ← Sys.get
  let ptr ← onIr (emitTypePointer build 7 d.u32)
  Sys.modify fun d => { d with typePtrU32 := ptr }

/-- One variable for a register. -/
def initReg (r : Fin MAX_REG_COUNT) : Sys Decoder Unit := do
  let d ← Sys.get
  let id ← onIr (emitVariable build d.typePtrU32 7)
  Sys.modify fun d => { d with regs := put d.regs r id }

/-- SOURCE: core/src/gpu/sm86.rs:207-239 -/
def init : Sys Decoder Unit := do
  initScalars build
  initVectors build
  initPointer build
  (List.finRange MAX_REG_COUNT).forM (initReg build)

/-! ## Registers -/

/-- SOURCE: core/src/gpu/sm86.rs:241-249 -/
def loadReg (reg : ℕ) : Sys Decoder UInt32 := do
  let d ← Sys.get
  if reg = 255 then onIr (emitConstantTyped build d.u32 (0 : UInt32))
  else if h : reg < MAX_REG_COUNT then onIr (emitLoad build d.u32 d.regs[reg])
  else Sys.fail .panic

/-- SOURCE: core/src/gpu/sm86.rs:251-259 -/
def storeReg (reg : ℕ) (val : UInt32) : Sys Decoder Unit := do
  let d ← Sys.get
  if reg = 255 then return ()
  else if h : reg < MAX_REG_COUNT then onIr (emitStore d.regs[reg] val)
  else Sys.fail .panic

/-! ## Handlers -/

/-- `%rd := %ra + $ra_offset`.
SOURCE: core/src/gpu/sm86.rs:265-284 -/
def al2p (inst : BitVec 128) : Sys Decoder Unit := do
  let rd := ((inst >>> 16) &&& 0xff).toNat
  let ra := ((inst >>> 24) &&& 0xff).toNat
  let raOffset := ((inst >>> 40) &&& 0x7ff).toNat
  let bop := ((inst >>> 74) &&& 0x3).toNat
  Sys.assert (ra ≤ MAX_REG_COUNT ∨ ra = 255)
  Sys.assert (bop = 0)
  let base ← loadReg build ra
  let d ← Sys.get
  let offset ← onIr (emitConstantTyped build d.u32 (UInt32.ofNat raOffset))
  let dstVal ← onIr (emitIadd build d.u32 base offset)
  storeReg rd dstVal

/-- SOURCE: core/src/gpu/sm86.rs:2385-2394 -/
def nop : Sys Decoder Unit := onIr emitNop

/-- The 13-bit opcode that `translate` compares: bit 91 over the low 12 bits. -/
def opcode (inst : BitVec 128) : ℕ :=
  ((((inst >>> 91) &&& 0x1) <<< 12) ||| (inst &&& 0xfff)).toNat

/-- SOURCE: core/src/gpu/sm86_decoder_generated.rs:5-2550 -/
def translate (inst : BitVec 128) : Sys Decoder Unit :=
  match dispatch (opcode inst) with
  | none => return ()
  | some .al2p => al2p build inst
  | some .nop => nop
  | some .kill => onIr emitKill
  | some _ => Sys.fail .panic

end Oboromi.Model.Sm86
