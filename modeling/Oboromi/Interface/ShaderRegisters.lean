import Oboromi.Interface.SpirvMachine
import Oboromi.Model.Sm86

/-!
# The shader's register file

What the implemented shader instructions do to the registers, said without SPIR-V: 254
registers of 32 bits, and register 255, which reads as zero and drops what is written to it.
`Preserves` relates this to the decoder: the SPIR-V that a list of instructions appends does
to the register variables what the list does to the registers.
-/

set_option autoImplicit false

namespace Oboromi.Interface.Sm86

open Oboromi.Lib
open Oboromi.Model.Sm86
open Oboromi.Model.Spirv
open Oboromi.Interface.Spirv

/-- The register file. -/
abbrev Registers := Fin MAX_REG_COUNT → UInt32

/-- Read a register; the zero register reads as 0. -/
def Registers.read (regs : Registers) (reg : ℕ) : UInt32 :=
  if h : reg < MAX_REG_COUNT then regs ⟨reg, h⟩ else 0

/-- Write a register; a write to the zero register is dropped. -/
def Registers.write (regs : Registers) (reg : ℕ) (v : UInt32) : Registers :=
  fun r => if r.val = reg then v else regs r

/-- The bits `pos .. pos + len - 1` of an instruction word. -/
def field (inst : BitVec 128) (pos len : ℕ) : ℕ := (inst.extractLsb' pos len).toNat

/-- A register number that an instruction may name. -/
def IsRegister (reg : ℕ) : Prop := reg ≤ 253 ∨ reg = 255

/-- The instructions the translation implements: `al2p` on 32 bits, with registers that
exist, and `nop`. -/
def Implemented (inst : BitVec 128) : Prop :=
  dispatch (opcode inst) = some .al2p ∧ field inst 74 2 = 0 ∧ IsRegister (field inst 16 8) ∧
      IsRegister (field inst 24 8) ∨
    dispatch (opcode inst) = some .nop

/-- What one instruction does to the registers. -/
def stepRegisters (regs : Registers) (inst : BitVec 128) : Registers :=
  match dispatch (opcode inst) with
  | some .al2p =>
    regs.write (field inst 16 8) (regs.read (field inst 24 8) + UInt32.ofNat (field inst 40 11))
  | _ => regs

/-- What a list of instructions does to the registers. -/
def runRegisters (insts : List (BitVec 128)) (regs : Registers) : Registers :=
  insts.foldl stepRegisters regs

/-- Translate a list of instructions in order. -/
def translateAll (build : Build) (insts : List (BitVec 128)) : Sys Decoder Unit :=
  insts.forM (translate build)

/-- The number of `al2p` instructions of a list; each takes three ids. -/
def al2pCount (insts : List (BitVec 128)) : ℕ :=
  insts.countP fun inst => dispatch (opcode inst) == some .al2p

/-- The instructions a decoder's stream gained between two states. -/
def appended (d d' : Decoder) : Option (List Inst) :=
  (Framing.unframe wordCount (d'.ir.words.drop d.ir.words.length)).map fun frames =>
    frames.map Inst.ofFrame

/-- **Register semantics are preserved.**  After `init` the register variables are distinct,
the list translates, and from any contents of the register variables, whatever else was
defined before, executing the appended instructions leaves in them what executing the list
leaves in the registers. -/
def Preserves (build : Build) (d₀ : Decoder) (insts : List (BitVec 128)) : Prop :=
  ∃ d d' emitted,
    (init build).run d₀ = (.ok (), d) ∧ (translateAll build insts).run d = (.ok (), d') ∧
    appended d d' = some emitted ∧ Function.Injective d.regs.get ∧
    ∀ (m : Machine) (regs : Registers),
      (∀ r : Fin MAX_REG_COUNT, m.contents (d.regs.get r) = some (regs r)) →
      (∀ id, m.Defines id → id < d.ir.nextId) →
      ∃ m', exec d.u32 emitted m = some m' ∧
        ∀ r : Fin MAX_REG_COUNT, m'.contents (d.regs.get r) = some (runRegisters insts regs r)

end Oboromi.Interface.Sm86
