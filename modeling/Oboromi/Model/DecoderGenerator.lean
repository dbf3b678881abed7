import Mathlib.Data.Char
import Mathlib.Data.List.Lex
import Mathlib.Data.List.Sort
import Oboromi.Lib.Text

/-!
# The decoder generator

The generator reads a dump of instruction encodings (`collectSassInstructions`) and writes the
Rust text of a decoder (`writeRust`): one `if` arm for each instruction with an opcode field,
in the order of the names, and one handler skeleton for each name.  Its output is kept as the
statements it consists of, and the `print` functions give their text as the format strings of
the source do.  `usize` is 64 bits wide, and lower-casing a name is the host's (`lower`, any
function of the name).
-/

set_option autoImplicit false

namespace Oboromi.Model.DecoderGenerator

open Oboromi.Lib

/-! ## Instruction tables -/

/-- SOURCE: scripts/decoder_generator.rs:3-9 -/
inductive ParserState where
  | none
  | opcodes
  | encoding
  | cls
  deriving DecidableEq, Repr

/-- A field of an encoding: its bit ranges (first bit, last bit), the most significant first.
SOURCE: scripts/decoder_generator.rs:11-17 -/
structure ParserField where
  name : List Char
  totalBits : UInt64
  bits : List (UInt64 × UInt64)
  value : Option UInt64
  deriving DecidableEq, Repr

/-- SOURCE: scripts/decoder_generator.rs:19-25 -/
structure ParserInst where
  name : List Char
  op : UInt64
  fixedFields : List ParserField
  fields : List ParserField
  deriving DecidableEq, Repr

/-! ## Reading the dump -/

/-- The suffixes of names that stand for a pipe. -/
def pipeSuffixes : List (List Char) :=
  ["cbu_pipe", "mio_pipe", "int_pipe", "lite_pipe", "fe_pipe", "malighter_pipe", "fp16_pipe",
    "udp_pipe", "ttu_pipe"].map String.toList

/-- `parse::<usize>`. -/
def parseUsize (s : List Char) : Option UInt64 :=
  (Text.fromStrRadix 10 (2 ^ 64) s).map UInt64.ofNat

/-- `Option::unwrap`. -/
def unwrap {α : Type} : Option α → Except Fault α
  | some a => .ok a
  | none => .error .panic

/-- A line of the opcode section: the instruction it adds, if any.  The outer `none` is the
`Err` of the source.
SOURCE: scripts/decoder_generator.rs:37-52 -/
def readOpcode (line : List Char) : Except Fault (Option (Option ParserInst)) := do
  let pieces := (Text.split '=' line).map Text.trim
  let name ← unwrap pieces.head?
  if pipeSuffixes.any fun suffix => suffix.isSuffixOf name then return some none
  else do
    let bits ← unwrap pieces[1]?
    let bits := Text.trimEndMatches [';'] (Text.trimStartMatches "0b".toList bits)
    match Text.fromStrRadix 2 (2 ^ 64) bits with
    | none => return none
    | some op =>
      let inst : ParserInst := ⟨name, UInt64.ofNat op, [], []⟩
      return some (some inst)

/-- The bit ranges at the front of the pieces of a segment, and the pieces behind them.
SOURCE: scripts/decoder_generator.rs:67-76 -/
def readRanges (b : Build) (remSize : UInt64) (pairs : List (List Char)) :
    Except Fault (List (UInt64 × UInt64) × List (List Char)) :=
  if remSize = 0 then .ok ([], pairs)
  else match pairs with
    | last :: first :: pairs => do
      let last ← unwrap (parseUsize last)
      let first ← unwrap (parseUsize first)
      let distance ← b.subU64 last first
      let bitSize ← b.addU64 distance 1
      let remSize ← b.subU64 remSize bitSize
      let (bits, pairs) ← readRanges b remSize pairs
      return ((first, last) :: bits, pairs)
    | _ => .error .panic

/-- One segment of an encoding line, for the instruction it belongs to.
SOURCE: scripts/decoder_generator.rs:60-87 -/
def readField (b : Build) (lower : List Char → List Char) (value : List Char)
    (inst : ParserInst) (seg : List Char) : Except Fault ParserInst := do
  let pairs := Text.split '_' (Text.trim (Text.trimStartMatches "BITS_".toList seg))
  let totalBits ← unwrap (pairs.head?.bind parseUsize)
  let (bits, rest) ← readRanges b totalBits pairs.tail
  let name := lower (['_'].intercalate rest)
  -- The value of an opcode field is the opcode of the instruction.
  let value := if name = "opcode".toList then some inst.op else parseUsize value
  let field : ParserField := ⟨Text.replaceChar '.' '_' name, totalBits, bits, value⟩
  if value.isSome then return { inst with fixedFields := inst.fixedFields ++ [field] }
  else return { inst with fields := inst.fields ++ [field] }

/-- The state of the loop over the lines. -/
structure Collected where
  state : ParserState
  instructions : List ParserInst

/-- The body of the loop over the lines.
SOURCE: scripts/decoder_generator.rs:30-90 -/
def readLine (b : Build) (lower : List Char → List Char) (c : Collected) (line : List Char) :
    Except Fault (Option Collected) :=
  if line = "OPCODES".toList then return some { c with state := .opcodes }
  else if line = "ENCODING".toList then return some { c with state := .encoding }
  else if line = "CLASS".toList then return some { c with state := .cls }
  else if c.state = .opcodes ∧ "        ".toList.isPrefixOf line then do
    match ← readOpcode line with
    | none => return none
    | some none => return some c
    | some (some inst) => return some { c with instructions := c.instructions ++ [inst] }
  else if c.state = .encoding ∧ "BITS".toList.isPrefixOf line then do
    let (segments, value) ← unwrap (Text.splitOnce '=' line)
    let inst ← unwrap c.instructions.getLast?
    let inst ← (Text.split ',' segments).foldlM (readField b lower value) inst
    return some { c with instructions := c.instructions.dropLast ++ [inst] }
  else return some c

/-- The loop over the lines; an `Err` stops it. -/
def readLines (b : Build) (lower : List Char → List Char) (c : Collected) :
    List (List Char) → Except Fault (Option (List ParserInst))
  | [] => return some c.instructions
  | line :: lines => do
    match ← readLine b lower c line with
    | none => return none
    | some c => readLines b lower c lines

/-- SOURCE: scripts/decoder_generator.rs:27-109 -/
def collectSassInstructions (b : Build) (lower : List Char → List Char) (text : List Char) :
    Except Fault (Option (List ParserInst)) :=
  readLines b lower ⟨.none, []⟩ (Text.lines text)

/-! ## The statements of the decoder -/

/-- One bit range of an expression: shifted down, masked, and shifted to its place. -/
structure RangeExpr where
  start : UInt64
  mask : UInt64
  place : UInt64
  deriving DecidableEq, Repr

/-- A condition: the ranges of a field, joined by `|`, compared with a value. -/
structure Condition where
  merged : List RangeExpr
  value : UInt64
  deriving DecidableEq, Repr

/-- An arm of the chain of `if`s: the name in its comment, the conditions written one after
another, and the handler it calls. -/
structure Arm where
  name : List Char
  conditions : List Condition
  handler : List Char
  deriving DecidableEq, Repr

/-- A handler skeleton: one `let` for each field. -/
structure Handler where
  name : List Char
  lets : List (List Char × List RangeExpr)
  deriving DecidableEq, Repr

/-- A field without bits that was removed: its position, its name and its instruction. -/
structure Removed where
  position : ℕ
  field : List Char
  inst : List Char
  deriving DecidableEq, Repr

/-- What `write_rust` writes. -/
structure Output where
  removed : List Removed
  count : ℕ
  arms : List Arm
  handlers : List Handler
  deriving DecidableEq, Repr

/-! ## Writing the decoder -/

section Write

variable (b : Build)

/-- SOURCE: scripts/decoder_generator.rs:111-114 -/
def getMask (start stop : UInt64) : Except Fault UInt64 := do
  let distance ← b.subU64 stop start
  let count ← b.addU64 distance 1
  let bit ← b.shlU64 1 count
  b.subU64 bit 1

/-- The loop over the bit ranges of a field, with the bits that remain.
SOURCE: scripts/decoder_generator.rs:127-133, 140-146 -/
def mergeRanges : UInt64 → List (UInt64 × UInt64) → Except Fault (List RangeExpr)
  | _, [] => return []
  | remBits, e :: bits => do
    let distance ← b.subU64 e.2 e.1
    let width ← b.addU64 distance 1
    let remBits ← b.subU64 remBits width
    let mask ← getMask b e.1 e.2
    let exprs ← mergeRanges remBits bits
    return ⟨e.1, mask, remBits⟩ :: exprs

/-- SOURCE: scripts/decoder_generator.rs:124-135 -/
def getMultiMergeStmt (totalBits : UInt64) (bits : List (UInt64 × UInt64)) :
    Except Fault (List RangeExpr) :=
  mergeRanges b totalBits bits

/-- SOURCE: scripts/decoder_generator.rs:137-148 -/
def getMultiCmpStmt (totalBits : UInt64) (bits : List (UInt64 × UInt64)) (value : UInt64) :
    Except Fault Condition := do
  let merged ← mergeRanges b totalBits bits
  return ⟨merged, value⟩

/-- SOURCE: scripts/decoder_generator.rs:150-157 -/
def getCanonInstName (s : List Char) : List Char :=
  let ns := Text.replaceChar '.' '_' s
  if ns = "match".toList ∨ ns = "break".toList ∨ ns = "yield".toList then ns ++ ['_'] else ns

/-- The loop that removes fields without bits.  The last field takes the place of a removed
one and is looked at next.
SOURCE: scripts/decoder_generator.rs:162-170 -/
def removeEmpty (inst : List Char) : List ParserField → List ParserField →
    List Removed × List ParserField
  | kept, [] => ([], kept)
  | kept, f :: todo =>
    if f.bits.length = 0 then
      let swapped := match todo.getLast? with
        | some last => last :: todo.dropLast
        | none => []
      let (removed, fields) := removeEmpty inst kept swapped
      (⟨kept.length, f.name, inst⟩ :: removed, fields)
    else removeEmpty inst (kept ++ [f]) todo
termination_by _ todo => todo.length
decreasing_by
  · cases h : todo.getLast? with
    | none => exact Nat.zero_lt_succ _
    | some last =>
      have hne : todo ≠ [] := by
        rintro rfl
        cases h
      have hpos := List.length_pos_iff.mpr hne
      simp only [List.length_cons, List.length_dropLast]
      omega
  · exact Nat.lt_succ_self _

/-- The first bit of a field; only fields with bits are left when it is asked for. -/
def firstBit (f : ParserField) : UInt64 :=
  match f.bits with
  | [] => 0
  | e :: _ => e.1

/-- The instructions without empty fields, their fields by first bit, in the order of their
names; and what was removed.  Both sorts are stable.
SOURCE: scripts/decoder_generator.rs:160-174 -/
def prepare (list : List ParserInst) : List Removed × List ParserInst :=
  let emptied := list.map fun inst => removeEmpty inst.name [] inst.fields
  let instructions := list.map fun inst =>
    { inst with
      fields := (removeEmpty inst.name [] inst.fields).2.insertionSort fun f g =>
        firstBit f ≤ firstBit g }
  (emptied.flatMap Prod.fst, instructions.insertionSort fun i j => i.name ≤ j.name)

/-- The opcode field of an instruction. -/
def ParserInst.opcodeField (inst : ParserInst) : Option ParserField :=
  inst.fixedFields.find? fun f => f.name = "opcode".toList

/-- The name of the method that handles an instruction. -/
def handlerName (lower : List Char → List Char) (inst : ParserInst) : List Char :=
  getCanonInstName (lower inst.name)

/-- The condition on one fixed field. -/
def writeCondition (f : ParserField) : Except Fault Condition := do
  let value ← unwrap f.value
  getMultiCmpStmt b f.totalBits f.bits value

/-- The arm of an instruction, if it has an opcode field.
SOURCE: scripts/decoder_generator.rs:187-198 -/
def writeArm (lower : List Char → List Char) (inst : ParserInst) :
    Except Fault (Option Arm) :=
  match inst.opcodeField with
  | none => return none
  | some f =>
    if f.bits.length = 2 then do
      let conditions ← inst.fixedFields.mapM (writeCondition b)
      return some ⟨inst.name, conditions, handlerName lower inst⟩
    else .error .panic

/-- The statement that reads one field of a handler. -/
def writeLet (f : ParserField) : Except Fault (List Char × List RangeExpr) := do
  let merged ← getMultiMergeStmt b f.totalBits f.bits
  return (f.name, merged)

/-- The handlers, one for each name that was not seen before.
SOURCE: scripts/decoder_generator.rs:204-223 -/
def writeHandlers (lower : List Char → List Char) (seenNames : List (List Char)) :
    List ParserInst → Except Fault (List Handler)
  | [] => return []
  | inst :: instructions =>
    match inst.opcodeField with
    | none => writeHandlers lower seenNames instructions
    | some f =>
      if inst.name ∈ seenNames then writeHandlers lower seenNames instructions
      else if f.bits.length = 2 then do
        let lets ← inst.fields.mapM (writeLet b)
        let handlers ← writeHandlers lower (inst.name :: seenNames) instructions
        return ⟨handlerName lower inst, lets⟩ :: handlers
      else .error .panic

/-- SOURCE: scripts/decoder_generator.rs:159-228 -/
def writeRust (lower : List Char → List Char) (list : List ParserInst) :
    Except Fault Output := do
  let (removed, instructions) := prepare list
  let arms ← instructions.mapM (writeArm b lower)
  let handlers ← writeHandlers b lower [] instructions
  return ⟨removed, instructions.length, arms.filterMap id, handlers⟩

end Write

/-! ## The text of the decoder -/

/-- A number in hexadecimal. -/
def hex (n : UInt64) : String := "0x" ++ String.ofList (Nat.toDigits 16 n.toNat)

/-- SOURCE: scripts/decoder_generator.rs:116-122 -/
def RangeExpr.stmtMask (e : RangeExpr) : String :=
  if e.start > 0 then "(inst >> " ++ toString e.start ++ ") & " ++ hex e.mask
  else "inst & " ++ hex e.mask

/-- The text of a merged field. -/
def printMerged (exprs : List RangeExpr) : String :=
  " | ".intercalate (exprs.map fun e => "((" ++ e.stmtMask ++ ") << " ++ toString e.place ++ ")")

def Condition.print (c : Condition) : String :=
  "(" ++ printMerged c.merged ++ ") == " ++ hex c.value

/-- The conditions of an arm follow each other without an operator. -/
def Arm.print (arm : Arm) : String :=
  "else if /*" ++ String.ofList arm.name ++ "*/ " ++
    String.join (arm.conditions.map Condition.print) ++ " \x7b\n" ++
    "\t\t\tself." ++ String.ofList arm.handler ++ "(inst);\n" ++ "\t\t\x7d "

def Handler.print (h : Handler) : String :=
  "\tpub fn " ++ String.ofList h.name ++ "(&self, inst: u128) \x7b\n" ++
    String.join (h.lets.map fun l =>
      "\t\tlet _" ++ String.ofList l.1 ++ " = " ++ printMerged l.2 ++ ";\n") ++
    "\t\ttodo!();\n" ++ "\t\x7d\n"

def Removed.print (r : Removed) : String :=
  "// removed empty field #" ++ toString r.position ++ " " ++ String.ofList r.field ++ " of " ++
    String.ofList r.inst ++ "\n"

/-- The whole file.
SOURCE: scripts/decoder_generator.rs:159-228 -/
def Output.print (out : Output) : String :=
  String.join (out.removed.map Removed.print) ++
    "// this file is autogenered, do not modify\n" ++
    "impl<\x27a> Decoder<\x27a> \x7b\n" ++
    "\t// " ++ toString out.count ++ " instructions\n" ++
    "\tpub fn translate(&self, inst: u128) \x7b\n" ++
    "\t\tif false \x7b\n" ++ "\t\t\tunreachable!();\n" ++ "\t\t\x7d " ++
    String.join (out.arms.map Arm.print) ++
    "\n" ++ "\t\x7d\n" ++ "\x7d\n" ++
    "/*\n" ++ "impl Decoder \x7b\n" ++
    String.join (out.handlers.map Handler.print) ++
    "\x7d\n" ++ "*/\n"

/-- The text of the decoder from the text of the dump; the outer `none` is an `Err`.
SOURCE: scripts/decoder_generator.rs:379-382 -/
def generate (b : Build) (lower : List Char → List Char) (dump : List Char) :
    Except Fault (Option (List Char)) := do
  match ← collectSassInstructions b lower dump with
  | none => return none
  | some list =>
    let out ← writeRust b lower list
    return some out.print.toList

end Oboromi.Model.DecoderGenerator
