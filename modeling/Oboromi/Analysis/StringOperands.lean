import Oboromi.Analysis.EmitterRuns
import Oboromi.Interface.SpirvLiterals

/-!
# String operands

`encode_string` packs the bytes of a string as the format does (`encodeString_eq`), so the
string ends itself: its bytes up to the first NUL are the text, the word that holds the
NUL is filled up with zeros, and what follows is the next operand.
-/

set_option autoImplicit false

namespace Oboromi.Analysis.Spirv

open Oboromi.Lib
open Oboromi.Model.Spirv
open Oboromi.Interface.Spirv

/-! ## Reading a string back -/

/-- A string has as many bytes as its size says. -/
theorem length_utf8Bytes (s : String) : (utf8Bytes s).length = s.utf8ByteSize := by
  simp [utf8Bytes]

/-- A string takes the words it is counted for. -/
theorem length_packedString (s : String) : (packedString s).length = stringWords s := by
  unfold packedString
  rw [length_packString, length_utf8Bytes]
  rfl

/-- The bytes of a packed string, whatever words follow it. -/
theorem wordBytes_packedString (s : String) (r : List UInt32) :
    wordBytes (packedString s ++ r) =
      utf8Bytes s ++ (List.replicate (4 - s.utf8ByteSize % 4) 0 ++ wordBytes r) := by
  have hpacked := wordBytes_packString (utf8Bytes s)
  rw [length_utf8Bytes] at hpacked
  have happend : wordBytes (packedString s ++ r) =
      wordBytes (packedString s) ++ wordBytes r := List.flatMap_append
  rw [happend, packedString, hpacked, List.append_assoc]

/-- A packed string without zero bytes is read back. -/
theorem readsString_packedString {s : String} (hs : NulFree s) (r : List UInt32) :
    ReadsString (packedString s ++ r) s r := by
  have hlen := length_utf8Bytes s
  have hmod : s.utf8ByteSize % 4 < 4 := Nat.mod_lt _ (by omega)
  obtain ⟨k, hk⟩ : ∃ k, 4 - s.utf8ByteSize % 4 = k + 1 := ⟨3 - s.utf8ByteSize % 4, by omega⟩
  have hbytes := wordBytes_packedString s r
  have hnonzero : ∀ b ∈ utf8Bytes s, (b != 0) = true := by
    intro b hb
    simpa using utf8Bytes_ne_zero hs b hb
  rw [hk] at hbytes
  refine ⟨?_, ?_, ?_, ?_⟩
  · rw [hbytes, List.takeWhile_append_of_pos hnonzero, List.replicate_succ, List.cons_append,
      List.takeWhile_cons_of_neg (by decide), List.append_nil]
    exact ofUtf8Bytes_utf8Bytes s
  · rw [hbytes, List.getElem?_append_right (by omega), hlen, Nat.sub_self]
    rfl
  · have htake : 4 * stringWords s = (utf8Bytes s).length + (k + 1) := by
      unfold stringWords
      omega
    rw [hbytes, htake, List.take_length_add_append, ← hlen, List.drop_left]
    intro b hb
    have hzeros : (List.replicate (k + 1) (0 : UInt8) ++ wordBytes r).take (k + 1) =
        List.replicate (k + 1) 0 := List.take_left' List.length_replicate
    rw [hzeros] at hb
    exact List.eq_of_mem_replicate hb
  · exact List.drop_left' (length_packedString s)

/-- The operands of an instruction with a string, from the string on. -/
theorem operands_drop_string {call : EmitCall} {before : ℕ} {s : String} {rest : List UInt32}
    (hstring : call.stringOperand = some (before, s, rest)) (next : UInt32) :
    ∃ i, (call.effect.entry next).emitted = some i ∧
      i.operands.drop before = packedString s ++ rest := by
  cases call
  case emitExtension name =>
    cases hstring
    exact ⟨_, rfl, (List.append_nil _).symm⟩
  case emitExtInstImport name =>
    cases hstring
    exact ⟨_, rfl, (List.append_nil _).symm⟩
  case emitEntryPoint execModel func name interfaces =>
    cases hstring
    exact ⟨_, rfl, List.append_assoc _ _ _⟩
  case emitName target name =>
    cases hstring
    exact ⟨_, rfl, (List.append_nil _).symm⟩
  case emitMemberName ty member name =>
    cases hstring
    exact ⟨_, rfl, (List.append_nil _).symm⟩
  all_goals cases hstring

/-- **A string literal ends itself**: alone, whatever words follow it, and as an operand of
the methods that take a string.
SOURCE: core/src/gpu/spirv.rs:75-86, core/src/gpu/spirv.rs:268-313 -/
theorem string_literals_self_delimiting (s : String) (hs : NulFree s) :
    (∀ buf, ∃ words, encodeString buf s = buf ++ words ∧ words.length = stringWords s ∧
      ∀ r, ReadsString (words ++ r) s r) ∧
    ∀ build call e e' result before rest, call.stringOperand = some (before, s, rest) →
      (execCall build call).run e = (.ok result, e') →
      ∃ header operands, e'.words = e.words ++ header :: operands ∧
        ReadsString (operands.drop before) s rest := by
  constructor
  · intro buf
    exact ⟨_, encodeString_eq buf s, length_packedString s, readsString_packedString hs⟩
  · intro build call e e' result before rest hstring hrun
    obtain ⟨-, rfl⟩ := execCall_eq_ok hrun
    obtain ⟨i, hemit, hoperands⟩ := operands_drop_string hstring e.nextId
    refine ⟨_, i.operands, after_words hemit, ?_⟩
    rw [hoperands]
    exact readsString_packedString hs rest

/-- An entry point whose name fills a word, so that its NUL takes another one. -/
theorem string_literals_self_delimiting_main :
    ∃ (e' : Emitter) (header : UInt32) (operands : List UInt32),
      (execCall .debug (.emitEntryPoint 5 4 "main" [7, 9])).run Emitter.new = (.ok none, e') ∧
      e'.words = [] ++ header :: operands ∧ ReadsString (operands.drop 2) "main" [7, 9] := by
  have hs : NulFree "main" := by simp [NulFree]
  obtain ⟨-, hcalls⟩ := string_literals_self_delimiting "main" hs
  obtain ⟨header, operands, hwords, hreads⟩ := hcalls .debug
    (.emitEntryPoint 5 4 "main" [7, 9]) Emitter.new _ none 2 [7, 9] rfl rfl
  exact ⟨_, header, operands, rfl, hwords, hreads⟩

end Oboromi.Analysis.Spirv
