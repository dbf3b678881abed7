import Mathlib.Data.String.Basic
import Oboromi.Lib.LittleEndian

/-!
# Strings in words

A string as a sequence of little-endian words: its UTF-8 bytes, four to a word, then a zero
byte, then zeros up to the end of the word.  Such a string is self-delimiting: whatever words
follow it, reading bytes up to the first zero gives the string back and leaves exactly these
words (`unpackString_packString`).
-/

set_option autoImplicit false

namespace Oboromi.Lib

/-! ## UTF-8 -/

/-- The bytes of a string. -/
def utf8Bytes (s : String) : List UInt8 := s.toUTF8.data.toList

/-- The string with the given bytes. -/
def ofUtf8Bytes (bytes : List UInt8) : Option String := String.fromUTF8? ⟨bytes.toArray⟩

/-- A string is read back from its bytes. -/
theorem ofUtf8Bytes_utf8Bytes (s : String) : ofUtf8Bytes (utf8Bytes s) = some s := by
  have hbytes : (⟨(utf8Bytes s).toArray⟩ : ByteArray) = s.toUTF8 := by simp [utf8Bytes]
  unfold ofUtf8Bytes
  rw [hbytes]
  simp [String.fromUTF8?, String.fromUTF8, s.isValidUTF8]

/-- The string holds no NUL character. -/
def NulFree (s : String) : Prop := ∀ c ∈ s.toList, c ≠ '\x00'

instance (s : String) : Decidable (NulFree s) := inferInstanceAs (Decidable (∀ c ∈ s.toList, _))

/-- Only NUL has a zero byte in its encoding. -/
theorem ne_zero_of_mem_utf8EncodeChar {c : Char} (hc : c ≠ '\x00') {b : UInt8}
    (hb : b ∈ String.utf8EncodeChar c) : b ≠ 0 := by
  have hval : c.val.toNat ≠ 0 := by
    intro hzero
    exact hc (Char.ext (UInt32.toNat_inj.mp hzero))
  rintro rfl
  have hbyte (n : ℕ) : 0 = UInt8.ofNat n ↔ 0 = n % 256 := by
    rw [← UInt8.toNat_inj, UInt8.toNat_ofNat']
    rfl
  unfold String.utf8EncodeChar at hb
  dsimp only at hb
  split_ifs at hb with h₁ h₂ h₃
  all_goals
    simp only [List.mem_cons, List.not_mem_nil, or_false, hbyte] at hb
    omega

/-- A string without NUL has no zero byte. -/
theorem utf8Bytes_ne_zero {s : String} (hs : NulFree s) : ∀ b ∈ utf8Bytes s, b ≠ 0 := by
  intro b hb
  have hbytes : utf8Bytes s = s.toList.flatMap String.utf8EncodeChar := by
    have hs' : s.toUTF8 = s.toList.utf8Encode := by simp
    unfold utf8Bytes
    rw [hs']
    simp [List.utf8Encode]
  rw [hbytes] at hb
  obtain ⟨c, hc, hbc⟩ := List.mem_flatMap.mp hb
  exact ne_zero_of_mem_utf8EncodeChar (hs c hc) hbc

/-! ## Packing -/

/-- Four bytes to a word, and a zero byte behind the last of them. -/
def packString : List UInt8 → List UInt32
  | b₀ :: b₁ :: b₂ :: b₃ :: bytes => fromLeBytes b₀ b₁ b₂ b₃ :: packString bytes
  | [b₀, b₁, b₂] => [fromLeBytes b₀ b₁ b₂ 0]
  | [b₀, b₁] => [fromLeBytes b₀ b₁ 0 0]
  | [b₀] => [fromLeBytes b₀ 0 0 0]
  | [] => [fromLeBytes 0 0 0 0]

/-- Read bytes up to the first zero, and check the padding behind it: the bytes and the
words that are left. -/
def unpackString : List UInt32 → Option (List UInt8 × List UInt32)
  | [] => none
  | w :: ws =>
    let bytes := (toLeBytes w).takeWhile (· != 0)
    let padding := (toLeBytes w).dropWhile (· != 0)
    if padding = [] then (unpackString ws).map fun (more, rest) => (bytes ++ more, rest)
    else if padding.all (· == 0) then some (bytes, ws)
    else none

/-- A word of four bytes that are not zero continues the string. -/
theorem unpackString_full {b₀ b₁ b₂ b₃ : UInt8} (h₀ : b₀ ≠ 0) (h₁ : b₁ ≠ 0) (h₂ : b₂ ≠ 0)
    (h₃ : b₃ ≠ 0) (ws : List UInt32) :
    unpackString (fromLeBytes b₀ b₁ b₂ b₃ :: ws) =
      (unpackString ws).map fun r => (b₀ :: b₁ :: b₂ :: b₃ :: r.1, r.2) := by
  rw [unpackString, toLeBytes_fromLeBytes]
  simp [h₀, h₁, h₂, h₃]

/-- Bytes that are not zero are read back from the words they are packed into, with what follows
them. -/
theorem unpackString_packString {bytes : List UInt8} (h : ∀ b ∈ bytes, b ≠ 0)
    (rest : List UInt32) : unpackString (packString bytes ++ rest) = some (bytes, rest) := by
  induction bytes using packString.induct with
  | case1 b₀ b₁ b₂ b₃ bytes ih =>
    simp only [List.forall_mem_cons] at h
    obtain ⟨h₀, h₁, h₂, h₃, hbytes⟩ := h
    rw [packString, List.cons_append, unpackString_full h₀ h₁ h₂ h₃, ih hbytes]
    rfl
  | case2 b₀ b₁ b₂ =>
    simp only [List.forall_mem_cons] at h
    simp [packString, unpackString, toLeBytes_fromLeBytes, h]
  | case3 b₀ b₁ =>
    simp only [List.forall_mem_cons] at h
    simp [packString, unpackString, toLeBytes_fromLeBytes, h]
  | case4 b₀ =>
    simp only [List.forall_mem_cons] at h
    simp [packString, unpackString, toLeBytes_fromLeBytes, h]
  | case5 => simp [packString, unpackString, toLeBytes_fromLeBytes]

/-! ## Bytes -/

/-- The bytes of words, the lowest of each word first. -/
def wordBytes (ws : List UInt32) : List UInt8 := ws.flatMap toLeBytes

/-- A packed string is its bytes and then zeros, at least one, to the end of the word. -/
theorem wordBytes_packString (bytes : List UInt8) :
    wordBytes (packString bytes) = bytes ++ List.replicate (4 - bytes.length % 4) 0 := by
  induction bytes using packString.induct with
  | case1 b₀ b₁ b₂ b₃ bytes ih =>
    have hlen : (b₀ :: b₁ :: b₂ :: b₃ :: bytes).length % 4 = bytes.length % 4 :=
      Nat.add_mod_right bytes.length 4
    unfold wordBytes at ih ⊢
    rw [packString, List.flatMap_cons, toLeBytes_fromLeBytes, ih, hlen]
    rfl
  | case2 b₀ b₁ b₂ => simp [packString, wordBytes, toLeBytes_fromLeBytes]
  | case3 b₀ b₁ => simp [packString, wordBytes, toLeBytes_fromLeBytes, List.replicate]
  | case4 b₀ => simp [packString, wordBytes, toLeBytes_fromLeBytes, List.replicate]
  | case5 => simp [packString, wordBytes, toLeBytes_fromLeBytes, List.replicate]

/-- The packed words always have room for the NUL. -/
theorem length_packString (bytes : List UInt8) :
    (packString bytes).length = bytes.length / 4 + 1 := by
  induction bytes using packString.induct with
  | case1 b₀ b₁ b₂ b₃ bytes ih =>
    rw [packString, List.length_cons, ih]
    simp only [List.length_cons]
    omega
  | case2 b₀ b₁ b₂ => simp [packString]
  | case3 b₀ b₁ => simp [packString]
  | case4 b₀ => simp [packString]
  | case5 => simp [packString]

end Oboromi.Lib
