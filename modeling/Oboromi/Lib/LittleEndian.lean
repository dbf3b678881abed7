import Mathlib.Data.Nat.Digits.Lemmas
import Mathlib.Tactic.IntervalCases

/-!
# Little-endian words

A 32-bit word as its four bytes, lowest first.  Replacing one byte of a word by masking and
shifting replaces that byte of its list (`toLeBytes_replaceByte`).  A number of any size is
the value of its bytes (`leNat_leDigits`).
-/

set_option autoImplicit false

namespace Oboromi.Lib

/-- `u32::to_le_bytes`. -/
def toLeBytes (w : UInt32) : List UInt8 :=
  [w.toUInt8, (w >>> 8).toUInt8, (w >>> 16).toUInt8, (w >>> 24).toUInt8]

/-- `u32::from_le_bytes`. -/
def fromLeBytes (b₀ b₁ b₂ b₃ : UInt8) : UInt32 :=
  b₀.toUInt32 ||| (b₁.toUInt32 <<< 8) ||| (b₂.toUInt32 <<< 16) ||| (b₃.toUInt32 <<< 24)

/-- A word with the bits of four bytes has these bytes. -/
theorem toLeBytes_eq {w : UInt32} {b₀ b₁ b₂ b₃ : UInt8} (h₀ : w.toUInt8.toBitVec = b₀.toBitVec)
    (h₁ : (w >>> 8).toUInt8.toBitVec = b₁.toBitVec)
    (h₂ : (w >>> 16).toUInt8.toBitVec = b₂.toBitVec)
    (h₃ : (w >>> 24).toUInt8.toBitVec = b₃.toBitVec) : toLeBytes w = [b₀, b₁, b₂, b₃] := by
  rw [toLeBytes, UInt8.toBitVec_inj.mp h₀, UInt8.toBitVec_inj.mp h₁, UInt8.toBitVec_inj.mp h₂,
    UInt8.toBitVec_inj.mp h₃]

/-- Four bytes are read back from the word they make. -/
theorem toLeBytes_fromLeBytes (b₀ b₁ b₂ b₃ : UInt8) :
    toLeBytes (fromLeBytes b₀ b₁ b₂ b₃) = [b₀, b₁, b₂, b₃] := by
  unfold fromLeBytes
  apply toLeBytes_eq
  all_goals
    ext i hi
    interval_cases i <;> simp

/-- Put a byte into the word, at a distance from its lowest bit. -/
def replaceByte (w : UInt32) (shift : UInt32) (byte : UInt8) : UInt32 :=
  (w &&& ~~~((0xFF : UInt32) <<< shift)) ||| (byte.toUInt32 <<< shift)

/-- Replacing a byte of a word replaces that one of its four bytes. -/
theorem toLeBytes_replaceByte (w : UInt32) (byte : UInt8) {j : ℕ} (hj : j < 4) :
    toLeBytes (replaceByte w (UInt32.ofNat (j * 8)) byte) = (toLeBytes w).set j byte := by
  unfold replaceByte
  interval_cases j
  all_goals
    apply toLeBytes_eq
    all_goals
      ext i hi
      interval_cases i <;> simp

/-! ## Numbers of any size -/

/-- The number a list of bytes is, lowest first. -/
def leNat (bytes : List UInt8) : ℕ := Nat.ofDigits 256 (bytes.map UInt8.toNat)

/-- The `n` lowest bytes of a number, lowest first. -/
def leDigits : ℕ → ℕ → List UInt8
  | 0, _ => []
  | n + 1, v => UInt8.ofNat v :: leDigits n (v / 256)

/-- `n` digits are `n` digits. -/
theorem length_leDigits (n v : ℕ) : (leDigits n v).length = n := by
  induction n generalizing v with
  | zero => rfl
  | succ n ih => rw [leDigits, List.length_cons, ih]

/-- Digit `i` is the number over `256 ^ i`. -/
theorem leDigits_eq_ofFn (n v : ℕ) :
    leDigits n v = List.ofFn fun i : Fin n => UInt8.ofNat (v / 256 ^ i.val) := by
  induction n generalizing v with
  | zero => rfl
  | succ n ih =>
      rw [leDigits, ih, List.ofFn_succ]
      congr 1
      · rw [Fin.val_zero, Nat.pow_zero, Nat.div_one]
      · congr 1
        funext i
        rw [Fin.val_succ, Nat.pow_succ', Nat.div_div_eq_div_mul]

/-- The first byte is the lowest digit. -/
theorem leNat_cons (byte : UInt8) (bytes : List UInt8) :
    leNat (byte :: bytes) = byte.toNat + 256 * leNat bytes := by
  unfold leNat
  rw [List.map_cons, Nat.ofDigits_cons]

/-- `n` bytes make a number below `256 ^ n`. -/
theorem leNat_lt (bytes : List UInt8) : leNat bytes < 256 ^ bytes.length := by
  rw [← List.length_map UInt8.toNat]
  apply Nat.ofDigits_lt_base_pow_length (by decide)
  intro d hd
  obtain ⟨byte, -, rfl⟩ := List.mem_map.mp hd
  exact byte.toNat_lt

/-- `n` digits of a number are the number modulo `256 ^ n`. -/
theorem leNat_leDigits (n v : ℕ) : leNat (leDigits n v) = v % 256 ^ n := by
  induction n generalizing v with
  | zero => simp [leDigits, leNat, Nat.mod_one]
  | succ n ih =>
      have hbyte : (UInt8.ofNat v).toNat = v % 256 := UInt8.toNat_ofNat'
      rw [leDigits, leNat_cons, ih, hbyte, Nat.pow_succ']
      exact Nat.mod_mul.symm

/-- Bytes are the digits of the number they make. -/
theorem leDigits_leNat (bytes : List UInt8) : leDigits bytes.length (leNat bytes) = bytes := by
  induction bytes with
  | nil => rfl
  | cons byte bytes ih =>
      have hlow : UInt8.ofNat (byte.toNat + 256 * leNat bytes) = byte := by
        apply UInt8.toNat_inj.mp
        rw [UInt8.toNat_ofNat']
        have hlt := byte.toNat_lt
        omega
      have hhigh : (byte.toNat + 256 * leNat bytes) / 256 = leNat bytes := by
        have hlt := byte.toNat_lt
        omega
      rw [leNat_cons, List.length_cons, leDigits, hlow, hhigh, ih]

/-- A number that fits its digits is read back. -/
theorem leNat_leDigits_of_lt {n v : ℕ} (h : v < 256 ^ n) : leNat (leDigits n v) = v := by
  rw [leNat_leDigits, Nat.mod_eq_of_lt h]

/-- The bytes of a word are the lowest four of its number. -/
theorem toLeBytes_eq_leDigits (w : UInt32) : toLeBytes w = leDigits 4 w.toNat := by
  have hbyte (s : ℕ) (hs : s < 32) :
      (w >>> UInt32.ofNat s).toUInt8 = UInt8.ofNat (w.toNat / 2 ^ s) := by
    apply UInt8.toNat_inj.mp
    have hshift : (UInt32.ofNat s).toNat % 32 = s := by
      rw [UInt32.toNat_ofNat']
      omega
    rw [UInt32.toNat_toUInt8, UInt32.toNat_shiftRight, hshift, Nat.shiftRight_eq_div_pow,
      UInt8.toNat_ofNat']
  have h₁ : (w >>> 8).toUInt8 = UInt8.ofNat (w.toNat / 256) := hbyte 8 (by decide)
  have h₂ : (w >>> 16).toUInt8 = UInt8.ofNat (w.toNat / 256 / 256) := by
    rw [Nat.div_div_eq_div_mul]
    exact hbyte 16 (by decide)
  have h₃ : (w >>> 24).toUInt8 = UInt8.ofNat (w.toNat / 256 / 256 / 256) := by
    rw [Nat.div_div_eq_div_mul, Nat.div_div_eq_div_mul]
    exact hbyte 24 (by decide)
  unfold toLeBytes
  rw [h₁, h₂, h₃]
  rfl

/-- A word of four bytes is the number they make. -/
theorem toNat_fromLeBytes (b₀ b₁ b₂ b₃ : UInt8) :
    (fromLeBytes b₀ b₁ b₂ b₃).toNat = leNat [b₀, b₁, b₂, b₃] := by
  have hlt : (fromLeBytes b₀ b₁ b₂ b₃).toNat < 256 ^ 4 := (fromLeBytes b₀ b₁ b₂ b₃).toNat_lt
  rw [← leNat_leDigits_of_lt hlt, ← toLeBytes_eq_leDigits, toLeBytes_fromLeBytes]

end Oboromi.Lib
