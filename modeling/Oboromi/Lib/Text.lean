import Oboromi.Lib.Machine

/-!
# Host strings

The `str` operations the parsers below use, on a text as its list of characters.  Lengths
and slice positions count UTF-8 bytes, and a slice whose ends are not between characters
panics (`byteSlice`).  `fromStrRadix16` is `from_str_radix(_, 16)` of an unsigned type with
`bound` values: an optional plus sign, then at least one digit, and no overflow.
-/

set_option autoImplicit false

namespace Oboromi.Lib.Text

/-- The characters with the `White_Space` property. -/
def isWhitespace (c : Char) : Bool :=
  let n := c.toNat
  (9 ≤ n && n ≤ 13) || n = 0x20 || n = 0x85 || n = 0xA0 || n = 0x1680 ||
    (0x2000 ≤ n && n ≤ 0x200A) || n = 0x2028 || n = 0x2029 || n = 0x202F || n = 0x205F ||
    n = 0x3000

/-- `str::trim`. -/
def trim (s : List Char) : List Char :=
  ((s.dropWhile isWhitespace).reverse.dropWhile isWhitespace).reverse

/-- Pieces that end in `sep`, except perhaps the last. -/
def splitInclusive (sep : Char) : List Char → List (List Char)
  | [] => []
  | c :: cs =>
    if c = sep then [c] :: splitInclusive sep cs
    else match splitInclusive sep cs with
      | [] => [[c]]
      | piece :: pieces => (c :: piece) :: pieces

def stripSuffix (c : Char) (s : List Char) : Option (List Char) :=
  if s.getLast? = some c then some s.dropLast else none

/-- `str::lines`: without the line feed, and without a carriage return before it. -/
def lines (s : List Char) : List (List Char) :=
  (splitInclusive '\n' s).map fun line =>
    match stripSuffix '\n' line with
    | none => line
    | some line => (stripSuffix '\r' line).getD line

/-- `str::split_once`. -/
def splitOnce (sep : Char) (s : List Char) : Option (List Char × List Char) :=
  if sep ∈ s then some (s.takeWhile (· ≠ sep), (s.dropWhile (· ≠ sep)).tail) else none

/-- `str::split` by a character. -/
def split (sep : Char) : List Char → List (List Char)
  | [] => [[]]
  | c :: cs =>
    if c = sep then [] :: split sep cs
    else match split sep cs with
      | [] => [[c]]
      | piece :: pieces => (c :: piece) :: pieces

/-- Remove a prefix up to `n` times. -/
def stripRepeated (pat : List Char) : ℕ → List Char → List Char
  | 0, s => s
  | n + 1, s =>
    match pat.isPrefixOf? s with
    | some rest => stripRepeated pat n rest
    | none => s

/-- `str::trim_start_matches`. -/
def trimStartMatches (pat s : List Char) : List Char := stripRepeated pat s.length s

/-- `str::trim_end_matches`. -/
def trimEndMatches (pat s : List Char) : List Char :=
  (trimStartMatches pat.reverse s.reverse).reverse

/-- `str::replace` of a character. -/
def replaceChar (old new : Char) (s : List Char) : List Char :=
  s.map fun c => if c = old then new else c

/-- `str::len`. -/
def byteLen (s : List Char) : ℕ := (s.map Char.utf8Size).sum

/-- Split after `n` bytes, if that is between two characters. -/
def splitAtByte : List Char → ℕ → Option (List Char × List Char)
  | s, 0 => some ([], s)
  | [], _ + 1 => none
  | c :: cs, n + 1 =>
    if c.utf8Size ≤ n + 1 then
      (splitAtByte cs (n + 1 - c.utf8Size)).map fun (front, back) => (c :: front, back)
    else none

/-- The empty text has no bytes. -/
@[simp] theorem byteLen_nil : byteLen [] = 0 := rfl

/-- A text's bytes are those of its first character and of the rest. -/
@[simp] theorem byteLen_cons (c : Char) (s : List Char) :
    byteLen (c :: s) = c.utf8Size + byteLen s := by
  simp [byteLen]

/-- The bytes of two texts add up. -/
theorem byteLen_append (s t : List Char) : byteLen (s ++ t) = byteLen s + byteLen t := by
  simp [byteLen]

/-- A split past the first character is a split of the rest. -/
theorem splitAtByte_cons {c : Char} {n : ℕ} (h : c.utf8Size ≤ n) (s : List Char) :
    splitAtByte (c :: s) n =
      (splitAtByte s (n - c.utf8Size)).map fun (front, back) => (c :: front, back) := by
  have hpos := c.utf8Size_pos
  obtain ⟨n, rfl⟩ := Nat.exists_eq_add_of_lt (Nat.lt_of_lt_of_le hpos h)
  simp only [Nat.zero_add] at h ⊢
  simp [splitAtByte, h]

/-- No split inside a character. -/
theorem splitAtByte_inside {c : Char} {n : ℕ} (hpos : 0 < n) (h : n < c.utf8Size)
    (s : List Char) : splitAtByte (c :: s) n = none := by
  obtain ⟨n, rfl⟩ := Nat.exists_eq_add_of_lt hpos
  simp only [Nat.zero_add] at h ⊢
  simp [splitAtByte, Nat.not_le.mpr h]

/-- A split at the start has everything behind it. -/
@[simp] theorem splitAtByte_zero (s : List Char) : splitAtByte s 0 = some ([], s) := by
  cases s <;> rfl

/-- A split between two characters. -/
theorem splitAtByte_append (s t : List Char) :
    splitAtByte (s ++ t) (byteLen s) = some (s, t) := by
  induction s with
  | nil => simp
  | cons c s ih =>
      rw [List.cons_append, byteLen_cons, splitAtByte_cons (Nat.le_add_right _ _),
        Nat.add_sub_cancel_left, ih]
      rfl

/-- `&s[start..stop]`. -/
def byteSlice (s : List Char) (start stop : ℕ) : Except Fault (List Char) :=
  match splitAtByte s start with
  | none => .error .panic
  | some (_, rest) =>
    match splitAtByte rest (stop - start) with
    | none => .error .panic
    | some (slice, _) => .ok slice

/-- A slice that starts between two characters. -/
theorem byteSlice_append (s t : List Char) (n : ℕ) :
    byteSlice (s ++ t) (byteLen s) (byteLen s + n) =
      match splitAtByte t n with
      | none => .error .panic
      | some (slice, _) => .ok slice := by
  unfold byteSlice
  rw [splitAtByte_append, Nat.add_sub_cancel_left]

/-- The value of a hexadecimal digit. -/
def hexDigit (c : Char) : Option ℕ :=
  if '0' ≤ c ∧ c ≤ '9' then some (c.toNat - '0'.toNat)
  else if 'a' ≤ c ∧ c ≤ 'f' then some (c.toNat - 'a'.toNat + 10)
  else if 'A' ≤ c ∧ c ≤ 'F' then some (c.toNat - 'A'.toNat + 10)
  else none

/-- The value of a string of digits below `bound`, most significant first. -/
def hexDigits (bound : ℕ) (s : List Char) : Option ℕ :=
  s.foldlM (fun acc c => do
    let d ← hexDigit c
    if acc * 16 + d < bound then some (acc * 16 + d) else none) 0

/-- `from_str_radix(s, 16)` of an unsigned type with `bound` values. -/
def fromStrRadix16 (bound : ℕ) (s : List Char) : Option ℕ :=
  match s with
  | [] => none
  | ['+'] => none
  | '+' :: digits => hexDigits bound digits
  | digits => hexDigits bound digits

/-- The value of a string of digits of a radix up to 16. -/
def radixDigits (radix bound : ℕ) (s : List Char) : Option ℕ :=
  s.foldlM (fun acc c => do
    let d ← hexDigit c
    if d < radix ∧ acc * radix + d < bound then some (acc * radix + d) else none) 0

/-- `from_str_radix` of an unsigned type with `bound` values, for a radix up to 16. -/
def fromStrRadix (radix bound : ℕ) (s : List Char) : Option ℕ :=
  match s with
  | [] => none
  | ['+'] => none
  | '+' :: digits => radixDigits radix bound digits
  | digits => radixDigits radix bound digits

/-- The digits are characters of one byte. -/
theorem utf8Size_of_hexDigit {c : Char} (h : (hexDigit c).isSome) : c.utf8Size = 1 := by
  have hle : c.val ≤ 0x7F := by
    unfold hexDigit at h
    simp only [Char.le_def] at h
    split at h
    · next hc => exact UInt32.le_trans hc.2 (by decide)
    · split at h
      · next hc => exact UInt32.le_trans hc.2 (by decide)
      · split at h
        · next hc => exact UInt32.le_trans hc.2 (by decide)
        · cases h
  simp [Char.utf8Size, hle]

/-- A character of more than one byte is no number. -/
theorem fromStrRadix16_wide {bound : ℕ} {c : Char} (h : 1 < c.utf8Size) :
    fromStrRadix16 bound [c] = none := by
  have hdigit : hexDigit c = none := by
    apply Option.not_isSome_iff_eq_none.mp
    intro hsome
    rw [utf8Size_of_hexDigit hsome] at h
    exact absurd h (by decide)
  unfold fromStrRadix16
  split
  · rfl
  · rfl
  · next heq =>
      cases heq
      exact absurd h (by decide)
  · simp [hexDigits, hdigit]

/-- A hexadecimal digit is below 16. -/
theorem hexDigit_lt {c : Char} {d : ℕ} (h : hexDigit c = some d) : d < 16 := by
  unfold hexDigit at h
  simp only [Char.le_def, UInt32.le_iff_toNat_le] at h
  split at h
  · next hc =>
      cases h
      have hhi : c.toNat ≤ 57 := hc.2
      show c.toNat - 48 < 16
      omega
  · split at h
    · next hc =>
        cases h
        have hhi : c.toNat ≤ 102 := hc.2
        show c.toNat - 97 + 10 < 16
        omega
    · split at h
      · next hc =>
          cases h
          have hhi : c.toNat ≤ 70 := hc.2
          show c.toNat - 65 + 10 < 16
          omega
      · cases h

/-- Two digits are a byte. -/
theorem fromStrRadix16_pair {c d : Char} (hc : (hexDigit c).isSome) (hd : (hexDigit d).isSome) :
    (fromStrRadix16 256 [c, d]).isSome := by
  obtain ⟨m, hm⟩ := Option.isSome_iff_exists.mp hc
  obtain ⟨n, hn⟩ := Option.isSome_iff_exists.mp hd
  have hm16 := hexDigit_lt hm
  have hn16 := hexDigit_lt hn
  have hdigits : hexDigits 256 [c, d] = some (m * 16 + n) := by
    have hfst : m < 256 := by omega
    have hsnd : m * 16 + n < 256 := by omega
    simp [hexDigits, hm, hn, hfst, hsnd]
  unfold fromStrRadix16
  split
  · next heq => cases heq
  · next heq => cases heq
  · next heq =>
      cases heq
      exact absurd hc (by decide)
  · rw [hdigits]
    rfl

/-! ## Numbers -/

/-- The number a string of hexadecimal digits spells, highest digit first. -/
def hexNumber (s : List Char) : ℕ := s.foldl (fun n c => 16 * n + (hexDigit c).getD 0) 0

/-- Reading on from a number does not make it smaller. -/
theorem le_foldl_hexNumber (s : List Char) (acc : ℕ) :
    acc ≤ s.foldl (fun n c => 16 * n + (hexDigit c).getD 0) acc := by
  induction s generalizing acc with
  | nil => exact Nat.le_refl acc
  | cons c s ih =>
      have hnext := ih (16 * acc + (hexDigit c).getD 0)
      rw [List.foldl_cons]
      omega

/-- Digits are read on from a number below the bound exactly when they are digits and what they
spell together is below it too.  By induction on the digits. -/
theorem foldlM_hexDigits_eq_some_iff {bound : ℕ} (s : List Char) {acc n : ℕ}
    (hacc : acc < bound) :
    s.foldlM (fun acc c => do
        let d ← hexDigit c
        if acc * 16 + d < bound then some (acc * 16 + d) else none) acc = some n ↔
      (∀ c ∈ s, (hexDigit c).isSome) ∧
        s.foldl (fun n c => 16 * n + (hexDigit c).getD 0) acc = n ∧ n < bound := by
  induction s generalizing acc with
  | nil =>
      rw [List.foldlM_nil, List.foldl_nil]
      constructor
      · intro h
        cases h
        exact ⟨by simp, rfl, hacc⟩
      · rintro ⟨-, rfl, -⟩
        rfl
  | cons c s ih =>
      rw [List.foldlM_cons, List.foldl_cons, List.forall_mem_cons]
      cases hdigit : hexDigit c with
      | none => simp
      | some d =>
          have hvalue : 16 * acc + (some d).getD 0 = acc * 16 + d := by
            rw [Option.getD_some, Nat.mul_comm]
          rw [hvalue]
          by_cases hfits : acc * 16 + d < bound
          · have hstep : (do
                let d ← some d
                if acc * 16 + d < bound then some (acc * 16 + d) else none) =
                some (acc * 16 + d) := if_pos hfits
            rw [hstep]
            exact (ih hfits).trans (by simp)
          · have hstep : (do
                let d ← some d
                if acc * 16 + d < bound then some (acc * 16 + d) else none) = none :=
              if_neg hfits
            rw [hstep]
            refine iff_of_false (fun h => by cases h) ?_
            rintro ⟨-, rfl, hlt⟩
            have hle := le_foldl_hexNumber s (acc * 16 + d)
            omega

/-- **What `from_str_radix(_, 16)` reads**: digits that spell the number, perhaps behind a plus
sign, if the number is below the bound. -/
theorem fromStrRadix16_eq_some_iff {bound : ℕ} (hbound : 0 < bound) (s : List Char) (n : ℕ) :
    fromStrRadix16 bound s = some n ↔
      ∃ digits, (s = digits ∨ s = '+' :: digits) ∧ digits ≠ [] ∧
        (∀ c ∈ digits, (hexDigit c).isSome) ∧ hexNumber digits = n ∧ n < bound := by
  have hplus : (hexDigit '+').isSome = false := by decide
  have hread (digits : List Char) : hexDigits bound digits = some n ↔
      (∀ c ∈ digits, (hexDigit c).isSome) ∧ hexNumber digits = n ∧ n < bound :=
    foldlM_hexDigits_eq_some_iff digits hbound
  unfold fromStrRadix16
  split
  · refine iff_of_false (fun h => by cases h) ?_
    rintro ⟨digits, rfl | heq, hne, -⟩
    · exact hne rfl
    · cases heq
  · refine iff_of_false (fun h => by cases h) ?_
    rintro ⟨digits, rfl | heq, hne, hdigits, -⟩
    · rw [hdigits '+' List.mem_cons_self] at hplus
      cases hplus
    · cases heq
      exact hne rfl
  · next digits hne =>
      rw [hread]
      constructor
      · intro h
        refine ⟨digits, .inr rfl, ?_, h⟩
        rintro rfl
        exact hne rfl
      · rintro ⟨digits', rfl | heq, -, h⟩
        · rw [h.1 '+' List.mem_cons_self] at hplus
          cases hplus
        · cases heq
          exact h
  · next hnil _ hsign =>
      rw [hread]
      constructor
      · exact fun h => ⟨s, .inl rfl, hnil, h⟩
      · rintro ⟨digits, rfl | rfl, -, h⟩
        · exact h
        · exact absurd rfl (hsign digits)

end Oboromi.Lib.Text
