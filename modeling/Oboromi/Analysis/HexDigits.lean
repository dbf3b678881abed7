import Oboromi.Analysis.KeyLineSteps

/-!
# What `decode_hex` accepts

On ASCII text no pair is cut, so `decodeHex` is a recursion on pairs of characters
(`decodeHex_ascii`).  A pair is read as a number, and a number may have a plus sign
(`fromStrRadix16_two`): that is the one way to be accepted without being hexadecimal.  What a
line gives is then what its text spells (`readLine_eq_some_iff`).
-/

set_option autoImplicit false

namespace Oboromi.Analysis

open Oboromi.Lib Oboromi.Model Oboromi.Interface

/-! ## Digits and signs -/

/-- A pair is a number if it is two digits, or a plus sign and a digit. -/
theorem fromStrRadix16_two (c d : Char) :
    Text.fromStrRadix16 256 [c, d] =
      if c = '+' then Text.hexDigit d
      else (Text.hexDigit c).bind fun m => (Text.hexDigit d).map fun n => m * 16 + n := by
  have hone : Text.hexDigits 256 [d] = Text.hexDigit d := by
    cases hd : Text.hexDigit d with
    | none => simp [Text.hexDigits, hd]
    | some n =>
        have hlt := Text.hexDigit_lt hd
        have hfits : n < 256 := by omega
        simp [Text.hexDigits, hd, hfits]
  have htwo : Text.hexDigits 256 [c, d] =
      (Text.hexDigit c).bind fun m => (Text.hexDigit d).map fun n => m * 16 + n := by
    cases hc : Text.hexDigit c with
    | none => simp [Text.hexDigits, hc]
    | some m =>
        have hm := Text.hexDigit_lt hc
        have hfst : m < 256 := by omega
        cases hd : Text.hexDigit d with
        | none => simp [Text.hexDigits, hc, hd, hfst]
        | some n =>
            have hn := Text.hexDigit_lt hd
            have hsnd : m * 16 + n < 256 := by omega
            simp [Text.hexDigits, hc, hd, hfst, hsnd]
  unfold Text.fromStrRadix16
  split
  · next heq => cases heq
  · next heq => cases heq
  · next heq =>
      cases heq
      rw [if_pos rfl, hone]
  · next hplus =>
      have hne : c ≠ '+' := by
        rintro rfl
        exact hplus [d] rfl
      rw [if_neg hne, htwo]

/-- A plus sign is no digit. -/
theorem hexDigit_plus : Text.hexDigit '+' = none := by decide

/-- Two characters are a number when the second is a digit and the first a digit or a plus sign. -/
theorem isSome_fromStrRadix16_two (c d : Char) :
    (Text.fromStrRadix16 256 [c, d]).isSome ↔
      (Text.hexDigit d).isSome ∧ ((Text.hexDigit c).isSome ∨ c = '+') := by
  rw [fromStrRadix16_two]
  by_cases hplus : c = '+'
  · rw [if_pos hplus]
    exact (and_iff_left (.inr hplus)).symm
  · rw [if_neg hplus, or_iff_left hplus]
    cases Text.hexDigit c <;> cases Text.hexDigit d <;> simp

/-! ## Pairs -/

/-- The bytes of a text, each pair of characters read as a number. -/
def readPairs : List Char → Option (List UInt8)
  | [] => some []
  | [_] => none
  | c :: d :: rest =>
    match Text.fromStrRadix16 256 [c, d] with
    | none => none
    | some v => (readPairs rest).map (UInt8.ofNat v :: ·)

/-- The texts all of whose pairs are numbers. -/
theorem readPairs_isSome_iff (s : List Char) :
    (readPairs s).isSome ↔ s.length % 2 = 0 ∧
      ∀ (i : ℕ) (c : Char), s[i]? = some c →
        (Text.hexDigit c).isSome ∨ (i % 2 = 0 ∧ c = '+') := by
  induction s using readPairs.induct with
  | case1 => simp [readPairs]
  | case2 c => simp [readPairs]
  | case3 c d rest hnone =>
      rw [readPairs, hnone]
      refine iff_of_false (by simp) ?_
      rintro ⟨-, hall⟩
      have hpair : (Text.fromStrRadix16 256 [c, d]).isSome := by
        rw [isSome_fromStrRadix16_two]
        refine ⟨(hall 1 d rfl).resolve_right (by simp), ?_⟩
        exact (hall 0 c rfl).imp_right And.right
      rw [hnone] at hpair
      cases hpair
  | case4 c d rest v hv ih =>
      have hpair : (Text.fromStrRadix16 256 [c, d]).isSome := by
        rw [hv]
        rfl
      obtain ⟨hd, hc⟩ := (isSome_fromStrRadix16_two c d).mp hpair
      rw [readPairs, hv, Option.isSome_map, ih]
      constructor
      · rintro ⟨heven, hall⟩
        refine ⟨by simp only [List.length_cons]; omega, ?_⟩
        intro i e he
        match i with
        | 0 =>
            cases he
            exact hc.imp_right fun hplus => ⟨rfl, hplus⟩
        | 1 =>
            cases he
            exact .inl hd
        | i + 2 =>
            have hrest := hall i e he
            rwa [Nat.add_mod_right]
      · rintro ⟨heven, hall⟩
        refine ⟨by simp only [List.length_cons] at heven; omega, ?_⟩
        intro i e he
        have hrest := hall (i + 2) e he
        rwa [Nat.add_mod_right] at hrest

/-- An ASCII character is one byte. -/
theorem utf8Size_of_ascii {c : Char} (h : c.toNat < 128) : c.utf8Size = 1 := by
  have hle : c.val ≤ 0x7F := Nat.le_of_lt_succ h
  simp [Char.utf8Size, hle]

/-- An ASCII text has as many bytes as characters. -/
theorem byteLen_ascii {s : List Char} (h : ∀ c ∈ s, c.utf8Size = 1) :
    Text.byteLen s = s.length := by
  induction s with
  | nil => rfl
  | cons c s ih =>
      rw [Text.byteLen_cons, h c List.mem_cons_self,
        ih fun d hd => h d (List.mem_cons_of_mem c hd), List.length_cons, Nat.add_comm]

/-- The loop of `decodeHex` from the `k`-th pair on. -/
theorem decodePairs_ascii (rest front : List Char) (k n : ℕ)
    (hfront : Text.byteLen front = 2 * k) (hlen : rest.length = 2 * n)
    (h : ∀ c ∈ rest, c.utf8Size = 1) :
    decodePairs (front ++ rest) (pairPositions k n) = .ok (readPairs rest) := by
  induction rest using readPairs.induct generalizing front k n with
  | case1 =>
      obtain rfl : n = 0 := by simpa using hlen
      rfl
  | case2 c =>
      rw [List.length_singleton] at hlen
      omega
  | case3 c d rest hnone =>
      obtain ⟨n, rfl⟩ : ∃ m, n = m + 1 := ⟨n - 1, by simp only [List.length_cons] at hlen; omega⟩
      have hc := h c List.mem_cons_self
      have hd := h d (List.mem_cons_of_mem c List.mem_cons_self)
      have hslice := Text.byteSlice_append front (c :: d :: rest) 2
      rw [Text.splitAtByte_cons (by omega), Text.splitAtByte_cons (by omega), hc, hd,
        Text.splitAtByte_zero] at hslice
      rw [readPairs, hnone]
      exact decodePairs_stop hfront hslice (.inr ⟨[c, d], rfl, hnone, rfl⟩)
  | case4 c d rest v hv ih =>
      obtain ⟨n, rfl⟩ : ∃ m, n = m + 1 := ⟨n - 1, by simp only [List.length_cons] at hlen; omega⟩
      have hc := h c List.mem_cons_self
      have hd := h d (List.mem_cons_of_mem c List.mem_cons_self)
      have hpair : Text.byteLen (front ++ [c, d]) = 2 * (k + 1) := by
        rw [Text.byteLen_append, hfront, Text.byteLen_cons, Text.byteLen_cons,
          Text.byteLen_nil, hc, hd]
        omega
      have hrest := ih (front ++ [c, d]) (k + 1) n hpair
        (by simp only [List.length_cons] at hlen; omega)
        fun e he => h e (List.mem_cons_of_mem c (List.mem_cons_of_mem d he))
      rw [decodePairs_read hfront hc hd hv, hrest, readPairs, hv]
      rfl

/-- On characters of one byte `decodeHex` reads pair by pair, and does not panic. -/
theorem decodeHex_ascii {s : List Char} (h : ∀ c ∈ s, c.utf8Size = 1) :
    decodeHex s = .ok (readPairs s) := by
  have hlen := byteLen_ascii h
  rcases Nat.mod_two_eq_zero_or_one s.length with heven | hodd
  · have hpairs : decodeHex s = decodePairs ([] ++ s) (pairPositions 0 (s.length / 2)) := by
      unfold decodeHex
      rw [hlen, if_neg (by omega), List.range_eq_range']
      rfl
    rw [hpairs]
    exact decodePairs_ascii s [] 0 _ rfl (by omega) h
  · have hnone : readPairs s = none := by
      cases hread : readPairs s with
      | none => rfl
      | some bytes =>
          have hsome := Option.isSome_iff_exists.mpr ⟨bytes, hread⟩
          have heven := ((readPairs_isSome_iff s).mp hsome).1
          omega
    rw [hnone]
    exact decodeHex_odd (by omega)

/-! ## Hexadecimal strings -/

/-- A hexadecimal string is read as its value. -/
theorem readPairs_of_isHexText {s : List Char} (h : IsHexText s) :
    readPairs s = some (hexBytes s) := by
  obtain ⟨heven, hdigits⟩ := h
  induction s using readPairs.induct with
  | case1 => rfl
  | case2 c => simp at heven
  | case3 c d rest hnone =>
      have hpair := Text.fromStrRadix16_pair (hdigits c List.mem_cons_self)
        (hdigits d (List.mem_cons_of_mem c List.mem_cons_self))
      rw [hnone] at hpair
      cases hpair
  | case4 c d rest v hv ih =>
      have hrest := ih (by simp only [List.length_cons] at heven; omega)
        fun e he => hdigits e (List.mem_cons_of_mem c (List.mem_cons_of_mem d he))
      have hne : c ≠ '+' := by
        rintro rfl
        have hplus := hdigits '+' List.mem_cons_self
        rw [hexDigit_plus] at hplus
        cases hplus
      obtain ⟨m, hm⟩ := Option.isSome_iff_exists.mp (hdigits c List.mem_cons_self)
      obtain ⟨n, hn⟩ := Option.isSome_iff_exists.mp
        (hdigits d (List.mem_cons_of_mem c List.mem_cons_self))
      have hvalue := hv
      rw [fromStrRadix16_two, if_neg hne, hm, hn] at hvalue
      obtain rfl : m * 16 + n = v := Option.some.inj hvalue
      rw [readPairs, hv, hrest, hexBytes, hm, hn, Nat.mul_comm m 16]
      rfl

/-- A digit that was written is read back. -/
theorem hexDigit_digitChar : ∀ n : Fin 16, Text.hexDigit (Nat.digitChar n) = some n.val := by
  decide

/-- Bytes are written in digits. -/
theorem mem_renderHex {bytes : List UInt8} {c : Char} (h : c ∈ renderHex bytes) :
    (Text.hexDigit c).isSome := by
  obtain ⟨v, -, hv⟩ := List.mem_flatMap.mp h
  have hlt := v.toNat_lt
  have hhigh := hexDigit_digitChar ⟨v.toNat / 16, by omega⟩
  have hlow := hexDigit_digitChar ⟨v.toNat % 16, by omega⟩
  simp only [List.mem_cons, List.not_mem_nil, or_false] at hv
  rcases hv with rfl | rfl
  · rw [hhigh]
    rfl
  · rw [hlow]
    rfl

/-- A string is hexadecimal when a look at each of its characters says so. -/
theorem isHexText_of_all {s : List Char} (heven : s.length % 2 = 0)
    (h : (s.all fun c => (Text.hexDigit c).isSome) = true) : IsHexText s :=
  ⟨heven, List.all_eq_true.mp h⟩

/-- What bytes are written as is a hexadecimal string. -/
theorem isHexText_renderHex (bytes : List UInt8) : IsHexText (renderHex bytes) := by
  refine ⟨?_, fun c hc => mem_renderHex hc⟩
  unfold renderHex
  rw [List.length_flatMap]
  simp

/-- Bytes that were written are read back. -/
theorem hexBytes_renderHex (bytes : List UInt8) : hexBytes (renderHex bytes) = bytes := by
  induction bytes with
  | nil => rfl
  | cons v bytes ih =>
      have hlt := v.toNat_lt
      have hhigh := hexDigit_digitChar ⟨v.toNat / 16, by omega⟩
      have hlow := hexDigit_digitChar ⟨v.toNat % 16, by omega⟩
      have hcons : renderHex (v :: bytes) =
          Nat.digitChar (v.toNat / 16) :: Nat.digitChar (v.toNat % 16) :: renderHex bytes := rfl
      rw [hcons, hexBytes, hhigh, hlow, ih]
      simp only [Option.getD_some]
      rw [Nat.div_add_mod, UInt8.ofNat_toNat]

/-- The rendering of any bytes is read back. -/
theorem decodeHex_renderHex (bytes : List UInt8) :
    decodeHex (renderHex bytes) = .ok (some bytes) := by
  rw [decodeHex_ascii fun c hc => Text.utf8Size_of_hexDigit (mem_renderHex hc),
    readPairs_of_isHexText (isHexText_renderHex bytes), hexBytes_renderHex]

/-! ## Acceptance -/

/-- A string with a plus sign is not hexadecimal. -/
theorem not_isHexText_of_sign {s : List Char} (h : '+' ∈ s) : ¬ IsHexText s := by
  intro hhex
  have hplus := hhex.2 '+' h
  rw [hexDigit_plus] at hplus
  cases hplus

/-- A text all of whose pairs are numbers and that is not hexadecimal has a sign. -/
theorem takesSign_of_readPairs {s : List Char} {bytes : List UInt8}
    (hread : readPairs s = some bytes) (hhex : ¬ IsHexText s) : TakesSign s := by
  obtain ⟨heven, hpairs⟩ := (readPairs_isSome_iff s).mp (Option.isSome_iff_exists.mpr ⟨_, hread⟩)
  refine ⟨heven, hpairs, ?_⟩
  by_contra hsign
  refine hhex ⟨heven, ?_⟩
  intro c hc
  obtain ⟨i, hi⟩ := List.getElem?_of_mem hc
  refine (hpairs i c hi).resolve_right ?_
  rintro ⟨-, rfl⟩
  exact hsign hc

/-! ## What a value spells -/

/-- The texts that are read are the values. -/
theorem isSome_readPairs_iff_isValue (s : List Char) : (readPairs s).isSome ↔ IsValue s := by
  constructor
  · intro h
    obtain ⟨bytes, hbytes⟩ := Option.isSome_iff_exists.mp h
    by_cases hhex : IsHexText s
    · exact .inl hhex
    · exact .inr (takesSign_of_readPairs hbytes hhex)
  · rintro (hhex | hsign)
    · rw [readPairs_of_isHexText hhex]
      rfl
    · exact (readPairs_isSome_iff s).mpr ⟨hsign.even, hsign.pairs⟩

/-- A text that is read spells the bytes it is read as. -/
theorem hexBytes_of_readPairs {s : List Char} {bytes : List UInt8}
    (h : readPairs s = some bytes) : hexBytes s = bytes := by
  induction s using readPairs.induct generalizing bytes with
  | case1 =>
      cases h
      rfl
  | case2 c => cases h
  | case3 c d rest hnone =>
      rw [readPairs, hnone] at h
      cases h
  | case4 c d rest v hv ih =>
      rw [readPairs, hv] at h
      obtain ⟨bytes', hrest, rfl⟩ := Option.map_eq_some_iff.mp h
      have hvalue : 16 * (Text.hexDigit c).getD 0 + (Text.hexDigit d).getD 0 = v := by
        rw [fromStrRadix16_two] at hv
        split at hv
        · next hplus => rw [hplus, hexDigit_plus, hv, Option.getD_none, Option.getD_some]; omega
        · obtain ⟨m, hm, hv⟩ := Option.bind_eq_some_iff.mp hv
          obtain ⟨n, hn, rfl⟩ := Option.map_eq_some_iff.mp hv
          rw [hm, hn, Option.getD_some, Option.getD_some, Nat.mul_comm]
      rw [hexBytes, hvalue, ih hrest]

/-- The characters of a value have one byte each. -/
theorem utf8Size_of_isValue {s : List Char} (h : IsValue s) : ∀ c ∈ s, c.utf8Size = 1 := by
  intro c hc
  rcases h with hhex | hsign
  · exact Text.utf8Size_of_hexDigit (hhex.2 c hc)
  · obtain ⟨i, hi⟩ := List.getElem?_of_mem hc
    rcases hsign.pairs i c hi with hdigit | ⟨-, rfl⟩
    · exact Text.utf8Size_of_hexDigit hdigit
    · decide

/-- So have the characters of a text all of whose pairs are numbers. -/
theorem utf8Size_of_whole {s : List Char} (h : pairsEnd s = .whole) : ∀ c ∈ s, c.utf8Size = 1 := by
  induction s using pairsEnd.induct with
  | case1 => simp
  | case4 c d rest hc hd hnum ih =>
      rw [pairsEnd, if_pos hc, if_pos hd, if_pos hnum] at h
      rw [List.forall_mem_cons, List.forall_mem_cons]
      exact ⟨hc, hd, ih h⟩
  | case2 c hwide => simp [pairsEnd, hwide] at h
  | case3 c hnarrow => simp [pairsEnd, hnarrow] at h
  | case5 c d rest hc hd hnum => simp [pairsEnd, hc, hd, hnum] at h
  | case6 c d rest hc hd => simp [pairsEnd, hc, hd] at h
  | case7 c d rest hc htwo => simp [pairsEnd, htwo] at h
  | case8 c d rest hc htwo => simp [pairsEnd, hc, htwo] at h

/-- **What `decode_hex` returns is what the value spells.**
SOURCE: core/src/fs/keys.rs:144-152 -/
theorem decodeHex_eq_some_iff {s : List Char} {bytes : List UInt8} :
    decodeHex s = .ok (some bytes) ↔ IsValue s ∧ hexBytes s = bytes := by
  constructor
  · intro h
    have hwhole : pairsEnd s = .whole := by
      rcases Nat.mod_two_eq_zero_or_one (Text.byteLen s) with heven | hodd
      · cases hend : pairsEnd s with
        | whole => rfl
        | refused =>
            rw [decodeHex_refused hend] at h
            cases h
        | cut =>
            rw [decodeHex_cut heven hend] at h
            cases h
      · rw [decodeHex_odd hodd] at h
        cases h
    rw [decodeHex_ascii (utf8Size_of_whole hwhole), Except.ok.injEq] at h
    exact ⟨(isSome_readPairs_iff_isValue s).mp (by rw [h]; rfl), hexBytes_of_readPairs h⟩
  · rintro ⟨hvalue, rfl⟩
    obtain ⟨bytes, hbytes⟩ :=
      Option.isSome_iff_exists.mp ((isSome_readPairs_iff_isValue s).mpr hvalue)
    rw [decodeHex_ascii (utf8Size_of_isValue hvalue), hbytes, hexBytes_of_readPairs hbytes]

/-- **What a line gives is what its text spells.**
SOURCE: core/src/fs/keys.rs:50-61 -/
theorem readLine_eq_some_iff {lower : List Char → List Char} {line name : List Char}
    {bytes : List UInt8} :
    KeySet.readLine lower line = .ok (some (name, bytes)) ↔
      ∃ value, lineEntry lower line = some (name, value) ∧ IsValue value ∧
        hexBytes value = bytes := by
  constructor
  · intro h
    obtain ⟨value, hentry⟩ := entry_of_readLine h
    rw [readLine_of_entry hentry] at h
    obtain ⟨decoded, hdecode, heq⟩ := map_eq_ok h
    obtain ⟨bytes', rfl, heq⟩ := Option.map_eq_some_iff.mp heq
    cases heq
    exact ⟨value, hentry, decodeHex_eq_some_iff.mp hdecode⟩
  · rintro ⟨value, hentry, hvalue⟩
    rw [readLine_of_entry hentry, decodeHex_eq_some_iff.mpr hvalue]
    rfl

/-! ## Exactness -/

/-- A value with a plus sign in the right places is taken although it is not hexadecimal. -/
theorem not_acceptsExactly_of_takesSign {s : List Char} (hascii : ∀ c ∈ s, c.utf8Size = 1)
    (hsign : TakesSign s) : ¬ AcceptsExactly s := by
  intro h
  obtain ⟨bytes, hbytes⟩ :=
    Option.isSome_iff_exists.mp ((readPairs_isSome_iff s).mpr ⟨hsign.even, hsign.pairs⟩)
  have hread := decodeHex_ascii hascii
  rw [hbytes] at hread
  exact not_isHexText_of_sign hsign.sign ((h.accepts bytes).mp hread).1

/-- **An ASCII string is decoded exactly if it is hexadecimal, unless its pairs are all
numbers with a plus sign among them; the rendering of any bytes is read back.**
SOURCE: core/src/fs/keys.rs:144-152 -/
theorem decode_hex_exact_iff (s : List Char) (hascii : IsAscii s) :
    (AcceptsExactly s ↔ ¬ TakesSign s) ∧
      ∀ bytes, decodeHex (renderHex bytes) = .ok (some bytes) := by
  have hnarrow : ∀ c ∈ s, c.utf8Size = 1 := fun c hc => utf8Size_of_ascii (hascii c hc)
  refine ⟨⟨fun h hsign => not_acceptsExactly_of_takesSign hnarrow hsign h, ?_⟩,
    decodeHex_renderHex⟩
  intro hsign
  by_cases hhex : IsHexText s
  · refine ⟨?_, fun h => absurd hhex h⟩
    intro bytes
    rw [decodeHex_ascii hnarrow, readPairs_of_isHexText hhex, and_iff_right hhex]
    constructor
    · intro h
      cases h
      rfl
    · rintro rfl
      rfl
  · have hnone : readPairs s = none := by
      cases hread : readPairs s with
      | none => rfl
      | some bytes => exact absurd (takesSign_of_readPairs hread hhex) hsign
    have hrejected : decodeHex s = .ok none := by rw [decodeHex_ascii hnarrow, hnone]
    refine ⟨?_, fun _ => hrejected⟩
    intro bytes
    rw [hrejected]
    refine iff_of_false ?_ fun h => hhex h.1
    intro h
    cases h

/-- Digits of both cases. -/
theorem decode_hex_exact_digits :
    (AcceptsExactly "0aFf".toList ↔ ¬ TakesSign "0aFf".toList) ∧
      ∀ bytes, decodeHex (renderHex bytes) = .ok (some bytes) := by
  have hchars : "0aFf".toList = ['0', 'a', 'F', 'f'] := rfl
  apply decode_hex_exact_iff
  intro c hc
  rw [hchars] at hc
  simp only [List.mem_cons, List.not_mem_nil, or_false] at hc
  rcases hc with rfl | rfl | rfl | rfl
  all_goals decide

/-- A plus sign and a digit are accepted as a byte. -/
theorem decode_hex_accepts_sign :
    decodeHex "+1".toList = .ok (some [1]) ∧ ¬ AcceptsExactly "+1".toList := by
  have hdecoded : decodeHex "+1".toList = .ok (some [1]) := rfl
  refine ⟨hdecoded, ?_⟩
  intro h
  exact not_isHexText_of_sign (List.mem_cons_self) ((h.accepts [1]).mp hdecoded).1

end Oboromi.Analysis
