import Oboromi.Interface.KeyLines
import Oboromi.Analysis.KeySlots

/-!
# What one line of a key file does

`decodeHex` either returns bytes, refuses the value or panics, according to how reading the
value by pairs ends (`decodePairs_end`).  A line then does one of three things to a key set:
nothing, when it gives no bytes (`skipped_of_readLine`); it records its bytes under its name
and puts them in the header key or in the table its name addresses (`storeKey_header`,
`storeKey_addressed`); or it only records them (`storeKey_recorded`).  `Stores` says the same
for a line that returned, field by field.
-/

set_option autoImplicit false

namespace Oboromi.Analysis

open Oboromi.Lib Oboromi.Model Oboromi.Interface

/-! ## Values -/

/-- The positions of `n` pairs from the `k`-th on. -/
def pairPositions (k n : ℕ) : List ℕ := (List.range' k n).map (2 * ·)

/-- The pair positions from `k` on start with `2 * k`. -/
theorem pairPositions_succ (k n : ℕ) :
    pairPositions k (n + 1) = 2 * k :: pairPositions (k + 1) n := by
  simp [pairPositions, List.range'_succ]

/-- A pair of bytes that is cut or no number ends the reading. -/
theorem decodePairs_stop {front rest : List Char} {k n : ℕ} (hfront : Text.byteLen front = 2 * k)
    {r : Except Fault (List Char)} {r' : Except Fault (Option (List UInt8))}
    (hslice : Text.byteSlice (front ++ rest) (Text.byteLen front) (Text.byteLen front + 2) = r)
    (hr : (r = .error .panic ∧ r' = .error .panic) ∨
      ∃ pair, r = .ok pair ∧ Text.fromStrRadix16 256 pair = none ∧ r' = .ok none) :
    decodePairs (front ++ rest) (pairPositions k (n + 1)) = r' := by
  rw [pairPositions_succ, decodePairs, ← hfront, hslice]
  rcases hr with ⟨rfl, rfl⟩ | ⟨pair, rfl, hnone, rfl⟩
  · rfl
  · simp only [bind, Except.bind, hnone]
    rfl

/-- A pair that is a number is read, and reading goes on behind it. -/
theorem decodePairs_read {front rest : List Char} {c d : Char} {k n v : ℕ}
    (hfront : Text.byteLen front = 2 * k) (hc : c.utf8Size = 1) (hd : d.utf8Size = 1)
    (hv : Text.fromStrRadix16 256 [c, d] = some v) :
    decodePairs (front ++ c :: d :: rest) (pairPositions k (n + 1)) =
      (decodePairs ((front ++ [c, d]) ++ rest) (pairPositions (k + 1) n)).map
        (·.map (UInt8.ofNat v :: ·)) := by
  have hslice : Text.byteSlice (front ++ c :: d :: rest) (2 * k) (2 * k + 2) = .ok [c, d] := by
    rw [← hfront, Text.byteSlice_append, Text.splitAtByte_cons (by omega),
      Text.splitAtByte_cons (by omega), hc, hd, Text.splitAtByte_zero]
    rfl
  rw [pairPositions_succ, decodePairs, hslice]
  simp only [bind, Except.bind, hv]
  rw [List.append_assoc]
  rfl

/-- What reading by pairs gives, by how it ends. -/
def HexOutcome (len : ℕ) (r : Except Fault (Option (List UInt8))) : PairsEnd → Prop
  | .whole => ∃ bytes, r = .ok (some bytes) ∧ 2 * bytes.length = len
  | .refused => r = .ok none
  | .cut => r = .error .panic

/-- A byte in front does not change how it ends. -/
theorem HexOutcome.read {len : ℕ} {r : Except Fault (Option (List UInt8))} {e : PairsEnd}
    (h : HexOutcome len r e) (v : UInt8) : HexOutcome (len + 2) (r.map (·.map (v :: ·))) e := by
  cases e with
  | whole =>
      obtain ⟨bytes, rfl, hlen⟩ := h
      refine ⟨v :: bytes, rfl, ?_⟩
      simp only [List.length_cons]
      omega
  | refused =>
      cases h
      rfl
  | cut =>
      cases h
      rfl

/-- Reading the pairs of `rest`, which stands behind `2 * k` bytes. -/
theorem decodePairs_end (rest front : List Char) (k n : ℕ)
    (hfront : Text.byteLen front = 2 * k) (hrest : Text.byteLen rest = 2 * n) :
    HexOutcome rest.length (decodePairs (front ++ rest) (pairPositions k n)) (pairsEnd rest) := by
  induction rest using pairsEnd.induct generalizing front k n with
  | case1 =>
      obtain rfl : n = 0 := by simpa using hrest
      exact ⟨[], rfl, rfl⟩
  | case2 c hwide =>
      rw [Text.byteLen_cons, Text.byteLen_nil] at hrest
      obtain ⟨n, rfl⟩ : ∃ m, n = m + 1 := ⟨n - 1, by omega⟩
      have hslice := Text.byteSlice_append front [c] 2
      rw [Text.splitAtByte_inside (by omega) hwide] at hslice
      rw [pairsEnd, if_pos hwide]
      exact decodePairs_stop hfront hslice (.inl ⟨rfl, rfl⟩)
  | case3 c hnarrow =>
      rw [Text.byteLen_cons, Text.byteLen_nil] at hrest
      have hpos := c.utf8Size_pos
      obtain ⟨n, rfl⟩ : ∃ m, n = m + 1 := ⟨n - 1, by omega⟩
      have htwo : c.utf8Size = 2 := by omega
      have hslice := Text.byteSlice_append front [c] 2
      rw [Text.splitAtByte_cons (by omega), htwo, Text.splitAtByte_zero] at hslice
      rw [pairsEnd, if_neg hnarrow]
      exact decodePairs_stop hfront hslice
        (.inr ⟨[c], rfl, Text.fromStrRadix16_wide (by omega), rfl⟩)
  | case4 c d rest hc hd hnum ih =>
      rw [Text.byteLen_cons, Text.byteLen_cons, hc, hd] at hrest
      obtain ⟨n, rfl⟩ : ∃ m, n = m + 1 := ⟨n - 1, by omega⟩
      obtain ⟨v, hv⟩ := Option.isSome_iff_exists.mp hnum
      have hpair : Text.byteLen (front ++ [c, d]) = 2 * (k + 1) := by
        rw [Text.byteLen_append, hfront, Text.byteLen_cons, Text.byteLen_cons,
          Text.byteLen_nil, hc, hd]
        omega
      have hrest := ih (front ++ [c, d]) (k + 1) n hpair (by omega)
      rw [decodePairs_read hfront hc hd hv, pairsEnd, if_pos hc, if_pos hd, if_pos hnum]
      exact hrest.read (UInt8.ofNat v)
  | case5 c d rest hc hd hnum =>
      rw [Text.byteLen_cons, Text.byteLen_cons, hc, hd] at hrest
      obtain ⟨n, rfl⟩ : ∃ m, n = m + 1 := ⟨n - 1, by omega⟩
      have hnone : Text.fromStrRadix16 256 [c, d] = none :=
        Option.not_isSome_iff_eq_none.mp hnum
      have hslice := Text.byteSlice_append front (c :: d :: rest) 2
      rw [Text.splitAtByte_cons (by omega), Text.splitAtByte_cons (by omega), hc, hd,
        Text.splitAtByte_zero] at hslice
      rw [pairsEnd, if_pos hc, if_pos hd, if_neg hnum]
      exact decodePairs_stop hfront hslice (.inr ⟨[c, d], rfl, hnone, rfl⟩)
  | case6 c d rest hc hd =>
      rw [Text.byteLen_cons, Text.byteLen_cons, hc] at hrest
      have hpos := d.utf8Size_pos
      obtain ⟨n, rfl⟩ : ∃ m, n = m + 1 := ⟨n - 1, by omega⟩
      have hslice := Text.byteSlice_append front (c :: d :: rest) 2
      rw [Text.splitAtByte_cons (by omega), hc,
        Text.splitAtByte_inside (by omega) (by omega)] at hslice
      rw [pairsEnd, if_pos hc, if_neg hd]
      exact decodePairs_stop hfront hslice (.inl ⟨rfl, rfl⟩)
  | case7 c d rest hc htwo =>
      rw [Text.byteLen_cons, htwo] at hrest
      obtain ⟨n, rfl⟩ : ∃ m, n = m + 1 := ⟨n - 1, by omega⟩
      have hslice := Text.byteSlice_append front (c :: d :: rest) 2
      rw [Text.splitAtByte_cons (by omega), htwo, Text.splitAtByte_zero] at hslice
      rw [pairsEnd, if_neg hc, if_pos htwo]
      exact decodePairs_stop hfront hslice
        (.inr ⟨[c], rfl, Text.fromStrRadix16_wide (by omega), rfl⟩)
  | case8 c d rest hc htwo =>
      rw [Text.byteLen_cons] at hrest
      have hpos := c.utf8Size_pos
      obtain ⟨n, rfl⟩ : ∃ m, n = m + 1 := ⟨n - 1, by omega⟩
      have hslice := Text.byteSlice_append front (c :: d :: rest) 2
      rw [Text.splitAtByte_inside (by omega) (by omega)] at hslice
      rw [pairsEnd, if_neg hc, if_neg htwo]
      exact decodePairs_stop hfront hslice (.inl ⟨rfl, rfl⟩)

section Values

variable {value : List Char}

/-- On text of even length, decoding ends as its first bad pair says. -/
theorem decodeHex_outcome (heven : Text.byteLen value % 2 = 0) :
    HexOutcome value.length (decodeHex value) (pairsEnd value) := by
  have hpairs : decodeHex value =
      decodePairs ([] ++ value) (pairPositions 0 (Text.byteLen value / 2)) := by
    unfold decodeHex
    rw [if_neg (by omega), List.range_eq_range']
    rfl
  rw [hpairs]
  exact decodePairs_end value [] 0 _ rfl (by omega)

/-- Text of odd length is not decoded. -/
theorem decodeHex_odd (hodd : Text.byteLen value % 2 = 1) : decodeHex value = .ok none := by
  unfold decodeHex
  rw [if_pos (by omega)]
  rfl

/-- A pair that is no number makes the decoding give nothing. -/
theorem decodeHex_refused (hend : pairsEnd value = .refused) : decodeHex value = .ok none := by
  rcases Nat.mod_two_eq_zero_or_one (Text.byteLen value) with heven | hodd
  · have houtcome := decodeHex_outcome heven
    rw [hend] at houtcome
    exact houtcome
  · exact decodeHex_odd hodd

/-- A pair that cuts a character panics. -/
theorem decodeHex_cut (heven : Text.byteLen value % 2 = 0) (hend : pairsEnd value = .cut) :
    decodeHex value = .error .panic := by
  have houtcome := decodeHex_outcome heven
  rw [hend] at houtcome
  exact houtcome

/-- A value all of whose pairs are numbers has one character to the byte. -/
theorem byteLen_of_whole (hend : pairsEnd value = .whole) :
    Text.byteLen value = value.length ∧ value.length % 2 = 0 := by
  induction value using pairsEnd.induct with
  | case1 => exact ⟨rfl, rfl⟩
  | case4 c d rest hc hd hnum ih =>
      rw [pairsEnd, if_pos hc, if_pos hd, if_pos hnum] at hend
      obtain ⟨hlen, heven⟩ := ih hend
      simp only [Text.byteLen_cons, List.length_cons, hc, hd, hlen]
      omega
  | case2 c hwide => simp [pairsEnd, hwide] at hend
  | case3 c hnarrow => simp [pairsEnd, hnarrow] at hend
  | case5 c d rest hc hd hnum => simp [pairsEnd, hc, hd, hnum] at hend
  | case6 c d rest hc hd => simp [pairsEnd, hc, hd] at hend
  | case7 c d rest hc htwo => simp [pairsEnd, htwo] at hend
  | case8 c d rest hc htwo => simp [pairsEnd, hc, htwo] at hend

/-- Text of whole pairs is decoded to one byte a pair. -/
theorem decodeHex_whole (hend : pairsEnd value = .whole) :
    ∃ bytes, decodeHex value = .ok (some bytes) ∧ 2 * bytes.length = value.length := by
  obtain ⟨hlen, hcount⟩ := byteLen_of_whole hend
  have heven : Text.byteLen value % 2 = 0 := by omega
  have houtcome := decodeHex_outcome heven
  rw [hend] at houtcome
  exact houtcome

/-- A hexadecimal string of even length is read to its end. -/
theorem whole_of_isHexText (h : IsHexText value) : pairsEnd value = .whole := by
  obtain ⟨heven, hdigits⟩ := h
  induction value using pairsEnd.induct with
  | case1 => rfl
  | case2 c hwide => simp at heven
  | case3 c hnarrow => simp at heven
  | case4 c d rest hc hd hnum ih =>
      rw [pairsEnd, if_pos hc, if_pos hd, if_pos hnum]
      apply ih
      · simp only [List.length_cons] at heven
        omega
      · intro e he
        exact hdigits e (List.mem_cons_of_mem _ (List.mem_cons_of_mem _ he))
  | case5 c d rest hc hd hnum =>
      refine absurd (Text.fromStrRadix16_pair ?_ ?_) hnum
      · exact hdigits c List.mem_cons_self
      · exact hdigits d (List.mem_cons_of_mem _ List.mem_cons_self)
  | case6 c d rest hc hd =>
      exact absurd (Text.utf8Size_of_hexDigit
        (hdigits d (List.mem_cons_of_mem _ List.mem_cons_self))) hd
  | case7 c d rest hc htwo =>
      exact absurd (Text.utf8Size_of_hexDigit (hdigits c List.mem_cons_self)) hc
  | case8 c d rest hc htwo =>
      exact absurd (Text.utf8Size_of_hexDigit (hdigits c List.mem_cons_self)) hc

end Values

/-! ## Tables -/

section Tables

variable {b : Build} {v v' : List Key} {idx : UInt64} {bytes : List UInt8}

/-- A put that reaches its index. -/
theorem putKey_reaches {len : UInt64} {w : List Key} (hadd : b.addU64 idx 1 = .ok len)
    (hgrow : ensureLen v len = .ok w) (hlt : idx.toNat < w.length) :
    ∃ v', KeySet.putKey b v idx bytes = .ok v' := by
  unfold KeySet.putKey
  rw [hadd, ok_bind, hgrow, ok_bind]
  by_cases h16 : bytes.length = 16
  · rw [dif_pos h16, if_pos hlt]
    exact ⟨_, rfl⟩
  · rw [dif_neg h16]
    exact ⟨w, rfl⟩

/-- A put of something that is no key only makes the table longer. -/
theorem putKey_grows {len : UInt64} {w : List Key} (hadd : b.addU64 idx 1 = .ok len)
    (hgrow : ensureLen v len = .ok w) (h16 : bytes.length ≠ 16) :
    KeySet.putKey b v idx bytes = .ok w := by
  unfold KeySet.putKey
  rw [hadd, ok_bind, hgrow, ok_bind, dif_neg h16]
  rfl

/-- A usable index takes a key in either build. -/
theorem putKey_of_usable (hidx : Usable idx) :
    ∃ v', KeySet.putKey b v idx bytes = .ok v' := by
  have hone : (1 : UInt64).toNat = 1 := rfl
  unfold Usable at hidx
  have hfits : idx.toNat + (1 : UInt64).toNat < 2 ^ 64 := by omega
  obtain ⟨w, hw⟩ : ∃ w, ensureLen v (idx + 1) = .ok w := by
    unfold ensureLen
    rw [toNat_add_of_fits hfits, hone]
    by_cases hle : idx.toNat + 1 ≤ v.length
    · rw [if_pos hle]
      exact ⟨v, rfl⟩
    · rw [if_neg hle, if_pos hidx]
      exact ⟨_, rfl⟩
  apply putKey_reaches (Build.addU64_of_fits hfits) hw
  rw [length_grown (b := b) (Build.addU64_of_fits hfits) hw]
  exact .inr ⟨by omega, Nat.le_refl _⟩

/-- The last index in the release build: the length asked for wraps to zero. -/
theorem putKey_release_last (hlast : idx.toNat + 1 = 2 ^ 64) (h16 : bytes.length ≠ 16) :
    KeySet.putKey .release v idx bytes = .ok v := by
  have hone : (1 : UInt64).toNat = 1 := rfl
  have hzero : (idx + 1).toNat = 0 := by
    rw [toNat_add_of_wraps (by omega), hone, hlast, Nat.sub_self]
  apply putKey_grows Build.addU64_release _ h16
  unfold ensureLen
  rw [if_pos (by omega)]
  rfl

/-- An index a put succeeds for. -/
theorem putKey_eq_ok (halloc : v.length * 16 < 2 ^ 63)
    (h : KeySet.putKey b v idx bytes = .ok v') :
    Usable idx ∨ (v' = v ∧ b = .release ∧ idx.toNat + 1 = 2 ^ 64 ∧ bytes.length ≠ 16) := by
  have hone : (1 : UInt64).toNat = 1 := rfl
  have hlt := idx.toNat_lt
  by_cases hlast : idx.toNat + 1 = 2 ^ 64
  · right
    cases b with
    | debug =>
        unfold KeySet.putKey at h
        rw [Build.addU64_debug_of_wraps (by omega)] at h
        cases h
    | release =>
        have h16 : bytes.length ≠ 16 := by
          intro h16
          have hput := putKey_spec h
          have hcovered := hput.covered h16
          rcases (hput.length idx.toNat).mp hcovered with hold | ⟨hnew, -⟩
          · omega
          · omega
        rw [putKey_release_last hlast h16] at h
        cases h
        exact ⟨rfl, rfl, hlast, h16⟩
  · left
    unfold KeySet.putKey at h
    rw [Build.addU64_of_fits (by omega), ok_bind] at h
    obtain ⟨w, hgrow, -⟩ := bind_eq_ok h
    unfold ensureLen at hgrow
    rw [toNat_add_of_fits (by omega), hone] at hgrow
    unfold Usable
    split at hgrow
    · omega
    · split at hgrow
      · next hfits => exact hfits
      · cases hgrow

/-- Storing a key keeps the vector within what can be allocated. -/
theorem putKey_allocated (halloc : v.length * 16 < 2 ^ 63)
    (h : KeySet.putKey b v idx bytes = .ok v') : v'.length * 16 < 2 ^ 63 := by
  rcases putKey_eq_ok halloc h with hidx | ⟨rfl, -⟩
  · by_contra hlong
    have hlast : v'.length - 1 < v'.length := by omega
    unfold Usable at hidx
    rcases ((putKey_spec h).length _).mp hlast with hold | ⟨-, hnew⟩
    · omega
    · omega
  · exact halloc

end Tables

/-! ## Lines -/

/-- Replacing one table's keys leaves the other tables alone. -/
@[simp] theorem keys_withKeys (ks : KeySet) (v : List Key) (t t' : KeyTable) :
    t'.keys (t.withKeys ks v) = if t' = t then v else t'.keys ks := by
  cases t <;> cases t' <;> rfl

/-- **The index `parse_hex_suffix` reads is the one the name spells behind the prefix.**
SOURCE: core/src/fs/keys.rs:155-158 -/
theorem parseHexSuffix_eq_some_iff {name p : List Char} {idx : UInt64} :
    parseHexSuffix name p = some idx ↔ NamesIndex p name idx := by
  have hread (suffix : List Char) :
      ((Text.fromStrRadix16 (2 ^ 64) suffix).bind fun n => some (UInt64.ofNat n)) = some idx ↔
        Text.fromStrRadix16 (2 ^ 64) suffix = some idx.toNat := by
    rw [Option.bind_eq_some_iff]
    constructor
    · rintro ⟨n, hn, hidx⟩
      obtain ⟨-, -, -, -, -, hlt⟩ := (Text.fromStrRadix16_eq_some_iff (by decide) suffix n).mp hn
      rw [Option.some.injEq] at hidx
      rw [hn, ← hidx, UInt64.toNat_ofNat', Nat.mod_eq_of_lt hlt]
    · exact fun h => ⟨idx.toNat, h, congrArg some UInt64.ofNat_toNat⟩
  have hlt := idx.toNat_lt
  constructor
  · intro h
    obtain ⟨suffix, hpre, hsome⟩ := Option.bind_eq_some_iff.mp h
    obtain ⟨digits, hsuffix, hne, hdigits, hvalue, -⟩ :=
      (Text.fromStrRadix16_eq_some_iff (by decide) suffix _).mp ((hread suffix).mp hsome)
    rw [← List.isPrefixOf?_eq_some_iff_append_eq.mp hpre]
    refine ⟨digits, ?_, hne, hdigits, hvalue⟩
    exact hsuffix.imp (congrArg (p ++ ·)) (congrArg (p ++ ·))
  · rintro ⟨digits, hname, hne, hdigits, hvalue⟩
    obtain ⟨suffix, rfl, hsuffix⟩ : ∃ suffix, name = p ++ suffix ∧
        (suffix = digits ∨ suffix = '+' :: digits) := by
      rcases hname with hname | hname
      · exact ⟨_, hname, .inl rfl⟩
      · exact ⟨_, hname, .inr rfl⟩
    refine Option.bind_eq_some_iff.mpr
      ⟨suffix, List.isPrefixOf?_eq_some_iff_append_eq.mpr rfl, (hread suffix).mpr ?_⟩
    exact (Text.fromStrRadix16_eq_some_iff (by decide) suffix _).mpr
      ⟨digits, hsuffix, hne, hdigits, hvalue, hlt⟩

/-- A name that addresses an entry starts with the prefix of its table. -/
theorem prefix_of_addresses {name : List Char} {t : KeyTable} {idx : UInt64}
    (h : Addresses name t idx) : t.namePrefix <+: name := by
  obtain ⟨digits, rfl | rfl, -⟩ := h
  · exact List.prefix_append _ _
  · exact List.prefix_append _ _

/-- The prefixes of the four tables are not prefixes of one another. -/
theorem namePrefix_unique {name : List Char} {t t' : KeyTable}
    (h : t.namePrefix <+: name) (h' : t'.namePrefix <+: name) : t = t' := by
  rcases Nat.le_total t.namePrefix.length t'.namePrefix.length with hle | hle
  · have hpre := List.prefix_of_prefix_length_le h h' hle
    cases t <;> cases t' <;> first | rfl | exact absurd hpre (by decide)
  · have hpre := List.prefix_of_prefix_length_le h' h hle
    cases t <;> cases t' <;> first | rfl | exact absurd hpre (by decide)

/-- No table prefix starts the header key's name. -/
theorem namePrefix_not_header (t : KeyTable) : ¬ t.namePrefix <+: "header_key".toList := by
  cases t <;> decide

/-- A name addresses at most one table and one index. -/
theorem addresses_unique {name : List Char} {t t' : KeyTable} {idx idx' : UInt64}
    (h : Addresses name t idx) (h' : Addresses name t' idx') : t = t' ∧ idx = idx' := by
  obtain rfl := namePrefix_unique (prefix_of_addresses h) (prefix_of_addresses h')
  have hread := parseHexSuffix_eq_some_iff.mpr h
  rw [parseHexSuffix_eq_some_iff.mpr h', Option.some.injEq] at hread
  exact ⟨rfl, hread.symm⟩

/-- A key set that has recorded the bytes of a line. -/
def recorded (ks : KeySet) (name : List Char) (bytes : List UInt8) : KeySet :=
  { ks with raw := ks.raw.insert name bytes }

/-- Recording a raw key leaves the tables alone. -/
@[simp] theorem keys_recorded (ks : KeySet) (name : List Char) (bytes : List UInt8)
    (t : KeyTable) : t.keys (recorded ks name bytes) = t.keys ks := by
  cases t <;> rfl

section Stores

variable {b : Build} {ks ks' : KeySet} {name : List Char} {bytes : List UInt8}

/-- SOURCE: core/src/fs/keys.rs:73-104 -/
theorem storeKey_arm {t : KeyTable} (hpre : t.namePrefix <+: name) :
    ks.storeKey b name bytes = match parseHexSuffix name t.namePrefix with
      | none => return recorded ks name bytes
      | some idx => do
        let table ← KeySet.putKey b (t.keys ks) idx bytes
        return t.withKeys (recorded ks name bytes) table := by
  have hheader : name ≠ "header_key".toList := by
    rintro rfl
    exact namePrefix_not_header t hpre
  have hother (t' : KeyTable) (hne : t' ≠ t) : ¬ t'.namePrefix.isPrefixOf name = true :=
    fun h => hne (namePrefix_unique (List.isPrefixOf_iff_prefix.mp h) hpre)
  have hself := List.isPrefixOf_iff_prefix.mpr hpre
  unfold KeySet.storeKey
  rw [if_neg hheader]
  cases t with
  | application => exact if_pos hself
  | system =>
      apply (if_neg (hother .application (by decide))).trans
      exact if_pos hself
  | ocean =>
      apply (if_neg (hother .application (by decide))).trans
      apply (if_neg (hother .system (by decide))).trans
      exact if_pos hself
  | titleKek =>
      apply (if_neg (hother .application (by decide))).trans
      apply (if_neg (hother .system (by decide))).trans
      apply (if_neg (hother .ocean (by decide))).trans
      exact if_pos hself

/-- A name that addresses an entry of a table. -/
theorem storeKey_addressed {t : KeyTable} {idx : UInt64} (h : Addresses name t idx) :
    ks.storeKey b name bytes =
      (KeySet.putKey b (t.keys ks) idx bytes).map (t.withKeys (recorded ks name bytes)) := by
  rw [storeKey_arm (prefix_of_addresses h), parseHexSuffix_eq_some_iff.mpr h]
  show (KeySet.putKey b (t.keys ks) idx bytes >>= _) = _
  cases KeySet.putKey b (t.keys ks) idx bytes <;> rfl

/-- A name that is not the header key's and addresses no entry. -/
theorem storeKey_recorded (hheader : name ≠ "header_key".toList)
    (h : ∀ t idx, ¬ Addresses name t idx) :
    ks.storeKey b name bytes = .ok (recorded ks name bytes) := by
  by_cases hpre : ∃ t : KeyTable, t.namePrefix <+: name
  · obtain ⟨t, hpre⟩ := hpre
    have hnone : parseHexSuffix name t.namePrefix = none :=
      Option.eq_none_iff_forall_ne_some.mpr fun idx hidx =>
        h t idx (parseHexSuffix_eq_some_iff.mp hidx)
    rw [storeKey_arm hpre, hnone]
    rfl
  · have hno (t : KeyTable) : ¬ t.namePrefix.isPrefixOf name = true :=
      fun hp => hpre ⟨t, List.isPrefixOf_iff_prefix.mp hp⟩
    unfold KeySet.storeKey
    rw [if_neg hheader]
    apply (if_neg (hno .application)).trans
    apply (if_neg (hno .system)).trans
    apply (if_neg (hno .ocean)).trans
    exact if_neg (hno .titleKek)

/-- The header key's name addresses no table. -/
theorem header_addresses_nothing (t : KeyTable) (idx : UInt64) :
    ¬ Addresses "header_key".toList t idx :=
  fun h => namePrefix_not_header t (prefix_of_addresses h)

/-- What a line with these bytes under this name does to a key set. -/
structure Stores (b : Build) (ks ks' : KeySet) (name : List Char) (bytes : List UInt8) :
    Prop where
  raw : ks'.raw = ks.raw.insert name bytes
  header : ks'.headerKey.map Vector.toList =
    if name = "header_key".toList ∧ bytes.length = 32 then some bytes
    else ks.headerKey.map Vector.toList
  addressed : ∀ t idx, Addresses name t idx →
    KeySet.putKey b (t.keys ks) idx bytes = .ok (t.keys ks')
  kept : ∀ t : KeyTable, (∀ idx, ¬ Addresses name t idx) → t.keys ks' = t.keys ks

/-- The header key's line.
SOURCE: core/src/fs/keys.rs:66-72 -/
theorem storeKey_header (b : Build) (ks : KeySet) (bytes : List UInt8) :
    ∃ ks', ks.storeKey b "header_key".toList bytes = .ok ks' ∧
      Stores b ks ks' "header_key".toList bytes := by
  unfold KeySet.storeKey
  rw [if_pos rfl]
  by_cases h32 : bytes.length = 32
  · rw [dif_pos h32]
    refine ⟨_, rfl, ⟨rfl, ?_, ?_, ?_⟩⟩
    · rw [if_pos ⟨rfl, h32⟩]
      rfl
    · intro t idx h
      exact absurd h (header_addresses_nothing t idx)
    · intro t _
      cases t <;> rfl
  · rw [dif_neg h32]
    refine ⟨_, rfl, ⟨rfl, ?_, ?_, ?_⟩⟩
    · rw [if_neg fun h => h32 h.2]
    · intro t idx h
      exact absurd h (header_addresses_nothing t idx)
    · intro t _
      cases t <;> rfl

/-- SOURCE: core/src/fs/keys.rs:63-106 -/
theorem storeKey_stores (h : ks.storeKey b name bytes = .ok ks') :
    Stores b ks ks' name bytes := by
  by_cases hheader : name = "header_key".toList
  · subst hheader
    obtain ⟨ks'', hstore, hstores⟩ := storeKey_header b ks bytes
    rw [hstore] at h
    cases h
    exact hstores
  have hkept : (if name = "header_key".toList ∧ bytes.length = 32 then some bytes
      else ks.headerKey.map Vector.toList) = ks.headerKey.map Vector.toList :=
    if_neg fun h => hheader h.1
  by_cases haddr : ∃ t idx, Addresses name t idx
  · obtain ⟨t, idx, haddr⟩ := haddr
    rw [storeKey_addressed haddr] at h
    obtain ⟨v, hput, rfl⟩ := map_eq_ok h
    refine ⟨by cases t <;> rfl, ?_, ?_, ?_⟩
    · rw [hkept]
      cases t <;> rfl
    · intro t' idx' haddr'
      obtain ⟨rfl, rfl⟩ := addresses_unique haddr haddr'
      rw [hput, keys_withKeys, if_pos rfl]
    · intro t' hnone
      have hne : t' ≠ t := by
        rintro rfl
        exact hnone idx haddr
      rw [keys_withKeys, if_neg hne, keys_recorded]
  · have hnone (t : KeyTable) (idx : UInt64) : ¬ Addresses name t idx :=
      fun haddr' => haddr ⟨t, idx, haddr'⟩
    rw [storeKey_recorded hheader hnone] at h
    cases h
    exact ⟨rfl, hkept.symm, fun t idx haddr' => absurd haddr' (hnone t idx),
      fun t _ => keys_recorded ks name bytes t⟩

/-- A line is stored when the put to the table it addresses returns. -/
theorem storeKey_returns (h : ∀ t idx, Addresses name t idx →
    ∃ v, KeySet.putKey b (t.keys ks) idx bytes = .ok v) :
    ∃ ks', ks.storeKey b name bytes = .ok ks' := by
  by_cases hheader : name = "header_key".toList
  · subst hheader
    obtain ⟨ks', hstore, -⟩ := storeKey_header b ks bytes
    exact ⟨ks', hstore⟩
  by_cases haddr : ∃ t idx, Addresses name t idx
  · obtain ⟨t, idx, haddr⟩ := haddr
    obtain ⟨v, hput⟩ := h t idx haddr
    rw [storeKey_addressed haddr, hput]
    exact ⟨_, rfl⟩
  · exact ⟨_, storeKey_recorded hheader fun t idx haddr' => haddr ⟨t, idx, haddr'⟩⟩

end Stores

section Lines

variable {b : Build} {lower : List Char → List Char} {line name value : List Char}
  {ks ks' : KeySet}

/-- The lines that are blank or comments. -/
def Blank (line : List Char) : Prop :=
  Text.trim line = [] ∨ (Text.trim line).head? = some ';' ∨ (Text.trim line).head? = some '#'

/-- A line without an entry reads as no key. -/
theorem readLine_of_no_entry (h : lineEntry lower line = none) :
    KeySet.readLine lower line = .ok none := by
  by_cases hblank : Blank line
  · exact if_pos hblank
  · replace h := (if_neg hblank).symm.trans h
    rw [Option.map_eq_none_iff] at h
    apply (if_neg hblank).trans
    rw [h]
    rfl

/-- A line with an entry reads as its name and its decoded value. -/
theorem readLine_of_entry (h : lineEntry lower line = some (name, value)) :
    KeySet.readLine lower line = (decodeHex value).map (Option.map (Prod.mk name)) := by
  by_cases hblank : Blank line
  · replace h := (if_pos hblank).symm.trans h
    cases h
  · replace h := (if_neg hblank).symm.trans h
    rw [Option.map_eq_some_iff] at h
    obtain ⟨⟨name', value'⟩, hsplit, heq⟩ := h
    cases heq
    apply (if_neg hblank).trans
    rw [hsplit]
    show (decodeHex _ >>= _) = _
    rcases decodeHex _ with e | (_ | bytes) <;> rfl

/-- Parsing a line that reads as a key stores the key. -/
theorem parseLine_of_readLine {bytes : List UInt8}
    (h : KeySet.readLine lower line = .ok (some (name, bytes))) :
    KeySet.parseLine b lower ks line = ks.storeKey b name bytes := by
  unfold KeySet.parseLine
  rw [h]
  rfl

/-- A line that reads as no key is skipped. -/
theorem skipped_of_readLine (h : KeySet.readLine lower line = .ok none) :
    Skipped b lower line := by
  intro ks
  unfold KeySet.parseLine
  rw [h]
  rfl

/-- A line whose value is refused is skipped. -/
theorem skipped_of_refused (hentry : lineEntry lower line = some (name, value))
    (h : Text.byteLen value % 2 = 1 ∨ pairsEnd value = .refused) : Skipped b lower line := by
  apply skipped_of_readLine
  rw [readLine_of_entry hentry]
  rcases h with hodd | hrefused
  · rw [decodeHex_odd hodd]
    rfl
  · rw [decodeHex_refused hrefused]
    rfl

/-- What a line that returned did. -/
theorem parseLine_cases (h : KeySet.parseLine b lower ks line = .ok ks') :
    (KeySet.readLine lower line = .ok none ∧ ks' = ks) ∨
      ∃ name bytes, KeySet.readLine lower line = .ok (some (name, bytes)) ∧
        Stores b ks ks' name bytes := by
  unfold KeySet.parseLine at h
  obtain ⟨given, hread, h⟩ := bind_eq_ok h
  cases given with
  | none =>
      cases h
      exact .inl ⟨hread, rfl⟩
  | some entry => exact .inr ⟨entry.1, entry.2, hread, storeKey_stores h⟩

/-- A line that gives bytes has the form of an entry. -/
theorem entry_of_readLine {bytes : List UInt8}
    (h : KeySet.readLine lower line = .ok (some (name, bytes))) :
    ∃ value, lineEntry lower line = some (name, value) := by
  cases hentry : lineEntry lower line with
  | none =>
      rw [readLine_of_no_entry hentry] at h
      cases h
  | some entry =>
      obtain ⟨name', value⟩ := entry
      rw [readLine_of_entry hentry] at h
      obtain ⟨given, -, hgiven⟩ := map_eq_ok h
      obtain ⟨bytes', -, heq⟩ := Option.map_eq_some_iff.mp hgiven
      obtain ⟨rfl, rfl⟩ := Prod.mk.inj heq
      exact ⟨value, rfl⟩

/-- A line that returned once always returns: whether it does is settled by its text. -/
theorem parseLine_returns (halloc : Allocated ks)
    (h : KeySet.parseLine b lower ks line = .ok ks') (ks₁ : KeySet) :
    ∃ ks₂, KeySet.parseLine b lower ks₁ line = .ok ks₂ := by
  rcases parseLine_cases h with ⟨hread, -⟩ | ⟨name, bytes, hread, hstores⟩
  · exact ⟨ks₁, skipped_of_readLine hread ks₁⟩
  · rw [parseLine_of_readLine hread]
    apply storeKey_returns
    intro t idx haddr
    rcases putKey_eq_ok (halloc t) (hstores.addressed t idx haddr) with
      hidx | ⟨-, rfl, hlast, h16⟩
    · exact putKey_of_usable hidx
    · exact ⟨_, putKey_release_last hlast h16⟩

/-- A line keeps the tables within what can be allocated. -/
theorem parseLine_allocated (halloc : Allocated ks)
    (h : KeySet.parseLine b lower ks line = .ok ks') : Allocated ks' := by
  intro t
  rcases parseLine_cases h with ⟨-, rfl⟩ | ⟨name, bytes, -, hstores⟩
  · exact halloc t
  · by_cases haddr : ∃ idx, Addresses name t idx
    · obtain ⟨idx, haddr⟩ := haddr
      exact putKey_allocated (halloc t) (hstores.addressed t idx haddr)
    · rw [hstores.kept t fun idx h => haddr ⟨idx, h⟩]
      exact halloc t

/-- The empty tables are within what can be allocated. -/
theorem allocated_default : Allocated KeySet.default := by
  intro t
  cases t <;> decide

/-- A text whose lines return from every key set is parsed to its end. -/
theorem parse_of_lines {text : List Char}
    (h : ∀ line ∈ Text.lines text, ∀ ks, ∃ ks', KeySet.parseLine b lower ks line = .ok ks') :
    ∃ ks, KeySet.parse b lower text = .ok ks := by
  let Inv : List (List Char) → KeySet → Prop := fun rest _ =>
    ∀ line ∈ rest, ∀ ks, ∃ ks', KeySet.parseLine b lower ks line = .ok ks'
  have hbody : ∀ line rest ks, Inv (line :: rest) ks →
      ∃ ks', KeySet.parseLine b lower ks line = .ok ks' ∧ Inv rest ks' := by
    intro line rest ks hrest
    obtain ⟨ks', hline⟩ := hrest line List.mem_cons_self ks
    exact ⟨ks', hline, fun l hl => hrest l (List.mem_cons_of_mem _ hl)⟩
  have hstart : Inv (Text.lines text) KeySet.default := h
  exact foldlM_returns hbody (Text.lines text) hstart

/-- Every line of a text that was parsed returned from an allocated key set. -/
theorem lines_of_parse {text : List Char} (h : KeySet.parse b lower text = .ok ks)
    (hline : line ∈ Text.lines text) :
    ∃ ks₁ ks₂, Allocated ks₁ ∧ KeySet.parseLine b lower ks₁ line = .ok ks₂ := by
  have hkeep : ∀ line ∈ Text.lines text, ∀ ks ks', Allocated ks →
      KeySet.parseLine b lower ks line = .ok ks' → Allocated ks' :=
    fun line _ ks ks' => parseLine_allocated
  exact foldlM_visits (Text.lines text) hkeep allocated_default h hline

end Lines

/-- Lower-casing of ASCII letters. -/
def lowerAscii (s : List Char) : List Char := s.map Char.toLower

end Oboromi.Analysis
