import Oboromi.Analysis.KeyContents

/-!
# The order of the lines of a key file

The lines that give a value for one name or one entry depend on one another, so a reordering
that keeps dependent lines in order leaves the last of them the last, and with it the key set
(`parse_reordered`).
-/

set_option autoImplicit false

namespace Oboromi.Analysis

open Oboromi.Lib Oboromi.Model Oboromi.Interface

section Reordering

variable {lower : List Char → List Char} {b : Build} {lines lines' : List (List Char)}
  {ks ks' : KeySet}

/-- Reordering independent lines does not change which indices they reach. -/
theorem extends_reordered (r : Reorders (Dependent lower) lines lines') (t : KeyTable) (g : ℕ) :
    Extends lower lines' t g ↔ Extends lower lines t g := by
  unfold Extends
  simp only [r.mem_iff]

/-- Values for the same name or the same entry do not change with the order. -/
theorem lastSome_reordered (r : Reorders (Dependent lower) lines lines')
    {p : List Char → List UInt8 → Prop} [∀ name bytes, Decidable (p name bytes)]
    (hp : ∀ n n' bytes bytes', p n bytes → p n' bytes' →
      n = n' ∨ ∃ t idx, Addresses n t idx ∧ Addresses n' t idx) :
    lastSome (givenTo lower p) lines' = lastSome (givenTo lower p) lines :=
  r.lastSome_eq (givenTo lower p) fun _ _ => dependent_of_given hp

/-- A table past the last `usize` has no entries. -/
theorem length_le_of_follow (h : KeysFollow lower lines ks) (t : KeyTable) :
    (t.keys ks).length ≤ 2 ^ 64 := by
  by_contra hlong
  obtain ⟨line, hline, name, bytes, idx, hread, haddr, hidx, hle⟩ :=
    (h.reach t (2 ^ 64)).mp (by omega)
  omega

/-- Key sets that follow from reordered lines agree. -/
theorem sameKeys_of_reordered (r : Reorders (Dependent lower) lines lines')
    (h : KeysFollow lower lines ks) (h' : KeysFollow lower lines' ks') : SameKeys ks ks' := by
  refine ⟨?_, ?_, ?_⟩
  · apply Option.map_injective fun x y => Vector.toList_inj.mp
    rw [h.header, h'.header]
    exact lastSome_reordered r fun n n' _ _ hn hn' => .inl (hn.1.trans hn'.1.symm)
  · intro t
    have hlength : (t.keys ks').length = (t.keys ks).length := by
      apply Nat.le_antisymm
      · apply Nat.le_of_not_lt
        intro hlt
        have hext := (extends_reordered r t _).mp ((h'.reach t _).mp hlt)
        exact Nat.lt_irrefl _ ((h.reach t _).mpr hext)
      · apply Nat.le_of_not_lt
        intro hlt
        have hext := (extends_reordered r t _).mpr ((h.reach t _).mp hlt)
        exact Nat.lt_irrefl _ ((h'.reach t _).mpr hext)
    apply List.ext_getElem hlength
    intro n hn' hn
    have hbound := length_le_of_follow h t
    obtain ⟨g, rfl⟩ : ∃ g : UInt64, n = g.toNat := by
      refine ⟨UInt64.ofNat n, ?_⟩
      rw [UInt64.toNat_ofNat', Nat.mod_eq_of_lt (by omega)]
    have hsame : lastSome (entryValue lower t g) lines' = lastSome (entryValue lower t g) lines :=
      lastSome_reordered r fun n n' _ _ hn hn' =>
        .inr ⟨t, _, parseHexSuffix_eq_some_iff.mp hn.1, parseHexSuffix_eq_some_iff.mp hn'.1⟩
    have hkey := h'.entry t g _ (List.getElem?_eq_getElem hn')
    rw [hsame, ← h.entry t g _ (List.getElem?_eq_getElem hn)] at hkey
    exact Vector.toList_inj.mp hkey
  · intro name
    rw [h.raw, h'.raw]
    exact lastSome_reordered r fun n n' _ _ hn hn' => .inl (hn.trans hn'.symm)

/-- The last line that assigns an entry decides it. -/
theorem entry_of_last {t : KeyTable} {idx : UInt64} {k : Key} {line : List Char}
    {before after : List (List Char)} (h : KeysFollow lower (before ++ line :: after) ks)
    (hline : AssignsEntry lower t idx k line)
    (hafter : ∀ l ∈ after, ∀ k', ¬ AssignsEntry lower t idx k' l) :
    (t.keys ks)[idx.toNat]? = some k := by
  have hnone : ∀ l ∈ after, entryValue lower t idx l = none := by
    intro l hl
    cases hl' : entryValue lower t idx l with
    | none => rfl
    | some bytes =>
        obtain ⟨k', -, hassigns⟩ := entryValue_eq_some hl'
        exact absurd hassigns (hafter l hl k')
  have hlast := lastSome_append_cons (entryValue_of_assigns hline) before hnone
  have hlt := h.covered t idx _ hlast
  have hfound := List.getElem?_eq_getElem hlt
  have hk := h.entry t idx _ hfound
  rw [hlast, Option.getD_some] at hk
  rw [hfound, Vector.toList_inj.mp hk]

/-- The last line that gives a header key decides it. -/
theorem header_of_last {headerKey : Vector UInt8 32} (h : KeysFollow lower lines ks)
    (hlast : LastGives (GivesHeader lower) lines headerKey) : ks.headerKey = some headerKey := by
  obtain ⟨before, line, after, rfl, hline, hafter⟩ := hlast
  have hnone : ∀ l ∈ after, headerValue lower l = none := by
    intro l hl
    cases hl' : headerValue lower l with
    | none => rfl
    | some bytes =>
        obtain ⟨k', -, hgives⟩ := headerValue_eq_some hl'
        exact absurd hgives (hafter l hl k')
  have hheader := h.header
  rw [lastSome_append_cons (headerValue_of_gives hline) before hnone] at hheader
  exact Option.map_injective (fun _ _ => Vector.toList_inj.mp) hheader

/-- **Independent lines of a key file may stand in any order.**
SOURCE: core/src/fs/keys.rs:46-110 -/
theorem parse_reordered {text text' : List Char} (h : KeySet.parse b lower text = .ok ks)
    (r : Reorders (Dependent lower) (Text.lines text) (Text.lines text')) :
    (∃ ks', KeySet.parse b lower text' = .ok ks' ∧ SameKeys ks ks') ∧
      ∀ (t : KeyTable) (idx : UInt64) (k : Key) (line : List Char)
        (before after : List (List Char)), Text.lines text = before ++ line :: after →
        AssignsEntry lower t idx k line → (∀ l ∈ after, ∀ k', ¬ AssignsEntry lower t idx k' l) →
        (t.keys ks)[idx.toNat]? = some k := by
  have hfollow := parse_keysFollow h
  constructor
  · have hlines : ∀ line ∈ Text.lines text', ∀ ks₁,
        ∃ ks₂, KeySet.parseLine b lower ks₁ line = .ok ks₂ := by
      intro line hline
      obtain ⟨ks₁, ks₂, halloc, hstep⟩ := lines_of_parse h ((r.mem_iff line).mp hline)
      exact parseLine_returns halloc hstep
    obtain ⟨ks', hparse⟩ := parse_of_lines hlines
    exact ⟨ks', hparse, sameKeys_of_reordered r hfollow (parse_keysFollow hparse)⟩
  · intro t idx k line before after hlines hline hafter
    rw [hlines] at hfollow
    exact entry_of_last hfollow hline hafter

end Reordering

/-- Two lines for two entries of a table, the second spelled with a leading zero. -/
def twoLines : List Char :=
  "title_kek_1 = 00112233445566778899aabbccddeeff\ntitle_kek_00 = 01".toList

/-- The same lines the other way round. -/
def twoLinesSwapped : List Char :=
  "title_kek_00 = 01\ntitle_kek_1 = 00112233445566778899aabbccddeeff".toList

/-- What the first line is read as, -/
theorem lineEntry_twoLines_first :
    lineEntry lowerAscii "title_kek_1 = 00112233445566778899aabbccddeeff".toList =
      some ("title_kek_1".toList, "00112233445566778899aabbccddeeff".toList) := rfl

/-- and the second. -/
theorem lineEntry_twoLines_second : lineEntry lowerAscii "title_kek_00 = 01".toList =
    some ("title_kek_00".toList, "01".toList) := rfl

/-- `title_kek_1` addresses index one of the title keks. -/
theorem addresses_title_kek_1 : Addresses "title_kek_1".toList .titleKek 1 :=
  parseHexSuffix_eq_some_iff.mp rfl

/-- `title_kek_00` addresses index zero of the title keks. -/
theorem addresses_title_kek_00 : Addresses "title_kek_00".toList .titleKek 0 :=
  parseHexSuffix_eq_some_iff.mp rfl

/-- The sample's two lines address different entries. -/
theorem twoLines_independent :
    ¬ Dependent lowerAscii "title_kek_1 = 00112233445566778899aabbccddeeff".toList
      "title_kek_00 = 01".toList := by
  rintro ⟨entry, entry', hentry, hentry', hdep⟩
  rw [lineEntry_twoLines_first, Option.some.injEq] at hentry
  rw [lineEntry_twoLines_second, Option.some.injEq] at hentry'
  subst hentry hentry'
  rcases hdep with hname | ⟨t, idx, haddr, haddr'⟩
  · exact absurd hname (by decide)
  · have hidx := (addresses_unique addresses_title_kek_1 haddr).2.trans
      (addresses_unique addresses_title_kek_00 haddr').2.symm
    exact absurd hidx (by decide)

/-- The key of the first line. -/
def countingKey : Key := Vector.ofFn fun i => UInt8.ofNat (0x11 * i)

/-- The sample's first line assigns the counting key. -/
theorem assigns_twoLines_first : AssignsEntry lowerAscii .titleKek 1 countingKey
    "title_kek_1 = 00112233445566778899aabbccddeeff".toList :=
  ⟨_, _, lineEntry_twoLines_first, addresses_title_kek_1,
    .inl (isHexText_of_all rfl (by decide +kernel)), rfl⟩

/-- The second line gives its byte to another entry. -/
theorem not_assigns_twoLines_second (k : Key) :
    ¬ AssignsEntry lowerAscii .titleKek 1 k "title_kek_00 = 01".toList := by
  rintro ⟨name, value, hentry, haddr, -⟩
  rw [lineEntry_twoLines_second, Option.some.injEq, Prod.mk.injEq] at hentry
  rw [← hentry.1] at haddr
  exact absurd (addresses_unique addresses_title_kek_00 haddr).2 (by decide)

/-- SOURCE: core/src/fs/keys.rs:46-110 -/
theorem parse_twoLines_swapped : ∃ ks ks',
    KeySet.parse .release lowerAscii twoLines = .ok ks ∧
      KeySet.parse .release lowerAscii twoLinesSwapped = .ok ks' ∧ SameKeys ks ks' ∧
      ks.titleKek[1]? = some countingKey := by
  have hparse : ∃ ks, KeySet.parse .release lowerAscii twoLines = .ok ks := ⟨_, rfl⟩
  obtain ⟨ks, hks⟩ := hparse
  have hswap : Reorders (Dependent lowerAscii) (Text.lines twoLines)
      (Text.lines twoLinesSwapped) := Reorders.swap twoLines_independent
  obtain ⟨⟨ks', hks', hsame⟩, hlast⟩ := parse_reordered hks hswap
  exact ⟨ks, ks', hks, hks', hsame, hlast .titleKek 1 countingKey _ [] _ rfl
    assigns_twoLines_first (List.forall_mem_singleton.mpr not_assigns_twoLines_second)⟩

end Oboromi.Analysis
