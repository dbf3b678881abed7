import Oboromi.Analysis.HexDigits
import Oboromi.Analysis.KeyContents
import Oboromi.Interface.KeyFileText

/-!
# A key file that was written is read back

Each line of a written file is one line of its text, and reading it gives its name and its bytes
(`readLine_text`).  What a parse leaves is then what `KeysFollow` says of the lines, with every
class of lines told from what the lines are.
-/

set_option autoImplicit false

namespace Oboromi.Analysis

open Oboromi.Lib Oboromi.Model Oboromi.Interface

/-! ## Characters -/

/-- The codes of the characters of a name. -/
theorem ascii_of_nameChar {c : Char} (h : NameChar c) : 48 ≤ c.toNat ∧ c.toNat ≤ 57 ∨
    c.toNat = 95 ∨ 97 ≤ c.toNat ∧ c.toNat ≤ 122 := by
  rcases h with hlower | hdigit | rfl
  · have hbounds : (decide (97 ≤ c.val) && decide (c.val ≤ 122)) = true := hlower
    rw [Bool.and_eq_true, decide_eq_true_eq, decide_eq_true_eq] at hbounds
    exact .inr (.inr ⟨UInt32.le_iff_toNat_le.mp hbounds.1, UInt32.le_iff_toNat_le.mp hbounds.2⟩)
  · simp only [Char.isDigit, ge_iff_le, Bool.and_eq_true, decide_eq_true_eq,
      UInt32.le_iff_toNat_le] at hdigit
    exact .inl hdigit
  · exact .inr (.inl rfl)

/-- A character of a name is no white space. -/
theorem nameChar_not_white {c : Char} (h : NameChar c) : Text.isWhitespace c = false := by
  have hascii := ascii_of_nameChar h
  unfold Text.isWhitespace
  simp only [Bool.or_eq_false_iff, Bool.and_eq_false_iff, decide_eq_false_iff_not]
  omega

/-- Hexadecimal digits are neither white space nor line ends. -/
theorem nameChar_of_hexDigit {c : Char} (h : (Text.hexDigit c).isSome) :
    Text.isWhitespace c = false ∧ c ≠ ' ' ∧ c ≠ '\n' ∧ c ≠ '\r' := by
  have hrange : 48 ≤ c.toNat ∧ c.toNat ≤ 102 := by
    unfold Text.hexDigit at h
    simp only [Char.le_def, UInt32.le_iff_toNat_le] at h
    split at h
    · next hc =>
        have hlo : 48 ≤ c.toNat := hc.1
        have hhi : c.toNat ≤ 57 := hc.2
        omega
    · split at h
      · next hc =>
          have hlo : 97 ≤ c.toNat := hc.1
          have hhi : c.toNat ≤ 102 := hc.2
          omega
      · split at h
        · next hc =>
            have hlo : 65 ≤ c.toNat := hc.1
            have hhi : c.toNat ≤ 70 := hc.2
            omega
        · cases h
  refine ⟨?_, ?_, ?_, ?_⟩
  · unfold Text.isWhitespace
    simp only [Bool.or_eq_false_iff, Bool.and_eq_false_iff, decide_eq_false_iff_not]
    omega
  all_goals
    rintro rfl
    exact absurd hrange (by decide)

/-- The sixteen digit characters may stand in a key name. -/
theorem nameChar_digitChar : ∀ n : Fin 16, NameChar (Nat.digitChar n) := by
  unfold NameChar
  decide

/-- Lower case letters, digits and underscores may stand in a key name. -/
theorem nameChar_of_all {s : List Char}
    (h : (s.all fun c => c.isLower || c.isDigit || c == '_') = true) : ∀ c ∈ s, NameChar c := by
  intro c hc
  have hchar := List.all_eq_true.mp h c hc
  simpa [NameChar, or_assoc] using hchar

/-- The table prefixes are made of name characters. -/
theorem nameChar_namePrefix (t : KeyTable) : ∀ c ∈ t.namePrefix, NameChar c :=
  nameChar_of_all (by cases t <;> rfl)

/-- The header key's name is made of name characters. -/
theorem nameChar_header : ∀ c ∈ "header_key".toList, NameChar c := nameChar_of_all rfl

/-! ## Indexes -/

/-- The digits of an index are hexadecimal. -/
theorem indexDigits_lt {n d : ℕ} (h : d ∈ indexDigits n) : d < 16 := by
  rcases List.mem_append.mp h with hdigit | hzero
  · exact Nat.digits_lt_base (by decide) hdigit
  · rw [List.eq_of_mem_replicate hzero]
    decide

/-- The digits of an index denote the index. -/
theorem ofDigits_indexDigits (n : ℕ) : Nat.ofDigits 16 (indexDigits n) = n := by
  unfold indexDigits
  rw [Nat.ofDigits_append_replicate_zero, Nat.ofDigits_digits]

/-- An index has at least one digit. -/
theorem indexDigits_ne_nil (n : ℕ) : indexDigits n ≠ [] := by
  intro h
  have hlen := congrArg List.length h
  unfold indexDigits at hlen
  rw [List.length_append, List.length_replicate, List.length_nil] at hlen
  omega

/-- The text of an index is made of name characters. -/
theorem nameChar_indexText (index : UInt64) : ∀ c ∈ indexText index, NameChar c := by
  intro c hc
  obtain ⟨d, hd, rfl⟩ := List.mem_map.mp hc
  exact nameChar_digitChar ⟨d, indexDigits_lt (List.mem_reverse.mp hd)⟩

/-- The name of a table's key addresses its index. -/
theorem addresses_indexText (t : KeyTable) (index : UInt64) :
    Addresses (t.namePrefix ++ indexText index) t index := by
  have hsuffix : t.namePrefix.isPrefixOf? (t.namePrefix ++ indexText index) =
      some (indexText index) := List.isPrefixOf?_eq_some_iff_append_eq.mpr rfl
  have hread : Text.fromStrRadix16 (2 ^ 64) (indexText index) = some index.toNat := by
    have hlt : Nat.ofDigits 16 (indexDigits index.toNat) < 2 ^ 64 := by
      rw [ofDigits_indexDigits]
      exact index.toNat_lt
    have hdigits := Text.fromStrRadix16_digits (fun d hd => hexDigit_digitChar ⟨d, hd⟩)
      (fun d hd => indexDigits_lt hd) (indexDigits_ne_nil index.toNat) hlt
    rwa [ofDigits_indexDigits] at hdigits
  apply parseHexSuffix_eq_some_iff.mp
  unfold parseHexSuffix
  rw [hsuffix, Option.bind_eq_bind, Option.bind_some, hread, Option.bind_eq_bind,
    Option.bind_some, UInt64.ofNat_toNat]
  rfl

/-! ## Lines -/

section Lines

variable {lower : List Char → List Char} (hlower : KeepsLowerCase lower)

/-- The name on an entry line is not empty and made of name characters. -/
theorem entry_name {line : KeyFileLine} {name : List Char} {bytes : List UInt8}
    (h : line.entry = some (name, bytes)) : name ≠ [] ∧ ∀ c ∈ name, NameChar c := by
  cases line with
  | headerKey key =>
      cases h
      exact ⟨by decide, nameChar_header⟩
  | tableKey t index key =>
      cases h
      refine ⟨?_, ?_⟩
      · cases t <;> exact List.cons_ne_nil _ _
      · intro c hc
        rcases List.mem_append.mp hc with hpre | hindex
        · exact nameChar_namePrefix t c hpre
        · exact nameChar_indexText index c hindex
  | rawKey raw bytes =>
      cases h
      exact ⟨raw.chars_ne_nil, raw.nameChar⟩
  | comment text => cases h
  | blank spaces => cases h

/-- An entry line spells its name, the equals sign and its bytes in hexadecimal. -/
theorem text_of_entry {line : KeyFileLine} {name : List Char} {bytes : List UInt8}
    (h : line.entry = some (name, bytes)) :
    line.text = name ++ ' ' :: '=' :: ' ' :: renderHex bytes := by
  cases line with
  | headerKey key =>
      cases h
      rfl
  | tableKey t index key =>
      cases h
      rfl
  | rawKey raw bytes =>
      cases h
      rfl
  | comment text => cases h
  | blank spaces => cases h

/-- A line has no line break in it. -/
theorem text_unbroken (line : KeyFileLine) : '\n' ∉ line.text ∧ '\r' ∉ line.text := by
  cases hentry : line.entry with
  | none =>
      cases line with
      | comment text =>
          unfold KeyFileLine.text
          simp
      | blank spaces =>
          have hspace {c : Char} (hc : c ≠ ' ') : c ∉ List.replicate spaces ' ' :=
            fun hmem => hc (List.eq_of_mem_replicate hmem)
          exact ⟨hspace (by decide), hspace (by decide)⟩
      | headerKey key => cases hentry
      | tableKey t index key => cases hentry
      | rawKey name bytes => cases hentry
  | some e =>
      obtain ⟨name, bytes⟩ := e
      obtain ⟨-, hname⟩ := entry_name hentry
      rw [text_of_entry hentry]
      have hsplit (c : Char) (hc : ¬ NameChar c) (hspace : c ≠ ' ') (heq : c ≠ '=')
          (hhex : (Text.hexDigit c).isSome = false) :
          c ∉ name ++ ' ' :: '=' :: ' ' :: renderHex bytes := by
        intro hmem
        simp only [List.mem_append, List.mem_cons, hspace, heq, false_or] at hmem
        rcases hmem with hin | hin
        · exact hc (hname c hin)
        · rw [mem_renderHex hin] at hhex
          cases hhex
      unfold NameChar at hsplit
      exact ⟨hsplit '\n' (by decide) (by decide) (by decide) (by decide),
        hsplit '\r' (by decide) (by decide) (by decide) (by decide)⟩

/-- A written key file splits back into the texts of its lines. -/
theorem lines_keyFileText (lines : List KeyFileLine) :
    Text.lines (keyFileText lines) = lines.map KeyFileLine.text := by
  unfold keyFileText
  rw [← List.flatMap_map (f := KeyFileLine.text) (g := fun l => l ++ ['\n'])]
  apply Text.lines_flatMap
  intro l hl
  obtain ⟨line, -, rfl⟩ := List.mem_map.mp hl
  exact text_unbroken line

/-- The equals sign is no name character. -/
theorem not_nameChar_equals : ¬ NameChar '=' := by
  unfold NameChar
  decide

/-- The characters of a value are digits. -/
theorem renderHex_plain (bytes : List UInt8) :
    (∀ c ∈ renderHex bytes, Text.isWhitespace c = false) ∧
      (renderHex bytes).filter (· ≠ ' ') = renderHex bytes := by
  refine ⟨fun c hc => (nameChar_of_hexDigit (mem_renderHex hc)).1, ?_⟩
  apply List.filter_eq_self.mpr
  intro c hc
  simpa using (nameChar_of_hexDigit (mem_renderHex hc)).2.1

/-- A written line without the white space at its ends: one that gives no bytes ends in its equals
sign. -/
theorem trim_text {line : KeyFileLine} {name : List Char} {bytes : List UInt8}
    (h : line.entry = some (name, bytes)) :
    ∃ value, Text.trim line.text = name ++ ' ' :: '=' :: value ∧
      Text.trim value = renderHex bytes := by
  obtain ⟨hne, hname⟩ := entry_name h
  obtain ⟨hplain, -⟩ := renderHex_plain bytes
  have hhead (rest : List Char) : ∀ c ∈ (name ++ rest).head?, Text.isWhitespace c = false := by
    obtain ⟨d, name, rfl⟩ := List.exists_cons_of_ne_nil hne
    intro c hc
    cases hc
    exact nameChar_not_white (hname d List.mem_cons_self)
  rw [text_of_entry h]
  by_cases hbytes : bytes = []
  · subst hbytes
    refine ⟨[], ?_, rfl⟩
    have hpadded := Text.trim_padded [] [' '] (by simp) (hhead [' ', '='])
      (by simp [Text.isWhitespace]) (List.forall_mem_singleton.mpr rfl)
    rwa [List.nil_append, List.append_assoc] at hpadded
  · have hrender : renderHex bytes ≠ [] := by
      obtain ⟨v, rest, rfl⟩ := List.exists_cons_of_ne_nil hbytes
      exact List.cons_ne_nil _ _
    refine ⟨' ' :: renderHex bytes, Text.trim_of_ends (hhead _) ?_, Text.trim_cons_space hplain⟩
    rw [List.append_cons, List.append_cons, List.append_cons,
      List.getLast?_append_of_ne_nil _ hrender]
    exact fun c hc => hplain c (List.mem_of_getLast? hc)

include hlower

/-- The name and the value of a written line. -/
theorem lineEntry_text {line : KeyFileLine} {name : List Char} {bytes : List UInt8}
    (h : line.entry = some (name, bytes)) :
    lineEntry lower line.text = some (name, renderHex bytes) := by
  obtain ⟨hne, hname⟩ := entry_name h
  obtain ⟨value, htrim, hvalue⟩ := trim_text h
  obtain ⟨-, hfilter⟩ := renderHex_plain bytes
  have hsplit : Text.splitOnce '=' (name ++ ' ' :: '=' :: value) = some (name ++ [' '], value) := by
    have hfront : '=' ∉ name ++ [' '] := by
      intro hmem
      rcases List.mem_append.mp hmem with hin | hin
      · exact not_nameChar_equals (hname _ hin)
      · exact absurd (List.mem_singleton.mp hin) (by decide)
    rw [List.append_cons]
    exact Text.splitOnce_append hfront _
  have hhead : ∀ c ∈ (name ++ ' ' :: '=' :: value).head?, NameChar c := by
    obtain ⟨d, rest, rfl⟩ := List.exists_cons_of_ne_nil hne
    intro c hc
    cases hc
    exact hname d List.mem_cons_self
  have hfirst {d : Char} (hd : ¬ NameChar d) : (name ++ ' ' :: '=' :: value).head? ≠ some d :=
    fun heq => hd (hhead d heq)
  unfold lineEntry
  rw [htrim]
  dsimp only
  rw [if_neg, hsplit, Option.map_some, Text.trim_append_space fun c hc =>
    nameChar_not_white (hname c hc), hlower name hname, hvalue, hfilter]
  rintro (hempty | hsemi | hhash)
  · exact absurd hempty (by simp)
  · exact hfirst (by unfold NameChar; decide) hsemi
  · exact hfirst (by unfold NameChar; decide) hhash

/-- **Reading a written line gives its name and its bytes.** -/
theorem readLine_text (line : KeyFileLine) :
    KeySet.readLine lower line.text = .ok line.entry := by
  cases hentry : line.entry with
  | none =>
      apply readLine_of_no_entry
      cases line with
      | comment text =>
          have hhead : (Text.trim (KeyFileLine.comment text).text).head? = some ';' :=
            Text.head?_trim (by decide) _
          exact if_pos (.inr (.inl hhead))
      | blank spaces =>
          have htrim := Text.trim_padded (List.replicate spaces ' ') [] (s := [])
            (fun c hc => by rw [List.eq_of_mem_replicate hc]; rfl) (by simp) (by simp) (by simp)
          rw [List.append_nil, List.append_nil] at htrim
          exact if_pos (.inl htrim)
      | headerKey key => cases hentry
      | tableKey t index key => cases hentry
      | rawKey name bytes => cases hentry
  | some e =>
      obtain ⟨name, bytes⟩ := e
      rw [readLine_of_entry (lineEntry_text hlower hentry), decodeHex_renderHex]
      rfl

end Lines

/-! ## What the lines give -/

section Given

variable {lower : List Char → List Char} (hlower : KeepsLowerCase lower)

/-- A table key's name addresses its own table at its own index and nothing else. -/
theorem addresses_tableKey {t t' : KeyTable} {index idx : UInt64} :
    Addresses (t'.namePrefix ++ indexText index) t idx ↔ t' = t ∧ index = idx := by
  constructor
  · exact fun h => addresses_unique (addresses_indexText t' index) h
  · rintro ⟨rfl, rfl⟩
    exact addresses_indexText t' index

include hlower

/-- A written line gives the header key exactly when it is the header line. -/
theorem headerValue_text (line : KeyFileLine) :
    headerValue lower line.text = line.header.map Vector.toList := by
  have hread := readLine_text hlower line
  unfold headerValue
  cases line with
  | headerKey key =>
      rw [givenTo_of_some hread]
      exact if_pos ⟨rfl, Vector.length_toList⟩
  | tableKey t index key =>
      rw [givenTo_of_some hread]
      refine if_neg ?_
      rintro ⟨hname, -⟩
      exact namePrefix_not_header t ⟨indexText index, hname⟩
  | rawKey name bytes =>
      rw [givenTo_of_some hread]
      exact if_neg fun h => name.ne_header h.1
  | comment text =>
      rw [givenTo_of_none hread]
      rfl
  | blank spaces =>
      rw [givenTo_of_none hread]
      rfl

/-- A written line gives a table index the key it was written for. -/
theorem entryValue_text (t : KeyTable) (g : UInt64) (line : KeyFileLine) :
    entryValue lower t g line.text = (line.keyAt t g).map Vector.toList := by
  have hread := readLine_text hlower line
  unfold entryValue
  cases line with
  | headerKey key =>
      rw [givenTo_of_some hread]
      refine if_neg ?_
      rintro ⟨haddr, -⟩
      exact header_addresses_nothing t g (parseHexSuffix_eq_some_iff.mp haddr)
  | tableKey t' index key =>
      rw [givenTo_of_some hread]
      have hiff : (parseHexSuffix (t'.namePrefix ++ indexText index) t.namePrefix = some g ∧
          key.toList.length = 16) ↔ t' = t ∧ index = g :=
        (and_iff_left Vector.length_toList).trans
          (parseHexSuffix_eq_some_iff.trans addresses_tableKey)
      rw [if_congr hiff rfl rfl]
      show _ = Option.map _ (if t' = t ∧ index = g then some key else none)
      split <;> rfl
  | rawKey name bytes =>
      rw [givenTo_of_some hread]
      exact if_neg fun h => name.not_addresses t g (parseHexSuffix_eq_some_iff.mp h.1)
  | comment text =>
      rw [givenTo_of_none hread]
      rfl
  | blank spaces =>
      rw [givenTo_of_none hread]
      rfl

/-- A written line gives a raw name the bytes it was written with. -/
theorem rawValue_text (name : List Char) (line : KeyFileLine) :
    rawValue lower name line.text = line.bytesAt name := by
  have hread := readLine_text hlower line
  unfold rawValue KeyFileLine.bytesAt
  cases hentry : line.entry with
  | none =>
      rw [hentry] at hread
      rw [givenTo_of_none hread]
      rfl
  | some e =>
      rw [hentry] at hread
      rw [givenTo_of_some hread]
      rfl

/-- The indexes the lines reach. -/
theorem extends_text {lines : List KeyFileLine}
    (husable : ∀ t index key, KeyFileLine.tableKey t index key ∈ lines → Usable index)
    (t : KeyTable) (g : ℕ) :
    Extends lower (lines.map KeyFileLine.text) t g ↔
      ∃ index key, KeyFileLine.tableKey t index key ∈ lines ∧ g ≤ index.toNat := by
  constructor
  · rintro ⟨l, hl, name, bytes, idx, hread, haddr, -, hg⟩
    obtain ⟨line, hline, rfl⟩ := List.mem_map.mp hl
    rw [readLine_text hlower line, Except.ok.injEq] at hread
    cases line with
    | headerKey key =>
        cases hread
        exact absurd haddr (header_addresses_nothing t idx)
    | tableKey t' index key =>
        cases hread
        obtain ⟨rfl, rfl⟩ := addresses_tableKey.mp haddr
        exact ⟨index, key, hline, hg⟩
    | rawKey name bytes =>
        cases hread
        exact absurd haddr (name.not_addresses t idx)
    | comment text => cases hread
    | blank spaces => cases hread
  · rintro ⟨index, key, hline, hg⟩
    have hlast : index.toNat + 1 < 2 ^ 64 := by
      have hfits := husable t index key hline
      unfold Usable at hfits
      omega
    exact ⟨_, List.mem_map_of_mem hline, _, _, index, readLine_text hlower _,
      addresses_indexText t index, hlast, hg⟩

/-- A written line is taken from every key set. -/
theorem parseLine_text {b : Build} {line : KeyFileLine}
    (husable : ∀ t index key, line = .tableKey t index key → Usable index) (ks : KeySet) :
    ∃ ks', KeySet.parseLine b lower ks line.text = .ok ks' := by
  have hread := readLine_text hlower line
  cases line with
  | headerKey key =>
      rw [parseLine_of_readLine hread]
      exact storeKey_returns fun t idx haddr => absurd haddr (header_addresses_nothing t idx)
  | tableKey t index key =>
      rw [parseLine_of_readLine hread]
      apply storeKey_returns
      intro t' idx haddr
      obtain ⟨rfl, rfl⟩ := addresses_tableKey.mp haddr
      exact putKey_of_usable (husable t index key rfl)
  | rawKey name bytes =>
      rw [parseLine_of_readLine hread]
      exact storeKey_returns fun t idx haddr => absurd haddr (name.not_addresses t idx)
  | comment text => exact ⟨ks, skipped_of_readLine hread ks⟩
  | blank spaces => exact ⟨ks, skipped_of_readLine hread ks⟩

/-- A written file is parsed to its end, -/
theorem parse_keyFileText (b : Build) {lines : List KeyFileLine}
    (husable : ∀ t index key, KeyFileLine.tableKey t index key ∈ lines → Usable index) :
    ∃ ks, KeySet.parse b lower (keyFileText lines) = .ok ks := by
  apply parse_of_lines
  rw [lines_keyFileText]
  intro l hl
  obtain ⟨line, hline, rfl⟩ := List.mem_map.mp hl
  exact parseLine_text hlower fun t index key heq => husable t index key (heq ▸ hline)

/-- and the key set holds what its lines say. -/
theorem holdsKeys_of_parse {b : Build} {lines : List KeyFileLine}
    (husable : ∀ t index key, KeyFileLine.tableKey t index key ∈ lines → Usable index) {ks : KeySet}
    (h : KeySet.parse b lower (keyFileText lines) = .ok ks) : HoldsKeys lines ks := by
  have hfollow := parse_keysFollow h
  rw [lines_keyFileText] at hfollow
  refine ⟨?_, ?_, ?_, ?_⟩
  · have hheader := hfollow.header
    have hvalues : headerValue lower ∘ KeyFileLine.text =
        fun line => line.header.map Vector.toList := funext (headerValue_text hlower)
    rw [lastSome_map, hvalues, lastSome_optionMap] at hheader
    exact Option.map_injective (fun _ _ => Vector.toList_inj.mp) hheader
  · intro t g
    rw [hfollow.reach, extends_text hlower husable]
  · intro t g hg
    have hkey := hfollow.entry t g _ (List.getElem?_eq_getElem hg)
    have hvalues : entryValue lower t g ∘ KeyFileLine.text =
        fun line => (line.keyAt t g).map Vector.toList := funext (entryValue_text hlower t g)
    rw [lastSome_map, hvalues, lastSome_optionMap, zeroKey, Option.getD_map] at hkey
    rw [List.getElem?_eq_getElem hg, Vector.toList_inj.mp hkey]
  · intro name
    have hvalues : rawValue lower name ∘ KeyFileLine.text = KeyFileLine.bytesAt name :=
      funext (rawValue_text hlower name)
    rw [hfollow.raw, lastSome_map, hvalues]

end Given

/-- **A key file that was written is read back.**
SOURCE: core/src/fs/keys.rs:46-110, 144-164 -/
theorem key_file_reads_back (b : Build) (lower : List Char → List Char)
    (hlower : KeepsLowerCase lower) (lines : List KeyFileLine)
    (husable : ∀ t index key, KeyFileLine.tableKey t index key ∈ lines → Usable index) :
    ∃ ks, KeySet.parse b lower (keyFileText lines) = .ok ks ∧ HoldsKeys lines ks := by
  obtain ⟨ks, hparse⟩ := parse_keyFileText hlower b husable
  exact ⟨ks, hparse, holdsKeys_of_parse hlower husable hparse⟩

/-- ASCII lower-casing leaves lower case text alone. -/
theorem keepsLowerCase_lowerAscii : KeepsLowerCase lowerAscii := by
  intro name hname
  have hsame : ∀ c ∈ name, c.toLower = id c := by
    intro c hc
    have hascii := ascii_of_nameChar (hname c hc)
    have hnot : ¬ (c.val ≥ 'A'.val ∧ c.val ≤ 'Z'.val) := by
      rintro ⟨hlo, hhi⟩
      have hlo : 65 ≤ c.toNat := UInt32.le_iff_toNat_le.mp hlo
      have hhi : c.toNat ≤ 90 := UInt32.le_iff_toNat_le.mp hhi
      omega
    exact dif_neg hnot
  unfold lowerAscii
  rw [List.map_congr_left hsame, List.map_id]

/-- The name of a key that key files give and no table has. -/
def titleKekSource : RawName where
  chars := "title_kek_source".toList
  chars_ne_nil := by decide
  nameChar := nameChar_of_all rfl
  ne_header := by decide
  not_addresses := by
    intro t idx h
    have hnone : parseHexSuffix "title_kek_source".toList t.namePrefix = none := by
      cases t <;> rfl
    rw [parseHexSuffix_eq_some_iff.mpr h] at hnone
    cases hnone

/-- The lines of a key file with a header key and one key area key. -/
def titleLines (headerKey : Vector UInt8 32) (keyAreaKey : Key) : List KeyFileLine :=
  [.comment "keys".toList, .blank 0, .headerKey headerKey, .rawKey titleKekSource [0x1F, 0x2E],
    .tableKey .application 10 keyAreaKey]

/-- The index of every table key in the title's lines can be stored. -/
theorem usable_titleLines (headerKey : Vector UInt8 32) (keyAreaKey : Key) (t : KeyTable)
    (index : UInt64) (key : Key)
    (h : KeyFileLine.tableKey t index key ∈ titleLines headerKey keyAreaKey) : Usable index := by
  simp only [titleLines, List.mem_cons, List.not_mem_nil, KeyFileLine.tableKey.injEq, or_false,
    reduceCtorEq, false_or] at h
  rw [h.2.1]
  unfold Usable
  decide

/-- The key file with the keys of a title is read back. -/
theorem key_file_reads_back_title :
    ∃ ks, KeySet.parse .debug lowerAscii
        (keyFileText (titleLines (Vector.replicate 32 0x5A) (Vector.replicate 16 1))) = .ok ks ∧
      HoldsKeys (titleLines (Vector.replicate 32 0x5A) (Vector.replicate 16 1)) ks :=
  key_file_reads_back .debug lowerAscii keepsLowerCase_lowerAscii _ (usable_titleLines _ _)

end Oboromi.Analysis
