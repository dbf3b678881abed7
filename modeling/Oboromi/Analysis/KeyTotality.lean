import Oboromi.Analysis.KeyLineSteps

/-!
# When parsing a key file returns

Each line either returns from every key set whose tables can be allocated, or panics from
every one, so a parse returns exactly when every line does.  What makes a line return, and
what makes one that gives no usable key leave the key set alone, is a condition on its own
text (`LineSound`).
-/

set_option autoImplicit false

namespace Oboromi.Analysis

open Oboromi.Lib Oboromi.Model Oboromi.Interface

variable {b : Build} {lower : List Char → List Char} {line name value : List Char}

/-- An index a put to an allocated table returns for. -/
theorem putKey_returns {idx : UInt64} {bytes : List UInt8} {v : List Key}
    (h : Usable idx ∨ (b = .release ∧ idx.toNat + 1 = 2 ^ 64 ∧ bytes.length ≠ 16)) :
    ∃ v', KeySet.putKey b v idx bytes = .ok v' := by
  rcases h with hidx | ⟨rfl, hlast, h16⟩
  · exact putKey_of_usable hidx
  · exact ⟨v, putKey_release_last hlast h16⟩

/-- The number of bytes of a hexadecimal string. -/
theorem length_ne_iff {bytes : List UInt8} (hlen : 2 * bytes.length = value.length) :
    bytes.length ≠ 16 ↔ value.length ≠ 32 := by
  omega

/-- A line with the condition returns. -/
theorem parseLine_of_sound (h : LineSound b lower line) (ks : KeySet) :
    ∃ ks', KeySet.parseLine b lower ks line = .ok ks' := by
  cases hentry : lineEntry lower line with
  | none => exact ⟨ks, skipped_of_readLine (readLine_of_no_entry hentry) ks⟩
  | some entry =>
      obtain ⟨name, value⟩ := entry
      rcases h name value hentry with hodd | hrefused | ⟨hhex, hidx⟩
      · exact ⟨ks, skipped_of_refused hentry (.inl hodd) ks⟩
      · exact ⟨ks, skipped_of_refused hentry (.inr hrefused) ks⟩
      · obtain ⟨bytes, hbytes, hlen⟩ := decodeHex_whole (whole_of_isHexText hhex)
        have hread : KeySet.readLine lower line = .ok (some (name, bytes)) := by
          rw [readLine_of_entry hentry, hbytes]
          rfl
        rw [parseLine_of_readLine hread]
        apply storeKey_returns
        intro t idx haddr
        apply putKey_returns
        rw [length_ne_iff hlen]
        exact hidx t idx haddr

/-- A line that returned and is skipped when it gives no key has the condition. -/
theorem sound_of_parseLine {ks ks' : KeySet} (halloc : Allocated ks)
    (h : KeySet.parseLine b lower ks line = .ok ks')
    (hskip : ∀ name value, lineEntry lower line = some (name, value) → ¬ IsHexText value →
      Skipped b lower line) : LineSound b lower line := by
  intro name value hentry
  rcases Nat.mod_two_eq_zero_or_one (Text.byteLen value) with heven | hodd
  · right
    cases hend : pairsEnd value with
    | refused => exact .inl rfl
    | cut =>
        unfold KeySet.parseLine at h
        rw [readLine_of_entry hentry, decodeHex_cut heven hend] at h
        cases h
    | whole =>
        right
        obtain ⟨bytes, hbytes, hlen⟩ := decodeHex_whole hend
        have hread : KeySet.readLine lower line = .ok (some (name, bytes)) := by
          rw [readLine_of_entry hentry, hbytes]
          rfl
        constructor
        · -- a value that is read but is no hexadecimal string leaves its bytes behind
          by_contra hhex
          have hdefault := hskip name value hentry hhex KeySet.default
          rw [parseLine_of_readLine hread] at hdefault
          have hraw := congrArg (·.get name) (storeKey_stores hdefault).raw
          simp [KeySet.default, HashMap.get_insert] at hraw
        · intro t idx haddr
          rw [parseLine_of_readLine hread] at h
          rw [← length_ne_iff hlen]
          rcases putKey_eq_ok (halloc t) ((storeKey_stores h).addressed t idx haddr) with
            hidx | ⟨-, hlast⟩
          · exact .inl hidx
          · exact .inr hlast
  · exact .inl hodd

/-- A line that addresses no usable index only records its bytes. -/
theorem onlyRecorded_of_sound (h : LineSound b lower line)
    (hentry : lineEntry lower line = some (name, value)) {t : KeyTable}
    (hpre : t.namePrefix <+: name) (hunusable : ∀ idx, Addresses name t idx → ¬ Usable idx) :
    OnlyRecorded b lower line name := by
  intro ks halloc
  obtain ⟨ks', hline⟩ := parseLine_of_sound h ks
  refine ⟨ks', hline, ?_⟩
  rcases parseLine_cases hline with ⟨-, rfl⟩ | ⟨name', bytes, hread, hstores⟩
  · exact ⟨rfl, fun t => rfl, fun n _ => rfl⟩
  · obtain ⟨value', hentry'⟩ := entry_of_readLine hread
    rw [hentry] at hentry'
    cases hentry'
    refine ⟨?_, ?_, ?_⟩
    · have hne : name ≠ "header_key".toList := by
        rintro rfl
        exact namePrefix_not_header t hpre
      have hheader := hstores.header
      rw [if_neg fun h => hne h.1] at hheader
      exact Option.map_injective (fun x y => Vector.toList_inj.mp) hheader
    · intro t'
      by_cases haddr : ∃ idx, Addresses name t' idx
      · obtain ⟨idx, haddr⟩ := haddr
        obtain rfl := namePrefix_unique hpre (prefix_of_addresses haddr)
        rcases putKey_eq_ok (halloc t) (hstores.addressed t idx haddr) with hidx | ⟨hsame, -⟩
        · exact absurd hidx (hunusable idx haddr)
        · exact hsame
      · exact hstores.kept t' fun idx haddr' => haddr ⟨idx, haddr'⟩
    · intro n hn
      rw [hstores.raw, HashMap.get_insert, if_neg hn]

/-- **Parsing is total on a text exactly when each of its lines is sound.**
SOURCE: core/src/fs/keys.rs:46-110, core/src/fs/keys.rs:144-164 -/
theorem parse_safe_iff (b : Build) (lower : List Char → List Char) (text : List Char) :
    ParsesSafely b lower text ↔ ∀ line ∈ Text.lines text, LineSound b lower line := by
  constructor
  · intro h line hline
    obtain ⟨ks, hparse⟩ := h.returns
    obtain ⟨ks₁, ks₂, halloc, hstep⟩ := lines_of_parse hparse hline
    exact sound_of_parseLine halloc hstep (h.value line hline)
  · intro h
    refine ⟨?_, ?_, ?_⟩
    · exact parse_of_lines fun line hline => parseLine_of_sound (h line hline)
    · intro line hline name value hentry hhex
      rcases h line hline name value hentry with hodd | hrefused | ⟨hhex', -⟩
      · exact skipped_of_refused hentry (.inl hodd)
      · exact skipped_of_refused hentry (.inr hrefused)
      · exact absurd hhex' hhex
    · intro line hline name value hentry t hpre hunusable
      exact onlyRecorded_of_sound (h line hline) hentry hpre hunusable

/-- A value of three bytes' and one byte's characters: the first pair ends inside the first. -/
def cutText : List Char := "header_key = \u20ac0".toList

/-- The last index: the table would need one entry more than a `usize` counts. -/
def lastIndexText : List Char :=
  "title_kek_ffffffffffffffff = 00112233445566778899aabbccddeeff".toList

/-- Neither build gets through either text. -/
theorem parse_is_not_total :
    KeySet.parse .debug lowerAscii cutText = .error .panic ∧
    KeySet.parse .release lowerAscii cutText = .error .panic ∧
    KeySet.parse .debug lowerAscii lastIndexText = .error .panic ∧
    KeySet.parse .release lowerAscii lastIndexText = .error .panic ∧
    ¬ ParsesSafely .debug lowerAscii cutText ∧ ¬ ParsesSafely .release lowerAscii cutText := by
  have hdebug : KeySet.parse .debug lowerAscii cutText = .error .panic := rfl
  have hrelease : KeySet.parse .release lowerAscii cutText = .error .panic := rfl
  refine ⟨hdebug, hrelease, rfl, rfl, ?_, ?_⟩
  · intro h
    obtain ⟨ks, hks⟩ := h.returns
    rw [hdebug] at hks
    cases hks
  · intro h
    obtain ⟨ks, hks⟩ := h.returns
    rw [hrelease] at hks
    cases hks

end Oboromi.Analysis
