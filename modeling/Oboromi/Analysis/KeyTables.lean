import Oboromi.Analysis.KeyContents

/-!
# What the key tables hold

A line either assigns an entry of a table or makes the table longer, and what it makes
longer it fills with zeros.  After any number of lines a table therefore reaches as far as
the largest index a line named, and an entry in it is the last key assigned there, or zeros
when none was (`TableFollows`, read off `KeysFollow`).  A lookup is faithful for a generation
exactly when a line assigned it or no line reached it (`keyAreaKey_faithful_iff`).
-/

set_option autoImplicit false

namespace Oboromi.Analysis

open Oboromi.Lib Oboromi.Model Oboromi.Interface

/-- The table a type's keys stand in. -/
def tableOf : KeyAreaType → KeyTable
  | .application => .application
  | .system => .system
  | .ocean => .ocean

/-- It is the one the lookup is in. -/
theorem keys_tableOf (ks : KeySet) (t : KeyAreaType) : (tableOf t).keys ks = ks.table t := by
  cases t <;> rfl

section Lines

variable {lower : List Char → List Char} {lines : List (List Char)}

/-- The names of a type's keys address entries of its table. -/
theorem addresses_tableOf {name : List Char} {t : KeyAreaType} {idx : UInt64} :
    NamesIndex (keyPrefix t) name idx ↔ Addresses name (tableOf t) idx := by
  cases t <;> exact Iff.rfl

/-- A line gives bytes for an index when that is what is read from it. -/
theorem gives_iff {line : List Char} {t : KeyAreaType} {idx : UInt64} {bytes : List UInt8} :
    Gives lower line t idx bytes ↔
      ∃ name, KeySet.readLine lower line = .ok (some (name, bytes)) ∧
        Addresses name (tableOf t) idx := by
  simp only [Gives, readLine_eq_some_iff, addresses_tableOf]
  constructor
  · rintro ⟨name, value, hentry, haddr, hvalue⟩
    exact ⟨name, ⟨value, hentry, hvalue⟩, haddr⟩
  · rintro ⟨name, ⟨value, hentry, hvalue⟩, haddr⟩
    exact ⟨name, value, hentry, haddr, hvalue⟩

/-- A line gives bytes for an index from `g` on exactly when the table has grown past `g`. -/
theorem reaches_iff {t : KeyAreaType} {g : UInt64} :
    Reaches lower lines t g ↔ Extends lower lines (tableOf t) g.toNat := by
  simp only [Reaches, Extends, gives_iff]
  constructor
  · rintro ⟨line, hline, idx, bytes, ⟨name, hread, haddr⟩, hg⟩
    exact ⟨line, hline, name, bytes, idx, hread, haddr, hg⟩
  · rintro ⟨line, hline, name, bytes, idx, hread, haddr, hg⟩
    exact ⟨line, hline, idx, bytes, ⟨name, hread, haddr⟩, hg⟩

/-- A generation of a type is assigned when its entry is. -/
theorem assigns_iff {t : KeyAreaType} {g : UInt64} {k : Key} :
    Assigns lower lines t g k ↔ ∃ line ∈ lines, AssignsEntry lower (tableOf t) g k line := by
  simp only [Assigns, AssignsEntry, Gives, addresses_tableOf]

/-- The table of a type after some lines: it reaches as far as they do, and an entry was
assigned by one of them or is zeros. -/
structure TableFollows (lower : List Char → List Char) (lines : List (List Char))
    (t : KeyAreaType) (v : List Key) : Prop where
  reach : ∀ g : UInt64, g.toNat < v.length ↔ Reaches lower lines t g
  entry : ∀ (g : UInt64) (k : Key), v[g.toNat]? = some k →
    Assigns lower lines t g k ∨ (k = zeroKey ∧ ¬ ∃ k', Assigns lower lines t g k')
  covered : ∀ (g : UInt64) (k : Key), Assigns lower lines t g k → g.toNat < v.length

/-- In a key set that follows from the lines, so does every key area table. -/
theorem tableFollows_of_keysFollow {ks : KeySet} (h : KeysFollow lower lines ks)
    (t : KeyAreaType) : TableFollows lower lines t (ks.table t) := by
  have hsome (g : UInt64) (k : Key) (hassign : Assigns lower lines t g k) :
      ∃ bytes, lastSome (entryValue lower (tableOf t) g) lines = some bytes := by
    obtain ⟨line, hline, hentry⟩ := assigns_iff.mp hassign
    cases hlast : lastSome (entryValue lower (tableOf t) g) lines with
    | some bytes => exact ⟨bytes, rfl⟩
    | none =>
        have hnone := lastSome_eq_none hlast line hline
        rw [entryValue_of_assigns hentry] at hnone
        cases hnone
  rw [← keys_tableOf]
  refine ⟨?_, ?_, ?_⟩
  · intro g
    rw [h.reach, reaches_iff]
  · intro g k hk
    have hvalue := h.entry (tableOf t) g k hk
    cases hlast : lastSome (entryValue lower (tableOf t) g) lines with
    | some bytes =>
        rw [hlast, Option.getD_some] at hvalue
        obtain ⟨line, hline, hgiven⟩ := exists_of_lastSome hlast
        obtain ⟨k', hbytes, hentry⟩ := entryValue_eq_some hgiven
        obtain rfl := Vector.toList_inj.mp (hvalue.trans hbytes)
        exact .inl (assigns_iff.mpr ⟨line, hline, hentry⟩)
    | none =>
        rw [hlast, Option.getD_none] at hvalue
        refine .inr ⟨Vector.toList_inj.mp hvalue, ?_⟩
        rintro ⟨k', hassign⟩
        obtain ⟨bytes, hbytes⟩ := hsome g k' hassign
        rw [hlast] at hbytes
        cases hbytes
  · intro g k hassign
    obtain ⟨bytes, hbytes⟩ := hsome g k hassign
    exact h.covered (tableOf t) g bytes hbytes

/-- **A lookup is faithful exactly where a line assigned the key or no line reached.**
SOURCE: core/src/fs/keys.rs:46-121, core/src/fs/nca.rs:224-235 -/
theorem keyAreaKey_faithful_iff {b : Build} {text : List Char} {ks : KeySet}
    (h : KeySet.parse b lower text = .ok ks) (t : KeyAreaType) (g : UInt64) :
    Faithful lower text ks t g ↔
      (∃ k, Assigns lower (Text.lines text) t g k) ∨ ¬ Reaches lower (Text.lines text) t g := by
  have hfollows := tableFollows_of_keysFollow (parse_keysFollow h) t
  have hnone : ¬ Reaches lower (Text.lines text) t g → ks.keyAreaKey t g = none := by
    intro hreach
    exact List.getElem?_eq_none (Nat.le_of_not_lt fun hlt => hreach ((hfollows.reach g).mp hlt))
  constructor
  · intro hfaithful
    by_cases hassign : ∃ k, Assigns lower (Text.lines text) t g k
    · exact .inl hassign
    · right
      intro hreach
      have hlt : g.toNat < (ks.table t).length := (hfollows.reach g).mpr hreach
      have hsome : ks.keyAreaKey t g = some (ks.table t)[g.toNat] := List.getElem?_eq_getElem hlt
      rw [hfaithful.absent hassign] at hsome
      cases hsome
  · intro hor
    have habsent : (¬ ∃ k, Assigns lower (Text.lines text) t g k) → ks.keyAreaKey t g = none :=
      fun hassign => hnone (hor.resolve_left hassign)
    refine ⟨?_, habsent, ?_⟩
    · intro k hk
      rcases hfollows.entry g k hk with hassign | ⟨-, hassign⟩
      · exact hassign
      · rw [habsent hassign] at hk
        cases hk
    · intro decryptBlock header htype hgen hassign
      unfold NcaHeader.decryptKeyArea
      simp only [htype, hgen, habsent hassign]
      rfl

end Lines

/-- A key file that names generation 2 of the application keys and nothing else. -/
def gapText : List Char := "key_area_key_application_02 = 00112233445566778899aabbccddeeff".toList

/-- What it parses to. -/
def gapKeys : KeySet := { KeySet.default with
  keyAreaKeyApplication := [zeroKey, zeroKey,
    #v[0x00, 0x11, 0x22, 0x33, 0x44, 0x55, 0x66, 0x77,
      0x88, 0x99, 0xAA, 0xBB, 0xCC, 0xDD, 0xEE, 0xFF]]
  raw := ⟨[("key_area_key_application_02".toList,
    [0x00, 0x11, 0x22, 0x33, 0x44, 0x55, 0x66, 0x77,
      0x88, 0x99, 0xAA, 0xBB, 0xCC, 0xDD, 0xEE, 0xFF])], List.nodup_singleton _⟩ }

/-- The sample with a gap parses to the gapped keys. -/
theorem parse_gapText : KeySet.parse .release lowerAscii gapText = .ok gapKeys := by
  rfl

/-- At the gap's index the answer is faithful exactly when a line assigns it or none reaches it. -/
theorem keyAreaKey_faithful_iff_gap :
    Faithful lowerAscii gapText gapKeys .application 2 ↔
      (∃ k, Assigns lowerAscii (Text.lines gapText) .application 2 k) ∨
        ¬ Reaches lowerAscii (Text.lines gapText) .application 2 :=
  keyAreaKey_faithful_iff parse_gapText .application 2

/-- Generation 0 is found although no line assigned it. -/
theorem gap_is_found :
    KeySet.parse .release lowerAscii gapText = .ok gapKeys ∧
      gapKeys.keyAreaKey .application 0 = some zeroKey ∧
      ¬ Faithful lowerAscii gapText gapKeys .application 0 := by
  have hfound : gapKeys.keyAreaKey .application 0 = some zeroKey := rfl
  refine ⟨parse_gapText, hfound, ?_⟩
  intro hfaithful
  obtain ⟨line, hline, name, value, hentry, -, -, hbytes⟩ := hfaithful.found zeroKey hfound
  have hlines : Text.lines gapText = [gapText] := rfl
  rw [hlines, List.mem_singleton] at hline
  subst hline
  have hgiven : lineEntry lowerAscii gapText = some ("key_area_key_application_02".toList,
    "00112233445566778899aabbccddeeff".toList) := rfl
  rw [hgiven, Option.some.injEq, Prod.mk.injEq] at hentry
  rw [← hentry.2] at hbytes
  exact absurd hbytes (by decide)

end Oboromi.Analysis
