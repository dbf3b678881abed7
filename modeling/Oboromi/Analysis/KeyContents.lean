import Oboromi.Analysis.HexDigits

/-!
# What the lines of a key file leave

What a parse returns is described without its order of work: the raw bytes of a name, the
header key and an entry of a table are each what the last of a class of lines gave, and a
table is as long as the largest index asks for (`KeysFollow`, kept by every line).
-/

set_option autoImplicit false

namespace Oboromi.Analysis

open Oboromi.Lib Oboromi.Model Oboromi.Interface

/-! ## What a line gives -/

section Given

variable (lower : List Char → List Char)

/-- The name and the bytes of a line, when it has some. -/
def given (line : List Char) : Option (List Char × List UInt8) :=
  (KeySet.readLine lower line).toOption.join

/-- What the line gives to the names and bytes with a property. -/
def givenTo (p : List Char → List UInt8 → Prop) [∀ name bytes, Decidable (p name bytes)]
    (line : List Char) : Option (List UInt8) :=
  (given lower line).bind fun (name, bytes) => if p name bytes then some bytes else none

/-- The raw bytes of a name. -/
def rawValue (name : List Char) : List Char → Option (List UInt8) :=
  givenTo lower fun n _ => n = name

/-- A header key. -/
def headerValue : List Char → Option (List UInt8) :=
  givenTo lower fun n bytes => n = "header_key".toList ∧ bytes.length = 32

/-- A key of an entry of a table. -/
def entryValue (t : KeyTable) (idx : UInt64) : List Char → Option (List UInt8) :=
  givenTo lower fun n bytes =>
    parseHexSuffix n t.namePrefix = some idx ∧ bytes.length = 16

variable {lower} {line name : List Char} {bytes : List UInt8}
  {p : List Char → List UInt8 → Prop} [∀ name bytes, Decidable (p name bytes)]

/-- A line that reads as no key gives nothing to any name. -/
theorem givenTo_of_none (h : KeySet.readLine lower line = .ok none) :
    givenTo lower p line = none := by
  unfold givenTo given
  rw [h]
  rfl

/-- A line that reads as a key gives its bytes exactly to the names it matches. -/
theorem givenTo_of_some (h : KeySet.readLine lower line = .ok (some (name, bytes))) :
    givenTo lower p line = if p name bytes then some bytes else none := by
  unfold givenTo given
  rw [h]
  rfl

/-- A line that gives bytes read as a key with a matching name. -/
theorem givenTo_eq_some (h : givenTo lower p line = some bytes) :
    ∃ name, KeySet.readLine lower line = .ok (some (name, bytes)) ∧ p name bytes := by
  unfold givenTo given at h
  obtain ⟨⟨name, bytes'⟩, hgiven, hp⟩ := Option.bind_eq_some_iff.mp h
  have hread : KeySet.readLine lower line = .ok (some (name, bytes')) := by
    rcases hr : KeySet.readLine lower line with e | r
    · rw [hr] at hgiven
      cases hgiven
    · rw [hr] at hgiven
      exact congrArg Except.ok hgiven
  by_cases hpb : p name bytes'
  · simp only [hpb, if_true, Option.some.injEq] at hp
    subst hp
    exact ⟨name, hread, hpb⟩
  · simp [hpb] at hp

/-- A line that assigns an entry gives its key, and nothing else does. -/
theorem entryValue_of_assigns {t : KeyTable} {idx : UInt64} {k : Key}
    (h : AssignsEntry lower t idx k line) : entryValue lower t idx line = some k.toList := by
  obtain ⟨name, value, hentry, haddr, hvalue⟩ := h
  rw [entryValue, givenTo_of_some (readLine_eq_some_iff.mpr ⟨value, hentry, hvalue⟩)]
  exact if_pos ⟨parseHexSuffix_eq_some_iff.mpr haddr, Vector.length_toList⟩

/-- What a line gives to a table index is the key it assigns there. -/
theorem entryValue_eq_some {t : KeyTable} {idx : UInt64}
    (h : entryValue lower t idx line = some bytes) :
    ∃ k : Key, bytes = k.toList ∧ AssignsEntry lower t idx k line := by
  obtain ⟨name, hread, haddr, h16⟩ := givenTo_eq_some h
  obtain ⟨value, hentry, hvalue⟩ := readLine_eq_some_iff.mp hread
  have hsize : bytes.toArray.size = 16 := by rwa [List.size_toArray]
  exact ⟨⟨bytes.toArray, hsize⟩, rfl, name, value, hentry,
    parseHexSuffix_eq_some_iff.mp haddr, hvalue⟩

/-- So with a line that gives a header key. -/
theorem headerValue_of_gives {k : Vector UInt8 32} (h : GivesHeader lower k line) :
    headerValue lower line = some k.toList := by
  obtain ⟨value, hentry, hvalue⟩ := h
  rw [headerValue, givenTo_of_some (readLine_eq_some_iff.mpr ⟨value, hentry, hvalue⟩)]
  exact if_pos ⟨rfl, Vector.length_toList⟩

/-- What a line gives to the header key is the header key it assigns. -/
theorem headerValue_eq_some (h : headerValue lower line = some bytes) :
    ∃ k : Vector UInt8 32, bytes = k.toList ∧ GivesHeader lower k line := by
  obtain ⟨name, hread, rfl, h32⟩ := givenTo_eq_some h
  obtain ⟨value, hentry, hvalue⟩ := readLine_eq_some_iff.mp hread
  have hsize : bytes.toArray.size = 32 := by rwa [List.size_toArray]
  exact ⟨⟨bytes.toArray, hsize⟩, rfl, value, hentry, hvalue⟩

/-- Lines that give something for the same name, or for the same entry of a table, are
dependent. -/
theorem dependent_of_given {line' : List Char}
    (hp : ∀ n n' bytes bytes', p n bytes → p n' bytes' →
      n = n' ∨ ∃ t idx, Addresses n t idx ∧ Addresses n' t idx)
    (h : (givenTo lower p line).isSome) (h' : (givenTo lower p line').isSome) :
    Dependent lower line line' := by
  obtain ⟨bytes, hbytes⟩ := Option.isSome_iff_exists.mp h
  obtain ⟨bytes', hbytes'⟩ := Option.isSome_iff_exists.mp h'
  obtain ⟨n, hread, hn⟩ := givenTo_eq_some hbytes
  obtain ⟨n', hread', hn'⟩ := givenTo_eq_some hbytes'
  obtain ⟨value, hentry⟩ := entry_of_readLine hread
  obtain ⟨value', hentry'⟩ := entry_of_readLine hread'
  exact ⟨_, _, hentry, hentry', hp n n' bytes bytes' hn hn'⟩

end Given

/-! ## What a key set holds -/

/-- Some line gives bytes for an index of the table from `g` on.  The last index there is
has no successor and does not count. -/
def Extends (lower : List Char → List Char) (lines : List (List Char)) (t : KeyTable) (g : ℕ) :
    Prop :=
  ∃ line ∈ lines, ∃ name bytes idx, KeySet.readLine lower line = .ok (some (name, bytes)) ∧
    Addresses name t idx ∧ idx.toNat + 1 < 2 ^ 64 ∧ g ≤ idx.toNat

/-- A key set after some lines. -/
structure KeysFollow (lower : List Char → List Char) (lines : List (List Char)) (ks : KeySet) :
    Prop where
  raw : ∀ name, ks.raw.get name = lastSome (rawValue lower name) lines
  header : ks.headerKey.map Vector.toList = lastSome (headerValue lower) lines
  reach : ∀ (t : KeyTable) (g : ℕ), g < (t.keys ks).length ↔ Extends lower lines t g
  entry : ∀ (t : KeyTable) (g : UInt64) (k : Key), (t.keys ks)[g.toNat]? = some k →
    k.toList = (lastSome (entryValue lower t g) lines).getD zeroKey.toList
  covered : ∀ (t : KeyTable) (g : UInt64) (bytes : List UInt8),
    lastSome (entryValue lower t g) lines = some bytes → g.toNat < (t.keys ks).length

section Follow

variable {lower : List Char → List Char} {b : Build} {done : List (List Char)}
  {line : List Char} {ks ks' : KeySet}

/-- A line more extends a table when an earlier line did or when it does so itself. -/
theorem extends_snoc {t : KeyTable} {g : ℕ} : Extends lower (done ++ [line]) t g ↔
    Extends lower done t g ∨ Extends lower [line] t g := by
  unfold Extends
  constructor
  · rintro ⟨l, hl, hgives⟩
    rcases List.mem_append.mp hl with hl | hl
    · exact .inl ⟨l, hl, hgives⟩
    · exact .inr ⟨l, hl, hgives⟩
  · rintro (⟨l, hl, hgives⟩ | ⟨l, hl, hgives⟩)
    · exact ⟨l, List.mem_append_left _ hl, hgives⟩
    · exact ⟨l, List.mem_append_right _ hl, hgives⟩

/-- A line that reads as no key extends no table. -/
theorem not_extends_line {t : KeyTable} {g : ℕ} (hread : KeySet.readLine lower line = .ok none) :
    ¬ Extends lower [line] t g := by
  rintro ⟨l, hl, name, bytes, idx, hread', -⟩
  rw [List.mem_singleton.mp hl, hread] at hread'
  cases hread'

/-- What one line gives bytes for. -/
theorem extends_line_iff {name : List Char} {bytes : List UInt8} {t : KeyTable} {g : ℕ}
    (hread : KeySet.readLine lower line = .ok (some (name, bytes))) :
    Extends lower [line] t g ↔
      ∃ idx, Addresses name t idx ∧ idx.toNat + 1 < 2 ^ 64 ∧ g ≤ idx.toNat := by
  constructor
  · rintro ⟨l, hl, name', bytes', idx, hread', hgives⟩
    rw [List.mem_singleton.mp hl, hread, Except.ok.injEq, Option.some.injEq,
      Prod.mk.injEq] at hread'
    obtain ⟨rfl, rfl⟩ := hread'
    exact ⟨idx, hgives⟩
  · rintro ⟨idx, hgives⟩
    exact ⟨line, List.mem_singleton_self line, name, bytes, idx, hread, hgives⟩

/-- A line that gives nothing. -/
theorem keysFollow_skip (h : KeysFollow lower done ks)
    (hread : KeySet.readLine lower line = .ok none) : KeysFollow lower (done ++ [line]) ks := by
  refine ⟨?_, ?_, ?_, ?_, ?_⟩
  · intro name
    rw [rawValue, lastSome_snoc_none (givenTo_of_none hread)]
    exact h.raw name
  · rw [headerValue, lastSome_snoc_none (givenTo_of_none hread)]
    exact h.header
  · intro t g
    rw [h.reach, extends_snoc]
    exact (or_iff_left (not_extends_line hread)).symm
  · intro t g k hk
    rw [entryValue, lastSome_snoc_none (givenTo_of_none hread)]
    exact h.entry t g k hk
  · intro t g bytes hlast
    rw [entryValue, lastSome_snoc_none (givenTo_of_none hread)] at hlast
    exact h.covered t g bytes hlast

section Given

variable {name : List Char} {bytes : List UInt8}

/-- A table no entry of which the line addresses. -/
theorem table_kept (h : KeysFollow lower done ks)
    (hread : KeySet.readLine lower line = .ok (some (name, bytes))) {t : KeyTable}
    (hnone : ∀ idx, ¬ Addresses name t idx) :
    (∀ g, g < (t.keys ks).length ↔ Extends lower (done ++ [line]) t g) ∧
      ∀ g, lastSome (entryValue lower t g) (done ++ [line]) =
        lastSome (entryValue lower t g) done := by
  constructor
  · intro g
    rw [h.reach, extends_snoc, extends_line_iff hread]
    refine (or_iff_left ?_).symm
    rintro ⟨idx, haddr, -⟩
    exact hnone idx haddr
  · intro g
    apply lastSome_snoc_none
    rw [entryValue, givenTo_of_some hread]
    exact if_neg fun haddr => hnone g (parseHexSuffix_eq_some_iff.mp haddr.1)

section Addressed

variable {t : KeyTable} {idx : UInt64} {v : List Key}

/-- The entry the line gives bytes for, if they are as many as a key has. -/
theorem entryValue_line (hread : KeySet.readLine lower line = .ok (some (name, bytes)))
    (haddr : Addresses name t idx) (g : UInt64) :
    entryValue lower t g line = if g = idx ∧ bytes.length = 16 then some bytes else none := by
  rw [entryValue, givenTo_of_some hread]
  refine if_congr (and_congr_left fun _ => ?_) rfl rfl
  rw [parseHexSuffix_eq_some_iff.mpr haddr, Option.some.injEq, eq_comm]

/-- The length of the table the line addresses an entry of. -/
theorem put_reach (h : KeysFollow lower done ks)
    (hread : KeySet.readLine lower line = .ok (some (name, bytes)))
    (haddr : Addresses name t idx) (hput : Put (t.keys ks) v idx bytes) (g : ℕ) :
    g < v.length ↔ Extends lower (done ++ [line]) t g := by
  rw [hput.length, h.reach, extends_snoc, extends_line_iff hread]
  apply or_congr_right
  constructor
  · intro hg
    exact ⟨idx, haddr, hg⟩
  · rintro ⟨idx', haddr', hg⟩
    obtain ⟨-, rfl⟩ := addresses_unique haddr haddr'
    exact hg

/-- Its entries. -/
theorem put_entry (h : KeysFollow lower done ks)
    (hread : KeySet.readLine lower line = .ok (some (name, bytes)))
    (haddr : Addresses name t idx) (hput : Put (t.keys ks) v idx bytes) (g : UInt64) (k : Key)
    (hk : v[g.toNat]? = some k) :
    k.toList = (lastSome (entryValue lower t g) (done ++ [line])).getD zeroKey.toList := by
  have hline := entryValue_line hread haddr g
  rcases hput.entry g.toNat k hk with ⟨hg, hbytes⟩ | ⟨hnot, hold⟩
  · obtain rfl := UInt64.toNat_inj.mp hg
    have h16 : bytes.length = 16 := by rw [hbytes, Vector.length_toList]
    rw [if_pos ⟨rfl, h16⟩] at hline
    rw [lastSome_snoc_some hline, Option.getD_some, hbytes]
  · have hother : ¬ (g = idx ∧ bytes.length = 16) := by
      rintro ⟨rfl, h16⟩
      rcases hnot with hne | hlen
      · exact hne rfl
      · exact hlen h16
    rw [if_neg hother] at hline
    rw [lastSome_snoc_none hline]
    rcases hold with hold | ⟨hnew, rfl⟩
    · exact h.entry t g k hold
    · -- a new entry: no earlier line assigned it, or the table would have had it
      cases hlast : lastSome (entryValue lower t g) done with
      | none => rfl
      | some bytes' => exact absurd (h.covered t g bytes' hlast) (Nat.not_lt.mpr hnew)

/-- Every entry that was assigned is in it. -/
theorem put_covered (h : KeysFollow lower done ks)
    (hread : KeySet.readLine lower line = .ok (some (name, bytes)))
    (haddr : Addresses name t idx) (hput : Put (t.keys ks) v idx bytes) (g : UInt64)
    (bytes' : List UInt8) (hlast : lastSome (entryValue lower t g) (done ++ [line]) = some bytes') :
    g.toNat < v.length := by
  have hline := entryValue_line hread haddr g
  by_cases hg : g = idx ∧ bytes.length = 16
  · rw [hg.1]
    exact hput.covered hg.2
  · rw [if_neg hg] at hline
    rw [lastSome_snoc_none hline] at hlast
    exact (hput.length g.toNat).mpr (.inl (h.covered t g bytes' hlast))

end Addressed

/-- A line that gives bytes under a name. -/
theorem keysFollow_store (h : KeysFollow lower done ks)
    (hread : KeySet.readLine lower line = .ok (some (name, bytes)))
    (hstores : Stores b ks ks' name bytes) : KeysFollow lower (done ++ [line]) ks' := by
  have hput (t : KeyTable) (idx : UInt64) (haddr : Addresses name t idx) :=
    putKey_spec (hstores.addressed t idx haddr)
  have hcases (t : KeyTable) : (∃ idx, Addresses name t idx) ∨ ∀ idx, ¬ Addresses name t idx := by
    by_cases haddr : ∃ idx, Addresses name t idx
    · exact .inl haddr
    · exact .inr fun idx haddr' => haddr ⟨idx, haddr'⟩
  refine ⟨?_, ?_, ?_, ?_, ?_⟩
  · intro n
    rw [hstores.raw, HashMap.get_insert, rawValue, lastSome_snoc, givenTo_of_some hread, h.raw]
    by_cases hn : n = name
    · subst hn
      simp
    · rw [if_neg hn, if_neg (Ne.symm hn)]
      rfl
  · rw [hstores.header, headerValue, lastSome_snoc, givenTo_of_some hread, h.header]
    split
    · rfl
    · rfl
  · intro t
    rcases hcases t with ⟨idx, haddr⟩ | hnone
    · exact put_reach h hread haddr (hput t idx haddr)
    · rw [hstores.kept t hnone]
      exact (table_kept h hread hnone).1
  · intro t g
    rcases hcases t with ⟨idx, haddr⟩ | hnone
    · exact put_entry h hread haddr (hput t idx haddr) g
    · rw [hstores.kept t hnone, (table_kept h hread hnone).2]
      exact h.entry t g
  · intro t g
    rcases hcases t with ⟨idx, haddr⟩ | hnone
    · exact put_covered h hread haddr (hput t idx haddr) g
    · rw [hstores.kept t hnone, (table_kept h hread hnone).2]
      exact h.covered t g

end Given

/-- SOURCE: core/src/fs/keys.rs:49-107 -/
theorem parseLine_keysFollow (h : KeysFollow lower done ks)
    (hline : KeySet.parseLine b lower ks line = .ok ks') :
    KeysFollow lower (done ++ [line]) ks' := by
  rcases parseLine_cases hline with ⟨hread, rfl⟩ | ⟨name, bytes, hread, hstores⟩
  · exact keysFollow_skip h hread
  · exact keysFollow_store h hread hstores

/-- The default key set follows from no line at all. -/
theorem keysFollow_nil : KeysFollow lower [] KeySet.default := by
  have hempty (t : KeyTable) : t.keys KeySet.default = [] := by cases t <;> rfl
  refine ⟨fun name => rfl, rfl, ?_, ?_, ?_⟩
  · intro t g
    rw [hempty]
    refine iff_of_false (Nat.not_lt_zero g) ?_
    rintro ⟨line, hline, -⟩
    cases hline
  · intro t g k hk
    rw [hempty] at hk
    cases hk
  · intro t g bytes hlast
    cases hlast

/-- By induction on the lines still to be read. -/
theorem parseLines_keysFollow (lines : List (List Char)) (h : KeysFollow lower done ks)
    (hlines : lines.foldlM (KeySet.parseLine b lower) ks = .ok ks') :
    KeysFollow lower (done ++ lines) ks' := by
  induction lines generalizing done ks with
  | nil =>
      cases hlines
      rwa [List.append_nil]
  | cons line lines ih =>
      obtain ⟨ks₁, hline, hrest⟩ := foldlM_cons_eq_ok hlines
      have hnext := ih (parseLine_keysFollow h hline) hrest
      rwa [List.append_assoc] at hnext

/-- A parsed key set follows from the lines of its text. -/
theorem parse_keysFollow {text : List Char} (h : KeySet.parse b lower text = .ok ks) :
    KeysFollow lower (Text.lines text) ks := by
  have hfollow := parseLines_keysFollow (Text.lines text) keysFollow_nil h
  rwa [List.nil_append] at hfollow

end Follow

end Oboromi.Analysis
