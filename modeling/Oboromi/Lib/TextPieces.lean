import Oboromi.Lib.TextRendering

/-!
# Text in pieces

What splitting, repeated trimming and reading numbers give on text that was put together from
pieces: pieces joined by a separator (`split_intercalate`), a prefix or an end that is there once
(`trimStartMatches_append`, `trimEndMatches_append`), and a number written in the digits of a
radix (`fromStrRadix_toDigits`).
-/

set_option autoImplicit false

namespace Oboromi.Lib.Text

/-! ## Splitting -/

/-- A text without the separator is one piece. -/
theorem split_of_not_mem {sep : Char} {s : List Char} (h : sep ∉ s) : split sep s = [s] := by
  induction s with
  | nil => rfl
  | cons c s ih =>
      obtain ⟨hc, hs⟩ := not_or.mp fun hmem => h (List.mem_cons.mpr hmem)
      rw [split, if_neg (Ne.symm hc), ih hs]

/-- The first piece ends at the first separator. -/
theorem split_append {sep : Char} {front : List Char} (h : sep ∉ front) (rest : List Char) :
    split sep (front ++ sep :: rest) = front :: split sep rest := by
  induction front with
  | nil => rw [List.nil_append, split, if_pos rfl]
  | cons c front ih =>
      obtain ⟨hc, hfront⟩ := not_or.mp fun hmem => h (List.mem_cons.mpr hmem)
      rw [List.cons_append, split, if_neg (Ne.symm hc), ih hfront]

/-- Pieces that are joined by the separator are split again. -/
theorem split_intercalate {sep : Char} {pieces : List (List Char)} (hne : pieces ≠ [])
    (h : ∀ p ∈ pieces, sep ∉ p) : split sep ([sep].intercalate pieces) = pieces := by
  induction pieces with
  | nil => exact absurd rfl hne
  | cons p pieces ih =>
      have hp := h p List.mem_cons_self
      cases pieces with
      | nil =>
          rw [List.intercalate_singleton]
          exact split_of_not_mem hp
      | cons q pieces =>
          rw [List.intercalate_cons_cons, List.append_assoc, List.singleton_append, split_append hp,
            ih (List.cons_ne_nil q pieces) fun r hr => h r (List.mem_cons_of_mem p hr)]

/-- A joined text has the characters of its pieces and the separator. -/
theorem mem_intercalate {sep c : Char} {pieces : List (List Char)}
    (h : c ∈ [sep].intercalate pieces) : c = sep ∨ ∃ p ∈ pieces, c ∈ p := by
  induction pieces with
  | nil => cases h
  | cons p pieces ih =>
      cases pieces with
      | nil => exact .inr ⟨p, List.mem_cons_self, by rwa [List.intercalate_singleton] at h⟩
      | cons q pieces =>
          rw [List.intercalate_cons_cons, List.mem_append, List.mem_append] at h
          rcases h with (hp | hsep) | hrest
          · exact .inr ⟨p, List.mem_cons_self, hp⟩
          · exact .inl (List.mem_singleton.mp hsep)
          · exact (ih hrest).imp_right fun ⟨r, hr, hc⟩ => ⟨r, List.mem_cons_of_mem p hr, hc⟩

/-- No piece has the separator in it. -/
theorem not_mem_of_mem_split {sep : Char} {s piece : List Char} (h : piece ∈ split sep s) :
    sep ∉ piece := by
  induction s generalizing piece with
  | nil =>
      rw [List.mem_singleton.mp h]
      exact List.not_mem_nil
  | cons c s ih =>
      rw [split] at h
      split at h
      · rcases List.mem_cons.mp h with rfl | hrest
        · exact List.not_mem_nil
        · exact ih hrest
      · next hc =>
          split at h
          · rw [List.mem_singleton.mp h, List.mem_singleton]
            exact Ne.symm hc
          · next first others hsplit =>
              rw [hsplit] at ih
              rcases List.mem_cons.mp h with rfl | hrest
              · exact fun hmem => (List.mem_cons.mp hmem).elim (Ne.symm hc) (ih List.mem_cons_self)
              · exact ih (List.mem_cons_of_mem first hrest)

/-- The pieces of any text, joined again, are the text. -/
theorem intercalate_split (sep : Char) (s : List Char) :
    ∃ piece pieces, split sep s = piece :: pieces ∧ [sep].intercalate (piece :: pieces) = s := by
  induction s with
  | nil => exact ⟨[], [], rfl, rfl⟩
  | cons c s ih =>
      obtain ⟨piece, pieces, hsplit, hjoin⟩ := ih
      rw [split, hsplit]
      by_cases hc : c = sep
      · refine ⟨[], piece :: pieces, if_pos hc, ?_⟩
        rw [List.intercalate_cons_cons, hjoin, hc]
        rfl
      · refine ⟨c :: piece, pieces, if_neg hc, ?_⟩
        cases pieces with
        | nil =>
            rw [List.intercalate_singleton] at hjoin ⊢
            rw [hjoin]
        | cons q pieces =>
            rw [List.intercalate_cons_cons] at hjoin ⊢
            rw [← hjoin]
            rfl

/-- Two lists of pieces that are joined. -/
theorem intercalate_append (sep : Char) (p q : List Char) (pieces others : List (List Char)) :
    [sep].intercalate (p :: pieces ++ q :: others) =
      [sep].intercalate (p :: pieces) ++ sep :: [sep].intercalate (q :: others) := by
  induction pieces generalizing p with
  | nil =>
      rw [List.intercalate_singleton, List.singleton_append, List.intercalate_cons_cons,
        List.append_assoc]
      rfl
  | cons r pieces ih =>
      have hrest := ih r
      rw [List.cons_append, List.cons_append, List.intercalate_cons_cons,
        List.intercalate_cons_cons, ← List.cons_append, hrest]
      simp only [List.append_assoc]

/-- Joined pieces: each but the first stands behind a separator. -/
theorem intercalate_cons_eq (sep p : List Char) (pieces : List (List Char)) :
    sep.intercalate (p :: pieces) = p ++ pieces.flatMap fun q => sep ++ q := by
  induction pieces generalizing p with
  | nil => rw [List.intercalate_singleton, List.flatMap_nil, List.append_nil]
  | cons q pieces ih =>
      rw [List.intercalate_cons_cons, ih, List.flatMap_cons, List.append_assoc, List.append_assoc]

/-! ## Trimming -/

/-- A prefix that is there once is taken away once. -/
theorem trimStartMatches_append {pat rest : List Char} (hpat : pat ≠ [])
    (h : pat.isPrefixOf? rest = none) : trimStartMatches pat (pat ++ rest) = rest := by
  have hstrip : pat.isPrefixOf? (pat ++ rest) = some rest :=
    List.isPrefixOf?_eq_some_iff_append_eq.mpr rfl
  have hrest (n : ℕ) : stripRepeated pat n rest = rest := by
    cases n with
    | zero => rfl
    | succ n => rw [stripRepeated, h]
  obtain ⟨c, cs, rfl⟩ := List.exists_cons_of_ne_nil hpat
  unfold trimStartMatches
  rw [List.cons_append, List.length_cons, stripRepeated, ← List.cons_append, hstrip]
  exact hrest _

/-- A pattern is not found at the front of a text that starts otherwise. -/
theorem isPrefixOf?_of_head {c : Char} {cs s : List Char} (h : ∀ d ∈ s.head?, d ≠ c) :
    (c :: cs).isPrefixOf? s = none := by
  cases s with
  | nil => rfl
  | cons d s =>
      have hne : c ≠ d := Ne.symm (h d rfl)
      rw [List.isPrefixOf?, if_neg (by simpa using hne)]

/-- A pattern with a character that the text lacks is not found at its front. -/
theorem isPrefixOf?_of_not_mem {c : Char} {pat s : List Char} (hpat : c ∈ pat) (h : c ∉ s) :
    pat.isPrefixOf? s = none := by
  cases hrest : pat.isPrefixOf? s with
  | none => rfl
  | some rest =>
      rw [List.isPrefixOf?_eq_some_iff_append_eq] at hrest
      exact absurd (hrest ▸ List.mem_append_left rest hpat) h

/-- One character is trimmed where only one stands. -/
theorem trimEndMatches_append {c : Char} {s : List Char} (h : ∀ d ∈ s.getLast?, d ≠ c) :
    trimEndMatches [c] (s ++ [c]) = s := by
  have hhead : ∀ d ∈ s.reverse.head?, d ≠ c := by
    rw [List.head?_reverse]
    exact h
  unfold trimEndMatches
  rw [List.reverse_append, List.reverse_singleton,
    trimStartMatches_append (List.cons_ne_nil c []) (isPrefixOf?_of_head hhead),
    List.reverse_reverse]

/-! ## Numbers -/

/-- The digits of a number are characters of digits. -/
theorem digitChar_of_mem_toDigits {radix n : ℕ} (hradix : 1 < radix) {c : Char}
    (h : c ∈ Nat.toDigits radix n) :
    ∃ d < radix, c = Nat.digitChar d := by
  induction n using Nat.strong_induction_on with
  | h n ih =>
      by_cases hlt : n < radix
      · rw [Nat.toDigits_of_lt_base hlt] at h
        exact ⟨n, hlt, List.mem_singleton.mp h⟩
      · rw [Nat.toDigits_of_base_le hradix (by omega)] at h
        rcases List.mem_append.mp h with hrest | hlast
        · exact ih (n / radix) (Nat.div_lt_self (by omega) hradix) hrest
        · exact ⟨n % radix, Nat.mod_lt n (by omega), List.mem_singleton.mp hlast⟩

section Radix

variable {radix bound : ℕ} (hdigit : ∀ d < 16, hexDigit (Nat.digitChar d) = some d)
  (hradix : 1 < radix) (hle : radix ≤ 16)

include hdigit hradix hle

/-- The digits of a number are read back as the number. -/
theorem radixDigits_toDigits {n : ℕ} (h : n < bound) :
    radixDigits radix bound (Nat.toDigits radix n) = some n := by
  induction n using Nat.strong_induction_on with
  | h n ih =>
      have hstep (m d : ℕ) (hd : d < radix) (hsum : m * radix + d < bound) :
          (hexDigit (Nat.digitChar d)).bind (fun d =>
            if d < radix ∧ m * radix + d < bound then some (m * radix + d) else none) =
              some (m * radix + d) := by
        rw [hdigit d (by omega), Option.bind_some, if_pos ⟨hd, hsum⟩]
      by_cases hlt : n < radix
      · have hzero := hstep 0 n hlt (by omega)
        simp only [Nat.zero_mul, Nat.zero_add] at hzero
        rw [Nat.toDigits_of_lt_base hlt]
        unfold radixDigits
        rw [List.foldlM_cons]
        simp only [Nat.zero_mul, Nat.zero_add, Option.bind_eq_bind, List.foldlM_nil]
        rw [hzero]
        rfl
      · have hdiv : n / radix < n := Nat.div_lt_self (by omega) hradix
        have hmod : n % radix < radix := Nat.mod_lt n (by omega)
        have hsum : n / radix * radix + n % radix = n := Nat.div_add_mod' n radix
        have hrest := ih (n / radix) hdiv (by omega)
        have hlast := hstep (n / radix) (n % radix) hmod (by omega)
        rw [hsum] at hlast
        rw [Nat.toDigits_of_base_le hradix (by omega)]
        unfold radixDigits at hrest ⊢
        rw [List.foldlM_append, hrest]
        simp only [List.foldlM_cons, List.foldlM_nil, Option.bind_eq_bind, Option.bind_some]
        rw [hlast]
        rfl

/-- **A number written in a radix is read back.** -/
theorem fromStrRadix_toDigits {n : ℕ} (h : n < bound) :
    fromStrRadix radix bound (Nat.toDigits radix n) = some n := by
  have hread := radixDigits_toDigits hdigit hradix hle h
  have hsome : ∀ c ∈ Nat.toDigits radix n, (hexDigit c).isSome := by
    intro c hc
    obtain ⟨d, hd, rfl⟩ := digitChar_of_mem_toDigits hradix hc
    rw [hdigit d (by omega)]
    rfl
  have hne : Nat.toDigits radix n ≠ [] := Nat.toDigits_ne_nil
  generalize Nat.toDigits radix n = s at hread hsome hne
  unfold fromStrRadix
  split
  · exact absurd rfl hne
  · exact absurd (hsome '+' List.mem_cons_self) (by decide)
  · exact absurd (hsome '+' List.mem_cons_self) (by decide)
  · exact hread

end Radix

end Oboromi.Lib.Text
