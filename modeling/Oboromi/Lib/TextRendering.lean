import Mathlib.Data.List.TakeWhile
import Mathlib.Data.Nat.Digits.Lemmas
import Oboromi.Lib.Text

/-!
# Text that is written is read back

What the operations on strings give on text that was put together for them: lines that end in a
line feed (`lines_flatMap`), a name and a value around a separator (`splitOnce_append`), padding
(`trim_padded`), and a number written in hexadecimal digits (`fromStrRadix16_digits`).
-/

set_option autoImplicit false

namespace Oboromi.Lib.Text

/-! ## Lines -/

/-- The first piece ends with the first separator. -/
theorem splitInclusive_append {sep : Char} {line : List Char} (h : sep ∉ line)
    (rest : List Char) :
    splitInclusive sep (line ++ sep :: rest) = (line ++ [sep]) :: splitInclusive sep rest := by
  induction line with
  | nil => rw [List.nil_append, splitInclusive, if_pos rfl, List.nil_append]
  | cons c line ih =>
      obtain ⟨hc, hline⟩ := not_or.mp fun hmem => h (List.mem_cons.mpr hmem)
      rw [List.cons_append, splitInclusive, if_neg (Ne.symm hc), ih hline]
      rfl

/-- A last character that matches is stripped. -/
theorem stripSuffix_append (c : Char) (s : List Char) : stripSuffix c (s ++ [c]) = some s := by
  unfold stripSuffix
  rw [List.getLast?_concat, if_pos rfl, List.dropLast_concat]

/-- A text without the character does not end in it. -/
theorem stripSuffix_of_not_mem {c : Char} {s : List Char} (h : c ∉ s) : stripSuffix c s = none := by
  unfold stripSuffix
  rw [if_neg]
  intro hlast
  exact h (List.mem_of_getLast? hlast)

/-- Lines without a line break in them. -/
theorem lines_flatMap (ls : List (List Char)) (h : ∀ l ∈ ls, '\n' ∉ l ∧ '\r' ∉ l) :
    lines (ls.flatMap fun l => l ++ ['\n']) = ls := by
  unfold lines
  induction ls with
  | nil => rfl
  | cons l ls ih =>
      obtain ⟨hfeed, hreturn⟩ := h l List.mem_cons_self
      rw [List.flatMap_cons, List.append_assoc, List.singleton_append,
        splitInclusive_append hfeed, List.map_cons, ih fun k hk => h k (List.mem_cons_of_mem l hk),
        stripSuffix_append]
      dsimp only
      rw [stripSuffix_of_not_mem hreturn]
      rfl

/-! ## Names and values -/

/-- A text is split at its first separator. -/
theorem splitOnce_append {sep : Char} {front : List Char} (h : sep ∉ front) (back : List Char) :
    splitOnce sep (front ++ sep :: back) = some (front, back) := by
  have hne : ∀ c ∈ front, (decide (c ≠ sep)) = true := by
    intro c hc
    have hcs : c ≠ sep := fun heq => h (heq ▸ hc)
    simpa using hcs
  unfold splitOnce
  rw [if_pos (List.mem_append_right _ List.mem_cons_self),
    List.takeWhile_append_of_pos hne, List.dropWhile_append_of_pos hne]
  simp

/-- White space at the two ends is taken away. -/
theorem trim_padded (before after : List Char) {s : List Char}
    (hbefore : ∀ c ∈ before, isWhitespace c = true)
    (hhead : ∀ c ∈ s.head?, isWhitespace c = false)
    (hlast : ∀ c ∈ s.getLast?, isWhitespace c = false)
    (hafter : ∀ c ∈ after, isWhitespace c = true) : trim (before ++ s ++ after) = s := by
  have hdrop {pre t : List Char} (hpre : ∀ c ∈ pre, isWhitespace c = true)
      (ht : ∀ c ∈ t.head?, isWhitespace c = false) : (pre ++ t).dropWhile isWhitespace = t := by
    rw [List.dropWhile_append_of_pos hpre]
    cases t with
    | nil => rfl
    | cons c t => exact List.dropWhile_cons_of_neg (by simp [ht c rfl])
  unfold trim
  cases s with
  | nil =>
      have hall : ∀ c ∈ before ++ [] ++ after, isWhitespace c = true := by
        intro c hc
        rw [List.append_nil, List.mem_append] at hc
        exact hc.elim (hbefore c) (hafter c)
      have hempty : (before ++ [] ++ after).dropWhile isWhitespace = [] :=
        List.dropWhile_eq_nil_iff.mpr hall
      rw [hempty]
      rfl
  | cons c s =>
      have hfirst : (before ++ (c :: s) ++ after).dropWhile isWhitespace = (c :: s) ++ after := by
        rw [List.append_assoc]
        exact hdrop hbefore hhead
      have hreverse : ((c :: s) ++ after).reverse.dropWhile isWhitespace = (c :: s).reverse := by
        rw [List.reverse_append]
        refine hdrop (fun d hd => hafter d (List.mem_reverse.mp hd)) ?_
        rw [List.head?_reverse]
        exact hlast
      rw [hfirst, hreverse, List.reverse_reverse]

/-- Text that begins with another character still begins with it. -/
theorem head?_trim {c : Char} (h : isWhitespace c = false) (s : List Char) :
    (trim (c :: s)).head? = some c := by
  have hfirst : (c :: s).dropWhile isWhitespace = c :: s :=
    List.dropWhile_cons_of_neg (by simp [h])
  unfold trim
  rw [hfirst, List.head?_reverse, List.reverse_cons, List.dropWhile_append]
  split
  · rw [List.dropWhile_cons_of_neg (by simp [h]), List.getLast?_singleton]
  · exact List.getLast?_concat

/-- Text that begins and ends with other characters is left alone. -/
theorem trim_of_ends {s : List Char} (hhead : ∀ c ∈ s.head?, isWhitespace c = false)
    (hlast : ∀ c ∈ s.getLast?, isWhitespace c = false) : trim s = s := by
  have htrim := trim_padded [] [] (by simp) hhead hlast (by simp)
  rwa [List.nil_append, List.append_nil] at htrim

/-- A blank behind a text without white space is trimmed. -/
theorem trim_append_space {s : List Char} (h : ∀ c ∈ s, isWhitespace c = false) :
    trim (s ++ [' ']) = s := by
  have htrim := trim_padded [] [' '] (by simp)
    (fun c hc => h c (List.mem_of_head? hc)) (fun c hc => h c (List.mem_of_getLast? hc))
    (List.forall_mem_singleton.mpr rfl)
  rwa [List.nil_append] at htrim

/-- A blank in front of a text without white space is trimmed. -/
theorem trim_cons_space {s : List Char} (h : ∀ c ∈ s, isWhitespace c = false) :
    trim (' ' :: s) = s := by
  have htrim := trim_padded [' '] [] (List.forall_mem_singleton.mpr rfl)
    (fun c hc => h c (List.mem_of_head? hc)) (fun c hc => h c (List.mem_of_getLast? hc)) (by simp)
  rwa [List.append_nil] at htrim

/-! ## Numbers -/

/-- Digits, lowest first, as text. -/
def digitText (digit : ℕ → Char) (digits : List ℕ) : List Char := digits.reverse.map digit

section Digits

variable {digit : ℕ → Char} (hdigit : ∀ d < 16, hexDigit (digit d) = some d) {digits : List ℕ}
  (h : ∀ d ∈ digits, d < 16) {bound : ℕ}

include hdigit h

/-- What digits are written as are hexadecimal digits. -/
theorem hexDigit_of_mem_digitText {c : Char} (hc : c ∈ digitText digit digits) :
    (hexDigit c).isSome := by
  obtain ⟨d, hd, rfl⟩ := List.mem_map.mp hc
  rw [hdigit d (h d (List.mem_reverse.mp hd))]
  rfl

/-- By induction on the digits: the last one read is the lowest. -/
theorem hexDigits_digitText (hlt : Nat.ofDigits 16 digits < bound) :
    hexDigits bound (digitText digit digits) = some (Nat.ofDigits 16 digits) := by
  induction digits with
  | nil => rfl
  | cons d digits ih =>
      have hvalue : Nat.ofDigits 16 (d :: digits) = d + 16 * Nat.ofDigits 16 digits :=
        Nat.ofDigits_cons
      rw [hvalue] at hlt ⊢
      have hrest := ih (fun e he => h e (List.mem_cons_of_mem d he)) (by omega)
      have hfits : Nat.ofDigits 16 digits * 16 + d < bound := by omega
      unfold hexDigits digitText at hrest ⊢
      rw [List.reverse_cons, List.map_append, List.foldlM_append, hrest]
      show (hexDigit (digit d) >>= fun d => _) >>= _ = _
      rw [hdigit d (h d List.mem_cons_self)]
      show (if Nat.ofDigits 16 digits * 16 + d < bound then _ else none) >>= _ = _
      rw [if_pos hfits]
      show some (Nat.ofDigits 16 digits * 16 + d) = _
      congr 1
      omega

/-- **A number written in digits is read back.** -/
theorem fromStrRadix16_digits (hne : digits ≠ []) (hlt : Nat.ofDigits 16 digits < bound) :
    fromStrRadix16 bound (digitText digit digits) = some (Nat.ofDigits 16 digits) := by
  have hread := hexDigits_digitText hdigit h hlt
  have hsome : ∀ c ∈ digitText digit digits, (hexDigit c).isSome :=
    fun c hc => hexDigit_of_mem_digitText hdigit h hc
  have hne' : digitText digit digits ≠ [] := by
    unfold digitText
    simpa using hne
  generalize digitText digit digits = s at hread hsome hne'
  unfold fromStrRadix16
  split
  · exact absurd rfl hne'
  · exact absurd (hsome '+' List.mem_cons_self) (by decide)
  · exact absurd (hsome '+' List.mem_cons_self) (by decide)
  · exact hread

end Digits

end Oboromi.Lib.Text
