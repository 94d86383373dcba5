import Mathlib.Tactic

set_option autoImplicit false

/-! # Words in a text

A word is told from what follows it by its letters: where two texts start with words of the same
letters, and what follows starts with no such letter, equal texts have equal words; and from the
end likewise. The decimal digits of a number are a word, and so are its hexadecimal ones.
-/

namespace Katabasis.Words

variable {p : Char → Bool}

theorem takeWhile_word {word rest : List Char} (hword : ∀ c ∈ word, p c = true)
    (hrest : ∀ c ∈ rest.head?, p c = false) : (word ++ rest).takeWhile p = word := by
  rw [List.takeWhile_append_of_pos hword]
  cases rest with
  | nil => simp
  | cons c rest => rw [List.takeWhile_cons, if_neg (by simp [hrest c rfl]), List.append_nil]

/-- **Equal texts start with equal words.** -/
theorem word_unique {a b s t : List Char} (ha : ∀ c ∈ a, p c = true) (hb : ∀ c ∈ b, p c = true)
    (hs : ∀ c ∈ s.head?, p c = false) (ht : ∀ c ∈ t.head?, p c = false) (h : a ++ s = b ++ t) :
    a = b := by
  rw [← takeWhile_word ha hs, h, takeWhile_word hb ht]

/-- **Equal texts end in equal words**, each behind a letter of another kind. -/
theorem last_word_unique {a b u v : List Char} {x y : Char} (hu : ∀ c ∈ u, p c = true)
    (hv : ∀ c ∈ v, p c = true) (hx : p x = false) (hy : p y = false)
    (h : a ++ x :: u = b ++ y :: v) : a ++ [x] = b ++ [y] ∧ u = v := by
  have hrev : u.reverse ++ x :: a.reverse = v.reverse ++ y :: b.reverse := by
    simpa using congrArg List.reverse h
  have hword : u.reverse = v.reverse := word_unique (p := p) (by simpa using hu) (by simpa using hv)
    (fun c hc => by rwa [← Option.some.inj hc]) (fun c hc => by rwa [← Option.some.inj hc]) hrev
  have huv : u = v := List.reverse_injective hword
  subst huv
  refine ⟨?_, rfl⟩
  rw [← List.singleton_append, ← List.append_assoc] at h
  have hb : b ++ y :: u = b ++ [y] ++ u := by simp
  rw [hb] at h
  exact List.append_cancel_right h

/-! ## Numbers -/

theorem isDigit_of_mem_toString {n : Nat} {c : Char} (hc : c ∈ (toString n).toList) :
    c.isDigit = true := by
  rw [Nat.toString_eq_ofList_toDigits, String.toList_ofList] at hc
  exact Nat.isDigit_of_mem_toDigits (by decide) (by decide) hc

theorem toString_injective {m n : Nat} (h : (toString m).toList = (toString n).toList) :
    m = n := by
  rw [Nat.toString_eq_ofList_toDigits, Nat.toString_eq_ofList_toDigits, String.toList_ofList,
    String.toList_ofList] at h
  have hvalue := congrArg (Nat.ofDigitChars 10 · 0) h
  rwa [Nat.ofDigitChars_ten_toDigits, Nat.ofDigitChars_ten_toDigits] at hvalue

/-- **Numbers in a text**: followed by no digit, equal texts start with equal numbers. -/
theorem number_unique {m n : Nat} {s t : List Char} (hs : ∀ c ∈ s.head?, c.isDigit = false)
    (ht : ∀ c ∈ t.head?, c.isDigit = false)
    (h : (toString m).toList ++ s = (toString n).toList ++ t) : m = n :=
  toString_injective (word_unique (fun _ => isDigit_of_mem_toString)
    (fun _ => isDigit_of_mem_toString) hs ht h)

/-! ## Hexadecimal digits -/

theorem digitChar_injective : ∀ m < 16, ∀ n < 16, Nat.digitChar m = Nat.digitChar n → m = n := by
  decide

theorem exists_of_mem_toDigits {n : Nat} {c : Char} (hc : c ∈ Nat.toDigits 16 n) :
    ∃ d < 16, c = Nat.digitChar d := by
  induction n using Nat.strong_induction_on with
  | _ n ih =>
      rw [Nat.toDigits_eq_if (by decide)] at hc
      split at hc
      case isTrue hlt => exact ⟨n, hlt, List.mem_singleton.mp hc⟩
      case isFalse hge =>
          rcases List.mem_append.mp hc with hinit | hlast
          · exact ih (n / 16) (by omega) hinit
          · exact ⟨n % 16, Nat.mod_lt _ (by decide), List.mem_singleton.mp hlast⟩

/-- Letters that are no hexadecimal digits. -/
theorem ne_of_mem_toDigits {x : Char} (hx : ∀ d < 16, Nat.digitChar d ≠ x) {n : Nat} {c : Char}
    (hc : c ∈ Nat.toDigits 16 n) : c ≠ x := by
  obtain ⟨d, hd, rfl⟩ := exists_of_mem_toDigits hc
  exact hx d hd

theorem toDigits_injective {m n : Nat} (h : Nat.toDigits 16 m = Nat.toDigits 16 n) : m = n := by
  induction m using Nat.strong_induction_on generalizing n with
  | _ m ih =>
      have hone : (1 : Nat) < 16 := by decide
      by_cases hm : m < 16 <;> by_cases hn : n < 16
      · rw [Nat.toDigits_of_lt_base hm, Nat.toDigits_of_lt_base hn, List.singleton_inj] at h
        exact digitChar_injective m hm n hn h
      · have hlen := congrArg List.length h
        rw [Nat.toDigits_of_lt_base hm, Nat.toDigits_of_base_le hone (by omega),
          List.length_append] at hlen
        have := Nat.length_toDigits_pos (b := 16) (n := n / 16)
        simp only [List.length_singleton] at hlen
        omega
      · have hlen := congrArg List.length h
        rw [Nat.toDigits_of_base_le hone (by omega), Nat.toDigits_of_lt_base hn,
          List.length_append] at hlen
        have := Nat.length_toDigits_pos (b := 16) (n := m / 16)
        simp only [List.length_singleton] at hlen
        omega
      · rw [Nat.toDigits_of_base_le hone (by omega : 16 ≤ m),
          Nat.toDigits_of_base_le hone (by omega : 16 ≤ n)] at h
        obtain ⟨hinit, hlast⟩ := List.append_inj' h rfl
        have hdiv := ih (m / 16) (by omega) hinit
        have hmod := digitChar_injective _ (Nat.mod_lt m (by decide)) _
          (Nat.mod_lt n (by decide)) (List.singleton_inj.mp hlast)
        omega

theorem toDigits_ne_zero_cons {n : Nat} (hn : 0 < n) (rest : List Char) :
    Nat.toDigits 16 n ≠ '0' :: rest := by
  induction n using Nat.strong_induction_on generalizing rest with
  | _ n ih =>
      intro h
      by_cases hlt : n < 16
      · rw [Nat.toDigits_of_lt_base hlt, List.cons.injEq] at h
        have := digitChar_injective n hlt 0 (by decide) h.1
        omega
      · rw [Nat.toDigits_of_base_le (by decide) (by omega)] at h
        have hdigits : 0 < (Nat.toDigits 16 (n / 16)).length := Nat.length_toDigits_pos
        cases hinit : Nat.toDigits 16 (n / 16) with
        | nil => simp [hinit] at hdigits
        | cons c init =>
            rw [hinit, List.cons_append, List.cons.injEq] at h
            exact ih (n / 16) (by omega) (by omega) init (h.1 ▸ hinit)

/-- What is left of a padded number without its zeros. -/
theorem dropWhile_padded (k n : Nat) :
    (List.replicate k '0' ++ Nat.toDigits 16 n).dropWhile (· == '0')
      = if n = 0 then [] else Nat.toDigits 16 n := by
  have hzeros : ∀ c ∈ List.replicate k '0', (c == '0') = true := by
    intro c hc
    simp [List.eq_of_mem_replicate hc]
  rw [List.dropWhile_append_of_pos hzeros]
  split
  case isTrue hn =>
      subst hn
      decide
  case isFalse hn =>
      cases hdigits : Nat.toDigits 16 n with
      | nil => rfl
      | cons c rest =>
          have hc : c ≠ '0' := fun hc => toDigits_ne_zero_cons (by omega) rest (hc ▸ hdigits)
          simp [hc]

/-- **Numbers with zeros in front** are told apart. -/
theorem padded_injective {k j m n : Nat}
    (h : List.replicate k '0' ++ Nat.toDigits 16 m = List.replicate j '0' ++ Nat.toDigits 16 n) :
    m = n := by
  have hdrop := congrArg (List.dropWhile (· == '0')) h
  rw [dropWhile_padded, dropWhile_padded] at hdrop
  have hne : ∀ n, Nat.toDigits 16 n ≠ [] := fun n hnil => by
    have := Nat.length_toDigits_pos (b := 16) (n := n)
    simp [hnil] at this
  by_cases hm : m = 0 <;> by_cases hn : n = 0
  · rw [hm, hn]
  · rw [if_pos hm, if_neg hn] at hdrop
    exact absurd hdrop.symm (hne n)
  · rw [if_neg hm, if_pos hn] at hdrop
    exact absurd hdrop (hne m)
  · rw [if_neg hm, if_neg hn] at hdrop
    exact toDigits_injective hdrop

/-! ## Texts of several words -/

/-- **Words between separators**: equal texts have equal words. -/
theorem intercalate_injective {c : Char} {words words' : List String}
    (hwords : ∀ w ∈ words, c ∉ w.toList) (hwords' : ∀ w ∈ words', c ∉ w.toList)
    (hne : words ≠ []) (hne' : words' ≠ [])
    (h : (String.singleton c).intercalate words = (String.singleton c).intercalate words') :
    words = words' := by
  have hsplit : ∀ words : List String, (∀ w ∈ words, c ∉ w.toList) → words ≠ [] →
      List.splitOn c ((String.singleton c).intercalate words).toList
        = words.map String.toList := by
    intro words hwords hne
    rw [String.toList_intercalate, String.toList_singleton]
    apply List.splitOn_intercalate
    · intro chars hchars
      obtain ⟨w, hw, rfl⟩ := List.mem_map.mp hchars
      exact hwords w hw
    · simpa using hne
  have hlists : words.map String.toList = words'.map String.toList := by
    rw [← hsplit words hwords hne, h, hsplit words' hwords' hne']
  exact List.map_injective_iff.mpr (fun _ _ h => String.toList_inj.mp h) hlists

end Katabasis.Words
