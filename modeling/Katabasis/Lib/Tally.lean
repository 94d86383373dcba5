import Mathlib.Tactic
import Std.Data.ExtTreeMap

set_option autoImplicit false

/-! # Counting by key

The elements of a list are counted by a key, and the first one of every key is kept. `leader` is
the key with the most elements: the keys are gone through in order, so of several it is the least.
The search starts from a key that no element has.
-/

namespace Tally

open Std

variable {α κ : Type} {cmp : κ → κ → Ordering} [TransCmp cmp] [LawfulEqCmp cmp]

/-- The first element of every key. -/
def firsts (key : α → κ) (l : List α) : ExtTreeMap κ α cmp :=
  l.foldl (fun m a => m.insertIfNew (key a) a) ∅

/-- How many elements have each key. -/
def votes (key : α → κ) (l : List α) : ExtTreeMap κ Nat cmp :=
  l.foldl (fun m a => m.insert (key a) (m[key a]?.getD 0 + 1)) ∅

section

variable [DecidableEq κ]

/-- The key that is ahead after one more. -/
def ahead (m : ExtTreeMap κ Nat cmp) (blank best : κ) (entry : κ × Nat) : κ :=
  if best = blank ∨ m[best]?.getD 0 < entry.2 then entry.1 else best

def leader (m : ExtTreeMap κ Nat cmp) (blank : κ) : κ := m.toList.foldl (ahead m blank) blank

end

/-! ## The first of each key -/

theorem getElem?_foldl_insertIfNew [DecidableEq κ] (key : α → κ) (l : List α)
    (m : ExtTreeMap κ α cmp) (k : κ) :
    (l.foldl (fun m a => m.insertIfNew (key a) a) m)[k]?
      = m[k]?.or (l.find? fun a => key a = k) := by
  induction l generalizing m with
  | nil => simp
  | cons a rest ih =>
      rw [List.foldl_cons, ih, ExtTreeMap.getElem?_insertIfNew]
      by_cases hkey : key a = k
      · subst hkey
        by_cases hmem : key a ∈ m
        · rw [if_neg (by simp [hmem])]
          rw [ExtTreeMap.mem_iff_isSome_getElem?] at hmem
          obtain ⟨b, hb⟩ := Option.isSome_iff_exists.mp hmem
          simp [hb]
        · rw [if_pos ⟨ReflCmp.compare_self, hmem⟩, ExtTreeMap.getElem?_eq_none hmem]
          simp
      · have hne : ¬ cmp (key a) k = .eq := fun heq => hkey (LawfulEqCmp.compare_eq_iff_eq.mp heq)
        rw [if_neg (fun h => hne h.1), List.find?_cons_of_neg (by simpa using hkey)]

theorem getElem?_firsts [DecidableEq κ] (key : α → κ) (l : List α) (k : κ) :
    (firsts key l : ExtTreeMap κ α cmp)[k]? = l.find? fun a => key a = k := by
  rw [firsts, getElem?_foldl_insertIfNew]
  simp

/-! ## The number of each key -/

theorem getD_foldl_votes [DecidableEq κ] (key : α → κ) (l : List α) (m : ExtTreeMap κ Nat cmp)
    (k : κ) :
    (l.foldl (fun m a => m.insert (key a) (m[key a]?.getD 0 + 1)) m)[k]?.getD 0
      = m[k]?.getD 0 + l.countP fun a => key a = k := by
  induction l generalizing m with
  | nil => simp
  | cons a rest ih =>
      rw [List.foldl_cons, ih, ExtTreeMap.getElem?_insert]
      by_cases hkey : key a = k
      · subst hkey
        rw [if_pos ReflCmp.compare_self, List.countP_cons_of_pos (by simp), Option.getD_some]
        omega
      · have hne : ¬ cmp (key a) k = .eq := fun heq => hkey (LawfulEqCmp.compare_eq_iff_eq.mp heq)
        rw [if_neg hne, List.countP_cons_of_neg (by simpa using hkey)]

theorem getD_votes [DecidableEq κ] (key : α → κ) (l : List α) (k : κ) :
    (votes key l : ExtTreeMap κ Nat cmp)[k]?.getD 0 = l.countP fun a => key a = k := by
  rw [votes, getD_foldl_votes]
  simp

theorem mem_foldl_votes (key : α → κ) (l : List α) (m : ExtTreeMap κ Nat cmp) (k : κ) :
    k ∈ l.foldl (fun m a => m.insert (key a) (m[key a]?.getD 0 + 1)) m
      ↔ k ∈ m ∨ ∃ a ∈ l, key a = k := by
  induction l generalizing m with
  | nil => simp
  | cons a rest ih =>
      rw [List.foldl_cons, ih, ExtTreeMap.mem_insert]
      simp only [LawfulEqCmp.compare_eq_iff_eq, List.mem_cons, exists_eq_or_imp]
      tauto

/-- The keys with votes are the keys of the elements. -/
theorem mem_votes (key : α → κ) (l : List α) (k : κ) :
    k ∈ (votes key l : ExtTreeMap κ Nat cmp) ↔ ∃ a ∈ l, key a = k := by
  rw [votes, mem_foldl_votes]
  simp

/-! ## The leader -/

section

variable [DecidableEq κ] {m : ExtTreeMap κ Nat cmp} {blank : κ}

omit [LawfulEqCmp cmp] in
/-- What the search has found: nothing yet, or a key that none of those before is ahead of. -/
theorem foldl_ahead (hblank : blank ∉ m) (entries : List (κ × Nat))
    (hentries : ∀ e ∈ entries, m[e.1]? = some e.2) (best : κ) (seen : List (κ × Nat))
    (hbest : best = blank ∧ seen = [] ∨ best ∈ m ∧ ∀ e ∈ seen, e.2 ≤ m[best]?.getD 0) :
    (entries.foldl (ahead m blank) best = blank ∧ seen ++ entries = []) ∨
      entries.foldl (ahead m blank) best ∈ m ∧
        ∀ e ∈ seen ++ entries, e.2 ≤ m[entries.foldl (ahead m blank) best]?.getD 0 := by
  induction entries generalizing best seen with
  | nil => simpa using hbest
  | cons e rest ih =>
      have hget := hentries e List.mem_cons_self
      have hmem : e.1 ∈ m := by simp [ExtTreeMap.mem_iff_isSome_getElem?, hget]
      rw [List.foldl_cons, show seen ++ e :: rest = (seen ++ [e]) ++ rest by simp]
      refine ih (fun e' he' => hentries e' (List.mem_cons_of_mem _ he')) _ _ (.inr ?_)
      unfold ahead
      split_ifs with hahead
      · -- the new key: it is the first, or has more than the best so far
        refine ⟨hmem, fun other hother => ?_⟩
        rw [hget, Option.getD_some]
        rcases List.mem_append.mp hother with hseen | hlast
        · rcases hbest with ⟨-, hnil⟩ | ⟨hin, hall⟩
          · simp [hnil] at hseen
          · have hle := hall other hseen
            rcases hahead with rfl | hlt
            · exact absurd hin hblank
            · omega
        · rw [List.mem_singleton.mp hlast]
      · rcases hbest with ⟨heq, -⟩ | ⟨hin, hall⟩
        · exact absurd (.inl heq) hahead
        · refine ⟨hin, fun other hother => ?_⟩
          rcases List.mem_append.mp hother with hseen | hlast
          · exact hall other hseen
          · rw [List.mem_singleton.mp hlast]
            exact Nat.le_of_not_lt fun hlt => hahead (.inr hlt)

/-- **No key is ahead of the leader.** -/
theorem leader_spec (hblank : blank ∉ m) (hm : m ≠ ∅) :
    leader m blank ∈ m ∧ ∀ k : κ, m[k]?.getD 0 ≤ m[leader m blank]?.getD 0 := by
  have hfold := foldl_ahead hblank m.toList
    (fun e he => ExtTreeMap.mem_toList_iff_getElem?_eq_some.mp he) blank [] (.inl ⟨rfl, rfl⟩)
  rw [List.nil_append] at hfold
  rcases hfold with ⟨-, hnil⟩ | ⟨hin, hall⟩
  · exact absurd (by simpa using hnil) hm
  · refine ⟨hin, fun k => ?_⟩
    cases hk : m[k]? with
    | none => exact Nat.zero_le _
    | some v => exact hall (k, v) (ExtTreeMap.mem_toList_iff_getElem?_eq_some.mpr hk)

end

end Tally
