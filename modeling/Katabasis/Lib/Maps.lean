import Mathlib.Tactic
import Std.Data.ExtTreeMap

set_option autoImplicit false

/-! # Ordered maps: merging one into another

A loop that walks the entries of an ordered map in key order and writes some of them into a
second map. What the second map holds afterwards is read off key by key. `merge` replaces
single keys; `overwriteList` is for entries that stand for a range of keys each, and take the
place of everything that starts in their range.
-/

namespace Katabasis.Maps

open Std

variable {κ ν ω : Type} {cmp : κ → κ → Ordering} [TransCmp cmp] [LawfulEqCmp cmp]

/-- Write into `target` what `f` makes of each entry, where it makes something. -/
def mergeList (f : κ → ν → Option ω) (entries : List (κ × ν)) (target : ExtTreeMap κ ω cmp) :
    ExtTreeMap κ ω cmp :=
  entries.foldl
    (fun target entry =>
      match f entry.1 entry.2 with
      | some value => target.insert entry.1 value
      | none => target)
    target

/-- Write into `target` what `f` makes of each entry of a map, in key order. -/
def merge (f : κ → ν → Option ω) (m : ExtTreeMap κ ν cmp) (target : ExtTreeMap κ ω cmp) :
    ExtTreeMap κ ω cmp :=
  mergeList f m.toList target

theorem getElem?_mergeList_of_notMem {f : κ → ν → Option ω} {entries : List (κ × ν)}
    {target : ExtTreeMap κ ω cmp} {k : κ} (h : ∀ entry ∈ entries, entry.1 ≠ k) :
    (mergeList f entries target)[k]? = target[k]? := by
  induction entries generalizing target with
  | nil => rfl
  | cons entry rest ih =>
      have hne : entry.1 ≠ k := h entry List.mem_cons_self
      have hrest : ∀ e ∈ rest, e.1 ≠ k := fun e he => h e (List.mem_cons_of_mem _ he)
      simp only [mergeList, List.foldl_cons]
      refine (ih hrest).trans ?_
      cases f entry.1 entry.2 with
      | none => rfl
      | some value =>
          rw [ExtTreeMap.getElem?_insert, if_neg]
          rw [LawfulEqCmp.compare_eq_iff_eq]
          exact hne

theorem getElem?_mergeList_of_mem {f : κ → ν → Option ω} {entries : List (κ × ν)}
    {target : ExtTreeMap κ ω cmp} {k : κ} {v : ν}
    (hd : entries.Pairwise fun a b => a.1 ≠ b.1) (hm : (k, v) ∈ entries) :
    (mergeList f entries target)[k]? = (f k v).or target[k]? := by
  induction entries generalizing target with
  | nil => cases hm
  | cons entry rest ih =>
      rw [List.pairwise_cons] at hd
      simp only [mergeList, List.foldl_cons]
      rcases List.mem_cons.mp hm with rfl | hrest
      · refine (getElem?_mergeList_of_notMem fun e he => (hd.1 e he).symm).trans ?_
        cases f k v with
        | none => rfl
        | some value => simp
      · refine (ih hd.2 hrest).trans ?_
        have hne : entry.1 ≠ k := hd.1 _ hrest
        cases f entry.1 entry.2 with
        | none => rfl
        | some value =>
            congr 1
            rw [ExtTreeMap.getElem?_insert, if_neg]
            rw [LawfulEqCmp.compare_eq_iff_eq]
            exact hne

theorem distinct_toList (m : ExtTreeMap κ ν cmp) : m.toList.Pairwise fun a b => a.1 ≠ b.1 :=
  m.distinct_keys_toList.imp fun h heq => h (LawfulEqCmp.compare_eq_iff_eq.mpr heq)

/-- **The merged map, key by key.** -/
theorem getElem?_merge (f : κ → ν → Option ω) (m : ExtTreeMap κ ν cmp)
    (target : ExtTreeMap κ ω cmp) (k : κ) :
    (merge f m target)[k]? = (m[k]?.bind (f k)).or target[k]? := by
  cases hk : m[k]? with
  | some v =>
      have hm := ExtTreeMap.mem_toList_iff_getElem?_eq_some.mpr hk
      exact getElem?_mergeList_of_mem (distinct_toList m) hm
  | none =>
      refine getElem?_mergeList_of_notMem fun entry hentry heq => ?_
      have := ExtTreeMap.mem_toList_iff_getElem?_eq_some.mp (show (k, entry.2) ∈ m.toList by
        rw [← heq]; exact hentry)
      rw [hk] at this
      cases this

/-! ## Entries written one after the other -/

/-- Write the entries into a map; the last one of a key stays. -/
def insertList (entries : List (κ × ω)) (target : ExtTreeMap κ ω cmp) : ExtTreeMap κ ω cmp :=
  entries.foldl (fun target entry => target.insert entry.1 entry.2) target

omit [LawfulEqCmp cmp] in
theorem insertList_append (first second : List (κ × ω)) (target : ExtTreeMap κ ω cmp) :
    insertList (first ++ second) target = insertList second (insertList first target) :=
  List.foldl_append

/-- A key without an entry keeps its value. -/
theorem getElem?_insertList_of_notMem {entries : List (κ × ω)} {target : ExtTreeMap κ ω cmp}
    {k : κ} (h : ∀ entry ∈ entries, entry.1 ≠ k) : (insertList entries target)[k]? = target[k]? := by
  induction entries generalizing target with
  | nil => rfl
  | cons entry rest ih =>
      have hne : cmp entry.1 k ≠ .eq := fun heq =>
        h entry List.mem_cons_self (LawfulEqCmp.compare_eq_iff_eq.mp heq)
      refine (ih fun e he => h e (List.mem_cons_of_mem _ he)).trans ?_
      rw [ExtTreeMap.getElem?_insert, if_neg hne]

/-- A key with an entry has the value of one of its entries. -/
theorem getElem?_insertList_of_mem {entries : List (κ × ω)} {target : ExtTreeMap κ ω cmp}
    {k : κ} (h : ∃ entry ∈ entries, entry.1 = k) :
    ∃ v, (k, v) ∈ entries ∧ (insertList entries target)[k]? = some v := by
  induction entries generalizing target with
  | nil =>
      obtain ⟨entry, hm, -⟩ := h
      cases hm
  | cons entry rest ih =>
      by_cases hrest : ∃ e ∈ rest, e.1 = k
      · obtain ⟨v, hv, hget⟩ := ih hrest
        exact ⟨v, List.mem_cons_of_mem _ hv, hget⟩
      · obtain ⟨e, hm, heq⟩ := h
        rcases List.mem_cons.mp hm with rfl | hm'
        · refine ⟨e.2, by rw [← heq]; exact List.mem_cons_self, ?_⟩
          refine (getElem?_insertList_of_notMem fun e' he' heq' => hrest ⟨e', he', heq'⟩).trans ?_
          rw [← heq]
          exact ExtTreeMap.getElem?_insert_self
        · exact absurd ⟨e, hm', heq⟩ hrest

theorem mem_of_getElem?_insertList {entries : List (κ × ω)} {k : κ} {v : ω}
    (h : (insertList entries (∅ : ExtTreeMap κ ω cmp))[k]? = some v) : (k, v) ∈ entries := by
  by_cases hmem : ∃ entry ∈ entries, entry.1 = k
  · have hsome : ∃ v', (k, v') ∈ entries ∧
        (insertList entries (∅ : ExtTreeMap κ ω cmp))[k]? = some v' :=
      getElem?_insertList_of_mem hmem
    obtain ⟨v', hv', hget⟩ := hsome
    rw [h] at hget
    cases hget
    exact hv'
  · rw [getElem?_insertList_of_notMem fun e he heq => hmem ⟨e, he, heq⟩] at h
    simp at h

/-- Where no key comes twice, each entry is found. -/
theorem getElem?_insertList_of_nodup {entries : List (κ × ω)} {target : ExtTreeMap κ ω cmp}
    (hnodup : (entries.map Prod.fst).Nodup) {entry : κ × ω} (h : entry ∈ entries) :
    (insertList entries target)[entry.1]? = some entry.2 := by
  have hsome : ∃ v, (entry.1, v) ∈ entries ∧ (insertList entries target)[entry.1]? = some v :=
    getElem?_insertList_of_mem ⟨entry, h, rfl⟩
  obtain ⟨v, hv, hget⟩ := hsome
  have heq : (entry.1, v) = entry := List.inj_on_of_nodup_map hnodup hv h rfl
  rw [hget, ← heq]

/-! ## Keys that are renamed in their order -/

omit [LawfulEqCmp cmp] in
theorem irrefl_lt (k : κ) : cmp k k ≠ .lt := by
  have heq : cmp k k = .eq := ReflCmp.compare_self
  rw [heq]
  decide

section

variable {ω' : Type} (f : κ → κ) (g : ω → ω')

/-- An entry under its new key. -/
def rename (entry : κ × ω) : κ × ω' := (f entry.1, g entry.2)

variable {f g} {entries : List (κ × ω)}
  (hf : ∀ a ∈ entries, ∀ b ∈ entries, cmp a.1 b.1 = .lt → cmp (f a.1) (f b.1) = .lt)

include hf

/-- Only one key becomes the new key of an entry. -/
theorem eq_of_renamed {a b : κ × ω} (ha : a ∈ entries) (hb : b ∈ entries) (h : f a.1 = f b.1) :
    a.1 = b.1 := by
  cases hab : cmp a.1 b.1 with
  | lt =>
      have hlt := hf a ha b hb hab
      rw [h] at hlt
      exact absurd hlt (irrefl_lt _)
  | eq => exact LawfulEqCmp.compare_eq_iff_eq.mp hab
  | gt =>
      have hlt := hf b hb a ha (OrientedCmp.gt_iff_lt.mp hab)
      rw [h] at hlt
      exact absurd hlt (irrefl_lt _)

theorem getElem?_insertList_rename {entry : κ × ω} (hentry : entry ∈ entries) :
    (insertList (entries.map (rename f g)) (∅ : ExtTreeMap κ ω' cmp))[f entry.1]?
      = (insertList entries (∅ : ExtTreeMap κ ω cmp))[entry.1]?.map g := by
  have hkey := fun other hother => eq_of_renamed hf (a := other) hother hentry
  clear hf hentry
  -- the last entry of a key decides, so the induction takes the entries from the end
  induction entries using List.reverseRecOn with
  | nil => simp [insertList]
  | append_singleton before last ih =>
      rw [List.map_append, insertList_append, insertList_append]
      simp only [insertList, List.map_cons, List.map_nil, List.foldl_cons, List.foldl_nil]
      rw [ExtTreeMap.getElem?_insert, ExtTreeMap.getElem?_insert]
      by_cases hlast : last.1 = entry.1
      · have heq : cmp last.1 entry.1 = .eq := LawfulEqCmp.compare_eq_iff_eq.mpr hlast
        have heq' : cmp (rename f g last).1 (f entry.1) = .eq :=
          LawfulEqCmp.compare_eq_iff_eq.mpr (congrArg f hlast)
        rw [if_pos heq, if_pos heq']
        rfl
      · have hne : cmp last.1 entry.1 ≠ .eq := fun heq =>
          hlast (LawfulEqCmp.compare_eq_iff_eq.mp heq)
        have hne' : cmp (rename f g last).1 (f entry.1) ≠ .eq := fun heq =>
          hlast (hkey last (by simp) (LawfulEqCmp.compare_eq_iff_eq.mp heq))
        rw [if_neg hne, if_neg hne']
        exact ih fun other hother => hkey other (List.mem_append_left _ hother)

/-- **The renamed entries come in the same order.** -/
theorem toList_insertList_rename :
    (insertList (entries.map (rename f g)) (∅ : ExtTreeMap κ ω' cmp)).toList
      = (insertList entries (∅ : ExtTreeMap κ ω cmp)).toList.map (rename f g) := by
  have hmem : ∀ entry ∈ (insertList entries (∅ : ExtTreeMap κ ω cmp)).toList, entry ∈ entries :=
    fun entry h => mem_of_getElem?_insertList (ExtTreeMap.mem_toList_iff_getElem?_eq_some.mp h)
  have hleft := (insertList (entries.map (rename f g))
    (∅ : ExtTreeMap κ ω' cmp)).ordered_keys_toList
  have hright : ((insertList entries (∅ : ExtTreeMap κ ω cmp)).toList.map
      (rename f g)).Pairwise fun a b => cmp a.1 b.1 = .lt := by
    rw [List.pairwise_map]
    refine List.Pairwise.imp_of_mem ?_
      (insertList entries (∅ : ExtTreeMap κ ω cmp)).ordered_keys_toList
    intro a b ha hb hlt
    exact hf a (hmem a ha) b (hmem b hb) hlt
  have hirrefl : ∀ {a b : κ × ω'}, cmp a.1 b.1 = .lt → a ≠ b := by
    rintro a b hlt rfl
    exact irrefl_lt _ hlt
  refine List.Perm.eq_of_pairwise (fun a b _ _ hab hba => ?_) hleft hright
    ((List.perm_ext_iff_of_nodup (hleft.imp hirrefl) (hright.imp hirrefl)).mpr fun entry => ?_)
  · rw [← OrientedCmp.gt_iff_lt, hab] at hba
    cases hba
  · rw [show entry = (entry.1, entry.2) from rfl, ExtTreeMap.mem_toList_iff_getElem?_eq_some]
    constructor
    · intro hget
      obtain ⟨old, hold, hrenamed⟩ := List.mem_map.mp (mem_of_getElem?_insertList hget)
      have hkey : entry.1 = f old.1 := (congrArg Prod.fst hrenamed).symm
      rw [hkey, getElem?_insertList_rename hf hold, Option.map_eq_some_iff] at hget
      obtain ⟨v, hv, hvalue⟩ := hget
      refine List.mem_map.mpr
        ⟨(old.1, v), ExtTreeMap.mem_toList_iff_getElem?_eq_some.mpr hv, ?_⟩
      rw [rename, hvalue, ← hkey]
    · intro hin
      obtain ⟨old, hold, hrenamed⟩ := List.mem_map.mp hin
      have hget := ExtTreeMap.mem_toList_iff_getElem?_eq_some.mp
        (show (old.1, old.2) ∈ (insertList entries (∅ : ExtTreeMap κ ω cmp)).toList from hold)
      have hkey : f old.1 = entry.1 := congrArg Prod.fst hrenamed
      have hvalue : g old.2 = entry.2 := congrArg Prod.snd hrenamed
      rw [← hkey, getElem?_insertList_rename hf (hmem old hold), hget, ← hvalue]
      rfl

end

/-! ## Entries that take a range of keys -/

/-- Write an entry and erase every other key that it covers. -/
def overwrite (covers : κ × ω → κ → Bool) (target : ExtTreeMap κ ω cmp) (entry : κ × ω) :
    ExtTreeMap κ ω cmp :=
  (target.filter fun key _ => !covers entry key).insert entry.1 entry.2

def overwriteList (covers : κ × ω → κ → Bool) (entries : List (κ × ω))
    (target : ExtTreeMap κ ω cmp) : ExtTreeMap κ ω cmp :=
  entries.foldl (overwrite covers) target

section

variable {covers : κ × ω → κ → Bool} {target : ExtTreeMap κ ω cmp}

theorem getElem?_overwrite_self (entry : κ × ω) :
    (overwrite covers target entry)[entry.1]? = some entry.2 := by
  simp [overwrite]

theorem getElem?_overwrite_of_ne {entry : κ × ω} {k : κ} (h : entry.1 ≠ k) :
    (overwrite covers target entry)[k]? = if covers entry k then none else target[k]? := by
  have hne : cmp entry.1 k ≠ .eq := fun heq => h (LawfulEqCmp.compare_eq_iff_eq.mp heq)
  rw [overwrite, ExtTreeMap.getElem?_insert, if_neg hne, ExtTreeMap.getElem?_filter']
  cases target[k]? with
  | none => simp
  | some v => cases covers entry k <;> simp [Option.filter]

/-- A key that no entry covers keeps its value. -/
theorem getElem?_overwriteList_of_uncovered {entries : List (κ × ω)} {k : κ}
    (hself : ∀ entry ∈ entries, covers entry entry.1 = true)
    (h : ∀ entry ∈ entries, covers entry k = false) :
    (overwriteList covers entries target)[k]? = target[k]? := by
  induction entries generalizing target with
  | nil => rfl
  | cons entry rest ih =>
      have hcov := h entry List.mem_cons_self
      have hne : entry.1 ≠ k := by
        rintro rfl
        rw [hself entry List.mem_cons_self] at hcov
        cases hcov
      refine (ih (fun e he => hself e (List.mem_cons_of_mem _ he))
        fun e he => h e (List.mem_cons_of_mem _ he)).trans ?_
      rw [getElem?_overwrite_of_ne hne, hcov]
      rfl

/-- **Where one of the entries covers a key**, the map holds that entry at its own key and
nothing at the others: the entries do not erase each other, being disjoint. -/
theorem getElem?_overwriteList_of_covered {entries : List (κ × ω)}
    (hself : ∀ entry ∈ entries, covers entry entry.1 = true)
    (hd : entries.Pairwise fun a b => ∀ k, covers a k = true → covers b k = false)
    {entry : κ × ω} (hm : entry ∈ entries) {k : κ} (hk : covers entry k = true)
    [DecidableEq κ] :
    (overwriteList covers entries target)[k]?
      = if entry.1 = k then some entry.2 else none := by
  induction entries generalizing target with
  | nil => cases hm
  | cons first rest ih =>
      rw [List.pairwise_cons] at hd
      have hself' : ∀ e ∈ rest, covers e e.1 = true := fun e he =>
        hself e (List.mem_cons_of_mem _ he)
      rcases List.mem_cons.mp hm with rfl | hrest
      · refine (getElem?_overwriteList_of_uncovered hself' fun e he => hd.1 e he k hk).trans ?_
        split
        case isTrue heq =>
            rw [← heq]
            exact getElem?_overwrite_self entry
        case isFalse hne => rw [getElem?_overwrite_of_ne hne, if_pos hk]
      · exact ih hself' hd.2 hrest

end

end Katabasis.Maps
