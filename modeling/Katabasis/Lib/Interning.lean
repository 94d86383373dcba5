import Mathlib.Tactic

set_option autoImplicit false

/-! # Interning

A table that gives every key that it is asked for a number, the position at which the key stands in
it: a key that is there already keeps its number, a new one goes to the end. Numbers are the same
for ever, and two keys never share one.
-/

namespace Interning

variable {α : Type} [DecidableEq α]

/-- The table with a key in it. -/
def add (table : List α) (a : α) : List α := if a ∈ table then table else table ++ [a]

def addAll (table keys : List α) : List α := keys.foldl add table

@[simp] theorem addAll_nil (table : List α) : addAll table [] = table := rfl

@[simp] theorem addAll_cons (table : List α) (a : α) (keys : List α) :
    addAll table (a :: keys) = addAll (add table a) keys := rfl

theorem addAll_append (table keys more : List α) :
    addAll table (keys ++ more) = addAll (addAll table keys) more := by
  rw [addAll, List.foldl_append]
  rfl

theorem mem_add {table : List α} {a b : α} : b ∈ add table a ↔ b ∈ table ∨ b = a := by
  unfold add
  split
  case isTrue h =>
    constructor
    · exact .inl
    · rintro (hb | rfl)
      · exact hb
      · exact h
  case isFalse => simp

theorem prefix_add (table : List α) (a : α) : table <+: add table a := by
  unfold add
  split
  case isTrue => exact List.prefix_refl table
  case isFalse => exact List.prefix_append table [a]

theorem prefix_addAll (table keys : List α) : table <+: addAll table keys := by
  induction keys generalizing table with
  | nil => exact List.prefix_refl table
  | cons a rest ih => exact (prefix_add table a).trans (ih (add table a))

theorem mem_addAll {table keys : List α} {b : α} :
    b ∈ addAll table keys ↔ b ∈ table ∨ b ∈ keys := by
  induction keys generalizing table with
  | nil => simp
  | cons a rest ih => rw [addAll_cons, ih, mem_add, List.mem_cons, or_assoc]

theorem nodup_add {table : List α} (h : table.Nodup) (a : α) : (add table a).Nodup := by
  unfold add
  split
  case isTrue => exact h
  case isFalse hnot =>
    rw [List.nodup_append]
    refine ⟨h, List.nodup_singleton a, fun b hb c hc => ?_⟩
    rw [List.mem_singleton.mp hc]
    rintro rfl
    exact hnot hb

theorem nodup_addAll {table : List α} (h : table.Nodup) (keys : List α) :
    (addAll table keys).Nodup := by
  induction keys generalizing table with
  | nil => exact h
  | cons a rest ih => exact ih (nodup_add h a)

theorem length_addAll_mono (table keys more : List α) :
    (addAll table keys).length ≤ (addAll table (keys ++ more)).length := by
  rw [addAll_append]
  exact (prefix_addAll _ more).length_le

/-- From the empty table, the keys in the order in which they are asked for first. -/
theorem addAll_eq_eraseDups (keys : List α) : addAll [] keys = keys.eraseDups := by
  induction keys using List.reverseRecOn with
  | nil => rfl
  | append_singleton keys a ih =>
      rw [addAll_append, ih, List.eraseDups_append, addAll_cons, addAll_nil, add]
      have hmem : a ∈ keys.eraseDups ↔ a ∈ keys := List.mem_eraseDups
      by_cases h : a ∈ keys
      · rw [if_pos (hmem.mpr h)]
        simp [List.removeAll, h]
      · rw [if_neg (fun hin => h (hmem.mp hin))]
        simp [List.removeAll, h, List.eraseDups_cons]

/-! ## Numbers -/

/-- **A number stays**: a longer table has a key of the shorter one where it was. -/
theorem idxOf_of_prefix {table longer : List α} (h : table <+: longer) {a : α} (ha : a ∈ table) :
    longer.idxOf a = table.idxOf a := by
  obtain ⟨rest, rfl⟩ := h
  rw [List.idxOf_append, if_pos ha]

theorem getElem?_idxOf {table : List α} {a : α} (ha : a ∈ table) :
    table[table.idxOf a]? = some a := by
  have hlt := List.idxOf_lt_length_of_mem ha
  rw [List.getElem?_eq_getElem hlt, List.getElem_idxOf hlt]

/-- **Two keys never share a number.** -/
theorem idxOf_inj {table : List α} {a b : α} (ha : a ∈ table) :
    table.idxOf a = table.idxOf b ↔ a = b := by
  constructor
  · intro h
    have hlt : table.idxOf b < table.length := h ▸ List.idxOf_lt_length_of_mem ha
    have hb : b ∈ table := List.idxOf_lt_length_iff.mp hlt
    have hread : some a = some b := by
      calc some a = table[table.idxOf a]? := (getElem?_idxOf ha).symm
        _ = table[table.idxOf b]? := by rw [h]
        _ = some b := getElem?_idxOf hb
    exact Option.some.inj hread
  · intro h
    rw [h]

end Interning
