import Mathlib.Tactic

set_option autoImplicit false

/-! # Packed structs

A packed struct puts each member where the previous one ends. Two things are used of them:
when two packed structs agree on the offsets of their members (`offsets_eq_iff`), and when a
packed struct rebuilt from a list of items with explicit padding puts every item at the offset
it was asked for and ends at the size it was asked for (`rebuild_exact_iff`; otherwise it is
longer by their `excess`).
-/

namespace Packed

/-- The offset of a member, for members of these sizes. -/
def offset (sizes : List Nat) (k : Nat) : Nat := (sizes.take k).sum

theorem offset_succ {sizes : List Nat} {k : Nat} (h : k < sizes.length) :
    offset sizes (k + 1) = offset sizes k + sizes[k] := by
  rw [offset, offset, List.take_succ_eq_append_getElem h, List.sum_append, List.sum_singleton]

/-- Two packed structs have their members at the same offsets exactly when the members have
the same sizes, the last one left aside. -/
theorem offsets_eq_iff {a b : List Nat} (h : a.length = b.length) :
    (∀ k < a.length, offset a k = offset b k) ↔
      ∀ k, k + 1 < a.length → a[k]? = b[k]? := by
  constructor
  · intro ho k hk
    have h0 := ho k (by omega)
    have h1 := ho (k + 1) hk
    rw [offset_succ (by omega), offset_succ (by omega)] at h1
    rw [List.getElem?_eq_getElem (by omega), List.getElem?_eq_getElem (by omega)]
    congr 1
    omega
  · intro hs k
    induction k with
    | zero => intro _; rfl
    | succ k ih =>
        intro hk
        have hsize := hs k hk
        rw [List.getElem?_eq_getElem (by omega), List.getElem?_eq_getElem (by omega),
          Option.some.injEq] at hsize
        rw [offset_succ (by omega), offset_succ (by omega), ih (by omega), hsize]

/-! ## Rebuilding a layout with padding -/

inductive Piece (α : Type)
  | pad (bytes : Nat)
  | item (a : α)
  deriving DecidableEq

section

variable {α : Type} (place len emitted : α → Nat) (size : Nat)

/-- Each item in turn, after the padding that brings the cursor to its place; the cursor then
stands where the item ends. At the end, padding up to the size. -/
def rebuild : Nat → List α → List (Piece α)
  | cursor, [] => if size > cursor then [.pad (size - cursor)] else []
  | cursor, a :: rest =>
      (if place a > cursor then [.pad (place a - cursor)] else []) ++
        .item a :: rebuild (place a + len a) rest

/-- The bytes a piece takes, where an item is emitted as `emitted` bytes. -/
def Piece.bytes : Piece α → Nat
  | pad bytes => bytes
  | item a => emitted a

def total (pieces : List (Piece α)) : Nat := (pieces.map (Piece.bytes emitted)).sum

/-- Where the items are, the first piece being at `position`. -/
def places : Nat → List (Piece α) → List Nat
  | _, [] => []
  | position, .pad bytes :: rest => places (position + bytes) rest
  | position, .item a :: rest => position :: places (position + emitted a) rest

/-- No item starts before the previous one has ended, and each is emitted at its length. -/
def Apart : Nat → List α → Prop
  | _, [] => True
  | cursor, a :: rest => cursor ≤ place a ∧ emitted a = len a ∧ Apart (place a + len a) rest

instance decidableApart : (cursor : Nat) → (items : List α) →
    Decidable (Apart place len emitted cursor items)
  | _, [] => isTrue trivial
  | cursor, a :: rest =>
      letI := decidableApart (place a + len a) rest
      inferInstanceAs (Decidable (cursor ≤ place a ∧ emitted a = len a ∧
        Apart place len emitted (place a + len a) rest))

theorem total_rebuild_cons (cursor : Nat) (a : α) (rest : List α) :
    total emitted (rebuild place len size cursor (a :: rest))
      = (place a - cursor) + emitted a +
          total emitted (rebuild place len size (place a + len a) rest) := by
  rw [rebuild]
  by_cases h : place a > cursor
  · simp [total, Piece.bytes, if_pos h, Nat.add_assoc]
  · have : place a - cursor = 0 := by omega
    simp [total, Piece.bytes, if_neg h, this]

theorem places_rebuild_cons (cursor position : Nat) (a : α) (rest : List α) :
    places emitted position (rebuild place len size cursor (a :: rest))
      = (position + (place a - cursor)) ::
          places emitted (position + (place a - cursor) + emitted a)
            (rebuild place len size (place a + len a) rest) := by
  rw [rebuild]
  by_cases h : place a > cursor
  · simp [places, if_pos h]
  · have : place a - cursor = 0 := by omega
    simp [places, if_neg h, this]

variable {place len emitted size}

/-- The bytes by which items start before the previous one's end, or are emitted longer than
they are. -/
def excess (place len emitted : α → Nat) : Nat → List α → Nat
  | _, [] => 0
  | cursor, a :: rest =>
      (cursor - place a) + (emitted a - len a) + excess place len emitted (place a + len a) rest

/-- Items in no way in excess are those that are apart. -/
theorem excess_eq_zero_iff {items : List α} (hlen : ∀ a ∈ items, len a ≤ emitted a)
    {cursor : Nat} :
    excess place len emitted cursor items = 0 ↔ Apart place len emitted cursor items := by
  induction items generalizing cursor with
  | nil => simp [excess, Apart]
  | cons a rest ih =>
      have ha := hlen a List.mem_cons_self
      rw [excess, Apart, ← ih fun b hb => hlen b (List.mem_cons_of_mem _ hb)]
      omega

/-- What is written past the cursor is never taken back: the struct is longer than its size
by exactly the excess. -/
theorem total_rebuild {items : List α} (hlen : ∀ a ∈ items, len a ≤ emitted a)
    (hsize : ∀ a ∈ items, place a + len a ≤ size) {cursor : Nat} (hc : cursor ≤ size) :
    cursor + total emitted (rebuild place len size cursor items)
      = size + excess place len emitted cursor items := by
  induction items generalizing cursor with
  | nil =>
      rw [rebuild, excess]
      by_cases h : size > cursor
      · simp [total, Piece.bytes, if_pos h]
        omega
      · simp [total, if_neg h]
        omega
  | cons a rest ih =>
      have ha := hlen a List.mem_cons_self
      have hrest := ih (fun b hb => hlen b (List.mem_cons_of_mem _ hb))
        (fun b hb => hsize b (List.mem_cons_of_mem _ hb)) (hsize a List.mem_cons_self)
      rw [total_rebuild_cons, excess]
      omega

theorem total_rebuild_iff {items : List α} (hlen : ∀ a ∈ items, len a ≤ emitted a)
    (hsize : ∀ a ∈ items, place a + len a ≤ size) :
    total emitted (rebuild place len size 0 items) = size ↔ Apart place len emitted 0 items := by
  have htotal := total_rebuild hlen hsize (Nat.zero_le size)
  rw [← excess_eq_zero_iff hlen]
  omega

/-- Items that are apart are all put at their places. -/
theorem places_rebuild {items : List α} {cursor : Nat}
    (h : Apart place len emitted cursor items) :
    places emitted cursor (rebuild place len size cursor items) = items.map place := by
  induction items generalizing cursor with
  | nil =>
      rw [rebuild]
      split <;> rfl
  | cons a rest ih =>
      obtain ⟨hc, he, hrest⟩ := h
      have hplace : cursor + (place a - cursor) = place a := by omega
      rw [places_rebuild_cons, hplace, he, ih hrest, List.map_cons]

/-- **A rebuilt struct has the size asked for exactly when its items are apart**, and then
every item is at its place. -/
theorem rebuild_exact_iff {items : List α} (hlen : ∀ a ∈ items, len a ≤ emitted a)
    (hsize : ∀ a ∈ items, place a + len a ≤ size) :
    (places emitted 0 (rebuild place len size 0 items) = items.map place ∧
        total emitted (rebuild place len size 0 items) = size) ↔
      Apart place len emitted 0 items := by
  rw [total_rebuild_iff hlen hsize]
  exact ⟨And.right, fun h => ⟨places_rebuild h, h⟩⟩

end

/-! ## Items in blocks -/

section

variable {α : Type} {place len emitted : α → Nat}

/-- Where the cursor stands after the items. -/
def after (place len : α → Nat) : Nat → List α → Nat
  | cursor, [] => cursor
  | _, a :: rest => after place len (place a + len a) rest

theorem apart_append {cursor : Nat} {a b : List α} :
    Apart place len emitted cursor (a ++ b) ↔
      Apart place len emitted cursor a ∧
        Apart place len emitted (after place len cursor a) b := by
  induction a generalizing cursor with
  | nil => simp [Apart, after]
  | cons x rest ih => simp only [List.cons_append, Apart, after, ih, and_assoc]

/-- Only the first item sees the cursor. -/
theorem apart_of_first {cursor cursor' : Nat} {items : List α}
    (h : ∀ a ∈ items, cursor ≤ place a) (h' : ∀ a ∈ items, cursor' ≤ place a) :
    Apart place len emitted cursor items ↔ Apart place len emitted cursor' items := by
  cases items with
  | nil => exact Iff.rfl
  | cons a rest =>
      have := h a List.mem_cons_self
      have := h' a List.mem_cons_self
      exact and_congr_left fun _ => by omega

theorem after_le {cursor bound : Nat} {items : List α} (hc : cursor ≤ bound)
    (h : ∀ a ∈ items, place a + len a ≤ bound) : after place len cursor items ≤ bound := by
  induction items generalizing cursor with
  | nil => exact hc
  | cons a rest ih =>
      exact ih (h a List.mem_cons_self) fun b hb => h b (List.mem_cons_of_mem _ hb)

theorem lt_after {c : Nat} {items : List α} (hne : items ≠ [])
    (h : ∀ a ∈ items, c < place a + len a) (cursor : Nat) :
    c < after place len cursor items := by
  induction items generalizing cursor with
  | nil => exact absurd rfl hne
  | cons a rest ih =>
      cases rest with
      | nil => exact h a List.mem_cons_self
      | cons b rest' =>
          exact ih (List.cons_ne_nil b rest') (fun x hx => h x (List.mem_cons_of_mem _ hx))
            (place a + len a)

/-- Of two blocks that start at one place, the second is never behind a first one that holds
something. -/
theorem apart_append_of_same_start {c : Nat} {a b : List α}
    (ha : ∀ x ∈ a, c < place x + len x) (hb : ∀ x, b.head? = some x → place x = c) :
    Apart place len emitted c (a ++ b) ↔
      (Apart place len emitted c a ∧ Apart place len emitted c b) ∧ (a = [] ∨ b = []) := by
  rw [apart_append]
  cases a with
  | nil => simp [Apart, after]
  | cons x rest =>
      cases b with
      | nil => simp [Apart]
      | cons y rest' =>
          have := lt_after (List.cons_ne_nil x rest) ha c
          have := hb y rfl
          simp only [Apart, reduceCtorEq, or_self, and_false, iff_false, not_and]
          intro _ hle
          omega

/-- Two blocks, the second behind the first, are apart when each is. -/
theorem apart_append_of_le {c c' : Nat} {a b : List α} (hcc : c ≤ c')
    (ha : ∀ x ∈ a, c ≤ place x ∧ place x + len x ≤ c') (hb : ∀ x ∈ b, c' ≤ place x) :
    Apart place len emitted c (a ++ b) ↔
      Apart place len emitted c a ∧ Apart place len emitted c' b := by
  have hafter : after place len c a ≤ c' := after_le hcc fun x hx => (ha x hx).2
  rw [apart_append]
  refine and_congr_right fun _ => apart_of_first (fun x hx => ?_) hb
  exact hafter.trans (hb x hx)

/-- Blocks of one size, one behind the other, are apart when each is. -/
theorem apart_blocks {size c : Nat} {blocks : List (List α)}
    (h : ∀ (i : Nat) (hi : i < blocks.length), ∀ x ∈ blocks[i],
      c + i * size ≤ place x ∧ place x + len x ≤ c + (i + 1) * size) :
    Apart place len emitted c blocks.flatten ↔
      ∀ (i : Nat) (hi : i < blocks.length), Apart place len emitted (c + i * size) blocks[i] := by
  induction blocks generalizing c with
  | nil => simp [Apart]
  | cons block rest ih =>
      have hstep : ∀ i, c + (i + 1) * size = c + size + i * size := fun i => by
        rw [Nat.add_mul, Nat.one_mul]; omega
      have hblock : ∀ x ∈ block, c ≤ place x ∧ place x + len x ≤ c + size := fun x hx => by
        simpa using h 0 (Nat.succ_pos _) x hx
      have hrest : ∀ (i : Nat) (hi : i < rest.length), ∀ x ∈ rest[i],
          c + size + i * size ≤ place x ∧ place x + len x ≤ c + size + (i + 1) * size := by
        intro i hi x hx
        have := h (i + 1) (by simpa using hi) x (by simpa using hx)
        rwa [hstep, hstep] at this
      have hlow : ∀ x ∈ rest.flatten, c + size ≤ place x := by
        intro x hx
        obtain ⟨block', hmem, hx⟩ := List.mem_flatten.mp hx
        obtain ⟨i, hi, rfl⟩ := List.mem_iff_getElem.mp hmem
        have := (hrest i hi x hx).1
        omega
      rw [List.flatten_cons, apart_append_of_le (Nat.le_add_right c size) hblock hlow, ih hrest]
      constructor
      · rintro ⟨h0, hs⟩ i hi
        cases i with
        | zero => simpa using h0
        | succ i => rw [hstep]; exact hs i (by simpa using hi)
      · intro hall
        have h0 : Apart place len emitted (c + 0 * size) block := hall 0 (Nat.succ_pos _)
        refine ⟨by simpa using h0, fun i hi => ?_⟩
        have := hall (i + 1) (by simpa using hi)
        rwa [hstep] at this

end

end Packed
