import Mathlib.Tactic

set_option autoImplicit false

/-! # Blocks written over a background

A range of addresses is filled with a background, and blocks of cells are written at their
addresses: `assemble` lists the cells in order. When the blocks are in order and inside the
range (`Fits`), the list has one cell for each address, a block is where it was asked for,
and everything else is background.

`writeAll` writes blocks into a memory one after the other, wherever they are; the last block that
covers an address decides what is there.
-/

namespace Assemble

variable {β : Type}

/-- A block of cells and the address it is for. -/
structure Block (β : Type) where
  address : Nat
  cells : List β

def Block.stop (block : Block β) : Nat := block.address + block.cells.length

/-- The background of the addresses from `start` on, up to `stop`. -/
def gap (background : Nat → β) (start stop : Nat) : List β :=
  (List.range' start (stop - start)).map background

/-- The cells from `start` to `stop`, the blocks over the background. -/
def assemble (background : Nat → β) (stop : Nat) : Nat → List (Block β) → List β
  | start, [] => gap background start stop
  | start, block :: rest =>
      gap background start block.address ++ block.cells ++
        assemble background stop block.stop rest

/-- The blocks follow one another from `start` on and end by `stop`. -/
def Fits (stop : Nat) : Nat → List (Block β) → Prop
  | start, [] => start ≤ stop
  | start, block :: rest => start ≤ block.address ∧ Fits stop block.stop rest

theorem Fits.start_le {stop start : Nat} {blocks : List (Block β)} (h : Fits stop start blocks) :
    start ≤ stop := by
  induction blocks generalizing start with
  | nil => exact h
  | cons block rest ih =>
      have := ih h.2
      have := h.1
      simp only [Block.stop] at *
      omega

/-- Every block lies between `start` and `stop`. -/
theorem Fits.bounds {stop start : Nat} {blocks : List (Block β)} (h : Fits stop start blocks)
    {block : Block β} (hb : block ∈ blocks) : start ≤ block.address ∧ block.stop ≤ stop := by
  induction blocks generalizing start with
  | nil => cases hb
  | cons first rest ih =>
      rcases List.mem_cons.mp hb with rfl | hrest
      · exact ⟨h.1, h.2.start_le⟩
      · have hbound := ih h.2 hrest
        have := h.1
        simp only [Block.stop] at *
        omega

variable {background : Nat → β} {stop : Nat}

theorem length_gap (background : Nat → β) (start stop : Nat) :
    (gap background start stop).length = stop - start := by
  simp [gap]

theorem getElem?_gap (background : Nat → β) {start k : Nat} (h : start + k < stop) :
    (gap background start stop)[k]? = some (background (start + k)) := by
  rw [gap, List.getElem?_map, List.getElem?_range' (by omega)]
  simp

/-- A slice of the background is the background of the slice's addresses. -/
theorem take_drop_gap {start a b : Nat} (h1 : start ≤ a) (h2 : a ≤ b) (h3 : b ≤ stop) :
    ((gap background start stop).drop (a - start)).take (b - a) = gap background a b := by
  refine List.ext_getElem? fun k => ?_
  rw [List.getElem?_take]
  split
  case isTrue hk =>
      have hget := getElem?_gap background (by omega : start + (a - start + k) < stop)
      rw [List.getElem?_drop, hget, getElem?_gap background (by omega : a + k < b)]
      congr 2
      omega
  case isFalse hk =>
      rw [List.getElem?_eq_none (by rw [length_gap]; omega)]

/-- Blocks in order, each inside the range, fit. -/
theorem fits_of_pairwise {start : Nat} {blocks : List (Block β)} (hs : start ≤ stop)
    (hb : ∀ block ∈ blocks, start ≤ block.address ∧ block.stop ≤ stop)
    (hp : blocks.Pairwise fun a b => a.stop ≤ b.address) : Fits stop start blocks := by
  induction blocks generalizing start with
  | nil => exact hs
  | cons block rest ih =>
      rw [List.pairwise_cons] at hp
      have hblock := hb block List.mem_cons_self
      refine ⟨hblock.1, ih hblock.2 (fun b hmem => ?_) hp.2⟩
      exact ⟨hp.1 b hmem, (hb b (List.mem_cons_of_mem _ hmem)).2⟩

/-- **One cell for each address.** -/
theorem length_assemble {start : Nat} {blocks : List (Block β)} (h : Fits stop start blocks) :
    (assemble background stop start blocks).length = stop - start := by
  induction blocks generalizing start with
  | nil => exact length_gap _ _ _
  | cons block rest ih =>
      have := h.1
      have := h.2.start_le
      rw [assemble, List.length_append, List.length_append, length_gap, ih h.2]
      simp only [Block.stop] at *
      omega

/-- Behind the first block the list goes on as if it started there. -/
theorem getElem?_assemble_behind {start : Nat} {block : Block β} {rest : List (Block β)}
    (h : start ≤ block.address) {a : Nat} (ha : block.stop ≤ a) :
    (assemble background stop start (block :: rest))[a - start]?
      = (assemble background stop block.stop rest)[a - block.stop]? := by
  simp only [Block.stop] at ha ⊢
  rw [assemble, List.getElem?_append_right]
  · rw [List.length_append, length_gap]
    congr 1
    omega
  · rw [List.length_append, length_gap]
    omega

/-- **A block is where it was asked for.** -/
theorem getElem?_block {start : Nat} {blocks : List (Block β)} (h : Fits stop start blocks)
    {block : Block β} (hb : block ∈ blocks) {k : Nat} (hk : k < block.cells.length) :
    (assemble background stop start blocks)[block.address + k - start]? = block.cells[k]? := by
  induction blocks generalizing start with
  | nil => cases hb
  | cons first rest ih =>
      rcases List.mem_cons.mp hb with rfl | hrest
      · have := h.1
        rw [assemble, List.append_assoc, List.getElem?_append_right (by rw [length_gap]; omega),
          length_gap, List.getElem?_append_left (by omega)]
        congr 1
        omega
      · have hbound := (h.2.bounds hrest).1
        rw [getElem?_assemble_behind h.1 (by omega)]
        exact ih h.2 hrest

/-- **Between the blocks there is background.** -/
theorem getElem?_background {start : Nat} {blocks : List (Block β)} (h : Fits stop start blocks)
    {a : Nat} (h1 : start ≤ a) (h2 : a < stop)
    (hno : ∀ block ∈ blocks, a < block.address ∨ block.stop ≤ a) :
    (assemble background stop start blocks)[a - start]? = some (background a) := by
  induction blocks generalizing start with
  | nil =>
      have hget := getElem?_gap background (by omega : start + (a - start) < stop)
      rwa [Nat.add_sub_cancel' h1] at hget
  | cons block rest ih =>
      rcases hno block List.mem_cons_self with hlt | hle
      · have hlen : a - start < (gap background start block.address).length := by
          rw [length_gap]
          omega
        have hget := getElem?_gap background (by omega : start + (a - start) < block.address)
        rw [assemble, List.append_assoc, List.getElem?_append_left hlen, hget,
          Nat.add_sub_cancel' h1]
      · rw [getElem?_assemble_behind h.1 hle]
        exact ih h.2 hle fun b hb => hno b (List.mem_cons_of_mem _ hb)

/-! ## Blocks without a gap -/

/-- The first block starts at `start`, and every other one where the one before it stops. -/
def Adjoining : Nat → List (Block β) → Prop
  | _, [] => True
  | start, block :: rest => block.address = start ∧ Adjoining block.stop rest

theorem Adjoining.start_le {start : Nat} {blocks : List (Block β)} (h : Adjoining start blocks)
    {block : Block β} (hb : block ∈ blocks) : start ≤ block.address := by
  induction blocks generalizing start with
  | nil => cases hb
  | cons first rest ih =>
      rcases List.mem_cons.mp hb with rfl | hrest
      · exact h.1.ge
      · have := ih h.2 hrest
        have := h.1
        simp only [Block.stop] at *
        omega

/-- **One behind the other, each block is at its own distance from `start`.** -/
theorem Adjoining.address_eq {start : Nat} {before after : List (Block β)} {block : Block β}
    (h : Adjoining start (before ++ block :: after)) :
    block.address = start + (before.flatMap Block.cells).length := by
  induction before generalizing start with
  | nil => exact h.1
  | cons first rest ih =>
      have hrest := ih h.2
      have hfirst := h.1
      rw [Block.stop] at hrest
      rw [List.flatMap_cons, List.length_append]
      omega

/-! ## Blocks written into a memory -/

def Block.Covers (block : Block β) (a : Nat) : Prop := block.address ≤ a ∧ a < block.stop

instance (block : Block β) (a : Nat) : Decidable (block.Covers a) :=
  inferInstanceAs (Decidable (_ ∧ _))

def write (m : Nat → β) (block : Block β) : Nat → β := fun a =>
  if block.address ≤ a then (block.cells[a - block.address]?).getD (m a) else m a

def writeAll (m : Nat → β) (blocks : List (Block β)) : Nat → β := blocks.foldl write m

theorem write_of_covers {m : Nat → β} {block : Block β} {a : Nat} (h : block.Covers a) :
    some (write m block a) = block.cells[a - block.address]? := by
  have hlt : a - block.address < block.cells.length := by
    have := h.2
    have := h.1
    simp only [Block.stop] at *
    omega
  rw [write, if_pos h.1, List.getElem?_eq_getElem hlt, Option.getD_some]

theorem write_of_not_covers {m : Nat → β} {block : Block β} {a : Nat} (h : ¬ block.Covers a) :
    write m block a = m a := by
  unfold write
  split
  case isTrue hle =>
    have hnone : block.cells[a - block.address]? = none := by
      rw [List.getElem?_eq_none_iff]
      simp only [Block.Covers, Block.stop, not_and, not_lt] at h
      have := h hle
      omega
    rw [hnone, Option.getD_none]
  case isFalse => rfl

/-- Where no block is written, the memory stays. -/
theorem writeAll_of_not_covers {m : Nat → β} {blocks : List (Block β)} {a : Nat}
    (h : ∀ block ∈ blocks, ¬ block.Covers a) : writeAll m blocks a = m a := by
  induction blocks generalizing m with
  | nil => rfl
  | cons block rest ih =>
      calc writeAll m (block :: rest) a = writeAll (write m block) rest a := rfl
        _ = write m block a := ih fun b hb => h b (List.mem_cons_of_mem _ hb)
        _ = m a := write_of_not_covers (h block List.mem_cons_self)

/-- **The last block that covers an address** is there. -/
theorem writeAll_of_last {m : Nat → β} {before after : List (Block β)} {block : Block β} {a : Nat}
    (h : block.Covers a) (hafter : ∀ b ∈ after, ¬ b.Covers a) :
    some (writeAll m (before ++ block :: after) a) = block.cells[a - block.address]? := by
  rw [writeAll, List.foldl_append, List.foldl_cons, ← write_of_covers h]
  exact congrArg some (writeAll_of_not_covers hafter)

end Assemble
