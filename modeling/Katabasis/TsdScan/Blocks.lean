import Katabasis.TsdScan.Analysis

set_option autoImplicit false

/-! # The blocks of a function

What `BuildBlocks` guarantees for a range of whole instructions: the blocks cover the range
(`exists_block`), a branch is the last instruction of its block (`IsBlock.stop_of_leaves`), and
the targets its edges are computed from are found among the blocks (`IsBlock.mem_succs`).
-/

namespace Katabasis

namespace FunctionAnalysis

/-! ## Instruction addresses -/

theorem addresses_of_le {start stop : Nat} (h : stop ≤ start) : addresses start stop = [] := by
  have : (stop - start + 3) / 4 = 0 := by omega
  simp [addresses, this]

theorem addresses_cons {start stop : Nat} (h : start < stop) :
    addresses start stop = start :: addresses (start + 4) stop := by
  have hlen : (stop - start + 3) / 4 = (stop - (start + 4) + 3) / 4 + 1 := by omega
  rw [addresses, hlen, List.range_succ_eq_map, List.map_cons, List.map_map, addresses]
  refine congrArg₂ _ (by omega) (List.map_congr_left fun i _ => ?_)
  simp only [Function.comp_apply]
  omega

/-- The addresses of a range fall apart at each of them. -/
theorem addresses_append {start a stop : Nat} (h : start ≤ a) (hd : (a - start) % 4 = 0)
    (hs : a ≤ stop) : addresses start stop = addresses start a ++ addresses a stop := by
  obtain ⟨k, hk⟩ : ∃ k, a = start + 4 * k := ⟨(a - start) / 4, by omega⟩
  induction k generalizing start with
  | zero =>
      have : a = start := by omega
      rw [this, addresses_of_le (Nat.le_refl start), List.nil_append]
  | succ k ih =>
      have htail : addresses (start + 4) stop = addresses (start + 4) a ++ addresses a stop :=
        ih (by omega) (by omega) (by omega)
      rw [addresses_cons (by omega : start < stop), addresses_cons (by omega : start < a), htail,
        List.cons_append]

theorem mem_addresses {start stop a : Nat} :
    a ∈ addresses start stop ↔ start ≤ a ∧ a < stop ∧ (a - start) % 4 = 0 := by
  simp only [addresses, List.mem_map, List.mem_range]
  constructor
  · rintro ⟨i, hi, rfl⟩
    omega
  · rintro ⟨h1, h2, h3⟩
    exact ⟨(a - start) / 4, by omega, by omega⟩

/-- The addresses in front of one of them. -/
theorem addresses_split {start stop a : Nat} {before after : List Nat}
    (h : addresses start stop = before ++ a :: after) :
    a ∈ addresses start stop ∧ before = addresses start a := by
  have hmem : a ∈ addresses start stop := by
    rw [h]
    simp
  refine ⟨hmem, ?_⟩
  obtain ⟨h1, h2, h4⟩ := mem_addresses.mp hmem
  have hlt : start < stop := Nat.lt_of_le_of_lt h1 h2
  induction before generalizing start with
  | nil =>
      rw [addresses_cons hlt, List.nil_append] at h
      injection h with hhead
      rw [hhead, addresses_of_le (Nat.le_refl a)]
  | cons first rest ih =>
      rw [addresses_cons hlt, List.cons_append] at h
      injection h with hhead htail
      have hrest : a ∈ addresses (start + 4) stop := by
        rw [htail]
        simp
      obtain ⟨h1', -, h4'⟩ := mem_addresses.mp hrest
      rw [ih htail hrest h1' h4' (by omega), ← hhead, ← addresses_cons (by omega)]

variable {f : FunctionAnalysis}

theorem fetch_range {a : Nat} {inst : Inst} (h : f.fetch a = some inst) :
    f.range.start ≤ a ∧ a + 4 ≤ f.range.stop := by
  obtain ⟨hat, -⟩ := Option.filter_eq_some_iff.mp h
  unfold instAt at hat
  split at hat
  · cases hat
  · omega

/-! ## Leaders -/

/-- The range holds whole instructions. -/
structure Aligned (f : FunctionAnalysis) : Prop where
  start : f.range.start % 4 = 0
  stop : f.range.stop % 4 = 0
  nonempty : f.range.start < f.range.stop

theorem mem_leaders {a : Nat} :
    a ∈ f.leaders ↔ a = f.range.start ∨
      ∃ x ∈ addresses f.range.start f.range.stop, a ∈ f.leadersAt x := by
  rw [leaders, List.mem_insertionSort, List.mem_dedup, List.mem_cons, List.mem_flatMap]

theorem leaders_sorted : f.leaders.Pairwise (· < ·) := by
  have hsorted : f.leaders.Pairwise (· ≤ ·) := List.pairwise_insertionSort _ _
  have hnodup : f.leaders.Nodup :=
    (List.perm_insertionSort _ _).nodup_iff.mpr (List.nodup_dedup _)
  exact (hsorted.and hnodup).imp fun ⟨hle, hne⟩ => by omega

/-- The instruction may go somewhere else than to the next one. -/
def leaves (inst : Inst) : Bool := isBranchOp inst.op || isNoReturnOp inst.op

/-- An instruction makes leaders of its target and of the instruction behind it. -/
theorem mem_leadersAt {a x : Nat} (h : a ∈ f.leadersAt x) :
    (f.range.start ≤ a ∧ a + 4 ≤ f.range.stop ∧ a % 4 = 0) ∨
      (a = x + 4 ∧ a < f.range.stop) := by
  unfold leadersAt at h
  split at h
  case h_1 => cases h
  case h_2 =>
      split at h
      case isTrue => cases h
      case isFalse =>
          rcases List.mem_append.mp h with htarget | hnext
          · refine Or.inl ?_
            split at htarget
            case h_1 =>
                split at htarget
                case isTrue hin => rw [List.mem_singleton.mp htarget]; exact hin
                case isFalse => cases htarget
            case h_2 => cases htarget
          · refine Or.inr ?_
            split at hnext
            case isTrue hlt => rw [List.mem_singleton.mp hnext]; exact ⟨rfl, hlt⟩
            case isFalse => cases hnext

/-- The leaders are instructions of the range. -/
theorem leader_bounds (h4 : f.range.start % 4 = 0) (hne : f.range.start < f.range.stop) {a : Nat}
    (h : a ∈ f.leaders) : f.range.start ≤ a ∧ a < f.range.stop ∧ a % 4 = 0 := by
  rcases mem_leaders.mp h with rfl | ⟨x, hx, hmem⟩
  · omega
  · rw [mem_addresses] at hx
    rcases mem_leadersAt hmem with hin | ⟨rfl, hlt⟩ <;> omega

/-- Behind an instruction that may go elsewhere there is a leader. -/
theorem next_leader {a : Nat} {inst : Inst} (hi : f.fetch a = some inst)
    (hd : (a - f.range.start) % 4 = 0) (hl : leaves inst = true) (hlt : a + 4 < f.range.stop) :
    a + 4 ∈ f.leaders := by
  have hrange := fetch_range hi
  refine mem_leaders.mpr (Or.inr ⟨a, mem_addresses.mpr ⟨hrange.1, by omega, hd⟩, ?_⟩)
  simp only [leadersAt, hi]
  rw [if_neg (by simpa [leaves, imp_iff_not_or] using hl)]
  exact List.mem_append_right _ (by rw [if_pos hlt]; exact List.mem_singleton_self _)

/-- A target in the range is a leader. -/
theorem target_leader {a target : Nat} {inst : Inst} (hi : f.fetch a = some inst)
    (hd : (a - f.range.start) % 4 = 0) (hl : leaves inst = true)
    (ht : branchTarget inst a = some target) (hin : f.range.start ≤ target)
    (hstop : target + 4 ≤ f.range.stop) (h4 : target % 4 = 0) : target ∈ f.leaders := by
  have hrange := fetch_range hi
  refine mem_leaders.mpr (Or.inr ⟨a, mem_addresses.mpr ⟨hrange.1, by omega, hd⟩, ?_⟩)
  simp only [leadersAt, hi, ht]
  rw [if_neg (by simpa [leaves, imp_iff_not_or] using hl), if_pos ⟨hin, hstop, h4⟩]
  exact List.mem_append_left _ (List.mem_singleton_self _)

/-! ## Blocks -/

theorem length_stops (l : List Nat) : (f.stops l).length = l.length := by
  induction l with
  | nil => rfl
  | cons a rest ih =>
      cases rest with
      | nil => rfl
      | cons b rest' => rw [stops, List.length_cons, ih]; rfl

/-- A block stops at the next leader, the last one at the end of the range. -/
theorem getElem?_stops (l : List Nat) (i : Nat) (h : i < l.length) :
    (f.stops l)[i]? = some ((l[i + 1]?).getD f.range.stop) := by
  induction l generalizing i with
  | nil => exact absurd h (Nat.not_lt_zero i)
  | cons a rest ih =>
      cases rest with
      | nil =>
          have : i = 0 := by simpa using h
          subst this
          rfl
      | cons b rest' =>
          cases i with
          | zero => rfl
          | succ i => exact ih i (Nat.lt_of_succ_lt_succ h)

/-- Block `i` of the function. -/
structure IsBlock (f : FunctionAnalysis) (i : Nat) (block : Block) : Prop where
  get : f.buildBlocks[i]? = some block
  index : i < f.leaders.length
  start : f.leaders[i]? = some block.start
  stop : block.stop = (f.leaders[i + 1]?).getD f.range.stop

theorem length_buildBlocks : f.buildBlocks.length = f.leaders.length := by
  simp [buildBlocks, length_stops]

/-- Block `i`, with the edges to targets that are leaders themselves. -/
theorem getElem?_buildBlocks {i : Nat} (h : i < f.leaders.length) :
    f.buildBlocks[i]? = some
      { start := f.leaders[i]
        stop := (f.leaders[i + 1]?).getD f.range.stop
        succs := if (f.leaders[i + 1]?).getD f.range.stop ≤ f.leaders[i] then [] else
          (f.edges ((f.leaders[i + 1]?).getD f.range.stop)).filterMap fun target =>
            f.leaders.idxOf? target } := by
  have hzip : (f.leaders.zip (f.stops f.leaders))[i]?
      = some (f.leaders[i], (f.leaders[i + 1]?).getD f.range.stop) :=
    List.getElem?_zip_eq_some.mpr ⟨List.getElem?_eq_getElem h, getElem?_stops _ i h⟩
  rw [buildBlocks, List.getElem?_map, hzip]
  rfl

theorem isBlock_of_lt {i : Nat} (h : i < f.leaders.length) : ∃ block, f.IsBlock i block :=
  ⟨_, getElem?_buildBlocks h, h, List.getElem?_eq_getElem h, rfl⟩

/-- No leader is inside a block. -/
theorem IsBlock.no_leader {i : Nat} {block : Block} (h : f.IsBlock i block) {a : Nat}
    (ha : a ∈ f.leaders) : a ≤ block.start ∨ block.stop ≤ a := by
  obtain ⟨j, hj, rfl⟩ := List.mem_iff_getElem.mp ha
  have hstart := h.start
  rw [List.getElem?_eq_getElem h.index, Option.some.injEq] at hstart
  have hlt := List.pairwise_iff_getElem.mp (leaders_sorted (f := f))
  -- the leaders are in order, so one behind this block's is the next one or later
  rcases Nat.lt_or_ge i j with hij | hij
  · right
    rw [h.stop, List.getElem?_eq_getElem (by omega), Option.getD_some]
    rcases Nat.lt_or_eq_of_le hij with hij' | hij'
    · exact (hlt (i + 1) j (by omega) hj hij').le
    · simp [← hij']
  · left
    rw [← hstart]
    rcases Nat.lt_or_eq_of_le hij with hij' | rfl
    · exact (hlt j i hj h.index hij').le
    · exact Nat.le_refl _

theorem IsBlock.bounds {i : Nat} {block : Block} (h : f.IsBlock i block) (ha : f.Aligned) :
    block.start % 4 = 0 ∧ block.stop % 4 = 0 ∧ f.range.start ≤ block.start ∧
      block.start < block.stop ∧ block.stop ≤ f.range.stop := by
  have hstart := leader_bounds ha.start ha.nonempty (List.mem_of_getElem? h.start)
  have hget := h.start
  rw [List.getElem?_eq_getElem h.index, Option.some.injEq] at hget
  rw [h.stop]
  by_cases hi : i + 1 < f.leaders.length
  · have hnext := leader_bounds ha.start ha.nonempty (List.getElem_mem hi)
    have hlt := List.pairwise_iff_getElem.mp (leaders_sorted (f := f)) i (i + 1) h.index hi
      (Nat.lt_succ_self i)
    rw [List.getElem?_eq_getElem hi, Option.getD_some]
    omega
  · rw [List.getElem?_eq_none (by omega), Option.getD_none]
    have := ha.stop
    omega

/-- In a list that starts at or below `a` some element is the last one that does. -/
theorem exists_last_le {l : List Nat} {a : Nat} {first : Nat} (h0 : l[0]? = some first)
    (h : first ≤ a) :
    ∃ (i : Nat) (hi : i < l.length), l[i] ≤ a ∧ ∀ next, l[i + 1]? = some next → a < next := by
  induction l generalizing first with
  | nil => cases h0
  | cons b rest ih =>
      injection h0 with h0
      subst h0
      cases rest with
      | nil => exact ⟨0, by simp, h, fun next hn => by cases hn⟩
      | cons c rest' =>
          by_cases hc : c ≤ a
          · obtain ⟨i, hi, hle, hnext⟩ := @ih c rfl hc
            exact ⟨i + 1, Nat.succ_lt_succ hi, hle, hnext⟩
          · refine ⟨0, by simp, h, fun next hn => ?_⟩
            injection hn with hn
            omega

/-- The range's start is the first leader. -/
theorem leaders_head (h4 : f.range.start % 4 = 0) (hne : f.range.start < f.range.stop) :
    f.leaders[0]? = some f.range.start := by
  have hmem : f.range.start ∈ f.leaders := mem_leaders.mpr (Or.inl rfl)
  obtain ⟨j, hj, hget⟩ := List.mem_iff_getElem.mp hmem
  rcases Nat.eq_zero_or_pos j with rfl | hpos
  · rw [List.getElem?_eq_getElem hj, hget]
  · have hlt := List.pairwise_iff_getElem.mp (leaders_sorted (f := f)) 0 j (by omega) hj hpos
    have := leader_bounds h4 hne (List.getElem_mem (by omega : 0 < f.leaders.length))
    omega

/-- **The blocks cover the range.** -/
theorem exists_block (ha : f.Aligned) {a : Nat} (h1 : f.range.start ≤ a) (h2 : a < f.range.stop) :
    ∃ (i : Nat) (block : Block), f.IsBlock i block ∧ block.start ≤ a ∧ a < block.stop := by
  -- the block of the last leader that is not behind `a`
  obtain ⟨i, hi, hle, hnext⟩ := exists_last_le (leaders_head ha.start ha.nonempty) h1
  obtain ⟨block, hblock⟩ := isBlock_of_lt hi
  have hstart := hblock.start
  rw [List.getElem?_eq_getElem hi, Option.some.injEq] at hstart
  refine ⟨i, block, hblock, by omega, ?_⟩
  rw [hblock.stop]
  cases hn : f.leaders[i + 1]? with
  | none => exact h2
  | some next => exact hnext next hn

/-- A branch is the last instruction of its block. -/
theorem IsBlock.stop_of_leaves {i : Nat} {block : Block} (h : f.IsBlock i block)
    (ha : f.Aligned) {a : Nat} {inst : Inst} (hi : f.fetch a = some inst) (h4 : a % 4 = 0)
    (hl : leaves inst = true) (h1 : block.start ≤ a) (h2 : a < block.stop) :
    block.stop = a + 4 := by
  obtain ⟨hs4, he4, hlow, -, hhigh⟩ := h.bounds ha
  have hrange := fetch_range hi
  have h0 := ha.start
  by_cases hlt : a + 4 < f.range.stop
  · rcases h.no_leader (next_leader hi (by omega) hl hlt) with hno | hstop <;> omega
  · omega

/-- An edge to a leader is among the successors of the block. -/
theorem IsBlock.mem_succs {i : Nat} {block : Block} (h : f.IsBlock i block)
    (hlt : block.start < block.stop) {target : Nat} (ht : target ∈ f.edges block.stop)
    (hl : target ∈ f.leaders) :
    ∃ (j : Nat) (next : Block), j ∈ block.succs ∧ f.IsBlock j next ∧ next.start = target := by
  obtain ⟨j, hj⟩ := List.isSome_idxOf?.mpr hl |> Option.isSome_iff_exists.mp
  have hjlt := List.findIdx?_eq_some_iff_getElem.mp hj
  obtain ⟨hjlen, hjeq, -⟩ := hjlt
  obtain ⟨next, hnext⟩ := isBlock_of_lt hjlen
  refine ⟨j, next, ?_, hnext, ?_⟩
  · have hget := h.get
    rw [getElem?_buildBlocks h.index, Option.some.injEq] at hget
    rw [← hget] at ht hlt ⊢
    simp only at ht hlt ⊢
    rw [if_neg (by omega)]
    exact List.mem_filterMap.mpr ⟨target, ht, hj⟩
  · have hstart := hnext.start
    rw [List.getElem?_eq_getElem hjlen, Option.some.injEq] at hstart
    rw [← hstart]
    simpa using hjeq

end FunctionAnalysis

end Katabasis
