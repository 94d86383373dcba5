import Katabasis.Lib.Maps
import Katabasis.Xlate.GuestMemory

set_option autoImplicit false

/-! # The layout of one segment

The pieces of a segment are its overrides and the slots outside them (`mem_segmentPieces`), and
one behind the other they fit into the segment (`fits_segmentPieces`). So the cells that
`emitSegment` writes keep every address of the segment (`emitSegment_keepsAddresses`).
-/

namespace Katabasis

open Std

/-! ## Pieces as ranges -/

/-- The range a piece takes, as `std::map::erase` sees it between two lower bounds. -/
def covers (piece : UInt64 × Override) (key : UInt64) : Bool :=
  decide (piece.1 ≤ key ∧ key < piece.1 + piece.2.size)

/-- The address behind a piece. -/
def pieceStop (piece : UInt64 × Override) : Nat := piece.1.toNat + piece.2.size.toNat

theorem covers_iff {piece : UInt64 × Override} (h : pieceStop piece < 2 ^ 64) {key : UInt64} :
    covers piece key = true ↔ piece.1.toNat ≤ key.toNat ∧ key.toNat < pieceStop piece := by
  have hstop : (piece.1 + piece.2.size).toNat = pieceStop piece := by
    rw [UInt64.toNat_add]
    exact Nat.mod_eq_of_lt h
  rw [covers, decide_eq_true_eq, UInt64.le_iff_toNat_le, UInt64.lt_iff_toNat_lt, hstop]

theorem size_toNat_pos (o : Override) : 0 < o.size.toNat := UInt64.lt_iff_toNat_lt.mp o.size_pos

theorem covers_self {piece : UInt64 × Override} (h : pieceStop piece < 2 ^ 64) :
    covers piece piece.1 = true := by
  have := size_toNat_pos piece.2
  rw [covers_iff h, pieceStop]
  omega

/-- The overrides that start in a segment, by their addresses in the image. -/
def segmentOverrides (image : Image) (segment : Segment) (overrides : Overrides) :
    List (UInt64 × Override) :=
  (overrides.toList.map fun entry => (entry.1 - image.slide, entry.2)).filter fun piece =>
    segment.contains piece.1

theorem overlay_eq (image : Image) (segment : Segment) (pieces : Overrides)
    (entry : UInt64 × Override) :
    overlay image segment pieces entry
      = if segment.contains (entry.1 - image.slide) then
          Maps.overwrite covers pieces (entry.1 - image.slide, entry.2)
        else pieces := by
  unfold overlay
  cases h : segment.contains (entry.1 - image.slide) <;> simp [h, Maps.overwrite, covers]

theorem segmentPieces_eq (image : Image) (segment : Segment)
    (slots : ExtTreeMap UInt64 SlotValue) (overrides : Overrides) :
    segmentPieces image segment slots overrides
      = Maps.overwriteList covers (segmentOverrides image segment overrides)
          (slots.map fun _ v => slotPiece v) := by
  unfold segmentPieces segmentOverrides Maps.overwriteList
  generalize overrides.toList = entries
  generalize (slots.map fun _ v => slotPiece v) = pieces
  induction entries generalizing pieces with
  | nil => rfl
  | cons entry rest ih =>
      rw [List.foldl_cons, ih, List.map_cons, List.filter_cons, overlay_eq]
      dsimp only
      split <;> rfl

/-! ## What a segment is given -/

/-- A segment's slots and overrides: slots of eight bytes, inside the segment and apart;
overrides inside the segment and apart; and each slot inside an override or apart from it. -/
structure Arranged (image : Image) (segment : Segment) (slots : ExtTreeMap UInt64 SlotValue)
    (overrides : Overrides) : Prop where
  slot_inside : ∀ slot ∈ slots.toList,
    segment.vmaddr.toNat ≤ slot.1.toNat ∧ slot.1.toNat + 8 ≤ segment.stop
  slots_apart : ∀ slot ∈ slots.toList, ∀ other ∈ slots.toList, slot.1.toNat < other.1.toNat →
    slot.1.toNat + 8 ≤ other.1.toNat
  override_inside : ∀ piece ∈ segmentOverrides image segment overrides,
    pieceStop piece ≤ segment.stop
  overrides_apart : ∀ piece ∈ segmentOverrides image segment overrides,
    ∀ other ∈ segmentOverrides image segment overrides, piece.1.toNat < other.1.toNat →
    pieceStop piece ≤ other.1.toNat
  slot_or_override : ∀ slot ∈ slots.toList, ∀ piece ∈ segmentOverrides image segment overrides,
    piece.1.toNat ≤ slot.1.toNat ∧ slot.1.toNat + 8 ≤ pieceStop piece ∨
      slot.1.toNat + 8 ≤ piece.1.toNat ∨ pieceStop piece ≤ slot.1.toNat

instance (image : Image) (segment : Segment) (slots : ExtTreeMap UInt64 SlotValue)
    (overrides : Overrides) : Decidable (Arranged image segment slots overrides) :=
  decidable_of_iff (_ ∧ _ ∧ _ ∧ _ ∧ _)
    ⟨fun ⟨h1, h2, h3, h4, h5⟩ => ⟨h1, h2, h3, h4, h5⟩,
      fun ⟨h1, h2, h3, h4, h5⟩ => ⟨h1, h2, h3, h4, h5⟩⟩

/-- No override of the segment takes the address. -/
def Uncovered (image : Image) (segment : Segment) (overrides : Overrides) (a : Nat) : Prop :=
  ∀ piece ∈ segmentOverrides image segment overrides, a < piece.1.toNat ∨ pieceStop piece ≤ a

section

variable {image : Image} {segment : Segment} {slots : ExtTreeMap UInt64 SlotValue}
  {overrides : Overrides} (hb : segment.stop < 2 ^ 64)
  (ha : Arranged image segment slots overrides)

theorem distinct_segmentOverrides :
    (segmentOverrides image segment overrides).Pairwise fun a b => a.1 ≠ b.1 := by
  refine List.Pairwise.filter _ ?_
  rw [List.pairwise_map]
  refine (Maps.distinct_toList overrides).imp fun hne heq => hne ?_
  simpa using heq

theorem contains_of_mem {piece : UInt64 × Override}
    (hm : piece ∈ segmentOverrides image segment overrides) :
    segment.contains piece.1 = true := (List.mem_filter.mp hm).2

include hb in
theorem start_of_mem {piece : UInt64 × Override}
    (hm : piece ∈ segmentOverrides image segment overrides) :
    segment.vmaddr.toNat ≤ piece.1.toNat :=
  ((Segment.contains_iff hb).mp (contains_of_mem hm)).1

include hb ha

theorem pieceStop_lt {piece : UInt64 × Override}
    (hm : piece ∈ segmentOverrides image segment overrides) : pieceStop piece < 2 ^ 64 := by
  have := ha.override_inside piece hm
  omega

theorem disjoint_segmentOverrides :
    (segmentOverrides image segment overrides).Pairwise fun a b =>
      ∀ key, covers a key = true → covers b key = false := by
  refine List.Pairwise.imp_of_mem (fun {a b} hma hmb hne key hk => ?_) distinct_segmentOverrides
  have hka := (covers_iff (pieceStop_lt hb ha hma)).mp hk
  rw [Bool.eq_false_iff]
  intro hkb
  have hkb' := (covers_iff (pieceStop_lt hb ha hmb)).mp hkb
  have hne' : a.1.toNat ≠ b.1.toNat := fun h => hne (UInt64.toNat_inj.mp h)
  have hab := ha.overrides_apart a hma b hmb
  have hba := ha.overrides_apart b hmb a hma
  omega

theorem getElem?_segmentPieces_of_covered {piece : UInt64 × Override}
    (hm : piece ∈ segmentOverrides image segment overrides) {key : UInt64}
    (hk : covers piece key = true) :
    (segmentPieces image segment slots overrides)[key]?
      = if piece.1 = key then some piece.2 else none := by
  rw [segmentPieces_eq]
  exact Maps.getElem?_overwriteList_of_covered
    (fun e he => covers_self (pieceStop_lt hb ha he)) (disjoint_segmentOverrides hb ha) hm hk

theorem getElem?_segmentPieces_of_uncovered {key : UInt64}
    (hk : Uncovered image segment overrides key.toNat) :
    (segmentPieces image segment slots overrides)[key]? = (slots[key]?).map slotPiece := by
  rw [segmentPieces_eq, Maps.getElem?_overwriteList_of_uncovered
    (fun e he => covers_self (pieceStop_lt hb ha he)), ExtTreeMap.getElem?_map]
  intro piece hm
  have := hk piece hm
  rw [Bool.eq_false_iff, ne_eq, covers_iff (pieceStop_lt hb ha hm)]
  omega

/-- The pieces of a segment: its overrides, and the slots outside of them. -/
theorem mem_segmentPieces {piece : UInt64 × Override} :
    piece ∈ (segmentPieces image segment slots overrides).toList ↔
      piece ∈ segmentOverrides image segment overrides ∨
        ∃ v, (piece.1, v) ∈ slots.toList ∧ piece.2 = slotPiece v ∧
          Uncovered image segment overrides piece.1.toNat := by
  rw [ExtTreeMap.mem_toList_iff_getElem?_eq_some]
  -- an override that covers the key takes it from any slot there
  by_cases hcov : ∃ other ∈ segmentOverrides image segment overrides,
      covers other piece.1 = true
  · obtain ⟨other, hm, hk⟩ := hcov
    have hnot : ¬ Uncovered image segment overrides piece.1.toNat := fun h => by
      have := (covers_iff (pieceStop_lt hb ha hm)).mp hk
      have := h other hm
      omega
    rw [getElem?_segmentPieces_of_covered hb ha hm hk]
    constructor
    · intro h
      split at h
      case isTrue heq =>
          have hpiece : other = piece := Prod.ext heq (Option.some.inj h)
          exact .inl (hpiece ▸ hm)
      case isFalse => cases h
    · rintro (hmem | ⟨v, -, -, hun⟩)
      · have hself := covers_self (pieceStop_lt hb ha hmem)
        have h1 := getElem?_segmentPieces_of_covered hb ha hmem hself
        rw [getElem?_segmentPieces_of_covered hb ha hm hk, if_pos rfl] at h1
        exact h1
      · exact absurd hun hnot
  · have hun : Uncovered image segment overrides piece.1.toNat := by
      intro other hm
      by_contra hin
      exact hcov ⟨other, hm, (covers_iff (pieceStop_lt hb ha hm)).mpr (by omega)⟩
    rw [getElem?_segmentPieces_of_uncovered hb ha hun, Option.map_eq_some_iff]
    constructor
    · rintro ⟨v, hv, heq⟩
      exact .inr ⟨v, ExtTreeMap.mem_toList_iff_getElem?_eq_some.mpr hv, heq.symm, hun⟩
    · rintro (hmem | ⟨v, hv, heq, -⟩)
      · exact absurd ⟨piece, hmem, covers_self (pieceStop_lt hb ha hmem)⟩ hcov
      · exact ⟨v, ExtTreeMap.mem_toList_iff_getElem?_eq_some.mp hv, heq.symm⟩

/-- **The pieces fit into the segment**, one behind the other. -/
theorem fits_segmentPieces :
    Assemble.Fits segment.stop segment.vmaddr.toNat
      ((segmentPieces image segment slots overrides).toList.map Emission.block) := by
  have hslot : ∀ v : SlotValue, (slotPiece v).size.toNat = 8 := fun _ => rfl
  refine Assemble.fits_of_pairwise (by simp [Segment.stop]) ?_ ?_
  · intro block hm
    obtain ⟨piece, hpiece, rfl⟩ := List.mem_map.mp hm
    rw [Emission.block_stop]
    show segment.vmaddr.toNat ≤ piece.1.toNat ∧ pieceStop piece ≤ segment.stop
    rcases (mem_segmentPieces hb ha).mp hpiece with hm' | ⟨v, hv, heq, -⟩
    · exact ⟨start_of_mem hb hm', ha.override_inside piece hm'⟩
    · rw [pieceStop, heq, hslot]
      exact ha.slot_inside _ hv
  · rw [List.pairwise_map]
    have hsorted := (segmentPieces image segment slots overrides).ordered_keys_toList
    refine List.Pairwise.imp_of_mem (fun {a b} hma hmb hlt => ?_) hsorted
    have hlt' : a.1.toNat < b.1.toNat :=
      UInt64.lt_iff_toNat_lt.mp (Std.compare_eq_lt.mp hlt)
    rw [Emission.block_stop]
    show pieceStop a ≤ b.1.toNat
    rcases (mem_segmentPieces hb ha).mp hma with hoa | ⟨v, hv, heqv, huna⟩
    · rcases (mem_segmentPieces hb ha).mp hmb with hob | ⟨w, hw, -, hunb⟩
      · exact ha.overrides_apart a hoa b hob hlt'
      · -- an uncovered slot behind an override starts at its end or later
        have := hunb a hoa
        omega
    · rw [pieceStop, heqv, hslot]
      rcases (mem_segmentPieces hb ha).mp hmb with hob | ⟨w, hw, -, -⟩
      · have hor := ha.slot_or_override _ hv b hob
        have hb' : b.1.toNat ≤ pieceStop b := Nat.le_add_right _ _
        have := huna b hob
        dsimp only at hor
        omega
      · exact ha.slots_apart _ hv _ hw hlt'

end

/-! ## The cells of the segment -/

theorem mem_overrideCells {owner : UInt64} {o : Override} {cell : Cell}
    (h : cell ∈ overrideCells owner o) : ∃ value index, cell = .part owner value index := by
  obtain ⟨value, -, hcell⟩ := List.mem_flatMap.mp h
  obtain ⟨index, -, rfl⟩ := List.mem_map.mp hcell
  exact ⟨value, index, rfl⟩

theorem overrideCells_slotPiece (a : UInt64) (v : SlotValue) :
    overrideCells a (slotPiece v) = (List.range 8).map (Cell.part a v.constant) := by
  cases v <;> rfl

/-- **Every address of a segment is kept.** One cell for each address; the cells of an
override take its own range and no other; each of the eight cells of a slot outside the
overrides is there once, at its own distance from the start of the segment; and every other
cell is the image's byte at that address. -/
structure KeepsAddresses (image : Image) (segment : Segment)
    (slots : ExtTreeMap UInt64 SlotValue) (overrides : Overrides) (cells : List Cell) :
    Prop where
  length : cells.length = segment.vmsize.toNat
  override : ∀ piece ∈ segmentOverrides image segment overrides, ∀ k < piece.2.size.toNat,
    cells[piece.1.toNat + k - segment.vmaddr.toNat]? = (overrideCells piece.1 piece.2)[k]?
  override_only : ∀ piece ∈ segmentOverrides image segment overrides, ∀ j value index,
    cells[j]? = some (.part piece.1 value index) →
      piece.1.toNat ≤ segment.vmaddr.toNat + j ∧ segment.vmaddr.toNat + j < pieceStop piece
  slot : ∀ slot ∈ slots.toList, Uncovered image segment overrides slot.1.toNat →
    ∀ k < 8, ∀ j, cells[j]? = some (.part slot.1 slot.2.constant k) ↔
      j = slot.1.toNat + k - segment.vmaddr.toNat
  byte : ∀ a, segment.vmaddr.toNat ≤ a → a < segment.stop →
    Uncovered image segment overrides a →
    (∀ slot ∈ slots.toList, a < slot.1.toNat ∨ slot.1.toNat + 8 ≤ a) →
    cells[a - segment.vmaddr.toNat]? = some (.byte (image.byteAt (UInt64.ofNat a)))

/-- The cells of a segment's chunks, in the order they are emitted. -/
def chunkCells (chunks : List Chunk) : List Cell := chunks.flatMap Chunk.cells

section

variable {image : Image} {segment : Segment} {slots : ExtTreeMap UInt64 SlotValue}
  {overrides : Overrides} (hi : image.Segmented) (hmem : segment ∈ image.segments)
  (hmapped : segment.isMapped = true) (ha : Arranged image segment slots overrides)
  (imageIndex : Nat)

include hi hmem hmapped ha

theorem chunkCells_emitSegment :
    chunkCells (emitSegment imageIndex image segment
        (segmentPieces image segment slots overrides))
      = Assemble.assemble (background image) segment.stop segment.vmaddr.toNat
          ((segmentPieces image segment slots overrides).toList.map Emission.block) := by
  have hf := fits_segmentPieces (hi.bounded segment hmem) ha
  have hcells := Emission.cells_emitPieces
    (e := { cursor := segment.vmaddr, chunkStart := segment.vmaddr })
    (segmentBytes_eq hi hmem hmapped) (Nat.le_refl _) (hi.bounded segment hmem) hf imageIndex
  rw [← Emission.cells_closeChunk imageIndex, Emission.cells, Emission.fields_closeChunk,
    List.flatMap_nil, List.append_nil] at hcells
  exact hcells

theorem length_emitSegment :
    (chunkCells (emitSegment imageIndex image segment
      (segmentPieces image segment slots overrides))).length = segment.vmsize.toNat := by
  rw [chunkCells_emitSegment hi hmem hmapped ha,
    Assemble.length_assemble (fits_segmentPieces (hi.bounded segment hmem) ha), Segment.stop]
  omega

/-- The cells of a piece are in its own range. -/
theorem getElem?_emitSegment_piece {piece : UInt64 × Override}
    (hm : piece ∈ (segmentPieces image segment slots overrides).toList) {k : Nat}
    (hk : k < piece.2.size.toNat) :
    (chunkCells (emitSegment imageIndex image segment
        (segmentPieces image segment slots overrides)))[piece.1.toNat + k
          - segment.vmaddr.toNat]? = (overrideCells piece.1 piece.2)[k]? := by
  rw [chunkCells_emitSegment hi hmem hmapped ha]
  exact Assemble.getElem?_block (fits_segmentPieces (hi.bounded segment hmem) ha)
    (List.mem_map_of_mem hm) (by rwa [Emission.block, length_overrideCells])

/-- Outside the pieces there are the image's bytes. -/
theorem getElem?_emitSegment_byte {a : Nat} (h1 : segment.vmaddr.toNat ≤ a)
    (h2 : a < segment.stop)
    (hno : ∀ piece ∈ (segmentPieces image segment slots overrides).toList,
      a < piece.1.toNat ∨ pieceStop piece ≤ a) :
    (chunkCells (emitSegment imageIndex image segment
        (segmentPieces image segment slots overrides)))[a - segment.vmaddr.toNat]?
      = some (background image a) := by
  rw [chunkCells_emitSegment hi hmem hmapped ha]
  refine Assemble.getElem?_background (fits_segmentPieces (hi.bounded segment hmem) ha) h1 h2
    fun block hm => ?_
  obtain ⟨piece, hpiece, rfl⟩ := List.mem_map.mp hm
  rw [Emission.block_stop]
  exact hno piece hpiece

/-- A cell that belongs to an owner lies in the range of the owner's piece. -/
theorem piece_of_getElem? {j index : Nat} {owner : UInt64} {value : Constant}
    (hj : (chunkCells (emitSegment imageIndex image segment
      (segmentPieces image segment slots overrides)))[j]? = some (.part owner value index)) :
    ∃ o, (owner, o) ∈ (segmentPieces image segment slots overrides).toList ∧
      owner.toNat ≤ segment.vmaddr.toNat + j ∧
      segment.vmaddr.toNat + j < pieceStop (owner, o) ∧
      (overrideCells owner o)[segment.vmaddr.toNat + j - owner.toNat]?
        = some (.part owner value index) := by
  have hlt := (List.getElem?_eq_some_iff.mp hj).1
  rw [length_emitSegment hi hmem hmapped ha] at hlt
  by_cases hin : ∃ piece ∈ (segmentPieces image segment slots overrides).toList,
      piece.1.toNat ≤ segment.vmaddr.toNat + j ∧ segment.vmaddr.toNat + j < pieceStop piece
  · obtain ⟨piece, hm, h1, h2⟩ := hin
    have hk := getElem?_emitSegment_piece hi hmem hmapped ha imageIndex hm
      (k := segment.vmaddr.toNat + j - piece.1.toNat) (by rw [pieceStop] at h2; omega)
    rw [Nat.add_sub_cancel' h1, Nat.add_sub_cancel_left, hj] at hk
    obtain ⟨v, i, heq⟩ := mem_overrideCells (List.mem_of_getElem? hk.symm)
    cases heq
    exact ⟨piece.2, hm, h1, h2, hk.symm⟩
  · -- outside the pieces the cell is a byte of the image
    have hbyte := getElem?_emitSegment_byte hi hmem hmapped ha imageIndex
      (Nat.le_add_right segment.vmaddr.toNat j) (by rw [Segment.stop]; omega)
      (fun piece hm => by
        by_contra hno
        exact hin ⟨piece, hm, by omega⟩)
    rw [Nat.add_sub_cancel_left, hj] at hbyte
    cases hbyte

theorem emitSegment_keepsAddresses :
    KeepsAddresses image segment slots overrides
      (chunkCells (emitSegment imageIndex image segment
        (segmentPieces image segment slots overrides))) := by
  have hb : segment.stop < 2 ^ 64 := hi.bounded segment hmem
  -- the pieces are a map: one override for an address
  have hkey : ∀ {owner o o'}, (owner, o) ∈ (segmentPieces image segment slots overrides).toList →
      (owner, o') ∈ (segmentPieces image segment slots overrides).toList → o = o' := by
    intro owner o o' h h'
    rw [ExtTreeMap.mem_toList_iff_getElem?_eq_some] at h h'
    exact Option.some.inj (h.symm.trans h')
  refine ⟨length_emitSegment hi hmem hmapped ha imageIndex, ?_, ?_, ?_, ?_⟩
  · exact fun piece hm k hk => getElem?_emitSegment_piece hi hmem hmapped ha imageIndex
      ((mem_segmentPieces hb ha).mpr (.inl hm)) hk
  · intro piece hm j value index hj
    obtain ⟨o, ho, h1, h2, -⟩ := piece_of_getElem? hi hmem hmapped ha imageIndex hj
    rw [hkey ho ((mem_segmentPieces hb ha).mpr (.inl hm))] at h2
    exact ⟨h1, h2⟩
  · intro slot hm hun k hk j
    have hslot : (slot.1, slotPiece slot.2) ∈
        (segmentPieces image segment slots overrides).toList :=
      (mem_segmentPieces hb ha).mpr (.inr ⟨slot.2, hm, rfl, hun⟩)
    have hget : ∀ i < 8, (overrideCells slot.1 (slotPiece slot.2))[i]?
        = some (.part slot.1 slot.2.constant i) := by
      intro i hi'
      rw [overrideCells_slotPiece, List.getElem?_map, List.getElem?_range hi']
      rfl
    constructor
    · intro hj
      obtain ⟨o, ho, h1, h2, hcell⟩ := piece_of_getElem? hi hmem hmapped ha imageIndex hj
      rw [hkey ho hslot] at h2 hcell
      have hlt : segment.vmaddr.toNat + j - slot.1.toNat < 8 := by
        have : pieceStop (slot.1, slotPiece slot.2) = slot.1.toNat + 8 := rfl
        omega
      rw [hget _ hlt] at hcell
      injection hcell with hcell
      injection hcell with _ _ hindex
      omega
    · rintro rfl
      rw [← hget k hk]
      exact getElem?_emitSegment_piece hi hmem hmapped ha imageIndex hslot hk
  · intro a h1 h2 hun hslots
    refine getElem?_emitSegment_byte hi hmem hmapped ha imageIndex h1 h2 fun piece hm => ?_
    rcases (mem_segmentPieces hb ha).mp hm with hover | ⟨v, hv, heq, -⟩
    · exact hun piece hover
    · rw [pieceStop, heq]
      exact hslots _ hv

end

end Katabasis
