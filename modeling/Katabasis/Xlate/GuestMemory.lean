import Katabasis.Xlate.GuestData

set_option autoImplicit false

/-! # Every guest address is kept

The cells of a segment's chunks, one behind the other, are the pieces of the segment written
over the bytes of the image (`chunkCells_emitSegment`, in terms of `Assemble.assemble`): one cell
for each address, each override and each slot outside the overrides in its own range, and the
image's byte everywhere else. For an image whose data segments are merged, the cells of the
host segment have every guest address at its distance from the address `WriteLayout`
publishes.
-/

namespace Katabasis

open Std

/-- What a byte of the emitted memory comes from: a byte of the image, or a byte of a constant
of the piece at `owner`. -/
inductive Cell
  | byte (b : UInt8)
  | part (owner : UInt64) (value : Constant) (index : Nat)
  deriving DecidableEq, Repr

def partCells (owner : UInt64) (value : Constant) : List Cell :=
  (List.range value.size).map (Cell.part owner value)

def Field.cells : Field → List Cell
  | data bytes => bytes.map Cell.byte
  | part owner value => partCells owner value

def Chunk.cells (chunk : Chunk) : List Cell := chunk.fields.flatMap Field.cells

/-- The cells of an override's fields, for the override at `owner`. -/
def overrideCells (owner : UInt64) (o : Override) : List Cell :=
  o.fields.flatMap (partCells owner)

theorem length_overrideCells (owner : UInt64) (o : Override) :
    (overrideCells owner o).length = o.size.toNat := by
  rw [← o.size_fields, overrideCells, List.length_flatMap]
  simp [partCells]

/-! ## Segments -/

/-- The image's segments end within the address space and share no address. -/
structure Image.Segmented (image : Image) : Prop where
  bounded : ∀ s ∈ image.segments, s.vmaddr.toNat + s.vmsize.toNat < 2 ^ 64
  apart : image.segments.Pairwise fun s t => ∀ a, s.contains a = true → t.contains a = false

namespace Segment

/-- The address behind a segment. -/
def stop (segment : Segment) : Nat := segment.vmaddr.toNat + segment.vmsize.toNat

theorem contains_iff {segment : Segment} (h : segment.stop < 2 ^ 64) {a : UInt64} :
    segment.contains a = true ↔ segment.vmaddr.toNat ≤ a.toNat ∧ a.toNat < segment.stop := by
  have hstop : (segment.vmaddr + segment.vmsize).toNat = segment.stop := by
    rw [UInt64.toNat_add]
    exact Nat.mod_eq_of_lt h
  simp only [contains, decide_eq_true_eq, ge_iff_le, UInt64.le_iff_toNat_le,
    UInt64.lt_iff_toNat_lt, hstop]

end Segment

/-- The byte of an image at one of its addresses. -/
def Image.byteAt (image : Image) (vmaddr : UInt64) : UInt8 :=
  match image.segmentForVM vmaddr with
  | some segment => image.segmentByte segment (vmaddr - segment.vmaddr)
  | none => 0

theorem find?_eq_of_apart {segments : List Segment}
    (ha : segments.Pairwise fun s t => ∀ a, s.contains a = true → t.contains a = false)
    {segment : Segment} (hmem : segment ∈ segments) (hname : segment.name ≠ "__PAGEZERO")
    {a : UInt64} (hc : segment.contains a = true) :
    (segments.find? fun s => decide (s.name ≠ "__PAGEZERO" ∧ a ≥ s.vmaddr ∧
      a < s.vmaddr + s.vmsize)) = some segment := by
  induction segments with
  | nil => cases hmem
  | cons first rest ih =>
      rw [List.pairwise_cons] at ha
      rw [List.find?_cons]
      rcases List.mem_cons.mp hmem with rfl | hrest
      · have hp : decide (segment.name ≠ "__PAGEZERO" ∧ a ≥ segment.vmaddr ∧
            a < segment.vmaddr + segment.vmsize) = true := by
          simp only [Segment.contains, decide_eq_true_eq] at hc ⊢
          exact ⟨hname, hc⟩
        rw [hp]
      · have hfirst : first.contains a = false := by
          cases hf : first.contains a with
          | false => rfl
          | true => rw [ha.1 segment hrest a hf] at hc; cases hc
        have hp : decide (first.name ≠ "__PAGEZERO" ∧ a ≥ first.vmaddr ∧
            a < first.vmaddr + first.vmsize) = false := by
          simp only [Segment.contains, decide_eq_false_iff_not] at hfirst ⊢
          exact fun h => hfirst h.2
        rw [hp]
        exact ih ha.2 hrest

section

variable {image : Image} {segment : Segment} (hi : image.Segmented)
  (hmem : segment ∈ image.segments) (hmapped : segment.isMapped = true)

include hmapped in
theorem Segment.name_ne_of_isMapped : segment.name ≠ "__PAGEZERO" := by
  simp only [Segment.isMapped, Bool.and_eq_true, bne_iff_ne, ne_eq] at hmapped
  exact hmapped.1.1

include hi hmem hmapped

theorem segmentForVM_eq {a : UInt64} (hc : segment.contains a = true) :
    image.segmentForVM a = some segment :=
  find?_eq_of_apart hi.apart hmem (Segment.name_ne_of_isMapped hmapped) hc

theorem contains_start : segment.contains segment.vmaddr = true := by
  have hpos : segment.vmsize ≠ 0 := by
    simp only [Segment.isMapped, Bool.and_eq_true, bne_iff_ne, ne_eq] at hmapped
    exact hmapped.2
  rw [Segment.contains_iff (hi.bounded segment hmem)]
  have : segment.vmsize.toNat ≠ 0 := fun h => hpos (UInt64.toNat_inj.mp h)
  simp only [Segment.stop]
  omega

/-- The cell of the image's byte at an address. -/
def background (image : Image) (a : Nat) : Cell := .byte (image.byteAt (UInt64.ofNat a))

/-- The bytes read for a segment are the image's bytes at its addresses. -/
theorem segmentBytes_eq :
    (segmentBytes image segment).map Cell.byte
      = Assemble.gap (background image) segment.vmaddr.toNat segment.stop := by
  have hb := hi.bounded segment hmem
  have hfind := segmentForVM_eq hi hmem hmapped (contains_start hi hmem hmapped)
  have hread : image.readBytes (image.host segment.vmaddr) segment.vmsize
      = some ((List.range segment.vmsize.toNat).map fun i =>
        image.segmentByte segment (segment.vmaddr + UInt64.ofNat i - segment.vmaddr)) := by
    unfold Image.readBytes
    simp only [Image.host_sub_slide, hfind]
    rw [if_neg (by simp)]
  rw [segmentBytes, hread, Option.getD_some, Assemble.gap, List.map_map]
  have hlen : segment.stop - segment.vmaddr.toNat = segment.vmsize.toNat := by
    simp only [Segment.stop]; omega
  rw [hlen, List.range'_eq_map_range, List.map_map]
  refine List.map_congr_left fun i hi' => ?_
  have hilt := List.mem_range.mp hi'
  -- the range does not wrap, so the address of a byte is the sum of the numbers
  have haddr : UInt64.ofNat (segment.vmaddr.toNat + i) = segment.vmaddr + UInt64.ofNat i := by
    rw [UInt64.ofNat_add, UInt64.ofNat_toNat]
  have htoNat : (segment.vmaddr + UInt64.ofNat i).toNat = segment.vmaddr.toNat + i := by
    rw [← haddr, UInt64.toNat_ofNat_of_lt' (by simp only [UInt64.size]; omega)]
  have hc : segment.contains (segment.vmaddr + UInt64.ofNat i) = true := by
    rw [Segment.contains_iff hb, htoNat]
    simp only [Segment.stop]
    omega
  simp only [Function.comp_apply, background, Image.byteAt, haddr,
    segmentForVM_eq hi hmem hmapped hc]

end

/-! ## One chunk after the other -/

namespace Emission

/-- The cells written so far. -/
def cells (e : Emission) : List Cell :=
  e.chunks.flatMap Chunk.cells ++ e.fields.flatMap Field.cells

theorem cells_closeChunk (imageIndex : Nat) (e : Emission) :
    (e.closeChunk imageIndex).cells = e.cells := by
  unfold closeChunk
  split
  case isTrue => rfl
  case isFalse => simp [cells, Chunk.cells]

theorem fields_closeChunk (imageIndex : Nat) (e : Emission) :
    (e.closeChunk imageIndex).fields = [] := by
  unfold closeChunk
  split
  case isTrue h => exact List.isEmpty_iff.mp h
  case isFalse => rfl

section

variable {bytes : List UInt8} {segment : Segment} {bg : Nat → Cell}
  (hbytes : bytes.map Cell.byte = Assemble.gap bg segment.vmaddr.toNat segment.stop)

include hbytes

theorem cells_flush {e : Emission} {limit : UInt64} (h1 : segment.vmaddr.toNat ≤ e.cursor.toNat)
    (h2 : e.cursor.toNat ≤ limit.toNat) (h3 : limit.toNat ≤ segment.stop) :
    (e.flush bytes segment limit).cells
        = e.cells ++ Assemble.gap bg e.cursor.toNat limit.toNat ∧
      (e.flush bytes segment limit).cursor = limit := by
  unfold flush
  split
  case isTrue h =>
      have hstart : (e.cursor - segment.vmaddr).toNat = e.cursor.toNat - segment.vmaddr.toNat :=
        UInt64.toNat_sub_of_le _ _ (UInt64.le_iff_toNat_le.mpr h1)
      have hlen : (limit - e.cursor).toNat = limit.toNat - e.cursor.toNat :=
        UInt64.toNat_sub_of_le _ _ (UInt64.le_iff_toNat_le.mpr h2)
      refine ⟨?_, rfl⟩
      simp only [cells, List.flatMap_append, List.flatMap_cons, List.flatMap_nil, List.append_nil,
        Field.cells, List.map_take, List.map_drop, hbytes, hstart, hlen, List.append_assoc]
      rw [Assemble.take_drop_gap h1 h2 h3]
  case isFalse h =>
      have heq : e.cursor = limit := by
        rw [← UInt64.toNat_inj]
        have hle : ¬ e.cursor.toNat < limit.toNat := fun hlt => h (UInt64.lt_iff_toNat_lt.mpr hlt)
        omega
      rw [heq]
      exact ⟨by simp [Assemble.gap], rfl⟩

/-- The block of a piece. -/
def block (entry : UInt64 × Override) : Assemble.Block Cell :=
  ⟨entry.1.toNat, overrideCells entry.1 entry.2⟩

omit hbytes in
theorem block_stop (entry : UInt64 × Override) :
    (block entry).stop = entry.1.toNat + entry.2.size.toNat := by
  simp [block, Assemble.Block.stop, length_overrideCells]

/-- One piece: the bytes in front of it, and its own cells. -/
theorem cells_emitPiece {e : Emission} {entry : UInt64 × Override}
    (h1 : segment.vmaddr.toNat ≤ e.cursor.toNat) (h2 : e.cursor.toNat ≤ entry.1.toNat)
    (h3 : (block entry).stop ≤ segment.stop) (hstop : segment.stop < 2 ^ 64)
    (imageIndex : Nat) :
    (e.emitPiece imageIndex bytes segment entry).cells
        = e.cells ++ Assemble.gap bg e.cursor.toNat entry.1.toNat ++ (block entry).cells ∧
      (e.emitPiece imageIndex bytes segment entry).cursor.toNat = (block entry).stop := by
  rw [block_stop] at h3
  obtain ⟨hcells, hcursor⟩ := cells_flush hbytes h1 h2 (by omega)
  have hparts : (entry.2.fields.map (Field.part entry.1)).flatMap Field.cells
      = (block entry).cells := by
    rw [List.flatMap_map]
    rfl
  have hnext : (entry.1 + entry.2.size).toNat = (block entry).stop := by
    rw [block_stop, UInt64.toNat_add]
    exact Nat.mod_eq_of_lt (by omega)
  unfold emitPiece
  simp only
  split
  -- an override with a name of its own closes the chunk; the cells are the same
  case h_1 name _ =>
      refine ⟨?_, hnext⟩
      have hclosed := cells_closeChunk imageIndex (e.flush bytes segment entry.1)
      have hfields := fields_closeChunk imageIndex (e.flush bytes segment entry.1)
      rw [← hcells, ← hclosed]
      simp only [cells, hfields, List.flatMap_append, List.flatMap_cons, List.flatMap_nil,
        List.append_nil, Chunk.cells, hparts]
  case h_2 =>
      refine ⟨?_, hnext⟩
      rw [← hcells]
      simp only [cells, List.flatMap_append, hparts, List.append_assoc]

/-- All pieces, and the bytes behind the last one. -/
theorem cells_emitPieces {entries : List (UInt64 × Override)} {e : Emission}
    (h1 : segment.vmaddr.toNat ≤ e.cursor.toNat) (hstop : segment.stop < 2 ^ 64)
    (hf : Assemble.Fits segment.stop e.cursor.toNat (entries.map block)) (imageIndex : Nat) :
    ((entries.foldl (emitPiece imageIndex bytes segment) e).flush bytes segment
        (segment.vmaddr + segment.vmsize)).cells
      = e.cells ++ Assemble.assemble bg segment.stop e.cursor.toNat (entries.map block) := by
  induction entries generalizing e with
  | nil =>
      have hlimit : (segment.vmaddr + segment.vmsize).toNat = segment.stop := by
        rw [UInt64.toNat_add]
        exact Nat.mod_eq_of_lt hstop
      have hflush := (cells_flush hbytes h1 (by rw [hlimit]; exact hf) (by rw [hlimit])).1
      rw [hlimit] at hflush
      exact hflush
  | cons entry rest ih =>
      obtain ⟨hle, hrest⟩ := hf
      obtain ⟨hcells, hcursor⟩ := cells_emitPiece hbytes h1 hle hrest.start_le hstop imageIndex
      have hblock := block_stop entry
      have hentry : (block entry).address = entry.1.toNat := rfl
      rw [hentry] at hle
      rw [List.foldl_cons, ih (by rw [hcursor]; omega) (by rw [hcursor]; exact hrest), hcells,
        hcursor, List.map_cons, Assemble.assemble, hentry]
      simp only [List.append_assoc]

end

end Emission

end Katabasis
