import Katabasis.Lib.Words
import Katabasis.Xlate.SegmentLayout

set_option autoImplicit false

/-! # Host segments of several guest segments

`EmitGuestData` puts the data segments of an image into one host segment when each starts where
the one before it ends, and `WriteLayout` publishes the lowest address of each host segment. The
cells of such a host segment have every address at its distance from the published one, unless the
segment of an earlier image comes to the same name: `__0DATA` of image 1 and the data of image 10
both go into `__X10DATA` (**`emitGuestData_keepsAddresses_iff`**).
-/

namespace Katabasis

open Std

/-! ## What `EmitGuestData` emits -/

/-- The chunks of a segment of the program. -/
def segmentChunks (p : Program) (passthrough : String → Bool) (overrides : Overrides)
    (imageIndex : Nat) (image : Image) (segment : Segment) : List Chunk :=
  emitSegment imageIndex image segment
    (segmentPieces image segment (segmentSlots p passthrough image segment).slots overrides)

section

variable (p : Program) (passthrough : String → Bool) (overrides : Overrides)

theorem out_emitOne (imageIndex : Nat) (image : Image) (acc : GuestData)
    (segments : List Segment) :
    (segments.foldl (emitOne p passthrough overrides imageIndex image) acc).out
      = acc.out ++ (segments.filter Segment.isMapped).map fun segment =>
          ⟨image, segment, hostName imageIndex (mergeData image) segment⟩ := by
  induction segments generalizing acc with
  | nil => simp
  | cons segment rest ih =>
      rw [List.foldl_cons, ih, List.filter_cons]
      unfold emitOne
      cases segment.isMapped <;> simp

theorem placed_emitOne (imageIndex : Nat) (image : Image) (acc : GuestData)
    (segments : List Segment) :
    (segments.foldl (emitOne p passthrough overrides imageIndex image) acc).placed
      = acc.placed ++ (segments.filter Segment.isMapped).flatMap fun segment =>
          (segmentChunks p passthrough overrides imageIndex image segment).map fun chunk =>
            (hostName imageIndex (mergeData image) segment, chunk) := by
  induction segments generalizing acc with
  | nil => simp
  | cons segment rest ih =>
      rw [List.foldl_cons, ih, List.filter_cons]
      unfold emitOne
      cases segment.isMapped <;> simp [segmentChunks]

/-- The loop over the images, for some of them. -/
def emitImages (entries : List (Image × Nat)) : GuestData :=
  entries.foldl (fun acc (image, imageIndex) =>
    image.segments.foldl (emitOne p passthrough overrides imageIndex image) acc) {}

theorem out_emitImages (entries : List (Image × Nat)) :
    (emitImages p passthrough overrides entries).out
      = entries.flatMap fun (image, imageIndex) =>
          (image.segments.filter Segment.isMapped).map fun segment =>
            ⟨image, segment, hostName imageIndex (mergeData image) segment⟩ := by
  have hfold : ∀ (entries : List (Image × Nat)) (acc : GuestData),
      (entries.foldl (fun acc (image, imageIndex) =>
          image.segments.foldl (emitOne p passthrough overrides imageIndex image) acc) acc).out
        = acc.out ++ entries.flatMap fun (image, imageIndex) =>
            (image.segments.filter Segment.isMapped).map fun segment =>
              ⟨image, segment, hostName imageIndex (mergeData image) segment⟩ := by
    intro entries
    induction entries with
    | nil => simp
    | cons first rest ih =>
        intro acc
        rw [List.foldl_cons, ih, out_emitOne, List.flatMap_cons, List.append_assoc]
  exact (hfold _ _).trans (List.nil_append _)

theorem placed_emitImages (entries : List (Image × Nat)) :
    (emitImages p passthrough overrides entries).placed
      = entries.flatMap fun (image, imageIndex) =>
          (image.segments.filter Segment.isMapped).flatMap fun segment =>
            (segmentChunks p passthrough overrides imageIndex image segment).map fun chunk =>
              (hostName imageIndex (mergeData image) segment, chunk) := by
  have hfold : ∀ (entries : List (Image × Nat)) (acc : GuestData),
      (entries.foldl (fun acc (image, imageIndex) =>
          image.segments.foldl (emitOne p passthrough overrides imageIndex image) acc) acc).placed
        = acc.placed ++ entries.flatMap fun (image, imageIndex) =>
            (image.segments.filter Segment.isMapped).flatMap fun segment =>
              (segmentChunks p passthrough overrides imageIndex image segment).map fun chunk =>
                (hostName imageIndex (mergeData image) segment, chunk) := by
    intro entries
    induction entries with
    | nil => simp
    | cons first rest ih =>
        intro acc
        rw [List.foldl_cons, ih, placed_emitOne, List.flatMap_cons, List.append_assoc]
  exact (hfold _ _).trans (List.nil_append _)

theorem placed_emitGuestData :
    (emitGuestData p passthrough overrides).placed
      = p.images.zipIdx.flatMap fun (image, imageIndex) =>
          (image.segments.filter Segment.isMapped).flatMap fun segment =>
            (segmentChunks p passthrough overrides imageIndex image segment).map fun chunk =>
              (hostName imageIndex (mergeData image) segment, chunk) :=
  placed_emitImages p passthrough overrides p.images.zipIdx

end

/-! ## Merged segments adjoin -/

/-- The segments that may be merged. -/
def Segment.isData (segment : Segment) : Bool := segment.isMapped && segment.name != "__TEXT"

def Image.dataSegments (image : Image) : List Segment := image.segments.filter Segment.isData

theorem mergeStep_eq (acc : Merging) (segment : Segment) :
    mergeStep acc segment
      = if segment.isData then
          { mergeData := acc.mergeData && (acc.first || segment.vmaddr == acc.previousEnd)
            first := false
            previousEnd := segment.vmaddr + segment.vmsize }
        else acc := by
  unfold mergeStep Segment.isData
  cases segment.isMapped <;> cases h : segment.name == "__TEXT" <;> simp [bne, h]

/-- The first segment starts at `address`, and every other one where the one before it ends. -/
def Adjacent : UInt64 → List Segment → Prop
  | _, [] => True
  | address, segment :: rest =>
      segment.vmaddr = address ∧ Adjacent (segment.vmaddr + segment.vmsize) rest

theorem adjacent_of_mergeStep {segments : List Segment} {acc : Merging} (hf : acc.first = false)
    (h : (segments.foldl mergeStep acc).mergeData = true) :
    acc.mergeData = true ∧ Adjacent acc.previousEnd (segments.filter Segment.isData) := by
  induction segments generalizing acc with
  | nil => exact ⟨h, trivial⟩
  | cons segment rest ih =>
      rw [List.foldl_cons, mergeStep_eq] at h
      rw [List.filter_cons]
      split at h
      case isTrue hdata =>
          obtain ⟨hmerge, hrest⟩ := ih rfl h
          simp only [hf, Bool.false_or, Bool.and_eq_true, beq_iff_eq] at hmerge
          rw [if_pos hdata]
          exact ⟨hmerge.1, hmerge.2, hrest⟩
      case isFalse hdata =>
          rw [if_neg hdata]
          exact ih hf h

/-- Merged segments are adjacent. -/
theorem adjacent_of_mergeData {image : Image} (h : mergeData image = true) :
    ∃ address, Adjacent address image.dataSegments := by
  unfold mergeData at h
  unfold Image.dataSegments
  generalize image.segments = segments at h ⊢
  induction segments with
  | nil => exact ⟨0, trivial⟩
  | cons segment rest ih =>
      rw [List.foldl_cons, mergeStep_eq] at h
      rw [List.filter_cons]
      split at h
      case isTrue hdata =>
          rw [if_pos hdata]
          exact ⟨segment.vmaddr, rfl, (adjacent_of_mergeStep rfl h).2⟩
      case isFalse hdata =>
          rw [if_neg hdata]
          exact ih h

/-! ## The cells of a host segment -/

/-- The cells of a host segment: those of its chunks, in the order of the module. -/
def hostCells (data : GuestData) (name : String) : List Cell :=
  chunkCells ((data.placed.filter fun entry => entry.1 == name).map Prod.snd)

/-- The host segment of an image whose data segments are merged. -/
def dataName (imageIndex : Nat) : String := "__X" ++ toString imageIndex ++ "DATA"

/-- The segments of an image that go into a host segment, among some of them. -/
def filedSegments (imageIndex : Nat) (image : Image) (segments : List Segment) (name : String) :
    List Segment :=
  (segments.filter Segment.isMapped).filter fun segment =>
    hostName imageIndex (mergeData image) segment == name

/-- The segments of some images that go into a host segment, in the order of the loop. -/
def filed (entries : List (Image × Nat)) (name : String) : List GuestSegment :=
  entries.flatMap fun entry =>
    (filedSegments entry.2 entry.1 entry.1.segments name).map fun segment =>
      ⟨entry.1, segment, name⟩

/-- What is filed under one of the names, of a list filed under the name of each element. -/
theorem filter_flatMap_name {α β : Type} (l : List α) (n : α → String) (f : α → List β)
    (name : String) :
    (l.flatMap fun a => (f a).map fun b => (n a, b)).filter (fun entry => entry.1 == name)
      = (l.filter fun a => n a == name).flatMap fun a => (f a).map fun b => (name, b) := by
  induction l with
  | nil => rfl
  | cons a rest ih =>
      rw [List.flatMap_cons, List.filter_append, ih, List.filter_map, List.filter_cons]
      by_cases h : n a = name
      · simp [h, Function.comp_def]
      · simp [h, Function.comp_def]

section

variable (p : Program) (passthrough : String → Bool) (overrides : Overrides)

theorem filter_out_emitImages (entries : List (Image × Nat)) (name : String) :
    (emitImages p passthrough overrides entries).out.filter (fun entry => entry.hostName == name)
      = filed entries name := by
  rw [out_emitImages, List.filter_flatMap, filed]
  refine List.flatMap_congr fun entry _ => ?_
  rw [List.filter_map]
  refine List.map_congr_left fun segment hm => ?_
  exact congrArg (GuestSegment.mk entry.1 segment) (beq_iff_eq.mp (List.mem_filter.mp hm).2)

/-- The cells of some segments of an image. -/
def segmentsCells (imageIndex : Nat) (image : Image) (segments : List Segment) : List Cell :=
  segments.flatMap fun segment =>
    chunkCells (segmentChunks p passthrough overrides imageIndex image segment)

/-- What the segments of an image add to a host segment. -/
theorem hostCells_emitOne (imageIndex : Nat) (image : Image) (acc : GuestData)
    (segments : List Segment) (name : String) :
    hostCells (segments.foldl (emitOne p passthrough overrides imageIndex image) acc) name
      = hostCells acc name ++ segmentsCells p passthrough overrides imageIndex image
          (filedSegments imageIndex image segments name) := by
  rw [hostCells, placed_emitOne, List.filter_append, filter_flatMap_name, hostCells, chunkCells,
    chunkCells, List.map_append, List.flatMap_append, List.map_flatMap, List.flatMap_assoc]
  refine congrArg _ (List.flatMap_congr fun segment _ => ?_)
  simp [chunkCells, List.map_map]

/-- What some images add to a host segment. -/
theorem hostCells_foldl (entries : List (Image × Nat)) (acc : GuestData) (name : String) :
    hostCells (entries.foldl (fun acc (image, imageIndex) =>
        image.segments.foldl (emitOne p passthrough overrides imageIndex image) acc) acc) name
      = hostCells acc name ++ entries.flatMap fun entry =>
          segmentsCells p passthrough overrides entry.2 entry.1
            (filedSegments entry.2 entry.1 entry.1.segments name) := by
  induction entries generalizing acc with
  | nil => exact (List.append_nil _).symm
  | cons entry rest ih =>
      rw [List.foldl_cons, ih, hostCells_emitOne, List.append_assoc, List.flatMap_cons]

/-- The loop when it comes to segment `m` of image `i`. -/
def emitBefore (i : Nat) (image : Image) (m : Nat) : GuestData :=
  (image.segments.take m).foldl (emitOne p passthrough overrides i image)
    (emitImages p passthrough overrides (p.images.zipIdx.take i))

/-- How many cells are in the host segment of the image's data when the loop comes to segment
`m`. -/
def segmentStart (i : Nat) (image : Image) (m : Nat) : Nat :=
  (hostCells (emitBefore p passthrough overrides i image m) (dataName i)).length

end

/-- A loop that comes to an element and goes on behind it. -/
theorem foldl_zipIdx_split {α β : Type} {l : List α} {i : Nat} {a : α} (h : l[i]? = some a)
    (step : β → α × Nat → β) (start : β) :
    l.zipIdx.foldl step start
      = (l.zipIdx.drop (i + 1)).foldl step (step ((l.zipIdx.take i).foldl step start) (a, i)) := by
  have hget : l.zipIdx[i]? = some (a, i) := by simp [List.getElem?_zipIdx, h]
  obtain ⟨hlt, heq⟩ := List.getElem?_eq_some_iff.mp hget
  rw [← List.foldl_cons, ← List.foldl_append, ← heq, ← List.drop_eq_getElem_cons hlt,
    List.take_append_drop]

theorem segments_split {image : Image} {m : Nat} {segment : Segment}
    (h : image.segments[m]? = some segment) :
    image.segments = image.segments.take m ++ segment :: image.segments.drop (m + 1) := by
  obtain ⟨hlt, heq⟩ := List.getElem?_eq_some_iff.mp h
  rw [← heq, ← List.drop_eq_getElem_cons hlt, List.take_append_drop]

theorem filedSegments_cons {imageIndex : Nat} {image : Image} {segment : Segment} {name : String}
    (hmapped : segment.isMapped = true)
    (hname : hostName imageIndex (mergeData image) segment = name) (rest : List Segment) :
    filedSegments imageIndex image (segment :: rest) name
      = segment :: filedSegments imageIndex image rest name := by
  rw [filedSegments, List.filter_cons_of_pos hmapped, List.filter_cons_of_pos (by simpa using hname)]
  rfl

/-- The cells of a segment are behind those that were there when the loop came to it. -/
theorem hostCells_split {p : Program} {i : Nat} {image : Image} (hp : p.images[i]? = some image)
    {m : Nat} {segment : Segment} (hm : image.segments[m]? = some segment)
    (hmapped : segment.isMapped = true)
    {name : String} (hname : hostName i (mergeData image) segment = name)
    (passthrough : String → Bool) (overrides : Overrides) :
    ∃ more, hostCells (emitGuestData p passthrough overrides) name
      = hostCells (emitBefore p passthrough overrides i image m) name ++
          (chunkCells (segmentChunks p passthrough overrides i image segment) ++ more) := by
  have hsplit : emitGuestData p passthrough overrides
      = (p.images.zipIdx.drop (i + 1)).foldl (fun acc (image, imageIndex) =>
          image.segments.foldl (emitOne p passthrough overrides imageIndex image) acc)
        ((segment :: image.segments.drop (m + 1)).foldl (emitOne p passthrough overrides i image)
          (emitBefore p passthrough overrides i image m)) := by
    rw [emitBefore, ← List.foldl_append, ← segments_split hm]
    exact foldl_zipIdx_split hp _ _
  rw [hsplit, hostCells_foldl, hostCells_emitOne, filedSegments_cons hmapped hname, segmentsCells,
    List.flatMap_cons, List.append_assoc, List.append_assoc]
  exact ⟨_, rfl⟩

/-- No segment of another image goes into the host segment of image `i`. -/
def Program.OwnsDataName (p : Program) (i : Nat) : Prop :=
  ∀ entry ∈ p.images.zipIdx, entry.2 ≠ i →
    ∀ segment ∈ entry.1.segments, segment.isMapped = true →
      hostName entry.2 (mergeData entry.1) segment ≠ dataName i

instance (p : Program) (i : Nat) : Decidable (p.OwnsDataName i) :=
  inferInstanceAs (Decidable (∀ entry ∈ p.images.zipIdx, entry.2 ≠ i →
    ∀ segment ∈ entry.1.segments, segment.isMapped = true →
      hostName entry.2 (mergeData entry.1) segment ≠ dataName i))

theorem hostName_data {segment : Segment} (h : segment.name ≠ "__TEXT") (imageIndex : Nat) :
    hostName imageIndex true segment = dataName imageIndex := by
  simp [hostName, dataName, h]

theorem hostName_text {segment : Segment} (h : segment.name = "__TEXT") (imageIndex : Nat) :
    hostName imageIndex true segment ≠ dataName imageIndex := by
  have htext : (("__TEXT".drop 2).take 12).toString = "TEXT" := by decide
  simp only [hostName, dataName, h, htext]
  intro heq
  exact absurd ((String.append_right_inj _).mp heq) (by decide)

/-- Names that do not go on with a digit tell the images apart. -/
theorem ownsDataName_of_plain {p : Program} (i : Nat)
    (h : ∀ image ∈ p.images, ∀ segment ∈ image.segments,
      (((segment.name.drop 2).take 12).toString.toList.head?.all fun c => !c.isDigit) = true) :
    p.OwnsDataName i := by
  intro entry hentry hne segment hseg _ heq
  have hletter : ∀ c, "DATA".toList.head? = some c → c.isDigit = false := by
    intro c hc
    cases hc
    rfl
  have hname : ∃ suffix : String,
      hostName entry.2 (mergeData entry.1) segment = "__X" ++ toString entry.2 ++ suffix ∧
        ∀ c, suffix.toList.head? = some c → c.isDigit = false := by
    unfold hostName
    split
    case isTrue => exact ⟨"DATA", rfl, hletter⟩
    case isFalse =>
        have hplain := h entry.1 (List.fst_mem_of_mem_zipIdx hentry) segment hseg
        refine ⟨_, rfl, fun c hc => ?_⟩
        rw [hc] at hplain
        simpa only [Option.all_some, Bool.not_eq_true'] using hplain
  obtain ⟨suffix, hsuffix, hplain⟩ := hname
  rw [hsuffix, dataName, String.append_assoc, String.append_assoc,
    String.append_right_inj] at heq
  have hlist := congrArg String.toList heq
  simp only [String.toList_append] at hlist
  exact hne (Words.number_unique hplain hletter hlist)

/-- Of an image whose data segments are merged, these go into their host segment. -/
theorem filedSegments_dataName {image : Image} (hmerge : mergeData image = true) (i : Nat)
    (segments : List Segment) :
    filedSegments i image segments (dataName i) = segments.filter Segment.isData := by
  rw [filedSegments, List.filter_filter]
  refine List.filter_congr fun segment _ => ?_
  rw [hmerge, Segment.isData, Bool.and_comm]
  congr 1
  by_cases h : segment.name = "__TEXT"
  · rw [beq_false_of_ne (hostName_text h i), h]
    rfl
  · rw [hostName_data h i, bne_iff_ne.mpr h, beq_self_eq_true]

/-! ## The published address -/

/-- The lowest address of a host segment after one more entry. -/
def lower (low : Option UInt64) (entry : GuestSegment) : Option UInt64 :=
  let address := entry.image.host entry.segment.vmaddr
  match low with
  | none => some address
  | some low => some (min low address)

theorem lowest_layoutStep (t : LayoutTable) (entry : GuestSegment) (name : String) :
    (layoutStep t entry).lowest[name]?
      = if entry.hostName == name then lower t.lowest[name]? entry else t.lowest[name]? := by
  unfold layoutStep
  by_cases h : entry.hostName = name
  · subst h
    rw [if_pos (beq_self_eq_true _)]
    cases t.lowest[entry.hostName]? <;> simp [lower]
  · rw [if_neg (by simpa using h)]
    cases hl : t.lowest[entry.hostName]? <;>
      simp [ExtTreeMap.getElem?_insert, h]

theorem lowest_layoutTable (entries : List GuestSegment) (name : String) :
    (layoutTable entries).lowest[name]?
      = (entries.filter fun entry => entry.hostName == name).foldl lower none := by
  have hfold : ∀ (entries : List GuestSegment) (t : LayoutTable),
      (entries.foldl layoutStep t).lowest[name]?
        = (entries.filter fun entry => entry.hostName == name).foldl lower t.lowest[name]? := by
    intro entries
    induction entries with
    | nil => exact fun _ => rfl
    | cons entry rest ih =>
        intro t
        rw [List.foldl_cons, ih, lowest_layoutStep, List.filter_cons]
        split <;> rfl
  exact (hfold entries {}).trans (by rw [ExtTreeMap.getElem?_empty])

/-- The host address of a segment. -/
def GuestSegment.address (entry : GuestSegment) : UInt64 := entry.image.host entry.segment.vmaddr

theorem exists_foldl_lower (entries : List GuestSegment) (low : UInt64) :
    ∃ base, entries.foldl lower (some low) = some base ∧ base ≤ low ∧
      (base = low ∨ ∃ entry ∈ entries, entry.address = base) ∧
      ∀ entry ∈ entries, base ≤ entry.address := by
  induction entries generalizing low with
  | nil => exact ⟨low, rfl, UInt64.le_refl _, .inl rfl, by simp⟩
  | cons entry rest ih =>
      obtain ⟨base, hbase, hle, hmem, hall⟩ := ih (min low entry.address)
      have hmin : min low entry.address ≤ low ∧ min low entry.address ≤ entry.address ∧
          (min low entry.address = low ∨ min low entry.address = entry.address) := by
        rcases UInt64.le_total low entry.address with h | h
        · rw [show min low entry.address = low from if_pos h]
          exact ⟨UInt64.le_refl _, h, .inl rfl⟩
        · by_cases h' : low ≤ entry.address
          · rw [show min low entry.address = low from if_pos h']
            exact ⟨UInt64.le_refl _, h', .inl rfl⟩
          · rw [show min low entry.address = entry.address from if_neg h']
            exact ⟨h, UInt64.le_refl _, .inr rfl⟩
      refine ⟨base, hbase, UInt64.le_trans hle hmin.1, ?_,
        List.forall_mem_cons.mpr ⟨UInt64.le_trans hle hmin.2.1, hall⟩⟩
      rcases hmem with rfl | ⟨e, he, rfl⟩
      · exact hmin.2.2.imp id fun h => ⟨entry, List.mem_cons_self, h.symm⟩
      · exact .inr ⟨e, List.mem_cons_of_mem _ he, rfl⟩

/-- `WriteLayout` publishes the lowest address. -/
theorem foldl_lower_eq_some_iff {entries : List GuestSegment} {base : UInt64} :
    entries.foldl lower none = some base ↔
      (∃ low ∈ entries, low.address = base) ∧ ∀ entry ∈ entries, base ≤ entry.address := by
  cases entries with
  | nil => simp
  | cons first rest =>
      obtain ⟨least, hleast, hle, hmem, hall⟩ := exists_foldl_lower rest first.address
      have hfold : (first :: rest).foldl lower none = some least := hleast
      have hlow : ∃ low ∈ first :: rest, low.address = least := by
        rcases hmem with rfl | ⟨entry, hentry, rfl⟩
        · exact ⟨first, List.mem_cons_self, rfl⟩
        · exact ⟨entry, List.mem_cons_of_mem _ hentry, rfl⟩
      have hbound : ∀ entry ∈ first :: rest, least ≤ entry.address :=
        List.forall_mem_cons.mpr ⟨hle, hall⟩
      rw [hfold, Option.some_inj]
      constructor
      · rintro rfl
        exact ⟨hlow, hbound⟩
      · rintro ⟨⟨low', hlow', rfl⟩, hother⟩
        obtain ⟨low, hlow, rfl⟩ := hlow
        exact UInt64.le_antisymm (hbound low' hlow') (hother low hlow)

theorem lowest_emitGuestData (p : Program) (passthrough : String → Bool) (overrides : Overrides)
    (name : String) :
    (layoutTable (emitGuestData p passthrough overrides).out).lowest[name]?
      = (filed p.images.zipIdx name).foldl lower none := by
  rw [lowest_layoutTable]
  exact congrArg (List.foldl lower none)
    (filter_out_emitImages p passthrough overrides p.images.zipIdx name)

/-! ## Every address keeps its distance -/

/-- Adjacent segments, each with a cell for each address and placed without wrapping around,
are adjoining blocks. -/
theorem adjoining_of_adjacent {image : Image} {cellsOf : Segment → List Cell}
    {segments : List Segment} {address : UInt64} (h : Adjacent address segments)
    (hlen : ∀ segment ∈ segments, (cellsOf segment).length = segment.vmsize.toNat)
    (hwrap : ∀ segment ∈ segments,
      (image.host segment.vmaddr).toNat + segment.vmsize.toNat < 2 ^ 64) :
    Assemble.Adjoining (image.host address).toNat
      (segments.map fun segment => ⟨(image.host segment.vmaddr).toNat, cellsOf segment⟩) := by
  induction segments generalizing address with
  | nil => trivial
  | cons segment rest ih =>
      obtain ⟨rfl, hrest⟩ := h
      have hnext : (image.host (segment.vmaddr + segment.vmsize)).toNat
          = (image.host segment.vmaddr).toNat + (cellsOf segment).length := by
        rw [hlen segment List.mem_cons_self, ← Nat.mod_eq_of_lt (hwrap segment List.mem_cons_self),
          ← UInt64.toNat_add]
        simp only [Image.host]
        rw [UInt64.add_assoc, UInt64.add_comm segment.vmsize, UInt64.add_assoc]
      refine ⟨rfl, ?_⟩
      rw [Assemble.Block.stop, ← hnext]
      exact ih hrest (fun s hs => hlen s (List.mem_cons_of_mem _ hs))
        fun s hs => hwrap s (List.mem_cons_of_mem _ hs)

theorem Adjacent.head {address : UInt64} {segments : List Segment} (h : Adjacent address segments)
    (hne : segments ≠ []) : ∃ first ∈ segments.head?, first.vmaddr = address := by
  cases segments with
  | nil => exact absurd rfl hne
  | cons first rest => exact ⟨first, rfl, h.1⟩

/-- The images and their fixups are well-formed: the segments share no address, and each has
its slots and its overrides inside it and apart. -/
structure Program.Arranged (p : Program) (passthrough : String → Bool) (overrides : Overrides) :
    Prop where
  segmented : ∀ image ∈ p.images, image.Segmented
  arranged : ∀ image ∈ p.images, ∀ segment ∈ image.segments, segment.isMapped = true →
    Katabasis.Arranged image segment (segmentSlots p passthrough image segment).slots overrides

/-- Each data segment of image `i` starts in their host segment at its distance from the address
that `WriteLayout` publishes. -/
def Program.KeepsDistances (p : Program) (passthrough : String → Bool) (overrides : Overrides)
    (i : Nat) (image : Image) : Prop :=
  ∀ (m : Nat) (segment : Segment), image.segments[m]? = some segment → segment.isData = true →
    ∃ base, (layoutTable (emitGuestData p passthrough overrides).out).lowest[dataName i]?
        = some base ∧
      (image.host segment.vmaddr).toNat
        = base.toNat + segmentStart p passthrough overrides i image m

/-- The sizes of segments, one behind the other. -/
def totalSize (entries : List GuestSegment) : Nat :=
  (entries.map fun entry => entry.segment.vmsize.toNat).sum

/-- The lowest of all segments that go into the host segment of image `i`'s data is as far in
front of the first of that data as those of earlier images are long. -/
def Program.AdjoinsEarlier (p : Program) (i : Nat) (image : Image) : Prop :=
  ∀ first ∈ image.dataSegments.head?, ∃ low ∈ filed p.images.zipIdx (dataName i),
    (∀ entry ∈ filed p.images.zipIdx (dataName i), low.address ≤ entry.address) ∧
      low.address.toNat + totalSize (filed (p.images.zipIdx.take i) (dataName i))
        = (image.host first.vmaddr).toNat

instance (p : Program) (i : Nat) (image : Image) : Decidable (p.AdjoinsEarlier i image) :=
  inferInstanceAs (Decidable (∀ first ∈ image.dataSegments.head?,
    ∃ low ∈ filed p.images.zipIdx (dataName i),
      (∀ entry ∈ filed p.images.zipIdx (dataName i), low.address ≤ entry.address) ∧
        low.address.toNat + totalSize (filed (p.images.zipIdx.take i) (dataName i))
          = (image.host first.vmaddr).toNat))

section

variable {p : Program} {passthrough : String → Bool} {overrides : Overrides}
  (harranged : p.Arranged passthrough overrides)

include harranged

theorem length_segmentCells {image : Image} (himage : image ∈ p.images) (imageIndex : Nat)
    {segment : Segment} (hmem : segment ∈ image.segments) (hmapped : segment.isMapped = true) :
    (chunkCells (segmentChunks p passthrough overrides imageIndex image segment)).length
      = segment.vmsize.toNat :=
  length_emitSegment (harranged.segmented image himage) hmem hmapped
    (harranged.arranged image himage segment hmem hmapped) imageIndex

/-- A host segment has a cell for each address of the segments that go there. -/
theorem length_hostCells_emitImages {entries : List (Image × Nat)}
    (hentries : ∀ entry ∈ entries, entry.1 ∈ p.images) (name : String) :
    (hostCells (emitImages p passthrough overrides entries) name).length
      = totalSize (filed entries name) := by
  rw [emitImages, hostCells_foldl]
  show ([] ++ _ : List Cell).length = _
  rw [List.nil_append]
  induction entries with
  | nil => rfl
  | cons entry rest ih =>
      obtain ⟨himage, hrest⟩ := List.forall_mem_cons.mp hentries
      have hfiled : filed (entry :: rest) name
          = (filedSegments entry.2 entry.1 entry.1.segments name).map (fun segment =>
            ⟨entry.1, segment, name⟩) ++ filed rest name := List.flatMap_cons
      rw [List.flatMap_cons, List.length_append, ih hrest, hfiled, totalSize, totalSize,
        List.map_append, List.sum_append, List.map_map]
      refine congrArg (· + _) ?_
      rw [segmentsCells, List.length_flatMap]
      refine congrArg List.sum (List.map_congr_left fun segment hsegment => ?_)
      obtain ⟨hmem, hmapped⟩ := List.mem_filter.mp (List.mem_filter.mp hsegment).1
      exact length_segmentCells harranged himage entry.2 hmem hmapped

variable {i : Nat} {image : Image} (hp : p.images[i]? = some image)
  (hmerge : mergeData image = true)
  (hwrap : ∀ segment ∈ image.dataSegments,
    (image.host segment.vmaddr).toNat + segment.vmsize.toNat < 2 ^ 64)

include hmerge

/-- The cells in front of a data segment: those of earlier images, and the data of its own. -/
theorem segmentStart_eq (m : Nat) :
    segmentStart p passthrough overrides i image m
      = totalSize (filed (p.images.zipIdx.take i) (dataName i))
        + (segmentsCells p passthrough overrides i image
            ((image.segments.take m).filter Segment.isData)).length := by
  have hearlier : ∀ entry ∈ p.images.zipIdx.take i, entry.1 ∈ p.images := fun entry hentry =>
    List.fst_mem_of_mem_zipIdx (List.mem_of_mem_take hentry)
  rw [segmentStart, emitBefore, hostCells_emitOne, List.length_append,
    length_hostCells_emitImages harranged hearlier, filedSegments_dataName hmerge]

include hp

/-- The cells of a data segment, where the loop puts them. -/
theorem getElem?_hostCells {m : Nat} {segment : Segment} (hm : image.segments[m]? = some segment)
    (hdata : segment.isData = true) {k : Nat} (hk : k < segment.vmsize.toNat) :
    (hostCells (emitGuestData p passthrough overrides) (dataName i))[
        segmentStart p passthrough overrides i image m + k]?
      = (chunkCells (segmentChunks p passthrough overrides i image segment))[k]? := by
  have hdata' := hdata
  rw [Segment.isData, Bool.and_eq_true, bne_iff_ne] at hdata'
  have hname : hostName i (mergeData image) segment = dataName i := by
    rw [hmerge, hostName_data hdata'.2]
  have hlen := length_segmentCells harranged (List.mem_of_getElem? hp) i
    (List.mem_of_getElem? hm) hdata'.1
  obtain ⟨more, hsplit⟩ := hostCells_split hp hm hdata'.1 hname passthrough overrides
  rw [hsplit, segmentStart, List.getElem?_append_right (Nat.le_add_right _ _),
    Nat.add_sub_cancel_left, List.getElem?_append_left (hlen ▸ hk)]

include hwrap

/-- The data segments of the image are adjoining blocks. -/
theorem adjoining_dataSegments :
    ∃ address, Adjacent address image.dataSegments ∧
      Assemble.Adjoining (image.host address).toNat (image.dataSegments.map fun segment =>
        ⟨(image.host segment.vmaddr).toNat,
          chunkCells (segmentChunks p passthrough overrides i image segment)⟩) := by
  obtain ⟨address, hadj⟩ := adjacent_of_mergeData hmerge
  refine ⟨address, hadj, adjoining_of_adjacent hadj (fun segment hmem => ?_) hwrap⟩
  obtain ⟨hmem, hdata⟩ := List.mem_filter.mp hmem
  rw [Segment.isData, Bool.and_eq_true] at hdata
  exact length_segmentCells harranged (List.mem_of_getElem? hp) i hmem hdata.1

/-- Each data segment starts at its distance from the first one. -/
theorem host_eq_segmentStart {m : Nat} {segment : Segment}
    (hm : image.segments[m]? = some segment) (hdata : segment.isData = true) :
    ∃ first ∈ image.dataSegments.head?,
      (image.host segment.vmaddr).toNat
          + totalSize (filed (p.images.zipIdx.take i) (dataName i))
        = (image.host first.vmaddr).toNat + segmentStart p passthrough overrides i image m := by
  have hmem : segment ∈ image.dataSegments :=
    List.mem_filter.mpr ⟨List.mem_of_getElem? hm, hdata⟩
  have hsplit : image.dataSegments = (image.segments.take m).filter Segment.isData
      ++ segment :: (image.segments.drop (m + 1)).filter Segment.isData := by
    rw [Image.dataSegments]
    nth_rewrite 1 [segments_split hm]
    rw [List.filter_append, List.filter_cons_of_pos hdata]
  obtain ⟨address, hadj, hblocks⟩ := adjoining_dataSegments harranged hp hmerge hwrap
  obtain ⟨first, hfirst, rfl⟩ := hadj.head (List.ne_nil_of_mem hmem)
  rw [hsplit, List.map_append, List.map_cons] at hblocks
  have hstart : (image.host segment.vmaddr).toNat = (image.host first.vmaddr).toNat
      + (segmentsCells p passthrough overrides i image
          ((image.segments.take m).filter Segment.isData)).length := by
    have h := hblocks.address_eq
    rwa [List.flatMap_map] at h
  refine ⟨first, hfirst, ?_⟩
  rw [segmentStart_eq harranged hmerge, hstart]
  omega

/-- **When the merged segments keep their distances.** -/
theorem keepsDistances_iff :
    p.KeepsDistances passthrough overrides i image ↔ p.AdjoinsEarlier i image := by
  constructor
  · intro hkeeps first hfirst
    obtain ⟨hmem, hdata⟩ := List.mem_filter.mp (List.mem_of_mem_head? hfirst)
    obtain ⟨m, hm⟩ := List.mem_iff_getElem?.mp hmem
    obtain ⟨base, hbase, hdistance⟩ := hkeeps m first hm hdata
    rw [lowest_emitGuestData, foldl_lower_eq_some_iff] at hbase
    obtain ⟨⟨low, hlow, rfl⟩, hleast⟩ := hbase
    obtain ⟨first', hfirst', heq⟩ := host_eq_segmentStart harranged hp hmerge hwrap hm hdata
    obtain rfl := Option.mem_unique hfirst hfirst'
    exact ⟨low, hlow, hleast, by omega⟩
  · intro hadjoins m segment hm hdata
    obtain ⟨first, hfirst, heq⟩ := host_eq_segmentStart harranged hp hmerge hwrap hm hdata
    obtain ⟨low, hlow, hleast, hdistance⟩ := hadjoins first hfirst
    refine ⟨low.address, ?_, by omega⟩
    rw [lowest_emitGuestData, foldl_lower_eq_some_iff]
    exact ⟨⟨low, hlow, rfl⟩, hleast⟩

/-- A host segment that is the image's own has the distances. -/
theorem adjoinsEarlier_of_owns (hown : p.OwnsDataName i) : p.AdjoinsEarlier i image := by
  intro first hfirst
  have hother : ∀ entry ∈ p.images.zipIdx, entry.2 ≠ i →
      filedSegments entry.2 entry.1 entry.1.segments (dataName i) = [] := by
    intro entry hentry hne
    refine List.filter_eq_nil_iff.mpr fun segment hsegment => ?_
    obtain ⟨hmem, hmapped⟩ := List.mem_filter.mp hsegment
    simpa using hown entry hentry hne segment hmem hmapped
  have hearlier : filed (p.images.zipIdx.take i) (dataName i) = [] := by
    refine List.flatMap_eq_nil_iff.mpr fun entry hentry => ?_
    obtain ⟨k, hk, rfl⟩ := List.mem_iff_getElem.mp hentry
    have hne : (p.images.zipIdx.take i)[k].2 ≠ i := by
      have := List.length_take_le i p.images.zipIdx
      simp
      omega
    rw [hother _ (List.mem_of_mem_take hentry) hne, List.map_nil]
  have hindex : (image, i) ∈ p.images.zipIdx := by
    rwa [List.mk_mem_zipIdx_iff_getElem?]
  obtain ⟨address, hadj, hblocks⟩ := adjoining_dataSegments harranged hp hmerge hwrap
  obtain ⟨first', hfirst', rfl⟩ := hadj.head (List.ne_nil_of_mem (List.mem_of_mem_head? hfirst))
  obtain rfl := Option.mem_unique hfirst hfirst'
  refine ⟨⟨image, first, dataName i⟩, ?_, ?_, ?_⟩
  · refine List.mem_flatMap.mpr ⟨_, hindex, List.mem_map.mpr ⟨first, ?_, rfl⟩⟩
    rw [filedSegments_dataName hmerge]
    exact List.mem_of_mem_head? hfirst
  · intro entry hentry
    obtain ⟨⟨image', j⟩, hmem, hfiled⟩ := List.mem_flatMap.mp hentry
    obtain ⟨segment, hsegment, rfl⟩ := List.mem_map.mp hfiled
    by_cases hj : j = i
    · subst hj
      have hsame : p.images[j]? = some image' := List.mk_mem_zipIdx_iff_getElem?.mp hmem
      rw [hp] at hsame
      injection hsame with hsame
      subst hsame
      rw [filedSegments_dataName hmerge] at hsegment
      exact UInt64.le_iff_toNat_le.mpr (hblocks.start_le (List.mem_map_of_mem hsegment))
    · rw [hother _ hmem hj] at hsegment
      cases hsegment
  · rw [hearlier]
    rfl

end

/-- **When `EmitGuestData` keeps every guest address.** It does in the chunks of each segment. In
the host segment of an image's merged data the chunks follow one another, and they have their
distances from the address that `WriteLayout` publishes exactly if nothing else, or only what lies
right in front of them, goes there too. -/
theorem emitGuestData_keepsAddresses_iff (p : Program) (passthrough : String → Bool)
    (overrides : Overrides) (i : Nat) (image : Image) :
    (image.Segmented → ∀ segment ∈ image.segments, segment.isMapped = true →
      ∀ (imageIndex : Nat) (slots : ExtTreeMap UInt64 SlotValue),
      Arranged image segment slots overrides →
      KeepsAddresses image segment slots overrides
        (chunkCells (emitSegment imageIndex image segment
          (segmentPieces image segment slots overrides)))) ∧
    (p.Arranged passthrough overrides → p.images[i]? = some image → mergeData image = true →
      (∀ segment ∈ image.dataSegments,
        (image.host segment.vmaddr).toNat + segment.vmsize.toNat < 2 ^ 64) →
      (∀ (m : Nat) (segment : Segment), image.segments[m]? = some segment →
        segment.isData = true → ∀ k < segment.vmsize.toNat,
          (hostCells (emitGuestData p passthrough overrides) (dataName i))[
              segmentStart p passthrough overrides i image m + k]?
            = (chunkCells (segmentChunks p passthrough overrides i image segment))[k]?) ∧
      (p.KeepsDistances passthrough overrides i image ↔ p.AdjoinsEarlier i image)) := by
  constructor
  · intro hi segment hmem hmapped imageIndex slots ha
    exact emitSegment_keepsAddresses hi hmem hmapped ha imageIndex
  · intro harranged hp hmerge hwrap
    refine ⟨fun m segment hm hdata k hk => ?_, keepsDistances_iff harranged hp hmerge hwrap⟩
    exact getElem?_hostCells harranged hp hmerge hm hdata hk

/-- An image of two adjacent data segments, with a rebased slot in the first one. -/
def twoSegments : Image where
  slide := 0x1000
  segments := [⟨"__TEXT", 0, 4, 0, 4, 5⟩, ⟨"__DATA", 4, 24, 4, 8, 3⟩, ⟨"__BSS", 28, 8, 0, 0, 3⟩]
  rebases := (∅ : ExtTreeMap UInt64 UInt64).insert 8 28
  data := [0, 1, 2, 3, 4, 5, 6, 7, 8, 9, 10, 11]

/-- An override in the first data segment, a global of its own. -/
theorem size_oneOverride : ([.int32 1, .int32 2].map Constant.size).sum = (8 : UInt64).toNat :=
  rfl

theorem size_pos_oneOverride : (0 : UInt64) < 8 := by decide

def oneOverride : Overrides :=
  (∅ : Overrides).insert (0x1000 + 18)
    ⟨[.int32 1, .int32 2], 8, some "object", size_oneOverride, size_pos_oneOverride⟩

/-- Segments in ascending order share no address. -/
theorem segmented_of_ascending {image : Image}
    (hbounded : ∀ s ∈ image.segments, s.vmaddr.toNat + s.vmsize.toNat < 2 ^ 64)
    (hascending : image.segments.Pairwise fun s t => s.vmaddr + s.vmsize ≤ t.vmaddr) :
    image.Segmented where
  bounded := hbounded
  apart := by
    refine hascending.imp fun {s t} hst a ha => ?_
    simp only [Segment.contains, decide_eq_true_eq, decide_eq_false_iff_not,
      UInt64.le_iff_toNat_le, UInt64.lt_iff_toNat_lt] at hst ha ⊢
    omega

theorem twoSegments_segmented : twoSegments.Segmented :=
  segmented_of_ascending (by decide) (by decide)

theorem twoSegments_arranged :
    Program.Arranged { images := [twoSegments] } (fun _ => false) oneOverride where
  segmented := List.forall_mem_singleton.mpr twoSegments_segmented
  arranged := by decide

theorem emitGuestData_keepsAddresses_iff_twoSegments :
    KeepsAddresses twoSegments ⟨"__DATA", 4, 24, 4, 8, 3⟩
        ((∅ : ExtTreeMap UInt64 SlotValue).insert 8 (.value 0x101c)) oneOverride
        (chunkCells (emitSegment 0 twoSegments ⟨"__DATA", 4, 24, 4, 8, 3⟩
          (segmentPieces twoSegments ⟨"__DATA", 4, 24, 4, 8, 3⟩
            ((∅ : ExtTreeMap UInt64 SlotValue).insert 8 (.value 0x101c)) oneOverride))) ∧
    Program.KeepsDistances { images := [twoSegments] } (fun _ => false) oneOverride 0
      twoSegments := by
  obtain ⟨hown, hmerged⟩ := emitGuestData_keepsAddresses_iff { images := [twoSegments] }
    (fun _ => false) oneOverride 0 twoSegments
  refine ⟨hown twoSegments_segmented _ (.tail _ (.head _)) (by decide) 0 _ (by decide), ?_⟩
  obtain ⟨-, hiff⟩ := hmerged twoSegments_arranged rfl (by decide) (by decide)
  refine hiff.mpr (adjoinsEarlier_of_owns twoSegments_arranged rfl (by decide) (by decide) ?_)
  exact ownsDataName_of_plain 0 (by decide)

/-! ### A name of two images -/

/-- An image of code. -/
def codeImage (slide : UInt64) : Image where
  slide := slide
  segments := [⟨"__TEXT", 0, 4, 0, 4, 5⟩]

/-- An image with a hole between its data segments. -/
def holedImage : Image where
  slide := 0x200000
  segments := [⟨"__TEXT", 0, 4, 0, 4, 5⟩, ⟨"__DATA", 4, 8, 4, 0, 3⟩, ⟨"__0DATA", 16, 8, 4, 0, 3⟩]

/-- The image whose data the host segment is named after. -/
def tenthImage : Image where
  slide := 0xB00000
  segments := [⟨"__TEXT", 0, 4, 0, 4, 5⟩, ⟨"__DATA", 4, 8, 4, 0, 3⟩]

/-- Eleven images, of which number 1 has the hole and number 10 the data. -/
def sharedName : Program where
  images := [codeImage 0x100000, holedImage, codeImage 0x300000, codeImage 0x400000,
    codeImage 0x500000, codeImage 0x600000, codeImage 0x700000, codeImage 0x800000,
    codeImage 0x900000, codeImage 0xA00000, tenthImage]

theorem sharedName_arranged : sharedName.Arranged (fun _ => false) ∅ where
  segmented := by
    have h : ∀ image ∈ sharedName.images,
        (∀ s ∈ image.segments, s.vmaddr.toNat + s.vmsize.toNat < 2 ^ 64) ∧
          image.segments.Pairwise fun s t => s.vmaddr + s.vmsize ≤ t.vmaddr := by decide
    exact fun image himage => segmented_of_ascending (h image himage).1 (h image himage).2
  arranged := by decide

/-- The segment `__0DATA` of image 1 is in front of the data of image 10, in `__X10DATA`. -/
theorem not_keepsDistances_shared :
    sharedName.Arranged (fun _ => false) ∅ ∧ sharedName.images[10]? = some tenthImage ∧
      mergeData tenthImage = true ∧
      (∀ segment ∈ tenthImage.dataSegments,
        (tenthImage.host segment.vmaddr).toNat + segment.vmsize.toNat < 2 ^ 64) ∧
      ¬ sharedName.KeepsDistances (fun _ => false) ∅ 10 tenthImage := by
  refine ⟨sharedName_arranged, rfl, by decide, by decide, ?_⟩
  rw [keepsDistances_iff sharedName_arranged rfl (by decide) (by decide)]
  decide

end Katabasis
