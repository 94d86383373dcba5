import Katabasis.Lib.LittleEndian
import Katabasis.Xlate.HostSegments

set_option autoImplicit false

/-! # The emitted memory is the loaded memory

A loader maps an image's segments, and then writes a pointer at each address that has a fixup: for
a rebase the address of something in the image where it was placed, for a bind the address of the
symbol. `EmitGuestData` does that work ahead of time. This file says what the loader leaves in
memory (`Program.loaded`), and that the bytes of the emitted chunks are just that, wherever no
override takes the place of the image's data.
-/

namespace Katabasis

open Std

/-! ## The bytes of constants -/

/-- The bytes of a constant, where `hostAddress` says where the host has its symbols. -/
def Constant.bytes (hostAddress : String → UInt32) : Constant → List UInt8
  | int32 value => LittleEndian.toBytes 4 value.toNat
  | int64 value => LittleEndian.toBytes 8 value.toNat
  | address symbol addend => LittleEndian.toBytes 4 (hostAddress symbol + addend).toNat
  | wideAddress symbol addend =>
      LittleEndian.toBytes 4 (hostAddress symbol + addend).toNat ++ LittleEndian.toBytes 4 0
  | zeros count => List.replicate count 0
  | data bytes => bytes

/-- The byte that a cell stands for. -/
def Cell.value (hostAddress : String → UInt32) : Cell → UInt8
  | byte b => b
  | part _ value index => ((value.bytes hostAddress)[index]?).getD 0

/-- The pointer that a slot holds. -/
def SlotValue.word (hostAddress : String → UInt32) : SlotValue → UInt64
  | value v => v
  | host symbol addend => (hostAddress symbol + addend).toUInt64

theorem SlotValue.bytes_constant (hostAddress : String → UInt32) (v : SlotValue) :
    v.constant.bytes hostAddress = LittleEndian.toBytes 8 (v.word hostAddress).toNat := by
  cases v with
  | value v => rfl
  | host symbol addend =>
      -- the upper four bytes of a host pointer are zero
      have hlt := (hostAddress symbol + addend).toNat_lt
      have hhigh : (hostAddress symbol + addend).toNat / 256 ^ 4 = 0 := by omega
      rw [SlotValue.word, UInt32.toNat_toUInt64, LittleEndian.toBytes_add 4 4, hhigh]
      rfl

/-! ## The loader -/

namespace Program

variable (p : Program) (passthrough : String → Bool) (hostAddress : String → UInt32)

/-- What the loader writes for a bind: the address in a guest image, or the host's; zero where
the symbol stays unbound. -/
def boundWord (bind : Bind) : UInt64 :=
  match p.exports.find bind.library bind.symbol with
  | some target => target + bind.addend
  | none =>
      if passthrough bind.symbol then (hostAddress bind.symbol + bind.addend.toUInt32).toUInt64
      else 0

/-- What the loader writes for a rebase. -/
def rebasedWord (image : Image) (target : UInt64) : UInt64 :=
  image.host (target &&& 0x00FFFFFFFFFFFFFF)

def fixup (entry : UInt64 × UInt64) : Assemble.Block UInt8 :=
  ⟨entry.1.toNat, LittleEndian.toBytes 8 entry.2.toNat⟩

/-- The writes of the loader, the rebases first. -/
def fixups (image : Image) : List (Assemble.Block UInt8) :=
  (image.rebases.toList.map fun entry => fixup (entry.1, rebasedWord image entry.2)) ++
    image.binds.toList.map fun entry =>
      fixup (entry.1, p.boundWord passthrough hostAddress entry.2)

/-- **The loaded image**: its bytes, and the fixups written over them. -/
def loaded (image : Image) : Nat → UInt8 :=
  Assemble.writeAll (fun a => image.byteAt (UInt64.ofNat a))
    (p.fixups passthrough hostAddress image)

end Program

/-! ## The slots of a segment -/

/-- The slot of a rebase, where its target is in the image. -/
def rebasedSlot (image : Image) (target : UInt64) : Option SlotValue :=
  let value := target &&& 0x00FFFFFFFFFFFFFF
  if value < image.preferredBase ∨ value ≥ image.imageEnd then none
  else some (.value (image.host value))

/-- The slot of a bind, where it is answered or may stay unbound. -/
def boundSlot (p : Program) (passthrough : String → Bool) (bind : Bind) : Option SlotValue :=
  match p.exports.find bind.library bind.symbol with
  | some target => some (.value (target + bind.addend))
  | none =>
      if passthrough bind.symbol then some (.host bind.symbol bind.addend.toUInt32)
      else if bind.symbol = "dyld_stub_binder" ∨ bind.weakImport ∨ isTrap bind.symbol then
        some (.value 0)
      else none

section

variable {segment : Segment} {ν : Type} {step : Slots → UInt64 × ν → Slots}
  {slot : ν → Option SlotValue}

/-- A step that fills the slot of an entry, for the entries in a segment, and fails where there is
none to fill. -/
structure Fills (segment : Segment) (slot : ν → Option SlotValue)
    (step : Slots → UInt64 × ν → Slots) : Prop where
  outside : ∀ acc entry, segment.contains entry.1 = false → step acc entry = acc
  filled : ∀ acc entry v, segment.contains entry.1 = true → slot entry.2 = some v →
    (step acc entry).slots = acc.slots.insert entry.1 v ∧ (step acc entry).ok = acc.ok
  failed : ∀ acc entry, segment.contains entry.1 = true → slot entry.2 = none →
    (step acc entry).ok = false

theorem Fills.foldl (h : Fills segment slot step) (entries : List (UInt64 × ν)) (acc : Slots)
    (hok : (entries.foldl step acc).ok = true) :
    acc.ok = true ∧
      (∀ entry ∈ entries, segment.contains entry.1 = true → (slot entry.2).isSome) ∧
      (entries.foldl step acc).slots = Maps.mergeList
        (fun k v => if segment.contains k then slot v else none) entries acc.slots := by
  induction entries generalizing acc with
  | nil => exact ⟨hok, by simp, rfl⟩
  | cons entry rest ih =>
      rw [List.foldl_cons] at hok
      obtain ⟨hacc, hall, hslots⟩ := ih (step acc entry) hok
      rw [List.foldl_cons, hslots]
      simp only [Maps.mergeList, List.foldl_cons, List.forall_mem_cons]
      cases hin : segment.contains entry.1 with
      | false =>
          rw [h.outside acc entry hin] at hacc ⊢
          exact ⟨hacc, ⟨by simp, hall⟩, by simp⟩
      | true =>
          cases hslot : slot entry.2 with
          | none =>
              rw [h.failed acc entry hin hslot] at hacc
              exact absurd hacc Bool.false_ne_true
          | some v =>
              obtain ⟨hinsert, hsame⟩ := h.filled acc entry v hin hslot
              rw [hsame] at hacc
              exact ⟨hacc, ⟨by simp, hall⟩, by simp [hinsert]⟩

end

theorem rebaseSlot_fills (image : Image) (segment : Segment) :
    Fills segment (rebasedSlot image) (rebaseSlot image segment) where
  outside acc entry h := by simp [rebaseSlot, h]
  filled acc entry v h hslot := by
    unfold rebasedSlot at hslot
    simp only at hslot
    split at hslot
    case isTrue => cases hslot
    case isFalse hrange =>
      cases hslot
      simp [rebaseSlot, h, hrange]
  failed acc entry h hslot := by
    unfold rebasedSlot at hslot
    simp only at hslot
    split at hslot
    case isTrue hrange => simp [rebaseSlot, h, hrange]
    case isFalse => cases hslot

theorem bindSlot_fills (p : Program) (passthrough : String → Bool) (image : Image)
    (segment : Segment) :
    Fills segment (boundSlot p passthrough) (bindSlot p passthrough image segment) where
  outside acc entry h := by simp [bindSlot, h]
  filled acc entry v h hslot := by
    unfold boundSlot at hslot
    cases hfind : p.exports.find entry.2.library entry.2.symbol with
    | some target =>
        simp only [hfind, Option.some.injEq] at hslot
        simp [bindSlot, h, hfind, ← hslot]
    | none =>
        simp only [hfind] at hslot
        split at hslot
        case isTrue hpass =>
          cases hslot
          simp [bindSlot, h, hfind, hpass]
        case isFalse hpass =>
          split at hslot
          case isTrue hunbound =>
            cases hslot
            simp [bindSlot, h, hfind, hpass, hunbound]
          case isFalse => cases hslot
  failed acc entry h hslot := by
    unfold boundSlot at hslot
    cases hfind : p.exports.find entry.2.library entry.2.symbol with
    | some target => simp [hfind] at hslot
    | none =>
        simp only [hfind] at hslot
        split at hslot
        case isTrue => cases hslot
        case isFalse hpass =>
          split at hslot
          case isTrue => cases hslot
          case isFalse hunbound => simp [bindSlot, h, hfind, hpass, hunbound]

section

variable {p : Program} {passthrough : String → Bool} {image : Image} {segment : Segment}

/-- **The slots of a segment**, key by key: a bind is written over a rebase, and nothing else is a
slot. -/
theorem getElem?_segmentSlots (hok : (segmentSlots p passthrough image segment).ok = true)
    (k : UInt64) :
    (segmentSlots p passthrough image segment).slots[k]?
      = if segment.contains k then
          (image.binds[k]?.bind (boundSlot p passthrough)).or
            (image.rebases[k]?.bind (rebasedSlot image))
        else none := by
  obtain ⟨hok', -, hbinds⟩ := (bindSlot_fills p passthrough image segment).foldl _ _ hok
  obtain ⟨-, -, hrebases⟩ := (rebaseSlot_fills image segment).foldl _ _ hok'
  rw [segmentSlots, hbinds, hrebases, ← Maps.merge, ← Maps.merge, Maps.getElem?_merge,
    Maps.getElem?_merge]
  cases segment.contains k with
  | true => simp
  | false => simp

/-- Where the slots of a segment are all filled, every fixup in it is one. -/
theorem slot_of_fixup (hok : (segmentSlots p passthrough image segment).ok = true) {k : UInt64}
    (hk : segment.contains k = true) :
    (∀ target, image.rebases[k]? = some target → (rebasedSlot image target).isSome) ∧
      ∀ bind, image.binds[k]? = some bind → (boundSlot p passthrough bind).isSome := by
  obtain ⟨hok', hbinds, -⟩ := (bindSlot_fills p passthrough image segment).foldl _ _ hok
  obtain ⟨-, hrebases, -⟩ := (rebaseSlot_fills image segment).foldl _ _ hok'
  constructor
  · intro target htarget
    exact hrebases (k, target) (ExtTreeMap.mem_toList_iff_getElem?_eq_some.mpr htarget) hk
  · intro bind hbind
    exact hbinds (k, bind) (ExtTreeMap.mem_toList_iff_getElem?_eq_some.mpr hbind) hk

variable (hostAddress : String → UInt32)

theorem word_rebasedSlot {target : UInt64} {v : SlotValue} (h : rebasedSlot image target = some v) :
    v.word hostAddress = Program.rebasedWord image target := by
  unfold rebasedSlot at h
  simp only at h
  split at h
  case isTrue => cases h
  case isFalse =>
    cases h
    rfl

theorem word_boundSlot {bind : Bind} {v : SlotValue} (h : boundSlot p passthrough bind = some v) :
    v.word hostAddress = p.boundWord passthrough hostAddress bind := by
  unfold boundSlot at h
  unfold Program.boundWord
  split at h
  case h_1 target _ =>
    cases h
    rfl
  case h_2 =>
    split at h
    case isTrue hpass =>
      cases h
      rw [if_pos hpass]
      rfl
    case isFalse hpass =>
      rw [if_neg hpass]
      split at h
      case isTrue =>
        cases h
        rfl
      case isFalse => cases h

end

/-! ## The loader's writes -/

namespace Program

/-- The image has a fixup at the address. -/
def FixedUp (image : Image) (k : UInt64) : Prop := k ∈ image.rebases ∨ k ∈ image.binds

theorem fixup_covers {entry : UInt64 × UInt64} {a : Nat} :
    (fixup entry).Covers a ↔ entry.1.toNat ≤ a ∧ a < entry.1.toNat + 8 := by
  simp [fixup, Assemble.Block.Covers, Assemble.Block.stop]

theorem mem_fixups {p : Program} {passthrough : String → Bool} {hostAddress : String → UInt32}
    {image : Image} {block : Assemble.Block UInt8}
    (h : block ∈ p.fixups passthrough hostAddress image) :
    ∃ k word, block = fixup (k, word) ∧ FixedUp image k := by
  rcases List.mem_append.mp h with h | h
  · obtain ⟨entry, hentry, rfl⟩ := List.mem_map.mp h
    have hget := ExtTreeMap.mem_toList_iff_getElem?_eq_some.mp hentry
    exact ⟨entry.1, _, rfl, .inl (by simp [ExtTreeMap.mem_iff_isSome_getElem?, hget])⟩
  · obtain ⟨entry, hentry, rfl⟩ := List.mem_map.mp h
    have hget := ExtTreeMap.mem_toList_iff_getElem?_eq_some.mp hentry
    exact ⟨entry.1, _, rfl, .inr (by simp [ExtTreeMap.mem_iff_isSome_getElem?, hget])⟩

/-- The writes at an entry of a map are in front of writes at other addresses only. -/
theorem split_fixups {ν : Type} (m : ExtTreeMap UInt64 ν) (word : ν → UInt64) {k : UInt64} {v : ν}
    (h : m[k]? = some v) :
    ∃ before after, m.toList.map (fun entry => fixup (entry.1, word entry.2))
        = before ++ fixup (k, word v) :: after ∧
      ∀ block ∈ after, block.address ≠ k.toNat := by
  have hmem := ExtTreeMap.mem_toList_iff_getElem?_eq_some.mpr h
  obtain ⟨before, after, hsplit⟩ := List.append_of_mem hmem
  have hdistinct := Maps.distinct_toList m
  rw [hsplit, List.pairwise_append, List.pairwise_cons] at hdistinct
  refine ⟨before.map fun entry => fixup (entry.1, word entry.2),
    after.map fun entry => fixup (entry.1, word entry.2), by simp [hsplit], ?_⟩
  intro block hblock heq
  obtain ⟨entry, hentry, rfl⟩ := List.mem_map.mp hblock
  exact hdistinct.2.1.1 entry hentry (UInt64.toNat_inj.mp heq).symm

section

variable {p : Program} {passthrough : String → Bool} {hostAddress : String → UInt32}
  {image : Image} {a : Nat}

theorem loaded_of_not_covered
    (h : ∀ k, FixedUp image k → a < k.toNat ∨ k.toNat + 8 ≤ a) :
    p.loaded passthrough hostAddress image a = image.byteAt (UInt64.ofNat a) := by
  apply Assemble.writeAll_of_not_covers
  intro block hblock hcovers
  obtain ⟨k, word, rfl, hk⟩ := mem_fixups hblock
  obtain ⟨hle, hlt⟩ := fixup_covers.mp hcovers
  have := h k hk
  dsimp only at hle hlt
  omega

/-- At an address that one fixup alone covers, the loader leaves a byte of its word: of the bind's,
where there is one. -/
theorem loaded_of_covered {k : UInt64} (hk : k.toNat ≤ a ∧ a < k.toNat + 8)
    (hother : ∀ k', FixedUp image k' → k'.toNat ≤ a → a < k'.toNat + 8 → k' = k) {word : UInt64}
    (hword : (image.binds[k]?.map (p.boundWord passthrough hostAddress)).or
      (image.rebases[k]?.map (rebasedWord image)) = some word) :
    some (p.loaded passthrough hostAddress image a)
      = (LittleEndian.toBytes 8 word.toNat)[a - k.toNat]? := by
  have hcovers : (fixup (k, word)).Covers a := fixup_covers.mpr hk
  -- a write elsewhere does not cover the address
  have hno : ∀ block ∈ p.fixups passthrough hostAddress image, block.address ≠ k.toNat →
      ¬ block.Covers a := by
    intro block hblock hne hcov
    obtain ⟨k', word', rfl, hk'⟩ := mem_fixups hblock
    obtain ⟨hle, hlt⟩ := fixup_covers.mp hcov
    rw [hother k' hk' hle hlt] at hne
    exact hne rfl
  cases hbind : image.binds[k]? with
  | some bind =>
      rw [hbind, Option.map_some, Option.some_or, Option.some_inj] at hword
      obtain ⟨before, after, hsplit, hafter⟩ :=
        split_fixups image.binds (p.boundWord passthrough hostAddress) hbind
      rw [hword] at hsplit
      have hall : p.fixups passthrough hostAddress image
          = (image.rebases.toList.map (fun entry => fixup (entry.1, rebasedWord image entry.2))
              ++ before) ++ fixup (k, word) :: after := by
        rw [fixups, hsplit, List.append_assoc]
      rw [loaded, hall]
      apply Assemble.writeAll_of_last hcovers
      intro block hblock
      apply hno block _ (hafter block hblock)
      rw [hall]
      exact List.mem_append_right _ (List.mem_cons_of_mem _ hblock)
  | none =>
      rw [hbind, Option.map_none, Option.none_or, Option.map_eq_some_iff] at hword
      obtain ⟨target, hrebase, hword⟩ := hword
      obtain ⟨before, after, hsplit, hafter⟩ :=
        split_fixups image.rebases (rebasedWord image) hrebase
      rw [hword] at hsplit
      have hall : p.fixups passthrough hostAddress image
          = before ++ fixup (k, word) :: (after ++ image.binds.toList.map fun entry =>
              fixup (entry.1, p.boundWord passthrough hostAddress entry.2)) := by
        rw [fixups, hsplit, List.append_assoc, List.cons_append]
      rw [loaded, hall]
      apply Assemble.writeAll_of_last hcovers
      intro block hblock
      apply hno block
      · rw [hall]
        exact List.mem_append_right _ (List.mem_cons_of_mem _ hblock)
      · rcases List.mem_append.mp hblock with hblock | hblock
        · exact hafter block hblock
        · obtain ⟨entry, hentry, rfl⟩ := List.mem_map.mp hblock
          intro heq
          have hget := ExtTreeMap.mem_toList_iff_getElem?_eq_some.mp hentry
          rw [UInt64.toNat_inj.mp heq, hbind] at hget
          cases hget

end

end Program

/-! ## The emitted bytes -/

section

variable (p : Program) (passthrough : String → Bool) (overrides : Overrides)

theorem ok_emitOne {imageIndex : Nat} {image : Image} {segments : List Segment} {acc : GuestData}
    (h : (segments.foldl (emitOne p passthrough overrides imageIndex image) acc).ok = true) :
    acc.ok = true ∧ ∀ segment ∈ segments, segment.isMapped = true →
      (segmentSlots p passthrough image segment).ok = true := by
  induction segments generalizing acc with
  | nil => exact ⟨h, by simp⟩
  | cons segment rest ih =>
      obtain ⟨hacc, hrest⟩ := ih h
      rw [emitOne] at hacc
      rw [List.forall_mem_cons]
      cases hmapped : segment.isMapped with
      | false =>
          rw [hmapped] at hacc
          exact ⟨hacc, by simp, hrest⟩
      | true =>
          rw [hmapped] at hacc
          obtain ⟨hok, hslots⟩ := Bool.and_eq_true_iff.mp hacc
          exact ⟨hok, fun _ => hslots, hrest⟩

/-- When `EmitGuestData` succeeds, the slots of all segments are filled. -/
theorem ok_emitGuestData (h : (emitGuestData p passthrough overrides).ok = true) :
    ∀ image ∈ p.images, ∀ segment ∈ image.segments, segment.isMapped = true →
      (segmentSlots p passthrough image segment).ok = true := by
  have hfold : ∀ (images : List (Image × Nat)) (acc : GuestData),
      (images.foldl (fun acc entry =>
        entry.1.segments.foldl (emitOne p passthrough overrides entry.2 entry.1) acc) acc).ok = true →
      acc.ok = true ∧ ∀ entry ∈ images, ∀ segment ∈ entry.1.segments, segment.isMapped = true →
        (segmentSlots p passthrough entry.1 segment).ok = true := by
    intro images
    induction images with
    | nil => exact fun acc h => ⟨h, by simp⟩
    | cons first rest ih =>
        intro acc h
        obtain ⟨hacc, hrest⟩ := ih _ h
        obtain ⟨hok, hfirst⟩ := ok_emitOne p passthrough overrides hacc
        exact ⟨hok, List.forall_mem_cons.mpr ⟨hfirst, hrest⟩⟩
  intro image himage
  obtain ⟨i, hi, hget⟩ := List.getElem_of_mem himage
  have hmem : (image, i) ∈ p.images.zipIdx := by
    rw [List.mem_zipIdx_iff_getElem?, List.getElem?_eq_getElem hi, hget]
  exact (hfold _ _ h).2 (image, i) hmem

end

section

variable {p : Program} {passthrough : String → Bool} {overrides : Overrides} {image : Image}
  (hi : image.Segmented)
  (hok : ∀ segment ∈ image.segments, segment.isMapped = true →
    (segmentSlots p passthrough image segment).ok = true)
  (ha : ∀ segment ∈ image.segments, segment.isMapped = true →
    Arranged image segment (segmentSlots p passthrough image segment).slots overrides)
  (hfix : ∀ k, Program.FixedUp image k →
    ∃ segment ∈ image.segments, segment.isMapped = true ∧ segment.contains k = true)

include hi

/-- No two mapped segments have an address in common. -/
theorem segment_unique {s t : Segment} (hs : s ∈ image.segments) (hsm : s.isMapped = true)
    (ht : t ∈ image.segments) (htm : t.isMapped = true) {a : Nat}
    (has : s.vmaddr.toNat ≤ a ∧ a < s.stop) (hat : t.vmaddr.toNat ≤ a ∧ a < t.stop) : s = t := by
  have hlt : a < 2 ^ 64 := has.2.trans (hi.bounded s hs)
  have htoNat : (UInt64.ofNat a).toNat = a := UInt64.toNat_ofNat_of_lt' hlt
  have hcs : s.contains (UInt64.ofNat a) = true := by
    rw [Segment.contains_iff (hi.bounded s hs), htoNat]
    exact has
  have hct : t.contains (UInt64.ofNat a) = true := by
    rw [Segment.contains_iff (hi.bounded t ht), htoNat]
    exact hat
  have hfind := segmentForVM_eq hi hs hsm hcs
  rw [segmentForVM_eq hi ht htm hct] at hfind
  exact (Option.some.inj hfind).symm

omit hi in
include hok in
/-- A fixup in a segment has a slot there. -/
theorem exists_slot {segment : Segment} (hmem : segment ∈ image.segments)
    (hmapped : segment.isMapped = true) {k : UInt64} (hk : Program.FixedUp image k)
    (hc : segment.contains k = true) :
    ∃ v, (k, v) ∈ (segmentSlots p passthrough image segment).slots.toList := by
  have hsok := hok segment hmem hmapped
  obtain ⟨hrebase, hbind⟩ := slot_of_fixup hsok hc
  have hsome : ((segmentSlots p passthrough image segment).slots[k]?).isSome := by
    rw [getElem?_segmentSlots hsok, if_pos hc, Option.isSome_or, Bool.or_eq_true]
    rcases hk with hk | hk
    · right
      obtain ⟨target, htarget⟩ := Option.isSome_iff_exists.mp
        (ExtTreeMap.mem_iff_isSome_getElem?.mp hk)
      rw [htarget, Option.bind_some]
      exact hrebase target htarget
    · left
      obtain ⟨bind, hget⟩ := Option.isSome_iff_exists.mp
        (ExtTreeMap.mem_iff_isSome_getElem?.mp hk)
      rw [hget, Option.bind_some]
      exact hbind bind hget
  obtain ⟨v, hv⟩ := Option.isSome_iff_exists.mp hsome
  exact ⟨v, ExtTreeMap.mem_toList_iff_getElem?_eq_some.mpr hv⟩

include hok ha hfix

/-- A fixup that covers an address of a segment has its slot in that segment. -/
theorem slot_covering {segment : Segment} (hmem : segment ∈ image.segments)
    (hmapped : segment.isMapped = true) {a : Nat}
    (hin : segment.vmaddr.toNat ≤ a ∧ a < segment.stop) {k : UInt64}
    (hk : Program.FixedUp image k) (hcov : k.toNat ≤ a ∧ a < k.toNat + 8) :
    ∃ v, (k, v) ∈ (segmentSlots p passthrough image segment).slots.toList := by
  obtain ⟨s, hs, hsm, hsc⟩ := hfix k hk
  obtain ⟨v, hv⟩ := exists_slot hok hs hsm hk hsc
  have hinside := (ha s hs hsm).slot_inside (k, v) hv
  dsimp only at hinside
  have heq : s = segment := segment_unique hi hs hsm hmem hmapped (by omega) hin
  rw [← heq]
  exact ⟨v, hv⟩

theorem value_emitSegment {segment : Segment} (hmem : segment ∈ image.segments)
    (hmapped : segment.isMapped = true) (hostAddress : String → UInt32) (imageIndex : Nat) {a : Nat}
    (hin : segment.vmaddr.toNat ≤ a ∧ a < segment.stop)
    (hun : Uncovered image segment overrides a) :
    ((chunkCells (segmentChunks p passthrough overrides imageIndex image segment))[a
        - segment.vmaddr.toNat]?).map (Cell.value hostAddress)
      = some (p.loaded passthrough hostAddress image a) := by
  have harranged := ha segment hmem hmapped
  have hkeeps := emitSegment_keepsAddresses hi hmem hmapped harranged imageIndex
  by_cases hslot : ∃ slot ∈ (segmentSlots p passthrough image segment).slots.toList,
      slot.1.toNat ≤ a ∧ a < slot.1.toNat + 8
  · obtain ⟨⟨k, v⟩, hkv, hcov⟩ := hslot
    dsimp only at hcov
    -- the slot as a whole is outside the overrides
    have hunk : Uncovered image segment overrides k.toNat := by
      intro piece hpiece
      have := hun piece hpiece
      have hor := harranged.slot_or_override (k, v) hkv piece hpiece
      dsimp only at hor
      omega
    have hcell := (hkeeps.slot (k, v) hkv hunk (a - k.toNat) (by omega)
      (a - segment.vmaddr.toNat)).mpr (by dsimp only; omega)
    have hcell' : (chunkCells (segmentChunks p passthrough overrides imageIndex image segment))[a
        - segment.vmaddr.toNat]? = some (.part k v.constant (a - k.toNat)) := hcell
    -- the loader writes the slot's word there, and nothing else
    have hget := ExtTreeMap.mem_toList_iff_getElem?_eq_some.mp hkv
    have hsok := hok segment hmem hmapped
    rw [getElem?_segmentSlots hsok] at hget
    have hc : segment.contains k = true := by
      by_contra hnot
      rw [if_neg hnot] at hget
      cases hget
    rw [if_pos hc] at hget
    have hword : (image.binds[k]?.map (p.boundWord passthrough hostAddress)).or
        (image.rebases[k]?.map (Program.rebasedWord image)) = some (v.word hostAddress) := by
      cases hbind : image.binds[k]? with
      | some bind =>
          obtain ⟨w, hw⟩ := Option.isSome_iff_exists.mp ((slot_of_fixup hsok hc).2 bind hbind)
          rw [hbind, Option.bind_some, hw, Option.some_or, Option.some_inj] at hget
          rw [Option.map_some, Option.some_or, ← hget, word_boundSlot hostAddress hw]
      | none =>
          rw [hbind, Option.bind_none, Option.none_or, Option.bind_eq_some_iff] at hget
          obtain ⟨target, htarget, hw⟩ := hget
          rw [htarget, Option.map_none, Option.none_or, Option.map_some,
            word_rebasedSlot hostAddress hw]
    have hother : ∀ k', Program.FixedUp image k' → k'.toNat ≤ a → a < k'.toNat + 8 → k' = k := by
      intro k' hk' hle hlt
      obtain ⟨v', hv'⟩ := slot_covering hi hok ha hfix hmem hmapped hin hk' ⟨hle, hlt⟩
      have h1 := harranged.slots_apart (k', v') hv' (k, v) hkv
      have h2 := harranged.slots_apart (k, v) hkv (k', v') hv'
      dsimp only at h1 h2
      exact UInt64.toNat_inj.mp (by omega)
    have hloaded := Program.loaded_of_covered hcov hother hword
    rw [hcell', Option.map_some, hloaded, ← SlotValue.bytes_constant, Cell.value,
      List.getElem?_eq_getElem, Option.getD_some]
    rw [SlotValue.bytes_constant, LittleEndian.length_toBytes]
    omega
  · have hno : ∀ slot ∈ (segmentSlots p passthrough image segment).slots.toList,
        a < slot.1.toNat ∨ slot.1.toNat + 8 ≤ a := by
      intro slot hs
      by_contra hcov
      exact hslot ⟨slot, hs, by omega⟩
    have hcell : (chunkCells (segmentChunks p passthrough overrides imageIndex image segment))[a
        - segment.vmaddr.toNat]? = some (.byte (image.byteAt (UInt64.ofNat a))) :=
      hkeeps.byte a hin.1 hin.2 hun hno
    rw [hcell, Option.map_some, Cell.value, Program.loaded_of_not_covered]
    intro k hk
    by_contra hcov
    obtain ⟨v, hv⟩ := slot_covering hi hok ha hfix hmem hmapped hin hk (by omega)
    have := hno (k, v) hv
    dsimp only at this
    omega

end

/-- **What `EmitGuestData` emits is what a loader leaves in memory.** Where it succeeds, the chunks
of every mapped segment are placed in the segment's host segment, and outside the overrides their
bytes are those of the loaded image: the fixups written over the bytes of the file, and the zeros
behind them. -/
theorem emitGuestData_loads {p : Program} {passthrough : String → Bool} {overrides : Overrides}
    (hok : (emitGuestData p passthrough overrides).ok = true) {i : Nat} {image : Image}
    (hp : p.images[i]? = some image) (hi : image.Segmented)
    (ha : ∀ segment ∈ image.segments, segment.isMapped = true →
      Arranged image segment (segmentSlots p passthrough image segment).slots overrides)
    (hfix : ∀ k, Program.FixedUp image k →
      ∃ segment ∈ image.segments, segment.isMapped = true ∧ segment.contains k = true)
    (hostAddress : String → UInt32) {segment : Segment} (hmem : segment ∈ image.segments)
    (hmapped : segment.isMapped = true) :
    (∀ chunk ∈ segmentChunks p passthrough overrides i image segment,
      (hostName i (mergeData image) segment, chunk)
        ∈ (emitGuestData p passthrough overrides).placed) ∧
    ∀ a, segment.vmaddr.toNat ≤ a → a < segment.stop → Uncovered image segment overrides a →
      ((chunkCells (segmentChunks p passthrough overrides i image segment))[a
          - segment.vmaddr.toNat]?).map (Cell.value hostAddress)
        = some (p.loaded passthrough hostAddress image a) := by
  have himage : image ∈ p.images := List.mem_of_getElem? hp
  refine ⟨fun chunk hchunk => ?_, fun a h1 h2 hun => ?_⟩
  · rw [placed_emitGuestData, List.mem_flatMap]
    refine ⟨(image, i), List.mem_zipIdx_iff_getElem?.mpr hp, ?_⟩
    rw [List.mem_flatMap]
    exact ⟨segment, List.mem_filter.mpr ⟨hmem, hmapped⟩, List.mem_map_of_mem hchunk⟩
  · exact value_emitSegment hi (ok_emitGuestData p passthrough overrides hok image himage) ha hfix
      hmem hmapped hostAddress i ⟨h1, h2⟩ hun

/-! ## Reading the bytes of an image -/

section

variable {image : Image} (hi : image.Segmented)

include hi

/-- The image's bytes at one of its addresses. -/
theorem readBytes_eq {segment : Segment} (hmem : segment ∈ image.segments)
    (hmapped : segment.isMapped = true) {address size : UInt64}
    (hstart : segment.vmaddr.toNat ≤ address.toNat)
    (hstop : address.toNat + size.toNat ≤ segment.stop) (hsize : 0 < size.toNat) :
    image.readBytes (image.host address) size
      = some ((List.range size.toNat).map fun k =>
          image.byteAt (UInt64.ofNat (address.toNat + k))) := by
  have hb : segment.stop < 2 ^ 64 := hi.bounded segment hmem
  have hc : segment.contains address = true :=
    (Segment.contains_iff hb).mpr ⟨hstart, by omega⟩
  have hsum : (address + size).toNat = address.toNat + size.toNat := by
    rw [UInt64.toNat_add]
    exact Nat.mod_eq_of_lt (by omega)
  have hlimit : (segment.vmaddr + segment.vmsize).toNat = segment.stop := by
    rw [UInt64.toNat_add]
    exact Nat.mod_eq_of_lt hb
  unfold Image.readBytes
  simp only [Image.host_sub_slide, segmentForVM_eq hi hmem hmapped hc]
  rw [if_neg (by rw [gt_iff_lt, UInt64.lt_iff_toNat_lt, hsum, hlimit]; omega)]
  congr 1
  apply List.map_congr_left
  intro k hk
  have hlt := List.mem_range.mp hk
  have haddr : UInt64.ofNat (address.toNat + k) = address + UInt64.ofNat k := by
    rw [UInt64.ofNat_add, UInt64.ofNat_toNat]
  have htoNat : (UInt64.ofNat (address.toNat + k)).toNat = address.toNat + k :=
    UInt64.toNat_ofNat_of_lt' (by simp only [UInt64.size]; omega)
  have hck : segment.contains (UInt64.ofNat (address.toNat + k)) = true := by
    rw [Segment.contains_iff hb, htoNat]
    omega
  rw [Image.byteAt, segmentForVM_eq hi hmem hmapped hck, haddr]

end

/-! ### An image with a rebase and a bind -/

/-- A data segment with a rebased slot, a slot bound to the host, and file bytes around them. -/
def fixedUp : Image where
  slide := 0x1000
  segments := [⟨"__TEXT", 0, 4, 0, 4, 5⟩, ⟨"__DATA", 4, 24, 4, 8, 3⟩]
  rebases := (∅ : ExtTreeMap UInt64 UInt64).insert 8 2
  binds := (∅ : ExtTreeMap UInt64 Bind).insert 18 { symbol := "_puts", library := "libSystem" }
  data := [0, 1, 2, 3, 4, 5, 6, 7, 8, 9, 10, 11]

def fixedUpProgram : Program := { images := [fixedUp] }

theorem fixedUp_segmented : fixedUp.Segmented where
  bounded := by decide
  apart := by
    refine List.Pairwise.cons ?_ (List.pairwise_singleton _ _)
    intro t ht a hin
    rw [List.mem_singleton.mp ht]
    simp only [Segment.contains, decide_eq_true_eq, decide_eq_false_iff_not,
      UInt64.le_iff_toNat_le, UInt64.lt_iff_toNat_lt] at hin ⊢
    have h4 : (4 : UInt64).toNat = 4 := rfl
    have h4' : ((0 : UInt64) + 4).toNat = 4 := rfl
    omega

theorem fixedUp_mapped {k : UInt64} (hk : Program.FixedUp fixedUp k) :
    ∃ segment ∈ fixedUp.segments, segment.isMapped = true ∧ segment.contains k = true := by
  refine ⟨⟨"__DATA", 4, 24, 4, 8, 3⟩, .tail _ (.head _), by decide, ?_⟩
  rcases hk with hk | hk
  · rw [fixedUp, ExtTreeMap.mem_insert, LawfulEqCmp.compare_eq_iff_eq] at hk
    rcases hk with rfl | hk
    · decide
    · exact absurd hk ExtTreeMap.not_mem_empty
  · rw [fixedUp, ExtTreeMap.mem_insert, LawfulEqCmp.compare_eq_iff_eq] at hk
    rcases hk with rfl | hk
    · decide
    · exact absurd hk ExtTreeMap.not_mem_empty

/-- The pointers are where the loader puts them, in a memory with `_puts` at `0x20004000`. -/
theorem emitGuestData_loads_fixedUp :
    (emitGuestData fixedUpProgram (fun symbol => symbol == "_puts") ∅).ok = true ∧
    ∀ a, 4 ≤ a → a < 28 →
      ((chunkCells (segmentChunks fixedUpProgram (fun symbol => symbol == "_puts") ∅ 0 fixedUp
          ⟨"__DATA", 4, 24, 4, 8, 3⟩))[a - 4]?).map (Cell.value fun _ => 0x20004000)
        = some (fixedUpProgram.loaded (fun symbol => symbol == "_puts") (fun _ => 0x20004000)
            fixedUp a) := by
  have hok : (emitGuestData fixedUpProgram (fun symbol => symbol == "_puts") ∅).ok = true := by
    decide
  refine ⟨hok, fun a h1 h2 => ?_⟩
  refine (emitGuestData_loads (i := 0) hok rfl fixedUp_segmented (by decide)
    (fun _ => fixedUp_mapped) (fun _ => 0x20004000) (.tail _ (.head _)) (by decide)).2 a h1 h2 ?_
  intro piece hpiece
  have hnone : segmentOverrides fixedUp ⟨"__DATA", 4, 24, 4, 8, 3⟩ ∅ = [] := rfl
  rw [hnone] at hpiece
  cases hpiece

end Katabasis
