import Katabasis.Xlate.Loaded

set_option autoImplicit false

/-! # The initializers of the images

`EmitTables` (`xlate/src/xlate.cpp`) lists the functions that run before `main`: of every image,
the last one first, the pointers of its `__mod_init_func` sections, which it takes from the rebases,
and the functions of its `__init_offsets` sections, which it reads as offsets from the base of the
image. A loader takes both from the memory it has loaded. A slot that is bound, to a function of
another image or to a weak one, is none for `EmitTables`; where there is no such slot, and only
there, the two lists are the same (`initializers_loaded`).
-/

namespace Katabasis

open Std

/-! ## `xl_initializers` -/

def SECTION_TYPE : UInt32 := 0xFF
def S_MOD_INIT_FUNC_POINTERS : UInt32 := 0x9
def S_INIT_FUNC_OFFSETS : UInt32 := 0x16

/-- The addresses of the elements of a section, `stride` bytes each; what is left at the end is
passed over. -/
def Section.elements (sect : Section) (stride : Nat) : List UInt64 :=
  (List.range (sect.size.toNat / stride)).map fun j => sect.addr + UInt64.ofNat (stride * j)

/-- The initializers of a section. -/
def sectionInitializers (image : Image) (sect : Section) : List UInt32 :=
  let sectionType := sect.flags &&& SECTION_TYPE
  if sectionType = S_MOD_INIT_FUNC_POINTERS then
    (sect.elements 8).filterMap fun address => (image.rebases[address]?).map fun target =>
      (image.host (target &&& 0x00FFFFFFFFFFFFFF)).toUInt32
  else if sectionType = S_INIT_FUNC_OFFSETS then
    (sect.elements 4).filterMap fun address =>
      (image.readBytes (image.host address) 4).map fun bytes =>
        (image.host (image.preferredBase + UInt64.ofNat (LittleEndian.ofBytes bytes))).toUInt32
  else []

/-- `xl_initializers`. -/
def Program.initializers (p : Program) : List UInt32 :=
  p.images.reverse.flatMap fun image => image.sections.flatMap (sectionInitializers image)

/-! ## What a loader runs -/

/-- The number in so many bytes of a memory. -/
def readWord (m : Nat → UInt8) (n a : Nat) : Nat :=
  LittleEndian.ofBytes ((List.range n).map fun k => m (a + k))

/-- The functions that a loader finds in a section of a loaded image. -/
def loadedInitializers (m : Nat → UInt8) (image : Image) (sect : Section) : List UInt64 :=
  let sectionType := sect.flags &&& SECTION_TYPE
  if sectionType = S_MOD_INIT_FUNC_POINTERS then
    (sect.elements 8).map fun address => UInt64.ofNat (readWord m 8 address.toNat)
  else if sectionType = S_INIT_FUNC_OFFSETS then
    (sect.elements 4).map fun address =>
      image.host (image.preferredBase + UInt64.ofNat (readWord m 4 address.toNat))
  else []

/-- The section lies in a mapped segment of the image. -/
def Image.Holds (image : Image) (sect : Section) : Prop :=
  ∃ segment ∈ image.segments, segment.isMapped = true ∧
    segment.vmaddr.toNat ≤ sect.addr.toNat ∧ sect.addr.toNat + sect.size.toNat ≤ segment.stop

/-- The initializer sections of an image as its linker writes them: they lie in mapped segments,
the offsets have no fixup, and no fixup overlaps another. -/
structure Image.InitializersPlain (image : Image) : Prop where
  inside : ∀ sect ∈ image.sections, image.Holds sect
  apart : ∀ k k', Program.FixedUp image k → Program.FixedUp image k' → k.toNat < k'.toNat →
    k.toNat + 8 ≤ k'.toNat
  offsets : ∀ sect ∈ image.sections, sect.flags &&& SECTION_TYPE = S_INIT_FUNC_OFFSETS →
    ∀ k, Program.FixedUp image k →
      k.toNat + 8 ≤ sect.addr.toNat ∨ sect.addr.toNat + sect.size.toNat ≤ k.toNat

/-- The pointer at an address is rebased; where it is bound all the same, to that function. -/
def Program.Rebased (p : Program) (passthrough : String → Bool) (hostAddress : String → UInt32)
    (image : Image) (address : UInt64) : Prop :=
  ∃ target, image.rebases[address]? = some target ∧
    ∀ bind, image.binds[address]? = some bind →
      (p.boundWord passthrough hostAddress bind).toUInt32
        = (Program.rebasedWord image target).toUInt32

/-! ## Lists with gaps -/

/-- A list with a gap is shorter. -/
theorem filterMap_eq_map_iff {α β : Type} {f : α → Option β} {g : α → β} {l : List α} :
    l.filterMap f = l.map g ↔ ∀ a ∈ l, f a = some (g a) := by
  induction l with
  | nil => simp
  | cons a rest ih =>
      cases h : f a with
      | none =>
          have hlength := List.length_filterMap_le f rest
          simp only [List.filterMap_cons_none h, List.forall_mem_cons, h, reduceCtorEq, false_and,
            iff_false]
          intro heq
          simp [heq] at hlength
      | some b => simp [List.filterMap_cons_some h, ih, h]

/-- Lists of parts of which none is longer than its counterpart agree part by part. -/
theorem flatMap_eq_flatMap_iff {α β : Type} {f g : α → List β} {l : List α}
    (h : ∀ a ∈ l, (f a).length ≤ (g a).length) :
    l.flatMap f = l.flatMap g ↔ ∀ a ∈ l, f a = g a := by
  refine ⟨fun heq => ?_, List.flatMap_congr⟩
  induction l with
  | nil => simp
  | cons a rest ih =>
      have hrest := fun b hb => h b (List.mem_cons_of_mem a hb)
      have hle : (rest.flatMap f).length ≤ (rest.flatMap g).length := by
        simp only [List.length_flatMap]
        exact List.sum_le_sum hrest
      have hlength := congrArg List.length heq
      simp only [List.flatMap_cons, List.length_append] at hlength
      have ha := h a List.mem_cons_self
      obtain ⟨hfirst, hmore⟩ := List.append_inj heq (by omega)
      rw [List.forall_mem_cons]
      exact ⟨hfirst, ih hrest hmore⟩

/-! ## Reading words back -/

theorem readWord_of_bytes {m : Nat → UInt8} {n a value : Nat}
    (h : ∀ k < n, some (m (a + k)) = (LittleEndian.toBytes n value)[k]?) :
    readWord m n a = value % 256 ^ n := by
  have hbytes : (List.range n).map (fun k => m (a + k)) = LittleEndian.toBytes n value := by
    apply List.ext_getElem?
    intro k
    by_cases hk : k < n
    · rw [List.getElem?_map, List.getElem?_range hk, Option.map_some, h k hk]
    · rw [List.getElem?_eq_none (by simpa using hk),
        List.getElem?_eq_none (by rw [LittleEndian.length_toBytes]; omega)]
  rw [readWord, hbytes, LittleEndian.ofBytes_toBytes]

theorem mem_elements {sect : Section} {stride : Nat} (hstride : 0 < stride)
    (hbound : sect.addr.toNat + sect.size.toNat < 2 ^ 64) {address : UInt64}
    (h : address ∈ sect.elements stride) :
    sect.addr.toNat ≤ address.toNat ∧
      address.toNat + stride ≤ sect.addr.toNat + sect.size.toNat := by
  obtain ⟨j, hj, rfl⟩ := List.mem_map.mp h
  have hlt := List.mem_range.mp hj
  have hle : stride * j + stride ≤ sect.size.toNat := by
    calc stride * j + stride = stride * (j + 1) := by rw [Nat.mul_succ]
      _ ≤ stride * (sect.size.toNat / stride) := Nat.mul_le_mul_left stride hlt
      _ ≤ sect.size.toNat := Nat.mul_div_le _ _
  have hoffset : (UInt64.ofNat (stride * j)).toNat = stride * j :=
    UInt64.toNat_ofNat_of_lt' (by simp only [UInt64.size]; omega)
  have haddress : (sect.addr + UInt64.ofNat (stride * j)).toNat = sect.addr.toNat + stride * j := by
    rw [UInt64.toNat_add, hoffset]
    exact Nat.mod_eq_of_lt (by omega)
  omega

section

variable {p : Program} {passthrough : String → Bool} {hostAddress : String → UInt32} {image : Image}
  (hi : image.Segmented) (hplain : image.InitializersPlain) {sect : Section}
  (hsect : sect ∈ image.sections)

include hplain hsect

include hi in
theorem section_bound : sect.addr.toNat + sect.size.toNat < 2 ^ 64 := by
  obtain ⟨segment, hmem, -, -, hstop⟩ := hplain.inside sect hsect
  have hb : segment.stop < 2 ^ 64 := hi.bounded segment hmem
  omega

omit hsect in
/-- A pointer of `__mod_init_func`, in the loaded image. -/
theorem readWord_pointer {address word : UInt64}
    (hword : (image.binds[address]?.map (p.boundWord passthrough hostAddress)).or
      (image.rebases[address]?.map (Program.rebasedWord image)) = some word) :
    UInt64.ofNat (readWord (p.loaded passthrough hostAddress image) 8 address.toNat) = word := by
  have hfixed : Program.FixedUp image address := by
    rcases Option.or_eq_some_iff.mp hword with hbound | ⟨-, hrebased⟩
    · obtain ⟨bind, hbind, -⟩ := Option.map_eq_some_iff.mp hbound
      exact .inr (ExtTreeMap.mem_iff_isSome_getElem?.mpr (hbind ▸ rfl))
    · obtain ⟨target, htarget, -⟩ := Option.map_eq_some_iff.mp hrebased
      exact .inl (ExtTreeMap.mem_iff_isSome_getElem?.mpr (htarget ▸ rfl))
  have hread : readWord (p.loaded passthrough hostAddress image) 8 address.toNat
      = word.toNat % 256 ^ 8 := by
    apply readWord_of_bytes
    intro k hk
    rw [Program.loaded_of_covered (k := address) (by omega) _ hword, Nat.add_sub_cancel_left]
    -- no other fixup covers a byte of this one
    intro k' hk' hle hlt
    have h1 := hplain.apart k' address hk' hfixed
    have h2 := hplain.apart address k' hfixed hk'
    exact UInt64.toNat_inj.mp (by omega)
  have hlt := word.toNat_lt
  rw [hread, Nat.mod_eq_of_lt (by omega), UInt64.ofNat_toNat]

omit hsect in
/-- What `EmitTables` makes of a pointer is what a loader finds exactly where it is rebased. -/
theorem pointer_eq_iff {address : UInt64} :
    ((image.rebases[address]?).map fun target =>
        (image.host (target &&& 0x00FFFFFFFFFFFFFF)).toUInt32)
      = some (UInt64.ofNat (readWord (p.loaded passthrough hostAddress image) 8
          address.toNat)).toUInt32 ↔ p.Rebased passthrough hostAddress image address := by
  rw [Program.Rebased]
  cases hrebase : image.rebases[address]? with
  | none => simp
  | some target =>
      simp only [Option.map_some, Option.some_inj, exists_eq_left']
      cases hbind : image.binds[address]? with
      | none =>
          have hword : UInt64.ofNat (readWord (p.loaded passthrough hostAddress image) 8
              address.toNat) = Program.rebasedWord image target :=
            readWord_pointer hplain (by rw [hbind, hrebase]; rfl)
          rw [hword]
          simp [Program.rebasedWord]
      | some bind =>
          have hword : UInt64.ofNat (readWord (p.loaded passthrough hostAddress image) 8
              address.toNat) = p.boundWord passthrough hostAddress bind :=
            readWord_pointer hplain (by rw [hbind]; rfl)
          rw [hword]
          simp only [Option.some_inj, forall_eq', Program.rebasedWord]
          exact eq_comm

include hi in
/-- An offset of `__init_offsets`, in the loaded image and in the file. -/
theorem readWord_offset (htype : sect.flags &&& SECTION_TYPE = S_INIT_FUNC_OFFSETS)
    {address : UInt64} (haddress : address ∈ sect.elements 4) :
    (image.readBytes (image.host address) 4).map LittleEndian.ofBytes
      = some (readWord (p.loaded passthrough hostAddress image) 4 address.toNat) := by
  obtain ⟨segment, hmem, hmapped, hstart, hstop⟩ := hplain.inside sect hsect
  obtain ⟨h1, h2⟩ := mem_elements (by omega) (section_bound hi hplain hsect) haddress
  have hfour : (4 : UInt64).toNat = 4 := rfl
  rw [readBytes_eq hi hmem hmapped (by omega) (by omega) (by omega), hfour, Option.map_some,
    Option.some_inj, readWord]
  congr 1
  apply List.map_congr_left
  intro k hk
  have hlt := List.mem_range.mp hk
  rw [Program.loaded_of_not_covered]
  intro k' hk'
  have := hplain.offsets sect hsect htype k' hk'
  omega

include hi in
theorem sectionInitializers_eq_iff :
    sectionInitializers image sect
      = (loadedInitializers (p.loaded passthrough hostAddress image) image sect).map
          UInt64.toUInt32 ↔
      (sect.flags &&& SECTION_TYPE = S_MOD_INIT_FUNC_POINTERS →
        ∀ address ∈ sect.elements 8, p.Rebased passthrough hostAddress image address) := by
  simp only [sectionInitializers, loadedInitializers]
  split
  case isTrue htype =>
    rw [List.map_map, filterMap_eq_map_iff, forall_prop_of_true htype]
    exact forall₂_congr fun address _ => pointer_eq_iff hplain
  case isFalse hpointers =>
    simp only [hpointers, false_implies, iff_true]
    split
    case isTrue htype =>
      rw [List.map_map, filterMap_eq_map_iff]
      intro address haddress
      have hread : (image.readBytes (image.host address) 4).map LittleEndian.ofBytes
          = some (readWord (p.loaded passthrough hostAddress image) 4 address.toNat) :=
        readWord_offset hi hplain hsect htype haddress
      obtain ⟨bytes, hbytes, hword⟩ := Option.map_eq_some_iff.mp hread
      rw [hbytes, Option.map_some, hword, Function.comp_apply]
    case isFalse => rfl

end

/-- A slot gives `EmitTables` at most one initializer, and a loader exactly one. -/
theorem length_sectionInitializers_le (m : Nat → UInt8) (image : Image) (sect : Section) :
    (sectionInitializers image sect).length
      ≤ ((loadedInitializers m image sect).map UInt64.toUInt32).length := by
  simp only [sectionInitializers, loadedInitializers]
  split
  next =>
    rw [List.length_map, List.length_map]
    exact List.length_filterMap_le _ _
  next =>
    split
    next =>
      rw [List.length_map, List.length_map]
      exact List.length_filterMap_le _ _
    next => exact Nat.le_refl _

/-- **When `xl_initializers` is what a loader runs**: the images from the last one on, the sections
of each in order, and of each section the functions whose pointers or offsets the loaded image
holds. It is exactly when every pointer is rebased, and not bound to another function. -/
theorem Program.initializers_loaded {p : Program} (hi : ∀ image ∈ p.images, image.Segmented)
    (hplain : ∀ image ∈ p.images, image.InitializersPlain) (passthrough : String → Bool)
    (hostAddress : String → UInt32) :
    p.initializers
      = (p.images.reverse.flatMap fun image => image.sections.flatMap
          (loadedInitializers (p.loaded passthrough hostAddress image) image)).map
            UInt64.toUInt32 ↔
      ∀ image ∈ p.images, ∀ sect ∈ image.sections,
        sect.flags &&& SECTION_TYPE = S_MOD_INIT_FUNC_POINTERS →
          ∀ address ∈ sect.elements 8, p.Rebased passthrough hostAddress image address := by
  have hsections : ∀ image : Image, ∀ sect ∈ image.sections,
      (sectionInitializers image sect).length
        ≤ ((loadedInitializers (p.loaded passthrough hostAddress image) image sect).map
          UInt64.toUInt32).length := fun image sect _ =>
    length_sectionInitializers_le _ image sect
  have himages : ∀ image ∈ p.images.reverse,
      (image.sections.flatMap (sectionInitializers image)).length
        ≤ (image.sections.flatMap fun sect =>
          (loadedInitializers (p.loaded passthrough hostAddress image) image sect).map
            UInt64.toUInt32).length := by
    intro image _
    simp only [List.length_flatMap]
    exact List.sum_le_sum (hsections image)
  simp only [initializers, List.map_flatMap]
  -- no part is longer than its counterpart, so the lists agree part by part
  rw [flatMap_eq_flatMap_iff himages]
  constructor
  · intro h image himage sect hsect
    have heq := (flatMap_eq_flatMap_iff (hsections image)).mp
      (h image (List.mem_reverse.mpr himage)) sect hsect
    exact (sectionInitializers_eq_iff (hi image himage) (hplain image himage) hsect).mp heq
  · intro h image himage
    have hmem := List.mem_reverse.mp himage
    refine (flatMap_eq_flatMap_iff (hsections image)).mpr fun sect hsect => ?_
    exact (sectionInitializers_eq_iff (hi image hmem) (hplain image hmem) hsect).mpr
      (h image hmem sect hsect)

/-! ### An image with an initializer of each kind -/

/-- A pointer to the function at 4, and the offset of the one at 12. -/
def initialized : Image where
  slide := 0x1000
  segments := [⟨"__TEXT", 0, 16, 0, 16, 5⟩, ⟨"__DATA", 16, 16, 16, 8, 3⟩]
  sections := [⟨"__TEXT", "__init_offsets", 8, 4, 0x16⟩, ⟨"__DATA", "__mod_init_func", 16, 8, 9⟩]
  rebases := (∅ : ExtTreeMap UInt64 UInt64).insert 16 4
  data := [0, 0, 0, 0, 0, 0, 0, 0, 12, 0, 0, 0, 0, 0, 0, 0, 4, 0, 0, 0, 0, 0, 0, 0]

theorem initialized_fixedUp {k : UInt64} (h : Program.FixedUp initialized k) : k = 16 := by
  rcases h with h | h
  · rw [initialized, ExtTreeMap.mem_insert, LawfulEqCmp.compare_eq_iff_eq] at h
    exact (h.resolve_right ExtTreeMap.not_mem_empty).symm
  · exact absurd h ExtTreeMap.not_mem_empty

theorem initialized_segmented : initialized.Segmented where
  bounded := by decide
  apart := by
    refine List.Pairwise.cons ?_ (List.pairwise_singleton _ _)
    intro t ht a hin
    rw [List.mem_singleton.mp ht]
    simp only [Segment.contains, decide_eq_true_eq, decide_eq_false_iff_not,
      UInt64.le_iff_toNat_le, UInt64.lt_iff_toNat_lt] at hin ⊢
    have h16 : (16 : UInt64).toNat = 16 := rfl
    have h16' : ((0 : UInt64) + 16).toNat = 16 := rfl
    omega

theorem initialized_plain : initialized.InitializersPlain where
  inside := by
    have htext : initialized.Holds ⟨"__TEXT", "__init_offsets", 8, 4, 0x16⟩ :=
      ⟨⟨"__TEXT", 0, 16, 0, 16, 5⟩, .head _, by decide, by decide, by decide⟩
    have hdata : initialized.Holds ⟨"__DATA", "__mod_init_func", 16, 8, 9⟩ :=
      ⟨⟨"__DATA", 16, 16, 16, 8, 3⟩, .tail _ (.head _), by decide, by decide, by decide⟩
    simp only [initialized, List.forall_mem_cons]
    exact ⟨htext, hdata, by simp⟩
  apart := by
    intro k k' hk hk' hlt
    rw [initialized_fixedUp hk, initialized_fixedUp hk'] at hlt
    exact absurd hlt (Nat.lt_irrefl _)
  offsets := by
    intro sect hsect htype k hk
    rw [initialized_fixedUp hk]
    revert sect
    decide

theorem initialized_elements :
    ∀ sect ∈ initialized.sections, sect.flags &&& SECTION_TYPE = S_MOD_INIT_FUNC_POINTERS →
      ∀ address ∈ sect.elements 8, address = 16 := by
  have helements : Section.elements ⟨"__DATA", "__mod_init_func", 16, 8, 9⟩ 8 = [16] := by
    decide
  simp only [initialized, List.forall_mem_cons]
  refine ⟨fun h => absurd h (by decide), fun _ => ?_, by simp⟩
  simp [helements]

theorem initializers_loaded_initialized :
    (Program.initializers { images := [initialized] }) = [0x100c, 0x1004] ∧
      Program.initializers { images := [initialized] }
        = ([initialized].reverse.flatMap fun image => image.sections.flatMap
            (loadedInitializers (Program.loaded { images := [initialized] } (fun _ => false)
              (fun _ => 0) image) image)).map UInt64.toUInt32 := by
  have hmem : ∀ image ∈ [initialized], image = initialized := fun _ => List.mem_singleton.mp
  refine ⟨by decide, ?_⟩
  refine (Program.initializers_loaded (p := { images := [initialized] })
    (fun image h => hmem image h ▸ initialized_segmented)
    (fun image h => hmem image h ▸ initialized_plain) (fun _ => false) fun _ => 0).mpr ?_
  intro image himage sect hsect htype address haddress
  rw [hmem image himage] at hsect ⊢
  rw [initialized_elements sect hsect htype address haddress]
  refine ⟨4, ExtTreeMap.getElem?_insert_self, fun bind hbind => ?_⟩
  rw [show initialized.binds = ∅ from rfl, ExtTreeMap.getElem?_empty] at hbind
  cases hbind

end Katabasis
