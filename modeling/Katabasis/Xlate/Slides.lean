import Katabasis.Xlate.Dispatch
import Katabasis.Xlate.GuestData

set_option autoImplicit false

/-! # The slides of the guest images

`LayoutAndResolve` (`xlate/src/xlate.cpp`) slides each image to a cursor, by a difference that may
wrap modulo `2^64`. If the natural numbers that the cursor stands for stay below `2^64` (`Fits`),
each image keeps its addresses in order from the cursor on (`Image.Unwrapped`), and the images are
placed one behind the other. Then an address tells its image (`imageAt_of_owns`), and one that is
not of an image is in no segment of it either, when the image's slide is taken off
(`Unwrapped.spares`): `EmitGuestData` takes every image's slide off every override.
-/

namespace Katabasis

/-- The number of addresses of an image. -/
def Image.extent (image : Image) : Nat := image.imageEnd.toNat - image.preferredBase.toNat

/-- The images are placed from a number on, without a wrap. -/
def Fits : Nat → List Image → Prop
  | _, [] => True
  | cursor, image :: rest =>
      cursor + image.extent < 2 ^ 64 ∧
        Fits ((cursor + image.extent + 0xFFFFF) / 2 ^ 20 * 2 ^ 20) rest

namespace Image

/-- The addresses of the image are placed in their order. -/
structure Unwrapped (image : Image) : Prop where
  base_le_end : image.preferredBase ≤ image.imageEnd
  below : (image.host image.preferredBase).toNat + image.extent < 2 ^ 64

/-- An address keeps its distance to the base. -/
theorem Unwrapped.toNat_host {image : Image} (h : image.Unwrapped) {vmaddr : UInt64}
    (hbase : image.preferredBase ≤ vmaddr) (hend : vmaddr ≤ image.imageEnd) :
    (image.host vmaddr).toNat
      = (image.host image.preferredBase).toNat + (vmaddr.toNat - image.preferredBase.toNat) := by
  have hshift : image.host vmaddr
      = image.host image.preferredBase + (vmaddr - image.preferredBase) := by
    simp only [host]
    grind
  have hbelow := h.below
  have hend' := UInt64.le_iff_toNat_le.mp hend
  rw [extent] at hbelow
  rw [hshift, UInt64.toNat_add, UInt64.toNat_sub_of_le _ _ hbase, Nat.mod_eq_of_lt (by omega)]

theorem Unwrapped.toNat_host_end {image : Image} (h : image.Unwrapped) :
    (image.host image.imageEnd).toNat
      = (image.host image.preferredBase).toNat + image.extent :=
  h.toNat_host h.base_le_end (UInt64.le_refl _)

/-- One image is placed behind another. -/
def Before (a b : Image) : Prop := a.host a.imageEnd ≤ b.host b.preferredBase

/-- An address that an image places. -/
def Owns (image : Image) (address : UInt64) : Prop :=
  image.host image.preferredBase ≤ address ∧ address < image.host image.imageEnd

theorem Unwrapped.owns_host {image : Image} (h : image.Unwrapped) {vmaddr : UInt64}
    (hv : image.InRange vmaddr) : image.Owns (image.host vmaddr) := by
  have hlt := UInt64.lt_iff_toNat_lt.mp hv.2
  have hle := UInt64.le_iff_toNat_le.mp hv.1
  have hhost := h.toNat_host hv.1 (UInt64.le_of_lt hv.2)
  have hend := h.toNat_host_end
  rw [extent] at hend
  constructor
  · rw [UInt64.le_iff_toNat_le]
    omega
  · rw [UInt64.lt_iff_toNat_lt]
    omega

theorem Before.not_owns {a b : Image} (h : a.Before b) {address : UInt64} (ha : a.Owns address) :
    ¬ b.Owns address := by
  intro hb
  have hlt := UInt64.lt_of_lt_of_le ha.2 (UInt64.le_trans h hb.1)
  exact UInt64.lt_irrefl _ hlt

/-- **A segment of an image holds only addresses that the image places.** -/
theorem Unwrapped.owns_of_contains {image : Image} (h : image.Unwrapped) {segment : Segment}
    (hmem : segment ∈ image.segments) (hname : segment.name ≠ "__PAGEZERO")
    (hlink : segment.name ≠ "__LINKEDIT") {address : UInt64}
    (hin : segment.contains (address - image.slide) = true) : image.Owns address := by
  obtain ⟨hstart, hstop⟩ := of_decide_eq_true hin
  have hsize : segment.vmsize ≠ 0 := by
    intro hzero
    rw [hzero, UInt64.add_zero] at hstop
    exact UInt64.lt_irrefl _ (UInt64.lt_of_lt_of_le hstop hstart)
  have hbase := UInt64.le_trans (image.preferredBase_le hmem hname hsize) hstart
  have hend := UInt64.lt_of_lt_of_le hstop (image.le_imageEnd hmem hname hlink)
  have howns := h.owns_host ⟨hbase, hend⟩
  rwa [host, UInt64.sub_add_cancel] at howns

end Image

/-! ## The list of images -/

theorem extent_slidTo (image : Image) (cursor : UInt64) :
    (image.slidTo cursor).extent = image.extent := rfl

theorem unwrapped_slidTo {image : Image} {cursor : UInt64}
    (hle : image.preferredBase ≤ image.imageEnd) (hfits : cursor.toNat + image.extent < 2 ^ 64) :
    (image.slidTo cursor).Unwrapped where
  base_le_end := hle
  below := by
    rw [Image.preferredBase_slidTo, Image.host_base_slidTo, extent_slidTo]
    exact hfits

/-- The cursor behind an image is the number it stands for, if an image follows. -/
theorem toNat_cursor {image next : Image} {cursor : UInt64} {rest : List Image}
    (hle : image.preferredBase ≤ image.imageEnd) (hfits : Fits cursor.toNat (image :: next :: rest)) :
    (alignUp ((image.slidTo cursor).host image.imageEnd) 0x100000).toNat
      = (cursor.toNat + image.extent + 0xFFFFF) / 2 ^ 20 * 2 ^ 20 := by
  obtain ⟨hfirst, hnext, -⟩ := hfits
  have hend := (unwrapped_slidTo hle hfirst).toNat_host_end
  rw [Image.preferredBase_slidTo, Image.imageEnd_slidTo, Image.host_base_slidTo, extent_slidTo]
    at hend
  rw [alignUp_megabyte _ (by omega), hend]

/-- Each image is placed at the cursor or above it, and does not wrap. -/
theorem placeImages_unwrapped {images : List Image} {cursor : UInt64}
    (hle : ∀ image ∈ images, image.preferredBase ≤ image.imageEnd)
    (hfits : Fits cursor.toNat images) :
    ∀ image ∈ placeImages cursor images, image.Unwrapped ∧
      cursor.toNat ≤ (image.host image.preferredBase).toNat := by
  induction images generalizing cursor with
  | nil => exact fun image hmem => nomatch hmem
  | cons first rest ih =>
      intro image hmem
      rw [placeImages_cons] at hmem
      rcases List.mem_cons.mp hmem with rfl | hrest
      · refine ⟨unwrapped_slidTo (hle first List.mem_cons_self) hfits.1, ?_⟩
        rw [Image.preferredBase_slidTo, Image.host_base_slidTo]
      · cases rest with
        | nil => cases hrest
        | cons next rest =>
            have hcursor := toNat_cursor (hle first List.mem_cons_self) hfits
            obtain ⟨hunwrapped, habove⟩ :=
              ih (fun other hother => hle other (List.mem_cons_of_mem _ hother))
                (by rw [hcursor]; exact hfits.2) image hrest
            exact ⟨hunwrapped, by omega⟩

/-- **The images are placed one behind the other.** -/
theorem placeImages_before {images : List Image} {cursor : UInt64}
    (hle : ∀ image ∈ images, image.preferredBase ≤ image.imageEnd)
    (hfits : Fits cursor.toNat images) : (placeImages cursor images).Pairwise Image.Before := by
  induction images generalizing cursor with
  | nil => exact List.Pairwise.nil
  | cons first rest ih =>
      rw [placeImages_cons]
      cases rest with
      | nil => exact List.pairwise_singleton _ _
      | cons next rest =>
          have hrest := fun other hother => hle other (List.mem_cons_of_mem first hother)
          have hcursor := toNat_cursor (hle first List.mem_cons_self) hfits
          have hfits' : Fits (alignUp ((first.slidTo cursor).host first.imageEnd) 0x100000).toNat
              (next :: rest) := by
            rw [hcursor]
            exact hfits.2
          refine List.Pairwise.cons (fun image hmem => ?_) (ih hrest hfits')
          have hend := (unwrapped_slidTo (hle first List.mem_cons_self) hfits.1).toNat_host_end
          have habove := (placeImages_unwrapped hrest hfits' image hmem).2
          rw [Image.preferredBase_slidTo, Image.host_base_slidTo, extent_slidTo] at hend
          rw [Image.Before, UInt64.le_iff_toNat_le, hend]
          omega

/-- **An address tells its image.** -/
theorem imageAt_of_owns {p : Program} (hbefore : p.images.Pairwise Image.Before) {image : Image}
    (hmem : image ∈ p.images) {address : UInt64} (howns : image.Owns address) :
    p.imageAt address = some image := by
  obtain ⟨earlier, later, hsplit⟩ := List.append_of_mem hmem
  rw [Program.imageAt, List.find?_eq_some_iff_append]
  refine ⟨decide_eq_true howns, earlier, later, hsplit, fun other hother => ?_⟩
  rw [hsplit] at hbefore
  have hother' := (List.pairwise_append.mp hbefore).2.2 other hother image List.mem_cons_self
  rw [Bool.not_eq_true', decide_eq_false_iff_not]
  exact fun hcon => hother'.not_owns hcon howns

/-- No address of the one image is written into the other, when overrides are. -/
def Image.Spares (a b : Image) : Prop :=
  ∀ vmaddr, a.InRange vmaddr → ∀ segment ∈ b.segments, segment.name ≠ "__PAGEZERO" →
    segment.name ≠ "__LINKEDIT" → segment.contains (a.host vmaddr - b.slide) = false ∧
      ∀ pieces override, overlay b segment pieces (a.host vmaddr, override) = pieces

theorem Image.Unwrapped.spares {a b : Image} (ha : a.Unwrapped) (hb : b.Unwrapped)
    (h : ∀ address, a.Owns address → ¬ b.Owns address) : a.Spares b := by
  intro vmaddr hv segment hmem hname hlink
  have hout : segment.contains (a.host vmaddr - b.slide) = false := by
    rw [← Bool.not_eq_true]
    exact fun hin => h _ (ha.owns_host hv) (hb.owns_of_contains hmem hname hlink hin)
  refine ⟨hout, fun pieces override => ?_⟩
  rw [overlay, hout, Bool.not_false, if_pos rfl]

/-- **Guest images get disjoint ranges, and addresses identify their image.** For images that fit,
`LayoutAndResolve` places them one behind the other; the image of an address is the one that
places it; and no override of one image is written into a segment of another. -/
theorem layout_disjoint {base : UInt64} {images : List Image} {isBridge : String → Bool}
    {equivalent : String → String → Bool} {replaces : List String} {strict : Bool} {p : Program}
    (hle : ∀ image ∈ images, image.preferredBase ≤ image.imageEnd)
    (hfits : Fits base.toNat images)
    (hp : Program.layoutAndResolve base images isBridge equivalent replaces strict = .ok p) :
    p.images = placeImages base images ∧
    p.images.Pairwise (fun a b => a.host a.imageEnd ≤ b.host b.preferredBase) ∧
    (∀ image ∈ p.images, image.host image.preferredBase ≤ image.host image.imageEnd ∧
      ∀ vmaddr, image.InRange vmaddr →
        image.host image.preferredBase ≤ image.host vmaddr ∧
        image.host vmaddr < image.host image.imageEnd ∧
        p.imageAt (image.host vmaddr) = some image ∧ image.host vmaddr - image.slide = vmaddr) ∧
    p.images.Pairwise fun a b => a.Spares b ∧ b.Spares a := by
  obtain ⟨himages, -⟩ := Program.layoutAndResolve_ok hp
  -- no image wraps, and each ends in front of the next
  have hunwrapped : ∀ image ∈ p.images, image.Unwrapped := by
    rw [himages]
    exact fun image hmem => (placeImages_unwrapped hle hfits image hmem).1
  have hbefore : p.images.Pairwise Image.Before := by
    rw [himages]
    exact placeImages_before hle hfits
  refine ⟨himages, hbefore, fun image hmem => ⟨?_, fun vmaddr hv => ?_⟩, ?_⟩
  · have hend := (hunwrapped image hmem).toNat_host_end
    rw [UInt64.le_iff_toNat_le]
    omega
  · have howns := (hunwrapped image hmem).owns_host hv
    exact ⟨howns.1, howns.2, imageAt_of_owns hbefore hmem howns, image.host_sub_slide vmaddr⟩
  · refine hbefore.imp_of_mem fun {a b} ha hb hab => ⟨?_, ?_⟩
    · exact (hunwrapped a ha).spares (hunwrapped b hb) fun address => hab.not_owns
    · exact (hunwrapped b hb).spares (hunwrapped a ha) fun address howns hcon =>
        hab.not_owns hcon howns

/-- An image that prefers addresses above the base, so that its slide wraps. Its `__LINKEDIT` does
not count for where it ends. -/
def slideHigh : Image :=
  { segments := [{ name := "__TEXT", vmaddr := 0x100000000, vmsize := 0x4000 },
      { name := "__LINKEDIT", vmaddr := 0x100004000, vmsize := 0x200000 }] }

def slideLow : Image := { segments := [{ name := "__TEXT", vmaddr := 0x4000, vmsize := 0x1000 }] }

def slideProgram : Program :=
  { images := [slideHigh.slidTo 0x20000000, slideLow.slidTo 0x20100000]
    exports := { images := [slideHigh.slidTo 0x20000000, slideLow.slidTo 0x20100000] } }

/-- An address of the second image, which the first one's `__LINKEDIT` would reach. -/
theorem layout_disjoint_slide :
    slideProgram.imageAt 0x20100010 = some (slideLow.slidTo 0x20100000) := by
  have hfits : Fits (0x20000000 : UInt64).toNat [slideHigh, slideLow] :=
    ⟨by decide, by decide, trivial⟩
  have hresolved : Program.layoutAndResolve 0x20000000 [slideHigh, slideLow] (fun _ => false)
      (fun a b => a == b) [] true = .ok slideProgram := rfl
  obtain ⟨-, -, hplaced, -⟩ := layout_disjoint (by decide) hfits hresolved
  have hmem : slideLow.slidTo 0x20100000 ∈ slideProgram.images :=
    List.mem_cons_of_mem _ List.mem_cons_self
  exact ((hplaced _ hmem).2 0x4010 ⟨by decide, by decide⟩).2.2.1

end Katabasis
