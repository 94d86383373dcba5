import Katabasis.Xlate.Layout

set_option autoImplicit false

/-! # The placed images do not overlap

A 32-bit host leaves the guest the addresses below `2^32`. For images whose own addresses
end up there, the cursor of `placeImages` never moves back, so two images share no
address (`placeImages_disjoint`); the slides themselves are differences modulo `2^64`.
-/

namespace Katabasis

/-! ## Rounding up -/

theorem and_not_mask (x k : Nat) (hx : x < 2 ^ 64) (hk : k ≤ 64) :
    x &&& (2 ^ 64 - 1 - (2 ^ k - 1)) = x / 2 ^ k * 2 ^ k := by
  have hlt : 2 ^ k - 1 < 2 ^ 64 := by
    have := Nat.pow_le_pow_right (show 0 < 2 by decide) hk
    omega
  apply Nat.eq_of_testBit_eq
  intro i
  have hmask : 2 ^ 64 - 1 - (2 ^ k - 1) = 2 ^ 64 - ((2 ^ k - 1) + 1) := by omega
  rw [Nat.testBit_and, hmask, Nat.testBit_two_pow_sub_succ hlt, Nat.testBit_two_pow_sub_one,
    Nat.testBit_mul_two_pow, Nat.testBit_div_two_pow]
  by_cases hik : k ≤ i
  · rw [Nat.sub_add_cancel hik]
    by_cases hi : i < 64
    · simp [hik, hi]
    · have : x.testBit i = false :=
        Nat.testBit_lt_two_pow (hx.trans_le (Nat.pow_le_pow_right (by decide) (by omega)))
      simp [this]
  · have : i < k := by omega
    simp [hik, this]

theorem alignUp_megabyte (value : UInt64) (h : value.toNat + 0xFFFFF < 2 ^ 64) :
    (alignUp value 0x100000).toNat = (value.toNat + 0xFFFFF) / 2 ^ 20 * 2 ^ 20 := by
  have hsum : (value + 0x100000 - 1).toNat = value.toNat + 0xFFFFF := by
    have : value + 0x100000 - 1 = value + 0xFFFFF := by grind
    rw [this, UInt64.toNat_add]
    show (value.toNat + 0xFFFFF) % 2 ^ 64 = _
    omega
  rw [alignUp, UInt64.toNat_and, hsum, UInt64.toNat_not]
  exact and_not_mask _ 20 (by omega) (by decide)

/-- Below `2^32` the cursor moves forward, and stays there. -/
theorem alignUp_bounds (value : UInt64) (h : value.toNat ≤ 2 ^ 32) :
    value.toNat ≤ (alignUp value 0x100000).toNat ∧ (alignUp value 0x100000).toNat ≤ 2 ^ 32 := by
  rw [alignUp_megabyte value (by omega)]
  omega

/-! ## One placed image -/

namespace Image

/-- An address of the image's own, before it is placed. -/
def InRange (image : Image) (vmaddr : UInt64) : Prop :=
  image.preferredBase ≤ vmaddr ∧ vmaddr < image.imageEnd

/-- The image maps a segment, and all its addresses are placed below `2^32`. -/
structure Low (image : Image) : Prop where
  base_le_end : image.preferredBase ≤ image.imageEnd
  below : ∀ vmaddr, image.InRange vmaddr → (image.host vmaddr).toNat < 2 ^ 32

/-- The image slid to a cursor, as `placeImages` does it. -/
def slidTo (image : Image) (cursor : UInt64) : Image :=
  { image with slide := cursor - image.preferredBase }

@[simp] theorem preferredBase_slidTo (image : Image) (cursor : UInt64) :
    (image.slidTo cursor).preferredBase = image.preferredBase := rfl

@[simp] theorem imageEnd_slidTo (image : Image) (cursor : UInt64) :
    (image.slidTo cursor).imageEnd = image.imageEnd := rfl

theorem host_slidTo (image : Image) (cursor vmaddr : UInt64) :
    (image.slidTo cursor).host vmaddr = cursor + (vmaddr - image.preferredBase) := by
  simp only [host, slidTo]
  grind

theorem host_base_slidTo (image : Image) (cursor : UInt64) :
    (image.slidTo cursor).host image.preferredBase = cursor := by
  rw [host_slidTo]
  grind

/-- The length of a placed image: it ends at `2^32` at the latest, if it has an address. -/
theorem length_le_of_low {image : Image} {cursor : UInt64} (h : (image.slidTo cursor).Low)
    (hlt : image.preferredBase < image.imageEnd) :
    cursor.toNat + (image.imageEnd.toNat - image.preferredBase.toNat) ≤ 2 ^ 32 := by
  have hbase := h.below image.preferredBase ⟨UInt64.le_refl _, hlt⟩
  rw [host_base_slidTo] at hbase
  by_contra hcon
  -- The address that would be placed at `2^32` itself.
  set w : UInt64 := image.preferredBase + (0x100000000 - cursor) with hw
  have hc : (0x100000000 - cursor : UInt64).toNat = 2 ^ 32 - cursor.toNat := by
    rw [UInt64.toNat_sub_of_le _ _ (by rw [UInt64.le_iff_toNat_le]; exact hbase.le)]
    rfl
  have hlt' := UInt64.lt_iff_toNat_lt.mp hlt
  have hend := image.imageEnd.toNat_lt
  have hwn : w.toNat = image.preferredBase.toNat + (2 ^ 32 - cursor.toNat) := by
    rw [hw, UInt64.toNat_add, hc]
    omega
  have hrange : (image.slidTo cursor).InRange w := by
    constructor
    · rw [UInt64.le_iff_toNat_le, preferredBase_slidTo, hwn]; omega
    · rw [UInt64.lt_iff_toNat_lt, imageEnd_slidTo, hwn]; omega
  have hbad := h.below w hrange
  have hhost : (image.slidTo cursor).host w = 0x100000000 := by
    rw [host_slidTo, hw]
    grind
  rw [hhost] at hbad
  exact absurd hbad (by decide)

/-- Inside a placed image, addresses keep their distance to the cursor. -/
theorem toNat_host_of_low {image : Image} {cursor vmaddr : UInt64}
    (h : (image.slidTo cursor).Low) (hv : (image.slidTo cursor).InRange vmaddr) :
    ((image.slidTo cursor).host vmaddr).toNat
      = cursor.toNat + (vmaddr.toNat - image.preferredBase.toNat) := by
  obtain ⟨h1, h2⟩ := hv
  rw [preferredBase_slidTo] at h1
  rw [imageEnd_slidTo] at h2
  have hlen := length_le_of_low h (UInt64.lt_of_le_of_lt h1 h2)
  have h2' := UInt64.lt_iff_toNat_lt.mp h2
  rw [host_slidTo, UInt64.toNat_add, UInt64.toNat_sub_of_le _ _ h1]
  omega

theorem toNat_host_end_of_low {image : Image} {cursor : UInt64} (hc : cursor.toNat ≤ 2 ^ 32)
    (h : (image.slidTo cursor).Low) :
    ((image.slidTo cursor).host image.imageEnd).toNat
      = cursor.toNat + (image.imageEnd.toNat - image.preferredBase.toNat) ∧
    cursor.toNat + (image.imageEnd.toNat - image.preferredBase.toNat) ≤ 2 ^ 32 := by
  have hle : image.preferredBase ≤ image.imageEnd := h.base_le_end
  have hbound : cursor.toNat + (image.imageEnd.toNat - image.preferredBase.toNat) ≤ 2 ^ 32 := by
    rcases UInt64.lt_or_eq_of_le hle with hlt | heq
    · exact length_le_of_low h hlt
    · rw [← heq]; omega
  refine ⟨?_, hbound⟩
  rw [host_slidTo, UInt64.toNat_add, UInt64.toNat_sub_of_le _ _ hle]
  omega

end Image

/-! ## The list of placed images -/

/-- Two images place none of their addresses on one another. -/
def Image.Apart (a b : Image) : Prop :=
  ∀ v w, a.InRange v → b.InRange w → a.host v ≠ b.host w

theorem placeImages_cons (cursor : UInt64) (image : Image) (rest : List Image) :
    placeImages cursor (image :: rest)
      = image.slidTo cursor ::
        placeImages (alignUp ((image.slidTo cursor).host image.imageEnd) 0x100000) rest := rfl

/-- Nothing is placed below the cursor. -/
theorem cursor_le_host {images : List Image} {cursor : UInt64} (hc : cursor.toNat ≤ 2 ^ 32)
    (h : ∀ image ∈ placeImages cursor images, image.Low) :
    ∀ image ∈ placeImages cursor images, ∀ v, image.InRange v →
      cursor.toNat ≤ (image.host v).toNat := by
  induction images generalizing cursor with
  | nil => intro image hmem; cases hmem
  | cons first rest ih =>
      rw [placeImages_cons] at h ⊢
      have hfirst := h _ List.mem_cons_self
      obtain ⟨hend, hbound⟩ := Image.toNat_host_end_of_low hc hfirst
      obtain ⟨hup, hlow⟩ := alignUp_bounds ((first.slidTo cursor).host first.imageEnd) (by omega)
      intro image hmem v hv
      rcases List.mem_cons.mp hmem with rfl | hrest
      · rw [Image.toNat_host_of_low hfirst hv]; omega
      · have := ih hlow (fun i hi => h i (List.mem_cons_of_mem _ hi)) image hrest v hv
        omega

/-- **Placed images are apart.** -/
theorem placeImages_disjoint {images : List Image} {cursor : UInt64}
    (h : ∀ image ∈ placeImages cursor images, image.Low) :
    (placeImages cursor images).Pairwise Image.Apart := by
  induction images generalizing cursor with
  | nil => exact List.Pairwise.nil
  | cons first rest ih =>
      rw [placeImages_cons] at h ⊢
      have hfirst := h _ List.mem_cons_self
      have hrest := fun i hi => h i (List.mem_cons_of_mem _ hi)
      refine List.Pairwise.cons (fun image hmem v w hv hw heq => ?_) (ih hrest)
      -- The first image has an address, so the cursor was below `2^32` to begin with.
      have hlen := Image.length_le_of_low hfirst (UInt64.lt_of_le_of_lt hv.1 hv.2)
      have hc : cursor.toNat ≤ 2 ^ 32 := by omega
      obtain ⟨hend, hbound⟩ := Image.toNat_host_end_of_low hc hfirst
      obtain ⟨hup, hlow⟩ := alignUp_bounds ((first.slidTo cursor).host first.imageEnd) (by omega)
      have hafter := cursor_le_host hlow hrest image hmem w hw
      have hbefore := Image.toNat_host_of_low hfirst hv
      have hv2 := UInt64.lt_iff_toNat_lt.mp hv.2
      have hv1 := UInt64.le_iff_toNat_le.mp hv.1
      rw [Image.preferredBase_slidTo] at hv1
      rw [Image.imageEnd_slidTo] at hv2
      rw [heq] at hbefore
      omega

end Katabasis
