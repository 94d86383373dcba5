import Katabasis.Macho.Image

set_option autoImplicit false

/-! # Thread-local templates

The last part of `EmitTables` (`xlate/src/xlate.cpp`): for each guest image with thread-local
variables, the range of its descriptors and the template that the blocks of the threads are
copied from, as `xl_tlv_regions`.
-/

namespace Katabasis

/-- `flags & SECTION_TYPE` -/
def Section.type (s : Section) : UInt32 := s.flags &&& 0xff

def threadLocalRegular : UInt32 := 0x11

def threadLocalZerofill : UInt32 := 0x12

def threadLocalVariables : UInt32 := 0x13

structure ThreadSections where
  vars : Option Section := none
  data : Option Section := none
  bss : Option Section := none

def threadSection (found : ThreadSections) (s : Section) : ThreadSections :=
  if s.type = threadLocalVariables then { found with vars := some s }
  else if s.type = threadLocalRegular then { found with data := some s }
  else if s.type = threadLocalZerofill then { found with bss := some s }
  else found

/-- The last section of each of the three types. -/
def Image.threadSections (image : Image) : ThreadSections := image.sections.foldl threadSection {}

structure TlvRegion where
  varsStart : UInt32
  varsEnd : UInt32
  dataStart : UInt32
  dataSize : UInt32
  totalSize : UInt32
  deriving DecidableEq, Repr

def tlvRegion (image : Image) : Option TlvRegion :=
  image.threadSections.vars.map fun vars =>
    let data := image.threadSections.data
    let dataSize := (data.map Section.size).getD 0
    let bssSize := (image.threadSections.bss.map Section.size).getD 0
    { varsStart := (image.host vars.addr).toUInt32
      varsEnd := (image.host (vars.addr + vars.size)).toUInt32
      dataStart := (data.map fun data => (image.host data.addr).toUInt32).getD 0
      dataSize := dataSize.toUInt32
      totalSize := (dataSize + bssSize).toUInt32 }

/-- `xl_tlv_regions` -/
def tlvRegions (images : List Image) : List TlvRegion := images.filterMap tlvRegion

/-! ## The template in the image -/

/-- Where the two parts of an image's template are, and how long they are. -/
structure Template where
  start : UInt64 := 0
  dataSize : UInt64 := 0
  zeroStart : UInt64 := 0
  zeroSize : UInt64 := 0

def Image.template (image : Image) : Template :=
  match image.threadSections.data, image.threadSections.bss with
  | some data, some bss => ⟨data.addr, data.size, bss.addr, bss.size⟩
  | some data, none => ⟨data.addr, data.size, data.addr + data.size, 0⟩
  | none, some bss => ⟨bss.addr, 0, bss.addr, bss.size⟩
  | none, none => {}

/-- The template's byte at an address of the image. -/
def Image.templateByte (image : Image) (memory : UInt32 → UInt8) (a : Nat) : UInt8 :=
  if a < image.template.start.toNat + image.template.dataSize.toNat then
    memory (image.host (UInt64.ofNat a)).toUInt32
  else 0

/-- The image's template and its descriptors lie in the host's address space, the parts of the
template in their order. -/
structure Image.ThreadPlaced (image : Image) (vars : Section) : Prop where
  vars_eq : image.threadSections.vars = some vars
  ordered : image.template.start.toNat + image.template.dataSize.toNat
    ≤ image.template.zeroStart.toNat
  stop : image.template.zeroStart.toNat + image.template.zeroSize.toNat < 2 ^ 64
  length : image.template.zeroStart.toNat + image.template.zeroSize.toNat
    < image.template.start.toNat + 2 ^ 32
  vars_stop : (image.host vars.addr).toNat + vars.size.toNat < 2 ^ 32

section

variable {image : Image} {vars : Section} (hp : image.ThreadPlaced vars) {r : TlvRegion}
  (hr : tlvRegion image = some r)

include hp hr

theorem toNat_varsStart : r.varsStart.toNat = (image.host vars.addr).toNat := by
  have hstop := hp.vars_stop
  rw [tlvRegion, hp.vars_eq, Option.map_some] at hr
  cases hr
  rw [UInt64.toNat_toUInt32]
  omega

theorem contains_vars_iff (descriptor : UInt32) :
    (r.varsStart ≤ descriptor ∧ descriptor < r.varsEnd) ↔
      (image.host vars.addr).toNat ≤ descriptor.toNat ∧
        descriptor.toNat < (image.host vars.addr).toNat + vars.size.toNat := by
  have hend : image.host (vars.addr + vars.size) = image.host vars.addr + vars.size := by
    simp only [Image.host]
    rw [UInt64.add_assoc, UInt64.add_comm vars.size, UInt64.add_assoc]
  have hstop := hp.vars_stop
  rw [tlvRegion, hp.vars_eq, Option.map_some] at hr
  cases hr
  dsimp only
  rw [UInt32.le_iff_toNat_le, UInt32.lt_iff_toNat_lt, hend, UInt64.toNat_toUInt32,
    UInt64.toNat_toUInt32, UInt64.toNat_add, Nat.mod_eq_of_lt (by omega),
    Nat.mod_eq_of_lt (by omega), Nat.mod_eq_of_lt (by omega)]

theorem sizes_tlvRegion :
    r.dataSize.toNat = image.template.dataSize.toNat ∧
      r.totalSize.toNat = image.template.dataSize.toNat + image.template.zeroSize.toNat := by
  have hordered := hp.ordered
  have hlength := hp.length
  have hsizes : r.dataSize = image.template.dataSize.toUInt32 ∧
      r.totalSize = (image.template.dataSize + image.template.zeroSize).toUInt32 := by
    rw [tlvRegion, hp.vars_eq, Option.map_some] at hr
    cases hr
    unfold Image.template
    cases image.threadSections.data <;> cases image.threadSections.bss <;> exact ⟨rfl, rfl⟩
  rw [hsizes.1, hsizes.2, UInt64.toNat_toUInt32, UInt64.toNat_toUInt32, UInt64.toNat_add]
  omega

/-- The bytes a block is copied from are the template's. -/
theorem copied_eq_templateByte (memory : UInt32 → UInt8) (k : Nat) :
    (if k < r.dataSize.toNat then memory (r.dataStart + UInt32.ofNat k) else 0)
      = image.templateByte memory (image.template.start.toNat + k) := by
  rw [(sizes_tlvRegion hp hr).1, Image.templateByte]
  by_cases hk : k < image.template.dataSize.toNat
  · rw [if_pos hk, if_pos (by omega)]
    congr 1
    have hstart : r.dataStart = (image.host image.template.start).toUInt32 := by
      rw [tlvRegion, hp.vars_eq, Option.map_some] at hr
      cases hr
      unfold Image.template at hk ⊢
      cases hdata : image.threadSections.data with
      | some data => cases image.threadSections.bss <;> rfl
      | none =>
          rw [hdata] at hk
          cases hbss : image.threadSections.bss <;> simp [hbss] at hk
    rw [hstart, UInt64.ofNat_add, UInt64.ofNat_toNat]
    simp only [Image.host]
    rw [UInt64.add_assoc, UInt64.add_comm (UInt64.ofNat k), ← UInt64.add_assoc,
      UInt64.toUInt32_add _ (UInt64.ofNat k), UInt64.toUInt32_ofNat']
  · rw [if_neg hk, if_neg (by omega)]

end

end Katabasis
