import Katabasis.Xlate.Initializers

set_option autoImplicit false

/-! # The code that is lifted

`ReadCode` (`xlate/src/xlate.cpp`) hands the lifter the bytes of a function. It reads the file, not
the memory of the translated program, where the same addresses hold what `EmitGuestData` placed
there: the constants in the code, and the code itself where a guest reads it. The two agree byte by
byte (`readCode_emitted`).
-/

namespace Katabasis

open Std

def S_ATTR_PURE_INSTRUCTIONS : UInt32 := 0x80000000
def S_ATTR_SOME_INSTRUCTIONS : UInt32 := 0x400

namespace Image

/-- `SectionAt` -/
def sectionAt (image : Image) (hostAddr : UInt64) : Option Section :=
  let vmaddr := hostAddr - image.slide
  image.sections.find? fun sect => vmaddr ≥ sect.addr ∧ vmaddr < sect.addr + sect.size

/-- `IsExecutable` -/
def isExecutable (image : Image) (hostAddr : UInt64) : Bool :=
  (image.sectionAt hostAddr).any fun sect =>
    sect.flags &&& (S_ATTR_PURE_INSTRUCTIONS ||| S_ATTR_SOME_INSTRUCTIONS) != 0

end Image

/-- `ReadCode`: the bytes it writes to the buffer; none where it returns zero. -/
def Program.readCode (p : Program) (address size : UInt64) : List UInt8 :=
  match p.imageAt address with
  | none => []
  | some image =>
      if !image.isExecutable address || p.stubToGuest.contains address ||
          p.stubToHost.contains address then []
      else match image.sectionAt address with
        | none => []
        | some sect =>
            let stop := image.host (sect.addr + sect.size)
            (image.readBytes address (min size (stop - address))).getD []

/-- The lifter may read code at the address, which is in that section of that image. -/
structure Program.CodeAt (p : Program) (address : UInt64) (image : Image) (sect : Section) :
    Prop where
  imageAt : p.imageAt address = some image
  sectionAt : image.sectionAt address = some sect
  executable : image.isExecutable address = true
  notGuestStub : p.stubToGuest.contains address = false
  notHostStub : p.stubToHost.contains address = false

section

variable {p : Program} {address size : UInt64} {image : Image} {sect : Section}
  {segment : Segment}

/-- What is left of the section, from the address on. -/
def sectionRest (image : Image) (sect : Section) (address : UInt64) : Nat :=
  sect.addr.toNat + sect.size.toNat - (address - image.slide).toNat

theorem toNat_min (a b : UInt64) : (min a b).toNat = min a.toNat b.toNat := by
  have hmin : min a b = if a ≤ b then a else b := rfl
  rw [hmin]
  split
  case isTrue h =>
    have := UInt64.le_iff_toNat_le.mp h
    omega
  case isFalse h =>
    have := UInt64.lt_iff_toNat_lt.mp (UInt64.not_le.mp h)
    omega

/-- The lifter gets what it asks for, up to the end of the section. -/
theorem readCode_eq (hi : image.Segmented) (hcode : p.CodeAt address image sect)
    (hmem : segment ∈ image.segments) (hmapped : segment.isMapped = true)
    (hstart : segment.vmaddr.toNat ≤ sect.addr.toNat)
    (hstop : sect.addr.toNat + sect.size.toNat ≤ segment.stop) (hsize : size ≠ 0) :
    p.readCode address size
      = (List.range (min size.toNat (sectionRest image sect address))).map fun k =>
          image.byteAt (UInt64.ofNat ((address - image.slide).toNat + k)) := by
  have hb : segment.stop < 2 ^ 64 := hi.bounded segment hmem
  have hend : (sect.addr + sect.size).toNat = sect.addr.toNat + sect.size.toNat := by
    rw [UInt64.toNat_add]
    exact Nat.mod_eq_of_lt (by omega)
  have hin := List.find?_some hcode.sectionAt
  simp only [decide_eq_true_eq, ge_iff_le, UInt64.le_iff_toNat_le, UInt64.lt_iff_toNat_lt,
    hend] at hin
  -- the end of the section, as far from the address as in the image
  have hleft : image.host (sect.addr + sect.size) - address
      = sect.addr + sect.size - (address - image.slide) := by
    rw [Image.host]
    grind
  have hlen : (min size (image.host (sect.addr + sect.size) - address)).toNat
      = min size.toNat (sectionRest image sect address) := by
    rw [toNat_min, hleft, UInt64.toNat_sub_of_le _ _ (UInt64.le_iff_toNat_le.mpr (by omega)), hend]
    rfl
  have hpos : 0 < size.toNat := by
    have : size.toNat ≠ 0 := fun h => hsize (UInt64.toNat_inj.mp h)
    omega
  have hhost : image.host (address - image.slide) = address := by
    rw [Image.host, UInt64.sub_add_cancel]
  have hread : image.readBytes (image.host (address - image.slide))
      (min size (image.host (sect.addr + sect.size) - address)) = _ :=
    readBytes_eq hi hmem hmapped (by omega) (by rw [hlen, sectionRest]; omega) (by rw [hlen, sectionRest]; omega)
  rw [hhost, hlen] at hread
  unfold Program.readCode
  simp only [hcode.imageAt, hcode.executable, hcode.notGuestStub, hcode.notHostStub, hcode.sectionAt,
    Bool.not_true, Bool.or_false, Bool.false_eq_true, if_false, hread, Option.getD_some]

end

/-- **What the lifter decodes is what the translated program has in memory**: from an address of
code on, as many bytes as it asks for, up to the end of the section and no further, are the bytes
that `EmitGuestData` places at the addresses of the guest. -/
theorem readCode_emitted {p : Program} {passthrough : String → Bool} {overrides : Overrides}
    (hok : (emitGuestData p passthrough overrides).ok = true) {i : Nat} {image : Image}
    (hp : p.images[i]? = some image) (hi : image.Segmented)
    (ha : ∀ segment ∈ image.segments, segment.isMapped = true →
      Arranged image segment (segmentSlots p passthrough image segment).slots overrides)
    (hfix : ∀ k, Program.FixedUp image k →
      ∃ segment ∈ image.segments, segment.isMapped = true ∧ segment.contains k = true)
    {address size : UInt64} {sect : Section} (hcode : p.CodeAt address image sect)
    {segment : Segment} (hmem : segment ∈ image.segments) (hmapped : segment.isMapped = true)
    (hstart : segment.vmaddr.toNat ≤ sect.addr.toNat)
    (hstop : sect.addr.toNat + sect.size.toNat ≤ segment.stop)
    (hplain : ∀ k, Program.FixedUp image k →
      k.toNat + 8 ≤ sect.addr.toNat ∨ sect.addr.toNat + sect.size.toNat ≤ k.toNat)
    (hun : ∀ a, sect.addr.toNat ≤ a → a < sect.addr.toNat + sect.size.toNat →
      Uncovered image segment overrides a)
    (hsize : size ≠ 0) (hostAddress : String → UInt32) :
    (p.readCode address size).length = min size.toNat (sectionRest image sect address) ∧
    ∀ k < (p.readCode address size).length,
      (p.readCode address size)[k]?
        = ((chunkCells (segmentChunks p passthrough overrides i image segment))[
            (address - image.slide).toNat + k - segment.vmaddr.toNat]?).map
              (Cell.value hostAddress) := by
  have hread : p.readCode address size = _ :=
    readCode_eq hi hcode hmem hmapped hstart hstop hsize
  have hlen : (p.readCode address size).length = min size.toNat (sectionRest image sect address) := by
    rw [hread, List.length_map, List.length_range]
  refine ⟨hlen, fun k hk => ?_⟩
  rw [hlen] at hk
  have hb : segment.stop < 2 ^ 64 := hi.bounded segment hmem
  have hin := List.find?_some hcode.sectionAt
  have hend : (sect.addr + sect.size).toNat = sect.addr.toNat + sect.size.toNat := by
    rw [UInt64.toNat_add]
    exact Nat.mod_eq_of_lt (by omega)
  simp only [decide_eq_true_eq, ge_iff_le, UInt64.le_iff_toNat_le, UInt64.lt_iff_toNat_lt,
    hend] at hin
  have hlt : (address - image.slide).toNat + k < sect.addr.toNat + sect.size.toNat := by
    rw [sectionRest] at hk
    omega
  have hemitted := (emitGuestData_loads hok hp hi ha hfix hostAddress hmem hmapped).2
    ((address - image.slide).toNat + k) (by omega) (by omega) (hun _ (by omega) hlt)
  rw [hemitted, hread, List.getElem?_map, List.getElem?_range hk, Option.map_some,
    Program.loaded_of_not_covered]
  intro k' hk'
  have := hplain k' hk'
  omega

/-- The image of `fixedUp`, its text a section of code. -/
def coded : Image := { fixedUp with sections := [⟨"__TEXT", "__text", 0, 4, 0x80000400⟩] }

def codedProgram : Program := { images := [coded] }

theorem codedProgram_codeAt :
    codedProgram.CodeAt 0x1001 coded ⟨"__TEXT", "__text", 0, 4, 0x80000400⟩ :=
  ⟨rfl, rfl, rfl, rfl, rfl⟩

/-- Three bytes are left of the section, and they are the emitted ones. -/
theorem readCode_emitted_coded :
    codedProgram.readCode 0x1001 8 = [1, 2, 3] ∧
    ∀ k < 3, (codedProgram.readCode 0x1001 8)[k]?
      = ((chunkCells (segmentChunks codedProgram (fun symbol => symbol == "_puts") ∅ 0 coded
          ⟨"__TEXT", 0, 4, 0, 4, 5⟩))[1 + k - 0]?).map (Cell.value fun _ => 0) := by
  have hok : (emitGuestData codedProgram (fun symbol => symbol == "_puts") ∅).ok = true := by
    decide
  have hi : coded.Segmented := ⟨fixedUp_segmented.bounded, fixedUp_segmented.apart⟩
  have hplain : ∀ k, Program.FixedUp coded k → k.toNat + 8 ≤ 0 ∨ 0 + 4 ≤ k.toNat := by
    intro k hk
    rcases hk with hk | hk
    · rw [coded, fixedUp, ExtTreeMap.mem_insert, LawfulEqCmp.compare_eq_iff_eq] at hk
      rcases hk with rfl | hk
      · decide
      · exact absurd hk ExtTreeMap.not_mem_empty
    · rw [coded, fixedUp, ExtTreeMap.mem_insert, LawfulEqCmp.compare_eq_iff_eq] at hk
      rcases hk with rfl | hk
      · decide
      · exact absurd hk ExtTreeMap.not_mem_empty
  have hnone : segmentOverrides coded ⟨"__TEXT", 0, 4, 0, 4, 5⟩ ∅ = [] := rfl
  have hread : codedProgram.readCode 0x1001 8 = [1, 2, 3] := by decide
  refine ⟨hread, fun k hk => ?_⟩
  refine (readCode_emitted (i := 0) hok rfl hi (by decide) (fun _ => fixedUp_mapped)
    codedProgram_codeAt (.head _) (by decide) (by decide) (by decide) hplain ?_ (by decide)
    fun _ => 0).2 k (by rwa [hread])
  intro a _ _ piece hpiece
  rw [hnone] at hpiece
  cases hpiece

end Katabasis
