import Mathlib.Tactic
import Std.Data.ExtTreeMap

set_option autoImplicit false

/-! # Guest images

An arm64 Mach-O image as `xlate` holds it after parsing (`xlate/src/macho.h`,
`xlate/src/macho.cpp`): its segments and sections, the tables the loader information gives
(function starts, call stubs, binds, rebases, exports, re-exports) and the slide that
`LayoutAndResolve` assigns. Addresses are `UInt64`, with the wrapping arithmetic of the
source; `std::map` is `Std.ExtTreeMap`, which iterates in key order as the source does.
-/

namespace Katabasis

open Std

structure Segment where
  name : String
  vmaddr : UInt64 := 0
  vmsize : UInt64 := 0
  fileoff : UInt64 := 0
  filesize : UInt64 := 0
  initprot : UInt32 := 0

structure Section where
  segname : String
  sectname : String
  addr : UInt64 := 0
  size : UInt64 := 0
  flags : UInt32 := 0

structure Bind where
  symbol : String
  addend : UInt64 := 0
  weakImport : Bool := false
  /-- Install name of the dylib the bind names; empty for a flat-namespace or unknown one. -/
  library : String := ""

/-- A call stub, with what the image's own symbol table says of the symbol it is bound to. -/
structure Stub where
  symbol : String
  library : String := ""
  weak : Bool := false

/-- An entry of the export trie that sends a name to another library's. -/
structure Reexport where
  library : String
  symbol : String

/-- A byte range `LC_DATA_IN_CODE` marks as not-instructions. -/
structure DataInCodeRange where
  vmaddr : UInt64
  length : UInt64

structure Image where
  path : String := ""
  installName : String := ""
  reexportedLibraries : List String := []
  segments : List Segment := []
  sections : List Section := []
  slide : UInt64 := 0
  functions : List UInt64 := []
  stubs : ExtTreeMap UInt64 Stub := ∅
  binds : ExtTreeMap UInt64 Bind := ∅
  rebases : ExtTreeMap UInt64 UInt64 := ∅
  exports : ExtTreeMap String UInt64 := ∅
  reexports : ExtTreeMap String Reexport := ∅
  dataInCode : List DataInCodeRange := []
  /-- The bytes of the file. -/
  data : List UInt8 := []

/-- A fold that only goes down ends below where it starts, and below what one of its steps always
goes below. -/
theorem foldl_under {α β : Type} {r : β → β → Prop} (hrefl : ∀ b, r b b)
    (htrans : ∀ {a b c}, r a b → r b c → r a c) {step : β → α → β} (hstep : ∀ b a, r (step b a) b)
    {a : α} {x : β} (hx : ∀ b, r (step b a) x) (l : List α) (b : β) :
    r (l.foldl step b) b ∧ (a ∈ l → r (l.foldl step b) x) := by
  induction l generalizing b with
  | nil => exact ⟨hrefl b, fun h => nomatch h⟩
  | cons first rest ih =>
      obtain ⟨hstart, hmem⟩ := ih (step b first)
      refine ⟨htrans hstart (hstep b first), fun h => ?_⟩
      rcases List.mem_cons.mp h with rfl | hrest
      · exact htrans hstart (hx b)
      · exact hmem hrest

theorem uint64_le_max (a b : UInt64) : a ≤ max a b ∧ b ≤ max a b := by
  have hmax : max a b = if a ≤ b then b else a := rfl
  rw [hmax]
  split
  case isTrue h => exact ⟨h, UInt64.le_refl b⟩
  case isFalse h => exact ⟨UInt64.le_refl a, UInt64.le_of_lt (UInt64.not_le.mp h)⟩

namespace Image

/-- The lowest address of a mapped segment, `__LINKEDIT` included. -/
def preferredBase (image : Image) : UInt64 :=
  image.segments.foldl
    (fun base segment =>
      if segment.name ≠ "__PAGEZERO" ∧ segment.vmsize ≠ 0 then min base segment.vmaddr else base)
    0xFFFFFFFFFFFFFFFF

/-- The end of the highest segment, `__LINKEDIT` not included. -/
def imageEnd (image : Image) : UInt64 :=
  image.segments.foldl
    (fun bound segment =>
      if segment.name ≠ "__PAGEZERO" ∧ segment.name ≠ "__LINKEDIT" then
        max bound (segment.vmaddr + segment.vmsize)
      else bound)
    0

/-- Where the image puts one of its own addresses. -/
def host (image : Image) (vmaddr : UInt64) : UInt64 := vmaddr + image.slide

def segmentForVM (image : Image) (vmaddr : UInt64) : Option Segment :=
  image.segments.find? fun segment =>
    segment.name ≠ "__PAGEZERO" ∧ vmaddr ≥ segment.vmaddr ∧ vmaddr < segment.vmaddr + segment.vmsize

/-- The byte a segment holds at an offset: the file's, and zero past the file's part. -/
def segmentByte (image : Image) (segment : Segment) (offset : UInt64) : UInt8 :=
  if offset < segment.filesize then image.data.getD (segment.fileoff + offset).toNat 0 else 0

/-- `ReadBytes`: the bytes at a placed address, `none` where it returns false and leaves the
caller's buffer as it was. -/
def readBytes (image : Image) (hostAddr : UInt64) (size : UInt64) : Option (List UInt8) :=
  let vmaddr := hostAddr - image.slide
  match image.segmentForVM vmaddr with
  | none => none
  | some segment =>
      if vmaddr + size > segment.vmaddr + segment.vmsize then none
      else some ((List.range size.toNat).map fun i =>
        image.segmentByte segment (vmaddr + UInt64.ofNat i - segment.vmaddr))

/-- No mapped segment starts below the base. -/
theorem preferredBase_le (image : Image) {segment : Segment} (h : segment ∈ image.segments)
    (hname : segment.name ≠ "__PAGEZERO") (hsize : segment.vmsize ≠ 0) :
    image.preferredBase ≤ segment.vmaddr := by
  refine (foldl_under (r := (· ≤ ·)) UInt64.le_refl UInt64.le_trans (fun base first => ?_)
    (fun base => ?_) image.segments _).2 h
  · split
    · exact Std.min_le_left
    · exact UInt64.le_refl base
  · rw [if_pos ⟨hname, hsize⟩]
    exact Std.min_le_right

/-- No segment but `__LINKEDIT` ends above the end. -/
theorem le_imageEnd (image : Image) {segment : Segment} (h : segment ∈ image.segments)
    (hname : segment.name ≠ "__PAGEZERO") (hlink : segment.name ≠ "__LINKEDIT") :
    segment.vmaddr + segment.vmsize ≤ image.imageEnd := by
  refine (foldl_under (r := (· ≥ ·)) UInt64.le_refl (fun h h' => UInt64.le_trans h' h)
    (fun bound first => ?_) (fun bound => ?_) image.segments _).2 h
  · split
    · exact (uint64_le_max bound _).1
    · exact UInt64.le_refl bound
  · rw [if_pos ⟨hname, hlink⟩]
    exact (uint64_le_max bound _).2

theorem host_sub_slide (image : Image) (vmaddr : UInt64) :
    image.host vmaddr - image.slide = vmaddr := by
  simp [host]

theorem host_injective (image : Image) : Function.Injective image.host := by
  intro a b h
  have := congrArg (· - image.slide) h
  simpa [host_sub_slide] using this

/-- The export of a name, where the image is placed. -/
def exported (image : Image) (symbol : String) : Option UInt64 :=
  image.exports[symbol]?.map image.host

end Image

end Katabasis
