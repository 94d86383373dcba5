import Katabasis.Lib.Assemble
import Katabasis.Xlate.Overrides

set_option autoImplicit false

/-! # The guest's memory as host globals

`EmitGuestData` (`xlate/src/xlate.cpp`): each segment of a guest image becomes a sequence of
packed, unaligned globals (*chunks*) in a host section of its own. A chunk holds bytes of the
image, pointer slots that the loader information fills, and the overrides of
`Xlate/Overrides.lean`; an override that other code refers to by name is a chunk by itself.
`WriteLayout` then tells the linker where each host segment starts.
-/

namespace Katabasis

open Std

/-! ## Slots -/

/-- What a rebased or bound slot of eight bytes holds. -/
inductive SlotValue
  | value (v : UInt64)
  | host (symbol : String) (addend : UInt32)
  deriving DecidableEq, Repr

def SlotValue.constant : SlotValue → Constant
  | value v => .int64 v
  | host symbol addend => .wideAddress symbol addend

def Segment.contains (segment : Segment) (vmaddr : UInt64) : Bool :=
  decide (vmaddr ≥ segment.vmaddr ∧ vmaddr < segment.vmaddr + segment.vmsize)

structure Slots where
  slots : ExtTreeMap UInt64 SlotValue := ∅
  errs : List String := []
  ok : Bool := true

def rebaseSlot (image : Image) (segment : Segment) (acc : Slots) (entry : UInt64 × UInt64) :
    Slots :=
  if !segment.contains entry.1 then acc
  else
    let value := entry.2 &&& 0x00FFFFFFFFFFFFFF
    if value < image.preferredBase ∨ value ≥ image.imageEnd then
      { acc with
        errs := acc.errs ++ ["xlate: " ++ image.path ++ ": rebase at 0x" ++ Hex entry.1 ++
          " targets 0x" ++ Hex value ++ " outside the image\n"]
        ok := false }
    else { acc with slots := acc.slots.insert entry.1 (.value (image.host value)) }

def bindSlot (p : Program) (passthrough : String → Bool) (image : Image) (segment : Segment)
    (acc : Slots) (entry : UInt64 × Bind) : Slots :=
  let bind := entry.2
  if !segment.contains entry.1 then acc
  else match p.exports.find bind.library bind.symbol with
  | some target =>
      { acc with slots := acc.slots.insert entry.1 (.value (target + bind.addend)) }
  | none =>
      if passthrough bind.symbol then
        { acc with slots := acc.slots.insert entry.1 (.host bind.symbol bind.addend.toUInt32) }
      else if bind.symbol = "dyld_stub_binder" ∨ bind.weakImport ∨ isTrap bind.symbol then
        { acc with
          slots := acc.slots.insert entry.1 (.value 0)
          errs := if bind.weakImport ∧ (p.exports.find "" bind.symbol).isSome then
              acc.errs ++ ["xlate: " ++ image.path ++ ": weak import " ++ bind.symbol ++ " of " ++
                bind.library ++ " is left unbound although a guest image defines that name; a " ++
                "bind takes the library it names\n"]
            else acc.errs }
      else
        { acc with
          errs := acc.errs ++ ["xlate: " ++ image.path ++ ": data bind to unresolved symbol " ++
            bind.symbol ++ "\n"]
          ok := false }

/-- The slots of a segment: the rebases, then the binds. -/
def segmentSlots (p : Program) (passthrough : String → Bool) (image : Image)
    (segment : Segment) : Slots :=
  image.binds.toList.foldl (bindSlot p passthrough image segment)
    (image.rebases.toList.foldl (rebaseSlot image segment) {})

/-! ## Pieces -/

def slotPiece (v : SlotValue) : Override where
  fields := [v.constant]
  size := 8
  size_fields := by cases v <;> rfl
  size_pos := by decide

/-- An override takes the place of the pieces that start inside it. -/
def overlay (image : Image) (segment : Segment) (pieces : Overrides)
    (entry : UInt64 × Override) : Overrides :=
  let vmaddr := entry.1 - image.slide
  if !segment.contains vmaddr then pieces
  else (pieces.filter fun key _ => !decide (vmaddr ≤ key ∧ key < vmaddr + entry.2.size)).insert
    vmaddr entry.2

def segmentPieces (image : Image) (segment : Segment) (slots : ExtTreeMap UInt64 SlotValue)
    (overrides : Overrides) : Overrides :=
  overrides.toList.foldl (overlay image segment) (slots.map fun _ v => slotPiece v)

/-! ## Chunks -/

/-- A field of a chunk: bytes copied from the image, or a constant of the piece at `owner`.
(The source keeps the constant alone.) -/
inductive Field
  | data (bytes : List UInt8)
  | part (owner : UInt64) (value : Constant)

structure Chunk where
  name : String
  fields : List Field

structure Emission where
  fields : List Field := []
  cursor : UInt64
  chunkStart : UInt64
  chunks : List Chunk := []

/-- The bytes of a segment: zero where the image cannot be read. -/
def segmentBytes (image : Image) (segment : Segment) : List UInt8 :=
  (image.readBytes (image.host segment.vmaddr) segment.vmsize).getD
    (List.replicate segment.vmsize.toNat 0)

namespace Emission

def closeChunk (imageIndex : Nat) (e : Emission) : Emission :=
  if e.fields.isEmpty then e
  else { e with
    chunks := e.chunks ++ [⟨"guest_" ++ toString imageIndex ++ "_" ++ Hex e.chunkStart, e.fields⟩]
    fields := [] }

/-- The image's bytes from the cursor on, up to `limit`. -/
def flush (bytes : List UInt8) (segment : Segment) (limit : UInt64) (e : Emission) : Emission :=
  if limit > e.cursor then
    { e with
      fields := e.fields ++ [.data ((bytes.drop (e.cursor - segment.vmaddr).toNat).take
        (limit - e.cursor).toNat)]
      cursor := limit }
  else e

def emitPiece (imageIndex : Nat) (bytes : List UInt8) (segment : Segment) (e : Emission)
    (entry : UInt64 × Override) : Emission :=
  let e := e.flush bytes segment entry.1
  let parts := entry.2.fields.map (Field.part entry.1)
  match entry.2.globalName with
  | some name =>
      let e := e.closeChunk imageIndex
      { e with
        chunks := e.chunks ++ [⟨name, parts⟩]
        cursor := entry.1 + entry.2.size
        chunkStart := entry.1 + entry.2.size }
  | none => { e with fields := e.fields ++ parts, cursor := entry.1 + entry.2.size }

end Emission

/-- The chunks of one segment. -/
def emitSegment (imageIndex : Nat) (image : Image) (segment : Segment) (pieces : Overrides) :
    List Chunk :=
  let bytes := segmentBytes image segment
  let e := pieces.toList.foldl (Emission.emitPiece imageIndex bytes segment)
    { cursor := segment.vmaddr, chunkStart := segment.vmaddr }
  ((e.flush bytes segment (segment.vmaddr + segment.vmsize)).closeChunk imageIndex).chunks

/-! ## The program -/

/-- The segments that become host segments. -/
def Segment.isMapped (segment : Segment) : Bool :=
  segment.name != "__PAGEZERO" && segment.name != "__LINKEDIT" && segment.vmsize != 0

structure Merging where
  mergeData : Bool := true
  first : Bool := true
  previousEnd : UInt64 := 0

def mergeStep (acc : Merging) (segment : Segment) : Merging :=
  if !segment.isMapped || segment.name == "__TEXT" then acc
  else
    { mergeData := acc.mergeData && (acc.first || segment.vmaddr == acc.previousEnd)
      first := false
      previousEnd := segment.vmaddr + segment.vmsize }

/-- The segments of an image other than `__TEXT` become one host segment, each of them starting
where the previous one ends. -/
def mergeData (image : Image) : Bool := (image.segments.foldl mergeStep {}).mergeData

def hostName (imageIndex : Nat) (merge : Bool) (segment : Segment) : String :=
  if merge && segment.name != "__TEXT" then "__X" ++ toString imageIndex ++ "DATA"
  else "__X" ++ toString imageIndex ++ ((segment.name.drop 2).take 12).toString

structure GuestSegment where
  image : Image
  segment : Segment
  hostName : String

/-- What `EmitGuestData` does: the segments for `WriteLayout`, and the chunks it places, each
with its host segment, in the order of the module. -/
structure GuestData where
  out : List GuestSegment := []
  placed : List (String × Chunk) := []
  errs : List String := []
  ok : Bool := true

def emitOne (p : Program) (passthrough : String → Bool) (overrides : Overrides)
    (imageIndex : Nat) (image : Image) (acc : GuestData) (segment : Segment) : GuestData :=
  if !segment.isMapped then acc
  else
    let name := hostName imageIndex (mergeData image) segment
    let slots := segmentSlots p passthrough image segment
    let chunks := emitSegment imageIndex image segment
      (segmentPieces image segment slots.slots overrides)
    { out := acc.out ++ [⟨image, segment, name⟩]
      placed := acc.placed ++ chunks.map fun chunk => (name, chunk)
      errs := acc.errs ++ slots.errs
      ok := acc.ok && slots.ok }

def emitGuestData (p : Program) (passthrough : String → Bool) (overrides : Overrides) :
    GuestData :=
  p.images.zipIdx.foldl (fun acc (image, imageIndex) =>
    image.segments.foldl (emitOne p passthrough overrides imageIndex image) acc) {}

/-! ## The layout for the linker -/

structure LayoutTable where
  order : List String := []
  lowest : ExtTreeMap String UInt64 := ∅
  writable : ExtTreeMap String Bool := ∅

def layoutStep (t : LayoutTable) (entry : GuestSegment) : LayoutTable :=
  let address := entry.image.host entry.segment.vmaddr
  let writable := t.writable.insert entry.hostName
    ((t.writable[entry.hostName]?).getD false || entry.segment.initprot &&& 2 != 0)
  match t.lowest[entry.hostName]? with
  | none =>
      { order := t.order ++ [entry.hostName]
        lowest := t.lowest.insert entry.hostName address
        writable }
  | some low => { t with lowest := t.lowest.insert entry.hostName (min low address), writable }

def layoutTable (segments : List GuestSegment) : LayoutTable := segments.foldl layoutStep {}

/-- The lines of `WriteLayout`. -/
def writeLayout (segments : List GuestSegment) : List String :=
  let t := layoutTable segments
  t.order.flatMap fun name =>
    let prot := if (t.writable[name]?).getD false then "rw" else "r"
    ["-Wl,-segaddr," ++ name ++ ",0x" ++ Hex ((t.lowest[name]?).getD 0) ++ "\n",
      "-Wl,-segprot," ++ name ++ "," ++ prot ++ "," ++ prot ++ "\n"]

end Katabasis
