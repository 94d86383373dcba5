import Katabasis.Lib.LittleEndian
import Katabasis.Lib.Maps
import Katabasis.Lib.Readings
import Katabasis.ObjC.Metadata

set_option autoImplicit false

/-! # Reading the metadata

`AnalyzeObjC` (`xlate/src/objc.cpp`) follows the lists that the `__objc_*` sections of an arm64
image hold, through the pointers that its fixups give. What it cannot use it leaves out, with a
message, and goes on.
-/

namespace Katabasis

open Std Reading

/-! ## `Reader` -/

namespace Image

/-- `U32`: zero where the image has no such bytes. -/
def u32 (image : Image) (host : UInt64) : UInt32 :=
  UInt32.ofNat (LittleEndian.ofBytes ((image.readBytes host 4).getD []))

def u64 (image : Image) (host : UInt64) : UInt64 :=
  (image.u32 host).toUInt64 ||| (image.u32 (host + 4)).toUInt64 <<< 32

/-- The bits of a rebase that are its target; the others are a tag. -/
def targetBits : UInt64 := 0x00FFFFFFFFFFFFFF

/-- `Read` -/
def readPointer (image : Image) (host : UInt64) : Pointer :=
  let vmaddr := host - image.slide
  match image.binds[vmaddr]? with
  | some bind => .imported bind.symbol bind.library
  | none =>
      match image.rebases[vmaddr]? with
      | some target => .localTo (image.host (target &&& targetBits))
      | none =>
          let raw := image.u64 host
          if raw ≠ 0 then .raw raw else .null

/-- `Local`: a pointer that should lead into the image. -/
def readLocal (image : Image) (host : UInt64) (what : String) : Reading String UInt64 :=
  match image.readPointer host with
  | .null => pure 0
  | .localTo target => pure target
  | _ => do
      tell (what ++ " is not a pointer into the image")
      pure 0

/-- The characters up to a zero byte, or to where the image has no more. The number counts the
addresses that are left before they wrap. -/
def readChars (image : Image) : Nat → UInt64 → List Char
  | 0, _ => []
  | left + 1, host =>
      match image.readBytes host 1 with
      | some [c] => if c = 0 then [] else Char.ofNat c.toNat :: image.readChars left (host + 1)
      | _ => []

/-- `String` -/
def readString (image : Image) (host : UInt64) : String :=
  String.ofList (image.readChars (0 - host).toNat host)

/-- `SectionNamed` -/
def sectionNamed (image : Image) (name : String) : Option Section :=
  image.sections.find? fun sect => sect.sectname = name ∧ "__DATA".toList.isPrefixOf sect.segname.toList

end Image

/-- The addresses of the entries of so many bytes that begin in a section, as the image places
them. -/
def Section.entries (image : Image) (sect : Section) (size : UInt64) : List UInt64 :=
  (List.range ((sect.size.toNat + size.toNat - 1) / size.toNat)).map fun i =>
    image.host (sect.addr + size * UInt64.ofNat i)

/-- The entries that lie in the section as a whole. -/
def Section.wholeEntries (image : Image) (sect : Section) (size : UInt64) : List UInt64 :=
  (List.range (sect.size.toNat / size.toNat)).map fun i =>
    image.host (sect.addr + size * UInt64.ofNat i)

namespace Metadata

/-! ## Lists -/

/-- The places of the entries of a list, behind its two words. -/
def entryAt (list : UInt64) (entsize : UInt32) (i : Nat) : UInt64 :=
  list + 8 + UInt64.ofNat i * entsize.toUInt64

/-- An offset of 32 bits, with its sign. -/
def signedOffset (offset : UInt32) : UInt64 := offset.toInt32.toInt64.toUInt64

def named (image : Image) (method : Method) : Method :=
  { method with
    selector := image.readString method.nameAddress
    types := image.readString method.typesAddress }

/-- One entry of a list of methods: three offsets, or three pointers. -/
def readMethod (image : Image) (isRelative : Bool) (entsize : UInt32) (entry : UInt64) :
    Reading String (Turn Method) :=
  if isRelative then
    match image.readPointer (entry + signedOffset (image.u32 entry)) with
    | .localTo host =>
        pure (.push (named image
          { nameAddress := host
            typesAddress := entry + 4 + signedOffset (image.u32 (entry + 4))
            imp := entry + 8 + signedOffset (image.u32 (entry + 8)) }))
    | _ => do
        tell "relative method name does not point to a selector reference"
        pure .skip
  else if entsize ≠ 24 then do
    tell "unexpected method entry size"
    pure .leave
  else do
    let nameAddress ← image.readLocal entry "method name"
    let typesAddress ← image.readLocal (entry + 8) "method types"
    let imp ← image.readLocal (entry + 16) "method implementation"
    pure (.push (named image { nameAddress, typesAddress, imp }))

/-- `ReadMethods` -/
def readMethods (image : Image) (list : UInt64) : Reading String (List Method) :=
  if list = 0 then pure []
  else
    let header := image.u32 list
    let isRelative := header &&& 0x80000000 ≠ 0
    let entsize := header &&& 0x0000FFFC
    collect (fun i => readMethod image isRelative entsize (entryAt list entsize i))
      (List.range (image.u32 (list + 4)).toNat)

def readProperty (image : Image) (entry : UInt64) : Reading String (Turn Property) := do
  let nameAddress ← image.readLocal entry "property name"
  let attributesAddress ← image.readLocal (entry + 8) "property attributes"
  pure (.push
    { name := image.readString nameAddress
      attributes := image.readString attributesAddress
      nameAddress, attributesAddress })

/-- `ReadProperties` -/
def readProperties (image : Image) (list : UInt64) : Reading String (List Property) :=
  if list = 0 then pure []
  else
    collect (fun i => readProperty image (entryAt list (image.u32 list) i))
      (List.range (image.u32 (list + 4)).toNat)

/-- A pointer of a list, left out if it is null. -/
def readEntry (image : Image) (what : String) (entry : UInt64) : Reading String (Turn UInt64) := do
  let target ← image.readLocal entry what
  pure (if target = 0 then .skip else .push target)

/-- `ReadProtocolList` -/
def readProtocolList (image : Image) (list : UInt64) : Reading String (List UInt64) :=
  if list = 0 then pure []
  else
    collect (fun i => readEntry image "protocol list entry" (list + 8 + UInt64.ofNat i * 8))
      (List.range (image.u64 list).toNat)

def readIvar (image : Image) (entry : UInt64) : Reading String (Turn Ivar) := do
  let offsetAddress ← image.readLocal entry "ivar offset"
  let nameAddress ← image.readLocal (entry + 8) "ivar name"
  let typeAddress ← image.readLocal (entry + 16) "ivar type"
  pure (.push
    { name := image.readString nameAddress
      type := image.readString typeAddress
      offsetAddress
      offsetValue := if offsetAddress ≠ 0 then image.u32 offsetAddress else 0
      nameAddress, typeAddress
      alignment := image.u32 (entry + 24)
      size := image.u32 (entry + 28) })

def readIvars (image : Image) (list : UInt64) : Reading String (List Ivar) :=
  if list = 0 then pure []
  else
    collect (fun i => readIvar image (entryAt list (image.u32 list) i))
      (List.range (image.u32 (list + 4)).toNat)

/-! ## Classes -/

/-- `ReadData` -/
def readData (image : Image) (ro : UInt64) : Reading String ClassData := do
  let nameAddress ← image.readLocal (ro + 24) "class name"
  let methods ← readMethods image (← image.readLocal (ro + 32) "method list")
  let protocols ← readProtocolList image (← image.readLocal (ro + 40) "class protocols")
  let ivars ← readIvars image (← image.readLocal (ro + 48) "ivar list")
  let properties ← readProperties image (← image.readLocal (ro + 64) "property list")
  pure
    { flags := image.u32 ro
      instanceStart := image.u32 (ro + 4)
      instanceSize := image.u32 (ro + 8)
      name := image.readString nameAddress
      nameAddress, methods, ivars, properties, protocols }

/-- The data word of a class without the flags in its low bits. -/
def untagged (bits : UInt64) : UInt64 := bits &&& ~~~7

/-- A class of `__objc_classlist`. -/
def readClass (image : Image) (entry : UInt64) : Reading String (Turn ObjCClass) := do
  let address ← image.readLocal entry "class list entry"
  if address = 0 then pure .skip
  else
    let metaclass ← image.readLocal address "class isa"
    let bits ← image.readLocal (address + 32) "class data"
    let data ← readData image (untagged bits)
    let metaBits ← image.readLocal (metaclass + 32) "metaclass data"
    let metaData ← readData image (untagged metaBits)
    pure (.push
      { address
        swift := bits &&& 3 ≠ 0
        superclass := image.readPointer (address + 8)
        data, metaclass
        metaIsa := image.readPointer metaclass
        metaSuperclass := image.readPointer (metaclass + 8)
        metaData })

/-- The sections that are searched for class objects. -/
def isSearched (sect : Section) : Bool :=
  "__DATA".toList.isPrefixOf sect.segname.toList && sect.sectname != "__objc_clsrolist" &&
    sect.sectname != "__bss" && sect.sectname != "__common"

/-- The class object whose data word is at a slot, with its `class_ro_t`. -/
def classObjectAt (image : Image) (ros : List UInt64) (slot : UInt64) : Option (UInt64 × UInt64) :=
  match image.readPointer slot with
  | .localTo host => if untagged host ∈ ros then some (slot - 32, untagged host) else none
  | _ => none

/-- `objects` and `object_ro`: the class objects of the listed `class_ro_t`s. -/
def objectRo (image : Image) (ros : List UInt64) : ExtTreeMap UInt64 UInt64 :=
  Maps.insertList
    ((image.sections.filter isSearched).flatMap fun sect =>
      (sect.wholeEntries image 8).filterMap (classObjectAt image ros)) ∅

/-- Whether a class object is a class, or a metaclass. -/
inductive Half
  | cls (superclass : Pointer)
  | metaclass

def hasListedIsa (image : Image) (objects : ExtTreeMap UInt64 UInt64) (object : UInt64) : Bool :=
  match image.readPointer object with
  | .localTo host => objects.contains host
  | _ => false

/-- A class object of `__objc_clsrolist`: a class has to have a listed metaclass. -/
def readHalf (image : Image) (objects : ExtTreeMap UInt64 UInt64) (object : UInt64 × UInt64) :
    Reading String (Turn (UInt64 × Half)) :=
  if image.u32 object.2 &&& 1 ≠ 0 then pure (.push (object.1, .metaclass))
  else if hasListedIsa image objects object.1 then pure (.push (object.1, .cls (image.readPointer (object.1 + 8))))
  else do
    tell "class object of __objc_clsrolist whose isa is not a listed metaclass"
    pure .skip

/-- What `__objc_clsrolist` gives. -/
structure Rolist where
  halves : List (UInt64 × Half) := []
  count : UInt64 := 0
  unowned : UInt64 := 0

def readRolist (image : Image) (list : Section) : Reading String Rolist := do
  let entries ← collect (readEntry image "class ro list entry") (list.entries image 8)
  let ros := entries.dedup
  let objects := objectRo image ros
  let halves ← collect (readHalf image objects) objects.toList
  let owned := (objects.toList.map Prod.snd).dedup
  pure
    { halves
      count := UInt64.ofNat ros.length
      unowned := UInt64.ofNat ros.length - UInt64.ofNat owned.length }

/-! ## The other lists -/

def readCategory (image : Image) (entry : UInt64) : Reading String (Turn ObjCCategory) := do
  let address ← image.readLocal entry "category list entry"
  if address = 0 then pure .skip
  else
    let nameAddress ← image.readLocal address "category name"
    let instanceMethods ←
      readMethods image (← image.readLocal (address + 16) "category methods")
    let classMethods ←
      readMethods image (← image.readLocal (address + 24) "category class methods")
    let protocols ←
      readProtocolList image (← image.readLocal (address + 32) "category protocols")
    let properties ←
      readProperties image (← image.readLocal (address + 40) "category properties")
    pure (.push
      { name := image.readString nameAddress
        nameAddress
        cls := image.readPointer (address + 8)
        instanceMethods, classMethods, properties, protocols })

def isConstantString : Pointer → Bool
  | .imported symbol _ => symbol = "___CFConstantStringClassReference"
  | _ => false

def readConstantString (image : Image) (address : UInt64) :
    Reading String (Turn ConstantString) :=
  if isConstantString (image.readPointer address) then do
    let string ← image.readLocal (address + 16) "constant string contents"
    pure (.push
      { address
        flags := image.u32 (address + 8)
        string
        length := image.u64 (address + 24) })
  else do
    tell "constant string without the CFString class"
    pure .skip

def readSelector (image : Image) (slot : UInt64) : Reading String (Turn SelectorReference) := do
  let string ← image.readLocal slot "selector reference"
  pure (.push { slot, string, selector := image.readString string })

def readProtocol (image : Image) (entry : UInt64) : Reading String (Turn ObjCProtocol) := do
  let address ← image.readLocal entry "protocol list entry"
  if address = 0 then pure .skip
  else
    let nameAddress ← image.readLocal (address + 8) "protocol name"
    let protocols ← readProtocolList image (← image.readLocal (address + 16) "adopted protocols")
    let instanceMethods ←
      readMethods image (← image.readLocal (address + 24) "protocol methods")
    let classMethods ←
      readMethods image (← image.readLocal (address + 32) "protocol class methods")
    let optionalInstanceMethods ←
      readMethods image (← image.readLocal (address + 40) "optional methods")
    let optionalClassMethods ←
      readMethods image (← image.readLocal (address + 48) "optional class methods")
    let properties ←
      readProperties image (← image.readLocal (address + 56) "protocol properties")
    pure (.push
      { address
        name := image.readString nameAddress
        nameAddress, protocols, instanceMethods, classMethods, optionalInstanceMethods,
        optionalClassMethods, properties
        size := image.u32 (address + 64)
        flags := image.u32 (address + 68) })

/-- Only the first protocol at an address is kept. -/
def keepFirst (protocols : List ObjCProtocol) : List ObjCProtocol :=
  protocols.foldl
    (fun kept protocol =>
      if kept.any fun existing => existing.address == protocol.address then kept
      else kept ++ [protocol]) []

/-- What a section lists, if the image has it. -/
def readSection {β : Type} (image : Image) (name : String) (absent : β)
    (read : Section → Reading String β) : Reading String β :=
  match image.sectionNamed name with
  | some list => read list
  | none => pure absent

/-- The superclasses of the classes among the class objects. -/
def Half.superclass? (half : UInt64 × Half) : Option (UInt64 × Pointer) :=
  match half.2 with
  | .cls superclass => some (half.1, superclass)
  | .metaclass => none

/-- All that an image's sections list. -/
def readImage (image : Image) : Reading String ObjCImage := do
  let classes ← readSection image "__objc_classlist" [] fun list =>
    collect (readClass image) (list.entries image 8)
  let rolist ← readSection image "__objc_clsrolist" {} (readRolist image)
  let categories ← readSection image "__objc_catlist" [] fun list =>
    collect (readCategory image) (list.entries image 8)
  let strings ← readSection image "__cfstring" [] fun list =>
    collect (readConstantString image) (list.wholeEntries image 32)
  let selectors ← readSection image "__objc_selrefs" [] fun list =>
    collect (readSelector image) (list.entries image 8)
  let protocols ← readSection image "__objc_protolist" [] fun list =>
    collect (readProtocol image) (list.entries image 8)
  pure
    { classes
      swiftStaticClasses := rolist.halves.map Prod.fst
      clsrolistSuperclass := rolist.halves.filterMap Half.superclass?
      clsrolistCount := rolist.count
      clsrolistUnowned := rolist.unowned
      categories
      protocols := keepFirst protocols
      strings, selectors }

/-- `AnalyzeObjC` -/
def analyzeObjC (image : Image) : ObjCImage :=
  { (readImage image).value with errors := (readImage image).log }

end Metadata

end Katabasis
