import Katabasis.ObjC.Manifest

set_option autoImplicit false

/-! # The manifest, as it is read

What `EmitClasses` (`xlate/src/xlgen.cpp`) takes from the manifest. It reads a member where it
needs it and does not ask whether it is there; here all are read first, and a manifest without one
gives nothing. A manifest that `xlate` has written is read in full (`readManifest_written`).
-/

namespace Katabasis.Manifest

open Json

/-- A method: the type encoding is read as text, not where it lies in the guest. -/
structure Method where
  selector : String
  types : String
  nameAddress : UInt64
  imp : UInt64
  deriving DecidableEq, Repr

/-- An instance variable; its name and type are read where they lie in the guest. -/
structure Ivar where
  offsetAddress : UInt64
  offsetValue : UInt64
  nameAddress : UInt64
  typeAddress : UInt64
  alignment : UInt64
  size : UInt64
  deriving DecidableEq, Repr

structure Property where
  nameAddress : UInt64
  attributesAddress : UInt64
  deriving DecidableEq, Repr

/-- The two halves of a class, its own and its metaclass's, are written alike. -/
structure ClassData where
  flags : UInt64
  instanceStart : UInt64
  instanceSize : UInt64
  name : String
  nameAddress : UInt64
  methods : List Method
  ivars : List Ivar
  properties : List Property
  protocols : List UInt64
  deriving DecidableEq, Repr

/-- A class, as far as it is read: not its metaclass, and no `isa`. -/
structure ObjCClass where
  address : UInt64
  superclass : Pointer
  data : ClassData
  metaData : ClassData
  deriving DecidableEq, Repr

/-- A category of a guest class, of another image's or of the host's. -/
structure ObjCCategory where
  name : String
  nameAddress : UInt64
  cls : Pointer
  instanceMethods : List Method
  classMethods : List Method
  properties : List Property
  protocols : List UInt64
  deriving DecidableEq, Repr

structure ObjCProtocol where
  address : UInt64
  name : String
  protocols : List UInt64
  instanceMethods : List Method
  classMethods : List Method
  optionalInstanceMethods : List Method
  optionalClassMethods : List Method
  properties : List Property
  deriving DecidableEq, Repr

structure ObjCImage where
  index : Nat
  errors : List String
  protocols : List ObjCProtocol
  classes : List ObjCClass
  categories : List ObjCCategory
  selectors : List (UInt64 × String)
  swiftStaticClasses : List UInt64
  swiftListedClasses : List UInt64

/-! ## Reading -/

/-- JSON's numbers are signed, and an address above `2^63` is written as a negative one. -/
def readAddress (json : Json) (key : String) : Option UInt64 :=
  (json.getInteger key).map Int64.toUInt64

def asAddress (json : Json) : Option UInt64 := json.asInteger.map Int64.toUInt64

def readAddresses (json : Json) (key : String) : Option (List UInt64) :=
  json.getEach key asAddress

/-- The library of an import is not asked for. -/
def readPointer (json : Json) : Option Pointer := do
  let kind ← json.getString "kind"
  if kind = "import" then some (.imported (← json.getString "symbol") "")
  else if kind = "local" then some (.localTo (← readAddress json "address"))
  else if kind = "raw" then some (.raw (← readAddress json "address"))
  else some .null

def readMethod (json : Json) : Option Method := do
  some
    { selector := ← json.getString "selector"
      types := ← json.getString "types"
      nameAddress := ← readAddress json "name_address"
      imp := ← readAddress json "imp" }

def readIvar (json : Json) : Option Ivar := do
  some
    { offsetAddress := ← readAddress json "offset_address"
      offsetValue := ← readAddress json "offset_value"
      nameAddress := ← readAddress json "name_address"
      typeAddress := ← readAddress json "type_address"
      alignment := ← readAddress json "alignment"
      size := ← readAddress json "size" }

def readProperty (json : Json) : Option Property := do
  some
    { nameAddress := ← readAddress json "name_address"
      attributesAddress := ← readAddress json "attributes_address" }

def readData (json : Json) : Option ClassData := do
  some
    { flags := ← readAddress json "flags"
      instanceStart := ← readAddress json "instance_start"
      instanceSize := ← readAddress json "instance_size"
      name := ← json.getString "name"
      nameAddress := ← readAddress json "name_address"
      methods := ← json.getEach "methods" readMethod
      ivars := ← json.getEach "ivars" readIvar
      properties := ← json.getEach "properties" readProperty
      protocols := ← readAddresses json "protocols" }

def readClass (json : Json) : Option ObjCClass := do
  some
    { address := ← readAddress json "address"
      superclass := ← (json.get "superclass").bind readPointer
      data := ← (json.get "data").bind readData
      metaData := ← (json.get "meta_data").bind readData }

def readCategory (json : Json) : Option ObjCCategory := do
  some
    { name := ← json.getString "name"
      nameAddress := ← readAddress json "name_address"
      cls := ← (json.get "class").bind readPointer
      instanceMethods := ← json.getEach "instance_methods" readMethod
      classMethods := ← json.getEach "class_methods" readMethod
      properties := ← json.getEach "properties" readProperty
      protocols := ← readAddresses json "protocols" }

def readProtocol (json : Json) : Option ObjCProtocol := do
  some
    { address := ← readAddress json "address"
      name := ← json.getString "name"
      protocols := ← readAddresses json "protocols"
      instanceMethods := ← json.getEach "instance_methods" readMethod
      classMethods := ← json.getEach "class_methods" readMethod
      optionalInstanceMethods := ← json.getEach "optional_instance_methods" readMethod
      optionalClassMethods := ← json.getEach "optional_class_methods" readMethod
      properties := ← json.getEach "properties" readProperty }

def readSelector (json : Json) : Option (UInt64 × String) := do
  some (← readAddress json "slot", ← json.getString "selector")

/-- The place of an image, which is not negative. -/
def readIndex (json : Json) : Option Nat :=
  (json.getInteger "index").bind fun index => if 0 ≤ index then some index.toInt.toNat else none

def readImage (json : Json) : Option ObjCImage := do
  some
    { index := ← readIndex json
      errors := ← json.getEach "errors" Json.asString
      protocols := ← json.getEach "protocols" readProtocol
      classes := ← json.getEach "classes" readClass
      categories := ← json.getEach "categories" readCategory
      selectors := ← json.getEach "selectors" readSelector
      swiftStaticClasses := ← readAddresses json "swift_static_classes"
      swiftListedClasses := ← readAddresses json "swift_listed_classes" }

def readManifest (json : Json) : Option (List ObjCImage) := json.getEach "images" readImage

/-! ## What is left of the metadata -/

/-- `readPointer` leaves the library of an import out. -/
def seenPointer : Pointer → Pointer
  | .imported symbol _ => .imported symbol ""
  | pointer => pointer

def seenMethod (method : Metadata.Method) : Method :=
  { selector := method.selector, types := method.types, nameAddress := method.nameAddress,
    imp := method.imp }

def seenIvar (ivar : Metadata.Ivar) : Ivar :=
  { offsetAddress := ivar.offsetAddress, offsetValue := ivar.offsetValue.toUInt64,
    nameAddress := ivar.nameAddress, typeAddress := ivar.typeAddress,
    alignment := ivar.alignment.toUInt64, size := ivar.size.toUInt64 }

def seenProperty (property : Metadata.Property) : Property :=
  { nameAddress := property.nameAddress, attributesAddress := property.attributesAddress }

/-- Widths are widened to the 64 bits in which they are written. -/
def seenData (data : Metadata.ClassData) : ClassData where
  flags := data.flags.toUInt64
  instanceStart := data.instanceStart.toUInt64
  instanceSize := data.instanceSize.toUInt64
  name := data.name
  nameAddress := data.nameAddress
  methods := data.methods.map seenMethod
  ivars := data.ivars.map seenIvar
  properties := data.properties.map seenProperty
  protocols := data.protocols

def seenClass (cls : Metadata.ObjCClass) : ObjCClass :=
  { address := cls.address, superclass := seenPointer cls.superclass, data := seenData cls.data,
    metaData := seenData cls.metaData }

def seenCategory (category : Metadata.ObjCCategory) : ObjCCategory where
  name := category.name
  nameAddress := category.nameAddress
  cls := seenPointer category.cls
  instanceMethods := category.instanceMethods.map seenMethod
  classMethods := category.classMethods.map seenMethod
  properties := category.properties.map seenProperty
  protocols := category.protocols

def seenProtocol (protocol : Metadata.ObjCProtocol) : ObjCProtocol where
  address := protocol.address
  name := protocol.name
  protocols := protocol.protocols
  instanceMethods := protocol.instanceMethods.map seenMethod
  classMethods := protocol.classMethods.map seenMethod
  optionalInstanceMethods := protocol.optionalInstanceMethods.map seenMethod
  optionalClassMethods := protocol.optionalClassMethods.map seenMethod
  properties := protocol.properties.map seenProperty

/-- Everything of an image but its path, its constant strings and what is counted of
`__objc_clsrolist`. -/
def seenImage (index : Nat) (image : Metadata.ObjCImage) : ObjCImage where
  index := index
  errors := image.errors
  protocols := image.protocols.map seenProtocol
  classes := image.classes.map seenClass
  categories := image.categories.map seenCategory
  selectors := image.selectors.map fun selref => (selref.slot, selref.selector)
  swiftStaticClasses := image.swiftStaticClasses
  swiftListedClasses := image.swiftListedClasses

/-! ## Reading what is written -/

/-! A record without a list is read back member by member, which evaluation shows. -/

theorem readMethod_written (method : Metadata.Method) :
    readMethod (Metadata.writeMethod method) = some (seenMethod method) := rfl

theorem readIvar_written (ivar : Metadata.Ivar) :
    readIvar (Metadata.writeIvar ivar) = some (seenIvar ivar) := rfl

theorem readProperty_written (property : Metadata.Property) :
    readProperty (Metadata.writeProperty property) = some (seenProperty property) := rfl

/-- Each kind of pointer is written under a name of its own. -/
theorem readPointer_written (pointer : Pointer) :
    readPointer (Metadata.writePointer pointer) = some (seenPointer pointer) := by
  cases pointer <;> rfl

/-- A list of records is read at its key. -/
theorem getEach_written {json : Json} {key : String} {α β : Type} {write : α → Json}
    {read : Json → Option β} {seen : α → β} {l : List α}
    (hread : ∀ a ∈ l, read (write a) = some (seen a)) (h : json.get key = some (.array (l.map write))) :
    json.getEach key read = some (l.map seen) := by
  rw [getEach, getArray, h]
  exact mapM_map hread

theorem readAddresses_written {json : Json} {key : String} {addresses : List UInt64}
    (h : json.get key = some (Metadata.writeAddresses addresses)) :
    readAddresses json key = some addresses := by
  have hread : ∀ address, asAddress (Metadata.writeAddress address) = some (id address) :=
    fun _ => rfl
  have heach := getEach_written (fun a _ => hread a) h
  rwa [List.map_id] at heach

/-- With the lists read, the other members are read back by evaluation. -/
theorem readData_written (data : Metadata.ClassData) :
    readData (Metadata.writeData data) = some (seenData data) := by
  have hmethods : (Metadata.writeData data).getEach "methods" readMethod
      = some (data.methods.map seenMethod) := getEach_written (fun a _ => readMethod_written a) rfl
  have hivars : (Metadata.writeData data).getEach "ivars" readIvar
      = some (data.ivars.map seenIvar) := getEach_written (fun a _ => readIvar_written a) rfl
  have hproperties : (Metadata.writeData data).getEach "properties" readProperty
      = some (data.properties.map seenProperty) := getEach_written (fun a _ => readProperty_written a) rfl
  have hprotocols : readAddresses (Metadata.writeData data) "protocols" = some data.protocols :=
    readAddresses_written rfl
  simp only [readData, hmethods, hivars, hproperties, hprotocols]
  rfl

theorem readClass_written (cls : Metadata.ObjCClass) :
    readClass (Metadata.writeClass cls) = some (seenClass cls) := by
  have hsuper : ((Metadata.writeClass cls).get "superclass").bind readPointer
      = some (seenPointer cls.superclass) := readPointer_written cls.superclass
  have hdata : ((Metadata.writeClass cls).get "data").bind readData = some (seenData cls.data) :=
    readData_written cls.data
  have hmeta : ((Metadata.writeClass cls).get "meta_data").bind readData
      = some (seenData cls.metaData) := readData_written cls.metaData
  simp only [readClass, hsuper, hdata, hmeta]
  rfl

theorem readCategory_written (category : Metadata.ObjCCategory) :
    readCategory (Metadata.writeCategory category) = some (seenCategory category) := by
  have hcls : ((Metadata.writeCategory category).get "class").bind readPointer
      = some (seenPointer category.cls) := readPointer_written category.cls
  have hinstance : (Metadata.writeCategory category).getEach "instance_methods" readMethod
      = some (category.instanceMethods.map seenMethod) := getEach_written (fun a _ => readMethod_written a) rfl
  have hclass : (Metadata.writeCategory category).getEach "class_methods" readMethod
      = some (category.classMethods.map seenMethod) := getEach_written (fun a _ => readMethod_written a) rfl
  have hproperties : (Metadata.writeCategory category).getEach "properties" readProperty
      = some (category.properties.map seenProperty) := getEach_written (fun a _ => readProperty_written a) rfl
  have hprotocols : readAddresses (Metadata.writeCategory category) "protocols"
      = some category.protocols := readAddresses_written rfl
  simp only [readCategory, hcls, hinstance, hclass, hproperties, hprotocols]
  rfl

theorem readProtocol_written (protocol : Metadata.ObjCProtocol) :
    readProtocol (Metadata.writeProtocol protocol) = some (seenProtocol protocol) := by
  -- the four lists of methods differ in their keys only
  have hmethods : ∀ (key : String) (methods : List Metadata.Method),
      (Metadata.writeProtocol protocol).get key = some (Metadata.writeMethods methods) →
      (Metadata.writeProtocol protocol).getEach key readMethod = some (methods.map seenMethod) :=
    fun _ _ h => getEach_written (fun a _ => readMethod_written a) h
  have hproperties : (Metadata.writeProtocol protocol).getEach "properties" readProperty
      = some (protocol.properties.map seenProperty) := getEach_written (fun a _ => readProperty_written a) rfl
  have hprotocols : readAddresses (Metadata.writeProtocol protocol) "protocols"
      = some protocol.protocols := readAddresses_written rfl
  simp only [readProtocol, hmethods "instance_methods" _ rfl, hmethods "class_methods" _ rfl,
    hmethods "optional_instance_methods" _ rfl, hmethods "optional_class_methods" _ rfl,
    hproperties, hprotocols]
  rfl

theorem readSelector_written (selref : Metadata.SelectorReference) :
    readSelector (Metadata.writeSelector selref) = some (selref.slot, selref.selector) := rfl

/-- A place below `2^63` is not negative when it is written. -/
theorem readIndex_written {json : Json} {index : Nat} (hindex : index < 2 ^ 63)
    (h : json.get "index" = some (.integer (Int64.ofNat index))) : readIndex json = some index := by
  have hvalue : (Int64.ofNat index).toInt = index := Int64.toInt_ofNat_of_lt hindex
  have hpos : (0 : Int64) ≤ Int64.ofNat index := by
    rw [Int64.le_iff_toInt_le, hvalue]
    exact Int.natCast_nonneg index
  rw [readIndex, getInteger, h]
  show (if (0 : Int64) ≤ Int64.ofNat index then some (Int64.ofNat index).toInt.toNat else none) = _
  rw [if_pos hpos, hvalue, Int.toNat_natCast]

theorem readImage_written (path : String) {index : Nat} (hindex : index < 2 ^ 63)
    (image : Metadata.ObjCImage) :
    readImage (Metadata.writeImage path index image) = some (seenImage index image) := by
  have hstring : ∀ text : String, (Json.string text).asString = some (id text) := fun _ => rfl
  have herrors : (Metadata.writeImage path index image).getEach "errors" Json.asString
      = some (image.errors.map id) := getEach_written (fun a _ => hstring a) rfl
  have hprotocols : (Metadata.writeImage path index image).getEach "protocols" readProtocol
      = some (image.protocols.map seenProtocol) := getEach_written (fun a _ => readProtocol_written a) rfl
  have hclasses : (Metadata.writeImage path index image).getEach "classes" readClass
      = some (image.classes.map seenClass) := getEach_written (fun a _ => readClass_written a) rfl
  have hcategories : (Metadata.writeImage path index image).getEach "categories" readCategory
      = some (image.categories.map seenCategory) := getEach_written (fun a _ => readCategory_written a) rfl
  have hselectors : (Metadata.writeImage path index image).getEach "selectors" readSelector
      = some (image.selectors.map fun selref => (selref.slot, selref.selector)) :=
    getEach_written (fun a _ => readSelector_written a) rfl
  have hstatic : readAddresses (Metadata.writeImage path index image) "swift_static_classes"
      = some image.swiftStaticClasses := readAddresses_written rfl
  have hlisted : readAddresses (Metadata.writeImage path index image) "swift_listed_classes"
      = some image.swiftListedClasses := readAddresses_written rfl
  have hplace : readIndex (Metadata.writeImage path index image) = some index :=
    readIndex_written hindex rfl
  rw [List.map_id] at herrors
  simp only [readImage, hplace, herrors, hprotocols, hclasses, hcategories, hselectors, hstatic, hlisted]
  rfl

/-- **A written manifest is read in full.** -/
theorem readManifest_written {images : List (String × Metadata.ObjCImage)}
    (hlength : images.length < 2 ^ 63) :
    readManifest (Metadata.writeManifest images)
      = some (images.zipIdx.map fun image => seenImage image.2 image.1.2) := by
  have hread : ∀ image ∈ images.zipIdx,
      readImage (Metadata.writeImage image.1.1 image.2 image.1.2)
        = some (seenImage image.2 image.1.2) := by
    intro image himage
    -- the place is the one in the list
    have hindex : image.2 < images.length := by
      have hlt := List.snd_lt_of_mem_zipIdx himage
      omega
    exact readImage_written _ (by omega) _
  exact getEach_written hread rfl

end Katabasis.Manifest
