import Katabasis.Xlate.Overrides
import Katabasis.Xlgen.Manifest

set_option autoImplicit false

/-! # The host's Objective-C tables

`EmitClasses` (`xlate/src/xlgen.cpp`): from the manifest it writes the tables that stand behind the
overrides of the lifted module, in the structures of an armv7 Objective-C runtime. A table is a C
definition, a head and rows of words. Every guest method gets a host function of its own, which
`xl_imp_map` takes back to the guest's implementation.
-/

namespace Katabasis.Manifest

/-! ## Names -/

/-- The lists that a table can be. -/
inductive Part
  | methods
  | ivars
  | properties
  | protocols
  | instanceMethods
  | classMethods
  | optionalInstance
  | optionalClass
  deriving DecidableEq, Repr

def Part.text : Part → String
  | methods => "methods"
  | ivars => "ivars"
  | properties => "properties"
  | protocols => "protocols"
  | instanceMethods => "instance"
  | classMethods => "class"
  | optionalInstance => "optional_instance"
  | optionalClass => "optional_class"

/-- Where in the manifest a class or a category is: its image, and its place there. -/
structure Place where
  image : Nat
  index : Nat
  deriving DecidableEq, Repr

def Place.suffix (place : Place) : String := toString place.image ++ "_" ++ toString place.index

/-- The lists that there is one of. -/
inductive Table
  | classlist
  | protolist
  | catlist
  | layouts
  | staticClasses
  | listedClasses
  deriving DecidableEq, Repr

def Table.text : Table → String
  | classlist => "xl_objc_classlist"
  | protolist => "xl_objc_protolist"
  | catlist => "xl_objc_catlist"
  | layouts => "xl_class_layouts"
  | staticClasses => "xl_swift_static_classes"
  | listedClasses => "xl_swift_listed_classes"

inductive Symbol
  | protocolPart (address : UInt64) (part : Part)
  | dataPart (isMeta : Bool) (place : Place) (part : Part)
  | ro (isMeta : Bool) (place : Place)
  | ivarFixup (place : Place)
  | category (place : Place)
  | categoryPart (place : Place) (part : Part)
  | table (list : Table)
  | wrapper (number : Nat)
  deriving DecidableEq, Repr

def Symbol.name : Symbol → String
  | protocolPart address part => "xl_objc_proto_" ++ Hex address ++ "_" ++ part.text
  | dataPart isMeta place part =>
      (if isMeta then "xl_objc_meta_" else "xl_objc_") ++ place.suffix ++ "_" ++ part.text
  | ro isMeta place => (if isMeta then "xl_objc_metaro_" else "xl_objc_ro_") ++ place.suffix
  | ivarFixup place => "xl_ivar_fixup_" ++ place.suffix
  | category place => "xl_objc_category_" ++ place.suffix
  | categoryPart place part => "xl_objc_category_" ++ place.suffix ++ "_" ++ part.text
  | table list => list.text
  | wrapper number => "xl_imp_" ++ toString number

/-- `protocol_symbol` -/
def protocolSymbol (address : UInt64) : String := "xl_guest_protocol_" ++ Hex address

/-! ## Definitions -/

/-- An operand of an initializer. -/
inductive Word
  | number (value : UInt64)
  | text (value : String)
  | address (symbol : String)
  deriving DecidableEq, Repr

structure Definition where
  symbol : String
  head : List Word
  rows : List (List Word) := []
  deriving DecidableEq, Repr

/-- `xl_class_layout` -/
structure LayoutRow where
  ro : Symbol
  address : UInt64
  superHost : Option String
  superGuest : UInt64
  instanceStart : UInt64
  instanceSize : UInt64
  ivars : Nat
  fixups : Symbol
  deriving DecidableEq, Repr

/-- What is found out about a method: whether its signature can be bridged, and its encoding on the
host then. -/
structure Described where
  supported : Bool
  hostEncoding : String
  note : String := ""
  origin : String := ""

/-- The declarations of the SDK and the type encodings, as far as `EmitClasses` asks for them. -/
structure Signatures where
  /-- Of an implementation: whether it is a class method, its selector, its type encoding. -/
  method : Bool → String → String → Described
  /-- The host's encoding for a type encoding without an implementation. -/
  description : String → Option String

/-- What the generator has made so far. -/
structure Emission where
  counter : Nat := 0
  definitions : List Definition := []
  impMap : List (String × UInt64) := []
  layouts : List LayoutRow := []
  layoutErrors : List String := []
  classlist : List String := []
  protolist : List String := []
  catlist : List String := []
  passthrough : List String := []
  initial : List (UInt64 × String) := []
  report : List String := []
  unsupported : Nat := 0

namespace Emission

def define (s : Emission) (symbol : Symbol) (head : List Word) (rows : List (List Word)) :
    Emission :=
  { s with definitions := s.definitions ++ [⟨symbol.name, head, rows⟩] }

def noted (s : Emission) (line : String) : Emission := { s with report := s.report ++ [line] }

def failed (s : Emission) (line : String) : Emission :=
  { s.noted line with unsupported := s.unsupported + 1 }

/-- The function that `ImpWrapper` or `StubImpWrapper` makes for an implementation. -/
def wrapped (s : Emission) (imp : UInt64) : Emission :=
  { s with
    counter := s.counter + 1
    impMap := s.impMap ++ [((Symbol.wrapper s.counter).name, imp)] }

end Emission

/-- A list of rows of one size; where there are none, a null pointer. -/
def emitTable (symbol : Symbol) (entsize : UInt64) (rows : List (List Word)) (s : Emission) :
    Word × Emission :=
  if rows.isEmpty then (.number 0, s)
  else
    (.address symbol.name,
      s.define symbol [.number entsize, .number (UInt64.ofNat rows.length)] rows)

section

variable (signatures : Signatures)

/-- How a method is named in the report. -/
def reported (isClass : Bool) (hint selector : String) : String :=
  (if isClass then "+[" else "-[") ++ hint ++ " " ++ selector ++ "]: "

/-- The row of a method with an implementation. -/
def emitImplementation (isClass : Bool) (hint : String) (method : Method) (s : Emission) :
    List Word × Emission :=
  let described := signatures.method isClass method.selector method.types
  let wrapper := Word.address (Symbol.wrapper s.counter).name
  if described.supported then
    ([.number method.nameAddress, .text described.hostEncoding, wrapper],
      (s.wrapped method.imp).noted (reported isClass hint method.selector ++ "host IMP from " ++
        described.origin ++ " as " ++ described.hostEncoding))
  else
    ([.number method.nameAddress, .text method.types, wrapper],
      (s.wrapped method.imp).failed (reported isClass hint method.selector ++ "UNSUPPORTED: " ++
        described.note))

def emitImplementations (isClass : Bool) (hint : String) :
    List Method → Emission → List (List Word) × Emission
  | [], s => ([], s)
  | method :: rest, s =>
      let (row, s) := emitImplementation signatures isClass hint method s
      let (rows, s) := emitImplementations isClass hint rest s
      (row :: rows, s)

/-- `emit_methods`, of a class or a category. -/
def emitMethods (methods : List Method) (isClass : Bool) (symbol : Symbol) (hint : String)
    (s : Emission) : Word × Emission :=
  let (rows, s) := emitImplementations signatures isClass hint methods s
  emitTable symbol 12 rows s

/-- The row of a method without an implementation. -/
def descriptionRow (method : Method) : List Word :=
  [.number method.nameAddress, .text ((signatures.description method.types).getD method.types),
    .number 0]

/-- `emit_methods`, of a protocol. -/
def emitDescriptions (methods : List Method) (symbol : Symbol) (s : Emission) : Word × Emission :=
  emitTable symbol 12 (methods.map (descriptionRow signatures)) s

def ivarRow (ivar : Ivar) : List Word :=
  [.number ivar.offsetAddress, .number ivar.nameAddress, .number ivar.typeAddress,
    .number ivar.alignment, .number ivar.size]

/-- `emit_ivars` -/
def emitIvars (ivars : List Ivar) (symbol : Symbol) (s : Emission) : Word × Emission :=
  emitTable symbol 20 (ivars.map ivarRow) s

def propertyRow (property : Property) : List Word :=
  [.number property.nameAddress, .number property.attributesAddress]

/-- `emit_properties` -/
def emitProperties (properties : List Property) (symbol : Symbol) (s : Emission) :
    Word × Emission :=
  emitTable symbol 8 (properties.map propertyRow) s

def protocolRow (address : UInt64) : List Word := [.address (protocolSymbol address)]

/-- `emit_protocol_list`: a count, without a size. -/
def emitProtocolList (protocols : List UInt64) (symbol : Symbol) (s : Emission) :
    Word × Emission :=
  if protocols.isEmpty then (.number 0, s)
  else
    (.address symbol.name,
      s.define symbol [.number (UInt64.ofNat protocols.length)] (protocols.map protocolRow))

/-! ## Protocols -/

def emitProtocol (protocol : ObjCProtocol) (s : Emission) : Emission :=
  let part := Symbol.protocolPart protocol.address
  let s := (emitProtocolList protocol.protocols (part .protocols) s).2
  let s := (emitDescriptions signatures protocol.instanceMethods (part .instanceMethods) s).2
  let s := (emitDescriptions signatures protocol.classMethods (part .classMethods) s).2
  let s := (emitDescriptions signatures protocol.optionalInstanceMethods
    (part .optionalInstance) s).2
  let s := (emitDescriptions signatures protocol.optionalClassMethods (part .optionalClass) s).2
  let s := (emitProperties protocol.properties (part .properties) s).2
  { s with protolist := s.protolist ++ [protocolSymbol protocol.address] }

/-! ## Classes -/

/-- The lists of a class or a metaclass, and its `class_ro_t`. -/
def emitData (isMeta : Bool) (place : Place) (data : ClassData) (s : Emission) : Emission :=
  let part := Symbol.dataPart isMeta place
  let (methods, s) := emitMethods signatures data.methods isMeta (part .methods) data.name s
  let (ivars, s) := emitIvars data.ivars (part .ivars) s
  let (properties, s) := emitProperties data.properties (part .properties) s
  let (protocols, s) := emitProtocolList data.protocols (part .protocols) s
  s.define (.ro isMeta place)
    [.number data.flags, .number data.instanceStart, .number data.instanceSize, .number 0,
      .number data.nameAddress, methods, protocols, ivars, .number 0, properties] []

/-- The name of a host class, in the symbol of its object. -/
def classPrefix : String := "_OBJC_CLASS_$_"

/-- Behind the last occurrence of the prefix, or the whole symbol. -/
def className (symbol : String) : String :=
  let splits := (List.range (symbol.length + 1)).reverse.filter fun n =>
    classPrefix.toList.isPrefixOf (symbol.toList.drop n)
  match splits.head? with
  | some n => String.ofList (symbol.toList.drop (n + classPrefix.length))
  | none => symbol

def superHost : Pointer → Option String
  | .imported symbol _ => some (className symbol)
  | _ => none

def superGuest : Pointer → UInt64
  | .localTo host => host
  | _ => 0

def fixupRow (ivar : Ivar) : List Word := [.number ivar.offsetAddress, .number ivar.offsetValue]

/-- An ivar in front of its class. -/
def layoutError (data : ClassData) (ivar : Ivar) : Option String :=
  if ivar.offsetValue.toInt64 < data.instanceStart.toInt64 then
    some ("class " ++ data.name ++ ": ivar offset " ++ toString ivar.offsetValue.toInt64 ++
      " below instanceStart " ++ toString data.instanceStart.toInt64 ++
      " (offset not read from image)")
  else none

/-- The row of a class in `xl_class_layouts`. -/
def layoutEntry (place : Place) (cls : ObjCClass) : LayoutRow where
  ro := .ro false place
  address := cls.address
  superHost := superHost cls.superclass
  superGuest := superGuest cls.superclass
  instanceStart := cls.data.instanceStart
  instanceSize := cls.data.instanceSize
  ivars := cls.data.ivars.length
  fixups := .ivarFixup place

def emitLayout (place : Place) (cls : ObjCClass) (s : Emission) : Emission :=
  let data := cls.data
  let s := s.define (.ivarFixup place) [] (data.ivars.map fixupRow ++ [[.number 0, .number 0]])
  { s with
    layoutErrors := s.layoutErrors ++ data.ivars.filterMap (layoutError data)
    layouts := s.layouts ++ [layoutEntry place cls] }

def emitClass (place : Place) (cls : ObjCClass) (s : Emission) : Emission :=
  let s := emitData signatures false place cls.data s
  let s := emitData signatures true place cls.metaData s
  emitLayout place cls { s with classlist := s.classlist ++ [guestClassName cls.address] }

/-! ## Categories -/

/-- The class that a category extends, as its table names it. The address of a class that is none
is read all the same. -/
def categoryClass : Pointer → Option (Word × List String)
  | .imported symbol _ => some (.address (String.ofList (symbol.toList.drop 1)), [symbol])
  | .localTo host => some (.number host, [])
  | .raw host => some (.number host, [])
  | .null => none

/-- The lists of a category, and its `category_t`. -/
def emitCategoryData (place : Place) (cls : Word) (category : ObjCCategory) (s : Emission) :
    Emission :=
  let part := Symbol.categoryPart place
  let (instance_, s) := emitMethods signatures category.instanceMethods false
    (part .instanceMethods) category.name s
  let (class_, s) := emitMethods signatures category.classMethods true (part .classMethods)
    category.name s
  let (properties, s) := emitProperties category.properties (part .properties) s
  let (protocols, s) := emitProtocolList category.protocols (part .protocols) s
  s.define (.category place)
    [.number category.nameAddress, cls, instance_, class_, protocols, properties] []

def emitCategory (place : Place) (category : ObjCCategory) (s : Emission) : Option Emission := do
  let (cls, passed) ← categoryClass category.cls
  let s := { s with passthrough := s.passthrough ++ passed }
  let s := emitCategoryData signatures place cls category s
  some { s with catlist := s.catlist ++ [(Symbol.category place).name] }

/-! ## Images -/

def emitErrors (errors : List String) (s : Emission) : Emission :=
  errors.foldl (fun s error => s.failed ("objc metadata: UNSUPPORTED: " ++ error)) s

def emitProtocols (protocols : List ObjCProtocol) (s : Emission) : Emission :=
  protocols.foldl (fun s protocol => emitProtocol signatures protocol s) s

def emitImageClasses (image : Nat) (classes : List ObjCClass) (s : Emission) : Emission :=
  classes.zipIdx.foldl (fun s cls => emitClass signatures ⟨image, cls.2⟩ cls.1 s) s

def emitCategories (image : Nat) (categories : List ObjCCategory) (s : Emission) :
    Option Emission :=
  categories.zipIdx.foldlM
    (fun s category => emitCategory signatures ⟨image, category.2⟩ category.1 s) s

def emitImage (image : ObjCImage) (s : Emission) : Option Emission := do
  let s := emitErrors image.errors s
  let s := emitProtocols signatures image.protocols s
  let s := emitImageClasses signatures image.index image.classes s
  let s ← emitCategories signatures image.index image.categories s
  some { s with initial := s.initial ++ image.selectors }

/-- A list of symbols, if there are any. -/
def emitList (list : Table) (symbols : List String) (s : Emission) : Emission :=
  if symbols.isEmpty then s
  else s.define (.table list) [] (symbols.map fun symbol => [.address symbol])

def hostName : Option String → Word
  | some name => .text name
  | none => .number 0

def layoutRow (row : LayoutRow) : List Word :=
  [.address row.ro.name, .number row.address, hostName row.superHost, .number row.superGuest, .number row.instanceStart, .number row.instanceSize,
    .number (UInt64.ofNat row.ivars), .address row.fixups.name]

/-- A list of addresses that ends with zero. -/
def emitAddresses (list : Table) (addresses : List UInt64) (s : Emission) : Emission :=
  s.define (.table list) [] (addresses.map (fun address => [.number address]) ++ [[.number 0]])

def emitImages (images : List ObjCImage) (s : Emission) : Option Emission :=
  images.foldlM (fun s image => emitImage signatures image s) s

/-- `EmitClasses` -/
def emitClasses (images : List ObjCImage) (s : Emission) : Option Emission := do
  let s ← emitImages signatures images s
  let s := emitList .classlist s.classlist s
  let s := emitList .protolist s.protolist s
  let s := emitList .catlist s.catlist s
  let s := s.define (.table .layouts) []
    (s.layouts.map layoutRow ++ [List.replicate 6 (.number 0)])
  let s := emitAddresses .staticClasses (images.flatMap ObjCImage.swiftStaticClasses) s
  some (emitAddresses .listedClasses (images.flatMap ObjCImage.swiftListedClasses) s)

/-- The generator at the end of `main`, from where the functions and selectors have left it. -/
def emitManifest (manifest : Json) (s : Emission) : Option Emission := do
  emitClasses signatures (← readManifest manifest) s

end

end Katabasis.Manifest
