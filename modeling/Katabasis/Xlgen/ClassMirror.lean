import Katabasis.Lib.Maps
import Katabasis.Xlgen.HostTables

set_option autoImplicit false

/-! # The guest's classes, as the host finds them

The host's runtime starts at a class object, which is an override in the lifted module, and follows
the words of the armv7 structures: `class_ro_t`, and the lists it points to. What it finds are the
guest's methods, ivars, properties and protocols. The two halves are written by two programs, which
agree in the names only.
-/

namespace Katabasis.Manifest

/-! ## What the host's runtime reads -/

structure HostMethod where
  nameAddress : UInt32
  types : String
  /-- What `xl_imp_map` takes the host's implementation to. -/
  imp : UInt32
  deriving DecidableEq, Repr

structure HostIvar where
  offsetAddress : UInt32
  nameAddress : UInt32
  typeAddress : UInt32
  alignment : UInt32
  size : UInt32
  deriving DecidableEq, Repr

structure HostProperty where
  nameAddress : UInt32
  attributesAddress : UInt32
  deriving DecidableEq, Repr

/-- A `class_ro_t`; a list is `none` where its pointer is null. -/
structure HostData where
  flags : UInt32
  instanceStart : UInt32
  instanceSize : UInt32
  nameAddress : UInt32
  methods : Option (List HostMethod)
  ivars : Option (List HostIvar)
  properties : Option (List HostProperty)
  protocols : Option (List String)
  deriving DecidableEq, Repr

namespace Emission

variable (s : Emission)

/-- The definition that the linker takes a symbol to; a C name has an underscore in front. -/
def find (symbol : String) : Option Definition :=
  s.definitions.find? fun definition => "_" ++ definition.symbol == symbol

/-- The rows of a list: as many as its count says, each of the size that it says, if it does. -/
def listed (definition : Definition) : Option (List (List Word)) :=
  match definition.head with
  | [.number count] => some (definition.rows.take count.toUInt32.toNat)
  | [.number entsize, .number count] =>
      if definition.rows.all fun row => 4 * row.length == entsize.toUInt32.toNat then
        some (definition.rows.take count.toUInt32.toNat)
      else none
  | _ => none

/-- The list that a word of a structure points to; `some none` where the word is null. -/
def rows : Word → Option (Option (List (List Word)))
  | .number value => if value.toUInt32 = 0 then some none else none
  | .address symbol => ((s.find ("_" ++ symbol)).bind listed).map some
  | .text _ => none

/-- The guest's implementation behind a host's, by `xl_imp_map`. -/
def guestImp : Word → Option UInt32
  | .number value => some value.toUInt32
  | .address symbol => (s.impMap.lookup symbol).map UInt64.toUInt32
  | .text _ => none

def hostMethod : List Word → Option HostMethod
  | [.number name, .text types, imp] =>
      (s.guestImp imp).map fun guest => ⟨name.toUInt32, types, guest⟩
  | _ => none

def hostIvar : List Word → Option HostIvar
  | [.number offset, .number name, .number type, .number alignment, .number size] =>
      some ⟨offset.toUInt32, name.toUInt32, type.toUInt32, alignment.toUInt32, size.toUInt32⟩
  | _ => none

def hostProperty : List Word → Option HostProperty
  | [.number name, .number attributes] => some ⟨name.toUInt32, attributes.toUInt32⟩
  | _ => none

def hostProtocol : List Word → Option String
  | [.address symbol] => some ("_" ++ symbol)
  | _ => none

def hostMethods (word : Word) : Option (Option (List HostMethod)) :=
  (s.rows word).bind fun rows => rows.mapM fun rows => rows.mapM s.hostMethod

def hostIvars (word : Word) : Option (Option (List HostIvar)) :=
  (s.rows word).bind fun rows => rows.mapM fun rows => rows.mapM hostIvar

def hostProperties (word : Word) : Option (Option (List HostProperty)) :=
  (s.rows word).bind fun rows => rows.mapM fun rows => rows.mapM hostProperty

def hostProtocols (word : Word) : Option (Option (List String)) :=
  (s.rows word).bind fun rows => rows.mapM fun rows => rows.mapM hostProtocol

/-- A `class_ro_t`. -/
def hostData (symbol : String) : Option HostData :=
  (s.find symbol).bind fun definition =>
    match definition.head with
    | [.number flags, .number start, .number size, _, .number name, methods, protocols, ivars, _,
        properties] => do
        some
          { flags := flags.toUInt32
            instanceStart := start.toUInt32
            instanceSize := size.toUInt32
            nameAddress := name.toUInt32
            methods := ← s.hostMethods methods
            ivars := ← s.hostIvars ivars
            properties := ← s.hostProperties properties
            protocols := ← s.hostProtocols protocols }
    | _ => none

end Emission

/-- The `class_ro_t` that a class object points to. -/
def classData (override : Override) : Option String :=
  match override.fields[4]? with
  | some (Constant.address symbol 0) => some symbol
  | _ => none

/-- What is found behind the class object at an address. -/
def Emission.hostClass (s : Emission) (overrides : Overrides) (address : UInt64) :
    Option HostData :=
  (overrides[address]?.bind classData).bind s.hostData

/-! ## What it should read -/

section

variable (signatures : Signatures)

def mirrorMethod (isClass : Bool) (method : Metadata.Method) : HostMethod where
  nameAddress := method.nameAddress.toUInt32
  types :=
    let described := signatures.method isClass method.selector method.types
    if described.supported then described.hostEncoding else method.types
  imp := method.imp.toUInt32

def mirrorIvar (ivar : Metadata.Ivar) : HostIvar :=
  ⟨ivar.offsetAddress.toUInt32, ivar.nameAddress.toUInt32, ivar.typeAddress.toUInt32,
    ivar.alignment, ivar.size⟩

def mirrorProperty (property : Metadata.Property) : HostProperty :=
  ⟨property.nameAddress.toUInt32, property.attributesAddress.toUInt32⟩

/-- The protocol's object, an override in the lifted module. -/
def mirrorProtocol (address : UInt64) : String := "_" ++ protocolSymbol address

/-- What a list is found as: null where there is nothing in it. -/
def pointed {α : Type} (l : List α) : Option (List α) := if l.isEmpty then none else some l

def mirrorData (isMeta : Bool) (data : Metadata.ClassData) : HostData where
  flags := data.flags
  instanceStart := data.instanceStart
  instanceSize := data.instanceSize
  nameAddress := data.nameAddress.toUInt32
  methods := pointed (data.methods.map (mirrorMethod signatures isMeta))
  ivars := pointed (data.ivars.map mirrorIvar)
  properties := pointed (data.properties.map mirrorProperty)
  protocols := pointed (data.protocols.map mirrorProtocol)

end

/-- The lists are no longer than an armv7 structure can say. -/
structure Fits (data : Metadata.ClassData) : Prop where
  methods : data.methods.length < 2 ^ 32
  ivars : data.ivars.length < 2 ^ 32
  properties : data.properties.length < 2 ^ 32
  protocols : data.protocols.length < 2 ^ 32

/-- A list is read row by row, and null is not read. -/
theorem mapM_pointed {α β : Type} {read : α → Option β} {rows : List α} {found : List β}
    (h : rows.mapM read = some found) :
    ((pointed rows).mapM fun rows => rows.mapM read) = some (pointed found) := by
  cases rows with
  | nil =>
      cases h
      rfl
  | cons row rest =>
      have hfound : found ≠ [] := by
        rintro rfl
        simp [List.mapM_cons, Option.bind_eq_some_iff] at h
      rw [pointed, if_neg (by simp), pointed, if_neg (by simpa using hfound)]
      show ((row :: rest).mapM read).map some = some (some found)
      rw [h]
      rfl

/-! ## Up to the end -/

/-- What has been made by now is there at the end. -/
structure Within (s final : Emission) : Prop where
  definitions : s.definitions <+: final.definitions
  impMap : s.impMap <+: final.impMap

theorem Extends.within {symbols : List Symbol} {s s' : Emission} (h : Extends symbols s s') :
    Within s s' := by
  obtain ⟨added, hadded, -⟩ := h.definitions
  obtain ⟨imps, -, himps⟩ := h.wrappers
  exact ⟨⟨added, hadded.symm⟩, ⟨_, himps.symm⟩⟩

theorem Within.refl (s : Emission) : Within s s :=
  ⟨List.prefix_rfl, List.prefix_rfl⟩

theorem Within.trans {s s' s'' : Emission} (h : Within s s') (h' : Within s' s'') : Within s s'' :=
  ⟨h.definitions.trans h'.definitions, h.impMap.trans h'.impMap⟩

/-! ## Tables at the end -/

section

variable {final : Emission} (hfinal : Sound final)

include hfinal

/-- No two definitions share a name, so the linker finds this one. -/
theorem find_of_mem {definition : Definition} (h : definition ∈ final.definitions) :
    final.find ("_" ++ definition.symbol) = some definition := by
  have hfound : (final.definitions.find? fun d => "_" ++ d.symbol == "_" ++ definition.symbol)
      ≠ none := by
    rw [ne_eq, List.find?_eq_none, not_forall]
    exact ⟨definition, by simp [h]⟩
  obtain ⟨other, hother⟩ := Option.ne_none_iff_exists'.mp hfound
  have hname : "_" ++ other.symbol = "_" ++ definition.symbol := by
    simpa using List.find?_some hother
  have hsymbol : other.symbol = definition.symbol := by simpa using hname
  have heq := List.inj_on_of_nodup_map hfinal.definitions (List.mem_of_find?_eq_some hother) h hsymbol
  rw [heq] at hother
  exact hother

/-- The wrappers have different names too, so the map takes each back to its own. -/
theorem guestImp_of_mem {wrapper : String} {imp : UInt64} (h : (wrapper, imp) ∈ final.impMap) :
    final.guestImp (.address wrapper) = some imp.toUInt32 := by
  have hlookup : final.impMap.lookup wrapper = some imp := by
    cases hfound : final.impMap.lookup wrapper with
    | none =>
        have := List.lookup_eq_none_iff.mp hfound (wrapper, imp) h
        simp at this
    | some other =>
        obtain ⟨l₁, l₂, heq, -⟩ := List.lookup_eq_some_iff.mp hfound
        have hother : (wrapper, other) ∈ final.impMap := by simp [heq]
        have := List.inj_on_of_nodup_map hfinal.wrappers hother h rfl
        simpa using this
  rw [Emission.guestImp, hlookup]
  rfl

theorem rows_of_definition {symbol : Symbol} {head : List Word} {rows : List (List Word)}
    {s : Emission} (hwithin : Within (s.define symbol head rows) final) :
    final.find ("_" ++ symbol.name) = some ⟨symbol.name, head, rows⟩ :=
  find_of_mem hfinal (hwithin.definitions.subset (List.mem_append_right _ List.mem_cons_self))

omit hfinal in
theorem toNat_count {α : Type} {l : List α} (hlength : l.length < 2 ^ 32) :
    (UInt64.ofNat l.length).toUInt32.toNat = l.length := by
  rw [UInt64.toNat_toUInt32, UInt64.toNat_ofNat']
  omega

/-- A table is read with all its rows, and as null where there are none. -/
theorem rows_emitTable {symbol : Symbol} {entsize : UInt64} {rows : List (List Word)}
    {s : Emission} (hlength : rows.length < 2 ^ 32)
    (hsize : ∀ row ∈ rows, 4 * row.length = entsize.toUInt32.toNat)
    (hwithin : Within (emitTable symbol entsize rows s).2 final) :
    final.rows (emitTable symbol entsize rows s).1 = some (pointed rows) := by
  rw [emitTable] at hwithin ⊢
  split
  case isTrue hempty =>
      rw [List.isEmpty_iff.mp hempty]
      rfl
  case isFalse hempty =>
      rw [if_neg hempty] at hwithin
      have hall : (rows.all fun row => 4 * row.length == entsize.toUInt32.toNat) = true := by
        simpa using hsize
      show ((final.find ("_" ++ symbol.name)).bind Emission.listed).map some = some (pointed rows)
      rw [rows_of_definition hfinal hwithin, pointed, if_neg hempty]
      show (if (rows.all fun row => 4 * row.length == entsize.toUInt32.toNat) = true then
        some (rows.take (UInt64.ofNat rows.length).toUInt32.toNat) else none).map some
          = some (some rows)
      rw [if_pos hall, toNat_count hlength, List.take_length, Option.map_some]

theorem rows_emitProtocolList {protocols : List UInt64} {symbol : Symbol} {s : Emission}
    (hlength : protocols.length < 2 ^ 32)
    (hwithin : Within (emitProtocolList protocols symbol s).2 final) :
    final.rows (emitProtocolList protocols symbol s).1
      = some (pointed (protocols.map protocolRow)) := by
  rw [emitProtocolList] at hwithin ⊢
  split
  case isTrue hempty =>
      rw [List.isEmpty_iff.mp hempty]
      rfl
  case isFalse hempty =>
      rw [if_neg hempty] at hwithin
      show ((final.find ("_" ++ symbol.name)).bind Emission.listed).map some = _
      rw [rows_of_definition hfinal hwithin, pointed, if_neg (by simpa using hempty)]
      show some (some ((protocols.map protocolRow).take
        (UInt64.ofNat protocols.length).toUInt32.toNat)) = _
      rw [toNat_count hlength, ← List.length_map, List.take_length]

/-! ## The lists of a class -/

variable (signatures : Signatures)

theorem hostMethod_emitImplementation {isClass : Bool} {hint : String} {method : Metadata.Method}
    {s : Emission}
    (hwithin : Within (emitImplementation signatures isClass hint (seenMethod method) s).2 final) :
    final.hostMethod (emitImplementation signatures isClass hint (seenMethod method) s).1
      = some (mirrorMethod signatures isClass method) := by
  obtain ⟨s', heq, hextends⟩ :=
    emitImplementation_eq signatures isClass hint (seenMethod method) s
  rw [heq] at hwithin ⊢
  have hwrapped := hextends.within.trans hwithin
  have hmem : ((Symbol.wrapper s.counter).name, method.imp) ∈ final.impMap :=
    hwrapped.impMap.subset (List.mem_append_right _ List.mem_cons_self)
  show (final.guestImp (.address (Symbol.wrapper s.counter).name)).map _ = _
  rw [guestImp_of_mem hfinal hmem]
  rfl

theorem hostMethods_emitImplementations {isClass : Bool} {hint : String}
    {methods : List Metadata.Method} {s : Emission}
    (hwithin : Within
      (emitImplementations signatures isClass hint (methods.map seenMethod) s).2 final) :
    (emitImplementations signatures isClass hint (methods.map seenMethod) s).1.mapM
      final.hostMethod = some (methods.map (mirrorMethod signatures isClass)) := by
  induction methods generalizing s with
  | nil => rfl
  | cons method rest ih =>
      have hrest := @ih (emitImplementation signatures isClass hint (seenMethod method) s).2 hwithin
      have hfirst := (emitImplementations_extends signatures isClass hint (rest.map seenMethod)
        (emitImplementation signatures isClass hint (seenMethod method) s).2).within.trans hwithin
      have hmethod := hostMethod_emitImplementation hfinal signatures hfirst
      rw [List.map_cons, emitImplementations_cons, List.mapM_cons, hmethod, hrest]
      rfl

omit hfinal in
/-- Every row of a method has three words. -/
theorem length_of_mem_emitImplementations {isClass : Bool} {hint : String}
    {methods : List Metadata.Method} {s : Emission} {row : List Word}
    (hrow : row ∈ (emitImplementations signatures isClass hint (methods.map seenMethod) s).1) :
    row.length = 3 := by
  induction methods generalizing s with
  | nil => cases hrow
  | cons method rest ih =>
      obtain ⟨s', heq, -⟩ := emitImplementation_eq signatures isClass hint (seenMethod method) s
      rw [List.map_cons, emitImplementations_cons, List.mem_cons] at hrow
      rcases hrow with hrow | hrest
      · rw [hrow, heq]
        rfl
      · exact ih hrest

omit hfinal in
theorem length_emitImplementations {isClass : Bool} {hint : String} {methods : List Method}
    {s : Emission} :
    (emitImplementations signatures isClass hint methods s).1.length = methods.length := by
  induction methods generalizing s with
  | nil => rfl
  | cons method rest ih => exact congrArg (· + 1) ih

theorem hostMethods_emitMethods {isClass : Bool} {symbol : Symbol} {hint : String}
    {methods : List Metadata.Method} {s : Emission} (hlength : methods.length < 2 ^ 32)
    (hwithin : Within
      (emitMethods signatures (methods.map seenMethod) isClass symbol hint s).2 final) :
    final.hostMethods (emitMethods signatures (methods.map seenMethod) isClass symbol hint s).1
      = some (pointed (methods.map (mirrorMethod signatures isClass))) := by
  have hwrappers := (emitTable_extends symbol 12
    (emitImplementations signatures isClass hint (methods.map seenMethod) s).1
    (emitImplementations signatures isClass hint (methods.map seenMethod) s).2).within.trans hwithin
  have hcount : (emitImplementations signatures isClass hint (methods.map seenMethod) s).1.length
      < 2 ^ 32 := by
    rwa [length_emitImplementations, List.length_map]
  have hrows := rows_emitTable hfinal hcount (fun row hrow => by
    rw [length_of_mem_emitImplementations signatures hrow]
    rfl) hwithin
  show (final.rows (emitTable symbol 12 _ _).1).bind _ = _
  rw [hrows]
  exact mapM_pointed (hostMethods_emitImplementations hfinal signatures hwrappers)

theorem hostIvars_emitIvars {symbol : Symbol} {ivars : List Metadata.Ivar} {s : Emission}
    (hlength : ivars.length < 2 ^ 32)
    (hwithin : Within (emitIvars (ivars.map seenIvar) symbol s).2 final) :
    final.hostIvars (emitIvars (ivars.map seenIvar) symbol s).1
      = some (pointed (ivars.map mirrorIvar)) := by
  have hrows : final.rows (emitIvars (ivars.map seenIvar) symbol s).1
      = some (pointed ((ivars.map seenIvar).map ivarRow)) :=
    rows_emitTable hfinal (by simpa using hlength) (by simp [ivarRow]) hwithin
  have hread : ∀ ivar : Metadata.Ivar,
      Emission.hostIvar (ivarRow (seenIvar ivar)) = some (mirrorIvar ivar) := by
    intro ivar
    show some (HostIvar.mk _ _ _ ivar.alignment.toUInt64.toUInt32 ivar.size.toUInt64.toUInt32) = _
    rw [UInt32.toUInt32_toUInt64, UInt32.toUInt32_toUInt64]
    rfl
  rw [Emission.hostIvars, hrows, List.map_map]
  exact mapM_pointed (Json.mapM_map fun ivar _ => hread ivar)

theorem hostProperties_emitProperties {symbol : Symbol} {properties : List Metadata.Property}
    {s : Emission} (hlength : properties.length < 2 ^ 32)
    (hwithin : Within (emitProperties (properties.map seenProperty) symbol s).2 final) :
    final.hostProperties (emitProperties (properties.map seenProperty) symbol s).1
      = some (pointed (properties.map mirrorProperty)) := by
  have hrows : final.rows (emitProperties (properties.map seenProperty) symbol s).1
      = some (pointed ((properties.map seenProperty).map propertyRow)) :=
    rows_emitTable hfinal (by simpa using hlength) (by simp [propertyRow]) hwithin
  rw [Emission.hostProperties, hrows, List.map_map]
  exact mapM_pointed (Json.mapM_map fun _ _ => rfl)

theorem hostProtocols_emitProtocolList {symbol : Symbol} {protocols : List UInt64}
    {s : Emission} (hlength : protocols.length < 2 ^ 32)
    (hwithin : Within (emitProtocolList protocols symbol s).2 final) :
    final.hostProtocols (emitProtocolList protocols symbol s).1
      = some (pointed (protocols.map mirrorProtocol)) := by
  rw [Emission.hostProtocols, rows_emitProtocolList hfinal hlength hwithin]
  exact mapM_pointed (Json.mapM_map fun _ _ => rfl)

/-- **One `class_ro_t`**, with its lists. -/
theorem hostData_emitData {isMeta : Bool} {place : Place} {data : Metadata.ClassData}
    {s : Emission} (hfits : Fits data)
    (hwithin : Within (emitData signatures isMeta place (seenData data) s) final) :
    final.hostData ("_" ++ (Symbol.ro isMeta place).name)
      = some (mirrorData signatures isMeta data) := by
  let part := Symbol.dataPart isMeta place
  let methods := emitMethods signatures (data.methods.map seenMethod) isMeta (part .methods)
    data.name s
  let ivars := emitIvars (data.ivars.map seenIvar) (part .ivars) methods.2
  let properties := emitProperties (data.properties.map seenProperty) (part .properties) ivars.2
  let protocols := emitProtocolList data.protocols (part .protocols) properties.2
  let head : List Word := [.number data.flags.toUInt64, .number data.instanceStart.toUInt64,
    .number data.instanceSize.toUInt64, .number 0, .number data.nameAddress, methods.1,
    protocols.1, ivars.1, .number 0, properties.1]
  -- each list is still there when the structure is written behind it
  have hro : Within (protocols.2.define (.ro isMeta place) head []) final := hwithin
  have hprotocols : Within protocols.2 final := (define_extends _ _ _ _).within.trans hro
  have hproperties : Within properties.2 final :=
    (emitProtocolList_extends _ _ _).within.trans hprotocols
  have hivars : Within ivars.2 final := (emitTable_extends _ _ _ _).within.trans hproperties
  have hmethods : Within methods.2 final := (emitTable_extends _ _ _ _).within.trans hivars
  have hread : final.hostData ("_" ++ (Symbol.ro isMeta place).name) = (do
      some
        { flags := data.flags.toUInt64.toUInt32
          instanceStart := data.instanceStart.toUInt64.toUInt32
          instanceSize := data.instanceSize.toUInt64.toUInt32
          nameAddress := data.nameAddress.toUInt32
          methods := ← final.hostMethods methods.1
          ivars := ← final.hostIvars ivars.1
          properties := ← final.hostProperties properties.1
          protocols := ← final.hostProtocols protocols.1 }) := by
    rw [Emission.hostData, rows_of_definition hfinal hro]
    rfl
  rw [hread, hostMethods_emitMethods hfinal signatures hfits.methods hmethods,
    hostIvars_emitIvars hfinal hfits.ivars hivars,
    hostProperties_emitProperties hfinal hfits.properties hproperties,
    hostProtocols_emitProtocolList hfinal hfits.protocols hprotocols,
    UInt32.toUInt32_toUInt64, UInt32.toUInt32_toUInt64, UInt32.toUInt32_toUInt64]
  rfl

/-! ## The classes of the manifest -/

/-- A class has two, its own and its metaclass's, and the lists of each may fit or not. -/
theorem hostData_emitClass {place : Place} {cls : Metadata.ObjCClass} {s : Emission}
    (hwithin : Within (emitClass signatures place (seenClass cls) s) final) :
    (Fits cls.data → final.hostData ("_" ++ (Symbol.ro false place).name)
      = some (mirrorData signatures false cls.data)) ∧
    (Fits cls.metaData → final.hostData ("_" ++ (Symbol.ro true place).name)
      = some (mirrorData signatures true cls.metaData)) := by
  -- what is noted of the layout behind them adds no definition that is looked up
  have hmeta : Within (emitData signatures true place (seenData cls.metaData)
      (emitData signatures false place (seenData cls.data) s)) final := by
    obtain ⟨hdefinitions, himps⟩ := hwithin
    exact ⟨(List.prefix_append _ _).trans hdefinitions, himps⟩
  have hdata := (emitData_extends signatures true place (seenData cls.metaData)
    (emitData signatures false place (seenData cls.data) s)).within.trans hmeta
  exact ⟨fun hfits => hostData_emitData hfinal signatures hfits hdata,
    fun hfits => hostData_emitData hfinal signatures hfits hmeta⟩

omit hfinal in
/-- Every image of a manifest is emitted. -/
theorem exists_emitImage {images : List ObjCImage} {s : Emission}
    (h : emitClasses signatures images s = some final) {image : ObjCImage}
    (himage : image ∈ images) :
    ∃ s₁ s₂, emitCategories signatures image.index image.categories
        (emitImageClasses signatures image.index image.classes
          (emitProtocols signatures image.protocols (emitErrors image.errors s₁))) = some s₂ ∧
      Within s₂ final := by
  obtain ⟨s₁, himages, htables⟩ := emitClasses_after signatures h
  obtain ⟨s₂, s₃, hstep, hrest⟩ := Steps.exists_foldlM_step Within.refl Within.trans
    (fun s image s' h => (emitImage_extends signatures h).within) himage himages
  obtain ⟨s₄, hcategories, hselectors⟩ := Option.bind_eq_some_iff.mp hstep
  have hlast : Within s₄ s₃ := by
    cases hselectors
    exact ⟨List.prefix_rfl, List.prefix_rfl⟩
  exact ⟨s₂, s₄, hcategories, (hlast.trans hrest).trans htables.within⟩

omit hfinal in
/-- Every class of a manifest is emitted at its place. -/
theorem exists_emitClass {images : List ObjCImage} {s : Emission}
    (h : emitClasses signatures images s = some final) {image : ObjCImage} (himage : image ∈ images)
    {cls : ObjCClass} {position : Nat} (hcls : (cls, position) ∈ image.classes.zipIdx) :
    ∃ s₁, Within (emitClass signatures ⟨image.index, position⟩ cls s₁) final := by
  obtain ⟨s₁, s₂, hcategories, hrest⟩ := exists_emitImage signatures h himage
  obtain ⟨s₃, hclass⟩ := Steps.exists_foldl_step Within.refl Within.trans
    (fun s (cls : ObjCClass × Nat) =>
      (emitClass_extends signatures ⟨image.index, cls.2⟩ cls.1 s).within) hcls
    (emitProtocols signatures image.protocols (emitErrors image.errors s₁))
  have hbehind := (emitCategories_extends signatures hcategories).within
  exact ⟨s₃, (hclass.trans hbehind).trans hrest⟩

end

/-! ## The overrides -/

/-- The addresses of what the overrides of an image are written over. -/
def objects (image : Metadata.ObjCImage) : List UInt64 :=
  image.classes.flatMap (fun cls => [cls.address, cls.metaclass]) ++
    image.protocols.map Metadata.ObjCProtocol.address ++ image.strings.map ConstantString.address

/-- An image overrides its own objects, whatever the classes of the others. -/
theorem keys_imageOverrides (classes : List UInt64) (index : Nat) (image : Metadata.ObjCImage) :
    (imageOverrides classes index image.outline).map Prod.fst = objects image := by
  have hclasses : ∀ (l : List Metadata.ObjCClass) (n : Nat),
      (((l.map Metadata.ObjCClass.outline).zipIdx n).flatMap fun cls =>
        [cls.1.address, cls.1.metaclass]) = l.flatMap fun cls => [cls.address, cls.metaclass] := by
    intro l
    induction l with
    | nil => intro n; rfl
    | cons cls rest ih => exact fun n => congrArg _ (ih (n + 1))
  have hfirst : (imageOverrides classes index image.outline).map Prod.fst
      = (((image.classes.map Metadata.ObjCClass.outline).zipIdx.flatMap fun cls =>
          [cls.1.address, cls.1.metaclass]) ++
        (image.protocols.map Metadata.ObjCProtocol.outline).map Katabasis.ObjCProtocol.address ++
        image.strings.map ConstantString.address) := by
    rw [imageOverrides, List.map_append, List.map_append, List.map_flatMap, List.map_map,
      List.map_map]
    rfl
  rw [hfirst, hclasses, List.map_map]
  rfl

/-- The entries of the overrides, in the order they are written. -/
def overrideEntries (objc : List Katabasis.ObjCImage) : List (UInt64 × Override) :=
  objc.zipIdx.flatMap fun image => imageOverrides (classGlobals objc) image.2 image.1

theorem objcOverrides_eq (objc : List Katabasis.ObjCImage) :
    objcOverrides objc = Maps.insertList (overrideEntries objc) ∅ := rfl

/-- The addresses differ, so no override is written over by a later one. -/
theorem getElem?_objcOverrides {objc : List Katabasis.ObjCImage}
    (haddresses : ((overrideEntries objc).map Prod.fst).Nodup) {entry : UInt64 × Override}
    (h : entry ∈ overrideEntries objc) : (objcOverrides objc)[entry.1]? = some entry.2 :=
  Maps.getElem?_insertList_of_nodup haddresses h

theorem keys_overrideEntries (images : List (String × Metadata.ObjCImage)) :
    (overrideEntries (images.map fun image => image.2.outline)).map Prod.fst
      = images.flatMap fun image => objects image.2 := by
  have hkeys : ∀ (classes : List UInt64) (l : List (String × Metadata.ObjCImage)) (n : Nat),
      (((l.map fun image => image.2.outline).zipIdx n).flatMap fun image =>
        (imageOverrides classes image.2 image.1).map Prod.fst)
        = l.flatMap fun image => objects image.2 := by
    intro classes l
    induction l with
    | nil => intro n; rfl
    | cons image rest ih =>
        intro n
        rw [List.map_cons, List.zipIdx_cons, List.flatMap_cons, List.flatMap_cons, ih (n + 1),
          keys_imageOverrides]
  rw [overrideEntries, List.map_flatMap]
  exact hkeys _ images 0

/-- The class objects of a class and its metaclass, and what they point to. -/
theorem classData_override {images : List (String × Metadata.ObjCImage)}
    (haddresses : (images.flatMap fun image => objects image.2).Nodup)
    {image : String × Metadata.ObjCImage} {index : Nat} (himage : (image, index) ∈ images.zipIdx)
    {cls : Metadata.ObjCClass} {position : Nat}
    (hcls : (cls, position) ∈ image.2.classes.zipIdx) :
    (objcOverrides (images.map fun image => image.2.outline))[cls.address]?.bind classData
        = some ("_" ++ (Symbol.ro false ⟨index, position⟩).name) ∧
      (objcOverrides (images.map fun image => image.2.outline))[cls.metaclass]?.bind classData
        = some ("_" ++ (Symbol.ro true ⟨index, position⟩).name) := by
  rw [← keys_overrideEntries] at haddresses
  have himage' : (image.2.outline, index) ∈ (images.map fun image => image.2.outline).zipIdx := by
    rw [List.zipIdx_map]
    exact List.mem_map_of_mem himage
  have hcls' : (cls.outline, position) ∈ image.2.outline.classes.zipIdx := by
    show (cls.outline, position) ∈ (image.2.classes.map Metadata.ObjCClass.outline).zipIdx
    rw [List.zipIdx_map]
    exact List.mem_map_of_mem hcls
  have hentries : ∀ entry ∈ imageOverrides
      (classGlobals (images.map fun image => image.2.outline)) index image.2.outline,
      (objcOverrides (images.map fun image => image.2.outline))[entry.1]? = some entry.2 :=
    fun entry hentry => getElem?_objcOverrides haddresses
      (List.mem_flatMap.mpr ⟨_, himage', hentry⟩)
  have hobjects := fun entry hentry => hentries entry (List.mem_append_left _
    (List.mem_append_left _ (List.mem_flatMap.mpr ⟨_, hcls', hentry⟩)))
  have hclass := hobjects _ List.mem_cons_self
  have hmetaclass := hobjects _ (List.mem_cons_of_mem _ List.mem_cons_self)
  constructor
  · exact (congrArg (·.bind classData) hclass : _)
  · exact (congrArg (·.bind classData) hmetaclass : _)

/-- The images, as the generator reads them. -/
def seenImages (images : List (String × Metadata.ObjCImage)) : List ObjCImage :=
  images.zipIdx.map fun image => seenImage image.2 image.1.2

theorem distinct_seenImages {images : List (String × Metadata.ObjCImage)}
    (haddresses : (images.flatMap fun image => objects image.2).Nodup) :
    Distinct (seenImages images) := by
  constructor
  · rw [seenImages, List.map_map]
    have hnumbers : (images.zipIdx.map Prod.snd).Nodup := by
      rw [List.zipIdx_map_snd]
      exact List.nodup_range'
    exact hnumbers
  · have hprotocols : (seenImages images).flatMap
          (fun image => image.protocols.map ObjCProtocol.address)
        = images.flatMap fun image => image.2.protocols.map Metadata.ObjCProtocol.address := by
      conv_rhs => rw [← List.zipIdx_map_fst 0 images]
      rw [seenImages, List.flatMap_map, List.flatMap_map]
      simp only [seenImage, List.map_map]
      rfl
    have hsublist : (images.flatMap fun image =>
          image.2.protocols.map Metadata.ObjCProtocol.address).Sublist
        (images.flatMap fun image => objects image.2) :=
      List.Sublist.flatMap_right images fun image _ =>
        (List.sublist_append_right _ _).trans (List.sublist_append_left _ _)
    rw [hprotocols]
    exact hsublist.nodup haddresses

/-- An element of a list is somewhere in it. -/
theorem exists_place {α : Type} {l : List α} {a : α} (ha : a ∈ l) :
    ∃ index, (a, index) ∈ l.zipIdx := by
  obtain ⟨index, hindex, rfl⟩ := List.getElem_of_mem ha
  exact ⟨index, List.mem_zipIdx_iff_getElem?.mpr (List.getElem?_eq_getElem hindex)⟩

/-- **The host finds the guest's classes.** For the images that both programs are given: behind
each class object and each metaclass are the guest's flags, sizes, methods, ivars, properties and
protocols, and each method's implementation leads back to the guest's; a list is null where the
guest's is empty. No two tables share a name. -/
theorem classes_mirrored (signatures : Signatures)
    {images : List (String × Metadata.ObjCImage)} {start final : Emission}
    (hlength : images.length < 2 ^ 63)
    (haddresses : (images.flatMap fun image => objects image.2).Nodup)
    (hdefinitions : start.definitions = []) (himps : start.impMap = [])
    (hemit : emitManifest signatures (Metadata.writeManifest images) start = some final)
    {image : String × Metadata.ObjCImage} (himage : image ∈ images)
    {cls : Metadata.ObjCClass} (hcls : cls ∈ image.2.classes)
    (hdata : Fits cls.data) (hmeta : Fits cls.metaData) :
    final.hostClass (objcOverrides (images.map fun image => image.2.outline)) cls.address
        = some (mirrorData signatures false cls.data) ∧
      final.hostClass (objcOverrides (images.map fun image => image.2.outline)) cls.metaclass
        = some (mirrorData signatures true cls.metaData) ∧
      (final.definitions.map Definition.symbol).Nodup := by
  rw [emitManifest, readManifest_written hlength] at hemit
  have hclasses : emitClasses signatures (seenImages images) start = some final := hemit
  have hsound := emitClasses_sound signatures (distinct_seenImages haddresses) hdefinitions himps
    hclasses
  obtain ⟨index, hindex⟩ := exists_place himage
  obtain ⟨position, hposition⟩ := exists_place hcls
  have hseen : seenImage index image.2 ∈ seenImages images := List.mem_map_of_mem hindex
  have hplace : (seenClass cls, position) ∈ (seenImage index image.2).classes.zipIdx := by
    show (seenClass cls, position) ∈ (image.2.classes.map seenClass).zipIdx
    rw [List.zipIdx_map]
    exact List.mem_map_of_mem hposition
  obtain ⟨s₁, hwithin⟩ := exists_emitClass signatures hclasses hseen hplace
  obtain ⟨hread, hreadMeta⟩ := hostData_emitClass hsound signatures hwithin
  obtain ⟨hobject, hmetaObject⟩ := classData_override haddresses hindex hposition
  rw [Emission.hostClass, Emission.hostClass, hobject, hmetaObject]
  exact ⟨hread hdata, hreadMeta hmeta, hsound.definitions⟩

/-! ## A class of one method -/

def oneClass : Metadata.ObjCImage where
  classes := [{
    address := 0x2000
    superclass := .imported "_OBJC_CLASS_$_NSObject" "Foundation"
    data := {
      name := "Shape"
      nameAddress := 0x1000
      instanceStart := 8
      instanceSize := 16
      methods := [{ selector := "area", types := "d16@0:8", nameAddress := 0x1010, imp := 0x800 }]
      ivars := [{ name := "side", type := "d", offsetAddress := 0x2100, offsetValue := 8,
                  nameAddress := 0x1020, typeAddress := 0x1030, alignment := 3, size := 8 }]
      protocols := [0x2080] }
    metaclass := 0x2040
    metaData := { flags := 1, name := "Shape", nameAddress := 0x1000 } }]
  protocols := [{ address := 0x2080, name := "Measured", nameAddress := 0x1040,
                  instanceMethods := [{ selector := "area", types := "d16@0:8",
                                        nameAddress := 0x1010 }] }]

/-- The encoding of its method on the host. -/
def oneEncoding : Signatures where
  method := fun _ _ _ => { supported := true, hostEncoding := "d8@0:4" }
  description := fun _ => some "d8@0:4"

theorem classes_mirrored_oneClass :
    ∃ final : Emission,
      final.hostClass (objcOverrides [oneClass.outline]) 0x2000 = some
          { flags := 0, instanceStart := 8, instanceSize := 16, nameAddress := 0x1000
            methods := some [⟨0x1010, "d8@0:4", 0x800⟩]
            ivars := some [⟨0x2100, 0x1020, 0x1030, 3, 8⟩]
            properties := none
            protocols := some ["_xl_guest_protocol_00002080"] } ∧
        final.hostClass (objcOverrides [oneClass.outline]) 0x2040 = some
          { flags := 1, instanceStart := 0, instanceSize := 0, nameAddress := 0x1000
            methods := none, ivars := none, properties := none, protocols := none } ∧
        (final.definitions.map Definition.symbol).Nodup := by
  have hemitted : (emitManifest oneEncoding (Metadata.writeManifest [("App", oneClass)]) {}).isSome := by
    rw [emitManifest, readManifest_written (by decide)]
    rfl
  obtain ⟨final, hfinal⟩ := Option.isSome_iff_exists.mp hemitted
  have hmirrored := classes_mirrored oneEncoding (by decide) (by decide) rfl rfl hfinal
    List.mem_cons_self List.mem_cons_self ⟨by decide, by decide, by decide, by decide⟩
    ⟨by decide, by decide, by decide, by decide⟩
  exact ⟨final, hmirrored⟩

end Katabasis.Manifest
