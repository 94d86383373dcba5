import Katabasis.Xlgen.ClassMirror

set_option autoImplicit false

/-! # The guest's protocols, as the host finds them

A protocol object is an override in the lifted module, of the size of the guest's, and its lists are
the host's tables. Whether there is a list, both programs decide by themselves.
-/

namespace Katabasis.Manifest

/-- A protocol object; a list is `none` where its pointer is null. -/
structure HostProtocol where
  nameAddress : UInt32
  flags : UInt32
  protocols : Option (List String)
  instanceMethods : Option (List HostMethod)
  classMethods : Option (List HostMethod)
  optionalInstanceMethods : Option (List HostMethod)
  optionalClassMethods : Option (List HostMethod)
  properties : Option (List HostProperty)
  deriving DecidableEq, Repr

namespace Emission

variable (s : Emission)

/-- The list that a field of an override points to; `some none` where the field is null. -/
def constantRows : Constant → Option (Option (List (List Word)))
  | .int32 value => if value = 0 then some none else none
  | .address symbol 0 => ((s.find symbol).bind listed).map some
  | _ => none

def objectMethods (field : Constant) : Option (Option (List HostMethod)) :=
  (s.constantRows field).bind fun rows => rows.mapM fun rows => rows.mapM s.hostMethod

def objectProperties (field : Constant) : Option (Option (List HostProperty)) :=
  (s.constantRows field).bind fun rows => rows.mapM fun rows => rows.mapM hostProperty

def objectProtocols (field : Constant) : Option (Option (List String)) :=
  (s.constantRows field).bind fun rows => rows.mapM fun rows => rows.mapM hostProtocol

/-- A protocol object. -/
def hostObject (override : Override) : Option HostProtocol :=
  match override.fields with
  | [_, .int32 name, protocols, instance_, class_, optionalInstance, optionalClass, properties, _,
      .int32 flags, _, _] => do
      some
        { nameAddress := name
          flags := flags
          protocols := ← s.objectProtocols protocols
          instanceMethods := ← s.objectMethods instance_
          classMethods := ← s.objectMethods class_
          optionalInstanceMethods := ← s.objectMethods optionalInstance
          optionalClassMethods := ← s.objectMethods optionalClass
          properties := ← s.objectProperties properties }
  | _ => none

end Emission

/-- What is found of the protocol at an address. -/
def Emission.hostProtocolAt (s : Emission) (overrides : Overrides) (address : UInt64) :
    Option HostProtocol :=
  overrides[address]?.bind s.hostObject

section

variable (signatures : Signatures)

/-- A protocol's method has no implementation, and the host's encoding where there is one. -/
def mirrorDescription (method : Metadata.Method) : HostMethod where
  nameAddress := method.nameAddress.toUInt32
  types := (signatures.description method.types).getD method.types
  imp := 0

/-- What the host should find: null for a list that the guest has empty. -/
def mirrorObject (protocol : Metadata.ObjCProtocol) : HostProtocol where
  nameAddress := protocol.nameAddress.toUInt32
  flags := protocol.flags
  protocols := pointed (protocol.protocols.map mirrorProtocol)
  instanceMethods := pointed (protocol.instanceMethods.map (mirrorDescription signatures))
  classMethods := pointed (protocol.classMethods.map (mirrorDescription signatures))
  optionalInstanceMethods := pointed (protocol.optionalInstanceMethods.map (mirrorDescription signatures))
  optionalClassMethods := pointed (protocol.optionalClassMethods.map (mirrorDescription signatures))
  properties := pointed (protocol.properties.map mirrorProperty)

end

/-- The lists are no longer than an armv7 structure can say. -/
structure ProtocolFits (protocol : Metadata.ObjCProtocol) : Prop where
  protocols : protocol.protocols.length < 2 ^ 32
  instanceMethods : protocol.instanceMethods.length < 2 ^ 32
  classMethods : protocol.classMethods.length < 2 ^ 32
  optionalInstanceMethods : protocol.optionalInstanceMethods.length < 2 ^ 32
  optionalClassMethods : protocol.optionalClassMethods.length < 2 ^ 32
  properties : protocol.properties.length < 2 ^ 32

/-! ## The lists of a protocol -/

section

variable {final : Emission} (signatures : Signatures)

/-- The field of the override and the word of the generator lead to the same list. -/
theorem constantRows_emitTable (protocol : Katabasis.ObjCProtocol) (part : Part) (entsize : UInt64)
    {rows : List (List Word)} {isPresent : Bool} (hpresent : isPresent = !rows.isEmpty)
    (s : Emission) :
    final.constantRows (protocolList protocol isPresent part.text)
      = final.rows (emitTable (.protocolPart protocol.address part) entsize rows s).1 := by
  rw [hpresent, protocolList, emitTable]
  cases rows.isEmpty <;> rfl

/-- The same for the protocols that a protocol adopts. -/
theorem constantRows_emitProtocolList (protocol : Katabasis.ObjCProtocol) (part : Part)
    (protocols : List UInt64) (s : Emission) :
    final.constantRows (protocolList protocol (!protocols.isEmpty) part.text)
      = final.rows (emitProtocolList protocols (.protocolPart protocol.address part) s).1 := by
  rw [protocolList, emitProtocolList]
  cases protocols.isEmpty <;> rfl

variable (hfinal : Sound final)

include hfinal

/-- Any of the four lists of methods. -/
theorem objectMethods_emitDescriptions (protocol : Katabasis.ObjCProtocol) {part : Part}
    {methods : List Metadata.Method} {s : Emission} (hlength : methods.length < 2 ^ 32)
    (hwithin : Within (emitDescriptions signatures (methods.map seenMethod)
      (.protocolPart protocol.address part) s).2 final) :
    final.objectMethods (protocolList protocol
        (!(methods.map Metadata.Method.outline).isEmpty) part.text)
      = some (pointed (methods.map (mirrorDescription signatures))) := by
  have hrows : final.rows (emitDescriptions signatures (methods.map seenMethod)
        (.protocolPart protocol.address part) s).1
      = some (pointed ((methods.map seenMethod).map (descriptionRow signatures))) :=
    rows_emitTable hfinal (by simpa using hlength) (by simp [descriptionRow]) hwithin
  have hpresent : (!(methods.map Metadata.Method.outline).isEmpty)
      = !((methods.map seenMethod).map (descriptionRow signatures)).isEmpty := by simp
  rw [Emission.objectMethods, constantRows_emitTable protocol part 12 hpresent s]
  rw [emitDescriptions] at hrows
  rw [hrows, List.map_map]
  exact mapM_pointed (Json.mapM_map fun _ _ => rfl)

theorem objectProperties_emitProperties (protocol : Katabasis.ObjCProtocol) {part : Part}
    {properties : List Metadata.Property} {s : Emission} (hlength : properties.length < 2 ^ 32)
    (hwithin : Within (emitProperties (properties.map seenProperty)
      (.protocolPart protocol.address part) s).2 final) :
    final.objectProperties (protocolList protocol
        (!(properties.map Metadata.Property.outline).isEmpty) part.text)
      = some (pointed (properties.map mirrorProperty)) := by
  have hread := hostProperties_emitProperties hfinal hlength hwithin
  have hpresent : (!(properties.map Metadata.Property.outline).isEmpty)
      = !((properties.map seenProperty).map propertyRow).isEmpty := by simp
  rw [Emission.objectProperties, constantRows_emitTable protocol part 8 hpresent s]
  exact hread

theorem objectProtocols_emitProtocolList (protocol : Katabasis.ObjCProtocol) {part : Part}
    {protocols : List UInt64} {s : Emission} (hlength : protocols.length < 2 ^ 32)
    (hwithin : Within (emitProtocolList protocols (.protocolPart protocol.address part) s).2
      final) :
    final.objectProtocols (protocolList protocol (!protocols.isEmpty) part.text)
      = some (pointed (protocols.map mirrorProtocol)) := by
  have hread := hostProtocols_emitProtocolList hfinal hlength hwithin
  rw [Emission.objectProtocols, constantRows_emitProtocolList protocol part protocols s]
  exact hread

/-- All lists of a protocol are found behind its override, once it has been emitted. -/
theorem hostObject_emitProtocol {protocol : Metadata.ObjCProtocol} {s : Emission}
    (hfits : ProtocolFits protocol)
    (hwithin : Within (emitProtocol signatures (seenProtocol protocol) s) final) :
    final.hostObject (protocolObject protocol.outline)
      = some (mirrorObject signatures protocol) := by
  -- the lists one after the other, each within what is there at the end
  let part := Symbol.protocolPart protocol.address
  let s₁ := (emitProtocolList protocol.protocols (part .protocols) s).2
  let s₂ := (emitDescriptions signatures (protocol.instanceMethods.map seenMethod)
    (part .instanceMethods) s₁).2
  let s₃ := (emitDescriptions signatures (protocol.classMethods.map seenMethod)
    (part .classMethods) s₂).2
  let s₄ := (emitDescriptions signatures (protocol.optionalInstanceMethods.map seenMethod)
    (part .optionalInstance) s₃).2
  let s₅ := (emitDescriptions signatures (protocol.optionalClassMethods.map seenMethod)
    (part .optionalClass) s₄).2
  let s₆ := (emitProperties (protocol.properties.map seenProperty) (part .properties) s₅).2
  have h₆ : Within s₆ final := ⟨hwithin.definitions, hwithin.impMap⟩
  have h₅ : Within s₅ final := (emitTable_extends _ _ _ _).within.trans h₆
  have h₄ : Within s₄ final := (emitTable_extends _ _ _ _).within.trans h₅
  have h₃ : Within s₃ final := (emitTable_extends _ _ _ _).within.trans h₄
  have h₂ : Within s₂ final := (emitTable_extends _ _ _ _).within.trans h₃
  have h₁ : Within s₁ final := (emitTable_extends _ _ _ _).within.trans h₂
  have hread : final.hostObject (protocolObject protocol.outline) = (do
      some
        { nameAddress := protocol.nameAddress.toUInt32
          flags := protocol.flags
          protocols := ← final.objectProtocols (protocolList protocol.outline
            (!protocol.protocols.isEmpty) Part.protocols.text)
          instanceMethods := ← final.objectMethods (protocolList protocol.outline
            (!(protocol.instanceMethods.map Metadata.Method.outline).isEmpty)
            Part.instanceMethods.text)
          classMethods := ← final.objectMethods (protocolList protocol.outline
            (!(protocol.classMethods.map Metadata.Method.outline).isEmpty) Part.classMethods.text)
          optionalInstanceMethods := ← final.objectMethods (protocolList protocol.outline
            (!(protocol.optionalInstanceMethods.map Metadata.Method.outline).isEmpty)
            Part.optionalInstance.text)
          optionalClassMethods := ← final.objectMethods (protocolList protocol.outline
            (!(protocol.optionalClassMethods.map Metadata.Method.outline).isEmpty)
            Part.optionalClass.text)
          properties := ← final.objectProperties (protocolList protocol.outline
            (!(protocol.properties.map Metadata.Property.outline).isEmpty)
            Part.properties.text) }) := rfl
  rw [hread, objectProtocols_emitProtocolList hfinal protocol.outline hfits.protocols h₁,
    objectMethods_emitDescriptions signatures hfinal protocol.outline hfits.instanceMethods h₂,
    objectMethods_emitDescriptions signatures hfinal protocol.outline hfits.classMethods h₃,
    objectMethods_emitDescriptions signatures hfinal protocol.outline
      hfits.optionalInstanceMethods h₄,
    objectMethods_emitDescriptions signatures hfinal protocol.outline
      hfits.optionalClassMethods h₅,
    objectProperties_emitProperties hfinal protocol.outline hfits.properties h₆]
  rfl

end

/-! ## The protocols of the manifest -/

/-- Every protocol of a manifest is emitted. -/
theorem exists_emitProtocol (signatures : Signatures) {images : List ObjCImage}
    {s final : Emission} (h : emitClasses signatures images s = some final) {image : ObjCImage}
    (himage : image ∈ images) {protocol : ObjCProtocol} (hprotocol : protocol ∈ image.protocols) :
    ∃ s₁, Within (emitProtocol signatures protocol s₁) final := by
  obtain ⟨s₁, s₂, hcategories, hrest⟩ := exists_emitImage signatures h himage
  obtain ⟨s₃, hemitted⟩ := Steps.exists_foldl_step Within.refl Within.trans
    (fun s protocol => (emitProtocol_extends signatures protocol s).within) hprotocol
    (emitErrors image.errors s₁)
  have hclasses := (emitImageClasses_extends signatures image.index image.classes
    (emitProtocols signatures image.protocols (emitErrors image.errors s₁))).within
  have hbehind := (emitCategories_extends signatures hcategories).within
  exact ⟨s₃, ((hemitted.trans hclasses).trans hbehind).trans hrest⟩

/-- The override at a protocol's address is the protocol's. -/
theorem getElem?_protocol {images : List (String × Metadata.ObjCImage)}
    (haddresses : (images.flatMap fun image => objects image.2).Nodup)
    {image : String × Metadata.ObjCImage} (himage : image ∈ images)
    {protocol : Metadata.ObjCProtocol} (hprotocol : protocol ∈ image.2.protocols) :
    (objcOverrides (images.map fun image => image.2.outline))[protocol.address]?
      = some (protocolObject protocol.outline) := by
  rw [← keys_overrideEntries] at haddresses
  obtain ⟨index, hindex⟩ := exists_place himage
  have himage' : (image.2.outline, index) ∈ (images.map fun image => image.2.outline).zipIdx := by
    rw [List.zipIdx_map]
    exact List.mem_map_of_mem hindex
  have hentry : (protocol.address, protocolObject protocol.outline) ∈ imageOverrides
      (classGlobals (images.map fun image => image.2.outline)) index image.2.outline :=
    List.mem_append_left _ (List.mem_append_right _
      (List.mem_map.mpr ⟨_, List.mem_map_of_mem hprotocol, rfl⟩))
  exact getElem?_objcOverrides haddresses (List.mem_flatMap.mpr ⟨_, himage', hentry⟩)

/-- **The host finds the guest's protocols**, with the encodings of their methods in the host's
form. It finds null for a list exactly where the guest's is empty: the override is null there, and
elsewhere it leads to a table. -/
theorem protocols_mirrored (signatures : Signatures)
    {images : List (String × Metadata.ObjCImage)} {start final : Emission}
    (hlength : images.length < 2 ^ 63)
    (haddresses : (images.flatMap fun image => objects image.2).Nodup)
    (hdefinitions : start.definitions = []) (himps : start.impMap = [])
    (hemit : emitManifest signatures (Metadata.writeManifest images) start = some final)
    {image : String × Metadata.ObjCImage} (himage : image ∈ images)
    {protocol : Metadata.ObjCProtocol} (hprotocol : protocol ∈ image.2.protocols)
    (hfits : ProtocolFits protocol) :
    final.hostProtocolAt (objcOverrides (images.map fun image => image.2.outline))
      protocol.address = some (mirrorObject signatures protocol) := by
  rw [emitManifest, readManifest_written hlength] at hemit
  have hclasses : emitClasses signatures (seenImages images) start = some final := hemit
  have hsound := emitClasses_sound signatures (distinct_seenImages haddresses) hdefinitions himps
    hclasses
  obtain ⟨index, hindex⟩ := exists_place himage
  have hseen : seenImage index image.2 ∈ seenImages images := List.mem_map_of_mem hindex
  have hlisted : seenProtocol protocol ∈ (seenImage index image.2).protocols :=
    List.mem_map_of_mem hprotocol
  obtain ⟨s₁, hwithin⟩ := exists_emitProtocol signatures hclasses hseen hlisted
  rw [Emission.hostProtocolAt, getElem?_protocol haddresses himage hprotocol]
  exact hostObject_emitProtocol signatures hsound hfits hwithin

theorem protocols_mirrored_oneClass :
    ∃ final : Emission,
      final.hostProtocolAt (objcOverrides [oneClass.outline]) 0x2080 = some
        { nameAddress := 0x1040, flags := 0, protocols := none
          instanceMethods := some [⟨0x1010, "d8@0:4", 0⟩], classMethods := none
          optionalInstanceMethods := none, optionalClassMethods := none, properties := none } := by
  have hemitted : (emitManifest oneEncoding (Metadata.writeManifest [("App", oneClass)]) {}).isSome := by
    rw [emitManifest, readManifest_written (by decide)]
    rfl
  obtain ⟨final, hfinal⟩ := Option.isSome_iff_exists.mp hemitted
  have hmirrored := protocols_mirrored oneEncoding (by decide) (by decide) rfl rfl hfinal
    List.mem_cons_self List.mem_cons_self
    ⟨by decide, by decide, by decide, by decide, by decide, by decide⟩
  exact ⟨final, hmirrored⟩

end Katabasis.Manifest
