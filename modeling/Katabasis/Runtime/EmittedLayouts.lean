import Katabasis.Runtime.ClassLayouts
import Katabasis.Xlgen.ClassMirror

set_option autoImplicit false

/-! # The layouts, from the manifest to the fix

`xl_class_layouts` is written by the generator (`xlate/src/xlgen.cpp`) and worked through when the
program starts (`runtime/objc_bridge.m`). The generator writes nothing at all where a field lies in
front of its class (`Write`), and so no field ends up in front of where the host's superclass ends.
-/

namespace Katabasis.Manifest

/-! ## What is registered -/

/-- The part of the emission that only the layouts of classes touch. -/
def Emission.registered (s : Emission) : List LayoutRow × List String := (s.layouts, s.layoutErrors)

@[simp] theorem registered_define (s : Emission) (symbol : Symbol) (head : List Word)
    (rows : List (List Word)) : (s.define symbol head rows).registered = s.registered := rfl

@[simp] theorem registered_emitTable (symbol : Symbol) (entsize : UInt64)
    (rows : List (List Word)) (s : Emission) :
    (emitTable symbol entsize rows s).2.registered = s.registered := by
  rw [emitTable]
  split <;> rfl

@[simp] theorem registered_emitList (list : Table) (symbols : List String) (s : Emission) :
    (emitList list symbols s).registered = s.registered := by
  rw [emitList]
  split <;> rfl

@[simp] theorem registered_emitProtocolList (protocols : List UInt64) (symbol : Symbol)
    (s : Emission) : (emitProtocolList protocols symbol s).2.registered = s.registered := by
  rw [emitProtocolList]
  split <;> rfl

section

variable (signatures : Signatures)

@[simp] theorem registered_emitImplementation (isClass : Bool) (hint : String) (method : Method)
    (s : Emission) :
    (emitImplementation signatures isClass hint method s).2.registered = s.registered := by
  rw [emitImplementation]
  split <;> rfl

@[simp] theorem registered_emitImplementations (isClass : Bool) (hint : String)
    (methods : List Method) (s : Emission) :
    (emitImplementations signatures isClass hint methods s).2.registered = s.registered := by
  induction methods generalizing s with
  | nil => rfl
  | cons method rest ih =>
      rw [emitImplementations_cons, ih, registered_emitImplementation]

@[simp] theorem registered_emitMethods (methods : List Method) (isClass : Bool) (symbol : Symbol)
    (hint : String) (s : Emission) :
    (emitMethods signatures methods isClass symbol hint s).2.registered = s.registered := by
  simp [emitMethods]

theorem registered_emitProtocol (protocol : ObjCProtocol) (s : Emission) :
    (emitProtocol signatures protocol s).registered = s.registered := by
  have hlist : ∀ s : Emission, Emission.registered
      { s with protolist := s.protolist ++ [protocolSymbol protocol.address] } = s.registered :=
    fun s => rfl
  simp [emitProtocol, emitDescriptions, emitProperties, hlist]

@[simp] theorem registered_emitData (isMeta : Bool) (place : Place) (data : ClassData)
    (s : Emission) : (emitData signatures isMeta place data s).registered = s.registered := by
  simp [emitData, emitIvars, emitProperties]

@[simp] theorem registered_emitCategoryData (place : Place) (cls : Word)
    (category : ObjCCategory) (s : Emission) :
    (emitCategoryData signatures place cls category s).registered = s.registered := by
  simp [emitCategoryData, emitProperties]

theorem registered_emitCategory {place : Place} {category : ObjCCategory} {s s' : Emission}
    (h : emitCategory signatures place category s = some s') : s'.registered = s.registered := by
  obtain ⟨⟨cls, passed⟩, -, hcategory⟩ := Option.bind_eq_some_iff.mp h
  cases hcategory
  exact registered_emitCategoryData signatures place cls category
    { s with passthrough := s.passthrough ++ passed }

/-! ## The classes that are registered -/

/-- What is wrong with the layout of a class. -/
def layoutErrors (cls : ObjCClass) : List String := cls.data.ivars.filterMap (layoutError cls.data)

/-- These classes have been registered. -/
def Registers (classes : List (Place × ObjCClass)) (s s' : Emission) : Prop :=
  s'.registered = (s.layouts ++ classes.map fun entry => layoutEntry entry.1 entry.2,
    s.layoutErrors ++ classes.flatMap fun entry => layoutErrors entry.2)

/-- A step that registers nothing. -/
theorem Registers.of_same {s s' : Emission} (h : s'.registered = s.registered) :
    Registers [] s s' := by
  rw [Registers, h]
  simp [Emission.registered]

theorem registers_adds : Steps.Adds Registers where
  refl s := .of_same rfl
  trans := by
    intro first second s s' s'' h h'
    obtain ⟨hlayouts, herrors⟩ := Prod.ext_iff.mp h
    simp only [Emission.registered] at hlayouts herrors
    rw [Registers, hlayouts, herrors] at h'
    simpa [Registers] using h'

/-- A class registers its layout, and what its check has found. -/
theorem registers_emitClass (place : Place) (cls : ObjCClass) (s : Emission) :
    Registers [(place, cls)] s (emitClass signatures place cls s) := by
  have hdata : (emitData signatures true place cls.metaData
      (emitData signatures false place cls.data s)).registered = s.registered := by simp
  obtain ⟨hlayouts, herrors⟩ := Prod.ext_iff.mp hdata
  simp only [Emission.registered] at hlayouts herrors
  simp [Registers, Emission.registered, emitClass, emitLayout, Emission.define, layoutErrors,
    hlayouts, herrors]

/-- The classes of an image, with their places. -/
def ObjCImage.placed (image : ObjCImage) : List (Place × ObjCClass) :=
  image.classes.zipIdx.map fun cls => (⟨image.index, cls.2⟩, cls.1)

theorem registers_emitImage {image : ObjCImage} {s s' : Emission}
    (h : emitImage signatures image s = some s') : Registers image.placed s s' := by
  obtain ⟨s₁, hcategories, himage⟩ := Option.bind_eq_some_iff.mp h
  have hfailed : ∀ (s : Emission) (error : String),
      Registers [] s (s.failed ("objc metadata: UNSUPPORTED: " ++ error)) := fun _ _ => .of_same rfl
  have herrors : Registers (image.errors.flatMap fun _ => []) s (emitErrors image.errors s) :=
    registers_adds.foldl hfailed image.errors s
  have hprotocols : ∀ s, Registers (image.protocols.flatMap fun _ => []) s
      (emitProtocols signatures image.protocols s) := fun s =>
    registers_adds.foldl
      (fun s protocol => .of_same (registered_emitProtocol signatures protocol s)) _ s
  have hclasses : ∀ s, Registers (image.classes.zipIdx.flatMap fun cls =>
      [((⟨image.index, cls.2⟩ : Place), cls.1)]) s
      (emitImageClasses signatures image.index image.classes s) := fun s =>
    registers_adds.foldl
      (fun s (cls : ObjCClass × Nat) => registers_emitClass signatures ⟨image.index, cls.2⟩ cls.1 s)
      _ s
  have hcategories' := registers_adds.foldlM
    (fun s category s' h => .of_same (registered_emitCategory signatures h)) hcategories
  have hselectors : Registers [] s₁ s' := by
    cases himage
    exact .of_same rfl
  -- only the classes register anything
  have hall := registers_adds.trans (registers_adds.trans (registers_adds.trans
    (registers_adds.trans herrors (hprotocols _)) (hclasses _)) hcategories') hselectors
  have hnil : ∀ {α : Type} (l : List α), (l.flatMap fun _ => ([] : List (Place × ObjCClass))) = [] :=
    fun l => List.flatMap_eq_nil_iff.mpr fun _ _ => rfl
  simp only [hnil, ← List.map_eq_flatMap, List.nil_append, List.append_nil] at hall
  exact hall

theorem registers_emitImages {images : List ObjCImage} {s s' : Emission}
    (h : emitImages signatures images s = some s') :
    Registers (images.flatMap ObjCImage.placed) s s' :=
  registers_adds.foldlM (fun _ _ _ h => registers_emitImage signatures h) h

/-- The rows of `xl_class_layouts`, and what the checks of the layouts have found. -/
theorem layouts_defined {images : List ObjCImage} {start final : Emission} (hfinal : Sound final)
    (h : emitClasses signatures images start = some final) (hlayouts : start.layouts = [])
    (herrors : start.layoutErrors = []) :
    (∃ definition, final.find "_xl_class_layouts" = some definition ∧
      definition.rows = (images.flatMap ObjCImage.placed).map
        (fun entry => layoutRow (layoutEntry entry.1 entry.2)) ++ [List.replicate 6 (.number 0)]) ∧
    final.layoutErrors = (images.flatMap ObjCImage.placed).flatMap fun entry =>
      layoutErrors entry.2 := by
  obtain ⟨s₁, himages, htables⟩ := Option.bind_eq_some_iff.mp h
  cases htables
  have hregisters := registers_emitImages signatures himages
  rw [Registers, hlayouts, herrors, List.nil_append, List.nil_append] at hregisters
  let s₂ := emitList .protolist (emitList .classlist s₁.classlist s₁).protolist
    (emitList .classlist s₁.classlist s₁)
  let s₃ := emitList .catlist s₂.catlist s₂
  let rows := s₃.layouts.map layoutRow ++ [List.replicate 6 (.number 0)]
  let s₄ := s₃.define (.table .layouts) [] rows
  have hsame : s₃.registered = s₁.registered := by simp [s₃, s₂]
  obtain ⟨hrows, herrors⟩ := Prod.ext_iff.mp (hsame.trans hregisters)
  simp only [Emission.registered] at hrows herrors
  have hwithin : Within s₄ (emitAddresses .listedClasses
      (images.flatMap ObjCImage.swiftListedClasses)
      (emitAddresses .staticClasses (images.flatMap ObjCImage.swiftStaticClasses) s₄)) :=
    (define_extends _ _ _ _).within.trans (define_extends _ _ _ _).within
  refine ⟨⟨_, rows_of_definition hfinal hwithin, ?_⟩, herrors⟩
  show s₃.layouts.map layoutRow ++ _ = _
  rw [hrows, List.map_map]
  rfl

end

/-! ## The table, as it is linked -/

/-- An entry of an `xl_ivar_fixup` array. -/
def ivarFixup : List Word → Option IvarFixup
  | [.number offset, .number value] => some ⟨offset.toUInt32.toNat, value.toUInt32⟩
  | _ => none

def textOf : Word → Option String
  | .text value => some value
  | _ => none

/-- A row of `xl_class_layouts`, for where the linker puts the symbols. The name of the class, which
only the text of an error has, is left out. -/
def Emission.classLayout (s : Emission) (linked : String → Nat) : List Word → Option ClassLayout
  | [.address ro, .number address, host, .number guest, .number start, .number size,
      .number count, .address fixups] => do
      let definition ← s.find ("_" ++ fixups)
      some
        { ro := linked ("_" ++ ro)
          address := address.toUInt32
          superHost := textOf host
          superGuest := guest.toUInt32
          guestInstanceStart := start.toUInt32
          guestInstanceSize := size.toUInt32
          ivars := ← (definition.rows.take count.toUInt32.toNat).mapM ivarFixup }
  | _ => none

/-- The table ends at the row without a `class_ro_t`. -/
def isEntry : List Word → Bool
  | .number 0 :: _ => false
  | _ => true

def Emission.classLayouts (s : Emission) (linked : String → Nat) : Option (List ClassLayout) :=
  (s.find "_xl_class_layouts").bind fun definition =>
    (definition.rows.takeWhile isEntry).mapM (s.classLayout linked)

/-! ## The layouts of the guest -/

/-- The offset's variable and the offset that the guest was compiled with. -/
def guestFixup (ivar : Metadata.Ivar) : IvarFixup :=
  ⟨ivar.offsetAddress.toUInt32.toNat, ivar.offsetValue⟩

/-- The layout of a class by its metadata; its `class_ro_t` is the host's, at its place. -/
def guestLayout (linked : String → Nat) (place : Place) (cls : Metadata.ObjCClass) :
    ClassLayout where
  ro := linked ("_" ++ (Symbol.ro false place).name)
  address := cls.address.toUInt32
  superHost := superHost cls.superclass
  superGuest := (superGuest cls.superclass).toUInt32
  guestInstanceStart := cls.data.instanceStart
  guestInstanceSize := cls.data.instanceSize
  ivars := cls.data.ivars.map guestFixup

/-- The classes of all images, with the places under which they are emitted. -/
def placedClasses (images : List (String × Metadata.ObjCImage)) :
    List (Place × Metadata.ObjCClass) :=
  images.zipIdx.flatMap fun image =>
    image.1.2.classes.zipIdx.map fun cls => (⟨image.2, cls.2⟩, cls.1)

def guestLayouts (linked : String → Nat) (images : List (String × Metadata.ObjCImage)) :
    List ClassLayout :=
  (placedClasses images).map fun entry => guestLayout linked entry.1 entry.2

/-- The manifest keeps the classes and their order. -/
theorem placed_seenImages (images : List (String × Metadata.ObjCImage)) :
    (seenImages images).flatMap ObjCImage.placed
      = (placedClasses images).map fun entry => (entry.1, seenClass entry.2) := by
  have himage : ∀ index (image : Metadata.ObjCImage), (seenImage index image).placed
      = (image.classes.zipIdx.map fun cls => ((⟨index, cls.2⟩ : Place), cls.1)).map
        fun entry => (entry.1, seenClass entry.2) := by
    intro index image
    show (((image.classes.map seenClass).zipIdx).map fun cls =>
      ((⟨index, cls.2⟩ : Place), cls.1)) = _
    rw [List.zipIdx_map, List.map_map, List.map_map]
    rfl
  rw [seenImages, placedClasses, List.flatMap_map, List.map_flatMap]
  exact congrArg (images.zipIdx.flatMap ·) (funext fun image => himage image.2 image.1.2)

section

variable {final : Emission} (signatures : Signatures) (hfinal : Sound final)

include hfinal

/-- The fixups of a class are found behind its row. -/
theorem find_fixups {place : Place} {cls : ObjCClass} {s : Emission}
    (hwithin : Within (emitClass signatures place cls s) final) :
    final.find ("_" ++ (Symbol.ivarFixup place).name)
      = some ⟨(Symbol.ivarFixup place).name, [],
          cls.data.ivars.map fixupRow ++ [[.number 0, .number 0]]⟩ := by
  obtain ⟨hdefinitions, himps⟩ := hwithin
  exact rows_of_definition hfinal (s := { emitData signatures true place cls.metaData
    (emitData signatures false place cls.data s) with classlist := _ }) ⟨hdefinitions, himps⟩

/-- The row of a class is read as its layout. -/
theorem classLayout_row (linked : String → Nat) {place : Place} {cls : Metadata.ObjCClass}
    {s : Emission} (hlength : cls.data.ivars.length < 2 ^ 32)
    (hwithin : Within (emitClass signatures place (seenClass cls) s) final) :
    final.classLayout linked (layoutRow (layoutEntry place (seenClass cls)))
      = some (guestLayout linked place cls) := by
  have hfixups := find_fixups signatures hfinal hwithin
  have hhost : ∀ host : Option String, textOf (hostName host) = host :=
    fun host => by cases host <;> rfl
  have hsuper : superHost (seenPointer cls.superclass) = superHost cls.superclass ∧
      superGuest (seenPointer cls.superclass) = superGuest cls.superclass := by
    cases cls.superclass <;> exact ⟨rfl, rfl⟩
  have hcount : (UInt64.ofNat (cls.data.ivars.map seenIvar).length).toUInt32.toNat
      = ((cls.data.ivars.map seenIvar).map fixupRow).length := by
    rw [toNat_count (by rwa [List.length_map]), List.length_map, List.length_map, List.length_map]
  -- the count ends the fixups in front of the zeros
  have hread : ((((cls.data.ivars.map seenIvar).map fixupRow ++ [[Word.number 0, Word.number 0]]).take
      (UInt64.ofNat (cls.data.ivars.map seenIvar).length).toUInt32.toNat).mapM ivarFixup)
      = some (cls.data.ivars.map guestFixup) := by
    rw [hcount, List.take_left, List.map_map]
    refine Json.mapM_map fun ivar _ => ?_
    show some (IvarFixup.mk _ ivar.offsetValue.toUInt64.toUInt32) = _
    rw [UInt32.toUInt32_toUInt64]
    rfl
  have hrow : final.classLayout linked (layoutRow (layoutEntry place (seenClass cls)))
      = (final.find ("_" ++ (Symbol.ivarFixup place).name)).bind fun definition =>
        ((definition.rows.take
          (UInt64.ofNat (cls.data.ivars.map seenIvar).length).toUInt32.toNat).mapM ivarFixup).bind
        fun ivars => some
          { ro := linked ("_" ++ (Symbol.ro false place).name)
            address := cls.address.toUInt32
            superHost := textOf (hostName (superHost (seenPointer cls.superclass)))
            superGuest := (superGuest (seenPointer cls.superclass)).toUInt32
            guestInstanceStart := cls.data.instanceStart.toUInt64.toUInt32
            guestInstanceSize := cls.data.instanceSize.toUInt64.toUInt32
            ivars := ivars } := rfl
  rw [hrow, hfixups, Option.bind_some, hhost, hsuper.1, hsuper.2, UInt32.toUInt32_toUInt64,
    UInt32.toUInt32_toUInt64]
  exact Option.bind_eq_some_iff.mpr ⟨_, hread, rfl⟩

end

/-! ## The result -/

theorem isEntry_layoutRow (row : LayoutRow) : isEntry (layoutRow row) = true := rfl

/-- Every class of the images is emitted at its place. -/
theorem exists_placed (signatures : Signatures) {images : List (String × Metadata.ObjCImage)}
    {start final : Emission}
    (hclasses : emitClasses signatures (seenImages images) start = some final)
    {entry : Place × Metadata.ObjCClass} (hentry : entry ∈ placedClasses images) :
    ∃ s, Within (emitClass signatures entry.1 (seenClass entry.2) s) final := by
  obtain ⟨image, himage, hmem⟩ := List.mem_flatMap.mp hentry
  obtain ⟨cls, hcls, rfl⟩ := List.mem_map.mp hmem
  have hseen : seenImage image.2 image.1.2 ∈ seenImages images := List.mem_map_of_mem himage
  have hplace : (seenClass cls.1, cls.2) ∈ (seenImage image.2 image.1.2).classes.zipIdx := by
    show (seenClass cls.1, cls.2) ∈ (image.1.2.classes.map seenClass).zipIdx
    rw [List.zipIdx_map]
    exact List.mem_map_of_mem hcls
  exact exists_emitClass signatures hclasses hseen hplace

/-- The generator's table is the guest's layouts. -/
theorem classLayouts_emitted (signatures : Signatures)
    {images : List (String × Metadata.ObjCImage)} {start final : Emission}
    (hfinal : Sound final) (hlayouts : start.layouts = []) (herrors : start.layoutErrors = [])
    (hclasses : emitClasses signatures (seenImages images) start = some final)
    (hivars : ∀ entry ∈ placedClasses images, entry.2.data.ivars.length < 2 ^ 32)
    (linked : String → Nat) :
    final.classLayouts linked = some (guestLayouts linked images) ∧
      final.layoutErrors = (placedClasses images).flatMap fun entry =>
        layoutErrors (seenClass entry.2) := by
  obtain ⟨⟨definition, hfind, hrows⟩, hfound⟩ :=
    layouts_defined signatures hfinal hclasses hlayouts herrors
  rw [placed_seenImages] at hrows hfound
  constructor
  · rw [Emission.classLayouts, hfind, Option.bind_some, hrows, List.map_map]
    have hentries : (((placedClasses images).map fun entry : Place × Metadata.ObjCClass =>
          layoutRow (layoutEntry entry.1 (seenClass entry.2))) ++
          [List.replicate 6 (Word.number 0)]).takeWhile isEntry
        = (placedClasses images).map fun entry =>
          layoutRow (layoutEntry entry.1 (seenClass entry.2)) := by
      have hrows : ∀ row ∈ (placedClasses images).map fun entry : Place × Metadata.ObjCClass =>
          layoutRow (layoutEntry entry.1 (seenClass entry.2)), isEntry row = true := by
        intro row hrow
        obtain ⟨entry, -, rfl⟩ := List.mem_map.mp hrow
        exact isEntry_layoutRow _
      rw [List.takeWhile_append_of_pos hrows]
      exact List.append_nil _
    refine Eq.trans (congrArg (List.mapM (final.classLayout linked)) hentries) ?_
    refine Json.mapM_map fun entry hentry => ?_
    obtain ⟨s, hwithin⟩ := exists_placed signatures hclasses hentry
    exact classLayout_row signatures hfinal linked (hivars entry hentry) hwithin
  · rw [hfound, List.flatMap_map]

/-- The generator compares 64-bit signed numbers, which 32-bit ones are as they are. -/
theorem toInt_toInt64 (u : UInt32) : u.toUInt64.toInt64.toInt = u.toNat := by
  show u.toUInt64.toBitVec.toInt = u.toNat
  have hlt : u.toUInt64.toBitVec.toNat < 2 ^ 32 := UInt32.toNat_lt u
  rw [BitVec.toInt_eq_toNat_of_lt (by omega)]
  rfl

/-- No field lies in front of its class. -/
theorem start_le_of_layoutErrors {cls : Metadata.ObjCClass}
    (h : layoutErrors (seenClass cls) = []) {ivar : Metadata.Ivar} (hivar : ivar ∈ cls.data.ivars) :
    cls.data.instanceStart.toNat ≤ ivar.offsetValue.toNat := by
  have hnone := List.filterMap_eq_nil_iff.mp h (seenIvar ivar) (List.mem_map_of_mem hivar)
  by_contra hlt
  have hbefore : (seenIvar ivar).offsetValue.toInt64 < (seenClass cls).data.instanceStart.toInt64 := by
    rw [Int64.lt_iff_toInt_lt]
    show ivar.offsetValue.toUInt64.toInt64.toInt < cls.data.instanceStart.toUInt64.toInt64.toInt
    rw [toInt_toInt64, toInt_toInt64]
    omega
  rw [layoutError, if_pos hbefore] at hnone
  cases hnone

/-! ## Classes of their own -/

/-- The places are by image and by class. -/
theorem nodup_places_placedClasses (images : List (String × Metadata.ObjCImage)) :
    ((placedClasses images).map Prod.fst).Nodup := by
  have hindices : (images.zipIdx.map Prod.snd).Nodup := by
    rw [List.zipIdx_map_snd]
    exact List.nodup_range'
  rw [List.Nodup, List.pairwise_map] at hindices
  rw [placedClasses, List.map_flatMap, List.nodup_flatMap]
  constructor
  · intro image _
    rw [List.map_map]
    exact nodup_places (fun a b hab => (Place.mk.inj hab).2) _
  · refine hindices.imp fun {a b} hab place ha hb => hab ?_
    simp only [List.map_map, List.mem_map] at ha hb
    obtain ⟨_, -, rfl⟩ := ha
    obtain ⟨_, -, heq⟩ := hb
    exact (Place.mk.inj heq).1.symm

theorem addresses_placedClasses (images : List (String × Metadata.ObjCImage)) :
    (placedClasses images).map (fun entry => entry.2.address)
      = images.flatMap fun image => image.2.classes.map Metadata.ObjCClass.address := by
  have himage : ∀ image : (String × Metadata.ObjCImage) × Nat,
      (image.1.2.classes.zipIdx.map fun cls => ((⟨image.2, cls.2⟩ : Place), cls.1)).map
          (fun entry => entry.2.address)
        = image.1.2.classes.map Metadata.ObjCClass.address := by
    intro image
    conv_rhs => rw [← List.zipIdx_map_fst 0 image.1.2.classes]
    rw [List.map_map, List.map_map]
    rfl
  conv_rhs => rw [← List.zipIdx_map_fst 0 images]
  rw [placedClasses, List.map_flatMap, List.flatMap_map]
  exact congrArg (images.zipIdx.flatMap ·) (funext himage)

/-- What the fix needs of the guest's classes and of the host. -/
structure Suits (table : List ClassLayout) (host : LayoutHost) : Prop where
  acyclic : ∀ l, ¬ Relation.TransGen (SuperLayout table) l l
  resolved : ∀ l ∈ table, l.superGuest ≠ 0 → ∃ super ∈ table, super.address = l.superGuest
  offsetVars : (table.flatMap fun l => l.ivars.map IvarFixup.offsetVar).Nodup
  writable : ∀ l ∈ table, ∀ ivar ∈ l.ivars, host.protection ivar.offsetVar = .writable
  start_lt : ∀ l ∈ table, l.guestInstanceStart.toNat < 2 ^ 31
  sizes : ∀ l ∈ table, ∀ bound, SuperEnds table host l bound → bound < 2 ^ 31 ∧
    l.guestInstanceSize.toNat + (bound - l.guestInstanceStart.toNat) < 2 ^ 31 ∧
    ∀ ivar ∈ l.ivars, ivar.guestOffset.toNat + (bound - l.guestInstanceStart.toNat) < 2 ^ 31

/-- Below `2^32` the addresses stay apart when they are cut to the host's pointers. -/
theorem soundTable_guestLayouts {images : List (String × Metadata.ObjCImage)}
    {linked : String → Nat} {host : LayoutHost}
    (haddresses : (images.flatMap fun image => objects image.2).Nodup)
    (hlow : ∀ entry ∈ placedClasses images, entry.2.address.toNat < 2 ^ 32)
    (hlinked : ∀ a b : Symbol, linked ("_" ++ a.name) = linked ("_" ++ b.name) → a = b)
    (hsuits : Suits (guestLayouts linked images) host) :
    SoundTable (guestLayouts linked images) host where
  acyclic := hsuits.acyclic
  resolved := hsuits.resolved
  addresses := by
    have hsublist : (images.flatMap fun image =>
          image.2.classes.map Metadata.ObjCClass.address).Sublist
        (images.flatMap fun image => objects image.2) := by
      refine List.Sublist.flatMap_right images fun image _ => ?_
      refine List.Sublist.trans ?_ ((List.sublist_append_left _ _).trans
        (List.sublist_append_left _ _))
      rw [List.map_eq_flatMap]
      exact List.Sublist.flatMap_right _ fun cls _ => (List.nil_sublist _).cons_cons _
    have hnodup := hsublist.nodup haddresses
    rw [← addresses_placedClasses] at hnodup
    rw [guestLayouts, List.map_map]
    have hmapped : ((placedClasses images).map fun entry => entry.2.address.toUInt32).Nodup := by
      rw [List.Nodup, List.pairwise_map] at hnodup ⊢
      refine hnodup.imp_of_mem fun {a b} ha hb hab heq => hab ?_
      have hvalue := congrArg UInt32.toNat heq
      rw [UInt64.toNat_toUInt32, UInt64.toNat_toUInt32, Nat.mod_eq_of_lt (hlow a ha),
        Nat.mod_eq_of_lt (hlow b hb)] at hvalue
      exact UInt64.toNat_inj.mp hvalue
    exact hmapped
  records := by
    rw [guestLayouts, List.map_map]
    have hplaces := nodup_places_placedClasses images
    rw [List.Nodup, List.pairwise_map] at hplaces ⊢
    refine hplaces.imp fun {a b} hab heq => hab ?_
    have hsymbol : Symbol.ro false a.1 = Symbol.ro false b.1 := hlinked _ _ heq
    exact (Symbol.ro.inj hsymbol).2
  offsetVars := hsuits.offsetVars
  writable := hsuits.writable
  start_lt := hsuits.start_lt
  sizes := hsuits.sizes

/-- **No field is where the host's superclass is.** When the generator has written its output, the
fix at the start of the program succeeds, every class starts behind its superclass, and no field
lies in front of its class. -/
theorem fields_behind_superclasses (signatures : Signatures)
    {images : List (String × Metadata.ObjCImage)} {start final : Emission}
    (hlength : images.length < 2 ^ 63)
    (haddresses : (images.flatMap fun image => objects image.2).Nodup)
    (hlow : ∀ entry ∈ placedClasses images, entry.2.address.toNat < 2 ^ 32)
    (hivars : ∀ entry ∈ placedClasses images, entry.2.data.ivars.length < 2 ^ 32)
    (hdefinitions : start.definitions = []) (himps : start.impMap = [])
    (hlayouts : start.layouts = []) (herrors : start.layoutErrors = [])
    (hemit : emitManifest signatures (Metadata.writeManifest images) start = some final)
    (hwritten : final.layoutErrors = []) {linked : String → Nat}
    (hlinked : ∀ a b : Symbol, linked ("_" ++ a.name) = linked ("_" ++ b.name) → a = b)
    {host : LayoutHost} (hsuits : Suits (guestLayouts linked images) host) (m : LayoutMemory) :
    final.classLayouts linked = some (guestLayouts linked images) ∧
      ∃ m', xlFixLayouts (guestLayouts linked images) host m = .ok m' ∧
        ∀ entry ∈ placedClasses images, ∃ l, l = guestLayout linked entry.1 entry.2 ∧
          Reconciled (guestLayouts linked images) host m' l ∧ ∀ ivar ∈ l.ivars,
            ((m'.span l.ro).instanceStart.toNat : Int) ≤ (m'.offset ivar.offsetVar).toInt := by
  rw [emitManifest, readManifest_written hlength] at hemit
  have hclasses : emitClasses signatures (seenImages images) start = some final := hemit
  have hfinal := emitClasses_sound signatures (distinct_seenImages haddresses) hdefinitions himps
    hclasses
  obtain ⟨htable, hfound⟩ := classLayouts_emitted signatures hfinal hlayouts herrors hclasses
    hivars linked
  have hsound := soundTable_guestLayouts haddresses hlow hlinked hsuits
  obtain ⟨m', hrun, hreconciled, -⟩ := layouts_reconciled hsound m
  refine ⟨htable, m', hrun, fun entry hentry => ?_⟩
  have hmem : guestLayout linked entry.1 entry.2 ∈ guestLayouts linked images :=
    List.mem_map_of_mem hentry
  refine ⟨_, rfl, hreconciled _ hmem, fun ivar hivar => ?_⟩
  obtain ⟨bound, -, hstart, -, hoffsets⟩ := hreconciled _ hmem
  obtain ⟨source, hsource, rfl⟩ := List.mem_map.mp hivar
  -- the generator found nothing wrong with the class
  have hnone : layoutErrors (seenClass entry.2) = [] :=
    List.flatMap_eq_nil_iff.mp (hfound.symm.trans hwritten) entry hentry
  have hguest : (guestLayout linked entry.1 entry.2).guestInstanceStart.toNat
      ≤ (guestFixup source).guestOffset.toNat := start_le_of_layoutErrors hnone hsource
  rw [hoffsets _ hivar]
  omega

/-! A class below a class of the host that has four bytes more than the guest's. -/

/-- Every symbol at a place of its own. -/
def someLinker (symbol : String) : Nat := Encodable.encode (symbol.toList.map Char.toNat)

theorem someLinker_injective {a b : Symbol}
    (h : someLinker ("_" ++ a.name) = someLinker ("_" ++ b.name)) : a = b := by
  have hchars := List.map_injective_iff.mpr (fun _ _ h => Char.toNat_inj.mp h)
    (Encodable.encode_injective h)
  have hname : "_" ++ a.name = "_" ++ b.name := String.toList_inj.mp hchars
  exact name_injective (by simpa using hname)

def oneLayout : ClassLayout where
  ro := someLinker "_xl_objc_ro_0_0"
  address := 0x2000
  superHost := some "NSObject"
  guestInstanceStart := 8
  guestInstanceSize := 16
  ivars := [⟨0x2100, 8⟩]

def widerHost : LayoutHost where
  instanceSize name := if name = "NSObject" then some 12 else none
  protection _ := .writable

theorem suits_oneLayout : Suits [oneLayout] widerHost where
  acyclic := by
    intro l h
    obtain ⟨_, -, hlast⟩ := Relation.TransGen.tail'_iff.mp h
    obtain ⟨_, hfirst, -⟩ := Relation.TransGen.head'_iff.mp h
    rw [List.mem_singleton.mp (mem_of_superLayout hlast)] at hfirst
    exact hfirst.1 rfl
  resolved := by
    intro l hl hguest
    rw [List.mem_singleton.mp hl] at hguest
    exact absurd rfl hguest
  offsetVars := by
    show [0x2100].Nodup
    decide
  writable := fun _ _ _ _ => rfl
  start_lt := by
    intro l hl
    rw [List.mem_singleton.mp hl]
    show (8 : UInt32).toNat < 2 ^ 31
    decide
  sizes := by
    intro l hl bound hends
    rw [List.mem_singleton.mp hl] at hends ⊢
    cases hends with
    | own _ =>
        have hsize : (hostSuperSize widerHost oneLayout).toNat = 12 := rfl
        rw [hsize]
        refine ⟨by decide, by decide, fun ivar hivar => ?_⟩
        rw [List.mem_singleton.mp hivar]
        decide
    | guest hguest _ => exact absurd rfl hguest.1

theorem fields_behind_superclasses_oneClass :
    ∃ (final : Emission) (m' : LayoutMemory), final.classLayouts someLinker = some [oneLayout] ∧
      xlFixLayouts [oneLayout] widerHost ⟨fun _ => ⟨0, 0⟩, fun _ => 0, []⟩ = .ok m' ∧
      (m'.span oneLayout.ro).instanceStart.toNat = 12 ∧ (m'.offset 0x2100).toInt = 12 := by
  have hemitted : (emitManifest oneEncoding
      (Metadata.writeManifest [("App", oneClass)]) {}).map Emission.layoutErrors = some [] := by
    rw [emitManifest, readManifest_written (by decide)]
    rfl
  obtain ⟨final, hfinal, hwritten⟩ := Option.map_eq_some_iff.mp hemitted
  have hsuits : Suits (guestLayouts someLinker [("App", oneClass)]) widerHost := suits_oneLayout
  obtain ⟨htable, m', hrun, hclasses⟩ := fields_behind_superclasses oneEncoding (by decide)
    (by decide) (by decide) (by decide) rfl rfl rfl rfl hfinal hwritten
    (fun _ _ => someLinker_injective) hsuits ⟨fun _ => ⟨0, 0⟩, fun _ => 0, []⟩
  refine ⟨final, m', htable, hrun, ?_⟩
  obtain ⟨l, hl, ⟨bound, hbound, hstart, -, hoffsets⟩, -⟩ := hclasses _ List.mem_cons_self
  have hl' : l = oneLayout := hl
  rw [hl'] at hbound hstart hoffsets
  rcases hbound with ⟨-, hbound⟩ | ⟨super, hsuper, -⟩
  · have hsize : bound = 12 := hbound
    have hstart' : (m'.span oneLayout.ro).instanceStart.toNat = 12 := by
      rw [hstart, hsize]
      rfl
    have hoffset := hoffsets _ List.mem_cons_self
    rw [hstart'] at hoffset
    exact ⟨hstart', hoffset⟩
  · exact absurd rfl hsuper.1

end Katabasis.Manifest
