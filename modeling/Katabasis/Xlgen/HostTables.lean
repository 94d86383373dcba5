import Katabasis.Lib.Steps
import Katabasis.Xlgen.ClassNames

set_option autoImplicit false

/-! # What the generator adds

Every step of `EmitClasses` appends: definitions, with names of its own, and wrappers, with the next
numbers. So what a step has defined is there at the end, and by its name it is found.
-/

namespace Katabasis.Manifest

/-! ## Owners -/

/-- What the tables are made for. -/
inductive Owner
  | protocol (address : UInt64)
  | cls (place : Place)
  | category (place : Place)
  deriving DecidableEq

/-- The lists that there is one of, and the wrappers, have no owner. -/
def Symbol.owner : Symbol → Option Owner
  | protocolPart address _ => some (.protocol address)
  | dataPart _ place _ => some (.cls place)
  | ro _ place => some (.cls place)
  | ivarFixup place => some (.cls place)
  | category place => some (.category place)
  | categoryPart place _ => some (.category place)
  | table _ => none
  | wrapper _ => none

def protocolSymbols (address : UInt64) : List Symbol :=
  [.protocolPart address .protocols, .protocolPart address .instanceMethods,
    .protocolPart address .classMethods, .protocolPart address .optionalInstance,
    .protocolPart address .optionalClass, .protocolPart address .properties]

def dataSymbols (isMeta : Bool) (place : Place) : List Symbol :=
  [.dataPart isMeta place .methods, .dataPart isMeta place .ivars,
    .dataPart isMeta place .properties, .dataPart isMeta place .protocols, .ro isMeta place]

def categorySymbols (place : Place) : List Symbol :=
  [.categoryPart place .instanceMethods, .categoryPart place .classMethods,
    .categoryPart place .properties, .categoryPart place .protocols, .category place]

/-- The tables that there can be for an owner, in the order they are written. -/
def Owner.symbols : Owner → List Symbol
  | protocol address => protocolSymbols address
  | cls place => dataSymbols false place ++ dataSymbols true place ++ [.ivarFixup place]
  | category place => categorySymbols place

theorem owner_of_mem {owner : Owner} {symbol : Symbol} (h : symbol ∈ owner.symbols) :
    symbol.owner = some owner := by
  revert symbol
  cases owner with
  | protocol address => simp [Owner.symbols, protocolSymbols, Symbol.owner]
  | cls place => simp [Owner.symbols, dataSymbols, Symbol.owner]
  | category place => simp [Owner.symbols, categorySymbols, Symbol.owner]

theorem nodup_symbols (owner : Owner) : owner.symbols.Nodup := by
  cases owner with
  | protocol address => simp [Owner.symbols, protocolSymbols]
  | cls place => simp [Owner.symbols, dataSymbols]
  | category place => simp [Owner.symbols, categorySymbols]

/-- Different owners have different tables. -/
theorem nodup_flatMap_symbols {owners : List Owner} (h : owners.Nodup) :
    (owners.flatMap Owner.symbols).Nodup := by
  rw [List.nodup_flatMap]
  refine ⟨fun owner _ => nodup_symbols owner, h.imp fun {a b} hab symbol ha hb => hab ?_⟩
  have howner := owner_of_mem ha
  rw [owner_of_mem hb] at howner
  exact (Option.some.inj howner).symm

/-! ## Steps -/

/-- A step defines some of these symbols, in this order, and numbers its wrappers on. -/
structure Extends (symbols : List Symbol) (s s' : Emission) : Prop where
  definitions : ∃ added, s'.definitions = s.definitions ++ added ∧
    (added.map Definition.symbol).Sublist (symbols.map Symbol.name)
  wrappers : ∃ imps : List UInt64, s'.counter = s.counter + imps.length ∧
    s'.impMap = s.impMap ++ (imps.zipIdx s.counter).map fun imp =>
      ((Symbol.wrapper imp.2).name, imp.1)

variable {symbols symbols' : List Symbol} {s s' s'' : Emission}

/-- A step that leaves the definitions and the wrappers alone. -/
theorem Extends.of_same (hdefinitions : s'.definitions = s.definitions)
    (hcounter : s'.counter = s.counter) (himps : s'.impMap = s.impMap) :
    Extends symbols s s' where
  definitions := ⟨[], by rw [hdefinitions, List.append_nil], List.nil_sublist _⟩
  wrappers := ⟨[], by simp [hcounter], by simp [himps]⟩

theorem Extends.refl (s : Emission) : Extends symbols s s := .of_same rfl rfl rfl

theorem Extends.trans (h : Extends symbols s s') (h' : Extends symbols' s' s'') :
    Extends (symbols ++ symbols') s s'' := by
  obtain ⟨added, hadded, hnames⟩ := h.definitions
  obtain ⟨added', hadded', hnames'⟩ := h'.definitions
  obtain ⟨imps, hcounter, himps⟩ := h.wrappers
  obtain ⟨imps', hcounter', himps'⟩ := h'.wrappers
  constructor
  · refine ⟨added ++ added', by rw [hadded', hadded, List.append_assoc], ?_⟩
    rw [List.map_append, List.map_append]
    exact hnames.append hnames'
  · refine ⟨imps ++ imps', ?_, ?_⟩
    · rw [hcounter', hcounter, List.length_append, Nat.add_assoc]
    · rw [himps', himps, hcounter, List.zipIdx_append, List.map_append, List.append_assoc]

theorem extends_adds : Steps.Adds Extends := ⟨.refl, .trans⟩

/-- A step without symbols of its own in front. -/
theorem Extends.before (h : Extends [] s s') (h' : Extends symbols s' s'') :
    Extends symbols s s'' := extends_adds.before h h'

/-- A step without symbols of its own behind. -/
theorem Extends.after (h : Extends symbols s s') (h' : Extends [] s' s'') :
    Extends symbols s s'' := extends_adds.after h h'

/-- One definition is added under its symbol's name, and no wrapper. -/
theorem define_extends (symbol : Symbol) (head : List Word) (rows : List (List Word))
    (s : Emission) : Extends [symbol] s (s.define symbol head rows) where
  definitions := ⟨[⟨symbol.name, head, rows⟩], rfl, .refl _⟩
  wrappers := ⟨[], by simp [Emission.define], by simp [Emission.define]⟩

/-- The wrapper takes the next number, and defines no symbol here. -/
theorem wrapped_extends (imp : UInt64) (s : Emission) : Extends [] s (s.wrapped imp) where
  definitions := ⟨[], by simp [Emission.wrapped], .refl _⟩
  wrappers := ⟨[imp], rfl, rfl⟩

/-! ## Lists -/

/-- An empty table is not written, so its symbol may be without a definition. -/
theorem emitTable_extends (symbol : Symbol) (entsize : UInt64) (rows : List (List Word))
    (s : Emission) : Extends [symbol] s (emitTable symbol entsize rows s).2 := by
  rw [emitTable]
  split
  · exact .refl s
  · exact define_extends _ _ _ s

theorem emitProtocolList_extends (protocols : List UInt64) (symbol : Symbol) (s : Emission) :
    Extends [symbol] s (emitProtocolList protocols symbol s).2 := by
  rw [emitProtocolList]
  split
  · exact .refl s
  · exact define_extends _ _ _ s

variable (signatures : Signatures)

/-- A wrapper is made whether or not the signature can be bridged. -/
theorem emitImplementation_eq (isClass : Bool) (hint : String) (method : Method) (s : Emission) :
    ∃ s', emitImplementation signatures isClass hint method s =
        ([.number method.nameAddress,
          .text (if (signatures.method isClass method.selector method.types).supported then
            (signatures.method isClass method.selector method.types).hostEncoding
            else method.types),
          .address (Symbol.wrapper s.counter).name], s') ∧
      Extends [] (s.wrapped method.imp) s' := by
  rw [emitImplementation]
  split
  · exact ⟨_, rfl, .of_same rfl rfl rfl⟩
  · exact ⟨_, rfl, .of_same rfl rfl rfl⟩

theorem emitImplementation_extends (isClass : Bool) (hint : String) (method : Method)
    (s : Emission) : Extends [] s (emitImplementation signatures isClass hint method s).2 := by
  obtain ⟨s', heq, hextends⟩ := emitImplementation_eq signatures isClass hint method s
  rw [heq]
  exact (wrapped_extends method.imp s).before hextends

theorem emitImplementations_cons (isClass : Bool) (hint : String) (method : Method)
    (rest : List Method) (s : Emission) :
    emitImplementations signatures isClass hint (method :: rest) s =
      ((emitImplementation signatures isClass hint method s).1 ::
          (emitImplementations signatures isClass hint rest
            (emitImplementation signatures isClass hint method s).2).1,
        (emitImplementations signatures isClass hint rest
          (emitImplementation signatures isClass hint method s).2).2) := rfl

theorem emitImplementations_extends (isClass : Bool) (hint : String) (methods : List Method)
    (s : Emission) : Extends [] s (emitImplementations signatures isClass hint methods s).2 := by
  induction methods generalizing s with
  | nil => exact .refl s
  | cons method rest ih =>
      exact (emitImplementation_extends signatures isClass hint method s).before (ih _)

theorem emitMethods_extends (methods : List Method) (isClass : Bool) (symbol : Symbol)
    (hint : String) (s : Emission) :
    Extends [symbol] s (emitMethods signatures methods isClass symbol hint s).2 :=
  (emitImplementations_extends signatures isClass hint methods s).before
    (emitTable_extends symbol 12 _ _)

/-! ## Protocols, classes, categories -/

theorem emitProtocol_extends (protocol : ObjCProtocol) (s : Emission) :
    Extends (Owner.protocol protocol.address).symbols s (emitProtocol signatures protocol s) :=
  ((((((emitProtocolList_extends _ _ s).trans (emitTable_extends _ _ _ _)).trans
    (emitTable_extends _ _ _ _)).trans (emitTable_extends _ _ _ _)).trans
    (emitTable_extends _ _ _ _)).trans (emitTable_extends _ _ _ _)).after (.of_same rfl rfl rfl)

theorem emitData_extends (isMeta : Bool) (place : Place) (data : ClassData) (s : Emission) :
    Extends (dataSymbols isMeta place) s (emitData signatures isMeta place data s) :=
  ((((emitMethods_extends signatures _ _ _ _ s).trans (emitTable_extends _ _ _ _)).trans
    (emitTable_extends _ _ _ _)).trans (emitProtocolList_extends _ _ _)).trans
    (define_extends _ _ _ _)

theorem emitLayout_extends (place : Place) (cls : ObjCClass) (s : Emission) :
    Extends [.ivarFixup place] s (emitLayout place cls s) :=
  (define_extends _ _ _ s).after (.of_same rfl rfl rfl)

theorem emitClass_extends (place : Place) (cls : ObjCClass) (s : Emission) :
    Extends (Owner.cls place).symbols s (emitClass signatures place cls s) := by
  have hdata := emitData_extends signatures false place cls.data s
  have hmeta := emitData_extends signatures true place cls.metaData
    (emitData signatures false place cls.data s)
  have hlayout : ∀ s' : Emission, Extends [.ivarFixup place] s' (emitLayout place cls
      { s' with classlist := s'.classlist ++ [guestClassName cls.address] }) := by
    intro s'
    have hlist : Extends [] s'
        { s' with classlist := s'.classlist ++ [guestClassName cls.address] } :=
      .of_same rfl rfl rfl
    exact hlist.before (emitLayout_extends place cls _)
  exact (hdata.trans hmeta).trans (hlayout _)

theorem emitCategoryData_extends (place : Place) (cls : Word) (category : ObjCCategory)
    (s : Emission) :
    Extends (categorySymbols place) s (emitCategoryData signatures place cls category s) :=
  ((((emitMethods_extends signatures _ _ _ _ s).trans
    (emitMethods_extends signatures _ _ _ _ _)).trans (emitTable_extends _ _ _ _)).trans
    (emitProtocolList_extends _ _ _)).trans (define_extends _ _ _ _)

theorem emitCategory_extends {place : Place} {category : ObjCCategory} {s s' : Emission}
    (h : emitCategory signatures place category s = some s') :
    Extends (Owner.category place).symbols s s' := by
  obtain ⟨⟨cls, passed⟩, -, hcategory⟩ := Option.bind_eq_some_iff.mp h
  cases hcategory
  have hpassed : Extends [] s { s with passthrough := s.passthrough ++ passed } :=
    .of_same rfl rfl rfl
  have hdata := emitCategoryData_extends signatures place cls category
    { s with passthrough := s.passthrough ++ passed }
  exact (hpassed.before hdata).after (.of_same rfl rfl rfl)

/-! ## Images -/

/-- What the tables of an image are made for, in the order they are written. -/
def ObjCImage.owners (image : ObjCImage) : List Owner :=
  image.protocols.map (fun protocol => .protocol protocol.address) ++
    image.classes.zipIdx.map (fun cls => .cls ⟨image.index, cls.2⟩) ++
    image.categories.zipIdx.map (fun category => .category ⟨image.index, category.2⟩)

theorem emitErrors_extends (errors : List String) (s : Emission) :
    Extends [] s (emitErrors errors s) := by
  have hstep : ∀ (s : Emission) (error : String),
      Extends [] s (s.failed ("objc metadata: UNSUPPORTED: " ++ error)) :=
    fun s error => .of_same rfl rfl rfl
  have hfold : Extends (errors.flatMap fun _ => []) s (emitErrors errors s) :=
    extends_adds.foldl hstep errors s
  rwa [List.flatMap_eq_nil_iff.mpr fun _ _ => rfl] at hfold

theorem emitProtocols_extends (protocols : List ObjCProtocol) (s : Emission) :
    Extends (protocols.flatMap fun protocol => (Owner.protocol protocol.address).symbols) s
      (emitProtocols signatures protocols s) :=
  extends_adds.foldl (fun s protocol => emitProtocol_extends signatures protocol s) protocols s

theorem emitImageClasses_extends (image : Nat) (classes : List ObjCClass) (s : Emission) :
    Extends (classes.zipIdx.flatMap fun cls => (Owner.cls ⟨image, cls.2⟩).symbols) s
      (emitImageClasses signatures image classes s) :=
  extends_adds.foldl
    (fun s (cls : ObjCClass × Nat) => emitClass_extends signatures ⟨image, cls.2⟩ cls.1 s) _ s

theorem emitCategories_extends {image : Nat} {categories : List ObjCCategory} {s s' : Emission}
    (h : emitCategories signatures image categories s = some s') :
    Extends (categories.zipIdx.flatMap fun category => (Owner.category ⟨image, category.2⟩).symbols)
      s s' :=
  extends_adds.foldlM (fun _ _ _ h => emitCategory_extends signatures h) h

theorem emitImage_extends {image : ObjCImage} {s s' : Emission}
    (h : emitImage signatures image s = some s') :
    Extends (image.owners.flatMap Owner.symbols) s s' := by
  obtain ⟨s₁, hcategories, himage⟩ := Option.bind_eq_some_iff.mp h
  cases himage
  have hselectors : Extends [] s₁ { s₁ with initial := s₁.initial ++ image.selectors } :=
    .of_same rfl rfl rfl
  have hprotocols := (emitErrors_extends image.errors s).before
    (emitProtocols_extends signatures image.protocols _)
  have hclasses := hprotocols.trans
    (emitImageClasses_extends signatures image.index image.classes _)
  have hall := (hclasses.trans (emitCategories_extends signatures hcategories)).after hselectors
  simp only [ObjCImage.owners, List.flatMap_append, List.flatMap_map]
  exact hall

theorem emitImages_extends {images : List ObjCImage} {s s' : Emission}
    (h : emitImages signatures images s = some s') :
    Extends ((images.flatMap ObjCImage.owners).flatMap Owner.symbols) s s' := by
  rw [List.flatMap_assoc]
  exact extends_adds.foldlM (fun s image s' h => emitImage_extends signatures h) h

/-- The lists that there is one of, in the order they are written. -/
def tables : List Symbol :=
  [.table .classlist, .table .protolist, .table .catlist, .table .layouts, .table .staticClasses,
    .table .listedClasses]

theorem emitList_extends (list : Table) (symbols : List String) (s : Emission) :
    Extends [.table list] s (emitList list symbols s) := by
  rw [emitList]
  split
  · exact .refl s
  · exact define_extends _ _ _ s

/-- The lists behind the images. -/
theorem emitClasses_after {images : List ObjCImage} {s s' : Emission}
    (h : emitClasses signatures images s = some s') :
    ∃ s₁, emitImages signatures images s = some s₁ ∧ Extends tables s₁ s' := by
  obtain ⟨s₁, himages, htables⟩ := Option.bind_eq_some_iff.mp h
  cases htables
  refine ⟨s₁, himages, ?_⟩
  exact ((((((emitList_extends _ _ s₁).trans (emitList_extends _ _ _)).trans
    (emitList_extends _ _ _)).trans (define_extends _ _ _ _)).trans
    (define_extends _ _ _ _)).trans (define_extends _ _ _ _))

/-- Every symbol that there can be a definition of. -/
def allSymbols (images : List ObjCImage) : List Symbol :=
  (images.flatMap ObjCImage.owners).flatMap Owner.symbols ++ tables

/-- **Everything that is written**, in its order. -/
theorem emitClasses_extends {images : List ObjCImage} {s s' : Emission}
    (h : emitClasses signatures images s = some s') : Extends (allSymbols images) s s' := by
  obtain ⟨s₁, himages, htables⟩ := emitClasses_after signatures h
  exact (emitImages_extends signatures himages).trans htables

/-! ## One definition for a name -/

/-- The images have indices of their own, and no two protocols one address. -/
structure Distinct (images : List ObjCImage) : Prop where
  indices : (images.map ObjCImage.index).Nodup
  protocols : (images.flatMap fun image => image.protocols.map ObjCProtocol.address).Nodup

/-- The definitions have names of their own, and the wrappers too. -/
structure Sound (s : Emission) : Prop where
  definitions : (s.definitions.map Definition.symbol).Nodup
  wrappers : (s.impMap.map Prod.fst).Nodup

/-- Places in a list differ. -/
theorem nodup_places {α β : Type} {make : Nat → β} (hmake : Function.Injective make)
    (l : List α) : (l.zipIdx.map fun entry => make entry.2).Nodup := by
  have hnumbers : (l.zipIdx.map Prod.snd).Nodup := by
    rw [List.zipIdx_map_snd]
    exact List.nodup_range'
  have hmap := hnumbers.map hmake
  rwa [List.map_map] at hmap

/-- The image that an owner which has a place is in. -/
def Owner.image : Owner → Option Nat
  | protocol _ => none
  | cls place => some place.image
  | category place => some place.image

/-- An owner is a protocol of the image, or has a place in it. -/
theorem mem_owners {image : ObjCImage} {owner : Owner} (h : owner ∈ image.owners) :
    (∃ protocol ∈ image.protocols, owner = .protocol protocol.address) ∨
      owner.image = some image.index := by
  simp only [ObjCImage.owners, List.mem_append, List.mem_map] at h
  rcases h with (⟨protocol, hprotocol, rfl⟩ | ⟨cls, -, rfl⟩) | ⟨category, -, rfl⟩
  · exact .inl ⟨protocol, hprotocol, rfl⟩
  · exact .inr rfl
  · exact .inr rfl

theorem nodup_image_owners {image : ObjCImage}
    (h : (image.protocols.map ObjCProtocol.address).Nodup) : image.owners.Nodup := by
  have hprotocols : (image.protocols.map fun protocol => Owner.protocol protocol.address).Nodup := by
    have hmap := h.map fun a b (hab : Owner.protocol a = Owner.protocol b) => Owner.protocol.inj hab
    rwa [List.map_map] at hmap
  have hclasses : (image.classes.zipIdx.map fun cls => Owner.cls ⟨image.index, cls.2⟩).Nodup :=
    nodup_places (fun a b hab => (Place.mk.inj (Owner.cls.inj hab)).2) _
  have hcategories :
      (image.categories.zipIdx.map fun category => Owner.category ⟨image.index, category.2⟩).Nodup :=
    nodup_places (fun a b hab => (Place.mk.inj (Owner.category.inj hab)).2) _
  rw [ObjCImage.owners, List.nodup_append, List.nodup_append]
  simp only [List.mem_append, List.mem_map]
  refine ⟨⟨hprotocols, hclasses, ?_⟩, hcategories, ?_⟩
  · rintro _ ⟨protocol, -, rfl⟩ _ ⟨cls, -, rfl⟩ heq
    cases heq
  · rintro _ (⟨protocol, -, rfl⟩ | ⟨cls, -, rfl⟩) _ ⟨category, -, rfl⟩ heq <;> cases heq

theorem nodup_owners {images : List ObjCImage} (h : Distinct images) :
    (images.flatMap ObjCImage.owners).Nodup := by
  obtain ⟨hindices, hprotocols⟩ := h
  rw [List.nodup_flatMap] at hprotocols ⊢
  rw [List.Nodup, List.pairwise_map] at hindices
  refine ⟨fun image himage => nodup_image_owners (hprotocols.1 image himage), ?_⟩
  refine (hindices.and hprotocols.2).imp fun {a b} hab owner ha hb => ?_
  -- two images share no protocol's address and no place
  rcases mem_owners ha with ⟨protocol, hprotocol, rfl⟩ | himage
  · rcases mem_owners hb with ⟨protocol', hprotocol', heq⟩ | himage
    · refine hab.2 (List.mem_map_of_mem hprotocol) ?_
      rw [Owner.protocol.inj heq]
      exact List.mem_map_of_mem hprotocol'
    · cases himage
  · rcases mem_owners hb with ⟨protocol', -, rfl⟩ | himage'
    · cases himage
    · rw [himage] at himage'
      exact hab.1 (Option.some.inj himage')

theorem nodup_allSymbols {images : List ObjCImage} (h : Distinct images) :
    (allSymbols images).Nodup := by
  rw [allSymbols, List.nodup_append']
  refine ⟨nodup_flatMap_symbols (nodup_owners h), by simp [tables], ?_⟩
  intro symbol howned htable
  obtain ⟨owner, -, hmem⟩ := List.mem_flatMap.mp howned
  have howner := owner_of_mem hmem
  simp only [tables, List.mem_cons, List.not_mem_nil, or_false] at htable
  rcases htable with rfl | rfl | rfl | rfl | rfl | rfl <;> cases howner

/-- **Nothing is defined twice.** -/
theorem emitClasses_sound {images : List ObjCImage} {s s' : Emission} (h : Distinct images)
    (hdefinitions : s.definitions = []) (himps : s.impMap = [])
    (hemit : emitClasses signatures images s = some s') : Sound s' := by
  obtain ⟨added, hadded, hnames⟩ := (emitClasses_extends signatures hemit).definitions
  obtain ⟨imps, -, hadded'⟩ := (emitClasses_extends signatures hemit).wrappers
  constructor
  · rw [hadded, hdefinitions, List.nil_append]
    exact hnames.nodup ((nodup_allSymbols h).map fun a b hab => name_injective hab)
  · -- the wrappers are numbered through
    rw [hadded', himps, List.nil_append, List.map_map]
    have hnumbers : ((imps.zipIdx s.counter).map Prod.snd).Nodup := by
      rw [List.zipIdx_map_snd]
      exact List.nodup_range'
    rw [List.Nodup, List.pairwise_map] at hnumbers ⊢
    refine hnumbers.imp fun {a b} hab heq => hab ?_
    have hwrapper : Symbol.wrapper a.2 = Symbol.wrapper b.2 := name_injective heq
    exact Symbol.wrapper.inj hwrapper

end Katabasis.Manifest
