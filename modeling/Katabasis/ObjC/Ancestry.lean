import Katabasis.ObjC.Split

set_option autoImplicit false

/-! # Class splitting and the resolved ancestry

What the split is for: a Swift class moves when its superclasses, every one of them with its
guest imports resolved, end at a class without a superclass (`EndsAtRoot`). The walk of
`SplitGuestLayoutClasses` agrees with this except where it meets a class whose superclass,
from `__objc_clsrolist`, is an import that was not resolved (`Unresolved`).
-/

namespace Katabasis

open Std

/-! ## The resolved ancestry -/

/-- One of the tables gives the class at an address a superclass. -/
def Above (objc : List ObjCImage) (host : UInt64) (superclass : Pointer) : Prop :=
  ∃ image ∈ objc, (∃ cls ∈ image.classes, cls.address = host ∧ cls.superclass = superclass) ∨
    (host, superclass) ∈ image.clsrolistSuperclass

/-- The resolved superclass chain from a pointer on ends at a class without a superclass, within
so many steps. -/
inductive EndsAtRoot (objc : List ObjCImage) (exports : GuestExports) : Nat → Pointer → Prop
  | root (steps : Nat) : EndsAtRoot objc exports (steps + 1) .null
  | above {steps : Nat} {host : UInt64} {superclass : Pointer} :
      Above objc host superclass →
      EndsAtRoot objc exports steps (resolvePointer exports superclass) →
      EndsAtRoot objc exports (steps + 1) (.localTo host)

/-- The class at an address is on the resolved superclass chain from a pointer on. -/
inductive OnChain (objc : List ObjCImage) (exports : GuestExports) : Pointer → UInt64 → Prop
  | here (host : UInt64) : OnChain objc exports (.localTo host) host
  | above {host ancestor : UInt64} {superclass : Pointer} :
      Above objc host superclass →
      OnChain objc exports (resolvePointer exports superclass) ancestor →
      OnChain objc exports (.localTo host) ancestor

/-- `__objc_clsrolist` gives the class at an address a superclass that is an import, and a guest
image answers it. -/
def Unresolved (objc : List ObjCImage) (exports : GuestExports) (host : UInt64) : Prop :=
  ∃ image ∈ objc, ∃ symbol library address,
    (host, Pointer.imported symbol library) ∈ image.clsrolistSuperclass ∧
      exports.find library symbol = some address

/-- The tables of one reading of the images: an address has one class and one superclass, in one
image. -/
structure Consistent (objc : List ObjCImage) : Prop where
  classes : ∀ image ∈ objc, ∀ cls ∈ image.classes, ∀ other ∈ image.classes,
    cls.address = other.address → cls = other
  rolist : ∀ image ∈ objc, ∀ entry ∈ image.clsrolistSuperclass,
    ∀ other ∈ image.clsrolistSuperclass, entry.1 = other.1 → entry.2 = other.2
  tables : ∀ image ∈ objc, ∀ cls ∈ image.classes, ∀ entry ∈ image.clsrolistSuperclass,
    cls.address = entry.1 → cls.superclass = entry.2
  apart : objc.Pairwise fun a b => ∀ entry ∈ superclassEntries a,
    ∀ other ∈ superclassEntries b, entry.1 ≠ other.1

theorem Consistent.image_eq {objc : List ObjCImage} (hc : Consistent objc)
    {image other : ObjCImage} (himage : image ∈ objc) (hother : other ∈ objc)
    {a b : UInt64 × Pointer} (ha : a ∈ superclassEntries image) (hb : b ∈ superclassEntries other)
    (h : a.1 = b.1) : image = other := by
  obtain ⟨before, after, rfl⟩ := List.append_of_mem himage
  have hapart := List.pairwise_append.mp hc.apart
  rcases List.mem_append.mp hother with hbefore | hafter
  · exact absurd h.symm (hapart.2.2 other hbefore image List.mem_cons_self b hb a ha)
  · rcases List.mem_cons.mp hafter with rfl | hafter
    · rfl
    · exact absurd h ((List.pairwise_cons.mp hapart.2.1).1 other hafter a ha b hb)

theorem mem_superclassEntries_of_class {image : ObjCImage} {cls : ObjCClass}
    (h : cls ∈ image.classes) : (cls.address, cls.superclass) ∈ superclassEntries image :=
  List.mem_append_left _ (List.mem_map_of_mem h)

section

variable {objc : List ObjCImage} {exports : GuestExports}

/-- The entries of a resolved image: the listed classes' are resolved, the others are not. -/
theorem superclassEntries_resolveObjCImage (image : ObjCImage) :
    superclassEntries (resolveObjCImage exports image)
      = (image.classes.map fun cls => (cls.address, resolvePointer exports cls.superclass)) ++
        image.clsrolistSuperclass := by
  simp [superclassEntries, resolveObjCImage, resolveClass, Function.comp_def]

/-- A superclass the walk finds is the resolved one, or the one of `__objc_clsrolist` as it
stands. -/
theorem above_of_superclassOf {host : UInt64} {found : Pointer}
    (h : (superclassOf (resolveGuestImports exports objc))[host]? = some found) :
    ∃ superclass, Above objc host superclass ∧
      (found = resolvePointer exports superclass ∨ found = superclass) := by
  have hm := Maps.mem_of_getElem?_insertList h
  obtain ⟨image', himage', hentry⟩ := List.mem_flatMap.mp hm
  obtain ⟨image, himage, rfl⟩ := List.mem_map.mp himage'
  rw [superclassEntries_resolveObjCImage] at hentry
  rcases List.mem_append.mp hentry with hcls | hro
  · obtain ⟨cls, hmem, heq⟩ := List.mem_map.mp hcls
    cases heq
    exact ⟨cls.superclass, ⟨image, himage, .inl ⟨cls, hmem, rfl, rfl⟩⟩, .inl rfl⟩
  · exact ⟨found, ⟨image, himage, .inr hro⟩, .inr rfl⟩

/-- The two sources of an entry of a resolved image. -/
theorem mem_superclassEntries_resolve {image : ObjCImage} {host : UInt64} {found : Pointer} :
    (host, found) ∈ superclassEntries (resolveObjCImage exports image) ↔
      (∃ cls ∈ image.classes, cls.address = host ∧
          resolvePointer exports cls.superclass = found) ∨
        (host, found) ∈ image.clsrolistSuperclass := by
  rw [superclassEntries_resolveObjCImage, List.mem_append, List.mem_map]
  simp only [Prod.mk.injEq]

/-- Whether an address has an entry does not depend on the resolution. -/
theorem mem_superclassEntries_of_resolve {image : ObjCImage} {entry : UInt64 × Pointer}
    (h : entry ∈ superclassEntries (resolveObjCImage exports image)) :
    ∃ other ∈ superclassEntries image, other.1 = entry.1 := by
  obtain ⟨host, found⟩ := entry
  rcases mem_superclassEntries_resolve.mp h with ⟨cls, hcls, rfl, -⟩ | hro
  · exact ⟨_, mem_superclassEntries_of_class hcls, rfl⟩
  · exact ⟨_, List.mem_append_right _ hro, rfl⟩

theorem mem_superclassEntries_of_above {image : ObjCImage} {host : UInt64} {superclass : Pointer}
    (h : (∃ cls ∈ image.classes, cls.address = host ∧ cls.superclass = superclass) ∨
      (host, superclass) ∈ image.clsrolistSuperclass) :
    (host, superclass) ∈ superclassEntries image := by
  rcases h with ⟨cls, hcls, rfl, rfl⟩ | hro
  · exact mem_superclassEntries_of_class hcls
  · exact List.mem_append_right _ hro

/-- **The superclass the walk finds above a class**: as it stands in `__objc_clsrolist` where
that lists the class, and the resolved one otherwise. -/
theorem superclassOf_of_above (hc : Consistent objc) {host : UInt64} {superclass : Pointer}
    (h : Above objc host superclass) :
    ((superclassOf (resolveGuestImports exports objc))[host]? = some superclass ∧
        ∃ image ∈ objc, (host, superclass) ∈ image.clsrolistSuperclass) ∨
      ((superclassOf (resolveGuestImports exports objc))[host]?
          = some (resolvePointer exports superclass) ∧
        ∀ image ∈ objc, ∀ other, (host, other) ∉ image.clsrolistSuperclass) := by
  obtain ⟨image, himage, hentry⟩ := h
  have hkey := mem_superclassEntries_of_above hentry
  obtain ⟨before, after, rfl⟩ := List.append_of_mem himage
  have hapart := List.pairwise_append.mp hc.apart
  have hafter : ∀ other ∈ after, ∀ entry ∈ superclassEntries other, entry.1 ≠ host :=
    fun other hm entry he => ((List.pairwise_cons.mp hapart.2.1).1 other hm _ hkey entry he).symm
  -- the images behind have no entry for the class
  obtain ⟨first, hlookup⟩ : ∃ first : ExtTreeMap UInt64 Pointer,
      (superclassOf (resolveGuestImports exports (before ++ image :: after)))[host]?
        = (Maps.insertList image.clsrolistSuperclass (Maps.insertList (image.classes.map
            fun cls => (cls.address, resolvePointer exports cls.superclass)) first))[host]? := by
    refine ⟨Maps.insertList ((resolveGuestImports exports before).flatMap superclassEntries) ∅, ?_⟩
    rw [superclassOf, resolveGuestImports, List.map_append, List.map_cons, List.flatMap_append,
      List.flatMap_cons, superclassEntries_resolveObjCImage, Maps.insertList_append,
      Maps.insertList_append, Maps.insertList_append]
    refine Maps.getElem?_insertList_of_notMem fun entry hm heq => ?_
    obtain ⟨other', hother', hentry'⟩ := List.mem_flatMap.mp hm
    obtain ⟨other, hother, rfl⟩ := List.mem_map.mp hother'
    obtain ⟨entry', hentry'', hkey'⟩ := mem_superclassEntries_of_resolve hentry'
    exact hafter other hother entry' hentry'' (hkey'.trans heq)
  rw [hlookup]
  by_cases hro : ∃ entry ∈ image.clsrolistSuperclass, entry.1 = host
  · obtain ⟨found, hfound, hget⟩ : ∃ found, (host, found) ∈ image.clsrolistSuperclass ∧
        (Maps.insertList image.clsrolistSuperclass (Maps.insertList (image.classes.map
            fun cls => (cls.address, resolvePointer exports cls.superclass)) first))[host]?
          = some found := Maps.getElem?_insertList_of_mem hro
    have hsame : found = superclass := by
      rcases hentry with ⟨cls, hcls, rfl, rfl⟩ | hmem
      · exact (hc.tables image himage cls hcls _ hfound rfl).symm
      · exact hc.rolist image himage _ hfound _ hmem rfl
    rw [hget, hsame]
    exact .inl ⟨rfl, image, himage, hsame ▸ hfound⟩
  · have hnot : ∀ entry ∈ image.clsrolistSuperclass, entry.1 ≠ host := fun entry hm heq =>
      hro ⟨entry, hm, heq⟩
    rcases hentry with ⟨cls, hcls, rfl, rfl⟩ | hmem
    · obtain ⟨found, hfound, hget⟩ : ∃ found, (cls.address, found) ∈ (image.classes.map
            fun cls => (cls.address, resolvePointer exports cls.superclass)) ∧
          (Maps.insertList (image.classes.map
              fun cls => (cls.address, resolvePointer exports cls.superclass)) first)[cls.address]?
            = some found :=
        Maps.getElem?_insertList_of_mem ⟨_, List.mem_map_of_mem hcls, rfl⟩
      obtain ⟨other, hother, heq⟩ := List.mem_map.mp hfound
      injection heq with haddr hfound'
      rw [Maps.getElem?_insertList_of_notMem hnot, hget, ← hfound',
        hc.classes image himage other hother cls hcls haddr]
      refine .inr ⟨rfl, fun image' himage' other' hother' => ?_⟩
      have himages := hc.image_eq himage himage' hkey (List.mem_append_right _ hother') rfl
      exact hnot _ (himages ▸ hother') rfl
    · exact absurd rfl (hnot _ hmem)

/-! ## The walk and the chain -/

/-- The walk goes on from a local pointer or ends at null; both are resolved already. -/
theorem resolvePointer_of_guestOnly {superclasses : ExtTreeMap UInt64 Pointer} {depth : Nat}
    {pointer : Pointer} (h : guestOnly superclasses depth pointer = true) :
    resolvePointer exports pointer = pointer := by
  cases pointer with
  | imported symbol library => cases depth <;> cases h
  | _ => rfl

/-- A walk that reaches a root has followed the resolved chain. -/
theorem endsAtRoot_of_guestOnly {depth : Nat} {pointer : Pointer}
    (h : guestOnly (superclassOf (resolveGuestImports exports objc)) depth pointer = true) :
    EndsAtRoot objc exports depth pointer := by
  induction depth generalizing pointer with
  | zero => cases h
  | succ depth ih =>
      cases pointer with
      | null => exact .root depth
      | localTo host =>
          rw [guestOnly] at h
          split at h
          case h_1 found hfound =>
              obtain ⟨superclass, habove, rfl | rfl⟩ := above_of_superclassOf hfound
              · exact .above habove (ih h)
              · refine .above habove ?_
                rw [resolvePointer_of_guestOnly h]
                exact ih h
          case h_2 => cases h
      | imported symbol library => cases h
      | raw host => cases h

theorem guestOnly_localTo {superclasses : ExtTreeMap UInt64 Pointer} {host : UInt64}
    {superclass : Pointer} (h : superclasses[host]? = some superclass) (depth : Nat) :
    guestOnly superclasses (depth + 1) (.localTo host) = guestOnly superclasses depth superclass := by
  rw [guestOnly, h]

/-- Where no class of the chain is unresolved, the walk follows it to the root. -/
theorem guestOnly_of_endsAtRoot (hc : Consistent objc) {steps : Nat} {pointer : Pointer}
    (h : EndsAtRoot objc exports steps pointer)
    (hres : ∀ host, OnChain objc exports pointer host → ¬ Unresolved objc exports host) :
    guestOnly (superclassOf (resolveGuestImports exports objc)) steps pointer = true := by
  induction h with
  | root steps => rfl
  | @above steps host superclass habove _ ih =>
      have hrest := ih fun ancestor hchain => hres ancestor (.above habove hchain)
      rcases superclassOf_of_above hc habove with ⟨hget, image, himage, hro⟩ | ⟨hget, -⟩
      · have hsame : resolvePointer exports superclass = superclass := by
          cases superclass with
          | imported symbol library =>
              cases hfind : exports.find library symbol with
              | none => simp [resolvePointer, hfind]
              | some address =>
                  exact absurd ⟨image, himage, symbol, library, address, hro, hfind⟩
                    (hres host (.here host))
          | _ => rfl
        rw [guestOnly_localTo hget, ← hsame]
        exact hrest
      · rw [guestOnly_localTo hget]
        exact hrest

/-- The walk stops at an unresolved class. -/
theorem guestOnly_eq_false (hc : Consistent objc) {pointer : Pointer} {host : UInt64}
    (h : OnChain objc exports pointer host) (hun : Unresolved objc exports host) (depth : Nat) :
    guestOnly (superclassOf (resolveGuestImports exports objc)) depth pointer = false := by
  induction h generalizing depth with
  | here host =>
      obtain ⟨image, himage, symbol, library, address, hro, -⟩ := hun
      cases depth with
      | zero => rfl
      | succ depth =>
          have habove : Above objc host (.imported symbol library) := ⟨image, himage, .inr hro⟩
          rcases superclassOf_of_above hc habove with
            ⟨hget, -⟩ | ⟨-, hnone⟩
          · rw [guestOnly_localTo hget]
            cases depth <;> rfl
          · exact absurd hro (hnone image himage _)
  | @above below ancestor superclass habove _ ih =>
      cases depth with
      | zero => rfl
      | succ depth =>
          rcases superclassOf_of_above hc habove with ⟨hget, -⟩ | ⟨hget, -⟩
          · rw [guestOnly_localTo hget]
            by_contra htrue
            have hwalk := Bool.of_not_eq_false htrue
            rw [← resolvePointer_of_guestOnly hwalk, ih hun depth] at hwalk
            cases hwalk
          · rw [guestOnly_localTo hget]
            exact ih hun depth

/-! ## The classes that move -/

/-- The class is taken out of the class list and into the lists of the guest's own classes. -/
structure Moved (image : ObjCImage) (cls : ObjCClass) : Prop where
  listed : cls.address ∈ image.swiftListedClasses
  static : cls.address ∈ image.swiftStaticClasses ∧ cls.metaclass ∈ image.swiftStaticClasses
  gone : ∀ kept ∈ image.classes, kept.address ≠ cls.address

theorem moved_splitImage_iff (moved : List UInt64) {image : ObjCImage} {cls : ObjCClass}
    (h : cls ∈ image.classes) : Moved (splitImage moved image) cls ↔ cls.address ∈ moved := by
  constructor
  · intro hm
    by_contra hno
    refine hm.gone cls (List.mem_filter.mpr ⟨h, ?_⟩) rfl
    simpa using hno
  · intro hm
    have hgone : cls ∈ image.classes.filter fun cls => moved.contains cls.address :=
      List.mem_filter.mpr ⟨h, by simpa using hm⟩
    refine ⟨List.mem_append_right _ (List.mem_map_of_mem hgone),
      ⟨List.mem_append_right _ (List.mem_flatMap.mpr ⟨cls, hgone, List.mem_cons_self⟩),
        List.mem_append_right _ (List.mem_flatMap.mpr
          ⟨cls, hgone, List.mem_cons_of_mem _ List.mem_cons_self⟩)⟩, ?_⟩
    intro kept hkept heq
    have hkeep := (List.mem_filter.mp hkept).2
    rw [heq] at hkeep
    simp [hm] at hkeep

theorem mem_movedClasses_iff (hc : Consistent objc) {image : ObjCImage} (himage : image ∈ objc)
    {cls : ObjCClass} (hcls : cls ∈ image.classes) :
    cls.address ∈ movedClasses (resolveGuestImports exports objc) ↔
      cls.swift = true ∧ guestOnly (superclassOf (resolveGuestImports exports objc)) maxDepth
        (resolvePointer exports cls.superclass) = true := by
  unfold movedClasses
  rw [List.mem_filterMap]
  constructor
  · rintro ⟨found, hfound, heq⟩
    obtain ⟨image'', himage'', hfound⟩ := List.mem_flatMap.mp hfound
    obtain ⟨image', himage', rfl⟩ := List.mem_map.mp himage''
    obtain ⟨other, hother, rfl⟩ := List.mem_map.mp hfound
    split at heq
    case isFalse => cases heq
    case isTrue hwalk =>
        injection heq with heq
        have himages : image' = image := hc.image_eq himage' himage
          (mem_superclassEntries_of_class hother) (mem_superclassEntries_of_class hcls) heq
        subst himages
        have hsame : other = cls := hc.classes image' himage other hother cls hcls heq
        subst hsame
        simpa [resolveClass] using hwalk
  · intro h
    refine ⟨resolveClass exports cls, ?_, ?_⟩
    · exact List.mem_flatMap.mpr ⟨_, List.mem_map_of_mem himage, List.mem_map_of_mem hcls⟩
    · simp [resolveClass, h]

/-- **Class splitting follows the resolved ancestry exactly when no Swift class that it is to
move has an unresolved class above it**: after a successful split, a class of an image's list
has moved when it is Swift's and its resolved superclass chain ends at a root within 256 steps. -/
theorem splitGuestLayoutClasses_iff (hc : Consistent objc) {out : List ObjCImage}
    (hout : splitGuestLayoutClasses (resolveGuestImports exports objc) = .ok out) :
    (∀ (i : Nat) (image : ObjCImage), objc[i]? = some image → ∃ result, out[i]? = some result ∧
        ∀ cls ∈ image.classes, (Moved result cls ↔ cls.swift = true ∧
          EndsAtRoot objc exports maxDepth (resolvePointer exports cls.superclass))) ↔
      ∀ image ∈ objc, ∀ cls ∈ image.classes, cls.swift = true →
        EndsAtRoot objc exports maxDepth (resolvePointer exports cls.superclass) →
        ∀ host, OnChain objc exports (resolvePointer exports cls.superclass) host →
          ¬ Unresolved objc exports host := by
  have hmap : out = (resolveGuestImports exports objc).map
      (splitImage (movedClasses (resolveGuestImports exports objc))) := by
    unfold splitGuestLayoutClasses at hout
    dsimp only at hout
    split at hout
    case h_1 => cases hout
    case h_2 => exact (Except.ok.inj hout).symm
  have hget : ∀ (i : Nat) (image : ObjCImage), objc[i]? = some image → out[i]? = some (splitImage
      (movedClasses (resolveGuestImports exports objc)) (resolveObjCImage exports image)) := by
    intro i image hi
    rw [hmap, resolveGuestImports, List.getElem?_map, List.getElem?_map, hi]
    rfl
  have hmoved : ∀ image ∈ objc, ∀ cls ∈ image.classes,
      (Moved (splitImage (movedClasses (resolveGuestImports exports objc))
        (resolveObjCImage exports image)) cls ↔ cls.swift = true ∧
          guestOnly (superclassOf (resolveGuestImports exports objc)) maxDepth
            (resolvePointer exports cls.superclass) = true) := by
    intro image himage cls hcls
    rw [← mem_movedClasses_iff hc himage hcls]
    have hres : resolveClass exports cls ∈ (resolveObjCImage exports image).classes :=
      List.mem_map_of_mem hcls
    -- what the lists say of a class is about its addresses, which resolving keeps
    have hsplit := moved_splitImage_iff (movedClasses (resolveGuestImports exports objc)) hres
    exact ⟨fun h => hsplit.mp ⟨h.listed, h.static, h.gone⟩, fun h =>
      let hm := hsplit.mpr h
      ⟨hm.listed, hm.static, hm.gone⟩⟩
  constructor
  · intro h image himage cls hcls hswift hends host hchain hun
    obtain ⟨i, hi⟩ := List.mem_iff_getElem?.mp himage
    obtain ⟨result, hresult, hiff⟩ := h i image hi
    rw [hget i image hi] at hresult
    cases hresult
    have hwalk := ((hmoved image himage cls hcls).mp ((hiff cls hcls).mpr ⟨hswift, hends⟩)).2
    rw [guestOnly_eq_false hc hchain hun] at hwalk
    cases hwalk
  · intro h i image hi
    have himage := List.mem_of_getElem? hi
    refine ⟨_, hget i image hi, fun cls hcls => ?_⟩
    rw [hmoved image himage cls hcls]
    refine and_congr_right fun hswift => ⟨endsAtRoot_of_guestOnly, fun hends => ?_⟩
    exact guestOnly_of_endsAtRoot hc hends (h image himage cls hcls hswift hends)

end

/-! A Swift class below a `__objc_clsrolist` class, whose superclass is a root class that another
guest image defines. -/

def rootLibrary : Image where
  installName := "@rpath/libroot.dylib"
  exports := (∅ : ExtTreeMap String UInt64).insert "_OBJC_CLASS_$_Root" 0x3000

def rootExports : GuestExports where
  images := [rootLibrary]
  byName := (∅ : ExtTreeMap String Image).insert rootLibrary.installName rootLibrary

def swiftChild : ObjCClass where
  address := 0x1000
  swift := true
  superclass := .localTo 0x2000
  name := "Child"
  metaclass := 0x1100

/-- The images, with what `__objc_clsrolist` gives as the superclass of the class between. -/
def childImages (superclass : Pointer) : List ObjCImage :=
  [{ classes := [swiftChild], clsrolistSuperclass := [(0x2000, superclass)] },
    { classes := [{ address := 0x3000, name := "Root", metaclass := 0x3100 }] }]

def rootImport : Pointer := .imported "_OBJC_CLASS_$_Root" "@rpath/libroot.dylib"

theorem childImages_endsAtRoot :
    EndsAtRoot (childImages rootImport) rootExports maxDepth (.localTo 0x2000) := by
  have hro : Above (childImages rootImport) 0x2000 rootImport :=
    ⟨_, List.mem_cons_self, .inr List.mem_cons_self⟩
  have hroot : Above (childImages rootImport) 0x3000 .null :=
    ⟨_, List.mem_cons_of_mem _ List.mem_cons_self, .inl ⟨_, List.mem_cons_self, rfl, rfl⟩⟩
  exact .above hro (.above hroot (.root 253))

theorem splitGuestLayoutClasses_unresolved :
    ¬ ∀ (objc : List ObjCImage) (exports : GuestExports) (out : List ObjCImage),
      Consistent objc →
      splitGuestLayoutClasses (resolveGuestImports exports objc) = .ok out →
      ∀ (i : Nat) (image : ObjCImage), objc[i]? = some image →
      ∃ result, out[i]? = some result ∧
        ∀ cls ∈ image.classes, (Moved result cls ↔ cls.swift = true ∧
          EndsAtRoot objc exports maxDepth (resolvePointer exports cls.superclass)) := by
  intro h
  obtain ⟨result, hresult, hiff⟩ := h (childImages rootImport) rootExports
    (resolveGuestImports rootExports (childImages rootImport))
    ⟨by decide, by decide, by decide, by decide⟩ rfl 0 _ rfl
  cases hresult
  have hmoved := (hiff swiftChild List.mem_cons_self).mpr ⟨rfl, childImages_endsAtRoot⟩
  exact hmoved.gone swiftChild (by decide) rfl

theorem splitGuestLayoutClasses_iff_local :
    (∀ (i : Nat) (image : ObjCImage), (childImages (.localTo 0x3000))[i]? = some image →
        ∃ result, ((childImages (.localTo 0x3000)).map (splitImage [0x1000]))[i]? = some result ∧
        ∀ cls ∈ image.classes, (Moved result cls ↔ cls.swift = true ∧
          EndsAtRoot (childImages (.localTo 0x3000)) rootExports maxDepth
            (resolvePointer rootExports cls.superclass))) ↔
      ∀ image ∈ childImages (.localTo 0x3000), ∀ cls ∈ image.classes, cls.swift = true →
        EndsAtRoot (childImages (.localTo 0x3000)) rootExports maxDepth
          (resolvePointer rootExports cls.superclass) →
        ∀ host, OnChain (childImages (.localTo 0x3000)) rootExports
          (resolvePointer rootExports cls.superclass) host →
          ¬ Unresolved (childImages (.localTo 0x3000)) rootExports host :=
  splitGuestLayoutClasses_iff ⟨by decide, by decide, by decide, by decide⟩ rfl

end Katabasis
