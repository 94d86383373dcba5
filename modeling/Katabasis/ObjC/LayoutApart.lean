import Katabasis.ObjC.Split

set_option autoImplicit false

/-! # Host-layout classes and guest-layout classes apart

A class that stays in an image's list is rewritten to the host's layout; one in
`swift_static_classes` keeps the guest's, and libobjc cannot read it. `SplitGuestLayoutClasses`
checks that nothing that stays names a class that moves. The classes that were in
`swift_static_classes` before, which only `__objc_clsrolist` lists, are not in that check, and
nor are the metaclasses: `hostLayoutApart_iff` says when this makes a difference.
-/

namespace Katabasis

/-- The pointer names a class that keeps the guest's layout. -/
def Pointer.NamesStatic (objc : List ObjCImage) (pointer : Pointer) : Prop :=
  ∃ host, pointer = .localTo host ∧ ∃ image ∈ objc, host ∈ image.swiftStaticClasses

/-- **No host-layout class or category sits on a guest-layout class.** -/
structure HostLayoutApart (objc : List ObjCImage) : Prop where
  classes : ∀ image ∈ objc, ∀ cls ∈ image.classes, ¬ cls.superclass.NamesStatic objc
  categories : ∀ image ∈ objc, ∀ category ∈ image.categories, ¬ category.cls.NamesStatic objc

/-! ## The condition -/

/-- The class is Swift's, and the classes above it are the guest's own. -/
def KeepsGuestLayout (objc : List ObjCImage) (cls : ObjCClass) : Prop :=
  cls.swift = true ∧ guestOnly (superclassOf objc) maxDepth cls.superclass = true

/-- A listed class at the address keeps the guest's layout. -/
def KeptAt (objc : List ObjCImage) (address : UInt64) : Prop :=
  ∃ image ∈ objc, ∃ cls ∈ image.classes, KeepsGuestLayout objc cls ∧ cls.address = address

/-- The pointer names what the check leaves out: a class or metaclass that only
`__objc_clsrolist` lists, or the metaclass of a listed class that keeps the guest's layout. -/
def Pointer.Unchecked (objc : List ObjCImage) (pointer : Pointer) : Prop :=
  ∃ host, pointer = .localTo host ∧ ∃ image ∈ objc, host ∈ image.swiftStaticClasses ∨
    ∃ cls ∈ image.classes, KeptAt objc cls.address ∧ cls.metaclass = host

section

variable {objc out : List ObjCImage}

theorem mem_movedClasses {address : UInt64} :
    address ∈ movedClasses objc ↔ KeptAt objc address := by
  unfold movedClasses KeptAt KeepsGuestLayout
  rw [List.mem_filterMap]
  constructor
  · rintro ⟨cls, hcls, hif⟩
    obtain ⟨image, himage, hcls⟩ := List.mem_flatMap.mp hcls
    split at hif
    case isTrue hkeeps =>
      refine ⟨image, himage, cls, hcls, ?_, Option.some.inj hif⟩
      simpa using hkeeps
    case isFalse => cases hif
  · rintro ⟨image, himage, cls, hcls, hkeeps, rfl⟩
    refine ⟨cls, List.mem_flatMap.mpr ⟨image, himage, hcls⟩, ?_⟩
    rw [if_pos (by simpa using hkeeps)]

theorem isMoved_iff {moved : List UInt64} {pointer : Pointer} :
    pointer.isMoved moved = true ↔ ∃ host, pointer = .localTo host ∧ host ∈ moved := by
  cases pointer with
  | localTo host => simp [Pointer.isMoved]
  | _ => simp [Pointer.isMoved]

/-- What a successful split has checked. -/
theorem not_isMoved_of_splitError {moved : List UInt64} {image : ObjCImage}
    (h : splitError moved image = none) :
    (∀ category ∈ image.categories, category.cls.isMoved moved = false) ∧
      ∀ cls ∈ image.classes, cls.address ∉ moved → cls.superclass.isMoved moved = false := by
  unfold splitError at h
  obtain ⟨hcategories, hclasses⟩ := Option.or_eq_none_iff.mp h
  rw [List.findSome?_eq_none_iff] at hcategories hclasses
  constructor
  · intro category hmem
    have hif := hcategories category hmem
    split at hif
    case isTrue => cases hif
    case isFalse hno => simpa using hno
  · intro cls hmem hstays
    have hif := hclasses cls hmem
    split at hif
    case isTrue => cases hif
    case isFalse hno => simpa [hstays] using hno

theorem splitGuestLayoutClasses_ok (h : splitGuestLayoutClasses objc = .ok out) :
    out = objc.map (splitImage (movedClasses objc)) ∧
      ∀ image ∈ objc, splitError (movedClasses objc) image = none := by
  unfold splitGuestLayoutClasses at h
  dsimp only at h
  split at h
  case h_1 => cases h
  case h_2 hnone => exact ⟨(Except.ok.inj h).symm, List.findSome?_eq_none_iff.mp hnone⟩

/-- What names a guest-layout class behind the split named a class that moves, or what the check
leaves out. -/
theorem namesStatic_split_iff (pointer : Pointer) :
    pointer.NamesStatic (objc.map (splitImage (movedClasses objc))) ↔
      pointer.isMoved (movedClasses objc) = true ∨ pointer.Unchecked objc := by
  rw [isMoved_iff]
  constructor
  · rintro ⟨host, hpointer, image', himage', hstatic⟩
    obtain ⟨image, himage, rfl⟩ := List.mem_map.mp himage'
    rcases List.mem_append.mp hstatic with hbefore | hmoved
    · exact .inr ⟨host, hpointer, image, himage, .inl hbefore⟩
    · obtain ⟨cls, hcls, hhost⟩ := List.mem_flatMap.mp hmoved
      obtain ⟨hcls, hmem⟩ := List.mem_filter.mp hcls
      have hkept : cls.address ∈ movedClasses objc := by simpa using hmem
      rcases List.mem_cons.mp hhost with rfl | hmeta
      · exact .inl ⟨cls.address, hpointer, hkept⟩
      · rw [List.mem_singleton.mp hmeta] at hpointer
        exact .inr ⟨cls.metaclass, hpointer, image, himage,
          .inr ⟨cls, hcls, mem_movedClasses.mp hkept, rfl⟩⟩
  · -- a class that moves is listed by some image, which puts both its halves into its list
    have hlisted : ∀ image ∈ objc, ∀ cls ∈ image.classes, cls.address ∈ movedClasses objc →
        cls.address ∈ (splitImage (movedClasses objc) image).swiftStaticClasses ∧
          cls.metaclass ∈ (splitImage (movedClasses objc) image).swiftStaticClasses := by
      intro image himage cls hcls hmoved
      have hgone : cls ∈ image.classes.filter fun cls =>
          (movedClasses objc).contains cls.address :=
        List.mem_filter.mpr ⟨hcls, by simpa using hmoved⟩
      exact ⟨List.mem_append_right _ (List.mem_flatMap.mpr ⟨cls, hgone, by simp⟩),
        List.mem_append_right _ (List.mem_flatMap.mpr ⟨cls, hgone, by simp⟩)⟩
    rintro (⟨host, hpointer, hmoved⟩ | ⟨host, hpointer, image, himage, hbefore | hmeta⟩)
    · obtain ⟨image, himage, cls, hcls, -, rfl⟩ := mem_movedClasses.mp hmoved
      exact ⟨_, hpointer, _, List.mem_map_of_mem himage, (hlisted image himage cls hcls hmoved).1⟩
    · exact ⟨host, hpointer, _, List.mem_map_of_mem himage, List.mem_append_left _ hbefore⟩
    · obtain ⟨cls, hcls, hkept, rfl⟩ := hmeta
      exact ⟨_, hpointer, _, List.mem_map_of_mem himage,
        (hlisted image himage cls hcls (mem_movedClasses.mpr hkept)).2⟩

/-- **A successful split leaves the two layouts apart exactly when no class that stays and no
category names what the check leaves out.** -/
theorem hostLayoutApart_iff (h : splitGuestLayoutClasses objc = .ok out) :
    HostLayoutApart out ↔
      (∀ image ∈ objc, ∀ cls ∈ image.classes, ¬ KeptAt objc cls.address →
        ¬ cls.superclass.Unchecked objc) ∧
      ∀ image ∈ objc, ∀ category ∈ image.categories, ¬ category.cls.Unchecked objc := by
  obtain ⟨rfl, herror⟩ := splitGuestLayoutClasses_ok h
  have hkeeps : ∀ image : ObjCImage, ∀ cls : ObjCClass,
      cls ∈ (splitImage (movedClasses objc) image).classes ↔
        cls ∈ image.classes ∧ ¬ KeptAt objc cls.address := by
    intro image cls
    rw [← mem_movedClasses]
    show cls ∈ image.classes.filter _ ↔ _
    rw [List.mem_filter]
    simp
  constructor
  · rintro ⟨hclasses, hcategories⟩
    refine ⟨fun image himage cls hcls hstays hunchecked => ?_,
      fun image himage category hmem hunchecked => ?_⟩
    · refine hclasses _ (List.mem_map_of_mem himage) cls ((hkeeps image cls).mpr ⟨hcls, hstays⟩) ?_
      exact (namesStatic_split_iff _).mpr (.inr hunchecked)
    · refine hcategories _ (List.mem_map_of_mem himage) category hmem ?_
      exact (namesStatic_split_iff _).mpr (.inr hunchecked)
  · rintro ⟨hclasses, hcategories⟩
    refine ⟨fun image' himage' cls hcls hstatic => ?_,
      fun image' himage' category hmem hstatic => ?_⟩
    · obtain ⟨image, himage, rfl⟩ := List.mem_map.mp himage'
      obtain ⟨hcls, hstays⟩ := (hkeeps image cls).mp hcls
      rcases (namesStatic_split_iff _).mp hstatic with hmoved | hunchecked
      · have hno := (not_isMoved_of_splitError (herror image himage)).2 cls hcls
          fun hmoved => hstays (mem_movedClasses.mp hmoved)
        rw [hmoved] at hno
        cases hno
      · exact hclasses image himage cls hcls hstays hunchecked
    · obtain ⟨image, himage, rfl⟩ := List.mem_map.mp himage'
      rcases (namesStatic_split_iff _).mp hstatic with hmoved | hunchecked
      · have hno := (not_isMoved_of_splitError (herror image himage)).1 category hmem
        rw [hmoved] at hno
        cases hno
      · exact hcategories image himage category hmem hunchecked

end

/-! A Swift class below a class that only `__objc_clsrolist` lists. -/

/-- The image, with what is above the class of `__objc_clsrolist`. -/
def belowRolist (above : Pointer) : List ObjCImage :=
  [{ classes := [{ address := 4096, swift := true, superclass := .localTo 8192, name := "Child",
                   metaclass := 4352 }]
     swiftStaticClasses := [8192, 8448]
     clsrolistSuperclass := [(8192, above)] }]

/-- Below a host class the Swift class stays, on a class in the guest's layout. -/
theorem not_hostLayoutApart_rolist :
    ¬ ∀ objc out : List ObjCImage, splitGuestLayoutClasses objc = .ok out →
      HostLayoutApart out := by
  intro h
  have hok : splitGuestLayoutClasses (belowRolist (.imported "_OBJC_CLASS_$_NSObject" ""))
      = .ok (belowRolist (.imported "_OBJC_CLASS_$_NSObject" "")) := rfl
  have hapart := h _ _ hok
  exact hapart.classes _ List.mem_cons_self _ List.mem_cons_self
    ⟨8192, rfl, _, List.mem_cons_self, List.mem_cons_self⟩

/-- Below a root class it moves, and nothing that stays is left. -/
theorem hostLayoutApart_iff_root :
    HostLayoutApart ((belowRolist .null).map (splitImage [4096])) ↔
      (∀ image ∈ belowRolist .null, ∀ cls ∈ image.classes, ¬ KeptAt (belowRolist .null) cls.address →
        ¬ cls.superclass.Unchecked (belowRolist .null)) ∧
      ∀ image ∈ belowRolist .null, ∀ category ∈ image.categories,
        ¬ category.cls.Unchecked (belowRolist .null) :=
  hostLayoutApart_iff rfl

end Katabasis
