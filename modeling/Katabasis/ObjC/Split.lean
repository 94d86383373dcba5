import Katabasis.Exports.GuestExports
import Katabasis.Lib.Maps
import Katabasis.ObjC.Image

set_option autoImplicit false

/-! # Classes that keep the guest's layout

`ResolveGuestImports` and `SplitGuestLayoutClasses` (`xlate/src/objc.cpp`): a bind that another
guest image answers becomes a pointer into that image, and a Swift class whose superclasses are
all the guest's own is taken out of the class list, so that it keeps the layout Swift reads.
-/

namespace Katabasis

open Std

/-! ## Guest imports -/

/-- An import that a guest image answers points into that image. -/
def resolvePointer (exports : GuestExports) : Pointer → Pointer
  | .imported symbol library =>
      match exports.find library symbol with
      | some address => .localTo address
      | none => .imported symbol library
  | pointer => pointer

def resolveClass (exports : GuestExports) (cls : ObjCClass) : ObjCClass :=
  { cls with
    superclass := resolvePointer exports cls.superclass
    metaIsa := resolvePointer exports cls.metaIsa
    metaSuperclass := resolvePointer exports cls.metaSuperclass }

def resolveObjCImage (exports : GuestExports) (image : ObjCImage) : ObjCImage :=
  { image with
    classes := image.classes.map (resolveClass exports)
    categories := image.categories.map fun category =>
      { category with cls := resolvePointer exports category.cls } }

def resolveGuestImports (exports : GuestExports) (objc : List ObjCImage) : List ObjCImage :=
  objc.map (resolveObjCImage exports)

/-! ## The walk over the superclasses -/

/-- The classes of an image whose superclass is known: the listed ones, then those of
`__objc_clsrolist`. -/
def superclassEntries (image : ObjCImage) : List (UInt64 × Pointer) :=
  (image.classes.map fun cls => (cls.address, cls.superclass)) ++ image.clsrolistSuperclass

/-- `superclass_of` -/
def superclassOf (objc : List ObjCImage) : ExtTreeMap UInt64 Pointer :=
  Maps.insertList (objc.flatMap superclassEntries) ∅

/-- `guest_only`, with what is left of the depth. -/
def guestOnly (superclasses : ExtTreeMap UInt64 Pointer) : Nat → Pointer → Bool
  | 0, _ => false
  | _ + 1, .null => true
  | depth + 1, .localTo host =>
      match superclasses[host]? with
      | some superclass => guestOnly superclasses depth superclass
      | none => false
  | _ + 1, _ => false

def maxDepth : Nat := 256

/-! ## The split -/

/-- The addresses of the classes that move. -/
def movedClasses (objc : List ObjCImage) : List UInt64 :=
  (objc.flatMap ObjCImage.classes).filterMap fun cls =>
    if cls.swift && guestOnly (superclassOf objc) maxDepth cls.superclass then some cls.address
    else none

def Pointer.isMoved (moved : List UInt64) : Pointer → Bool
  | localTo host => moved.contains host
  | _ => false

/-- Why an image cannot be split: a category of a class that moves, or a class that stays below
one that moves. -/
def splitError (moved : List UInt64) (image : ObjCImage) : Option String :=
  (image.categories.findSome? fun category =>
    if category.cls.isMoved moved then
      some ("category " ++ category.name ++
        " extends a Swift class that keeps the guest's class layout")
    else none).or
  (image.classes.findSome? fun cls =>
    if !moved.contains cls.address && cls.superclass.isMoved moved then
      some ("class " ++ cls.name ++ " has a superclass that keeps the guest's class layout")
    else none)

def splitImage (moved : List UInt64) (image : ObjCImage) : ObjCImage :=
  let gone := image.classes.filter fun cls => moved.contains cls.address
  { image with
    classes := image.classes.filter fun cls => !moved.contains cls.address
    swiftStaticClasses := image.swiftStaticClasses ++
      gone.flatMap fun cls => [cls.address, cls.metaclass]
    swiftListedClasses := image.swiftListedClasses ++ gone.map ObjCClass.address }

/-- `SplitGuestLayoutClasses`: the images as they are left, or the reason it fails, with the
images unchanged. -/
def splitGuestLayoutClasses (objc : List ObjCImage) : Except String (List ObjCImage) :=
  let moved := movedClasses objc
  match objc.findSome? (splitError moved) with
  | some error => .error error
  | none => .ok (objc.map (splitImage moved))

end Katabasis
