import Katabasis.Lib.Fallible
import Katabasis.Macho.Image

set_option autoImplicit false

/-! # What the guest images define

`GuestExports` (`xlate/src/exports.h`, `xlate/src/exports.cpp`): the images in the order in
which they were added, the bridge images among them, the image of each install name, and
the image that stands for a library by `Replace`. `Find` looks a bind up the way a
two-level bind does it. What `Find` prints about libraries no image is (`reported_`) does
not change an answer and is left out.
-/

namespace Katabasis

open Std

/-- The bound on a chain of re-exports. -/
def kMaxReexportDepth : Nat := 8

structure GuestExports where
  images : List Image := []
  bridges : List Image := []
  byName : ExtTreeMap String Image := ∅
  replaced : ExtTreeMap String Image := ∅

namespace GuestExports

/-- The tail of `Add`, once the install name is known to be free. -/
def push (e : GuestExports) (image : Image) (bridge : Bool) : GuestExports :=
  { e with
    images := e.images ++ [image]
    bridges := if bridge then e.bridges ++ [image] else e.bridges }

/-- `Add`: refused, with the reason, when another image already has this install name. -/
def add (e : GuestExports) (image : Image) (bridge : Bool) : Except String GuestExports :=
  if image.installName ≠ "" then
    match e.byName[image.installName]? with
    | some existing =>
        .error (image.path ++ " and " ++ existing.path ++ " are both " ++ image.installName ++
          "; a bind to that library would take either")
    | none => .ok ({ e with byName := e.byName.insert image.installName image }.push image bridge)
  else .ok (e.push image bridge)

/-- `Replace`: refused, with the reason, when the library is already replaced or is the
install name of an image. -/
def replace (e : GuestExports) (library : String) (image : Image) : Except String GuestExports :=
  match e.byName[library]? with
  | some found =>
      .error ("--replaces " ++ library ++ ": that is the install name of " ++ found.path)
  | none =>
      match e.replaced[library]? with
      | some existing =>
          .error ("--replaces " ++ library ++ " is given twice, for " ++ existing.path ++ " and " ++
            image.path)
      | none => .ok { e with replaced := e.replaced.insert library image }

def imageOf (e : GuestExports) (library : String) : Option Image :=
  match e.replaced[library]? with
  | some image => some image
  | none => e.byName[library]?

/-- The first bridge image that exports the symbol. -/
def bridged (e : GuestExports) (symbol : String) : Option UInt64 :=
  e.bridges.findSome? (·.exported symbol)

/-- `Find` with `left` re-export steps still allowed (the source counts `depth` up to
`kMaxReexportDepth`). A bind that names no library takes the first image that defines the
name. Any other asks the library's image: its own export, then the per-symbol re-export,
then the libraries it re-exports whole, in order; and last, at every level, the bridges. -/
def findAt (e : GuestExports) : Nat → String → String → Option UInt64
  | left, library, symbol =>
      if library = "" then e.images.findSome? (·.exported symbol)
      else
        (match e.imageOf library with
          | none => none
          | some image =>
              (image.exported symbol).or
                (match left with
                  | 0 => none
                  | left + 1 =>
                      ((image.reexports[symbol]?).bind fun sent =>
                          e.findAt left sent.library sent.symbol).or
                        (image.reexportedLibraries.findSome? fun whole =>
                          if (e.imageOf whole).isSome then e.findAt left whole symbol else none)))
          |>.or (e.bridged symbol)

/-- `Find`. -/
def find (e : GuestExports) (library symbol : String) : Option UInt64 :=
  e.findAt kMaxReexportDepth library symbol

/-! ## Registering images -/

/-- The guest images, added in order, then the `--replaces` entries. -/
def registerGuests (guests : List Image) (replaces : List (String × Image)) :
    Except String GuestExports := do
  let e ← guests.foldlM (fun e image => e.add image false) {}
  replaces.foldlM (fun e entry => e.replace entry.1 entry.2) e

/-- Bridge images added behind what is registered already. -/
def registerBridges (e : GuestExports) (bridges : List Image) : Except String GuestExports :=
  bridges.foldlM (fun e image => e.add image true) e

/-- What one accepted `Add` does: the image goes to the end, and its install name, when it
has one, was free and is now the image's. -/
theorem add_ok {e e' : GuestExports} {image : Image} {bridge : Bool}
    (h : e.add image bridge = .ok e') :
    e'.images = e.images ++ [image] ∧
      e'.bridges = (if bridge then e.bridges ++ [image] else e.bridges) ∧
      e'.replaced = e.replaced ∧
      e'.byName = (if image.installName ≠ "" then e.byName.insert image.installName image
        else e.byName) := by
  unfold add at h
  split at h
  case isTrue hname =>
    split at h
    case h_1 => cases h
    case h_2 =>
      injection h with h
      subst h
      simp [push, hname]
  case isFalse hname =>
    injection h with h
    subst h
    simp [push, hname]

theorem replace_ok {e e' : GuestExports} {library : String} {image : Image}
    (h : e.replace library image = .ok e') :
    e' = { e with replaced := e.replaced.insert library image } := by
  unfold replace at h
  split at h
  case h_1 => cases h
  case h_2 =>
    split at h
    case h_1 => cases h
    case h_2 =>
      injection h with h
      exact h.symm

/-- Guest images register no bridge. -/
theorem bridges_of_registerGuests {guests : List Image} {replaces : List (String × Image)}
    {e : GuestExports} (h : registerGuests guests replaces = .ok e) : e.bridges = [] := by
  obtain ⟨e1, hguests, hreplaces⟩ := Fallible.bind_eq_ok h
  have h1 : e1.bridges = [] :=
    Fallible.foldlM_invariant (P := fun e => e.bridges = [])
      (fun e image e' ha he => (add_ok ha).2.1.trans he) hguests rfl
  exact Fallible.foldlM_invariant (P := fun e => e.bridges = [])
    (fun e entry e' hr he => by rw [replace_ok hr]; exact he) hreplaces h1

end GuestExports

end Katabasis
