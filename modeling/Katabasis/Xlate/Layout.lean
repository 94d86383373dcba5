import Katabasis.Exports.GuestExports

set_option autoImplicit false

/-! # Placing the guest images and resolving their call stubs

`LayoutAndResolve` (`xlate/src/xlate.cpp`): every image is slid to a cursor that moves past
the images placed before it, the images are registered, and each call stub goes into one of
two maps, to the guest address `Find` gives for it or to the name of a host handler.
-/

namespace Katabasis

open Std

def alignUp (value alignment : UInt64) : UInt64 :=
  (value + alignment - 1) &&& ~~~(alignment - 1)

/-- The slides: each image starts where the previous one ended, rounded up to a megabyte. -/
def placeImages : UInt64 → List Image → List Image
  | _, [] => []
  | cursor, image :: rest =>
      let placed := { image with slide := cursor - image.preferredBase }
      placed :: placeImages (alignUp (placed.host placed.imageEnd) 0x100000) rest

def kTrapPrefix : String := "_xl_trap_"

def isTrap (symbol : String) : Bool := kTrapPrefix.toList.isPrefixOf symbol.toList

/-- The host handler of a trap symbol. -/
def trapHandler (symbol : String) : String :=
  "xl_h_" ++ (symbol.drop kTrapPrefix.length).toString

structure Program where
  images : List Image := []
  exports : GuestExports := {}
  stubToGuest : ExtTreeMap UInt64 UInt64 := ∅
  stubToHost : ExtTreeMap UInt64 String := ∅
  /-- The addresses to lift. -/
  functions : ExtTreeMap UInt64 Unit := ∅
  /-- What was written to the error stream. -/
  errs : List String := []
  /-- False once a stub stays unresolved under `strict`. -/
  ok : Bool := true

namespace Program

/-- The image an address lies in. -/
def imageAt (p : Program) (address : UInt64) : Option Image :=
  p.images.find? fun image =>
    address ≥ image.host image.preferredBase ∧ address < image.host image.imageEnd

def say (p : Program) (line : String) : Program := { p with errs := p.errs ++ [line] }

/-- One call stub of an image. -/
def resolveStub (strict : Bool) (image : Image) (p : Program) (entry : UInt64 × Stub) : Program :=
  let host := image.host entry.1
  let stub := entry.2
  match p.exports.find stub.library stub.symbol with
  | some target => { p with stubToGuest := p.stubToGuest.insert host target }
  | none =>
      if isTrap stub.symbol then
        { p with stubToHost := p.stubToHost.insert host (trapHandler stub.symbol) }
      else if stub.weak then
        -- Unbound, its slot holds zero: the code that calls it checks first.
        if (p.exports.find "" stub.symbol).isSome then
          p.say ("xlate: " ++ image.path ++ ": weak import " ++ stub.symbol ++ " of " ++
            stub.library ++ " is left unbound although a guest image defines that name; a bind " ++
            "takes the library it names\n")
        else p
      else if strict then
        { p.say ("xlate: " ++ image.path ++ ": call stub for unresolved import " ++ stub.symbol ++
            (if (p.exports.find "" stub.symbol).isSome then
              " (a guest image defines that name, but the bind names " ++ stub.library ++ ")"
            else "") ++ "\n") with ok := false }
      else p

/-- The stubs of one image, by address. -/
def resolveImage (strict : Bool) (p : Program) (image : Image) : Program :=
  image.stubs.toList.foldl (resolveStub strict image) p

/-- Registering the placed images: each is a bridge or not by its path. -/
def register (isBridge : String → Bool) (p : Program) (image : Image) : Except String Program := do
  let exports ← (p.exports.add image (isBridge image.path)).mapError fun error =>
    "xlate: " ++ error ++ "\n"
  return { p with
    exports
    functions := image.functions.foldl (fun fs vmaddr => fs.insert (image.host vmaddr) ()) p.functions }

/-- One `--replaces LIBRARY=IMAGE`; `equivalent` says that two paths are one file. The last
input image the path is equivalent to is taken. -/
def applyReplace (equivalent : String → String → Bool) (p : Program) (spec : String) :
    Except String Program :=
  let expected := "xlate: --replaces " ++ spec ++
    ": expected LIBRARY=IMAGE, IMAGE being one of the inputs\n"
  match spec.toList.span (· ≠ '=') with
  | (_, []) => .error expected
  | (library, _ :: path) =>
      match p.images.reverse.find? fun image => equivalent (String.ofList path) image.path with
      | none => .error expected
      | some target => do
          let exports ← (p.exports.replace (String.ofList library) target).mapError fun error =>
            "xlate: " ++ error ++ "\n"
          return { p with exports }

/-- `LayoutAndResolve`: an error where the source stops early, and otherwise the program
with its stub maps (`ok` is what the source returns). -/
def layoutAndResolve (base : UInt64) (images : List Image) (isBridge : String → Bool)
    (equivalent : String → String → Bool) (replaces : List String) (strict : Bool) :
    Except String Program := do
  let placed := placeImages base images
  let p ← placed.foldlM (register isBridge) { images := placed }
  let p ← replaces.foldlM (applyReplace equivalent) p
  return placed.foldl (resolveImage strict) p

end Program

end Katabasis
