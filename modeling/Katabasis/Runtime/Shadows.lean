import Katabasis.Lib.Acts
import Katabasis.Runtime.State

set_option autoImplicit false

/-! # Shadows of guest classes

`runtime/swift_classes.m`: a class that keeps the guest's layout has a *shadow*, a host class
pair built from the guest's `class_ro_t` the first time a message, a call or the Swift runtime
asks for it. Building a shadow runs guest code in three places: the Swift runtime's lazy class
namer, the `+initialize` methods that the message `class` to the host superclass starts, and a
`+class` of the guest's that answers this message. That code runs on the same thread, so it passes
the (recursive) build lock and may ask for shadows itself.

A shadow is asked for by number (`ShadowRequest`), and what the guest code does is a parameter
(`GuestCode`). `ShadowRuntime.building` and `ShadowRuntime.trace` are no variables of the code:
the first is the stack of builds that hold the lock, the second what has happened so far.
-/

namespace Katabasis

/-- An address of the guest or a class pointer of the host; `0` is none. -/
abbrev Address := Nat

/-! ## Guest classes -/

structure GuestMethod where
  selector : String
  types : String
  imp : UInt64
  deriving DecidableEq, Repr

/-- What the runtime reads of a `class_ro_t`. -/
structure GuestRo where
  /-- `flags & XL_RO_META` -/
  isMeta : Bool
  instanceSize : Nat
  name : Option String
  baseMethods : List GuestMethod
  deriving DecidableEq, Repr

/-- An arm64 class object; `ro` is what its data word points at. -/
structure GuestClass where
  isa : Address := 0
  superclass : Address := 0
  ro : Option GuestRo := none
  deriving DecidableEq, Repr

/-- The class object of a pair: it has a `class_ro_t`, and not a metaclass's. -/
def GuestClass.isClass (c : GuestClass) : Bool := c.ro.any fun ro => !ro.isMeta

/-! ## The host runtime -/

/-- A method implementation of the host: a function, a block made for a guest method (by its
number), or the one that forwards. -/
inductive Imp
  | native (address : Address)
  | block (number : Nat)
  | forward
  deriving DecidableEq, Repr

/-- What a function does that the host calls as a method. -/
inductive Body
  /-- It is the host's own code. -/
  | host
  /-- It calls the method of a guest class in the host's layout (`ImpWrapper`). -/
  | wrapper
  /-- It stands for a guest method that cannot be marshalled, and stops the process
  (`StubImpWrapper`). -/
  | stub
  deriving DecidableEq, Repr

structure HostClass where
  name : String := ""
  /-- The superclass, its superclass, and so on. -/
  ancestors : List Address := []
  metaclass : Address := 0
  instanceSize : Nat := 0
  methods : List (String × Imp) := []
  /-- What a message to the class finds: the metaclass's methods before those it inherits. Above
  a root's metaclass is the root. -/
  classMethods : List (String × Imp) := []
  /-- The same for the root, which is what a message to the metaclass finds. -/
  rootMethods : List (String × Imp) := []
  /-- `+initialize` has been sent. -/
  initialized : Bool := false
  /-- The `+initialize` that the class has or inherits is guest code. -/
  guestInitialize : Bool := false
  deriving DecidableEq, Repr

/-- The host's Objective-C runtime. -/
structure HostRuntime where
  classAt : Address → HostClass
  /-- `objc_getClass` -/
  named : String → Option Address
  /-- The functions among the implementations. -/
  body : Address → Body := fun _ => .host
  /-- How many class pairs have been allocated. -/
  pairs : Nat := 0
  /-- The guest addresses of the blocks made for guest methods (`xl_shadow_imps`). -/
  shadowImps : List UInt64 := []

namespace HostRuntime

def superclass (host : HostRuntime) (cls : Address) : Address :=
  (host.classAt cls).ancestors.headD 0

/-- A message to the class starts guest code: its `+initialize` has not been sent, and it is
the guest's. -/
def startsGuestCode (host : HostRuntime) (cls : Address) : Bool :=
  !(host.classAt cls).initialized && (host.classAt cls).guestInitialize

/-- A message initializes the class and its ancestors. -/
def markInitialized (host : HostRuntime) (cls : Address) : HostRuntime :=
  { host with
    classAt := fun c =>
      { host.classAt c with
        initialized := (host.classAt c).initialized || c == cls
          || (host.classAt cls).ancestors.contains c } }

/-- `class_getMethodImplementation`, the lookup itself: the class's methods, its superclass's,
and so on, else the implementation that forwards. -/
def implementation (host : HostRuntime) (cls : Address) (selector : String) : Imp :=
  ((cls :: (host.classAt cls).ancestors).findSome? fun c =>
    (host.classAt c).methods.lookup selector).getD .forward

/-- The implementation under a selector, else the one that forwards. -/
def find (methods : List (String × Imp)) (selector : String) : Imp :=
  (methods.lookup selector).getD .forward

/-- What answers a message to the class. -/
def classMethod (host : HostRuntime) (cls : Address) (selector : String) : Imp :=
  find (host.classAt cls).classMethods selector

/-- `xl_add_guest_methods`: a block for each method, added under its selector unless the class
has a method of that name already. -/
def addGuestMethods (list : List GuestMethod) (imps : List UInt64)
    (methods : List (String × Imp)) : List UInt64 × List (String × Imp) :=
  list.foldl (fun (imps, methods) m =>
    (imps ++ [m.imp],
      if (methods.lookup m.selector).isSome then methods
      else methods ++ [(m.selector, .block imps.length)])) (imps, methods)

/-- From `objc_allocateClassPair` to `objc_registerClassPair`: the pair `(shadow, meta)` of the
name below a superclass, with the guest class's instance and class methods. The superclass of a
root's metaclass is the root. The storage for the guest's instance is an ivar aligned to 8. -/
def registerPair (host : HostRuntime) (pair : Address × Address) (name : String)
    (hostSuper : Address) (ro : GuestRo) (metaRo : Option GuestRo) : HostRuntime :=
  let super := host.classAt hostSuper
  let superSize := if hostSuper = 0 then 0 else super.instanceSize
  let (imps, methods) := addGuestMethods ro.baseMethods host.shadowImps []
  let classMethods := (metaRo.map GuestRo.baseMethods).getD []
  let (imps, metaMethods) := addGuestMethods classMethods imps []
  let found := metaMethods ++ if hostSuper = 0 then methods else super.classMethods
  let rootMethods := if hostSuper = 0 then found else super.rootMethods
  let shadow : HostClass :=
    { name
      ancestors := if hostSuper = 0 then [] else hostSuper :: super.ancestors
      metaclass := pair.2
      instanceSize :=
        if superSize < ro.instanceSize then
          (superSize + 7) / 8 * 8 + (ro.instanceSize - superSize)
        else superSize
      methods
      classMethods := found
      rootMethods
      guestInitialize := classMethods.any (·.selector == "initialize")
        || (hostSuper != 0 && super.guestInitialize) }
  let superMeta := super.metaclass
  let shadowMeta : HostClass :=
    { name
      ancestors :=
        if hostSuper = 0 then [pair.1] else superMeta :: (host.classAt superMeta).ancestors
      methods := metaMethods
      classMethods := rootMethods
      rootMethods }
  { host with
    classAt := Function.update (Function.update host.classAt pair.2 shadowMeta) pair.1 shadow
    named := Function.update host.named name (some pair.1)
    pairs := host.pairs + 1
    shadowImps := imps }

end HostRuntime

/-! ## The shadow tables -/

/-- Where guest code runs inside a build, a lookup or a trace line. -/
inductive Occasion
  /-- The lazy class namer is asked for a class's name. -/
  | naming (guest : Address)
  /-- A message initializes a host class. -/
  | initializing (cls : Address)
  /-- The message `class` to a host class is answered. -/
  | answering (cls : Address)
  /-- The message trace asks an object something. -/
  | tracing (receiver : Address)
  deriving DecidableEq, Repr

/-- Why a build, or what leads to it, stops the process. -/
inductive Abort
  /-- The class object to build is no class. -/
  | notClass (guest : Address)
  /-- The class has no name, and no namer gives it one. -/
  | nameless (guest : Address)
  /-- There is no translated code at the address that is called. -/
  | untranslated (address : UInt64)
  /-- The superclass does not answer `class`. -/
  | unanswered (cls : Address)
  /-- `_objc_realizeClassFromSwift` of `nil` -/
  | realizedNil
  deriving DecidableEq, Repr

inductive ShadowEvent
  | ran (occasion : Occasion)
  /-- `xl_build_shadow` starts to build, while these other builds are under way. -/
  | entered (guest : Address) (stack : List Address)
  | built (guest : Address) (pair : Address × Address)
  /-- `xl_build_shadow` returns. -/
  | answered (guest shadow : Address)
  /-- `xl_class_from_guest` returns. -/
  | looked (guest cls : Address)
  /-- The process stops: a class of the name exists. -/
  | nameTaken (guest existing : Address)
  /-- The process stops for another reason. -/
  | aborted (why : Abort)
  /-- `xl_route` looks a selector up. -/
  | routed (lookup : Address) (selector : UInt64)
  /-- The calls are nested deeper than the model follows them. -/
  | tooDeep (guest : Address)
  deriving DecidableEq, Repr

structure ShadowRuntime where
  /-- `xl_guest_to_host` -/
  guestToHost : Address → Option Address := fun _ => none
  /-- `xl_host_to_guest` -/
  hostToGuest : Address → Option Address := fun _ => none
  /-- `xl_unbuilt_static`: a static class object, or its metaclass, with the class object. -/
  unbuiltStatic : Address → Option Address := fun _ => none
  /-- `xl_shadows_active` -/
  active : Bool := false
  /-- `registering` of `xl_shadow_register_listed` -/
  registering : Bool := false
  /-- `xl_lazy_namer` -/
  lazyNamer : UInt64 := 0
  /-- `xl_variant_cache` -/
  variantCache : Imp → Option UInt64 := fun _ => none
  /-- The class that `xl_route` leaves under `xl_super_key`. -/
  superKey : Address := 0
  host : HostRuntime
  building : List Address := []
  trace : List ShadowEvent := []

/-- What one thread works on: its registers and the tables. -/
structure Machine where
  state : State
  runtime : ShadowRuntime

/-- What stays as it is while the process runs: the guest's class objects, the lists the
translator emits, and the addresses the host's heap gives out for classes. -/
structure Process where
  classAt : Address → GuestClass
  /-- `xl_swift_static_classes` and `xl_swift_listed_classes`, without their end marks -/
  staticClasses : List Address := []
  listedClasses : List Address := []
  /-- `xl_lookup` finds a function. -/
  translated : UInt64 → Bool := fun _ => true
  /-- `sel_registerName("class")` -/
  classSelector : UInt64 := 0
  /-- A class without a method `class` has guest code that forwards the message, or adds the
  method. -/
  forwards : HostRuntime → Address → Bool := fun _ _ => false
  heap : Nat → Address

/-- The class and the metaclass of the `n`-th pair. -/
def Process.pairAt (p : Process) (n : Nat) : Address × Address :=
  (p.heap (2 * n), p.heap (2 * n + 1))

/-- One class in `xl_shadow_setup`. -/
def Process.setupStep (p : Process) (table : Address → Option Address) (object : Address) :
    Address → Option Address :=
  let c := p.classAt object
  if c.isClass then
    let table := Function.update table object (some object)
    if c.isa = 0 then table else Function.update table c.isa (some object)
  else table

/-- `xl_shadow_setup` -/
def Process.xlShadowSetup (p : Process) (host : HostRuntime) : ShadowRuntime :=
  { unbuiltStatic := p.staticClasses.foldl p.setupStep fun _ => none
    active := !p.staticClasses.isEmpty
    host }

/-- `xl_class_out` -/
def ShadowRuntime.xlClassOut (rt : ShadowRuntime) (cls : Address) : Address :=
  if rt.active then (rt.hostToGuest cls).getD cls else cls

/-! ## Guest code -/

/-- How guest code reaches the tables. -/
inductive ShadowRequest
  /-- A message or a call that `xl_class_of` or `xl_class_in` serves. -/
  | lookup (guest : Address)
  /-- `objc_readClassPair` -/
  | readClassPair (guest : Address)
  /-- `_objc_realizeClassFromSwift` -/
  | realize (guest previously : Address)
  /-- `objc_setHook_lazyClassNamer` -/
  | setHook (namer : UInt64)
  /-- `xl_shadow_register_listed`, called by every entry into the bridge -/
  | registerListed
  deriving DecidableEq, Repr

/-- What the guest's code does when it runs: the requests it makes in order, the name the lazy
namer answers with, and the registers it leaves. -/
structure GuestCode where
  requests : Occasion → ShadowRuntime → List ShadowRequest
  name : Address → ShadowRuntime → Option String
  returns : Occasion → Machine → State

section

variable (p : Process) (guest : GuestCode)

def record (e : ShadowEvent) : Act Machine Unit :=
  .change fun m => { m with runtime := { m.runtime with trace := e :: m.runtime.trace } }

/-- `xl_unsupported`, `xl_fault` or the host's own abort. -/
def abort {α : Type} (why : Abort) : Act Machine α := do
  record (.aborted why)
  .stop

/-- The class `xl_class_from_guest` answers with, given the tables as it finds them and `build`
for `xl_build_shadow`. -/
def findClass (build : Address → Act Machine Address) (g : Address) (rt : ShadowRuntime) :
    Act Machine Address :=
  if !rt.active then pure g
  else match rt.guestToHost g with
    | some shadow => pure shadow
    | none =>
        match rt.unbuiltStatic g with
        | none => pure g
        | some owner => do
            let shadow ← build owner
            let host ← Act.read fun m => m.runtime.host
            pure (if owner = g then shadow else (host.classAt shadow).metaclass)

/-- `xl_class_from_guest` -/
def xlClassFromGuest (build : Address → Act Machine Address) (g : Address) :
    Act Machine Address := do
  let rt ← Act.read Machine.runtime
  let cls ← findClass build g rt
  record (.looked g cls)
  pure cls

/-- The entry points that guest code calls. -/
def serve (build : Address → Act Machine Address) : ShadowRequest → Act Machine Unit
  | .lookup g => do
      let _ ← xlClassFromGuest build g
  | .readClassPair g => if g = 0 then pure () else do
      let _ ← build g
  | .realize g previously =>
      if g = 0 then abort .realizedNil
      else do
        let shadow ← build g
        if previously = 0 ∨ previously = g then pure ()
        else .change fun m =>
          { m with
            runtime :=
              { m.runtime with
                guestToHost :=
                  Function.update m.runtime.guestToHost previously (some shadow) } }
  | .setHook namer =>
      .change fun m => { m with runtime := { m.runtime with lazyNamer := namer } }
  | .registerListed => do
      let rt ← Act.read Machine.runtime
      if rt.registering then pure ()
      else do
        .change fun m => { m with runtime := { m.runtime with registering := true } }
        Act.each (fun g => do
          let _ ← xlClassFromGuest build g) p.listedClasses

/-- Guest code runs on the thread's own registers. -/
def runGuest (build : Address → Act Machine Address) (occasion : Occasion) :
    Act Machine Unit := do
  record (.ran occasion)
  let rt ← Act.read Machine.runtime
  Act.each (serve p build) (guest.requests occasion rt)
  .change fun m => { m with state := guest.returns occasion m }

/-- `xl_invoke_n`: guest code is entered with these arguments, and `PC`, `X30` and `X0`–`X7` are
put back behind it. -/
def xlInvokeN (build : Address → Act Machine Address) (address : UInt64)
    (arguments : List UInt64) (occasion : Occasion) : Act Machine Unit := do
  let m ← Act.read id
  if !p.translated address then abort (.untranslated address)
  else do
    .change fun m => { m with state := m.state.enter address arguments }
    runGuest p guest build occasion
    .change fun after => { after with state := m.state.leave after.state }

/-- The host's first message to a class initializes it, before which the class counts as
initialized on this thread. -/
def initializeClass (build : Address → Act Machine Address) (cls : Address) :
    Act Machine Unit := do
  let rt ← Act.read Machine.runtime
  .change fun m =>
    { m with runtime := { m.runtime with host := m.runtime.host.markInitialized cls } }
  if rt.host.startsGuestCode cls then runGuest p guest build (.initializing cls) else pure ()

/-- What answers `class`: the host's own code, which returns the class and does nothing else, a
method of the guest's, or nothing. -/
def answerClass (build : Address → Act Machine Address) (cls : Address) :
    Act Machine Unit := do
  let rt ← Act.read Machine.runtime
  match rt.host.classMethod cls "class" with
  | .native imp =>
      match rt.host.body imp with
      | .host => pure ()
      | .wrapper => runGuest p guest build (.answering cls)
      | .stub => abort (.unanswered cls)
  | .block number =>
      xlInvokeN p guest build ((rt.host.shadowImps[number]?).getD 0)
        [UInt64.ofNat (rt.xlClassOut cls), p.classSelector] (.answering cls)
  | .forward =>
      if p.forwards rt.host cls then runGuest p guest build (.answering cls)
      else abort (.unanswered cls)

/-- `objc_msgSend(cls, "class")` of the host. -/
def messageClass (build : Address → Act Machine Address) (cls : Address) :
    Act Machine Unit := do
  initializeClass p guest build cls
  answerClass p guest build cls

/-- The name of a class without one in its `class_ro_t`: the lazy namer's. -/
def askName (build : Address → Act Machine Address) (g : Address) : Act Machine String := do
  let rt ← Act.read Machine.runtime
  if rt.lazyNamer = 0 then abort (.nameless g)
  else do
    xlInvokeN p guest build rt.lazyNamer [UInt64.ofNat g] (.naming g)
    match guest.name g rt with
    | none => abort (.nameless g)
    | some name => pure name

/-- The tables' entries for a new pair; the build is over. -/
def registerShadow (g : Address) (c : GuestClass) (ro : GuestRo) (name : String)
    (hostSuper : Address) (m : Machine) : Machine :=
  let rt := m.runtime
  let pair := p.pairAt rt.host.pairs
  let metaRo := if c.isa = 0 then none else (p.classAt c.isa).ro
  let guestToHost := Function.update rt.guestToHost g (some pair.1)
  let hostToGuest := Function.update rt.hostToGuest pair.1 (some g)
  let unbuiltStatic := Function.update rt.unbuiltStatic g none
  { m with
    runtime :=
      { rt with
        host := rt.host.registerPair pair name hostSuper ro metaRo
        guestToHost :=
          if c.isa = 0 then guestToHost else Function.update guestToHost c.isa (some pair.2)
        hostToGuest :=
          if c.isa = 0 then hostToGuest else Function.update hostToGuest pair.2 (some c.isa)
        unbuiltStatic :=
          if c.isa = 0 then unbuiltStatic else Function.update unbuiltStatic c.isa none
        active := true
        building := rt.building.tail
        trace := .built g pair :: rt.trace } }

/-- The name: the `class_ro_t`'s, else the lazy namer's. -/
def nameOf (build : Address → Act Machine Address) (g : Address) (ro : GuestRo) :
    Act Machine String :=
  match ro.name with
  | some name => pure name
  | none => askName p guest build g

/-- The host superclass, none for a root class. -/
def superOf (build : Address → Act Machine Address) (c : GuestClass) : Act Machine Address :=
  if c.superclass = 0 then pure 0 else xlClassFromGuest build c.superclass

/-- A message realizes the host superclass. -/
def realizeSuper (build : Address → Act Machine Address) (hostSuper : Address) :
    Act Machine Unit :=
  if hostSuper = 0 then pure () else messageClass p guest build hostSuper

/-- The pair itself, unless a class of the name exists. -/
def makePair (g : Address) (c : GuestClass) (ro : GuestRo) (name : String)
    (hostSuper : Address) : Act Machine Address := do
  let rt ← Act.read Machine.runtime
  match rt.host.named name with
  | some existing => do
      record (.nameTaken g existing)
      .stop
  | none => do
      .change (registerShadow p g c ro name hostSuper)
      record (.answered g (p.pairAt rt.host.pairs).1)
      pure (p.pairAt rt.host.pairs).1

/-- The build itself, of a class that is not in the table. -/
def construct (build : Address → Act Machine Address) (g : Address) (c : GuestClass)
    (ro : GuestRo) : Act Machine Address := do
  let rt ← Act.read Machine.runtime
  record (.entered g rt.building)
  .change fun m => { m with runtime := { m.runtime with building := g :: m.runtime.building } }
  let name ← nameOf p guest build g ro
  let hostSuper ← superOf build c
  realizeSuper p guest build hostSuper
  makePair p g c ro name hostSuper

/-- `xl_build_shadow`, with `build` for its calls of itself. -/
def buildStep (build : Address → Act Machine Address) (g : Address) : Act Machine Address := do
  let rt ← Act.read Machine.runtime
  match rt.guestToHost g with
  | some shadow => do
      record (.answered g shadow)
      pure shadow
  | none =>
      match (p.classAt g).ro with
      | none => abort (.notClass g)
      | some ro =>
          if ro.isMeta then abort (.notClass g) else construct p guest build g (p.classAt g) ro

/-- `xl_build_shadow(guest)`. The calls are followed at most `fuel` deep; a run that goes deeper
ends with `tooDeep`. -/
def xlBuildShadow : Nat → Address → Act Machine Address
  | 0, g => do
      record (.tooDeep g)
      .stop
  | fuel + 1, g => buildStep p guest (xlBuildShadow fuel) g

end

/-- The process stops in a state in which it is recorded why. -/
theorem ensures_abort {α : Type} {P E : Machine → Prop} {Q : α → Machine → Prop} {why : Abort}
    (h : ∀ m, P m →
      E { m with runtime := { m.runtime with trace := .aborted why :: m.runtime.trace } }) :
    Act.Ensures P (abort why) Q E :=
  Act.ensures_bind (Q := fun _ => E) (Act.ensures_change h) fun _ => Act.ensures_stop fun _ h => h

end Katabasis
