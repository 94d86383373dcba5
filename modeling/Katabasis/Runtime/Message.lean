import Katabasis.Runtime.Shadows

set_option autoImplicit false

/-! # Sending a message

`xl_h_objc_msgSend` and `xl_h_objc_msgSendSuper2` (`runtime/objc_bridge.m`): the receiver's class
is found (its shadow built, if need be), `xl_route` looks the selector up and the lifted code of
the method is entered by a tail jump, on the registers as they then are. `xl_route` puts the
registers back behind the lookup, whose `+initialize` runs on the same `State`. The lookup of the
class before it is not bracketed in this way: where it runs guest code, the method gets what that
code leaves in the registers.
-/

namespace Katabasis

/-! ## Routing -/

/-- What `xl_setup` and the device decide: tables by selector name, and switches. -/
structure Messaging where
  /-- `sel_getName` -/
  selName : UInt64 → String
  /-- The isa word of an object. -/
  isaOf : Address → Address
  /-- The two words of an `objc_super`. -/
  superAt : Address → Address × Address
  isGuestBlock : UInt64 → Bool := fun _ => false
  /-- `xl_guest_imps` -/
  guestImps : Imp → Option UInt64 := fun _ => none
  /-- `xl_selector_variant_table`: the bridges of an ambiguous selector, by type encoding. -/
  selectorVariants : String → Option (String → Option UInt64) := fun _ => none
  /-- `xl_selector_table` -/
  selectorTable : String → Option UInt64 := fun _ => none
  /-- `xl_variadic_table` -/
  variadic : String → Option Address := fun _ => none
  /-- The type encoding of `class_getInstanceMethod`'s answer. -/
  encoding : HostRuntime → Address → String → Option String := fun _ _ _ => none
  neutralizedPrefixes : List String := []
  neutralizedSelectors : List String := []
  /-- `XL_COLLECT` or its flag file -/
  collect : Bool := false
  /-- The message trace is on, and what it asks the receiver is answered by guest code. -/
  traces : ShadowRuntime → Address → Bool := fun _ _ => false

namespace Messaging

variable (b : Messaging)

/-- `xl_selector_neutralized` -/
def xlSelectorNeutralized (selector : UInt64) : Bool :=
  b.neutralizedSelectors.contains (b.selName selector)

/-- `xl_class_neutralized`: by the name of the class or of one of its ancestors. -/
def xlClassNeutralized (host : HostRuntime) (cls : Address) : Bool :=
  cls != 0 && (cls :: (host.classAt cls).ancestors).any fun c =>
    b.neutralizedPrefixes.any fun p => p.toList.isPrefixOf (host.classAt c).name.toList

end Messaging

/-- The type encoding as `xl_route` compares it: offsets dropped, and the tag of every struct or
union replaced by `?`, in a buffer with so much room. `skipping` is set inside a tag. -/
def stripEncoding : Bool → Nat → List Char → List Char
  | _, 0, _ => []
  | _, _, [] => []
  | skipping, room + 1, c :: rest =>
      if skipping && c != '=' && c != '}' && c != ')' then stripEncoding true (room + 1) rest
      else if c.isDigit then stripEncoding false (room + 1) rest
      else if c == '{' || c == '(' then
        if room = 0 then [c] else c :: '?' :: stripEncoding true (room - 1) rest
      else c :: stripEncoding false room rest

/-- `xl_route`'s answer: nothing to call (`0`), `XL_NO_BRIDGE`, or a guest address. -/
inductive Route
  | zero
  | noBridge
  | address (guest : UInt64)
  deriving DecidableEq, Repr

/-- `xl_shadow_imp` -/
def ShadowRuntime.xlShadowImp (rt : ShadowRuntime) : Imp → Option UInt64
  | .block n =>
      if rt.active then
        (rt.host.shadowImps[n]?.map fun imp => imp.toUInt32.toUInt64).filter (· != 0)
      else none
  | _ => none

inductive MessageOutcome
  /-- The send returns zero to the guest. -/
  | returned
  /-- A message to a guest block goes to its wrapper. -/
  | blockMessage
  | variadic (handler : Address)
  /-- `xl_dynamic_send` -/
  | dynamicSend
  /-- The lifted function at this address is entered. -/
  | tail (target : UInt64)
  deriving DecidableEq, Repr

/-- The two entry points. -/
inductive Send
  | message
  | superMessage
  deriving DecidableEq, Repr

section

variable (p : Process) (b : Messaging) (guest : GuestCode)

/-- `class_getMethodImplementation`: a message to the class as far as `+initialize` goes. -/
def methodImplementation (build : Address → Act Machine Address) (lookup : Address)
    (selector : UInt64) : Act Machine (Option Imp) :=
  if lookup = 0 then pure none
  else do
    initializeClass p guest build lookup
    let host ← Act.read fun m => m.runtime.host
    pure (some (host.implementation lookup (b.selName selector)))

/-- The bridge of a message that no guest method answers: by the implementation, as cached; by
the method's type encoding; or the selector's own. -/
def bridgeFor (lookup : Address) (selector : UInt64) (imp : Option Imp) (superClass : Address) :
    Act Machine Route := do
  let rt ← Act.read Machine.runtime
  let name := b.selName selector
  match imp.bind rt.variantCache with
  | some cached => pure (.address cached)
  | none =>
      match (b.selectorVariants name).bind fun byEncoding =>
        (b.encoding rt.host lookup name).bind fun encoding =>
          byEncoding (String.ofList (stripEncoding false 255 encoding.toList)) with
      | some variant => do
          .change fun m =>
            { m with
              runtime :=
                { m.runtime with
                  variantCache := match imp with
                    | some imp => Function.update m.runtime.variantCache imp (some variant)
                    | none => m.runtime.variantCache } }
          pure (.address variant)
      | none =>
          match b.selectorTable name with
          | none => pure (if b.collect then .zero else .noBridge)
          | some bridge => do
              .change fun m =>
                { m with
                  runtime :=
                    { m.runtime with
                      superKey := if superClass = 0 then m.runtime.superKey else superClass } }
              pure (.address bridge)

/-- `xl_route`. The registers are those from before the lookup again. -/
def xlRoute (build : Address → Act Machine Address) (lookup : Address) (selector : UInt64)
    (superClass : Address) : Act Machine Route := do
  let m ← Act.read id
  if b.xlSelectorNeutralized selector || b.xlClassNeutralized m.runtime.host lookup then
    pure .zero
  else do
    let imp ← methodImplementation p b guest build lookup selector
    .change fun after => { after with state := m.state }
    record (.routed lookup selector)
    let rt ← Act.read Machine.runtime
    match imp.bind fun imp => (b.guestImps imp).or (rt.xlShadowImp imp) with
    | some method => pure (.address method)
    | none => bridgeFor b lookup selector imp superClass

/-- What is done with the route of a message. -/
def follow (missing : Act Machine MessageOutcome) : Route → Act Machine MessageOutcome
  | .noBridge => missing
  | .zero => do
      .change fun m => { m with state := m.state.zeroResult }
      pure .returned
  | .address target => do
      .change fun m => { m with state := { m.state with pc := target } }
      pure (.tail target)

/-- The message trace, where guest code answers it. -/
def traceMessage (build : Address → Act Machine Address) (receiver : Address) :
    Act Machine Unit := do
  let rt ← Act.read Machine.runtime
  if b.traces rt receiver then runGuest p guest build (.tracing receiver) else pure ()

/-- A message whose receiver's class has been found. -/
def dispatch (build : Address → Act Machine Address) (cls : Address) (selector : UInt64) :
    Act Machine MessageOutcome := do
  let host ← Act.read fun m => m.runtime.host
  if b.xlClassNeutralized host cls || b.xlSelectorNeutralized selector then
    follow .stop .zero
  else match b.variadic (b.selName selector) with
    | some handler => pure (.variadic handler)
    | none => do
        let route ← xlRoute p b guest build cls selector 0
        follow (pure .dynamicSend) route

/-- `xl_narrow_pointer` for the receiver or the `objc_super`. -/
def narrowed (value : UInt64) : Option Address :=
  if value.toNat < 2 ^ 32 then some value.toNat
  else if 0xFFFFFFFFFFFFFF00 ≤ value.toNat then some (value.toNat % 2 ^ 32)
  else none

/-- `xl_h_objc_msgSend` -/
def xlObjcMsgSend (build : Address → Act Machine Address) : Act Machine MessageOutcome := do
  let self ← Act.read fun m => m.state.x 0
  if self = 0 then follow .stop .zero
  else if b.isGuestBlock self then pure .blockMessage
  else match narrowed self with
    | none => .stop
    | some receiver => do
        let selector ← Act.read fun m => m.state.x 1
        traceMessage p b guest build receiver
        let cls ← xlClassFromGuest build (b.isaOf receiver)
        dispatch p b guest build cls selector

/-- A super message whose current class has been found. The selector is read here. -/
def dispatchSuper (build : Address → Act Machine Address) (receiver current : Address) :
    Act Machine MessageOutcome := do
  let selector ← Act.read fun m => m.state.x 1
  .change fun m =>
    { m with
      state := { m.state with x := Function.update m.state.x 0 (UInt64.ofNat receiver) } }
  let host ← Act.read fun m => m.runtime.host
  let route ← xlRoute p b guest build (host.superclass current) selector current
  follow .stop route

/-- `xl_h_objc_msgSendSuper2` -/
def xlObjcMsgSendSuper2 (build : Address → Act Machine Address) :
    Act Machine MessageOutcome := do
  let guestSuper ← Act.read fun m => m.state.x 0
  match narrowed guestSuper with
  | none => .stop
  | some guestSuper => do
      let current ← xlClassFromGuest build (b.superAt guestSuper).2
      dispatchSuper p b guest build (b.superAt guestSuper).1 current

def send (fuel : Nat) : Send → Act Machine MessageOutcome
  | .message => xlObjcMsgSend p b guest (xlBuildShadow p guest fuel)
  | .superMessage => xlObjcMsgSendSuper2 p b guest (xlBuildShadow p guest fuel)

/-- What the sender may rely on: where the message is answered by lifted code, that code finds
`X1`–`X7` and `V0`–`V7` as they were sent, and the selector looked up is the one sent. -/
def Delivered (fuel : Nat) (kind : Send) (m : Machine) : Prop :=
  ∀ target m', send p b guest fuel kind m = (some (.tail target), m') →
    m.state.SameArguments m'.state ∧
      ∃ lookup, m'.runtime.trace.head? = some (.routed lookup (m.state.x 1))

end

end Katabasis
