import Katabasis.Runtime.Message
import Katabasis.Lib.Runs

set_option autoImplicit false

/-! # Routes and the variant cache

What `xl_route` answers, with the host's classes as they are (`Messaging.route`,
`xlRoute_initialized`), and what the answer depends on beside the message.

The key of the variant lookup is the method's type encoding without offsets and tags.
`xlgen` writes it with `NormalizeEncoding` (`xlate/src/xlgen.cpp`) into a string that grows,
`xl_route` into a buffer of 256 bytes: the two agree up to the length of the buffer
(`agrees_iff`). The cache in front of that lookup has the implementation for its key, and is
asked before the selector's variants are. `route_run_iff`: an answer does not depend on the
messages before it exactly where methods that share the implementation share the bridge.
-/

namespace Katabasis

/-! ## The two normalisers -/

/-- `NormalizeEncoding`. `skipping` is set inside a tag. -/
def normalizeEncoding : Bool → List Char → List Char
  | _, [] => []
  | skipping, c :: rest =>
      if skipping && c != '=' && c != '}' && c != ')' then normalizeEncoding true rest
      else if c.isDigit then normalizeEncoding false rest
      else if c == '{' || c == '(' then c :: '?' :: normalizeEncoding true rest
      else c :: normalizeEncoding false rest

/-- **The buffer cuts the encoding off**, and changes nothing else. -/
theorem stripEncoding_eq_take (skipping : Bool) (room : Nat) (encoding : List Char) :
    stripEncoding skipping room encoding = (normalizeEncoding skipping encoding).take room := by
  induction encoding generalizing skipping room with
  | nil => cases room <;> simp [stripEncoding, normalizeEncoding]
  | cons c rest ih =>
      cases room with
      | zero => simp [stripEncoding]
      | succ room =>
          rw [stripEncoding, normalizeEncoding]
          split_ifs with hskip hdigit htag hroom
          · exact ih true (room + 1)
          · exact ih false (room + 1)
          · rw [hroom]
            rfl
          · obtain ⟨n, rfl⟩ := Nat.exists_eq_succ_of_ne_zero hroom
            rw [ih true, List.take_succ_cons, List.take_succ_cons]
            rfl
          · rw [ih false, List.take_succ_cons]

namespace Messaging

variable (b : Messaging)

/-! ## The route of a message -/

/-- The message is answered with nothing. -/
def neutralized (host : HostRuntime) (lookup : Address) (selector : UInt64) : Bool :=
  b.xlSelectorNeutralized selector || b.xlClassNeutralized host lookup

/-- `class_getMethodImplementation`, without the message to the class. -/
def implementationFor (host : HostRuntime) (lookup : Address) (selector : UInt64) : Option Imp :=
  if lookup = 0 then none else some (host.implementation lookup (b.selName selector))

/-- The guest code behind an implementation. -/
def guestMethod (rt : ShadowRuntime) (imp : Option Imp) : Option UInt64 :=
  imp.bind fun imp => (b.guestImps imp).or (rt.xlShadowImp imp)

/-- The bridge among the selector's variants for the method's own type encoding. -/
def variantOf (host : HostRuntime) (lookup : Address) (selector : UInt64) : Option UInt64 :=
  (b.selectorVariants (b.selName selector)).bind fun byEncoding =>
    (b.encoding host lookup (b.selName selector)).bind fun encoding =>
      byEncoding (String.ofList (stripEncoding false 255 encoding.toList))

/-- The selector's own bridge. -/
def defaultRoute (selector : UInt64) : Route :=
  match b.selectorTable (b.selName selector) with
  | none => if b.collect then .zero else .noBridge
  | some bridge => .address bridge

/-- The route of a message with this implementation, and the cache behind it. -/
def routeTo (rt : ShadowRuntime) (lookup : Address) (selector : UInt64) (imp : Option Imp) :
    Route × (Imp → Option UInt64) :=
  match b.guestMethod rt imp with
  | some method => (.address method, rt.variantCache)
  | none =>
      match imp.bind rt.variantCache with
      | some cached => (.address cached, rt.variantCache)
      | none =>
          match b.variantOf rt.host lookup selector with
          | some variant =>
              (.address variant,
                match imp with
                | some imp => Function.update rt.variantCache imp (some variant)
                | none => rt.variantCache)
          | none => (b.defaultRoute selector, rt.variantCache)

/-- `xl_route` of a message, the lookup class and the selector, where the lookup runs no guest
code: the answer, and the cache behind it. -/
def route (rt : ShadowRuntime) (message : Address × UInt64) : Route × (Imp → Option UInt64) :=
  if b.neutralized rt.host message.1 message.2 then (.zero, rt.variantCache)
  else b.routeTo rt message.1 message.2 (b.implementationFor rt.host message.1 message.2)

end Messaging

section

variable {p : Process} {b : Messaging} {guest : GuestCode}
  {build : Address → Act Machine Address} {lookup : Address} {selector : UInt64}
  {superClass : Address}

theorem bridgeFor_route {m : Machine} {imp : Option Imp}
    (hguest : b.guestMethod m.runtime imp = none) :
    ∃ m', bridgeFor b lookup selector imp superClass m
        = (some (b.routeTo m.runtime lookup selector imp).1, m') ∧
      m'.runtime.variantCache = (b.routeTo m.runtime lookup selector imp).2 ∧
      m'.runtime.host = m.runtime.host := by
  unfold bridgeFor
  rw [Messaging.routeTo, hguest]
  simp only [Act.bind_run, Act.read]
  cases hcached : imp.bind m.runtime.variantCache with
  | some cached => exact ⟨m, rfl, rfl, rfl⟩
  | none =>
      simp only
      change ∃ m', (match b.variantOf m.runtime.host lookup selector with
        | some variant => _
        | none => _ : Act Machine Route) m = _ ∧ _
      cases b.variantOf m.runtime.host lookup selector with
      | some variant => exact ⟨_, rfl, rfl, rfl⟩
      | none =>
          simp only [Messaging.defaultRoute]
          cases b.selectorTable (b.selName selector) with
          | none => exact ⟨m, rfl, rfl, rfl⟩
          | some bridge => exact ⟨_, rfl, rfl, rfl⟩

/-- **`xl_route` answers as the route says**, on the runtime that its lookup leaves. -/
theorem xlRoute_route {m after : Machine} {imp : Option Imp}
    (hneutral : b.neutralized m.runtime.host lookup selector = false)
    (himp : methodImplementation p b guest build lookup selector m = (some imp, after)) :
    ∃ m', xlRoute p b guest build lookup selector superClass m
        = (some (b.routeTo after.runtime lookup selector imp).1, m') ∧
      m'.runtime.variantCache = (b.routeTo after.runtime lookup selector imp).2 ∧
      m'.runtime.host = after.runtime.host := by
  let routing : Machine :=
    { state := m.state
      runtime := { after.runtime with
        trace := .routed lookup selector :: after.runtime.trace } }
  have hread : xlRoute p b guest build lookup selector superClass m
      = (match b.guestMethod after.runtime imp with
        | some method => pure (.address method)
        | none => bridgeFor b lookup selector imp superClass : Act Machine Route) routing := by
    unfold xlRoute
    rw [Act.bind_run]
    simp only [Act.read, id]
    rw [if_neg (by simpa [Messaging.neutralized] using hneutral), Act.bind_run, himp]
    rfl
  rw [hread]
  cases hguest : b.guestMethod after.runtime imp with
  | some method =>
      rw [Messaging.routeTo, hguest]
      exact ⟨routing, rfl, rfl, rfl⟩
  | none => exact bridgeFor_route (m := routing) hguest

/-- A class that is initialized with its ancestors is looked up as it stands. -/
theorem methodImplementation_initialized {m : Machine}
    (hinit : m.runtime.host.markInitialized lookup = m.runtime.host) :
    methodImplementation p b guest build lookup selector m
      = (some (b.implementationFor m.runtime.host lookup selector), m) := by
  have hquiet : m.runtime.host.startsGuestCode lookup = false := by
    have hclass := congrArg (fun host => (host.classAt lookup).initialized) hinit
    simp only [HostRuntime.markInitialized, beq_self_eq_true, Bool.or_true, Bool.true_or] at hclass
    rw [HostRuntime.startsGuestCode, ← hclass]
    rfl
  unfold methodImplementation Messaging.implementationFor
  by_cases hnil : lookup = 0
  · rw [if_pos hnil, if_pos hnil]
    rfl
  · rw [if_neg hnil, if_neg hnil]
    simp only [initializeClass, Act.bind_run, Act.read, Act.change, hquiet, Bool.false_eq_true,
      if_false, Act.pure_run, hinit]

/-- **With the classes fixed, `xl_route` is the route**: the answer and the cache behind it. -/
theorem xlRoute_initialized {m : Machine}
    (hinit : m.runtime.host.markInitialized lookup = m.runtime.host) :
    ∃ m', xlRoute p b guest build lookup selector superClass m
        = (some (b.route m.runtime (lookup, selector)).1, m') ∧
      m'.runtime.variantCache = (b.route m.runtime (lookup, selector)).2 ∧
      m'.runtime.host = m.runtime.host := by
  unfold Messaging.route
  cases hneutral : b.neutralized m.runtime.host lookup selector with
  | true =>
      rw [if_pos rfl]
      refine ⟨m, ?_, rfl, rfl⟩
      unfold xlRoute
      rw [Act.bind_run]
      simp only [Act.read, id]
      rw [if_pos (by simpa [Messaging.neutralized] using hneutral)]
      rfl
  | false =>
      rw [if_neg (by simp)]
      exact xlRoute_route hneutral (methodImplementation_initialized hinit)

end

/-! ## Routes after other messages -/

namespace Messaging

variable (b : Messaging) (rt : ShadowRuntime)

/-- The cache behind one message. -/
def remember (cache : Imp → Option UInt64) (message : Address × UInt64) : Imp → Option UInt64 :=
  (b.route { rt with variantCache := cache } message).2

/-- The runtime behind a history of routed messages, which starts with an empty cache; the
classes stay as they are. -/
def afterHistory (history : List (Address × UInt64)) : ShadowRuntime :=
  { rt with variantCache := Runs.run (b.remember rt) (fun _ => none) history }

/-- The bridge for the method's own encoding, or the selector's default. -/
def ownRoute (message : Address × UInt64) : Route :=
  match b.variantOf rt.host message.1 message.2 with
  | some variant => .address variant
  | none => b.defaultRoute message.2

/-- A message whose method has this implementation, not the guest's, and finds this variant for
its encoding: the first one leaves it in the cache. -/
structure Caches (message : Address × UInt64) (imp : Imp) (variant : UInt64) : Prop where
  routed : b.neutralized rt.host message.1 message.2 = false
  implementation : b.implementationFor rt.host message.1 message.2 = some imp
  host : b.guestMethod rt (some imp) = none
  variant : b.variantOf rt.host message.1 message.2 = some variant

variable {b rt}

theorem route_of_cached (cache : Imp → Option UInt64) {message : Address × UInt64} {imp : Imp}
    (hrouted : b.neutralized rt.host message.1 message.2 = false)
    (himp : b.implementationFor rt.host message.1 message.2 = some imp)
    (hhost : b.guestMethod rt (some imp) = none) :
    (b.route { rt with variantCache := cache } message).1
      = match cache imp with
        | some cached => .address cached
        | none => b.ownRoute rt message := by
  have hhost' : b.guestMethod { rt with variantCache := cache } (some imp) = none := hhost
  simp only [route, hrouted, himp, Bool.false_eq_true, if_false, routeTo, hhost',
    Option.bind_some]
  cases cache imp with
  | some cached => rfl
  | none =>
      simp only [ownRoute]
      cases b.variantOf rt.host message.1 message.2 <;> rfl

/-- Where there is nothing to cache by, or the guest answers, the cache is not asked. -/
theorem route_uncached {message : Address × UInt64} {cache : Imp → Option UInt64}
    (h : ∀ imp, b.neutralized rt.host message.1 message.2 = false →
      b.implementationFor rt.host message.1 message.2 = some imp →
      b.guestMethod rt (some imp) ≠ none) :
    (b.route { rt with variantCache := cache } message).1
      = (b.route { rt with variantCache := fun _ => none } message).1 := by
  unfold route
  simp only
  by_cases hneutral : b.neutralized rt.host message.1 message.2 = true
  · rw [if_pos hneutral, if_pos hneutral]
  · rw [if_neg hneutral, if_neg hneutral]
    unfold routeTo
    cases himp : b.implementationFor rt.host message.1 message.2 with
    | none =>
        have hnone : ∀ c, b.guestMethod { rt with variantCache := c } none = none := fun _ => rfl
        simp only [hnone, Option.bind_none]
        cases b.variantOf rt.host message.1 message.2 <;> rfl
    | some imp =>
        obtain ⟨method, hmethod⟩ := Option.ne_none_iff_exists'.mp
          (h imp (Bool.eq_false_of_not_eq_true hneutral) himp)
        have hsome : ∀ c, b.guestMethod { rt with variantCache := c } (some imp) = some method :=
          fun _ => hmethod
        simp only [hsome]

/-- What one message leaves in the cache, it or an earlier one has found. -/
theorem route_caches {cache : Imp → Option UInt64} {message : Address × UInt64} {imp : Imp}
    {variant : UInt64}
    (h : (b.route { rt with variantCache := cache } message).2 imp = some variant) :
    cache imp = some variant ∨ b.Caches rt message imp variant := by
  unfold route at h
  simp only at h
  by_cases hneutral : b.neutralized rt.host message.1 message.2 = true
  · rw [if_pos hneutral] at h
    exact Or.inl h
  · rw [if_neg hneutral] at h
    unfold routeTo at h
    cases himp : b.implementationFor rt.host message.1 message.2 with
    | none =>
        rw [himp] at h
        left
        simp only [Option.bind_none] at h
        cases hguest : b.guestMethod { rt with variantCache := cache } none <;>
          cases hvariant : b.variantOf rt.host message.1 message.2 <;>
          simpa [hguest, hvariant] using h
    | some own =>
        rw [himp] at h
        simp only [Option.bind_some] at h
        cases hguest : b.guestMethod { rt with variantCache := cache } (some own) with
        | some method =>
            rw [hguest] at h
            exact Or.inl h
        | none =>
            rw [hguest] at h
            cases hcached : cache own with
            | some cached =>
                rw [hcached] at h
                exact Or.inl h
            | none =>
                rw [hcached] at h
                cases hvariant : b.variantOf rt.host message.1 message.2 with
                | none =>
                    rw [hvariant] at h
                    exact Or.inl h
                | some found =>
                    rw [hvariant] at h
                    simp only at h
                    by_cases hown : imp = own
                    · rw [hown, Function.update_self, Option.some.injEq] at h
                      subst hown
                      rw [← h]
                      exact Or.inr ⟨Bool.eq_false_of_not_eq_true hneutral, himp, hguest, hvariant⟩
                    · rw [Function.update_of_ne hown] at h
                      exact Or.inl h

/-- **What is in the cache, some message of the history has found.** -/
theorem afterHistory_caches {history : List (Address × UInt64)} {imp : Imp} {variant : UInt64}
    (h : (b.afterHistory rt history).variantCache imp = some variant) :
    ∃ message, b.Caches rt message imp variant := by
  have hkeep : ∀ imp variant, Runs.run (b.remember rt) (fun _ => none) history imp = some variant →
      ∃ message, b.Caches rt message imp variant := by
    refine Runs.run_keeps
      (fun cache : Imp → Option UInt64 => ∀ imp variant, cache imp = some variant →
        ∃ message, b.Caches rt message imp variant)
      (fun message _ cache hcache imp variant hstep => ?_) (fun imp variant hnone => nomatch hnone)
    rcases route_caches hstep with hold | hnew
    · exact hcache imp variant hold
    · exact ⟨message, hnew⟩
  exact hkeep imp variant h

/-- **Where a route does not depend on the messages before it.** Behind every history a message
is answered as in a fresh process exactly where every method that shares its implementation, and
has a variant of its own, has the bridge of that message's own encoding. -/
theorem route_run_iff (b : Messaging) (rt : ShadowRuntime) (message : Address × UInt64) :
    (∀ history, (b.route (b.afterHistory rt history) message).1
        = (b.route (b.afterHistory rt []) message).1) ↔
      ∀ other imp variant, b.Caches rt other imp variant →
        b.neutralized rt.host message.1 message.2 = false →
        b.implementationFor rt.host message.1 message.2 = some imp →
        b.ownRoute rt message = .address variant := by
  constructor
  · intro hall other imp variant hother hrouted himp
    have hcached : (b.afterHistory rt [other]).variantCache imp = some variant := by
      show b.remember rt (fun _ => none) other imp = some variant
      simp only [remember, route, hother.routed, hother.implementation, Bool.false_eq_true,
        if_false, routeTo]
      rw [show b.guestMethod { rt with variantCache := fun _ => none } (some imp) = none from
        hother.host, Option.bind_some]
      simp only [hother.variant, Function.update_self]
    have hafter := route_of_cached (b.afterHistory rt [other]).variantCache hrouted himp
      hother.host
    have hfresh := route_of_cached (fun _ => none) hrouted himp hother.host
    rw [hcached] at hafter
    calc b.ownRoute rt message
        = (b.route (b.afterHistory rt []) message).1 := hfresh.symm
      _ = (b.route (b.afterHistory rt [other]) message).1 := (hall [other]).symm
      _ = .address variant := hafter
  · intro hshared history
    by_cases hasked : ∃ imp, b.neutralized rt.host message.1 message.2 = false ∧
        b.implementationFor rt.host message.1 message.2 = some imp ∧
        b.guestMethod rt (some imp) = none
    · obtain ⟨imp, hrouted, himp, hhost⟩ := hasked
      have hfresh : (b.route (b.afterHistory rt []) message).1 = b.ownRoute rt message :=
        route_of_cached _ hrouted himp hhost
      have hafter := route_of_cached (b.afterHistory rt history).variantCache hrouted himp hhost
      rw [hfresh]
      refine hafter.trans ?_
      cases hcached : (b.afterHistory rt history).variantCache imp with
      | none => rfl
      | some variant =>
          obtain ⟨other, hother⟩ := afterHistory_caches hcached
          exact (hshared other imp variant hother hrouted himp).symm
    · exact route_uncached fun imp hrouted himp hhost => hasked ⟨imp, hrouted, himp, hhost⟩

/-! ## The length of an encoding -/

/-- A method of this encoding finds the variant that is recorded for it. -/
def FindsOwn (encoding : String) : Prop :=
  ∀ (b : Messaging) (host : HostRuntime) (lookup : Address) (selector : UInt64)
    (byEncoding : String → Option UInt64) (bridge : UInt64),
    b.selectorVariants (b.selName selector) = some byEncoding →
    b.encoding host lookup (b.selName selector) = some encoding →
    byEncoding (String.ofList (normalizeEncoding false encoding.toList)) = some bridge →
    b.variantOf host lookup selector = some bridge

/-- **Where the two normalisers agree**: on every encoding that fits the buffer once normalised,
and on no other. A method then finds its own variant. -/
theorem agrees_iff (encoding : String) :
    (stripEncoding false 255 encoding.toList = normalizeEncoding false encoding.toList ∧
        FindsOwn encoding) ↔
      (normalizeEncoding false encoding.toList).length ≤ 255 := by
  rw [stripEncoding_eq_take]
  constructor
  · rintro ⟨htake, -⟩
    exact List.take_eq_self_iff _ |>.mp htake
  · intro hlen
    have htake : (normalizeEncoding false encoding.toList).take 255
        = normalizeEncoding false encoding.toList := List.take_of_length_le hlen
    refine ⟨htake, fun b host lookup selector byEncoding bridge htable henc hkey => ?_⟩
    rw [variantOf, htable, Option.bind_some, henc, Option.bind_some, stripEncoding_eq_take, htake,
      hkey]

/-- A method that takes a structure of so many `int`s: `v8@0:4{Wide=i…i}`. -/
def wideEncoding (ints : Nat) : List Char :=
  ['v', '8', '@', '0', ':', '4', '{', 'W', 'i', 'd', 'e', '='] ++ (List.replicate ints 'i' ++ ['}'])

theorem normalizeEncoding_wide (ints : Nat) :
    normalizeEncoding false (wideEncoding ints)
      = ['v', '@', ':', '{', '?', '='] ++ (List.replicate ints 'i' ++ ['}']) := by
  have hints : ∀ n, normalizeEncoding false (List.replicate n 'i' ++ ['}'])
      = List.replicate n 'i' ++ ['}'] := by
    intro n
    induction n with
    | zero => rfl
    | succ n ih =>
        rw [List.replicate_succ, List.cons_append]
        change 'i' :: normalizeEncoding false (List.replicate n 'i' ++ ['}']) = _
        rw [ih]
  show 'v' :: '@' :: ':' :: '{' :: '?' :: '=' ::
    normalizeEncoding false (List.replicate ints 'i' ++ ['}']) = _
  rw [hints]
  rfl

/-- A structure of 250 is too wide for the buffer. -/
theorem not_agrees_wide :
    ¬ ∀ encoding : String,
      stripEncoding false 255 encoding.toList = normalizeEncoding false encoding.toList ∧
        FindsOwn encoding := by
  intro hclaim
  have hstrip := (hclaim (String.ofList (wideEncoding 250))).1
  rw [stripEncoding_eq_take, List.take_eq_self_iff, String.toList_ofList,
    normalizeEncoding_wide, List.length_append, List.length_append, List.length_replicate] at hstrip
  exact absurd hstrip (by decide)

/-! ## Two methods with one implementation -/

/-- Two classes whose `-value` is one function, as an `int` and as a `float`. -/
def sharedValue : Messaging where
  selName := fun _ => "value"
  isaOf := fun object => object
  superAt := fun _ => (0, 0)
  selectorVariants := fun _ => some fun encoding =>
    if encoding.toList = "i@:".toList then some 100
    else if encoding.toList = "f@:".toList then some 200 else none
  encoding := fun _ lookup _ => if lookup = 1 then some "i8@0:4" else some "f8@0:4"

/-- The runtime of the two classes. -/
def sharedRuntime : ShadowRuntime where
  host :=
    { classAt := fun _ => { methods := [("value", .native 7)] }
      named := fun _ => none }

/-- The second class is answered with the bridge of the first. -/
theorem not_route_shared :
    ¬ ∀ (b : Messaging) (rt : ShadowRuntime) (message : Address × UInt64)
      (history : List (Address × UInt64)),
      (b.route (b.afterHistory rt history) message).1
        = (b.route (b.afterHistory rt []) message).1 := by
  intro hclaim
  have hafter : (sharedValue.route (sharedValue.afterHistory sharedRuntime [(1, 5)]) (2, 5)).1
      = .address 100 := by rfl
  have hfresh : (sharedValue.route (sharedValue.afterHistory sharedRuntime []) (2, 5)).1
      = .address 200 := by rfl
  have hsame := hclaim sharedValue sharedRuntime (2, 5) [(1, 5)]
  rw [hafter, hfresh] at hsame
  cases hsame

end Messaging

end Katabasis
