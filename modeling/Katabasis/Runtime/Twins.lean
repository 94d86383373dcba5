import Katabasis.Runtime.Message

set_option autoImplicit false

/-! # Guest code that leaves other registers

Routing a message reads `X0`–`X30` and the tables, and no vector register. So two programs that
do the same, and leave the same in `X0`–`X30`, route every message alike (`agree_send`). A message
that some guest code lets through is then let through by one that leaves other vector registers,
which is how `delivered_iff` shows that guest code must not run at all.

One lemma for each function on the way, in the order in which they call each other.
-/

namespace Katabasis

/-- The same but for `V0`–`V31`, `SP` and `PC`. -/
def Machine.Alike (m m' : Machine) : Prop := m.runtime = m'.runtime ∧ m.state.x = m'.state.x

/-- Two programs that do the same and leave the same in `X0`–`X30`. -/
structure GuestCode.Twin (guest guest' : GuestCode) : Prop where
  requests : guest.requests = guest'.requests
  name : guest.name = guest'.name
  returns : ∀ o m m', m.Alike m' → (guest.returns o m).x = (guest'.returns o m').x

section

variable {p : Process} {b : Messaging} {guest guest' : GuestCode}
  {build build' : Address → Act Machine Address}

/-- The tables are the same in both, and so is what becomes of them. -/
theorem agree_change_runtime (f : ShadowRuntime → ShadowRuntime) :
    Act.Agree Machine.Alike (Act.change fun m => { m with runtime := f m.runtime })
      (Act.change fun m => { m with runtime := f m.runtime }) :=
  Act.agree_change fun _ _ h => ⟨congrArg f h.1, h.2⟩

theorem agree_record (e : ShadowEvent) : Act.Agree Machine.Alike (record e) (record e) :=
  agree_change_runtime fun rt => { rt with trace := e :: rt.trace }

theorem agree_abort {α : Type} (why : Abort) :
    Act.Agree Machine.Alike (abort why : Act Machine α) (abort why) :=
  Act.agree_bind (agree_record _) fun _ => Act.agree_stop

theorem agree_runtime {α : Type} (f : ShadowRuntime → α) :
    Act.Agree Machine.Alike (Act.read fun m => f m.runtime) (Act.read fun m => f m.runtime) :=
  Act.agree_read fun _ _ h => congrArg f h.1

/-- A general register is read, the selector's or the receiver's. -/
theorem agree_register (i : Fin 31) :
    Act.Agree Machine.Alike (Act.read fun m => m.state.x i) (Act.read fun m => m.state.x i) :=
  Act.agree_read fun _ _ h => congrFun h.2 i

theorem agree_findClass (hbuild : ∀ g, Act.Agree Machine.Alike (build g) (build' g)) (g : Address)
    (rt : ShadowRuntime) :
    Act.Agree Machine.Alike (findClass build g rt) (findClass build' g rt) := by
  unfold findClass
  by_cases ha : rt.active = true
  · cases hg : rt.guestToHost g with
    | some shadow => simpa [ha] using Act.agree_pure shadow
    | none =>
        cases hu : rt.unbuiltStatic g with
        | none => simpa [ha] using Act.agree_pure g
        | some owner =>
            -- a static class without a shadow: both build it
            simp only [ha, Bool.not_true, Bool.false_eq_true, if_false]
            refine Act.agree_bind (hbuild owner) fun shadow => ?_
            exact Act.agree_bind (agree_runtime ShadowRuntime.host) fun _ => Act.agree_pure _
  · simpa [ha] using Act.agree_pure g

theorem agree_xlClassFromGuest (hbuild : ∀ g, Act.Agree Machine.Alike (build g) (build' g))
    (g : Address) :
    Act.Agree Machine.Alike (xlClassFromGuest build g) (xlClassFromGuest build' g) := by
  unfold xlClassFromGuest
  refine Act.agree_bind (agree_runtime id) fun rt => ?_
  refine Act.agree_bind (agree_findClass hbuild g rt) fun cls => ?_
  exact Act.agree_bind (agree_record _) fun _ => Act.agree_pure cls

/-- A request reaches the tables only, so it does not matter what is in the registers. -/
theorem agree_serve (hbuild : ∀ g, Act.Agree Machine.Alike (build g) (build' g))
    (r : ShadowRequest) :
    Act.Agree Machine.Alike (serve p build r) (serve p build' r) := by
  cases r with
  | lookup g =>
      exact Act.agree_bind (agree_xlClassFromGuest hbuild g) fun _ => Act.agree_pure ()
  | readClassPair g =>
      simp only [serve]
      split
      · exact Act.agree_pure ()
      · exact Act.agree_bind (hbuild g) fun _ => Act.agree_pure ()
  | realize g previously =>
      simp only [serve]
      split
      · exact agree_abort _
      · refine Act.agree_bind (hbuild g) fun shadow => ?_
        split
        · exact Act.agree_pure ()
        · exact agree_change_runtime fun rt =>
            { rt with guestToHost := Function.update rt.guestToHost previously (some shadow) }
  | setHook namer => exact agree_change_runtime fun rt => { rt with lazyNamer := namer }
  | registerListed =>
      refine Act.agree_bind (agree_runtime id) fun rt => ?_
      show Act.Agree _ (if rt.registering then _ else _) (if rt.registering then _ else _)
      -- the guard is in the tables: both register the classes, or neither does
      split
      · exact Act.agree_pure ()
      · refine Act.agree_bind (agree_change_runtime fun rt => { rt with registering := true })
          fun _ => Act.agree_each fun g _ => ?_
        exact Act.agree_bind (agree_xlClassFromGuest hbuild g) fun _ => Act.agree_pure ()

/-- Twins ask for the same, and leave the same in `X0`–`X30`. -/
theorem agree_runGuest (ht : guest.Twin guest')
    (hbuild : ∀ g, Act.Agree Machine.Alike (build g) (build' g)) (occasion : Occasion) :
    Act.Agree Machine.Alike (runGuest p guest build occasion)
      (runGuest p guest' build' occasion) := by
  unfold runGuest
  rw [ht.requests]
  refine Act.agree_bind (agree_record _) fun _ => ?_
  refine Act.agree_bind (agree_runtime id) fun rt => ?_
  refine Act.agree_bind (Act.agree_each fun r _ => agree_serve hbuild r) fun _ => ?_
  exact Act.agree_change fun m m' h => ⟨h.1, ht.returns occasion m m' h⟩

/-- Guest code is entered and left on the same `X0`–`X30`. -/
theorem agree_xlInvokeN (ht : guest.Twin guest')
    (hbuild : ∀ g, Act.Agree Machine.Alike (build g) (build' g)) (address : UInt64)
    (arguments : List UInt64) (occasion : Occasion) :
    Act.Agree Machine.Alike (xlInvokeN p guest build address arguments occasion)
      (xlInvokeN p guest' build' address arguments occasion) := by
  unfold xlInvokeN
  refine Act.agree_save fun m m' h => ?_
  split
  · exact agree_abort _
  · refine Act.agree_bind (Act.agree_change fun m1 m1' h1 => ⟨h1.1, ?_⟩) fun _ =>
      Act.agree_bind (agree_runGuest ht hbuild _) fun _ =>
      Act.agree_change fun m2 m2' h2 => ⟨h2.1, ?_⟩
    · show (m1.state.enter _ _).x = (m1'.state.enter _ _).x
      simp only [State.enter, h1.2]
    · show (m.state.leave m2.state).x = (m'.state.leave m2'.state).x
      simp only [State.leave, h.2, h2.2]

theorem agree_initializeClass (ht : guest.Twin guest')
    (hbuild : ∀ g, Act.Agree Machine.Alike (build g) (build' g)) (cls : Address) :
    Act.Agree Machine.Alike (initializeClass p guest build cls)
      (initializeClass p guest' build' cls) := by
  unfold initializeClass
  refine Act.agree_bind (agree_runtime id) fun rt => ?_
  refine Act.agree_bind (agree_change_runtime fun rt =>
    { rt with host := rt.host.markInitialized cls }) fun _ => ?_
  split
  · exact agree_runGuest ht hbuild _
  · exact Act.agree_pure ()

/-- The method is found in the tables, so both find the same one. -/
theorem agree_answerClass (ht : guest.Twin guest')
    (hbuild : ∀ g, Act.Agree Machine.Alike (build g) (build' g)) (cls : Address) :
    Act.Agree Machine.Alike (answerClass p guest build cls) (answerClass p guest' build' cls) := by
  unfold answerClass
  refine Act.agree_bind (agree_runtime id) fun rt => ?_
  cases rt.host.classMethod cls "class" with
  | native imp =>
      dsimp only [id]
      cases rt.host.body imp with
      | host => exact Act.agree_pure ()
      | wrapper => exact agree_runGuest ht hbuild _
      | stub => exact agree_abort _
  | block number => exact agree_xlInvokeN ht hbuild _ _ _
  | forward =>
      dsimp only [id]
      split
      · exact agree_runGuest ht hbuild _
      · exact agree_abort _

theorem agree_askName (ht : guest.Twin guest')
    (hbuild : ∀ g, Act.Agree Machine.Alike (build g) (build' g)) (g : Address) :
    Act.Agree Machine.Alike (askName p guest build g) (askName p guest' build' g) := by
  unfold askName
  refine Act.agree_bind (agree_runtime id) fun rt => ?_
  rw [ht.name]
  split
  · exact agree_abort _
  · refine Act.agree_bind (agree_xlInvokeN ht hbuild _ _ _) fun _ => ?_
    split
    · exact agree_abort _
    · exact Act.agree_pure _

/-- What a build does in its order: the name, the superclass, the message to it, the pair. -/
theorem agree_construct (ht : guest.Twin guest')
    (hbuild : ∀ g, Act.Agree Machine.Alike (build g) (build' g)) (g : Address) (c : GuestClass)
    (ro : GuestRo) :
    Act.Agree Machine.Alike (construct p guest build g c ro)
      (construct p guest' build' g c ro) := by
  unfold construct
  refine Act.agree_bind (agree_runtime id) fun rt => ?_
  refine Act.agree_bind (agree_record _) fun _ => ?_
  refine Act.agree_bind (agree_change_runtime fun rt =>
    { rt with building := g :: rt.building }) fun _ => ?_
  have hname : Act.Agree Machine.Alike (nameOf p guest build g ro)
      (nameOf p guest' build' g ro) := by
    unfold nameOf
    split
    · exact Act.agree_pure _
    · exact agree_askName ht hbuild g
  refine Act.agree_bind hname fun name => ?_
  have hsuper : Act.Agree Machine.Alike (superOf build c) (superOf build' c) := by
    unfold superOf
    split
    · exact Act.agree_pure _
    · exact agree_xlClassFromGuest hbuild _
  refine Act.agree_bind hsuper fun hostSuper => ?_
  have hrealize : Act.Agree Machine.Alike (realizeSuper p guest build hostSuper)
      (realizeSuper p guest' build' hostSuper) := by
    unfold realizeSuper
    split
    · exact Act.agree_pure _
    · refine Act.agree_bind (agree_initializeClass ht hbuild _) fun _ => ?_
      exact agree_answerClass ht hbuild _
  refine Act.agree_bind hrealize fun _ => ?_
  unfold makePair
  refine Act.agree_bind (agree_runtime id) fun rt => ?_
  split
  · exact Act.agree_bind (agree_record _) fun _ => Act.agree_stop
  · -- the pair is made of what the tables hold
    refine Act.agree_bind (Act.agree_change fun m m' h => ⟨?_, h.2⟩) fun _ =>
      Act.agree_bind (agree_record _) fun _ => Act.agree_pure _
    show (registerShadow p g c ro name hostSuper m).runtime
      = (registerShadow p g c ro name hostSuper m').runtime
    simp only [registerShadow, h.1]

/-- By induction on how deep the builds are nested. -/
theorem agree_xlBuildShadow (ht : guest.Twin guest') (fuel : Nat) (g : Address) :
    Act.Agree Machine.Alike (xlBuildShadow p guest fuel g) (xlBuildShadow p guest' fuel g) := by
  induction fuel generalizing g with
  | zero => exact Act.agree_bind (agree_record _) fun _ => Act.agree_stop
  | succ fuel ih =>
      show Act.Agree _ (buildStep p guest _ g) (buildStep p guest' _ g)
      unfold buildStep
      refine Act.agree_bind (agree_runtime id) fun rt => ?_
      cases rt.guestToHost g with
      | some shadow => exact Act.agree_bind (agree_record _) fun _ => Act.agree_pure _
      | none =>
          cases (p.classAt g).ro with
          | none => exact agree_abort _
          | some ro =>
              show Act.Agree _ (if ro.isMeta then _ else _) (if ro.isMeta then _ else _)
              split
              · exact agree_abort _
              · exact agree_construct ht ih g _ ro

/-- No register is read for a bridge: the implementation, the encoding and the selector's name
decide. -/
theorem agree_bridgeFor (lookup : Address) (selector : UInt64) (imp : Option Imp)
    (superClass : Address) :
    Act.Agree Machine.Alike (bridgeFor b lookup selector imp superClass)
      (bridgeFor b lookup selector imp superClass) := by
  unfold bridgeFor
  refine Act.agree_bind (agree_runtime id) fun rt => ?_
  cases hc : imp.bind rt.variantCache with
  | some cached =>
      dsimp only
      exact Act.agree_pure _
  | none =>
      dsimp only
      split
      -- the variant goes into the cache of both
      · refine Act.agree_bind (Act.agree_change fun m m' h => ⟨?_, h.2⟩) fun _ => Act.agree_pure _
        simp only [h.1]
      split
      · exact Act.agree_pure _
      · refine Act.agree_bind (Act.agree_change fun m m' h => ⟨?_, h.2⟩) fun _ => Act.agree_pure _
        simp only [h.1]

theorem agree_xlRoute (ht : guest.Twin guest')
    (hbuild : ∀ g, Act.Agree Machine.Alike (build g) (build' g)) (lookup : Address)
    (selector : UInt64) (superClass : Address) :
    Act.Agree Machine.Alike (xlRoute p b guest build lookup selector superClass)
      (xlRoute p b guest' build' lookup selector superClass) := by
  unfold xlRoute
  refine Act.agree_save fun m m' h => ?_
  rw [← h.1]
  split
  · exact Act.agree_pure _
  · have himp : Act.Agree Machine.Alike (methodImplementation p b guest build lookup selector)
        (methodImplementation p b guest' build' lookup selector) := by
      unfold methodImplementation
      split
      · exact Act.agree_pure _
      · refine Act.agree_bind (agree_initializeClass ht hbuild lookup) fun _ => ?_
        exact Act.agree_bind (agree_runtime ShadowRuntime.host) fun _ => Act.agree_pure _
    refine Act.agree_bind himp fun imp => ?_
    -- both put back the registers from before the lookup
    refine Act.agree_bind (Act.agree_change fun _ _ h1 => ⟨h1.1, h.2⟩) fun _ => ?_
    refine Act.agree_bind (agree_record _) fun _ => ?_
    refine Act.agree_bind (agree_runtime id) fun rt => ?_
    split
    · exact Act.agree_pure _
    · exact agree_bridgeFor lookup selector imp superClass

theorem agree_follow {missing : Act Machine MessageOutcome}
    (hm : Act.Agree Machine.Alike missing missing) (r : Route) :
    Act.Agree Machine.Alike (follow missing r) (follow missing r) := by
  cases r with
  | noBridge => exact hm
  | zero =>
      refine Act.agree_bind (Act.agree_change fun m m' h => ⟨h.1, ?_⟩) fun _ => Act.agree_pure _
      show m.state.zeroResult.x = m'.state.zeroResult.x
      simp only [State.zeroResult, h.2]
  | address target =>
      -- only `PC` changes, which twins need not agree in
      exact Act.agree_bind (Act.agree_change fun _ _ h => h) fun _ => Act.agree_pure _

/-- **Routing does not read what twins leave differently.** -/
theorem agree_send (ht : guest.Twin guest') (fuel : Nat) (kind : Send) :
    Act.Agree Machine.Alike (send p b guest fuel kind) (send p b guest' fuel kind) := by
  have hbuild := agree_xlBuildShadow (p := p) ht fuel
  cases kind with
  | message =>
      show Act.Agree _ (xlObjcMsgSend p b guest _) (xlObjcMsgSend p b guest' _)
      unfold xlObjcMsgSend
      refine Act.agree_bind (agree_register 0) fun self => ?_
      split
      · exact agree_follow Act.agree_stop .zero
      split
      · exact Act.agree_pure _
      split
      · exact Act.agree_stop
      · rename_i receiver _
        refine Act.agree_bind (agree_register 1) fun selector => ?_
        -- the trace may have guest code answer it
        have htrace : Act.Agree Machine.Alike
            (traceMessage p b guest (xlBuildShadow p guest fuel) receiver)
            (traceMessage p b guest' (xlBuildShadow p guest' fuel) receiver) := by
          unfold traceMessage
          refine Act.agree_bind (agree_runtime id) fun rt => ?_
          split
          · exact agree_runGuest ht hbuild _
          · exact Act.agree_pure _
        refine Act.agree_bind htrace fun _ => ?_
        refine Act.agree_bind (agree_xlClassFromGuest hbuild _) fun cls => ?_
        unfold dispatch
        refine Act.agree_bind (agree_runtime ShadowRuntime.host) fun host => ?_
        split
        · exact agree_follow Act.agree_stop .zero
        split
        · exact Act.agree_pure _
        · refine Act.agree_bind (agree_xlRoute ht hbuild _ _ _) fun route => ?_
          exact agree_follow (Act.agree_pure _) route
  | superMessage =>
      show Act.Agree _ (xlObjcMsgSendSuper2 p b guest _) (xlObjcMsgSendSuper2 p b guest' _)
      unfold xlObjcMsgSendSuper2
      refine Act.agree_bind (agree_register 0) fun self => ?_
      split
      · exact Act.agree_stop
      · rename_i guestSuper _
        refine Act.agree_bind (agree_xlClassFromGuest hbuild _) fun current => ?_
        unfold dispatchSuper
        -- the selector is read behind the lookup here, from what guest code has left
        refine Act.agree_bind (agree_register 1) fun selector => ?_
        refine Act.agree_bind (Act.agree_change fun m m' h => ⟨h.1, ?_⟩) fun _ => ?_
        · show Function.update m.state.x 0 _ = Function.update m'.state.x 0 _
          rw [h.2]
        refine Act.agree_bind (agree_runtime ShadowRuntime.host) fun host => ?_
        refine Act.agree_bind (agree_xlRoute ht hbuild _ _ _) fun route => ?_
        exact agree_follow Act.agree_stop route

end

end Katabasis
