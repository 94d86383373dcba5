import Katabasis.Runtime.QuietLookup
import Katabasis.Runtime.Twins

set_option autoImplicit false

/-! # Messages get through when no guest code runs in between

A message that lifted code answers is delivered (`Delivered`), whatever guest code leaves in the
registers, exactly when finding the receiver's class runs none (`Undisturbed`). `xl_route` puts
the registers back behind its own lookup; nothing does so behind the lookup of the class.
-/

namespace Katabasis

/-! ## From the class to the tail jump -/

/-- Where lifted code is entered, it is on the registers `s` but for `PC`, and the selector was
the last thing looked up. -/
def Enters (s : State) (selector : UInt64) (out : MessageOutcome) (m : Machine) : Prop :=
  ∀ target, out = .tail target → m.state = { s with pc := target } ∧
    ∃ lookup, m.runtime.trace.head? = some (.routed lookup selector)

section

variable {p : Process} {b : Messaging} {guest : GuestCode} {T : State → Prop}
  {build : Address → Act Machine Address}

theorem enters_of_ne {s : State} {selector : UInt64} {out : MessageOutcome} {m : Machine}
    (h : ∀ target, out ≠ .tail target) : Enters s selector out m :=
  fun target htail => absurd htail (h target)

theorem bridgeFor_keeps (P : State → List ShadowEvent → Prop) (lookup : Address)
    (selector : UInt64) (imp : Option Imp) (superClass : Address) :
    Act.Ensures (fun m => P m.state m.runtime.trace)
      (bridgeFor b lookup selector imp superClass)
      (fun _ m => P m.state m.runtime.trace) Always := by
  unfold bridgeFor
  refine Act.ensures_read_then fun rt => ?_
  dsimp only
  split
  · exact Act.ensures_pure fun _ h => h
  split
  · exact Act.ensures_bind (Act.ensures_change (Q := fun _ m => P m.state m.runtime.trace)
      fun _ h => h) fun _ => Act.ensures_pure fun _ h => h
  split
  · exact Act.ensures_pure fun _ h => h
  · exact Act.ensures_bind (Act.ensures_change (Q := fun _ m => P m.state m.runtime.trace)
      fun _ h => h) fun _ => Act.ensures_pure fun _ h => h

/-- **`xl_route` puts the registers back**, and looks up the selector it is given. -/
theorem xlRoute_restores (m : Machine) (lookup : Address) (selector : UInt64)
    (superClass : Address) :
    Act.Ensures (fun m' => m' = m) (xlRoute p b guest build lookup selector superClass)
      (fun route m' => m'.state = m.state ∧ ∀ target, route = .address target →
        m'.runtime.trace.head? = some (.routed lookup selector)) Always := by
  unfold xlRoute
  refine Act.ensures_read_at ?_
  split
  · refine Act.ensures_pure fun m' h => ⟨by rw [h], fun target htarget => ?_⟩
    cases htarget
  · refine Act.ensures_bind Act.ensures_true fun imp => ?_
    refine Act.ensures_bind (Act.ensures_change (Q := fun _ m' => m'.state = m.state)
      fun _ _ => rfl) fun _ => ?_
    refine Act.ensures_bind (Act.ensures_change (Q := fun _ m' => m'.state = m.state ∧
      m'.runtime.trace.head? = some (.routed lookup selector)) fun _ h => ⟨h, rfl⟩) fun _ => ?_
    refine Act.ensures_read_then fun rt => ?_
    split
    · exact Act.ensures_pure fun m' h => ⟨h.1, fun _ _ => h.2⟩
    · refine Act.ensures_mono (bridgeFor_keeps (fun s trace => s = m.state ∧
        trace.head? = some (.routed lookup selector)) lookup selector imp superClass)
        (fun _ h => h) fun _ _ h => ⟨h.1, fun _ _ => h.2⟩

theorem follow_enters {missing : Act Machine MessageOutcome} (s : State) {lookup : Address}
    (selector : UInt64) (route : Route)
    (hmissing : ∀ P, Act.Ensures P missing (fun out _ => ∀ target, out ≠ .tail target) Always) :
    Act.Ensures (fun m => m.state = s ∧ ∀ target, route = .address target →
        m.runtime.trace.head? = some (.routed lookup selector))
      (follow missing route) (Enters s selector) Always := by
  cases route with
  | noBridge =>
      exact Act.ensures_mono (hmissing _) (fun _ h => h) fun _ _ h => enters_of_ne h
  | zero =>
      refine Act.ensures_bind Act.ensures_true fun _ => ?_
      exact Act.ensures_pure fun _ _ => enters_of_ne fun _ => nofun
  | address target =>
      refine Act.ensures_bind (Act.ensures_change (Q := fun _ m =>
        m.state = { s with pc := target } ∧
        m.runtime.trace.head? = some (.routed lookup selector))
        fun m h => ⟨by rw [← h.1], h.2 target rfl⟩) fun _ => ?_
      refine Act.ensures_pure fun m h target' htarget => ?_
      cases htarget
      exact ⟨h.1, lookup, h.2⟩

theorem dispatch_enters (m : Machine) (cls : Address) (selector : UInt64) :
    Act.Ensures (fun m' => m' = m) (dispatch p b guest build cls selector)
      (Enters m.state selector) Always := by
  unfold dispatch
  refine Act.ensures_read_then fun host => ?_
  split
  · refine Act.ensures_bind Act.ensures_true fun _ => ?_
    exact Act.ensures_pure fun _ _ => enters_of_ne fun _ => nofun
  split
  · exact Act.ensures_pure fun _ _ => enters_of_ne fun _ => nofun
  · refine Act.ensures_bind (xlRoute_restores m cls selector 0) fun route => ?_
    exact follow_enters m.state selector route fun P =>
      Act.ensures_pure fun _ _ _ => nofun

theorem dispatchSuper_enters (m : Machine) (receiver current : Address) :
    Act.Ensures (fun m' => m' = m) (dispatchSuper p b guest build receiver current)
      (Enters { m.state with x := Function.update m.state.x 0 (UInt64.ofNat receiver) }
        (m.state.x 1)) Always := by
  unfold dispatchSuper
  refine Act.ensures_read_at ?_
  refine Act.ensures_bind (Act.ensures_change (Q := fun _ m' => m' =
    { m with
      state := { m.state with x := Function.update m.state.x 0 (UInt64.ofNat receiver) } })
    fun m' h => by rw [h]) fun _ => ?_
  refine Act.ensures_read_then fun host => ?_
  refine Act.ensures_bind (xlRoute_restores _ _ _ _) fun route => ?_
  exact follow_enters _ _ route fun P => Act.ensures_stop fun _ _ => trivial

end

/-! ## Delivery -/

/-- **The condition.** Nothing asks guest code about the receiver, and the lookup of the class
runs none: the receiver's class, for a super message the class it is sent from. -/
def Undisturbed (p : Process) (b : Messaging) (kind : Send) (m : Machine) : Prop :=
  match kind with
  | .message => ∃ receiver, narrowed (m.state.x 0) = some receiver ∧
      b.traces m.runtime receiver = false ∧ QuietLook p m.runtime (b.isaOf receiver)
  | .superMessage => ∃ guestSuper, narrowed (m.state.x 0) = some guestSuper ∧
      QuietLook p m.runtime (b.superAt guestSuper).2

/-- The same guest code, but for the registers it leaves. -/
def GuestCode.leaving (guest : GuestCode) (returns : Occasion → Machine → State) : GuestCode :=
  { guest with returns }

/-- It keeps all registers. -/
def GuestCode.keeping (guest : GuestCode) : GuestCode := guest.leaving fun _ m => m.state

/-- It keeps them but for `V0`. -/
def GuestCode.spoiling (guest : GuestCode) (c : BitVec 128) : GuestCode :=
  guest.leaving fun _ m => { m.state with v := Function.update m.state.v 0 c }

theorem GuestCode.twin_spoiling (guest : GuestCode) (c : BitVec 128) :
    guest.keeping.Twin (guest.spoiling c) := ⟨rfl, rfl, fun _ _ _ h => h.2⟩

section

variable {p : Process} {b : Messaging} {guest : GuestCode} {T : State → Prop}

/-- The outcome of a message: undisturbed and as it was sent, or what guest code left. -/
def Arrives (p : Process) (b : Messaging) (T : State → Prop) (kind : Send) (m : Machine)
    (out : MessageOutcome) (m' : Machine) : Prop :=
  ∀ target, out = .tail target →
    (Undisturbed p b kind m ∧ m.state.SameArguments m'.state ∧
      ∃ lookup, m'.runtime.trace.head? = some (.routed lookup (m.state.x 1))) ∨
    (¬ Undisturbed p b kind m ∧ T m'.state)

theorem Machine.fresh_self (m : Machine) : m.Fresh m := ⟨rfl, rfl, rfl, rfl, rfl⟩

/-- From the lookup's answer on. -/
theorem lookAnswer_or {m0 m : Machine} {g cls : Address} (h : LookAnswer p T m0 g cls m) :
    (QuietLook p m0.runtime g ∧ m.state = m0.state) ∨
      (¬ QuietLook p m0.runtime g ∧ T m.state) := by
  rcases h with ⟨hq, hstate⟩ | h
  · exact .inl ⟨⟨_, hq⟩, hstate⟩
  · exact .inr h

theorem xlObjcMsgSend_arrives (hinj : Function.Injective p.heap) (hne : ∀ n, p.heap n ≠ 0)
    (hT : guest.Leaves T) (hpc : ∀ s pc, T s → T { s with pc }) (fuel : Nat) (m : Machine) :
    Act.Ensures (fun m' => m' = m) (xlObjcMsgSend p b guest (xlBuildShadow p guest fuel))
      (Arrives p b T .message m) Always := by
  have hfresh : ∀ g, Act.Ensures m.Fresh (xlBuildShadow p guest fuel g) _ _ :=
    xlBuildShadow_answers hinj hne hT fuel
  unfold xlObjcMsgSend
  refine Act.ensures_read_at ?_
  split
  · refine Act.ensures_bind Act.ensures_true fun _ => ?_
    exact Act.ensures_pure fun _ _ => fun _ => nofun
  split
  · exact Act.ensures_pure fun _ _ => fun _ => nofun
  split
  · exact Act.ensures_stop fun _ _ => trivial
  rename_i receiver hreceiver
  refine Act.ensures_read_at ?_
  -- the trace, then the lookup
  refine Act.ensures_bind (Q := fun _ m' =>
    (b.traces m.runtime receiver = false ∧ m.Fresh m') ∨
    (b.traces m.runtime receiver = true ∧ T m'.state)) ?_ fun _ => ?_
  · unfold traceMessage
    refine Act.ensures_read_at ?_
    cases htraces : b.traces m.runtime receiver with
    | true =>
        exact Act.ensures_mono (runGuest_leaves hT _ _) (fun _ h => h)
          fun _ _ h => .inr ⟨rfl, h⟩
    | false => exact Act.ensures_pure fun m' h => .inl ⟨rfl, h ▸ m.fresh_self⟩
  refine Act.ensures_bind (Q := fun _ m' =>
    (Undisturbed p b .message m ∧ m'.state = m.state) ∨
    (¬ Undisturbed p b .message m ∧ T m'.state)) ?_ fun cls => ?_
  · refine Act.ensures_start fun m1 hm1 => ?_
    rcases hm1 with ⟨htraces, hm1⟩ | ⟨htraces, hleft⟩
    · refine Act.ensures_mono (xlClassFromGuest_answers hfresh _)
        (fun m' h => by rw [h]; exact hm1) fun cls m' h => ?_
      rcases lookAnswer_or h with ⟨hq, hstate⟩ | ⟨hq, hleft⟩
      · exact .inl ⟨⟨receiver, hreceiver, htraces, hq⟩, hstate⟩
      · refine .inr ⟨?_, hleft⟩
        rintro ⟨receiver', hr, -, hquiet⟩
        rw [hreceiver] at hr
        cases hr
        exact hq hquiet
    · refine Act.ensures_mono (xlClassFromGuest_left (xlBuildShadow_left hT fuel) _)
        (fun m' h => by rw [h]; exact hleft) fun cls m' h => .inr ⟨?_, h⟩
      rintro ⟨receiver', hr, hno, -⟩
      rw [hreceiver] at hr
      cases hr
      rw [htraces] at hno
      cases hno
  refine Act.ensures_start fun m2 hm2 => ?_
  refine Act.ensures_mono (dispatch_enters m2 cls (m.state.x 1)) (fun _ h => h)
    fun out m' h target htarget => ?_
  obtain ⟨hstate, hlookup⟩ := h target htarget
  rcases hm2 with ⟨hu, hsame⟩ | ⟨hu, hleft⟩
  · refine .inl ⟨hu, ?_, hlookup⟩
    rw [hstate, hsame]
    exact ⟨fun _ _ _ => rfl, fun _ _ => rfl⟩
  · refine .inr ⟨hu, ?_⟩
    rw [hstate]
    exact hpc _ _ hleft

theorem xlObjcMsgSendSuper2_arrives (hinj : Function.Injective p.heap)
    (hne : ∀ n, p.heap n ≠ 0) (hT : guest.Leaves T)
    (hx : ∀ s x pc, T s → T { s with x, pc }) (fuel : Nat) (m : Machine) :
    Act.Ensures (fun m' => m' = m) (xlObjcMsgSendSuper2 p b guest (xlBuildShadow p guest fuel))
      (Arrives p b T .superMessage m) Always := by
  have hfresh : ∀ g, Act.Ensures m.Fresh (xlBuildShadow p guest fuel g) _ _ :=
    xlBuildShadow_answers hinj hne hT fuel
  unfold xlObjcMsgSendSuper2
  refine Act.ensures_read_at ?_
  split
  · exact Act.ensures_stop fun _ _ => trivial
  rename_i guestSuper hsuper
  refine Act.ensures_bind (Act.ensures_mono (xlClassFromGuest_answers hfresh _)
    (fun m' h => by rw [h]; exact m.fresh_self) fun _ _ h => lookAnswer_or h)
    fun current => ?_
  refine Act.ensures_start fun m2 hm2 => ?_
  refine Act.ensures_mono (dispatchSuper_enters m2 _ current) (fun _ h => h)
    fun out m' h target htarget => ?_
  obtain ⟨hstate, hlookup⟩ := h target htarget
  rcases hm2 with ⟨hq, hsame⟩ | ⟨hq, hleft⟩
  · refine .inl ⟨⟨guestSuper, hsuper, hq⟩, ?_, by rwa [hsame] at hlookup⟩
    rw [hstate, hsame]
    refine ⟨fun i h1 _ => ?_, fun _ _ => rfl⟩
    exact Function.update_of_ne (fun h => by rw [h] at h1; exact absurd h1 (by decide)) _ _
  · refine .inr ⟨?_, ?_⟩
    · rintro ⟨guestSuper', hr, hquiet⟩
      rw [hsuper] at hr
      cases hr
      exact hq hquiet
    · rw [hstate]
      exact hx m2.state _ _ hleft

theorem send_arrives (hinj : Function.Injective p.heap) (hne : ∀ n, p.heap n ≠ 0)
    (hT : guest.Leaves T) (hx : ∀ s x pc, T s → T { s with x, pc }) (fuel : Nat) (kind : Send)
    {m m' : Machine} {target : UInt64}
    (h : send p b guest fuel kind m = (some (.tail target), m')) :
    (Undisturbed p b kind m ∧ m.state.SameArguments m'.state ∧
      ∃ lookup, m'.runtime.trace.head? = some (.routed lookup (m.state.x 1))) ∨
    (¬ Undisturbed p b kind m ∧ T m'.state) := by
  cases kind with
  | message =>
      have harrives := xlObjcMsgSend_arrives (b := b) hinj hne hT
        (fun s pc hs => hx s s.x pc hs) fuel m m rfl
      rw [show xlObjcMsgSend p b guest (xlBuildShadow p guest fuel) m = _ from h] at harrives
      exact harrives target rfl
  | superMessage =>
      have harrives := xlObjcMsgSendSuper2_arrives (b := b) hinj hne hT hx fuel m m rfl
      rw [show xlObjcMsgSendSuper2 p b guest (xlBuildShadow p guest fuel) m = _ from h]
        at harrives
      exact harrives target rfl

/-- **When a message arrives as it was sent.** A message that goes to lifted code is delivered
whatever the guest code that runs on the way leaves in the registers, exactly if none runs
before the lookup of the method: `Undisturbed`. -/
theorem delivered_iff (hinj : Function.Injective p.heap) (hne : ∀ n, p.heap n ≠ 0) (fuel : Nat)
    (kind : Send) (m : Machine)
    (hroute : ∃ target m', send p b guest.keeping fuel kind m = (some (.tail target), m')) :
    (∀ returns, Delivered p b (guest.leaving returns) fuel kind m) ↔ Undisturbed p b kind m := by
  constructor
  · intro hdelivered
    obtain ⟨target, m1, hsend⟩ := hroute
    -- the twin that leaves another `V0`
    have hagree := agree_send (p := p) (b := b) (guest.twin_spoiling (~~~ m.state.v 0)) fuel kind
      m m ⟨rfl, rfl⟩
    rw [hsend] at hagree
    have hspoiled : send p b (guest.spoiling (~~~ m.state.v 0)) fuel kind m
        = (some (.tail target), (send p b (guest.spoiling (~~~ m.state.v 0)) fuel kind m).2) :=
      Prod.ext hagree.1.symm rfl
    have hleaves : (guest.spoiling (~~~ m.state.v 0)).Leaves fun s => s.v 0 = ~~~ m.state.v 0 :=
      ⟨fun _ _ => by simp [GuestCode.spoiling, GuestCode.leaving], fun _ _ h => h⟩
    rcases send_arrives hinj hne hleaves (fun _ _ _ h => h) fuel kind hspoiled with h | h
    · exact h.1
    · have hsame := (hdelivered _ target _ hspoiled).1.2 0 (by decide)
      rw [h.2] at hsame
      exact absurd hsame (by simp)
  · intro hundisturbed returns target m' hsend
    have hleaves : (guest.leaving returns).Leaves fun _ => True :=
      ⟨fun _ _ => trivial, fun _ _ _ => trivial⟩
    rcases send_arrives hinj hne hleaves (fun _ _ _ _ => trivial) fuel kind hsend with h | h
    · exact h.2
    · exact absurd hundisturbed h.1

end

/-! ### A first message -/

/-- A static class with the method `run` below a class in the host's layout, whose `+initialize`
is guest code. -/
def runnerClass : Address → GuestClass
  | 1 => { isa := 2, superclass := 3, ro := some ⟨false, 16, some "Runner", [⟨"run", "v", 4096⟩]⟩ }
  | 2 => { ro := some ⟨true, 40, some "Runner", []⟩ }
  | _ => {}

def runnerProcess : Process where
  classAt := runnerClass
  staticClasses := [1]
  heap n := 100 + n

/-- The host's classes; `initialized` tells whether `Root` has been sent `+initialize`. What
answers `class` is the host's. -/
def runnerHost (initialized : Bool) : HostRuntime where
  classAt _ :=
    { name := "Root", classMethods := [("class", .native 7)], guestInitialize := true, initialized }
  named name := if name = "Root" then some 3 else none

/-- Every object is a `Runner`, and every selector is `run`. -/
def runnerMessaging : Messaging where
  selName _ := "run"
  isaOf _ := 1
  superAt _ := (0, 1)

/-- Guest code that returns a number in `V0`. -/
def returningOne : GuestCode where
  requests _ _ := []
  name _ _ := none
  returns _ m := { m.state with v := Function.update m.state.v 0 1 }

/-- The object at 8 is sent the selector at 16. -/
def runnerMachine (initialized : Bool) : Machine where
  state := ⟨fun i => if i = 0 then 8 else if i = 1 then 16 else 0, 0, 0, fun _ => 0⟩
  runtime := runnerProcess.xlShadowSetup (runnerHost initialized)

theorem runnerProcess_heap : Function.Injective runnerProcess.heap :=
  fun _ _ h => Nat.add_left_cancel h

theorem runnerProcess_heap_ne (n : Nat) : runnerProcess.heap n ≠ 0 := by
  show 100 + n ≠ 0
  omega

/-- Below an initialized class the shadow is built without guest code. -/
theorem undisturbed_runner :
    Undisturbed runnerProcess runnerMessaging .message (runnerMachine true) := by
  refine ⟨8, rfl, rfl, _, .own rfl rfl rfl (.child rfl ⟨_, _, rfl, rfl⟩ ?_
    (.host rfl rfl rfl) fun sight h => ?_)⟩
  · exact Nat.succ_ne_zero 2
  · cases h
    exact ⟨rfl, rfl⟩

/-- So the first message to it goes to the method, and as it was sent, whatever registers guest
code would leave. -/
theorem delivered_iff_runner :
    (∃ m', send runnerProcess runnerMessaging returningOne.keeping 2 .message (runnerMachine true) =
      (some (.tail 4096), m')) ∧
    ∀ returns, Delivered runnerProcess runnerMessaging (returningOne.leaving returns) 2 .message
      (runnerMachine true) :=
  ⟨⟨_, rfl⟩,
    (delivered_iff runnerProcess_heap runnerProcess_heap_ne 2 .message (runnerMachine true)
      ⟨4096, _, rfl⟩).mpr undisturbed_runner⟩

/-- **The first message to a class may reach the method with other arguments**: `+initialize` of
the superclass runs while the class is looked up, and nothing puts `V0` back. -/
theorem not_delivered_first :
    ¬ ∀ (p : Process) (b : Messaging) (guest : GuestCode) (fuel : Nat) (kind : Send)
      (m : Machine), Function.Injective p.heap → (∀ n, p.heap n ≠ 0) →
      Delivered p b guest fuel kind m := by
  intro h
  have hdelivered := h runnerProcess runnerMessaging returningOne 2 .message
    (runnerMachine false) runnerProcess_heap runnerProcess_heap_ne
  have hsame := (hdelivered 4096 _ rfl).1.2 0 (Nat.zero_le 7)
  have hv : (0 : BitVec 128) ≠ 1 := by decide
  exact hv hsame.symm

end Katabasis
