import Katabasis.Runtime.Message

set_option autoImplicit false

/-! # Lookups that run no guest code

The lookup of a class runs guest code unless it is `Quiet`: the class is a host class or has its
shadow, or its shadow is built from a name in the `class_ro_t`, below a class that has been
initialized or has no `+initialize` of the guest's, and whose `class` is code of the host's own.
`xlBuildShadow_answers` and
`xlClassFromGuest_answers` say that the code answers quietly and with the registers as they
were, or that guest code has run and had to.
-/

namespace Katabasis

/-! ## Quiet lookups and builds -/

/-- What the message `class` to a class would do. -/
structure Sight where
  /-- It sends a guest `+initialize`. -/
  starts : Bool
  /-- A class made below this one inherits a guest `+initialize`. -/
  inherits : Bool
  /-- Code of the host's own answers. -/
  answers : Bool
  /-- Code of the host's own answers the message to the metaclass. -/
  rootAnswers : Bool

/-- The same, or there is no class to send it to. -/
abbrev Seen := Option Sight

/-- The implementation is the host's own code. -/
def HostRuntime.ownCode (host : HostRuntime) : Imp → Bool
  | .native imp => host.body imp == .host
  | _ => false

def HostRuntime.seen (host : HostRuntime) (cls : Address) : Seen :=
  if cls = 0 then none
  else some
    { starts := host.startsGuestCode cls
      inherits := (host.classAt cls).guestInitialize
      answers := host.ownCode (host.classMethod cls "class")
      rootAnswers := host.ownCode (HostRuntime.find (host.classAt cls).rootMethods "class") }

/-- What is asked of the tables: `xl_class_from_guest` or `xl_build_shadow`. -/
inductive Ask
  | look (guest : Address)
  | build (guest : Address)

/-- The class has a class method of its own under the selector. -/
def Process.ownMethod (p : Process) (g : Address) (selector : String) : Bool :=
  let metaRo := if (p.classAt g).isa = 0 then none else (p.classAt (p.classAt g).isa).ro
  ((metaRo.map GuestRo.baseMethods).getD []).any (·.selector == selector)

namespace Seen

/-- A message runs no guest code. -/
def Silent (super : Seen) : Prop := ∀ sight ∈ super, sight.starts = false ∧ sight.answers = true

/-- How the shadow of `g` below this class is seen. -/
def shadow (p : Process) (g : Address) (super : Seen) : Seen :=
  let initializes := p.ownMethod g "initialize" || super.any Sight.inherits
  some
    { starts := initializes
      inherits := initializes
      answers := !p.ownMethod g "class" && super.any Sight.answers
      rootAnswers := super.any Sight.rootAnswers }

/-- How the shadow's metaclass is. -/
def metaclass (super : Seen) : Seen :=
  some ⟨false, false, super.any Sight.rootAnswers, super.any Sight.rootAnswers⟩

end Seen

/-- The class has its name in the `class_ro_t`. -/
def Process.Named (p : Process) (g : Address) : Prop :=
  ∃ ro name, (p.classAt g).ro = some ro ∧ ro.name = some name

/-- A lookup or a build runs no guest code, and what it answers with is seen as the first
component; the second is how the answer's metaclass is seen, for a build. -/
inductive Quiet (p : Process) (rt : ShadowRuntime) : Ask → Seen → Seen → Prop
  | inactive {g : Address} (ha : rt.active = false) :
      Quiet p rt (.look g) (rt.host.seen g) none
  | found {g shadow : Address} (ha : rt.active = true) (h : rt.guestToHost g = some shadow) :
      Quiet p rt (.look g) (rt.host.seen shadow) none
  | host {g : Address} (ha : rt.active = true) (h : rt.guestToHost g = none)
      (hu : rt.unbuiltStatic g = none) : Quiet p rt (.look g) (rt.host.seen g) none
  | own {g : Address} {cls metaSeen : Seen} (ha : rt.active = true)
      (h : rt.guestToHost g = none) (hu : rt.unbuiltStatic g = some g)
      (hb : Quiet p rt (.build g) cls metaSeen) : Quiet p rt (.look g) cls none
  | metaclass {g owner : Address} {cls metaSeen : Seen} (ha : rt.active = true)
      (h : rt.guestToHost g = none) (hu : rt.unbuiltStatic g = some owner) (hne : owner ≠ g)
      (hb : Quiet p rt (.build owner) cls metaSeen) : Quiet p rt (.look g) metaSeen none
  | made {g shadow : Address} (h : rt.guestToHost g = some shadow) :
      Quiet p rt (.build g) (rt.host.seen shadow)
        (rt.host.seen (rt.host.classAt shadow).metaclass)
  | root {g : Address} (h : rt.guestToHost g = none) (hn : p.Named g)
      (hs : (p.classAt g).superclass = 0) :
      Quiet p rt (.build g) (Seen.shadow p g none) (Seen.metaclass none)
  | child {g : Address} {super : Seen} (h : rt.guestToHost g = none) (hn : p.Named g)
      (hs : (p.classAt g).superclass ≠ 0)
      (hq : Quiet p rt (.look (p.classAt g).superclass) super none) (hsilent : super.Silent) :
      Quiet p rt (.build g) (super.shadow p g) super.metaclass

/-- The lookup of a class runs no guest code. -/
def QuietLook (p : Process) (rt : ShadowRuntime) (g : Address) : Prop :=
  ∃ cls, Quiet p rt (.look g) cls none

section

variable {p : Process} {rt : ShadowRuntime}

/-- The tables decide what is seen. -/
theorem Quiet.unique {ask : Ask} {cls cls' metaSeen metaSeen' : Seen}
    (h : Quiet p rt ask cls metaSeen) (h' : Quiet p rt ask cls' metaSeen') :
    cls = cls' ∧ metaSeen = metaSeen' := by
  induction h generalizing cls' metaSeen' with
  | inactive ha => cases h' <;> simp_all
  | found ha h => cases h' <;> simp_all
  | host ha h hu => cases h' <;> simp_all
  | own ha h hu hb ih =>
      cases h' with
      | own _ _ _ hb' => exact ⟨(ih hb').1, rfl⟩
      | _ => simp_all
  | metaclass ha h hu hne hb ih =>
      cases h' with
      | metaclass _ _ hu' _ hb' =>
          rw [hu] at hu'
          cases hu'
          exact ⟨(ih hb').2, rfl⟩
      | _ => simp_all
  | made h => cases h' <;> simp_all
  | root h hn hs => cases h' <;> simp_all
  | child h hn hs hq hsilent ih =>
      cases h' with
      | child _ _ _ hq' _ =>
          rw [(ih hq').1]
          exact ⟨rfl, rfl⟩
      | _ => simp_all

/-- Only the tables and the host's classes matter. -/
theorem Quiet.of_same {rt' : ShadowRuntime} (ha : rt'.active = rt.active)
    (hg : rt'.guestToHost = rt.guestToHost) (hu : rt'.unbuiltStatic = rt.unbuiltStatic)
    (hh : rt'.host = rt.host) {ask : Ask} {cls metaSeen : Seen}
    (h : Quiet p rt ask cls metaSeen) : Quiet p rt' ask cls metaSeen := by
  induction h with
  | inactive h => rw [← hh]; exact .inactive (ha.trans h)
  | found h1 h2 => rw [← hh]; exact .found (ha.trans h1) (by rw [hg]; exact h2)
  | host h1 h2 h3 =>
      rw [← hh]
      exact .host (ha.trans h1) (by rw [hg]; exact h2) (by rw [hu]; exact h3)
  | own h1 h2 h3 _ ih =>
      exact .own (ha.trans h1) (by rw [hg]; exact h2) (by rw [hu]; exact h3) ih
  | metaclass h1 h2 h3 hne _ ih =>
      exact .metaclass (ha.trans h1) (by rw [hg]; exact h2) (by rw [hu]; exact h3) hne ih
  | made h => rw [← hh]; exact .made (by rw [hg]; exact h)
  | root h hn hs => exact .root (by rw [hg]; exact h) hn hs
  | child h hn hs _ hsilent ih => exact .child (by rw [hg]; exact h) hn hs ih hsilent

end

/-! ## What guest code leaves stays -/

/-- What guest code leaves is `T`, also behind `xl_invoke_n`. -/
structure GuestCode.Leaves (guest : GuestCode) (T : State → Prop) : Prop where
  returns : ∀ o m, T (guest.returns o m)
  behind : ∀ before after, T after → T (State.leave before after)

/-- Where the process stops nothing is said. -/
abbrev Always (_ : Machine) : Prop := True

section

variable {p : Process} {guest : GuestCode} {T : State → Prop}
  {build : Address → Act Machine Address}

/-- The registers are as guest code leaves them. -/
abbrev Left (T : State → Prop) (m : Machine) : Prop := T m.state

/-- The registers are set last, whatever the requests have done. -/
theorem runGuest_leaves (hT : guest.Leaves T) (P : Machine → Prop) (occasion : Occasion) :
    Act.Ensures P (runGuest p guest build occasion) (fun _ => Left T) Always := by
  refine Act.ensures_bind Act.ensures_true fun _ => ?_
  refine Act.ensures_bind Act.ensures_true fun rt => ?_
  refine Act.ensures_bind Act.ensures_true fun _ => ?_
  exact Act.ensures_change fun m _ => hT.returns occasion m

theorem xlInvokeN_leaves (hT : guest.Leaves T) (P : Machine → Prop) (address : UInt64)
    (arguments : List UInt64) (occasion : Occasion) :
    Act.Ensures P (xlInvokeN p guest build address arguments occasion) (fun _ => Left T)
      Always := by
  refine Act.ensures_bind Act.ensures_true fun m => ?_
  split
  · exact ensures_abort fun _ _ => trivial
  · refine Act.ensures_bind Act.ensures_true fun _ => ?_
    refine Act.ensures_bind (runGuest_leaves hT _ _) fun _ => ?_
    -- `PC`, `X30` and `X0`–`X7` are put back, the others are not
    exact Act.ensures_change fun after h => hT.behind m.state after.state h

theorem askName_leaves (hT : guest.Leaves T) (P : Machine → Prop) (g : Address) :
    Act.Ensures P (askName p guest build g) (fun _ => Left T) Always := by
  refine Act.ensures_bind Act.ensures_true fun rt => ?_
  split
  · exact ensures_abort fun _ _ => trivial
  · refine Act.ensures_bind (xlInvokeN_leaves hT _ _ _ _) fun _ => ?_
    split
    · exact ensures_abort fun _ _ => trivial
    · exact Act.ensures_pure fun _ h => h

theorem record_left (e : ShadowEvent) :
    Act.Ensures (Left T) (record e) (fun _ => Left T) Always :=
  Act.ensures_change fun _ h => h

theorem findClass_left (hbuild : ∀ g, Act.Ensures (Left T) (build g) (fun _ => Left T) Always)
    (g : Address) (rt : ShadowRuntime) :
    Act.Ensures (Left T) (findClass build g rt) (fun _ => Left T) Always := by
  unfold findClass
  split
  · exact Act.ensures_pure fun _ h => h
  split
  · exact Act.ensures_pure fun _ h => h
  split
  · exact Act.ensures_pure fun _ h => h
  · refine Act.ensures_bind (hbuild _) fun shadow => ?_
    refine Act.ensures_read_then fun host => ?_
    exact Act.ensures_pure fun _ h => h

theorem xlClassFromGuest_left
    (hbuild : ∀ g, Act.Ensures (Left T) (build g) (fun _ => Left T) Always) (g : Address) :
    Act.Ensures (Left T) (xlClassFromGuest build g) (fun _ => Left T) Always := by
  refine Act.ensures_read_then fun rt => ?_
  refine Act.ensures_bind (findClass_left hbuild g rt) fun cls => ?_
  exact Act.ensures_bind (record_left _) fun _ => Act.ensures_pure fun _ h => h

theorem initializeClass_left (hT : guest.Leaves T) (cls : Address) :
    Act.Ensures (Left T) (initializeClass p guest build cls) (fun _ => Left T) Always := by
  refine Act.ensures_read_then fun rt => ?_
  refine Act.ensures_bind (Act.ensures_change (Q := fun _ => Left T) fun _ h => h) fun _ => ?_
  split
  · exact runGuest_leaves hT _ _
  · exact Act.ensures_pure fun _ h => h

/-- An answer that is no code of the host's own leaves what guest code does. -/
theorem answerClass_leaves (hT : guest.Leaves T) {P : Machine → Prop} {cls : Address}
    (hloud : ∀ m, P m →
      m.runtime.host.ownCode (m.runtime.host.classMethod cls "class") = true → Left T m) :
    Act.Ensures P (answerClass p guest build cls) (fun _ => Left T) Always := by
  refine Act.ensures_read_bind fun rt => ?_
  cases himp : rt.host.classMethod cls "class" with
  | native imp =>
      dsimp only
      cases hbody : rt.host.body imp with
      | host =>
          refine Act.ensures_pure fun m ⟨hm, hrt⟩ => hloud m hm ?_
          rw [← hrt, himp]
          simp [HostRuntime.ownCode, hbody]
      | wrapper => exact runGuest_leaves hT _ _
      | stub => exact ensures_abort fun _ _ => trivial
  | block number => exact xlInvokeN_leaves hT _ _ _ _
  | forward =>
      dsimp only
      split
      · exact runGuest_leaves hT _ _
      · exact ensures_abort fun _ _ => trivial

theorem realizeSuper_left (hT : guest.Leaves T) (hostSuper : Address) :
    Act.Ensures (Left T) (realizeSuper p guest build hostSuper) (fun _ => Left T) Always := by
  unfold realizeSuper
  split
  · exact Act.ensures_pure fun _ h => h
  · refine Act.ensures_bind (initializeClass_left hT hostSuper) fun _ => ?_
    exact answerClass_leaves hT fun _ h _ => h

theorem makePair_left (g : Address) (c : GuestClass) (ro : GuestRo) (name : String)
    (hostSuper : Address) :
    Act.Ensures (Left T) (makePair p g c ro name hostSuper) (fun _ => Left T) Always := by
  refine Act.ensures_read_then fun rt => ?_
  split
  · exact Act.ensures_bind (record_left _) fun _ => Act.ensures_stop fun _ _ => trivial
  · refine Act.ensures_bind (Act.ensures_change (Q := fun _ => Left T) fun _ h => h) fun _ => ?_
    exact Act.ensures_bind (record_left _) fun _ => Act.ensures_pure fun _ h => h

/-- Once guest code has left its registers, a build does not change them but by more guest
code. -/
theorem xlBuildShadow_left (hT : guest.Leaves T) (fuel : Nat) (g : Address) :
    Act.Ensures (Left T) (xlBuildShadow p guest fuel g) (fun _ => Left T) Always := by
  induction fuel generalizing g with
  | zero => exact Act.ensures_bind (record_left _) fun _ => Act.ensures_stop fun _ _ => trivial
  | succ fuel ih =>
      refine Act.ensures_read_then fun rt => ?_
      split
      · exact Act.ensures_bind (record_left _) fun _ => Act.ensures_pure fun _ h => h
      split
      · exact ensures_abort fun _ _ => trivial
      split
      · exact ensures_abort fun _ _ => trivial
      refine Act.ensures_read_then fun rt => ?_
      refine Act.ensures_bind (record_left _) fun _ => ?_
      refine Act.ensures_bind (Act.ensures_change (Q := fun _ => Left T) fun _ h => h)
        fun _ => ?_
      have hname : ∀ ro, Act.Ensures (Left T) (nameOf p guest (xlBuildShadow p guest fuel) g ro)
          (fun _ => Left T) Always := by
        intro ro
        unfold nameOf
        split
        · exact Act.ensures_pure fun _ h => h
        · exact askName_leaves hT _ g
      refine Act.ensures_bind (hname _) fun name => ?_
      have hsuper : ∀ c, Act.Ensures (Left T) (superOf (xlBuildShadow p guest fuel) c)
          (fun _ => Left T) Always := by
        intro c
        unfold superOf
        split
        · exact Act.ensures_pure fun _ h => h
        · exact xlClassFromGuest_left ih _
      refine Act.ensures_bind (hsuper _) fun hostSuper => ?_
      refine Act.ensures_bind (realizeSuper_left hT hostSuper) fun _ => ?_
      exact makePair_left g _ _ name hostSuper

end

/-! ## A lookup is quiet, or guest code has run -/

/-- The tables, the host's classes and the registers are those of `m0`. -/
structure Machine.Fresh (m0 m : Machine) : Prop where
  active : m.runtime.active = m0.runtime.active
  guestToHost : m.runtime.guestToHost = m0.runtime.guestToHost
  unbuiltStatic : m.runtime.unbuiltStatic = m0.runtime.unbuiltStatic
  host : m.runtime.host = m0.runtime.host
  state : m.state = m0.state

/-- The class is answered without guest code, or there was no way to. -/
def LookAnswer (p : Process) (T : State → Prop) (m0 : Machine) (g cls : Address) (m : Machine) :
    Prop :=
  (Quiet p m0.runtime (.look g) (m.runtime.host.seen cls) none ∧ m.state = m0.state) ∨
    (¬ QuietLook p m0.runtime g ∧ T m.state)

/-- The same for a build. What its answer's metaclass is like matters to a lookup of the guest's
metaclass. -/
def BuildAnswer (p : Process) (T : State → Prop) (m0 : Machine) (g shadow : Address)
    (m : Machine) : Prop :=
  (Quiet p m0.runtime (.build g) (m.runtime.host.seen shadow)
      (m.runtime.host.seen (m.runtime.host.classAt shadow).metaclass) ∧ m.state = m0.state) ∨
    ((∀ cls metaSeen, ¬ Quiet p m0.runtime (.build g) cls metaSeen) ∧ T m.state)

/-- The superclass of a class to build is seen so. -/
def SuperSeen (p : Process) (rt : ShadowRuntime) (g : Address) (super : Seen) : Prop :=
  (p.classAt g).superclass = 0 ∧ super = none ∨
    (p.classAt g).superclass ≠ 0 ∧ Quiet p rt (.look (p.classAt g).superclass) super none

section

variable {p : Process} {rt : ShadowRuntime} {g : Address} {super : Seen}

/-- The two ways to build quietly, in one. -/
theorem Quiet.of_superSeen (h : rt.guestToHost g = none) (hn : p.Named g)
    (ha : SuperSeen p rt g super) (hsilent : super.Silent) :
    Quiet p rt (.build g) (super.shadow p g) super.metaclass := by
  rcases ha with ⟨hs, rfl⟩ | ⟨hs, hq⟩
  · exact .root h hn hs
  · exact .child h hn hs hq hsilent

/-- A class without its name in the `class_ro_t`, and one whose superclass runs guest code for a
message, is not built quietly. -/
theorem not_quiet_build (h : rt.guestToHost g = none)
    (hloud : ¬ p.Named g ∨ (∃ super, SuperSeen p rt g super ∧ ¬ super.Silent) ∨
      (p.classAt g).superclass ≠ 0 ∧ ¬ QuietLook p rt (p.classAt g).superclass)
    (cls metaSeen : Seen) : ¬ Quiet p rt (.build g) cls metaSeen := by
  intro hq
  cases hq with
  | made hmade => rw [h] at hmade; cases hmade
  | root _ hn hs =>
      rcases hloud with hloud | ⟨super, ⟨-, rfl⟩ | ⟨hloud, -⟩, hloud'⟩ | ⟨hloud, -⟩
      · exact hloud hn
      · exact hloud' fun _ hnone => nomatch hnone
      · exact hloud hs
      · exact hloud hs
  | @child _ super _ hn hs hq hsilent =>
      rcases hloud with hloud | ⟨super', ⟨hloud, -⟩ | ⟨-, hq'⟩, hloud⟩ | ⟨-, hloud⟩
      · exact hloud hn
      · exact hs hloud
      · rw [(hq.unique hq').1] at hsilent
        exact hloud hsilent
      · exact hloud ⟨_, hq⟩

end

section

variable {p : Process} {guest : GuestCode} {T : State → Prop} {m0 : Machine}
  {build : Address → Act Machine Address}

theorem Machine.Fresh.same {m : Machine} (h : m0.Fresh m) {ask : Ask} {cls metaSeen : Seen}
    (hq : Quiet p m.runtime ask cls metaSeen) : Quiet p m0.runtime ask cls metaSeen :=
  hq.of_same h.active.symm h.guestToHost.symm h.unbuiltStatic.symm h.host.symm

theorem record_fresh (e : ShadowEvent) :
    Act.Ensures m0.Fresh (record e) (fun _ => m0.Fresh) Always :=
  Act.ensures_change fun _ h => ⟨h.active, h.guestToHost, h.unbuiltStatic, h.host, h.state⟩

/-- A lookup of a static class is quiet just as its build is. -/
theorem findClass_answers
    (hbuild : ∀ g, Act.Ensures m0.Fresh (build g) (BuildAnswer p T m0 g) Always)
    (g : Address) (rt : ShadowRuntime) :
    Act.Ensures (fun m => m0.Fresh m ∧ rt = m.runtime) (findClass build g rt)
      (LookAnswer p T m0 g) Always := by
  unfold findClass
  by_cases ha : rt.active = true
  · cases hg : rt.guestToHost g with
    | some shadow =>
        simp only [ha, Bool.not_true, Bool.false_eq_true, if_false]
        refine Act.ensures_pure fun m ⟨hm, hrt⟩ => .inl ⟨hm.same ?_, hm.state⟩
        rw [← hrt]
        exact .found ha hg
    | none =>
        cases hu : rt.unbuiltStatic g with
        | none =>
            simp only [ha, Bool.not_true, Bool.false_eq_true, if_false]
            refine Act.ensures_pure fun m ⟨hm, hrt⟩ => .inl ⟨hm.same ?_, hm.state⟩
            rw [← hrt]
            exact .host ha hg hu
        | some owner =>
            simp only [ha, Bool.not_true, Bool.false_eq_true, if_false]
            -- the tables the lookup started from
            refine Act.ensures_of_imp (p := rt.active = m0.runtime.active
              ∧ rt.guestToHost = m0.runtime.guestToHost
              ∧ rt.unbuiltStatic = m0.runtime.unbuiltStatic)
              (fun m ⟨hm, hrt⟩ => by
                rw [hrt]
                exact ⟨hm.active, hm.guestToHost, hm.unbuiltStatic⟩) fun ⟨h1, h2, h3⟩ => ?_
            rw [h1] at ha
            rw [h2] at hg
            rw [h3] at hu
            refine Act.ensures_bind (Act.ensures_mono (hbuild owner) (fun m h => h.1)
              fun _ _ h => h) fun shadow => ?_
            refine Act.ensures_read_bind fun host => ?_
            refine Act.ensures_pure fun m ⟨hm, hhost⟩ => ?_
            rcases hm with ⟨hq, hstate⟩ | ⟨hq, hT⟩
            · refine .inl ⟨?_, hstate⟩
              by_cases ho : owner = g
              · rw [if_pos ho]
                rw [ho] at hu hq
                exact .own ha hg hu hq
              · rw [if_neg ho, hhost]
                exact .metaclass ha hg hu ho hq
            · -- the build is loud, and no other way of looking fits the tables
              refine .inr ⟨fun ⟨cls, hquiet⟩ => ?_, hT⟩
              cases hquiet with
              | inactive h => rw [ha] at h; cases h
              | found _ h => rw [hg] at h; cases h
              | host _ _ h => rw [hu] at h; cases h
              | own _ _ h hb =>
                  rw [hu] at h
                  cases h
                  exact hq _ _ hb
              | metaclass _ _ h _ hb =>
                  rw [hu] at h
                  cases h
                  exact hq _ _ hb
  · simp only [ha, Bool.not_false, if_true]
    refine Act.ensures_pure fun m ⟨hm, hrt⟩ => .inl ⟨hm.same ?_, hm.state⟩
    rw [← hrt]
    exact .inactive (by simpa using ha)

theorem xlClassFromGuest_answers
    (hbuild : ∀ g, Act.Ensures m0.Fresh (build g) (BuildAnswer p T m0 g) Always) (g : Address) :
    Act.Ensures m0.Fresh (xlClassFromGuest build g) (LookAnswer p T m0 g) Always := by
  refine Act.ensures_read_bind fun rt => ?_
  refine Act.ensures_bind (findClass_answers hbuild g rt) fun cls => ?_
  refine Act.ensures_bind (Q := fun _ => LookAnswer p T m0 g cls)
    (Act.ensures_change fun m h => h) fun _ => ?_
  exact Act.ensures_pure fun _ h => h

/-! ### A build -/

/-- A selector finds a method that is added, or one that has been there. -/
theorem isSome_lookup_addGuestMethods (selector : String) (list : List GuestMethod)
    (imps : List UInt64) (methods : List (String × Imp)) :
    ((HostRuntime.addGuestMethods list imps methods).2.lookup selector).isSome
      = ((methods.lookup selector).isSome || list.any (·.selector == selector)) := by
  induction list generalizing imps methods with
  | nil => simp [HostRuntime.addGuestMethods]
  | cons m rest ih =>
      have hstep := ih (imps ++ [m.imp])
        (if (methods.lookup m.selector).isSome then methods
          else methods ++ [(m.selector, .block imps.length)])
      rw [List.any_cons]
      refine hstep.trans ?_
      by_cases hm : m.selector = selector
      · -- it has been there or is added now
        rw [hm]
        by_cases hold : (methods.lookup selector).isSome = true
        · rw [if_pos hold, hold, Bool.true_or, Bool.true_or]
        · rw [if_neg hold, List.lookup_append, List.lookup_cons_self, Option.isSome_or]
          simp
      · have hlast : ([(m.selector, .block imps.length)] : List (String × Imp)).lookup selector
            = none := by rw [List.lookup_cons, beq_false_of_ne (Ne.symm hm), List.lookup_nil]
        rw [beq_false_of_ne hm, Bool.false_or]
        split
        · rfl
        · rw [List.lookup_append, hlast, Option.or_none]

/-- All that is added are blocks. -/
theorem addGuestMethods_block (list : List GuestMethod) (imps : List UInt64)
    (methods : List (String × Imp)) (h : ∀ entry ∈ methods, ∃ n, entry.2 = .block n) :
    ∀ entry ∈ (HostRuntime.addGuestMethods list imps methods).2, ∃ n, entry.2 = .block n := by
  induction list generalizing imps methods with
  | nil => exact h
  | cons m rest ih =>
      refine ih (imps ++ [m.imp]) _ fun entry hmem => ?_
      split at hmem
      · exact h entry hmem
      · rcases List.mem_append.mp hmem with hmem | hmem
        · exact h entry hmem
        · rw [List.mem_singleton.mp hmem]
          exact ⟨_, rfl⟩

/-- Code of the host's own is found behind the guest's methods, where none of them has the
selector. -/
theorem ownCode_find_append (host : HostRuntime) (selector : String) (list : List GuestMethod)
    (imps : List UInt64) (rest : List (String × Imp)) :
    host.ownCode (HostRuntime.find ((HostRuntime.addGuestMethods list imps []).2 ++ rest) selector)
      = (!list.any (·.selector == selector)
          && host.ownCode (HostRuntime.find rest selector)) := by
  have hsome := isSome_lookup_addGuestMethods selector list imps []
  rw [List.lookup_nil, Option.isSome_none, Bool.false_or] at hsome
  rw [← hsome, HostRuntime.find, List.lookup_append]
  cases hlookup : (HostRuntime.addGuestMethods list imps []).2.lookup selector with
  | none => rfl
  | some imp =>
      obtain ⟨before, after, hsplit, -⟩ := List.lookup_eq_some_iff.mp hlookup
      obtain ⟨n, hblock⟩ := addGuestMethods_block list imps [] (by simp)
        (selector, imp) (by rw [hsplit]; simp)
      dsimp only at hblock
      rw [hblock]
      rfl

/-- Among a guest's methods there is no code of the host's. -/
theorem ownCode_find_added (host : HostRuntime) (selector : String) (list : List GuestMethod)
    (imps : List UInt64) :
    host.ownCode (HostRuntime.find (HostRuntime.addGuestMethods list imps []).2 selector)
      = false := by
  have hnothing := ownCode_find_append host selector list imps []
  rw [List.append_nil] at hnothing
  rw [hnothing, show HostRuntime.find [] selector = .forward from rfl]
  exact Bool.and_false _

/-- **How a new pair is seen**: the shadow by the class's own methods and by how the superclass
is seen, the metaclass by the root. -/
theorem seen_registerPair (host : HostRuntime) {pair : Address × Address} (name : String)
    (hostSuper : Address) (ro : GuestRo) (g : Address) (h1 : pair.1 ≠ 0) (h2 : pair.2 ≠ 0)
    (hne : pair.1 ≠ pair.2) {after : HostRuntime}
    (hafter : after = host.registerPair pair name hostSuper ro
      (if (p.classAt g).isa = 0 then none else (p.classAt (p.classAt g).isa).ro)) :
    after.seen pair.1 = (host.seen hostSuper).shadow p g ∧
      after.seen (after.classAt pair.1).metaclass = (host.seen hostSuper).metaclass := by
  have hpair : (after.classAt pair.1).metaclass = pair.2
      ∧ (after.classAt pair.2).guestInitialize = false := by
    rw [hafter]
    simp [HostRuntime.registerPair, hne.symm]
  have hown : ∀ imp, after.ownCode imp = host.ownCode imp := by
    rw [hafter]
    exact fun _ => rfl
  have hstarts : after.startsGuestCode pair.1
        = (p.ownMethod g "initialize" || (host.seen hostSuper).any Sight.inherits) ∧
      (after.classAt pair.1).guestInitialize
        = (p.ownMethod g "initialize" || (host.seen hostSuper).any Sight.inherits) := by
    rw [hafter, HostRuntime.startsGuestCode, Process.ownMethod, HostRuntime.seen]
    by_cases hs : hostSuper = 0
    · simp [HostRuntime.registerPair, hs]
    · simp [HostRuntime.registerPair, hs, bne_iff_ne.mpr hs]
  have hanswers : host.ownCode (after.classMethod pair.1 "class")
      = (!p.ownMethod g "class" && (host.seen hostSuper).any Sight.answers) := by
    rw [hafter, HostRuntime.classMethod, Process.ownMethod, HostRuntime.seen]
    simp only [HostRuntime.registerPair, Function.update_self, ownCode_find_append]
    -- behind the class's own methods a root has its instance methods, the guest's as well
    by_cases hs : hostSuper = 0
    · rw [if_pos hs, if_pos hs, ownCode_find_added]
      rfl
    · rw [if_neg hs, if_neg hs]
      rfl
  have hroot : ∀ c, c = pair.1 ∨ c = pair.2 →
      host.ownCode (HostRuntime.find (after.classAt c).rootMethods "class")
        = (host.seen hostSuper).any Sight.rootAnswers := by
    intro c hc
    have hmethods : (after.classAt c).rootMethods = (after.classAt pair.1).rootMethods := by
      rcases hc with rfl | rfl
      · rfl
      · rw [hafter]
        simp [HostRuntime.registerPair, hne.symm]
    rw [hmethods, hafter, HostRuntime.seen]
    simp only [HostRuntime.registerPair, Function.update_self]
    by_cases hs : hostSuper = 0
    · rw [if_pos hs, if_pos hs, if_pos hs, ownCode_find_append, ownCode_find_added, Bool.and_false]
      rfl
    · rw [if_neg hs, if_neg hs]
      rfl
  have hmeta : after.classMethod pair.2 "class"
      = HostRuntime.find (after.classAt pair.2).rootMethods "class" := by
    rw [hafter, HostRuntime.classMethod]
    simp [HostRuntime.registerPair, hne.symm]
  constructor
  · rw [HostRuntime.seen, if_neg h1, hown, hown, hstarts.1, hstarts.2, hanswers,
      hroot _ (.inl rfl)]
    rfl
  · rw [hpair.1, HostRuntime.seen, if_neg h2, hown, hown, hmeta, hroot _ (.inr rfl),
      HostRuntime.startsGuestCode, hpair.2, Bool.and_false]
    rfl

/-- The class is built quietly so far, or cannot be and guest code has run. -/
def Underway (p : Process) (T : State → Prop) (m0 : Machine) (g : Address)
    (quiet : Machine → Prop) (m : Machine) : Prop :=
  (quiet m ∧ m.state = m0.state) ∨
    ((∀ cls metaSeen, ¬ Quiet p m0.runtime (.build g) cls metaSeen) ∧ T m.state)

/-- A name in the `class_ro_t` is read; for another one the namer has run. -/
theorem nameOf_answers (hT : guest.Leaves T) {g : Address} {ro : GuestRo}
    (hg : m0.runtime.guestToHost g = none) (hro : (p.classAt g).ro = some ro) :
    Act.Ensures m0.Fresh (nameOf p guest build g ro)
      (fun _ => Underway p T m0 g fun m => p.Named g ∧ m0.Fresh m) Always := by
  unfold nameOf
  cases hname : ro.name with
  | some name => exact Act.ensures_pure fun m h => .inl ⟨⟨⟨ro, name, hro, hname⟩, h⟩, h.state⟩
  | none =>
      have hloud : ¬ p.Named g := by
        rintro ⟨ro', name, hro', hname'⟩
        rw [hro] at hro'
        cases hro'
        rw [hname] at hname'
        cases hname'
      exact Act.ensures_mono (askName_leaves hT _ g) (fun _ h => h) fun _ _ h =>
        .inr ⟨not_quiet_build hg (.inl hloud), h⟩

/-- The superclass is looked up quietly, or the class cannot be built quietly either. -/
theorem superOf_answers (hT : guest.Leaves T) {fuel : Nat} {g : Address}
    (hbuild : ∀ g,
      Act.Ensures m0.Fresh (xlBuildShadow p guest fuel g) (BuildAnswer p T m0 g) Always)
    (hg : m0.runtime.guestToHost g = none) :
    Act.Ensures (Underway p T m0 g fun m => p.Named g ∧ m0.Fresh m)
      (superOf (xlBuildShadow p guest fuel) (p.classAt g))
      (fun hostSuper => Underway p T m0 g fun m =>
        p.Named g ∧ SuperSeen p m0.runtime g (m.runtime.host.seen hostSuper)) Always := by
  unfold superOf
  by_cases hs : (p.classAt g).superclass = 0
  · rw [if_pos hs]
    refine Act.ensures_pure fun m h => ?_
    rcases h with ⟨⟨hn, -⟩, hstate⟩ | h
    · exact .inl ⟨⟨hn, .inl ⟨hs, if_pos rfl⟩⟩, hstate⟩
    · exact .inr h
  · rw [if_neg hs]
    refine Act.ensures_start fun m hm => ?_
    rcases hm with ⟨⟨hn, hfresh⟩, -⟩ | ⟨hloud, hleft⟩
    · refine Act.ensures_mono (xlClassFromGuest_answers hbuild _)
        (fun m' h => by rw [h]; exact hfresh) fun cls m' h => ?_
      rcases h with ⟨hq, hstate⟩ | ⟨hq, hT'⟩
      · exact .inl ⟨⟨hn, .inr ⟨hs, hq⟩⟩, hstate⟩
      · exact .inr ⟨not_quiet_build hg (.inr (.inr ⟨hs, hq⟩)), hT'⟩
    · exact Act.ensures_mono (xlClassFromGuest_left (xlBuildShadow_left hT fuel) _)
        (fun m' h => by rw [h]; exact hleft) fun _ _ h => .inr ⟨hloud, h⟩

/-- A class that has been initialized, or has nothing of the guest's to be, is seen as before. -/
theorem seen_markInitialized {host : HostRuntime} {cls : Address}
    (h : host.startsGuestCode cls = false) :
    (host.markInitialized cls).seen cls = host.seen cls := by
  have hmarked : (host.markInitialized cls).startsGuestCode cls = false := by
    simp [HostRuntime.startsGuestCode, HostRuntime.markInitialized]
  rw [HostRuntime.seen, HostRuntime.seen, hmarked, h]
  rfl

/-- The superclass is found without guest code, and a message to it runs none. -/
def SuperSilent (p : Process) (m0 : Machine) (g hostSuper : Address) (m : Machine) : Prop :=
  p.Named g ∧ SuperSeen p m0.runtime g (m.runtime.host.seen hostSuper) ∧
    (m.runtime.host.seen hostSuper).Silent

/-- A class is initialized without guest code just if it starts none. -/
theorem initializeClass_answers (hT : guest.Leaves T) (m : Machine) (cls : Address) :
    Act.Ensures (fun m' => m' = m) (initializeClass p guest build cls)
      (fun _ m' => m.runtime.host.startsGuestCode cls = false ∧ m'.state = m.state ∧
          m'.runtime.host = m.runtime.host.markInitialized cls ∨
        m.runtime.host.startsGuestCode cls = true ∧ T m'.state) Always := by
  refine Act.ensures_read_at ?_
  refine Act.ensures_bind (Act.ensures_change (Q := fun _ m' => m'.state = m.state ∧
    m'.runtime.host = m.runtime.host.markInitialized cls)
    fun m' h => by rw [h]; exact ⟨rfl, rfl⟩) fun _ => ?_
  cases hstarts : m.runtime.host.startsGuestCode cls with
  | true =>
      exact Act.ensures_mono (runGuest_leaves hT _ _) (fun _ h => h) fun _ _ h => .inr ⟨rfl, h⟩
  | false => exact Act.ensures_pure fun m' h => .inl ⟨rfl, h⟩

/-- Code of the host's own changes nothing. -/
theorem answerClass_own {m : Machine} {cls : Address}
    (h : m.runtime.host.ownCode (m.runtime.host.classMethod cls "class") = true) :
    Act.Ensures (fun m' => m' = m) (answerClass p guest build cls) (fun _ m' => m' = m)
      Always := by
  refine Act.ensures_read_at ?_
  cases himp : m.runtime.host.classMethod cls "class" with
  | native imp =>
      rw [himp] at h
      have hbody : m.runtime.host.body imp = .host := by simpa [HostRuntime.ownCode] using h
      dsimp only
      rw [hbody]
      exact Act.ensures_pure fun _ h => h
  | block number => rw [himp] at h; cases h
  | forward => rw [himp] at h; cases h

/-- A message to the superclass runs no guest code, or had to. -/
theorem messageClass_answers (hT : guest.Leaves T) {g hostSuper : Address} {m : Machine}
    (hg : m0.runtime.guestToHost g = none) (hs : hostSuper ≠ 0) (hn : p.Named g)
    (habove : SuperSeen p m0.runtime g (m.runtime.host.seen hostSuper))
    (hstate : m.state = m0.state) :
    Act.Ensures (fun m' => m' = m) (messageClass p guest build hostSuper)
      (fun _ => Underway p T m0 g (SuperSilent p m0 g hostSuper)) Always := by
  obtain ⟨sight, hsight⟩ : ∃ sight, m.runtime.host.seen hostSuper = some sight :=
    ⟨_, if_neg hs⟩
  obtain ⟨hstarts, hanswers⟩ : sight.starts = m.runtime.host.startsGuestCode hostSuper ∧
      sight.answers = m.runtime.host.ownCode (m.runtime.host.classMethod hostSuper "class") := by
    rw [HostRuntime.seen, if_neg hs] at hsight
    cases hsight
    exact ⟨rfl, rfl⟩
  have hloud : (sight.starts = true ∨ sight.answers = false) →
      ∀ cls metaSeen, ¬ Quiet p m0.runtime (.build g) cls metaSeen := by
    refine fun h => not_quiet_build hg (.inr (.inl ⟨_, habove, fun hsilent => ?_⟩))
    obtain ⟨h1, h2⟩ := hsilent sight hsight
    rcases h with h | h
    · rw [h1] at h
      cases h
    · rw [h2] at h
      cases h
  refine Act.ensures_bind (initializeClass_answers hT m hostSuper) fun _ => ?_
  refine Act.ensures_start fun m1 hm1 => ?_
  rcases hm1 with ⟨hquiet, hstate1, hhost⟩ | ⟨hloud1, hleft⟩
  · have hseen1 : m1.runtime.host.seen hostSuper = some sight := by
      rw [hhost, seen_markInitialized hquiet, hsight]
    have hmethod : m1.runtime.host.ownCode (m1.runtime.host.classMethod hostSuper "class")
        = sight.answers := by
      rw [hanswers, hhost]
      rfl
    -- it is initialized quietly, so it depends on what answers
    cases hown : sight.answers with
    | true =>
        refine Act.ensures_mono (answerClass_own (hmethod.trans hown)) (fun _ h => h)
          fun _ m' h => .inl ⟨⟨hn, ?_, ?_⟩, ?_⟩
        · rw [h, hseen1, ← hsight]
          exact habove
        · rw [h, hseen1]
          intro other hother
          cases hother
          exact ⟨hstarts.trans hquiet, hown⟩
        · rw [h, hstate1, hstate]
    | false =>
        refine Act.ensures_mono (answerClass_leaves hT fun m' h hown' => ?_) (fun _ h => h)
          fun _ _ h => .inr ⟨hloud (.inr hown), h⟩
        rw [h, hmethod, hown] at hown'
        cases hown'
  · -- `+initialize` has run, and what answers puts nothing back
    refine Act.ensures_mono (answerClass_leaves hT (P := Left T) fun _ h _ => h)
      (fun m' h => by rw [h]; exact hleft) fun _ _ h => .inr ⟨hloud (.inl ?_), h⟩
    exact hstarts.trans hloud1

/-- The same for the superclass that a class may have. -/
theorem realizeSuper_answers (hT : guest.Leaves T) {g : Address} (hostSuper : Address)
    (hg : m0.runtime.guestToHost g = none) :
    Act.Ensures
      (Underway p T m0 g fun m =>
        p.Named g ∧ SuperSeen p m0.runtime g (m.runtime.host.seen hostSuper))
      (realizeSuper p guest build hostSuper)
      (fun _ => Underway p T m0 g (SuperSilent p m0 g hostSuper)) Always := by
  refine Act.ensures_start fun m hm => ?_
  rcases hm with ⟨⟨hn, habove⟩, hstate⟩ | ⟨hloud, hleft⟩
  · unfold realizeSuper
    by_cases h0 : hostSuper = 0
    · rw [if_pos h0]
      refine Act.ensures_pure fun m' h => .inl ⟨⟨hn, ?_, ?_⟩, ?_⟩
      · rw [h]
        exact habove
      · rw [HostRuntime.seen, if_pos h0]
        exact fun _ hnone => nomatch hnone
      · rw [h]
        exact hstate
    · rw [if_neg h0]
      exact messageClass_answers hT hg h0 hn habove hstate
  · exact Act.ensures_mono (realizeSuper_left hT hostSuper)
      (fun m' h => by rw [h]; exact hleft) fun _ _ h => .inr ⟨hloud, h⟩

/-- The pair is made without guest code, and is seen as its superclass and its methods say. -/
theorem makePair_answers (hinj : Function.Injective p.heap) (hne : ∀ n, p.heap n ≠ 0)
    {g : Address} (ro : GuestRo) (name : String) (hostSuper : Address)
    (hg : m0.runtime.guestToHost g = none) :
    Act.Ensures (Underway p T m0 g (SuperSilent p m0 g hostSuper))
      (makePair p g (p.classAt g) ro name hostSuper) (BuildAnswer p T m0 g) Always := by
  refine Act.ensures_start fun m hm => ?_
  rcases hm with ⟨⟨hn, habove, hsilent⟩, hstate⟩ | ⟨hloud, hleft⟩
  · refine Act.ensures_read_at ?_
    split
    · exact Act.ensures_bind Act.ensures_true fun _ => Act.ensures_stop fun _ _ => trivial
    · refine Act.ensures_bind (Act.ensures_change (Q := fun _ m' =>
        m'.runtime.host = (registerShadow p g (p.classAt g) ro name hostSuper m).runtime.host ∧
        m'.state = m.state) fun m' h => by rw [h]; exact ⟨rfl, rfl⟩) fun _ => ?_
      refine Act.ensures_bind (Q := fun _ m' =>
        m'.runtime.host = (registerShadow p g (p.classAt g) ro name hostSuper m).runtime.host ∧
        m'.state = m.state) (Act.ensures_change fun _ h => h) fun _ => ?_
      refine Act.ensures_pure fun m' h => .inl ⟨?_, h.2.trans hstate⟩
      have hdistinct : (p.pairAt m.runtime.host.pairs).1 ≠ (p.pairAt m.runtime.host.pairs).2 :=
        fun h => by have := hinj h; omega
      obtain ⟨hcls, hmeta⟩ := seen_registerPair m.runtime.host name hostSuper ro g
        (hne _) (hne _) hdistinct h.1
      rw [hcls, hmeta]
      exact Quiet.of_superSeen hg hn habove hsilent
  · exact Act.ensures_mono (makePair_left g _ ro name hostSuper)
      (fun m' h => by rw [h]; exact hleft) fun _ _ h => .inr ⟨hloud, h⟩

/-- **A build answers quietly, or guest code has run and had to.** -/
theorem xlBuildShadow_answers (hinj : Function.Injective p.heap) (hne : ∀ n, p.heap n ≠ 0)
    (hT : guest.Leaves T) (fuel : Nat) (g : Address) :
    Act.Ensures m0.Fresh (xlBuildShadow p guest fuel g) (BuildAnswer p T m0 g) Always := by
  induction fuel generalizing g with
  | zero => exact Act.ensures_bind Act.ensures_true fun _ => Act.ensures_stop fun _ _ => trivial
  | succ fuel ih =>
      show Act.Ensures _ (buildStep p guest _ g) _ _
      unfold buildStep
      refine Act.ensures_read_bind fun rt => ?_
      refine Act.ensures_of_imp (p := rt.guestToHost = m0.runtime.guestToHost)
        (fun m h => h.2 ▸ h.1.guestToHost) fun hrt => ?_
      cases hg : rt.guestToHost g with
      | some shadow =>
          refine Act.ensures_bind (Q := fun _ m => m0.Fresh m)
            (Act.ensures_mono (record_fresh _) (fun m h => h.1) fun _ _ h => h) fun _ => ?_
          refine Act.ensures_pure fun m h => .inl ⟨h.same (.made ?_), h.state⟩
          rw [h.guestToHost, ← hrt]
          exact hg
      | none =>
          rw [hrt] at hg
          cases hro : (p.classAt g).ro with
          | none => exact ensures_abort fun _ _ => trivial
          | some ro =>
              dsimp only
              split
              · exact ensures_abort fun _ _ => trivial
              unfold construct
              refine Act.ensures_bind (Act.ensures_read (Q := fun _ => m0.Fresh)
                fun m h => h.1) fun rt => ?_
              refine Act.ensures_bind (record_fresh _) fun _ => ?_
              refine Act.ensures_bind (Q := fun _ => m0.Fresh) (Act.ensures_change fun m h =>
                ⟨h.active, h.guestToHost, h.unbuiltStatic, h.host, h.state⟩) fun _ => ?_
              refine Act.ensures_bind (nameOf_answers hT hg hro) fun name => ?_
              refine Act.ensures_bind (superOf_answers hT ih hg) fun hostSuper => ?_
              refine Act.ensures_bind (realizeSuper_answers hT hostSuper hg) fun _ => ?_
              exact makePair_answers hinj hne ro name hostSuper hg

end

end Katabasis
