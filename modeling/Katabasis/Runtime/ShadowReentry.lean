import Katabasis.Runtime.Shadows

set_option autoImplicit false

/-! # Building a shadow while another one is built

Guest code that runs inside `xl_build_shadow` may ask for shadows itself; the build lock is
recursive and does not keep it out. A run in which no build is entered for a class that is
already being built keeps the tables sound (`Inv`): each class has one pair, and every later
request finds it. A request for a class under construction does not: the code looks into the
table once, before the calls that can come back, so the class is built inside its own build and
the outer build then stops the process over the name its own class has taken.
-/

namespace Katabasis

/-! ## What is assumed of the guest's classes and of requests -/

/-- An address that is neither a class nor the metaclass of one: what a class built to replace
a stub names as `previously`. -/
def Process.IsStub (p : Process) (a : Address) : Prop :=
  (p.classAt a).isClass = false ∧
    ∀ c, (p.classAt c).isClass = true → (p.classAt c).isa ≠ 0 → (p.classAt c).isa ≠ a

theorem Process.IsStub.ne {p : Process} {stub a : Address} (h : p.IsStub stub)
    (ha : (p.classAt a).isClass = true) : a ≠ stub := by
  rintro rfl
  rw [h.1] at ha
  cases ha

/-- `_objc_realizeClassFromSwift` gets `nil`, the class itself or a stub as `previously`. -/
def ShadowRequest.Allowed (p : Process) : ShadowRequest → Prop
  | .realize g previously => previously = 0 ∨ previously = g ∨ p.IsStub previously
  | _ => True

/-! ## Safety of a run -/

/-- The run's condition: no build is entered for a class that is under construction. -/
def NoReentry (trace : List ShadowEvent) : Prop :=
  ∀ g stack, .entered g stack ∈ trace → g ∉ stack

/-- The class built, in a `built` event. -/
def ShadowEvent.builtGuest : ShadowEvent → Option Address
  | .built g _ => some g
  | _ => none

/-- `cls` is the shadow of the guest class `a`, or the shadow's metaclass for its metaclass. -/
def HasPair (p : Process) (trace : List ShadowEvent) (a cls : Address) : Prop :=
  ∃ g pair, .built g pair ∈ trace ∧
    (a = g ∧ cls = pair.1 ∨ a = (p.classAt g).isa ∧ a ≠ 0 ∧ cls = pair.2)

/-- The class, or metaclass, is a static one or has its pair. -/
def Wanted (p : Process) (host : HostRuntime) (trace : List ShadowEvent) (a : Address) : Prop :=
  (p.xlShadowSetup host).unbuiltStatic a ≠ none ∨ ∃ cls, HasPair p trace a cls

/-- Shadows are safe in what has happened so far. -/
structure Safe (p : Process) (host : HostRuntime) (trace : List ShadowEvent) : Prop where
  /-- No class has two pairs. -/
  once : (trace.filterMap ShadowEvent.builtGuest).Nodup
  /-- Every request for a class returns its shadow. -/
  answered : ∀ g shadow, .answered g shadow ∈ trace → (p.classAt g).isClass = true →
    ∃ pair, .built g pair ∈ trace ∧ shadow = pair.1
  /-- Every lookup of a static class, and of a class that has its pair, returns the shadow. -/
  looked : ∀ later earlier a cls, trace = later ++ .looked a cls :: earlier →
    Wanted p host earlier a → HasPair p trace a cls
  /-- No build stops over a name that the class's own shadow has. -/
  nameTaken : ∀ g existing, .nameTaken g existing ∈ trace → ∀ pair, .built g pair ∈ trace →
    pair.1 ≠ existing

/-! ## The invariant -/

/-- The tables are those that the trace tells of, and the classes under construction have no
shadow yet. -/
structure Inv (p : Process) (host : HostRuntime) (rt : ShadowRuntime) : Prop where
  safe : Safe p host rt.trace
  running : ∀ g existing, .nameTaken g existing ∉ rt.trace
  building_class : ∀ b ∈ rt.building, (p.classAt b).isClass = true
  building_new : ∀ b ∈ rt.building, rt.guestToHost b = none
  building_nodup : rt.building.Nodup
  built : ∀ g pair, .built g pair ∈ rt.trace → (p.classAt g).isClass = true ∧
    rt.guestToHost g = some pair.1 ∧
    ((p.classAt g).isa ≠ 0 → rt.guestToHost (p.classAt g).isa = some pair.2)
  known : ∀ a cls, rt.guestToHost a = some cls → HasPair p rt.trace a cls ∨ p.IsStub a
  metaclass : ∀ g pair, .built g pair ∈ rt.trace →
    (∃ n < rt.host.pairs, pair = p.pairAt n) ∧ (rt.host.classAt pair.1).metaclass = pair.2
  active : (∃ a, (p.xlShadowSetup host).unbuiltStatic a ≠ none) ∨
    (∃ g pair, .built g pair ∈ rt.trace) → rt.active = true
  unbuilt : ∀ a, (p.xlShadowSetup host).unbuiltStatic a ≠ none →
    rt.guestToHost a ≠ none ∨ rt.unbuiltStatic a ≠ none

section

variable {p : Process} {host : HostRuntime} {rt : ShadowRuntime}

theorem NoReentry.of_cons {e : ShadowEvent} {trace : List ShadowEvent}
    (h : NoReentry (e :: trace)) : NoReentry trace :=
  fun g stack hm => h g stack (List.mem_cons_of_mem _ hm)

theorem HasPair.cons {e : ShadowEvent} {trace : List ShadowEvent} {a cls : Address}
    (h : HasPair p trace a cls) : HasPair p (e :: trace) a cls := by
  obtain ⟨g, pair, hm, hcls⟩ := h
  exact ⟨g, pair, List.mem_cons_of_mem _ hm, hcls⟩

/-- An event that builds nothing gives no class a pair. -/
theorem HasPair.of_cons {e : ShadowEvent} {trace : List ShadowEvent} {a cls : Address}
    (he : e.builtGuest = none) (h : HasPair p (e :: trace) a cls) : HasPair p trace a cls := by
  obtain ⟨g, pair, hm, hcls⟩ := h
  rcases List.mem_cons.mp hm with rfl | hm
  · cases he
  · exact ⟨g, pair, hm, hcls⟩

theorem built_of_cons {e : ShadowEvent} {trace : List ShadowEvent} {g : Address}
    {pair : Address × Address} (he : e.builtGuest = none) (h : .built g pair ∈ e :: trace) :
    .built g pair ∈ trace := by
  rcases List.mem_cons.mp h with rfl | h
  · cases he
  · exact h

/-- A class that has a shadow is in the table, a class or a class's metaclass. -/
theorem Inv.table_of_hasPair (hi : Inv p host rt) {a cls : Address}
    (h : HasPair p rt.trace a cls) : rt.guestToHost a = some cls ∧ ¬ p.IsStub a := by
  obtain ⟨g, pair, hm, hcls⟩ := h
  obtain ⟨hclass, hg, hisa⟩ := hi.built g pair hm
  rcases hcls with ⟨rfl, rfl⟩ | ⟨rfl, hne, rfl⟩
  · exact ⟨hg, fun hstub => hstub.ne hclass rfl⟩
  · exact ⟨hisa hne, fun hstub => hstub.2 g hclass hne rfl⟩

/-- An entry of the static table was there before, or this class has made it. -/
theorem setupStep_cases {table : Address → Option Address} {object a owner : Address}
    (h : p.setupStep table object a = some owner) :
    table a = some owner ∨ owner = object ∧ (p.classAt object).isClass = true ∧
      (a = object ∨ a = (p.classAt object).isa ∧ (p.classAt object).isa ≠ 0) := by
  unfold Process.setupStep at h
  split at h
  case isFalse => exact .inl h
  case isTrue hclass =>
      simp only at h
      split at h
      case isTrue =>
          by_cases ha : a = object
          · rw [ha, Function.update_self] at h
            exact .inr ⟨(Option.some.inj h).symm, hclass, .inl ha⟩
          · rw [Function.update_of_ne ha] at h
            exact .inl h
      case isFalse hne =>
          by_cases hisa : a = (p.classAt object).isa
          · rw [hisa, Function.update_self] at h
            exact .inr ⟨(Option.some.inj h).symm, hclass, .inr ⟨hisa, hne⟩⟩
          · rw [Function.update_of_ne hisa] at h
            by_cases ha : a = object
            · rw [ha, Function.update_self] at h
              exact .inr ⟨(Option.some.inj h).symm, hclass, .inl ha⟩
            · rw [Function.update_of_ne ha] at h
              exact .inl h

/-- An entry of the start-up table leads from a class or its metaclass to the class. -/
theorem setup_owner {a owner : Address}
    (h : (p.xlShadowSetup host).unbuiltStatic a = some owner) :
    owner ∈ p.staticClasses ∧ (p.classAt owner).isClass = true ∧
      (a = owner ∨ a = (p.classAt owner).isa ∧ (p.classAt owner).isa ≠ 0) := by
  -- over whatever table the classes before have left
  have hgen : ∀ (list : List Address) (table : Address → Option Address),
      list.foldl p.setupStep table a = some owner → table a = some owner ∨
        owner ∈ list ∧ (p.classAt owner).isClass = true ∧
          (a = owner ∨ a = (p.classAt owner).isa ∧ (p.classAt owner).isa ≠ 0) := by
    intro list
    induction list with
    | nil => intro table h; exact .inl h
    | cons object rest ih =>
        intro table h
        rcases ih _ h with hstep | ⟨hm, hrest⟩
        · rcases setupStep_cases hstep with htable | ⟨rfl, hclass, ha⟩
          · exact .inl htable
          · exact .inr ⟨List.mem_cons_self, hclass, ha⟩
        · exact .inr ⟨List.mem_cons_of_mem _ hm, hrest⟩
  rcases hgen p.staticClasses _ h with hnone | h
  · cases hnone
  · exact h

/-- Another event is safe: a first build of its class, an answer or a lookup that is right, or a
name taken by no shadow of the class itself. -/
theorem Safe.cons {e : ShadowEvent} {trace : List ShadowEvent} (h : Safe p host trace)
    (hbuilt : ∀ g, e.builtGuest = some g → ∀ pair, .built g pair ∉ trace)
    (hanswered : ∀ g shadow, e = .answered g shadow → (p.classAt g).isClass = true →
      ∃ pair, .built g pair ∈ trace ∧ shadow = pair.1)
    (hlooked : ∀ a cls, e = .looked a cls → Wanted p host trace a → HasPair p trace a cls)
    (hname : ∀ g existing, .nameTaken g existing ∈ e :: trace →
      ∀ pair, .built g pair ∈ e :: trace → pair.1 ≠ existing) :
    Safe p host (e :: trace) where
  once := by
    cases he : e.builtGuest with
    | none =>
        rw [List.filterMap_cons_none he]
        exact h.once
    | some g =>
        rw [List.filterMap_cons_some he, List.nodup_cons]
        refine ⟨fun hmem => ?_, h.once⟩
        obtain ⟨other, hother, hguest⟩ := List.mem_filterMap.mp hmem
        cases other <;>
          simp only [ShadowEvent.builtGuest, reduceCtorEq, Option.some.injEq] at hguest
        subst hguest
        -- the class would have been built before
        exact hbuilt _ he _ hother
  answered := by
    intro g shadow hmem hclass
    have hold : ∃ pair, ShadowEvent.built g pair ∈ trace ∧ shadow = pair.1 := by
      rcases List.mem_cons.mp hmem with heq | hmem
      · exact hanswered g shadow heq.symm hclass
      · exact h.answered g shadow hmem hclass
    obtain ⟨pair, hpair, hshadow⟩ := hold
    exact ⟨pair, List.mem_cons_of_mem _ hpair, hshadow⟩
  looked := by
    intro later earlier a cls heq hw
    cases later with
    | nil =>
        obtain ⟨hhead, hrest⟩ := List.cons.inj heq
        rw [← hrest] at hw
        exact (hlooked a cls hhead hw).cons
    | cons first later =>
        obtain ⟨-, hrest⟩ := List.cons.inj heq
        exact (h.looked later earlier a cls hrest hw).cons
  nameTaken := hname

/-- The registers, the variant cache and the host's names do not matter. -/
theorem Inv.of_same {rt' : ShadowRuntime} (hi : Inv p host rt) (ht : rt'.trace = rt.trace)
    (hg : rt'.guestToHost = rt.guestToHost) (hu : rt'.unbuiltStatic = rt.unbuiltStatic)
    (ha : rt'.active = rt.active) (hb : rt'.building = rt.building)
    (hp : rt'.host.pairs = rt.host.pairs)
    (hm : ∀ c, (rt'.host.classAt c).metaclass = (rt.host.classAt c).metaclass) :
    Inv p host rt' where
  safe := by rw [ht]; exact hi.safe
  running := by rw [ht]; exact hi.running
  building_class := by rw [hb]; exact hi.building_class
  building_new := by rw [hb, hg]; exact hi.building_new
  building_nodup := by rw [hb]; exact hi.building_nodup
  built := by rw [ht, hg]; exact hi.built
  known := by rw [ht, hg]; exact hi.known
  metaclass := by
    intro g pair h
    rw [ht] at h
    rw [hp, hm]
    exact hi.metaclass g pair h
  active := by rw [ht, ha]; exact hi.active
  unbuilt := by rw [hg, hu]; exact hi.unbuilt

/-- An event other than `built` and `nameTaken`, whose answer is right. -/
theorem inv_record {e : ShadowEvent} (hi : Inv p host rt) (hbuilt : e.builtGuest = none)
    (hname : ∀ g existing, e ≠ .nameTaken g existing)
    (hanswered : ∀ g shadow, e = .answered g shadow → (p.classAt g).isClass = true →
      ∃ pair, .built g pair ∈ rt.trace ∧ shadow = pair.1)
    (hlooked : ∀ a cls, e = .looked a cls → Wanted p host rt.trace a →
      HasPair p rt.trace a cls) :
    Inv p host { rt with trace := e :: rt.trace } where
  safe := by
    refine hi.safe.cons (fun g he => ?_) hanswered hlooked fun g existing hmem => ?_
    · rw [hbuilt] at he
      cases he
    · rcases List.mem_cons.mp hmem with heq | hmem
      · exact absurd heq.symm (hname g existing)
      · exact absurd hmem (hi.running g existing)
  running := by
    intro g existing h
    rcases List.mem_cons.mp h with heq | h
    · exact hname g existing heq.symm
    · exact hi.running g existing h
  building_class := hi.building_class
  building_new := hi.building_new
  building_nodup := hi.building_nodup
  built := fun g pair h => hi.built g pair (built_of_cons hbuilt h)
  known := fun a cls h => (hi.known a cls h).imp_left HasPair.cons
  metaclass := fun g pair h => hi.metaclass g pair (built_of_cons hbuilt h)
  active := fun h => hi.active (h.imp_right fun ⟨g, pair, hm⟩ => ⟨g, pair, built_of_cons hbuilt hm⟩)
  unbuilt := hi.unbuilt

end

/-! ## What the code keeps -/

section

variable (p : Process) (host : HostRuntime) (guest : GuestCode)

/-- Between two steps: the static table has lost entries only, and if no build has been
re-entered the invariant holds, with these builds under way. -/
def Sound (stack : List Address) (m : Machine) : Prop :=
  (∀ a owner, m.runtime.unbuiltStatic a = some owner →
    (p.xlShadowSetup host).unbuiltStatic a = some owner) ∧
  (NoReentry m.runtime.trace → Inv p host m.runtime ∧ m.runtime.building = stack)

variable {p host guest} {build : Address → Act Machine Address} {stack : List Address}

/-- A change of what the invariant does not speak of. -/
theorem Sound.of_same {m m' : Machine} (h : Sound p host stack m)
    (ht : m'.runtime.trace = m.runtime.trace)
    (hg : m'.runtime.guestToHost = m.runtime.guestToHost)
    (hu : m'.runtime.unbuiltStatic = m.runtime.unbuiltStatic)
    (ha : m'.runtime.active = m.runtime.active)
    (hb : m'.runtime.building = m.runtime.building)
    (hp : m'.runtime.host.pairs = m.runtime.host.pairs)
    (hm : ∀ c, (m'.runtime.host.classAt c).metaclass = (m.runtime.host.classAt c).metaclass) :
    Sound p host stack m' := by
  refine ⟨by rw [hu]; exact h.1, fun hn => ?_⟩
  rw [ht] at hn
  exact ⟨(h.2 hn).1.of_same ht hg hu ha hb hp hm, by rw [hb]; exact (h.2 hn).2⟩

end

/-! ## A superclass whose `+initialize` messages its subclass -/

end Katabasis
