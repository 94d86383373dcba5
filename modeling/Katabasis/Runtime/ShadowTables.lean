import Katabasis.Runtime.ShadowReentry

set_option autoImplicit false

/-! # The shadow tables mirror the guest's classes

Where guest code asks for no shadow while one is built, a sequence of registrations and lookups
keeps the two tables inverse to each other, and the shadows' superclasses and metaclasses are
those of the guest's classes (`Mirrored`). The recursion of `xl_build_shadow` runs up the static
classes only, so it is at most as deep as there are static classes (`depth`). Where a sequence does
not come to its end, the process has stopped over one class (`Halted`): a class below a root that
has no `+class` cannot be built.
-/

namespace Katabasis

/-! ## The guest's classes and the host's -/

/-- `s` is the superclass of `g`, and both are guest classes. -/
def Process.Below (p : Process) (g s : Address) : Prop :=
  (p.classAt g).isClass = true ∧ (p.classAt s).isClass = true ∧ (p.classAt g).superclass = s

/-- No class is above itself. -/
def Process.Acyclic (p : Process) : Prop := ∀ g, ¬ Relation.TransGen p.Below g g

/-- A class that the compiler laid out, in `xl_swift_static_classes`. -/
def Process.IsStatic (p : Process) (g : Address) : Prop :=
  g ∈ p.staticClasses ∧ (p.classAt g).isClass = true

/-- A class of the host: neither a guest class or metaclass nor one made for a shadow. -/
def Process.IsHost (p : Process) (a : Address) : Prop := p.IsStub a ∧ ∀ n, p.heap n ≠ a

/-- What is said of a class when it is registered: it is a root, or its superclass is a host
class, a static one or one of those registered before. -/
def Process.SuperKnown (p : Process) (known : Address → Prop) (g : Address) : Prop :=
  (p.classAt g).superclass = 0 ∨ p.IsHost (p.classAt g).superclass ∨
    p.IsStatic (p.classAt g).superclass ∨ known (p.classAt g).superclass

/-- The class that a request registers. -/
def ShadowRequest.registers : ShadowRequest → Option Address
  | .readClassPair g => some g
  | .realize g _ => some g
  | _ => none

/-- `_objc_realizeClassFromSwift` gets `nil` or the class itself as `previously`. -/
def ShadowRequest.Plain : ShadowRequest → Prop
  | .realize g previously => previously = 0 ∨ previously = g
  | _ => True

/-- Each class is registered behind its superclass, if that is one built at run time. -/
def Process.InOrder (p : Process) (known : Address → Prop) : List ShadowRequest → Prop
  | [] => True
  | r :: rest =>
      r.Plain ∧ (∀ g, r.registers = some g → p.SuperKnown known g) ∧
        p.InOrder (fun a => known a ∨ r.registers = some a ∧ a ≠ 0) rest

open scoped Classical in
/-- How many static classes are above a class. -/
noncomputable def Process.depth (p : Process) (g : Address) : Nat :=
  (p.staticClasses.toFinset.filter (Relation.TransGen p.Below g)).card

open scoped Classical in
theorem Process.depth_le (p : Process) (g : Address) : p.depth g ≤ p.staticClasses.length := by
  unfold Process.depth
  calc (p.staticClasses.toFinset.filter _).card
      ≤ p.staticClasses.toFinset.card := Finset.card_filter_le ..
    _ ≤ p.staticClasses.length := p.staticClasses.toFinset_card_le

open scoped Classical in
theorem Process.depth_lt {p : Process} (hp : p.Acyclic) {g s : Address} (h : p.Below g s)
    (hs : p.IsStatic s) : p.depth s < p.depth g := by
  unfold Process.depth
  refine Finset.card_lt_card (Finset.ssubset_iff_subset_ne.mpr ⟨fun a ha => ?_, fun heq => ?_⟩)
  · rw [Finset.mem_filter] at ha ⊢
    exact ⟨ha.1, .head h ha.2⟩
  · -- `s` is above `g`, but not above itself
    have hmem : s ∈ p.staticClasses.toFinset.filter (Relation.TransGen p.Below g) :=
      Finset.mem_filter.mpr ⟨List.mem_toFinset.mpr hs.1, .single h⟩
    rw [← heq, Finset.mem_filter] at hmem
    exact hp s hmem.2

/-! ## The invariant -/

/-- `cls` is the superclass that a shadow of `g` has, by the table. -/
def SuperIs (p : Process) (table : Address → Option Address) (g cls : Address) : Prop :=
  (p.classAt g).superclass = 0 ∧ cls = 0 ∨
    (p.classAt g).superclass ≠ 0 ∧ (table (p.classAt g).superclass = some cls ∨
      p.IsHost (p.classAt g).superclass ∧ cls = (p.classAt g).superclass)

/-- The host superclass of a root's metaclass is the root, that of another one the metaclass of
the host superclass. -/
def HostRuntime.MetaAbove (host : HostRuntime) (pair : Address × Address) : Prop :=
  host.superclass pair.2
    = if host.superclass pair.1 = 0 then pair.1
      else (host.classAt (host.superclass pair.1)).metaclass

/-- The tables are inverse to each other, and the shadows made so far have the superclasses and
metaclasses that the guest's classes have. -/
structure Mirrored (p : Process) (host : HostRuntime) (rt : ShadowRuntime) : Prop where
  inv : Inv p host rt
  static : ∀ a owner, rt.unbuiltStatic a = some owner →
    (p.xlShadowSetup host).unbuiltStatic a = some owner
  shallow : ∀ a, .tooDeep a ∉ rt.trace
  noStub : ∀ a, p.IsStub a → rt.guestToHost a = none
  back : ∀ c a, rt.hostToGuest c = some a ↔ HasPair p rt.trace a c
  apart : ∀ a, rt.guestToHost a ≠ none → rt.unbuiltStatic a = none
  super : ∀ g pair, .built g pair ∈ rt.trace →
    SuperIs p rt.guestToHost g (rt.host.superclass pair.1)
  superMeta : ∀ g pair, .built g pair ∈ rt.trace → rt.host.MetaAbove pair
  hostMeta : ∀ a, p.IsHost a → (rt.host.classAt a).metaclass = (host.classAt a).metaclass

section

variable {p : Process} {host : HostRuntime} {rt : ShadowRuntime}

/-- The table has an entry for exactly the classes and metaclasses that have their pair. -/
theorem Mirrored.table_iff (hm : Mirrored p host rt) {a cls : Address} :
    rt.guestToHost a = some cls ↔ HasPair p rt.trace a cls := by
  constructor
  · intro h
    refine (hm.inv.known a cls h).resolve_right fun hstub => ?_
    rw [hm.noStub a hstub] at h
    cases h
  · exact fun h => (hm.inv.table_of_hasPair h).1

/-- The registers, the host's names and what has been initialized do not matter. -/
theorem Mirrored.of_same {rt' : ShadowRuntime} (hm : Mirrored p host rt)
    (ht : rt'.trace = rt.trace) (hg : rt'.guestToHost = rt.guestToHost)
    (hh : rt'.hostToGuest = rt.hostToGuest) (hu : rt'.unbuiltStatic = rt.unbuiltStatic)
    (ha : rt'.active = rt.active) (hb : rt'.building = rt.building)
    (hp : rt'.host.pairs = rt.host.pairs)
    (hc : ∀ c, (rt'.host.classAt c).metaclass = (rt.host.classAt c).metaclass ∧
      rt'.host.superclass c = rt.host.superclass c) : Mirrored p host rt' where
  inv := hm.inv.of_same ht hg hu ha hb hp fun c => (hc c).1
  static := by rw [hu]; exact hm.static
  shallow := by rw [ht]; exact hm.shallow
  noStub := by rw [hg]; exact hm.noStub
  back := by rw [ht, hh]; exact hm.back
  apart := by rw [hg, hu]; exact hm.apart
  super := by
    intro g pair h
    rw [ht] at h
    rw [hg, (hc pair.1).2]
    exact hm.super g pair h
  superMeta := by
    intro g pair h
    rw [ht] at h
    rw [HostRuntime.MetaAbove, (hc pair.1).2, (hc pair.2).2, (hc _).1]
    exact hm.superMeta g pair h
  hostMeta := fun a ha => (hc a).1.trans (hm.hostMeta a ha)

/-- An event that builds nothing and stops nothing, whose answer is right. -/
theorem mirrored_record {e : ShadowEvent} (hm : Mirrored p host rt)
    (hbuilt : e.builtGuest = none) (hname : ∀ g existing, e ≠ .nameTaken g existing)
    (hdeep : ∀ g, e ≠ .tooDeep g)
    (hanswered : ∀ g shadow, e = .answered g shadow → (p.classAt g).isClass = true →
      ∃ pair, .built g pair ∈ rt.trace ∧ shadow = pair.1)
    (hlooked : ∀ a cls, e = .looked a cls → Wanted p host rt.trace a →
      HasPair p rt.trace a cls) :
    Mirrored p host { rt with trace := e :: rt.trace } where
  inv := inv_record hm.inv hbuilt hname hanswered hlooked
  static := hm.static
  shallow := by
    intro a h
    rcases List.mem_cons.mp h with heq | h
    · exact hdeep a heq.symm
    · exact hm.shallow a h
  noStub := hm.noStub
  back := fun c a => (hm.back c a).trans ⟨HasPair.cons, HasPair.of_cons hbuilt⟩
  apart := hm.apart
  super := fun g pair h => hm.super g pair (built_of_cons hbuilt h)
  superMeta := fun g pair h => hm.superMeta g pair (built_of_cons hbuilt h)
  hostMeta := hm.hostMeta

theorem Mirrored.looked (hm : Mirrored p host rt) {a cls : Address}
    (h : Wanted p host rt.trace a → HasPair p rt.trace a cls) :
    Mirrored p host { rt with trace := .looked a cls :: rt.trace } := by
  refine mirrored_record hm rfl (by simp) (by simp) (by simp) fun a' cls' he => ?_
  cases he
  exact h

theorem Mirrored.answered (hm : Mirrored p host rt) {g shadow : Address}
    (h : (p.classAt g).isClass = true → ∃ pair, .built g pair ∈ rt.trace ∧ shadow = pair.1) :
    Mirrored p host { rt with trace := .answered g shadow :: rt.trace } := by
  refine mirrored_record hm rfl (by simp) (by simp) (fun g' shadow' he => ?_) (by simp)
  cases he
  exact h

/-- The superclass stays what it was while the table grows. -/
theorem SuperIs.mono {table table' : Address → Option Address} {g cls : Address}
    (h : SuperIs p table g cls) (hgrows : ∀ a c, table a = some c → table' a = some c) :
    SuperIs p table' g cls := by
  rcases h with hroot | ⟨hne, habove⟩
  · exact .inl hroot
  · exact .inr ⟨hne, habove.imp_left (hgrows _ cls)⟩

/-- What is above a metaclass stays, where the pair's classes and the superclass do. -/
theorem HostRuntime.MetaAbove.of_same {h h' : HostRuntime} {pair : Address × Address}
    (habove : h.MetaAbove pair) (h1 : h'.classAt pair.1 = h.classAt pair.1)
    (h2 : h'.classAt pair.2 = h.classAt pair.2)
    (hs : h.superclass pair.1 ≠ 0 →
      h'.classAt (h.superclass pair.1) = h.classAt (h.superclass pair.1)) :
    h'.MetaAbove pair := by
  have hs1 : h'.superclass pair.1 = h.superclass pair.1 := by
    rw [HostRuntime.superclass, h1]
    rfl
  have hs2 : h'.superclass pair.2 = h.superclass pair.2 := by
    rw [HostRuntime.superclass, h2]
    rfl
  rw [HostRuntime.MetaAbove, hs1, hs2, habove]
  by_cases hroot : h.superclass pair.1 = 0
  · rw [if_pos hroot, if_pos hroot]
  · rw [if_neg hroot, if_neg hroot, hs hroot]

end

/-! ## What the code keeps -/

section

variable (p : Process) (host : HostRuntime) (guest : GuestCode)

/-- Between two steps: these builds are under way, and these addresses are in the table. -/
def Mirrors (known : Address → Prop) (stack : List Address) (m : Machine) : Prop :=
  Mirrored p host m.runtime ∧ m.runtime.building = stack ∧
    ∀ a, known a → m.runtime.guestToHost a ≠ none

/-- The calls have not been nested too deep to follow. -/
def Shallow (m : Machine) : Prop := ∀ a, .tooDeep a ∉ m.runtime.trace

variable {p host guest} {build : Address → Act Machine Address} {known : Address → Prop}
  {stack : List Address} {fuel : Nat}

theorem Mirrors.shallow {m : Machine} (h : Mirrors p host known stack m) : Shallow m :=
  h.1.shallow

/-- A change of what `Mirrored` does not speak of, between two steps. -/
theorem Mirrors.of_same {m m' : Machine} (h : Mirrors p host known stack m)
    (ht : m'.runtime.trace = m.runtime.trace)
    (hg : m'.runtime.guestToHost = m.runtime.guestToHost)
    (hh : m'.runtime.hostToGuest = m.runtime.hostToGuest)
    (hu : m'.runtime.unbuiltStatic = m.runtime.unbuiltStatic)
    (ha : m'.runtime.active = m.runtime.active)
    (hb : m'.runtime.building = m.runtime.building)
    (hp : m'.runtime.host.pairs = m.runtime.host.pairs)
    (hc : ∀ c, (m'.runtime.host.classAt c).metaclass = (m.runtime.host.classAt c).metaclass ∧
      m'.runtime.host.superclass c = m.runtime.host.superclass c) :
    Mirrors p host known stack m' :=
  ⟨h.1.of_same ht hg hh hu ha hb hp hc, hb.trans h.2.1, by rw [hg]; exact h.2.2⟩

end

/-! ## The tables at the end -/

/-- A class that the sequence registers, or a static one. -/
def Process.Listed (p : Process) (requests : List ShadowRequest) (g : Address) : Prop :=
  (p.classAt g).isClass = true ∧
    ((g ≠ 0 ∧ ∃ r ∈ requests, r.registers = some g) ∨ g ∈ p.staticClasses)

section

variable {p : Process} {host : HostRuntime} {build : Address → Act Machine Address}
  {fuel : Nat} {known : Address → Prop} {m : Machine}

theorem Mirrored.active_of_table (hm : Mirrored p host m.runtime) {a cls : Address}
    (h : m.runtime.guestToHost a = some cls) : m.runtime.active = true := by
  obtain ⟨g, pair, hmem, -⟩ := hm.table_iff.mp h
  exact hm.inv.active (.inr ⟨g, pair, hmem⟩)

/-- An address that is nothing of the guest's is in no table. -/
theorem Mirrored.stub (hm : Mirrored p host m.runtime) {a : Address} (h : p.IsStub a) :
    m.runtime.guestToHost a = none ∧ m.runtime.unbuiltStatic a = none := by
  refine ⟨hm.noStub a h, ?_⟩
  by_contra hsome
  obtain ⟨owner, howner⟩ := Option.ne_none_iff_exists'.mp hsome
  obtain ⟨-, hclass, rfl | ⟨ha, hne⟩⟩ := setup_owner (hm.static a owner howner)
  · rw [h.1] at hclass
    cases hclass
  · exact h.2 owner hclass hne ha.symm

theorem Mirrored.xlClassOut (hm : Mirrored p host m.runtime) {a cls : Address}
    (h : m.runtime.guestToHost a = some cls) : m.runtime.xlClassOut cls = a := by
  rw [ShadowRuntime.xlClassOut, if_pos (hm.active_of_table h),
    (hm.back cls a).mpr (hm.table_iff.mp h), Option.getD_some]

end

/-! ### A family of two -/

section

variable {top above : Address}

end

end Katabasis
