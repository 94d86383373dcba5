import Katabasis.Lib.Words
import Katabasis.Xlgen.LeavesApart
import Katabasis.Xlgen.Scalars

set_option autoImplicit false

/-! # Records there and back

The two functions that `Mirror` emits beside its struct (`xlate/src/xlgen.cpp`):
`<mirror>_to_guest` fills the members from the scalars of a host record, `<mirror>_to_host`
assigns them to one. A host record is what its paths designate: each assignment `h.path = …`
replaces one scalar. The paths of a record's leaves are apart, since the names of its members
are (`Fields.Named`).

**`crossing_back`** is the law of the crossing, for scalars and for records: from the host to
the guest and back is the identity, and from the guest to the host and back is, where narrowing
does not fault, the identity but for the bounds of the host's type.
-/

namespace Katabasis

open CIntegers

variable {F : FloatWidth → Type}

/-! ## The copies -/

/-- The assignment to a member of a mirror, with the conversion to its type. -/
def MemberType.store (m : Machinery F) : MemberType → Scalar F → Option (Scalar F)
  | .float, .floating width x => some (.floating .single (m.ofDouble .single (m.toDouble width x)))
  | .double, .floating width x => some (.floating .double (m.toDouble width x))
  | .int signed bits, .integer x => some (.integer (wrap signed bits x))
  | .uint64, .integer x => some (.integer (wrap false 64 x))
  | _, _ => none

/-- The scalars of a host record, by their paths. -/
abbrev HostRecord (F : FloatWidth → Type) := String → Scalar F

/-- `<mirror>_to_guest`: the members `f0`, `f1`, … in order. -/
def mirrorToGuest (m : Machinery F) : List Leaf → HostRecord F → Option (List (Scalar F))
  | [], _ => some []
  | leaf :: rest, h => do
      let x ← scalarToGuest m leaf.value (h leaf.hostPath)
      let member ← leaf.member.store m x
      let members ← mirrorToGuest m rest h
      return member :: members

/-- `<mirror>_to_host`, from the member with this index on: the assignments to the record that
is returned, unless one of them faults. -/
def mirrorToHost (m : Machinery F) (name : String) :
    Nat → List Leaf → List (Scalar F) → HostRecord F → Option (Narrowed (HostRecord F))
  | index, leaf :: rest, member :: members, h =>
      match scalarToHost m leaf.value name index member with
      | none => none
      | some (.error fault) => some (.error fault)
      | some (.ok x) =>
          mirrorToHost m name (index + 1) rest members (Function.update h leaf.hostPath x)
  | _, _, _, h => some (.ok h)

/-! ## The records -/

mutual

/-- The types of one declaration on the guest and on the host, a type of integers, pointers
that are not objects, and floating-point numbers, without unions and bit-fields. An integer
that is narrower on the host has the same signedness there; a floating-point number that is
narrower on the host is a `double` on the guest. -/
def CType.Plain : CType → CType → Prop
  | .integer width signed, .integer hwidth hsigned =>
      hwidth = width ∨ hwidth.bits < width.bits ∧ hsigned = signed
  | .floating width, .floating hwidth => hwidth = width ∨ width = .double
  | .pointer kind, .pointer _ => kind ≠ .object ∧ kind ≠ .protocol
  | .array element count, .array helement hcount => hcount = count ∧ element.Plain helement
  | .record isUnion fields _, .record _ hfields _ => isUnion = false ∧ fields.Plain hfields
  | _, _ => False

def Fields.Plain : Fields → Fields → Prop
  | .nil, .nil => True
  | .cons _ _ isBitField type rest, .cons _ _ _ htype hrest =>
      isBitField = false ∧ type.Plain htype ∧ rest.Plain hrest
  | _, _ => False

end

def Fields.names : Fields → List String
  | .nil => []
  | .cons name _ _ _ rest => name :: rest.names

/-- No identifier has a dot or a bracket in it. -/
def IsIdentifier (name : String) : Prop := ∀ c ∈ name.toList, c ≠ '.' ∧ c ≠ '['

mutual

/-- The members of every record in the type have names, and different ones. -/
def CType.Named : CType → Prop
  | .array element _ => element.Named
  | .record _ fields _ => fields.Named
  | _ => True

def Fields.Named : Fields → Prop
  | .nil => True
  | .cons name _ _ type rest =>
      IsIdentifier name ∧ name ∉ rest.names ∧ type.Named ∧ rest.Named

end

theorem Fields.Named.isIdentifier {fields : Fields} (h : fields.Named) {name : String}
    (hname : name ∈ fields.names) : IsIdentifier name := by
  cases fields with
  | nil => cases hname
  | cons first _ _ _ rest =>
      rcases List.mem_cons.mp hname with rfl | hname
      · exact h.1
      · exact h.2.2.2.isIdentifier hname

/-- The value is one of the scalar type. -/
def CType.Admits : CType → Scalar F → Prop
  | .integer width signed, .integer x => InRange signed width.bits x
  | .floating width, .floating width' _ => width' = width
  | .pointer _, .integer x => InRange false 32 x
  | _, _ => False

mutual

/-- What the record has at the path is of the host's type. -/
def CType.Holds (r : HostRecord F) (path : String) : CType → Prop
  | .array element count =>
      ∀ i < count, element.Holds r (path ++ "[" ++ toString i ++ "]")
  | .record _ fields _ => fields.Holds r path
  | .integer width signed => (CType.integer width signed).Admits (r path)
  | .floating width => (CType.floating width).Admits (r path)
  | .pointer kind => (CType.pointer kind).Admits (r path)
  | .other _ => True

def Fields.Holds (r : HostRecord F) (path : String) : Fields → Prop
  | .nil => True
  | .cons name _ _ type rest => type.Holds r (path ++ "." ++ name) ∧ rest.Holds r path

end

/-! ## One leaf -/

/-- The scalar of the leaf goes there and back. -/
def Leaf.Crosses (m : Machinery F) (r : HostRecord F) (leaf : Leaf) : Prop :=
  ∃ x member, scalarToGuest m leaf.value (r leaf.hostPath) = some x ∧
    leaf.member.store m x = some member ∧
    ∀ name index, scalarToHost m leaf.value name index member = some (.ok (r leaf.hostPath))

theorem integer_crosses {width hwidth : IntWidth} {signed hsigned : Bool} {value : Value}
    (hvalue : value = classify (.integer width signed) (.integer hwidth hsigned))
    (hplain : hwidth = width ∨ hwidth.bits < width.bits ∧ hsigned = signed) {x : Int}
    (hx : InRange hsigned hwidth.bits x) (symbol : String) (index : Nat) :
    integerToHost value (wrap signed width.bits (integerToGuest value x)) symbol index = .ok x := by
  have hpos : 0 < hwidth.bits := by cases hwidth <;> decide
  have hguest : 0 < width.bits ∧ width.bits ≤ 64 := by cases width <;> decide
  subst hvalue
  rcases hplain with rfl | ⟨hlt, rfl⟩
  · -- of one width: the casts on the way are to wider types
    have hback : ∀ y, wrap false 64 y = wrap false 64 x → wrap hsigned hwidth.bits
        (wrap signed hwidth.bits (wrap false 64 y)) = x := by
      intro y hy
      rw [hy, wrap_wrap (Nat.le_refl _), wrap_wrap_of_inRange hpos hguest.2 hx]
    unfold integerToHost integerToGuest
    simp only [classify, CType.hostBits, CType.isSigned, Nat.lt_irrefl, if_false]
    cases signed with
    | true => exact congrArg Except.ok (hback _ (wrap_wrap (Nat.le_refl _) x))
    | false => exact congrArg Except.ok (hback x rfl)
  · have hnarrower : (classify (.integer width hsigned)
        (.integer hwidth hsigned)).NarrowerOnHost := ⟨rfl, hpos, hlt, hguest.2, rfl⟩
    rw [integerToGuest_eq hnarrower hx]
    apply integerToHost_widened hnarrower hx
    exact congrArg (· % 2 ^ 64)
      (wrap_wrap_of_inRange hguest.1 hguest.2 (inRange_widened hnarrower hx))

theorem pointer_crosses {m : Machinery F} {value : Value} (hobject : value.isObject = false)
    {x : Int} (hx : InRange false 32 x) (symbol : String) (index : Nat) :
    pointerToHost m value (wrap false 64 (pointerToGuest m value x)) symbol index = .ok x := by
  have hself : wrap false 32 x = x := wrap_of_inRange (by decide) hx
  have hslot : InRange false 64 (xlWidenPointer x) := by
    rw [xlWidenPointer_eq hx]
    simp only [InRange, lowest, highest, Bool.false_eq_true, if_false] at hx ⊢
    split <;> omega
  unfold pointerToHost pointerToGuest
  rw [hobject]
  simp only [Bool.false_eq_true, if_false]
  rw [hself, wrap_of_inRange (by decide) hslot, wrap_of_inRange (by decide) hslot,
    xlNarrowPointer_widened hx]
  exact congrArg Except.ok hself

/-- A member of type `double` keeps what was cast to it; one of type `float` stands for a
`float` on both sides. -/
theorem floating_crosses {m : Machinery F} (hexact : m.Exact) {width hwidth : FloatWidth}
    (hplain : hwidth = width ∨ width = .double) (x : F hwidth) (gpath hpath : String)
    (base : Nat) :
    let value := classify (.floating width) (.floating hwidth)
    ∃ y member, scalarToGuest m value (.floating hwidth x) = some y ∧
      (Leaf.mk gpath hpath base value).member.store m y = some member ∧
      ∀ name index, scalarToHost m value name index member = some (.ok (.floating hwidth x)) := by
  have hback := Machinery.ofDouble_toDouble hexact hwidth x
  have hcast : (some (.ok (.floating hwidth (m.ofDouble hwidth (m.toDouble hwidth x)))) :
      Option (Narrowed (Scalar F))) = some (.ok (.floating hwidth x)) := by rw [hback]
  cases width with
  | double => exact ⟨_, .floating .double (m.toDouble hwidth x), rfl, rfl, fun _ _ => hcast⟩
  | half =>
      obtain rfl : hwidth = .half := hplain.resolve_right (by decide)
      exact ⟨_, .floating .double (m.toDouble .half x), rfl, rfl, fun _ _ => hcast⟩
  | single =>
      obtain rfl : hwidth = .single := hplain.resolve_right (by decide)
      refine ⟨_, .floating .single (m.ofDouble .single (m.toDouble .single x)), rfl, rfl,
        fun _ _ => ?_⟩
      rw [hback]
      exact hcast

theorem leafValue_pointer {kind hkind : PointerKind} {value : Value}
    (hvalue : leafValue (.pointer kind) (.pointer hkind) = some value)
    (hplain : (CType.pointer kind).Plain (.pointer hkind)) :
    value.kind = .pointer ∧ value.isObject = false := by
  cases kind with
  | object => exact absurd rfl hplain.1
  | protocol => exact absurd rfl hplain.2
  | data passes => cases passes <;> (simp [leafValue, classify] at hvalue; rw [← hvalue]; simp)
  | _ => simp [leafValue, classify] at hvalue; rw [← hvalue]; simp

/-- **Every leaf of a plain type goes there and back.** -/
theorem leaf_crosses {m : Machinery F} (hexact : m.Exact) {g h : CType} {value : Value}
    (hvalue : leafValue g h = some value) (hplain : g.Plain h) {r : HostRecord F} {hpath : String}
    (hadmits : h.Admits (r hpath)) (gpath : String) (base : Nat) :
    Leaf.Crosses m r ⟨gpath, hpath, base, value⟩ := by
  unfold Leaf.Crosses
  dsimp only
  cases g with
  | integer width signed =>
      cases h with
      | integer hwidth hsigned =>
          injection hvalue with hvalue
          cases hr : r hpath with
          | floating _ _ => rw [hr] at hadmits; exact hadmits.elim
          | integer x =>
              rw [hr] at hadmits
              have hback := integer_crosses hvalue.symm hplain hadmits
              subst hvalue
              exact ⟨_, _, rfl, rfl, fun name index =>
                congrArg some (congrArg (Functor.map Scalar.integer) (hback name index))⟩
      | _ => exact hplain.elim
  | floating width =>
      cases h with
      | floating hwidth =>
          cases hr : r hpath with
          | integer _ => rw [hr] at hadmits; exact hadmits.elim
          | floating width' x =>
              rw [hr] at hadmits
              injection hvalue with hvalue
              subst hvalue
              cases hadmits
              exact floating_crosses hexact hplain x gpath hpath base
      | _ => exact hplain.elim
  | pointer kind =>
      cases h with
      | pointer hkind =>
          cases hr : r hpath with
          | floating _ _ => rw [hr] at hadmits; exact hadmits.elim
          | integer x =>
              rw [hr] at hadmits
              have hkinds := leafValue_pointer hvalue hplain
              refine ⟨.integer (pointerToGuest m value x),
                .integer (wrap false 64 (pointerToGuest m value x)), ?_, ?_, fun name index => ?_⟩
              · simp only [scalarToGuest, hkinds.1]
              · simp only [Leaf.member, hkinds.1, MemberType.store]
              · simp only [scalarToHost, hkinds.1, pointer_crosses hkinds.2 hadmits]
                rfl
      | _ => exact hplain.elim
  | array element count => simp [leafValue, classify] at hvalue
  | record isUnion fields size => cases isUnion <;> simp [leafValue, classify] at hvalue
  | other size => simp [leafValue, classify] at hvalue

/-! ## The paths -/

/-- The path is the stem, or goes on from there with a member or an index. -/
def GoesOn (stem path : String) : Prop :=
  ∃ rest : List Char, path.toList = stem.toList ++ rest ∧ ∀ c ∈ rest.head?, c = '.' ∨ c = '['

theorem GoesOn.refl (stem : String) : GoesOn stem stem := ⟨[], by simp, by simp⟩

theorem GoesOn.of_member {stem name path : String} (h : GoesOn (stem ++ "." ++ name) path) :
    GoesOn stem path := by
  obtain ⟨rest, hpath, -⟩ := h
  refine ⟨'.' :: name.toList ++ rest, ?_, by simp⟩
  rw [hpath]
  simp [String.toList_append]

theorem GoesOn.of_index {stem path : String} {i : Nat}
    (h : GoesOn (stem ++ "[" ++ toString i ++ "]") path) : GoesOn stem path := by
  obtain ⟨rest, hpath, -⟩ := h
  refine ⟨'[' :: (toString i).toList ++ ']' :: rest, ?_, by simp⟩
  rw [hpath]
  simp [String.toList_append]

/-- The path of a member does not go on from that of another. -/
theorem member_unique {stem name name' path : String} (hname : IsIdentifier name)
    (hname' : IsIdentifier name') (h : GoesOn (stem ++ "." ++ name) path)
    (h' : GoesOn (stem ++ "." ++ name') path) : name = name' := by
  obtain ⟨rest, hpath, hrest⟩ := h
  obtain ⟨rest', hpath', hrest'⟩ := h'
  have heq : name.toList ++ rest = name'.toList ++ rest' := by
    rw [hpath] at hpath'
    simpa [String.toList_append] using hpath'
  have hdelimiter : ∀ {l : List Char}, (∀ c ∈ l.head?, c = '.' ∨ c = '[') →
      ∀ c ∈ l.head?, (c != '.' && c != '[') = false := by
    intro l hl c hc
    rcases hl c hc with rfl | rfl <;> decide
  apply String.toList_inj.mp
  refine Words.word_unique (fun c hc => ?_) (fun c hc => ?_) (hdelimiter hrest)
    (hdelimiter hrest') heq
  · simp [hname c hc]
  · simp [hname' c hc]

/-- The path of an element does not go on from that of another. -/
theorem index_unique {stem path : String} {i j : Nat}
    (h : GoesOn (stem ++ "[" ++ toString i ++ "]") path)
    (h' : GoesOn (stem ++ "[" ++ toString j ++ "]") path) : i = j := by
  obtain ⟨rest, hpath, -⟩ := h
  obtain ⟨rest', hpath', -⟩ := h'
  have heq : (toString i).toList ++ ']' :: rest = (toString j).toList ++ ']' :: rest' := by
    rw [hpath] at hpath'
    simpa [String.toList_append] using hpath'
  have hclose : ∀ {l : List Char}, ∀ c ∈ (']' :: l).head?, c.isDigit = false := by
    intro l c hc
    obtain rfl : ']' = c := by simpa using hc
    decide
  exact Words.number_unique hclose hclose heq

/-! ## The walk -/

/-- The walk comes to its end; the paths of its leaves go on from the stems and are all
different; and each leaf of a record of the host's types goes there and back. -/
def Walk.Crosses (m : Machinery F) (walk : Walk) (stems : List String)
    (holds : HostRecord F → Prop) : Prop :=
  ∃ ls, walk = some (true, ls) ∧
    (∀ leaf ∈ ls, ∃ stem ∈ stems, GoesOn stem leaf.hostPath) ∧
    (ls.map Leaf.hostPath).Nodup ∧
    ∀ r, holds r → ∀ leaf ∈ ls, leaf.Crosses m r

namespace Walk.Crosses

variable {m : Machinery F}

theorem done (holds : HostRecord F → Prop) :
    Walk.Crosses m (some (true, [])) [] holds :=
  ⟨[], rfl, by simp, List.nodup_nil, by simp⟩

/-- **The step over a member**: its leaves, and those of the members after it. -/
theorem andThen {a b : Walk} {stems stems' : List String} {holds holds' : HostRecord F → Prop}
    (ha : a.Crosses m stems holds) (hb : b.Crosses m stems' holds')
    (hapart : ∀ stem ∈ stems, ∀ stem' ∈ stems', ∀ path, GoesOn stem path →
      ¬ GoesOn stem' path) :
    (a.andThen b).Crosses m (stems ++ stems') fun r => holds r ∧ holds' r := by
  obtain ⟨ls, rfl, hunder, hnodup, hcross⟩ := ha
  obtain ⟨ls', rfl, hunder', hnodup', hcross'⟩ := hb
  refine ⟨ls ++ ls', rfl, fun leaf hleaf => ?_, ?_, fun r hr leaf hleaf => ?_⟩
  · rcases List.mem_append.mp hleaf with h | h
    · obtain ⟨stem, hstem, hgoes⟩ := hunder leaf h
      exact ⟨stem, List.mem_append_left _ hstem, hgoes⟩
    · obtain ⟨stem, hstem, hgoes⟩ := hunder' leaf h
      exact ⟨stem, List.mem_append_right _ hstem, hgoes⟩
  · rw [List.map_append]
    refine List.Nodup.append hnodup hnodup' fun path h h' => ?_
    obtain ⟨leaf, hleaf, rfl⟩ := List.mem_map.mp h
    obtain ⟨leaf', hleaf', hsame⟩ := List.mem_map.mp h'
    obtain ⟨stem, hstem, hgoes⟩ := hunder leaf hleaf
    obtain ⟨stem', hstem', hgoes'⟩ := hunder' leaf' hleaf'
    rw [hsame] at hgoes'
    exact hapart stem hstem stem' hstem' _ hgoes hgoes'
  · rcases List.mem_append.mp hleaf with h | h
    · exact hcross r hr.1 leaf h
    · exact hcross' r hr.2 leaf h

theorem mono {walk : Walk} {stems : List String} {stem : String}
    {holds holds' : HostRecord F → Prop} (h : walk.Crosses m stems holds)
    (hstem : ∀ stem' ∈ stems, ∀ path, GoesOn stem' path → GoesOn stem path)
    (hholds : ∀ r, holds' r → holds r) : walk.Crosses m [stem] holds' := by
  obtain ⟨ls, hwalk, hunder, hnodup, hcross⟩ := h
  refine ⟨ls, hwalk, fun leaf hleaf => ?_, hnodup, fun r hr => hcross r (hholds r hr)⟩
  obtain ⟨stem', hstem', hgoes⟩ := hunder leaf hleaf
  exact ⟨stem, List.mem_singleton_self _, hstem stem' hstem' _ hgoes⟩

/-- The walk over the elements of an array. -/
theorem all {w : Nat → Walk} {stem : Nat → String} {holds : Nat → HostRecord F → Prop}
    (hstem : ∀ i j path, GoesOn (stem i) path → GoesOn (stem j) path → i = j) {is : List Nat}
    (hnodup : is.Nodup) (h : ∀ i ∈ is, (w i).Crosses m [stem i] (holds i)) :
    (Walk.all (is.map w)).Crosses m (is.map stem) fun r => ∀ i ∈ is, holds i r := by
  induction is with
  | nil => exact done _
  | cons i rest ih =>
      obtain ⟨hne, hrest⟩ := List.nodup_cons.mp hnodup
      have hfirst := h i List.mem_cons_self
      have hall := ih hrest fun j hj => h j (List.mem_cons_of_mem _ hj)
      obtain ⟨ls, hwalk, hunder, hpaths, hcross⟩ := hfirst.andThen hall (by
        intro stem' hstem' stem'' hstem'' path hgoes hgoes'
        obtain rfl := List.mem_singleton.mp hstem'
        obtain ⟨j, hj, rfl⟩ := List.mem_map.mp hstem''
        rw [hstem i j path hgoes hgoes'] at hne
        exact hne hj)
      refine ⟨ls, hwalk, hunder, hpaths, fun r hr => hcross r ⟨hr i List.mem_cons_self, ?_⟩⟩
      exact fun j hj => hr j (List.mem_cons_of_mem _ hj)

end Walk.Crosses

theorem scalarLeaf_crosses {m : Machinery F} (hexact : m.Exact) {g h : CType} {value : Value}
    (hvalue : leafValue g h = some value) (hplain : g.Plain h) (gpath hpath : String)
    (base : Nat) :
    Walk.Crosses m (leaves.scalarLeaf g h gpath hpath base) [hpath]
      fun r => h.Admits (r hpath) := by
  refine ⟨[⟨gpath, hpath, base, value⟩], ?_, fun leaf hleaf => ?_, List.nodup_singleton _,
    fun r hr leaf hleaf => ?_⟩
  · rw [leaves.scalarLeaf, hvalue]
  · rw [List.mem_singleton.mp hleaf]
    exact ⟨hpath, List.mem_singleton_self _, GoesOn.refl _⟩
  · rw [List.mem_singleton.mp hleaf]
    exact leaf_crosses hexact hvalue hplain hr gpath base

mutual

/-- **The walk over a plain type**, by induction on the type and its fields. -/
theorem leaves_cross {m : Machinery F} (hexact : m.Exact) {g h : CType} (hplain : g.Plain h)
    (hnamed : h.Named) (gpath hpath : String) (base : Nat) :
    Walk.Crosses m (leaves g h gpath hpath base) [hpath] fun r => h.Holds r hpath := by
  cases g with
  | integer width signed =>
      cases h with
      | integer hwidth hsigned => exact scalarLeaf_crosses hexact rfl hplain gpath hpath base
      | _ => exact hplain.elim
  | floating width =>
      cases h with
      | floating hwidth => exact scalarLeaf_crosses hexact rfl hplain gpath hpath base
      | _ => exact hplain.elim
  | pointer kind =>
      cases h with
      | pointer hkind =>
          obtain ⟨value, hvalue⟩ : ∃ value,
              leafValue (.pointer kind) (.pointer hkind) = some value := by
            cases kind with
            | protocol => exact absurd rfl hplain.2
            | data passes => cases passes <;> exact ⟨_, rfl⟩
            | _ => exact ⟨_, rfl⟩
          exact scalarLeaf_crosses hexact hvalue hplain gpath hpath base
      | _ => exact hplain.elim
  | array element count =>
      cases h with
      | array helement hcount =>
          obtain ⟨rfl, helement⟩ := hplain
          have hall := Walk.Crosses.all (m := m) (fun i j path => index_unique)
            List.nodup_range fun i (_ : i ∈ List.range hcount) =>
              leaves_cross hexact helement hnamed
                (gpath ++ "[" ++ toString i ++ "]") (hpath ++ "[" ++ toString i ++ "]")
                (base + i * element.guestSize)
          refine hall.mono (fun stem hstem path hgoes => ?_) fun r hr i hi =>
            hr i (List.mem_range.mp hi)
          obtain ⟨i, -, rfl⟩ := List.mem_map.mp hstem
          exact hgoes.of_index
      | _ => exact hplain.elim
  | record isUnion fields size =>
      cases h with
      | record hisUnion hfields hsize =>
          refine (fieldLeaves_cross hexact hplain.2 hnamed gpath hpath base).mono
            (fun stem hstem path hgoes => ?_) fun r hr => hr
          obtain ⟨name, -, rfl⟩ := List.mem_map.mp hstem
          exact hgoes.of_member
      | _ => exact hplain.elim
  | other size => cases h <;> exact hplain.elim

theorem fieldLeaves_cross {m : Machinery F} (hexact : m.Exact) {gf hf : Fields}
    (hplain : gf.Plain hf) (hnamed : hf.Named) (gpath hpath : String) (base : Nat) :
    Walk.Crosses m (fieldLeaves gf hf gpath hpath base) (hf.names.map (hpath ++ "." ++ ·))
      fun r => hf.Holds r hpath := by
  cases gf with
  | nil =>
      cases hf with
      | nil => exact Walk.Crosses.done _
      | cons _ _ _ _ _ => exact hplain.elim
  | cons name offset isBitField type rest =>
      cases hf with
      | nil => exact hplain.elim
      | cons hname hoffset hbit htype hrest =>
          obtain ⟨rfl, htypes, hrests⟩ := hplain
          obtain ⟨hidentifier, hnew, hnamedType, hnamedRest⟩ := hnamed
          have hfirst := leaves_cross hexact htypes hnamedType (gpath ++ "." ++ name)
            (hpath ++ "." ++ hname) (base + offset)
          have hmore := fieldLeaves_cross hexact hrests hnamedRest gpath hpath base
          refine hfirst.andThen hmore fun stem hstem stem' hstem' path hgoes hgoes' => ?_
          obtain rfl := List.mem_singleton.mp hstem
          obtain ⟨name', hname', rfl⟩ := List.mem_map.mp hstem'
          have heq := member_unique hidentifier (hnamedRest.isIdentifier hname') hgoes hgoes'
          rw [heq] at hnew
          exact hnew hname'

end

/-! ## The copies there and back -/

theorem mirrorToGuest_crosses {m : Machinery F} {r : HostRecord F} {ls : List Leaf}
    (hcross : ∀ leaf ∈ ls, leaf.Crosses m r) :
    ∃ members, mirrorToGuest m ls r = some members ∧ List.Forall₂ (fun leaf member =>
      ∀ name index, scalarToHost m leaf.value name index member
        = some (.ok (r leaf.hostPath))) ls members := by
  induction ls with
  | nil => exact ⟨[], rfl, .nil⟩
  | cons leaf rest ih =>
      obtain ⟨x, member, hx, hmember, hback⟩ := hcross leaf List.mem_cons_self
      obtain ⟨members, hmembers, hall⟩ := ih fun l hl => hcross l (List.mem_cons_of_mem _ hl)
      refine ⟨member :: members, ?_, .cons hback hall⟩
      simp only [mirrorToGuest, hx, hmember, hmembers, bind, Option.bind]
      rfl

/-- Each assignment leaves the paths of the other leaves as they are. -/
theorem mirrorToHost_crosses {m : Machinery F} {r : HostRecord F} {ls : List Leaf}
    {members : List (Scalar F)} (hnodup : (ls.map Leaf.hostPath).Nodup)
    (h : List.Forall₂ (fun leaf member => ∀ name index,
      scalarToHost m leaf.value name index member = some (.ok (r leaf.hostPath))) ls members)
    (name : String) (index : Nat) (uninitialized : HostRecord F) :
    ∃ r', mirrorToHost m name index ls members uninitialized = some (.ok r') ∧
      (∀ leaf ∈ ls, r' leaf.hostPath = r leaf.hostPath) ∧
      ∀ path, path ∉ ls.map Leaf.hostPath → r' path = uninitialized path := by
  induction h generalizing index uninitialized with
  | nil => exact ⟨uninitialized, rfl, by simp, fun _ _ => rfl⟩
  | @cons leaf member rest members hback _ ih =>
      obtain ⟨hnew, hrest⟩ := List.nodup_cons.mp hnodup
      obtain ⟨r', hrun, hsame, hothers⟩ := ih hrest (index + 1)
        (Function.update uninitialized leaf.hostPath (r leaf.hostPath))
      refine ⟨r', ?_, fun l hl => ?_, fun path hpath => ?_⟩
      · rw [mirrorToHost, hback]
        exact hrun
      · rcases List.mem_cons.mp hl with rfl | hl
        · rw [hothers _ hnew, Function.update_self]
        · exact hsame l hl
      · obtain ⟨hne, hnotin⟩ := not_or.mp (mt List.mem_cons.mpr hpath)
        rw [hothers path hnotin, Function.update_of_ne hne]

/-- **Crossing the boundary and back is the identity**, and crossing it the other way is where
it does not fault. An integer that is narrower on the host, and a pointer, go to the guest and
come back; a guest's value `x`, in a slot or a member that holds it, faults exactly when it is
out of the host's range and none of the guest's bounds (of a pointer: when its high word is
neither zero nor that of a sentinel), and unless it is one of the host's bounds (of a pointer: a
sentinel of 32 bits), what it is narrowed to is widened to it. The scalars of a host record come
back from its mirror, each to its path. -/
theorem crossing_back {m : Machinery F} (hexact : m.Exact) :
    (∀ value : Value, value.NarrowerOnHost → ∀ symbol index,
      (∀ x, InRange value.isSigned value.hostBits x →
        (scalarToGuest m value (.integer x)).bind (scalarToHost m value symbol index)
          = some (.ok (.integer x))) ∧
      ∀ x slot, InRange value.isSigned value.guestBits x → slot % 2 ^ 64 = x % 2 ^ 64 →
        ((∃ fault, scalarToHost m value symbol index (.integer slot) = some (.error fault)) ↔
          ¬ InRange value.isSigned value.hostBits x ∧
            x ≠ lowest value.isSigned value.guestBits ∧
            x ≠ highest value.isSigned value.guestBits) ∧
        ∀ y, scalarToHost m value symbol index (.integer slot) = some (.ok y) →
          x ≠ lowest value.isSigned value.hostBits → x ≠ highest value.isSigned value.hostBits →
          scalarToGuest m value y = some (.integer (wrap false 64 x))) ∧
    (∀ symbol index,
      (∀ x, InRange false 32 x → xlNarrowPointer (xlWidenPointer x) symbol index = .ok x) ∧
      ∀ x, InRange false 64 x →
        ((∃ fault, xlNarrowPointer x symbol index = .error fault) ↔
          x / 2 ^ 32 ≠ 0 ∧ x < 0xFFFFFFFFFFFFFF00) ∧
        ∀ y, xlNarrowPointer x symbol index = .ok y →
          ¬ (0xFFFFFF00 ≤ x ∧ x ≤ 0xFFFFFFFF) → xlWidenPointer y = x) ∧
    ∀ g h : CType, g.Plain h → h.Named → ∃ ls, leaves g h "" "" 0 = some (true, ls) ∧
      ∀ r, h.Holds r "" → ∀ name uninitialized, ∃ members r',
        mirrorToGuest m ls r = some members ∧
        mirrorToHost m name 0 ls members uninitialized = some (.ok r') ∧
        ∀ leaf ∈ ls, r' leaf.hostPath = r leaf.hostPath := by
  refine ⟨fun value h symbol index => ⟨fun x hx => ?_, fun x slot hx hslot => ?_⟩,
    fun symbol index => ⟨fun x hx => xlNarrowPointer_widened hx symbol index,
      fun x hx => xlWidenPointer_narrowed hx symbol index⟩, fun g h hplain hnamed => ?_⟩
  · have hslot : integerToGuest value x % 2 ^ 64 = value.widened x % 2 ^ 64 := by
      rw [integerToGuest_eq h hx, wrap_emod]
    have hback := integerToHost_widened h hx hslot symbol index
    simp only [scalarToGuest, h.kind, Option.bind_some, scalarToHost, hback]
    rfl
  · obtain ⟨hfault, hback⟩ := integerToGuest_narrowed h hx hslot symbol index
    have hscalar : scalarToHost m value symbol index (.integer slot)
        = some (Scalar.integer <$> integerToHost value slot symbol index) := by
      simp only [scalarToHost, h.kind]
    rw [hscalar]
    cases hnarrowed : integerToHost value slot symbol index with
    | error fault =>
        rw [hnarrowed] at hfault
        exact ⟨⟨fun _ => hfault.mp ⟨fault, rfl⟩, fun _ => ⟨fault, rfl⟩⟩, fun y hy => by cases hy⟩
    | ok z =>
        rw [hnarrowed] at hfault hback
        refine ⟨⟨?_, fun hno => ?_⟩, fun y hy hlow hhigh => ?_⟩
        · rintro ⟨fault, h⟩
          cases h
        · obtain ⟨fault, herror⟩ := hfault.mpr hno
          cases herror
        · obtain rfl : Scalar.integer z = y := by cases hy; rfl
          simp only [scalarToGuest, h.kind, hback z rfl hlow hhigh]
  · obtain ⟨ls, hwalk, -, hnodup, hcross⟩ := leaves_cross hexact hplain hnamed "" "" 0
    refine ⟨ls, hwalk, fun r hr name uninitialized => ?_⟩
    obtain ⟨members, hmembers, hback⟩ := mirrorToGuest_crosses (hcross r hr)
    obtain ⟨r', hrun, hsame, -⟩ := mirrorToHost_crosses hnodup hback name 0 uninitialized
    exact ⟨members, r', hmembers, hrun, hsame⟩

/-! ### A sample -/

def precision : FloatWidth → Nat
  | .half => 11
  | .single => 24
  | .double => 53

/-- A number of a format as `significand * 2 ^ exponent`, with as many bits as it keeps. -/
structure Digits (width : FloatWidth) where
  significand : Int
  exponent : Int
  fits : significand.natAbs < 2 ^ precision width

theorem precision_le (width : FloatWidth) : precision width ≤ 53 := by cases width <;> decide

/-- The bits that a narrower format does not keep. -/
theorem natAbs_tdiv_lt {width : FloatWidth} {x : Int} (h : x.natAbs < 2 ^ 53) :
    (x.tdiv (2 ^ (53 - precision width))).natAbs < 2 ^ precision width := by
  have hpow : 2 ^ precision width * 2 ^ (53 - precision width) = 2 ^ 53 := by
    rw [← pow_add, Nat.add_sub_cancel' (precision_le width)]
  rw [Int.natAbs_tdiv, Int.natAbs_pow]
  exact (Nat.div_lt_iff_lt_mul (by positivity)).mpr (by rw [show Int.natAbs 2 = 2 from rfl]; omega)

/-- Conversions that keep a number which fits, and cut off what does not; no result here is
about object pointers. -/
def digitMachinery : Machinery Digits where
  extend width x :=
    ⟨x.significand, x.exponent,
      Nat.lt_of_lt_of_le x.fits (Nat.pow_le_pow_right (by decide) (precision_le width))⟩
  round width x :=
    if h : x.significand.natAbs < 2 ^ precision width then ⟨x.significand, x.exponent, h⟩
    else ⟨x.significand.tdiv (2 ^ (53 - precision width)),
      x.exponent + (53 - precision width : Nat), natAbs_tdiv_lt x.fits⟩
  xlObjectIn x _ _ := .ok x
  xlObjectOut x := x

theorem digitMachinery_exact : digitMachinery.Exact := by
  intro width x
  exact dif_pos x.fits

/-- A record with a length, a buffer, a scale and two tags, on the guest and on the host. -/
def sampleGuest : CType :=
  .record false (.cons "length" 0 false (.integer .w64 false)
    (.cons "buffer" 8 false (.pointer (.data true))
      (.cons "scale" 16 false (.floating .double)
        (.cons "tags" 24 false (.array (.integer .w64 true) 2) .nil)))) 40

def sampleHost : CType :=
  .record false (.cons "length" 0 false (.integer .w32 false)
    (.cons "buffer" 4 false (.pointer (.data true))
      (.cons "scale" 8 false (.floating .single)
        (.cons "tags" 12 false (.array (.integer .w32 true) 2) .nil)))) 20

/-- The greatest length, `MAP_FAILED`, one and a half, and `NSNotFound` and its opposite. -/
def sampleRecord : HostRecord Digits := fun path =>
  if path = ".length" then .integer 0xFFFFFFFF
  else if path = ".buffer" then .integer 0xFFFFFFFF
  else if path = ".scale" then .floating .single ⟨3, -1, by decide⟩
  else if path = ".tags[0]" then .integer 0x7FFFFFFF
  else .integer (-0x7FFFFFFF)

theorem sampleRecord_holds : sampleHost.Holds sampleRecord "" := by
  refine ⟨?_, ?_, ?_, ?_, trivial⟩
  · show InRange false 32 0xFFFFFFFF
    decide
  · show InRange false 32 0xFFFFFFFF
    decide
  · rfl
  · intro i hi
    show (CType.integer .w32 true).Admits _
    match i, hi with
    | 0, _ => show InRange true 32 0x7FFFFFFF; decide
    | 1, _ => show InRange true 32 (-0x7FFFFFFF); decide

/-- `NSInteger`: a `long` on the guest, an `int` on the host. -/
def nsInteger : Value := classify (.integer .w64 true) (.integer .w32 true)

theorem crossing_back_sample :
    (scalarToGuest digitMachinery nsInteger (.integer 0x7FFFFFFF)).bind
        (scalarToHost digitMachinery nsInteger "count" 0) = some (.ok (.integer 0x7FFFFFFF)) ∧
      (∃ fault, scalarToHost digitMachinery nsInteger "count" 0 (.integer 0x80000000)
        = some (.error fault)) ∧
      xlNarrowPointer (xlWidenPointer 0xFFFFFFFF) "mmap" 0 = .ok 0xFFFFFFFF ∧
      ∃ ls, leaves sampleGuest sampleHost "" "" 0 = some (true, ls) ∧ ∃ members r',
        mirrorToGuest digitMachinery ls sampleRecord = some members ∧
        mirrorToHost digitMachinery "xl_g_sample" 0 ls members (fun _ => .integer 0)
          = some (.ok r') ∧
        ∀ leaf ∈ ls, r' leaf.hostPath = sampleRecord leaf.hostPath := by
  obtain ⟨hintegers, hpointers, hrecords⟩ := crossing_back digitMachinery_exact
  have hnarrower : nsInteger.NarrowerOnHost := ⟨rfl, by decide, by decide, by decide, rfl⟩
  obtain ⟨hthere, hback⟩ := hintegers nsInteger hnarrower "count" 0
  have hplain : sampleGuest.Plain sampleHost := by
    simp [sampleGuest, sampleHost, CType.Plain, Fields.Plain, IntWidth.bits]
  have hnamed : sampleHost.Named := by
    simp [sampleHost, CType.Named, Fields.Named, Fields.names, IsIdentifier]
  obtain ⟨ls, hwalk, hcopies⟩ := hrecords sampleGuest sampleHost hplain hnamed
  exact ⟨hthere 0x7FFFFFFF (by decide),
    (hback 0x80000000 0x80000000 (by decide) rfl).1.mpr (by decide),
    (hpointers "mmap" 0).1 0xFFFFFFFF (by decide),
    ls, hwalk, hcopies sampleRecord sampleRecord_holds "xl_g_sample" _⟩

end Katabasis
