import Mathlib.Tactic

set_option autoImplicit false

/-! # Data that crosses unconverted

`SameLayout` walks the guest's and the host's type of one declaration together and decides
whether a pointer to such an object, or the symbol of such a variable, is passed on as it is
(`xlate/src/xlgen.cpp`). Where it says yes the two sides should see the same scalars in the same
places, and no pointers among them.

`leaves` flattens a type to its scalars. The walk says yes to three kinds of pairs without a
look at what is in them: an incomplete type, a guest record that it has met before, and a guest
scalar, whatever the host has there. **`same_iff_fine`**: of a pair that it accepts, the scalars
are the same exactly when they are the same at each of those places.

Sizes and offsets are in bits, as clang gives them.
-/

namespace Katabasis

namespace SameLayout

/-- What a field declares: a whole object, or some bits. A bit-field without a name is padding. -/
inductive FieldKind
  | object
  | bits (named : Bool) (width : Nat)
  deriving DecidableEq, Repr

mutual

/-- A canonical type with the layout clang gives it on one of the two targets. -/
inductive QualType
  | void
  | function
  /-- A record that is declared and never defined. -/
  | incomplete
  | scalar (size align : Nat)
  /-- A pointer, a block pointer or an object pointer. -/
  | pointer (size align : Nat)
  | array (element : QualType) (count : Nat)
  /-- An array without a count, which is a flexible array member where a struct ends in it. -/
  | flexible (element : QualType)
  | record (decl : Nat) (isUnion : Bool) (fields : Fields) (size align : Nat)
  deriving DecidableEq, Repr

inductive Fields
  | nil
  | cons (offset : Nat) (kind : FieldKind) (type : QualType) (rest : Fields)
  deriving DecidableEq, Repr

end

namespace QualType

def isVoidType : QualType → Bool
  | void => true
  | _ => false

def isFunctionType : QualType → Bool
  | function => true
  | _ => false

def isIncompleteType : QualType → Bool
  | void | incomplete | flexible _ => true
  | _ => false

def isAnyPointerType : QualType → Bool
  | pointer _ _ => true
  | _ => false

/-- `getTypeSize` -/
def typeSize : QualType → Nat
  | void | function | incomplete | flexible _ => 0
  | scalar size _ => size
  | pointer size _ => size
  | array element count => count * element.typeSize
  | record _ _ _ size _ => size

/-- `getTypeAlign` -/
def typeAlign : QualType → Nat
  | void | incomplete => 8
  | function => 32
  | scalar _ align => align
  | pointer _ align => align
  | array element _ => element.typeAlign
  | flexible element => element.typeAlign
  | record _ _ _ _ align => align

end QualType

mutual

/-- `SameLayout`: its answer, and the guest's records it has met so far. -/
def sameLayout (seen : List Nat) (g h : QualType) : Bool × List Nat :=
  if g.isVoidType || g.isFunctionType then (h.isVoidType || h.isFunctionType, seen)
  else if g.isIncompleteType || h.isIncompleteType then (true, seen)
  else if g.isAnyPointerType then (false, seen)
  else if g.typeSize != h.typeSize || g.typeAlign != h.typeAlign then (false, seen)
  else
    match g with
    | .array gelement _ =>
        match h with
        | .array helement _ => sameLayout seen gelement helement
        | _ => (false, seen)
    | .record gr _ gfields _ _ =>
        match h with
        | .record _ _ hfields _ _ =>
            if gr ∈ seen then (true, seen) else sameFields (gr :: seen) gfields hfields
        | _ => (false, seen)
    | _ => (true, seen)

/-- The loop of `SameLayout` over the fields of two records. -/
def sameFields (seen : List Nat) (gf hf : Fields) : Bool × List Nat :=
  match gf with
  | .nil => (hf matches .nil, seen)
  | .cons goffset _ gtype grest =>
      match hf with
      | .nil => (false, seen)
      | .cons hoffset _ htype hrest =>
          if goffset != hoffset then (false, seen)
          else
            let inner := sameLayout seen gtype htype
            if inner.1 then sameFields inner.2 grest hrest else (false, inner.2)

end

/-! ## The scalars of a type -/

/-- What lies around a scalar: the member of a union it is in, or the size of the elements of a
flexible array it is in, of which it stands for every one. -/
inductive Place
  | member (index : Nat)
  | element (size : Nat)
  deriving DecidableEq, Repr

structure Leaf where
  offset : Nat
  size : Nat
  isPointer : Bool
  places : List Place
  deriving DecidableEq, Repr

namespace Leaf

def shift (distance : Nat) (leaf : Leaf) : Leaf :=
  { leaf with offset := distance + leaf.offset }

def under (place : Place) (leaf : Leaf) : Leaf :=
  { leaf with places := place :: leaf.places }

end Leaf

namespace FieldKind

/-- The scalars of a field, from those of its type. -/
def leaves : FieldKind → List Leaf → List Leaf
  | object, type => type
  | bits true width, _ => [⟨0, width, false, []⟩]
  | bits false _, _ => []

/-- The bits a field takes up, from the size of its type. -/
def extent : FieldKind → Nat → Nat
  | object, size => size
  | bits _ width, _ => width

end FieldKind

/-- There are two fields at least. -/
def Fields.several : Fields → Bool
  | .cons _ _ _ (.cons _ _ _ _) => true
  | _ => false

def Fields.isNil : Fields → Bool
  | .nil => true
  | _ => false

mutual

/-- The scalars of a type in the order they are declared in. -/
def QualType.leaves : QualType → List Leaf
  | .void | .function | .incomplete => []
  | .scalar size _ => [⟨0, size, false, []⟩]
  | .pointer size _ => [⟨0, size, true, []⟩]
  | .array element count =>
      (List.range count).flatMap fun i => element.leaves.map (Leaf.shift (i * element.typeSize))
  | .flexible element => element.leaves.map (Leaf.under (.element element.typeSize))
  | .record _ isUnion fields _ _ =>
      if isUnion && fields.several then fields.memberLeaves 0 else fields.leaves

/-- The scalars of the fields, one field after the other. -/
def Fields.leaves : Fields → List Leaf
  | .nil => []
  | .cons offset kind type rest =>
      (kind.leaves type.leaves).map (Leaf.shift offset) ++ rest.leaves

/-- The scalars of the members of a union, each with the member it is in. -/
def Fields.memberLeaves : Fields → Nat → List Leaf
  | .nil, _ => []
  | .cons _ kind type rest, index =>
      (kind.leaves type.leaves).map (Leaf.under (.member index)) ++ rest.memberLeaves (index + 1)

end

/-- The two sides have the same scalars, at the same offsets and of the same sizes, and no
pointers. -/
def Same (g h : List Leaf) : Prop :=
  g = h ∧ ∀ leaf ∈ g, leaf.isPointer = false

/-! ## Layouts that C allows -/

/-- A bit-field with a name has a width. -/
def FieldKind.Valid : FieldKind → Prop
  | bits true width => 0 < width
  | _ => True

mutual

/-- The type of an object, laid out as C allows. Where it is `openEnded` it may be a flexible
array, or end in one. -/
def QualType.WellFormed (openEnded : Bool) : QualType → Prop
  | .void | .function | .incomplete => False
  | .scalar size _ => 0 < size
  | .pointer size _ => 0 < size
  | .array element _ => element.WellFormed false
  | .flexible element => openEnded = true ∧ element.WellFormed false
  | .record _ false fields size _ => fields.InOrder openEnded 0 size
  | .record _ true fields size _ => fields.AtStart openEnded size

/-- The fields of a struct from `cursor` on: none starts before the previous one ends. -/
def Fields.InOrder (openEnded : Bool) : Fields → Nat → Nat → Prop
  | .nil, cursor, size => cursor ≤ size
  | .cons offset kind type rest, cursor, size =>
      kind.Valid ∧ type.WellFormed (openEnded && rest.isNil) ∧ cursor ≤ offset ∧
        rest.InOrder openEnded (offset + kind.extent type.typeSize) size

/-- The members of a union: all start where it starts, and end before it does. -/
def Fields.AtStart (openEnded : Bool) : Fields → Nat → Prop
  | .nil, _ => True
  | .cons offset kind type rest, size =>
      kind.Valid ∧ type.WellFormed openEnded ∧ offset = 0 ∧ kind.extent type.typeSize ≤ size ∧
        rest.AtStart openEnded size

end

/-! ## What the walk does not look at -/

mutual

/-- The guest's records met after a walk over the two types. -/
def walked (met : List Nat) (g h : QualType) : List Nat :=
  if g.isIncompleteType || h.isIncompleteType then met
  else
    match g with
    | .array gelement _ =>
        match h with
        | .array helement _ => walked met gelement helement
        | _ => met
    | .record decl _ gfields _ _ =>
        match h with
        | .record _ _ hfields _ _ =>
            if decl ∈ met then met else walkedFields (decl :: met) gfields hfields
        | _ => met
    | _ => met

def walkedFields (met : List Nat) (gf hf : Fields) : List Nat :=
  match gf with
  | .nil => met
  | .cons _ _ gtype grest =>
      match hf with
      | .nil => met
      | .cons _ _ htype hrest => walkedFields (walked met gtype htype) grest hrest

end

mutual

/-- Wherever a walk over the two types accepts without a look, they have the same scalars. -/
def Fine (met : List Nat) (g h : QualType) : Prop :=
  if g.isIncompleteType || h.isIncompleteType then Same g.leaves h.leaves
  else
    match g with
    | .array gelement count =>
        match h with
        | .array helement _ => count = 0 ∨ Fine met gelement helement
        | _ => True
    | .record decl gunion gfields _ _ =>
        match h with
        | .record _ hunion hfields _ _ =>
            -- the offsets of a struct with one field and of a union with one are the same
            if decl ∈ met ∨ (gunion && gfields.several) ≠ (hunion && hfields.several) then
              Same g.leaves h.leaves
            else FineFields (decl :: met) gfields hfields
        | _ => True
    | _ => Same g.leaves h.leaves

/-- The same of the fields of two records. The widths of bit-fields are not compared either. -/
def FineFields (met : List Nat) (gf hf : Fields) : Prop :=
  match gf with
  | .nil => True
  | .cons _ gkind gtype grest =>
      match hf with
      | .nil => True
      | .cons _ hkind htype hrest =>
          (if gkind = .object ∧ hkind = .object then Fine met gtype htype
            else Same (gkind.leaves gtype.leaves) (hkind.leaves htype.leaves)) ∧
            FineFields (walked met gtype htype) grest hrest

end

/-! ## What an accepted pair looks like -/

/-- Past the incomplete types only data is accepted that has the same size and alignment. -/
theorem same_size_align {seen : List Nat} {g h : QualType}
    (hdata : (g.isVoidType || g.isFunctionType) = false)
    (hin : (g.isIncompleteType || h.isIncompleteType) = false)
    (haccept : (sameLayout seen g h).1 = true) :
    g.isAnyPointerType = false ∧
      (g.typeSize != h.typeSize || g.typeAlign != h.typeAlign) = false := by
  unfold sameLayout at haccept
  rw [hdata, hin] at haccept
  by_cases hpointer : g.isAnyPointerType = true
  · simp [hpointer] at haccept
  · by_cases hlayout : (g.typeSize != h.typeSize || g.typeAlign != h.typeAlign) = true
    · simp [hpointer, hlayout] at haccept
    · exact ⟨by simpa using hpointer, by simpa using hlayout⟩

theorem QualType.WellFormed.isData {g : QualType} {openEnded : Bool}
    (hg : g.WellFormed openEnded) : (g.isVoidType || g.isFunctionType) = false := by
  cases g with
  | void => cases hg
  | function => cases hg
  | _ => rfl

theorem typeSize_eq {seen : List Nat} {g h : QualType} {openEnded : Bool}
    (hg : g.WellFormed openEnded) (hin : (g.isIncompleteType || h.isIncompleteType) = false)
    (haccept : (sameLayout seen g h).1 = true) : g.typeSize = h.typeSize := by
  have hlayout := (same_size_align hg.isData hin haccept).2
  rw [Bool.or_eq_false_iff] at hlayout
  simpa using hlayout.1

/-- An array is accepted with an array whose elements are accepted. -/
theorem accepts_array {seen : List Nat} {gelement : QualType} {count : Nat} {h : QualType}
    (hin : ((QualType.array gelement count).isIncompleteType || h.isIncompleteType) = false)
    (haccept : (sameLayout seen (.array gelement count) h).1 = true) :
    ∃ helement hcount, h = .array helement hcount ∧
      sameLayout seen (.array gelement count) h = sameLayout seen gelement helement := by
  obtain ⟨-, hlayout⟩ := same_size_align rfl hin haccept
  unfold sameLayout at haccept
  rw [hlayout, hin] at haccept
  cases h with
  | array helement hcount =>
      refine ⟨helement, hcount, rfl, ?_⟩
      rw [sameLayout, hlayout]
      rfl
  | _ => cases haccept

/-- A record is accepted with a record, without a look where it has been met before. -/
theorem accepts_record {seen : List Nat} {gr : Nat} {gunion : Bool} {gfields : Fields}
    {gsize galign : Nat} {h : QualType}
    (hin : ((QualType.record gr gunion gfields gsize galign).isIncompleteType ||
      h.isIncompleteType) = false)
    (haccept : (sameLayout seen (.record gr gunion gfields gsize galign) h).1 = true) :
    ∃ hr hunion hfields hsize halign, h = .record hr hunion hfields hsize halign ∧
      sameLayout seen (.record gr gunion gfields gsize galign) h =
        if gr ∈ seen then (true, seen) else sameFields (gr :: seen) gfields hfields := by
  obtain ⟨-, hlayout⟩ := same_size_align rfl hin haccept
  unfold sameLayout at haccept
  rw [hlayout, hin] at haccept
  cases h with
  | record hr hunion hfields hsize halign =>
      refine ⟨hr, hunion, hfields, hsize, halign, rfl, ?_⟩
      rw [sameLayout, hlayout]
      rfl
  | _ => cases haccept

/-- Fields are accepted with fields at the same offsets, one by one. -/
theorem accepts_cons {seen : List Nat} {goffset : Nat} {gkind : FieldKind} {gtype : QualType}
    {grest hf : Fields}
    (haccept : (sameFields seen (.cons goffset gkind gtype grest) hf).1 = true) :
    ∃ hkind htype hrest, hf = .cons goffset hkind htype hrest ∧
      (sameLayout seen gtype htype).1 = true ∧
      sameFields seen (.cons goffset gkind gtype grest) hf =
        sameFields (sameLayout seen gtype htype).2 grest hrest := by
  cases hf with
  | nil => cases haccept
  | cons hoffset hkind htype hrest =>
      rw [sameFields] at haccept ⊢
      by_cases hoff : goffset = hoffset
      · subst hoff
        by_cases hinner : (sameLayout seen gtype htype).1 = true
        · exact ⟨hkind, htype, hrest, rfl, hinner, by simp [hinner]⟩
        · simp [hinner] at haccept
      · simp [hoff] at haccept

mutual

/-- The records met are those of the guest's type that the walk goes into. -/
theorem sameLayout_seen {seen : List Nat} {g h : QualType}
    (haccept : (sameLayout seen g h).1 = true) : (sameLayout seen g h).2 = walked seen g h := by
  by_cases hin : (g.isIncompleteType || h.isIncompleteType) = true
  · unfold sameLayout walked
    simp only [hin, if_true]
    split <;> rfl
  · rw [Bool.not_eq_true] at hin
    cases g with
    | array gelement count =>
        obtain ⟨helement, hcount, rfl, heq⟩ := accepts_array hin haccept
        rw [heq] at haccept ⊢
        rw [walked, hin]
        exact sameLayout_seen haccept
    | record gr gunion gfields gsize galign =>
        obtain ⟨hr, hunion, hfields, hsize, halign, rfl, heq⟩ := accepts_record hin haccept
        rw [heq] at haccept ⊢
        rw [walked, hin]
        by_cases hmet : gr ∈ seen
        · simp [hmet]
        · simp only [hmet, if_false, Bool.false_eq_true] at haccept ⊢
          exact sameFields_seen haccept
    | _ =>
        unfold sameLayout walked
        split_ifs <;> rfl

theorem sameFields_seen {seen : List Nat} {gf hf : Fields}
    (haccept : (sameFields seen gf hf).1 = true) :
    (sameFields seen gf hf).2 = walkedFields seen gf hf := by
  cases gf with
  | nil => cases hf <;> rfl
  | cons goffset gkind gtype grest =>
      obtain ⟨hkind, htype, hrest, rfl, hinner, heq⟩ := accepts_cons haccept
      rw [heq] at haccept ⊢
      rw [walkedFields, ← sameLayout_seen hinner]
      exact sameFields_seen haccept

end

/-! ## Where scalars lie -/

/-- A scalar of a field starts inside the field, where those of its type start inside the type. -/
theorem FieldKind.offset_lt {kind : FieldKind} (hkind : kind.Valid) {type : List Leaf} {size : Nat}
    (htype : ∀ leaf ∈ type, leaf.offset < size) :
    ∀ leaf ∈ kind.leaves type, leaf.offset < kind.extent size := by
  intro leaf hleaf
  match kind with
  | .object => exact htype leaf hleaf
  | .bits true width =>
      rw [FieldKind.leaves, List.mem_singleton] at hleaf
      rw [hleaf]
      exact hkind
  | .bits false width => cases hleaf

/-- The fields end where the struct does, at the latest. -/
theorem Fields.le_of_inOrder {fields : Fields} {openEnded : Bool} {cursor size : Nat}
    (hf : fields.InOrder openEnded cursor size) : cursor ≤ size := by
  cases fields with
  | nil => exact hf
  | cons offset kind type rest =>
      obtain ⟨-, -, hle, hrest⟩ := hf
      have := Fields.le_of_inOrder hrest
      omega

/-- A union with at most one member is laid out as a struct. -/
theorem Fields.inOrder_of_atStart {fields : Fields} {openEnded : Bool} {size : Nat}
    (hf : fields.AtStart openEnded size) (hone : fields.several = false) :
    fields.InOrder openEnded 0 size := by
  match fields with
  | .nil => exact Nat.zero_le _
  | .cons offset kind type .nil =>
      obtain ⟨hkind, htype, rfl, hle, -⟩ := hf
      exact ⟨hkind, by simpa [Fields.isNil] using htype, le_rfl, by
        simpa [Fields.InOrder] using hle⟩
  | .cons _ _ _ (.cons _ _ _ _) => cases hone

mutual

/-- The scalars of an object start inside it. -/
theorem QualType.offset_lt {g : QualType} (hg : g.WellFormed false) :
    ∀ leaf ∈ g.leaves, leaf.offset < g.typeSize := by
  intro leaf hleaf
  cases g with
  | scalar size align =>
      rw [QualType.leaves, List.mem_singleton] at hleaf
      rw [hleaf]
      exact hg
  | pointer size align =>
      rw [QualType.leaves, List.mem_singleton] at hleaf
      rw [hleaf]
      exact hg
  | array element count =>
      simp only [QualType.leaves, List.mem_flatMap, List.mem_range, List.mem_map] at hleaf
      obtain ⟨i, hi, inner, hinner, rfl⟩ := hleaf
      have hlt : inner.offset < element.typeSize :=
        QualType.offset_lt (g := element) hg inner hinner
      calc i * element.typeSize + inner.offset
          < i * element.typeSize + element.typeSize := by omega
        _ = (i + 1) * element.typeSize := by ring
        _ ≤ count * element.typeSize := Nat.mul_le_mul_right _ hi
  | flexible element => cases hg.1
  | record decl isUnion fields size align =>
      rw [QualType.leaves] at hleaf
      cases isUnion with
      | false => exact Fields.offset_lt_inOrder hg leaf hleaf
      | true =>
          split at hleaf
          · exact Fields.offset_lt_atStart hg 0 leaf hleaf
          · rename_i hone
            exact Fields.offset_lt_inOrder (Fields.inOrder_of_atStart hg (by simpa using hone))
              leaf hleaf
  | _ => cases hg

theorem Fields.offset_lt_inOrder {fields : Fields} {cursor size : Nat}
    (hf : fields.InOrder false cursor size) : ∀ leaf ∈ fields.leaves, leaf.offset < size := by
  intro leaf hleaf
  cases fields with
  | nil => cases hleaf
  | cons offset kind type rest =>
      obtain ⟨hkind, htype, -, hrest⟩ := hf
      rw [Fields.leaves, List.mem_append] at hleaf
      rcases hleaf with hhere | hthere
      · obtain ⟨inner, hinner, rfl⟩ := List.mem_map.mp hhere
        have hlt := FieldKind.offset_lt hkind (QualType.offset_lt htype) inner hinner
        have hle := Fields.le_of_inOrder hrest
        show offset + inner.offset < size
        omega
      · exact Fields.offset_lt_inOrder hrest leaf hthere

theorem Fields.offset_lt_atStart {fields : Fields} {size : Nat}
    (hf : fields.AtStart false size) (index : Nat) :
    ∀ leaf ∈ fields.memberLeaves index, leaf.offset < size := by
  intro leaf hleaf
  cases fields with
  | nil => cases hleaf
  | cons offset kind type rest =>
      obtain ⟨hkind, htype, -, hle, hrest⟩ := hf
      rw [Fields.memberLeaves, List.mem_append] at hleaf
      rcases hleaf with hhere | hthere
      · obtain ⟨inner, hinner, rfl⟩ := List.mem_map.mp hhere
        have hlt := FieldKind.offset_lt hkind (QualType.offset_lt htype) inner hinner
        exact lt_of_lt_of_le hlt hle
      · exact Fields.offset_lt_atStart hrest (index + 1) leaf hthere

end

theorem Fields.le_offset {fields : Fields} {openEnded : Bool} {cursor size : Nat}
    (hf : fields.InOrder openEnded cursor size) : ∀ leaf ∈ fields.leaves, cursor ≤ leaf.offset := by
  intro leaf hleaf
  cases fields with
  | nil => cases hleaf
  | cons offset kind type rest =>
      obtain ⟨-, -, hle, hrest⟩ := hf
      rw [Fields.leaves, List.mem_append] at hleaf
      rcases hleaf with hhere | hthere
      · obtain ⟨inner, -, rfl⟩ := List.mem_map.mp hhere
        exact le_trans hle (Nat.le_add_right _ _)
      · have := Fields.le_offset hrest leaf hthere
        omega

/-- An object of no size has no scalars. -/
theorem QualType.leaves_eq_nil {g : QualType} (hg : g.WellFormed false) (hsize : g.typeSize = 0) :
    g.leaves = [] := by
  apply List.eq_nil_iff_forall_not_mem.mpr
  intro leaf hleaf
  have := QualType.offset_lt hg leaf hleaf
  omega

/-! ## The same scalars, part by part -/

/-- The first part of a list that a property cuts in two. -/
theorem filter_append_of_cut {α : Type*} {p : α → Prop} [DecidablePred p] {as bs : List α}
    (has : ∀ a ∈ as, p a) (hbs : ∀ b ∈ bs, ¬ p b) : (as ++ bs).filter p = as := by
  have hall : as.filter p = as := List.filter_eq_self.mpr fun a ha => decide_eq_true (has a ha)
  have hnone : bs.filter p = [] := by
    apply List.filter_eq_nil_iff.mpr
    intro b hb
    simpa using hbs b hb
  rw [List.filter_append, hall, hnone, List.append_nil]

theorem append_eq_append_iff_of_cut {α : Type*} {p : α → Prop} {as as' bs bs' : List α}
    (has : ∀ a ∈ as, p a) (has' : ∀ a ∈ as', p a) (hbs : ∀ b ∈ bs, ¬ p b)
    (hbs' : ∀ b ∈ bs', ¬ p b) : as ++ bs = as' ++ bs' ↔ as = as' ∧ bs = bs' := by
  constructor
  · intro h
    classical
    have hfirst : as = as' := calc
      as = (as ++ bs).filter p := (filter_append_of_cut has hbs).symm
      _ = (as' ++ bs').filter p := by rw [h]
      _ = as' := filter_append_of_cut has' hbs'
    subst hfirst
    exact ⟨rfl, List.append_cancel_left h⟩
  · rintro ⟨rfl, rfl⟩
    rfl

theorem same_append {p : Leaf → Prop} {as as' bs bs' : List Leaf}
    (has : ∀ a ∈ as, p a) (has' : ∀ a ∈ as', p a) (hbs : ∀ b ∈ bs, ¬ p b)
    (hbs' : ∀ b ∈ bs', ¬ p b) :
    Same (as ++ bs) (as' ++ bs') ↔ Same as as' ∧ Same bs bs' := by
  rw [Same, append_eq_append_iff_of_cut has has' hbs hbs', List.forall_mem_append, Same, Same]
  tauto

/-- What moves a list of scalars moves both sides. -/
theorem same_map {move : Leaf → Leaf} (hinj : Function.Injective move)
    (hpointer : ∀ leaf, (move leaf).isPointer = leaf.isPointer) {g h : List Leaf} :
    Same (g.map move) (h.map move) ↔ Same g h := by
  rw [Same, Same, (List.map_injective_iff.mpr hinj).eq_iff, List.forall_mem_map]
  simp only [hpointer]

theorem same_shift {distance : Nat} {g h : List Leaf} :
    Same (g.map (Leaf.shift distance)) (h.map (Leaf.shift distance)) ↔ Same g h := by
  apply same_map
  · rintro ⟨offset, size, isPointer, places⟩ ⟨offset', size', isPointer', places'⟩ heq
    simpa [Leaf.shift] using heq
  · intro leaf
    rfl

theorem same_under {place : Place} {g h : List Leaf} :
    Same (g.map (Leaf.under place)) (h.map (Leaf.under place)) ↔ Same g h := by
  apply same_map
  · rintro ⟨offset, size, isPointer, places⟩ ⟨offset', size', isPointer', places'⟩ heq
    simpa [Leaf.under] using heq
  · intro leaf
    rfl

/-- Arrays of as many elements of one size. -/
theorem same_flatMap {g h : List Leaf} {count size : Nat} :
    Same ((List.range count).flatMap fun i => g.map (Leaf.shift (i * size)))
        ((List.range count).flatMap fun i => h.map (Leaf.shift (i * size))) ↔
      count = 0 ∨ Same g h := by
  cases count with
  | zero => simp [Same]
  | succ n =>
      simp only [Nat.succ_ne_zero, false_or]
      constructor
      · rintro ⟨heq, hpointer⟩
        -- as many elements, so each has as many scalars
        have hlength : g.length = h.length := by
          have := congrArg List.length heq
          simpa [List.length_flatMap] using this
        rw [List.range_succ_eq_map, List.flatMap_cons, List.flatMap_cons] at heq
        rw [List.range_succ_eq_map, List.flatMap_cons, List.forall_mem_append] at hpointer
        have hfirst := (List.append_inj heq (by simp [hlength])).1
        exact same_shift.mp ⟨hfirst, hpointer.1⟩
      · rintro ⟨rfl, hpointer⟩
        refine ⟨rfl, ?_⟩
        intro leaf hleaf
        obtain ⟨i, -, hi⟩ := List.mem_flatMap.mp hleaf
        obtain ⟨inner, hinner, rfl⟩ := List.mem_map.mp hi
        exact hpointer inner hinner

/-- The fields of two structs: the first ones, and the rest. Where the next field starts, the
scalars of the first have ended. -/
theorem same_leaves_cons {seen : List Nat} {offset : Nat} {gkind hkind : FieldKind}
    {gtype htype : QualType} {grest hrest : Fields} {gopen hopen : Bool}
    {gcursor gsize hcursor hsize : Nat}
    (hg : (Fields.cons offset gkind gtype grest).InOrder gopen gcursor gsize)
    (hh : (Fields.cons offset hkind htype hrest).InOrder hopen hcursor hsize)
    (haccept : (sameFields seen grest hrest).1 = true) :
    Same (Fields.cons offset gkind gtype grest).leaves
        (Fields.cons offset hkind htype hrest).leaves ↔
      Same (gkind.leaves gtype.leaves) (hkind.leaves htype.leaves) ∧
        Same grest.leaves hrest.leaves := by
  rw [Fields.leaves, Fields.leaves]
  cases grest with
  | nil =>
      cases hrest with
      | nil =>
          rw [Fields.leaves, List.append_nil, List.append_nil, same_shift]
          simp [Same]
      | cons _ _ _ _ => cases haccept
  | cons next kind type rest =>
      obtain ⟨kind', type', rest', rfl, -, -⟩ := accepts_cons haccept
      obtain ⟨hgkind, hgtype, -, hgrest⟩ := hg
      obtain ⟨hhkind, hhtype, -, hhrest⟩ := hh
      simp only [Fields.isNil, Bool.and_false] at hgtype hhtype
      have hcut : ∀ {k : FieldKind} {t : QualType}, k.Valid → t.WellFormed false →
          offset + k.extent t.typeSize ≤ next →
          ∀ leaf ∈ (k.leaves t.leaves).map (Leaf.shift offset), leaf.offset < next := by
        intro k t hk ht hle leaf hleaf
        obtain ⟨inner, hinner, rfl⟩ := List.mem_map.mp hleaf
        have hlt := FieldKind.offset_lt hk (QualType.offset_lt ht) inner hinner
        show offset + inner.offset < next
        omega
      have hlater : ∀ {fields : Fields} {b : Bool} {size : Nat}, fields.InOrder b next size →
          ∀ leaf ∈ fields.leaves, ¬ leaf.offset < next := by
        intro fields b size hf leaf hleaf
        exact not_lt.mpr (Fields.le_offset hf leaf hleaf)
      rw [same_append (p := fun leaf => leaf.offset < next) (hcut hgkind hgtype hgrest.2.2.1)
        (hcut hhkind hhtype hhrest.2.2.1), same_shift]
      · exact hlater ⟨hgrest.1, hgrest.2.1, le_rfl, hgrest.2.2.2⟩
      · exact hlater ⟨hhrest.1, hhrest.2.1, le_rfl, hhrest.2.2.2⟩

/-- The scalars of the members from `index` on are in those members. -/
theorem Fields.places_memberLeaves {fields : Fields} {index : Nat} :
    ∀ leaf ∈ fields.memberLeaves index, ∃ i ≥ index, leaf.places.head? = some (.member i) := by
  intro leaf hleaf
  cases fields with
  | nil => cases hleaf
  | cons offset kind type rest =>
      rw [Fields.memberLeaves, List.mem_append] at hleaf
      rcases hleaf with hhere | hthere
      · obtain ⟨inner, -, rfl⟩ := List.mem_map.mp hhere
        exact ⟨index, le_rfl, rfl⟩
      · obtain ⟨i, hi, hplace⟩ := Fields.places_memberLeaves leaf hthere
        exact ⟨i, by omega, hplace⟩

/-- The members of two unions: the first ones, and the rest. -/
theorem same_memberLeaves_cons {goffset hoffset index : Nat} {gkind hkind : FieldKind}
    {gtype htype : QualType} {grest hrest : Fields} :
    Same ((Fields.cons goffset gkind gtype grest).memberLeaves index)
        ((Fields.cons hoffset hkind htype hrest).memberLeaves index) ↔
      Same (gkind.leaves gtype.leaves) (hkind.leaves htype.leaves) ∧
        Same (grest.memberLeaves (index + 1)) (hrest.memberLeaves (index + 1)) := by
  have hhere : ∀ leaves : List Leaf, ∀ leaf ∈ leaves.map (Leaf.under (.member index)),
      leaf.places.head? = some (.member index) := by
    intro leaves leaf hleaf
    obtain ⟨inner, -, rfl⟩ := List.mem_map.mp hleaf
    rfl
  have hlater : ∀ fields : Fields, ∀ leaf ∈ fields.memberLeaves (index + 1),
      ¬ leaf.places.head? = some (.member index) := by
    intro fields leaf hleaf heq
    obtain ⟨i, hi, hplace⟩ := Fields.places_memberLeaves leaf hleaf
    rw [hplace] at heq
    cases heq
    omega
  rw [Fields.memberLeaves, Fields.memberLeaves, same_append (hhere _) (hhere _) (hlater _)
    (hlater _), same_under]

/-! ## Where the walk is right -/

theorem QualType.WellFormed.isComplete {g : QualType} (hg : g.WellFormed false) :
    g.isIncompleteType = false := by
  cases g with
  | flexible element => cases hg.1
  | void => cases hg
  | incomplete => cases hg
  | _ => rfl

theorem fine_array {seen : List Nat} {gelement helement : QualType} {gcount hcount : Nat} :
    Fine seen (.array gelement gcount) (.array helement hcount) ↔
      gcount = 0 ∨ Fine seen gelement helement := by
  rw [Fine]
  rfl

/-- Arrays of one size whose elements are accepted: the counts are the same, or there are no
scalars in the elements. -/
theorem same_array {seen : List Nat} {gelement helement : QualType} {gcount hcount : Nat}
    (hg : gelement.WellFormed false) (hh : helement.WellFormed false)
    (hsize : gcount * gelement.typeSize = hcount * helement.typeSize)
    (haccept : (sameLayout seen gelement helement).1 = true) :
    Same (QualType.array gelement gcount).leaves (QualType.array helement hcount).leaves ↔
      gcount = 0 ∨ Same gelement.leaves helement.leaves := by
  have helements : gelement.typeSize = helement.typeSize := by
    apply typeSize_eq hg _ haccept
    rw [hg.isComplete, hh.isComplete, Bool.or_self]
  by_cases hzero : gelement.typeSize = 0
  · have hgnil := QualType.leaves_eq_nil hg hzero
    have hhnil := QualType.leaves_eq_nil hh (helements ▸ hzero)
    have hnil : ∀ count : Nat, ((List.range count).flatMap fun _ => ([] : List Leaf)) = [] := by
      intro count
      simp
    simp [QualType.leaves, hgnil, hhnil, hnil, Same]
  · have hcounts : gcount = hcount := by
      rw [← helements] at hsize
      exact Nat.eq_of_mul_eq_mul_right (by omega) hsize
    rw [QualType.leaves, QualType.leaves, ← hcounts, ← helements]
    exact same_flatMap

theorem fine_record {seen : List Nat} {gr hr : Nat} {gunion hunion : Bool}
    {gfields hfields : Fields} {gsize hsize galign halign : Nat} :
    Fine seen (.record gr gunion gfields gsize galign) (.record hr hunion hfields hsize halign) ↔
      if gr ∈ seen ∨ (gunion && gfields.several) ≠ (hunion && hfields.several) then
        Same (QualType.record gr gunion gfields gsize galign).leaves
          (QualType.record hr hunion hfields hsize halign).leaves
      else FineFields (gr :: seen) gfields hfields := by
  rw [Fine]
  rfl

/-- A record whose members are not kept apart is laid out as a struct. -/
theorem inOrder_of_record {decl : Nat} {isUnion openEnded : Bool} {fields : Fields}
    {size align : Nat} (hw : (QualType.record decl isUnion fields size align).WellFormed openEnded)
    (hone : (isUnion && fields.several) = false) : fields.InOrder openEnded 0 size := by
  cases isUnion with
  | false => exact hw
  | true => exact Fields.inOrder_of_atStart hw hone

theorem atStart_of_record {decl : Nat} {isUnion openEnded : Bool} {fields : Fields}
    {size align : Nat} (hw : (QualType.record decl isUnion fields size align).WellFormed openEnded)
    (hseveral : (isUnion && fields.several) = true) : fields.AtStart openEnded size := by
  cases isUnion with
  | false => cases hseveral
  | true => exact hw

mutual

/-- Along the walk, from any records met. -/
theorem same_iff_fine_from {seen : List Nat} {g h : QualType} {gopen hopen : Bool}
    (hg : g.WellFormed gopen) (hh : h.WellFormed hopen)
    (haccept : (sameLayout seen g h).1 = true) : Same g.leaves h.leaves ↔ Fine seen g h := by
  by_cases hin : (g.isIncompleteType || h.isIncompleteType) = true
  · unfold Fine
    rw [if_pos hin]
  · rw [Bool.not_eq_true] at hin
    cases g with
    | array gelement gcount =>
        have hsize := typeSize_eq hg hin haccept
        obtain ⟨helement, hcount, rfl, heq⟩ := accepts_array hin haccept
        rw [heq] at haccept
        have ih : Same gelement.leaves helement.leaves ↔ Fine seen gelement helement :=
          same_iff_fine_from hg hh haccept
        rw [fine_array, ← ih]
        exact same_array hg hh hsize haccept
    | record gr gunion gfields gsize galign =>
        obtain ⟨hr, hunion, hfields, hsize, halign, rfl, heq⟩ := accepts_record hin haccept
        rw [fine_record]
        split_ifs with hskip
        · rfl
        · rw [not_or, not_not] at hskip
          obtain ⟨hmet, htagged⟩ := hskip
          rw [heq, if_neg hmet] at haccept
          rw [QualType.leaves, QualType.leaves, ← htagged]
          cases htag : gunion && gfields.several with
          | true =>
              exact same_iff_fine_atStart (atStart_of_record hg htag)
                (atStart_of_record hh (htagged ▸ htag)) haccept 0
          | false =>
              exact same_iff_fine_inOrder (inOrder_of_record hg htag)
                (inOrder_of_record hh (htagged ▸ htag)) haccept
    | scalar size align =>
        unfold Fine
        rw [hin]
        rfl
    | pointer size align =>
        have := (same_size_align hg.isData hin haccept).1
        cases this
    | flexible element => cases hin
    | _ => cases hg

theorem same_iff_fine_inOrder {seen : List Nat} {gf hf : Fields} {gopen hopen : Bool}
    {gcursor hcursor gsize hsize : Nat} (hg : gf.InOrder gopen gcursor gsize)
    (hh : hf.InOrder hopen hcursor hsize) (haccept : (sameFields seen gf hf).1 = true) :
    Same gf.leaves hf.leaves ↔ FineFields seen gf hf := by
  cases gf with
  | nil =>
      cases hf with
      | nil => simp [FineFields, Fields.leaves, Same]
      | cons _ _ _ _ => cases haccept
  | cons goffset gkind gtype grest =>
      obtain ⟨hkind, htype, hrest, rfl, hinner, heq⟩ := accepts_cons haccept
      rw [heq, sameLayout_seen hinner] at haccept
      rw [same_leaves_cons hg hh haccept, FineFields]
      have hrests := same_iff_fine_inOrder hg.2.2.2 hh.2.2.2 haccept
      rw [hrests]
      apply and_congr_left'
      split_ifs with hobjects
      · rw [hobjects.1, hobjects.2]
        exact same_iff_fine_from hg.2.1 hh.2.1 hinner
      · rfl

theorem same_iff_fine_atStart {seen : List Nat} {gf hf : Fields} {gopen hopen : Bool}
    {gsize hsize : Nat} (hg : gf.AtStart gopen gsize) (hh : hf.AtStart hopen hsize)
    (haccept : (sameFields seen gf hf).1 = true) (index : Nat) :
    Same (gf.memberLeaves index) (hf.memberLeaves index) ↔ FineFields seen gf hf := by
  cases gf with
  | nil =>
      cases hf with
      | nil => simp [FineFields, Fields.memberLeaves, Same]
      | cons _ _ _ _ => cases haccept
  | cons goffset gkind gtype grest =>
      obtain ⟨hkind, htype, hrest, rfl, hinner, heq⟩ := accepts_cons haccept
      rw [heq, sameLayout_seen hinner] at haccept
      rw [same_memberLeaves_cons, FineFields]
      have hrests := same_iff_fine_atStart hg.2.2.2.2 hh.2.2.2.2 haccept (index + 1)
      rw [hrests]
      apply and_congr_left'
      split_ifs with hobjects
      · rw [hobjects.1, hobjects.2]
        exact same_iff_fine_from hg.2.1 hh.2.1 hinner
      · rfl

end

/-- **The scalars are the same where the walk did not look.** `SameLayout` starts with no records
met; of two types that it accepts, the scalars of the one are those of the other, none of them a
pointer, exactly when this holds at every place that was accepted without a look. -/
theorem same_iff_fine {g h : QualType} {gopen hopen : Bool} (hg : g.WellFormed gopen)
    (hh : h.WellFormed hopen) (haccept : (sameLayout [] g h).1 = true) :
    Same g.leaves h.leaves ↔ Fine [] g h :=
  same_iff_fine_from hg hh haccept

/-- `struct { uint32_t count; float corners[2][2]; }` -/
def corners (decl : Nat) : QualType :=
  .record decl false (.cons 0 .object (.scalar 32 32)
    (.cons 32 .object (.array (.array (.scalar 32 32) 2) 2) .nil)) 160 32

theorem corners_wellFormed (decl : Nat) : (corners decl).WellFormed false := by
  simp [corners, QualType.WellFormed, Fields.InOrder, FieldKind.Valid, FieldKind.extent,
    QualType.typeSize]

/-- Accepted with itself, the same five scalars. -/
theorem same_iff_fine_corners : Same (corners 0).leaves (corners 1).leaves := by
  apply (same_iff_fine (corners_wellFormed 0) (corners_wellFormed 1) (by decide)).mpr
  simp [corners, Fine, FineFields, QualType.isIncompleteType, QualType.leaves, Same]

/-- `struct { uint32_t count; T values[]; }` under `#pragma pack(4)`. -/
def packedTable (decl : Nat) (value : QualType) : QualType :=
  .record decl false (.cons 0 .object (.scalar 32 32)
    (.cons 32 .object (.flexible value) .nil)) 32 32

theorem packedTable_wellFormed (decl : Nat) {value : QualType} (hvalue : value.WellFormed false) :
    (packedTable decl value).WellFormed true := by
  simp [packedTable, QualType.WellFormed, Fields.InOrder, FieldKind.Valid, FieldKind.extent,
    QualType.typeSize, Fields.isNil, hvalue]

/-- A table of `long` is accepted, whose elements have 64 bits on the guest and 32 on the host. -/
theorem accepts_other_elements :
    (packedTable 0 (.scalar 64 64)).WellFormed true ∧
      (packedTable 1 (.scalar 32 32)).WellFormed true ∧
      (sameLayout [] (packedTable 0 (.scalar 64 64)) (packedTable 1 (.scalar 32 32))).1 = true ∧
      ¬ Same (packedTable 0 (.scalar 64 64)).leaves (packedTable 1 (.scalar 32 32)).leaves := by
  refine ⟨packedTable_wellFormed 0 (by simp [QualType.WellFormed]),
    packedTable_wellFormed 1 (by simp [QualType.WellFormed]),
    by decide, ?_⟩
  rintro ⟨heq, -⟩
  exact absurd heq (by decide)

end SameLayout

end Katabasis
