import Katabasis.Xlgen.Leaves

set_option autoImplicit false

/-! # When the scalars of a record are apart

`leaves_within`: the leaves lie inside the guest layout, whether or not the walk came to its
end. For a walk that did, three facts are carried through the type together: there are leaves
exactly where there are scalars, the first one is where the type starts, and they are apart
exactly where no memory is shared (`leaves_apart_iff`). Each is one induction over the types
and the field lists, structs and unions having a case of their own.
-/

namespace Katabasis

/-! ## Walks -/

namespace Walk

/-- The first part stops the walk, or the leaves of the second follow its own. -/
theorem andThen_eq_some {a b : Walk} {done : Bool} {ls : List Leaf}
    (h : a.andThen b = some (done, ls)) :
    (a = some (false, ls) ∧ done = false) ∨
      ∃ first more, a = some (true, first) ∧ b = some (done, more) ∧ ls = first ++ more := by
  match a, h with
  | some (false, leaves), h =>
      simp only [andThen, Option.some.injEq, Prod.mk.injEq] at h
      exact Or.inl ⟨by rw [h.2], h.1.symm⟩
  | some (true, leaves), h =>
      obtain ⟨⟨done', more⟩, hb, heq⟩ := Option.map_eq_some_iff.mp h
      simp only [Prod.mk.injEq] at heq
      exact Or.inr ⟨leaves, more, rfl, by rw [hb, heq.1], heq.2.symm⟩

/-- A walk that comes to its end has come to the end of each part. -/
theorem andThen_eq_true {a b : Walk} {ls : List Leaf} (h : a.andThen b = some (true, ls)) :
    ∃ first more, a = some (true, first) ∧ b = some (true, more) ∧ ls = first ++ more := by
  rcases andThen_eq_some h with ⟨-, hdone⟩ | hmore
  · cases hdone
  · exact hmore

/-- What holds of the leaves of both parts holds of all. -/
theorem forall_andThen {P : Leaf → Prop} {a b : Walk} {done : Bool} {ls : List Leaf}
    (h : a.andThen b = some (done, ls))
    (ha : ∀ d l, a = some (d, l) → ∀ leaf ∈ l, P leaf)
    (hb : ∀ d l, b = some (d, l) → ∀ leaf ∈ l, P leaf) : ∀ leaf ∈ ls, P leaf := by
  rcases andThen_eq_some h with ⟨heq, -⟩ | ⟨first, more, h1, h2, rfl⟩
  · exact ha _ _ heq
  · intro leaf hleaf
    rcases List.mem_append.mp hleaf with hl | hl
    · exact ha _ _ h1 leaf hl
    · exact hb _ _ h2 leaf hl

/-- The same for any number of parts, by induction on them. -/
theorem forall_all {P : Leaf → Prop} {walks : List Walk} {done : Bool} {ls : List Leaf}
    (h : all walks = some (done, ls))
    (hw : ∀ walk ∈ walks, ∀ d l, walk = some (d, l) → ∀ leaf ∈ l, P leaf) :
    ∀ leaf ∈ ls, P leaf := by
  induction walks generalizing done ls with
  | nil =>
      simp only [all, Option.some.injEq, Prod.mk.injEq] at h
      rw [← h.2]
      intro leaf hleaf
      cases hleaf
  | cons walk rest ih =>
      refine forall_andThen h (hw walk List.mem_cons_self) fun d l hl => ?_
      exact ih hl fun w hmem => hw w (List.mem_cons_of_mem _ hmem)

end Walk

/-! ## Scalars -/

/-- The types that are leaves, and what is recorded of them. -/
theorem leafValue_cases {g h : CType} {value : Value} (hv : leafValue g h = some value) :
    (∃ width signed, g = .integer width signed ∧ value.kind = .integer ∧
        value.guestBits = width.bits) ∨
      (∃ width, g = .floating width ∧ value.kind = .floating ∧ value.guestBits = width.bits) ∨
      ∃ kind, g = .pointer kind ∧ value.kind = .pointer := by
  cases g with
  | integer width signed =>
      simp only [leafValue, classify, reduceCtorEq, false_and, or_false, if_false, if_true,
        Option.some.injEq] at hv
      exact Or.inl ⟨width, signed, rfl, by rw [← hv], by rw [← hv]⟩
  | floating width =>
      simp only [leafValue, classify, reduceCtorEq, false_or, false_and, or_false, if_false,
        if_true, Option.some.injEq] at hv
      exact Or.inr (Or.inl ⟨width, rfl, by rw [← hv], by rw [← hv]⟩)
  | pointer kind =>
      refine Or.inr (Or.inr ⟨kind, rfl, ?_⟩)
      -- a pointer that does not pass is no leaf, and neither is one to a protocol
      cases kind with
      | data passes => cases passes <;> (simp [leafValue, classify] at hv; rw [← hv])
      | protocol => simp [leafValue, classify] at hv
      | _ => simp [leafValue, classify] at hv; rw [← hv]
  | array element count => simp [leafValue, classify] at hv
  | record isUnion fields size => cases isUnion <;> simp [leafValue, classify] at hv
  | other size => simp [leafValue, classify] at hv

/-- The leaf of a scalar is as wide as the scalar on the guest. -/
theorem leafValue_bytes {g h : CType} {value : Value} (hv : leafValue g h = some value)
    (gpath hpath : String) (base : Nat) :
    (⟨gpath, hpath, base, value⟩ : Leaf).bytes = g.guestSize := by
  rcases leafValue_cases hv with ⟨width, signed, rfl, hk, hb⟩ | ⟨width, rfl, hk, hb⟩ |
    ⟨kind, rfl, hk⟩
  · simp [Leaf.bytes, Leaf.bits, CType.guestSize, hk, hb]
  · simp [Leaf.bytes, Leaf.bits, CType.guestSize, hk, hb]
  · simp [Leaf.bytes, Leaf.bits, CType.guestSize, hk]

/-- A scalar is one leaf; a type that does not cross stops the walk. -/
theorem scalarLeaf_eq_some {g h : CType} {gpath hpath : String} {base : Nat} {done : Bool}
    {ls : List Leaf} (hl : leaves.scalarLeaf g h gpath hpath base = some (done, ls)) :
    (∃ value, leafValue g h = some value ∧ done = true ∧ ls = [⟨gpath, hpath, base, value⟩]) ∨
      (done = false ∧ ls = []) := by
  unfold leaves.scalarLeaf at hl
  split at hl
  case h_1 value hv =>
      simp only [Option.some.injEq, Prod.mk.injEq] at hl
      exact Or.inl ⟨value, hv, hl.1.symm, hl.2.symm⟩
  case h_2 =>
      simp only [Option.some.injEq, Prod.mk.injEq] at hl
      exact Or.inr ⟨hl.1.symm, hl.2.symm⟩

/-- A leaf of the member at `base` lies inside it. -/
def Leaf.Within (lower upper : Nat) (leaf : Leaf) : Prop :=
  lower ≤ leaf.offset ∧ leaf.offset + leaf.bytes ≤ upper

theorem scalarLeaf_within {g h : CType} {gpath hpath : String} {base : Nat} {done : Bool}
    {ls : List Leaf} (hl : leaves.scalarLeaf g h gpath hpath base = some (done, ls)) :
    ∀ leaf ∈ ls, leaf.Within base (base + g.guestSize) := by
  rcases scalarLeaf_eq_some hl with ⟨value, hv, -, rfl⟩ | ⟨-, rfl⟩
  · intro leaf hleaf
    rw [List.mem_singleton.mp hleaf]
    exact ⟨Nat.le_refl _, by rw [leafValue_bytes hv]⟩
  · intro leaf hleaf
    cases hleaf

/-! ## The leaves lie inside the type -/

theorem Leaf.Within.mono {lower upper lower' upper' : Nat} {leaf : Leaf}
    (h : leaf.Within lower upper) (hl : lower' ≤ lower) (hu : upper ≤ upper') :
    leaf.Within lower' upper' :=
  ⟨hl.trans h.1, h.2.trans hu⟩

/-- A walk that stops where it starts has no leaves. -/
theorem Walk.forall_of_false {P : Leaf → Prop} {done b : Bool} {ls : List Leaf}
    (h : (some (b, []) : Walk) = some (done, ls)) : ∀ leaf ∈ ls, P leaf := by
  injection h with h
  injection h with _ h
  rw [← h]
  intro leaf hleaf
  cases hleaf

mutual

/-- **The leaves of a type at `base` lie inside it**, whether or not the walk comes to its end. -/
theorem leaves_within {g h : CType} {gpath hpath : String} {base : Nat} {done : Bool}
    {ls : List Leaf} (hw : g.WellFormed) (hl : leaves g h gpath hpath base = some (done, ls)) :
    ∀ leaf ∈ ls, leaf.Within base (base + g.guestSize) := by
  cases g with
  | record isUnion fields size =>
      cases h with
      | record hisUnion hfields hsize =>
          rw [leaves] at hl
          cases isUnion with
          | false =>
              exact fun leaf hleaf => (fieldLeaves_within_struct hw hl leaf hleaf).mono
                (Nat.le_refl _) (Nat.le_refl _)
          | true => exact fieldLeaves_within_union hw hl
      | _ => exact Walk.forall_of_false hl
  | array element count =>
      rw [leaves] at hl
      refine Walk.forall_all hl fun walk hmem d l hd leaf hleaf => ?_
      obtain ⟨i, hi, rfl⟩ := List.mem_map.mp hmem
      obtain ⟨helement, -, hd⟩ := Option.bind_eq_some_iff.mp hd
      -- the `i`-th element ends before the array does
      have hend : (i + 1) * element.guestSize ≤ count * element.guestSize :=
        Nat.mul_le_mul_right _ (List.mem_range.mp hi)
      rw [Nat.add_mul, Nat.one_mul] at hend
      exact (leaves_within (g := element) hw hd leaf hleaf).mono (by omega)
        (by rw [CType.guestSize]; omega)
  | _ => exact scalarLeaf_within hl

/-- The members of a structure lie behind the cursor, which each moves to its own end. -/
theorem fieldLeaves_within_struct {gf hf : Fields} {gpath hpath : String} {base : Nat}
    {done : Bool} {ls : List Leaf} {fresh : Bool} {cursor size : Nat}
    (hw : gf.InOrder fresh cursor size)
    (hl : fieldLeaves gf hf gpath hpath base = some (done, ls)) :
    ∀ leaf ∈ ls, leaf.Within (base + cursor) (base + size) := by
  cases gf with
  | nil => exact Walk.forall_of_false hl
  | cons name offset isBitField type rest =>
      cases hf with
      | nil => exact Walk.forall_of_false hl
      | cons hname hoffset hbit htype hrest =>
          obtain ⟨htypeWF, hcursor, -, hrestWF⟩ := hw
          rw [fieldLeaves] at hl
          split at hl
          -- a bit field stops the walk
          case isTrue => exact Walk.forall_of_false hl
          case isFalse hbit =>
            have hext : extent isBitField type = type.guestSize := by simp [extent, hbit]
            rw [hext] at hrestWF
            have hsize : offset + type.guestSize ≤ size := Fields.inOrder_le hrestWF
            refine Walk.forall_andThen hl (fun d l hd leaf hleaf => ?_) fun d l hd leaf hleaf => ?_
            · exact (leaves_within htypeWF hd leaf hleaf).mono (by omega) (by omega)
            · exact (fieldLeaves_within_struct hrestWF hd leaf hleaf).mono (by omega)
                (Nat.le_refl _)

/-- The members of a union all start where it does. -/
theorem fieldLeaves_within_union {gf hf : Fields} {gpath hpath : String} {base : Nat}
    {done : Bool} {ls : List Leaf} {fresh : Bool} {size : Nat} (hw : gf.AtStart fresh size)
    (hl : fieldLeaves gf hf gpath hpath base = some (done, ls)) :
    ∀ leaf ∈ ls, leaf.Within base (base + size) := by
  cases gf with
  | nil => exact Walk.forall_of_false hl
  | cons name offset isBitField type rest =>
      cases hf with
      | nil => exact Walk.forall_of_false hl
      | cons hname hoffset hbit htype hrest =>
          obtain ⟨htypeWF, hoffset, hsize, hrestWF⟩ := hw
          rw [fieldLeaves] at hl
          split at hl
          case isTrue => exact Walk.forall_of_false hl
          case isFalse hbit =>
            rw [extent, if_neg hbit] at hsize
            refine Walk.forall_andThen hl (fun d l hd leaf hleaf => ?_) fun d l hd => ?_
            · exact (leaves_within htypeWF hd leaf hleaf).mono (by omega) (by omega)
            · exact fieldLeaves_within_union hrestWF hd

end


/-! ## Walks that come to their end -/

/-- All parts have come to their end, and their leaves are one behind the other. -/
theorem Walk.all_eq_true {walks : List Walk} {ls : List Leaf}
    (h : Walk.all walks = some (true, ls)) :
    ∃ parts : List (List Leaf), walks = parts.map (fun l => some (true, l)) ∧
      ls = parts.flatten := by
  induction walks generalizing ls with
  | nil =>
      injection h with h
      injection h with _ h
      exact ⟨[], rfl, h.symm⟩
  | cons walk rest ih =>
      obtain ⟨first, more, h1, h2, rfl⟩ := Walk.andThen_eq_true h
      obtain ⟨parts, hparts, rfl⟩ := ih h2
      exact ⟨first :: parts, by rw [h1, hparts, List.map_cons], by rw [List.flatten_cons]⟩

/-- The leaves of an array are those of its elements, one element after the other. -/
theorem leaves_array {element h : CType} {count : Nat} {gpath hpath : String} {base : Nat}
    {ls : List Leaf} (hl : leaves (.array element count) h gpath hpath base = some (true, ls)) :
    ∃ parts : List (List Leaf), parts.length = count ∧ ls = parts.flatten ∧
      ∀ (i : Nat) (hi : i < parts.length), ∃ (helement : CType) (gp hp : String),
        leaves element helement gp hp (base + i * element.guestSize)
          = some (true, parts[i]) := by
  rw [leaves] at hl
  obtain ⟨parts, hparts, rfl⟩ := Walk.all_eq_true hl
  have hlen := congrArg List.length hparts
  rw [List.length_map, List.length_range, List.length_map] at hlen
  refine ⟨parts, hlen.symm, rfl, fun i hi => ?_⟩
  -- the `i`-th part is the walk of the `i`-th element
  have hget : ((List.range count).map fun i =>
      h.element?.bind fun helement =>
        leaves element helement (gpath ++ "[" ++ toString i ++ "]")
          (hpath ++ "[" ++ toString i ++ "]") (base + i * element.guestSize))[i]?
        = some (some (true, parts[i])) := by
    rw [hparts, List.getElem?_map, List.getElem?_eq_getElem hi]
    rfl
  rw [List.getElem?_map, List.getElem?_range (by omega), Option.map_some,
    Option.some.injEq] at hget
  obtain ⟨helement, -, hleaves⟩ := Option.bind_eq_some_iff.mp hget
  exact ⟨helement, _, _, hleaves⟩

/-- The host's type is a record too, or the walk would have stopped. -/
theorem leaves_record {isUnion : Bool} {gfields : Fields} {size : Nat} {h : CType}
    {gpath hpath : String} {base : Nat} {ls : List Leaf}
    (hl : leaves (.record isUnion gfields size) h gpath hpath base = some (true, ls)) :
    ∃ hfields, fieldLeaves gfields hfields gpath hpath base = some (true, ls) := by
  cases h with
  | record hisUnion hfields hsize => exact ⟨hfields, hl⟩
  | _ => cases hl

/-- The first member is no bit field, and it and the rest have come to their end. -/
theorem fieldLeaves_cons {name : String} {offset : Nat} {isBitField : Bool} {type : CType}
    {rest hf : Fields} {gpath hpath : String} {base : Nat} {ls : List Leaf}
    (hl : fieldLeaves (.cons name offset isBitField type rest) hf gpath hpath base
      = some (true, ls)) :
    isBitField = false ∧ ∃ (htype : CType) (hrest : Fields) (gp hp : String)
      (first more : List Leaf), ls = first ++ more ∧
        leaves type htype gp hp (base + offset) = some (true, first) ∧
        fieldLeaves rest hrest gpath hpath base = some (true, more) := by
  cases hf with
  | nil => cases hl
  | cons hname hoffset hbit htype hrest =>
      rw [fieldLeaves] at hl
      split at hl
      case isTrue => cases hl
      case isFalse hb =>
        obtain ⟨first, more, h1, h2, hls⟩ := Walk.andThen_eq_true hl
        exact ⟨by simpa using hb, htype, hrest, _, _, first, more, hls, h1, h2⟩

theorem fieldLeaves_nil {hf : Fields} {gpath hpath : String} {base : Nat} {ls : List Leaf}
    (hl : fieldLeaves .nil hf gpath hpath base = some (true, ls)) : ls = [] := by
  injection hl with hl
  injection hl with _ hl
  exact hl.symm

theorem scalarLeaf_eq_true {g h : CType} {gpath hpath : String} {base : Nat} {ls : List Leaf}
    (hl : leaves.scalarLeaf g h gpath hpath base = some (true, ls)) :
    ∃ value, leafValue g h = some value ∧ ls = [⟨gpath, hpath, base, value⟩] := by
  rcases scalarLeaf_eq_some hl with ⟨value, hv, -, hls⟩ | ⟨hdone, -⟩
  · exact ⟨value, hv, hls⟩
  · cases hdone

/-! ## There are leaves where there are scalars -/

/-- Parts that are empty all or none are empty together, unless there are no parts. -/
theorem flatten_eq_nil_of_parts {α : Type} {parts : List (List α)} {b : Bool}
    (h : ∀ (i : Nat) (hi : i < parts.length), parts[i] = [] ↔ b = false) :
    parts.flatten = [] ↔ parts.length = 0 ∨ b = false := by
  rw [List.flatten_eq_nil_iff]
  constructor
  · intro hall
    cases parts with
    | nil => exact Or.inl rfl
    | cons part rest => exact Or.inr ((h 0 (by simp)).mp (hall _ (by simp)))
  · rintro (hlen | hb) part hpart
    · rw [List.length_eq_zero_iff.mp hlen] at hpart
      cases hpart
    · obtain ⟨i, hi, rfl⟩ := List.mem_iff_getElem.mp hpart
      exact (h i hi).mpr hb

mutual

/-- **A walk to the end finds a leaf exactly where the type has a scalar.** An array of no
elements has none. -/
theorem leaves_eq_nil_iff {g h : CType} {gpath hpath : String} {base : Nat} {ls : List Leaf}
    (hl : leaves g h gpath hpath base = some (true, ls)) : ls = [] ↔ g.hasScalar = false := by
  cases g with
  | record isUnion fields size =>
      obtain ⟨hfields, hl⟩ := leaves_record hl
      exact fieldLeaves_eq_nil_iff hl
  | array element count =>
      obtain ⟨parts, hlen, rfl, hparts⟩ := leaves_array hl
      have hflat := flatten_eq_nil_of_parts (b := element.hasScalar) fun i hi => by
        obtain ⟨helement, gp, hp, hpart⟩ := hparts i hi
        exact leaves_eq_nil_iff hpart
      rw [hflat, hlen, CType.hasScalar, Bool.and_eq_false_iff, decide_eq_false_iff_not]
      exact or_congr_left (by omega)
  | _ =>
      obtain ⟨value, -, rfl⟩ := scalarLeaf_eq_true hl
      simp [CType.hasScalar]

theorem fieldLeaves_eq_nil_iff {gf hf : Fields} {gpath hpath : String} {base : Nat}
    {ls : List Leaf} (hl : fieldLeaves gf hf gpath hpath base = some (true, ls)) :
    ls = [] ↔ gf.hasScalar = false := by
  cases gf with
  | nil => simp [fieldLeaves_nil hl, Fields.hasScalar]
  | cons name offset isBitField type rest =>
      obtain ⟨rfl, htype, hrest, gp, hp, first, more, rfl, h1, h2⟩ := fieldLeaves_cons hl
      rw [List.append_eq_nil_iff, leaves_eq_nil_iff h1, fieldLeaves_eq_nil_iff h2]
      simp [Fields.hasScalar]

end

/-! ## The first leaf is where the type starts -/

/-- The first leaf of two parts is the second part's where the first part has none. -/
theorem head_append {first more : List Leaf} {base : Nat}
    (h1 : ∀ leaf, first.head? = some leaf → leaf.offset = base)
    (h2 : first = [] → ∀ leaf, more.head? = some leaf → leaf.offset = base) :
    ∀ leaf, (first ++ more).head? = some leaf → leaf.offset = base := by
  cases first with
  | nil => exact h2 rfl
  | cons a rest => exact h1

mutual

/-- **The first leaf is at the start of the type.** -/
theorem leaves_head {g h : CType} {gpath hpath : String} {base : Nat} {ls : List Leaf}
    (hw : g.WellFormed) (hl : leaves g h gpath hpath base = some (true, ls)) :
    ∀ leaf, ls.head? = some leaf → leaf.offset = base := by
  cases g with
  | record isUnion fields size =>
      obtain ⟨hfields, hf⟩ := leaves_record hl
      cases isUnion with
      | false => exact fieldLeaves_head_struct hw hf
      | true => exact fieldLeaves_head_union hw hf
  | array element count =>
      obtain ⟨parts, hlen, rfl, hparts⟩ := leaves_array hl
      cases parts with
      | nil => intro leaf h; cases h
      | cons part rest =>
          obtain ⟨helement, gp, hp, hpart⟩ := hparts 0 (Nat.succ_pos _)
          -- the elements are of one type: no leaf in the first, none in the others
          have hempty : part = [] → rest.flatten = [] := by
            intro hnil
            have hscalar := (leaves_eq_nil_iff hpart).mp hnil
            refine List.flatten_eq_nil_iff.mpr fun p hmem => ?_
            obtain ⟨i, hi, rfl⟩ := List.mem_iff_getElem.mp hmem
            obtain ⟨he, gp', hp', hpart'⟩ := hparts (i + 1) (Nat.succ_lt_succ hi)
            exact (leaves_eq_nil_iff hpart').mpr hscalar
          refine head_append (fun leaf hleaf => ?_) fun hnil leaf hleaf => ?_
          · rw [leaves_head (g := element) hw hpart leaf hleaf]
            omega
          · have : rest.flatten.head? = none := by rw [hempty hnil]; rfl
            rw [this] at hleaf
            cases hleaf
  | _ =>
      obtain ⟨value, -, rfl⟩ := scalarLeaf_eq_true hl
      intro leaf hleaf
      injection hleaf with hleaf
      rw [← hleaf]

/-- A first member without scalars takes no room, so the next one starts at the same place. -/
theorem fieldLeaves_head_struct {gf hf : Fields} {gpath hpath : String} {base : Nat}
    {ls : List Leaf} {size : Nat} (hw : gf.InOrder true 0 size)
    (hl : fieldLeaves gf hf gpath hpath base = some (true, ls)) :
    ∀ leaf, ls.head? = some leaf → leaf.offset = base := by
  cases gf with
  | nil =>
      rw [fieldLeaves_nil hl]
      intro leaf h
      cases h
  | cons name offset isBitField type rest =>
      obtain ⟨rfl, htype, hrest, gp, hp, first, more, rfl, h1, h2⟩ := fieldLeaves_cons hl
      obtain ⟨htypeWF, -, hzero, hrestWF⟩ := hw
      rw [hzero rfl] at h1 hrestWF
      refine head_append (leaves_head htypeWF h1) fun hnil => ?_
      have hsize := CType.guestSize_of_not_hasScalar htypeWF ((leaves_eq_nil_iff h1).mp hnil)
      rw [extent, hsize] at hrestWF
      exact fieldLeaves_head_struct hrestWF h2

theorem fieldLeaves_head_union {gf hf : Fields} {gpath hpath : String} {base : Nat}
    {ls : List Leaf} {fresh : Bool} {size : Nat} (hw : gf.AtStart fresh size)
    (hl : fieldLeaves gf hf gpath hpath base = some (true, ls)) :
    ∀ leaf, ls.head? = some leaf → leaf.offset = base := by
  cases gf with
  | nil =>
      rw [fieldLeaves_nil hl]
      intro leaf h
      cases h
  | cons name offset isBitField type rest =>
      obtain ⟨rfl, htype, hrest, gp, hp, first, more, rfl, h1, h2⟩ := fieldLeaves_cons hl
      obtain ⟨htypeWF, hzero, -, hrestWF⟩ := hw
      rw [hzero] at h1
      exact head_append (leaves_head htypeWF h1) fun _ => fieldLeaves_head_union hrestWF h2

end

/-! ## The leaves are apart where no memory is shared -/

/-- The leaves are apart, from a cursor on. -/
abbrev Apart (cursor : Nat) (ls : List Leaf) : Prop :=
  Packed.Apart Leaf.offset Leaf.bytes (fun leaf => leaf.member.bytes) cursor ls

/-- The mirror's member is as wide as the scalar, but for one narrower than `float`: it becomes a
`double`, which reaches into the memory behind it. -/
theorem leafValue_member {g h : CType} {value : Value} (hv : leafValue g h = some value)
    (gpath hpath : String) (base : Nat) :
    let leaf : Leaf := ⟨gpath, hpath, base, value⟩
    leaf.bytes ≤ leaf.member.bytes ∧ (leaf.member.bytes = leaf.bytes ↔ g.unshared = true) := by
  rcases leafValue_cases hv with ⟨width, signed, rfl, hk, hb⟩ | ⟨width, rfl, hk, hb⟩ |
    ⟨kind, rfl, hk⟩
  · simp [Leaf.bytes, Leaf.bits, Leaf.member, MemberType.bytes, CType.unshared, hk]
  · cases width <;>
      simp [Leaf.bytes, Leaf.bits, Leaf.member, MemberType.bytes, CType.unshared, hk, hb,
        FloatWidth.bits]
  · simp [Leaf.bytes, Leaf.bits, Leaf.member, MemberType.bytes, CType.unshared, hk]

mutual

/-- What holds of the leaf of every scalar holds of every leaf. -/
theorem leaves_forall {P : Leaf → Prop}
    (hP : ∀ (g h : CType) (value : Value) (gp hp : String) (base : Nat),
      leafValue g h = some value → P ⟨gp, hp, base, value⟩)
    {g h : CType} {gpath hpath : String} {base : Nat} {done : Bool} {ls : List Leaf}
    (hl : leaves g h gpath hpath base = some (done, ls)) : ∀ leaf ∈ ls, P leaf := by
  cases g with
  | record isUnion fields size =>
      cases h with
      | record hisUnion hfields hsize => exact fieldLeaves_forall hP hl
      | _ => exact Walk.forall_of_false hl
  | array element count =>
      rw [leaves] at hl
      refine Walk.forall_all hl fun walk hmem d l hd => ?_
      obtain ⟨i, hi, rfl⟩ := List.mem_map.mp hmem
      obtain ⟨helement, -, hd⟩ := Option.bind_eq_some_iff.mp hd
      exact leaves_forall hP hd
  | _ =>
      rcases scalarLeaf_eq_some hl with ⟨value, hv, -, rfl⟩ | ⟨-, rfl⟩
      · intro leaf hleaf
        rw [List.mem_singleton.mp hleaf]
        exact hP _ _ _ _ _ _ hv
      · intro leaf hleaf
        cases hleaf

theorem fieldLeaves_forall {P : Leaf → Prop}
    (hP : ∀ (g h : CType) (value : Value) (gp hp : String) (base : Nat),
      leafValue g h = some value → P ⟨gp, hp, base, value⟩)
    {gf hf : Fields} {gpath hpath : String} {base : Nat} {done : Bool} {ls : List Leaf}
    (hl : fieldLeaves gf hf gpath hpath base = some (done, ls)) : ∀ leaf ∈ ls, P leaf := by
  cases gf with
  | nil => exact Walk.forall_of_false hl
  | cons name offset isBitField type rest =>
      cases hf with
      | nil => exact Walk.forall_of_false hl
      | cons hname hoffset hbit htype hrest =>
          rw [fieldLeaves] at hl
          split at hl
          case isTrue => exact Walk.forall_of_false hl
          case isFalse =>
            exact Walk.forall_andThen hl (fun d l hd => leaves_forall hP hd)
              fun d l hd => fieldLeaves_forall hP hd

end

theorem leafValue_pos {g h : CType} {value : Value} (hv : leafValue g h = some value)
    (gpath hpath : String) (base : Nat) : 0 < (⟨gpath, hpath, base, value⟩ : Leaf).bytes := by
  rcases leafValue_cases hv with ⟨width, signed, rfl, hk, hb⟩ | ⟨width, rfl, hk, hb⟩ |
    ⟨kind, rfl, hk⟩
  · simpa [Leaf.bytes, Leaf.bits, hk, hb] using bits_pos width
  · simpa [Leaf.bytes, Leaf.bits, hk, hb] using floatBits_pos width
  · simp [Leaf.bytes, Leaf.bits, hk]

theorem leaves_pos {g h : CType} {gpath hpath : String} {base : Nat} {done : Bool}
    {ls : List Leaf} (hl : leaves g h gpath hpath base = some (done, ls)) :
    ∀ leaf ∈ ls, 0 < leaf.bytes :=
  leaves_forall (fun _ _ _ gp hp base hv => leafValue_pos hv gp hp base) hl

theorem leaves_le_member {g h : CType} {gpath hpath : String} {base : Nat} {done : Bool}
    {ls : List Leaf} (hl : leaves g h gpath hpath base = some (done, ls)) :
    ∀ leaf ∈ ls, leaf.bytes ≤ leaf.member.bytes :=
  leaves_forall (fun _ _ _ gp hp base hv => (leafValue_member hv gp hp base).1) hl

/-- The occupied members of a union, one by one. -/
theorem Fields.occupied_eq_zero_iff {fields : Fields} {hf : Fields} {gpath hpath : String}
    {base : Nat} {ls : List Leaf} (hl : fieldLeaves fields hf gpath hpath base = some (true, ls)) :
    fields.occupied = 0 ↔ ls = [] := by
  cases fields with
  | nil => simp [Fields.occupied, fieldLeaves_nil hl]
  | cons name offset isBitField type rest =>
      obtain ⟨-, htype, hrest, gp, hp, first, more, rfl, h1, h2⟩ := fieldLeaves_cons hl
      rw [List.append_eq_nil_iff, leaves_eq_nil_iff h1, 
        ← Fields.occupied_eq_zero_iff h2, Fields.occupied]
      cases type.hasScalar <;> simp

mutual

/-- **The leaves of a type that `Leaves` walks to its end are apart exactly when no two
scalars of the guest type share memory** (and none is narrower than `float`). -/
theorem leaves_apart_iff {g h : CType} {gpath hpath : String} {base : Nat} {ls : List Leaf}
    (hw : g.WellFormed) (hl : leaves g h gpath hpath base = some (true, ls)) :
    Apart base ls ↔ g.unshared = true := by
  cases g with
  | record isUnion fields size =>
      obtain ⟨hfields, hf⟩ := leaves_record hl
      cases isUnion with
      | false =>
          have hfields := fieldLeaves_apart_struct hw hf
          rw [Nat.add_zero] at hfields
          rw [hfields, CType.unshared]
          simp
      | true =>
          rw [fieldLeaves_apart_union hw hf, CType.unshared]
          simp
  | array element count =>
      obtain ⟨parts, hlen, rfl, hparts⟩ := leaves_array hl
      -- each element has a block of its own
      have hwithin : ∀ (i : Nat) (hi : i < parts.length), ∀ x ∈ parts[i],
          base + i * element.guestSize ≤ x.offset ∧
            x.offset + x.bytes ≤ base + (i + 1) * element.guestSize := by
        intro i hi x hx
        obtain ⟨helement, gp, hp, hpart⟩ := hparts i hi
        obtain ⟨h1, h2⟩ := leaves_within (g := element) hw hpart x hx
        rw [Nat.add_mul, Nat.one_mul]
        exact ⟨h1, by omega⟩
      rw [Apart, Packed.apart_blocks hwithin, CType.unshared, Bool.or_eq_true, decide_eq_true_eq]
      constructor
      · intro hall
        by_cases hzero : count = 0
        · exact Or.inl hzero
        · obtain ⟨helement, gp, hp, hpart⟩ := hparts 0 (by omega)
          exact Or.inr ((leaves_apart_iff (g := element) hw hpart).mp (hall 0 (by omega)))
      · rintro hor i hi
        obtain ⟨helement, gp, hp, hpart⟩ := hparts i hi
        exact (leaves_apart_iff (g := element) hw hpart).mpr (hor.resolve_left (by omega))
  | _ =>
      obtain ⟨value, hv, rfl⟩ := scalarLeaf_eq_true hl
      rw [← (leafValue_member hv gpath hpath base).2]
      simp [Apart, Packed.Apart]

/-- Each member is in front of the rest, so only its own leaves can meet. -/
theorem fieldLeaves_apart_struct {gf hf : Fields} {gpath hpath : String} {base : Nat}
    {ls : List Leaf} {fresh : Bool} {cursor size : Nat} (hw : gf.InOrder fresh cursor size)
    (hl : fieldLeaves gf hf gpath hpath base = some (true, ls)) :
    Apart (base + cursor) ls ↔ gf.unshared = true := by
  cases gf with
  | nil => simp [fieldLeaves_nil hl, Apart, Packed.Apart, Fields.unshared]
  | cons name offset isBitField type rest =>
      obtain ⟨rfl, htype, hrest, gp, hp, first, more, rfl, h1, h2⟩ := fieldLeaves_cons hl
      obtain ⟨htypeWF, hcursor, -, hrestWF⟩ := hw
      have hext : extent false type = type.guestSize := rfl
      rw [hext] at hrestWF
      have hfirst := leaves_within htypeWF h1
      have hmore := fieldLeaves_within_struct hrestWF h2
      rw [Nat.add_assoc] at hfirst
      have hblocks : Apart (base + cursor) (first ++ more) ↔
          Apart (base + cursor) first ∧ Apart (base + (offset + type.guestSize)) more :=
        Packed.apart_append_of_le (by omega)
          (fun x hx => ⟨by have := (hfirst x hx).1; omega, (hfirst x hx).2⟩)
          fun x hx => (hmore x hx).1
      -- the padding in front of the member does not matter
      have hmove : Apart (base + cursor) first ↔ Apart (base + offset) first :=
        Packed.apart_of_first (fun x hx => by have := (hfirst x hx).1; omega)
          fun x hx => (hfirst x hx).1
      rw [hblocks, hmove, leaves_apart_iff htypeWF h1, fieldLeaves_apart_struct hrestWF h2,
        Fields.unshared, Bool.and_eq_true]

/-- All members start at one place, so at most one of them has leaves. -/
theorem fieldLeaves_apart_union {gf hf : Fields} {gpath hpath : String} {base : Nat}
    {ls : List Leaf} {fresh : Bool} {size : Nat} (hw : gf.AtStart fresh size)
    (hl : fieldLeaves gf hf gpath hpath base = some (true, ls)) :
    Apart base ls ↔ gf.unshared = true ∧ gf.occupied ≤ 1 := by
  cases gf with
  | nil => simp [fieldLeaves_nil hl, Apart, Packed.Apart, Fields.unshared, Fields.occupied]
  | cons name offset isBitField type rest =>
      obtain ⟨rfl, htype, hrest, gp, hp, first, more, rfl, h1, h2⟩ := fieldLeaves_cons hl
      obtain ⟨htypeWF, rfl, -, hrestWF⟩ := hw
      have hpos : ∀ x ∈ first, base < x.offset + x.bytes := fun x hx => by
        have := (leaves_within htypeWF h1 x hx).1
        have := leaves_pos h1 x hx
        omega
      have hone : Apart base first ↔ type.unshared = true := leaves_apart_iff htypeWF h1
      have hblocks : Apart base (first ++ more) ↔
          (Apart base first ∧ Apart base more) ∧ (first = [] ∨ more = []) :=
        Packed.apart_append_of_same_start hpos (fieldLeaves_head_union hrestWF h2)
      rw [hblocks, hone, fieldLeaves_apart_union hrestWF h2, leaves_eq_nil_iff h1,
        ← Fields.occupied_eq_zero_iff h2, Fields.unshared, Fields.occupied, Bool.and_eq_true]
      -- A member without scalars leaves the count as it is; one with scalars makes it one more.
      cases type.hasScalar with
      | false => simp [and_assoc]
      | true =>
          simp only [Bool.true_eq_false, false_or, if_true]
          constructor
          · rintro ⟨⟨h, h', -⟩, hzero⟩
            exact ⟨⟨h, h'⟩, by omega⟩
          · rintro ⟨⟨h, h'⟩, hone⟩
            exact ⟨⟨h, h', by omega⟩, by omega⟩

end

end Katabasis
