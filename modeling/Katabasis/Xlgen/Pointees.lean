import Katabasis.Xlgen.Pack
import Katabasis.Xlgen.Signatures

set_option autoImplicit false

/-! # What a parameter points to

A host function that is passed a pointer to data of two layouts gets a pointer to a local variable
of its own layout. `HostLoad` fills the variable before the call and copies it back after the call
(`xlate/src/xlgen.cpp`), in three ways: for a slot, for a structure and for an array with its
count.

`Transparent` says that the callee starts from the guest's value, converted, and that the guest
has what the callee left, converted. **`transparent_iff`**: a structure that is written back starts
from zeros, so it is transparent only where the guest's structure has zeros in it; and a mirror
stands for its structure only where `Leaves` comes to its end and no scalars share memory.

The guest's memory has each scalar at its address, below 4 GiB; the allocator of the array's copy
has as much as it is asked for.
-/

namespace Katabasis

namespace Pointees

open Signatures CIntegers

variable {F : FloatWidth → Type}

/-! ## Memory -/

abbrev GuestMemory (F : FloatWidth → Type) := Int → Option (Scalar F)

/-- The scalars at these distances from the address. -/
def load (mem : GuestMemory F) (address : Int) : List Nat → Option (List (Scalar F))
  | [] => some []
  | place :: places => do
      let x ← mem (address + place)
      let xs ← load mem address places
      return x :: xs

def store (mem : GuestMemory F) (address : Int) : List Nat → List (Scalar F) → GuestMemory F
  | place :: places, x :: xs =>
      store (Function.update mem (address + place) (some x)) address places xs
  | _, _ => mem

/-- `Machinery`, and what the bytes of a zero mean. -/
structure HostMachinery (F : FloatWidth → Type) extends Machinery F where
  zero : (width : FloatWidth) → F width

/-- A scalar of zeros. -/
def HostMachinery.zeroOf (m : HostMachinery F) (leaf : Leaf) : Scalar F :=
  match leaf.value.kind with
  | .floating => .floating leaf.value.host.format (m.zero _)
  | _ => .integer 0

/-- `__builtin_memset(&record, 0, sizeof record)` -/
def HostMachinery.zeroed (m : HostMachinery F) (ls : List Leaf) : HostRecord F := fun path =>
  match ls.find? fun leaf => leaf.hostPath = path with
  | some leaf => m.zeroOf leaf
  | none => .integer 0

/-! ## The call -/

/-- Where the expressions of a parameter reach into the guest's memory: the members of a mirror
are where its paddings put them. -/
def places (count : Nat) : ParamValue → List Nat
  | .value _ => []
  | .outSlot _ => [0]
  | .recordPointer pointee _ =>
      ((Katabasis.mirror pointee.guest pointee.host).map MirrorStruct.offsets).getD []
  | .array element _ _ => (List.range count).map fun i => i * (slotLeaf element).member.bytes

/-- What a fault is reported with. -/
structure Site where
  symbol : String
  index : Nat
  mirror : String

/-- The assignments to a slot, or to the elements of an array. -/
def elementsToHost (m : Machinery F) (site : Site) :
    List Leaf → List (Scalar F) → HostRecord F → Option (Narrowed (HostRecord F))
  | leaf :: rest, x :: xs, h =>
      match scalarToHost m leaf.value site.symbol site.index x with
      | none => none
      | some (.error fault) => some (.error fault)
      | some (.ok y) => elementsToHost m site rest xs (Function.update h leaf.hostPath y)
  | _, _, h => some (.ok h)

/-- `array[count] = 0` -/
def terminate (m : HostMachinery F) (element : Value) (count : Nat) (h : HostRecord F) :
    HostRecord F :=
  Function.update h ("[" ++ toString count ++ "]") (m.zeroOf (slotLeaf element))

section

variable (m : HostMachinery F) (site : Site) (v : ParamValue) (count : Nat)
  (stack : HostRecord F) (mem : GuestMemory F)

/-- What `HostLoad` puts before the call, for a pointer that is not null: the variable that the
callee gets a pointer to. -/
def prepare (address : Int) : Option (Narrowed (HostRecord F)) :=
  match v with
  | .value _ => none
  | .outSlot _ =>
      (load mem address (places count v)).bind fun contents =>
        elementsToHost m.toMachinery site (v.leaves count) contents stack
  | .recordPointer _ true => some (.ok (m.zeroed (v.leaves count)))
  | .recordPointer _ false =>
      (load mem address (places count v)).bind fun contents =>
        mirrorToHost m.toMachinery site.mirror 0 (v.leaves count) contents stack
  | .array element _ _ =>
      (load mem address (places count v)).bind fun contents =>
        (elementsToHost m.toMachinery site (v.leaves count) contents stack).map fun h =>
          terminate m element count <$> h

/-- The call of a host function with the pointer `x`: what the callee's pointer points to, and
the guest's memory after the call. -/
def bridgedCall (x : Int) (callee : HostRecord F → HostRecord F) :
    Option (Narrowed (Option (HostRecord F) × GuestMemory F)) :=
  let address := wrap false 32 x
  if address = 0 then some (.ok (none, mem))
  else match prepare m site v count stack mem address with
    | none => none
    | some (.error fault) => some (.error fault)
    | some (.ok start) =>
        if v.writesBack then
          (mirrorToGuest m.toMachinery (v.leaves count) (callee start)).map fun members =>
            .ok (some start, store mem address (places count v) members)
        else some (.ok (some start, mem))

end

/-! ## What it is meant to do -/

/-- The host's scalars are the guest's, converted. -/
def Converted (m : Machinery F) (ls : List Leaf) (contents : List (Scalar F))
    (h : HostRecord F) : Prop :=
  List.Forall₂ (fun leaf x => ∀ symbol index,
    scalarToHost m leaf.value symbol index x = some (.ok (h leaf.hostPath))) ls contents

/-- The scalar is of the leaf's type. -/
def Fits (leaf : Leaf) : Scalar F → Prop
  | .integer _ => leaf.value.kind ≠ .floating
  | .floating _ _ => leaf.value.kind = .floating

/-- All that the pointer points to is converted, each scalar at its place. -/
structure Whole (v : ParamValue) (count : Nat) : Prop where
  walked : ∀ pointee writesBack, v = .recordPointer pointee writesBack →
    Comes (leaves pointee.guest pointee.host "" "" 0) ∧
      ∀ struct, Katabasis.mirror pointee.guest pointee.host = some struct →
        struct.size = pointee.guest.guestSize
  placed : places count v = (v.leaves count).map Leaf.offset

/-- **The copies are transparent** for a pointer `x`: null is passed as null, and nothing is
touched; any other pointer whose contents the host can have is passed as a pointer to these,
and afterwards the guest has what a callee left, unless the pointee is const. -/
structure Transparent (m : HostMachinery F) (site : Site) (v : ParamValue) (count : Nat)
    (mem : GuestMemory F) (x : Int) : Prop where
  null : x = 0 → ∀ stack callee,
    bridgedCall m site v count stack mem x callee = some (.ok (none, mem))
  carried : x ≠ 0 → ∀ contents, load mem x ((v.leaves count).map Leaf.offset) = some contents →
    (∃ h, Converted m.toMachinery (v.leaves count) contents h) →
    Whole v count ∧ ∀ stack callee,
      (∀ h, ∀ leaf ∈ v.leaves count, Fits leaf (callee h leaf.hostPath)) →
      ∃ start after, bridgedCall m site v count stack mem x callee
          = some (.ok (some start, after)) ∧
        Converted m.toMachinery (v.leaves count) contents start ∧
        if v.writesBack then
          ∃ members, mirrorToGuest m.toMachinery (v.leaves count) (callee start) = some members ∧
            after = store mem x ((v.leaves count).map Leaf.offset) members
        else after = mem

/-- What C promises of the types: their layouts and the names of their members. The elements of
an array with two layouts are no narrower than `float`. -/
def Lawful : ParamValue → Prop
  | .recordPointer pointee _ => pointee.guest.WellFormed ∧ pointee.host.Named
  | .array element _ _ => (slotLeaf element).member.bytes = (slotLeaf element).bytes
  | _ => True

/-- The contents that come to the callee: a structure has a mirror that stands for it, and is
const or has zeros in it. -/
def CopiedIn (m : HostMachinery F) (contents : List (Scalar F)) : ParamValue → Prop
  | .recordPointer pointee writesBack =>
      mirrored pointee.guest pointee.host = true ∧ pointee.guest.unshared = true ∧
        (writesBack = true → Converted m.toMachinery
          ((ParamValue.recordPointer pointee writesBack).leaves 0) contents
          (m.zeroed ((ParamValue.recordPointer pointee writesBack).leaves 0)))
  | _ => True

/-! ## The paths of any walk -/

/-- The paths of the leaves that a walk collects go on from the stems, and are all different. -/
def Paths (walk : Walk) (stems : List String) : Prop :=
  ∀ done ls, walk = some (done, ls) →
    (∀ leaf ∈ ls, ∃ stem ∈ stems, GoesOn stem leaf.hostPath) ∧ (ls.map Leaf.hostPath).Nodup

namespace Paths

theorem empty (done : Bool) (stems : List String) : Paths (some (done, [])) stems := by
  intro done' ls h
  cases h
  exact ⟨fun leaf hleaf => absurd hleaf List.not_mem_nil, List.nodup_nil⟩

theorem mono {walk : Walk} {stems : List String} {stem : String} (h : Paths walk stems)
    (hstem : ∀ stem' ∈ stems, ∀ path, GoesOn stem' path → GoesOn stem path) :
    Paths walk [stem] := by
  intro done ls hwalk
  obtain ⟨hunder, hnodup⟩ := h done ls hwalk
  refine ⟨fun leaf hleaf => ?_, hnodup⟩
  obtain ⟨stem', hstem', hgoes⟩ := hunder leaf hleaf
  exact ⟨stem, List.mem_singleton_self _, hstem stem' hstem' _ hgoes⟩

/-- The step over a member. -/
theorem andThen {a b : Walk} {stems stems' : List String} (ha : Paths a stems)
    (hb : Paths b stems') (hapart : ∀ stem ∈ stems, ∀ stem' ∈ stems', ∀ path, GoesOn stem path →
      ¬ GoesOn stem' path) : Paths (a.andThen b) (stems ++ stems') := by
  intro done ls hwalk
  rcases Walk.andThen_eq_some hwalk with ⟨hfirst, -⟩ | ⟨first, more, hfirst, hmore, rfl⟩
  · obtain ⟨hunder, hnodup⟩ := ha _ _ hfirst
    refine ⟨fun leaf hleaf => ?_, hnodup⟩
    obtain ⟨stem, hstem, hgoes⟩ := hunder leaf hleaf
    exact ⟨stem, List.mem_append_left _ hstem, hgoes⟩
  · obtain ⟨hunder, hnodup⟩ := ha _ _ hfirst
    obtain ⟨hunder', hnodup'⟩ := hb _ _ hmore
    refine ⟨fun leaf hleaf => ?_, ?_⟩
    · rcases List.mem_append.mp hleaf with h | h
      · obtain ⟨stem, hstem, hgoes⟩ := hunder leaf h
        exact ⟨stem, List.mem_append_left _ hstem, hgoes⟩
      · obtain ⟨stem, hstem, hgoes⟩ := hunder' leaf h
        exact ⟨stem, List.mem_append_right _ hstem, hgoes⟩
    · rw [List.map_append]
      refine List.Nodup.append hnodup hnodup' fun path h h' => ?_
      obtain ⟨leaf, hleaf, rfl⟩ := List.mem_map.mp h
      obtain ⟨leaf', hleaf', hsame⟩ := List.mem_map.mp h'
      obtain ⟨stem, hstem, hgoes⟩ := hunder leaf hleaf
      obtain ⟨stem', hstem', hgoes'⟩ := hunder' leaf' hleaf'
      rw [hsame] at hgoes'
      exact hapart stem hstem stem' hstem' _ hgoes hgoes'

/-- The walk over the elements of an array. -/
theorem all {w : Nat → Walk} {stem : Nat → String}
    (hstem : ∀ i j path, GoesOn (stem i) path → GoesOn (stem j) path → i = j) {is : List Nat}
    (hnodup : is.Nodup) (h : ∀ i ∈ is, Paths (w i) [stem i]) :
    Paths (Walk.all (is.map w)) (is.map stem) := by
  induction is with
  | nil => exact empty true []
  | cons i rest ih =>
      obtain ⟨hne, hrest⟩ := List.nodup_cons.mp hnodup
      refine (h i List.mem_cons_self).andThen
        (ih hrest fun j hj => h j (List.mem_cons_of_mem _ hj)) ?_
      intro stem' hstem' stem'' hstem'' path hgoes hgoes'
      obtain rfl := List.mem_singleton.mp hstem'
      obtain ⟨j, hj, rfl⟩ := List.mem_map.mp hstem''
      rw [hstem i j path hgoes hgoes'] at hne
      exact hne hj

end Paths

theorem paths_scalarLeaf (g h : CType) (gpath hpath : String) (base : Nat) :
    Paths (leaves.scalarLeaf g h gpath hpath base) [hpath] := by
  unfold leaves.scalarLeaf
  cases leafValue g h with
  | none => exact Paths.empty false _
  | some value =>
      intro done ls hwalk
      cases hwalk
      refine ⟨fun leaf hleaf => ?_, List.nodup_singleton _⟩
      rw [List.mem_singleton.mp hleaf]
      exact ⟨hpath, List.mem_singleton_self _, GoesOn.refl _⟩

mutual

/-- **The paths of the leaves are all different**, in any walk over a type whose members have
names. -/
theorem paths_leaves (g : CType) {h : CType} (hnamed : h.Named) (gpath hpath : String)
    (base : Nat) : Paths (leaves g h gpath hpath base) [hpath] := by
  cases g with
  | integer width signed => exact paths_scalarLeaf _ h gpath hpath base
  | floating width => exact paths_scalarLeaf _ h gpath hpath base
  | pointer kind => exact paths_scalarLeaf _ h gpath hpath base
  | other size => exact paths_scalarLeaf _ h gpath hpath base
  | array element count =>
      rw [leaves]
      have hstems : ∀ i j path, GoesOn (hpath ++ "[" ++ toString i ++ "]") path →
          GoesOn (hpath ++ "[" ++ toString j ++ "]") path → i = j :=
        fun i j path => index_unique
      refine (Paths.all hstems List.nodup_range fun i _ => ?_).mono
        fun stem hstem path hgoes => ?_
      · cases h with
        | array helement hcount => exact paths_leaves element (h := helement) hnamed _ _ _
        | _ => exact fun done ls hwalk => (nomatch hwalk)
      · obtain ⟨i, -, rfl⟩ := List.mem_map.mp hstem
        exact hgoes.of_index
  | record isUnion fields size =>
      cases h with
      | record hisUnion hfields hsize =>
          rw [leaves]
          refine (paths_fieldLeaves fields hnamed gpath hpath base).mono
            fun stem hstem path hgoes => ?_
          obtain ⟨name, -, rfl⟩ := List.mem_map.mp hstem
          exact hgoes.of_member
      | _ =>
          rw [leaves]
          exact Paths.empty false _
          all_goals exact fun _ _ _ h => (nomatch h)

theorem paths_fieldLeaves (gf : Fields) {hf : Fields} (hnamed : hf.Named) (gpath hpath : String)
    (base : Nat) :
    Paths (fieldLeaves gf hf gpath hpath base) (hf.names.map (hpath ++ "." ++ ·)) := by
  cases gf with
  | nil => exact Paths.empty _ _
  | cons name offset isBitField type rest =>
      cases hf with
      | nil => exact Paths.empty false _
      | cons hname hoffset hbit htype hrest =>
          obtain ⟨hidentifier, hnew, hnamedType, hnamedRest⟩ := hnamed
          rw [fieldLeaves]
          split
          · exact Paths.empty false _
          · refine (paths_leaves type hnamedType _ _ _).andThen
              (paths_fieldLeaves rest hnamedRest gpath hpath base) ?_
            intro stem hstem stem' hstem' path hgoes hgoes'
            obtain rfl := List.mem_singleton.mp hstem
            obtain ⟨name', hname', rfl⟩ := List.mem_map.mp hstem'
            have heq := member_unique hidentifier (hnamedRest.isIdentifier hname') hgoes hgoes'
            rw [heq] at hnew
            exact hnew hname'

end

theorem leaves_recordPointer (pointee : Value) (writesBack : Bool) (count : Nat) :
    (ParamValue.recordPointer pointee writesBack).leaves count
      = Generator.leafList pointee.guest pointee.host := by
  unfold ParamValue.leaves Generator.leafList
  dsimp only
  cases leaves pointee.guest pointee.host "" "" 0 <;> rfl

/-- The path of an element of an array that has no name of its own. -/
theorem goesOn_index (i : Nat) :
    GoesOn ("" ++ "[" ++ toString i ++ "]") ("[" ++ toString i ++ "]") :=
  ⟨[], by simp [String.toList_append], by simp⟩

/-- The variable's scalars have paths of their own. -/
theorem nodup_leaves {v : ParamValue} (h : Lawful v) (count : Nat) :
    ((v.leaves count).map Leaf.hostPath).Nodup := by
  cases v with
  | value _ => exact List.nodup_nil
  | outSlot pointee => exact List.nodup_singleton _
  | recordPointer pointee writesBack =>
      rw [leaves_recordPointer]
      unfold Generator.leafList
      cases hwalk : leaves pointee.guest pointee.host "" "" 0 with
      | none => exact List.nodup_nil
      | some walk => exact (paths_leaves pointee.guest h.2 "" "" 0 walk.1 walk.2 hwalk).2
  | array element index writesBack =>
      simp only [ParamValue.leaves, List.map_map]
      refine List.nodup_range.map fun i j hij => ?_
      have hpath : "[" ++ toString i ++ "]" = "[" ++ toString j ++ "]" := hij
      exact index_unique (goesOn_index i) (hpath ▸ goesOn_index j)

/-! ## The copy before the call -/

section

variable {m : HostMachinery F} {ls : List Leaf} {contents : List (Scalar F)} {h h' : HostRecord F}

/-- What is converted is at the paths of the leaves. -/
theorem Converted.congr {m : Machinery F} (hc : Converted m ls contents h)
    (heq : ∀ leaf ∈ ls, h' leaf.hostPath = h leaf.hostPath) : Converted m ls contents h' := by
  induction hc with
  | nil => exact List.Forall₂.nil
  | @cons leaf x rest xs hleaf _ ih =>
      refine List.Forall₂.cons (fun symbol index => ?_)
        (ih fun l hl => heq l (List.mem_cons_of_mem _ hl))
      rw [heq leaf List.mem_cons_self]
      exact hleaf symbol index

/-- The mirror's assignments convert what they are given. -/
theorem mirrorToHost_converts {m : Machinery F} (hnodup : (ls.map Leaf.hostPath).Nodup)
    (hc : Converted m ls contents h) (name : String) (stack : HostRecord F) :
    ∃ start, mirrorToHost m name 0 ls contents stack = some (.ok start) ∧
      Converted m ls contents start := by
  obtain ⟨start, hrun, hsame, -⟩ := mirrorToHost_crosses hnodup hc name 0 stack
  exact ⟨start, hrun, hc.congr hsame⟩

/-- The assignments to the elements do. -/
theorem elementsToHost_converts {m : Machinery F} (hnodup : (ls.map Leaf.hostPath).Nodup)
    (hc : Converted m ls contents h) (site : Site) (stack : HostRecord F) :
    ∃ start, elementsToHost m site ls contents stack = some (.ok start) ∧
      (∀ leaf ∈ ls, start leaf.hostPath = h leaf.hostPath) ∧
      ∀ path, path ∉ ls.map Leaf.hostPath → start path = stack path := by
  induction hc generalizing stack with
  | nil => exact ⟨stack, rfl, fun _ hleaf => absurd hleaf List.not_mem_nil, fun _ _ => rfl⟩
  | @cons leaf x rest xs hleaf _ ih =>
      obtain ⟨hnew, hrest⟩ := List.nodup_cons.mp hnodup
      obtain ⟨start, hrun, hsame, hothers⟩ :=
        ih hrest (Function.update stack leaf.hostPath (h leaf.hostPath))
      refine ⟨start, ?_, fun l hl => ?_, fun path hpath => ?_⟩
      · rw [elementsToHost, hleaf]
        exact hrun
      · rcases List.mem_cons.mp hl with rfl | hl
        · rw [hothers _ hnew, Function.update_self]
        · exact hsame l hl
      · obtain ⟨hne, hnotin⟩ := not_or.mp (mt List.mem_cons.mpr hpath)
        rw [hothers path hnotin, Function.update_of_ne hne]

/-- A variable of zeros has them at the paths of its scalars. -/
theorem zeroed_leaf (hnodup : (ls.map Leaf.hostPath).Nodup) {leaf : Leaf} (hleaf : leaf ∈ ls) :
    m.zeroed ls leaf.hostPath = m.zeroOf leaf := by
  have hfind : ls.find? (fun l => l.hostPath = leaf.hostPath) = some leaf := by
    induction ls with
    | nil => exact absurd hleaf List.not_mem_nil
    | cons first rest ih =>
        obtain ⟨hnew, hrest⟩ := List.nodup_cons.mp hnodup
        rcases List.mem_cons.mp hleaf with rfl | hleaf
        · rw [List.find?_cons_of_pos (by simp)]
        · have hne : first.hostPath ≠ leaf.hostPath := by
            intro heq
            exact hnew (List.mem_map.mpr ⟨leaf, hleaf, heq.symm⟩)
          rw [List.find?_cons_of_neg (by simpa using hne), ih hrest hleaf]
  unfold HostMachinery.zeroed
  rw [hfind]

theorem fits_zeroOf (m : HostMachinery F) (leaf : Leaf) : Fits leaf (m.zeroOf leaf) := by
  unfold HostMachinery.zeroOf
  split
  case h_1 hkind => exact hkind
  case h_2 hkind => exact hkind

/-! ## The copy after the call -/

/-- A scalar of the leaf's type can be given to the guest. -/
theorem store_fits (m : Machinery F) {leaf : Leaf} {x : Scalar F} (hfits : Fits leaf x) :
    ∃ y member, scalarToGuest m leaf.value x = some y ∧ leaf.member.store m y = some member := by
  cases x with
  | integer x =>
      unfold scalarToGuest Leaf.member
      dsimp only
      cases hkind : leaf.value.kind with
      | floating => exact absurd hkind hfits
      | _ => exact ⟨_, _, rfl, rfl⟩
  | floating width x =>
      unfold scalarToGuest Leaf.member
      rw [show leaf.value.kind = .floating from hfits]
      dsimp only
      split
      · exact ⟨_, _, rfl, rfl⟩
      · exact ⟨_, _, rfl, rfl⟩

theorem mirrorToGuest_fits (m : Machinery F)
    (hfits : ∀ leaf ∈ ls, Fits leaf (h leaf.hostPath)) :
    ∃ members, mirrorToGuest m ls h = some members := by
  induction ls with
  | nil => exact ⟨[], rfl⟩
  | cons leaf rest ih =>
      obtain ⟨y, member, hy, hmember⟩ := store_fits m (hfits leaf List.mem_cons_self)
      obtain ⟨members, hmembers⟩ := ih fun l hl => hfits l (List.mem_cons_of_mem _ hl)
      refine ⟨member :: members, ?_⟩
      simp only [mirrorToGuest, hy, hmember, hmembers, bind, Option.bind]
      rfl

end

/-! ## When a mirror stands for its structure -/

/-- **All of a structure is converted, each scalar at its place, exactly where `Leaves` comes to
its end and no two scalars share memory.** -/
theorem whole_iff {v : ParamValue} (h : Lawful v) (htwice : v.laidOutTwice = true) (count : Nat) :
    Whole v count ↔ ∀ pointee writesBack, v = .recordPointer pointee writesBack →
      mirrored pointee.guest pointee.host = true ∧ pointee.guest.unshared = true := by
  constructor
  · rintro ⟨hwalked, hplaced⟩ pointee writesBack rfl
    obtain ⟨hcomes, hsize⟩ := hwalked pointee writesBack rfl
    refine ⟨(comes_leaves _ _ "" "" 0).mp hcomes, ?_⟩
    obtain ⟨ls, hls⟩ := hcomes
    obtain ⟨struct, hstruct⟩ : ∃ struct, Katabasis.mirror pointee.guest pointee.host
        = some struct := ⟨_, by rw [Katabasis.mirror, hls]; rfl⟩
    rw [leaves_recordPointer, places, hstruct] at hplaced
    have hapart := (Generator.mirror_exact_iff h.1 hstruct).mp ⟨hplaced, hsize struct hstruct⟩
    rw [Generator.leafList, hls] at hapart
    exact (leaves_apart_iff h.1 hls).mp hapart
  · intro hrecord
    cases v with
    | value _ => cases htwice
    | outSlot pointee => exact ⟨by rintro _ _ ⟨⟩, rfl⟩
    | array element index writesBack =>
        refine ⟨by rintro _ _ ⟨⟩, ?_⟩
        simp only [places, ParamValue.leaves, List.map_map]
        rw [show (slotLeaf element).member.bytes = (slotLeaf element).bytes from h]
        rfl
    | recordPointer pointee writesBack =>
        obtain ⟨hmirrored, hunshared⟩ := hrecord pointee writesBack rfl
        have hcomes := (comes_leaves pointee.guest pointee.host "" "" 0).mpr hmirrored
        obtain ⟨ls, hls⟩ := hcomes
        have hexact : ∀ struct, Katabasis.mirror pointee.guest pointee.host = some struct →
            struct.offsets = (Generator.leafList pointee.guest pointee.host).map Leaf.offset ∧
              struct.size = pointee.guest.guestSize := by
          intro struct hstruct
          refine (Generator.mirror_exact_iff h.1 hstruct).mpr ?_
          rw [Generator.leafList, hls]
          exact (leaves_apart_iff h.1 hls).mpr hunshared
        constructor
        case walked =>
            intro pointee' writesBack' hv
            cases hv
            exact ⟨⟨ls, hls⟩, fun struct hstruct => (hexact struct hstruct).2⟩
        case placed =>
            obtain ⟨struct, hstruct⟩ : ∃ struct, Katabasis.mirror pointee.guest pointee.host
                = some struct := ⟨_, by rw [Katabasis.mirror, hls]; rfl⟩
            rw [leaves_recordPointer, places, hstruct]
            exact (hexact struct hstruct).1

/-! ## The call -/

section

variable {m : HostMachinery F} {v : ParamValue} {count : Nat} {mem : GuestMemory F} {x : Int}
  {contents : List (Scalar F)}

/-- The terminator of an array is not one of its elements. -/
theorem terminate_element {element : Value} {index : Nat} {writesBack : Bool} {leaf : Leaf}
    (hleaf : leaf ∈ (ParamValue.array element index writesBack).leaves count)
    (h : HostRecord F) : terminate m element count h leaf.hostPath = h leaf.hostPath := by
  obtain ⟨i, hi, rfl⟩ := List.mem_map.mp hleaf
  have hlt : i < count := List.mem_range.mp hi
  refine Function.update_of_ne (fun hpath => ?_) _ _
  have heq : i = count := index_unique (goesOn_index i) (hpath ▸ goesOn_index count)
  omega

/-- **The callee starts from the guest's value**, where the value is copied in. -/
theorem prepare_converts (hlawful : Lawful v) (htwice : v.laidOutTwice = true)
    (hwhole : Whole v count)
    (hload : load mem x ((v.leaves count).map Leaf.offset) = some contents) {h : HostRecord F}
    (hc : Converted m.toMachinery (v.leaves count) contents h) (hcopied : CopiedIn m contents v)
    (site : Site) (stack : HostRecord F) :
    ∃ start, prepare m site v count stack mem x = some (.ok start) ∧
      Converted m.toMachinery (v.leaves count) contents start := by
  have hnodup := nodup_leaves hlawful count
  rw [← hwhole.placed] at hload
  obtain ⟨start, hrun, hsame, -⟩ := elementsToHost_converts hnodup hc site stack
  cases v with
  | value _ => cases htwice
  | outSlot pointee =>
      refine ⟨start, ?_, hc.congr hsame⟩
      simp only [prepare, hload, Option.bind_some, hrun]
  | array element index writesBack =>
      refine ⟨terminate m element count start, ?_, hc.congr fun leaf hleaf => ?_⟩
      · simp only [prepare, hload, Option.bind_some, hrun, Option.map_some]
        rfl
      · rw [terminate_element hleaf, hsame leaf hleaf]
  | recordPointer pointee writesBack =>
      cases writesBack with
      | true =>
          refine ⟨_, rfl, ?_⟩
          have hzero := hcopied.2.2 rfl
          rw [leaves_recordPointer] at hzero ⊢
          exact hzero
      | false =>
          obtain ⟨start', hrun', hconverted⟩ := mirrorToHost_converts hnodup hc site.mirror stack
          refine ⟨start', ?_, hconverted⟩
          simp only [prepare, hload, Option.bind_some, hrun']

/-- The call of a callee that gets a variable. -/
theorem bridgedCall_eq {site : Site} {stack start : HostRecord F}
    {callee : HostRecord F → HostRecord F} (hx : InRange false 32 x) (hne : x ≠ 0)
    (hstart : prepare m site v count stack mem x = some (.ok start)) :
    bridgedCall m site v count stack mem x callee =
      if v.writesBack then
        (mirrorToGuest m.toMachinery (v.leaves count) (callee start)).map fun members =>
          .ok (some start, store mem x (places count v) members)
      else some (.ok (some start, mem)) := by
  unfold bridgedCall
  rw [wrap_of_inRange (by decide) hx]
  dsimp only
  rw [if_neg hne, hstart]

/-- A structure that is written back starts from zeros. -/
theorem starts_from_zeros {site : Site} {pointee : Value} {stack start : HostRecord F}
    {after : GuestMemory F} {callee : HostRecord F → HostRecord F} (hx : InRange false 32 x)
    (hne : x ≠ 0) (hrun : bridgedCall m site (.recordPointer pointee true) count stack mem x callee
      = some (.ok (some start, after))) :
    start = m.zeroed ((ParamValue.recordPointer pointee true).leaves count) := by
  have hprepare : prepare m site (.recordPointer pointee true) count stack mem x
      = some (.ok (m.zeroed ((ParamValue.recordPointer pointee true).leaves count))) := rfl
  rw [bridgedCall_eq hx hne hprepare,
    if_pos (show (ParamValue.recordPointer pointee true).writesBack = true from rfl)] at hrun
  obtain ⟨members, -, hmembers⟩ := Option.map_eq_some_iff.mp hrun
  cases hmembers
  rfl

/-- **When the copies are transparent**: for a null pointer, for a slot and for an array; and for
a structure whose mirror stands for it (it has a conversion for every field, and no two scalars of
it share memory), where it is const, or the guest's structure has zeros in it. -/
theorem transparent_iff (m : HostMachinery F) (site : Site) {v : ParamValue}
    (htwice : v.laidOutTwice = true) (hlawful : Lawful v) (count : Nat) (mem : GuestMemory F)
    (hx : InRange false 32 x) :
    Transparent m site v count mem x ↔ x = 0 ∨
      ∀ contents, load mem x ((v.leaves count).map Leaf.offset) = some contents →
        (∃ h, Converted m.toMachinery (v.leaves count) contents h) → CopiedIn m contents v := by
  have hnull : x = 0 → ∀ stack callee,
      bridgedCall m site v count stack mem x callee = some (.ok (none, mem)) := by
    rintro rfl stack callee
    rfl
  constructor
  · rintro ⟨-, hcarried⟩
    rcases eq_or_ne x 0 with hzero | hne
    · exact Or.inl hzero
    · refine Or.inr fun contents hload hrepresentable => ?_
      obtain ⟨hwhole, hcall⟩ := hcarried hne contents hload hrepresentable
      have hrecord := (whole_iff hlawful htwice count).mp hwhole
      cases v with
      | value _ => cases htwice
      | outSlot _ => trivial
      | array _ _ _ => trivial
      | recordPointer pointee writesBack =>
          obtain ⟨hmirrored, hunshared⟩ := hrecord pointee writesBack rfl
          refine ⟨hmirrored, hunshared, ?_⟩
          rintro rfl
          -- A callee that leaves zeros has started from zeros.
          have hnodup := nodup_leaves hlawful count
          let zeros := m.zeroed ((ParamValue.recordPointer pointee true).leaves count)
          obtain ⟨start, after, hrun, hconverted, -⟩ := hcall zeros (fun _ => zeros)
            fun _ leaf hleaf => by
              rw [show zeros leaf.hostPath = m.zeroOf leaf from zeroed_leaf hnodup hleaf]
              exact fits_zeroOf m leaf
          rw [starts_from_zeros hx hne hrun] at hconverted
          rw [leaves_recordPointer] at hconverted ⊢
          exact hconverted
  · intro hcond
    refine ⟨hnull, fun hne contents hload hrepresentable => ?_⟩
    have hcopied := hcond.resolve_left hne contents hload hrepresentable
    have hwhole : Whole v count := by
      refine (whole_iff hlawful htwice count).mpr ?_
      rintro pointee writesBack rfl
      exact ⟨hcopied.1, hcopied.2.1⟩
    refine ⟨hwhole, fun stack callee hfits => ?_⟩
    obtain ⟨h, hc⟩ := hrepresentable
    obtain ⟨start, hstart, hconverted⟩ :=
      prepare_converts hlawful htwice hwhole hload hc hcopied site stack
    have hcall : bridgedCall m site v count stack mem x callee = _ :=
      bridgedCall_eq hx hne hstart
    cases hback : v.writesBack with
    | true =>
        obtain ⟨members, hmembers⟩ := mirrorToGuest_fits m.toMachinery (hfits start)
        rw [hback, if_pos rfl, hmembers, hwhole.placed] at hcall
        exact ⟨start, _, hcall, hconverted, by simpa using ⟨members, hmembers, rfl⟩⟩
    | false =>
        rw [hback, if_neg Bool.false_ne_true] at hcall
        exact ⟨start, mem, hcall, hconverted, by simp⟩

end

/-! ### A sample -/

def digitHost : HostMachinery Digits where
  toMachinery := digitMachinery
  zero _ := ⟨0, 0, by positivity⟩

/-- Two fields of `struct tm`, on the guest and on the host. -/
def tmFields (width : IntWidth) (offset size : Nat) : CType :=
  .record false (.cons "tm_hour" 0 false (.integer .w32 true)
    (.cons "tm_gmtoff" offset false (.integer width true) .nil)) size

def tm : Value := classify (tmFields .w64 8 16) (tmFields .w32 4 8)

/-- `tm_hour` is 12 and `tm_gmtoff` is 3600, at the address 4096. -/
def tmMemory : GuestMemory Digits := fun address =>
  if address = 4096 then some (.integer 12)
  else if address = 4104 then some (.integer 3600)
  else none

/-- `struct tm` in the headers: its members have names, and its layout is C's. -/
theorem lawful_tm (writesBack : Bool) : Lawful (.recordPointer tm writesBack) := by
  constructor
  · show (tmFields .w64 8 16).WellFormed
    simp [tmFields, CType.WellFormed, Fields.InOrder, extent, CType.guestSize, IntWidth.bits]
  · show (tmFields .w32 4 8).Named
    simp [tmFields, CType.Named, Fields.Named, Fields.names, IsIdentifier]

/-- `strftime`, which takes a `const struct tm *`. -/
theorem transparent_strftime :
    Transparent digitHost ⟨"strftime", 3, "xl_g_tm"⟩ (.recordPointer tm false) 0 tmMemory 4096 :=
  (transparent_iff digitHost ⟨"strftime", 3, "xl_g_tm"⟩ rfl (lawful_tm false) 0 tmMemory
    (by decide)).mpr (Or.inr fun _ _ _ => ⟨rfl, rfl, fun h => (nomatch h)⟩)

/-- `timegm`, which takes a `struct tm *`: it starts from zeros, not from what the guest has
there. -/
theorem not_transparent_timegm :
    load tmMemory 4096 (((ParamValue.recordPointer tm true).leaves 0).map Leaf.offset)
        = some [.integer 12, .integer 3600] ∧
      ¬ Transparent digitHost ⟨"timegm", 0, "xl_g_tm"⟩ (.recordPointer tm true) 0 tmMemory
        4096 := by
  refine ⟨rfl, fun h => ?_⟩
  have hrepresentable : Converted digitHost.toMachinery
      ((ParamValue.recordPointer tm true).leaves 0) [.integer 12, .integer 3600]
      (fun path => if path = ".tm_hour" then .integer 12 else .integer 3600) :=
    .cons (fun _ _ => rfl) (.cons (fun _ _ => rfl) .nil)
  obtain ⟨-, hcall⟩ := h.carried (by decide) _ rfl ⟨_, hrepresentable⟩
  have hnodup := nodup_leaves (lawful_tm true) 0
  let zeros := digitHost.zeroed ((ParamValue.recordPointer tm true).leaves 0)
  obtain ⟨start, after, hrun, hconverted, -⟩ := hcall zeros (fun _ => zeros)
    fun _ leaf hleaf => by
      rw [show zeros leaf.hostPath = digitHost.zeroOf leaf from zeroed_leaf hnodup hleaf]
      exact fits_zeroOf digitHost leaf
  rw [starts_from_zeros (by decide) (by decide) hrun] at hconverted
  obtain ⟨hhour, -⟩ := List.forall₂_cons.mp hconverted
  have hzero : (some (.ok (.integer 12)) : Option (Narrowed (Scalar Digits)))
      = some (.ok (.integer 0)) := hhour "" 0
  cases hzero

end Pointees

end Katabasis
