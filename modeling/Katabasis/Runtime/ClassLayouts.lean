import Katabasis.Lib.Acyclic

set_option autoImplicit false

/-! # Guest classes below host classes of another size

`xl_fix_layouts` (`runtime/objc_bridge.m`): a guest class's ivars are laid out behind an arm64
superclass; the armv7 host's superclass has another size. Each class of `xl_class_layouts` is
moved up, never down, so far that it starts behind its superclass. The fix runs up the
superclasses and remembers the classes it has done by their `class_ro_t`, so the table may list
them in any order.

Sizes and offsets are the 32-bit numbers of the source, `uint32_t` and `int32_t`.
-/

namespace Katabasis

/-! ## The table -/

/-- `xl_ivar_fixup` -/
structure IvarFixup where
  offsetVar : Nat
  guestOffset : UInt32
  deriving DecidableEq, Repr

/-- `xl_class_layout`. `name` is that of the `class_ro_t` at `ro`. -/
structure ClassLayout where
  ro : Nat
  name : String := ""
  address : UInt32
  superHost : Option String := none
  superGuest : UInt32 := 0
  guestInstanceStart : UInt32
  guestInstanceSize : UInt32
  ivars : List IvarFixup := []
  deriving DecidableEq, Repr

/-- The two fields of a `class_ro_t` that the fix writes. -/
structure InstanceSpan where
  instanceStart : UInt32
  instanceSize : UInt32
  deriving DecidableEq, Repr

/-- What `vm_region_64` says of the memory of an offset variable. -/
inductive Protection
  | writable
  | readOnly
  | unknown (error : Int)
  deriving DecidableEq, Repr

/-- The host: its classes' instance sizes, by name, and its memory. -/
structure LayoutHost where
  /-- `objc_getClass`, then `class_getInstanceSize` -/
  instanceSize : String → Option UInt32
  protection : Nat → Protection

/-- The memory that the fix works on, and the `class_ro_t`s in `xl_fixed_layouts`. -/
structure LayoutMemory where
  span : Nat → InstanceSpan
  offset : Nat → Int32
  fixed : List Nat := []

section

variable (table : List ClassLayout) (host : LayoutHost)

/-- `xl_find_layout` -/
def xlFindLayout (address : UInt32) : Option ClassLayout :=
  table.find? fun l => l.address == address

/-- The size of the superclass of a class without a guest one. -/
def hostSuperSize (l : ClassLayout) : UInt32 :=
  match l.superHost with
  | some name => (host.instanceSize name).getD l.guestInstanceStart
  | none => l.guestInstanceStart

/-- How far a class moves: up only. -/
def layoutShift (superSize guestStart : UInt32) : Int32 :=
  let shift := superSize.toInt32 - guestStart.toInt32
  if shift < 0 then 0 else shift

/-- The offset variable of one ivar: only what changes is stored. -/
def fixIvar (l : ClassLayout) (shift : Int32) (m : LayoutMemory) (ivar : IvarFixup) :
    Except String LayoutMemory :=
  let offset := ivar.guestOffset.toInt32 + shift
  if m.offset ivar.offsetVar = offset then .ok m
  else match host.protection ivar.offsetVar with
    | .unknown error =>
        .error ("xlate: class " ++ l.name ++ ": the memory of a field offset that its host " ++
          "superclass moves by " ++ toString shift ++ " bytes cannot be queried (vm_region_64: " ++
          toString error ++ ")")
    | .readOnly =>
        .error ("xlate: class " ++ l.name ++ " has a field offset in read-only memory that its " ++
          "host superclass moves by " ++ toString shift ++ " bytes")
    | .writable =>
        .ok { m with offset := Function.update m.offset ivar.offsetVar offset }

/-- The class itself, behind a superclass of this size. -/
def moveClass (l : ClassLayout) (superSize : UInt32) (m : LayoutMemory) :
    Except String (UInt32 × LayoutMemory) := do
  let shift := layoutShift superSize l.guestInstanceStart
  let m ← l.ivars.foldlM (fixIvar host l shift) m
  let span : InstanceSpan :=
    { instanceStart := (l.guestInstanceStart.toInt32 + shift).toUInt32
      instanceSize := (l.guestInstanceSize.toInt32 + shift).toUInt32 }
  .ok (span.instanceSize, { m with span := Function.update m.span l.ro span })

/-- `xl_fix_layout`. The superclasses are followed at most `fuel` deep. -/
def xlFixLayout : Nat → Option ClassLayout → LayoutMemory →
    Except String (UInt32 × LayoutMemory)
  | _, none, m => .ok (0, m)
  | 0, some _, _ => .error "deeper than the table"
  | fuel + 1, some l, m =>
      if m.fixed.contains l.ro then .ok ((m.span l.ro).instanceSize, m)
      else do
        let m := { m with fixed := l.ro :: m.fixed }
        if l.superGuest = 0 then moveClass host l (hostSuperSize host l) m
        else do
          let (superSize, m) ← xlFixLayout fuel (xlFindLayout table l.superGuest) m
          moveClass host l superSize m

/-- `xl_fix_layouts` -/
def xlFixLayouts (m : LayoutMemory) : Except String LayoutMemory :=
  table.foldlM (fun m l => Prod.snd <$> xlFixLayout table host (table.length + 1) (some l) m)
    { m with fixed := [] }

end

/-! ## Arithmetic below 2^31 -/

theorem toInt_toInt32 {u : UInt32} (h : u.toNat < 2 ^ 31) : u.toInt32.toInt = u.toNat := by
  show u.toBitVec.toInt = u.toNat
  have hlt : u.toBitVec.toNat < 2 ^ 31 := h
  rw [BitVec.toInt_eq_toNat_of_lt (by omega)]
  rfl

theorem bmod_eq {i : Int} (h1 : -2 ^ 31 ≤ i) (h2 : i < 2 ^ 31) : i.bmod (2 ^ 32) = i :=
  Int.bmod_eq_of_le (by norm_num; omega) (by norm_num; omega)

/-- The shift is the distance from the start up to the end of the superclass. -/
theorem toInt_layoutShift {superSize guestStart : UInt32} (h1 : superSize.toNat < 2 ^ 31)
    (h2 : guestStart.toNat < 2 ^ 31) :
    (layoutShift superSize guestStart).toInt = ((superSize.toNat - guestStart.toNat : Nat) : Int) := by
  have hsub : (superSize.toInt32 - guestStart.toInt32).toInt
      = (superSize.toNat : Int) - guestStart.toNat := by
    rw [Int32.toInt_sub, toInt_toInt32 h1, toInt_toInt32 h2]
    exact bmod_eq (by omega) (by omega)
  unfold layoutShift
  dsimp only
  by_cases hneg : superSize.toInt32 - guestStart.toInt32 < 0
  · rw [if_pos hneg]
    rw [Int32.lt_iff_toInt_lt, hsub] at hneg
    have hzero : (0 : Int32).toInt = 0 := rfl
    rw [hzero] at hneg ⊢
    omega
  · rw [if_neg hneg, hsub]
    rw [Int32.lt_iff_toInt_lt, hsub] at hneg
    have hzero : (0 : Int32).toInt = 0 := rfl
    rw [hzero] at hneg
    omega

theorem toInt_add_shift {u : UInt32} {shift : Int32} {n : Nat} (hs : shift.toInt = n)
    (h : u.toNat + n < 2 ^ 31) : (u.toInt32 + shift).toInt = ((u.toNat + n : Nat) : Int) := by
  rw [Int32.toInt_add, toInt_toInt32 (by omega), hs]
  rw [bmod_eq (by omega) (by omega)]
  omega

theorem toNat_add_shift {u : UInt32} {shift : Int32} {n : Nat} (hs : shift.toInt = n)
    (h : u.toNat + n < 2 ^ 31) : (u.toInt32 + shift).toUInt32.toNat = u.toNat + n := by
  have hsum := toInt_add_shift hs h
  have hpos : (0 : Int32) ≤ u.toInt32 + shift := by
    rw [Int32.le_iff_toInt_le, hsum]
    show (0 : Int) ≤ _
    omega
  rw [Int32.toNat_toUInt32_of_le hpos, Int32.toNatClampNeg, hsum]
  rfl

/-! ## What the fix is for -/

/-- One class is the guest superclass of the other. -/
def SuperLayout (table : List ClassLayout) (l super : ClassLayout) : Prop :=
  l.superGuest ≠ 0 ∧ xlFindLayout table l.superGuest = some super

/-- Where the superclass of a class ends, all classes up from it moved. The arithmetic is that of
unbounded numbers. -/
inductive SuperEnds (table : List ClassLayout) (host : LayoutHost) : ClassLayout → Nat → Prop
  | own {l : ClassLayout} (h : l.superGuest = 0) :
      SuperEnds table host l (hostSuperSize host l).toNat
  | guest {l super : ClassLayout} {bound : Nat} (h : SuperLayout table l super)
      (hsuper : SuperEnds table host super bound) :
      SuperEnds table host l
        (super.guestInstanceSize.toNat + (bound - super.guestInstanceStart.toNat))

/-- The class in memory is moved behind where its superclass ends. -/
structure MovedBehind (m : LayoutMemory) (l : ClassLayout) (bound : Nat) : Prop where
  start : (m.span l.ro).instanceStart.toNat
    = l.guestInstanceStart.toNat + (bound - l.guestInstanceStart.toNat)
  size : (m.span l.ro).instanceSize.toNat
    = l.guestInstanceSize.toNat + (bound - l.guestInstanceStart.toNat)
  offsets : ∀ ivar ∈ l.ivars, (m.offset ivar.offsetVar).toInt
    = ((ivar.guestOffset.toNat + (bound - l.guestInstanceStart.toNat) : Nat) : Int)

/-- A table as the translator writes it, for a host whose classes are not too large: one entry
with a `class_ro_t` of its own for each class, guest superclasses in the table and without
cycles, offset variables distinct and writable, and sizes and offsets below 2^31. -/
structure SoundTable (table : List ClassLayout) (host : LayoutHost) : Prop where
  acyclic : ∀ l, ¬ Relation.TransGen (SuperLayout table) l l
  resolved : ∀ l ∈ table, l.superGuest ≠ 0 → ∃ super ∈ table, super.address = l.superGuest
  addresses : (table.map ClassLayout.address).Nodup
  records : (table.map ClassLayout.ro).Nodup
  offsetVars : (table.flatMap fun l => l.ivars.map IvarFixup.offsetVar).Nodup
  writable : ∀ l ∈ table, ∀ ivar ∈ l.ivars, host.protection ivar.offsetVar = .writable
  start_lt : ∀ l ∈ table, l.guestInstanceStart.toNat < 2 ^ 31
  sizes : ∀ l ∈ table, ∀ bound, SuperEnds table host l bound → bound < 2 ^ 31 ∧
    l.guestInstanceSize.toNat + (bound - l.guestInstanceStart.toNat) < 2 ^ 31 ∧
    ∀ ivar ∈ l.ivars, ivar.guestOffset.toNat + (bound - l.guestInstanceStart.toNat) < 2 ^ 31

section

variable {table : List ClassLayout} {host : LayoutHost}

theorem SuperEnds.unique {l : ClassLayout} {bound bound' : Nat} (h : SuperEnds table host l bound)
    (h' : SuperEnds table host l bound') : bound = bound' := by
  induction h generalizing bound' with
  | own hown =>
      cases h' with
      | own _ => rfl
      | guest hguest _ => exact absurd hown hguest.1
  | guest hguest _ ih =>
      cases h' with
      | own hown => exact absurd hown hguest.1
      | guest hguest' hsuper' =>
          have heq := hguest.2.symm.trans hguest'.2
          cases heq
          rw [ih hsuper']

theorem mem_of_superLayout {l super : ClassLayout} (h : SuperLayout table l super) :
    super ∈ table := List.mem_of_find?_eq_some h.2

theorem SoundTable.superLayout (h : SoundTable table host) {l : ClassLayout} (hl : l ∈ table)
    (hguest : l.superGuest ≠ 0) : ∃ super, SuperLayout table l super := by
  obtain ⟨super, hmem, haddress⟩ := h.resolved l hl hguest
  have hfound : (xlFindLayout table l.superGuest).isSome := by
    unfold xlFindLayout
    rw [List.find?_isSome]
    exact ⟨super, hmem, by simp [haddress]⟩
  obtain ⟨found, hfound⟩ := Option.isSome_iff_exists.mp hfound
  exact ⟨found, hguest, hfound⟩

theorem SoundTable.eq_of_ro (h : SoundTable table host) {l l' : ClassLayout} (hl : l ∈ table)
    (hl' : l' ∈ table) (hro : l.ro = l'.ro) : l = l' :=
  List.inj_on_of_nodup_map h.records hl hl' hro

/-- Two classes share no offset variable. -/
theorem SoundTable.offsetVar_ne (h : SoundTable table host) {l l' : ClassLayout} (hl : l ∈ table)
    (hl' : l' ∈ table) (hne : l ≠ l') {ivar ivar' : IvarFixup} (hi : ivar ∈ l.ivars)
    (hi' : ivar' ∈ l'.ivars) : ivar.offsetVar ≠ ivar'.offsetVar := by
  intro heq
  have hpair := (List.nodup_flatMap.mp h.offsetVars).2
  have hsymm : Std.Symm (Function.onFun List.Disjoint
      fun l : ClassLayout => l.ivars.map IvarFixup.offsetVar) :=
    ⟨fun _ _ hdisjoint => List.Disjoint.symm hdisjoint⟩
  exact hpair.forall hl hl' hne (List.mem_map_of_mem hi) (heq ▸ List.mem_map_of_mem hi')

theorem SoundTable.depth_lt (h : SoundTable table host) {l super : ClassLayout}
    (hsuper : SuperLayout table l super) :
    Acyclic.depth (SuperLayout table) table super < Acyclic.depth (SuperLayout table) table l :=
  Acyclic.depth_lt (h.acyclic super) hsuper (mem_of_superLayout hsuper)

/-! ## Moving one class -/

/-- What a step leaves alone: the other classes' `class_ro_t`s and offset variables. -/
structure OnlyMoves (l : ClassLayout) (m m' : LayoutMemory) : Prop where
  span : ∀ ro, ro ≠ l.ro → m'.span ro = m.span ro
  offset : ∀ v, (∀ ivar ∈ l.ivars, v ≠ ivar.offsetVar) → m'.offset v = m.offset v
  fixed : m'.fixed = m.fixed

/-- The offset variables of a list of ivars, one after the other. -/
theorem foldlM_fixIvar {l : ClassLayout} {shift : Int32} {ivars : List IvarFixup}
    {m : LayoutMemory} (hnodup : (ivars.map IvarFixup.offsetVar).Nodup)
    (hwritable : ∀ ivar ∈ ivars, host.protection ivar.offsetVar = .writable) :
    ∃ m', ivars.foldlM (fixIvar host l shift) m = .ok m' ∧ m'.span = m.span ∧
      m'.fixed = m.fixed ∧
      (∀ ivar ∈ ivars, m'.offset ivar.offsetVar = ivar.guestOffset.toInt32 + shift) ∧
      ∀ v, (∀ ivar ∈ ivars, v ≠ ivar.offsetVar) → m'.offset v = m.offset v := by
  induction ivars generalizing m with
  | nil => exact ⟨m, rfl, rfl, rfl, by simp, fun _ _ => rfl⟩
  | cons ivar rest ih =>
      obtain ⟨hnew, hrest⟩ := List.nodup_cons.mp hnodup
      -- the variable's own step
      obtain ⟨m1, hstep, hspan, hfixed, hself, hother⟩ : ∃ m1,
          fixIvar host l shift m ivar = .ok m1 ∧ m1.span = m.span ∧ m1.fixed = m.fixed ∧
            m1.offset ivar.offsetVar = ivar.guestOffset.toInt32 + shift ∧
            ∀ v, v ≠ ivar.offsetVar → m1.offset v = m.offset v := by
        unfold fixIvar
        by_cases hsame : m.offset ivar.offsetVar = ivar.guestOffset.toInt32 + shift
        · exact ⟨m, if_pos hsame, rfl, rfl, hsame, fun _ _ => rfl⟩
        · refine ⟨{ m with
            offset := Function.update m.offset ivar.offsetVar (ivar.guestOffset.toInt32 + shift) },
            by rw [if_neg hsame, hwritable ivar List.mem_cons_self], rfl, rfl, ?_, ?_⟩
          · exact Function.update_self ..
          · exact fun v hv => Function.update_of_ne hv ..
      obtain ⟨m', hrun, hspan', hfixed', hin, hout⟩ := ih (m := m1) hrest
        fun i hi => hwritable i (List.mem_cons_of_mem _ hi)
      refine ⟨m', ?_, hspan'.trans hspan, hfixed'.trans hfixed, fun i hi => ?_, fun v hv => ?_⟩
      · rw [List.foldlM_cons, hstep]
        exact hrun
      · rcases List.mem_cons.mp hi with rfl | hi
        · rw [hout i.offsetVar fun other hother heq =>
            hnew (heq ▸ List.mem_map_of_mem hother)]
          exact hself
        · exact hin i hi
      · rw [hout v fun i hi => hv i (List.mem_cons_of_mem _ hi)]
        exact hother v (hv ivar List.mem_cons_self)

/-- **One class moves behind its superclass**, and nothing else does. -/
theorem moveClass_moves (h : SoundTable table host) {l : ClassLayout} (hl : l ∈ table)
    {superSize : UInt32} (hends : SuperEnds table host l superSize.toNat) (m : LayoutMemory) :
    ∃ m', moveClass host l superSize m = .ok ((m'.span l.ro).instanceSize, m') ∧
      MovedBehind m' l superSize.toNat ∧ OnlyMoves l m m' := by
  obtain ⟨hsuper, hsize, hivars⟩ := h.sizes l hl _ hends
  have hshift := toInt_layoutShift hsuper (h.start_lt l hl)
  have hnodup : (l.ivars.map IvarFixup.offsetVar).Nodup :=
    (List.nodup_flatMap.mp h.offsetVars).1 l hl
  obtain ⟨m1, hrun, hspan, hfixed, hin, hout⟩ :
      ∃ m1, l.ivars.foldlM (fixIvar host l (layoutShift superSize l.guestInstanceStart)) m
        = .ok m1 ∧ m1.span = m.span ∧ m1.fixed = m.fixed ∧ _ ∧ _ :=
    foldlM_fixIvar hnodup (h.writable l hl)
  refine ⟨{ m1 with
      span := Function.update m1.span l.ro
        ⟨(l.guestInstanceStart.toInt32 + layoutShift superSize l.guestInstanceStart).toUInt32,
          (l.guestInstanceSize.toInt32 + layoutShift superSize l.guestInstanceStart).toUInt32⟩ },
    ?_, ⟨?_, ?_, fun ivar hi => ?_⟩, fun ro hro => ?_, hout, hfixed⟩
  · unfold moveClass
    dsimp only
    rw [hrun, Function.update_self]
    rfl
  · simp only [Function.update_self]
    refine toNat_add_shift hshift ?_
    have := h.start_lt l hl
    omega
  · simp only [Function.update_self]
    exact toNat_add_shift hshift hsize
  · show (m1.offset ivar.offsetVar).toInt = _
    rw [hin ivar hi]
    exact toInt_add_shift hshift (hivars ivar hi)
  · simp only [Function.update_of_ne hro, hspan]

/-! ## The recursion -/

/-- The class is in its final place. -/
def Placed (table : List ClassLayout) (host : LayoutHost) (m : LayoutMemory) (l : ClassLayout) :
    Prop :=
  ∃ bound, SuperEnds table host l bound ∧ MovedBehind m l bound

/-- What a call of `xl_fix_layout` does: classes that were done stay as they were, those that
are done now are in place, and memory of no class is untouched. -/
structure Places (table : List ClassLayout) (host : LayoutHost) (m m' : LayoutMemory) : Prop where
  kept : ∀ ro ∈ m.fixed, ro ∈ m'.fixed
  old : ∀ l ∈ table, l.ro ∈ m.fixed → m'.span l.ro = m.span l.ro ∧
    ∀ ivar ∈ l.ivars, m'.offset ivar.offsetVar = m.offset ivar.offsetVar
  new : ∀ l ∈ table, l.ro ∈ m'.fixed → l.ro ∉ m.fixed → Placed table host m' l
  span : ∀ ro, (∀ l ∈ table, l.ro ≠ ro) → m'.span ro = m.span ro
  offset : ∀ v, (∀ l ∈ table, ∀ ivar ∈ l.ivars, ivar.offsetVar ≠ v) → m'.offset v = m.offset v

theorem Places.refl (m : LayoutMemory) : Places table host m m where
  kept := fun _ h => h
  old := fun _ _ _ => ⟨rfl, fun _ _ => rfl⟩
  new := fun _ _ h hno => absurd h hno
  span := fun _ _ => rfl
  offset := fun _ _ => rfl

theorem MovedBehind.of_same {m m' : LayoutMemory} {l : ClassLayout} {bound : Nat}
    (h : MovedBehind m l bound) (hspan : m'.span l.ro = m.span l.ro)
    (hoffset : ∀ ivar ∈ l.ivars, m'.offset ivar.offsetVar = m.offset ivar.offsetVar) :
    MovedBehind m' l bound where
  start := by rw [hspan]; exact h.start
  size := by rw [hspan]; exact h.size
  offsets := fun ivar hi => by rw [hoffset ivar hi]; exact h.offsets ivar hi

theorem Placed.of_same {m m' : LayoutMemory} {l : ClassLayout} (h : Placed table host m l)
    (hspan : m'.span l.ro = m.span l.ro)
    (hoffset : ∀ ivar ∈ l.ivars, m'.offset ivar.offsetVar = m.offset ivar.offsetVar) :
    Placed table host m' l := by
  obtain ⟨bound, hends, hmoved⟩ := h
  exact ⟨bound, hends, hmoved.of_same hspan hoffset⟩

theorem Places.trans {m m' m'' : LayoutMemory} (h : Places table host m m')
    (h' : Places table host m' m'') : Places table host m m'' where
  kept := fun ro hro => h'.kept ro (h.kept ro hro)
  old := fun l hl hro => by
    obtain ⟨hspan, hoffset⟩ := h.old l hl hro
    obtain ⟨hspan', hoffset'⟩ := h'.old l hl (h.kept _ hro)
    exact ⟨hspan'.trans hspan, fun ivar hi => (hoffset' ivar hi).trans (hoffset ivar hi)⟩
  new := fun l hl hro hno => by
    by_cases hmid : l.ro ∈ m'.fixed
    · obtain ⟨hspan', hoffset'⟩ := h'.old l hl hmid
      exact (h.new l hl hmid hno).of_same hspan' hoffset'
    · exact h'.new l hl hro hmid
  span := fun ro hro => (h'.span ro hro).trans (h.span ro hro)
  offset := fun v hv => (h'.offset v hv).trans (h.offset v hv)

/-- What moving a class does to the others of the table. -/
theorem OnlyMoves.others (h : SoundTable table host) {l : ClassLayout} (hl : l ∈ table)
    {m m' : LayoutMemory} (hmoves : OnlyMoves l m m') {l' : ClassLayout} (hl' : l' ∈ table)
    (hne : l' ≠ l) : m'.span l'.ro = m.span l'.ro ∧
      ∀ ivar ∈ l'.ivars, m'.offset ivar.offsetVar = m.offset ivar.offsetVar := by
  refine ⟨hmoves.span _ fun hro => hne (h.eq_of_ro hl' hl hro), fun ivar hi => ?_⟩
  exact hmoves.offset _ fun ivar' hi' => h.offsetVar_ne hl' hl hne hi hi'

/-- The class was marked as done, its superclasses were done, and it is moved. -/
theorem places_of_moved (h : SoundTable table host) {l : ClassLayout} (hl : l ∈ table)
    {m m1 m2 : LayoutMemory} (hnew : l.ro ∉ m.fixed)
    (hsuper : Places table host { m with fixed := l.ro :: m.fixed } m1)
    (hmoves : OnlyMoves l m1 m2) (hplaced : Placed table host m2 l) :
    Places table host m m2 where
  kept := fun ro hro => by
    rw [hmoves.fixed]
    exact hsuper.kept ro (List.mem_cons_of_mem _ hro)
  old := fun l' hl' hro => by
    have hne : l' ≠ l := fun heq => hnew (heq ▸ hro)
    obtain ⟨hspan, hoffset⟩ := hsuper.old l' hl' (List.mem_cons_of_mem _ hro)
    obtain ⟨hspan', hoffset'⟩ := hmoves.others h hl hl' hne
    exact ⟨hspan'.trans hspan, fun ivar hi => (hoffset' ivar hi).trans (hoffset ivar hi)⟩
  new := fun l' hl' hro hno => by
    rw [hmoves.fixed] at hro
    by_cases heq : l' = l
    · rw [heq]
      exact hplaced
    · obtain ⟨hspan', hoffset'⟩ := hmoves.others h hl hl' heq
      have hmark : l'.ro ∉ l.ro :: m.fixed := fun hmem =>
        (List.mem_cons.mp hmem).elim (fun hsame => heq (h.eq_of_ro hl' hl hsame)) hno
      exact (hsuper.new l' hl' hro hmark).of_same hspan' hoffset'
  span := fun ro hro => by
    rw [hmoves.span ro fun heq => hro l hl heq.symm]
    exact hsuper.span ro hro
  offset := fun v hv => by
    rw [hmoves.offset v fun ivar hi heq => hv l hl ivar hi heq.symm]
    exact hsuper.offset v hv

/-- **`xl_fix_layout` puts the class and its superclasses in place.** What is done already must
be in place, except for the classes below, on whose behalf the call may have been made. -/
theorem xlFixLayout_places (h : SoundTable table host) (fuel : Nat) {l : ClassLayout}
    (hl : l ∈ table) (hfuel : Acyclic.depth (SuperLayout table) table l < fuel)
    (m : LayoutMemory)
    (hdone : ∀ l' ∈ table, l'.ro ∈ m.fixed → Acyclic.depth (SuperLayout table) table l'
      ≤ Acyclic.depth (SuperLayout table) table l → Placed table host m l') :
    ∃ m', xlFixLayout table host fuel (some l) m = .ok ((m'.span l.ro).instanceSize, m') ∧
      l.ro ∈ m'.fixed ∧ Placed table host m' l ∧ Places table host m m' := by
  induction fuel generalizing l m with
  | zero => exact absurd hfuel (Nat.not_lt_zero _)
  | succ fuel ih =>
      unfold xlFixLayout
      by_cases hfixed : l.ro ∈ m.fixed
      · refine ⟨m, ?_, hfixed, hdone l hl hfixed le_rfl, .refl m⟩
        rw [if_pos (by simpa using hfixed)]
      rw [if_neg (by simpa using hfixed)]
      dsimp only
      by_cases hguest : l.superGuest = 0
      · obtain ⟨m2, hrun, hmoved, hmoves⟩ := moveClass_moves h hl (SuperEnds.own hguest)
          { m with fixed := l.ro :: m.fixed }
        have hplaced : Placed table host m2 l := ⟨_, .own hguest, hmoved⟩
        refine ⟨m2, by rw [if_pos hguest, hrun], ?_, hplaced,
          places_of_moved h hl hfixed (.refl _) hmoves hplaced⟩
        rw [hmoves.fixed]
        exact List.mem_cons_self
      · obtain ⟨super, hsuper⟩ := h.superLayout hl hguest
        have hlt := h.depth_lt hsuper
        -- of the classes marked, only those further up may be asked for
        have hdone1 : ∀ l' ∈ table, l'.ro ∈ l.ro :: m.fixed →
            Acyclic.depth (SuperLayout table) table l'
              ≤ Acyclic.depth (SuperLayout table) table super →
            Placed table host { m with fixed := l.ro :: m.fixed } l' := by
          intro l' hl' hro hdepth
          rcases List.mem_cons.mp hro with hro | hro
          · rw [h.eq_of_ro hl' hl hro] at hdepth
            omega
          · exact (hdone l' hl' hro (by omega)).of_same rfl fun _ _ => rfl
        obtain ⟨m1, hrun1, -, ⟨bound, hends, hbehind⟩, hplaces⟩ := ih (mem_of_superLayout hsuper)
          (by omega) { m with fixed := l.ro :: m.fixed } hdone1
        have hends' : SuperEnds table host l (m1.span super.ro).instanceSize.toNat := by
          rw [hbehind.size]
          exact .guest hsuper hends
        obtain ⟨m2, hrun2, hmoved, hmoves⟩ := moveClass_moves h hl hends' m1
        have hplaced : Placed table host m2 l := ⟨_, hends', hmoved⟩
        refine ⟨m2, ?_, ?_, hplaced, places_of_moved h hl hfixed hplaces hmoves hplaced⟩
        · rw [if_neg hguest, hsuper.2, hrun1]
          exact hrun2
        · rw [hmoves.fixed]
          exact hplaces.kept _ List.mem_cons_self

/-- The loop over the table, or the rest of it. -/
theorem foldlM_xlFixLayout (h : SoundTable table host) {rest : List ClassLayout}
    (hrest : ∀ l ∈ rest, l ∈ table) (m : LayoutMemory)
    (hdone : ∀ l' ∈ table, l'.ro ∈ m.fixed → Placed table host m l') :
    ∃ m', rest.foldlM (fun m l =>
        Prod.snd <$> xlFixLayout table host (table.length + 1) (some l) m) m = .ok m' ∧
      Places table host m m' ∧ ∀ l ∈ rest, Placed table host m' l := by
  induction rest generalizing m with
  | nil => exact ⟨m, rfl, .refl m, by simp⟩
  | cons l rest ih =>
      have hdepth : Acyclic.depth (SuperLayout table) table l < table.length + 1 :=
        Nat.lt_succ_of_le (Acyclic.depth_le ..)
      obtain ⟨m1, hrun, hin, hplaced, hplaces⟩ := xlFixLayout_places h (table.length + 1)
        (hrest l List.mem_cons_self) hdepth m fun l' hl' hro _ => hdone l' hl' hro
      have hdone1 : ∀ l' ∈ table, l'.ro ∈ m1.fixed → Placed table host m1 l' := by
        intro l' hl' hro
        by_cases hold : l'.ro ∈ m.fixed
        · obtain ⟨hspan, hoffset⟩ := hplaces.old l' hl' hold
          exact (hdone l' hl' hold).of_same hspan hoffset
        · exact hplaces.new l' hl' hro hold
      obtain ⟨m', hloop, hplaces', hall⟩ :=
        ih (fun l' hl' => hrest l' (List.mem_cons_of_mem _ hl')) m1 hdone1
      refine ⟨m', ?_, hplaces.trans hplaces', fun l' hl' => ?_⟩
      · rw [List.foldlM_cons, hrun]
        exact hloop
      · rcases List.mem_cons.mp hl' with rfl | hl'
        · obtain ⟨hspan, hoffset⟩ := hplaces'.old l' (hrest l' List.mem_cons_self) hin
          exact hplaced.of_same hspan hoffset
        · exact hall l' hl'

/-! ## The order of the table -/

theorem xlFindLayout_eq_some (h : (table.map ClassLayout.address).Nodup) {address : UInt32}
    {l : ClassLayout} : xlFindLayout table address = some l ↔ l ∈ table ∧ l.address = address := by
  constructor
  · intro hfind
    exact ⟨List.mem_of_find?_eq_some hfind, by simpa using List.find?_some hfind⟩
  · rintro ⟨hl, haddress⟩
    cases hfind : xlFindLayout table address with
    | none =>
        unfold xlFindLayout at hfind
        rw [List.find?_eq_none] at hfind
        exact absurd (by simpa using haddress) (hfind l hl)
    | some found =>
        have hmem := List.mem_of_find?_eq_some hfind
        have hfound : found.address = address := by simpa using List.find?_some hfind
        rw [List.inj_on_of_nodup_map h hmem hl (hfound.trans haddress.symm)]

theorem superLayout_perm {table' : List ClassLayout} (hperm : table'.Perm table)
    (h : (table.map ClassLayout.address).Nodup) : SuperLayout table' = SuperLayout table := by
  have h' : (table'.map ClassLayout.address).Nodup :=
    ((hperm.map ClassLayout.address).nodup_iff).mpr h
  funext l super
  refine propext (and_congr_right fun _ => ?_)
  rw [xlFindLayout_eq_some h', xlFindLayout_eq_some h, hperm.mem_iff]

theorem SuperEnds.of_superLayout {table' : List ClassLayout}
    (heq : SuperLayout table' = SuperLayout table) {l : ClassLayout} {bound : Nat}
    (h : SuperEnds table' host l bound) : SuperEnds table host l bound := by
  induction h with
  | own hown => exact .own hown
  | guest hguest _ ih => exact .guest (heq ▸ hguest) ih

theorem SoundTable.perm {table' : List ClassLayout} (h : SoundTable table host)
    (hperm : table'.Perm table) : SoundTable table' host where
  acyclic := by
    rw [superLayout_perm hperm h.addresses]
    exact h.acyclic
  resolved := fun l hl hguest => by
    obtain ⟨super, hsuper, haddress⟩ := h.resolved l (hperm.subset hl) hguest
    exact ⟨super, hperm.symm.subset hsuper, haddress⟩
  addresses := ((hperm.map ClassLayout.address).nodup_iff).mpr h.addresses
  records := ((hperm.map ClassLayout.ro).nodup_iff).mpr h.records
  offsetVars := ((hperm.flatMap_right _).nodup_iff).mpr h.offsetVars
  writable := fun l hl => h.writable l (hperm.subset hl)
  start_lt := fun l hl => h.start_lt l (hperm.subset hl)
  sizes := fun l hl bound hends => h.sizes l (hperm.subset hl) bound
    (hends.of_superLayout (superLayout_perm hperm h.addresses))

/-! ## The result -/

/-- **The class starts where its superclass ends, or where the guest's did if that is further
up**; its size and its ivars' offsets are the guest's plus the same shift. -/
def Reconciled (table : List ClassLayout) (host : LayoutHost) (m : LayoutMemory)
    (l : ClassLayout) : Prop :=
  ∃ bound, (l.superGuest = 0 ∧ bound = (hostSuperSize host l).toNat ∨
      ∃ super, SuperLayout table l super ∧ bound = (m.span super.ro).instanceSize.toNat) ∧
    (m.span l.ro).instanceStart.toNat = max l.guestInstanceStart.toNat bound ∧
    (m.span l.ro).instanceSize.toNat = l.guestInstanceSize.toNat
      + ((m.span l.ro).instanceStart.toNat - l.guestInstanceStart.toNat) ∧
    ∀ ivar ∈ l.ivars, (m.offset ivar.offsetVar).toInt = ((ivar.guestOffset.toNat
      + ((m.span l.ro).instanceStart.toNat - l.guestInstanceStart.toNat) : Nat) : Int)

theorem reconciled_of_placed {m : LayoutMemory}
    (hplaced : ∀ l ∈ table, Placed table host m l) {l : ClassLayout} (hl : l ∈ table) :
    Reconciled table host m l := by
  obtain ⟨bound, hends, hmoved⟩ := hplaced l hl
  have hshift : (m.span l.ro).instanceStart.toNat - l.guestInstanceStart.toNat
      = bound - l.guestInstanceStart.toNat := by
    rw [hmoved.start]
    omega
  refine ⟨bound, ?_, ?_, ?_, fun ivar hi => ?_⟩
  · cases hends with
    | own hown => exact .inl ⟨hown, rfl⟩
    | guest hsuper hends =>
        obtain ⟨bound', hends', hmoved'⟩ := hplaced _ (mem_of_superLayout hsuper)
        refine .inr ⟨_, hsuper, ?_⟩
        rw [hmoved'.size, hends.unique hends']
  · rw [hmoved.start]
    omega
  · rw [hshift]
    exact hmoved.size
  · rw [hshift]
    exact hmoved.offsets ivar hi

/-- Two memories in which the classes are in place, and the same elsewhere. -/
theorem memory_eq {m m' : LayoutMemory} (hplaced : ∀ l ∈ table, Placed table host m l)
    (hplaced' : ∀ l ∈ table, Placed table host m' l) {m0 : LayoutMemory}
    (hplaces : Places table host m0 m) (hplaces' : Places table host m0 m') :
    m'.span = m.span ∧ m'.offset = m.offset := by
  constructor
  · funext ro
    by_cases hro : ∃ l ∈ table, l.ro = ro
    · obtain ⟨l, hl, rfl⟩ := hro
      obtain ⟨bound, hends, hmoved⟩ := hplaced l hl
      obtain ⟨bound', hends', hmoved'⟩ := hplaced' l hl
      cases hends.unique hends'
      have hstart : (m'.span l.ro).instanceStart = (m.span l.ro).instanceStart :=
        UInt32.toNat_inj.mp (hmoved'.start.trans hmoved.start.symm)
      have hsize : (m'.span l.ro).instanceSize = (m.span l.ro).instanceSize :=
        UInt32.toNat_inj.mp (hmoved'.size.trans hmoved.size.symm)
      calc m'.span l.ro
          = ⟨(m'.span l.ro).instanceStart, (m'.span l.ro).instanceSize⟩ := rfl
        _ = ⟨(m.span l.ro).instanceStart, (m.span l.ro).instanceSize⟩ := by rw [hstart, hsize]
        _ = m.span l.ro := rfl
    · have hno : ∀ l ∈ table, l.ro ≠ ro := fun l hl heq => hro ⟨l, hl, heq⟩
      rw [hplaces.span ro hno, hplaces'.span ro hno]
  · funext v
    by_cases hv : ∃ l ∈ table, ∃ ivar ∈ l.ivars, ivar.offsetVar = v
    · obtain ⟨l, hl, ivar, hi, rfl⟩ := hv
      obtain ⟨bound, hends, hmoved⟩ := hplaced l hl
      obtain ⟨bound', hends', hmoved'⟩ := hplaced' l hl
      cases hends.unique hends'
      exact Int32.toInt_inj.mp ((hmoved'.offsets ivar hi).trans (hmoved.offsets ivar hi).symm)
    · have hno : ∀ l ∈ table, ∀ ivar ∈ l.ivars, ivar.offsetVar ≠ v :=
        fun l hl ivar hi heq => hv ⟨l, hl, ivar, hi, heq⟩
      rw [hplaces.offset v hno, hplaces'.offset v hno]

/-- Every class of the table is in its final place behind the loop. -/
theorem xlFixLayouts_places (h : SoundTable table host) (m : LayoutMemory) :
    ∃ m', xlFixLayouts table host m = .ok m' ∧
      Places table host { m with fixed := [] } m' ∧ ∀ l ∈ table, Placed table host m' l :=
  foldlM_xlFixLayout h (fun _ hl => hl) _ fun _ _ hro => absurd hro List.not_mem_nil

/-- **ivar reconciliation**: whatever the sizes of the host's classes, no class starts before
its superclass ends or before where the guest put it, and all of it moves by the same distance,
in whatever order the table lists the classes. -/
theorem layouts_reconciled (h : SoundTable table host) (m : LayoutMemory) :
    ∃ m', xlFixLayouts table host m = .ok m' ∧ (∀ l ∈ table, Reconciled table host m' l) ∧
      ∀ table', table'.Perm table → ∃ m'', xlFixLayouts table' host m = .ok m'' ∧
        m''.span = m'.span ∧ m''.offset = m'.offset := by
  obtain ⟨m', hrun, hplaces, hplaced⟩ := xlFixLayouts_places h m
  refine ⟨m', hrun, fun l hl => reconciled_of_placed hplaced hl, fun table' hperm => ?_⟩
  obtain ⟨m'', hrun', hplaces', hplaced'⟩ := xlFixLayouts_places (h.perm hperm) m
  have heq := superLayout_perm hperm h.addresses
  have hplaced'' : ∀ l ∈ table, Placed table host m'' l := by
    intro l hl
    obtain ⟨bound, hends, hmoved⟩ := hplaced' l (hperm.symm.subset hl)
    exact ⟨bound, hends.of_superLayout heq, hmoved⟩
  refine ⟨m'', hrun', memory_eq hplaced hplaced'' hplaces ⟨hplaces'.kept, ?_, ?_, ?_, ?_⟩⟩
  · exact fun l hl => hplaces'.old l (hperm.symm.subset hl)
  · exact fun l hl _ _ => hplaced'' l hl
  · exact fun ro hro => hplaces'.span ro fun l hl => hro l (hperm.subset hl)
  · exact fun v hv => hplaces'.offset v fun l hl => hv l (hperm.subset hl)

end

/-! A guest class below a guest class below a host class that is larger than the guest's. -/

def twoLevels : List ClassLayout :=
  [{ ro := 2, name := "Child", address := 8192, superGuest := 4096, guestInstanceStart := 16,
     guestInstanceSize := 24, ivars := [⟨101, 16⟩] },
    { ro := 1, name := "Parent", address := 4096, superHost := some "Base",
      guestInstanceStart := 8, guestInstanceSize := 16, ivars := [⟨100, 8⟩] }]

/-- `Base` has 20 bytes. -/
def largerHost : LayoutHost where
  instanceSize name := if name = "Base" then some 20 else none
  protection _ := .writable

theorem superLayout_twoLevels {l super : ClassLayout} (h : SuperLayout twoLevels l super) :
    super.superGuest < l.superGuest := by
  obtain ⟨hmem, haddress⟩ := (xlFindLayout_eq_some (by decide)).mp h.2
  rw [← haddress]
  rcases List.mem_cons.mp hmem with rfl | hmem
  · decide
  · rw [List.mem_singleton.mp hmem]
    decide

theorem superEnds_twoLevels {l : ClassLayout} (hl : l ∈ twoLevels) {bound : Nat}
    (h : SuperEnds twoLevels largerHost l bound) :
    l.superGuest = 0 ∧ bound = 20 ∨ l.superGuest ≠ 0 ∧ bound = 28 := by
  cases h with
  | own hown =>
      refine .inl ⟨hown, ?_⟩
      rcases List.mem_cons.mp hl with rfl | hl
      · cases hown
      · rw [List.mem_singleton.mp hl]
        rfl
  | @guest _ super bound hsuper hends =>
      refine .inr ⟨hsuper.1, ?_⟩
      rcases List.mem_cons.mp hl with rfl | hl
      · have hparent : super = twoLevels[1] := (Option.some.inj hsuper.2).symm
        rw [hparent] at hends ⊢
        cases hends with
        | own _ => rfl
        | guest hguest _ => exact absurd rfl hguest.1
      · rw [List.mem_singleton.mp hl] at hsuper
        exact absurd rfl hsuper.1

theorem twoLevels_table : SoundTable twoLevels largerHost where
  acyclic := by
    have hdown : ∀ l super, Relation.TransGen (SuperLayout twoLevels) l super →
        super.superGuest < l.superGuest := by
      intro l super h
      induction h with
      | single h => exact superLayout_twoLevels h
      | tail _ h ih => exact UInt32.lt_trans (superLayout_twoLevels h) ih
    exact fun l h => absurd (hdown l l h) (UInt32.lt_irrefl _)
  resolved := by decide
  addresses := by decide
  records := by decide
  offsetVars := by decide
  writable := fun _ _ _ _ => rfl
  start_lt := by decide
  sizes := by
    intro l hl bound hends
    have hbound := superEnds_twoLevels hl hends
    rcases List.mem_cons.mp hl with rfl | hl
    · rw [(hbound.resolve_left fun h => by cases h.1).2]
      decide
    · rw [List.mem_singleton.mp hl] at hbound ⊢
      rw [(hbound.resolve_right fun h => h.1 rfl).2]
      decide

theorem layouts_reconciled_twoLevels :
    ∃ m', xlFixLayouts twoLevels largerHost ⟨fun _ => ⟨0, 0⟩, fun _ => 0, []⟩ = .ok m' ∧
      (∀ l ∈ twoLevels, Reconciled twoLevels largerHost m' l) ∧
      ∀ table', table'.Perm twoLevels → ∃ m'',
        xlFixLayouts table' largerHost ⟨fun _ => ⟨0, 0⟩, fun _ => 0, []⟩ = .ok m'' ∧
        m''.span = m'.span ∧ m''.offset = m'.offset :=
  layouts_reconciled twoLevels_table _

end Katabasis
