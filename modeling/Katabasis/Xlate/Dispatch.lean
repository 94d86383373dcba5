import Katabasis.Lib.LowerBound
import Katabasis.Lib.Maps
import Katabasis.Xlate.Placement

set_option autoImplicit false

/-! # Calls through the dispatcher and past it

A lifted call stores the guest address in `PC` and calls `xl_call`, which looks the address
up at run time (`xl_lookup`, `runtime/runtime.c`) in the table `EmitTables` writes. Where the
address is a constant, `Devirtualize` asks `Lifter::Target` for the function and calls it
directly (`xlate/src/xlate.cpp`).

Both sides are read off the same three sources (lifted functions, stubs resolved to guest
addresses, stubs resolved to host handlers). What makes them agree is that no address is a
stub of both kinds (`stubs_apart`), which rests on the images not overlapping, and that the
search finds every key of the table (`xlLookup_eq`).
-/

namespace Katabasis

open Std

/-- A function of the module, by name: `Handler` returns the function of that name. -/
structure Function where
  name : String
  deriving DecidableEq

def handler (name : String) : Function := ⟨name⟩

namespace Program

/-- `Lifter::Target`: a stub resolved to a guest address is followed once. -/
def target (p : Program) (functions : ExtTreeMap UInt64 Function) (pc : UInt64) :
    Option Function :=
  let pc := match p.stubToGuest[pc]? with
    | some guest => guest
    | none => pc
  match p.stubToHost[pc]? with
  | some host => some (handler host)
  | none => functions[pc]?

/-- The map `EmitTables` builds: the lifted functions, then the guest stubs that `Target`
answers, then the host stubs. -/
def functionTable (p : Program) (functions : ExtTreeMap UInt64 Function) :
    ExtTreeMap UInt64 Function :=
  Maps.merge (fun _ name => some (handler name)) p.stubToHost
    (Maps.merge (fun stub _ => p.target functions stub) p.stubToGuest functions)

end Program

/-- An entry of `xl_functions`, as the host sees it: the address is truncated to 32 bits. -/
structure XlFunction where
  address : UInt32
  function : Function
  deriving DecidableEq

def xlFunctions (table : ExtTreeMap UInt64 Function) : List XlFunction :=
  table.toList.map fun entry => ⟨entry.1.toUInt32, entry.2⟩

def xlFunctionCount (table : ExtTreeMap UInt64 Function) : UInt32 :=
  UInt32.ofNat (xlFunctions table).length

/-- `xl_lookup` over a table of `count` entries. -/
def xlLookup (functions : List XlFunction) (count : UInt32) (address : UInt64) : Option Function :=
  let low := LowerBound.search
    (fun middle => (functions[middle]?).any fun entry => entry.address.toUInt64 < address)
    count.toNat 0 count.toNat
  if low < count.toNat then
    match functions[low]? with
    | some entry =>
        if entry.address.toUInt64 = address ∧ address >>> 32 = 0 then some entry.function else none
    | none => none
  else none

/-! ## The search finds every key -/

theorem shiftRight_32_eq_zero_iff (address : UInt64) :
    address >>> 32 = 0 ↔ address.toNat < 2 ^ 32 := by
  rw [← UInt64.toNat_inj, UInt64.toNat_shiftRight, Nat.shiftRight_eq_div_pow]
  show address.toNat / 2 ^ (32 % 64) = 0 ↔ _
  have h32 : 32 % 64 = 32 := by decide
  rw [h32]
  omega

theorem toUInt64_toUInt32 {address : UInt64} (h : address.toNat < 2 ^ 32) :
    address.toUInt32.toUInt64 = address := by
  rw [← UInt64.toNat_inj]
  simp only [UInt32.toNat_toUInt64, UInt64.toNat_toUInt32]
  omega

theorem sorted_toList (table : ExtTreeMap UInt64 Function) :
    table.toList.Pairwise fun a b => a.1.toNat < b.1.toNat :=
  table.ordered_keys_toList.imp fun h => by
    rwa [Std.compare_eq_lt, UInt64.lt_iff_toNat_lt] at h

/-- A list of naturals sorted strictly, all in `[0, n)`, has at most `n` elements. -/
theorem length_le_of_sorted {l : List Nat} {n : Nat} (hs : l.Pairwise (· < ·))
    (hn : ∀ a ∈ l, a < n) : l.length ≤ n := by
  have hnodup : l.Nodup := hs.imp fun h => by omega
  have hsub : l.toFinset ⊆ Finset.range n := fun a ha => by
    simpa using hn a (by simpa using ha)
  have := Finset.card_le_card hsub
  rwa [List.toFinset_card_of_nodup hnodup, Finset.card_range] at this

section

variable {table : ExtTreeMap UInt64 Function}
  (hlow : ∀ entry ∈ table.toList, entry.1.toNat + 4 ≤ 2 ^ 32)

include hlow

theorem count_toNat : (xlFunctionCount table).toNat = table.toList.length := by
  have hlen : table.toList.length ≤ 2 ^ 32 - 3 := by
    rw [← List.length_map (f := fun entry : UInt64 × Function => entry.1.toNat)]
    refine length_le_of_sorted ?_ ?_
    · rw [List.pairwise_map]; exact sorted_toList table
    · intro a ha
      obtain ⟨entry, hentry, rfl⟩ := List.mem_map.mp ha
      have := hlow entry hentry
      omega
  rw [xlFunctionCount, xlFunctions, List.length_map, UInt32.toNat_ofNat_of_lt']
  show _ < 2 ^ 32
  omega

theorem below_iff {i : Nat} (hi : i < table.toList.length) (address : UInt64) :
    ((xlFunctions table)[i]?).any (fun entry => decide (entry.address.toUInt64 < address))
      ↔ (table.toList[i]).1.toNat < address.toNat := by
  have hkey := hlow _ (List.getElem_mem hi)
  rw [xlFunctions, List.getElem?_map, List.getElem?_eq_getElem hi]
  simp only [Option.map_some, Option.any_some, decide_eq_true_eq]
  rw [toUInt64_toUInt32 (by omega), UInt64.lt_iff_toNat_lt]

theorem initialSegment (address : UInt64) :
    LowerBound.InitialSegment
      (fun middle => ((xlFunctions table)[middle]?).any fun entry =>
        decide (entry.address.toUInt64 < address)) table.toList.length := by
  intro i j hij hj hpj
  rw [below_iff hlow hj] at hpj
  rw [below_iff hlow (by omega)]
  rcases Nat.lt_or_eq_of_le hij with hlt | rfl
  · have := List.pairwise_iff_getElem.mp (sorted_toList table) i j (by omega) hj hlt
    omega
  · exact hpj

/-- **`xl_lookup` is the table**: it answers every address as the map does, and it answers no
address from `2^32` on. -/
theorem xlLookup_eq (address : UInt64) :
    xlLookup (xlFunctions table) (xlFunctionCount table) address = table[address]? := by
  have hcount := count_toNat hlow
  set p : Nat → Bool := fun middle => ((xlFunctions table)[middle]?).any fun entry =>
    decide (entry.address.toUInt64 < address) with hp
  have hseg : LowerBound.InitialSegment p table.toList.length := initialSegment hlow address
  have hget : ∀ i (hi : i < table.toList.length),
      (xlFunctions table)[i]? = some ⟨(table.toList[i]).1.toUInt32, (table.toList[i]).2⟩ := by
    intro i hi
    rw [xlFunctions, List.getElem?_map, List.getElem?_eq_getElem hi]
    rfl
  unfold xlLookup
  simp only [hcount]
  rw [← hp]
  cases hk : table[address]? with
  | some f =>
      -- The key is at some index; it is the first one that is not below the address.
      have hm := ExtTreeMap.mem_toList_iff_getElem?_eq_some.mpr hk
      obtain ⟨n, hn, hentry⟩ := List.mem_iff_getElem.mp hm
      have hfound : LowerBound.search p table.toList.length 0 table.toList.length = n := by
        refine LowerBound.search_eq hseg Nat.le.refl hn.le (fun i hi => ?_) (fun _ => ?_)
        · rw [hp, below_iff hlow (hi.trans hn)]
          have := List.pairwise_iff_getElem.mp (sorted_toList table) i n (hi.trans hn) hn hi
          rwa [hentry] at this
        · rw [hp, below_iff hlow hn, hentry]
          exact Nat.lt_irrefl _
      have hlt : address.toNat < 2 ^ 32 := by
        have := hlow _ hm
        simp only at this
        omega
      rw [hfound, if_pos hn, hget n hn, hentry]
      simp [toUInt64_toUInt32 hlt, (shiftRight_32_eq_zero_iff address).mpr hlt]
  | none =>
      obtain ⟨-, hle, -, -⟩ := LowerBound.search_spec (p := p) table.toList.length 0
        table.toList.length hseg (Nat.zero_le _) Nat.le.refl
      split
      case isFalse => rfl
      case isTrue hlt =>
        rw [hget _ hlt]
        simp only [ite_eq_right_iff, reduceCtorEq, imp_false, not_and]
        intro heq
        have hmem := List.getElem_mem hlt
        have hkey := hlow _ hmem
        rw [toUInt64_toUInt32 (by omega)] at heq
        have hfound := ExtTreeMap.mem_toList_iff_getElem?_eq_some.mp hmem
        rw [List.get_eq_getElem, heq, hk] at hfound
        cases hfound

end

/-! ## The two stub maps -/

namespace Program

/-- The stub maps so far: filled from the addresses in `seen`, and no address is in both. -/
structure StubsOver (p : Program) (seen : Set UInt64) : Prop where
  guest : ∀ a ∈ p.stubToGuest, a ∈ seen
  host : ∀ a ∈ p.stubToHost, a ∈ seen
  apart : ∀ a ∈ p.stubToGuest, a ∉ p.stubToHost

theorem stubsOver_mono {p : Program} {seen seen' : Set UInt64} (h : p.StubsOver seen)
    (hs : seen ⊆ seen') : p.StubsOver seen' :=
  ⟨fun a ha => hs (h.guest a ha), fun a ha => hs (h.host a ha), h.apart⟩

/-- What one stub can do: enter one of the maps, or leave both as they are. The images stay. -/
theorem resolveStub_cases (strict : Bool) (image : Image) (p : Program) (entry : UInt64 × Stub) :
    (∃ target, (resolveStub strict image p entry).stubToGuest
        = p.stubToGuest.insert (image.host entry.1) target ∧
      (resolveStub strict image p entry).stubToHost = p.stubToHost) ∨
    (∃ name, (resolveStub strict image p entry).stubToGuest = p.stubToGuest ∧
      (resolveStub strict image p entry).stubToHost
        = p.stubToHost.insert (image.host entry.1) name) ∨
    ((resolveStub strict image p entry).stubToGuest = p.stubToGuest ∧
      (resolveStub strict image p entry).stubToHost = p.stubToHost) := by
  unfold resolveStub
  simp only
  split
  case h_1 target _ => exact Or.inl ⟨target, rfl, rfl⟩
  case h_2 =>
    refine Or.inr ?_
    by_cases htrap : isTrap entry.2.symbol
    · rw [if_pos htrap]
      exact Or.inl ⟨_, rfl, rfl⟩
    · rw [if_neg htrap]
      refine Or.inr ?_
      split_ifs <;> exact ⟨rfl, rfl⟩

theorem images_resolveStub (strict : Bool) (image : Image) (p : Program) (entry : UInt64 × Stub) :
    (resolveStub strict image p entry).images = p.images := by
  unfold resolveStub
  simp only
  split
  case h_1 => rfl
  case h_2 => split_ifs <;> rfl

theorem resolveStub_stubsOver {strict : Bool} {image : Image} {p : Program}
    {entry : UInt64 × Stub} {seen : Set UInt64} (h : p.StubsOver seen)
    (hnew : image.host entry.1 ∉ seen) :
    (resolveStub strict image p entry).StubsOver (insert (image.host entry.1) seen) := by
  have hg : image.host entry.1 ∉ p.stubToGuest := fun hm => hnew (h.guest _ hm)
  have hh : image.host entry.1 ∉ p.stubToHost := fun hm => hnew (h.host _ hm)
  rcases resolveStub_cases strict image p entry with ⟨target, h1, h2⟩ | ⟨name, h1, h2⟩ | ⟨h1, h2⟩
  · -- resolved to a function of the guest
    refine ⟨fun a ha => ?_, fun a ha => Or.inr (h.host a (h2 ▸ ha)), fun a ha => ?_⟩
    · rw [h1, ExtTreeMap.mem_insert, LawfulEqCmp.compare_eq_iff_eq] at ha
      exact ha.imp Eq.symm (h.guest a)
    · rw [h2]
      rw [h1, ExtTreeMap.mem_insert, LawfulEqCmp.compare_eq_iff_eq] at ha
      rcases ha with rfl | ha
      · exact hh
      · exact h.apart a ha
  · -- resolved to a function of the host
    refine ⟨fun a ha => Or.inr (h.guest a (h1 ▸ ha)), fun a ha => ?_, fun a ha hb => ?_⟩
    · rw [h2, ExtTreeMap.mem_insert, LawfulEqCmp.compare_eq_iff_eq] at ha
      exact ha.imp Eq.symm (h.host a)
    · rw [h1] at ha
      rw [h2, ExtTreeMap.mem_insert, LawfulEqCmp.compare_eq_iff_eq] at hb
      rcases hb with rfl | hb
      · exact hg ha
      · exact h.apart a ha hb
  · -- left unresolved
    refine ⟨fun a ha => Or.inr (h.guest a (h1 ▸ ha)), fun a ha => Or.inr (h.host a (h2 ▸ ha)),
      fun a ha => ?_⟩
    rw [h2]
    exact h.apart a (h1 ▸ ha)

/-- The addresses an image's stubs have once it is placed. -/
def stubAddresses (image : Image) : Set UInt64 :=
  { a | ∃ vmaddr ∈ image.stubs, a = image.host vmaddr }

theorem resolveStubs_stubsOver {strict : Bool} {image : Image} {entries : List (UInt64 × Stub)}
    {p : Program} {seen : Set UInt64} (h : p.StubsOver seen)
    (hd : entries.Pairwise fun a b => a.1 ≠ b.1)
    (hnew : ∀ entry ∈ entries, image.host entry.1 ∉ seen) :
    (entries.foldl (resolveStub strict image) p).StubsOver
      (seen ∪ { a | ∃ entry ∈ entries, a = image.host entry.1 }) := by
  induction entries generalizing p seen with
  | nil => exact stubsOver_mono h Set.subset_union_left
  | cons entry rest ih =>
      rw [List.pairwise_cons] at hd
      rw [List.foldl_cons]
      have hstep : (resolveStub strict image p entry).StubsOver _ :=
        resolveStub_stubsOver h (hnew entry List.mem_cons_self)
      refine stubsOver_mono (ih hstep hd.2 fun e he => ?_) ?_
      · rintro (heq | hmem)
        · exact hd.1 e he (image.host_injective heq).symm
        · exact hnew e (List.mem_cons_of_mem _ he) hmem
      · rintro a ((rfl | ha) | ⟨e, he, rfl⟩)
        · exact Or.inr ⟨entry, List.mem_cons_self, rfl⟩
        · exact Or.inl ha
        · exact Or.inr ⟨e, List.mem_cons_of_mem _ he, rfl⟩

theorem resolveImage_stubsOver {strict : Bool} {image : Image} {p : Program} {seen : Set UInt64}
    (h : p.StubsOver seen) (hnew : ∀ a ∈ stubAddresses image, a ∉ seen) :
    (resolveImage strict p image).StubsOver (seen ∪ stubAddresses image) := by
  have hmem : ∀ entry ∈ image.stubs.toList, entry.1 ∈ image.stubs := fun entry he => by
    rw [ExtTreeMap.mem_iff_isSome_getElem?, ExtTreeMap.mem_toList_iff_getElem?_eq_some.mp he]
    rfl
  refine stubsOver_mono (resolveStubs_stubsOver h (Maps.distinct_toList _)
    fun entry he => hnew _ ⟨entry.1, hmem entry he, rfl⟩) ?_
  rintro a (ha | ⟨entry, he, rfl⟩)
  · exact Or.inl ha
  · exact Or.inr ⟨entry.1, hmem entry he, rfl⟩

theorem resolveImages_stubsOver {strict : Bool} {images : List Image} {p : Program}
    {seen : Set UInt64} (h : p.StubsOver seen)
    (hd : images.Pairwise fun a b => ∀ x ∈ stubAddresses b, x ∉ stubAddresses a)
    (hnew : ∀ image ∈ images, ∀ a ∈ stubAddresses image, a ∉ seen) :
    (images.foldl (resolveImage strict) p).StubsOver
      (seen ∪ { a | ∃ image ∈ images, a ∈ stubAddresses image }) := by
  induction images generalizing p seen with
  | nil => exact stubsOver_mono h Set.subset_union_left
  | cons image rest ih =>
      rw [List.pairwise_cons] at hd
      rw [List.foldl_cons]
      have hstep : (resolveImage strict p image).StubsOver _ :=
        resolveImage_stubsOver h (hnew image List.mem_cons_self)
      refine stubsOver_mono (ih hstep hd.2 fun i hi a ha => ?_) ?_
      · rintro (hs | hi')
        · exact hnew i (List.mem_cons_of_mem _ hi) a ha hs
        · exact hd.1 i hi a ha hi'
      · rintro a ((ha | ha) | ⟨i, hi, ha⟩)
        · exact Or.inl ha
        · exact Or.inr ⟨image, List.mem_cons_self, ha⟩
        · exact Or.inr ⟨i, List.mem_cons_of_mem _ hi, ha⟩

theorem images_foldl_resolveImage (strict : Bool) (images : List Image) (p : Program) :
    (images.foldl (resolveImage strict) p).images = p.images := by
  induction images generalizing p with
  | nil => rfl
  | cons image rest ih =>
      rw [List.foldl_cons, ih, resolveImage]
      induction image.stubs.toList generalizing p with
      | nil => rfl
      | cons entry entries ihe => rw [List.foldl_cons, ihe, images_resolveStub]

/-- The images are placed, and no stub has been entered yet. -/
structure Unresolved (p : Program) (images : List Image) : Prop where
  images : p.images = images
  guest : p.stubToGuest = ∅
  host : p.stubToHost = ∅

theorem register_unresolved {isBridge : String → Bool} {images : List Image} {p p' : Program}
    {image : Image} (h : register isBridge p image = .ok p') (hp : p.Unresolved images) :
    p'.Unresolved images := by
  obtain ⟨exports, -, h⟩ := Fallible.bind_eq_ok h
  injection h with h
  rw [← h]
  exact ⟨hp.images, hp.guest, hp.host⟩

theorem applyReplace_unresolved {equivalent : String → String → Bool} {images : List Image}
    {p p' : Program} {spec : String} (h : applyReplace equivalent p spec = .ok p')
    (hp : p.Unresolved images) : p'.Unresolved images := by
  unfold applyReplace at h
  simp only at h
  split at h
  case h_1 => cases h
  case h_2 =>
    split at h
    case h_1 => cases h
    case h_2 =>
      obtain ⟨exports, -, h⟩ := Fallible.bind_eq_ok h
      injection h with h
      rw [← h]
      exact ⟨hp.images, hp.guest, hp.host⟩

/-- What `LayoutAndResolve` leaves: the placed images, and the stub maps of a loop over them
that started from empty maps. -/
theorem layoutAndResolve_ok {base : UInt64} {images : List Image} {isBridge : String → Bool}
    {equivalent : String → String → Bool} {replaces : List String} {strict : Bool} {p : Program}
    (h : layoutAndResolve base images isBridge equivalent replaces strict = .ok p) :
    p.images = placeImages base images ∧
      ∃ p0 : Program, p0.Unresolved (placeImages base images) ∧
        p = (placeImages base images).foldl (resolveImage strict) p0 := by
  obtain ⟨p1, h1, h⟩ := Fallible.bind_eq_ok h
  obtain ⟨p2, h2, h⟩ := Fallible.bind_eq_ok h
  injection h with h
  have hu1 := Fallible.foldlM_invariant (P := fun p => p.Unresolved (placeImages base images))
    (fun _ _ _ => register_unresolved) h1 ⟨rfl, rfl, rfl⟩
  have hu2 := Fallible.foldlM_invariant (P := fun p => p.Unresolved (placeImages base images))
    (fun _ _ _ => applyReplace_unresolved) h2 hu1
  refine ⟨?_, p2, hu2, h.symm⟩
  rw [← h, images_foldl_resolveImage, hu2.images]

end Program

/-- The image's addresses are placed below `2^32`, and its stubs are instructions of it. -/
structure Image.Mapped32 (image : Image) : Prop extends image.Low where
  stub_inside : ∀ vmaddr ∈ image.stubs,
    image.preferredBase ≤ vmaddr ∧ vmaddr.toNat + 4 ≤ image.imageEnd.toNat

namespace Image

theorem Mapped32.inRange {image : Image} (h : image.Mapped32) {vmaddr : UInt64}
    (hv : vmaddr ∈ image.stubs) : image.InRange vmaddr := by
  obtain ⟨h1, h2⟩ := h.stub_inside vmaddr hv
  exact ⟨h1, UInt64.lt_iff_toNat_lt.mpr (by omega)⟩

/-- The whole stub instruction is placed below `2^32`. -/
theorem Mapped32.stub_low {image : Image} {cursor vmaddr : UInt64}
    (h : (image.slidTo cursor).Mapped32) (hv : vmaddr ∈ (image.slidTo cursor).stubs) :
    ((image.slidTo cursor).host vmaddr).toNat + 4 ≤ 2 ^ 32 := by
  obtain ⟨h1, h2⟩ := h.stub_inside vmaddr hv
  have hrange := h.inRange hv
  rw [preferredBase_slidTo] at h1
  rw [imageEnd_slidTo] at h2
  have hlen := length_le_of_low h.toLow (UInt64.lt_of_le_of_lt h1 hrange.2)
  have h1' := UInt64.le_iff_toNat_le.mp h1
  rw [toNat_host_of_low h.toLow hrange]
  omega

end Image

theorem mem_placeImages {images : List Image} {cursor : UInt64} {image : Image}
    (h : image ∈ placeImages cursor images) :
    ∃ (original : Image) (cursor' : UInt64), image = original.slidTo cursor' := by
  induction images generalizing cursor with
  | nil => cases h
  | cons first rest ih =>
      rw [placeImages_cons] at h
      rcases List.mem_cons.mp h with rfl | hrest
      · exact ⟨first, cursor, rfl⟩
      · exact ih hrest

namespace Program

section

variable {base : UInt64} {images : List Image} {isBridge : String → Bool}
  {equivalent : String → String → Bool} {replaces : List String} {strict : Bool} {p : Program}
  (hp : layoutAndResolve base images isBridge equivalent replaces strict = .ok p)
  (hm : ∀ image ∈ p.images, image.Mapped32)

include hp hm

/-- **The stub maps of `LayoutAndResolve`** hold addresses of stubs, and share none. -/
theorem stubs_apart :
    p.StubsOver { a | ∃ image ∈ p.images, a ∈ stubAddresses image } := by
  obtain ⟨hi, p0, hu, hfold⟩ := layoutAndResolve_ok hp
  have hstart : p0.StubsOver ∅ := by
    refine ⟨fun a ha => ?_, fun a ha => ?_, fun a ha => ?_⟩
    · rw [hu.guest] at ha; simp at ha
    · rw [hu.host] at ha; simp at ha
    · rw [hu.guest] at ha; simp at ha
  rw [hi] at hm
  have hapart := placeImages_disjoint fun image himage => (hm image himage).toLow
  have hd : (placeImages base images).Pairwise
      fun a b => ∀ x ∈ stubAddresses b, x ∉ stubAddresses a := by
    refine hapart.imp_of_mem fun {a b} ha hb hab => ?_
    rintro x ⟨w, hw, hxw⟩ ⟨v, hv, hxv⟩
    exact hab v w ((hm a ha).inRange hv) ((hm b hb).inRange hw) (hxv.symm.trans hxw)
  have hdone : ((placeImages base images).foldl (resolveImage strict) p0).StubsOver _ :=
    resolveImages_stubsOver hstart hd fun _ _ _ _ hempty => hempty
  rw [hi, hfold]
  exact stubsOver_mono hdone (by simp)

theorem stub_low {a : UInt64} (ha : ∃ image ∈ p.images, a ∈ stubAddresses image) :
    a.toNat + 4 ≤ 2 ^ 32 := by
  obtain ⟨image, himage, vmaddr, hv, rfl⟩ := ha
  have hmapped := hm image himage
  obtain ⟨hi, -⟩ := layoutAndResolve_ok hp
  obtain ⟨original, cursor, rfl⟩ := mem_placeImages (hi ▸ himage)
  exact hmapped.stub_low hv

variable {functions : ExtTreeMap UInt64 Function}
  (hf : ∀ a : UInt64, a ∈ functions → a.toNat + 4 ≤ 2 ^ 32)

omit hp hm in
/-- The table, key by key: host stubs first, then guest stubs, then lifted functions. -/
theorem getElem?_functionTable (p : Program) (functions : ExtTreeMap UInt64 Function)
    (pc : UInt64) :
    (p.functionTable functions)[pc]?
      = (p.stubToHost[pc]?.map handler).or
          ((p.stubToGuest[pc]?.bind fun _ => p.target functions pc).or functions[pc]?) := by
  rw [functionTable, Maps.getElem?_merge, Maps.getElem?_merge]
  cases p.stubToHost[pc]? <;> rfl

include hf in
theorem functionTable_low :
    ∀ entry ∈ (p.functionTable functions).toList, entry.1.toNat + 4 ≤ 2 ^ 32 := by
  intro entry hentry
  have hstubs := stubs_apart hp hm
  have hk := ExtTreeMap.mem_toList_iff_getElem?_eq_some.mp hentry
  rw [getElem?_functionTable] at hk
  by_cases hhost : entry.1 ∈ p.stubToHost
  · exact stub_low hp hm (hstubs.host _ hhost)
  · by_cases hguest : entry.1 ∈ p.stubToGuest
    · exact stub_low hp hm (hstubs.guest _ hguest)
    · rw [getElem?_neg _ _ hhost, getElem?_neg _ _ hguest] at hk
      refine hf _ ?_
      rw [ExtTreeMap.mem_iff_isSome_getElem?]
      rw [show functions[entry.1]? = some entry.2 from hk]
      rfl

omit hp hm in
/-- A stub in neither map, and every other address, is looked up among the lifted functions
on both sides. -/
theorem functionTable_of_not_stub {pc : UInt64} (hg : pc ∉ p.stubToGuest)
    (hh : pc ∉ p.stubToHost) :
    (p.functionTable functions)[pc]? = p.target functions pc := by
  rw [getElem?_functionTable, target]
  simp [getElem?_neg _ _ hg, getElem?_neg _ _ hh]

/-- What `Target` answers is in the table, for stubs of both kinds too. -/
theorem functionTable_of_target {pc : UInt64} {f : Function}
    (h : p.target functions pc = some f) : (p.functionTable functions)[pc]? = some f := by
  by_cases hg : pc ∈ p.stubToGuest
  · have hh : pc ∉ p.stubToHost := (stubs_apart hp hm).apart pc hg
    rw [getElem?_functionTable, getElem?_neg _ _ hh, getElem?_pos _ _ hg, h]
    rfl
  · by_cases hh : pc ∈ p.stubToHost
    · rw [getElem?_functionTable, getElem?_pos _ _ hh]
      rw [target] at h
      simp only [getElem?_neg _ _ hg, getElem?_pos _ _ hh] at h
      rw [← h]
      rfl
    · rw [functionTable_of_not_stub hg hh, h]

/-- The address of a call stub of some image. -/
def IsCallStub (p : Program) (pc : UInt64) : Prop :=
  ∃ image ∈ p.images, pc ∈ stubAddresses image

/-! ## The theorem -/

include hf in
/-- **A devirtualised call runs what the dispatcher would have run.** Where `Target` answers
an address, `xl_lookup` over the emitted table answers the same; for an address that is no
call stub the two agree in both directions; from `2^32` on there is no answer. -/
theorem xlLookup_agrees_with_target :
    (∀ pc f, p.target functions pc = some f →
      xlLookup (xlFunctions (p.functionTable functions))
        (xlFunctionCount (p.functionTable functions)) pc = some f) ∧
    (∀ pc, ¬ p.IsCallStub pc →
      xlLookup (xlFunctions (p.functionTable functions))
        (xlFunctionCount (p.functionTable functions)) pc = p.target functions pc) ∧
    (∀ pc : UInt64, 2 ^ 32 ≤ pc.toNat →
      xlLookup (xlFunctions (p.functionTable functions))
        (xlFunctionCount (p.functionTable functions)) pc = none) := by
  have hlow := functionTable_low hp hm hf
  have hstubs := stubs_apart hp hm
  refine ⟨fun pc f h => ?_, fun pc hpc => ?_, fun pc hpc => ?_⟩
  · rw [xlLookup_eq hlow, functionTable_of_target hp hm h]
  · have hg : pc ∉ p.stubToGuest := fun h => hpc (hstubs.guest pc h)
    have hh : pc ∉ p.stubToHost := fun h => hpc (hstubs.host pc h)
    rw [xlLookup_eq hlow, functionTable_of_not_stub hg hh]
  · rw [xlLookup_eq hlow]
    by_contra hsome
    obtain ⟨f, hfound⟩ := Option.ne_none_iff_exists'.mp hsome
    have := hlow _ (ExtTreeMap.mem_toList_iff_getElem?_eq_some.mpr hfound)
    simp only at this
    omega

end

/-! ## One image with a stub of each kind -/

/-- An image that calls its own `_main` and a trap. -/
def caller : Image :=
  { path := "caller"
    installName := "@rpath/libcaller.dylib"
    segments := [{ name := "__TEXT", vmaddr := 0x4000, vmsize := 0x1000 }]
    functions := [0x4000]
    stubs := (ExtTreeMap.empty.insert 0x4100
      { symbol := "_main", library := "@rpath/libcaller.dylib" }).insert 0x410C
      { symbol := "_xl_trap_exit" }
    exports := ExtTreeMap.empty.insert "_main" 0x4000 }

def callerPlaced : Image := caller.slidTo 0x10000000

def callerProgram : Program :=
  { images := [callerPlaced]
    exports := { images := [callerPlaced]
                 byName := ExtTreeMap.empty.insert "@rpath/libcaller.dylib" callerPlaced }
    stubToGuest := ExtTreeMap.empty.insert 0x10000100 0x10000000
    stubToHost := ExtTreeMap.empty.insert 0x1000010C "xl_h_exit"
    functions := ExtTreeMap.empty.insert 0x10000000 () }

theorem callerProgram_resolved :
    layoutAndResolve 0x10000000 [caller] (fun _ => false) (fun a b => a == b) [] true
      = .ok callerProgram := rfl

theorem callerPlaced_mapped : callerPlaced.Mapped32 where
  base_le_end := by decide
  below := fun vmaddr h => by
    obtain ⟨h1, h2⟩ := h
    have hbase : callerPlaced.preferredBase = 0x4000 := by decide
    have hend : callerPlaced.imageEnd = 0x5000 := by decide
    rw [hbase, UInt64.le_iff_toNat_le] at h1
    rw [hend, UInt64.lt_iff_toNat_lt] at h2
    have hslide : callerPlaced.slide.toNat = 0xFFFC000 := by decide
    have h4 : (0x4000 : UInt64).toNat = 0x4000 := rfl
    have h5 : (0x5000 : UInt64).toNat = 0x5000 := rfl
    rw [Image.host, UInt64.toNat_add, hslide]
    omega
  stub_inside := fun vmaddr h => by
    simp only [callerPlaced, caller, Image.slidTo, ExtTreeMap.mem_insert,
      LawfulEqCmp.compare_eq_iff_eq] at h
    rcases h with rfl | rfl | h
    · decide
    · decide
    · exact absurd h ExtTreeMap.not_mem_empty

/-- The stub of `_main` is called directly as the lifted `_main`, which the dispatcher finds. -/
theorem xlLookup_agrees_with_target_caller :
    callerProgram.target (ExtTreeMap.empty.insert 0x10000000 ⟨"main"⟩) 0x10000100
        = some ⟨"main"⟩ ∧
      xlLookup
        (xlFunctions (callerProgram.functionTable (ExtTreeMap.empty.insert 0x10000000 ⟨"main"⟩)))
        (xlFunctionCount
          (callerProgram.functionTable (ExtTreeMap.empty.insert 0x10000000 ⟨"main"⟩)))
        0x10000100 = some ⟨"main"⟩ := by
  have hm : ∀ image ∈ callerProgram.images, image.Mapped32 := fun image h => by
    rw [List.mem_singleton.mp h]
    exact callerPlaced_mapped
  have hf : ∀ a : UInt64, a ∈ (ExtTreeMap.empty.insert 0x10000000 ⟨"main"⟩ :
      ExtTreeMap UInt64 Function) → a.toNat + 4 ≤ 2 ^ 32 := fun a h => by
    rw [ExtTreeMap.mem_insert, LawfulEqCmp.compare_eq_iff_eq] at h
    rcases h with rfl | h
    · decide
    · exact absurd h ExtTreeMap.not_mem_empty
  have htarget : callerProgram.target (ExtTreeMap.empty.insert 0x10000000 ⟨"main"⟩) 0x10000100
      = some ⟨"main"⟩ := rfl
  exact ⟨htarget,
    (xlLookup_agrees_with_target callerProgram_resolved hm hf).1 _ _ htarget⟩

end Program

end Katabasis
