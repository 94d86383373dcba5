import Katabasis.Xlate.Dispatch

set_option autoImplicit false

/-! # Symbols that no host library has to supply

`xlate` reads the guest images twice (`scripts/translate.sh`). The first pass has no bridge library
yet: `WriteResolved` (`xlate/src/xlate.cpp`) writes the symbols that the guest images answer among
themselves, and only the imports outside that list get a bridge. The second pass places the bridge
library behind the guest images, and every call stub has to be resolved (`strict`).

What the list promises is that the second pass does not miss the bridges that were left out. That
rests on a second set of registered images knowing all that the first one knew (`Under`).
-/

namespace Katabasis

open Std

/-! ## `WriteResolved` -/

/-- An import of an image: the name it has in the symbol table, and the symbol and library that
are looked up for it. The first two differ only for a re-export. -/
structure Import where
  name : String
  library : String
  symbol : String
  deriving DecidableEq

def Image.imports (image : Image) : List Import :=
  image.stubs.toList.map (fun entry => ⟨entry.2.symbol, entry.2.library, entry.2.symbol⟩) ++
    image.binds.toList.map (fun entry => ⟨entry.2.symbol, entry.2.library, entry.2.symbol⟩) ++
    image.reexports.toList.map fun entry => ⟨entry.1, entry.2.library, entry.2.symbol⟩

/-- The two sets of names that `WriteResolved` fills. -/
structure Noted where
  answered : ExtTreeMap String Unit := ∅
  host : ExtTreeMap String Unit := ∅

namespace Program

def note (p : Program) (noted : Noted) (i : Import) : Noted :=
  if (p.exports.find i.library i.symbol).isSome then
    { noted with answered := noted.answered.insert i.name () }
  else { noted with host := noted.host.insert i.name () }

def noteAll (p : Program) : Noted :=
  (p.images.flatMap Image.imports).foldl p.note {}

/-- The lines that `WriteResolved` writes. -/
def resolved (p : Program) : List String :=
  p.noteAll.answered.keys.filter fun name => name ∉ p.noteAll.host

theorem mem_note (p : Program) (imports : List Import) (noted : Noted) (name : String) :
    (name ∈ (imports.foldl p.note noted).answered ↔ name ∈ noted.answered ∨
      ∃ i ∈ imports, i.name = name ∧ (p.exports.find i.library i.symbol).isSome) ∧
    (name ∈ (imports.foldl p.note noted).host ↔ name ∈ noted.host ∨
      ∃ i ∈ imports, i.name = name ∧ p.exports.find i.library i.symbol = none) := by
  induction imports generalizing noted with
  | nil => simp
  | cons i rest ih =>
      rw [List.foldl_cons, (ih _).1, (ih _).2, note]
      cases hfind : p.exports.find i.library i.symbol with
      | some address => simp [hfind, or_assoc, or_left_comm]
      | none => simp [hfind, or_assoc, or_left_comm]

/-- **A line of the list** is the name of an import, and every import of that name, by any image,
is answered by an image through the library that it names. -/
theorem mem_resolved {p : Program} {name : String} :
    name ∈ p.resolved ↔
      (∃ image ∈ p.images, ∃ i ∈ image.imports, i.name = name) ∧
        ∀ image ∈ p.images, ∀ i ∈ image.imports, i.name = name →
          (p.exports.find i.library i.symbol).isSome := by
  obtain ⟨hanswered, hhost⟩ := p.mem_note (p.images.flatMap Image.imports) {} name
  rw [resolved, List.mem_filter, ExtTreeMap.mem_keys, decide_eq_true_eq, noteAll, hanswered, hhost]
  simp only [ExtTreeMap.not_mem_empty, false_or, List.mem_flatMap, not_exists, not_and]
  constructor
  · rintro ⟨⟨i, ⟨image, himage, hi⟩, hname, -⟩, hall⟩
    refine ⟨⟨image, himage, i, hi, hname⟩, fun image' himage' i' hi' hname' => ?_⟩
    exact Option.isSome_iff_ne_none.mpr (hall i' ⟨image', himage', hi'⟩ hname')
  · rintro ⟨⟨image, himage, i, hi, hname⟩, hall⟩
    refine ⟨⟨i, ⟨image, himage, hi⟩, hname, hall image himage i hi hname⟩, ?_⟩
    intro i' hi' hname'
    obtain ⟨image', himage', hi'⟩ := hi'
    exact Option.isSome_iff_ne_none.mp (hall image' himage' i' hi' hname')

end Program

/-! ## Registered images that know what others know -/

namespace GuestExports

/-- All that `e` has registered, `e'` has too, and more of it. -/
structure Under (e e' : GuestExports) : Prop where
  images : e.images ⊆ e'.images
  bridges : e.bridges ⊆ e'.bridges
  byName : ∀ (library : String) (image : Image), e.byName[library]? = some image → e'.byName[library]? = some image
  replaced : e'.replaced = e.replaced

namespace Under

variable {e e' e₁ e₁' : GuestExports}

theorem imageOf (h : Under e e') {library : String} {image : Image}
    (himage : e.imageOf library = some image) : e'.imageOf library = some image := by
  simp only [GuestExports.imageOf, h.replaced] at himage ⊢
  cases hreplaced : e.replaced[library]? with
  | some found => simpa [hreplaced] using himage
  | none =>
      simp only [hreplaced] at himage
      exact h.byName library image himage

theorem findSome?_isSome {images images' : List Image} (h : images ⊆ images') {symbol : String}
    (hsome : (images.findSome? (·.exported symbol)).isSome) :
    (images'.findSome? (·.exported symbol)).isSome := by
  rw [List.findSome?_isSome_iff] at hsome ⊢
  obtain ⟨image, himage, hexported⟩ := hsome
  exact ⟨image, h himage, hexported⟩

/-- A bind that the first images answer, the second ones answer as well. -/
theorem findAt (h : Under e e') (left : Nat) (library symbol : String)
    (hsome : (e.findAt left library symbol).isSome) : (e'.findAt left library symbol).isSome := by
  -- Induction on the re-export steps left.
  induction left using Nat.strong_induction_on generalizing library symbol with
  | _ left ih =>
      unfold GuestExports.findAt at hsome ⊢
      by_cases hempty : library = ""
      · simp only [hempty, if_true] at hsome ⊢
        exact findSome?_isSome h.images hsome
      · simp only [hempty, if_false, Option.isSome_or, Bool.or_eq_true] at hsome ⊢
        refine hsome.imp (fun hown => ?_) fun hbridged => findSome?_isSome h.bridges hbridged
        cases himage : e.imageOf library with
        | none => simp [himage] at hown
        | some image =>
            simp only [himage, h.imageOf himage, Option.isSome_or, Bool.or_eq_true] at hown ⊢
            refine hown.imp id fun hsent => ?_
            cases left with
            | zero => simp at hsent
            | succ left =>
                simp only [Option.isSome_or, Bool.or_eq_true] at hsent ⊢
                refine hsent.imp (fun hone => ?_) fun hwhole => ?_
                · -- the symbol alone is sent on
                  cases hreexport : image.reexports[symbol]? with
                  | none => simp [hreexport] at hone
                  | some sent =>
                      simp only [hreexport, Option.bind_some] at hone ⊢
                      exact ih left (Nat.lt_succ_self left) _ _ hone
                · -- a library re-exported whole has it
                  rw [List.findSome?_isSome_iff] at hwhole ⊢
                  obtain ⟨whole, hmem, hfound⟩ := hwhole
                  refine ⟨whole, hmem, ?_⟩
                  cases hof : e.imageOf whole with
                  | none => simp [hof] at hfound
                  | some other =>
                      simp only [hof, h.imageOf hof, Option.isSome_some, if_true] at hfound ⊢
                      exact ih left (Nat.lt_succ_self left) _ _ hfound

theorem find (h : Under e e') {library symbol : String} (hsome : (e.find library symbol).isSome) :
    (e'.find library symbol).isSome :=
  h.findAt kMaxReexportDepth library symbol hsome

/-- One more image behind the second ones. -/
theorem add_right (h : Under e e') {image : Image} {bridge : Bool}
    (hadd : e'.add image bridge = .ok e₁') : Under e e₁' := by
  obtain ⟨himages, hbridges, hreplaced, hbyName⟩ := add_ok hadd
  refine ⟨?_, ?_, fun library found hfound => ?_, by rw [hreplaced, h.replaced]⟩
  · rw [himages]
    exact List.subset_append_of_subset_left _ h.images
  · rw [hbridges]
    split
    case isTrue => exact List.subset_append_of_subset_left _ h.bridges
    case isFalse => exact h.bridges
  · have hold := h.byName library found hfound
    rw [hbyName]
    split
    case isFalse => exact hold
    case isTrue hname =>
      rw [ExtTreeMap.getElem?_insert, if_neg]
      · exact hold
      · -- `Add` would have refused the name
        rw [LawfulEqCmp.compare_eq_iff_eq]
        rintro rfl
        simp [GuestExports.add, hname, hold] at hadd

/-- The same image behind both. -/
theorem add (h : Under e e') {image : Image} {bridge bridge' : Bool}
    (hadd : e.add image bridge = .ok e₁) (hadd' : e'.add image bridge' = .ok e₁')
    (hbridge : bridge = true → bridge' = true) : Under e₁ e₁' := by
  obtain ⟨himages, hbridges, hreplaced, hbyName⟩ := add_ok hadd
  obtain ⟨himages', hbridges', hreplaced', hbyName'⟩ := add_ok hadd'
  have hright := h.add_right hadd'
  refine ⟨?_, ?_, fun library found hfound => ?_, by rw [hreplaced, hreplaced', h.replaced]⟩
  · rw [himages, himages']
    exact List.append_subset.mpr
      ⟨List.subset_append_of_subset_left _ h.images, List.subset_append_right _ _⟩
  · rw [hbridges, hbridges']
    cases bridge with
    | false =>
        rw [← hbridges']
        exact hright.bridges
    | true =>
        rw [hbridge rfl]
        exact List.append_subset.mpr
          ⟨List.subset_append_of_subset_left _ h.bridges, List.subset_append_right _ _⟩
  · rw [hbyName] at hfound
    split at hfound
    case isFalse => exact hright.byName library found hfound
    case isTrue hname =>
      rw [ExtTreeMap.getElem?_insert] at hfound
      split at hfound
      case isFalse => exact hright.byName library found hfound
      case isTrue hsame =>
        rw [hbyName', if_pos hname, ExtTreeMap.getElem?_insert, if_pos hsame]
        exact hfound

theorem replace (h : Under e e') {library : String} {image : Image}
    (hreplace : e.replace library image = .ok e₁)
    (hreplace' : e'.replace library image = .ok e₁') : Under e₁ e₁' := by
  rw [replace_ok hreplace, replace_ok hreplace']
  exact ⟨h.images, h.bridges, h.byName, by simp [h.replaced]⟩

end Under

/-- A bridge image is asked for its symbols, whatever the library. -/
theorem find_of_bridge {e : GuestExports} {bridge : Image} (hbridge : bridge ∈ e.bridges)
    (himages : bridge ∈ e.images) {library symbol : String} (hsymbol : symbol ∈ bridge.exports) :
    (e.find library symbol).isSome := by
  have hexported : (bridge.exported symbol).isSome := by
    rw [Image.exported, Option.isSome_map, ← ExtTreeMap.mem_iff_isSome_getElem?]
    exact hsymbol
  unfold GuestExports.find GuestExports.findAt
  split
  case isTrue => exact List.findSome?_isSome_iff.mpr ⟨bridge, himages, hexported⟩
  case isFalse =>
    rw [Option.isSome_or, Bool.or_eq_true]
    exact .inr (List.findSome?_isSome_iff.mpr ⟨bridge, hbridge, hexported⟩)

end GuestExports

/-! ## The two passes -/

/-- Images placed behind others leave these where they were. -/
theorem placeImages_append (cursor : UInt64) (guests more : List Image) :
    ∃ cursor', placeImages cursor (guests ++ more)
      = placeImages cursor guests ++ placeImages cursor' more := by
  induction guests generalizing cursor with
  | nil => exact ⟨cursor, rfl⟩
  | cons first rest ih =>
      obtain ⟨cursor', hrest⟩ := ih (alignUp
        ((first.slidTo cursor).host first.imageEnd) 0x100000)
      refine ⟨cursor', ?_⟩
      rw [List.cons_append, placeImages_cons, placeImages_cons, hrest, List.cons_append]

theorem mem_placeImages_path {images : List Image} {cursor : UInt64} {image : Image}
    (h : image ∈ placeImages cursor images) : ∃ original ∈ images, original.path = image.path := by
  induction images generalizing cursor with
  | nil => cases h
  | cons first rest ih =>
      rw [placeImages_cons] at h
      rcases List.mem_cons.mp h with rfl | hrest
      · exact ⟨first, List.mem_cons_self, rfl⟩
      · obtain ⟨original, hm, hpath⟩ := ih hrest
        exact ⟨original, List.mem_cons_of_mem _ hm, hpath⟩

namespace Program

/-- A later pass that has placed more images behind the same ones and knows all that the earlier
one knew. -/
structure Under (more : List Image) (p p' : Program) : Prop where
  images : p'.images = p.images ++ more
  exports : p.exports.Under p'.exports

theorem register_exports {isBridge : String → Bool} {p p₁ : Program} {image : Image}
    (h : register isBridge p image = .ok p₁) :
    p.exports.add image (isBridge image.path) = .ok p₁.exports ∧ p₁.images = p.images ∧
      p₁.ok = p.ok := by
  obtain ⟨exports, hadd, h⟩ := Fallible.bind_eq_ok h
  injection h with h
  rw [← h]
  exact ⟨Fallible.mapError_eq_ok hadd, rfl, rfl⟩

theorem register_under {isBridge isBridge' : String → Bool} {more : List Image} {image : Image}
    (hbridge : ∀ path, isBridge path = true → isBridge' path = true) {p p' p₁ p₁' : Program}
    (h : register isBridge p image = .ok p₁) (h' : register isBridge' p' image = .ok p₁')
    (hu : Under more p p') : Under more p₁ p₁' := by
  obtain ⟨hadd, himages, -⟩ := register_exports h
  obtain ⟨hadd', himages', -⟩ := register_exports h'
  exact ⟨by rw [himages, himages', hu.images], hu.exports.add hadd hadd' (hbridge image.path)⟩

theorem register_under_right {isBridge : String → Bool} {more : List Image} {image : Image}
    {p p' p₁' : Program} (h : register isBridge p' image = .ok p₁') (hu : Under more p p') :
    Under more p p₁' := by
  obtain ⟨hadd, himages, -⟩ := register_exports h
  exact ⟨by rw [himages, hu.images], hu.exports.add_right hadd⟩

/-- No image of the later pass alone is a file that a `--replaces` can name for an earlier one. -/
def OtherFiles (equivalent : String → String → Bool) (guests more : List Image) : Prop :=
  ∀ path, ∀ guest ∈ guests, equivalent path guest.path = true →
    ∀ image ∈ more, equivalent path image.path = false

/-- What an accepted `--replaces` does: an image that its path names stands for its library. -/
theorem applyReplace_ok {equivalent : String → String → Bool} {spec : String} {p p₁ : Program}
    (h : applyReplace equivalent p spec = .ok p₁) :
    ∃ target, p.images.reverse.find? (fun image =>
        equivalent (String.ofList (spec.toList.span (· ≠ '=')).2.tail) image.path) = some target ∧
      p.exports.replace (String.ofList (spec.toList.span (· ≠ '=')).1) target = .ok p₁.exports ∧
      p₁.images = p.images ∧ p₁.ok = p.ok := by
  unfold applyReplace at h
  simp only at h
  split at h
  case h_1 => cases h
  case h_2 library equals path hspec =>
    split at h
    case h_1 => cases h
    case h_2 target hfind =>
      obtain ⟨exports, hreplace, h⟩ := Fallible.bind_eq_ok h
      injection h with h
      rw [hspec, ← h]
      exact ⟨target, hfind, Fallible.mapError_eq_ok hreplace, rfl, rfl⟩

theorem applyReplace_under {equivalent : String → String → Bool} {more : List Image}
    {spec : String} {p p' p₁ p₁' : Program} (hfiles : OtherFiles equivalent p.images more)
    (h : applyReplace equivalent p spec = .ok p₁) (h' : applyReplace equivalent p' spec = .ok p₁')
    (hu : Under more p p') : Under more p₁ p₁' := by
  obtain ⟨target, hfind, hreplace, himages, -⟩ := applyReplace_ok h
  obtain ⟨target', hfind', hreplace', himages', -⟩ := applyReplace_ok h'
  have htarget := List.find?_some hfind
  have hmem := List.mem_reverse.mp (List.mem_of_find?_eq_some hfind)
  -- behind the guest images there is no other file of that path
  have hnone : more.reverse.find? (fun image =>
      equivalent (String.ofList (spec.toList.span (· ≠ '=')).2.tail) image.path) = none := by
    rw [List.find?_eq_none]
    intro image himage
    rw [hfiles _ target hmem htarget image (List.mem_reverse.mp himage)]
    exact Bool.false_ne_true
  rw [hu.images, List.reverse_append, List.find?_append, hnone, Option.none_or, hfind,
    Option.some_inj] at hfind'
  rw [← hfind'] at hreplace'
  exact ⟨by rw [himages, himages', hu.images], hu.exports.replace hreplace hreplace'⟩

/-- A bridge image among those of the program exports the symbol. -/
def Bridged (isBridge : String → Bool) (p : Program) (symbol : String) : Prop :=
  ∃ image ∈ p.images, isBridge image.path = true ∧ symbol ∈ image.exports

/-- Registering puts every image in front of `Find`, the bridges among them as bridges. -/
theorem foldlM_register {isBridge : String → Bool} {images : List Image} {p p₁ : Program}
    (h : images.foldlM (register isBridge) p = .ok p₁) :
    p₁.exports.images = p.exports.images ++ images ∧
      p₁.exports.bridges = p.exports.bridges ++ images.filter (fun image => isBridge image.path) ∧
      p₁.images = p.images ∧ p₁.ok = p.ok := by
  induction images generalizing p with
  | nil =>
      injection h with h
      simp [h]
  | cons image rest ih =>
      rw [List.foldlM_cons] at h
      obtain ⟨p₂, hone, hrest⟩ := Fallible.bind_eq_ok h
      obtain ⟨hadd, hsame, hok⟩ := register_exports hone
      obtain ⟨himages, hbridges, -, -⟩ := GuestExports.add_ok hadd
      obtain ⟨himages', hbridges', hsame', hok'⟩ := ih hrest
      refine ⟨by simp [himages', himages], ?_, by rw [hsame', hsame], by rw [hok', hok]⟩
      rw [hbridges', hbridges]
      cases hb : isBridge image.path with
      | true => simp [hb]
      | false => simp [hb]

theorem foldlM_applyReplace {equivalent : String → String → Bool} {replaces : List String}
    {p p₁ : Program} (h : replaces.foldlM (applyReplace equivalent) p = .ok p₁) :
    p₁.exports.images = p.exports.images ∧ p₁.exports.bridges = p.exports.bridges ∧
      p₁.images = p.images ∧ p₁.ok = p.ok := by
  apply Fallible.foldlM_invariant (P := fun p₁ => p₁.exports.images = p.exports.images ∧
    p₁.exports.bridges = p.exports.bridges ∧ p₁.images = p.images ∧ p₁.ok = p.ok) ?_ h
  · exact ⟨rfl, rfl, rfl, rfl⟩
  · intro p₂ spec p₃ hstep hsame
    obtain ⟨target, -, hreplace, himages, hok⟩ := applyReplace_ok hstep
    rw [himages, hok, GuestExports.replace_ok hreplace]
    exact hsame

/-! ### The stubs, one after the other -/

/-- The call stubs of all images, in the order in which they are resolved. -/
def allStubs (images : List Image) : List (Image × UInt64 × Stub) :=
  images.flatMap fun image => image.stubs.toList.map fun entry => (image, entry)

theorem mem_allStubs {images : List Image} {image : Image} {entry : UInt64 × Stub} :
    (image, entry) ∈ allStubs images ↔ image ∈ images ∧ entry ∈ image.stubs.toList := by
  simp only [allStubs, List.mem_flatMap, List.mem_map, Prod.mk.injEq]
  constructor
  · rintro ⟨image', himage, entry', hentry, rfl, rfl⟩
    exact ⟨himage, hentry⟩
  · rintro ⟨himage, hentry⟩
    exact ⟨image, himage, entry, hentry, rfl, rfl⟩

theorem resolveImages_eq (strict : Bool) (images : List Image) (p : Program) :
    images.foldl (resolveImage strict) p
      = (allStubs images).foldl (fun p e => resolveStub strict e.1 p e.2) p := by
  rw [allStubs, List.foldl_flatMap]
  simp only [List.foldl_map]
  rfl

theorem exports_resolveStub (strict : Bool) (image : Image) (p : Program) (entry : UInt64 × Stub) :
    (resolveStub strict image p entry).exports = p.exports := by
  unfold resolveStub
  simp only
  split
  case h_1 => rfl
  case h_2 => split_ifs <;> rfl

theorem exports_resolveStubs (strict : Bool) (stubs : List (Image × UInt64 × Stub)) (p : Program) :
    (stubs.foldl (fun p e => resolveStub strict e.1 p e.2) p).exports = p.exports := by
  induction stubs generalizing p with
  | nil => rfl
  | cons e rest ih => rw [List.foldl_cons, ih, exports_resolveStub]

/-- The stub is answered, or is one that `LayoutAndResolve` accepts without an answer. -/
def Settled (e : GuestExports) (stub : Stub) : Prop :=
  (e.find stub.library stub.symbol).isSome ∨ isTrap stub.symbol = true ∨ stub.weak = true

theorem ok_resolveStub {strict : Bool} {image : Image} {p : Program} {entry : UInt64 × Stub}
    (hok : p.ok = true) (hs : Settled p.exports entry.2) :
    (resolveStub strict image p entry).ok = true := by
  unfold resolveStub
  simp only
  split
  case h_1 => exact hok
  case h_2 hnone =>
    rcases hs with hs | htrap | hweak
    · simp [hnone] at hs
    · rw [if_pos htrap]
      exact hok
    · split_ifs <;> exact hok

theorem ok_resolveStubs {strict : Bool} {stubs : List (Image × UInt64 × Stub)} {p : Program}
    (hok : p.ok = true) (hs : ∀ e ∈ stubs, Settled p.exports e.2.2) :
    (stubs.foldl (fun p e => resolveStub strict e.1 p e.2) p).ok = true := by
  induction stubs generalizing p with
  | nil => exact hok
  | cons e rest ih =>
      apply ih (ok_resolveStub hok (hs e List.mem_cons_self))
      rw [exports_resolveStub]
      exact fun e' he' => hs e' (List.mem_cons_of_mem e he')

/-- A guest stub stays one while the others are resolved. -/
theorem mem_stubToGuest_resolveStub {strict : Bool} {image : Image} {p : Program}
    {entry : UInt64 × Stub} {a : UInt64} (ha : a ∈ p.stubToGuest) :
    a ∈ (resolveStub strict image p entry).stubToGuest := by
  rcases resolveStub_cases strict image p entry with ⟨target, hg, -⟩ | ⟨name, hg, -⟩ | ⟨hg, -⟩
  · rw [hg, ExtTreeMap.mem_insert]
    exact .inr ha
  · rwa [hg]
  · rwa [hg]

theorem mem_stubToGuest_resolveStubs {strict : Bool} {stubs : List (Image × UInt64 × Stub)}
    {p : Program} {a : UInt64} (ha : a ∈ p.stubToGuest ∨ ∃ e ∈ stubs, e.1.host e.2.1 = a ∧
      (p.exports.find e.2.2.library e.2.2.symbol).isSome) :
    a ∈ (stubs.foldl (fun p e => resolveStub strict e.1 p e.2) p).stubToGuest := by
  induction stubs generalizing p with
  | nil => simpa using ha
  | cons e rest ih =>
      apply ih
      rw [exports_resolveStub]
      rcases ha with ha | ⟨e', he', hhost, hfind⟩
      · exact .inl (mem_stubToGuest_resolveStub ha)
      · rcases List.mem_cons.mp he' with rfl | hrest
        · obtain ⟨target, htarget⟩ := Option.isSome_iff_exists.mp hfind
          left
          simp [resolveStub, htarget, hhost]
        · exact .inr ⟨e', hrest, hhost, hfind⟩

/-! ### What the second pass resolves -/

section

variable {base : UInt64} {guests more : List Image} {isBridge isBridge' : String → Bool}
  {equivalent : String → String → Bool} {replaces : List String} {strict : Bool} {p p' : Program}

/-- What `LayoutAndResolve` leaves of the registered images and of the stubs. -/
theorem layoutAndResolve_exports
    (h : layoutAndResolve base guests isBridge equivalent replaces strict = .ok p) :
    (∀ symbol, Bridged isBridge p symbol →
      ∀ library, (p.exports.find library symbol).isSome) ∧
    (∀ image ∈ p.images, ∀ entry ∈ image.stubs.toList,
      (p.exports.find entry.2.library entry.2.symbol).isSome →
        image.host entry.1 ∈ p.stubToGuest) ∧
    ((∀ image ∈ p.images, ∀ entry ∈ image.stubs.toList, Settled p.exports entry.2) →
      p.ok = true) := by
  obtain ⟨p₁, h₁, h⟩ := Fallible.bind_eq_ok h
  obtain ⟨p₂, h₂, h⟩ := Fallible.bind_eq_ok h
  injection h with h
  obtain ⟨himages₁, hbridges₁, hplaced₁, hok₁⟩ := foldlM_register h₁
  obtain ⟨himages₂, hbridges₂, hplaced₂, hok₂⟩ := foldlM_applyReplace h₂
  have hplaced : p₂.images = placeImages base guests := hplaced₂.trans hplaced₁
  have himages : p.images = placeImages base guests := by
    rw [← h, images_foldl_resolveImage, hplaced]
  rw [resolveImages_eq] at h
  have hexports : p.exports = p₂.exports := by
    rw [← h]
    apply exports_resolveStubs
  refine ⟨fun symbol hbridged library => ?_, fun image himage entry hentry hfind => ?_,
    fun hsettled => ?_⟩
  · obtain ⟨image, himage, hbridge, hsymbol⟩ := hbridged
    rw [himages] at himage
    rw [hexports]
    have hbridges : image ∈ p₂.exports.bridges := by
      rw [hbridges₂, hbridges₁]
      exact List.mem_append_right _ (List.mem_filter.mpr ⟨himage, hbridge⟩)
    have hmem : image ∈ p₂.exports.images := by
      rw [himages₂, himages₁]
      exact List.mem_append_right _ himage
    exact GuestExports.find_of_bridge hbridges hmem hsymbol
  · rw [← h]
    apply mem_stubToGuest_resolveStubs
    rw [himages] at himage
    rw [hexports] at hfind
    exact .inr ⟨(image, entry), mem_allStubs.mpr ⟨himage, hentry⟩, rfl, hfind⟩
  · rw [← h]
    apply ok_resolveStubs
    · rw [hok₂, hok₁]
    · rintro ⟨image, entry⟩ he
      obtain ⟨himage, hentry⟩ := mem_allStubs.mp he
      rw [← himages] at himage
      rw [← hexports]
      exact hsettled image himage entry hentry

/-- The second pass knows what the first one knew. -/
theorem passes_under (h : layoutAndResolve base guests isBridge equivalent replaces strict = .ok p)
    {strict' : Bool}
    (h' : layoutAndResolve base (guests ++ more) isBridge' equivalent replaces strict' = .ok p')
    (hbridge : ∀ path, isBridge path = true → isBridge' path = true)
    (hfiles : OtherFiles equivalent guests more) : ∃ placed, Under placed p p' := by
  obtain ⟨cursor', hplaced⟩ := placeImages_append base guests more
  have hfiles' : OtherFiles equivalent (placeImages base guests) (placeImages cursor' more) := by
    intro path guest hguest heq image himage
    obtain ⟨guest', hguest', hpath'⟩ := mem_placeImages_path hguest
    obtain ⟨image', himage', hpath⟩ := mem_placeImages_path himage
    rw [← hpath]
    exact hfiles path guest' hguest' (by rwa [hpath']) image' himage'
  refine ⟨placeImages cursor' more, ?_⟩
  obtain ⟨p₁, h₁, h⟩ := Fallible.bind_eq_ok h
  obtain ⟨p₂, h₂, h⟩ := Fallible.bind_eq_ok h
  injection h with h
  obtain ⟨q₁, g₁, h'⟩ := Fallible.bind_eq_ok h'
  obtain ⟨q₂, g₂, h'⟩ := Fallible.bind_eq_ok h'
  injection h' with h'
  rw [hplaced, List.foldlM_append] at g₁
  obtain ⟨q₀, g₀, g₁⟩ := Fallible.bind_eq_ok g₁
  -- the guest images in both passes, then the later images in the second alone
  have hstart : Under (placeImages cursor' more) { images := placeImages base guests }
      { images := placeImages base guests ++ placeImages cursor' more } :=
    ⟨rfl, List.Subset.refl _, List.Subset.refl _, fun _ _ hfound => hfound, rfl⟩
  have hguests : Under (placeImages cursor' more) p₁ q₀ := by
    apply Fallible.foldlM_relation (R := Under (placeImages cursor' more)) ?_ h₁ g₀ hstart
    intro image _ s t s' t' hs ht
    exact register_under hbridge hs ht
  have hmore : Under (placeImages cursor' more) p₁ q₁ := by
    apply Fallible.foldlM_invariant (P := Under (placeImages cursor' more) p₁) ?_ g₁ hguests
    intro t image t' ht
    exact register_under_right ht
  have himages : p₁.images = placeImages base guests := (foldlM_register h₁).2.2.1
  have hreplaces : Under (placeImages cursor' more) p₂ q₂ ∧
      p₂.images = placeImages base guests := by
    apply Fallible.foldlM_relation (R := fun s t => Under (placeImages cursor' more) s t ∧
      s.images = placeImages base guests) ?_ h₂ g₂ ⟨hmore, himages⟩
    rintro spec - s t s' t' hs ht ⟨hu, hsame⟩
    refine ⟨applyReplace_under (hsame ▸ hfiles') hs ht hu, ?_⟩
    obtain ⟨target, -, -, hkept, -⟩ := applyReplace_ok hs
    rw [hkept, hsame]
  have hexports := hreplaces.1.exports
  refine ⟨?_, ?_⟩
  · rw [← h, ← h', images_foldl_resolveImage, images_foldl_resolveImage, hreplaces.1.images]
  · rw [← h, ← h', resolveImages_eq, resolveImages_eq, exports_resolveStubs, exports_resolveStubs]
    exact hexports

/-- What the list or a bridge knows is answered in the second pass. -/
theorem answered_of_known
    (h : layoutAndResolve base guests isBridge equivalent replaces false = .ok p)
    (h' : layoutAndResolve base (guests ++ more) isBridge' equivalent replaces true = .ok p')
    (hbridge : ∀ path, isBridge path = true → isBridge' path = true)
    (hfiles : OtherFiles equivalent guests more) {image : Image} (himage : image ∈ p.images)
    {i : Import} (hi : i ∈ image.imports)
    (hknown : i.name ∈ p.resolved ∨ Bridged isBridge' p' i.symbol) :
    (p'.exports.find i.library i.symbol).isSome := by
  obtain ⟨placed, hunder⟩ := passes_under h h' hbridge hfiles
  obtain ⟨hbridged, -, -⟩ := layoutAndResolve_exports h'
  rcases hknown with hresolved | hknown
  · exact hunder.exports.find ((mem_resolved.mp hresolved).2 image himage i hi rfl)
  · exact hbridged i.symbol hknown i.library

theorem stub_answered_of_known
    (h : layoutAndResolve base guests isBridge equivalent replaces false = .ok p)
    (h' : layoutAndResolve base (guests ++ more) isBridge' equivalent replaces true = .ok p')
    (hbridge : ∀ path, isBridge path = true → isBridge' path = true)
    (hfiles : OtherFiles equivalent guests more) {image : Image} (himage : image ∈ p.images)
    {entry : UInt64 × Stub} (hentry : entry ∈ image.stubs.toList)
    (hknown : entry.2.symbol ∈ p.resolved ∨ Bridged isBridge' p' entry.2.symbol) :
    (p'.exports.find entry.2.library entry.2.symbol).isSome := by
  have himport : ⟨entry.2.symbol, entry.2.library, entry.2.symbol⟩ ∈ image.imports := by
    simp only [Image.imports, List.append_assoc, List.mem_append, List.mem_map]
    exact .inl ⟨entry, hentry, rfl⟩
  exact answered_of_known h h' hbridge hfiles himage himport hknown

/-- A call of a guest image that the list or a bridge knows is a guest stub in the second pass. -/
theorem stubToGuest_of_known
    (h : layoutAndResolve base guests isBridge equivalent replaces false = .ok p)
    (h' : layoutAndResolve base (guests ++ more) isBridge' equivalent replaces true = .ok p')
    (hbridge : ∀ path, isBridge path = true → isBridge' path = true)
    (hfiles : OtherFiles equivalent guests more) {image : Image} (himage : image ∈ p.images)
    {entry : UInt64 × Stub} (hentry : entry ∈ image.stubs.toList)
    (hknown : entry.2.symbol ∈ p.resolved ∨ Bridged isBridge' p' entry.2.symbol) :
    image ∈ p'.images ∧ image.host entry.1 ∈ p'.stubToGuest := by
  obtain ⟨placed, hunder⟩ := passes_under h h' hbridge hfiles
  obtain ⟨-, hstubs, -⟩ := layoutAndResolve_exports h'
  have hmem : image ∈ p'.images := by
    rw [hunder.images]
    exact List.mem_append_left _ himage
  exact ⟨hmem, hstubs image hmem entry hentry
    (stub_answered_of_known h h' hbridge hfiles himage hentry hknown)⟩

/-- The strict pass succeeds where the list or a bridge knows every strong call. -/
theorem ok_of_known
    (h : layoutAndResolve base guests isBridge equivalent replaces false = .ok p)
    (h' : layoutAndResolve base (guests ++ more) isBridge' equivalent replaces true = .ok p')
    (hbridge : ∀ path, isBridge path = true → isBridge' path = true)
    (hfiles : OtherFiles equivalent guests more)
    (hall : ∀ image ∈ p'.images, ∀ entry ∈ image.stubs.toList, entry.2.weak = false →
      isTrap entry.2.symbol = false →
        image ∈ p.images ∧ entry.2.symbol ∈ p.resolved ∨ Bridged isBridge' p' entry.2.symbol) :
    p'.ok = true := by
  obtain ⟨hbridged, -, hok⟩ := layoutAndResolve_exports h'
  apply hok
  intro image himage entry hentry
  cases hweak : entry.2.weak with
  | true => exact .inr (.inr hweak)
  | false =>
      cases htrap : isTrap entry.2.symbol with
      | true => exact .inr (.inl htrap)
      | false =>
          left
          rcases hall image himage entry hentry hweak htrap with ⟨hguest, hresolved⟩ | hknown
          · exact stub_answered_of_known h h' hbridge hfiles hguest hentry (.inl hresolved)
          · exact hbridged _ hknown _

/-- **The bridges that the list leaves out are not missed.** Every import of a guest image whose
name is on the list, or is one that a bridge exports, is answered in the second pass; its call stubs
are guest stubs there; and when that is so of every stub that is neither weak nor a trap, the strict
pass succeeds. -/
theorem second_pass_resolves
    (h : layoutAndResolve base guests isBridge equivalent replaces false = .ok p)
    (h' : layoutAndResolve base (guests ++ more) isBridge' equivalent replaces true = .ok p')
    (hbridge : ∀ path, isBridge path = true → isBridge' path = true)
    (hfiles : OtherFiles equivalent guests more) :
    (∀ image ∈ p.images, ∀ i ∈ image.imports, i.name ∈ p.resolved ∨ Bridged isBridge' p' i.symbol →
      (p'.exports.find i.library i.symbol).isSome) ∧
    (∀ image ∈ p.images, ∀ entry ∈ image.stubs.toList,
      entry.2.symbol ∈ p.resolved ∨ Bridged isBridge' p' entry.2.symbol →
        image ∈ p'.images ∧ image.host entry.1 ∈ p'.stubToGuest) ∧
    ((∀ image ∈ p'.images, ∀ entry ∈ image.stubs.toList, entry.2.weak = false →
        isTrap entry.2.symbol = false →
          image ∈ p.images ∧ entry.2.symbol ∈ p.resolved ∨ Bridged isBridge' p' entry.2.symbol) →
      p'.ok = true) := by
  refine ⟨?_, ?_, ok_of_known h h' hbridge hfiles⟩
  · intro image himage i hi hknown
    exact answered_of_known h h' hbridge hfiles himage hi hknown
  · intro image himage entry hentry hknown
    exact stubToGuest_of_known h h' hbridge hfiles himage hentry hknown

end

/-! ### A guest image and its bridge library -/

/-- An image that calls its own `_main` and the host's `_puts`. -/
def putsCaller : Image :=
  { path := "app"
    installName := "@rpath/app"
    segments := [{ name := "__TEXT", vmaddr := 0x4000, vmsize := 0x1000 }]
    functions := [0x4000]
    stubs := (ExtTreeMap.empty.insert 0x4100 { symbol := "_main", library := "@rpath/app" }).insert
      0x410C { symbol := "_puts", library := "libSystem" }
    exports := ExtTreeMap.empty.insert "_main" 0x4000 }

/-- Its bridge library, which leaves for the host through a trap. -/
def putsBridge : Image :=
  { path := "libxl-guest.dylib"
    installName := "@rpath/libxl-guest.dylib"
    segments := [{ name := "__TEXT", vmaddr := 0x8000, vmsize := 0x1000 }]
    functions := [0x8000]
    stubs := ExtTreeMap.empty.insert 0x8100 { symbol := "_xl_trap_puts" }
    exports := ExtTreeMap.empty.insert "_puts" 0x8000 }

def putsFirst : Program :=
  { images := [putsCaller.slidTo 0x10000000]
    exports := { images := [putsCaller.slidTo 0x10000000]
                 byName := ExtTreeMap.empty.insert "@rpath/app" (putsCaller.slidTo 0x10000000) }
    stubToGuest := ExtTreeMap.empty.insert 0x10000100 0x10000000
    functions := ExtTreeMap.empty.insert 0x10000000 () }

def putsSecond : Program :=
  { images := [putsCaller.slidTo 0x10000000, putsBridge.slidTo 0x10100000]
    exports := { images := [putsCaller.slidTo 0x10000000, putsBridge.slidTo 0x10100000]
                 bridges := [putsBridge.slidTo 0x10100000]
                 byName := (ExtTreeMap.empty.insert "@rpath/app"
                    (putsCaller.slidTo 0x10000000)).insert "@rpath/libxl-guest.dylib"
                      (putsBridge.slidTo 0x10100000) }
    stubToGuest := (ExtTreeMap.empty.insert 0x10000100 0x10000000).insert 0x1000010C 0x10100000
    stubToHost := ExtTreeMap.empty.insert 0x10100100 "xl_h_puts"
    functions := (ExtTreeMap.empty.insert 0x10000000 ()).insert 0x10100000 () }

theorem putsFirst_resolved :
    layoutAndResolve 0x10000000 [putsCaller] (fun _ => false) (fun a b => a == b) [] false
      = .ok putsFirst := rfl

theorem putsSecond_resolved :
    layoutAndResolve 0x10000000 ([putsCaller] ++ [putsBridge]) (fun path => path == putsBridge.path)
      (fun a b => a == b) [] true = .ok putsSecond := rfl

/-- `_main` is on the list and `_puts` is not; with the bridge behind it, both stubs are guest
stubs, and the strict pass succeeds. -/
theorem second_pass_resolves_puts :
    putsFirst.resolved = ["_main"] ∧
      (putsCaller.slidTo 0x10000000).host 0x410C ∈ putsSecond.stubToGuest := by
  have hstubs := (second_pass_resolves putsFirst_resolved putsSecond_resolved
    (fun _ h => absurd h Bool.false_ne_true) (by
      intro path guest hguest heq image himage
      rw [List.mem_singleton.mp hguest, beq_iff_eq] at heq
      rw [List.mem_singleton.mp himage, heq]
      decide)).2.1
  refine ⟨by rfl, ?_⟩
  refine (hstubs (putsCaller.slidTo 0x10000000) List.mem_cons_self
    (0x410C, { symbol := "_puts", library := "libSystem" }) ?_ (.inr ?_)).2
  · rw [ExtTreeMap.mem_toList_iff_getElem?_eq_some]
    rfl
  · exact ⟨putsBridge.slidTo 0x10100000, by simp [putsSecond], rfl, by
      rw [ExtTreeMap.mem_iff_isSome_getElem?]
      rfl⟩

end Program

end Katabasis
