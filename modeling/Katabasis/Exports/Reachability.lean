import Katabasis.Exports.GuestExports
import Katabasis.Lib.BoundedSearch

set_option autoImplicit false

/-! # `Find` is bounded reachability

The images that a library names, and the two ways in which an image sends a symbol on, are a
relation on the images alone (`Offers`, `Reexports`), which does not know in what order they were
added. For a bind that names a library, `Find` is the depth-bounded search
(`Lib/BoundedSearch.lean`) over that relation: it answers exactly what chains of at most
`kMaxReexportDepth` re-exports reach.
-/

namespace Katabasis

open Std

/-! ## The relation -/

/-- The guest images and the `--replaces` entries that are accepted: no two images have one
install name, and each library is replaced once and is no image's install name. -/
structure Accepted (guests : List Image) (replaces : List (String × Image)) : Prop where
  names : guests.Pairwise fun a b => a.installName ≠ "" → b.installName ≠ a.installName
  libraries : replaces.Pairwise fun a b => b.1 ≠ a.1
  apart : ∀ r ∈ replaces, r.1 ≠ "" ∧ ∀ image ∈ guests, image.installName ≠ r.1

/-- The images offer this one for the library: a `--replaces` entry, or the install name. -/
def Offers (guests : List Image) (replaces : List (String × Image)) (library : String)
    (image : Image) : Prop :=
  library ≠ "" ∧ ((library, image) ∈ replaces ∨ image ∈ guests ∧ image.installName = library)

/-- From an image and a symbol, that many re-exports lead to an image and a symbol. A
per-symbol re-export renames the symbol; a whole-library one keeps it. -/
inductive Reexports (names : String → Image → Prop) :
    Nat → Image → String → Image → String → Prop
  | here (image : Image) (symbol : String) : Reexports names 0 image symbol image symbol
  | symbol {n : Nat} {image next last : Image} {symbol final : String} {sent : Reexport}
      (hsent : image.reexports[symbol]? = some sent) (hnext : names sent.library next)
      (h : Reexports names n next sent.symbol last final) :
      Reexports names (n + 1) image symbol last final
  | whole {n : Nat} {image next last : Image} {symbol final library : String}
      (hlibrary : library ∈ image.reexportedLibraries) (hnext : names library next)
      (h : Reexports names n next symbol last final) :
      Reexports names (n + 1) image symbol last final

/-- Every per-symbol re-export names a library. -/
def Image.ReexportsNamed (image : Image) : Prop :=
  ∀ (symbol : String) (sent : Reexport),
    image.reexports[symbol]? = some sent → sent.library ≠ ""

namespace GuestExports

/-! ## Registering accepted images -/

/-- An image of a free install name is added, and answers to it. -/
theorem add_free {guest : Image} {e : GuestExports}
    (hfree : guest.installName ≠ "" → e.byName[guest.installName]? = none) :
    ∃ e', e.add guest false = .ok e' ∧ e'.bridges = e.bridges ∧ e'.replaced = e.replaced ∧
      ∀ name image, e'.byName[name]? = some image ↔
        e.byName[name]? = some image ∨ name ≠ "" ∧ image = guest ∧ guest.installName = name := by
  have hadd : ∃ e', e.add guest false = .ok e' := by
    unfold add
    by_cases hname : guest.installName = ""
    · exact ⟨_, by rw [if_neg (not_not.mpr hname)]⟩
    · rw [if_pos hname, hfree hname]
      exact ⟨_, rfl⟩
  obtain ⟨e', he'⟩ := hadd
  obtain ⟨-, hbridges, hreplaced, hbyName⟩ := add_ok he'
  refine ⟨e', he', hbridges, hreplaced, fun name image => ?_⟩
  rw [hbyName]
  by_cases hname : guest.installName = ""
  · -- without an install name it answers to nothing
    rw [if_neg (not_not.mpr hname), or_iff_left]
    rintro ⟨hne, -, rfl⟩
    exact hne hname
  · rw [if_pos hname, ExtTreeMap.getElem?_insert]
    by_cases heq : guest.installName = name
    · subst heq
      rw [hfree hname]
      simp [hname, eq_comm]
    · have hcmp : ¬ compare guest.installName name = .eq := by simpa using heq
      rw [if_neg hcmp, or_iff_left fun h => heq h.2.2]

/-- Images of free and distinct install names are added, and answer to these. -/
theorem foldlM_add {guests : List Image} {e : GuestExports}
    (hnames : guests.Pairwise fun a b => a.installName ≠ "" → b.installName ≠ a.installName)
    (hfree : ∀ image ∈ guests, image.installName ≠ "" → e.byName[image.installName]? = none) :
    ∃ e', guests.foldlM (fun e image => e.add image false) e = .ok e' ∧
      e'.bridges = e.bridges ∧ e'.replaced = e.replaced ∧
      ∀ name image, e'.byName[name]? = some image ↔
        e.byName[name]? = some image ∨ name ≠ "" ∧ image ∈ guests ∧ image.installName = name := by
  induction guests generalizing e with
  | nil => exact ⟨e, rfl, rfl, rfl, by simp⟩
  | cons guest rest ih =>
      obtain ⟨hguest, hrest⟩ := List.pairwise_cons.mp hnames
      obtain ⟨e1, he1, hbridges, hreplaced, hbyName⟩ := add_free (hfree guest List.mem_cons_self)
      -- the names of the rest are still free
      have hfree1 : ∀ image ∈ rest, image.installName ≠ "" →
          e1.byName[image.installName]? = none := by
        intro image himage hne
        rw [Option.eq_none_iff_forall_ne_some]
        intro found hfound
        rcases (hbyName _ found).mp hfound with hold | ⟨-, -, heq⟩
        · rw [hfree image (List.mem_cons_of_mem _ himage) hne] at hold
          cases hold
        · exact hguest image himage (heq ▸ hne) heq.symm
      obtain ⟨e', hok, hb, hr, hn⟩ := ih hrest hfree1
      refine ⟨e', ?_, hb.trans hbridges, hr.trans hreplaced, fun name image => ?_⟩
      · rw [List.foldlM_cons, he1]
        exact hok
      · rw [hn, hbyName, or_assoc]
        apply or_congr_right
        constructor
        · rintro (⟨hne, rfl, heq⟩ | ⟨hne, hmem, heq⟩)
          · exact ⟨hne, List.mem_cons_self, heq⟩
          · exact ⟨hne, List.mem_cons_of_mem _ hmem, heq⟩
        · rintro ⟨hne, hmem, heq⟩
          rcases List.mem_cons.mp hmem with rfl | hmem
          · exact .inl ⟨hne, rfl, heq⟩
          · exact .inr ⟨hne, hmem, heq⟩

/-- A free library is replaced. -/
theorem replace_free {r : String × Image} {e : GuestExports} (hname : e.byName[r.1]? = none)
    (hnew : e.replaced[r.1]? = none) :
    ∃ e', e.replace r.1 r.2 = .ok e' ∧ e'.bridges = e.bridges ∧ e'.byName = e.byName ∧
      ∀ library image, e'.replaced[library]? = some image ↔
        e.replaced[library]? = some image ∨ (library, image) = r := by
  refine ⟨{ e with replaced := e.replaced.insert r.1 r.2 }, ?_, rfl, rfl, fun library image => ?_⟩
  · unfold replace
    rw [hname, hnew]
  · show (e.replaced.insert r.1 r.2)[library]? = some image ↔ _
    rw [ExtTreeMap.getElem?_insert]
    by_cases heq : r.1 = library
    · subst heq
      have hself : (r.1, image) = r ↔ r.2 = image := by
        rw [Prod.ext_iff]
        simp [eq_comm]
      rw [hnew, hself]
      simp
    · have hcmp : ¬ compare r.1 library = .eq := by simpa using heq
      have hother : (library, image) ≠ r := fun h => heq (congrArg Prod.fst h).symm
      rw [if_neg hcmp, or_iff_left hother]

theorem foldlM_replace {replaces : List (String × Image)} {e : GuestExports}
    (hlibraries : replaces.Pairwise fun a b => b.1 ≠ a.1)
    (hfree : ∀ r ∈ replaces, e.byName[r.1]? = none ∧ e.replaced[r.1]? = none) :
    ∃ e', replaces.foldlM (fun e entry => e.replace entry.1 entry.2) e = .ok e' ∧
      e'.bridges = e.bridges ∧ e'.byName = e.byName ∧
      ∀ library image, e'.replaced[library]? = some image ↔
        e.replaced[library]? = some image ∨ (library, image) ∈ replaces := by
  induction replaces generalizing e with
  | nil => exact ⟨e, rfl, rfl, rfl, by simp⟩
  | cons r rest ih =>
      obtain ⟨hr, hrest⟩ := List.pairwise_cons.mp hlibraries
      obtain ⟨hname, hnew⟩ := hfree r List.mem_cons_self
      obtain ⟨e1, he1, hbridges, hbyName, hreplaced⟩ := replace_free hname hnew
      -- the libraries of the rest are still free
      have hfree1 : ∀ r' ∈ rest, e1.byName[r'.1]? = none ∧ e1.replaced[r'.1]? = none := by
        intro r' h'
        obtain ⟨h1, h2⟩ := hfree r' (List.mem_cons_of_mem _ h')
        refine ⟨by rw [hbyName, h1], Option.eq_none_iff_forall_ne_some.mpr fun found hfound => ?_⟩
        rcases (hreplaced _ found).mp hfound with hold | heq
        · rw [h2] at hold
          cases hold
        · subst heq
          exact hr r' h' rfl
      obtain ⟨e', hok, hb, hn, hall⟩ := ih hrest hfree1
      refine ⟨e', ?_, hb.trans hbridges, hn.trans hbyName, fun library image => ?_⟩
      · rw [List.foldlM_cons, he1]
        exact hok
      · rw [hall, hreplaced, or_assoc, List.mem_cons]

/-- **Accepted images are registered**, and a library's image is the one that it names. -/
theorem registerGuests_of_accepted {guests : List Image} {replaces : List (String × Image)}
    (h : Accepted guests replaces) :
    ∃ e, registerGuests guests replaces = .ok e ∧ e.bridges = [] ∧
      ∀ library image, e.imageOf library = some image ↔ Offers guests replaces library image := by
  obtain ⟨e1, hadd, hbridges, hreplaced, hbyName⟩ :=
    foldlM_add (e := {}) h.names fun _ _ _ => by simp
  have hfree : ∀ r ∈ replaces, e1.byName[r.1]? = none ∧ e1.replaced[r.1]? = none := by
    intro r hr
    refine ⟨?_, by rw [hreplaced]; simp⟩
    cases hfound : e1.byName[r.1]? with
    | none => rfl
    | some image =>
        rcases (hbyName r.1 image).mp hfound with hold | ⟨-, hmem, heq⟩
        · simp at hold
        · exact absurd heq ((h.apart r hr).2 image hmem)
  obtain ⟨e, hok, hb, hn, hr⟩ := foldlM_replace h.libraries hfree
  refine ⟨e, ?_, hb.trans hbridges, fun library image => ?_⟩
  · show (guests.foldlM _ _ >>= fun e => replaces.foldlM _ e) = _
    rw [hadd]
    exact hok
  · have hreplace : ∀ image, e.replaced[library]? = some image ↔ (library, image) ∈ replaces := by
      intro image
      rw [hr, hreplaced]
      simp
    have hname : ∀ image, e.byName[library]? = some image ↔
        library ≠ "" ∧ image ∈ guests ∧ image.installName = library := by
      intro image
      rw [hn, hbyName]
      simp
    unfold imageOf Offers
    cases hfound : e.replaced[library]? with
    | some replacement =>
        have hmem := (hreplace replacement).mp hfound
        obtain ⟨hne, hapart⟩ := h.apart _ hmem
        constructor
        · intro heq
          cases heq
          exact ⟨hne, .inl hmem⟩
        · rintro ⟨-, hin | ⟨hguest, heq⟩⟩
          · exact hfound.symm.trans ((hreplace image).mpr hin)
          · exact absurd heq (hapart image hguest)
    | none =>
        rw [hname]
        constructor
        · rintro ⟨hne, hguest⟩
          exact ⟨hne, .inr hguest⟩
        · rintro ⟨hne, hin | hguest⟩
          · rw [(hreplace image).mpr hin] at hfound
            cases hfound
          · exact ⟨hne, hguest⟩

/-! ## `Find` as a search -/

/-- What a library's image itself exports. -/
def answer (e : GuestExports) (bind : String × String) : Option UInt64 :=
  (e.imageOf bind.1).bind (·.exported bind.2)

/-- Where a library's image sends a symbol on to, in the order in which `Find` tries it. -/
def successors (e : GuestExports) (bind : String × String) : List (String × String) :=
  match e.imageOf bind.1 with
  | none => []
  | some image =>
      (image.reexports[bind.2]?).toList.map (fun sent => (sent.library, sent.symbol)) ++
        (image.reexportedLibraries.filter fun whole => (e.imageOf whole).isSome).map
          fun whole => (whole, bind.2)

section

variable {e : GuestExports}

theorem findSome?_filter_map (f : String × String → Option UInt64) (keep : String → Bool)
    (symbol : String) (libraries : List String) :
    ((libraries.filter keep).map fun whole => (whole, symbol)).findSome? f
      = libraries.findSome? fun whole => if keep whole then f (whole, symbol) else none := by
  induction libraries with
  | nil => rfl
  | cons whole rest ih =>
      cases hkeep : keep whole with
      | true => simp [hkeep, List.findSome?_cons, ih]
      | false => simp [hkeep, ih]

/-- Without bridges, and where every library looked at has a name, the recursion is the search. -/
theorem findAt_eq_search (hb : e.bridges = [])
    (hnamed : ∀ library image, e.imageOf library = some image →
      library ≠ "" ∧ image.ReexportsNamed) (left : Nat) (library symbol : String)
    (hne : library ≠ "") :
    e.findAt left library symbol
      = BoundedSearch.search e.answer e.successors left (library, symbol) := by
  have hbridged : ∀ symbol, e.bridged symbol = none := fun symbol => by simp [bridged, hb]
  induction left generalizing library symbol with
  | zero =>
      unfold findAt BoundedSearch.search answer
      rw [if_neg hne, hbridged, Option.or_none]
      cases e.imageOf library with
      | none => rfl
      | some image => exact Option.or_none
  | succ left ih =>
      unfold findAt BoundedSearch.search
      rw [if_neg hne, hbridged, Option.or_none]
      cases himage : e.imageOf library with
      | none => simp [answer, successors, himage]
      | some image =>
          have hanswer : e.answer (library, symbol) = image.exported symbol := by
            simp [answer, himage]
          have hsuccessors : e.successors (library, symbol)
              = (image.reexports[symbol]?).toList.map (fun sent => (sent.library, sent.symbol)) ++
                (image.reexportedLibraries.filter fun whole => (e.imageOf whole).isSome).map
                  fun whole => (whole, symbol) := by
            simp [successors, himage]
          rw [hanswer, hsuccessors, List.findSome?_append, findSome?_filter_map]
          dsimp only
          congr 2
          · cases hsent : image.reexports[symbol]? with
            | none => rfl
            | some sent =>
                have hlibrary := (hnamed library image himage).2 symbol sent hsent
                show e.findAt left sent.library sent.symbol = _
                rw [ih sent.library sent.symbol hlibrary]
                simp
          · refine congrArg (List.findSome? · _) (funext fun whole => ?_)
            cases hwhole : e.imageOf whole with
            | none => rfl
            | some next => exact ih whole symbol (hnamed whole next hwhole).1

/-- A walk that ends at an image is a chain of re-exports between images. -/
theorem reexports_of_walk {n : Nat} {bind last : String × String} {lastImage : Image}
    (h : BoundedSearch.Walk e.successors n bind last)
    (hlast : e.imageOf last.1 = some lastImage) :
    ∃ image, e.imageOf bind.1 = some image ∧
      Reexports (fun library image => e.imageOf library = some image) n image bind.2
        lastImage last.2 := by
  induction h with
  | here bind => exact ⟨lastImage, hlast, .here lastImage bind.2⟩
  | @step n bind next last hnext _ ih =>
      obtain ⟨nextImage, hnextImage, hrest⟩ := ih hlast
      unfold successors at hnext
      cases himage : e.imageOf bind.1 with
      | none =>
          rw [himage] at hnext
          cases hnext
      | some image =>
          rw [himage] at hnext
          refine ⟨image, rfl, ?_⟩
          rcases List.mem_append.mp hnext with hsymbol | hwhole
          · obtain ⟨sent, hsent, rfl⟩ := List.mem_map.mp hsymbol
            exact .symbol (Option.mem_toList.mp hsent) hnextImage hrest
          · obtain ⟨whole, hkept, rfl⟩ := List.mem_map.mp hwhole
            exact .whole (List.mem_filter.mp hkept).1 hnextImage hrest

theorem walk_of_reexports {n : Nat} {image lastImage : Image} {symbol final : String}
    (h : Reexports (fun library image => e.imageOf library = some image) n image symbol
      lastImage final) {library : String} (himage : e.imageOf library = some image) :
    ∃ last, BoundedSearch.Walk e.successors n (library, symbol) (last, final) ∧
      e.imageOf last = some lastImage := by
  induction h generalizing library with
  | here image symbol => exact ⟨library, .here _, himage⟩
  | @symbol n image next lastImage symbol final sent hsent hnext _ ih =>
      obtain ⟨last, hwalk, hlast⟩ := ih hnext
      refine ⟨last, .step ?_ hwalk, hlast⟩
      unfold successors
      rw [himage]
      refine List.mem_append_left _ (List.mem_map.mpr ⟨sent, ?_, rfl⟩)
      exact Option.mem_toList.mpr hsent
  | @whole n image next lastImage symbol final whole hwhole hnext _ ih =>
      obtain ⟨last, hwalk, hlast⟩ := ih hnext
      refine ⟨last, .step ?_ hwalk, hlast⟩
      unfold successors
      rw [himage]
      refine List.mem_append_right _ (List.mem_map.mpr ⟨whole, ?_, rfl⟩)
      exact List.mem_filter.mpr ⟨hwhole, by rw [hnext]; rfl⟩

end

end GuestExports

/-! ## What is found -/

/-- From the image the library names, at most `kMaxReexportDepth` re-exports lead to an image
that exports what the symbol has become at this address. -/
def Reachable (guests : List Image) (replaces : List (String × Image)) (library symbol : String)
    (address : UInt64) : Prop :=
  ∃ n first last final, n ≤ kMaxReexportDepth ∧ Offers guests replaces library first ∧
    Reexports (Offers guests replaces) n first symbol last final ∧
    last.exported final = some address

theorem Accepted.perm {guests guests' : List Image} {replaces replaces' : List (String × Image)}
    (h : Accepted guests replaces) (hg : guests'.Perm guests) (hr : replaces'.Perm replaces) :
    Accepted guests' replaces' where
  names := by
    refine (hg.pairwise_iff fun {a b} hab hne heq => ?_).mpr h.names
    exact hab (by rw [heq]; exact hne) heq.symm
  libraries := (hr.pairwise_iff fun hab => hab.symm).mpr h.libraries
  apart := fun r hmem => by
    obtain ⟨hne, hapart⟩ := h.apart r (hr.subset hmem)
    exact ⟨hne, fun image himage => hapart image (hg.subset himage)⟩

/-- **`Find` is bounded reachability.** Accepted images are registered in any order, and a bind
that names a library is answered exactly when a chain of at most `kMaxReexportDepth` re-exports
leads to an export, with such an export, and the same in every order. -/
theorem find_iff_reachable {guests : List Image} {replaces : List (String × Image)}
    (h : Accepted guests replaces)
    (hsent : ∀ image ∈ guests ++ replaces.map Prod.snd, image.ReexportsNamed) :
    ∃ e, GuestExports.registerGuests guests replaces = .ok e ∧
      (∀ library symbol, library ≠ "" →
        ((∃ address, e.find library symbol = some address) ↔
          ∃ address, Reachable guests replaces library symbol address) ∧
        ∀ address, e.find library symbol = some address →
          Reachable guests replaces library symbol address) ∧
      ∀ guests' replaces', guests'.Perm guests → replaces'.Perm replaces →
        ∃ e', GuestExports.registerGuests guests' replaces' = .ok e' ∧
          ∀ library symbol, library ≠ "" → e'.find library symbol = e.find library symbol := by
  obtain ⟨e, hok, hb, hnames⟩ := GuestExports.registerGuests_of_accepted h
  have hrelation : (fun library image => e.imageOf library = some image)
      = Offers guests replaces := by
    funext library image
    exact propext (hnames library image)
  have hnamed : ∀ library image, e.imageOf library = some image →
      library ≠ "" ∧ image.ReexportsNamed := by
    intro library image himage
    obtain ⟨hne, hmem | ⟨hmem, -⟩⟩ := (hnames library image).mp himage
    · exact ⟨hne, hsent image (List.mem_append_right _ (List.mem_map_of_mem hmem))⟩
    · exact ⟨hne, hsent image (List.mem_append_left _ hmem)⟩
  have hfound : ∀ library symbol, library ≠ "" → ∀ address,
      e.find library symbol = some address →
      Reachable guests replaces library symbol address := by
    intro library symbol hne address hfind
    unfold GuestExports.find at hfind
    rw [GuestExports.findAt_eq_search hb hnamed _ _ _ hne] at hfind
    obtain ⟨n, last, hn, hwalk, hanswer⟩ := BoundedSearch.walk_of_search hfind
    obtain ⟨lastImage, hlast, hexported⟩ := Option.bind_eq_some_iff.mp hanswer
    obtain ⟨first, hfirst, hchain⟩ := GuestExports.reexports_of_walk hwalk hlast
    rw [hrelation] at hchain
    exact ⟨n, first, lastImage, last.2, hn, (hnames library first).mp hfirst, hchain, hexported⟩
  refine ⟨e, hok, fun library symbol hne => ⟨⟨?_, ?_⟩, hfound library symbol hne⟩, ?_⟩
  · rintro ⟨address, hfind⟩
    exact ⟨address, hfound library symbol hne address hfind⟩
  · rintro ⟨address, n, first, lastImage, final, hn, hfirst, hchain, hexported⟩
    rw [← hrelation] at hchain
    obtain ⟨last, hwalk, hlast⟩ :=
      GuestExports.walk_of_reexports hchain ((hnames library first).mpr hfirst)
    have hanswer : (e.answer (last, final)).isSome := by
      rw [GuestExports.answer, hlast, Option.bind_some, hexported]
      rfl
    have hsome := BoundedSearch.search_of_walk hn hwalk hanswer
    rw [← GuestExports.findAt_eq_search hb hnamed _ _ _ hne] at hsome
    exact Option.isSome_iff_exists.mp hsome
  · intro guests' replaces' hg hr
    obtain ⟨e', hok', hb', hnames'⟩ :=
      GuestExports.registerGuests_of_accepted (h.perm hg hr)
    have himageOf : e'.imageOf = e.imageOf := by
      funext library
      refine Option.ext fun image => ?_
      rw [hnames, hnames', Offers, Offers, hg.mem_iff, hr.mem_iff]
    refine ⟨e', hok', fun library symbol hne => ?_⟩
    have hnamed' := hnamed
    rw [← himageOf] at hnamed'
    unfold GuestExports.find
    rw [GuestExports.findAt_eq_search hb hnamed _ _ _ hne,
      GuestExports.findAt_eq_search hb' hnamed' _ _ _ hne]
    unfold GuestExports.answer GuestExports.successors
    rw [himageOf]

/-- Two images that re-export each other, one of which has the symbol. -/
def cyclicGuests : List Image :=
  [{ installName := "@rpath/liba.dylib", reexportedLibraries := ["@rpath/libb.dylib"] },
    { installName := "@rpath/libb.dylib", reexportedLibraries := ["@rpath/liba.dylib"],
      exports := (∅ : ExtTreeMap String UInt64).insert "_f" 4096 }]

theorem accepted_cyclicGuests : Accepted cyclicGuests [] where
  names := by simp [cyclicGuests]
  libraries := List.Pairwise.nil
  apart := by simp

theorem find_iff_reachable_cyclic :
    ∃ e, GuestExports.registerGuests cyclicGuests [] = .ok e ∧
      (∀ library symbol, library ≠ "" →
        ((∃ address, e.find library symbol = some address) ↔
          ∃ address, Reachable cyclicGuests [] library symbol address) ∧
        ∀ address, e.find library symbol = some address →
          Reachable cyclicGuests [] library symbol address) ∧
      ∀ guests' replaces', guests'.Perm cyclicGuests → replaces'.Perm [] →
        ∃ e', GuestExports.registerGuests guests' replaces' = .ok e' ∧
          ∀ library symbol, library ≠ "" → e'.find library symbol = e.find library symbol :=
  find_iff_reachable accepted_cyclicGuests (by simp [cyclicGuests, Image.ReexportsNamed])

end Katabasis
