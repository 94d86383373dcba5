import Katabasis.Exports.GuestExports
import Katabasis.Lib.FirstAnswer

set_option autoImplicit false

/-! # Bridge images behind the guest images

A bridge image stands for the host's libraries: a bind that no library image answers may
take its export. This file compares `Find` before and after bridge images are registered.

The walk of `Find` over the guest images is written out as the list of its *candidates*, in
the order in which they are tried: the definitions it reaches, and the dead ends, where a
level of the recursion has nothing left but to ask the bridges. `Find` is the first answer
of that list (`findAt_eq_candidates`), with or without bridges, so the general statement of
`Lib/FirstAnswer.lean` says when the bridges change nothing: when no dead end tried *before*
the guest definition asks for a symbol that a bridge exports. The fallback runs at every
level of the recursion, so such dead ends exist as soon as an image re-exports two libraries
and the second one defines the symbol.
-/

namespace Katabasis

open Std

/-- One alternative of the search: an export of a guest image, or a symbol the search gives
up on, at which point the bridges are asked for it. -/
inductive Candidate
  | definition (image : Image) (vmaddr : UInt64)
  | deadEnd (symbol : String)

namespace Candidate

/-- What a candidate answers when these bridge images are registered. -/
def answer (bridges : List Image) : Candidate → Option UInt64
  | definition image vmaddr => some (image.host vmaddr)
  | deadEnd symbol => bridges.findSome? (·.exported symbol)

/-- The candidate is a dead end. -/
def IsDeadEnd : Candidate → Prop
  | definition _ _ => False
  | deadEnd _ => True

theorem isDeadEnd_iff {c : Candidate} : c.IsDeadEnd ↔ c.answer [] = none := by
  cases c <;> simp [IsDeadEnd, answer]

/-- Bridges add answers, they take none away. -/
theorem answer_extends (bridges : List Image) :
    FirstAnswer.Extends (answer []) (answer bridges) := by
  intro c b h
  cases c with
  | definition image vmaddr => exact h
  | deadEnd symbol => simp [answer] at h

end Candidate

namespace GuestExports

/-- The candidates of `findAt` over the guest images, in the order in which they are tried. -/
def candidates (e : GuestExports) : Nat → String → String → List Candidate
  | left, library, symbol =>
      if library = "" then
        e.images.filterMap (fun image => image.exports[symbol]?.map (.definition image)) ++
          [.deadEnd symbol]
      else
        match e.imageOf library with
        | none => [.deadEnd symbol]
        | some image =>
            match image.exports[symbol]? with
            | some vmaddr => [.definition image vmaddr]
            | none =>
                (match left with
                  | 0 => []
                  | left + 1 =>
                      (match image.reexports[symbol]? with
                        | none => []
                        | some sent => e.candidates left sent.library sent.symbol) ++
                        image.reexportedLibraries.flatMap fun whole =>
                          if (e.imageOf whole).isSome then e.candidates left whole symbol else [])
                ++ [.deadEnd symbol]

/-- A library some registered image sends a bind to, by a per-symbol re-export or by
re-exporting it whole. -/
def Names (e : GuestExports) (library : String) : Prop :=
  ∃ (binding : String) (image : Image), e.imageOf binding = some image ∧
    ((∃ (symbol : String) (sent : Reexport), image.reexports[symbol]? = some sent ∧ sent.library = library) ∨
      library ∈ image.reexportedLibraries)

/-- The bridge has no install name, or one that is the library of no bind asked for here, of
no re-export and of no `--replaces` entry. -/
def Unnamed (e : GuestExports) (library : String) (bridge : Image) : Prop :=
  bridge.installName = "" ∨
    (bridge.installName ≠ library ∧ ¬ e.Names bridge.installName ∧
      e.replaced[bridge.installName]? = none)

/-- Two sets of registered images that know the same image for every library in play, the
second with `bridges` registered behind. -/
structure Behind (e e' : GuestExports) (bridges : List Image) : Prop where
  images : e'.images = e.images ++ bridges
  bridges : e'.bridges = bridges
  names : ∀ library, e.Names library → e'.imageOf library = e.imageOf library

theorem findSome?_filterMap_definition (images bridges : List Image) (symbol : String) :
    (images.filterMap fun image =>
        image.exports[symbol]?.map (Candidate.definition image)).findSome?
      (Candidate.answer bridges) = images.findSome? (·.exported symbol) := by
  rw [FirstAnswer.findSome?_filterMap]
  refine FirstAnswer.findSome?_congr fun image _ => ?_
  cases h : image.exports[symbol]? <;> simp [Image.exported, Candidate.answer, h]

/-- **`Find` takes the first candidate that answers.** -/
theorem findAt_eq_candidates {e e' : GuestExports} {bridges : List Image}
    (h : Behind e e' bridges) :
    ∀ (left : Nat) (library symbol : String), e'.imageOf library = e.imageOf library →
      e'.findAt left library symbol
        = (e.candidates left library symbol).findSome? (Candidate.answer bridges) := by
  -- Induction on the steps left; the two recursive edges lead to libraries `Names` knows.
  intro left
  induction left using Nat.strong_induction_on with
  | _ left ih =>
      intro library symbol hl
      unfold findAt candidates
      by_cases hempty : library = ""
      · simp only [hempty, if_true, List.findSome?_append, findSome?_filterMap_definition,
          h.images]
        simp [Candidate.answer]
      · simp only [hempty, if_false, hl, bridged, h.bridges]
        cases himage : e.imageOf library with
        | none => simp [Candidate.answer]
        | some image =>
            cases hx : image.exports[symbol]? with
            | some vmaddr => simp [Image.exported, hx, Candidate.answer]
            | none =>
                have hown : image.exported symbol = none := by simp [Image.exported, hx]
                cases left with
                | zero => simp [hown, hx, Candidate.answer]
                | succ left =>
                    have hsent : ((image.reexports[symbol]?).bind fun sent =>
                          e'.findAt left sent.library sent.symbol)
                        = (match image.reexports[symbol]? with
                            | none => []
                            | some sent => e.candidates left sent.library sent.symbol).findSome?
                          (Candidate.answer bridges) := by
                      cases hs : image.reexports[symbol]? with
                      | none => simp
                      | some sent =>
                          exact ih left (Nat.lt_succ_self _) _ _
                            (h.names _ ⟨library, image, himage, Or.inl ⟨symbol, sent, hs, rfl⟩⟩)
                    have hwhole : (image.reexportedLibraries.findSome? fun whole =>
                          if (e'.imageOf whole).isSome then e'.findAt left whole symbol else none)
                        = (image.reexportedLibraries.flatMap fun whole =>
                            if (e.imageOf whole).isSome then e.candidates left whole symbol
                            else []).findSome? (Candidate.answer bridges) := by
                      rw [FirstAnswer.findSome?_flatMap]
                      refine FirstAnswer.findSome?_congr fun whole hw => ?_
                      have hn := h.names whole ⟨library, image, himage, Or.inr hw⟩
                      rw [hn]
                      split
                      · exact ih left (Nat.lt_succ_self _) _ _ hn
                      · rfl
                    simp only [hown, hx, Option.none_or, List.findSome?_append, hsent, hwhole]
                    simp [Candidate.answer]

theorem behind_self {e : GuestExports} (h : e.bridges = []) : Behind e e [] :=
  ⟨by simp, h, fun _ _ => rfl⟩

/-- What registering bridges leaves alone: the replaced libraries, and the image of every
library that is not the install name of a bridge. -/
theorem registerBridges_ok {bridges : List Image} {e e' : GuestExports}
    (h : e.registerBridges bridges = .ok e') :
    e'.images = e.images ++ bridges ∧ e'.bridges = e.bridges ++ bridges ∧
      e'.replaced = e.replaced ∧
      ∀ name, (∀ b ∈ bridges, b.installName = "" ∨ b.installName ≠ name) →
        e'.byName[name]? = e.byName[name]? := by
  induction bridges generalizing e with
  | nil => injection h with h; simp [← h]
  | cons bridge rest ih =>
      rw [registerBridges, List.foldlM_cons] at h
      obtain ⟨e1, ha, hrest⟩ := Fallible.bind_eq_ok h
      obtain ⟨hi, hb, hr, hn⟩ := ih hrest
      obtain ⟨ai, ab, ar, an⟩ := add_ok ha
      refine ⟨by simp [hi, ai], by simp [hb, ab], by rw [hr, ar], fun name hname => ?_⟩
      rw [hn name fun b hb => hname b (List.mem_cons_of_mem _ hb), an]
      split
      case isTrue hne =>
        have : bridge.installName ≠ name :=
          (hname bridge List.mem_cons_self).resolve_left hne
        simp [ExtTreeMap.getElem?_insert, this]
      case isFalse => rfl

theorem imageOf_registerBridges {bridges : List Image} {e e' : GuestExports}
    (h : e.registerBridges bridges = .ok e') {library : String}
    (hl : ∀ b ∈ bridges, b.installName = "" ∨ b.installName ≠ library) :
    e'.imageOf library = e.imageOf library := by
  obtain ⟨-, -, hr, hn⟩ := registerBridges_ok h
  simp only [imageOf, hr, hn library hl]

theorem behind_registerBridges {bridges : List Image} {e e' : GuestExports} {library : String}
    (h0 : e.bridges = []) (h : e.registerBridges bridges = .ok e')
    (hu : ∀ b ∈ bridges, e.Unnamed library b) : Behind e e' bridges := by
  obtain ⟨hi, hb, -, -⟩ := registerBridges_ok h
  refine ⟨hi, by simpa [h0] using hb, fun name hname => imageOf_registerBridges h fun b hb => ?_⟩
  refine (hu b hb).imp id fun hne => ?_
  rintro rfl
  exact hne.2.1 hname

/-! ## When the bridges change nothing -/

/-- No dead end tried before the guest definition asks for a symbol that a bridge exports
(except at the very address of that definition). -/
def DeadEndsClear (e : GuestExports) (bridges : List Image) (library symbol : String) : Prop :=
  ∀ before image vmaddr after,
    e.candidates kMaxReexportDepth library symbol = before ++ .definition image vmaddr :: after →
    (∀ c ∈ before, Candidate.IsDeadEnd c) →
    ∀ address, before.findSome? (Candidate.answer bridges) = some address →
      address = image.host vmaddr

/-- `DeadEndsClear`, said of every candidate the guest search could take. -/
theorem deadEndsClear_iff {e : GuestExports} {bridges : List Image} {library symbol : String} :
    e.DeadEndsClear bridges library symbol ↔
      ∀ before x after b, e.candidates kMaxReexportDepth library symbol = before ++ x :: after →
        (∀ y ∈ before, Candidate.answer [] y = none) → Candidate.answer [] x = some b →
        ∀ c, before.findSome? (Candidate.answer bridges) = some c → c = b := by
  constructor
  · intro h before x after b hl hbefore hx c hc
    cases x with
    | deadEnd symbol => simp [Candidate.answer] at hx
    | definition image vmaddr =>
        injection hx with hx
        rw [← hx]
        exact h before image vmaddr after hl
          (fun y hy => Candidate.isDeadEnd_iff.mpr (hbefore y hy)) c hc
  · intro h before image vmaddr after hl hbefore address ha
    exact h before _ after _ hl (fun y hy => Candidate.isDeadEnd_iff.mp (hbefore y hy)) rfl
      address ha

/-- **Bridges behind the guest images.** For every set of accepted guest images and every
bind, registering bridges (whose install names nothing names) keeps the answer the guest
images give, and takes a bridge's export only where they give none, exactly when the dead
ends of the search are clear of the bridges' symbols. -/
theorem find_registerBridges_iff {guests : List Image} {replaces : List (String × Image)}
    {bridges : List Image} {e e' : GuestExports} {library symbol : String}
    (hg : registerGuests guests replaces = .ok e) (hb : e.registerBridges bridges = .ok e')
    (hu : ∀ b ∈ bridges, e.Unnamed library b) :
    ((∀ a, e.find library symbol = some a → e'.find library symbol = some a) ∧
      (∀ b, e'.find library symbol = some b → e.find library symbol ≠ some b →
        e.find library symbol = none)) ↔
    e.DeadEndsClear bridges library symbol := by
  have h0 := bridges_of_registerGuests hg
  have hfind : e.find library symbol = _ := findAt_eq_candidates (behind_self h0) _ _ _ rfl
  have hfind' : e'.find library symbol = _ :=
    findAt_eq_candidates (behind_registerBridges h0 hb hu) _ _ _
      (imageOf_registerBridges hb fun b hb => (hu b hb).imp id And.left)
  have hkeep := FirstAnswer.keeps_answers_iff (Candidate.answer_extends bridges)
    (e.candidates kMaxReexportDepth library symbol)
  rw [← hfind, ← hfind', ← deadEndsClear_iff] at hkeep
  rw [← hkeep]
  refine ⟨And.left, fun h => ⟨h, fun b hb' hne => ?_⟩⟩
  cases ha : e.find library symbol with
  | none => rfl
  | some a =>
      rw [h a ha] at hb'
      exact absurd (ha.trans hb') hne

/-! ## A dead end in front of the definition

`umbrella` re-exports two libraries whole; the second defines the symbol. -/

def umbrella : Image :=
  { path := "umbrella"
    installName := "@rpath/libumbrella.dylib"
    reexportedLibraries := ["@rpath/libfirst.dylib", "@rpath/libsecond.dylib"] }

def firstLibrary : Image := { path := "first", installName := "@rpath/libfirst.dylib" }

def secondLibrary : Image :=
  { path := "second"
    installName := "@rpath/libsecond.dylib"
    slide := 0x10000000
    exports := ExtTreeMap.empty.insert "_answer" 0x1000 }

def hostBridge : Image :=
  { path := "bridge"
    installName := "@rpath/libbridge.dylib"
    slide := 0x10100000
    exports := ExtTreeMap.empty.insert "_answer" 0x2000 }

/-- The three libraries as registered. -/
def umbrellaExports : GuestExports :=
  { images := [umbrella, firstLibrary, secondLibrary]
    byName := ((ExtTreeMap.empty.insert umbrella.installName umbrella).insert
      firstLibrary.installName firstLibrary).insert secondLibrary.installName secondLibrary }

/-- The same with the bridge behind. -/
def umbrellaBridged : GuestExports :=
  { images := [umbrella, firstLibrary, secondLibrary, hostBridge]
    bridges := [hostBridge]
    byName := umbrellaExports.byName.insert hostBridge.installName hostBridge }

theorem umbrellaExports_registered :
    registerGuests [umbrella, firstLibrary, secondLibrary] [] = .ok umbrellaExports := rfl

theorem umbrellaBridged_registered :
    umbrellaExports.registerBridges [hostBridge] = .ok umbrellaBridged := rfl

theorem hostBridge_unnamed {library : String} (hlibrary : hostBridge.installName ≠ library) :
    ∀ b ∈ [hostBridge], umbrellaExports.Unnamed library b := by
  intro b hb
  rw [List.mem_singleton.mp hb]
  refine Or.inr ⟨hlibrary, ?_, rfl⟩
  rintro ⟨binding, image, himage, hname⟩
  -- Only `umbrella` re-exports anything.
  have hcases : image = umbrella ∨ image = firstLibrary ∨ image = secondLibrary := by
    simp only [imageOf, umbrellaExports, ExtTreeMap.getElem?_empty,
      ExtTreeMap.getElem?_insert] at himage
    split_ifs at himage <;> simp_all
  rcases hcases with rfl | rfl | rfl <;>
    simp [umbrella, firstLibrary, secondLibrary, hostBridge] at hname

theorem find_registerBridges_shadowed :
    ¬ ∀ (guests : List Image) (replaces : List (String × Image)) (bridges : List Image)
        (e e' : GuestExports) (library symbol : String) (a : UInt64),
      registerGuests guests replaces = .ok e → e.registerBridges bridges = .ok e' →
      (∀ b ∈ bridges, e.Unnamed library b) →
      e.find library symbol = some a → e'.find library symbol = some a := by
  intro h
  have hkept := h _ _ _ _ _ umbrella.installName "_answer" 0x10001000
    umbrellaExports_registered umbrellaBridged_registered (hostBridge_unnamed (by decide))
    (by decide)
  have htaken : umbrellaBridged.find umbrella.installName "_answer" = some 0x10102000 := by decide
  rw [htaken] at hkept
  exact absurd hkept (by decide)

/-- Asked of the library that defines it, the symbol stays the guest's: no dead end comes first. -/
theorem find_registerBridges_iff_umbrella :
    umbrellaExports.find secondLibrary.installName "_answer" = some 0x10001000 ∧
      umbrellaBridged.find secondLibrary.installName "_answer" = some 0x10001000 := by
  have hclear : umbrellaExports.DeadEndsClear [hostBridge] secondLibrary.installName "_answer" := by
    intro before image vmaddr after hcandidates _ address hbefore
    have hone : umbrellaExports.candidates kMaxReexportDepth secondLibrary.installName "_answer"
        = [.definition secondLibrary 0x1000] := rfl
    rw [hone] at hcandidates
    cases before with
    | nil => simp at hbefore
    | cons _ _ => simp at hcandidates
  have hguest : umbrellaExports.find secondLibrary.installName "_answer" = some 0x10001000 := by
    decide
  have hunnamed : ∀ b ∈ [hostBridge], umbrellaExports.Unnamed secondLibrary.installName b :=
    hostBridge_unnamed (by decide)
  have hkept := (find_registerBridges_iff umbrellaExports_registered umbrellaBridged_registered
    hunnamed).mpr hclear
  exact ⟨hguest, hkept.1 _ hguest⟩

end GuestExports

end Katabasis
