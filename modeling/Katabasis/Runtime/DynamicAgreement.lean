import Katabasis.Runtime.DynamicSend

set_option autoImplicit false

/-! # The fallback against the generated bridge

`xl_dynamic_send` lays the words of the arguments one behind the other, and the method reads them
by the host's convention (`passed_of_plain`, `plain_of_passed`); the result is one number
(`returned_iff`). Together they say when the fallback agrees with the bridge that would have been
generated (**`sent_agrees_iff`**).
-/

namespace Katabasis

namespace DynamicSend

open CIntegers ArgumentWords IntegerPairs Signatures

/-! ## The arguments -/

/-- A turn of the loop lays the words of the argument. -/
theorem layArgument_eq (o : Objects) (words : List Int) (p : Argument o × Nat) :
    layArgument o words p
      = (argumentWords o p.1.type p.1.register p.2).map fun w => lay true 0 words [w] := by
  unfold layArgument
  cases argumentWords o p.1.type p.1.register p.2 with
  | error fault => rfl
  | ok w =>
      cases w with
      | one word =>
          show Except.ok _ = Except.ok _
          simp [lay, Words.isWide, Words.toList]
      | two low high =>
          show Except.ok _ = Except.ok _
          rcases Nat.mod_two_eq_zero_or_one words.length with h | h
          · simp [lay, Words.isWide, Words.toList, gap_wide, h]
          · simp [lay, Words.isWide, Words.toList, gap_wide, h]

/-- The loop lays the words of all arguments, one behind the other. -/
theorem foldlM_layArgument (o : Objects) (entries : List (Argument o × Nat))
    (words words' : List Int) :
    entries.foldlM (layArgument o) words = .ok words' ↔ ∃ ws,
      List.Forall₂ (fun p w => argumentWords o p.1.type p.1.register p.2 = .ok w) entries ws ∧
        words' = lay true 0 words ws := by
  induction entries generalizing words with
  | nil =>
      constructor
      · intro h
        injection h with h
        exact ⟨[], .nil, h.symm⟩
      · rintro ⟨ws, hws, rfl⟩
        rw [List.forall₂_nil_left_iff] at hws
        rw [hws]
        rfl
  | cons p rest ih =>
      rw [List.foldlM_cons, layArgument_eq]
      constructor
      · intro h
        obtain ⟨next, hnext, h⟩ := Fallible.bind_eq_ok h
        obtain ⟨w, hw, rfl⟩ := Fallible.map_eq_ok hnext
        obtain ⟨ws, hws, rfl⟩ := (ih _).mp h
        exact ⟨w :: ws, .cons hw hws, rfl⟩
      · rintro ⟨ws, _ | ⟨hw, hws⟩, rfl⟩
        rw [hw]
        exact (ih _).mpr ⟨_, hws, rfl⟩

section

variable {o : Objects} (made : Made o) (id : String) (args : List (Argument o))

/-- What the bridge passes for an argument. -/
def load (p : Argument o × Nat) : Narrowed Int :=
  hostLoad made id p.2 (detected (parameters args) p.2 p.1.declared)
    (wrap false 64 (guestValue p.1.declared p.1.register))

/-- What is sent for an argument. -/
def sent (p : Argument o × Nat) : Except SendFault (Words Int) :=
  argumentWords o p.1.type p.1.register (p.2 + 2)

/-- The words of an argument for which some are sent. -/
def wordsOf (p : Argument o × Nat) : Words Int :=
  match sent p with
  | .ok w => w
  | .error _ => .one 0

/-- The parameters that `DetectArrays` finds, each with its argument. -/
theorem zip_detectArrays :
    (Katabasis.detectArrays (parameters args)).zip args
      = args.zipIdx.map fun p => (detected (parameters args) p.2 p.1.declared, p.1) := by
  have hvalues : Katabasis.detectArrays (parameters args)
      = args.zipIdx.map fun p => detected (parameters args) p.2 p.1.declared := by
    apply List.ext_getElem?
    intro i
    rw [detectArrays_getElem?, List.getElem?_map, List.getElem?_zipIdx, parameters,
      List.getElem?_map]
    cases args[i]? with
    | none => rfl
    | some arg => simp
  calc (Katabasis.detectArrays (parameters args)).zip args
      = (args.zipIdx.map fun p => detected (parameters args) p.2 p.1.declared).zip
          (args.zipIdx.map Prod.fst) := by rw [← hvalues, List.zipIdx_map_fst]
    _ = _ := by rw [List.zip_map']

/-- The bridge passes the values one by one. -/
theorem bridgeArguments_eq_ok_iff {values : List Int} :
    bridgeArguments made id args = .ok values ↔
      List.Forall₂ (fun p y => load made id args p = .ok y) args.zipIdx values := by
  have hentries : ((Katabasis.detectArrays (parameters args)).zip args).zipIdx
      = args.zipIdx.map fun p =>
        ((detected (parameters args) p.2 p.1.declared, p.1), p.2) := by
    rw [zip_detectArrays]
    apply List.ext_getElem?
    intro i
    rw [List.getElem?_zipIdx, List.getElem?_map, List.getElem?_map, List.getElem?_zipIdx]
    cases args[i]? with
    | none => rfl
    | some arg => simp
  unfold bridgeArguments
  rw [hentries, Fallible.mapM_eq_ok_iff, List.forall₂_map_left_iff]
  rfl

/-- The fallback lays the words one by one, for at most six arguments. -/
theorem layWords_eq_ok_iff {receiver selector : Int} (hcount : args.length ≤ 6) {words : List Int} :
    layWords o receiver selector args = .ok words ↔ ∃ ws,
      List.Forall₂ (fun p w => sent p = .ok w) args.zipIdx ws ∧
        words = lay true 0 [wrap false 32 receiver, wrap false 32 selector] ws := by
  unfold layWords
  rw [if_neg (by omega), foldlM_layArgument, List.zipIdx_eq_map_add]
  refine exists_congr fun ws => and_congr_left fun _ => ?_
  rw [List.forall₂_map_left_iff]
  refine Iff.of_eq (congrArg (List.Forall₂ · args.zipIdx ws) ?_)
  funext p w
  rw [sent, Nat.add_comm p.2 2]

variable {made id args}

/-- What was sent for all arguments. -/
theorem forall₂_sent (ws : List (Words Int)) :
    List.Forall₂ (fun p w => sent p = .ok w) args.zipIdx ws ↔
      (∀ p ∈ args.zipIdx, ∃ w, sent p = .ok w) ∧ ws = args.zipIdx.map wordsOf := by
  generalize args.zipIdx = entries
  induction entries generalizing ws with
  | nil => simp
  | cons p rest ih =>
      rw [List.forall_mem_cons, List.map_cons]
      constructor
      · rintro (_ | ⟨hw, hws⟩)
        obtain ⟨hrest, rfl⟩ := (ih _).mp hws
        refine ⟨⟨⟨_, hw⟩, hrest⟩, congrArg₂ List.cons ?_ rfl⟩
        rw [wordsOf, hw]
      · rintro ⟨⟨⟨w, hw⟩, hrest⟩, rfl⟩
        refine .cons ?_ ((ih _).mpr ⟨hrest, rfl⟩)
        rw [wordsOf, hw]

theorem sent_wordsOf (hsent : ∀ p ∈ args.zipIdx, ∃ w, sent p = .ok w) :
    ∀ p ∈ args.zipIdx, sent p = .ok (wordsOf p) := by
  intro p hp
  obtain ⟨w, hw⟩ := hsent p hp
  rw [wordsOf, hw]

/-- The method receives the bridge's values exactly if each is read from its words. -/
theorem zipWith_eq_iff {entries : List (Argument o × Nat)} {values : List Int}
    (hvalues : List.Forall₂ (fun p y => load made id args p = .ok y) entries values)
    {reads : List (Words Int)} (hlength : reads.length = entries.length) :
    List.zipWith (fun p w => decode p.1.declared w) entries reads = values ↔
      List.Forall₂ (fun p w => load made id args p = .ok (decode p.1.declared w)) entries
        reads := by
  induction hvalues generalizing reads with
  | nil =>
      rw [List.length_eq_zero_iff.mp hlength]
      exact iff_of_true rfl .nil
  | cons hy _ ih =>
      obtain ⟨w, rest, rfl⟩ := List.exists_cons_of_length_eq_add_one hlength
      rw [List.length_cons, List.length_cons, Nat.add_right_cancel_iff] at hlength
      rw [List.zipWith_cons_cons, List.cons_eq_cons, List.forall₂_cons, ih hlength, hy,
        Except.ok.injEq]
      exact and_congr_left fun _ => eq_comm

/-- What holds from a gap on, of the arguments and of their words. -/
theorem fromGap_iff {P : Argument o → Prop} {Q : Argument o × Nat → Prop}
    (hwide : ∀ p ∈ args.zipIdx, (wordsOf p).isWide = isWide p.1.declared)
    (hsame : ∀ p ∈ args.zipIdx, P p.1 ↔ Q p) :
    FromGap P args
      ↔ ArgumentWords.FromGap (fun p => (wordsOf p).isWide) Q 2 args.zipIdx := by
  have hargs := (@fromGap_map _ _ Prod.fst (fun arg : Argument o => isWide arg.declared) P 2
    args.zipIdx).trans (fromGap_congr fun p hp => ⟨(hwide p hp).symm, hsame p hp⟩)
  rwa [List.zipIdx_map_fst] at hargs

/-- The words of an argument are told from the unused word. -/
theorem legible {p : Argument o × Nat} {y : Int} {plain known : Prop}
    (hload : load made id args p = .ok y) (hsent : sent p = .ok (wordsOf p))
    (hcrossing : Crossing p.1.declared (guestValue p.1.declared p.1.register) (sent p) y plain
      known) (hknown : known) :
    Legible 0 wordsOf (fun p w => load made id args p = .ok (decode p.1.declared w)) p := by
  constructor
  · intro word hword hread
    rw [hload, decode_blank p.1.declared (w := .one 0) rfl] at hread
    injection hread with hy
    have hblank := hcrossing.blank _ hsent (hcrossing.zero hknown ⟨_, hsent⟩ hy)
    rw [hword] at hblank
    exact hblank
  · intro low high hwords word hword hread
    rw [hload] at hread
    injection hread with hy
    rw [hwords] at hsent
    exact hcrossing.second low high word hsent hword hy.symm

/-- Every argument that the bridge passes crosses. -/
theorem crossings {values : List Int} (haccepted : accepted (parameters args) = true)
    (hvalues : List.Forall₂ (fun p y => load made id args p = .ok y) args.zipIdx values) :
    ∀ p ∈ args.zipIdx, ∃ y, load made id args p = .ok y ∧
      Crossing p.1.declared (guestValue p.1.declared p.1.register) (sent p) y
        (Plain (detected (parameters args) p.2 p.1.declared) p.1) p.1.HasProtocol := by
  intro p hp
  obtain ⟨y, hload⟩ := Fallible.exists_of_forall₂ hvalues hp
  refine ⟨y, hload, crossing_spec ?_ hload⟩
  have hmem : (detected (parameters args) p.2 p.1.declared, p.1)
      ∈ (Katabasis.detectArrays (parameters args)).zip args := by
    rw [zip_detectArrays]
    exact List.mem_map.mpr ⟨p, hp, rfl⟩
  have hall := List.all_eq_true.mp haccepted _ (List.of_mem_zip hmem).1
  exact of_decide_eq_true hall

/-- The words have the shape of the arguments on the host. -/
theorem wordsOf_shape
    (h : ∀ p ∈ args.zipIdx, (wordsOf p).isWide = isWide p.1.declared) :
    (args.zipIdx.map fun p => (wordsOf p).isWide) = args.map fun arg => isWide arg.declared := by
  calc (args.zipIdx.map fun p => (wordsOf p).isWide)
      = args.zipIdx.map fun p => isWide p.1.declared := List.map_congr_left h
    _ = (args.zipIdx.map Prod.fst).map fun arg => isWide arg.declared := by
        rw [List.map_map]
        rfl
    _ = args.map fun arg => isWide arg.declared := by rw [List.zipIdx_map_fst]

/-! The words of arguments that were all sent. -/

section

variable {aligns : Bool} {done : List Int} {values : List Int}
  (hdone : done.length = 2)
  (hvalues : List.Forall₂ (fun p y => load made id args p = .ok y) args.zipIdx values)
  (hcrossing : ∀ p ∈ args.zipIdx, ∃ y, load made id args p = .ok y ∧
    Crossing p.1.declared (guestValue p.1.declared p.1.register) (sent p) y
      (Plain (detected (parameters args) p.2 p.1.declared) p.1) p.1.HasProtocol)
  (hwords : ∀ p ∈ args.zipIdx, sent p = .ok (wordsOf p))

include hcrossing hwords

theorem isWide_wordsOf :
    ∀ p ∈ args.zipIdx, (wordsOf p).isWide = isWide p.1.declared := by
  intro p hp
  obtain ⟨y, -, hp'⟩ := hcrossing p hp
  exact hp'.wide _ (hwords p hp)

theorem length_lay_wordsOf (hdone : done.length = 2) :
    (lay true 0 done (args.zipIdx.map wordsOf)).length
      = ArgumentWords.extent true 2 (args.map fun arg => isWide arg.declared) := by
  rw [length_lay, List.map_map, hdone, ← wordsOf_shape (isWide_wordsOf hcrossing hwords)]
  rfl

/-- An argument is read from its own words exactly if it is plain. -/
theorem own_iff :
    (∀ p ∈ args.zipIdx, load made id args p = .ok (decode p.1.declared (wordsOf p))) ↔
      ∀ p ∈ args.zipIdx, Plain (detected (parameters args) p.2 p.1.declared) p.1 := by
  refine forall₂_congr fun p hp => ?_
  obtain ⟨y, hload, hp'⟩ := hcrossing p hp
  rw [← hp'.plain_iff, hload, Except.ok.injEq]
  constructor
  · intro hy
    exact ⟨_, hwords p hp, hy.symm⟩
  · rintro ⟨w, hw, rfl⟩
    rw [hwords p hp] at hw
    injection hw with hw
    rw [hw]

/-- The words of a plain argument are blank exactly if the guest's value is zero. -/
theorem blank_iff {p : Argument o × Nat} (hp : p ∈ args.zipIdx)
    (hown : load made id args p = .ok (decode p.1.declared (wordsOf p))) :
    guestValue p.1.declared p.1.register = 0 ↔ (wordsOf p).Blank 0 := by
  obtain ⟨y, hload, hp'⟩ := hcrossing p hp
  rw [hload] at hown
  injection hown with hy
  exact ⟨hp'.blank _ (hwords p hp), fun hblank => hp'.zero_of_blank _ (hwords p hp) hblank hy.symm⟩

/-- The gap in the words is the gap in the arguments. -/
theorem blankFromGap_iff
    (hown : ∀ p ∈ args.zipIdx, load made id args p = .ok (decode p.1.declared (wordsOf p))) :
    FromGap (fun arg => guestValue arg.declared arg.register = 0) args ↔
      ArgumentWords.FromGap (fun p => (wordsOf p).isWide) (fun p => (wordsOf p).Blank 0) 2
        args.zipIdx :=
  fromGap_iff (isWide_wordsOf hcrossing hwords) fun p hp =>
    blank_iff hcrossing hwords hp (hown p hp)

include hdone hvalues

/-- What the method finds, one argument after the other. -/
theorem received_lay_iff :
    received aligns args (lay true 0 done (args.zipIdx.map wordsOf)) = values ↔
      List.Forall₂ (fun p w => load made id args p = .ok (decode p.1.declared w)) args.zipIdx
        (read aligns 0 (lay true 0 done (args.zipIdx.map wordsOf)) done.length
          (args.zipIdx.map fun p => (wordsOf p).isWide)) := by
  have hreads : ∀ reads : List (Words Int),
      List.zipWith (fun arg w => decode arg.declared w) args reads
        = List.zipWith (fun p w => decode p.1.declared w) args.zipIdx reads := by
    intro reads
    have h := @List.zipWith_map_left _ _ _ _ args.zipIdx reads Prod.fst
      fun (arg : Argument o) w => decode arg.declared w
    rw [List.zipIdx_map_fst] at h
    exact h
  rw [received, hreads, zipWith_eq_iff hvalues (by simp [length_read]),
    ← wordsOf_shape (isWide_wordsOf hcrossing hwords), hdone]

/-- Plain arguments are received, where none that counts comes behind an unused word. -/
theorem received_of_plain
    (hplain : ∀ p ∈ args.zipIdx, Plain (detected (parameters args) p.2 p.1.declared) p.1)
    (hplaced : aligns = true ∨
      FromGap (fun arg => guestValue arg.declared arg.register = 0) args) :
    received aligns args (lay true 0 done (args.zipIdx.map wordsOf)) = values := by
  have hown := (own_iff hcrossing hwords).mpr hplain
  rw [received_lay_iff hdone hvalues hcrossing hwords]
  exact read_own done hown (hdone ▸ hplaced.imp_right (blankFromGap_iff hcrossing hwords hown).mp)

/-- What the method finds in the words says that the arguments are plain. -/
theorem plain_of_received (hknown : aligns = true ∨ FromGap Argument.HasProtocol args)
    (hreceived : received aligns args (lay true 0 done (args.zipIdx.map wordsOf)) = values) :
    (∀ p ∈ args.zipIdx, Plain (detected (parameters args) p.2 p.1.declared) p.1) ∧
      (aligns = true ∨ FromGap (fun arg => guestValue arg.declared arg.register = 0) args) := by
  have hlegible : FromGap Argument.HasProtocol args →
      ArgumentWords.FromGap (fun p => (wordsOf p).isWide) (Legible 0 wordsOf
        (fun p w => load made id args p = .ok (decode p.1.declared w))) done.length
        args.zipIdx := by
    intro h
    have hwords' := (fromGap_iff (isWide_wordsOf hcrossing hwords) fun p _ => Iff.rfl).mp h
    rw [hdone]
    refine hwords'.mono fun p hp hp' => ?_
    obtain ⟨y, hload, hcross⟩ := hcrossing p hp
    exact legible hload (hwords p hp) hcross hp'
  rw [received_lay_iff hdone hvalues hcrossing hwords,
    read_iff aligns done (hknown.imp_right hlegible)] at hreceived
  obtain ⟨hown, hplaced⟩ := hreceived
  rw [hdone] at hplaced
  exact ⟨(own_iff hcrossing hwords).mp hown,
    hplaced.imp_right (blankFromGap_iff hcrossing hwords hown).mpr⟩

end

/-- The words of plain arguments that are no more than are passed are the bridge's values. -/
theorem passed_of_plain {aligns : Bool} {receiver selector : Int} {values : List Int}
    (hcount : args.length ≤ 6) (haccepted : accepted (parameters args) = true)
    (hvalues : bridgeArguments made id args = .ok values)
    (hplain : ∀ p ∈ (Katabasis.detectArrays (parameters args)).zip args, Plain p.1 p.2)
    (hextent : ArgumentWords.extent true 2 (args.map fun arg => isWide arg.declared) ≤ 12)
    (hplaced : aligns = true ∨
      FromGap (fun arg => guestValue arg.declared arg.register = 0) args) :
    ∃ words, layWords o receiver selector args = .ok words ∧ words.length ≤ 12 ∧
      received aligns args words = values := by
  rw [bridgeArguments_eq_ok_iff] at hvalues
  rw [zip_detectArrays, List.forall_mem_map] at hplain
  have hcrossing := crossings haccepted hvalues
  have hsent : ∀ p ∈ args.zipIdx, ∃ w, sent p = .ok w := by
    intro p hp
    obtain ⟨y, -, hp'⟩ := hcrossing p hp
    obtain ⟨w, hw, -⟩ := hp'.plain_iff.mpr (hplain p hp)
    exact ⟨w, hw⟩
  have hwords := sent_wordsOf hsent
  refine ⟨_, (layWords_eq_ok_iff args hcount).mpr ⟨_, (forall₂_sent _).mpr ⟨hsent, rfl⟩, rfl⟩, ?_,
    received_of_plain rfl hvalues hcrossing hwords hplain hplaced⟩
  rw [length_lay_wordsOf hcrossing hwords rfl]
  exact hextent

/-- Where the method receives the bridge's values, the arguments are plain. -/
theorem plain_of_passed {aligns : Bool} {receiver selector : Int} {values : List Int}
    (hcount : args.length ≤ 6) (haccepted : accepted (parameters args) = true)
    (hvalues : bridgeArguments made id args = .ok values)
    (hknown : aligns = true ∨ FromGap Argument.HasProtocol args)
    (hpassed : ∃ words, layWords o receiver selector args = .ok words ∧ words.length ≤ 12 ∧
      received aligns args words = values) :
    (∀ p ∈ (Katabasis.detectArrays (parameters args)).zip args, Plain p.1 p.2) ∧
      ArgumentWords.extent true 2 (args.map fun arg => isWide arg.declared) ≤ 12 ∧
      (aligns = true ∨ FromGap (fun arg => guestValue arg.declared arg.register = 0) args) := by
  rw [bridgeArguments_eq_ok_iff] at hvalues
  have hcrossing := crossings haccepted hvalues
  obtain ⟨words, hlaid, hle, hreceived⟩ := hpassed
  obtain ⟨ws, hws, rfl⟩ := (layWords_eq_ok_iff args hcount).mp hlaid
  obtain ⟨hsent, rfl⟩ := (forall₂_sent ws).mp hws
  have hwords := sent_wordsOf hsent
  rw [length_lay_wordsOf hcrossing hwords rfl] at hle
  obtain ⟨hplain, hplaced⟩ := plain_of_received rfl hvalues hcrossing hwords hknown hreceived
  rw [zip_detectArrays, List.forall_mem_map]
  exact ⟨hplain, hle, hplaced⟩

end

/-! ## The result -/

section

variable {w : IntWidth} {signed : Bool} {y : Int}

/-- Whatever the type, the fallback returns the method's integer. -/
theorem guestResult_integer (o : Objects) {encoding : List Char} {letter : Char}
    (hletter : letter ∈ integerLetters w signed) (hencoding : letterOf encoding = some letter)
    (hy : InRange signed w.bits y) :
    guestResult o encoding (wrap false 64 y) = .ok (wrap false 64 y) := by
  have hlow : w.bits ≤ 32 → wrap signed w.bits (wrap false 32 (wrap false 64 y)) = y := by
    intro hle
    rw [wrap_wrap hle, wrap_wrap (width_le w), wrap_of_inRange (width_pos w) hy]
  unfold guestResult
  rw [hencoding]
  cases signed with
  | true =>
      cases w with
      | w64 =>
          rw [List.mem_singleton.mp hletter]
          exact congrArg Except.ok (wrap_wrap (Nat.le_refl _) y)
      | w32 =>
          have hsame := congrArg (wrap false 64) (hlow (by decide))
          rcases List.mem_pair.mp hletter with rfl | rfl <;> exact congrArg Except.ok hsame
      | _ =>
          rw [List.mem_singleton.mp hletter]
          exact congrArg Except.ok (congrArg (wrap false 64) (hlow (by decide)))
  | false =>
      have hself : wrap false 64 y = y := wrap_of_inRange (by decide)
        ⟨hy.1, Int.le_trans hy.2 (highest_le_highest (width_le w))⟩
      cases w with
      | w64 =>
          rw [List.mem_singleton.mp hletter]
          exact congrArg Except.ok (wrap_wrap (Nat.le_refl _) y)
      | w32 =>
          have hsame : wrap false 32 (wrap false 64 y) = wrap false 64 y := by
            have hagain : wrap false 32 (wrap false 32 (wrap false 64 y))
              = wrap false 32 (wrap false 64 y) := wrap_wrap (Nat.le_refl _) _
            rw [← hagain]
            exact (hlow (by decide)).trans hself.symm
          rcases List.mem_pair.mp hletter with rfl | rfl <;> exact congrArg Except.ok hsame
      | w16 =>
          rw [List.mem_singleton.mp hletter]
          exact congrArg Except.ok ((hlow (by decide)).trans hself.symm)
      | w8 =>
          have hsame := (hlow (by decide)).trans hself.symm
          rcases List.mem_pair.mp hletter with rfl | rfl <;> exact congrArg Except.ok hsame

end

theorem pointerToGuest_eq (o : Objects) (value : Value) {y : Int} (hy : InRange false 32 y) :
    pointerToGuest o.machinery value y
      = if value.isObject then o.xlObjectOut y else xlWidenPointer y := by
  rw [pointerToGuest, wrap_of_inRange (by decide) hy]
  rfl

/-- The letters of a result that is an address. -/
theorem guestResult_pointer (o : Objects) {encoding : List Char} {letter : Char}
    (hencoding : letterOf encoding = some letter) {y : Int} (hy : InRange false 32 y) :
    (letter = '@' ∨ letter = '#' →
      guestResult o encoding (wrap false 64 y) = .ok (o.xlObjectOut y)) ∧
    (letter = ':' ∨ letter = '^' ∨ letter = '*' →
      guestResult o encoding (wrap false 64 y) = .ok (xlWidenPointer y)) := by
  have hlow : wrap false 32 (wrap false 64 y) = y := wrap_wrap_of_inRange (by decide) (by decide) hy
  unfold guestResult
  rw [hencoding, hlow]
  refine ⟨?_, ?_⟩
  · rintro (rfl | rfl) <;> rfl
  · rintro (rfl | rfl | rfl) <;> rfl

/-- A protocol is widened by the bridge only. -/
theorem protocolResult_iff (o : Objects) (value : Value) (hvalue : value.isObject = false) {y : Int}
    (hy : InRange false 32 y) :
    wrap false 64 y = wrap false 64 (pointerToGuest o.machinery value y) ↔ y < 0xFFFFFF00 := by
  rw [pointerToGuest_eq o value hy, hvalue, if_neg Bool.false_ne_true, xlWidenPointer_eq hy]
  simp only [InRange, lowest, highest, Bool.false_eq_true, if_false] at hy
  by_cases hsentinel : 0xFFFFFF00 ≤ y
  · rw [if_pos hsentinel, wrap_inj ⟨by omega, by omega⟩]
    exact iff_of_false (by omega) (by omega)
  · rw [if_neg hsentinel]
    exact iff_of_true rfl (by omega)

/-- **When the fallback returns the bridge's result.** -/
theorem returned_iff {o : Objects} {result : Result}
    (hreturned : returned result.type = true) {y : Int} (hy : result.Fits o y) :
    ∃ x0, guestResult o result.encoding (wrap false 64 y) = .ok x0 ∧
      ((∀ declared, result.type = .declared declared → wrap false (registerBits declared) x0
        = wrap false (registerBits declared) (bridgeResult o result.isBool declared y)) ↔
        PlainResult result y) := by
  obtain ⟨type, isBool, encoding, sides, void, bool⟩ := result
  dsimp only at hreturned ⊢
  cases type with
  | void =>
      have hvoid : guestResult o encoding (wrap false 64 y) = .ok 0 := by
        unfold guestResult
        rw [void rfl]
        rfl
      exact ⟨0, hvoid, iff_of_true (fun declared h => by cases h) trivial⟩
  | declared declared =>
      obtain ⟨hsides, letter, hletter, hencoding⟩ := sides declared rfl
      have hone : ∀ {p : Declared → Prop},
          (∀ d, SdkType.declared declared = .declared d → p d) ↔ p declared :=
        ⟨fun h => h _ rfl, fun h d hd => by cases hd; exact h⟩
      simp only [hone]
      cases hsides with
      | integer signed signed' hle =>
          rename_i w w'
          refine ⟨_, guestResult_integer o hletter hencoding hy, ?_⟩
          cases isBool with
          | false =>
              exact (register_eq_iff hle hy).trans
                ⟨fun h => ⟨h.1, h.2, fun hbool => (by cases hbool)⟩, fun h => ⟨h.1, h.2.1⟩⟩
          | true =>
              obtain ⟨h, hbool⟩ := bool rfl
              injection hbool with hbool
              injection hbool with hbool
              injection hbool with hw hsigned
              subst hw
              subst hsigned
              refine (register_eq_bool_iff hy hle).trans
                ⟨fun hy01 => ⟨fun hlt => ?_, fun _ => ?_, fun _ => hy01⟩, fun h => h.2.2 rfl⟩
              · cases w' <;> exact absurd hlt (by decide)
              · rcases hy01 with rfl | rfl <;> decide
      | pointer kind =>
          -- what the bridge converts the same way is returned as it is
          have hsame : ∀ value : Value, InRange false 32 y →
              wrap false 64 (if value.isObject then o.xlObjectOut y else xlWidenPointer y)
                = wrap false 64 (pointerToGuest o.machinery value y) :=
            fun value hrange => by rw [pointerToGuest_eq o value hrange]
          cases kind with
          | data passes =>
              refine ⟨_, (guestResult_pointer o hencoding hy).2
                (.inr (List.mem_pair.mp hletter)), iff_of_true ?_ trivial⟩
              exact hsame (classify (.pointer (.data passes)) (.pointer (.data passes))) hy
          | object =>
              refine ⟨_, (guestResult_pointer o hencoding hy).1 (List.mem_pair.mp hletter),
                iff_of_true ?_ trivial⟩
              exact hsame (classify (.pointer .object) (.pointer .object)) hy
          | selector =>
              refine ⟨_, (guestResult_pointer o hencoding hy).2
                (.inl (List.mem_singleton.mp hletter)), iff_of_true ?_ trivial⟩
              exact hsame (classify (.pointer .selector) (.pointer .selector)) hy
          | protocol =>
              obtain ⟨hrange, hout⟩ := hy
              refine ⟨_, (guestResult_pointer o hencoding hrange).1
                (.inl (List.mem_singleton.mp hletter)), ?_⟩
              rw [hout]
              exact protocolResult_iff o (classify (.pointer .protocol) (.pointer .protocol)) rfl
                hrange
          | block => cases hreturned
          | function => cases hreturned
      | data g h passes isConst =>
          refine ⟨_, (guestResult_pointer o hencoding hy).2
            (.inr (List.mem_pair.mp hletter)), iff_of_true ?_ trivial⟩
          have hpasses : passes = true := hreturned
          subst hpasses
          exact congrArg (wrap false 64) (pointerToGuest_eq o (classifyResult
            (.pointer g h true isConst)).toValue hy).symm

/-! ## The two ways of sending -/

/-- **When the fallback agrees with the generated bridge.** The condition is enough for every
message. It is necessary too, unless the convention leaves no word unused and a protocol that the
host has none for comes behind a gap: the bridge passes 0 for it, which another argument's word can
happen to be. -/
theorem sent_agrees_iff {o : Objects} {made : Made o} {id : String} {spell : SdkType → String}
    (aligns : Bool) (receiver selector : Int) {args : List (Argument o)} {result : Result}
    {method : List Int → Int} {values : List Int} (hcount : args.length ≤ 6)
    (hsupported : (Signatures.fromMethod spell (parameters args) result.type).supported = true)
    (hvalues : bridgeArguments made id args = .ok values)
    (hresult : result.Fits o (method values)) :
    (Sendable aligns args result (method values) →
      Agrees aligns receiver selector args result method values) ∧
    ((aligns = true ∨ FromGap Argument.HasProtocol args) →
      Agrees aligns receiver selector args result method values →
        Sendable aligns args result (method values)) := by
  obtain ⟨haccepted, hreturned⟩ := (fromMethod_supported spell _ _).mp hsupported
  obtain ⟨x0, hx0, hreturn⟩ := returned_iff hreturned hresult
  -- once the method has its arguments, it is all about its result
  have hcall : ∀ words, layWords o receiver selector args = .ok words → words.length ≤ 12 →
      received aligns args words = values →
      xlDynamicSend o (imp aligns args method) result.encoding receiver selector args
        = .ok x0 := by
    intro words hwords hlength hvals
    unfold xlDynamicSend
    rw [hwords]
    show guestResult o result.encoding (imp aligns args method (words.take 12)) = .ok x0
    rw [List.take_of_length_le hlength, imp, hvals, hx0]
  constructor
  · rintro ⟨hplain, hextent, hplaced, hplainResult⟩
    have hpassed := @passed_of_plain o made id args aligns receiver selector values hcount
      haccepted hvalues hplain hextent hplaced
    have ⟨words, hwords, hlength, hvals⟩ := hpassed
    exact ⟨hpassed, x0, hcall words hwords hlength hvals, hreturn.mpr hplainResult⟩
  · rintro hknown ⟨hpassed, x0', hx0', hresults⟩
    obtain ⟨hplain, hextent, hplaced⟩ := plain_of_passed hcount haccepted hvalues hknown hpassed
    obtain ⟨words, hwords, hlength, hvals⟩ := hpassed
    rw [hcall words hwords hlength hvals] at hx0'
    injection hx0' with hx0'
    rw [← hx0'] at hresults
    exact ⟨hplain, hextent, hplaced, hreturn.mp hresults⟩

/-! ### A sample -/

/-- A process without guest blocks and without shadows of classes, in which the guest's protocols
are registered in place. -/
def sampleObjects : Objects where
  hasBlockIsa _ := false
  xlWrapperFor _ := 4096
  xlClassIn x := x
  xlObjectOut x := x
  wrapperFor_address _ := by decide
  classIn_address _ h := h
  classIn_eq_zero _ := Iff.rfl
  objcGetProtocol x := wrap false 32 x
  getProtocol_address x := inRange_wrap false (by decide) x

/-- A bridge that makes nothing of its own. -/
def sampleMade : Made sampleObjects where
  host index _ x := .error ⟨"", index, x.toNat⟩
  own := by rintro _ _ _ _ _ ⟨⟩

/-- An `NSInteger` of the guest; the host's is an `int`. -/
def nsInteger (register : Int) (h : InRange false 64 register) : Argument sampleObjects where
  declared := .plain (.integer .w64 true) (.integer .w32 true)
  name := "index"
  type := ['i']
  register := register
  sides := .integer true true (by decide)
  encoded := ⟨'i', by decide, by decide⟩
  inRange := h
  extended := wrap_wrap (Nat.le_refl _) register
  isClass := by rintro ⟨⟩

/-- An object of the guest. -/
def sampleObject (register : Int) (h : InRange false 64 register) : Argument sampleObjects where
  declared := .plain (.pointer .object) (.pointer .object)
  name := "object"
  type := ['@']
  register := register
  sides := .pointer .object
  encoded := ⟨'@', by decide, by decide⟩
  inRange := h
  extended := rfl
  isClass := by rintro ⟨⟩

/-- A protocol of the guest. -/
def sampleProtocol (register : Int) (h : InRange false 64 register) : Argument sampleObjects where
  declared := .plain (.pointer .protocol) (.pointer .protocol)
  name := "protocol"
  type := ['@']
  register := register
  sides := .pointer .protocol
  encoded := ⟨'@', by decide, by decide⟩
  inRange := h
  extended := rfl
  isClass := by rintro ⟨⟩

/-- A `BOOL`, which is a `_Bool` of the guest and a `signed char` of the host. -/
def objcBool : Result where
  type := .declared (.plain (.integer .w8 false) (.integer .w8 true))
  isBool := true
  encoding := ['c']
  sides := by
    intro declared h
    cases h
    exact ⟨.integer false true (by decide), 'c', by decide, by decide⟩
  void h := by cases h
  bool _ := ⟨_, rfl⟩

/-- The arguments of a method with an `NSInteger`, an object and a protocol. -/
def sampleArguments : List (Argument sampleObjects) :=
  [nsInteger 7 (by decide), sampleObject 0x20000 (by decide), sampleProtocol 0x30000 (by decide)]

/-- The method returns `YES`. -/
theorem sent_agrees_object :
    Agrees false 4096 8192 sampleArguments objcBool (fun _ => 1) [7, 0x20000, 0x30000] := by
  have hsupported : (Signatures.fromMethod (fun _ => "") (parameters sampleArguments)
      objcBool.type).supported = true := rfl
  have hvalues : bridgeArguments sampleMade "message" sampleArguments
      = .ok [7, 0x20000, 0x30000] := rfl
  refine (sent_agrees_iff false 4096 8192 (by decide) hsupported hvalues ?_).1 ⟨?_, ?_, ?_, ?_⟩
  · show InRange true 8 1
    decide
  · have hzip : (Katabasis.detectArrays (parameters sampleArguments)).zip sampleArguments
        = [(.value (classify (.integer .w64 true) (.integer .w32 true)), nsInteger 7 (by decide)),
          (.value (classify (.pointer .object) (.pointer .object)),
            sampleObject 0x20000 (by decide)),
          (.value (classify (.pointer .protocol) (.pointer .protocol)),
            sampleProtocol 0x30000 (by decide))] := rfl
    rw [hzip]
    refine List.forall_mem_cons.mpr ⟨fun _ _ => ?_, List.forall_mem_cons.mpr ⟨trivial,
      List.forall_mem_cons.mpr ⟨fun _ _ => rfl, by simp⟩⟩⟩
    decide
  · decide
  · exact .inr (by simp [FromGap, ArgumentWords.FromGap, isWide, sampleArguments, nsInteger,
      sampleObject, sampleProtocol])
  · exact ⟨by decide, by decide, fun _ => .inr rfl⟩

/-- `NSNotFound` is `LONG_MAX` on the guest; the bridge passes `INT_MAX`, and the fallback -1. -/
theorem not_agrees_notFound :
    (Signatures.fromMethod (fun _ => "") (parameters [nsInteger (2 ^ 63 - 1) (by decide)])
      objcBool.type).supported = true ∧
    bridgeArguments sampleMade "message" [nsInteger (2 ^ 63 - 1) (by decide)]
      = .ok [2 ^ 31 - 1] ∧
    ¬ Agrees true 4096 8192 [nsInteger (2 ^ 63 - 1) (by decide)] objcBool (fun _ => 1)
      [2 ^ 31 - 1] := by
  refine ⟨rfl, rfl, ?_⟩
  rintro ⟨⟨words, hwords, -, hvals⟩, -⟩
  have hlaid : layWords sampleObjects 4096 8192 [nsInteger (2 ^ 63 - 1) (by decide)]
      = .ok [4096, 8192, 0xFFFFFFFF] := rfl
  rw [hlaid] at hwords
  injection hwords with hwords
  rw [← hwords] at hvals
  exact absurd hvals (by decide)

end DynamicSend

end Katabasis
