import Mathlib.Data.List.GetD
import Mathlib.Tactic

set_option autoImplicit false

/-! # Arguments in words

How the arguments of a call lie one behind the other in words, where an argument has one word or
two. A calling convention may let an argument of two words start at an even word only; the word
before it then stays unused.

A callee that follows the caller's convention reads what was laid (`read_lay`). One that does not
leave words unused reads the same arguments only where these cannot be told from the unused word
(`read_packed_iff`): from the first unused word on, all are blank.
-/

namespace Katabasis.ArgumentWords

/-- The words of an argument: one, or two with the lower half first. -/
inductive Words (α : Type)
  | one (word : α)
  | two (low high : α)
  deriving DecidableEq, Repr

variable {α β : Type}

namespace Words

def toList : Words α → List α
  | one word => [word]
  | two low high => [low, high]

def isWide : Words α → Bool
  | one _ => false
  | two _ _ => true

end Words

/-- The number of words that stay unused before an argument that would start at word `k`. -/
def gap (aligns wide : Bool) (k : Nat) : Nat :=
  if aligns && wide && decide (k % 2 = 1) then 1 else 0

/-- The arguments, behind the words that are laid already. -/
def lay (aligns : Bool) (filler : α) (done : List α) : List (Words α) → List α
  | [] => done
  | a :: rest =>
      lay aligns filler
        (done ++ List.replicate (gap aligns a.isWide done.length) filler ++ a.toList) rest

/-- The argument that starts at word `k`. -/
def readOne (filler : α) (words : List α) (wide : Bool) (k : Nat) : Words α :=
  if wide then .two (words.getD k filler) (words.getD (k + 1) filler)
  else .one (words.getD k filler)

/-- What a callee takes for its arguments, the next of which would start at word `k`. -/
def read (aligns : Bool) (filler : α) (words : List α) : Nat → List Bool → List (Words α)
  | _, [] => []
  | k, wide :: rest =>
      let start := k + gap aligns wide k
      readOne filler words wide start
        :: read aligns filler words (start + if wide then 2 else 1) rest

/-- The words that arguments take from word `k` on, with those that stay unused, end here. -/
def extent (aligns : Bool) : Nat → List Bool → Nat
  | k, [] => k
  | k, wide :: rest => extent aligns (k + gap aligns wide k + if wide then 2 else 1) rest

theorem length_read (aligns : Bool) (filler : α) (words : List α) (k : Nat) (wides : List Bool) :
    (read aligns filler words k wides).length = wides.length := by
  induction wides generalizing k with
  | nil => rfl
  | cons wide rest ih => rw [read, List.length_cons, List.length_cons, ih]

/-! ## One convention -/

section

variable {aligns : Bool} {filler : α} {done : List α}

@[simp]
theorem gap_narrow (aligns : Bool) (k : Nat) : gap aligns false k = 0 := by simp [gap]

@[simp]
theorem gap_packed (wide : Bool) (k : Nat) : gap false wide k = 0 := by simp [gap]

theorem gap_wide (k : Nat) : gap true true k = k % 2 := by
  unfold gap
  rcases Nat.mod_two_eq_zero_or_one k with h | h <;> simp [h]

theorem length_toList (a : Words α) : a.toList.length = if a.isWide then 2 else 1 := by
  cases a <;> rfl

/-- What is laid stays where it is. -/
theorem lay_getD {args : List (Words α)} {k : Nat} (h : k < done.length) :
    (lay aligns filler done args).getD k filler = done.getD k filler := by
  induction args generalizing done with
  | nil => rfl
  | cons a rest ih =>
      rw [lay, ih (by simp only [List.length_append]; omega), List.append_assoc,
        List.getD_append _ _ _ _ h]

theorem length_lay (args : List (Words α)) :
    (lay aligns filler done args).length
      = extent aligns done.length (args.map Words.isWide) := by
  induction args generalizing done with
  | nil => rfl
  | cons a rest ih =>
      rw [lay, ih, List.map_cons, extent, List.length_append, List.length_append,
        List.length_replicate, length_toList]

/-- An argument is where it was laid. -/
theorem readOne_lay (aligns : Bool) (filler : α) (done : List α) (a : Words α)
    (rest : List (Words α)) :
    readOne filler (lay aligns filler done (a :: rest)) a.isWide
      (done.length + gap aligns a.isWide done.length) = a := by
  rw [lay]
  have hhead : ∀ i, i < a.toList.length →
      (lay aligns filler (done ++ List.replicate (gap aligns a.isWide done.length) filler
        ++ a.toList) rest).getD (done.length + gap aligns a.isWide done.length + i) filler
      = a.toList.getD i filler := by
    intro i hi
    rw [lay_getD (by simp only [List.length_append, List.length_replicate]; omega)]
    have hlength : (done ++ List.replicate (gap aligns a.isWide done.length) filler).length
        = done.length + gap aligns a.isWide done.length := by simp
    rw [List.getD_append_right _ _ _ _ (by omega), hlength, Nat.add_sub_cancel_left]
  cases a with
  | one word =>
      have h0 := hhead 0 (by simp [Words.toList])
      rw [Nat.add_zero] at h0
      exact congrArg Words.one h0
  | two low high =>
      have h0 := hhead 0 (by simp [Words.toList])
      have h1 := hhead 1 (by simp [Words.toList])
      rw [Nat.add_zero] at h0
      exact congrArg₂ Words.two h0 h1

/-- **A callee of the same convention reads what was laid.** -/
theorem read_lay (aligns : Bool) (filler : α) (done : List α) (args : List (Words α)) :
    read aligns filler (lay aligns filler done args) done.length (args.map Words.isWide)
      = args := by
  induction args generalizing done with
  | nil => rfl
  | cons a rest ih =>
      rw [List.map_cons, read]
      refine congrArg₂ List.cons (readOne_lay aligns filler done a rest) ?_
      rw [lay]
      have hlength : done.length + gap aligns a.isWide done.length
          + (if a.isWide = true then 2 else 1)
          = (done ++ List.replicate (gap aligns a.isWide done.length) filler
            ++ a.toList).length := by
        simp only [List.length_append, List.length_replicate, length_toList]
      rw [hlength]
      exact ih _

end

/-! ## A callee that leaves no word unused -/

/-- The argument consists of the filler. -/
def Words.Blank (filler : α) : Words α → Prop
  | one word => word = filler
  | two low high => low = filler ∧ high = filler

/-- From the first argument with a gap before it on, all are so. -/
def FromGap (wide : β → Bool) (P : β → Prop) : Nat → List β → Prop
  | _, [] => True
  | k, b :: rest =>
      if wide b then
        if k % 2 = 1 then ∀ a ∈ b :: rest, P a else FromGap wide P (k + 2) rest
      else FromGap wide P (k + 1) rest

theorem FromGap.of_forall {wide : β → Bool} {P : β → Prop} {k : Nat} {args : List β}
    (h : ∀ b ∈ args, P b) : FromGap wide P k args := by
  induction args generalizing k with
  | nil => trivial
  | cons b rest ih =>
      have hrest := fun a ha => h a (List.mem_cons_of_mem b ha)
      rw [FromGap]
      split_ifs
      · exact h
      · exact ih hrest
      · exact ih hrest

theorem FromGap.mono {wide : β → Bool} {P Q : β → Prop} {k : Nat} {args : List β}
    (h : FromGap wide P k args) (himp : ∀ b ∈ args, P b → Q b) : FromGap wide Q k args := by
  induction args generalizing k with
  | nil => trivial
  | cons b rest ih =>
      have hrest := fun a ha => himp a (List.mem_cons_of_mem b ha)
      rw [FromGap] at h ⊢
      split_ifs at h ⊢
      · exact fun a ha => himp a ha (h a ha)
      · exact ih h hrest
      · exact ih h hrest

theorem fromGap_congr {wide wide' : β → Bool} {P Q : β → Prop} {k : Nat} {args : List β}
    (h : ∀ b ∈ args, wide b = wide' b ∧ (P b ↔ Q b)) :
    FromGap wide P k args ↔ FromGap wide' Q k args := by
  induction args generalizing k with
  | nil => exact Iff.rfl
  | cons b rest ih =>
      have hrest := fun a ha => h a (List.mem_cons_of_mem b ha)
      rw [FromGap, FromGap, (h b List.mem_cons_self).1]
      split_ifs
      · exact forall₂_congr fun a ha => (h a ha).2
      · exact ih hrest
      · exact ih hrest

theorem fromGap_map {γ : Type} (f : γ → β) {wide : β → Bool} {P : β → Prop} {k : Nat}
    {args : List γ} :
    FromGap wide P k (args.map f) ↔ FromGap (fun c => wide (f c)) (fun c => P (f c)) k args := by
  induction args generalizing k with
  | nil => exact Iff.rfl
  | cons c rest ih =>
      rw [List.map_cons, FromGap, FromGap, ← List.map_cons, List.forall_mem_map, ih, ih]

/-- Where the filler stands for the argument's first word, the callee can see it, unless the
argument is blank. -/
structure Legible (filler : α) (words : β → Words α) (holds : β → Words α → Prop) (b : β) :
    Prop where
  one : ∀ word, words b = .one word → holds b (.one filler) → word = filler
  two : ∀ low high, words b = .two low high → ∀ word, word = filler ∨ word = low →
    holds b (.two filler word) → low = filler ∧ high = filler

/-- All words from `k` on are the filler. -/
def BlankFrom (filler : α) (k : Nat) (words : List α) : Prop :=
  ∀ j, k ≤ j → words.getD j filler = filler

theorem BlankFrom.mono {filler : α} {words : List α} {k k' : Nat}
    (h : BlankFrom filler k words) (hk : k ≤ k') : BlankFrom filler k' words :=
  fun j hj => h j (Nat.le_trans hk hj)

theorem BlankFrom.append {filler : α} {words more : List α} {k : Nat}
    (h : BlankFrom filler k words) (hmore : ∀ word ∈ more, word = filler) :
    BlankFrom filler k (words ++ more) := by
  intro j hj
  by_cases hlt : j < words.length
  · rw [List.getD_append _ _ _ _ hlt]
    exact h j hj
  · rw [List.getD_append_right _ _ _ _ (by omega)]
    by_cases hin : j - words.length < more.length
    · rw [List.getD_eq_getElem _ _ hin]
      exact hmore _ (List.getElem_mem hin)
    · rw [List.getD_eq_default _ _ (by omega)]

theorem Words.Blank.eq_of_mem {filler : α} {a : Words α} (h : a.Blank filler) :
    ∀ word ∈ a.toList, word = filler := by
  cases a with
  | one word => simpa [Words.toList, Words.Blank] using h
  | two low high => simpa [Words.toList, Words.Blank] using h

section

variable {filler : α} {words : β → Words α} {holds : β → Words α → Prop} {args : List β}
  {done : List α}

/-- The words of an argument that is read where only blank words and its own lower half are. -/
theorem readOne_behind (a : Words α) (rest : List (Words α)) {k : Nat} (hk : k < done.length)
    (hblank : BlankFrom filler k done) :
    (∃ word, a = .one word ∧
      readOne filler (lay true filler done (a :: rest)) a.isWide k = .one filler) ∨
    ∃ low high word, a = .two low high ∧ (word = filler ∨ word = low) ∧
      readOne filler (lay true filler done (a :: rest)) a.isWide k = .two filler word := by
  have hword : (lay true filler done (a :: rest)).getD k filler = filler := by
    rw [lay_getD hk]
    exact hblank k (Nat.le_refl _)
  cases a with
  | one word => exact .inl ⟨word, rfl, congrArg Words.one hword⟩
  | two low high =>
      refine .inr ⟨low, high, _, rfl, ?_, congrArg (Words.two · _) hword⟩
      by_cases hnext : k + 1 < done.length
      · rw [lay_getD hnext]
        exact .inl (hblank (k + 1) (by omega))
      · have hlast : k + 1 = done.length := by omega
        rw [lay, hlast, lay_getD (by simp [Words.toList])]
        rcases Nat.mod_two_eq_zero_or_one done.length with h | h
        · simp [Words.isWide, gap_wide, h, Words.toList]
        · simp [Words.isWide, gap_wide, h, Words.toList]

/-- Once the callee is behind, it reads blank words: the step over the rest of the arguments. -/
theorem read_behind_iff (done : List α) (k : Nat)
    (hlegible : ∀ b ∈ args, Legible filler words holds b) (hk : k < done.length)
    (hblank : BlankFrom filler k done) :
    List.Forall₂ holds args (read false filler (lay true filler done (args.map words)) k
        (args.map fun b => (words b).isWide)) ↔
      ∀ b ∈ args, (words b).Blank filler ∧ holds b (words b) := by
  induction args generalizing done k with
  | nil => exact ⟨fun _ b hb => absurd hb List.not_mem_nil, fun _ => .nil⟩
  | cons b rest ih =>
      have hfirst := hlegible b List.mem_cons_self
      have hread : holds b (readOne filler (lay true filler done (words b :: rest.map words))
          (words b).isWide k) ↔ (words b).Blank filler ∧ holds b (words b) := by
        rcases readOne_behind (words b) (rest.map words) hk hblank with
          ⟨word, hb, hr⟩ | ⟨low, high, word, hb, hword, hr⟩
        · rw [hr, hb]
          constructor
          · intro h
            have hw := hfirst.one word hb h
            exact ⟨hw, by rw [hw]; exact h⟩
          · rintro ⟨hw, h⟩
            rw [show word = filler from hw] at h
            exact h
        · rw [hr, hb]
          constructor
          · intro h
            obtain ⟨rfl, rfl⟩ := hfirst.two low high hb word hword h
            exact ⟨⟨rfl, rfl⟩, by rcases hword with rfl | rfl <;> exact h⟩
          · rintro ⟨⟨rfl, rfl⟩, h⟩
            rcases hword with rfl | rfl <;> exact h
      have hrest : (words b).Blank filler → _ := fun hb =>
        ih (done ++ List.replicate (gap true (words b).isWide done.length) filler
            ++ (words b).toList)
          (k + if (words b).isWide then 2 else 1)
          (fun b' hb' => hlegible b' (List.mem_cons_of_mem _ hb'))
          (by simp only [List.length_append, length_toList]; omega)
          (((hblank.append fun word hword => List.eq_of_mem_replicate hword).append
            hb.eq_of_mem).mono (Nat.le_add_right _ _))
      rw [List.map_cons, List.map_cons, read, gap_packed, Nat.add_zero, List.forall₂_cons, hread,
        List.forall_mem_cons, lay]
      exact ⟨fun h => ⟨h.1, (hrest h.1.1).mp h.2⟩, fun h => ⟨h.1, (hrest h.1.1).mpr h.2⟩⟩

theorem exists_two_of_isWide {a : Words α} (h : a.isWide = true) :
    ∃ low high, a = .two low high := by
  cases a with
  | one word => cases h
  | two low high => exact ⟨low, high, rfl⟩

/-- A word that stays unused may count as laid. -/
theorem lay_gap {low high : α} {rest : List (Words α)} (hodd : done.length % 2 = 1) :
    lay true filler done (.two low high :: rest)
      = lay true filler (done ++ [filler]) (.two low high :: rest) := by
  have heven : (done.length + 1) % 2 = 0 := by omega
  simp [lay, Words.isWide, gap_wide, hodd, heven]

/-- **A callee that leaves no word unused** reads each argument as it was laid, and all are blank
from the first that was laid behind an unused word on. -/
theorem read_packed_iff (done : List α)
    (hlegible : FromGap (fun b => (words b).isWide) (Legible filler words holds) done.length args) :
    List.Forall₂ holds args (read false filler (lay true filler done (args.map words)) done.length
        (args.map fun b => (words b).isWide)) ↔
      (∀ b ∈ args, holds b (words b)) ∧ FromGap (fun b => (words b).isWide)
        (fun b => (words b).Blank filler) done.length args := by
  induction args generalizing done with
  | nil => exact ⟨fun _ => ⟨fun b hb => absurd hb List.not_mem_nil, trivial⟩, fun _ => .nil⟩
  | cons b rest ih =>
      -- where no word stays unused, the callee reads the argument and is still in step
      have hstep : gap true (words b).isWide done.length = 0 →
          FromGap (fun b => (words b).isWide) (Legible filler words holds)
            (done.length + if (words b).isWide then 2 else 1) rest →
          (List.Forall₂ holds (b :: rest) (read false filler
              (lay true filler done ((b :: rest).map words)) done.length
              ((b :: rest).map fun b => (words b).isWide)) ↔
            (∀ b' ∈ b :: rest, holds b' (words b')) ∧ FromGap (fun b => (words b).isWide)
              (fun b => (words b).Blank filler)
              (done.length + if (words b).isWide then 2 else 1) rest) := by
        intro hgap hlegible
        have hread := readOne_lay true filler done (words b) (rest.map words)
        have hrest := ih (done ++ (words b).toList)
        have hlay : lay true filler done (words b :: rest.map words)
            = lay true filler (done ++ (words b).toList) (rest.map words) := by
          rw [lay, hgap, List.replicate_zero, List.append_nil]
        rw [hgap, Nat.add_zero] at hread
        rw [List.length_append, length_toList, ← hlay] at hrest
        rw [List.map_cons, List.map_cons, read, gap_packed, Nat.add_zero, List.forall₂_cons, hread,
          hrest hlegible, List.forall_mem_cons, and_assoc]
      rw [FromGap] at hlegible ⊢
      cases hwide : (words b).isWide with
      | false =>
          rw [hwide, if_neg Bool.false_ne_true] at hstep hlegible
          rw [if_neg Bool.false_ne_true]
          exact hstep (gap_narrow _ _) hlegible
      | true =>
          rw [hwide, if_pos rfl] at hstep hlegible
          rw [if_pos rfl]
          rcases Nat.mod_two_eq_zero_or_one done.length with heven | hodd
          · rw [if_neg (by omega)] at hlegible ⊢
            exact hstep ((gap_wide _).trans heven) hlegible
          · -- the callee takes the unused word for the argument's first one
            rw [if_pos hodd] at hlegible ⊢
            obtain ⟨low, high, hb⟩ := exists_two_of_isWide hwide
            have hbehind := read_behind_iff (done ++ [filler]) done.length hlegible
              (by simp) (BlankFrom.append (fun j hj => List.getD_eq_default _ _ hj) (by simp))
            rw [List.map_cons, hb, ← lay_gap hodd] at hbehind
            rw [List.map_cons, hb, hbehind]
            exact ⟨fun h => ⟨fun b' hb' => (h b' hb').2, fun b' hb' => (h b' hb').1⟩,
              fun h b' hb' => ⟨h.2 b' hb', h.1 b' hb'⟩⟩

/-- What a callee of either convention takes for arguments that are laid at even words. -/
theorem read_iff (aligns : Bool) (done : List α)
    (hlegible : aligns = true ∨
      FromGap (fun b => (words b).isWide) (Legible filler words holds) done.length args) :
    List.Forall₂ holds args (read aligns filler (lay true filler done (args.map words)) done.length
        (args.map fun b => (words b).isWide)) ↔
      (∀ b ∈ args, holds b (words b)) ∧ (aligns = true ∨ FromGap (fun b => (words b).isWide)
        (fun b => (words b).Blank filler) done.length args) := by
  cases aligns with
  | true =>
      have hread := read_lay true filler done (args.map words)
      rw [List.map_map] at hread
      rw [show (args.map fun b => (words b).isWide) = args.map (Words.isWide ∘ words) from rfl,
        hread, List.forall₂_map_right_iff, List.forall₂_same]
      exact ⟨fun h => ⟨h, .inl rfl⟩, fun h => h.1⟩
  | false =>
      rw [read_packed_iff done (hlegible.resolve_left Bool.false_ne_true)]
      simp only [Bool.false_eq_true, false_or]

/-- Arguments that are blank from the gap on are read from their own words. -/
theorem read_own {aligns : Bool} (done : List α) (h : ∀ b ∈ args, holds b (words b))
    (hplaced : aligns = true ∨ FromGap (fun b => (words b).isWide)
      (fun b => (words b).Blank filler) done.length args) :
    List.Forall₂ holds args (read aligns filler (lay true filler done (args.map words)) done.length
        (args.map fun b => (words b).isWide)) := by
  -- the words themselves are always legible
  have hlegible : ∀ b ∈ args, Legible filler words (fun b w => words b = w) b := fun b _ =>
    ⟨fun word hb hw => by
      rw [hb] at hw
      injection hw, fun low high hb word hword hw => by
      rw [hb] at hw
      injection hw with hlow hhigh
      rcases hword with rfl | rfl
      · exact ⟨hlow, hhigh⟩
      · exact ⟨hlow, hhigh.trans hlow⟩⟩
  have hwords := (read_iff aligns done (.inr (.of_forall hlegible))).mpr ⟨fun _ _ => rfl, hplaced⟩
  have hown : List.Forall₂ (fun b w => b ∈ args ∧ words b = w) args _ :=
    (List.forall₂_and_left _ _).mpr ⟨fun _ hb => hb, hwords⟩
  refine hown.imp fun b w hw => ?_
  obtain ⟨hb, rfl⟩ := hw
  exact h b hb

end

end Katabasis.ArgumentWords
