import Katabasis.Xlate.Layout

set_option autoImplicit false

/-! # The lifting loop

The loop of `main` (`xlate/src/xlate.cpp`) that lifts every function of the program, and what the
jump tables of the lifted code lead to, round by round. What the lifter makes of an address, and
what `JumpTables::Resolve` evaluates a table to, are parameters (`Lifting`); which of these
addresses count is in the code: `JumpTables::Targets` takes those in the range of the function
that the address belongs to, among the functions known at the start.

A `std::set` of addresses is an ordered map to `Unit`, as `Program.functions` is; its addresses
in order are its keys.
-/

namespace Katabasis

open Std

abbrev AddressSet := ExtTreeMap UInt64 Unit

namespace AddressSet

/-- The addresses of a list, inserted in order. -/
def addAll (s : AddressSet) (l : List UInt64) : AddressSet := l.foldl (fun s a => s.insert a ()) s

theorem mem_insert_iff {s : AddressSet} {a b : UInt64} : b ∈ s.insert a () ↔ b = a ∨ b ∈ s := by
  rw [ExtTreeMap.mem_insert, LawfulEqCmp.compare_eq_iff_eq, @eq_comm _ a b]

theorem mem_addAll {s : AddressSet} {l : List UInt64} {a : UInt64} :
    a ∈ s.addAll l ↔ a ∈ l ∨ a ∈ s := by
  induction l generalizing s with
  | nil => simp [addAll]
  | cons b rest ih =>
      show a ∈ addAll (s.insert b ()) rest ↔ _
      rw [ih, mem_insert_iff, List.mem_cons]
      tauto

end AddressSet

/-! ## Jump tables -/

/-- What lifting and evaluating come to: whether an address can be lifted, and the addresses that
the jump tables of its code evaluate to. -/
structure Lifting where
  lifts : UInt64 → Bool
  evaluated : UInt64 → List UInt64

/-- `JumpTables::Owner`: the last start that is not behind the address, or the address. -/
def JumpTables.owner (starts : AddressSet) (address : UInt64) : UInt64 :=
  ((starts.keys.filter fun start => start ≤ address).getLast?).getD address

/-- `JumpTables::NextFunction` -/
def JumpTables.nextFunction (starts : AddressSet) (start : UInt64) : UInt64 :=
  (starts.keys.find? fun next => start < next).getD (start + 0x100000)

/-- `JumpTables::Targets`, of the code at an address. -/
def JumpTables.targets (l : Lifting) (starts : AddressSet) (address : UInt64) : List UInt64 :=
  let start := JumpTables.owner starts address
  (l.evaluated address).filter fun target =>
    start ≤ target && target < JumpTables.nextFunction starts start && target &&& 3 == 0

/-! ## The loop -/

structure LiftState where
  /-- `program.functions` -/
  functions : AddressSet
  /-- The keys of `lifter.functions`. -/
  lifted : AddressSet := ∅
  /-- The addresses reported as "cannot decode function". -/
  failed : List UInt64 := []
  tableTargets : Nat := 0
  /-- The calls of `Lift`, in order. -/
  attempted : List UInt64 := []

section

variable (l : Lifting) (starts : AddressSet)

/-- One address of a round: lifted, and the new targets of its jump tables noted. -/
def attempt (s : LiftState × AddressSet) (address : UInt64) : LiftState × AddressSet :=
  let st := { s.1 with attempted := s.1.attempted ++ [address] }
  if l.lifts address then
    let st := { st with lifted := st.lifted.insert address () }
    (st, s.2.addAll ((JumpTables.targets l starts address).filter fun target =>
      !st.functions.contains target && !st.lifted.contains target))
  else ({ st with failed := st.failed ++ [address] }, s.2)

/-- One round, and the addresses that it discovers. -/
def liftRound (pending : AddressSet) (st : LiftState) : LiftState × AddressSet :=
  let s := pending.keys.foldl (attempt l starts) (st, ∅)
  ({ s.1 with
      functions := s.1.functions.addAll s.2.keys
      tableTargets := s.1.tableTargets + s.2.size }, s.2)

/-- The loop; `none` only when the fuel runs out. -/
def liftLoop : Nat → AddressSet → LiftState → Option LiftState
  | 0, pending, st => if pending.isEmpty then some st else none
  | fuel + 1, pending, st =>
      if pending.isEmpty then some st
      else liftLoop fuel (liftRound l starts pending st).2 (liftRound l starts pending st).1

end

/-- The loop over the functions of a program. -/
def Program.liftAll (p : Program) (l : Lifting) (fuel : Nat) : Option LiftState :=
  liftLoop l p.functions fuel p.functions { functions := p.functions }

/-! ## Ranges -/

/-- The addresses between a start and the next one. -/
def startRange (starts : AddressSet) (start : UInt64) : Finset Nat :=
  Finset.Ico start.toNat (JumpTables.nextFunction starts start).toNat

/-- The addresses in the range of some start. -/
def ownedRange (starts : AddressSet) : Finset Nat :=
  starts.keys.toFinset.biUnion (startRange starts)

/-- How many rounds are enough: the ranges' lengths, and one. -/
def liftBound (starts : AddressSet) : Nat :=
  (starts.keys.map fun start => (JumpTables.nextFunction starts start).toNat - start.toNat).sum + 1

theorem card_ownedRange_lt (starts : AddressSet) : (ownedRange starts).card < liftBound starts := by
  refine Nat.lt_succ_of_le ?_
  calc (ownedRange starts).card
      ≤ ∑ start ∈ starts.keys.toFinset, (startRange starts start).card := Finset.card_biUnion_le
    _ = ∑ start ∈ starts.keys.toFinset,
          ((JumpTables.nextFunction starts start).toNat - start.toNat) := by simp [startRange]
    _ = _ := List.sum_toFinset _ ExtTreeMap.nodup_keys

theorem owner_mem {starts : AddressSet} {address : UInt64}
    (h : ∃ start ∈ starts, start ≤ address) : JumpTables.owner starts address ∈ starts := by
  obtain ⟨start, hmem, hle⟩ := h
  have hin : start ∈ starts.keys.filter fun start => start ≤ address :=
    List.mem_filter.mpr ⟨ExtTreeMap.mem_keys.mpr hmem, by simpa using hle⟩
  unfold JumpTables.owner
  cases hlast : (starts.keys.filter fun start => start ≤ address).getLast? with
  | none =>
      rw [List.getLast?_eq_none_iff] at hlast
      rw [hlast] at hin
      cases hin
  | some last =>
      have hlast := List.mem_of_getLast? hlast
      exact ExtTreeMap.mem_keys.mp (List.mem_filter.mp hlast).1

theorem mem_ownedRange {l : Lifting} {starts : AddressSet} {address target : UInt64}
    (h : target ∈ JumpTables.targets l starts address) (howner : JumpTables.owner starts address ∈ starts) :
    target.toNat ∈ ownedRange starts ∧ ∃ start ∈ starts, start ≤ target := by
  have hrange := (List.mem_filter.mp h).2
  simp only [Bool.and_eq_true, decide_eq_true_eq] at hrange
  refine ⟨Finset.mem_biUnion.mpr ⟨JumpTables.owner starts address, ?_, ?_⟩, _, howner, hrange.1.1⟩
  · exact List.mem_toFinset.mpr (ExtTreeMap.mem_keys.mpr howner)
  · exact Finset.mem_Ico.mpr ⟨UInt64.le_iff_toNat_le.mp hrange.1.1,
      UInt64.lt_iff_toNat_lt.mp hrange.1.2⟩

/-! ## What a round does -/

section

variable {l : Lifting} {starts : AddressSet}

/-- **The invariant between two rounds.** An address is known when it was attempted or is
pending, and nothing pending was attempted before. -/
structure Rounds (l : Lifting) (starts pending : AddressSet) (st : LiftState) : Prop where
  nodup : st.attempted.Nodup
  functions : ∀ a, a ∈ st.functions ↔ a ∈ st.attempted ∨ a ∈ pending
  apart : ∀ a ∈ pending, a ∉ st.attempted
  lifted : ∀ a, a ∈ st.lifted ↔ a ∈ st.attempted ∧ l.lifts a = true
  failed : ∀ a, a ∈ st.failed ↔ a ∈ st.attempted ∧ l.lifts a = false
  closed : ∀ a ∈ st.lifted, ∀ target ∈ JumpTables.targets l starts a, target ∈ st.functions
  above : ∀ a ∈ st.functions, ∃ start ∈ starts, start ≤ a
  starts_known : ∀ a ∈ starts, a ∈ st.functions

/-- What the addresses of a round come to, the targets that are known already left out. -/
structure Attempted (l : Lifting) (starts : AddressSet) (s : LiftState × AddressSet)
    (list : List UInt64) (s' : LiftState × AddressSet) : Prop where
  functions : s'.1.functions = s.1.functions
  attempted : s'.1.attempted = s.1.attempted ++ list
  lifted : ∀ a, a ∈ s'.1.lifted ↔ a ∈ s.1.lifted ∨ a ∈ list ∧ l.lifts a = true
  failed : ∀ a, a ∈ s'.1.failed ↔ a ∈ s.1.failed ∨ a ∈ list ∧ l.lifts a = false
  discovered : ∀ target, target ∈ s'.2 ↔ target ∈ s.2 ∨ ∃ a ∈ list, l.lifts a = true ∧
    target ∈ JumpTables.targets l starts a ∧ target ∉ s.1.functions

/-- What is lifted is known, so the second half of the test for new targets adds nothing. -/
theorem attempt_attempted {s : LiftState × AddressSet} {address : UInt64}
    (hlifted : ∀ a ∈ s.1.lifted, a ∈ s.1.functions) (haddress : address ∈ s.1.functions) :
    Attempted l starts s [address] (attempt l starts s address) := by
  unfold attempt
  dsimp only
  cases hlifts : l.lifts address with
  | false =>
      -- a function that is not lifted is failed, and has no targets
      refine ⟨rfl, rfl, fun a => ?_, fun a => ?_, fun target => ?_⟩
      · constructor
        · exact .inl
        · rintro (h | ⟨h, hyes⟩)
          · exact h
          · rw [List.mem_singleton.mp h, hlifts] at hyes
            cases hyes
      · show a ∈ s.1.failed ++ [address] ↔ _
        rw [List.mem_append]
        refine or_congr_right ⟨fun h => ⟨h, ?_⟩, fun h => h.1⟩
        rw [List.mem_singleton.mp h]
        exact hlifts
      · constructor
        · exact .inl
        · rintro (h | ⟨a, h, hyes, -⟩)
          · exact h
          · rw [List.mem_singleton.mp h, hlifts] at hyes
            cases hyes
  | true =>
      refine ⟨rfl, rfl, fun a => ?_, fun a => ?_, fun target => ?_⟩
      · show a ∈ s.1.lifted.insert address () ↔ _
        rw [AddressSet.mem_insert_iff, or_comm]
        refine or_congr_right ⟨fun h => ⟨List.mem_singleton.mpr h, ?_⟩,
          fun h => List.mem_singleton.mp h.1⟩
        rw [h]
        exact hlifts
      · constructor
        · exact .inl
        · rintro (h | ⟨h, hno⟩)
          · exact h
          · rw [List.mem_singleton.mp h, hlifts] at hno
            cases hno
      · -- a target that is a function already is not discovered, and lifted ones are functions
        show target ∈ s.2.addAll _ ↔ _
        rw [AddressSet.mem_addAll, or_comm, List.mem_filter]
        refine or_congr_right ?_
        have hcontains : ∀ known : AddressSet, (!known.contains target) = true ↔ target ∉ known :=
          fun known => by rw [ExtTreeMap.mem_iff_contains, Bool.not_eq_true', Bool.not_eq_true]
        simp only [Bool.and_eq_true, hcontains, List.mem_singleton, exists_eq_left]
        constructor
        · rintro ⟨htarget, hnew, -⟩
          exact ⟨hlifts, htarget, hnew⟩
        · rintro ⟨-, htarget, hnew⟩
          refine ⟨htarget, hnew, fun hin => hnew ?_⟩
          rcases AddressSet.mem_insert_iff.mp hin with rfl | hin
          · exact haddress
          · exact hlifted target hin

theorem Attempted.trans {s s' s'' : LiftState × AddressSet} {first second : List UInt64}
    (h : Attempted l starts s first s') (h' : Attempted l starts s' second s'') :
    Attempted l starts s (first ++ second) s'' where
  functions := h'.functions.trans h.functions
  attempted := by rw [h'.attempted, h.attempted, List.append_assoc]
  lifted := fun a => by rw [h'.lifted, h.lifted, List.mem_append]; tauto
  failed := fun a => by rw [h'.failed, h.failed, List.mem_append]; tauto
  discovered := fun target => by
    rw [h'.discovered, h.discovered, h.functions, or_assoc]
    refine or_congr_right ?_
    simp only [List.mem_append, or_and_right, exists_or]

theorem foldl_attempted {list : List UInt64} {s : LiftState × AddressSet}
    (hlifted : ∀ a ∈ s.1.lifted, a ∈ s.1.functions) (hlist : ∀ a ∈ list, a ∈ s.1.functions) :
    Attempted l starts s list (list.foldl (attempt l starts) s) := by
  induction list generalizing s with
  | nil => exact ⟨rfl, by simp, by simp, by simp, by simp⟩
  | cons address rest ih =>
      have hstep : Attempted l starts s [address] (attempt l starts s address) :=
        attempt_attempted hlifted (hlist address List.mem_cons_self)
      refine hstep.trans (ih (fun a ha => ?_) fun a ha => ?_)
      · rw [hstep.functions]
        rcases (hstep.lifted a).mp ha with ha | ⟨ha, -⟩
        · exact hlifted a ha
        · rw [List.mem_singleton.mp ha]
          exact hlist address List.mem_cons_self
      · rw [hstep.functions]
        exact hlist a (List.mem_cons_of_mem _ ha)

/-- **A round keeps the invariant**: what it discovers is new, and in the range of a start. -/
theorem rounds_liftRound {pending : AddressSet} {st : LiftState}
    (h : Rounds l starts pending st) :
    Rounds l starts (liftRound l starts pending st).2 (liftRound l starts pending st).1 ∧
      (∀ a, a ∈ (liftRound l starts pending st).1.functions ↔
        a ∈ st.functions ∨ a ∈ (liftRound l starts pending st).2) ∧
      ∀ a ∈ (liftRound l starts pending st).2,
        a ∉ st.functions ∧ a.toNat ∈ ownedRange starts := by
  have hkeys : ∀ a, a ∈ pending.keys ↔ a ∈ pending := fun a => ExtTreeMap.mem_keys
  -- all attempts of a round see the functions as they were in front of it
  have hround : Attempted l starts (st, ∅) pending.keys
      (pending.keys.foldl (attempt l starts) (st, ∅)) :=
    foldl_attempted (fun a ha => (h.functions a).mpr (.inl ((h.lifted a).mp ha).1))
      fun a ha => (h.functions a).mpr (.inr ((hkeys a).mp ha))
  have hfunctions : ∀ a, a ∈ (liftRound l starts pending st).1.functions ↔
      a ∈ st.functions ∨ a ∈ (liftRound l starts pending st).2 := by
    intro a
    show a ∈ AddressSet.addAll _ _ ↔ _
    rw [AddressSet.mem_addAll, hround.functions, ExtTreeMap.mem_keys, or_comm]
    rfl
  have hdiscovered : ∀ target, target ∈ (liftRound l starts pending st).2 ↔
      ∃ a ∈ pending, l.lifts a = true ∧ target ∈ JumpTables.targets l starts a ∧
        target ∉ st.functions := by
    intro target
    refine (hround.discovered target).trans ?_
    simp only [hkeys, ExtTreeMap.not_mem_empty, false_or]
  have hranges : ∀ target ∈ (liftRound l starts pending st).2,
      target.toNat ∈ ownedRange starts ∧ ∃ start ∈ starts, start ≤ target := by
    intro target htarget
    obtain ⟨a, ha, -, hmem, -⟩ := (hdiscovered target).mp htarget
    exact mem_ownedRange hmem (owner_mem (h.above a ((h.functions a).mpr (.inr ha))))
  have hattempted : ∀ a, a ∈ (liftRound l starts pending st).1.attempted ↔
      a ∈ st.attempted ∨ a ∈ pending := by
    intro a
    show a ∈ (List.foldl (attempt l starts) (st, ∅) pending.keys).1.attempted ↔ _
    rw [hround.attempted, List.mem_append, hkeys]
  refine ⟨⟨?_, ?_, ?_, ?_, ?_, ?_, ?_, ?_⟩, hfunctions, fun a ha => ?_⟩
  · show (List.foldl (attempt l starts) (st, ∅) pending.keys).1.attempted.Nodup
    rw [hround.attempted]
    refine List.nodup_append.mpr ⟨h.nodup, ExtTreeMap.nodup_keys, fun a ha b hb heq => ?_⟩
    exact h.apart b ((hkeys b).mp hb) (heq ▸ ha)
  · intro a
    rw [hfunctions, hattempted, h.functions]
  · intro a ha hold
    obtain ⟨-, -, -, -, hnew⟩ := (hdiscovered a).mp ha
    exact hnew ((h.functions a).mpr ((hattempted a).mp hold))
  · intro a
    refine (hround.lifted a).trans ?_
    rw [hattempted, h.lifted, hkeys, or_and_right]
  · intro a
    refine (hround.failed a).trans ?_
    rw [hattempted, h.failed, hkeys, or_and_right]
  · intro a ha target htarget
    rw [hfunctions]
    rcases (hround.lifted a).mp ha with ha | ⟨ha, hlifts⟩
    · exact .inl (h.closed a ha target htarget)
    · by_cases hknown : target ∈ st.functions
      · exact .inl hknown
      · exact .inr ((hdiscovered target).mpr ⟨a, (hkeys a).mp ha, hlifts, htarget, hknown⟩)
  · intro a ha
    rcases (hfunctions a).mp ha with ha | ha
    · exact h.above a ha
    · exact (hranges a ha).2
  · exact fun a ha => (hfunctions a).mpr (.inl (h.starts_known a ha))
  · obtain ⟨-, -, -, -, hnew⟩ := (hdiscovered a).mp ha
    exact ⟨hnew, (hranges a ha).1⟩

/-! ## The loop ends -/

/-- The addresses in the ranges that are not known yet. -/
def unknown (starts functions : AddressSet) : Finset Nat :=
  ownedRange starts \ (functions.keys.map UInt64.toNat).toFinset

theorem mem_unknown {functions : AddressSet} {n : Nat} :
    n ∈ unknown starts functions ↔ n ∈ ownedRange starts ∧ ∀ a ∈ functions, a.toNat ≠ n := by
  unfold unknown
  simp only [Finset.mem_sdiff, List.mem_toFinset, List.mem_map, ExtTreeMap.mem_keys, not_exists,
    not_and, ne_eq]

theorem card_unknown_lt {functions functions' discovered : AddressSet}
    (hfunctions : ∀ a, a ∈ functions' ↔ a ∈ functions ∨ a ∈ discovered)
    (hnew : ∀ a ∈ discovered, a ∉ functions ∧ a.toNat ∈ ownedRange starts) {a : UInt64}
    (ha : a ∈ discovered) :
    (unknown starts functions').card < (unknown starts functions).card := by
  refine Finset.card_lt_card (Finset.ssubset_iff_subset_ne.mpr ⟨fun n hn => ?_, fun heq => ?_⟩)
  · obtain ⟨hin, hno⟩ := mem_unknown.mp hn
    exact mem_unknown.mpr ⟨hin, fun b hb => hno b ((hfunctions b).mpr (.inl hb))⟩
  · -- the discovered address was unknown, and is known now
    have hwas : a.toNat ∈ unknown starts functions := by
      refine mem_unknown.mpr ⟨(hnew a ha).2, fun b hb hsame => (hnew a ha).1 ?_⟩
      rw [← UInt64.toNat_inj.mp hsame]
      exact hb
    rw [← heq] at hwas
    exact (mem_unknown.mp hwas).2 a ((hfunctions a).mpr (.inr ha)) rfl

theorem exists_mem_of_isEmpty_eq_false {s : AddressSet} (h : s.isEmpty = false) :
    ∃ a, a ∈ s := by
  cases hkeys : s.keys with
  | nil =>
      rw [ExtTreeMap.keys_eq_nil_iff] at hkeys
      rw [hkeys] at h
      exact absurd ExtTreeMap.isEmpty_empty (by rw [h]; decide)
  | cons a rest => exact ⟨a, ExtTreeMap.mem_keys.mp (by rw [hkeys]; exact List.mem_cons_self)⟩

/-- **The loop ends** with nothing pending, within as many rounds as there are unknown
addresses, and one. -/
theorem liftLoop_rounds {fuel : Nat} {pending : AddressSet} {st : LiftState}
    (h : Rounds l starts pending st)
    (hfuel : pending.isEmpty = true ∨ (unknown starts st.functions).card < fuel) :
    ∃ st', liftLoop l starts fuel pending st = some st' ∧ Rounds l starts ∅ st' := by
  have hempty : pending.isEmpty = true → Rounds l starts ∅ st := by
    intro hnone
    have heq : pending = ∅ := ExtTreeMap.isEmpty_iff.mp hnone
    rw [← heq]
    exact h
  induction fuel generalizing pending st with
  | zero =>
      have hnone := hfuel.resolve_right (Nat.not_lt_zero _)
      exact ⟨st, by rw [liftLoop, if_pos hnone], hempty hnone⟩
  | succ fuel ih =>
      cases hpending : pending.isEmpty with
      | true => exact ⟨st, by rw [liftLoop, if_pos hpending], hempty hpending⟩
      | false =>
          obtain ⟨hrounds, hfunctions, hnew⟩ := rounds_liftRound h
          have hlt := hfuel.resolve_left (by rw [hpending]; decide)
          -- a round that discovers something leaves fewer owned addresses unknown
          have hnext : (liftRound l starts pending st).2.isEmpty = true ∨
              (unknown starts (liftRound l starts pending st).1.functions).card < fuel := by
            cases hdiscovered : (liftRound l starts pending st).2.isEmpty with
            | true => exact .inl rfl
            | false =>
                obtain ⟨a, ha⟩ := exists_mem_of_isEmpty_eq_false hdiscovered
                have := card_unknown_lt hfunctions hnew ha
                exact .inr (by omega)
          obtain ⟨st', hrun, hlast⟩ := ih hrounds hnext fun hnone => by
            rw [← ExtTreeMap.isEmpty_iff.mp hnone]
            exact hrounds
          refine ⟨st', ?_, hlast⟩
          rw [liftLoop, if_neg (by rw [hpending]; decide)]
          exact hrun

/-- More fuel does not change a result. -/
theorem liftLoop_mono {fuel more : Nat} (hle : fuel ≤ more) {pending : AddressSet}
    {st st' : LiftState} (h : liftLoop l starts fuel pending st = some st') :
    liftLoop l starts more pending st = some st' := by
  induction fuel generalizing more pending st with
  | zero =>
      rw [liftLoop] at h
      split at h
      case isTrue hnone =>
        cases more with
        | zero => rwa [liftLoop, if_pos hnone]
        | succ more => rwa [liftLoop, if_pos hnone]
      case isFalse => cases h
  | succ fuel ih =>
      obtain ⟨more, rfl⟩ := Nat.exists_eq_add_of_lt hle
      rw [liftLoop] at h ⊢
      split at h
      case isTrue hnone => rwa [if_pos hnone]
      case isFalse hsome =>
        rw [if_neg hsome]
        exact ih (by omega) h

/-- At the start every function of the program is pending. -/
theorem rounds_start (starts : AddressSet) :
    Rounds l starts starts { functions := starts } where
  nodup := List.nodup_nil
  functions := fun a => by simp
  apart := fun _ _ h => absurd h List.not_mem_nil
  lifted := fun a => by simp
  failed := fun a => by simp
  closed := fun a ha => absurd ha ExtTreeMap.not_mem_empty
  above := fun a ha => ⟨a, ha, UInt64.le_refl a⟩
  starts_known := fun _ ha => ha

/-- **The lifting loop reaches a closed set and stops**, whatever can be lifted and whatever the
jump tables come to: no address is attempted twice, every known one is attempted, and each target
of the code that is lifted is lifted itself or reported. -/
theorem liftAll_closed (p : Program) (l : Lifting) :
    ∃ st, (∀ fuel, liftBound p.functions ≤ fuel → p.liftAll l fuel = some st) ∧
      st.attempted.Nodup ∧
      (∀ a ∈ p.functions, a ∈ st.functions) ∧ (∀ a ∈ st.functions, a ∈ st.attempted) ∧
      (∀ a, a ∈ st.lifted ↔ a ∈ st.attempted ∧ l.lifts a = true) ∧
      (∀ a, a ∈ st.failed ↔ a ∈ st.attempted ∧ l.lifts a = false) ∧
      ∀ a ∈ st.lifted, ∀ target ∈ JumpTables.targets l p.functions a,
        target ∈ st.lifted ∨ target ∈ st.failed := by
  have hunknown : (unknown p.functions p.functions).card < liftBound p.functions :=
    Nat.lt_of_le_of_lt (Finset.card_le_card Finset.sdiff_subset) (card_ownedRange_lt _)
  obtain ⟨st, hrun, h⟩ := liftLoop_rounds (rounds_start (l := l) p.functions) (.inr hunknown)
  have hattempted : ∀ a ∈ st.functions, a ∈ st.attempted := fun a ha =>
    ((h.functions a).mp ha).resolve_right ExtTreeMap.not_mem_empty
  refine ⟨st, fun fuel hfuel => liftLoop_mono hfuel hrun, h.nodup, h.starts_known, hattempted,
    h.lifted, h.failed, fun a ha target htarget => ?_⟩
  have hknown := hattempted target (h.closed a ha target htarget)
  cases hlifts : l.lifts target with
  | true => exact .inl ((h.lifted target).mpr ⟨hknown, hlifts⟩)
  | false => exact .inr ((h.failed target).mpr ⟨hknown, hlifts⟩)

end

end Katabasis
