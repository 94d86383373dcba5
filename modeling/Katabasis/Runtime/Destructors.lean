import Mathlib.Tactic

set_option autoImplicit false

/-! # The destructors of a translated program

`xl_manual___cxa_atexit` and `xl_run_cxa_dtors` (`runtime/bridge.m`): the static initializers of a
translated program register their destructors here, and the runner invokes them "ourselves, newest
first, through xl_invoke at process exit". A destructor is guest code and may register others.

The runner takes the count when it starts, and goes down from there: what a destructor registers
is put behind the entries it goes through. `onceNewestFirst_iff`: each destructor runs once, newest
first, exactly when none registers another.
-/

namespace Katabasis

namespace Destructors

/-- `struct xl_cxa_entry` -/
structure CxaEntry where
  func : UInt64
  arg : UInt64
  deriving DecidableEq

/-- What happens to entry `i` of the list. -/
inductive Event
  | registered (i : Nat) (entry : CxaEntry)
  | invoked (i : Nat) (entry : CxaEntry)
  deriving DecidableEq

/-- `xl_cxa_list` up to `xl_cxa_count`, `xl_cxa_cap` and `xl_cxa_armed`. `log` is kept for the
statements about it only. -/
structure CxaState where
  list : List CxaEntry := []
  cap : Nat := 0
  armed : Bool := false
  log : List Event := []

/-- `xl_manual___cxa_atexit`. The `realloc` of a full list keeps its entries. -/
def xlManualCxaAtexit (s : CxaState) (entry : CxaEntry) : CxaState where
  list := s.list ++ [entry]
  cap := if s.list.length = s.cap then (if s.cap ≠ 0 then s.cap * 2 else 128) else s.cap
  armed := true
  log := s.log ++ [.registered s.list.length entry]

/-- The guest: what a destructor registers, from the calls the guest has had so far, its own
last. -/
abbrev Guest := List CxaEntry → List CxaEntry

def Event.call : Event → Option CxaEntry
  | .registered _ _ => none
  | .invoked _ entry => some entry

/-- `xl_invoke` of entry `i`. -/
def xlInvoke (guest : Guest) (i : Nat) (s : CxaState) : CxaState :=
  match s.list[i]? with
  | none => s
  | some entry =>
      let log := s.log ++ [.invoked i entry]
      (guest (log.filterMap Event.call)).foldl xlManualCxaAtexit { s with log }

/-- The loop of the runner, with `i` entries to go. -/
def runDown (guest : Guest) : Nat → CxaState → CxaState
  | 0, s => s
  | i + 1, s => runDown guest i (xlInvoke guest i s)

/-- `xl_run_cxa_dtors` -/
def xlRunCxaDtors (guest : Guest) (s : CxaState) : CxaState := runDown guest s.list.length s

/-- The exit of a process that has registered `entries`. -/
def exitAfter (guest : Guest) (entries : List CxaEntry) : CxaState :=
  let s := entries.foldl xlManualCxaAtexit {}
  if s.armed then xlRunCxaDtors guest s else s

/-- **Once, newest first.** Each destructor that is registered runs once, and one that is chosen
is the last registered of those that have not run. -/
structure OnceNewestFirst (log : List Event) : Prop where
  once : ∀ i entry, .registered i entry ∈ log → log.count (.invoked i entry) = 1
  newest : ∀ before i entry after, log = before ++ .invoked i entry :: after →
    .registered i entry ∈ before ∧ .invoked i entry ∉ before ∧
      ∀ j other, .registered j other ∈ before → .invoked j other ∉ before → j ≤ i

/-! ## Registration -/

section

variable {s : CxaState} {entries : List CxaEntry}

/-- The list has each entry that the log has registered, and no other. -/
def Logged (s : CxaState) : Prop :=
  ∀ i entry, .registered i entry ∈ s.log ↔ s.list[i]? = some entry

theorem logged_xlManualCxaAtexit (h : Logged s) (entry : CxaEntry) :
    Logged (xlManualCxaAtexit s entry) := by
  intro i other
  simp only [xlManualCxaAtexit, List.mem_append, List.mem_singleton, Event.registered.injEq, h i]
  constructor
  · rintro (hold | ⟨rfl, rfl⟩)
    · have hi : i < s.list.length := (List.getElem?_eq_some_iff.mp hold).1
      rw [List.getElem?_append_left hi, hold]
    · exact List.getElem?_concat_length
  · intro hget
    by_cases hi : i < s.list.length
    · rw [List.getElem?_append_left hi] at hget
      exact Or.inl hget
    · rw [List.getElem?_append_right (Nat.le_of_not_lt hi), List.getElem?_singleton] at hget
      split at hget
      case isTrue hzero =>
          injection hget with hentry
          exact Or.inr ⟨by omega, hentry.symm⟩
      case isFalse => cases hget

theorem list_foldl (s : CxaState) (entries : List CxaEntry) :
    (entries.foldl xlManualCxaAtexit s).list = s.list ++ entries := by
  induction entries generalizing s with
  | nil => simp
  | cons entry rest ih =>
      rw [List.foldl_cons, ih]
      simp [xlManualCxaAtexit]

theorem logged_foldl (h : Logged s) : Logged (entries.foldl xlManualCxaAtexit s) := by
  induction entries generalizing s with
  | nil => exact h
  | cons entry rest ih => exact ih (logged_xlManualCxaAtexit h entry)

/-- Registrations invoke nothing. -/
theorem invoked_foldl {i : Nat} {entry : CxaEntry} :
    .invoked i entry ∈ (entries.foldl xlManualCxaAtexit s).log ↔ .invoked i entry ∈ s.log := by
  induction entries generalizing s with
  | nil => exact Iff.rfl
  | cons first rest ih =>
      rw [List.foldl_cons, ih]
      simp [xlManualCxaAtexit]

theorem armed_foldl (hne : entries ≠ []) :
    (entries.foldl xlManualCxaAtexit s).armed = true := by
  induction entries generalizing s with
  | nil => exact absurd rfl hne
  | cons first rest ih =>
      rw [List.foldl_cons]
      cases rest with
      | nil => rfl
      | cons second rest => exact ih (List.cons_ne_nil second rest)

end

/-! ## The runner -/

section

variable {guest : Guest} {n : Nat}

/-- The runner goes through the `n` entries that were there when it started. -/
structure Running (n : Nat) (s : CxaState) : Prop where
  logged : Logged s
  within : ∀ i entry, .invoked i entry ∈ s.log → i < n
  length : n ≤ s.list.length

theorem running_xlInvoke {s : CxaState} (h : Running n s) {i : Nat} (hi : i < n) :
    Running n (xlInvoke guest i s) ∧ s.list.length ≤ (xlInvoke guest i s).list.length := by
  unfold xlInvoke
  split
  case h_1 => exact ⟨h, Nat.le_refl _⟩
  case h_2 entry hget =>
      refine ⟨⟨logged_foldl fun j other => ?_, fun j other hj => ?_, ?_⟩, ?_⟩
      · rw [← h.logged j other]
        simp
      · rw [invoked_foldl, List.mem_append, List.mem_singleton, Event.invoked.injEq] at hj
        rcases hj with hold | ⟨rfl, -⟩
        · exact h.within j other hold
        · exact hi
      · rw [list_foldl, List.length_append]
        exact le_trans h.length (Nat.le_add_right _ _)
      · rw [list_foldl, List.length_append]
        exact Nat.le_add_right _ _

theorem running_runDown {i : Nat} (hi : i ≤ n) {s : CxaState} (h : Running n s) :
    Running n (runDown guest i s) ∧ s.list.length ≤ (runDown guest i s).list.length := by
  induction i generalizing s with
  | zero => exact ⟨h, Nat.le_refl _⟩
  | succ i ih =>
      obtain ⟨hstep, hgrows⟩ := @running_xlInvoke guest _ _ h _ hi
      obtain ⟨hrest, hgrows'⟩ := ih (Nat.le_of_succ_le hi) hstep
      exact ⟨hrest, le_trans hgrows hgrows'⟩

/-- The calls of a runner that is down to `i`: the entries from there on, newest first. -/
def History (entries : List CxaEntry) (i : Nat) (s : CxaState) : Prop :=
  s.list = entries ∧ s.log.filterMap Event.call = (entries.drop i).reverse

/-- The events of the runner from `i` down, if nothing is registered. -/
def descent (entries : List CxaEntry) : Nat → List Event
  | 0 => []
  | i + 1 =>
      (match entries[i]? with
        | some entry => [.invoked i entry]
        | none => []) ++ descent entries i

variable {entries : List CxaEntry}

/-- One call, of a guest that gets the calls so far. -/
theorem xlInvoke_history {i : Nat} (hi : i < entries.length) {s : CxaState}
    (h : History entries (i + 1) s) :
    xlInvoke guest i s = (guest (entries.drop i).reverse).foldl xlManualCxaAtexit
      { s with log := s.log ++ [.invoked i entries[i]] } := by
  obtain ⟨hlist, hcalls⟩ := h
  have hget : s.list[i]? = some entries[i] := by rw [hlist, List.getElem?_eq_getElem hi]
  have hhistory : (s.log ++ [Event.invoked i entries[i]]).filterMap Event.call
      = (entries.drop i).reverse := by
    rw [List.filterMap_append, hcalls, List.drop_eq_getElem_cons hi, List.reverse_cons]
    rfl
  simp only [xlInvoke, hget, hhistory]

/-- **Where no destructor registers another**, the runner goes through all of them. -/
theorem runDown_quiet {i : Nat} (hi : i ≤ entries.length)
    (hquiet : ∀ j < i, guest (entries.drop j).reverse = []) {s : CxaState}
    (h : History entries i s) :
    runDown guest i s = { s with log := s.log ++ descent entries i } := by
  induction i generalizing s with
  | zero => simp [runDown, descent]
  | succ i ih =>
      have hstep : xlInvoke guest i s = { s with log := s.log ++ [.invoked i entries[i]] } := by
        rw [xlInvoke_history hi h, hquiet i (Nat.lt_succ_self i), List.foldl_nil]
      have hnext : History entries i (xlInvoke guest i s) := by
        rw [hstep]
        refine ⟨h.1, ?_⟩
        rw [List.filterMap_append, h.2, List.drop_eq_getElem_cons hi, List.reverse_cons]
        rfl
      rw [runDown, ih (Nat.le_of_succ_le hi) (fun j hj => hquiet j (Nat.lt_succ_of_lt hj)) hnext,
        hstep, descent, List.getElem?_eq_getElem hi]
      simp

/-- Where some destructor registers another, the list has grown in the end. -/
theorem runDown_grows {i : Nat} (hi : i ≤ entries.length) {s : CxaState}
    (h : History entries i s) (hrun : Running entries.length s)
    (hloud : ∃ j < i, guest (entries.drop j).reverse ≠ []) :
    entries.length < (runDown guest i s).list.length := by
  induction i generalizing s with
  | zero =>
      obtain ⟨j, hj, -⟩ := hloud
      omega
  | succ i ih =>
      obtain ⟨hrunning, -⟩ := @running_xlInvoke guest _ _ hrun _ hi
      have hstep := @xlInvoke_history guest _ _ hi _ h
      rw [runDown]
      by_cases hnow : guest (entries.drop i).reverse = []
      · -- this one is quiet: one further down is not
        rw [hnow, List.foldl_nil] at hstep
        apply ih (Nat.le_of_succ_le hi) _ hrunning
        · obtain ⟨j, hj, hne⟩ := hloud
          refine ⟨j, ?_, hne⟩
          have hji : j ≠ i := fun heq => hne (heq ▸ hnow)
          omega
        · rw [hstep]
          refine ⟨h.1, ?_⟩
          rw [List.filterMap_append, h.2, List.drop_eq_getElem_cons hi, List.reverse_cons]
          rfl
      · have hlength := congrArg (fun t => t.list.length) hstep
        simp only [list_foldl, List.length_append, h.1] at hlength
        have hpos := List.length_pos_iff.mpr hnow
        have hgrows := (@running_runDown guest _ _ (Nat.le_of_succ_le hi) _ hrunning).2
        omega

/-! ## The quiet log -/

theorem mem_descent {i j : Nat} {entry : CxaEntry} :
    .invoked j entry ∈ descent entries i ↔ j < i ∧ entries[j]? = some entry := by
  induction i with
  | zero => simp [descent]
  | succ i ih =>
      rw [descent, List.mem_append, ih]
      constructor
      · rintro (hfirst | ⟨hj, hget⟩)
        · split at hfirst
          case h_1 other hother =>
              rw [List.mem_singleton, Event.invoked.injEq] at hfirst
              obtain ⟨rfl, rfl⟩ := hfirst
              exact ⟨Nat.lt_succ_self _, hother⟩
          case h_2 => cases hfirst
        · exact ⟨Nat.lt_succ_of_lt hj, hget⟩
      · rintro ⟨hj, hget⟩
        by_cases heq : j = i
        · subst heq
          left
          rw [hget]
          exact List.mem_singleton_self _
        · exact Or.inr ⟨by omega, hget⟩

theorem not_registered_descent {i j : Nat} {entry : CxaEntry} :
    .registered j entry ∉ descent entries i := by
  induction i with
  | zero => simp [descent]
  | succ i ih =>
      rw [descent, List.mem_append, not_or]
      refine ⟨?_, ih⟩
      split <;> simp

theorem nodup_descent (i : Nat) : (descent entries i).Nodup := by
  induction i with
  | zero => exact List.nodup_nil
  | succ i ih =>
      rw [descent]
      split
      case h_1 entry _ =>
          rw [List.singleton_append, List.nodup_cons]
          exact ⟨fun hmem => Nat.lt_irrefl i (mem_descent.mp hmem).1, ih⟩
      case h_2 => rwa [List.nil_append]

/-- An event of the descent has all the later entries before it, and no other. -/
theorem descent_split {i j : Nat} {entry : CxaEntry} {before after : List Event}
    (h : descent entries i = before ++ .invoked j entry :: after) {k : Nat} {other : CxaEntry} :
    .invoked k other ∈ before ↔ j < k ∧ k < i ∧ entries[k]? = some other := by
  induction i generalizing before with
  | zero => simp [descent] at h
  | succ i ih =>
      rw [descent] at h
      cases hget : entries[i]? with
      | none =>
          rw [hget, List.nil_append] at h
          rw [ih h]
          constructor
          · exact fun ⟨hjk, hki, hk⟩ => ⟨hjk, Nat.lt_succ_of_lt hki, hk⟩
          · rintro ⟨hjk, hki, hk⟩
            have hne : k ≠ i := fun heq => by rw [heq, hget] at hk; cases hk
            exact ⟨hjk, by omega, hk⟩
      | some last =>
          rw [hget, List.singleton_append] at h
          cases before with
          | nil =>
              -- the first event of the descent: nothing is before it
              rw [List.nil_append] at h
              injection h with hhead _
              injection hhead with hij _
              simp only [List.not_mem_nil, false_iff, not_and]
              omega
          | cons first rest =>
              rw [List.cons_append] at h
              injection h with hhead htail
              have hj : j < i := by
                have hmem : .invoked j entry ∈ descent entries i := by
                  rw [htail]
                  simp
                exact (mem_descent.mp hmem).1
              rw [List.mem_cons, ih htail, ← hhead, Event.invoked.injEq]
              constructor
              · rintro (⟨rfl, rfl⟩ | ⟨hjk, hki, hk⟩)
                · exact ⟨hj, Nat.lt_succ_self _, hget⟩
                · exact ⟨hjk, Nat.lt_succ_of_lt hki, hk⟩
              · rintro ⟨hjk, hki, hk⟩
                by_cases heq : k = i
                · subst heq
                  rw [hget] at hk
                  injection hk with hk
                  exact Or.inl ⟨rfl, hk.symm⟩
                · exact Or.inr ⟨hjk, by omega, hk⟩

end

/-! ## The exit of a process -/

/-- The list and the log when the process exits. -/
theorem registered_entries (entries : List CxaEntry) :
    let s := entries.foldl xlManualCxaAtexit {}
    s.list = entries ∧ Logged s ∧ ∀ i entry, .invoked i entry ∉ s.log := by
  refine ⟨by rw [list_foldl]; simp, logged_foldl fun i entry => by simp, fun i entry hmem => ?_⟩
  rw [invoked_foldl] at hmem
  cases hmem

theorem exitAfter_eq (guest : Guest) (entries : List CxaEntry) :
    exitAfter guest entries
      = runDown guest entries.length (entries.foldl xlManualCxaAtexit {}) := by
  have hlist := (registered_entries entries).1
  rw [exitAfter]
  by_cases hne : entries = []
  · subst hne
    rfl
  · simp only [armed_foldl hne, if_true, xlRunCxaDtors, hlist]

/-- **Each destructor runs once, newest first, exactly when none registers another** while it
runs: the guest has been called with the entries from `i` on, newest first, when entry `i` runs. -/
theorem onceNewestFirst_iff (guest : Guest) (entries : List CxaEntry) :
    OnceNewestFirst (exitAfter guest entries).log ↔
      ∀ i < entries.length, guest (entries.drop i).reverse = [] := by
  obtain ⟨hlist, hlogged, hnone⟩ := registered_entries entries
  rw [exitAfter_eq]
  generalize entries.foldl xlManualCxaAtexit {} = s at hlist hlogged hnone
  have hhistory : History entries entries.length s := by
    refine ⟨hlist, ?_⟩
    rw [List.drop_length, List.reverse_nil, List.filterMap_eq_nil_iff]
    intro event hevent
    cases event with
    | registered i entry => rfl
    | invoked i entry => exact absurd hevent (hnone i entry)
  have hrun : Running entries.length s :=
    ⟨hlogged, fun i entry hmem => absurd hmem (hnone i entry), Nat.le_of_eq (by rw [hlist])⟩
  constructor
  · intro honce
    by_contra hloud
    push Not at hloud
    have hgrown := runDown_grows (Nat.le_refl _) hhistory hrun hloud
    have hend := (@running_runDown guest _ _ (Nat.le_refl _) _ hrun).1
    -- the entry behind the snapshot is registered, and the runner never comes to it
    have hget := List.getElem?_eq_getElem hgrown
    have hcount := honce.once _ _ ((hend.logged _ _).mpr hget)
    have hmem := List.count_pos_iff.mp (Nat.lt_of_lt_of_eq Nat.zero_lt_one hcount.symm)
    exact Nat.lt_irrefl _ (hend.within _ _ hmem)
  · intro hquiet
    rw [runDown_quiet (Nat.le_refl _) hquiet hhistory]
    have hregistered : ∀ {i entry},
        .registered i entry ∈ s.log ++ descent entries entries.length ↔
          entries[i]? = some entry := by
      intro i entry
      rw [List.mem_append, hlogged i entry, hlist, or_iff_left not_registered_descent]
    constructor
    · intro i entry hmem
      have hget := hregistered.mp hmem
      have hi := (List.getElem?_eq_some_iff.mp hget).1
      show (s.log ++ descent entries entries.length).count _ = 1
      rw [List.count_append, List.count_eq_zero_of_not_mem (hnone i entry), Nat.zero_add]
      exact List.count_eq_one_of_mem (nodup_descent _) (mem_descent.mpr ⟨hi, hget⟩)
    · intro before i entry after hsplit
      -- an invocation stands behind all the registrations
      obtain ⟨ran, hbefore, hdescent⟩ : ∃ ran, before = s.log ++ ran ∧
          descent entries entries.length = ran ++ .invoked i entry :: after := by
        rcases List.append_eq_append_iff.mp hsplit with ⟨ran, hran⟩ | ⟨rest, hrest, htail⟩
        · exact ⟨ran, hran⟩
        · cases rest with
          | nil => exact ⟨[], by simpa using hrest.symm, by simpa using htail.symm⟩
          | cons first rest =>
              injection htail with hfirst
              refine absurd ?_ (hnone i entry)
              rw [hrest, hfirst]
              simp
      have hmem : .invoked i entry ∈ descent entries entries.length := by
        rw [hdescent]
        simp
      have hget := (mem_descent.mp hmem).2
      have hran : ∀ {k other}, .invoked k other ∈ before ↔
          i < k ∧ k < entries.length ∧ entries[k]? = some other := by
        intro k other
        rw [hbefore, List.mem_append, or_iff_right (hnone k other), descent_split hdescent]
      have hall : ∀ {k other}, .registered k other ∈ before ↔ entries[k]? = some other := by
        intro k other
        rw [hbefore, List.mem_append, hlogged k other, hlist, or_iff_left]
        intro hreg
        have hreg' : .registered k other ∈ descent entries entries.length := by
          rw [hdescent]
          exact List.mem_append_left _ hreg
        exact not_registered_descent hreg'
      refine ⟨hall.mpr hget, fun hi => Nat.lt_irrefl i (hran.mp hi).1, ?_⟩
      intro j other hj hnot
      have hgetj := hall.mp hj
      by_contra hlt
      exact hnot (hran.mpr ⟨by omega, (List.getElem?_eq_some_iff.mp hgetj).1, hgetj⟩)

/-- A function-local static constructed by the destructor of `first`. -/
def registersOne (first second : CxaEntry) : Guest :=
  fun calls => if calls = [first] then [second] else []

/-- The destructor that the other registers never runs. -/
theorem not_onceNewestFirst :
    ¬ ∀ (guest : Guest) (entries : List CxaEntry),
      OnceNewestFirst (exitAfter guest entries).log := by
  intro hclaim
  have honce := (hclaim (registersOne ⟨0x1000, 1⟩ ⟨0x2000, 2⟩) [⟨0x1000, 1⟩]).once 1 ⟨0x2000, 2⟩
    (by decide)
  revert honce
  decide

end Destructors

end Katabasis
