import Katabasis.Lib.Interning

set_option autoImplicit false

/-! # Guest functions as host function pointers

A guest passes the address of one of its functions to the host. `CallbackBridge`
(`xlate/src/xlgen.cpp`) generates thirty-two host functions, the *thunks*, for each host type of
such a parameter, and the runtime hands one of them out for each guest function
(`xl_callback_slot`, `runtime/bridge.m`). When the host calls a thunk, it looks up its target and
invokes the guest.

Requests come from any thread, one at a time under a lock; a thunk reads its target without one. So
a run is any sequence of requests and calls.
-/

namespace Katabasis.Callbacks

open Interning

/-! ## The pool -/

def poolSize : Nat := 32

/-- `xl_callback_targets`: signature, slot, target; zero where a slot is free. -/
structure Pool where
  targets : Nat → Nat → UInt64 := fun _ _ => 0

namespace Pool

/-- The loop of `xl_callback_slot`: the first slot that has the target, or is free. -/
def slotFor (pool : Pool) (signature : Nat) (target : UInt64) : Option Nat :=
  (List.range poolSize).find? fun slot =>
    pool.targets signature slot == target || pool.targets signature slot == 0

def set (pool : Pool) (signature slot : Nat) (target : UInt64) : Pool where
  targets s k := if s = signature ∧ k = slot then target else pool.targets s k

/-- `xl_callback_slot`; nothing where it aborts. -/
def callbackSlot (pool : Pool) (signature : Nat) (target : UInt64) : Option (Nat × Pool) :=
  (pool.slotFor signature target).map fun slot => (slot, pool.set signature slot target)

end Pool

/-- What the host gets for a function pointer. -/
inductive HostFunction
  | null
  /-- A value that stands for no function (`SQLITE_TRANSIENT`, `SIG_ERR`). -/
  | sentinel (value : UInt32)
  | thunk (signature slot : Nat)
  deriving DecidableEq, Repr

/-- The values of `target` that a thunk is for. -/
def isFunction (target : UInt64) : Bool := target < 0xFFFFFFFFFFFFFF00 && target != 0

/-- The `_host` function of a signature. -/
def callbackHost (pool : Pool) (signature : Nat) (target : UInt64) :
    Option (HostFunction × Pool) :=
  if target ≥ 0xFFFFFFFFFFFFFF00 then some (.sentinel target.toUInt32, pool)
  else if target ≠ 0 then
    (pool.callbackSlot signature target).map fun (slot, pool) => (.thunk signature slot, pool)
  else some (.null, pool)

/-- The `_enter` function of a signature: the guest function that a thunk invokes. -/
def callbackEnter (pool : Pool) (signature slot : Nat) : UInt64 := pool.targets signature slot

/-! ## Runs -/

inductive CallbackEvent
  | lend (signature : Nat) (target : UInt64)
  | call (signature slot : Nat)
  deriving DecidableEq, Repr

inductive CallbackOutcome
  | lent (f : HostFunction)
  | invoked (target : UInt64)
  deriving DecidableEq, Repr

def callbackStep (pool : Pool) : CallbackEvent → Option (CallbackOutcome × Pool)
  | .lend signature target =>
      (callbackHost pool signature target).map fun (f, pool) => (.lent f, pool)
  | .call signature slot => some (.invoked (callbackEnter pool signature slot), pool)

/-- What the events of a run give, in order; nothing where the program aborts. -/
def callbackRun (pool : Pool) : List CallbackEvent → Option (List CallbackOutcome)
  | [] => some []
  | event :: rest =>
      (callbackStep pool event).bind fun (outcome, pool) =>
        (callbackRun pool rest).map fun outcomes => outcome :: outcomes

/-- The functions that the events ask thunks of a signature for. -/
def functionsOf (signature : Nat) (events : List CallbackEvent) : List UInt64 :=
  events.filterMap fun
    | .lend s target => if s = signature ∧ isFunction target then some target else none
    | .call _ _ => none

/-! ## The pool as a table of functions -/

/-- For each signature, the functions that have thunks, in the order of the slots. -/
abbrev Tables := Nat → List UInt64

structure Represents (pool : Pool) (tables : Tables) : Prop where
  fits : ∀ signature, (tables signature).length ≤ poolSize
  function : ∀ signature, ∀ target ∈ tables signature, target ≠ 0
  nodup : ∀ signature, (tables signature).Nodup
  targets : ∀ signature, ∀ slot < poolSize,
    pool.targets signature slot = ((tables signature)[slot]?).getD 0

theorem represents_empty : Represents {} fun _ => [] where
  fits _ := Nat.zero_le _
  function _ _ h := absurd h List.not_mem_nil
  nodup _ := List.nodup_nil
  targets _ _ _ := rfl

section

variable {pool : Pool} {tables : Tables} (h : Represents pool tables) {signature : Nat}
  {target : UInt64}

include h

/-- **The slot of a function** is its number in the table, with the function in it; there is none
where the table is full without it. -/
theorem slotFor_eq (htarget : target ≠ 0) :
    pool.slotFor signature target
      = if (add (tables signature) target).length ≤ poolSize then
          some ((add (tables signature) target).idxOf target)
        else none := by
  have hfits := h.fits signature
  -- a slot in front of the end of the table is taken, by the function that is there
  have htaken : ∀ slot (hslot : slot < (tables signature).length),
      pool.targets signature slot = (tables signature)[slot] ∧
        pool.targets signature slot ≠ 0 := by
    intro slot hslot
    have heq : pool.targets signature slot = (tables signature)[slot] := by
      rw [h.targets signature slot (by omega), List.getElem?_eq_getElem hslot, Option.getD_some]
    exact ⟨heq, heq ▸ h.function signature _ (List.getElem_mem hslot)⟩
  unfold add Pool.slotFor
  by_cases hmem : target ∈ tables signature
  · rw [if_pos hmem, if_pos hfits, List.find?_range_eq_some]
    have hlt := List.idxOf_lt_length_of_mem hmem
    have hself := (htaken _ hlt).1
    rw [List.getElem_idxOf hlt] at hself
    refine ⟨by simp [hself], List.mem_range.mpr (by omega), fun slot hslot => ?_⟩
    obtain ⟨heq, hne⟩ := htaken slot (by omega)
    have hother : pool.targets signature slot ≠ target := by
      rw [heq]
      intro hsame
      have hidx := (h.nodup signature).idxOf_getElem slot (by omega)
      rw [hsame] at hidx
      omega
    simp [hother, hne]
  · rw [if_neg hmem, List.length_append, List.length_singleton]
    have hbusy : ∀ slot (hslot : slot < (tables signature).length),
        (pool.targets signature slot == target || pool.targets signature slot == 0) = false := by
      intro slot hslot
      obtain ⟨heq, hne⟩ := htaken slot hslot
      have hother : pool.targets signature slot ≠ target := by
        rw [heq]
        rintro rfl
        exact hmem (List.getElem_mem hslot)
      simp [hother, hne]
    split
    case isTrue hroom =>
      have hidx : (tables signature ++ [target]).idxOf target = (tables signature).length := by
        rw [List.idxOf_append, if_neg hmem]
        simp
      have hfree : pool.targets signature (tables signature).length = 0 := by
        rw [h.targets signature _ (by omega), List.getElem?_eq_none (Nat.le_refl _),
          Option.getD_none]
      rw [hidx, List.find?_range_eq_some]
      refine ⟨by simp [hfree], List.mem_range.mpr (by omega), fun slot hslot => ?_⟩
      rw [hbusy slot hslot]
      rfl
    case isFalse hfull =>
      rw [List.find?_eq_none]
      intro slot hslot
      rw [hbusy slot (by have := List.mem_range.mp hslot; omega)]
      exact Bool.false_ne_true

/-- The pool with a function in its slot. -/
theorem represents_set (htarget : target ≠ 0)
    (hroom : (add (tables signature) target).length ≤ poolSize) :
    Represents (pool.set signature ((add (tables signature) target).idxOf target) target)
      (Function.update tables signature (add (tables signature) target)) where
  fits s := by
    by_cases hs : s = signature
    · subst hs
      rwa [Function.update_self]
    · rw [Function.update_of_ne hs]
      exact h.fits s
  function s t ht := by
    by_cases hs : s = signature
    · subst hs
      rw [Function.update_self, mem_add] at ht
      rcases ht with ht | rfl
      · exact h.function s t ht
      · exact htarget
    · rw [Function.update_of_ne hs] at ht
      exact h.function s t ht
  nodup s := by
    by_cases hs : s = signature
    · subst hs
      rw [Function.update_self]
      exact nodup_add (h.nodup s) target
    · rw [Function.update_of_ne hs]
      exact h.nodup s
  targets s slot hslot := by
    by_cases hs : s = signature
    · subst hs
      rw [Function.update_self]
      have hmem : target ∈ add (tables s) target := mem_add.mpr (.inr rfl)
      by_cases hself : slot = (add (tables s) target).idxOf target
      · rw [hself, getElem?_idxOf hmem]
        simp [Pool.set]
      · -- every other slot is as it was, and so is the table
        have hkept : (Pool.set pool s ((add (tables s) target).idxOf target) target).targets s slot
            = pool.targets s slot := by simp [Pool.set, hself]
        rw [hkept, h.targets s slot hslot]
        unfold add at hself ⊢
        split
        case isTrue => rfl
        case isFalse hnot =>
          rw [if_neg hnot, List.idxOf_append, if_neg hnot] at hself
          simp only [List.idxOf_cons_self, Nat.zero_add] at hself
          congr 1
          rw [List.getElem?_append]
          split
          case isTrue => rfl
          case isFalse hge =>
            rw [List.getElem?_eq_none (by omega), List.getElem?_eq_none (by simp; omega)]
    · rw [Function.update_of_ne hs, ← h.targets s slot hslot]
      simp [Pool.set, hs]

end

/-! ## One event -/

/-- What the host gets for a function pointer, by the tables with the function in it. -/
def pointer (tables : Tables) (signature : Nat) (target : UInt64) : HostFunction :=
  if isFunction target then .thunk signature ((tables signature).idxOf target)
  else if target = 0 then .null
  else .sentinel target.toUInt32

/-- The tables behind an event. -/
def tablesAfter (tables : Tables) (events : List CallbackEvent) : Tables := fun signature =>
  addAll (tables signature) (functionsOf signature events)

theorem functionsOf_cons (signature : Nat) (event : CallbackEvent) (rest : List CallbackEvent) :
    functionsOf signature (event :: rest)
      = functionsOf signature [event] ++ functionsOf signature rest := by
  rw [functionsOf, functionsOf, functionsOf, ← List.filterMap_append]
  rfl

theorem tablesAfter_cons (tables : Tables) (event : CallbackEvent) (rest : List CallbackEvent) :
    tablesAfter tables (event :: rest) = tablesAfter (tablesAfter tables [event]) rest := by
  funext signature
  rw [tablesAfter, functionsOf_cons, addAll_append]
  rfl

/-- What an event gives, when `tables` have all functions asked for so far. -/
def outcomeOf (tables : Tables) : CallbackEvent → CallbackOutcome
  | .lend signature target => .lent (pointer tables signature target)
  | .call signature slot => .invoked (((tables signature)[slot]?).getD 0)

/-- The tables fit into the pool. -/
def Fit (tables : Tables) : Prop := ∀ signature, (tables signature).length ≤ poolSize

/-- The slots that a run calls are slots of the pool: thunks have no others. -/
def InPool : CallbackEvent → Prop
  | .lend _ _ => True
  | .call _ slot => slot < poolSize

theorem isFunction_iff {target : UInt64} :
    isFunction target = true ↔ ¬ target ≥ 0xFFFFFFFFFFFFFF00 ∧ target ≠ 0 := by
  simp [isFunction, UInt64.not_le]

/-- **One event** of a run: it aborts when the tables with its function do not fit any more, and
otherwise the pool has them. -/
theorem callbackStep_eq {pool : Pool} {tables : Tables} (h : Represents pool tables)
    {event : CallbackEvent} (hin : InPool event) :
    (Fit (tablesAfter tables [event]) → ∃ pool',
      callbackStep pool event = some (outcomeOf (tablesAfter tables [event]) event, pool') ∧
        Represents pool' (tablesAfter tables [event])) ∧
    (¬ Fit (tablesAfter tables [event]) → callbackStep pool event = none) := by
  -- an event that asks for no function leaves the tables
  have hsame : (∀ s, functionsOf s [event] = []) → tablesAfter tables [event] = tables := by
    intro hnone
    funext s
    rw [tablesAfter, hnone, addAll_nil]
  cases event with
  | call signature slot =>
      rw [hsame fun s => rfl]
      refine ⟨fun _ => ⟨pool, ?_, h⟩, fun hnot => absurd h.fits hnot⟩
      rw [outcomeOf, ← h.targets signature slot hin]
      rfl
  | lend signature target =>
      by_cases hfun : isFunction target = true
      · obtain ⟨hsentinel, hnull⟩ := isFunction_iff.mp hfun
        have htables : tablesAfter tables [.lend signature target]
            = Function.update tables signature (add (tables signature) target) := by
          funext s
          by_cases hs : s = signature
          · subst hs
            rw [Function.update_self, tablesAfter]
            simp [functionsOf, hfun]
          · rw [Function.update_of_ne hs, tablesAfter]
            simp [functionsOf, Ne.symm hs]
        have hfit : Fit (tablesAfter tables [.lend signature target])
            ↔ (add (tables signature) target).length ≤ poolSize := by
          rw [htables]
          constructor
          · intro hall
            simpa using hall signature
          · intro hroom s
            by_cases hs : s = signature
            · subst hs
              rwa [Function.update_self]
            · rw [Function.update_of_ne hs]
              exact h.fits s
        rw [hfit]
        have hslot : pool.slotFor signature target = _ := slotFor_eq h hnull
        constructor
        · intro hroom
          refine ⟨_, ?_, htables ▸ represents_set h hnull hroom⟩
          rw [if_pos hroom] at hslot
          simp [callbackStep, callbackHost, Pool.callbackSlot, hsentinel, hnull, hslot, outcomeOf,
            pointer, hfun, htables]
        · intro hfull
          rw [if_neg hfull] at hslot
          simp [callbackStep, callbackHost, Pool.callbackSlot, hsentinel, hnull, hslot]
      · have hnone : ∀ s, functionsOf s [.lend signature target] = [] := by
          intro s
          simp [functionsOf, hfun]
        rw [hsame hnone]
        refine ⟨fun _ => ⟨pool, ?_, h⟩, fun hnot => absurd h.fits hnot⟩
        by_cases hsentinel : target ≥ 0xFFFFFFFFFFFFFF00
        · have hne : target ≠ 0 := by
            rintro rfl
            exact absurd hsentinel (by decide)
          simp [callbackStep, callbackHost, hsentinel, outcomeOf, pointer, hfun, hne]
        · have hzero : target = 0 := by
            by_contra hne
            exact hfun (isFunction_iff.mpr ⟨hsentinel, hne⟩)
          subst hzero
          simp [callbackStep, callbackHost, outcomeOf, pointer, isFunction]

/-! ## The run -/

theorem length_tablesAfter_mono (tables : Tables) (event : CallbackEvent)
    (rest : List CallbackEvent) (h : Fit (tablesAfter tables (event :: rest))) :
    Fit (tablesAfter tables [event]) := by
  intro signature
  have hprefix := prefix_addAll (tablesAfter tables [event] signature) (functionsOf signature rest)
  have hall := h signature
  rw [tablesAfter_cons] at hall
  exact hprefix.length_le.trans hall

/-- A run goes through when the functions of all its events fit into the pool, and then each event
gives what the tables in front of it, with its own function, say. -/
theorem callbackRun_eq {pool : Pool} {tables : Tables} (h : Represents pool tables)
    {events : List CallbackEvent} (hin : ∀ event ∈ events, InPool event) :
    (¬ Fit (tablesAfter tables events) → callbackRun pool events = none) ∧
    (Fit (tablesAfter tables events) → ∃ outcomes, callbackRun pool events = some outcomes ∧
      ∀ i, outcomes[i]? = (events[i]?).map fun event =>
        outcomeOf (tablesAfter tables (events.take (i + 1))) event) := by
  induction events generalizing pool tables with
  | nil =>
      refine ⟨fun hnot => absurd h.fits hnot, fun _ => ⟨[], rfl, fun i => by simp⟩⟩
  | cons event rest ih =>
      rw [List.forall_mem_cons] at hin
      obtain ⟨hstep, habort⟩ := callbackStep_eq h hin.1
      by_cases hone : Fit (tablesAfter tables [event])
      · obtain ⟨pool', hpool', hrepresents⟩ := hstep hone
        obtain ⟨hfull, hrest⟩ := ih hrepresents hin.2
        rw [tablesAfter_cons, callbackRun, hpool', Option.bind_some]
        constructor
        · intro hnot
          simp only [hfull hnot, Option.map_none]
        · intro hall
          obtain ⟨outcomes, houtcomes, hget⟩ := hrest hall
          refine ⟨outcomeOf (tablesAfter tables [event]) event :: outcomes,
            by simp only [houtcomes, Option.map_some], fun i => ?_⟩
          cases i with
          | zero => rfl
          | succ i =>
              rw [List.getElem?_cons_succ, List.getElem?_cons_succ, hget i, List.take_succ_cons,
                tablesAfter_cons tables event (rest.take (i + 1))]
      · refine ⟨fun _ => ?_, fun hall => absurd (length_tablesAfter_mono tables event rest hall) hone⟩
        rw [callbackRun, habort hone, Option.bind_none]

theorem mem_functionsOf {signature : Nat} {target : UInt64} {events : List CallbackEvent}
    (h : CallbackEvent.lend signature target ∈ events) (hfun : isFunction target = true) :
    target ∈ functionsOf signature events :=
  List.mem_filterMap.mpr ⟨_, h, by simp [hfun]⟩

theorem prefix_tablesAfter (tables : Tables) (events : List CallbackEvent) (n signature : Nat) :
    tablesAfter tables (events.take n) signature <+: tablesAfter tables events signature := by
  have hsplit : functionsOf signature events
      = functionsOf signature (events.take n) ++ functionsOf signature (events.drop n) := by
    rw [functionsOf, functionsOf, functionsOf, ← List.filterMap_append, List.take_append_drop]
  rw [tablesAfter, tablesAfter, hsplit, addAll_append]
  exact prefix_addAll _ _

section

variable {events : List CallbackEvent} {tables : Tables}

/-- A function that an event asks for is in the tables from then on. -/
theorem mem_tablesAfter {i signature : Nat} {target : UInt64}
    (h : events[i]? = some (.lend signature target)) (hfun : isFunction target = true) :
    target ∈ tablesAfter tables (events.take (i + 1)) signature := by
  apply mem_addAll.mpr
  right
  apply mem_functionsOf _ hfun
  apply List.mem_of_getElem? (i := i)
  rw [List.getElem?_take_of_lt (Nat.lt_succ_self i), h]

/-- The pointer for a function is the same at every event. -/
theorem pointer_tablesAfter {i signature : Nat} {target : UInt64}
    (h : events[i]? = some (.lend signature target)) :
    pointer (tablesAfter tables (events.take (i + 1))) signature target
      = pointer (tablesAfter tables events) signature target := by
  unfold pointer
  by_cases hfun : isFunction target = true
  · rw [if_pos hfun, if_pos hfun, idxOf_of_prefix (prefix_tablesAfter tables events (i + 1)
      signature) (mem_tablesAfter h hfun)]
  · rw [if_neg hfun, if_neg hfun]

theorem toUInt32_inj_of_sentinel {a b : UInt64} (ha : a ≥ 0xFFFFFFFFFFFFFF00)
    (hb : b ≥ 0xFFFFFFFFFFFFFF00) (h : a.toUInt32 = b.toUInt32) : a = b := by
  have hlow := congrArg UInt32.toNat h
  rw [UInt64.toNat_toUInt32, UInt64.toNat_toUInt32] at hlow
  have ha' := UInt64.le_iff_toNat_le.mp ha
  have hb' := UInt64.le_iff_toNat_le.mp hb
  have hlast : (0xFFFFFFFFFFFFFF00 : UInt64).toNat = 0xFFFFFFFFFFFFFF00 := rfl
  have ha'' := a.toNat_lt
  have hb'' := b.toNat_lt
  exact UInt64.toNat_inj.mp (by omega)

/-- **One pointer for one guest value**, as long as its functions are in the tables. -/
theorem pointer_inj {signature : Nat} {a b : UInt64}
    (ha : isFunction a = true → a ∈ tables signature) :
    pointer tables signature a = pointer tables signature b ↔ a = b := by
  refine ⟨fun h => ?_, fun h => by rw [h]⟩
  unfold pointer at h
  by_cases hfa : isFunction a = true
  · by_cases hfb : isFunction b = true
    · rw [if_pos hfa, if_pos hfb, HostFunction.thunk.injEq] at h
      exact (idxOf_inj (ha hfa)).mp h.2
    · rw [if_pos hfa, if_neg hfb] at h
      split at h <;> cases h
  · by_cases hfb : isFunction b = true
    · rw [if_neg hfa, if_pos hfb] at h
      split at h <;> cases h
    · rw [if_neg hfa, if_neg hfb] at h
      rw [isFunction_iff, not_and_or, not_not, not_not] at hfa hfb
      by_cases hza : a = 0
      · by_cases hzb : b = 0
        · rw [hza, hzb]
        · rw [if_pos hza, if_neg hzb] at h
          cases h
      · by_cases hzb : b = 0
        · rw [if_neg hza, if_pos hzb] at h
          cases h
        · rw [if_neg hza, if_neg hzb, HostFunction.sentinel.injEq] at h
          exact toUInt32_inj_of_sentinel (hfa.resolve_right hza) (hfb.resolve_right hzb) h

end

/-- **A thunk stands for its function.** In every run, the host gets the same pointer for the same
guest value and different ones for different values; a thunk invokes the function that it was
handed out for, however much later it is called; and the program aborts exactly when more than
thirty-two functions are passed for one signature. -/
theorem callbacks_keep_functions (events : List CallbackEvent)
    (hin : ∀ event ∈ events, InPool event) :
    (callbackRun {} events = none ↔
      ∃ signature, poolSize < (functionsOf signature events).eraseDups.length) ∧
    ∀ outcomes, callbackRun {} events = some outcomes →
      (∀ (i j signature : Nat) (target target' : UInt64) (f f' : HostFunction),
        events[i]? = some (.lend signature target) → events[j]? = some (.lend signature target') →
        outcomes[i]? = some (.lent f) → outcomes[j]? = some (.lent f') →
        (f = f' ↔ target = target')) ∧
      ∀ (i j signature signature' slot : Nat) (target : UInt64), i < j →
        events[i]? = some (.lend signature target) →
        outcomes[i]? = some (.lent (.thunk signature' slot)) →
        events[j]? = some (.call signature' slot) → outcomes[j]? = some (.invoked target) := by
  obtain ⟨hfull, hruns⟩ := callbackRun_eq represents_empty hin
  have hfit : Fit (tablesAfter (fun _ => []) events) ↔
      ∀ signature, (functionsOf signature events).eraseDups.length ≤ poolSize := by
    simp only [Fit, tablesAfter, addAll_eq_eraseDups]
  constructor
  · constructor
    · intro hnone
      by_contra hroom
      push Not at hroom
      obtain ⟨outcomes, houtcomes, -⟩ := hruns (hfit.mpr hroom)
      rw [hnone] at houtcomes
      cases houtcomes
    · rintro ⟨signature, hlt⟩
      apply hfull
      intro hall
      have := hfit.mp hall signature
      omega
  · intro outcomes houtcomes
    have hall : Fit (tablesAfter (fun _ => []) events) := by
      by_contra hnot
      rw [hfull hnot] at houtcomes
      cases houtcomes
    obtain ⟨outcomes', houtcomes', hget⟩ := hruns hall
    rw [houtcomes, Option.some_inj] at houtcomes'
    subst houtcomes'
    have hlent : ∀ (i signature : Nat) (target : UInt64) (f : HostFunction),
        events[i]? = some (.lend signature target) → outcomes[i]? = some (.lent f) →
        f = pointer (tablesAfter (fun _ => []) events) signature target := by
      intro i signature target f hevent houtcome
      rw [hget i, hevent, Option.map_some, outcomeOf, pointer_tablesAfter hevent] at houtcome
      cases houtcome
      rfl
    have hmem : ∀ (i signature : Nat) (target : UInt64),
        events[i]? = some (.lend signature target) → isFunction target = true → target ∈ tablesAfter (fun _ => []) events signature := by
      intro i signature target hevent hfun
      exact (prefix_tablesAfter _ events (i + 1) signature).subset (mem_tablesAfter hevent hfun)
    constructor
    · intro i j signature target target' f f' hi hj hf hf'
      rw [hlent i signature target f hi hf, hlent j signature target' f' hj hf']
      exact pointer_inj (hmem i signature target hi)
    · intro i j signature signature' slot target hlt hi hf hj
      have hpointer := hlent i signature target _ hi hf
      -- a thunk is for a function, at its number
      have hfun : isFunction target = true := by
        by_contra hnot
        rw [pointer, if_neg hnot] at hpointer
        split at hpointer <;> cases hpointer
      rw [pointer, if_pos hfun, HostFunction.thunk.injEq] at hpointer
      obtain ⟨rfl, hslot⟩ := hpointer
      have hthere : target ∈ tablesAfter (fun _ => []) (events.take (j + 1)) signature' := by
        apply mem_addAll.mpr
        right
        apply mem_functionsOf _ hfun
        apply List.mem_of_getElem? (i := i)
        rw [List.getElem?_take_of_lt (by omega), hi]
      have hnumber := idxOf_of_prefix (prefix_tablesAfter (fun _ => []) events (j + 1) signature')
        hthere
      rw [hget j, hj, Option.map_some, outcomeOf, hslot, hnumber, getElem?_idxOf hthere,
        Option.getD_some]

/-- Two functions of one signature, and a sentinel; the thunks are called in the other order. -/
theorem callbacks_keep_functions_two :
    ∃ outcomes, callbackRun {} [.lend 3 0x1000, .lend 3 0xFFFFFFFFFFFFFFFF, .lend 3 0x2000,
        .call 3 1, .call 3 0] = some outcomes ∧
      outcomes[3]? = some (.invoked 0x2000) ∧ outcomes[4]? = some (.invoked 0x1000) := by
  have hkeep := (callbacks_keep_functions [.lend 3 0x1000, .lend 3 0xFFFFFFFFFFFFFFFF,
    .lend 3 0x2000, .call 3 1, .call 3 0] (by simp [InPool, poolSize])).2 _ rfl
  refine ⟨_, rfl, ?_, ?_⟩
  · exact hkeep.2 2 3 3 3 1 0x2000 (by decide) rfl rfl rfl
  · exact hkeep.2 0 4 3 3 0 0x1000 (by decide) rfl rfl rfl

end Katabasis.Callbacks
