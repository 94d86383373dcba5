import Katabasis.Lib.Runs

set_option autoImplicit false

/-! # Reference counts of a guest block

A guest block that the host or ARC holds has a wrapper, a host block whose count stands for all
the references (`runtime/objc_bridge.m`). The wrapper is made by the first of them and holds one
reference to the guest block, which its dispose helper drops.

The ledger says what the entry points of ARC mean: how many references are owned, and how many
autoreleases are due when the pool drains. The wrapper's count is what the ledger says, and one
more for each autorelease: `xl_block_autorelease` takes a reference of its own and never gives
up the one it was called for (`accounted_run`).
-/

namespace Katabasis

open Runs

/-- What the guest, or the host in passing the block on, does with a guest block. -/
inductive ArcOp
  | retain
  | retainBlock
  | retainAutoreleasedReturnValue
  | claimAutoreleasedReturnValue
  | release
  | autorelease
  | autoreleaseReturnValue
  | retainAutoreleaseReturnValue
  | unsafeClaimAutoreleasedReturnValue
  | objectIn
  | drain
  deriving DecidableEq, Repr

/-! ## What the operations mean -/

/-- The references that are owned, the autoreleases due at the next drain, and those that
earlier drains carried out. -/
structure Ledger where
  owned : Nat := 0
  pending : Nat := 0
  drained : Nat := 0
  deriving DecidableEq, Repr

/-- The ledger after an operation; none where the count of owned references would go below
zero. -/
def ledgerStep (l : Ledger) : ArcOp → Option Ledger
  | .retain | .retainBlock | .retainAutoreleasedReturnValue | .claimAutoreleasedReturnValue =>
      some { l with owned := l.owned + 1 }
  | .release => if l.owned = 0 then none else some { l with owned := l.owned - 1 }
  | .autorelease | .autoreleaseReturnValue => some { l with pending := l.pending + 1 }
  | .retainAutoreleaseReturnValue | .unsafeClaimAutoreleasedReturnValue | .objectIn => some l
  | .drain =>
      if l.owned < l.pending then none
      else some ⟨l.owned - l.pending, 0, l.drained + l.pending⟩

def ledger (ops : List ArcOp) : Option Ledger := ops.foldlM ledgerStep {}

/-! ## What the runtime does -/

/-- The wrappers of one guest block: the host count of each that was made (zero once it is
freed), the entry of `xl_block_forward`, and the pending autoreleases, newest first. Of the
guest block itself, how often wrappers copied and released it. -/
structure GuestBlock where
  wrappers : List Nat := []
  forward : Option Nat := none
  pool : List Nat := []
  copies : Nat := 0
  releases : Nat := 0
  /-- A wrapper was released after it was freed. -/
  fault : Bool := false
  deriving DecidableEq, Repr

/-- `xl_wrapper_for`: the wrapper of the block, with a reference for the caller. -/
def xlWrapperFor (b : GuestBlock) : Nat × GuestBlock :=
  match b.forward with
  | some w => (w, { b with wrappers := b.wrappers.modify w (· + 1) })
  | none =>
      (b.wrappers.length,
        { b with
          wrappers := b.wrappers ++ [1]
          forward := some b.wrappers.length
          copies := b.copies + 1 })

/-- `xl_block_dispose_helper` -/
def xlBlockDisposeHelper (b : GuestBlock) : GuestBlock :=
  { b with forward := none, releases := b.releases + 1 }

/-- `_Block_release` of a wrapper: the last reference runs the dispose helper. -/
def blockRelease (b : GuestBlock) (w : Nat) : GuestBlock :=
  match b.wrappers[w]? with
  | some (count + 1) =>
      let b := { b with wrappers := b.wrappers.set w count }
      if count = 0 then xlBlockDisposeHelper b else b
  | _ => { b with fault := true }

/-- `objc_autorelease` of a wrapper. -/
def autoreleaseWrapper (entry : Nat × GuestBlock) : GuestBlock :=
  { entry.2 with pool := entry.1 :: entry.2.pool }

def xlBlockRetain (b : GuestBlock) : GuestBlock := (xlWrapperFor b).2

def xlBlockRelease (b : GuestBlock) : GuestBlock :=
  match b.forward with
  | some w => blockRelease b w
  | none => b

def xlBlockAutorelease (b : GuestBlock) : GuestBlock := autoreleaseWrapper (xlWrapperFor b)

/-- `xl_object_in`, of a guest block. -/
def xlObjectIn (b : GuestBlock) : GuestBlock := autoreleaseWrapper (xlWrapperFor b)

/-- The pool drains: each pending autorelease is a release. -/
def drainPool (b : GuestBlock) : GuestBlock := b.pool.foldl blockRelease { b with pool := [] }

/-- The entry points, for a guest block (`xl_manual_objc_…`). -/
def arcStep (b : GuestBlock) : ArcOp → GuestBlock
  | .retain => xlBlockRetain b
  | .retainBlock => xlBlockRetain b
  | .retainAutoreleasedReturnValue => xlBlockRetain b
  | .claimAutoreleasedReturnValue => xlBlockRetain b
  | .release => xlBlockRelease b
  | .autorelease => xlBlockAutorelease b
  | .autoreleaseReturnValue => xlBlockAutorelease b
  | .retainAutoreleaseReturnValue => autoreleaseWrapper (xlWrapperFor b)
  | .unsafeClaimAutoreleasedReturnValue => b
  | .objectIn => xlObjectIn b
  | .drain => drainPool b

/-! ## The wrapper and its count -/

/-- The block has a wrapper with `count` references, or none when `count` is zero. The wrapper
is in the table and in the pool; every other wrapper is freed; and each wrapper copied the guest
block once and, unless it lives, released it once. -/
structure Wrapped (count : Nat) (b : GuestBlock) : Prop where
  live : 0 < count → ∃ w, b.forward = some w ∧ b.wrappers[w]? = some count
  gone : count = 0 → b.forward = none
  pooled : ∀ w ∈ b.pool, b.forward = some w
  freed : ∀ w n, b.forward ≠ some w → b.wrappers[w]? = some n → n = 0
  copied : b.copies = b.wrappers.length
  released : b.copies = b.releases + if b.forward.isSome then 1 else 0
  sane : b.fault = false

theorem wrapped_start : Wrapped 0 {} where
  live := fun h => absurd h (Nat.lt_irrefl 0)
  gone := fun _ => rfl
  pooled := fun _ h => nomatch h
  freed := fun _ _ _ h => by simp at h
  copied := rfl
  released := rfl
  sane := rfl

/-- The wrapper a caller gets is the one in the table, with one more reference. -/
theorem wrapped_xlWrapperFor {count : Nat} {b : GuestBlock} (h : Wrapped count b) :
    Wrapped (count + 1) (xlWrapperFor b).2 ∧
      (xlWrapperFor b).2.forward = some (xlWrapperFor b).1 ∧
      (xlWrapperFor b).2.pool = b.pool := by
  rcases Nat.eq_zero_or_pos count with rfl | hpos
  · have hnone := h.gone rfl
    have hpool : b.pool = [] := List.eq_nil_iff_forall_not_mem.mpr fun w hw => by
      have := h.pooled w hw
      rw [hnone] at this
      cases this
    have hreleased := h.released
    rw [hnone] at hreleased
    unfold xlWrapperFor
    rw [hnone]
    refine ⟨⟨fun _ => ⟨b.wrappers.length, rfl, by simp⟩, fun h0 => absurd h0 (by simp), ?_, ?_,
      by simp [h.copied], by simpa using hreleased, h.sane⟩, rfl, rfl⟩
    · simp [hpool]
    · intro w n hne hn
      dsimp only at hne hn
      rcases Nat.lt_trichotomy w b.wrappers.length with hlt | heq | hgt
      · rw [List.getElem?_append_left hlt] at hn
        exact h.freed w n (by rw [hnone]; simp) hn
      · exact absurd (congrArg some heq.symm) hne
      · rw [List.getElem?_eq_none (by simp; omega)] at hn
        cases hn
  · obtain ⟨w, hw, hcount⟩ := h.live hpos
    have heq : xlWrapperFor b = (w, { b with wrappers := b.wrappers.modify w (· + 1) }) := by
      rw [xlWrapperFor]
      simp only [hw]
    rw [heq]
    refine ⟨⟨fun _ => ⟨w, hw, by simp [hcount]⟩, fun h0 => absurd h0 (by simp), h.pooled, ?_,
      by simp [h.copied], h.released, h.sane⟩, hw, rfl⟩
    intro w' n hne hn
    have hne' : w ≠ w' := fun h' => hne (by rw [← h']; exact hw)
    refine h.freed w' n hne ?_
    simpa [List.getElem?_modify, hne'] using hn

theorem wrapped_autorelease {count : Nat} {b : GuestBlock} (h : Wrapped count b) :
    Wrapped (count + 1) (autoreleaseWrapper (xlWrapperFor b)) ∧
      (autoreleaseWrapper (xlWrapperFor b)).pool.length = b.pool.length + 1 := by
  obtain ⟨hw, hforward, hpool⟩ := wrapped_xlWrapperFor h
  refine ⟨⟨hw.live, hw.gone, ?_, hw.freed, hw.copied, hw.released, hw.sane⟩, by
    simp [autoreleaseWrapper, hpool]⟩
  intro w hmem
  rcases List.mem_cons.mp hmem with rfl | hmem
  · exact hforward
  · exact hw.pooled w hmem

/-- One reference less; the last one frees the wrapper, drops its reference to the guest block
and takes it out of the table. -/
theorem wrapped_blockRelease {count : Nat} {b : GuestBlock} (h : Wrapped (count + 1) b) {w : Nat}
    (hw : b.forward = some w) (hpool : b.pool.length ≤ count) :
    Wrapped count (blockRelease b w) ∧ (blockRelease b w).pool = b.pool ∧
      (0 < count → (blockRelease b w).forward = some w) := by
  obtain ⟨w', hw', hcount⟩ := h.live (Nat.succ_pos count)
  rw [hw] at hw'
  cases hw'
  have hlt := (List.getElem?_eq_some_iff.mp hcount).1
  have hfreed : ∀ v n, v ≠ w → (b.wrappers.set w count)[v]? = some n → n = 0 := by
    intro v n hne hn
    rw [List.getElem?_set_ne (Ne.symm hne)] at hn
    exact h.freed v n (by rw [hw]; exact fun heq => hne (Option.some.inj heq).symm) hn
  have hreleased := h.released
  rw [hw] at hreleased
  unfold blockRelease
  rw [hcount]
  dsimp only
  split
  case isTrue hzero =>
      subst hzero
      have hempty : b.pool = [] := List.length_eq_zero_iff.mp (Nat.le_zero.mp hpool)
      refine ⟨⟨fun h0 => absurd h0 (Nat.lt_irrefl 0), fun _ => rfl, ?_, ?_, ?_, ?_, h.sane⟩, rfl,
        fun h0 => absurd h0 (Nat.lt_irrefl 0)⟩
      · simp [xlBlockDisposeHelper, hempty]
      · intro v n _ hn
        by_cases hv : v = w
        · subst hv
          simpa [xlBlockDisposeHelper, hlt, eq_comm] using hn
        · exact hfreed v n hv hn
      · simp [xlBlockDisposeHelper, h.copied]
      · simpa [xlBlockDisposeHelper] using hreleased
  case isFalse hpos =>
      refine ⟨⟨fun _ => ⟨w, hw, by simp [hlt]⟩, fun h0 => absurd h0 hpos, h.pooled, ?_,
        by simp [h.copied], by simpa [hw] using hreleased, h.sane⟩, rfl, fun _ => hw⟩
      intro v n hne hn
      refine hfreed v n ?_ hn
      rintro rfl
      exact hne hw

/-- The pool's releases, one after the other. -/
theorem wrapped_foldl_blockRelease {pool : List Nat} {count : Nat} {b : GuestBlock}
    (h : Wrapped (count + pool.length) b) (hempty : b.pool = [])
    (hpool : ∀ w ∈ pool, b.forward = some w) :
    Wrapped count (pool.foldl blockRelease b) ∧ (pool.foldl blockRelease b).pool = [] := by
  induction pool generalizing b with
  | nil => exact ⟨h, hempty⟩
  | cons w rest ih =>
      have hone : Wrapped (count + rest.length + 1) b := h
      obtain ⟨hrel, hpool', hforward⟩ :=
        wrapped_blockRelease hone (hpool w List.mem_cons_self) (by simp [hempty])
      refine ih hrel (hpool'.trans hempty) fun v hv => ?_
      have hpos : 0 < count + rest.length := by
        have := List.length_pos_of_mem hv
        omega
      rw [hforward hpos, ← hpool w List.mem_cons_self]
      exact hpool v (List.mem_cons_of_mem _ hv)

theorem wrapped_drainPool {count : Nat} {b : GuestBlock} (h : Wrapped (count + b.pool.length) b) :
    Wrapped count (drainPool b) ∧ (drainPool b).pool = [] :=
  wrapped_foldl_blockRelease
    ⟨h.live, h.gone, fun _ hw => (nomatch hw), h.freed, h.copied, h.released, h.sane⟩ rfl h.pooled

/-! ## The count and the ledger -/

/-- The wrapper's count: what is owned, what the pool will release, and the references that
drained autoreleases left behind. -/
structure Accounted (l : Ledger) (b : GuestBlock) : Prop where
  wrapped : Wrapped (l.owned + l.drained + b.pool.length) b
  pending : l.pending ≤ b.pool.length

theorem accounted_retain {l : Ledger} {b : GuestBlock} (h : Accounted l b) :
    Accounted { l with owned := l.owned + 1 } (xlBlockRetain b) := by
  obtain ⟨hw, -, hpool⟩ := wrapped_xlWrapperFor h.wrapped
  refine ⟨?_, by rw [xlBlockRetain, hpool]; exact h.pending⟩
  have hcount : l.owned + l.drained + b.pool.length + 1
      = l.owned + 1 + l.drained + (xlBlockRetain b).pool.length := by
    rw [xlBlockRetain, hpool]
    omega
  rwa [hcount] at hw

theorem accounted_release {l : Ledger} {b : GuestBlock} (h : Accounted l b) (hpos : l.owned ≠ 0) :
    Accounted { l with owned := l.owned - 1 } (xlBlockRelease b) := by
  have hcount : l.owned + l.drained + b.pool.length
      = l.owned - 1 + l.drained + b.pool.length + 1 := by omega
  have hw := h.wrapped
  rw [hcount] at hw
  obtain ⟨w, hforward, -⟩ := hw.live (Nat.succ_pos _)
  obtain ⟨hrel, hpool, -⟩ := wrapped_blockRelease hw hforward (by omega)
  have heq : xlBlockRelease b = blockRelease b w := by
    rw [xlBlockRelease]
    simp only [hforward]
  rw [heq]
  exact ⟨by rw [hpool]; exact hrel, by rw [hpool]; exact h.pending⟩

/-- An autorelease of the wrapper's own reference leaves what is owned as it is. -/
theorem accounted_autorelease {l : Ledger} {b : GuestBlock} (h : Accounted l b) :
    Accounted { l with pending := l.pending + 1 } (autoreleaseWrapper (xlWrapperFor b)) := by
  obtain ⟨hw, hpool⟩ := wrapped_autorelease h.wrapped
  refine ⟨?_, by rw [hpool]; exact Nat.succ_le_succ h.pending⟩
  rw [hpool]
  exact hw

theorem Accounted.of_pending {l : Ledger} {b : GuestBlock}
    (h : Accounted { l with pending := l.pending + 1 } b) : Accounted l b :=
  ⟨h.wrapped, Nat.le_of_succ_le h.pending⟩

theorem accounted_drain {l : Ledger} {b : GuestBlock} (h : Accounted l b)
    (hle : ¬ l.owned < l.pending) :
    Accounted ⟨l.owned - l.pending, 0, l.drained + l.pending⟩ (drainPool b) := by
  obtain ⟨hw, hpool⟩ := wrapped_drainPool h.wrapped
  refine ⟨?_, Nat.zero_le _⟩
  have hcount : l.owned + l.drained
      = l.owned - l.pending + (l.drained + l.pending) + (drainPool b).pool.length := by
    rw [hpool, List.length_nil]
    omega
  rwa [hcount] at hw

/-- **Each operation keeps the account.** -/
theorem accounted_step {l l' : Ledger} {b : GuestBlock} (h : Accounted l b) {op : ArcOp}
    (hl : ledgerStep l op = some l') : Accounted l' (arcStep b op) := by
  cases op with
  | retain | retainBlock | retainAutoreleasedReturnValue | claimAutoreleasedReturnValue =>
      cases hl
      exact accounted_retain h
  | release =>
      rw [ledgerStep] at hl
      split at hl
      case isTrue => cases hl
      case isFalse hpos =>
          cases hl
          exact accounted_release h hpos
  | autorelease | autoreleaseReturnValue =>
      cases hl
      exact accounted_autorelease h
  | retainAutoreleaseReturnValue | objectIn =>
      cases hl
      exact (accounted_autorelease h).of_pending
  | unsafeClaimAutoreleasedReturnValue =>
      cases hl
      exact h
  | drain =>
      rw [ledgerStep] at hl
      split at hl
      case isTrue => cases hl
      case isFalse hle =>
          cases hl
          exact accounted_drain h hle

/-- **The account holds after every sequence of operations** whose count never goes negative. -/
theorem accounted_run {ops : List ArcOp} {l : Ledger} (h : ledger ops = some l) :
    Accounted l (run arcStep {} ops) := by
  have hgen : ∀ (ops : List ArcOp) (l0 : Ledger) (b : GuestBlock), Accounted l0 b →
      ops.foldlM ledgerStep l0 = some l → Accounted l (run arcStep b ops) := by
    intro ops
    induction ops with
    | nil =>
        intro l0 b h0 hl
        cases hl
        exact h0
    | cons op rest ih =>
        intro l0 b h0 hl
        rw [List.foldlM_cons, Option.bind_eq_bind, Option.bind_eq_some_iff] at hl
        obtain ⟨l1, hstep, hrest⟩ := hl
        exact ih l1 _ (accounted_step h0 hstep) hrest
  exact hgen ops {} {} ⟨wrapped_start, Nat.le_refl 0⟩ h

/-! ## Balance -/

/-- The operations that give up a reference when the pool drains. -/
def ArcOp.isAutorelease : ArcOp → Bool
  | autorelease | autoreleaseReturnValue => true
  | _ => false

theorem autoreleased_step {l l' : Ledger} {op : ArcOp} (h : ledgerStep l op = some l') :
    l'.pending + l'.drained = l.pending + l.drained + if op.isAutorelease then 1 else 0 := by
  cases op with
  | release =>
      rw [ledgerStep] at h
      split at h <;> cases h
      rfl
  | drain =>
      rw [ledgerStep] at h
      split at h <;> cases h
      exact (Nat.zero_add _).trans (Nat.add_comm _ _)
  | autorelease | autoreleaseReturnValue =>
      cases h
      exact Nat.add_right_comm _ _ _
  | _ =>
      cases h
      rfl

theorem autoreleased_run {ops : List ArcOp} {l : Ledger} (h : ledger ops = some l) :
    l.pending + l.drained = ops.countP ArcOp.isAutorelease := by
  have hgen : ∀ (ops : List ArcOp) (l0 : Ledger), ops.foldlM ledgerStep l0 = some l →
      l.pending + l.drained = l0.pending + l0.drained + ops.countP ArcOp.isAutorelease := by
    intro ops
    induction ops with
    | nil =>
        intro l0 hl
        cases hl
        rfl
    | cons op rest ih =>
        intro l0 hl
        rw [List.foldlM_cons, Option.bind_eq_bind, Option.bind_eq_some_iff] at hl
        obtain ⟨l1, hstep, hrest⟩ := hl
        rw [ih l1 hrest, autoreleased_step hstep, List.countP_cons]
        omega
  simpa using hgen ops {} h

/-- After the pool has drained, with so many references owned: the block has a wrapper exactly
when the count is positive; a wrapper holds one reference to the guest block, whatever others
came before it; and at zero every reference is dropped, each once, and the table has no entry. -/
structure Balanced (owned : Nat) (b : GuestBlock) : Prop where
  wrapper : (∃ w n : Nat, b.wrappers[w]? = some n ∧ 0 < n) ↔ 0 < owned
  single : b.copies = b.wrappers.length ∧
    b.copies = b.releases + if 0 < owned then 1 else 0
  table : b.forward = none ↔ owned = 0
  sane : b.fault = false

theorem balanced_iff {count owned : Nat} {b : GuestBlock} (h : Wrapped count b) :
    Balanced owned b ↔ (0 < count ↔ 0 < owned) := by
  have htable : b.forward = none ↔ count = 0 := by
    refine ⟨fun hnone => ?_, h.gone⟩
    by_contra hne
    obtain ⟨w, hw, -⟩ := h.live (Nat.pos_of_ne_zero hne)
    rw [hnone] at hw
    cases hw
  have hwrapper : (∃ w n : Nat, b.wrappers[w]? = some n ∧ 0 < n) ↔ 0 < count := by
    constructor
    · rintro ⟨w, n, hn, hpos⟩
      by_contra hzero
      have hnone := h.gone (by omega)
      have := h.freed w n (by rw [hnone]; simp) hn
      omega
    · intro hpos
      obtain ⟨w, -, hn⟩ := h.live hpos
      exact ⟨w, count, hn, hpos⟩
  constructor
  · intro hb
    rw [← hwrapper]
    exact hb.wrapper
  · intro hiff
    refine ⟨hwrapper.trans hiff, ⟨h.copied, ?_⟩, ?_, h.sane⟩
    · rw [h.released]
      congr 1
      by_cases hpos : 0 < count
      · obtain ⟨w, hw, -⟩ := h.live hpos
        rw [hw, if_pos (Option.isSome_some), if_pos (hiff.mp hpos)]
      · rw [h.gone (by omega), if_neg (by simp), if_neg fun ho => hpos (hiff.mpr ho)]
    · rw [htable]
      omega

/-- After a drain no autorelease is pending, in the ledger and in the pool. -/
theorem drained_of_ledger {ops : List ArcOp} {l : Ledger} (h : ledger (ops ++ [.drain]) = some l) :
    l.pending = 0 ∧ (run arcStep {} (ops ++ [.drain])).pool = [] := by
  rw [ledger, List.foldlM_append, Option.bind_eq_bind, Option.bind_eq_some_iff] at h
  obtain ⟨l0, h0, h1⟩ := h
  rw [List.foldlM_cons, Option.bind_eq_bind, Option.bind_eq_some_iff] at h1
  obtain ⟨l1, hstep, hnil⟩ := h1
  cases hnil
  rw [ledgerStep] at hstep
  split at hstep
  case isTrue => cases hstep
  case isFalse =>
      cases hstep
      rw [run_append]
      exact ⟨rfl, (wrapped_drainPool (accounted_run h0).wrapped).2⟩

/-- **After the pool has drained, the counts are balanced exactly when the block was never
autoreleased or a reference is still owned.** -/
theorem balanced_drain_iff {ops : List ArcOp} {l : Ledger}
    (h : ledger (ops ++ [.drain]) = some l) :
    Balanced l.owned (run arcStep {} (ops ++ [.drain])) ↔
      (∀ op ∈ ops, op.isAutorelease = false) ∨ 0 < l.owned := by
  obtain ⟨hpending, hpool⟩ := drained_of_ledger h
  have hcount := autoreleased_run h
  have hnone : (∀ op ∈ ops, op.isAutorelease = false) ↔ l.drained = 0 := by
    rw [List.countP_append, hpending] at hcount
    have hdrain : [ArcOp.drain].countP ArcOp.isAutorelease = 0 := rfl
    rw [hdrain, Nat.zero_add, Nat.add_zero] at hcount
    rw [hcount, List.countP_eq_zero]
    simp only [Bool.not_eq_true]
  rw [balanced_iff (accounted_run h).wrapped, hpool, List.length_nil, hnone]
  omega

theorem balanced_drain_retained :
    Balanced 1 (run arcStep {} ([.retain, .objectIn, .retain, .release] ++ [.drain])) :=
  (balanced_drain_iff (l := ⟨1, 0, 0⟩) rfl).mpr (.inr (by decide))

/-- An owned reference that is autoreleased stays: the wrapper outlives the last owner. -/
theorem not_balanced_autoreleased :
    ¬ ∀ (ops : List ArcOp) (l : Ledger), ledger (ops ++ [.drain]) = some l →
      Balanced l.owned (run arcStep {} (ops ++ [.drain])) := by
  intro h
  have hb := (h [.retain, .autorelease] ⟨0, 0, 1⟩ rfl).wrapper
  exact absurd (hb.mp ⟨0, 1, rfl, by decide⟩) (Nat.lt_irrefl 0)

end Katabasis
