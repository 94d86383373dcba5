import Katabasis.Runtime.Shadows

set_option autoImplicit false

/-! # Guest blocks, their wrappers and the lock

`GuestBlocks` counts the references of one block. Here the blocks of a guest and the wrappers of
all of them are modelled together (`runtime/objc_bridge.m`): the table `xl_block_forward`, keyed
by the address of the block a wrapper holds; the lock `xl_block_lock`; and the guest's own
`_Block_copy` and `_Block_release`, which `xl_wrapper_for` and the dispose helper call. A copy of
a stack block is a new heap block, and its copy helper is guest code: what it does stands in a run
between the call of `xl_wrapper_for` and the return of the helper.

`identity_iff`: a block has one identity exactly where it is not a stack block.
`lock_taken_once_iff`: the lock is taken once exactly where no copy helper that runs under it
counts a reference of a guest block.
-/

namespace Katabasis

/-- What the isa of a guest block says. -/
inductive BlockKind
  | stack
  | heap
  | global
  deriving DecidableEq, Repr

/-- A wrapper: the guest block it holds, and its count, zero once it is freed. -/
structure BlockWrapper where
  guest : Address
  count : Nat
  deriving DecidableEq, Repr

structure BlockTable where
  /-- The guest's blocks: what `xl_is_guest_block` accepts. -/
  blocks : Address → Option BlockKind := fun _ => none
  /-- The reference count of a heap block. -/
  refs : Address → Nat := fun _ => 0
  wrappers : List BlockWrapper := []
  /-- `xl_block_forward` -/
  forward : Address → Option Nat := fun _ => none
  /-- The wrappers made for the block at an address. Kept for the statements only. -/
  made : Address → List Nat := fun _ => []
  /-- The thread holds `xl_block_lock`. -/
  held : Bool := false
  /-- The stack blocks whose copy helper runs for `xl_wrapper_for`. -/
  copying : List Address := []
  /-- The thread has locked `xl_block_lock` while it held it, and hangs. -/
  deadlock : Bool := false

namespace BlockTable

variable (s : BlockTable)

/-! ## The guest's block runtime -/

/-- A heap block at a new address. -/
def allocate (fresh : Address) : BlockTable :=
  { s with
    blocks := Function.update s.blocks fresh (some .heap)
    refs := Function.update s.refs fresh 1 }

/-- The memory of a block is given back. -/
def remove (a : Address) : BlockTable :=
  { s with
    blocks := Function.update s.blocks a none
    made := Function.update s.made a [] }

/-- The guest's `_Block_copy`: the copy, at `fresh` for a stack block. -/
def guestCopy (a fresh : Address) : Address × BlockTable :=
  match s.blocks a with
  | some .stack => (fresh, s.allocate fresh)
  | some .heap => (a, { s with refs := Function.update s.refs a (s.refs a + 1) })
  | _ => (a, s)

/-- The guest's `_Block_release`. -/
def guestRelease (a : Address) : BlockTable :=
  match s.blocks a with
  | some .heap =>
      if s.refs a ≤ 1 then s.remove a
      else { s with refs := Function.update s.refs a (s.refs a - 1) }
  | _ => s

/-! ## The wrappers -/

/-- `pthread_mutex_lock` of the default mutex. -/
def lock : BlockTable := if s.held then { s with deadlock := true } else { s with held := true }

def unlock : BlockTable := { s with held := false }

/-- `_Block_copy` of a wrapper. -/
def copyWrapper (w : Nat) : BlockTable :=
  { s with
    wrappers := s.wrappers.modify w fun wrapper => { wrapper with count := wrapper.count + 1 } }

/-- A new wrapper, made for the block `b`, that holds the copy `guest`. -/
def wrap (b guest : Address) : BlockTable :=
  { s with
    wrappers := s.wrappers ++ [⟨guest, 1⟩]
    forward := Function.update s.forward guest (some s.wrappers.length)
    made := Function.update s.made b (s.made b ++ [s.wrappers.length]) }

/-- `xl_wrapper_for` up to its return, or up to the copy helper of a stack block. -/
def callWrapperFor (b : Address) : BlockTable :=
  if s.lock.deadlock then s.lock
  else match s.forward b with
    | some w => (s.lock.copyWrapper w).unlock
    | none =>
        if s.blocks b = some .stack then { s.lock with copying := b :: s.copying }
        else ((s.lock.guestCopy b b).2.wrap b b).unlock

/-- The copy helper returns: the copy is at `fresh`, and `xl_wrapper_for` goes on. -/
def helperReturns (fresh : Address) : BlockTable :=
  match s.copying with
  | [] => s
  | b :: rest => (({ s with copying := rest }.allocate fresh).wrap b fresh).unlock

/-- `xl_block_dispose_helper` -/
def xlBlockDisposeHelper (guest : Address) : BlockTable :=
  if s.lock.deadlock then s.lock
  else ({ s.lock with forward := Function.update s.forward guest none }.unlock).guestRelease guest

/-- `_Block_release` of a wrapper. -/
def blockRelease (w : Nat) : BlockTable :=
  match s.wrappers[w]? with
  | some ⟨guest, count + 1⟩ =>
      let s := { s with wrappers := s.wrappers.set w ⟨guest, count⟩ }
      if count = 0 then s.xlBlockDisposeHelper guest else s
  | _ => s

/-- `xl_block_release` -/
def xlBlockRelease (b : Address) : BlockTable :=
  if s.lock.deadlock then s.lock
  else match s.forward b with
    | some w => s.lock.unlock.blockRelease w
    | none => s.lock.unlock

/-! ## Whole calls -/

/-- `xl_wrapper_for`, the wrapper it returns and the state behind it, where the copy helper leaves
the bridge alone; none where it hangs on the lock. -/
def xlWrapperFor (b fresh : Address) : Option (Nat × BlockTable) :=
  if s.lock.deadlock then none
  else match s.forward b with
    | some w => some (w, s.copyWrapper w)
    | none =>
        some (s.wrappers.length, (s.guestCopy b fresh).2.wrap b (s.guestCopy b fresh).1)

/-- `xl_object_in`: the wrapper of a guest block. -/
def xlObjectIn (guest fresh : Address) : Option Nat :=
  if (s.blocks guest).isSome then (s.xlWrapperFor guest fresh).map Prod.fst else none

/-- `xl_object_out` of a wrapper. -/
def xlObjectOut (w : Nat) : Option Address := s.wrappers[w]?.map BlockWrapper.guest

/-- `xl_block_retain`, and so `objc_retainBlock`: the pointer it returns. -/
def xlBlockRetain (b fresh : Address) : Option (Address × BlockTable) :=
  (s.xlWrapperFor b fresh).map fun r => (b, r.2)

/-! ## Runs -/

inductive Event
  /-- The guest makes a block on its stack, and leaves its frame. -/
  | enter (a : Address)
  | leave (a : Address)
  /-- A global block is loaded. -/
  | load (a : Address)
  /-- The guest copies and releases blocks with its own runtime. -/
  | guestCopy (a fresh : Address)
  | guestRelease (a : Address)
  /-- `xl_wrapper_for` is called: by `objc_retain`, `objc_retainBlock`, `objc_autorelease` and
  their kin, and where the block is passed to the host. -/
  | wrapperFor (b : Address)
  /-- The copy helper that `xl_wrapper_for` waits for returns. -/
  | helperReturns (fresh : Address)
  /-- `objc_release` -/
  | release (b : Address)
  /-- The host drops a reference to a wrapper. -/
  | drop (w : Nat)
  deriving DecidableEq, Repr

/-- The references of a guest block that its wrapper holds. -/
def wrapperRefs (a : Address) : Nat := if (s.forward a).isSome then 1 else 0

/-- One event; none where it cannot be. Addresses are used for one block at a time, a frame is not
left while its block is being copied, the guest's code releases references of its own, and the
host drops references there are. -/
def step : Event → Option BlockTable
  | .enter a =>
      if !s.deadlock ∧ s.blocks a = none then
        some { s with blocks := Function.update s.blocks a (some .stack) }
      else none
  | .leave a =>
      if !s.deadlock ∧ s.blocks a = some .stack ∧ a ∉ s.copying then some (s.remove a) else none
  | .load a =>
      if !s.deadlock ∧ s.blocks a = none then
        some { s with blocks := Function.update s.blocks a (some .global) }
      else none
  | .guestCopy a fresh =>
      if !s.deadlock ∧ (s.blocks a).isSome ∧ s.blocks fresh = none then
        some (s.guestCopy a fresh).2
      else none
  | .guestRelease a =>
      if !s.deadlock ∧ s.wrapperRefs a < s.refs a then some (s.guestRelease a) else none
  | .wrapperFor b =>
      if !s.deadlock ∧ (s.blocks b).isSome then some (s.callWrapperFor b) else none
  | .helperReturns fresh =>
      if !s.deadlock ∧ s.copying ≠ [] ∧ s.blocks fresh = none then some (s.helperReturns fresh)
      else none
  | .release b =>
      if !s.deadlock ∧ (s.blocks b).isSome then some (s.xlBlockRelease b) else none
  | .drop w =>
      if !s.deadlock ∧ 0 < (s.wrappers[w]?.map BlockWrapper.count).getD 0 then
        some (s.blockRelease w)
      else none

/-- The state after the events. -/
def run (events : List Event) : Option BlockTable := events.foldlM step s

/-! ## What every state keeps -/

/-- The wrapper has references. -/
def Alive (w : Nat) : Prop := ∃ guest count, s.wrappers[w]? = some ⟨guest, count + 1⟩

/-- The table and the wrappers. -/
structure Consistent : Prop where
  /-- A wrapper with references is in the table under the block it holds, and nothing else is. -/
  live : ∀ a w, s.forward a = some w ↔ ∃ count, s.wrappers[w]? = some ⟨a, count + 1⟩
  /-- A block in the table is a heap block with a reference, or a global one. -/
  holds : ∀ a w, s.forward a = some w →
    (s.blocks a = some .heap ∧ 0 < s.refs a) ∨ s.blocks a = some .global
  /-- A wrapper made for a block that is not on the stack holds that block. -/
  made : ∀ a, ∀ w ∈ s.made a, w < s.wrappers.length ∧
    (s.blocks a ≠ some .stack → ∀ guest count, s.wrappers[w]? = some ⟨guest, count + 1⟩ →
      guest = a)
  /-- Nothing was made for a free address. -/
  unmade : ∀ a, s.blocks a = none → s.made a = []
  /-- There is room for another block. -/
  room : {a | s.blocks a ≠ none}.Finite

/-- The lock is held exactly while a copy helper runs, and one at a time. -/
def Locked : Prop :=
  (s.held = false ∧ s.copying = []) ∨
    (s.held = true ∧ ∃ b, s.copying = [b] ∧ s.blocks b = some .stack)

variable {s}

/-- The fields that the table's invariant is about. -/
theorem Consistent.of_same {s' : BlockTable} (h : s.Consistent) (hb : s'.blocks = s.blocks)
    (hr : s'.refs = s.refs) (hw : s'.wrappers = s.wrappers) (hf : s'.forward = s.forward)
    (hm : s'.made = s.made) : s'.Consistent where
  live := by rw [hf, hw]; exact h.live
  holds := by rw [hf, hb, hr]; exact h.holds
  made := by rw [hm, hw, hb]; exact h.made
  unmade := by rw [hb, hm]; exact h.unmade
  room := by rw [hb]; exact h.room

/-- A free address is not in the table. -/
theorem Consistent.forward_none (h : s.Consistent) {a : Address}
    (ha : s.blocks a = none ∨ s.blocks a = some .stack) : s.forward a = none := by
  cases hf : s.forward a with
  | none => rfl
  | some w => rcases h.holds a w hf with ⟨hk, -⟩ | hk <;> rcases ha with ha | ha <;> simp_all

/-- A block at a free address. -/
theorem Consistent.place (h : s.Consistent) {a : Address} (hfree : s.blocks a = none)
    (kind : BlockKind) (count : Nat) :
    { s with
      blocks := Function.update s.blocks a (some kind)
      refs := Function.update s.refs a count }.Consistent where
  live := h.live
  holds := by
    intro a' w hf
    have hne : a' ≠ a := by
      rintro rfl
      rw [h.forward_none (Or.inl hfree)] at hf
      cases hf
    simp only [Function.update_of_ne hne]
    exact h.holds a' w hf
  made := by
    intro a' w hw
    refine ⟨(h.made a' w hw).1, fun hk => ?_⟩
    by_cases ha : a' = a
    · rw [ha, h.unmade a hfree] at hw
      cases hw
    · simp only [Function.update_of_ne ha] at hk
      exact (h.made a' w hw).2 hk
  unmade := by
    intro a' ha'
    by_cases ha : a' = a
    · rw [ha]
      exact h.unmade a hfree
    · simp only [Function.update_of_ne ha] at ha'
      exact h.unmade a' ha'
  room := by
    refine (h.room.insert a).subset fun a' ha' => ?_
    by_cases ha : a' = a
    · exact Or.inl ha
    · simp only [Set.mem_ofPred_eq, Function.update_of_ne ha] at ha'
      exact Or.inr ha'

/-- A block that no wrapper holds goes away. -/
theorem Consistent.remove (h : s.Consistent) {a : Address} (hf : s.forward a = none) :
    (s.remove a).Consistent where
  live := h.live
  holds := by
    intro a' w hw
    have hne : a' ≠ a := by
      rintro rfl
      rw [show (s.remove a').forward = s.forward from rfl, hf] at hw
      cases hw
    simp only [BlockTable.remove, Function.update_of_ne hne]
    exact h.holds a' w hw
  made := by
    intro a' w hw
    by_cases ha : a' = a
    · simp only [BlockTable.remove, ha, Function.update_self] at hw
      cases hw
    · simp only [BlockTable.remove, Function.update_of_ne ha] at hw ⊢
      exact h.made a' w hw
  unmade := by
    intro a' ha'
    by_cases ha : a' = a
    · simp only [BlockTable.remove, ha, Function.update_self]
    · simp only [BlockTable.remove, Function.update_of_ne ha] at ha' ⊢
      exact h.unmade a' ha'
  room := by
    refine h.room.subset fun a' ha' => ?_
    by_cases ha : a' = a
    · simp [BlockTable.remove, ha] at ha'
    · simpa [BlockTable.remove, ha] using ha'

/-- The count of a heap block changes, and stays positive where a wrapper holds it. -/
theorem Consistent.count (h : s.Consistent) {a : Address} {n : Nat}
    (hn : (s.forward a).isSome → 0 < n) :
    { s with refs := Function.update s.refs a n }.Consistent where
  live := h.live
  holds := by
    intro a' w hf
    rcases h.holds a' w hf with ⟨hk, hpos⟩ | hk
    · left
      refine ⟨hk, ?_⟩
      by_cases ha : a' = a
      · subst ha
        simp only [Function.update_self]
        exact hn (by rw [show s.forward a' = some w from hf]; rfl)
      · simp only [Function.update_of_ne ha]
        exact hpos
    · exact Or.inr hk
  made := h.made
  unmade := h.unmade
  room := h.room

theorem Consistent.guestCopy (h : s.Consistent) {a fresh : Address}
    (hfree : s.blocks fresh = none) :
    (s.guestCopy a fresh).2.Consistent := by
  unfold BlockTable.guestCopy
  split
  · exact h.place hfree .heap 1
  · exact h.count fun _ => Nat.succ_pos _
  · exact h

theorem Consistent.guestRelease (h : s.Consistent) {a : Address}
    (hown : s.wrapperRefs a < s.refs a ∨ s.forward a = none) : (s.guestRelease a).Consistent := by
  unfold BlockTable.guestRelease
  split
  case h_1 hk =>
      split
      case isTrue hle =>
          refine h.remove ?_
          rcases hown with hlt | hnone
          · unfold wrapperRefs at hlt
            split at hlt
            · omega
            · simpa using ‹¬ (s.forward a).isSome = true›
          · exact hnone
      case isFalse hgt => exact h.count fun _ => by omega
  case h_2 => exact h

/-- One more reference to a wrapper. -/
theorem Consistent.copyWrapper (h : s.Consistent) {a : Address} {w : Nat}
    (hf : s.forward a = some w) : (s.copyWrapper w).Consistent := by
  obtain ⟨count, hcount⟩ := (h.live a w).mp hf
  have hget : ∀ (w' : Nat) (guest : Address) (n : Nat),
      (s.copyWrapper w).wrappers[w']? = some ⟨guest, n + 1⟩ →
        ∃ m, s.wrappers[w']? = some ⟨guest, m + 1⟩ := by
    intro w' guest n hw'
    simp only [BlockTable.copyWrapper, List.getElem?_modify] at hw'
    by_cases heq : w = w'
    · subst heq
      rw [hcount] at hw'
      simp only [if_true, Option.map_eq_map, Option.map_some, Option.some.injEq,
        BlockWrapper.mk.injEq] at hw'
      exact ⟨count, by rw [hcount, hw'.1]⟩
    · simp only [if_neg heq, id_map'] at hw'
      exact ⟨n, by simpa using hw'⟩
  have hback : ∀ (w' : Nat) (guest : Address) (m : Nat),
      s.wrappers[w']? = some ⟨guest, m + 1⟩ →
        ∃ n, (s.copyWrapper w).wrappers[w']? = some ⟨guest, n + 1⟩ := by
    intro w' guest m hw'
    simp only [BlockTable.copyWrapper, List.getElem?_modify]
    by_cases heq : w = w'
    · exact ⟨m + 1, by simp [heq, hw']⟩
    · exact ⟨m, by simp [heq, hw']⟩
  constructor
  case live =>
      intro a' w'
      refine (h.live a' w').trans ⟨?_, ?_⟩
      · rintro ⟨m, hm⟩
        exact hback w' a' m hm
      · rintro ⟨n, hn⟩
        exact hget w' a' n hn
  case holds => exact h.holds
  case made =>
      intro a' w' hw'
      obtain ⟨hlt, hheld⟩ := h.made a' w' hw'
      refine ⟨by simpa [BlockTable.copyWrapper] using hlt, fun hk guest n hn => ?_⟩
      obtain ⟨m, hm⟩ := hget w' guest n hn
      exact hheld hk guest m hm
  case unmade => exact h.unmade
  case room => exact h.room

/-- A new wrapper for a block whose copy is not in the table. -/
theorem Consistent.wrap (h : s.Consistent) {b guest : Address} (hf : s.forward guest = none)
    (hkind : (s.blocks guest = some .heap ∧ 0 < s.refs guest) ∨ s.blocks guest = some .global)
    (hb : s.blocks b ≠ none) (hself : s.blocks b ≠ some .stack → b = guest) :
    (s.wrap b guest).Consistent := by
  have hget : ∀ w a n, (s.wrap b guest).wrappers[w]? = some ⟨a, n + 1⟩ ↔
      (w < s.wrappers.length ∧ s.wrappers[w]? = some ⟨a, n + 1⟩) ∨
        (w = s.wrappers.length ∧ guest = a ∧ n = 0) := by
    intro w a n
    rcases Nat.lt_trichotomy w s.wrappers.length with hlt | heq | hgt
    · simp [BlockTable.wrap, List.getElem?_append_left hlt, hlt, Nat.ne_of_lt hlt]
    · subst heq
      simp [BlockTable.wrap]
    · have hnone : (s.wrappers ++ [⟨guest, 1⟩])[w]? = none := by
        rw [List.getElem?_eq_none]
        simp
        omega
      simp [BlockTable.wrap, hnone, Nat.not_lt_of_gt hgt, Nat.ne_of_gt hgt]
  constructor
  case live =>
      intro a w
      by_cases ha : a = guest
      · subst ha
        simp only [BlockTable.wrap, Function.update_self, Option.some.injEq]
        constructor
        · rintro rfl
          exact ⟨0, (hget _ a 0).mpr (Or.inr ⟨rfl, rfl, rfl⟩)⟩
        · rintro ⟨n, hn⟩
          rcases (hget w a n).mp hn with ⟨-, hold⟩ | ⟨hw, -, -⟩
          · rw [(h.live a w).mpr ⟨n, hold⟩] at hf
            cases hf
          · exact hw.symm
      · simp only [BlockTable.wrap, Function.update_of_ne ha]
        refine (h.live a w).trans ⟨?_, ?_⟩
        · rintro ⟨n, hn⟩
          exact ⟨n, (hget w a n).mpr (Or.inl ⟨(List.getElem?_eq_some_iff.mp hn).1, hn⟩)⟩
        · rintro ⟨n, hn⟩
          rcases (hget w a n).mp hn with ⟨-, hold⟩ | ⟨-, hguest, -⟩
          · exact ⟨n, hold⟩
          · exact absurd hguest.symm ha
  case holds =>
      intro a w hw
      by_cases ha : a = guest
      · rw [ha]
        exact hkind
      · simp only [BlockTable.wrap, Function.update_of_ne ha] at hw
        exact h.holds a w hw
  case made =>
      intro a w hw
      have hlen : (s.wrap b guest).wrappers.length = s.wrappers.length + 1 := by
        simp [BlockTable.wrap]
      have hold : w ∈ s.made a → w < (s.wrap b guest).wrappers.length ∧
          ((s.wrap b guest).blocks a ≠ some .stack → ∀ g n,
            (s.wrap b guest).wrappers[w]? = some ⟨g, n + 1⟩ → g = a) := by
        intro hmem
        obtain ⟨hlt, hheld⟩ := h.made a w hmem
        refine ⟨by omega, fun hk g n hn => ?_⟩
        rcases (hget w g n).mp hn with ⟨-, hprev⟩ | ⟨heq, -, -⟩
        · exact hheld hk g n hprev
        · omega
      by_cases ha : a = b
      · subst ha
        simp only [BlockTable.wrap, Function.update_self] at hw
        rcases List.mem_append.mp hw with hmem | hnew
        · exact hold hmem
        · rw [List.mem_singleton.mp hnew]
          refine ⟨by omega, fun hk g n hn => ?_⟩
          rcases (hget _ g n).mp hn with ⟨hlt, -⟩ | ⟨-, hguest, -⟩
          · omega
          · rw [← hguest, ← hself hk]
      · simp only [BlockTable.wrap, Function.update_of_ne ha] at hw
        exact hold hw
  case unmade =>
      intro a ha
      have hne : a ≠ b := by
        rintro rfl
        exact hb ha
      simp only [BlockTable.wrap, Function.update_of_ne hne]
      exact h.unmade a ha
  case room => exact h.room

/-- The wrappers after one of them lost a reference. -/
theorem getElem?_dropped {w : Nat} {guest : Address} {count : Nat}
    (hw : s.wrappers[w]? = some ⟨guest, count + 1⟩) (w' : Nat) :
    (s.wrappers.set w ⟨guest, count⟩)[w']?
      = if w' = w then some ⟨guest, count⟩ else s.wrappers[w']? := by
  have hlt := (List.getElem?_eq_some_iff.mp hw).1
  by_cases heq : w' = w
  · rw [if_pos heq, heq, List.getElem?_set_self hlt]
  · rw [if_neg heq, List.getElem?_set_ne (Ne.symm heq)]

/-- A wrapper that keeps a reference. -/
theorem Consistent.drop (h : s.Consistent) {w : Nat} {guest : Address} {count : Nat}
    (hw : s.wrappers[w]? = some ⟨guest, count + 1⟩) (hcount : count ≠ 0) :
    { s with wrappers := s.wrappers.set w ⟨guest, count⟩ }.Consistent where
  live := by
    intro a w'
    refine (h.live a w').trans ?_
    simp only [getElem?_dropped hw]
    by_cases heq : w' = w
    · subst heq
      rw [hw, if_pos rfl]
      constructor
      · rintro ⟨n, hn⟩
        cases hn
        exact ⟨count - 1, by rw [Nat.sub_add_cancel (Nat.pos_of_ne_zero hcount)]⟩
      · rintro ⟨n, hn⟩
        cases hn
        exact ⟨n + 1, rfl⟩
    · rw [if_neg heq]
  holds := h.holds
  made := by
    intro a w' hw'
    obtain ⟨hlt, hheld⟩ := h.made a w' hw'
    refine ⟨by simpa using hlt, fun hk g n hn => ?_⟩
    simp only [getElem?_dropped hw] at hn
    by_cases heq : w' = w
    · subst heq
      rw [if_pos rfl] at hn
      cases hn
      exact hheld hk _ _ hw
    · rw [if_neg heq] at hn
      exact hheld hk g n hn
  unmade := h.unmade
  room := h.room

/-- A wrapper that is freed leaves the table. -/
theorem Consistent.free (h : s.Consistent) {w : Nat} {guest : Address}
    (hw : s.wrappers[w]? = some ⟨guest, 1⟩) :
    { s with
      wrappers := s.wrappers.set w ⟨guest, 0⟩
      forward := Function.update s.forward guest none }.Consistent where
  live := by
    intro a w'
    have hself : s.forward guest = some w := (h.live guest w).mpr ⟨0, hw⟩
    simp only [getElem?_dropped hw]
    by_cases heq : w' = w
    · subst heq
      rw [if_pos rfl]
      have hnot : ¬ ∃ n, (some ⟨guest, 0⟩ : Option BlockWrapper) = some ⟨a, n + 1⟩ := by
        rintro ⟨n, hn⟩
        cases hn
      refine ⟨fun hf => ?_, fun hex => absurd hex hnot⟩
      by_cases ha : a = guest
      · subst ha
        rw [Function.update_self] at hf
        cases hf
      · rw [Function.update_of_ne ha] at hf
        obtain ⟨n, hn⟩ := (h.live a w').mp hf
        rw [hw] at hn
        cases hn
        exact absurd rfl ha
    · rw [if_neg heq]
      by_cases ha : a = guest
      · subst ha
        rw [Function.update_self]
        refine ⟨fun hf => (nomatch hf), fun hex => ?_⟩
        rw [(h.live a w').mpr hex] at hself
        exact absurd (Option.some.inj hself) heq
      · rw [Function.update_of_ne ha]
        exact h.live a w'
  holds := by
    intro a w' hf
    by_cases ha : a = guest
    · subst ha
      simp only [Function.update_self] at hf
      cases hf
    · simp only [Function.update_of_ne ha] at hf
      exact h.holds a w' hf
  made := by
    intro a w' hw'
    obtain ⟨hlt, hheld⟩ := h.made a w' hw'
    refine ⟨by simpa using hlt, fun hk g n hn => ?_⟩
    simp only [getElem?_dropped hw] at hn
    by_cases heq : w' = w
    · rw [if_pos heq] at hn
      cases hn
    · rw [if_neg heq] at hn
      exact hheld hk g n hn
  unmade := h.unmade
  room := h.room

/-! ## One event -/

/-- The event takes the lock. -/
def Locks (s : BlockTable) : Event → Prop
  | .wrapperFor _ => True
  | .release _ => True
  | .drop w => s.wrappers[w]?.map BlockWrapper.count = some 1
  | _ => False

/-- What every state of a run has while the thread does not hang. -/
structure Sound (s : BlockTable) : Prop where
  table : s.Consistent
  lock : s.Locked

/-- The guest's runtime knows nothing of the lock. -/
theorem guestRelease_lock (s : BlockTable) (a : Address) :
    (s.guestRelease a).held = s.held ∧ (s.guestRelease a).copying = s.copying ∧
      (s.guestRelease a).deadlock = s.deadlock := by
  unfold BlockTable.guestRelease
  split
  · split <;> exact ⟨rfl, rfl, rfl⟩
  · exact ⟨rfl, rfl, rfl⟩

theorem guestCopy_lock (s : BlockTable) (a fresh : Address) :
    (s.guestCopy a fresh).2.held = s.held ∧ (s.guestCopy a fresh).2.copying = s.copying ∧
      (s.guestCopy a fresh).2.deadlock = s.deadlock := by
  unfold BlockTable.guestCopy
  split <;> exact ⟨rfl, rfl, rfl⟩

theorem guestCopy_wrappers (s : BlockTable) (a fresh : Address) :
    (s.guestCopy a fresh).2.wrappers = s.wrappers := by
  unfold BlockTable.guestCopy
  split <;> rfl

/-- The thread does not hold the lock. -/
theorem Sound.copying_nil (h : s.Sound) (hheld : s.held = false) : s.copying = [] := by
  rcases h.lock with ⟨-, hnil⟩ | ⟨htrue, -⟩
  · exact hnil
  · rw [hheld] at htrue
    cases htrue

theorem lock_deadlock (s : BlockTable) : s.lock.deadlock = (s.deadlock || s.held) := by
  unfold BlockTable.lock
  split
  · simp [*]
  · simp [*]

/-- Where the lock is free, the thread goes on. -/
theorem lock_runs (hrun : s.deadlock = false) (hheld : s.held = false) :
    ¬ s.lock.deadlock = true := by
  rw [lock_deadlock, hrun, hheld]
  exact Bool.false_ne_true

/-- A thread that holds the lock and takes it hangs. -/
theorem lock_held (hheld : s.held = true) : s.lock.deadlock = true := by
  rw [BlockTable.lock, if_pos hheld]

theorem lock_free (hheld : s.held = false) : s.lock = { s with held := true } := by
  rw [BlockTable.lock, if_neg (by rw [hheld]; exact Bool.false_ne_true)]

/-- A freed wrapper leaves the table, and drops its reference to the guest block. -/
theorem Consistent.dispose (h : s.Consistent) {w : Nat} {guest : Address}
    (hw : s.wrappers[w]? = some ⟨guest, 1⟩) :
    (BlockTable.guestRelease
      { s with
        wrappers := s.wrappers.set w ⟨guest, 0⟩
        forward := Function.update s.forward guest none
        held := false } guest).Consistent := by
  apply Consistent.guestRelease
  · exact (h.free hw).of_same rfl rfl rfl rfl rfl
  · right
    exact Function.update_self guest none s.forward

/-- The dispose helper, where the lock is free. -/
theorem xlBlockDisposeHelper_free (hrun : s.deadlock = false) (hheld : s.held = false)
    (guest : Address) :
    s.xlBlockDisposeHelper guest
      = BlockTable.guestRelease
          { s with forward := Function.update s.forward guest none, held := false } guest := by
  rw [xlBlockDisposeHelper, if_neg (lock_runs hrun hheld), lock_free hheld]
  rfl

/-- A wrapper loses a reference: the last one is dropped under the lock. -/
theorem blockRelease_sound (h : s.Sound) (hrun : s.deadlock = false) {w : Nat} {guest : Address}
    {count : Nat} (hw : s.wrappers[w]? = some ⟨guest, count + 1⟩) :
    ((s.blockRelease w).deadlock = true ↔ s.held = true ∧ count = 0) ∧
      ((s.blockRelease w).deadlock = false → (s.blockRelease w).Sound) := by
  have hrelease : s.blockRelease w
      = if count = 0 then
          xlBlockDisposeHelper { s with wrappers := s.wrappers.set w ⟨guest, count⟩ } guest
        else { s with wrappers := s.wrappers.set w ⟨guest, count⟩ } := by
    rw [BlockTable.blockRelease, hw]
  rw [hrelease]
  by_cases hcount : count = 0
  · subst hcount
    rw [if_pos rfl]
    rcases Bool.eq_false_or_eq_true s.held with hheld | hheld
    · have hdead : (xlBlockDisposeHelper
          { s with wrappers := s.wrappers.set w ⟨guest, 0⟩ } guest).deadlock = true := by
        have hlock := lock_held (s := { s with wrappers := s.wrappers.set w ⟨guest, 0⟩ }) hheld
        rw [xlBlockDisposeHelper, if_pos hlock]
        exact hlock
      rw [hdead]
      exact ⟨⟨fun _ => ⟨hheld, rfl⟩, fun _ => rfl⟩, fun hfalse => (nomatch hfalse)⟩
    · rw [xlBlockDisposeHelper_free (s := { s with wrappers := s.wrappers.set w ⟨guest, 0⟩ })
        hrun hheld]
      obtain ⟨hh, hc, hd⟩ := guestRelease_lock
        { s with
          wrappers := s.wrappers.set w ⟨guest, 0⟩
          forward := Function.update s.forward guest none
          held := false } guest
      refine ⟨?_, fun _ => ⟨h.table.dispose hw, Or.inl ⟨hh, hc.trans (h.copying_nil hheld)⟩⟩⟩
      rw [hd]
      show s.deadlock = true ↔ _
      rw [hrun, hheld]
      simp
  · rw [if_neg hcount]
    exact ⟨by simp [hrun, hcount], fun _ => ⟨h.table.drop hw hcount, h.lock⟩⟩

/-- The copy of a block that is not on the stack is the block itself, with one more reference. -/
theorem guestCopy_self {b : Address} (hb : (s.blocks b).isSome) (hstack : s.blocks b ≠ some .stack)
    (fresh : Address) :
    (s.guestCopy b fresh).1 = b ∧ (s.guestCopy b fresh).2 = (s.guestCopy b b).2 ∧
      (s.guestCopy b b).2.blocks = s.blocks ∧ (s.guestCopy b b).2.forward = s.forward ∧
      ((s.blocks b = some .heap ∧ 0 < (s.guestCopy b b).2.refs b) ∨ s.blocks b = some .global) := by
  unfold BlockTable.guestCopy
  rcases hk : s.blocks b with - | kind
  · rw [hk] at hb
    cases hb
  · cases kind with
    | stack => exact absurd hk hstack
    | heap => exact ⟨rfl, rfl, rfl, rfl, Or.inl ⟨rfl, by simp⟩⟩
    | global => exact ⟨rfl, rfl, rfl, rfl, Or.inr rfl⟩

/-- A wrapper of a block that is not on the stack. -/
theorem Consistent.wrapCopy (h : s.Consistent) {b : Address} (hb : (s.blocks b).isSome)
    (hstack : s.blocks b ≠ some .stack) (hf : s.forward b = none) :
    ((s.guestCopy b b).2.wrap b b).Consistent := by
  obtain ⟨-, -, hblocks, hforward, hkind⟩ := guestCopy_self hb hstack b
  have hcopy : (s.guestCopy b b).2.Consistent := by
    unfold BlockTable.guestCopy
    split
    · exact absurd ‹_› hstack
    · exact h.count fun _ => Nat.succ_pos _
    · exact h
  apply hcopy.wrap
  · rw [hforward, hf]
  · rw [hblocks]
    exact hkind
  · rw [hblocks]
    exact Option.isSome_iff_ne_none.mp hb
  · exact fun _ => rfl

/-- The call of `xl_wrapper_for`. -/
theorem callWrapperFor_sound (h : s.Sound) (hrun : s.deadlock = false) {b : Address}
    (hb : (s.blocks b).isSome) :
    ((s.callWrapperFor b).deadlock = true ↔ s.held = true) ∧
      ((s.callWrapperFor b).deadlock = false → (s.callWrapperFor b).Sound) := by
  unfold BlockTable.callWrapperFor
  cases hheld : s.held with
  | true =>
      -- The event hangs, whatever it was called for.
      rw [if_pos (lock_held hheld), lock_held hheld]
      exact ⟨⟨fun _ => rfl, fun _ => rfl⟩, fun hfalse => (nomatch hfalse)⟩
  | false =>
      have hnil := h.copying_nil hheld
      rw [if_neg (lock_runs hrun hheld), lock_free hheld]
      cases hf : s.forward b with
      | some w =>
          refine ⟨by simp [unlock, copyWrapper, hrun], fun _ => ⟨?_, Or.inl ⟨rfl, hnil⟩⟩⟩
          exact (h.table.copyWrapper hf).of_same rfl rfl rfl rfl rfl
      | none =>
          dsimp only
          by_cases hstack : s.blocks b = some .stack
          · rw [if_pos hstack]
            refine ⟨by simp [hrun], fun _ => ⟨h.table.of_same rfl rfl rfl rfl rfl, Or.inr ?_⟩⟩
            refine ⟨rfl, b, ?_, hstack⟩
            rw [hnil]
          · rw [if_neg hstack]
            obtain ⟨-, hc, hd⟩ := guestCopy_lock { s with held := true } b b
            have hlocked : BlockTable.Consistent { s with held := true } :=
              h.table.of_same rfl rfl rfl rfl rfl
            have hwrap := hlocked.wrapCopy hb hstack hf
            constructor
            · show BlockTable.deadlock (BlockTable.guestCopy _ b b).2 = true ↔ _
              rw [hd]
              simp [hrun]
            · intro _
              exact ⟨hwrap.of_same rfl rfl rfl rfl rfl, Or.inl ⟨rfl, hc.trans hnil⟩⟩

/-- The copy helper of a stack block returns, and `xl_wrapper_for` with it. -/
theorem helperReturns_sound (h : s.Sound) (hcopying : s.copying ≠ []) {fresh : Address}
    (hfree : s.blocks fresh = none) :
    (s.helperReturns fresh).deadlock = s.deadlock ∧ (s.helperReturns fresh).Sound := by
  rcases h.lock with ⟨-, hnil⟩ | ⟨-, b, hb, hstack⟩
  · exact absurd hnil hcopying
  · have hne : b ≠ fresh := by
      rintro rfl
      rw [hfree] at hstack
      cases hstack
    have hstill : Function.update s.blocks fresh (some .heap) b = some .stack := by
      rw [Function.update_of_ne hne, hstack]
    have hwrap : ((s.allocate fresh).wrap b fresh).Consistent := by
      apply (h.table.place hfree .heap 1).wrap
      · exact h.table.forward_none (Or.inl hfree)
      · exact Or.inl ⟨Function.update_self .., by simp⟩
      · show Function.update s.blocks fresh (some .heap) b ≠ none
        rw [hstill]
        exact Option.some_ne_none _
      · intro hk
        exact absurd hstill hk
    unfold helperReturns
    rw [hb]
    exact ⟨rfl, hwrap.of_same rfl rfl rfl rfl rfl, Or.inl ⟨rfl, rfl⟩⟩

/-- `xl_block_release` looks the wrapper up under the lock, and gives the lock back before it
releases the wrapper. -/
theorem xlBlockRelease_sound (h : s.Sound) (hrun : s.deadlock = false) (b : Address) :
    ((s.xlBlockRelease b).deadlock = true ↔ s.held = true) ∧
      ((s.xlBlockRelease b).deadlock = false → (s.xlBlockRelease b).Sound) := by
  unfold BlockTable.xlBlockRelease
  rcases Bool.eq_false_or_eq_true s.held with hheld | hheld
  · rw [if_pos (lock_held hheld), lock_held hheld]
    exact ⟨⟨fun _ => hheld, fun _ => rfl⟩, fun hfalse => (nomatch hfalse)⟩
  · have hunlocked : ({ s with held := true } : BlockTable).unlock = s := by
      rw [unlock, ← hheld]
    rw [if_neg (lock_runs hrun hheld), lock_free hheld]
    cases hf : s.forward b with
    | some w =>
        obtain ⟨count, hw⟩ := (h.table.live b w).mp hf
        dsimp only
        rw [hunlocked]
        obtain ⟨hdead, hsound⟩ := blockRelease_sound h hrun hw
        refine ⟨hdead.trans ?_, hsound⟩
        simp [hheld]
    | none =>
        dsimp only
        rw [hunlocked]
        exact ⟨by simp [hrun, hheld], fun _ => h⟩

/-- What the lock's invariant is about. -/
theorem Locked.of_same {s' : BlockTable} (h : s.Locked) (hh : s'.held = s.held)
    (hc : s'.copying = s.copying) (hb : ∀ b ∈ s.copying, s'.blocks b = s.blocks b) :
    s'.Locked := by
  rcases h with ⟨hheld, hnil⟩ | ⟨hheld, b, hcopying, hstack⟩
  · exact Or.inl ⟨hh.trans hheld, hc.trans hnil⟩
  · refine Or.inr ⟨hh.trans hheld, b, hc.trans hcopying, ?_⟩
    rw [hb b (by rw [hcopying]; exact List.mem_cons_self), hstack]

/-- The block whose copy helper runs is on the stack. -/
theorem Locked.copying_stack (h : s.Locked) {b : Address} (hb : b ∈ s.copying) :
    s.blocks b = some .stack := by
  rcases h with ⟨-, hnil⟩ | ⟨-, c, hcopying, hstack⟩
  · rw [hnil] at hb
    cases hb
  · rw [hcopying, List.mem_singleton] at hb
    rw [hb, hstack]

/-- A block at a free address. -/
theorem Sound.place (h : s.Sound) {a : Address} (hfree : s.blocks a = none) (kind : BlockKind) :
    { s with blocks := Function.update s.blocks a (some kind) }.Sound where
  table := by
    refine (h.table.place hfree kind (s.refs a)).of_same rfl ?_ rfl rfl rfl
    exact (Function.update_eq_self a s.refs).symm
  lock := by
    refine h.lock.of_same rfl rfl fun b hb => Function.update_of_ne ?_ _ _
    rintro rfl
    rw [h.lock.copying_stack hb] at hfree
    cases hfree

/-- The guest leaves a frame. -/
theorem Sound.leave (h : s.Sound) {a : Address} (hstack : s.blocks a = some .stack)
    (hcopying : a ∉ s.copying) : (s.remove a).Sound where
  table := h.table.remove (h.table.forward_none (Or.inr hstack))
  lock := by
    refine h.lock.of_same rfl rfl fun b hb => Function.update_of_ne ?_ _ _
    rintro rfl
    exact hcopying hb

theorem Sound.guestCopy (h : s.Sound) {a fresh : Address} (hfree : s.blocks fresh = none) :
    (s.guestCopy a fresh).2.Sound where
  table := h.table.guestCopy hfree
  lock := by
    obtain ⟨hh, hc, -⟩ := guestCopy_lock s a fresh
    refine h.lock.of_same hh hc fun b hb => ?_
    have hstack := h.lock.copying_stack hb
    have hne : b ≠ fresh := by
      rintro rfl
      rw [hfree] at hstack
      cases hstack
    unfold BlockTable.guestCopy
    split
    · exact Function.update_of_ne hne _ _
    · rfl
    · rfl

theorem Sound.guestRelease (h : s.Sound) {a : Address} (hown : s.wrapperRefs a < s.refs a) :
    (s.guestRelease a).Sound where
  table := h.table.guestRelease (Or.inl hown)
  lock := by
    obtain ⟨hh, hc, -⟩ := guestRelease_lock s a
    refine h.lock.of_same hh hc fun b hb => ?_
    have hstack := h.lock.copying_stack hb
    unfold BlockTable.guestRelease
    split
    case h_1 hheap =>
        have hne : b ≠ a := by
          rintro rfl
          rw [hstack] at hheap
          cases hheap
        split
        · exact Function.update_of_ne hne _ _
        · rfl
    case h_2 => rfl

/-- **One event: the thread hangs where the event takes the lock that the thread holds, and
otherwise the table and the lock stay sound.** -/
theorem step_sound {s s' : BlockTable} {e : Event} (h : s.Sound) (hs : s.step e = some s') :
    (s'.deadlock = true ↔ s.held = true ∧ s.Locks e) ∧ (s'.deadlock = false → s'.Sound) := by
  have hquiet : ∀ {t : BlockTable}, s.deadlock = false → t.deadlock = s.deadlock →
      ¬ s.Locks e → t.Sound →
        (t.deadlock = true ↔ s.held = true ∧ s.Locks e) ∧ (t.deadlock = false → t.Sound) := by
    intro t hrun hd hno hsound
    refine ⟨?_, fun _ => hsound⟩
    rw [hd, hrun]
    simp [hno]
  cases e with
  | enter a =>
      obtain ⟨⟨hrun, hfree⟩, hs⟩ := Option.ite_none_right_eq_some.mp hs
      cases hs
      exact hquiet (by simpa using hrun) rfl id (h.place hfree .stack)
  | leave a =>
      obtain ⟨⟨hrun, hstack, hcopying⟩, hs⟩ := Option.ite_none_right_eq_some.mp hs
      cases hs
      exact hquiet (by simpa using hrun) rfl id (h.leave hstack hcopying)
  | load a =>
      obtain ⟨⟨hrun, hfree⟩, hs⟩ := Option.ite_none_right_eq_some.mp hs
      cases hs
      exact hquiet (by simpa using hrun) rfl id (h.place hfree .global)
  | guestCopy a fresh =>
      obtain ⟨⟨hrun, -, hfree⟩, hs⟩ := Option.ite_none_right_eq_some.mp hs
      cases hs
      exact hquiet (by simpa using hrun) (guestCopy_lock s a fresh).2.2 id (h.guestCopy hfree)
  | guestRelease a =>
      obtain ⟨⟨hrun, hown⟩, hs⟩ := Option.ite_none_right_eq_some.mp hs
      cases hs
      exact hquiet (by simpa using hrun) (guestRelease_lock s a).2.2 id (h.guestRelease hown)
  | wrapperFor b =>
      obtain ⟨⟨hrun, hb⟩, hs⟩ := Option.ite_none_right_eq_some.mp hs
      cases hs
      obtain ⟨hdead, hsound⟩ := callWrapperFor_sound h (by simpa using hrun) hb
      exact ⟨hdead.trans (and_iff_left trivial).symm, hsound⟩
  | helperReturns fresh =>
      obtain ⟨⟨hrun, hcopying, hfree⟩, hs⟩ := Option.ite_none_right_eq_some.mp hs
      cases hs
      obtain ⟨hdead, hsound⟩ := helperReturns_sound h hcopying hfree
      exact hquiet (by simpa using hrun) hdead id hsound
  | release b =>
      obtain ⟨⟨hrun, -⟩, hs⟩ := Option.ite_none_right_eq_some.mp hs
      cases hs
      obtain ⟨hdead, hsound⟩ := xlBlockRelease_sound h (by simpa using hrun) b
      exact ⟨hdead.trans (and_iff_left trivial).symm, hsound⟩
  | drop w =>
      obtain ⟨⟨hrun, hpos⟩, hs⟩ := Option.ite_none_right_eq_some.mp hs
      cases hs
      obtain ⟨guest, count, hw⟩ : ∃ guest count, s.wrappers[w]? = some ⟨guest, count + 1⟩ := by
        rcases hw : s.wrappers[w]? with - | ⟨guest, - | count⟩
        · simp [hw] at hpos
        · simp [hw] at hpos
        · exact ⟨guest, count, rfl⟩
      obtain ⟨hdead, hsound⟩ := blockRelease_sound h (by simpa using hrun) hw
      refine ⟨hdead.trans (and_congr_right fun _ => ?_), hsound⟩
      simp [Locks, hw]

/-! ## Runs -/

/-- The table of a program that has not made a block. -/
theorem sound_start : Sound {} where
  table := by
    constructor
    case live =>
        intro a w
        constructor
        · intro h
          cases h
        · rintro ⟨count, h⟩
          cases h
    case holds => exact fun _ _ h => (nomatch h)
    case made => exact fun _ _ h => (nomatch h)
    case unmade => exact fun _ _ => rfl
    case room => simp
  lock := Or.inl ⟨rfl, rfl⟩

/-- A run goes on only while the thread does not hang. -/
theorem step_running {s s' : BlockTable} {e : Event} (hs : s.step e = some s') :
    s.deadlock = false := by
  cases e <;>
    · obtain ⟨⟨hrun, -⟩, -⟩ := Option.ite_none_right_eq_some.mp hs
      simpa using hrun

theorem run_concat (s : BlockTable) (events : List Event) (e : Event) :
    s.run (events ++ [e]) = (s.run events).bind fun t => t.step e := by
  unfold run
  rw [List.foldlM_append]
  rcases events.foldlM step s with - | t
  · rfl
  · simp

/-- The thread holds the lock exactly while a copy helper runs. -/
theorem Locked.held_iff (h : s.Locked) : s.held = true ↔ s.copying ≠ [] := by
  rcases h with ⟨hheld, hnil⟩ | ⟨hheld, b, hcopying, -⟩
  · simp [hheld, hnil]
  · simp [hheld, hcopying]

/-- **What a run keeps, by induction on the events from the last one: the table and the lock are
sound until the thread takes the lock that a copy helper runs under.** -/
theorem run_sound {events : List Event} {s : BlockTable} (h : run {} events = some s) :
    (s.deadlock = false → s.Sound) ∧
      (s.deadlock = true ↔ ∃ done e rest t, events = done ++ e :: rest ∧ run {} done = some t ∧
        t.copying ≠ [] ∧ t.Locks e) := by
  induction events using List.reverseRecOn generalizing s with
  | nil =>
      cases h
      refine ⟨fun _ => sound_start, fun hdead => (nomatch hdead), ?_⟩
      rintro ⟨done, e, rest, t, hevents, -⟩
      exact absurd hevents.symm (List.append_ne_nil_of_right_ne_nil _ (List.cons_ne_nil _ _))
  | append_singleton events e ih =>
      rw [run_concat] at h
      obtain ⟨t, ht, hstep⟩ := Option.bind_eq_some_iff.mp h
      obtain ⟨hsound, hearlier⟩ := ih ht
      have hrunning := step_running hstep
      have hbefore := hsound hrunning
      obtain ⟨hdead, hafter⟩ := step_sound hbefore hstep
      refine ⟨hafter, hdead.trans ⟨?_, ?_⟩⟩
      · rintro ⟨hheld, hlocks⟩
        exact ⟨events, e, [], t, rfl, ht, hbefore.lock.held_iff.mp hheld, hlocks⟩
      · rintro ⟨done, e', rest, t', hevents, ht', hcopying, hlocks⟩
        -- The event that takes the lock is the last one: the run went on after any other.
        rcases List.eq_nil_or_concat rest with rfl | ⟨rest', e'', rfl⟩
        · obtain ⟨rfl, hlast⟩ := List.append_inj' hevents rfl
          cases hlast
          rw [ht] at ht'
          cases ht'
          exact ⟨hbefore.lock.held_iff.mpr hcopying, hlocks⟩
        · have hdone : events = done ++ e' :: rest' := by
            rw [List.concat_eq_append, ← List.cons_append, ← List.append_assoc] at hevents
            exact (List.append_inj' hevents rfl).1
          have hhung := hearlier.mpr ⟨done, e', rest', t', hdone, ht', hcopying, hlocks⟩
          rw [hrunning] at hhung
          cases hhung

/-- **The lock is taken once in a run exactly where, while the copy helper of a stack block runs
for `xl_wrapper_for`, nothing takes it: no call counts a reference of a guest block or passes
one, and no wrapper loses its last reference.** -/
theorem lock_taken_once_iff {events : List Event} {s : BlockTable} (h : run {} events = some s) :
    s.deadlock = false ↔ ∀ done e rest, events = done ++ e :: rest →
      ∀ t, run {} done = some t → t.copying ≠ [] → ¬ t.Locks e := by
  rw [← Bool.not_eq_true, (run_sound h).2]
  constructor
  · intro hnever done e rest hevents t ht hcopying hlocks
    exact hnever ⟨done, e, rest, t, hevents, ht, hcopying, hlocks⟩
  · rintro hnever ⟨done, e, rest, t, hevents, ht, hcopying, hlocks⟩
    exact hnever done e rest hevents t ht hcopying hlocks

/-- A copied block crosses, a stack block crosses and is copied, and both are released. -/
def crossings : List Event :=
  [.enter 16, .guestCopy 16 32, .wrapperFor 32, .wrapperFor 16, .helperReturns 48, .release 48,
    .wrapperFor 32]

theorem lock_taken_once_crossings : ∃ s, run {} crossings = some s ∧ (s.deadlock = false ↔
    ∀ done e rest, crossings = done ++ e :: rest →
      ∀ t, run {} done = some t → t.copying ≠ [] → ¬ t.Locks e) :=
  ⟨_, rfl, lock_taken_once_iff rfl⟩

/-- The copy helper of a stack block retains the heap block at 32, which the stack block captures:
`xl_block_retain` waits for the lock that `xl_wrapper_for` holds. -/
theorem lock_taken_twice :
    (run {} [.enter 16, .guestCopy 16 32, .enter 64, .wrapperFor 64, .wrapperFor 32]).map deadlock
      = some true := rfl

/-! ## Identity -/

/-- **One logical block has one identity.** -/
structure Identity (s : BlockTable) (b : Address) : Prop where
  /-- The calls return. -/
  answers : ∀ fresh, (s.xlWrapperFor b fresh).isSome
  /-- While a wrapper made for the block is alive, the block has that wrapper. -/
  same : ∀ w ∈ s.made b, s.Alive w → ∀ fresh, s.blocks fresh = none →
    (s.xlWrapperFor b fresh).map Prod.fst = some w ∧ s.xlObjectIn b fresh = some w
  roundTrip : ∀ w, s.Alive w → ∀ fresh, s.blocks fresh = none →
    (s.xlObjectOut w).bind (fun guest => s.xlObjectIn guest fresh) = some w
  /-- The pointer `objc_retainBlock` returns is the address that the wrapper holds, and outlives
  the frame. -/
  retained : ∀ fresh, s.blocks fresh = none → ∃ w p s', s.xlWrapperFor b fresh = some (w, s') ∧
    s.xlBlockRetain b fresh = some (p, s') ∧ s'.xlObjectOut w = some p ∧
    s'.blocks p ≠ some .stack

/-- Where the lock is free, `xl_wrapper_for` returns. -/
theorem xlWrapperFor_free (hrun : s.deadlock = false) (hheld : s.held = false)
    (b fresh : Address) :
    s.xlWrapperFor b fresh = match s.forward b with
      | some w => some (w, s.copyWrapper w)
      | none =>
          some (s.wrappers.length, (s.guestCopy b fresh).2.wrap b (s.guestCopy b fresh).1) := by
  rw [xlWrapperFor, lock_deadlock, hrun, hheld]
  rfl

/-- **The call of a run is the whole call**: `xl_wrapper_for` returns the state that its event
leads to, with the return of the copy helper where a stack block is copied. -/
theorem callWrapperFor_eq (h : s.Sound) (hrun : s.deadlock = false) (hheld : s.held = false)
    {b : Address} (hb : (s.blocks b).isSome) (fresh : Address) :
    (s.xlWrapperFor b fresh).map Prod.snd = some (if s.blocks b = some .stack then
      (s.callWrapperFor b).helperReturns fresh else s.callWrapperFor b) := by
  have hself : ({ s with held := false } : BlockTable) = s := by rw [← hheld]
  rw [xlWrapperFor_free hrun hheld, callWrapperFor, if_neg (lock_runs hrun hheld),
    lock_free hheld]
  cases hf : s.forward b with
  | some w =>
      have hstack : s.blocks b ≠ some .stack := by
        intro hstack
        rw [h.table.forward_none (Or.inr hstack)] at hf
        cases hf
      rw [if_neg hstack]
      show some (s.copyWrapper w) = some (({ s with held := false } : BlockTable).copyWrapper w)
      rw [hself]
  | none =>
      by_cases hstack : s.blocks b = some .stack
      · have hcopy : s.guestCopy b fresh = (fresh, s.allocate fresh) := by
          rw [BlockTable.guestCopy, hstack]
        rw [if_pos hstack, hcopy]
        dsimp only
        rw [if_pos hstack]
        show some ((s.allocate fresh).wrap b fresh)
          = some ((({ s with held := false } : BlockTable).allocate fresh).wrap b fresh)
        rw [hself]
      · obtain ⟨hguest, hstate, -⟩ := guestCopy_self hb hstack fresh
        rw [if_neg hstack]
        dsimp only
        rw [if_neg hstack, hguest, hstate]
        have hunlock : (BlockTable.guestCopy { s with held := true } b b).2.unlock
            = (BlockTable.guestCopy { s with held := false } b b).2 := by
          unfold BlockTable.guestCopy
          cases s.blocks b with
          | none => rfl
          | some kind => cases kind <;> rfl
        show some ((s.guestCopy b b).2.wrap b b)
          = some ((BlockTable.guestCopy { s with held := true } b b).2.unlock.wrap b b)
        rw [hunlock, hself]

/-- Where the table holds the wrapper of a guest block, a crossing of the block finds it. -/
theorem crosses_of_forward (hrun : s.deadlock = false) (hheld : s.held = false) {a : Address}
    (ha : (s.blocks a).isSome) {w : Nat} (hf : s.forward a = some w) (fresh : Address) :
    s.xlWrapperFor a fresh = some (w, s.copyWrapper w) ∧ s.xlObjectIn a fresh = some w := by
  have hcall : s.xlWrapperFor a fresh = some (w, s.copyWrapper w) := by
    rw [xlWrapperFor_free hrun hheld, hf]
  refine ⟨hcall, ?_⟩
  rw [xlObjectIn, if_pos ha, hcall]
  rfl

/-- What the wrapper of a block that is not on the stack holds. -/
theorem xlObjectOut_xlWrapperFor (h : s.Sound) (hrun : s.deadlock = false)
    (hheld : s.held = false) {b : Address} (hb : (s.blocks b).isSome)
    (hstack : s.blocks b ≠ some .stack) (fresh : Address) :
    ∃ w s', s.xlWrapperFor b fresh = some (w, s') ∧ s'.xlObjectOut w = some b ∧
      s'.blocks b ≠ some .stack := by
  cases hf : s.forward b with
  | some w =>
      obtain ⟨count, hw⟩ := (h.table.live b w).mp hf
      refine ⟨w, _, (crosses_of_forward hrun hheld hb hf fresh).1, ?_, hstack⟩
      simp [xlObjectOut, BlockTable.copyWrapper, hw]
  | none =>
      obtain ⟨hguest, hstate, hblocks, -, -⟩ := guestCopy_self hb hstack fresh
      have hcall : s.xlWrapperFor b fresh
          = some (s.wrappers.length, (s.guestCopy b b).2.wrap b b) := by
        rw [xlWrapperFor_free hrun hheld, hf]
        dsimp only
        rw [hguest, hstate]
      refine ⟨_, _, hcall, ?_, ?_⟩
      · rw [xlObjectOut, BlockTable.wrap, guestCopy_wrappers]
        simp
      · show (s.guestCopy b b).2.blocks b ≠ some .stack
        rw [hblocks]
        exact hstack

/-- **A block has one identity exactly where it is not on the stack**, and the thread does not hold
the lock: the wrapper of a stack block is filed under the address of the copy, where the next
crossing of the stack block does not find it, and `xl_block_retain` returns the stack block. -/
theorem identity_iff {events : List Event} {s : BlockTable} (h : run {} events = some s)
    {b : Address} (hb : (s.blocks b).isSome) :
    s.Identity b ↔ s.blocks b ≠ some .stack ∧ s.held = false ∧ s.deadlock = false := by
  constructor
  · intro hid
    have hfree : s.lock.deadlock = false := by
      by_contra hlocked
      have hsome := hid.answers b
      rw [xlWrapperFor, if_pos (by simpa using hlocked)] at hsome
      cases hsome
    obtain ⟨hrun, hheld⟩ := Bool.or_eq_false_iff.mp ((lock_deadlock s).symm.trans hfree)
    refine ⟨fun hstack => ?_, hheld, hrun⟩
    have hsound := (run_sound h).1 hrun
    -- The copy is at another address than the block, which is the pointer that is returned.
    obtain ⟨fresh, hfresh⟩ := hsound.table.room.exists_notMem
    have hunused : s.blocks fresh = none := by simpa using hfresh
    obtain ⟨w, p, s', hcall, hretain, hout, -⟩ := hid.retained fresh hunused
    have hcopied : s.xlWrapperFor b fresh
        = some (s.wrappers.length, (s.allocate fresh).wrap b fresh) := by
      rw [xlWrapperFor_free hrun hheld, hsound.table.forward_none (Or.inr hstack),
        BlockTable.guestCopy, hstack]
    rw [xlBlockRetain, hcopied] at hretain
    rw [hcopied] at hcall
    cases hcall
    cases hretain
    have hp : fresh = b := by simpa [xlObjectOut, BlockTable.wrap, allocate] using hout
    rw [← hp, hunused] at hb
    cases hb
  · rintro ⟨hstack, hheld, hrun⟩
    have hsound := (run_sound h).1 hrun
    constructor
    case answers =>
        intro fresh
        obtain ⟨w, s', hcall, -⟩ := xlObjectOut_xlWrapperFor hsound hrun hheld hb hstack fresh
        rw [hcall]
        rfl
    case same =>
        rintro w hw ⟨guest, count, hget⟩ fresh -
        have hguest := (hsound.table.made b w hw).2 hstack guest count hget
        have hf : s.forward b = some w := (hsound.table.live b w).mpr ⟨count, hguest ▸ hget⟩
        obtain ⟨hcall, hin⟩ := crosses_of_forward hrun hheld hb hf fresh
        rw [hcall]
        exact ⟨rfl, hin⟩
    case roundTrip =>
        rintro w ⟨guest, count, hget⟩ fresh -
        have hf : s.forward guest = some w := (hsound.table.live guest w).mpr ⟨count, hget⟩
        have hguest : (s.blocks guest).isSome := by
          rcases hsound.table.holds guest w hf with ⟨hk, -⟩ | hk
          · rw [hk]
            rfl
          · rw [hk]
            rfl
        rw [xlObjectOut, hget]
        exact (crosses_of_forward hrun hheld hguest hf fresh).2
    case retained =>
        intro fresh _
        obtain ⟨w, s', hcall, hout, hkind⟩ :=
          xlObjectOut_xlWrapperFor hsound hrun hheld hb hstack fresh
        refine ⟨w, b, s', hcall, ?_, hout, hkind⟩
        rw [xlBlockRetain, hcall]
        rfl

/-- The copied block has one identity, the stack block that was copied has none. -/
theorem identity_crossings : ∃ s, run {} crossings = some s ∧
    (s.Identity 32 ↔ s.blocks 32 ≠ some .stack ∧ s.held = false ∧ s.deadlock = false) :=
  ⟨_, rfl, @identity_iff crossings _ rfl 32 rfl⟩

/-- A stack block at 16 crosses: its wrapper 0 is alive, and the next crossing makes wrapper 1. -/
theorem not_identity_stack :
    ∃ s, run {} [.enter 16, .wrapperFor 16, .helperReturns 32] = some s ∧
      s.blocks 16 = some .stack ∧ s.held = false ∧ s.deadlock = false ∧
      s.made 16 = [0] ∧ s.Alive 0 ∧ (s.xlWrapperFor 16 48).map Prod.fst = some 1 ∧
      (s.xlBlockRetain 16 48).map Prod.fst = some 16 ∧ ¬ s.Identity 16 := by
  refine ⟨_, rfl, rfl, rfl, rfl, rfl, ⟨32, 0, rfl⟩, rfl, rfl, fun hid => ?_⟩
  have hsame := (hid.same 0 List.mem_cons_self ⟨32, 0, rfl⟩ 48 rfl).1
  exact absurd hsame (by decide)

end BlockTable

end Katabasis
