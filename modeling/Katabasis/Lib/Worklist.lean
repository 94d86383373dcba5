import Mathlib.Tactic

set_option autoImplicit false

/-! # A worklist solver for data flow on a graph

Each node has an entry state; processing a node transfers its entry state and merges the
result into the entry states of its successors, and a successor whose state changed goes back
on the worklist. The worklist is a stack. Processing a node may also record something.

`solve_isSome`: where the merges that change a state raise its rank, and ranks are bounded, a
fuel computed from the bound is enough. `solve_stable`: where a merge only adds, the result
carries every edge, and it carries what the solver started with. `Arrives.le_result`: it then
bounds the state in which any path reaches a node. `solve_keeps`: what every edge keeps holds of
the result, and of a state in which each node of the first worklist is processed.

None of this rests on the stack. `Turn` is the loop with any node of the worklist taken; it ends
(`no_endless_turns`), and where a merge is a least upper bound every run of it ends in the least
states that carry the edges (`runs_settled`, `runs_le`), whatever the order (`runs_mono`).
-/

namespace Worklist

structure Problem (σ ω : Type) where
  size : Nat
  succs : Nat → List Nat
  transfer : Nat → σ → σ
  /-- What processing a node records. -/
  record : Nat → σ → List ω
  merge : σ → σ → σ
  differs : σ → σ → Bool

variable {σ ω : Type} (P : Problem σ ω)

/-- Merging a result into one successor. -/
def visit (out : σ) (s : (Nat → σ) × List Nat) (next : Nat) : (Nat → σ) × List Nat :=
  let merged := P.merge (s.1 next) out
  if P.differs (s.1 next) merged then (Function.update s.1 next merged, next :: s.2) else s

/-- The loop: `none` only when the fuel runs out. -/
def solve : Nat → (Nat → σ) → List Nat → List ω → Option ((Nat → σ) × List ω)
  | _, entry, [], log => some (entry, log)
  | 0, _, _ :: _, _ => none
  | fuel + 1, entry, b :: work, log =>
      let next := (P.succs b).foldl (visit P (P.transfer b (entry b))) (entry, work)
      solve fuel next.1 next.2 (log ++ P.record b (entry b))

theorem fuel_of_solve {P : Problem σ ω} {fuel : Nat} {entry : Nat → σ} {b : Nat} {work : List Nat}
    {log : List ω} {r : (Nat → σ) × List ω} (h : solve P fuel entry (b :: work) log = some r) :
    ∃ n, fuel = n + 1 := by
  cases fuel with
  | zero => cases h
  | succ n => exact ⟨n, rfl⟩

/-! ## Termination -/

/-- The states have bounded ranks, and a merge that changes a state raises its rank. -/
structure Rising (rank : σ → Nat) (bound : Nat) (P : Problem σ ω) : Prop where
  rank_le : ∀ s, rank s ≤ bound
  rank_lt : ∀ s o, P.differs s (P.merge s o) = true → rank s < rank (P.merge s o)
  succs_lt : ∀ b < P.size, ∀ n ∈ P.succs b, n < P.size

/-- How far the states can still rise. -/
def potential (rank : σ → Nat) (bound : Nat) (P : Problem σ ω) (entry : Nat → σ) : Nat :=
  (Finset.range P.size).sum fun i => bound - rank (entry i)

theorem potential_le (rank : σ → Nat) (bound : Nat) (entry : Nat → σ) :
    potential rank bound P entry ≤ P.size * bound := by
  have := Finset.sum_le_card_nsmul (Finset.range P.size) (fun i => bound - rank (entry i)) bound
    fun i _ => Nat.sub_le _ _
  simpa [potential] using this

section

variable {P} {rank : σ → Nat} {bound : Nat} (h : Rising rank bound P)

include h

theorem potential_update {entry : Nat → σ} {n : Nat} (hn : n < P.size) {out : σ}
    (hd : P.differs (entry n) (P.merge (entry n) out) = true) :
    potential rank bound P (Function.update entry n (P.merge (entry n) out))
      < potential rank bound P entry := by
  have hlt := h.rank_lt _ _ hd
  have hle := h.rank_le (P.merge (entry n) out)
  refine Finset.sum_lt_sum (fun i _ => ?_) ⟨n, Finset.mem_range.mpr hn, ?_⟩
  · by_cases hi : i = n
    · rw [hi, Function.update_self]
      omega
    · rw [Function.update_of_ne hi]
  · rw [Function.update_self]
    omega

theorem visit_potential {n : Nat} (hn : n < P.size) (out : σ) (s : (Nat → σ) × List Nat) :
    potential rank bound P (visit P out s n).1 + (visit P out s n).2.length
      ≤ potential rank bound P s.1 + s.2.length := by
  unfold visit
  simp only
  split
  case isTrue hd =>
      have := potential_update h hn hd
      simp only [List.length_cons]
      omega
  case isFalse => exact Nat.le_refl _

theorem visits_potential {nexts : List Nat} (hn : ∀ n ∈ nexts, n < P.size) (out : σ)
    (s : (Nat → σ) × List Nat) :
    potential rank bound P (nexts.foldl (visit P out) s).1
        + (nexts.foldl (visit P out) s).2.length
      ≤ potential rank bound P s.1 + s.2.length := by
  induction nexts generalizing s with
  | nil => exact Nat.le_refl _
  | cons n rest ih =>
      have hstep := visit_potential h (hn n List.mem_cons_self) out s
      have hrest := ih (fun m hm => hn m (List.mem_cons_of_mem _ hm)) (visit P out s n)
      rw [List.foldl_cons]
      omega

omit h in
theorem visits_below {out : σ} {nexts : List Nat} (hn : ∀ n ∈ nexts, n < P.size)
    (s : (Nat → σ) × List Nat) (hs : ∀ b ∈ s.2, b < P.size) :
    ∀ b ∈ (nexts.foldl (visit P out) s).2, b < P.size := by
  induction nexts generalizing s with
  | nil => exact hs
  | cons n rest ih =>
      rw [List.foldl_cons]
      refine ih (fun m hm => hn m (List.mem_cons_of_mem _ hm)) _ fun b hb => ?_
      unfold visit at hb
      simp only at hb
      split at hb
      · rcases List.mem_cons.mp hb with rfl | hb
        · exact hn _ List.mem_cons_self
        · exact hs b hb
      · exact hs b hb

/-- **The loop ends**, within as many steps as the worklist is long and the states can rise. -/
theorem solve_isSome {fuel : Nat} {entry : Nat → σ} {work : List Nat} {log : List ω}
    (hw : ∀ b ∈ work, b < P.size)
    (hf : potential rank bound P entry + work.length ≤ fuel) :
    (solve P fuel entry work log).isSome := by
  induction fuel generalizing entry work log with
  | zero =>
      cases work with
      | nil => rfl
      | cons b rest => rw [List.length_cons] at hf; omega
  | succ fuel ih =>
      cases work with
      | nil => rfl
      | cons b rest =>
          have hb := h.succs_lt b (hw b List.mem_cons_self)
          have hpot := visits_potential h hb (P.transfer b (entry b)) (entry, rest)
          rw [solve]
          refine ih (visits_below hb _ fun m hm => hw m (List.mem_cons_of_mem _ hm)) ?_
          rw [List.length_cons] at hf
          simp only at hpot ⊢
          omega

end

/-! ## What the result carries -/

/-- In the order `le`, merging only adds, and a merge that changes nothing has nothing to
add. -/
structure Growing (le : σ → σ → Prop) (P : Problem σ ω) : Prop where
  refl : ∀ s, le s s
  trans : ∀ a b c, le a b → le b c → le a c
  left : ∀ s o, le s (P.merge s o)
  right : ∀ s o, le o (P.merge s o)
  same : ∀ s o, P.differs s (P.merge s o) = false → le o s

/-- Every node off the worklist has its result in the entry states of its successors. -/
def Settled (le : σ → σ → Prop) (P : Problem σ ω) (entry : Nat → σ) (work : List Nat) : Prop :=
  ∀ b < P.size, b ∉ work → ∀ n ∈ P.succs b, le (P.transfer b (entry b)) (entry n)

/-- The loop over the successors of `b`, once those in `done` are visited. -/
structure Visited (le : σ → σ → Prop) (P : Problem σ ω) (entry : Nat → σ) (b : Nat)
    (done : List Nat) (s : (Nat → σ) × List Nat) : Prop where
  grows : ∀ x, le (entry x) (s.1 x)
  others : ∀ x < P.size, x ≠ b → x ∉ s.2 → ∀ n ∈ P.succs x, le (P.transfer x (s.1 x)) (s.1 n)
  same : b ∉ s.2 → s.1 b = entry b
  covers : ∀ n ∈ done, le (P.transfer b (entry b)) (s.1 n)

section

variable {P} {le : σ → σ → Prop} (hle : Growing le P)

include hle

theorem le_update {entry : Nat → σ} {n : Nat} {out : σ} (x : Nat) :
    le (entry x) (Function.update entry n (P.merge (entry n) out) x) := by
  by_cases hx : x = n
  · rw [hx, Function.update_self]
    exact hle.left _ _
  · rw [Function.update_of_ne hx]
    exact hle.refl _

theorem visit_visited {entry : Nat → σ} {b : Nat} {done : List Nat}
    {s : (Nat → σ) × List Nat} (h : Visited le P entry b done s) (n : Nat) :
    Visited le P entry b (done ++ [n]) (visit P (P.transfer b (entry b)) s n) := by
  obtain ⟨now, work⟩ := s
  unfold visit
  simp only
  split
  case isTrue =>
      refine ⟨fun x => hle.trans _ _ _ (h.grows x) (le_update hle x),
        fun x hx hxb hxw m hm => ?_, fun hb => ?_, fun m hm => ?_⟩
      · simp only [List.mem_cons, not_or] at hxw
        simp only [Function.update_of_ne hxw.1]
        exact hle.trans _ _ _ (h.others x hx hxb hxw.2 m hm) (le_update hle m)
      · simp only [List.mem_cons, not_or] at hb
        simp only [Function.update_of_ne hb.1]
        exact h.same hb.2
      · rcases List.mem_append.mp hm with hold | hnew
        · exact hle.trans _ _ _ (h.covers m hold) (le_update hle m)
        · rw [List.mem_singleton.mp hnew]
          simp only [Function.update_self]
          exact hle.right _ _
  case isFalse hd =>
      refine ⟨h.grows, h.others, h.same, fun m hm => ?_⟩
      rcases List.mem_append.mp hm with hold | hnew
      · exact h.covers m hold
      · rw [List.mem_singleton.mp hnew]
        exact hle.same _ _ (by simpa using hd)

theorem visits_visited {entry : Nat → σ} {b : Nat} {done : List Nat}
    {s : (Nat → σ) × List Nat} (h : Visited le P entry b done s) (nexts : List Nat) :
    Visited le P entry b (done ++ nexts)
      (nexts.foldl (visit P (P.transfer b (entry b))) s) := by
  induction nexts generalizing done s with
  | nil => rwa [List.append_nil]
  | cons n rest ih =>
      have hstep := visit_visited hle h n
      have hrest := ih hstep
      rwa [List.append_assoc, List.singleton_append] at hrest

/-- Processing a node of the worklist settles it; a successor it changes is back on the list. -/
theorem visits_settled {entry : Nat → σ} {work rest : List Nat} {b : Nat}
    (hwork : ∀ x ∈ work, x = b ∨ x ∈ rest) (hs : Settled le P entry work) :
    let next := (P.succs b).foldl (visit P (P.transfer b (entry b))) (entry, rest)
    Settled le P next.1 next.2 ∧ ∀ x, le (entry x) (next.1 x) := by
  have hstart : Visited le P entry b [] (entry, rest) := by
    refine ⟨fun x => hle.refl _, fun x hx hxb hxw => hs x hx fun hmem => ?_, fun _ => rfl,
      fun m hm => nomatch hm⟩
    exact (hwork x hmem).elim hxb hxw
  have hdone := visits_visited hle hstart (P.succs b)
  rw [List.nil_append] at hdone
  refine ⟨fun x hx hxw m hm => ?_, hdone.grows⟩
  by_cases hxb : x = b
  · subst hxb
    rw [hdone.same hxw]
    exact hdone.covers m hm
  · exact hdone.others x hx hxb hxw m hm

end

/-! ## Any order -/

/-- One turn of the loop, whatever node of the worklist is taken. -/
inductive Turn (P : Problem σ ω) : (Nat → σ) × List Nat → (Nat → σ) × List Nat → Prop
  | take {entry : Nat → σ} {work rest : List Nat} {b : Nat} (h : work.Perm (b :: rest)) :
      Turn P (entry, work) ((P.succs b).foldl (visit P (P.transfer b (entry b))) (entry, rest))

/-- The loop, in any order. -/
abbrev Runs (P : Problem σ ω) : (Nat → σ) × List Nat → (Nat → σ) × List Nat → Prop :=
  Relation.ReflTransGen (Turn P)

/-- The stack is one of the orders. -/
theorem solve_runs {fuel : Nat} {entry result : Nat → σ} {work : List Nat} {log log' : List ω}
    (h : solve P fuel entry work log = some (result, log')) : Runs P (entry, work) (result, []) := by
  induction fuel generalizing entry work log with
  | zero =>
      cases work with
      | nil =>
          injection h with h
          injection h with h
          rw [← h]
      | cons b rest => cases h
  | succ fuel ih =>
      cases work with
      | nil =>
          injection h with h
          injection h with h
          rw [← h]
      | cons b rest => exact (ih h).head (.take (List.Perm.refl _))

section

variable {P} {rank : σ → Nat} {bound : Nat} (h : Rising rank bound P)

include h

/-- A turn comes closer to the end. -/
theorem turn_potential {s t : (Nat → σ) × List Nat} (hturn : Turn P s t)
    (hs : ∀ b ∈ s.2, b < P.size) :
    (∀ b ∈ t.2, b < P.size) ∧
      potential rank bound P t.1 + t.2.length < potential rank bound P s.1 + s.2.length := by
  cases hturn with
  | @take entry work rest b hperm =>
      have hb : b < P.size := hs b (hperm.mem_iff.mpr List.mem_cons_self)
      have hrest : ∀ m ∈ rest, m < P.size :=
        fun m hm => hs m (hperm.mem_iff.mpr (List.mem_cons_of_mem _ hm))
      have hpot := visits_potential h (h.succs_lt b hb) (P.transfer b (entry b)) (entry, rest)
      have hlength := hperm.length_eq
      rw [List.length_cons] at hlength
      refine ⟨visits_below (h.succs_lt b hb) _ hrest, ?_⟩
      simp only at hpot ⊢
      omega

/-- **The loop ends in every order.** -/
theorem no_endless_turns (run : Nat → (Nat → σ) × List Nat) (hs : ∀ b ∈ (run 0).2, b < P.size) :
    ¬ ∀ k, Turn P (run k) (run (k + 1)) := by
  intro hrun
  let left := fun k => potential rank bound P (run k).1 + (run k).2.length
  have hdown : ∀ k, (∀ b ∈ (run k).2, b < P.size) ∧ left k + k ≤ left 0 := by
    intro k
    induction k with
    | zero => exact ⟨hs, Nat.le_refl _⟩
    | succ k ih =>
        obtain ⟨hbelow, hlt⟩ := turn_potential h (hrun k) ih.1
        have hleft : left (k + 1) < left k := hlt
        exact ⟨hbelow, by omega⟩
  have hend := (hdown (left 0 + 1)).2
  omega

end

section

variable {P} {le : σ → σ → Prop} (hle : Growing le P)

include hle

/-- **A run that has come to the end carries every edge**, and what it started with. -/
theorem runs_settled {s t : (Nat → σ) × List Nat} (hruns : Runs P s t)
    (hs : Settled le P s.1 s.2) : Settled le P t.1 t.2 ∧ ∀ x, le (s.1 x) (t.1 x) := by
  induction hruns with
  | refl => exact ⟨hs, fun x => hle.refl _⟩
  | tail _ hturn ih =>
      obtain ⟨hsettled, hgrows⟩ := ih
      cases hturn with
      | take hperm =>
          obtain ⟨hnext, hmore⟩ := visits_settled hle
            (fun x hx => List.mem_cons.mp (hperm.mem_iff.mp hx)) hsettled
          exact ⟨hnext, fun x => hle.trans _ _ _ (hgrows x) (hmore x)⟩

/-- **The result carries every edge**, and what the solver started with. -/
theorem solve_stable {fuel : Nat} {entry result : Nat → σ} {work : List Nat}
    {log log' : List ω} (h : solve P fuel entry work log = some (result, log'))
    (hs : Settled le P entry work) :
    Settled le P result [] ∧ ∀ x, le (entry x) (result x) :=
  runs_settled hle (solve_runs P h) hs

end

/-! ## What the states of the loop keep -/

section

variable {P} {Q : Nat → σ → Prop} (hQ : ∀ b s n s', Q b s → n ∈ P.succs b → Q n s' →
  Q n (P.merge s' (P.transfer b s)))

include hQ

theorem visits_keep {b : Nat} {before : σ} (hfrom : Q b before) {nexts : List Nat}
    (hnexts : ∀ n ∈ nexts, n ∈ P.succs b) (s : (Nat → σ) × List Nat) (hs : ∀ x, Q x (s.1 x)) :
    ∀ x, Q x ((nexts.foldl (visit P (P.transfer b before)) s).1 x) := by
  induction nexts generalizing s with
  | nil => exact hs
  | cons n rest ih =>
      rw [List.foldl_cons]
      refine ih (fun m hm => hnexts m (List.mem_cons_of_mem _ hm)) _ fun x => ?_
      unfold visit
      simp only
      split
      case isTrue =>
          simp only
          by_cases hx : x = n
          · rw [hx, Function.update_self]
            exact hQ b before n _ hfrom (hnexts n List.mem_cons_self) (hs n)
          · rw [Function.update_of_ne hx]
            exact hs x
      case isFalse => exact hs x

omit hQ in
theorem visits_work (out : σ) (nexts : List Nat) (s : (Nat → σ) × List Nat) :
    ∀ b ∈ s.2, b ∈ (nexts.foldl (visit P out) s).2 := by
  induction nexts generalizing s with
  | nil => exact fun b hb => hb
  | cons n rest ih =>
      intro b hb
      rw [List.foldl_cons]
      apply ih
      unfold visit
      simp only
      split
      case isTrue => exact List.mem_cons_of_mem _ hb
      case isFalse => exact hb

/-- **What an edge keeps, the loop keeps**, and each node of the worklist is processed in a
state that has it: what it records there is in the log. -/
theorem solve_keeps {fuel : Nat} {entry result : Nat → σ} {work : List Nat} {log log' : List ω}
    (h : solve P fuel entry work log = some (result, log')) (hentry : ∀ x, Q x (entry x)) :
    (∀ x, Q x (result x)) ∧ (∀ w ∈ log, w ∈ log') ∧
      ∀ b ∈ work, ∃ s, Q b s ∧ ∀ w ∈ P.record b s, w ∈ log' := by
  induction fuel generalizing entry work log with
  | zero =>
      cases work with
      | nil =>
          injection h with h
          injection h with hresult hlog
          rw [← hresult, ← hlog]
          exact ⟨hentry, fun w hw => hw, fun b hb => nomatch hb⟩
      | cons b rest => cases h
  | succ fuel ih =>
      cases work with
      | nil =>
          injection h with h
          injection h with hresult hlog
          rw [← hresult, ← hlog]
          exact ⟨hentry, fun w hw => hw, fun b hb => nomatch hb⟩
      | cons b rest =>
          rw [solve] at h
          obtain ⟨hkept, hgrows, hdone⟩ :=
            ih h (visits_keep hQ (hentry b) (fun n hn => hn) _ hentry)
          refine ⟨hkept, fun w hw => hgrows w (List.mem_append_left _ hw), fun x hx => ?_⟩
          rcases List.mem_cons.mp hx with rfl | hrest
          · exact ⟨entry x, hentry x, fun w hw => hgrows w (List.mem_append_right _ hw)⟩
          · exact hdone x (visits_work _ _ _ x hrest)

/-- What is in the log was there before, or was recorded in a state that has what the edges
keep. -/
theorem solve_log {fuel : Nat} {entry result : Nat → σ} {work : List Nat} {log log' : List ω}
    (h : solve P fuel entry work log = some (result, log')) (hentry : ∀ x, Q x (entry x)) {w : ω}
    (hw : w ∈ log') : w ∈ log ∨ ∃ b s, Q b s ∧ w ∈ P.record b s := by
  induction fuel generalizing entry work log with
  | zero =>
      cases work with
      | nil =>
          injection h with h
          injection h with _ hlog
          exact Or.inl (hlog ▸ hw)
      | cons b rest => cases h
  | succ fuel ih =>
      cases work with
      | nil =>
          injection h with h
          injection h with _ hlog
          exact Or.inl (hlog ▸ hw)
      | cons b rest =>
          rw [solve] at h
          rcases ih h (visits_keep hQ (hentry b) (fun n hn => hn) _ hentry) with hold | hnew
          · rcases List.mem_append.mp hold with hlog | hrecord
            · exact Or.inl hlog
            · exact Or.inr ⟨b, entry b, hentry b, hrecord⟩
          · exact Or.inr hnew

/-- **What an edge keeps, a run keeps**, in any order. -/
theorem runs_keep {s t : (Nat → σ) × List Nat} (hruns : Runs P s t) (hs : ∀ x, Q x (s.1 x)) :
    ∀ x, Q x (t.1 x) := by
  induction hruns with
  | refl => exact hs
  | tail _ hturn ih =>
      cases hturn with
      | take _ => exact visits_keep hQ (ih _) (fun n hn => hn) _ ih

end

/-! ## The least states that carry the edges -/

/-- A merge is a least upper bound in the order, and the transfers respect it. -/
structure Joining (le : σ → σ → Prop) (P : Problem σ ω) : Prop extends Growing le P where
  least : ∀ a o c, le a c → le o c → le (P.merge a o) c
  mono : ∀ b s t, le s t → le (P.transfer b s) (P.transfer b t)
  source_lt : ∀ b n, n ∈ P.succs b → b < P.size

section

variable {P} {le : σ → σ → Prop} (hle : Joining le P)

include hle

/-- **No run goes above states that carry every edge**, if it starts below them. -/
theorem runs_le {s t : (Nat → σ) × List Nat} {bound : Nat → σ} (hbound : Settled le P bound [])
    (hruns : Runs P s t) (hs : ∀ x, le (s.1 x) (bound x)) : ∀ x, le (t.1 x) (bound x) := by
  refine runs_keep (Q := fun b s => le s (bound b)) (fun b s n s' hb hn hn' => ?_) hruns hs
  apply hle.least _ _ _ hn'
  -- what the edge carries is below what it carries from the bound
  exact hle.trans _ _ _ (hle.mono b _ _ hb)
    (hbound b (hle.source_lt b n hn) List.not_mem_nil n hn)

/-- **The result does not depend on the order**, nor on more than the states a run starts with. -/
theorem runs_mono {s s' : (Nat → σ) × List Nat} {t t' : Nat → σ} (hruns : Runs P s (t, []))
    (hruns' : Runs P s' (t', [])) (hs' : Settled le P s'.1 s'.2)
    (hstart : ∀ x, le (s.1 x) (s'.1 x)) : ∀ x, le (t x) (t' x) := by
  obtain ⟨hsettled, hgrows⟩ := runs_settled hle.toGrowing hruns' hs'
  exact runs_le hle hsettled hruns fun x => hle.trans _ _ _ (hstart x) (hgrows x)

end

/-! ## The result and the paths -/

/-- A path from node 0 reaches the node with this state. -/
inductive Arrives (P : Problem σ ω) (seed : σ) : Nat → σ → Prop
  | entry : Arrives P seed 0 seed
  | edge {b n : Nat} {s : σ} (h : Arrives P seed b s) (hn : n ∈ P.succs b) :
      Arrives P seed n (P.transfer b s)

/-- **The result bounds every path**, where the transfers respect the order. -/
theorem Arrives.le_result {P : Problem σ ω} {le : σ → σ → Prop} (hle : Growing le P)
    (hmono : ∀ b s t, le s t → le (P.transfer b s) (P.transfer b t))
    (hsize : ∀ b n, n ∈ P.succs b → b < P.size) {result : Nat → σ}
    (hresult : Settled le P result []) {seed : σ} (hseed : le seed (result 0)) {b : Nat} {s : σ}
    (h : Arrives P seed b s) : le s (result b) := by
  induction h with
  | entry => exact hseed
  | @edge b n s _ hn ih =>
      have hedge := hresult b (hsize b n hn) (by simp) n hn
      exact hle.trans _ _ _ (hmono b s (result b) ih) hedge

end Worklist
