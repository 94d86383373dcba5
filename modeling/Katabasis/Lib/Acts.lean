import Mathlib.Tactic

set_option autoImplicit false

/-! # Computations that may stop the process

A computation over a state ends with a value, or stops the process where it stands; the state
is there in both cases. `Ensures P a Q E`: from a state with `P`, the computation `a` ends with
a value and a state as `Q` says, or stops in a state with `E`. One rule for each way to build a
computation.
-/

/-- A computation over the state `σ`: `none` is a stopped process. -/
def Act (σ α : Type) : Type := σ → Option α × σ

namespace Act

variable {σ α β : Type}

instance : Monad (Act σ) where
  pure v := fun s => (some v, s)
  bind a f := fun s =>
    match a s with
    | (some v, s') => f v s'
    | (none, s') => (none, s')

/-- Stop the process. -/
def stop : Act σ α := fun s => (none, s)

/-- What the state holds. -/
def read (f : σ → α) : Act σ α := fun s => (some (f s), s)

/-- Change the state. -/
def change (f : σ → σ) : Act σ Unit := fun s => (some (), f s)

/-- One computation for each entry of a list, in order. -/
def each (f : α → Act σ Unit) : List α → Act σ Unit
  | [] => pure ()
  | v :: rest => f v >>= fun _ => each f rest

theorem pure_run (v : α) (s : σ) : (pure v : Act σ α) s = (some v, s) := rfl

theorem bind_run (a : Act σ α) (f : α → Act σ β) (s : σ) :
    (a >>= f) s = match a s with
      | (some v, s') => f v s'
      | (none, s') => (none, s') := rfl

/-! ## What a computation ensures -/

/-- From `P`, the computation ends as `Q` says or stops with `E`. -/
def Ensures (P : σ → Prop) (a : Act σ α) (Q : α → σ → Prop) (E : σ → Prop) : Prop :=
  ∀ s, P s → match a s with
    | (some v, s') => Q v s'
    | (none, s') => E s'

variable {P P' : σ → Prop} {Q Q' : α → σ → Prop} {R : β → σ → Prop} {E : σ → Prop}

theorem ensures_pure {v : α} (h : ∀ s, P s → Q v s) : Ensures P (pure v) Q E := h

theorem ensures_stop (h : ∀ s, P s → E s) : Ensures P (stop : Act σ α) Q E := h

theorem ensures_read {f : σ → α} (h : ∀ s, P s → Q (f s) s) : Ensures P (read f) Q E := h

theorem ensures_change {f : σ → σ} {Q : Unit → σ → Prop} (h : ∀ s, P s → Q () (f s)) :
    Ensures P (change f) Q E := h

theorem ensures_bind {a : Act σ α} {f : α → Act σ β} (ha : Ensures P a Q E)
    (hf : ∀ v, Ensures (Q v) (f v) R E) : Ensures P (a >>= f) R E := by
  intro s hs
  have h := ha s hs
  rw [bind_run]
  cases hrun : a s with
  | mk result s1 =>
      rw [hrun] at h
      cases result with
      | none => exact h
      | some v => exact hf v s1 h

/-- What is read is known from then on. -/
theorem ensures_read_bind {f : σ → α} {k : α → Act σ β}
    (h : ∀ v, Ensures (fun s => P s ∧ v = f s) (k v) R E) : Ensures P (read f >>= k) R E :=
  ensures_bind (ensures_read fun _ hs => ⟨hs, rfl⟩) h

/-- It may be forgotten. -/
theorem ensures_read_then {f : σ → α} {k : α → Act σ β} (h : ∀ v, Ensures P (k v) R E) :
    Ensures P (read f >>= k) R E :=
  ensures_bind (ensures_read fun _ hs => hs) h

/-- In a state that has a name, it is what stands there. -/
theorem ensures_read_at {f : σ → α} {k : α → Act σ β} {s0 : σ}
    (h : Ensures (fun s => s = s0) (k (f s0)) R E) :
    Ensures (fun s => s = s0) (read f >>= k) R E := by
  rintro s rfl
  exact h s rfl

/-- The rule of consequence. -/
theorem ensures_mono {a : Act σ α} (ha : Ensures P a Q E) (hP : ∀ s, P' s → P s)
    (hQ : ∀ v s, Q v s → Q' v s) : Ensures P' a Q' E := by
  intro s hs
  have h := ha s (hP s hs)
  cases hrun : a s with
  | mk result s1 =>
      rw [hrun] at h
      cases result with
      | none => exact h
      | some v => exact hQ v s1 h

/-- A fact that does not depend on the state may be assumed. -/
theorem ensures_of_imp {a : Act σ α} {p : Prop} (hp : ∀ s, P s → p)
    (h : p → Ensures P a Q E) : Ensures P a Q E := fun s hs => h (hp s hs) s hs

theorem ensures_true {a : Act σ α} : Ensures P a (fun _ _ => True) fun _ => True := by
  intro s _
  cases h : a s with
  | mk result s1 => cases result <;> trivial

/-- The state the computation starts in may be named. -/
theorem ensures_start {a : Act σ α} (h : ∀ s0, P s0 → Ensures (fun s => s = s0) a Q E) :
    Ensures P a Q E := fun s hs => h s hs s rfl

/-! ## Two computations that agree -/

/-- From related states the two end alike, with the same value, in related states. -/
def Agree (R : σ → σ → Prop) (a a' : Act σ α) : Prop :=
  ∀ s s', R s s' → (a s).1 = (a' s').1 ∧ R (a s).2 (a' s').2

variable {S : σ → σ → Prop}

theorem agree_pure (v : α) : Agree S (pure v) (pure v) := fun _ _ h => ⟨rfl, h⟩

theorem agree_stop : Agree S (stop : Act σ α) stop := fun _ _ h => ⟨rfl, h⟩

theorem agree_read {f : σ → α} (h : ∀ s s', S s s' → f s = f s') : Agree S (read f) (read f) :=
  fun s s' hs => ⟨congrArg some (h s s' hs), hs⟩

theorem agree_change {f f' : σ → σ} (h : ∀ s s', S s s' → S (f s) (f' s')) :
    Agree S (change f) (change f') := fun s s' hs => ⟨rfl, h s s' hs⟩

theorem agree_bind {a a' : Act σ α} {f f' : α → Act σ β} (ha : Agree S a a')
    (hf : ∀ v, Agree S (f v) (f' v)) : Agree S (a >>= f) (a' >>= f') := by
  intro s s' hs
  obtain ⟨hv, hs1⟩ := ha s s' hs
  rw [bind_run, bind_run]
  cases h : a s with
  | mk result s1 =>
      cases h' : a' s' with
      | mk result' s1' =>
          rw [h, h'] at hv hs1
          simp only at hv hs1
          subst hv
          cases result with
          | none => exact ⟨rfl, hs1⟩
          | some v => exact hf v s1 s1' hs1

/-- Both keep the state that they start in, to use it later. -/
theorem agree_save {f f' : σ → Act σ α} (h : ∀ s0 s0', S s0 s0' → Agree S (f s0) (f' s0')) :
    Agree S (read id >>= f) (read id >>= f') := fun s s' hs => h s s' hs s s' hs

theorem agree_each {f f' : α → Act σ Unit} {list : List α}
    (h : ∀ v ∈ list, Agree S (f v) (f' v)) : Agree S (each f list) (each f' list) := by
  induction list with
  | nil => exact agree_pure ()
  | cons v rest ih =>
      refine agree_bind (h v List.mem_cons_self) fun _ => ?_
      exact ih fun w hw => h w (List.mem_cons_of_mem _ hw)

end Act
