import Mathlib.Tactic

set_option autoImplicit false

/-! # Readings with messages

A reader that goes on where it finds something wrong gives a value and the messages on the way to
it. Two readings are alike when their values are related and their messages are the same; there is
one rule for each way to build a reading.
-/

/-- A value, and the messages on the way to it. -/
structure Reading (ε α : Type) where
  value : α
  log : List ε

namespace Reading

variable {ε α β γ δ : Type}

instance : Monad (Reading ε) where
  pure v := ⟨v, []⟩
  bind a f := ⟨(f a.value).value, a.log ++ (f a.value).log⟩

def tell (message : ε) : Reading ε Unit := ⟨(), [message]⟩

/-- What a turn of a loop does: it adds an element, goes on without one, or leaves the loop. -/
inductive Turn (β : Type)
  | push (element : β)
  | skip
  | leave

/-- A loop that collects. -/
def collect (f : α → Reading ε (Turn β)) : List α → Reading ε (List β)
  | [] => pure []
  | a :: rest => do
      match ← f a with
      | .push element =>
          let more ← collect f rest
          pure (element :: more)
      | .skip => collect f rest
      | .leave => pure []

/-! ## Two readings alike -/

/-- Related values, the same messages. -/
def Alike (R : α → β → Prop) (a : Reading ε α) (b : Reading ε β) : Prop :=
  R a.value b.value ∧ a.log = b.log

/-- Two turns that go the same way, with related elements. -/
inductive Turn.Alike (R : α → β → Prop) : Turn α → Turn β → Prop
  | push {x : α} {y : β} (h : R x y) : Alike R (.push x) (.push y)
  | skip : Alike R .skip .skip
  | leave : Alike R .leave .leave

variable {R : α → β → Prop} {S : γ → δ → Prop}

theorem alike_pure {x : α} {y : β} (h : R x y) :
    Alike R (pure x : Reading ε α) (pure y : Reading ε β) := ⟨h, rfl⟩

theorem alike_tell (message : ε) : Alike Eq (tell message) (tell message) := ⟨rfl, rfl⟩

theorem alike_bind {a : Reading ε α} {b : Reading ε β} {f : α → Reading ε γ} {g : β → Reading ε δ}
    (h : Alike R a b) (hf : ∀ x y, R x y → Alike S (f x) (g y)) :
    Alike S (a >>= f) (b >>= g) := by
  obtain ⟨hvalue, hlog⟩ := hf _ _ h.1
  exact ⟨hvalue, congrArg₂ (· ++ ·) h.2 hlog⟩

/-- **Turns alike make loops alike.** -/
theorem alike_collect {f : α → Reading ε (Turn γ)} {g : β → Reading ε (Turn δ)}
    (hf : ∀ x y, R x y → Alike (Turn.Alike S) (f x) (g y)) {as : List α} {bs : List β}
    (h : List.Forall₂ R as bs) : Alike (List.Forall₂ S) (collect f as) (collect g bs) := by
  induction h with
  | nil => exact alike_pure .nil
  | cons hab _ ih =>
      refine alike_bind (hf _ _ hab) fun turn turn' hturn => ?_
      cases hturn with
      | push helement =>
          refine alike_bind ih fun more more' hmore => ?_
          exact alike_pure (.cons helement hmore)
      | skip => exact ih
      | leave => exact alike_pure .nil

end Reading
