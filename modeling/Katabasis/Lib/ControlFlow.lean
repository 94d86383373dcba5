import Mathlib.Tactic

set_option autoImplicit false

/-! # Programs of functions made of blocks

A function is a list of blocks, a block a list of instructions and a terminator that says which
block comes next. What an instruction does may call other functions, so a run of a program is
defined with fuel: `exec` runs a function, `walk` goes from block to block, `run` runs the
instructions of a block.

A rewriting of blocks that keeps what every block does, whatever the functions it calls do, keeps
what the whole program does (`exec_rewrite`).
-/

namespace ControlFlow

/-- How a run ends: in a state, in a fault, or without the fuel to end. -/
inductive Outcome (σ : Type)
  | done (s : σ)
  | fault
  | timeout
  deriving DecidableEq, Repr

variable {σ ι τ φ : Type}

namespace Outcome

def bind (o : Outcome σ) (f : σ → Outcome σ) : Outcome σ :=
  match o with
  | done s => f s
  | fault => fault
  | timeout => timeout

@[simp] theorem bind_done (s : σ) (f : σ → Outcome σ) : (done s).bind f = f s := rfl

@[simp] theorem bind_fault (f : σ → Outcome σ) : (fault : Outcome σ).bind f = fault := rfl

@[simp] theorem bind_timeout (f : σ → Outcome σ) : (timeout : Outcome σ).bind f = timeout := rfl

theorem bind_assoc (o : Outcome σ) (f g : σ → Outcome σ) :
    (o.bind f).bind g = o.bind fun s => (f s).bind g := by
  cases o <;> rfl

/-- Two continuations that agree on every state the first part can end in. -/
theorem bind_congr {o : Outcome σ} {f g : σ → Outcome σ} (h : ∀ s, o = done s → f s = g s) :
    o.bind f = o.bind g := by
  cases o with
  | done s => exact h s rfl
  | fault => rfl
  | timeout => rfl

end Outcome

structure Block (ι τ : Type) where
  instructions : List ι
  terminator : τ
  deriving DecidableEq

/-- What instructions, terminators and functions without a body do. The first argument of `step`
and `outside` runs a function of the program. -/
structure Language (ι τ φ σ : Type) where
  step : (φ → σ → Outcome σ) → ι → σ → Outcome σ
  /-- The block that comes next; at `none` the function returns. -/
  next : τ → σ → Option Nat
  outside : (φ → σ → Outcome σ) → φ → σ → Outcome σ

variable (L : Language ι τ φ σ)

/-- One instruction after the other. -/
def run (invoke : φ → σ → Outcome σ) : List ι → σ → Outcome σ
  | [], s => .done s
  | i :: rest, s => (L.step invoke i s).bind (run invoke rest)

/-- From block to block. -/
def walk (invoke : φ → σ → Outcome σ) (blocks : List (Block ι τ)) : Nat → Nat → σ → Outcome σ
  | 0, _, _ => .timeout
  | n + 1, label, s =>
      match blocks[label]? with
      | none => .fault
      | some block =>
          (run L invoke block.instructions s).bind fun s =>
            match L.next block.terminator s with
            | none => .done s
            | some label => walk invoke blocks n label s

/-- A function of the program, from its first block on. -/
def exec (bodies : φ → Option (List (Block ι τ))) : Nat → φ → σ → Outcome σ
  | 0, _, _ => .timeout
  | n + 1, f, s =>
      match bodies f with
      | none => L.outside (exec bodies n) f s
      | some blocks => walk L (exec bodies n) blocks n 0 s

@[simp] theorem run_nil (invoke : φ → σ → Outcome σ) (s : σ) : run L invoke [] s = .done s := rfl

@[simp] theorem run_cons (invoke : φ → σ → Outcome σ) (i : ι) (rest : List ι) (s : σ) :
    run L invoke (i :: rest) s = (L.step invoke i s).bind (run L invoke rest) := rfl

theorem run_append (invoke : φ → σ → Outcome σ) (l l' : List ι) (s : σ) :
    run L invoke (l ++ l') s = (run L invoke l s).bind (run L invoke l') := by
  induction l generalizing s with
  | nil => rfl
  | cons i rest ih =>
      simp only [List.cons_append, run_cons, Outcome.bind_assoc]
      apply Outcome.bind_congr
      intro s' _
      exact ih s'

/-! ## Rewriting blocks -/

/-- The same block with other instructions. -/
def Block.rewrite (f : List ι → List ι) (block : Block ι τ) : Block ι τ :=
  { block with instructions := f block.instructions }

variable {L} {f : List ι → List ι}

theorem walk_rewrite {invoke : φ → σ → Outcome σ} {blocks : List (Block ι τ)}
    (h : ∀ block ∈ blocks, ∀ s,
      run L invoke (f block.instructions) s = run L invoke block.instructions s)
    (n label : Nat) (s : σ) :
    walk L invoke (blocks.map (Block.rewrite f)) n label s = walk L invoke blocks n label s := by
  induction n generalizing label s with
  | zero => rfl
  | succ n ih =>
      simp only [walk, List.getElem?_map]
      cases hblock : blocks[label]? with
      | none => rfl
      | some block =>
          have hsame := h block (List.mem_of_getElem? hblock) s
          simp only [Option.map_some, Block.rewrite, hsame]
          apply Outcome.bind_congr
          intro s' _
          cases L.next block.terminator s' with
          | none => rfl
          | some label' => exact ih label' s'

/-- **Rewriting blocks keeps what a program does**, for every amount of fuel, when it keeps what
each block does whatever is called. -/
theorem exec_rewrite {bodies : φ → Option (List (Block ι τ))}
    (h : ∀ name blocks, bodies name = some blocks → ∀ block ∈ blocks, ∀ invoke s,
      run L invoke (f block.instructions) s = run L invoke block.instructions s)
    (n : Nat) (name : φ) (s : σ) :
    exec L (fun name => (bodies name).map (List.map (Block.rewrite f))) n name s
      = exec L bodies n name s := by
  induction n generalizing name s with
  | zero => rfl
  | succ n ih =>
      -- with less fuel, calls already do the same in both programs
      have hcalls : exec L (fun name => (bodies name).map (List.map (Block.rewrite f))) n
          = exec L bodies n := by
        funext name s
        exact ih name s
      simp only [exec, hcalls]
      cases hname : bodies name with
      | none => rfl
      | some blocks =>
          exact walk_rewrite (fun block hm s => h name blocks hname block hm _ s) n 0 s

end ControlFlow
