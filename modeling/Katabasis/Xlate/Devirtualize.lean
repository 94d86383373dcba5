import Katabasis.Lib.ControlFlow
import Katabasis.Xlate.Dispatch

set_option autoImplicit false

/-! # Direct calls in place of dispatched ones

`Lifter::Devirtualize` (`xlate/src/xlate.cpp`) looks at every call of `xl_call` and `xl_tail` in
the lifted module. It goes back through the block to the last store to the call's own state
pointer, where the program counter is; a constant stored there that `Target` has a function for
makes the call a direct one.

The search goes past calls, which may leave another program counter. That it is right nevertheless
rests on how the lifter writes blocks: between a constant program counter and the call that it is
for, there is no other call (`Paired`).
-/

namespace Katabasis

open Std ControlFlow

/-! ## The lifted module -/

/-- The value operand of a store: a constant, or the result of an instruction. -/
inductive Operand
  | constant (value : UInt64)
  | result (id : Nat)
  deriving DecidableEq

inductive Callee
  /-- `xl_call` or `xl_tail` -/
  | dispatcher (tail : Bool)
  | function (f : Function)
  deriving DecidableEq

/-- An instruction, as far as `Devirtualize` tells them apart. Pointers are the values of the
module, by number. -/
inductive Instruction
  | store (pointer : Nat) (value : Operand)
  | call (callee : Callee) (sptr : Nat)
  | other (id : Nat)
  deriving DecidableEq

abbrev LiftedBlock := ControlFlow.Block Instruction Nat

/-- The functions with a body. -/
abbrev LiftedModule := List (Function × List LiftedBlock)

def LiftedModule.bodies (module : LiftedModule) (f : Function) : Option (List LiftedBlock) :=
  module.lookup f

/-! ## `Devirtualize` -/

/-- The value of the last store to the state pointer; `before` are the instructions in front of
the call, the nearest first. -/
def lastStore (sptr : Nat) : List Instruction → Option Operand
  | [] => none
  | .store pointer value :: before => if pointer = sptr then some value else lastStore sptr before
  | _ :: before => lastStore sptr before

/-- The program counter of a call, where it is known. -/
def knownPc (sptr : Nat) (before : List Instruction) : Option UInt64 :=
  match lastStore sptr before with
  | some (.constant pc) => some pc
  | _ => none

def devirtualizeCall (target : UInt64 → Option Function) (before : List Instruction) :
    Instruction → Instruction
  | .call (.dispatcher tail) sptr =>
      match (knownPc sptr before).bind target with
      | some f => .call (.function f) sptr
      | none => .call (.dispatcher tail) sptr
  | instruction => instruction

/-- The calls of a block, behind the instructions `before`. -/
def devirtualizeFrom (target : UInt64 → Option Function) (before : List Instruction) :
    List Instruction → List Instruction
  | [] => []
  | instruction :: rest =>
      devirtualizeCall target before instruction ::
        devirtualizeFrom target (instruction :: before) rest

def devirtualizeBlock (target : UInt64 → Option Function) : List Instruction → List Instruction :=
  devirtualizeFrom target []

/-- The module behind `Devirtualize`. -/
def devirtualize (target : UInt64 → Option Function) (module : LiftedModule) : LiftedModule :=
  module.map fun entry =>
    (entry.1, entry.2.map (ControlFlow.Block.rewrite (devirtualizeBlock target)))

/-- The calls of a block that become direct. -/
def devirtualizedFrom (target : UInt64 → Option Function) (before : List Instruction) :
    List Instruction → Nat
  | [] => 0
  | instruction :: rest =>
      (if devirtualizeCall target before instruction = instruction then 0 else 1)
        + devirtualizedFrom target (instruction :: before) rest

/-- What `Devirtualize` returns. -/
def devirtualizedCalls (target : UInt64 → Option Function) (module : LiftedModule) : Nat :=
  (module.map fun entry =>
    (entry.2.map fun block => devirtualizedFrom target [] block.instructions).sum).sum

def isDispatched : Instruction → Bool
  | .call (.dispatcher _) _ => true
  | _ => false

def dispatchedCalls (module : LiftedModule) : Nat :=
  (module.map fun entry =>
    (entry.2.map fun block => block.instructions.countP isDispatched).sum).sum

theorem devirtualizeCall_dispatched (target : UInt64 → Option Function)
    (before : List Instruction) (instruction : Instruction) :
    (if isDispatched (devirtualizeCall target before instruction) then 1 else 0)
        + (if devirtualizeCall target before instruction = instruction then 0 else 1)
      = if isDispatched instruction then 1 else 0 := by
  cases instruction with
  | store pointer value => simp [devirtualizeCall, isDispatched]
  | other id => simp [devirtualizeCall, isDispatched]
  | call callee sptr =>
      cases callee with
      | function f => simp [devirtualizeCall, isDispatched]
      | dispatcher tail =>
          cases h : (knownPc sptr before).bind target with
          | none => simp [devirtualizeCall, isDispatched, h]
          | some f => simp [devirtualizeCall, isDispatched, h]

theorem countP_devirtualizeFrom (target : UInt64 → Option Function) (before rest : List Instruction) :
    (devirtualizeFrom target before rest).countP isDispatched + devirtualizedFrom target before rest
      = rest.countP isDispatched := by
  induction rest generalizing before with
  | nil => rfl
  | cons instruction rest ih =>
      have hcall := devirtualizeCall_dispatched target before instruction
      have hrest := ih (instruction :: before)
      simp only [devirtualizeFrom, devirtualizedFrom, List.countP_cons]
      omega

/-- Two sums over one list that add up to a third, element by element. -/
theorem sum_map_add {α : Type} (l : List α) {f g h : α → Nat} (hfg : ∀ a, f a + g a = h a) :
    (l.map f).sum + (l.map g).sum = (l.map h).sum := by
  rw [← List.sum_map_add, List.map_congr_left fun a _ => hfg a]

/-- The number that `Devirtualize` returns is how many dispatched calls the module lost. -/
theorem dispatchedCalls_devirtualize (target : UInt64 → Option Function) (module : LiftedModule) :
    dispatchedCalls (devirtualize target module) + devirtualizedCalls target module
      = dispatchedCalls module := by
  simp only [dispatchedCalls, devirtualize, devirtualizedCalls, List.map_map]
  apply sum_map_add
  intro entry
  simp only [Function.comp_def, List.map_map]
  apply sum_map_add
  intro block
  exact countP_devirtualizeFrom target [] block.instructions

theorem bodies_devirtualize (target : UInt64 → Option Function) (module : LiftedModule)
    (f : Function) :
    (devirtualize target module).bodies f
      = (module.bodies f).map (List.map (ControlFlow.Block.rewrite (devirtualizeBlock target))) := by
  induction module with
  | nil => rfl
  | cons entry rest ih =>
      obtain ⟨name, blocks⟩ := entry
      simp only [LiftedModule.bodies, devirtualize, List.map_cons, List.lookup_cons] at ih ⊢
      cases f == name with
      | true => rfl
      | false => exact ih

/-! ## What the module does -/

/-- The machine that lifted code runs on. The program counter is the first word behind a state
pointer; a store through that pointer sets it, and nothing else but a call does: guest memory
holds no register state, and every other register has a pointer of its own. -/
structure LiftedMachine (σ : Type) where
  pc : Nat → σ → UInt64
  store : Nat → Operand → σ → σ
  other : Nat → σ → Outcome σ
  /-- The block a terminator goes to. -/
  next : Nat → σ → Option Nat
  /-- A function of the host, which may call guest functions. -/
  handler : (Function → σ → Outcome σ) → Function → σ → Outcome σ
  pc_store : ∀ sptr pc' s, pc sptr (store sptr (.constant pc') s) = pc'
  pc_store_ne : ∀ sptr pointer value s, pointer ≠ sptr → pc sptr (store pointer value s) = pc sptr s
  pc_other : ∀ sptr id s s', other id s = .done s' → pc sptr s' = pc sptr s

namespace LiftedMachine

variable {σ : Type} (m : LiftedMachine σ) (lookup : UInt64 → Option Function)

/-- One instruction. A dispatcher looks the program counter up and faults where there is no
function (`xl_call`, `xl_tail`). -/
def step (invoke : Function → σ → Outcome σ) : Instruction → σ → Outcome σ
  | .store pointer value, s => .done (m.store pointer value s)
  | .call (.function f) _, s => invoke f s
  | .call (.dispatcher _) sptr, s =>
      match lookup (m.pc sptr s) with
      | some f => invoke f s
      | none => .fault
  | .other id, s => m.other id s

def language : Language Instruction Nat Function σ where
  step := m.step lookup
  next := m.next
  outside := m.handler

end LiftedMachine

/-! ## The condition -/

/-- Going back from a call, another call comes before a store to the state pointer. -/
def callSince (sptr : Nat) : List Instruction → Bool
  | [] => false
  | .store pointer _ :: before => if pointer = sptr then false else callSince sptr before
  | .call _ _ :: _ => true
  | .other _ :: before => callSince sptr before

/-- A dispatched call with a known program counter comes before any other call does. -/
def pairedCall (before : List Instruction) : Instruction → Bool
  | .call (.dispatcher _) sptr => (knownPc sptr before).isNone || !callSince sptr before
  | _ => true

def pairedFrom (before : List Instruction) : List Instruction → Bool
  | [] => true
  | instruction :: rest => pairedCall before instruction && pairedFrom (instruction :: before) rest

/-- **How the lifter writes blocks**: each constant program counter is for the next call. -/
def Paired (module : LiftedModule) : Prop :=
  ∀ entry ∈ module, ∀ block ∈ entry.2, pairedFrom [] block.instructions = true

instance (module : LiftedModule) : Decidable (Paired module) :=
  inferInstanceAs (Decidable (∀ entry ∈ module, ∀ block ∈ entry.2,
    pairedFrom [] block.instructions = true))

/-! ## A known program counter is the one at the call -/

section

variable {σ : Type} {m : LiftedMachine σ} {lookup : UInt64 → Option Function}

/-- What an instruction other than a call leaves in the program counter. -/
theorem pc_step {invoke : Function → σ → Outcome σ} {instruction : Instruction} {s s' : σ}
    (h : m.step lookup invoke instruction s = .done s') (sptr : Nat) :
    (∃ pc, instruction = .store sptr (.constant pc) ∧ m.pc sptr s' = pc) ∨
    (∃ id, instruction = .store sptr (.result id)) ∨
    (∃ callee pointer, instruction = .call callee pointer) ∨
    (lastStore sptr [instruction] = none ∧ m.pc sptr s' = m.pc sptr s) := by
  cases instruction with
  | store pointer value =>
      simp only [LiftedMachine.step, Outcome.done.injEq] at h
      by_cases hpointer : pointer = sptr
      · subst hpointer
        cases value with
        | constant pc => exact .inl ⟨pc, rfl, by rw [← h, m.pc_store]⟩
        | result id => exact .inr (.inl ⟨id, rfl⟩)
      · refine .inr (.inr (.inr ⟨?_, ?_⟩))
        · simp [lastStore, hpointer]
        · rw [← h, m.pc_store_ne _ _ _ _ hpointer]
  | call callee pointer => exact .inr (.inr (.inl ⟨callee, pointer, rfl⟩))
  | other id => exact .inr (.inr (.inr ⟨rfl, m.pc_other _ _ _ _ h⟩))

/-- Behind the instructions `before`, run from some state to `s`, a known program counter that no
call came after is the one of `s`. -/
def PcKnown (m : LiftedMachine σ) (before : List Instruction) (s : σ) : Prop :=
  ∀ sptr pc, knownPc sptr before = some pc → callSince sptr before = false → m.pc sptr s = pc

theorem pcKnown_nil (s : σ) : PcKnown m [] s := by
  intro sptr pc h
  cases h

theorem pcKnown_step {invoke : Function → σ → Outcome σ} {before : List Instruction}
    {instruction : Instruction} {s s' : σ} (hs : PcKnown m before s)
    (h : m.step lookup invoke instruction s = .done s') : PcKnown m (instruction :: before) s' := by
  intro sptr pc hknown hsince
  rcases pc_step h sptr with ⟨pc', rfl, hpc⟩ | ⟨id, rfl⟩ | ⟨callee, pointer, rfl⟩ | ⟨hno, hpc⟩
  · -- the store itself
    have hsame : pc' = pc := by simpa [knownPc, lastStore] using hknown
    rw [hpc, hsame]
  · simp [knownPc, lastStore] at hknown
  · simp [callSince] at hsince
  · -- anything else is passed over, by the search as by the program counter
    rw [hpc]
    apply hs sptr pc
    · cases instruction with
      | store pointer value =>
          have hne : pointer ≠ sptr := by
            rintro rfl
            simp [lastStore] at hno
          simpa [knownPc, lastStore, hne] using hknown
      | call callee pointer => simp [callSince] at hsince
      | other id => exact hknown
    · cases instruction with
      | store pointer value =>
          have hne : pointer ≠ sptr := by
            rintro rfl
            simp [lastStore] at hno
          simpa [callSince, hne] using hsince
      | call callee pointer => simp [callSince] at hsince
      | other id => exact hsince

/-! ## The same run -/

variable {target : UInt64 → Option Function}
  (hlookup : ∀ pc f, target pc = some f → lookup pc = some f)

include hlookup

/-- One call, made direct or not, on a state with the known program counters. -/
theorem step_devirtualizeCall {invoke : Function → σ → Outcome σ} {before : List Instruction}
    {instruction : Instruction} {s : σ} (hs : PcKnown m before s)
    (hpaired : pairedCall before instruction = true) :
    m.step lookup invoke (devirtualizeCall target before instruction) s
      = m.step lookup invoke instruction s := by
  cases instruction with
  | store pointer value => rfl
  | other id => rfl
  | call callee sptr =>
      cases callee with
      | function f => rfl
      | dispatcher tail =>
          simp only [devirtualizeCall]
          cases hknown : knownPc sptr before with
          | none => rfl
          | some pc =>
              simp only [Option.bind_some]
              cases htarget : target pc with
              | none => rfl
              | some f =>
                  have hsince : callSince sptr before = false := by
                    simpa [pairedCall, hknown] using hpaired
                  have hpc := hs sptr pc hknown hsince
                  simp only [LiftedMachine.step, hpc, hlookup pc f htarget]

/-- A block, from behind the instructions `before` on. -/
theorem run_devirtualizeFrom {invoke : Function → σ → Outcome σ} {before rest : List Instruction}
    {s : σ} (hs : PcKnown m before s) (hpaired : pairedFrom before rest = true) :
    run (m.language lookup) invoke (devirtualizeFrom target before rest) s
      = run (m.language lookup) invoke rest s := by
  induction rest generalizing before s with
  | nil => rfl
  | cons instruction rest ih =>
      rw [pairedFrom, Bool.and_eq_true] at hpaired
      simp only [devirtualizeFrom, run_cons, LiftedMachine.language]
      rw [step_devirtualizeCall hlookup hs hpaired.1]
      apply Outcome.bind_congr
      intro s' hstep
      exact ih (pcKnown_step hs hstep) hpaired.2

/-- The whole module, from any function and any state, with any fuel. -/
theorem exec_devirtualize {module : LiftedModule} (hpaired : Paired module) (n : Nat)
    (f : Function) (s : σ) :
    exec (m.language lookup) (devirtualize target module).bodies n f s
      = exec (m.language lookup) module.bodies n f s := by
  have hbodies : (devirtualize target module).bodies = fun f =>
      (module.bodies f).map (List.map (ControlFlow.Block.rewrite (devirtualizeBlock target))) := by
    funext f
    exact bodies_devirtualize target module f
  rw [hbodies]
  refine exec_rewrite (fun name blocks hname block hm invoke s => ?_) n f s
  obtain ⟨l₁, l₂, rfl, -⟩ := List.lookup_eq_some_iff.mp hname
  exact run_devirtualizeFrom hlookup (pcKnown_nil s)
    (hpaired (name, blocks) (by simp) block hm)

end

namespace Program

section

variable {base : UInt64} {images : List Image} {isBridge : String → Bool}
  {equivalent : String → String → Bool} {replaces : List String} {strict : Bool} {p : Program}
  (hp : layoutAndResolve base images isBridge equivalent replaces strict = .ok p)
  (hm : ∀ image ∈ p.images, image.Mapped32)
  {functions : ExtTreeMap UInt64 Function}
  (hf : ∀ a : UInt64, a ∈ functions → a.toNat + 4 ≤ 2 ^ 32)

include hp hm hf

/-- **`Devirtualize` keeps what the program does**: on the table that `EmitTables` writes, the
module with the direct calls and the module with the dispatched ones run alike from every function
and every state. -/
theorem devirtualize_runs_alike {σ : Type} (m : LiftedMachine σ) {module : LiftedModule}
    (hpaired : Paired module) (n : Nat) (f : Function) (s : σ) :
    exec (m.language (xlLookup (xlFunctions (p.functionTable functions))
        (xlFunctionCount (p.functionTable functions))))
        (devirtualize (p.target functions) module).bodies n f s
      = exec (m.language (xlLookup (xlFunctions (p.functionTable functions))
        (xlFunctionCount (p.functionTable functions)))) module.bodies n f s := by
  apply exec_devirtualize
  · intro pc g htarget
    rw [xlLookup_eq (functionTable_low hp hm hf)]
    exact functionTable_of_target hp hm htarget
  · exact hpaired

end

/-- A machine of registers by number; a handler answers in register 1. -/
def registers : LiftedMachine (Nat → UInt64) where
  pc sptr s := s sptr
  store pointer value s := fun register =>
    if register = pointer then
      match value with
      | .constant value => value
      | .result id => s id
    else s register
  other _ s := .done s
  next _ _ := none
  handler _ _ s := .done fun register => if register = 1 then 42 else s register
  pc_store sptr pc' s := by simp
  pc_store_ne sptr pointer value s h := by simp [Ne.symm h]
  pc_other sptr id s s' h := by
    cases h
    rfl

/-- `_main`, which leaves through the stub of the trap. -/
def callerModule : LiftedModule :=
  [(⟨"main"⟩, [⟨[.other 0, .store 0 (.constant 0x1000010C), .store 2 (.result 3),
    .call (.dispatcher false) 0], 0⟩])]

def callerFunctions : ExtTreeMap UInt64 Function :=
  ExtTreeMap.empty.insert 0x10000000 ⟨"main"⟩

/-- The call becomes a direct one of the handler, and the program does what it did. -/
theorem devirtualize_runs_alike_caller :
    devirtualizedCalls (callerProgram.target callerFunctions) callerModule = 1 ∧
      ∀ n s, exec (registers.language (xlLookup
          (xlFunctions (callerProgram.functionTable callerFunctions))
          (xlFunctionCount (callerProgram.functionTable callerFunctions))))
          (devirtualize (callerProgram.target callerFunctions) callerModule).bodies n ⟨"main"⟩ s
        = exec (registers.language (xlLookup
          (xlFunctions (callerProgram.functionTable callerFunctions))
          (xlFunctionCount (callerProgram.functionTable callerFunctions))))
          callerModule.bodies n ⟨"main"⟩ s := by
  have hm : ∀ image ∈ callerProgram.images, image.Mapped32 := by
    intro image h
    rw [List.mem_singleton.mp h]
    exact callerPlaced_mapped
  have hf : ∀ a : UInt64, a ∈ callerFunctions → a.toNat + 4 ≤ 2 ^ 32 := by
    intro a h
    rw [callerFunctions, ExtTreeMap.mem_insert, LawfulEqCmp.compare_eq_iff_eq] at h
    rcases h with rfl | h
    · decide
    · exact absurd h ExtTreeMap.not_mem_empty
  have hpaired : Paired callerModule := by decide
  refine ⟨by rfl, fun n s => ?_⟩
  exact devirtualize_runs_alike callerProgram_resolved hm hf registers hpaired n ⟨"main"⟩ s

end Program

end Katabasis
