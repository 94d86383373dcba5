import Katabasis.TsdScan.Soundness

set_option autoImplicit false

/-! # The may analysis is the least fixpoint

What `Transfer` does to the tracked registers of a block is to generate some and to kill some
(`FunctionAnalysis.blockGraph`). For every graph of such blocks, `Solve` with the OR merge ends,
with the least registers that carry the seed into the first block and each block's result along
its edges; these are the registers that some path carries to a block (`solve_least`). The same
comes out whatever block is taken from the worklist.
-/

namespace Katabasis

/-- A graph of blocks, with a transfer that generates and kills tracked registers. The addresses
of the `mrs` instructions have no part in it. -/
structure BlockGraph where
  size : Nat
  succs : Nat → List Nat
  transfer : Nat → Registers → Registers
  generates : Nat → Nat → Bool
  kills : Nat → Nat → Bool
  inside : ∀ b, ∀ n ∈ succs b, b < size ∧ n < size
  tracked_transfer : ∀ b s r,
    (transfer b s).tracked r = (generates b r || (s.tracked r && !kills b r))

namespace BlockGraph

variable (g : BlockGraph)

def problem : Worklist.Problem Registers CallSite where
  size := g.size
  succs := g.succs
  transfer := g.transfer
  record := fun _ _ => []
  merge := mergeInto true
  differs := differs

/-- The states and the worklist before the loop. -/
def start (seed : Registers) : (Nat → Registers) × List Nat :=
  (FunctionAnalysis.entryStates seed, (List.range g.size).reverse)

/-- `Solve`, for the may analysis. -/
def solve (seed : Registers) : Option ((Nat → Registers) × List CallSite) :=
  Worklist.solve g.problem (g.size * 32 + g.size) (g.start seed).1 (g.start seed).2 []

/-! ## What it is to compute -/

/-- The least tracked registers with the seed at the first block and each block's result at its
successors. -/
structure LeastSolution (seed : Registers) (a : Nat → Registers) : Prop where
  entry : seed.Le (a 0)
  edges : ∀ b, ∀ n ∈ g.succs b, (g.transfer b (a b)).Le (a n)
  least : ∀ other : Nat → Registers, seed.Le (other 0) →
    (∀ b, ∀ n ∈ g.succs b, (g.transfer b (other b)).Le (other n)) → ∀ b, (a b).Le (other b)

/-- The register comes in at the block: the seed has it at the first, or a block before generates
it. -/
def Source (seed : Registers) (r n : Nat) : Prop :=
  (n = 0 ∧ seed.tracked r = true) ∨ ∃ b, n ∈ g.succs b ∧ g.generates b r = true

/-- An edge out of a block that does not kill the register. -/
def Passes (r b n : Nat) : Prop := n ∈ g.succs b ∧ g.kills b r = false

/-- Some path carries the register to the block. -/
def Reached (seed : Registers) (r b : Nat) : Prop :=
  ∃ n, g.Source seed r n ∧ Relation.ReflTransGen (g.Passes r) n b

/-! ## The loop -/

theorem rising : Worklist.Rising (FunctionAnalysis.rank true) 32 g.problem where
  rank_le := FunctionAnalysis.rank_le true
  rank_lt := FunctionAnalysis.rank_lt true
  succs_lt := fun b _ n hn => (g.inside b n hn).2

theorem transfer_mono {s t : Registers} (h : s.Le t) (b : Nat) :
    (g.transfer b s).Le (g.transfer b t) := by
  intro r hr hs
  rw [g.tracked_transfer, Bool.or_eq_true, Bool.and_eq_true] at hs ⊢
  exact hs.imp id fun hkept => ⟨h r hr hkept.1, hkept.2⟩

theorem joining : Worklist.Joining Registers.Le g.problem where
  toGrowing := FunctionAnalysis.growing_may rfl rfl
  least := fun a o c ha ho r hr h => by
    simp only [problem, mergeInto, hr, if_true, Bool.or_eq_true] at h
    exact h.elim (ha r hr) (ho r hr)
  mono := fun b _ _ h => g.transfer_mono h b
  source_lt := fun b n hn => (g.inside b n hn).1

theorem start_lt (seed : Registers) : ∀ b ∈ (g.start seed).2, b < g.size := by
  intro b hb
  simpa [start] using hb

/-- Before the loop every block is on the worklist. -/
theorem start_settled (seed : Registers) :
    Worklist.Settled Registers.Le g.problem (g.start seed).1 (g.start seed).2 := by
  intro b hb hnot
  exact absurd (by simpa [start, problem] using hb) hnot

theorem solve_isSome (seed : Registers) : (g.solve seed).isSome := by
  have hpot := Worklist.potential_le g.problem (FunctionAnalysis.rank true) 32 (g.start seed).1
  have hlength : (g.start seed).2.length = g.size := by simp [start]
  have hsize : g.problem.size = g.size := rfl
  apply Worklist.solve_isSome g.rising (g.start_lt seed)
  omega

section

variable {g} {seed : Registers} {result : Nat → Registers}
  (hruns : Worklist.Runs g.problem (g.start seed) (result, []))

include hruns

/-- What a run ends with carries the seed and the edges. -/
theorem carries_of_runs : seed.Le (result 0) ∧
    ∀ b, ∀ n ∈ g.succs b, (g.transfer b (result b)).Le (result n) := by
  obtain ⟨hsettled, hgrows⟩ :=
    Worklist.runs_settled g.joining.toGrowing hruns (g.start_settled seed)
  exact ⟨hgrows 0, fun b n hn => hsettled b (g.inside b n hn).1 List.not_mem_nil n hn⟩

theorem leastSolution_of_runs : g.LeastSolution seed result := by
  obtain ⟨hentry, hedges⟩ := carries_of_runs hruns
  refine ⟨hentry, hedges, fun other hseed hother b => ?_⟩
  have hbound : Worklist.Settled Registers.Le g.problem other [] :=
    fun b _ _ n hn => hother b n hn
  refine Worklist.runs_le g.joining hbound hruns (fun x r hr hx => ?_) b
  -- the blocks behind the first start with nothing
  by_cases hzero : x = 0
  · subst hzero
    exact hseed r hr hx
  · simp only [start, FunctionAnalysis.entryStates, if_neg hzero] at hx
    cases hx

/-- **The registers that are tracked are those that some path carries.** -/
theorem tracked_iff_reached (b : Nat) {r : Nat} (hr : r < 32) :
    (result b).tracked r = true ↔ g.Reached seed r b := by
  constructor
  · -- what a run of the loop keeps: each tracked register has its path
    refine Worklist.runs_keep (Q := fun b s => s.tracked r = true → g.Reached seed r b)
      (fun b s n s' hs hn hs' hmerged => ?_) hruns (fun x hx => ?_) b
    · have hor : s'.tracked r = true ∨ (g.transfer b s).tracked r = true := by
        simpa [problem, mergeInto, hr] using hmerged
      rcases hor with hold | hnew
      · exact hs' hold
      · rw [g.tracked_transfer, Bool.or_eq_true, Bool.and_eq_true] at hnew
        rcases hnew with hgen | ⟨hkept, hno⟩
        · exact ⟨n, Or.inr ⟨b, hn, hgen⟩, Relation.ReflTransGen.refl⟩
        · obtain ⟨from', hsource, hpath⟩ := hs hkept
          exact ⟨from', hsource, hpath.tail ⟨hn, by simpa using hno⟩⟩
    · by_cases hzero : x = 0
      · subst hzero
        exact ⟨0, Or.inl ⟨rfl, hx⟩, Relation.ReflTransGen.refl⟩
      · simp only [start, FunctionAnalysis.entryStates, if_neg hzero] at hx
        cases hx
  · -- a state that carries the edges has every path, by induction on the path
    obtain ⟨hentry, hedges⟩ := carries_of_runs hruns
    rintro ⟨from', hsource, hpath⟩
    induction hpath with
    | refl =>
        rcases hsource with ⟨rfl, hseed⟩ | ⟨b, hn, hgen⟩
        · exact hentry r hr hseed
        · apply hedges b _ hn r hr
          rw [g.tracked_transfer, hgen, Bool.true_or]
    | tail _ hpass ih =>
        obtain ⟨hn, hkill⟩ := hpass
        apply hedges _ _ hn r hr
        rw [g.tracked_transfer, ih, hkill, Bool.not_false, Bool.and_self, Bool.or_true]

end

/-- **The may analysis is the least fixpoint**: for every graph and every seed `Solve` ends with
the least solution, which is what the paths say; and so does the loop in any other order. -/
theorem solve_least (seed : Registers) :
    ∃ result log, g.solve seed = some (result, log) ∧
      g.LeastSolution seed result ∧
      (∀ b, ∀ r < 32, (result b).tracked r = true ↔ g.Reached seed r b) ∧
      (∀ other, Worklist.Runs g.problem (g.start seed) (other, []) →
        ∀ b, ∀ r < 32, (other b).tracked r = (result b).tracked r) ∧
      ∀ run : Nat → (Nat → Registers) × List Nat, run 0 = g.start seed →
        ¬ ∀ k, Worklist.Turn g.problem (run k) (run (k + 1)) := by
  obtain ⟨⟨result, log⟩, hsolve⟩ := Option.isSome_iff_exists.mp (g.solve_isSome seed)
  have hruns : Worklist.Runs g.problem (g.start seed) (result, []) :=
    Worklist.solve_runs g.problem hsolve
  refine ⟨result, log, hsolve, leastSolution_of_runs hruns,
    fun b r hr => tracked_iff_reached hruns b hr, fun other hother b r hr => ?_,
    fun run hstart => ?_⟩
  · rw [Bool.eq_iff_iff, tracked_iff_reached hother b hr, tracked_iff_reached hruns b hr]
  · apply Worklist.no_endless_turns g.rising
    rw [hstart]
    exact g.start_lt seed

end BlockGraph

/-! ## The blocks of a function -/

/-- Every register tracked. -/
def Registers.all : Registers := { tracked := fun _ => true }

/-- A function on the states that generates or kills a register, or passes it on. -/
def GeneratesOrKills (r : Nat) (F : Registers → Registers) : Prop :=
  ∃ generates keeps : Bool, ∀ s, (F s).tracked r = (generates || (s.tracked r && keeps))

theorem GeneratesOrKills.comp {r : Nat} {F G : Registers → Registers}
    (hF : GeneratesOrKills r F) (hG : GeneratesOrKills r G) :
    GeneratesOrKills r fun s => G (F s) := by
  obtain ⟨gen, keep, hF⟩ := hF
  obtain ⟨gen', keep', hG⟩ := hG
  refine ⟨gen' || (gen && keep'), keep && keep', fun s => ?_⟩
  rw [hG, hF]
  cases gen <;> cases gen' <;> cases keep <;> cases keep' <;> simp

/-- Such a function is told by what it makes of the empty state and of the full one. -/
theorem GeneratesOrKills.eq {r : Nat} {F : Registers → Registers} (h : GeneratesOrKills r F)
    (s : Registers) :
    (F s).tracked r = ((F {}).tracked r || (s.tracked r && (F .all).tracked r)) := by
  obtain ⟨gen, keep, hF⟩ := h
  rw [hF s, hF {}, hF .all]
  cases gen <;> cases keep <;> simp [Registers.all]

theorem Registers.step_generatesOrKills (r addr : Nat) (inst : Inst) :
    GeneratesOrKills r fun s => s.step addr inst := by
  by_cases hmrs : inst.op = .mrs
  · by_cases hzero : inst.rd = zeroReg
    · exact ⟨false, true, fun s => by simp [Registers.step, Registers.mrs, hmrs, hzero]⟩
    · by_cases hr : r = inst.rd
      · refine ⟨inst.imm == tpidrroEl0, false, fun s => ?_⟩
        simp [Registers.step, Registers.mrs, hmrs, hzero, hr]
      · refine ⟨false, true, fun s => ?_⟩
        simp [Registers.step, Registers.mrs, hmrs, hzero, Function.update_of_ne hr]
  · -- a call gives some registers away, and the destination is overwritten
    refine ⟨false, !(isCallOp inst.op && (r ≤ 17 || r == 30)) &&
      !(r < 31 && clobbersGPR inst r), fun s => ?_⟩
    by_cases hcall : isCallOp inst.op = true
    · simp [Registers.step, Registers.call, Registers.clobber, hmrs, hcall, Bool.and_assoc]
    · simp [Registers.step, Registers.clobber, hmrs, hcall]

namespace FunctionAnalysis

variable (f : FunctionAnalysis)

theorem run_generatesOrKills (r start stop : Nat) :
    GeneratesOrKills r fun s => f.run start stop s := by
  unfold run
  induction addresses start stop with
  | nil => exact ⟨false, true, fun s => by simp⟩
  | cons addr rest ih =>
      simp only [List.foldl_cons]
      cases f.fetch addr with
      | none => exact ih
      | some inst => exact (Registers.step_generatesOrKills r addr inst).comp ih

/-- The block graph of a function. -/
def blockGraph : BlockGraph where
  size := f.buildBlocks.length
  succs := (f.problem true f.buildBlocks).succs
  transfer := (f.problem true f.buildBlocks).transfer
  generates := fun b r => ((f.problem true f.buildBlocks).transfer b {}).tracked r
  kills := fun b r => !((f.problem true f.buildBlocks).transfer b .all).tracked r
  inside := fun b n hn => by
    refine ⟨?_, succs_lt hn⟩
    by_contra hlt
    simp only [problem, List.getElem?_eq_none (Nat.le_of_not_lt hlt)] at hn
    cases hn
  tracked_transfer := fun b s r => by
    rw [Bool.not_not]
    refine GeneratesOrKills.eq (F := (f.problem true f.buildBlocks).transfer b) ?_ s
    simp only [problem]
    cases f.buildBlocks[b]? with
    | none => exact ⟨false, true, fun s => by simp⟩
    | some block => exact f.run_generatesOrKills r block.start block.stop

/-- `Solve` works on the block graph. -/
theorem solve_may_eq (seed : Registers) :
    f.solve true f.buildBlocks seed = f.blockGraph.solve seed := rfl

end FunctionAnalysis

end Katabasis
