import Katabasis.TsdScan.Blocks
import Katabasis.Lib.Runs

set_option autoImplicit false

/-! # Accesses the scan finds

Paths through a function are sequences of steps from instruction to instruction (`Step`), and
the base is carried along a path in a register that nothing on the path writes (`Carries`).
`Tracks` says that the may analysis has the register tracked in front of an instruction. One
step of a path keeps it (`tracks_step`), provided that the analysis follows the step, so a
whole path does, and `Report` then has a line for the access at its end.

The analysis does not follow every step: it takes `BLR` for a jump that never comes back and
`SVC` for an instruction after which nothing runs, and it takes any instruction whose
destination field has a register's number for a write of it, also where the destination is a
vector register or there is none.
-/

namespace Katabasis

/-! ## The order of the may analysis -/

/-- Every register tracked in the first is tracked in the second. -/
def Registers.Le (a b : Registers) : Prop :=
  ∀ r < 32, a.tracked r = true → b.tracked r = true

theorem Registers.Le.refl (s : Registers) : s.Le s := fun _ _ h => h

theorem Registers.Le.trans {s t u : Registers} (h : s.Le t) (h' : t.Le u) : s.Le u :=
  fun r hr hs => h' r hr (h r hr hs)

namespace FunctionAnalysis

variable {f : FunctionAnalysis}

theorem growing_may {P : Worklist.Problem Registers CallSite} (hmerge : P.merge = mergeInto true)
    (hdiffers : P.differs = differs) : Worklist.Growing Registers.Le P where
  refl := fun _ _ _ h => h
  trans := fun _ _ _ h1 h2 r hr h => h2 r hr (h1 r hr h)
  left := fun s o r hr h => by simp [hmerge, mergeInto, hr, h]
  right := fun s o r hr h => by simp [hmerge, mergeInto, hr, h]
  same := fun s o h r hr ho => by
    simp only [hdiffers, hmerge, differs, List.any_eq_false, List.mem_range] at h
    have heq := h r hr
    simpa [mergeInto, hr, ho] using heq

/-! ## The solvers end -/

/-- The registers that are tracked. -/
def trackedSet (s : Registers) : Finset Nat := (Finset.range 32).filter fun r => s.tracked r = true

theorem card_trackedSet_le (s : Registers) : (trackedSet s).card ≤ 32 := by
  have := Finset.card_filter_le (Finset.range 32) fun r => s.tracked r = true
  rwa [Finset.card_range] at this

/-- A merge that changes a state tracks more registers in the may analysis, and fewer in the
must analysis. -/
def rank (may : Bool) (s : Registers) : Nat :=
  if may then (trackedSet s).card else 32 - (trackedSet s).card

theorem rank_le (may : Bool) (s : Registers) : rank may s ≤ 32 := by
  have := card_trackedSet_le s
  unfold rank
  split <;> omega

theorem rank_lt (may : Bool) (s o : Registers) (h : differs s (mergeInto may s o) = true) :
    rank may s < rank may (mergeInto may s o) := by
  obtain ⟨r, hr, hne⟩ := List.any_eq_true.mp h
  have hr32 := List.mem_range.mp hr
  cases may with
  | true =>
      show (trackedSet s).card < (trackedSet (mergeInto true s o)).card
      refine Finset.card_lt_card (Finset.ssubset_iff_of_subset (fun x hx => ?_) |>.mpr ⟨r, ?_⟩)
      · simp only [trackedSet, Finset.mem_filter, Finset.mem_range] at hx ⊢
        simp [mergeInto, hx]
      · cases hs : s.tracked r <;> cases ho : o.tracked r <;>
          simp [trackedSet, mergeInto, hr32, hs, ho] at hne ⊢
  | false =>
      have hlt : (trackedSet (mergeInto false s o)).card < (trackedSet s).card := by
        refine Finset.card_lt_card (Finset.ssubset_iff_of_subset (fun x hx => ?_) |>.mpr ⟨r, ?_⟩)
        · simp only [trackedSet, Finset.mem_filter, Finset.mem_range, mergeInto,
            Bool.false_eq_true, if_false] at hx ⊢
          rw [if_pos hx.1, Bool.and_eq_true] at hx
          exact ⟨hx.1, hx.2.1⟩
        · cases hs : s.tracked r <;> cases ho : o.tracked r <;>
            simp [trackedSet, mergeInto, hr32, hs, ho] at hne ⊢
      have := card_trackedSet_le s
      simp only [rank, Bool.false_eq_true, if_false]
      omega

theorem succs_lt {b n : Nat} (h : n ∈ (f.problem true f.buildBlocks).succs b) :
    n < f.buildBlocks.length := by
  simp only [problem] at h
  cases hb : f.buildBlocks[b]? with
  | none => rw [hb] at h; cases h
  | some block =>
      rw [hb] at h
      have hlt : b < f.leaders.length := by
        rw [← length_buildBlocks]
        exact (List.getElem?_eq_some_iff.mp hb).1
      rw [getElem?_buildBlocks hlt, Option.some.injEq] at hb
      rw [← hb] at h
      simp only [Option.map_some, Option.getD_some] at h
      split at h
      · cases h
      · obtain ⟨target, -, hidx⟩ := List.mem_filterMap.mp h
        rw [length_buildBlocks]
        exact (List.findIdx?_eq_some_iff_getElem.mp hidx).1

/-- **Both fixpoints are reached** within the fuel. -/
theorem solve_isSome (may : Bool) (seed : Registers) :
    (f.solve may f.buildBlocks seed).isSome := by
  have hrising : Worklist.Rising (rank may) 32 (f.problem may f.buildBlocks) :=
    ⟨rank_le may, rank_lt may, fun b _ n hn => succs_lt hn⟩
  refine Worklist.solve_isSome hrising (fun b hb => ?_) ?_
  · simpa [problem] using hb
  · have := Worklist.potential_le (f.problem may f.buildBlocks) (rank may) 32 (entryStates seed)
    simp only [problem, List.length_reverse, List.length_range, solveFuel] at this ⊢
    omega

/-! ## Paths -/

/-- The instruction may go on to the next one: neither a branch that always goes elsewhere nor
an instruction that does not come back. Calls and system calls come back. -/
def resumes (inst : Inst) : Bool :=
  match inst.op with
  | .b | .br | .ret | .brk | .hvc | .smc | .dcps1 | .dcps2 | .dcps3 => false
  | .bcond => !inst.always
  | _ => true

/-- The branches that may go to their target and do not return from it. -/
def jumps (op : Op) : Bool :=
  match op with
  | .b | .bcond => true
  | op => isTestBranchOp op

/-- One step of an execution, between decoded instructions of the range. -/
inductive Step (f : FunctionAnalysis) : Nat → Nat → Prop
  | next {a : Nat} {inst next : Inst} (h : f.fetch a = some inst) (ha : a % 4 = 0)
      (hr : resumes inst = true) (hn : f.fetch (a + 4) = some next) : Step f a (a + 4)
  | jump {a target : Nat} {inst next : Inst} (h : f.fetch a = some inst) (ha : a % 4 = 0)
      (hj : jumps inst.op = true) (ht : branchTarget inst a = some target)
      (h4 : target % 4 = 0) (hn : f.fetch target = some next) : Step f a target

/-- The register has the base in front of the instruction: from the caller at the entry, or
from an `mrs` in the step before. -/
inductive Receives (f : FunctionAnalysis) (seed : Registers) (r : Nat) : Nat → Prop
  | entry (h : seed.tracked r = true) : Receives f seed r f.range.start
  | mrs {a a' : Nat} {inst : Inst} (h : f.fetch a = some inst) (hop : inst.op = .mrs)
      (hrd : inst.rd = r) (himm : inst.imm = tpidrroEl0) (hs : Step f a a') :
      Receives f seed r a'

/-- A step over an instruction that leaves the register as it is: it does not write it, and
where it is a call the register is one a call preserves. -/
def Carries (f : FunctionAnalysis) (writes : Inst → Nat → Bool) (r : Nat) (a a' : Nat) : Prop :=
  Step f a a' ∧ ∀ inst, f.fetch a = some inst →
    writes inst r = false ∧ (isCallOp inst.op = true → 19 ≤ r ∧ r ≤ 28)

/-- The analysis follows an instruction: it does not take it for the end of the path, and it
takes it for a write of the register only if it is one. -/
def Follows (f : FunctionAnalysis) (writes : Inst → Nat → Bool) (r : Nat) (a : Nat) : Prop :=
  ∀ inst, f.fetch a = some inst →
    inst.op ≠ .blr ∧ inst.op ≠ .svc ∧
      ((if inst.op = .mrs then inst.rd == r else clobbersGPR inst r) = true →
        writes inst r = true)

/-! ## The analysis along a path -/

theorem run_succ {start a : Nat} (h : start ≤ a) (h4 : (a - start) % 4 = 0) {inst : Inst}
    (hi : f.fetch a = some inst) (s : Registers) :
    f.run start (a + 4) s = (f.run start a s).step a inst := by
  have hlast : addresses a (a + 4) = [a] := by
    rw [addresses_cons (by omega), addresses_of_le (Nat.le_refl _)]
  rw [run, addresses_append h h4 (by omega), hlast, List.foldl_append, List.foldl_cons,
    List.foldl_nil, hi]
  rfl

/-- An instruction that does not write a register keeps it tracked. -/
theorem step_tracked {writes : Inst → Nat → Bool} {r : Nat} {s : Registers} {a : Nat}
    {inst : Inst} (hw : writes inst r = false) (hcall : isCallOp inst.op = true → 19 ≤ r ∧ r ≤ 28)
    (hf : (if inst.op = .mrs then inst.rd == r else clobbersGPR inst r) = true →
      writes inst r = true) (hs : s.tracked r = true) : (s.step a inst).tracked r = true := by
  unfold Registers.step
  by_cases hmrs : inst.op = .mrs
  · rw [if_pos hmrs] at hf ⊢
    -- only the destination of an `mrs` is written
    have hne : inst.rd ≠ r := fun heq => by
      rw [hf (by simpa using heq)] at hw
      cases hw
    unfold Registers.mrs
    split
    · exact hs
    · rw [← hs]
      exact Function.update_of_ne (Ne.symm hne) _ _
  · rw [if_neg hmrs] at hf ⊢
    have hclobber : clobbersGPR inst r = false := by
      cases hc : clobbersGPR inst r with
      | false => rfl
      | true => rw [hf hc] at hw; cases hw
    by_cases hop : isCallOp inst.op = true
    · obtain ⟨h19, h28⟩ := hcall hop
      have h17 : ¬ r ≤ 17 := by omega
      have h30 : r ≠ 30 := by omega
      simp [Registers.clobber, Registers.call, hop, hclobber, hs, h17, h30]
    · simp [Registers.clobber, hop, hclobber, hs]

section

variable {mayIn : Nat → Registers}

/-- In front of the instruction at an address the may analysis has the register tracked. -/
def Tracks (f : FunctionAnalysis) (mayIn : Nat → Registers) (a : Nat) (r : Nat) : Prop :=
  ∃ (i : Nat) (block : Block), f.IsBlock i block ∧ block.start ≤ a ∧ a < block.stop ∧
    (f.run block.start a (mayIn i)).tracked r = true

variable (ha : f.Aligned)
  (hm : Worklist.Settled Registers.Le (f.problem true f.buildBlocks) mayIn [])

include ha hm

/-- Along an edge of the block graph. -/
theorem tracks_edge {i : Nat} {block : Block} (h : f.IsBlock i block) {r : Nat} (hr : r < 32)
    (hs : (f.run block.start block.stop (mayIn i)).tracked r = true) {target : Nat}
    (ht : target ∈ f.edges block.stop) (hl : target ∈ f.leaders) :
    f.Tracks mayIn target r := by
  obtain ⟨j, next, hj, hnext, rfl⟩ := h.mem_succs (h.bounds ha).2.2.2.1 ht hl
  have hlt : i < f.buildBlocks.length := by rw [length_buildBlocks]; exact h.index
  have hsettled := hm i hlt (by simp) j (by simpa [problem, h.get] using hj) r hr
  simp only [problem, h.get, Option.map_some, Option.getD_some] at hsettled
  refine ⟨j, next, hnext, Nat.le_refl _, (hnext.bounds ha).2.2.2.1, ?_⟩
  rw [run, addresses_of_le (Nat.le_refl _)]
  exact hsettled hs

omit ha hm in
/-- The edges of a block whose last instruction resumes lead on to what follows it. -/
theorem stop_mem_edges {stop : Nat} {inst : Inst} (hi : f.fetch (stop - 4) = some inst)
    (hr : resumes inst = true) (hblr : inst.op ≠ .blr) (hsvc : inst.op ≠ .svc) :
    stop ∈ f.edges stop := by
  unfold edges
  rw [hi]
  simp only
  unfold resumes at hr
  cases hop : inst.op <;>
    simp_all [isNoReturnOp, branchTarget, isIndirectBranchOp, isDirectBranchOp, isTestBranchOp,
      isUnconditionalOp, isBranchOp]

omit ha hm in
/-- The target of a jump is among the edges of the block it ends. -/
theorem target_mem_edges {stop target : Nat} {inst : Inst} (hi : f.fetch (stop - 4) = some inst)
    (hj : jumps inst.op = true) (ht : branchTarget inst (stop - 4) = some target) :
    target ∈ f.edges stop := by
  unfold edges
  rw [hi]
  simp only [ht]
  have hno : isNoReturnOp inst.op = false := by
    cases hop : inst.op <;> simp_all [jumps, isNoReturnOp, isTestBranchOp]
  rw [hno, if_neg (by simp)]
  split <;> simp

/-- Where a step goes that the analysis follows, the register is tracked if it is tracked behind
the instruction. -/
theorem tracks_next {r : Nat} (hr : r < 32) {a a' : Nat} (hstep : Step f a a')
    (hop : ∀ inst, f.fetch a = some inst → inst.op ≠ .blr ∧ inst.op ≠ .svc)
    {i : Nat} {block : Block} (hblock : f.IsBlock i block) (h1 : block.start ≤ a)
    (h2 : a < block.stop) (hafter : (f.run block.start (a + 4) (mayIn i)).tracked r = true) :
    f.Tracks mayIn a' r := by
  obtain ⟨hs4, he4, hlow, hlt, hhigh⟩ := hblock.bounds ha
  cases hstep with
  | @next inst next hi h4 hres hn =>
      have hnext := fetch_range hn
      by_cases hin : a + 4 < block.stop
      · exact ⟨i, block, hblock, by omega, hin, hafter⟩
      · -- the last instruction of its block: the next one is a leader, behind an edge
        have hstop : block.stop = a + 4 := by omega
        have hi' : f.fetch (block.stop - 4) = some inst := by rw [hstop]; exact hi
        have hleader : a + 4 ∈ f.leaders := by
          have hget := hblock.stop
          cases hl : f.leaders[i + 1]? with
          | none => rw [hl, Option.getD_none] at hget; omega
          | some l =>
              rw [hl, Option.getD_some] at hget
              rw [← hstop, hget]
              exact List.mem_of_getElem? hl
        have hedge := stop_mem_edges hi' hres (hop inst hi).1 (hop inst hi).2
        rw [hstop] at hedge
        exact tracks_edge ha hm hblock hr (by rw [hstop]; exact hafter)
          (by rw [hstop]; exact hedge) hleader
  | @jump _ inst next hi h4 hj ht ht4 hn =>
      -- a branch is the last instruction of its block, and its target is a leader
      have hleaves : leaves inst = true := by
        cases hop : inst.op <;> simp_all [jumps, leaves, isBranchOp, isTestBranchOp]
      have hstop := hblock.stop_of_leaves ha hi h4 hleaves h1 h2
      have hi' : f.fetch (block.stop - 4) = some inst := by rw [hstop]; exact hi
      have hrange := fetch_range hn
      have hleader := target_leader hi (by have := ha.start; omega) hleaves ht hrange.1 hrange.2 ht4
      exact tracks_edge ha hm hblock hr (by rw [hstop]; exact hafter)
        (target_mem_edges hi' hj (by rw [hstop]; exact ht)) hleader

omit ha hm in
theorem step_aligned {a a' : Nat} (h : Step f a a') :
    a % 4 = 0 ∧ ∃ inst, f.fetch a = some inst := by
  cases h with
  | next hi h4 _ _ => exact ⟨h4, _, hi⟩
  | jump hi h4 _ _ _ _ => exact ⟨h4, _, hi⟩

/-- **One step of a path** that the analysis follows keeps the register tracked. -/
theorem tracks_step {writes : Inst → Nat → Bool} {r : Nat} (hr : r < 32) {a a' : Nat}
    (hc : f.Carries writes r a a') (hf : f.Follows writes r a) (h : f.Tracks mayIn a r) :
    f.Tracks mayIn a' r := by
  obtain ⟨i, block, hblock, h1, h2, hs⟩ := h
  obtain ⟨hstep, hkeep⟩ := hc
  obtain ⟨h4, inst, hi⟩ := step_aligned hstep
  have hs4 := (hblock.bounds ha).1
  refine tracks_next ha hm hr hstep (fun inst hi => ⟨(hf inst hi).1, (hf inst hi).2.1⟩) hblock
    h1 h2 ?_
  rw [run_succ h1 (by omega) hi]
  exact step_tracked (hkeep inst hi).1 (hkeep inst hi).2 (hf inst hi).2.2 hs

/-- A whole path that the analysis follows keeps the register tracked. -/
theorem tracks_path {writes : Inst → Nat → Bool} {r : Nat} (hr : r < 32) {a a' : Nat}
    (hpath : Relation.ReflTransGen
      (fun x y => f.Carries writes r x y ∧ f.Follows writes r x) a a')
    (h : f.Tracks mayIn a r) : f.Tracks mayIn a' r := by
  induction hpath with
  | refl => exact h
  | tail _ hstep ih => exact tracks_step ha hm hr hstep.1 hstep.2 ih

/-- The register is tracked where it has received the base. -/
theorem tracks_of_receives {seed : Registers} (hseed : seed.Le (mayIn 0)) {r : Nat} (hr : r < 31)
    {a : Nat} (h : f.Receives seed r a) : f.Tracks mayIn a r := by
  cases h with
  | entry hs =>
      have hzero : 0 < f.leaders.length := by
        have := List.getElem?_eq_some_iff.mp (leaders_head ha.start ha.nonempty)
        exact this.1
      obtain ⟨block, hblock⟩ := isBlock_of_lt hzero
      have hstart := hblock.start
      rw [leaders_head ha.start ha.nonempty, Option.some.injEq] at hstart
      refine ⟨0, block, hblock, by omega, ?_, ?_⟩
      · rw [hstart]; exact (hblock.bounds ha).2.2.2.1
      · rw [hstart, run, addresses_of_le (Nat.le_refl _)]
        exact hseed r (by omega) hs
  | @mrs p _ inst hi hop hrd himm hstep =>
      have hrange := fetch_range hi
      obtain ⟨h4, -⟩ := step_aligned hstep
      obtain ⟨i, block, hblock, h1, h2⟩ := exists_block ha hrange.1 (by omega)
      have hs4 := (hblock.bounds ha).1
      refine tracks_next ha hm (by omega) hstep (fun inst' hi' => ?_) hblock h1 h2 ?_
      · rw [hi, Option.some.injEq] at hi'
        rw [← hi', hop]
        simp
      · rw [run_succ h1 (by omega) hi]
        have hne : r ≠ zeroReg := by unfold zeroReg; omega
        simp [Registers.step, Registers.mrs, hop, hrd, himm, hne]

end

/-! ## The report -/

theorem report_state (addrs : List Nat) (acc : Reporting) :
    (addrs.foldl f.reportStep acc).state
      = addrs.foldl (fun s addr => match f.fetch addr with
          | none => s
          | some inst => s.step addr inst) acc.state := by
  induction addrs generalizing acc with
  | nil => rfl
  | cons addr rest ih =>
      rw [List.foldl_cons, List.foldl_cons, ih, reportStep]
      cases f.fetch addr <;> rfl

theorem report_certain (addrs : List Nat) (acc : Reporting) :
    (addrs.foldl f.reportStep acc).certain
      = addrs.foldl (fun s addr => match f.fetch addr with
          | none => s
          | some inst => s.step addr inst) acc.certain := by
  induction addrs generalizing acc with
  | nil => rfl
  | cons addr rest ih =>
      rw [List.foldl_cons, List.foldl_cons, ih, reportStep]
      cases f.fetch addr <;> rfl

/-- The lines that `Report` adds at an address, in the states in front of it. -/
def linesAt (f : FunctionAnalysis) (addr : Nat) (state certain : Registers) : List String :=
  match f.fetch addr with
  | none => []
  | some inst => f.reportInst addr inst state certain

theorem reportStep_lines (acc : Reporting) (addr : Nat) :
    (f.reportStep acc addr).violations = acc.violations ++ f.linesAt addr acc.state acc.certain := by
  unfold reportStep linesAt
  cases f.fetch addr with
  | none => simp
  | some inst => rfl

theorem mem_linesAt_iff {addr : Nat} {state certain : Registers} {line : String} :
    line ∈ f.linesAt addr state certain ↔
      ∃ inst, f.fetch addr = some inst ∧ line ∈ f.reportInst addr inst state certain := by
  unfold linesAt
  cases f.fetch addr with
  | none => simp
  | some inst => simp

/-- The lines of a block are those of its instructions. -/
theorem mem_report_iff {block : Block} {mayIn mustIn : Registers} {line : String} :
    line ∈ f.report block mayIn mustIn ↔ ∃ addr ∈ addresses block.start block.stop, ∃ inst,
      f.fetch addr = some inst ∧ line ∈ f.reportInst addr inst (f.run block.start addr mayIn)
        (f.run block.start addr mustIn) := by
  have hstate : ∀ addr, (Runs.run f.reportStep
      { state := mayIn, certain := mustIn, violations := [] } (addresses block.start addr)).state
        = f.run block.start addr mayIn := fun addr => report_state _ _
  have hcertain : ∀ addr, (Runs.run f.reportStep
      { state := mayIn, certain := mustIn, violations := [] } (addresses block.start addr)).certain
        = f.run block.start addr mustIn := fun addr => report_certain _ _
  rw [report, ← Runs.run, Runs.mem_output reportStep_lines]
  constructor
  · rintro (hnil | ⟨before, addr, after, hsplit, hemit⟩)
    · cases hnil
    · obtain ⟨haddr, rfl⟩ := addresses_split hsplit
      rw [hstate, hcertain] at hemit
      exact ⟨addr, haddr, mem_linesAt_iff.mp hemit⟩
  · rintro ⟨addr, haddr, hlines⟩
    obtain ⟨before, after, hsplit⟩ := List.append_of_mem haddr
    refine Or.inr ⟨before, addr, after, hsplit, ?_⟩
    rw [(addresses_split hsplit).2, hstate, hcertain]
    exact mem_linesAt_iff.mpr hlines

theorem mem_reportInst {a r : Nat} {inst : Inst} {state certain : Registers} (hr : r < 31)
    (ht : state.tracked r = true) (hacc : fixedOffsetAccess inst r = true)
    (hoff : isAllowedOffset (accessOffset inst) = false) :
    f.accessViolation a (state.mrsAt r) (accessOffset inst)
      ∈ f.reportInst a inst state certain := by
  have hmrs : inst.op ≠ .mrs := fun h => by simp [fixedOffsetAccess, h] at hacc
  rw [reportInst, if_neg hmrs, List.mem_flatMap]
  refine ⟨r, List.mem_range.mpr hr, ?_⟩
  simp [ht, hacc, hoff]

/-- An access off a tracked register has its line in the report of its block. -/
theorem mem_report {block : Block} {mayIn mustIn : Registers} {a r : Nat} {inst : Inst}
    (h1 : block.start ≤ a) (h4 : (a - block.start) % 4 = 0) (h2 : a < block.stop)
    (hi : f.fetch a = some inst) (hr : r < 31)
    (ht : (f.run block.start a mayIn).tracked r = true)
    (hacc : fixedOffsetAccess inst r = true)
    (hoff : isAllowedOffset (accessOffset inst) = false) :
    f.accessViolation a ((f.run block.start a mayIn).mrsAt r) (accessOffset inst)
      ∈ f.report block mayIn mustIn := by
  have haddr : a ∈ addresses block.start block.stop := mem_addresses.mpr ⟨h1, h2, h4⟩
  exact mem_report_iff.mpr ⟨a, haddr, inst, hi, mem_reportInst hr ht hacc hoff⟩

/-! ## The fixpoints -/

/-- Before the loop every block is on the worklist. -/
theorem settled_start (le : Registers → Registers → Prop) (may : Bool) (seed : Registers) :
    Worklist.Settled le (f.problem may f.buildBlocks) (entryStates seed)
      (List.range f.buildBlocks.length).reverse := by
  intro b hb hnot
  exact absurd (by simpa [problem] using hb) hnot

theorem settled_may {seed : Registers} {mayIn : Nat → Registers} {log : List CallSite}
    (h : f.solve true f.buildBlocks seed = some (mayIn, log)) :
    Worklist.Settled Registers.Le (f.problem true f.buildBlocks) mayIn [] ∧
      seed.Le (mayIn 0) := by
  obtain ⟨hsettled, hgrows⟩ :=
    Worklist.solve_stable (growing_may rfl rfl) h (settled_start _ true seed)
  exact ⟨hsettled, hgrows 0⟩

/-- What the analysis of a function ends with: the lines of its blocks, in the two fixpoints. -/
theorem analyse_spec (f : FunctionAnalysis) (seed : Registers) :
    ∃ mayIn log mustIn calls result, f.solve true f.buildBlocks seed = some (mayIn, log) ∧
      f.solve false f.buildBlocks seed = some (mustIn, calls) ∧
      f.analyse seed = some result ∧ ∀ line, line ∈ result.violations ↔ ∃ i block,
        f.buildBlocks[i]? = some block ∧ line ∈ f.report block (mayIn i) (mustIn i) := by
  obtain ⟨⟨mayIn, log⟩, hmay⟩ := Option.isSome_iff_exists.mp (solve_isSome (f := f) true seed)
  obtain ⟨⟨mustIn, calls⟩, hmust⟩ := Option.isSome_iff_exists.mp (solve_isSome (f := f) false seed)
  refine ⟨mayIn, log, mustIn, calls, _, hmay, hmust, by rw [analyse, hmay, hmust]; rfl,
    fun line => ?_⟩
  simp only [List.mem_insertionSort, List.mem_dedup, List.mem_flatMap]
  constructor
  · rintro ⟨⟨block, i⟩, hget, hline⟩
    exact ⟨i, block, List.mem_zipIdx_iff_getElem?.mp hget, hline⟩
  · rintro ⟨i, block, hget, hline⟩
    exact ⟨(block, i), List.mem_zipIdx_iff_getElem?.mpr hget, hline⟩

/-- **No false negative on a path the analysis follows.** Where a register receives the base
and a path that does not write it reaches a load or store off it at an offset that is not
allowed, the analysis of the function has a line for that access. -/
theorem access_reported {f : FunctionAnalysis} (hstart : f.range.start % 4 = 0)
    (hstop : f.range.stop % 4 = 0) {writes : Inst → Nat → Bool} {seed : Registers} {r : Nat}
    (hr : r < 31) {a a' : Nat} (hreceives : f.Receives seed r a)
    (hpath : Relation.ReflTransGen
      (fun x y => f.Carries writes r x y ∧ f.Follows writes r x) a a')
    {inst : Inst} (hi : f.fetch a' = some inst) (h4 : a' % 4 = 0)
    (hacc : fixedOffsetAccess inst r = true)
    (hoff : isAllowedOffset (accessOffset inst) = false) :
    ∃ (result : FunctionResult) (mrsAt : Nat), f.analyse seed = some result ∧
      f.accessViolation a' mrsAt (accessOffset inst) ∈ result.violations := by
  have hrange := fetch_range hi
  have ha : f.Aligned := ⟨hstart, hstop, by omega⟩
  obtain ⟨mayIn, log, mustIn, calls, result, hmay, -, hresult, hlines⟩ := f.analyse_spec seed
  obtain ⟨hm, hseed⟩ := settled_may hmay
  obtain ⟨i, block, hblock, h1, h2, ht⟩ :=
    tracks_path ha hm (by omega) hpath (tracks_of_receives ha hm hseed hr hreceives)
  have hs4 := (hblock.bounds ha).1
  have hd : (a' - block.start) % 4 = 0 := by omega
  exact ⟨result, _, hresult, (hlines _).mpr ⟨i, block, hblock.get,
    mem_report h1 hd h2 hi hr ht hacc hoff⟩⟩

/-! ## The base across a call -/

/-- `mrs x24, TPIDRRO_EL0`, a call, `ldr x0, [x24, #0x40]`, `ret`. -/
def acrossCall (call : Inst) : FunctionAnalysis where
  image := { path := "guest" }
  code := [{ addr := 0x1000, size := 16, insts :=
    [{ op := .mrs, rd := 24, imm := tpidrroEl0 }, call,
      { op := .ldr, rd := 0, rn := 24, offset := 0x40, offImm := true }, { op := .ret }] }]
  range := ⟨0x1000, 0x1010⟩
  functionStarts := [0x1000]
  opcode := fun _ => 0

/-- What the instructions of `acrossCall` write. -/
def writesRd (inst : Inst) (r : Nat) : Bool :=
  (inst.op == .mrs || inst.op == .ldr) && inst.rd == r

/-- `blr x8` -/
def blrX8 : Inst := { op := .blr, rn := 8 }

/-- `bl` to another function. -/
def blFar : Inst := { op := .bl, offset := 0x4000 }

theorem acrossCall_step (call : Inst) (hcall : call = blrX8 ∨ call = blFar) :
    (acrossCall call).Receives {} 24 0x1004 ∧
      (acrossCall call).Carries writesRd 24 0x1004 0x1008 := by
  rcases hcall with rfl | rfl
  · refine ⟨.mrs rfl rfl rfl rfl (.next rfl rfl rfl rfl), .next rfl rfl rfl rfl, ?_⟩
    intro inst hi
    injection hi with hi
    rw [← hi]
    exact ⟨rfl, fun _ => by decide⟩
  · refine ⟨.mrs rfl rfl rfl rfl (.next rfl rfl rfl rfl), .next rfl rfl rfl rfl, ?_⟩
    intro inst hi
    injection hi with hi
    rw [← hi]
    exact ⟨rfl, fun _ => by decide⟩

/-- Behind an indirect call the scan loses the base: it has no line for this function. -/
theorem access_reported_blr :
    ¬ ∀ (f : FunctionAnalysis), f.range.start % 4 = 0 → f.range.stop % 4 = 0 →
      ∀ (writes : Inst → Nat → Bool) (seed : Registers) (r : Nat), r < 31 →
      ∀ a a' : Nat, f.Receives seed r a → Relation.ReflTransGen (f.Carries writes r) a a' →
      ∀ inst : Inst, f.fetch a' = some inst → a' % 4 = 0 → fixedOffsetAccess inst r = true →
      isAllowedOffset (accessOffset inst) = false →
      ∃ (result : FunctionResult) (mrsAt : Nat), f.analyse seed = some result ∧
        f.accessViolation a' mrsAt (accessOffset inst) ∈ result.violations := by
  intro hclaim
  obtain ⟨hreceives, hstep⟩ := acrossCall_step blrX8 (Or.inl rfl)
  obtain ⟨result, mrsAt, hresult, hmem⟩ := hclaim (acrossCall blrX8) rfl rfl writesRd {} 24
    (by decide) 0x1004 0x1008 hreceives (.single hstep) _ rfl rfl rfl rfl
  have hnone : ((acrossCall blrX8).analyse {}).map FunctionResult.violations = some [] := rfl
  rw [hresult, Option.map_some, Option.some.injEq] at hnone
  rw [hnone] at hmem
  cases hmem

/-- Behind a direct call it has one. -/
theorem access_reported_bl :
    ∃ (result : FunctionResult) (mrsAt : Nat), (acrossCall blFar).analyse {} = some result ∧
      (acrossCall blFar).accessViolation 0x1008 mrsAt 0x40 ∈ result.violations := by
  obtain ⟨hreceives, hstep⟩ := acrossCall_step blFar (Or.inr rfl)
  have hfollows : (acrossCall blFar).Follows writesRd 24 0x1004 := by
    intro inst hi
    injection hi with hi
    rw [← hi]
    exact ⟨by decide, by decide, by decide⟩
  have hi : (acrossCall blFar).fetch 0x1008
    = some { op := .ldr, rd := 0, rn := 24, offset := 0x40, offImm := true } := rfl
  obtain ⟨result, mrsAt, hresult, hmem⟩ := access_reported rfl rfl (by decide) hreceives
    (.single ⟨hstep, hfollows⟩) hi rfl rfl rfl
  have hoff : accessOffset { op := .ldr, rd := 0, rn := 24, offset := 0x40, offImm := true }
    = 0x40 := rfl
  rw [hoff] at hmem
  exact ⟨result, mrsAt, hresult, hmem⟩

end FunctionAnalysis

end Katabasis
