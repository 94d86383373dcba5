import Katabasis.TsdScan.Scan

set_option autoImplicit false

/-! # The must analysis and the paths

The must analysis is to say of a register that it holds the base "on EVERY path", and a call in
which a callee-saved register does is recorded with that register and seeds its callee.

`Solve` gives every block but the first the empty state before the loop, also for the must
analysis, whose merge only takes registers away. So no other block ever has a register on entry
(`not_tracked_of_pos`), and the first one keeps a register of the seed only where each other block
with an edge back to it loads that register itself. `meetsPaths_iff`: the analysis agrees with the
paths exactly where some path loses the register, or at the entry where these blocks load it.
-/

namespace Katabasis

/-! ## One register at a time -/

/-- What an instruction leaves in a register depends on that register only. -/
theorem Registers.step_mono {s t : Registers} {r : Nat}
    (h : s.tracked r = true → t.tracked r = true) (addr : Nat) (inst : Inst)
    (hs : (s.step addr inst).tracked r = true) : (t.step addr inst).tracked r = true := by
  unfold Registers.step at hs ⊢
  by_cases hmrs : inst.op = .mrs
  · rw [if_pos hmrs] at hs ⊢
    unfold Registers.mrs at hs ⊢
    by_cases hzero : inst.rd = zeroReg
    · rw [if_pos hzero] at hs ⊢
      exact h hs
    · rw [if_neg hzero] at hs ⊢
      by_cases hr : r = inst.rd
      · simp only [hr, Function.update_self] at hs ⊢
        exact hs
      · simp only [Function.update_of_ne hr] at hs ⊢
        exact h hs
  · rw [if_neg hmrs] at hs ⊢
    by_cases hcall : isCallOp inst.op = true
    · simp only [Registers.clobber, Registers.call, hcall, if_true, Bool.and_eq_true] at hs ⊢
      exact ⟨⟨h hs.1.1, hs.1.2⟩, hs.2⟩
    · simp only [Registers.clobber, hcall, Bool.and_eq_true] at hs ⊢
      exact ⟨h hs.1, hs.2⟩

namespace FunctionAnalysis

variable {f : FunctionAnalysis}

theorem run_mono {s t : Registers} {r : Nat} (h : s.tracked r = true → t.tracked r = true)
    (start stop : Nat) (hs : (f.run start stop s).tracked r = true) :
    (f.run start stop t).tracked r = true := by
  unfold run at hs ⊢
  generalize addresses start stop = addrs at hs ⊢
  induction addrs generalizing s t with
  | nil => exact h hs
  | cons addr rest ih =>
      rw [List.foldl_cons] at hs ⊢
      cases hi : f.fetch addr with
      | none =>
          rw [hi] at hs
          exact ih h hs
      | some inst =>
          rw [hi] at hs
          exact ih (Registers.step_mono h addr inst) hs

/-- The state behind a block. -/
def after (f : FunctionAnalysis) (b : Nat) (s : Registers) : Registers :=
  (f.problem false f.buildBlocks).transfer b s

theorem after_mono {s t : Registers} {r : Nat} (h : s.tracked r = true → t.tracked r = true)
    (b : Nat) (hs : (f.after b s).tracked r = true) : (f.after b t).tracked r = true := by
  simp only [after, problem] at hs ⊢
  cases hb : f.buildBlocks[b]? with
  | none =>
      rw [hb] at hs
      exact h hs
  | some block =>
      rw [hb] at hs
      exact run_mono h _ _ hs

/-! ## The order of the must analysis -/

theorem growing_must (blocks : List Block) :
    Worklist.Growing (fun a b => Registers.Le b a) (f.problem false blocks) where
  refl := fun _ _ _ h => h
  trans := fun _ _ _ h1 h2 r hr h => h1 r hr (h2 r hr h)
  left := fun s o r hr h => by
    simp only [problem, mergeInto, hr, if_true, Bool.and_eq_true, Bool.false_eq_true,
      if_false] at h
    exact h.1
  right := fun s o r hr h => by
    simp only [problem, mergeInto, hr, if_true, Bool.and_eq_true, Bool.false_eq_true,
      if_false] at h
    exact h.2
  same := fun s o h r hr hs => by
    simp only [problem, differs, List.any_eq_false, List.mem_range] at h
    have heq := h r hr
    simpa [mergeInto, hr, hs] using heq

/-- A must merge along an edge. -/
theorem merge_must {s o : Registers} {r : Nat} (hr : r < 32) :
    (mergeInto false s o).tracked r = (s.tracked r && o.tracked r) := by
  simp [mergeInto, hr]

/-- The edges of the block graph start in it. -/
theorem lt_of_mem_succs {b n : Nat} (h : n ∈ (f.problem false f.buildBlocks).succs b) :
    b < f.buildBlocks.length := by
  by_contra hlt
  simp only [problem, List.getElem?_eq_none (Nat.le_of_not_lt hlt)] at h
  cases h

/-! ## What the paths say -/

/-- A path from the entry, with the seed, reaches the block in this state. -/
abbrev Arrives (f : FunctionAnalysis) (seed : Registers) : Nat → Registers → Prop :=
  Worklist.Arrives (f.problem false f.buildBlocks) seed

/-- Every path to the block has the base in the register. -/
def OnEveryPath (f : FunctionAnalysis) (seed : Registers) (b r : Nat) : Prop :=
  ∀ s, f.Arrives seed b s → s.tracked r = true

/-- Every path to an instruction of the block has the base in the register there. -/
def OnEveryPathTo (f : FunctionAnalysis) (seed : Registers) (b : Nat) (block : Block) (addr : Nat)
    (r : Nat) : Prop :=
  ∀ s, f.Arrives seed b s → (f.run block.start addr s).tracked r = true

/-- A block loads the base into the register and still has it at its end. -/
def Loads (f : FunctionAnalysis) (b r : Nat) : Prop := (f.after b {}).tracked r = true

/-- The call at an instruction is recorded with the register, and its callee is seeded with it. -/
def HandsOver (f : FunctionAnalysis) (calls : List CallSite) (addr : Nat) (inst : Inst) (r : Nat) :
    Prop :=
  (∃ site ∈ calls, site.addr = addr ∧ site.tracked r = true) ∧
    ∀ target, branchTarget inst addr = some target → target ∈ f.functionStarts →
      ∀ seeding : Seeding, ((calls.foldl Seeding.call seeding).seeds target).tracked r = true

/-- **The must analysis agrees with the paths** on a register at a block: on entry to it, and at
the calls in it. -/
structure MeetsPaths (f : FunctionAnalysis) (seed : Registers) (mustIn : Nat → Registers)
    (calls : List CallSite) (b r : Nat) : Prop where
  entry : (mustIn b).tracked r = true ↔ f.OnEveryPath seed b r
  calls : ∀ block addr inst, f.buildBlocks[b]? = some block →
    addr ∈ addresses block.start block.stop → f.fetch addr = some inst →
    isCallOp inst.op = true → 19 ≤ r → r ≤ 28 → f.OnEveryPathTo seed b block addr r →
    f.HandsOver calls addr inst r

/-! ## The recorded calls -/

/-- `callSites` at one instruction. -/
def callStep (f : FunctionAnalysis) (acc : Registers × List CallSite) (addr : Nat) :
    Registers × List CallSite :=
  match f.fetch addr with
  | none => acc
  | some inst =>
      (acc.1.step addr inst,
        if inst.op ≠ .mrs ∧ isCallOp inst.op then acc.2 ++ [f.callSite addr inst acc.1]
        else acc.2)

theorem callSteps_state (addrs : List Nat) (acc : Registers × List CallSite) :
    (addrs.foldl f.callStep acc).1
      = addrs.foldl (fun s addr => match f.fetch addr with
          | none => s
          | some inst => s.step addr inst) acc.1 := by
  induction addrs generalizing acc with
  | nil => rfl
  | cons addr rest ih =>
      rw [List.foldl_cons, List.foldl_cons, ih, callStep]
      cases f.fetch addr <;> rfl

/-- The call that `Transfer` records at an address, in the state in front of it. -/
def callsAt (f : FunctionAnalysis) (addr : Nat) (s : Registers) : List CallSite :=
  match f.fetch addr with
  | none => []
  | some inst => if inst.op ≠ .mrs ∧ isCallOp inst.op then [f.callSite addr inst s] else []

theorem callStep_calls (acc : Registers × List CallSite) (addr : Nat) :
    (f.callStep acc addr).2 = acc.2 ++ f.callsAt addr acc.1 := by
  unfold callStep callsAt
  cases f.fetch addr with
  | none => simp
  | some inst => simp only; split <;> simp

theorem mem_callsAt_iff {addr : Nat} {s : Registers} {site : CallSite} :
    site ∈ f.callsAt addr s ↔ ∃ inst, f.fetch addr = some inst ∧ isCallOp inst.op = true ∧
      site = f.callSite addr inst s := by
  unfold callsAt
  cases f.fetch addr with
  | none => simp
  | some inst =>
      have hmrs : isCallOp inst.op = true → inst.op ≠ .mrs := fun h hop => by
        rw [hop] at h
        cases h
      by_cases hcall : isCallOp inst.op = true
      · simp [hcall, hmrs hcall]
      · simp [hcall]

/-- The call of an instruction in a block, as `Transfer` records it. -/
theorem mem_callSites_iff {block : Block} {s : Registers} {site : CallSite} :
    site ∈ f.callSites block s ↔ ∃ addr ∈ addresses block.start block.stop, ∃ inst,
      f.fetch addr = some inst ∧ isCallOp inst.op = true ∧
        site = f.callSite addr inst (f.run block.start addr s) := by
  have hstate : ∀ addr, (Runs.run f.callStep (s, []) (addresses block.start addr)).1
      = f.run block.start addr s := fun addr => callSteps_state _ _
  have hout : site ∈ f.callSites block s ↔ _ := Runs.mem_output callStep_calls
  rw [hout]
  constructor
  · rintro (hnil | ⟨before, addr, after, hsplit, hemit⟩)
    · cases hnil
    · obtain ⟨haddr, rfl⟩ := addresses_split hsplit
      rw [hstate] at hemit
      exact ⟨addr, haddr, mem_callsAt_iff.mp hemit⟩
  · rintro ⟨addr, haddr, hcalls⟩
    obtain ⟨before, after, hsplit⟩ := List.append_of_mem haddr
    refine Or.inr ⟨before, addr, after, hsplit, ?_⟩
    rw [(addresses_split hsplit).2, hstate]
    exact mem_callsAt_iff.mpr hcalls

/-- A call in a block is recorded with the state in front of it. -/
theorem mem_callSites {block : Block} {addr : Nat} {inst : Inst}
    (haddr : addr ∈ addresses block.start block.stop) (hi : f.fetch addr = some inst)
    (hcall : isCallOp inst.op = true) (s : Registers) :
    f.callSite addr inst (f.run block.start addr s) ∈ f.callSites block s :=
  mem_callSites_iff.mpr ⟨addr, haddr, inst, hi, hcall, rfl⟩

/-- A call recorded with a register hands it over. -/
theorem handsOver_of_mem {calls : List CallSite} {addr : Nat} {inst : Inst} {s : Registers}
    {r : Nat} (hmem : f.callSite addr inst s ∈ calls) (h19 : 19 ≤ r) (h28 : r ≤ 28)
    (hs : s.tracked r = true) : f.HandsOver calls addr inst r := by
  have htracked : (f.callSite addr inst s).tracked r = true := by simp [callSite, h19, h28, hs]
  refine ⟨⟨_, hmem, rfl, htracked⟩, fun target htarget hstart seeding => ?_⟩
  have hfilter : (branchTarget inst addr).filter f.functionStarts.contains = some target := by
    rw [htarget, Option.filter_some, if_pos (List.contains_iff_mem.mpr hstart)]
  have hres : (f.callSite addr inst s).resolvable = true := by simp only [callSite, hfilter]; rfl
  have hto : (f.callSite addr inst s).target = target := by simp only [callSite, hfilter]; rfl
  have hseed := Seeding.calls_seed hmem hres h19 h28 htracked seeding
  rwa [hto] at hseed

/-! ## The solver against the paths -/

section

variable {seed : Registers} {mustIn : Nat → Registers} {calls : List CallSite}
  (h : f.solve false f.buildBlocks seed = some (mustIn, calls))

include h

/-- **Behind the first block nothing is ever held on entry**: the other blocks start from the
empty state, and the merge only takes away. -/
theorem not_tracked_of_pos {b : Nat} (hb : b ≠ 0) {r : Nat} (hr : r < 32) :
    (mustIn b).tracked r = false := by
  have hkeep := (Worklist.solve_keeps
    (Q := fun b s => b ≠ 0 → ∀ r < 32, s.tracked r = false)
    (fun _ _ n s' _ _ hs' hn r hr => by
      show (mergeInto false s' _).tracked r = false
      rw [merge_must hr, hs' hn r hr, Bool.false_and])
    h (fun x hx r _ => by simp only [entryStates, if_neg hx])).1
  exact hkeep b hb r hr

theorem settled_must :
    Worklist.Settled (fun a b => Registers.Le b a) (f.problem false f.buildBlocks) mustIn [] ∧
      Registers.Le (mustIn 0) seed := by
  obtain ⟨hsettled, hgrows⟩ :=
    Worklist.solve_stable (growing_must f.buildBlocks) h (settled_start _ false seed)
  exact ⟨hsettled, hgrows 0⟩

/-- What the analysis holds at a block, every path holds. -/
theorem onEveryPath_of_tracked {b r : Nat} (hr : r < 32) (ht : (mustIn b).tracked r = true) :
    f.OnEveryPath seed b r := by
  obtain ⟨hsettled, hseed⟩ := settled_must h
  intro s hs
  have hle := hs.le_result (growing_must f.buildBlocks)
    (fun b s t hst r hr => after_mono (hst r hr) b) (fun b n => lt_of_mem_succs) hsettled hseed
  exact hle r hr ht

omit h in
/-- At the entry the analysis keeps a register that every path there has, where the other blocks
with an edge back load it. -/
theorem kept_at_entry {r : Nat} (hr : r < 32) (hpath : f.OnEveryPath seed 0 r)
    (hloads : ∀ p, 0 ∈ (f.problem false f.buildBlocks).succs p → p = 0 ∨ f.Loads p r) (p : Nat)
    (s : Registers) (n : Nat) (s' : Registers) (hs : p = 0 → s.tracked r = true)
    (hn : n ∈ (f.problem false f.buildBlocks).succs p) (hs' : n = 0 → s'.tracked r = true)
    (hzero : n = 0) : (mergeInto false s' (f.after p s)).tracked r = true := by
  rw [merge_must hr, hs' hzero, Bool.true_and]
  rw [hzero] at hn
  rcases hloads p hn with rfl | hload
  · have hloop : (f.after 0 seed).tracked r = true := hpath _ (.edge .entry hn)
    exact after_mono (fun _ => hs rfl) 0 hloop
  · exact after_mono (fun hempty => absurd hempty Bool.false_ne_true) p hload

/-- A call in a block is recorded in a state that has what every edge keeps. -/
theorem handsOver_of_kept {Q : Nat → Registers → Prop}
    (hQ : ∀ b s n s', Q b s → n ∈ (f.problem false f.buildBlocks).succs b → Q n s' →
      Q n (mergeInto false s' (f.after b s)))
    (hentry : ∀ b, Q b (entryStates seed b)) {b : Nat} {block : Block}
    (hblock : f.buildBlocks[b]? = some block) {addr : Nat}
    (haddr : addr ∈ addresses block.start block.stop) {inst : Inst}
    (hi : f.fetch addr = some inst) (hcall : isCallOp inst.op = true) {r : Nat} (h19 : 19 ≤ r)
    (h28 : r ≤ 28) (hs : ∀ s, Q b s → (f.run block.start addr s).tracked r = true) :
    f.HandsOver calls addr inst r := by
  have hlt : b < f.buildBlocks.length := (List.getElem?_eq_some_iff.mp hblock).1
  obtain ⟨s, hqs, hrecord⟩ := (Worklist.solve_keeps (Q := Q) hQ h hentry).2.2 b
    (by rw [List.mem_reverse, List.mem_range]; exact hlt)
  have hmem : f.callSite addr inst (f.run block.start addr s) ∈ calls := by
    apply hrecord
    simp only [problem, hblock, Bool.false_eq_true, if_false, Option.map_some, Option.getD_some]
    exact mem_callSites haddr hi hcall s
  exact handsOver_of_mem hmem h19 h28 (hs s hqs)

/-- Where some path loses the register before the block, or all blocks with an edge back to the
entry load it, the analysis agrees with the paths. -/
theorem meetsPaths_of {b r : Nat} (hr : r < 32)
    (hcond : (∃ s, f.Arrives seed b s ∧ s.tracked r = false) ∨
      (b = 0 ∧ ∀ p, 0 ∈ (f.problem false f.buildBlocks).succs p → p = 0 ∨ f.Loads p r)) :
    f.MeetsPaths seed mustIn calls b r := by
  by_cases hpath : f.OnEveryPath seed b r
  · obtain ⟨rfl, hloads⟩ : b = 0 ∧ ∀ p, 0 ∈ (f.problem false f.buildBlocks).succs p →
        p = 0 ∨ f.Loads p r := by
      rcases hcond with ⟨s, hs, hlost⟩ | hentry
      · rw [hpath s hs] at hlost
        cases hlost
      · exact hentry
    -- from the entry on, every state of the first block has the register
    have hseed : ∀ b, b = 0 → (entryStates seed b).tracked r = true := fun b hb => by
      rw [entryStates, if_pos hb]
      exact hpath seed .entry
    have hkept := kept_at_entry hr hpath hloads
    constructor
    · exact ⟨onEveryPath_of_tracked h hr, fun _ =>
        (Worklist.solve_keeps (Q := fun b s => b = 0 → s.tracked r = true) hkept h hseed).1 0 rfl⟩
    · intro block addr inst hblock haddr hi hcall h19 h28 hto
      have hrun : (f.run block.start addr seed).tracked r = true := hto seed .entry
      exact handsOver_of_kept h hkept hseed hblock haddr hi hcall h19 h28
        fun s hs => run_mono (fun _ => hs rfl) _ _ hrun
  · obtain ⟨s, hs, hlost⟩ : ∃ s, f.Arrives seed b s ∧ s.tracked r = false := by
      simpa [OnEveryPath] using hpath
    constructor
    · exact ⟨onEveryPath_of_tracked h hr, fun hall => absurd hall hpath⟩
    · intro block addr inst hblock haddr hi hcall h19 h28 hto
      -- the block loads the register itself in front of the call
      have hrun : (f.run block.start addr s).tracked r = true := hto s hs
      exact handsOver_of_kept h (Q := fun _ _ => True) (fun _ _ _ _ _ _ _ => trivial)
        (fun _ => trivial) hblock haddr hi hcall h19 h28
        fun t _ => run_mono (fun htrue => by rw [hlost] at htrue; cases htrue) _ _ hrun

end

/-- **Where the must analysis is the meet over all paths.** On entry to a block it agrees with
the paths exactly where some path to the block loses the register, or at the entry, where every
other block with an edge back loads it; the calls of the block are then recorded with what every
path has there. -/
theorem meetsPaths_iff (f : FunctionAnalysis) (seed : Registers) :
    ∃ mustIn calls, f.solve false f.buildBlocks seed = some (mustIn, calls) ∧
      ∀ b r, r < 32 → (f.MeetsPaths seed mustIn calls b r ↔
        (∃ s, f.Arrives seed b s ∧ s.tracked r = false) ∨
          (b = 0 ∧ ∀ p, 0 ∈ (f.problem false f.buildBlocks).succs p → p = 0 ∨ f.Loads p r)) := by
  obtain ⟨⟨mustIn, calls⟩, h⟩ := Option.isSome_iff_exists.mp (solve_isSome (f := f) false seed)
  refine ⟨mustIn, calls, h, fun b r hr => ⟨fun hmeets => ?_, meetsPaths_of h hr⟩⟩
  by_cases hpath : f.OnEveryPath seed b r
  · right
    have htracked := hmeets.entry.mpr hpath
    have hb : b = 0 := by
      by_contra hne
      rw [not_tracked_of_pos h hne hr] at htracked
      cases htracked
    refine ⟨hb, fun p hp => or_iff_not_imp_left.mpr fun hne => ?_⟩
    have hedge := (settled_must h).1 p (lt_of_mem_succs hp) (by simp) 0 hp r hr (hb ▸ htracked)
    exact after_mono (fun htrue => by rw [not_tracked_of_pos h hne hr] at htrue; cases htrue) p
      hedge
  · left
    simpa [OnEveryPath] using hpath

/-! ## A call behind a branch -/

/-- `mrs x24, TPIDRRO_EL0`, `cbz x0` over the next instruction, `bl` to a function, `ret`. -/
def callBehindBranch : FunctionAnalysis where
  image := { path := "guest" }
  code := [{ addr := 0x1000, size := 16, insts :=
    [{ op := .mrs, rd := 24, imm := tpidrroEl0 }, { op := .cbz, rd := 0, offset := 8 },
      { op := .bl, offset := 0xff8 }, { op := .ret }] }]
  range := ⟨0x1000, 0x1010⟩
  functionStarts := [0x1000, 0x2000]
  opcode := fun _ => 0

/-- The base is in `x24` on the one path to the second block, and the analysis has it nowhere. -/
theorem not_meetsPaths_behind_branch :
    ¬ ∀ (f : FunctionAnalysis) (seed : Registers), ∃ mustIn calls,
      f.solve false f.buildBlocks seed = some (mustIn, calls) ∧
        ∀ b r, r < 32 → (∃ s, f.Arrives seed b s) → f.MeetsPaths seed mustIn calls b r := by
  intro hclaim
  obtain ⟨mustIn, calls, hsolve, hmeets⟩ := hclaim callBehindBranch {}
  have hreach : callBehindBranch.Arrives {} 1 (callBehindBranch.after 0 {}) :=
    .edge .entry (by decide)
  have hsuccs : ∀ b < 3,
      ∀ n ∈ (callBehindBranch.problem false callBehindBranch.buildBlocks).succs b,
        n ≠ 0 ∧ (n = 1 → b = 0) := by decide
  have hentry : ∀ s, callBehindBranch.Arrives {} 0 s → s = {} := by
    intro s hs
    cases hs with
    | entry => rfl
    | edge _ hn => exact absurd rfl (hsuccs _ (lt_of_mem_succs hn) _ hn).1
  have hevery : callBehindBranch.OnEveryPath {} 1 24 := by
    intro s hs
    cases hs with
    | @edge b _ t ht hn =>
        have hb := (hsuccs b (lt_of_mem_succs hn) 1 hn).2 rfl
        subst hb
        rw [hentry t ht]
        rfl
  have htracked := (hmeets 1 24 (by decide) ⟨_, hreach⟩).entry.mpr hevery
  have hfalse := not_tracked_of_pos hsolve (by decide : (1 : Nat) ≠ 0) (by decide : 24 < 32)
  rw [hfalse] at htracked
  cases htracked

end FunctionAnalysis

end Katabasis
