import Katabasis.TsdScan.SeedOrder

set_option autoImplicit false

/-! # The propagation of seeds

Each round but the first has a seed that grew in the round before, and a seed has ten registers to
gain, so the rounds are at most ten for each function start and one more (`rounds_le`).

A propagation that settles ends in the least seeds that are closed under the calls of the functions
it analyses: it stays below any closed seeds (`Within`), and its own seeds are closed when nothing
is pending (`closed_of_settled`). So neither the seeds nor the flagged instructions depend on the
order in which a round goes through the pending functions (`propagation_confluent`).
-/

namespace Katabasis

namespace Seeding

/-- Where a register of a seed comes from. -/
theorem tracked_call {s : Seeding} {site : CallSite} {target r : Nat}
    (h : ((s.call site).seeds target).tracked r = true) :
    (s.seeds target).tracked r = true ∨ (target = site.target ∧ site.resolvable = true ∧
      19 ≤ r ∧ r ≤ 28 ∧ site.tracked r = true) := by
  unfold call at h
  split at h
  case isFalse => exact Or.inl h
  case isTrue hres =>
      by_cases ht : target = site.target
      · subst ht
        simp only [Function.update_self, Registers.receive, Bool.or_eq_true, Bool.and_eq_true,
          decide_eq_true_eq] at h
        rcases h with hold | ⟨⟨h19, h28⟩, hsite⟩
        · exact Or.inl hold
        · exact Or.inr ⟨rfl, hres, h19, h28, hsite⟩
      · simp only [Function.update_of_ne ht] at h
        exact Or.inl h

/-- Why a function is pending. -/
theorem next_call {s : Seeding} {site : CallSite} {target : Nat}
    (h : target ∈ (s.call site).next) :
    target ∈ s.next ∨ (target = site.target ∧ site.resolvable = true ∧ ∃ r, 19 ≤ r ∧ r ≤ 28 ∧
      site.tracked r = true ∧ (s.seeds target).tracked r = false) := by
  unfold call at h
  split at h
  case isFalse => exact Or.inl h
  case isTrue hres =>
      simp only at h
      split at h
      case isFalse => exact Or.inl h
      case isTrue hgrows =>
          rcases List.mem_insert_iff.mp h with rfl | hold
          · obtain ⟨r, hr, hnew⟩ := List.any_eq_true.mp hgrows
            rw [List.mem_range'_1] at hr
            rw [Bool.and_eq_true, Bool.not_eq_true'] at hnew
            exact Or.inr ⟨rfl, hres, r, hr.1, by omega, hnew.1, hnew.2⟩
          · exact Or.inl hold

end Seeding

namespace FunctionAnalysis

/-- A call that is resolved goes to a function. -/
theorem call_target {f : FunctionAnalysis} {seed : Registers} {site : CallSite}
    (hsite : site ∈ (f.result seed).calls) (hres : site.resolvable = true) :
    site.target ∈ f.functionStarts := by
  obtain ⟨mustIn, hsolve⟩ := f.result_calls seed
  have hlog := Worklist.solve_log (Q := fun _ _ => True) (fun _ _ _ _ _ _ _ => trivial) hsolve
    (fun _ => trivial) hsite
  rcases hlog with hnil | ⟨b, s, -, hrecord⟩
  · cases hnil
  · simp only [problem, Bool.false_eq_true, if_false] at hrecord
    cases hb : f.buildBlocks[b]? with
    | none =>
        rw [hb] at hrecord
        cases hrecord
    | some block =>
        rw [hb] at hrecord
        obtain ⟨addr, -, inst, -, -, rfl⟩ := mem_callSites_iff.mp hrecord
        simp only [callSite] at hres ⊢
        obtain ⟨target, htarget⟩ := Option.isSome_iff_exists.mp hres
        rw [htarget, Option.getD_some]
        exact List.contains_iff_mem.mp (Option.filter_eq_some_iff.mp htarget).2

end FunctionAnalysis

namespace Scan

variable {scan : Scan}

/-! ## The rounds -/

/-- How many rounds `propagate` performs. -/
def rounds (scan : Scan) : Nat → Propagation → Nat
  | 0, _ => 0
  | cap + 1, p => if p.seeding.next.isEmpty then 0 else scan.rounds cap (scan.round p) + 1

/-- The registers in the seeds of the functions. -/
def carried (scan : Scan) (s : Seeding) : Finset (Nat × Nat) :=
  (scan.starts.toFinset ×ˢ Finset.Icc 19 28).filter fun x => (s.seeds x.1).tracked x.2 = true

theorem card_carried_le (scan : Scan) (s : Seeding) :
    (scan.carried s).card ≤ 10 * scan.starts.length := by
  calc (scan.carried s).card ≤ (scan.starts.toFinset ×ˢ Finset.Icc 19 28).card :=
        Finset.card_filter_le _ _
    _ = scan.starts.toFinset.card * 10 := by rw [Finset.card_product]; rfl
    _ ≤ 10 * scan.starts.length := by
        have hcard := List.toFinset_card_le scan.starts
        omega

/-- Nothing is lost since the first seeding, and something is new if a function is pending. -/
def Grown (scan : Scan) (first s : Seeding) : Prop :=
  scan.carried first ⊆ scan.carried s ∧ (s.next ≠ [] → scan.carried first ≠ scan.carried s)

theorem grown_call {first s : Seeding} (h : scan.Grown first s) {site : CallSite}
    (htarget : site.resolvable = true → site.target ∈ scan.starts) :
    scan.Grown first (s.call site) := by
  have hkeep : scan.carried s ⊆ scan.carried (s.call site) := by
    intro x hx
    rw [carried, Finset.mem_filter] at hx ⊢
    exact ⟨hx.1, Seeding.call_keeps hx.2 site⟩
  refine ⟨h.1.trans hkeep, fun hnext heq => ?_⟩
  obtain ⟨target, hmem⟩ := List.exists_mem_of_ne_nil _ hnext
  rcases Seeding.next_call hmem with hold | ⟨rfl, hres, r, h19, h28, hsite, hnew⟩
  · -- it was pending before: something was new then
    exact h.2 (List.ne_nil_of_mem hold) (h.1.antisymm (heq ▸ hkeep))
  · have hin : (site.target, r) ∈ scan.carried (s.call site) := by
      rw [carried, Finset.mem_filter, Finset.mem_product, Finset.mem_Icc, List.mem_toFinset]
      refine ⟨⟨htarget hres, h19, h28⟩, ?_⟩
      exact @Seeding.calls_seed [site] site List.mem_cons_self hres r h19 h28 hsite s
    rw [← heq] at hin
    have hold := (Finset.mem_filter.mp (h.1 hin)).2
    rw [hnew] at hold
    cases hold

theorem grown_visit {first : Seeding} {p : Propagation} (h : scan.Grown first p.seeding)
    (start : Nat) : scan.Grown first (scan.visit p start).seeding := by
  cases hat : scan.rangeAt start with
  | none => rwa [visit_none hat]
  | some range =>
      rw [visit_some hat]
      have hcalls : ∀ (calls : List CallSite) (s : Seeding),
          (∀ site ∈ calls, site.resolvable = true → site.target ∈ scan.starts) →
          scan.Grown first s → scan.Grown first (calls.foldl Seeding.call s) := by
        intro calls
        induction calls with
        | nil => exact fun s _ hs => hs
        | cons site rest ih =>
            intro s hsites hs
            exact ih _ (fun other hother => hsites other (List.mem_cons_of_mem _ hother))
              (grown_call hs (hsites site List.mem_cons_self))
      exact hcalls _ _ (fun site hsite => FunctionAnalysis.call_target hsite) h

/-- A round that leaves a function pending has let a seed grow. -/
theorem card_carried_round (p : Propagation) :
    (scan.carried p.seeding).card ≤ (scan.carried (scan.round p).seeding).card ∧
      ((scan.round p).seeding.next ≠ [] →
        (scan.carried p.seeding).card < (scan.carried (scan.round p).seeding).card) := by
  have hvisits : ∀ (todo : List Nat) (q : Propagation), scan.Grown p.seeding q.seeding →
      scan.Grown p.seeding (todo.foldl scan.visit q).seeding := by
    intro todo
    induction todo with
    | nil => exact fun q hq => hq
    | cons start rest ih => exact fun q hq => ih _ (grown_visit hq start)
  obtain ⟨hsubset, hnew⟩ := hvisits (scan.order p.seeding.next)
    { p with seeding := { p.seeding with next := [] } }
    ⟨Finset.Subset.refl _, fun h => absurd rfl h⟩
  exact ⟨Finset.card_le_card hsubset,
    fun hnext => Finset.card_lt_card (hsubset.ssubset_of_ne (hnew hnext))⟩

/-- **The rounds are at most ten for each function start, and one more.** -/
theorem rounds_le (cap : Nat) (p : Propagation) :
    scan.rounds cap p + (scan.carried p.seeding).card ≤ 10 * scan.starts.length + 1 := by
  induction cap generalizing p with
  | zero =>
      have hcard := card_carried_le scan p.seeding
      rw [rounds]
      omega
  | succ cap ih =>
      have hcard := card_carried_le scan p.seeding
      rw [rounds]
      split
      case isTrue => omega
      case isFalse =>
          obtain ⟨hle, hlt⟩ := @card_carried_round scan p
          have hrest := ih (scan.round p)
          by_cases hnext : (scan.round p).seeding.next = []
          · -- nothing is pending: this was the last round
            have hlast : scan.rounds cap (scan.round p) = 0 := by
              cases cap with
              | zero => rfl
              | succ cap => rw [rounds, hnext, List.isEmpty_nil, if_pos rfl]
            omega
          · have hgrown := hlt hnext
            omega

/-! ## Closed seeds -/

/-- Each call of an analysed function hands on registers that its callee's seed has. -/
def Closed (scan : Scan) (seeds : Nat → Registers) : Prop :=
  ∀ start range, scan.Active seeds start → scan.rangeAt start = some range →
    ∀ site ∈ (scan.returned ⟨range, seeds start⟩).calls, site.resolvable = true →
      ∀ r, 19 ≤ r → r ≤ 28 → site.tracked r = true → (seeds site.target).tracked r = true

theorem Active.mono {seeds seeds' : Nat → Registers} (h : ∀ start, (seeds start).Le (seeds' start))
    {start : Nat} (hactive : scan.Active seeds start) : scan.Active seeds' start :=
  hactive.imp id fun ⟨r, hr, ht⟩ => ⟨r, hr, h start r hr ht⟩

/-- The propagation has not gone beyond the seeds. -/
structure Within (scan : Scan) (seeds : Nat → Registers) (p : Propagation) : Prop where
  below : ∀ start, (p.seeding.seeds start).Le (seeds start)
  pending : ∀ start ∈ p.seeding.next, scan.Active seeds start
  runs : ∀ run ∈ p.analysed, scan.Active seeds run.range.start ∧
    run.seed.Le (seeds run.range.start)

theorem within_calls {seeds : Nat → Registers} {calls : List CallSite}
    (hcalls : ∀ site ∈ calls, site.resolvable = true → ∀ r, 19 ≤ r → r ≤ 28 →
      site.tracked r = true → (seeds site.target).tracked r = true) {s : Seeding}
    (hseeds : ∀ start, (s.seeds start).Le (seeds start))
    (hnext : ∀ start ∈ s.next, scan.Active seeds start) :
    (∀ start, ((calls.foldl Seeding.call s).seeds start).Le (seeds start)) ∧
      ∀ start ∈ (calls.foldl Seeding.call s).next, scan.Active seeds start := by
  induction calls generalizing s with
  | nil => exact ⟨hseeds, hnext⟩
  | cons site rest ih =>
      have hsite := hcalls site List.mem_cons_self
      refine ih (fun other hother => hcalls other (List.mem_cons_of_mem _ hother))
        (fun start r hr ht => ?_) fun start hstart => ?_
      · rcases Seeding.tracked_call ht with hold | ⟨rfl, hres, h19, h28, hhands⟩
        · exact hseeds start r hr hold
        · exact hsite hres r h19 h28 hhands
      · rcases Seeding.next_call hstart with hold | ⟨rfl, hres, r, h19, h28, hhands, -⟩
        · exact hnext start hold
        · exact Or.inr ⟨r, by omega, hsite hres r h19 h28 hhands⟩

theorem visit_within {seeds : Nat → Registers} (hclosed : scan.Closed seeds) {p : Propagation}
    (h : scan.Within seeds p) {start : Nat} (hactive : scan.Active seeds start) :
    scan.Within seeds (scan.visit p start) := by
  cases hat : scan.rangeAt start with
  | none => rwa [visit_none hat]
  | some range =>
      have hstart : range.start = start := by simpa using List.find?_some hat
      rw [visit_some hat]
      -- what the smaller seed hands on, the closed seed does
      have hcalls : ∀ site ∈ (scan.returned ⟨range, p.seeding.seeds start⟩).calls,
          site.resolvable = true → ∀ r, 19 ≤ r → r ≤ 28 → site.tracked r = true →
            (seeds site.target).tracked r = true := by
        intro site hsite hres r h19 h28 ht
        obtain ⟨site', hsite', hmore⟩ := FunctionAnalysis.call_mono (h.below start) hsite
        rw [← hmore.target]
        exact hclosed start range hactive hat site' hsite' (hmore.resolvable.trans hres) r h19
          h28 (hmore.tracked r (by omega) ht)
      obtain ⟨hseeds, hnext⟩ := within_calls hcalls h.below h.pending
      refine ⟨hseeds, hnext, fun run hrun => ?_⟩
      rcases List.mem_append.mp hrun with hold | hnew
      · exact h.runs run hold
      · rw [List.mem_singleton.mp hnew, hstart]
        exact ⟨hactive, h.below start⟩

/-- **A propagation stays within closed seeds.** -/
theorem propagate_within (h : scan.Lawful) {seeds : Nat → Registers}
    (hclosed : scan.Closed seeds) (cap : Nat) {p : Propagation} (hp : scan.Within seeds p) :
    scan.Within seeds (scan.propagate cap p).1 := by
  have hvisits : ∀ (todo : List Nat) (q : Propagation), (∀ start ∈ todo, scan.Active seeds start) →
      scan.Within seeds q → scan.Within seeds (todo.foldl scan.visit q) := by
    intro todo
    induction todo with
    | nil => exact fun q _ hq => hq
    | cons start rest ih =>
        intro q htodo hq
        exact ih _ (fun other hother => htodo other (List.mem_cons_of_mem _ hother))
          (visit_within hclosed hq (htodo start List.mem_cons_self))
  induction cap generalizing p with
  | zero => exact hp
  | succ cap ih =>
      rw [propagate]
      split
      case isTrue => exact hp
      case isFalse =>
          have hbefore : scan.Within seeds
              { p with seeding := { p.seeding with next := [] } } :=
            ⟨hp.below, fun _ hnil => absurd hnil List.not_mem_nil, hp.runs⟩
          exact ih (hvisits _ _ (fun start hstart =>
            hp.pending start ((h.order_perm _).mem_iff.mp hstart)) hbefore)

theorem start_within (seeds : Nat → Registers) (violations : List String) :
    scan.Within seeds (scan.start violations) where
  below := fun _ _ _ ht => nomatch ht
  pending := fun _ hstart => Or.inl hstart
  runs := fun _ hrun => nomatch hrun

/-! ## The seeds of a propagation that settles -/

theorem range_of_analysed {before : List String} {p : Propagation} (h : scan.Recorded before p)
    {run : Analysed} (hrun : run ∈ p.analysed) {range : FunctionRange}
    (hat : scan.rangeAt run.range.start = some range) : run.range = range := by
  have hrange := h.range run hrun
  rw [hat] at hrange
  injection hrange with hrange
  exact hrange.symm

/-- **The seeds of a propagation that settles are closed.** -/
theorem closed_of_settled (h : scan.Lawful) {violations : List String}
    (hsettled : (scan.propagated violations).2 = true) :
    scan.Closed (scan.propagated violations).1.seeding.seeds := by
  have hrecorded := scan.propagated_recorded violations
  intro start range hactive hat site hsite hres r h19 h28 ht
  rcases analysed_of_settled h hsettled hactive with hnone | ⟨run, hrun, rfl, hseed⟩
  · rw [hnone] at hat
    cases hat
  · have hrange := range_of_analysed hrecorded hrun hat
    subst hrange
    obtain ⟨site', hsite', hmore⟩ := FunctionAnalysis.call_mono hseed hsite
    rw [← hmore.target]
    exact hrecorded.seeds run hrun site' hsite' (hmore.resolvable.trans hres) r h19 h28
      (hmore.tracked r (by omega) ht)

/-! ## What is flagged -/

/-- A flagged instruction of a function, in the analyses of a propagation. -/
def Flagged (scan : Scan) (p : Propagation) (start addr : Nat) : Prop :=
  ∃ run ∈ p.analysed, run.range.start = start ∧ (scan.analysis run.range).Flags run.seed addr

theorem before_mem_violations (scan : Scan) (violations : List String) :
    ∀ line ∈ violations, line ∈ (scan.propagated violations).1.violations := by
  refine propagate_keeps (I := fun p => ∀ line ∈ violations, line ∈ p.violations)
    (fun p start hp line hline => ?_) (fun p hp => hp) maxRounds fun line hline => hline
  cases hat : scan.rangeAt start with
  | none =>
      rw [visit_none hat]
      exact hp line hline
  | some range =>
      rw [visit_some hat]
      exact List.mem_append_left _ (hp line hline)

/-- The image is accepted if the images before had no line and nothing is flagged. -/
theorem accepted_iff {violations : List String}
    (hsettled : (scan.propagated violations).2 = true) :
    (scan.scanTSDOffsets violations).1 = true ↔
      violations = [] ∧ ∀ start addr, ¬ scan.Flagged (scan.propagated violations).1 start addr := by
  have hrecorded := scan.propagated_recorded violations
  have hbefore := scan.before_mem_violations violations
  have hlines : (scan.scanTSDOffsets violations).1 = true ↔
      ∀ line, line ∉ (scan.propagated violations).1.violations := by
    cases hp : scan.propagated violations with
    | mk p settled =>
        rw [hp] at hsettled
        cases hsettled
        rw [scan_settled hp]
        simp only [List.isEmpty_iff, List.eq_nil_iff_forall_not_mem, List.mem_insertionSort,
          List.mem_dedup]
  rw [hlines]
  constructor
  · intro hnone
    refine ⟨List.eq_nil_iff_forall_not_mem.mpr fun line hline => hnone line (hbefore line hline),
      ?_⟩
    rintro start addr ⟨run, hrun, -, line, hline, -⟩
    exact hnone line (hrecorded.lines run hrun line hline)
  · rintro ⟨rfl, hnone⟩ line hline
    rcases hrecorded.source line hline with hnil | ⟨run, hrun, hmem⟩
    · cases hnil
    · obtain ⟨addr, hflags⟩ := FunctionAnalysis.flags_of_mem hmem
      exact hnone _ addr ⟨run, hrun, rfl, hflags⟩

/-! ## The order of the rounds -/

/-- The scan with another order of the pending sets. -/
def withOrder (scan : Scan) (order : List Nat → List Nat) : Scan := { scan with order }

theorem withOrder_lawful (h : scan.Lawful) {order : List Nat → List Nat}
    (horder : ∀ starts, (order starts).Perm starts) : (scan.withOrder order).Lawful :=
  ⟨h.perm, h.sorted, horder⟩

/-- What one order has, every other has: its seeds, its analyses and its flagged instructions. -/
theorem order_le (h : scan.Lawful) {order : List Nat → List Nat}
    (horder : ∀ starts, (order starts).Perm starts) {violations : List String}
    (hsettled : ((scan.withOrder order).propagated violations).2 = true) :
    (∀ start, ((scan.propagated violations).1.seeding.seeds start).Le
      (((scan.withOrder order).propagated violations).1.seeding.seeds start)) ∧
    ∀ start addr, scan.Flagged (scan.propagated violations).1 start addr →
      scan.Flagged ((scan.withOrder order).propagated violations).1 start addr := by
  have hother := withOrder_lawful h horder
  -- the seeds of the other order are closed, so this order stays within them
  have hclosed : scan.Closed ((scan.withOrder order).propagated violations).1.seeding.seeds :=
    closed_of_settled hother hsettled
  have hwithin : scan.Within _ (scan.propagated violations).1 :=
    propagate_within h hclosed maxRounds (start_within _ violations)
  refine ⟨hwithin.below, ?_⟩
  rintro start addr ⟨run, hrun, rfl, hflags⟩
  obtain ⟨hactive, hseed⟩ := hwithin.runs run hrun
  have hat := (scan.propagated_recorded violations).range run hrun
  rcases analysed_of_settled hother hsettled hactive with hnone | ⟨run', hrun', hstart, hseed'⟩
  · have hnone' : scan.rangeAt run.range.start = none := hnone
    rw [hat] at hnone'
    cases hnone'
  · have hrange : run'.range = run.range :=
      range_of_analysed ((scan.withOrder order).propagated_recorded violations) hrun'
        (by rw [hstart]; exact hat)
    refine ⟨run', hrun', hstart, ?_⟩
    rw [hrange]
    exact FunctionAnalysis.flags_mono (hseed.trans hseed') hflags

/-- **The propagation of seeds is bounded, and does not depend on the order** in which the rounds
go through the pending sets: neither do the seeds, nor the flagged instructions, nor whether the
image is accepted. What is flagged with an earlier seed is flagged with the last. -/
theorem propagation_confluent (scan : Scan) (h : scan.Lawful) (violations : List String) :
    (∀ cap, scan.rounds cap (scan.start violations) ≤ 10 * scan.starts.length + 1) ∧
    ((scan.propagated violations).2 = true →
      (∀ run ∈ (scan.propagated violations).1.analysed, ∀ addr,
        (scan.analysis run.range).Flags run.seed addr → (scan.analysis run.range).Flags
          ((scan.propagated violations).1.seeding.seeds run.range.start) addr) ∧
      ∀ order : List Nat → List Nat, (∀ starts, (order starts).Perm starts) →
        ((scan.withOrder order).propagated violations).2 = true →
          (∀ start, ∀ r < 32, ((scan.propagated violations).1.seeding.seeds start).tracked r
            = (((scan.withOrder order).propagated violations).1.seeding.seeds start).tracked r) ∧
          (∀ start addr, scan.Flagged (scan.propagated violations).1 start addr ↔
            scan.Flagged ((scan.withOrder order).propagated violations).1 start addr) ∧
          (scan.scanTSDOffsets violations).1
            = ((scan.withOrder order).scanTSDOffsets violations).1) := by
  refine ⟨fun cap => ?_, fun hsettled => ⟨fun run hrun addr hflags => ?_,
    fun order horder hsettled' => ?_⟩⟩
  · have hrounds := @rounds_le scan cap (scan.start violations)
    omega
  · have hwithin : scan.Within _ (scan.propagated violations).1 :=
      propagate_within h (closed_of_settled h hsettled) maxRounds (start_within _ violations)
    exact FunctionAnalysis.flags_mono (hwithin.runs run hrun).2 hflags
  · -- the seeds of each order are within those of the other
    obtain ⟨hseeds, hflagged⟩ := order_le h horder hsettled'
    obtain ⟨hseeds', hflagged'⟩ :=
      @order_le _ (withOrder_lawful h horder) _ h.order_perm violations hsettled
    have hiff : ∀ start addr, scan.Flagged (scan.propagated violations).1 start addr ↔
        scan.Flagged ((scan.withOrder order).propagated violations).1 start addr :=
      fun start addr => ⟨hflagged start addr, hflagged' start addr⟩
    refine ⟨fun start r hr => ?_, hiff, ?_⟩
    · rw [Bool.eq_iff_iff]
      exact ⟨hseeds start r hr, hseeds' start r hr⟩
    · rw [Bool.eq_iff_iff, accepted_iff hsettled, accepted_iff hsettled']
      apply and_congr_right
      intro _
      exact forall_congr' fun start => forall_congr' fun addr => not_congr (hiff start addr)

/-- A propagation of fewer rounds than it may have settles. -/
theorem settled_of_rounds_lt (cap : Nat) (p : Propagation) (h : scan.rounds cap p < cap) :
    (scan.propagate cap p).2 = true := by
  induction cap generalizing p with
  | zero => exact absurd h (Nat.lt_irrefl 0)
  | succ cap ih =>
      rw [rounds] at h
      rw [propagate]
      split
      case isTrue => rfl
      case isFalse hnext =>
          rw [if_neg hnext] at h
          exact ih _ (Nat.lt_of_succ_lt_succ h)

/-- An image with few functions settles. -/
theorem settled_of_starts (violations : List String) (h : 10 * scan.starts.length + 1 < maxRounds) :
    (scan.propagated violations).2 = true := by
  have hrounds := @rounds_le scan maxRounds (scan.start violations)
  rw [propagated_eq]
  apply settled_of_rounds_lt
  omega

/-! ## Two readers of one function -/

/-- `mrs x24, TPIDRRO_EL0` or `mrs x25, TPIDRRO_EL0`, the calls at 0x1004 and 0x100c, and `ret`. -/
def callersDecode (word : UInt32) : Inst :=
  if word = 0xd53bd078 then { op := .mrs, rd := 24, imm := tpidrroEl0 }
  else if word = 0xd53bd079 then { op := .mrs, rd := 25, imm := tpidrroEl0 }
  else if word = 0x94000003 then { op := .bl, offset := 12 }
  else if word = 0x94000001 then { op := .bl, offset := 4 }
  else { op := .ret }

/-- Two functions that call a third, and one behind it. -/
def callersText : List UInt8 :=
  [0x78, 0xd0, 0x3b, 0xd5, 0x03, 0x00, 0x00, 0x94, 0x79, 0xd0, 0x3b, 0xd5,
    0x01, 0x00, 0x00, 0x94, 0xc0, 0x03, 0x5f, 0xd6, 0xc0, 0x03, 0x5f, 0xd6]

def callersScan : Scan where
  image :=
    { path := "guest"
      segments := [{ name := "__TEXT", vmaddr := 0x1000, vmsize := 24, filesize := 24 }]
      sections := [{ segname := "__TEXT", sectname := "__text", addr := 0x1000, size := 24,
                     flags := 0x80000400 }]
      functions := [0x1000, 0x1008, 0x1010, 0x1014]
      data := callersText }
  decode := callersDecode
  opcode := fun _ => 0
  sort := fun ranges => ranges.insertionSort fun a b => a.start ≤ b.start
  order := fun starts => starts

theorem code_callersScan : callersScan.code =
    [{ addr := 0x1000
       size := 24
       insts := [{ op := .mrs, rd := 24, imm := tpidrroEl0 }, { op := .bl, offset := 12 },
        { op := .mrs, rd := 25, imm := tpidrroEl0 }, { op := .bl, offset := 4 }, { op := .ret },
        { op := .ret }] }] := by
  have hbytes : callersScan.image.readBytes (callersScan.image.host 0x1000) 24
      = some callersText := by
    rw [Image.readBytes, Image.host_sub_slide]
    rfl
  have hwords : rawWords callersText 6
      = [0xd53bd078, 0x94000003, 0xd53bd079, 0x94000001, 0xd65f03c0, 0xd65f03c0] := by decide
  rw [code, show callersScan.image.sections = [_] from rfl, List.filterMap_cons, decodeSection,
    if_neg (by decide), if_neg (by decide), hbytes, Option.map_some,
    show (24 : UInt64).toNat / 4 % 2 ^ 32 = 6 by decide, hwords]
  rfl

/-- Both callers are pending in the first round, which may go through them either way. -/
theorem propagation_confluent_callers :
    callersScan.stable.initialPending = [0x1000, 0x1008] ∧
      (callersScan.stable.scanTSDOffsets []).1
        = ((callersScan.stable.withOrder List.reverse).scanTSDOffsets []).1 := by
  have hpending : callersScan.stable.initialPending = [0x1000, 0x1008] := by
    have hcode : callersScan.stable.code = _ := code_callersScan
    simp only [initialPending, ranges, unsortedRanges, hcode]
    decide
  have hconfluent := propagation_confluent callersScan.stable (stable_lawful _) []
  have hstarts : 10 * callersScan.stable.starts.length + 1 < maxRounds := by decide
  exact ⟨hpending, ((hconfluent.2 (settled_of_starts [] hstarts)).2 List.reverse
    (fun starts => List.reverse_perm starts) (settled_of_starts [] hstarts)).2.2⟩

end Scan

end Katabasis
