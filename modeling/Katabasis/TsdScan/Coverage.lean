import Katabasis.TsdScan.Scan
import Katabasis.Lib.Words

set_option autoImplicit false

/-! # The functions the scan covers

A function is covered if the scan analyses it: with the seed its callers hand it, and so that an
access in its first two instructions is reported.

The ranges are built from each start and the next one (`rangeAt_isSome_iff`), so the highest
start of an image has none. The tail ranges do not help it: they are added to starts that have a
range already, up to the end of their section. `scan_covers_iff`: the functions covered are those
with another start above them.
-/

namespace Katabasis

namespace FunctionAnalysis

/-! ## The lines -/

theorem hex_unique {a b : List Char} {m n : Nat} (h : a ++ (hex m).toList = b ++ (hex n).toList) :
    a = b ∧ m = n := by
  have hhex : ∀ k, (hex k).toList = '0' :: 'x' :: Nat.toDigits 16 k := fun k => by simp [hex]
  rw [hhex, hhex, List.append_cons, List.append_cons b] at h
  have hdigits : ∀ k, ∀ c ∈ Nat.toDigits 16 k, (c != 'x') = true := fun k c hc => by
    simpa using Words.ne_of_mem_toDigits (by decide) hc
  obtain ⟨hfront, hrest⟩ := Words.last_word_unique (hdigits m) (hdigits n) rfl rfl h
  rw [List.append_assoc, List.append_assoc] at hfront
  exact ⟨List.append_cancel_right hfront, Words.toDigits_injective hrest⟩

/-- **A line names its access.** -/
theorem accessViolation_addr {f g : FunctionAnalysis} {a m o a' m' o' : Nat}
    (h : f.accessViolation a m o = g.accessViolation a' m' o') : a = a' := by
  have htext := congrArg String.toList h
  simp only [accessViolation, String.toList_append] at htext
  have hoffset := (hex_unique (List.append_cancel_right htext)).1
  have hmrs := (hex_unique (List.append_cancel_right hoffset)).1
  exact (hex_unique (List.append_cancel_right hmrs)).2

theorem accessViolation_last (f : FunctionAnalysis) (a m o : Nat) :
    (f.accessViolation a m o).toList.getLast? = some 't' := by
  rw [accessViolation, String.toList_append, List.getLast?_append]
  rfl

theorem useViolation_last (f : FunctionAnalysis) (a m : Nat) (op : Op) :
    (f.useViolation a m op).toList.getLast? = some 's' := by
  rw [useViolation, String.toList_append, List.getLast?_append]
  rfl

variable {f : FunctionAnalysis}

/-- Every line is about an instruction of the range. -/
theorem mem_reportInst_addr {a : Nat} {inst : Inst} {state certain : Registers} {line : String}
    (h : line ∈ f.reportInst a inst state certain) :
    (∃ m o, line = f.accessViolation a m o) ∨ ∃ m op, line = f.useViolation a m op := by
  unfold reportInst at h
  split at h
  · cases h
  · obtain ⟨r, -, hr⟩ := List.mem_flatMap.mp h
    split_ifs at hr
    · cases hr
    · cases hr
    · exact Or.inl ⟨_, _, List.mem_singleton.mp hr⟩
    · exact Or.inr ⟨_, _, List.mem_singleton.mp hr⟩
    · cases hr

/-- The lines of a function, from the two fixpoints. -/
theorem mem_violations_iff (f : FunctionAnalysis) (seed : Registers) :
    ∃ mayIn log mustIn calls, f.solve true f.buildBlocks seed = some (mayIn, log) ∧
      f.solve false f.buildBlocks seed = some (mustIn, calls) ∧
      ∀ line, line ∈ (f.result seed).violations ↔ ∃ i block,
        f.buildBlocks[i]? = some block ∧ line ∈ f.report block (mayIn i) (mustIn i) := by
  obtain ⟨mayIn, log, mustIn, calls, result, hmay, hmust, hresult, hlines⟩ := f.analyse_spec seed
  refine ⟨mayIn, log, mustIn, calls, hmay, hmust, ?_⟩
  rw [FunctionAnalysis.result, hresult]
  exact hlines

/-- The line of an access comes from an instruction of the range. -/
theorem access_in_range {seed : Registers} {g : FunctionAnalysis} {a m o : Nat}
    (h : g.accessViolation a m o ∈ (f.result seed).violations) :
    f.range.start ≤ a ∧ a + 4 ≤ f.range.stop := by
  obtain ⟨mayIn, log, mustIn, calls, -, -, hlines⟩ := f.mem_violations_iff seed
  obtain ⟨i, block, -, hreport⟩ := (hlines _).mp h
  obtain ⟨a', -, inst, hi, hline⟩ := mem_report_iff.mp hreport
  rcases mem_reportInst_addr hline with ⟨m', o', hacc⟩ | ⟨m', op, huse⟩
  · rw [accessViolation_addr hacc]
    exact fetch_range hi
  · have hlast := congrArg (fun line => line.toList.getLast?) huse
    simp only [accessViolation_last, useViolation_last] at hlast
    cases hlast

/-! ## The first two instructions -/

/-- `mrs` of the base into a register. -/
theorem step_readsBase {s : Registers} {a : Nat} {inst : Inst}
    (h : Scan.readsBase inst = true) : (s.step a inst).tracked inst.rd = true := by
  simp only [Scan.readsBase, Bool.and_eq_true, beq_iff_eq, bne_iff_ne, ne_eq] at h
  obtain ⟨⟨hop, himm⟩, hrd⟩ := h
  simp [Registers.step, Registers.mrs, hop, himm, hrd]

theorem fetch_readsBase {a : Nat} {inst : Inst} (hi : f.instAt a = some inst)
    (h : Scan.readsBase inst = true) : f.fetch a = some inst := by
  simp only [Scan.readsBase, Bool.and_eq_true, beq_iff_eq] at h
  rw [fetch, hi, Option.filter_some, h.1.1]
  rfl

theorem fetch_access {a r : Nat} {inst : Inst} (hi : f.instAt a = some inst)
    (h : fixedOffsetAccess inst r = true) : f.fetch a = some inst := by
  simp only [fixedOffsetAccess, Bool.and_eq_true, Bool.or_eq_true, beq_iff_eq] at h
  rcases h.1.1 with hop | hop
  · rw [fetch, hi, Option.filter_some, hop]
    rfl
  · rw [fetch, hi, Option.filter_some, hop]
    rfl

/-- The first instruction of a function, where it reads the base, falls through into the second:
they share a block, or their blocks share an edge. -/
theorem opening_tracked (h4 : f.range.start % 4 = 0) (h8 : f.range.start + 8 ≤ f.range.stop)
    {first : Inst} (hfirst : f.fetch f.range.start = some first)
    (hreads : Scan.readsBase first = true) (hr : first.rd < 32) {mayIn : Nat → Registers}
    (hm : Worklist.Settled Registers.Le (f.problem true f.buildBlocks) mayIn []) :
    ∃ (i : Nat) (block : Block), f.IsBlock i block ∧ block.start ≤ f.range.start + 4 ∧
      f.range.start + 4 < block.stop ∧ (f.range.start + 4 - block.start) % 4 = 0 ∧
      (f.run block.start (f.range.start + 4) (mayIn i)).tracked first.rd = true := by
  have hne : f.range.start < f.range.stop := by omega
  have hhead := leaders_head h4 hne
  obtain ⟨block, hblock⟩ := isBlock_of_lt (List.getElem?_eq_some_iff.mp hhead).1
  have hstart : block.start = f.range.start := by
    have hget := hblock.start
    rw [hhead, Option.some.injEq] at hget
    exact hget.symm
  have hrun : (f.run block.start (f.range.start + 4) (mayIn 0)).tracked first.rd = true := by
    rw [hstart, run_succ (Nat.le_refl _) (by omega) hfirst]
    exact step_readsBase hreads
  -- the second leader is a whole instruction further on, or more
  have hstop : block.stop ∈ f.leaders ∧ block.stop = f.range.start + 4 ∨
      f.range.start + 4 < block.stop := by
    rw [hblock.stop]
    cases hl : f.leaders[0 + 1]? with
    | none =>
        right
        rw [Option.getD_none]
        omega
    | some l =>
        rw [Option.getD_some]
        have hmem := List.mem_of_getElem? hl
        have hbounds := leader_bounds h4 hne hmem
        have hlt := List.pairwise_iff_getElem.mp (leaders_sorted (f := f)) 0 1
          (List.getElem?_eq_some_iff.mp hhead).1 (List.getElem?_eq_some_iff.mp hl).1 Nat.zero_lt_one
        rw [(List.getElem?_eq_some_iff.mp hhead).2, (List.getElem?_eq_some_iff.mp hl).2] at hlt
        by_cases hnext : l = f.range.start + 4
        · exact Or.inl ⟨hmem, hnext⟩
        · right
          omega
  rcases hstop with ⟨hleader, hstop⟩ | hstop
  · have hop : first.op = .mrs := by
      simp only [Scan.readsBase, Bool.and_eq_true, beq_iff_eq] at hreads
      exact hreads.1.1
    have hi : f.fetch (block.stop - 4) = some first := by
      rw [hstop]
      exact hfirst
    have hedge := stop_mem_edges hi (by rw [resumes, hop]) (by rw [hop]; decide)
      (by rw [hop]; decide)
    obtain ⟨j, next, hj, hnext, hto⟩ := hblock.mem_succs (by omega) hedge hleader
    have hzero : 0 < f.buildBlocks.length := by
      rw [length_buildBlocks]
      exact hblock.index
    have hsettled := hm 0 hzero (by simp) j (by simpa [problem, hblock.get] using hj) first.rd hr
    simp only [problem, hblock.get, Option.map_some, Option.getD_some] at hsettled
    refine ⟨j, next, hnext, by omega, ?_, by omega, ?_⟩
    · -- no block ends in front of the second instruction but the first
      rw [← hstop, ← hto, hnext.stop]
      cases hl : f.leaders[j + 1]? with
      | none =>
          rw [Option.getD_none]
          omega
      | some l =>
          have hlt := List.pairwise_iff_getElem.mp (leaders_sorted (f := f)) j (j + 1)
            hnext.index (List.getElem?_eq_some_iff.mp hl).1 (Nat.lt_succ_self j)
          rw [(List.getElem?_eq_some_iff.mp hnext.start).2,
            (List.getElem?_eq_some_iff.mp hl).2] at hlt
          exact hlt
    · rw [← hstop, ← hto, run, addresses_of_le (Nat.le_refl _)]
      refine hsettled ?_
      rw [transfer, hstop]
      exact hrun
  · exact ⟨0, block, hblock, by omega, hstop, by omega, hrun⟩

/-- **An access in the second instruction is reported**, whatever the seed. -/
theorem opening_reported (h4 : f.range.start % 4 = 0) (h8 : f.range.start + 8 ≤ f.range.stop)
    {first inst : Inst} (hfirst : f.fetch f.range.start = some first)
    (hreads : Scan.readsBase first = true) (hr : first.rd < 31)
    (hi : f.fetch (f.range.start + 4) = some inst)
    (hacc : fixedOffsetAccess inst first.rd = true)
    (hoff : isAllowedOffset (accessOffset inst) = false) (seed : Registers) :
    ∃ mrsAt, f.accessViolation (f.range.start + 4) mrsAt (accessOffset inst)
      ∈ (f.result seed).violations := by
  obtain ⟨mayIn, log, mustIn, calls, hmay, -, hlines⟩ := f.mem_violations_iff seed
  obtain ⟨i, block, hblock, h1, h2, hd, ht⟩ :=
    opening_tracked h4 h8 hfirst hreads (by omega) (settled_may hmay).1
  exact ⟨_, (hlines _).mpr ⟨i, block, hblock.get,
    mem_report h1 hd h2 hi hr ht hacc hoff⟩⟩

end FunctionAnalysis

namespace Scan

/-! ## The ranges -/

theorem mem_boundedRanges {code : Code} {l : List Nat} (hl : l.Pairwise (· < ·))
    {range : FunctionRange} (h : range ∈ boundedRanges code l) :
    range.start ∈ l ∧ range.stop ∈ l ∧ range.start < range.stop ∧
      (∀ next ∈ l, range.start < next → range.stop ≤ next) ∧
      (code.instAt range.start).isSome := by
  induction l with
  | nil => cases h
  | cons start rest ih =>
      cases rest with
      | nil => cases h
      | cons next rest =>
          obtain ⟨hfirst, hrest⟩ := List.pairwise_cons.mp hl
          have hold : range ∈ boundedRanges code (next :: rest) → _ := fun hmem => ih hrest hmem
          unfold boundedRanges at h
          -- a range of the first start, which is bounded by the second, or one of the rest
          have hcases : (range = ⟨start, next⟩ ∧ (code.instAt start).isSome = true) ∨
              range ∈ boundedRanges code (next :: rest) := by
            split at h
            case isTrue hat => exact (List.mem_cons.mp h).imp (fun heq => ⟨heq, hat⟩) id
            case isFalse => exact Or.inr h
          rcases hcases with ⟨rfl, hat⟩ | hmem
          · refine ⟨List.mem_cons_self, List.mem_cons_of_mem _ List.mem_cons_self,
              hfirst next List.mem_cons_self, fun n hn hlt => ?_, hat⟩
            rcases List.mem_cons.mp hn with rfl | hn
            · exact absurd hlt (Nat.lt_irrefl _)
            · rcases List.mem_cons.mp hn with rfl | hn
              · exact Nat.le_refl _
              · exact ((List.pairwise_cons.mp hrest).1 n hn).le
          · obtain ⟨h1, h2, h3, h4, h5⟩ := hold hmem
            refine ⟨List.mem_cons_of_mem _ h1, List.mem_cons_of_mem _ h2, h3, fun n hn hlt => ?_,
              h5⟩
            rcases List.mem_cons.mp hn with rfl | hn
            · exact absurd hlt (Nat.lt_asymm (hfirst _ h1))
            · exact h4 n hn hlt

/-- A start below another one has its range. -/
theorem exists_boundedRange {code : Code} {l : List Nat} (hl : l.Pairwise (· < ·))
    {start next : Nat} (hstart : start ∈ l) (hnext : next ∈ l) (hlt : start < next)
    (hat : (code.instAt start).isSome = true) :
    ∃ stop, ⟨start, stop⟩ ∈ boundedRanges code l := by
  induction l with
  | nil => cases hstart
  | cons first rest ih =>
      obtain ⟨hfirst, hrest⟩ := List.pairwise_cons.mp hl
      cases rest with
      | nil =>
          rw [List.mem_singleton.mp hstart, List.mem_singleton.mp hnext] at hlt
          exact absurd hlt (Nat.lt_irrefl _)
      | cons second rest =>
          unfold boundedRanges
          rcases List.mem_cons.mp hstart with rfl | hmem
          · rw [if_pos hat]
            exact ⟨second, List.mem_cons_self⟩
          · -- the start is behind the first one, and so is the one above it
            have hbelow : next ∈ second :: rest := by
              rcases List.mem_cons.mp hnext with rfl | hn
              · exact absurd hlt (Nat.lt_asymm (hfirst _ hmem))
              · exact hn
            obtain ⟨stop, hstop⟩ := ih hrest hmem hbelow
            refine ⟨stop, ?_⟩
            split
            case isTrue => exact List.mem_cons_of_mem _ hstop
            case isFalse => exact hstop

/-- The last start in a section is a range's. -/
theorem lastStart_eq (ranges : List FunctionRange) (sec : CodeSection) :
    lastStart ranges sec = 0 ∨ ∃ range ∈ ranges, range.start = lastStart ranges sec ∧
      sec.addr ≤ range.start ∧ range.start < sec.addr + sec.size := by
  induction ranges using List.reverseRecOn with
  | nil => exact Or.inl rfl
  | append_singleton ranges range ih =>
      rw [lastStart, List.foldl_append, List.foldl_cons, List.foldl_nil]
      change (if _ then _ else lastStart ranges sec) = 0 ∨ _
      split
      case isTrue hin => exact Or.inr ⟨range, by simp, rfl, hin.1, hin.2⟩
      case isFalse =>
          refine ih.imp id fun hmem => ?_
          obtain ⟨r, hr, hstart, hin⟩ := hmem
          exact ⟨r, List.mem_append_left _ hr, hstart, hin⟩

/-- A range is a bounded one, or the tail of its section from the start of a bounded one. -/
theorem mem_addTails {secs : List CodeSection} {bounded : List FunctionRange}
    {range : FunctionRange} (h : range ∈ secs.foldl addTail bounded) :
    (∃ r ∈ bounded, r.start = range.start) ∧ (range ∈ bounded ∨ ∃ sec ∈ secs,
      range.stop = sec.addr + sec.size ∧ sec.addr ≤ range.start ∧ range.start < range.stop) := by
  induction secs using List.reverseRecOn generalizing range with
  | nil => exact ⟨⟨range, h, rfl⟩, Or.inl h⟩
  | append_singleton secs sec ih =>
      rw [List.foldl_append, List.foldl_cons, List.foldl_nil] at h
      -- the sections from the last: what the earlier ones have left stays
      have hold : range ∈ secs.foldl addTail bounded → (∃ r ∈ bounded, r.start = range.start) ∧
          (range ∈ bounded ∨ ∃ s ∈ secs ++ [sec], range.stop = s.addr + s.size ∧
            s.addr ≤ range.start ∧ range.start < range.stop) := fun hmem => by
        obtain ⟨hstart, hkind⟩ := ih hmem
        refine ⟨hstart, hkind.imp id fun hsec => ?_⟩
        obtain ⟨s, hs, hrest⟩ := hsec
        exact ⟨s, List.mem_append_left _ hs, hrest⟩
      unfold addTail at h
      simp only at h
      split at h
      -- the tail of the section starts where an earlier range does
      case isTrue hlast =>
          rcases List.mem_append.mp h with hmem | hnew
          · exact hold hmem
          · rw [List.mem_singleton.mp hnew]
            rcases lastStart_eq (secs.foldl addTail bounded) sec with hzero | ⟨r, hr, heq, hin⟩
            · exact absurd hzero hlast.1
            · obtain ⟨⟨b, hb, hstart⟩, -⟩ := ih hr
              exact ⟨⟨b, hb, hstart.trans heq⟩,
                Or.inr ⟨sec, by simp, rfl, heq ▸ hin.1, heq ▸ hin.2⟩⟩
      case isFalse => exact hold h

/-- The bounded ranges come first. -/
theorem bounded_isPrefix_addTails (secs : List CodeSection) (bounded : List FunctionRange) :
    bounded <+: secs.foldl addTail bounded := by
  induction secs generalizing bounded with
  | nil => exact List.prefix_refl _
  | cons sec rest ih =>
      rw [List.foldl_cons]
      refine List.IsPrefix.trans ?_ (ih _)
      unfold addTail
      simp only
      split
      case isTrue => exact List.prefix_append _ _
      case isFalse => exact List.prefix_refl _

variable {scan : Scan}

theorem starts_sorted (scan : Scan) : scan.starts.Pairwise (· < ·) := by
  have hsorted : scan.starts.Pairwise (· ≤ ·) := List.pairwise_insertionSort _ _
  have hnodup : scan.starts.Nodup :=
    (List.perm_insertionSort _ _).nodup_iff.mpr (List.nodup_dedup _)
  exact (hsorted.and hnodup).imp fun hlt => Nat.lt_of_le_of_ne hlt.1 hlt.2

theorem mem_ranges (h : scan.Lawful) {range : FunctionRange} :
    range ∈ scan.ranges ↔ range ∈ scan.unsortedRanges := (h.perm _).mem_iff

theorem rangeAt_mem (h : scan.Lawful) {start : Nat} {range : FunctionRange}
    (hat : scan.rangeAt start = some range) :
    range ∈ scan.unsortedRanges ∧ range.start = start := by
  refine ⟨(mem_ranges h).mp (List.mem_of_find?_eq_some hat), ?_⟩
  simpa using List.find?_some hat

/-- **Which starts have a range**: those in a decoded section with another start above them. -/
theorem rangeAt_isSome_iff (h : scan.Lawful) {start : Nat} :
    (scan.rangeAt start).isSome ↔ start ∈ scan.starts ∧ (scan.code.instAt start).isSome ∧
      ∃ next ∈ scan.starts, start < next := by
  constructor
  · intro hsome
    obtain ⟨range, hat⟩ := Option.isSome_iff_exists.mp hsome
    obtain ⟨hmem, rfl⟩ := rangeAt_mem h hat
    obtain ⟨⟨r, hr, hstart⟩, -⟩ := mem_addTails hmem
    obtain ⟨h1, h2, h3, -, h5⟩ := mem_boundedRanges scan.starts_sorted hr
    rw [hstart] at h1 h3 h5
    exact ⟨h1, h5, r.stop, h2, h3⟩
  · rintro ⟨hstart, hat, next, hnext, hlt⟩
    obtain ⟨stop, hmem⟩ := exists_boundedRange scan.starts_sorted hstart hnext hlt hat
    rw [rangeAt, List.find?_isSome]
    exact ⟨_, (mem_ranges h).mpr ((bounded_isPrefix_addTails _ _).subset hmem), by simp⟩

/-! ## The propagation -/

/-- What one visit and the start of a round keep, the propagation keeps. -/
theorem propagate_keeps {I : Propagation → Prop} (hvisit : ∀ p start, I p → I (scan.visit p start))
    (hnext : ∀ p : Propagation, I p → I { p with seeding := { p.seeding with next := [] } })
    (rounds : Nat) {p : Propagation} (h : I p) : I (scan.propagate rounds p).1 := by
  have hvisits : ∀ (starts : List Nat) (p : Propagation), I p → I (starts.foldl scan.visit p) := by
    intro starts
    induction starts with
    | nil => exact fun p hp => hp
    | cons start rest ih => exact fun p hp => ih _ (hvisit p start hp)
  induction rounds generalizing p with
  | zero => exact h
  | succ rounds ih =>
      rw [propagate]
      split
      case isTrue => exact h
      case isFalse => exact ih (hvisits _ _ (hnext p h))

/-- What a run of the analysis returned. -/
def returned (scan : Scan) (run : Analysed) : FunctionAnalysis.FunctionResult :=
  (scan.analysis run.range).result run.seed

theorem visit_none {p : Propagation} {start : Nat} (hat : scan.rangeAt start = none) :
    scan.visit p start = p := by
  rw [visit, hat]

theorem visit_some {p : Propagation} {start : Nat} {range : FunctionRange}
    (hat : scan.rangeAt start = some range) :
    scan.visit p start =
      { seeding := (scan.returned ⟨range, p.seeding.seeds start⟩).calls.foldl Seeding.call
          p.seeding
        violations := p.violations ++ (scan.returned ⟨range, p.seeding.seeds start⟩).violations
        analysed := p.analysed ++ [⟨range, p.seeding.seeds start⟩] } := by
  rw [visit, hat]
  rfl

/-- The record of the runs agrees with the ranges, the lines and the seeds. -/
structure Recorded (scan : Scan) (before : List String) (p : Propagation) : Prop where
  range : ∀ run ∈ p.analysed, scan.rangeAt run.range.start = some run.range
  lines : ∀ run ∈ p.analysed, ∀ line ∈ (scan.returned run).violations, line ∈ p.violations
  source : ∀ line ∈ p.violations, line ∈ before ∨
    ∃ run ∈ p.analysed, line ∈ (scan.returned run).violations
  seeds : ∀ run ∈ p.analysed, ∀ site ∈ (scan.returned run).calls, site.resolvable = true →
    ∀ r, 19 ≤ r → r ≤ 28 → site.tracked r = true →
      (p.seeding.seeds site.target).tracked r = true

theorem Recorded.append {before : List String} {p : Propagation} (h : scan.Recorded before p)
    {run : Analysed} (hat : scan.rangeAt run.range.start = some run.range) :
    scan.Recorded before
      { seeding := (scan.returned run).calls.foldl Seeding.call p.seeding
        violations := p.violations ++ (scan.returned run).violations
        analysed := p.analysed ++ [run] } := by
  -- a run of before, or the last one
  have hlast : ∀ other : Analysed, other ∈ p.analysed ++ [run] → other ∈ p.analysed ∨ other = run :=
    fun other hother => (List.mem_append.mp hother).imp id List.mem_singleton.mp
  constructor
  case range =>
      intro other hother
      rcases hlast other hother with hold | rfl
      · exact h.range other hold
      · exact hat
  case lines =>
      intro other hother line hline
      rcases hlast other hother with hold | rfl
      · exact List.mem_append_left _ (h.lines other hold line hline)
      · exact List.mem_append_right _ hline
  case source =>
      intro line hline
      rcases List.mem_append.mp hline with hold | hnew
      · refine (h.source line hold).imp id fun hrun => ?_
        obtain ⟨other, hother, hmem⟩ := hrun
        exact ⟨other, List.mem_append_left _ hother, hmem⟩
      · exact Or.inr ⟨run, List.mem_append_right _ (List.mem_singleton_self _), hnew⟩
  case seeds =>
      intro other hother site hsite hres r h19 h28 ht
      dsimp only
      rcases hlast other hother with hold | rfl
      · exact Seeding.calls_keep (h.seeds other hold site hsite hres r h19 h28 ht) _
      · exact Seeding.calls_seed hsite hres h19 h28 ht _

theorem visit_recorded {before : List String} (p : Propagation) (start : Nat)
    (h : scan.Recorded before p) : scan.Recorded before (scan.visit p start) := by
  cases hat : scan.rangeAt start with
  | none => rwa [visit_none hat]
  | some range =>
      have hstart : range.start = start := by simpa using List.find?_some hat
      rw [visit_some hat]
      exact h.append (by rw [hstart]; exact hat)

theorem propagated_recorded (scan : Scan) (violations : List String) :
    scan.Recorded violations (scan.propagated violations).1 :=
  propagate_keeps visit_recorded (fun _ h => ⟨h.range, h.lines, h.source, h.seeds⟩) _
    ⟨fun _ hrun => (nomatch hrun), fun _ hrun => (nomatch hrun), fun _ hline => Or.inl hline,
      fun _ hrun => (nomatch hrun)⟩

/-- The function was analysed with the register in its seed. -/
def AnalysedWith (p : Propagation) (start r : Nat) : Prop :=
  ∃ run ∈ p.analysed, run.range.start = start ∧ run.seed.tracked r = true

/-- The state before the first round. -/
def start (scan : Scan) (violations : List String) : Propagation where
  seeding := { next := scan.initialPending }
  violations := violations

theorem propagated_eq (scan : Scan) (violations : List String) :
    scan.propagated violations = scan.propagate maxRounds (scan.start violations) := by
  rw [propagated, start]

/-- The functions that are analysed: those with an `mrs` of their own, and those with a seed. -/
def Active (scan : Scan) (seeds : Nat → Registers) (start : Nat) : Prop :=
  start ∈ scan.initialPending ∨ ∃ r < 32, (seeds start).tracked r = true

/-- The function was analysed with all of its seed. -/
def AnalysedWhole (p : Propagation) (start : Nat) : Prop :=
  ∃ run ∈ p.analysed, run.range.start = start ∧ (p.seeding.seeds start).Le run.seed

/-- Each function that is to be analysed has been with all of its seed, or will be. -/
def Outstanding (scan : Scan) (todo : List Nat) (p : Propagation) : Prop :=
  ∀ start, scan.Active p.seeding.seeds start → start ∈ todo ∨ start ∈ p.seeding.next ∨
    scan.rangeAt start = none ∨ AnalysedWhole p start

theorem visit_outstanding {start : Nat} {rest : List Nat} {p : Propagation}
    (h : scan.Outstanding (start :: rest) p) : scan.Outstanding rest (scan.visit p start) := by
  intro other hactive
  cases hat : scan.rangeAt start with
  | none =>
      rw [visit_none hat] at hactive ⊢
      rcases h other hactive with hmem | hrest
      · rcases List.mem_cons.mp hmem with rfl | hmem
        · exact Or.inr (Or.inr (Or.inl hat))
        · exact Or.inl hmem
      · exact Or.inr hrest
  | some range =>
      rw [visit_some hat] at hactive ⊢
      generalize scan.returned ⟨range, p.seeding.seeds start⟩ = result at hactive ⊢
      by_cases hnext : other ∈ (result.calls.foldl Seeding.call p.seeding).next
      · exact Or.inr (Or.inl hnext)
      · -- its seed has not grown
        have hsame : ((result.calls.foldl Seeding.call p.seeding).seeds other).Le
            (p.seeding.seeds other) :=
          fun r _ ht => (Seeding.calls_next ht).resolve_right hnext
        have hold : scan.Active p.seeding.seeds other :=
          hactive.imp id fun ⟨r, hr, ht⟩ => ⟨r, hr, hsame r hr ht⟩
        rcases h other hold with hmem | hpending | hnone | ⟨run, hrun, hstart, hseed⟩
        · rcases List.mem_cons.mp hmem with rfl | hmem
          · have hstart : range.start = other := by simpa using List.find?_some hat
            exact Or.inr (Or.inr (Or.inr ⟨_, List.mem_append_right _ (List.mem_singleton_self _),
              hstart, hsame⟩))
          · exact Or.inl hmem
        · exact absurd (Seeding.next_keeps hpending _) hnext
        · exact Or.inr (Or.inr (Or.inl hnone))
        · exact Or.inr (Or.inr (Or.inr ⟨run, List.mem_append_left _ hrun, hstart,
            hsame.trans hseed⟩))

theorem propagate_outstanding (h : scan.Lawful) (cap : Nat) {p : Propagation}
    (hp : scan.Outstanding [] p) : scan.Outstanding [] (scan.propagate cap p).1 := by
  have hvisits : ∀ (todo : List Nat) (q : Propagation), scan.Outstanding todo q →
      scan.Outstanding [] (todo.foldl scan.visit q) := by
    intro todo
    induction todo with
    | nil => exact fun q hq => hq
    | cons start rest ih => exact fun q hq => ih _ (visit_outstanding hq)
  induction cap generalizing p with
  | zero => exact hp
  | succ cap ih =>
      rw [propagate]
      split
      case isTrue => exact hp
      case isFalse =>
          refine ih (hvisits _ _ fun start hactive => ?_)
          rcases hp start hactive with hnil | hnext | hrest
          · cases hnil
          · exact Or.inl ((h.order_perm _).mem_iff.mpr hnext)
          · exact Or.inr (Or.inr hrest)

/-- A propagation that settles leaves nothing pending. -/
theorem next_of_settled (cap : Nat) (p : Propagation) (h : (scan.propagate cap p).2 = true) :
    (scan.propagate cap p).1.seeding.next = [] := by
  induction cap generalizing p with
  | zero => exact List.isEmpty_iff.mp h
  | succ cap ih =>
      rw [propagate] at h ⊢
      split
      case isTrue hnext => exact List.isEmpty_iff.mp hnext
      case isFalse hnext =>
          rw [if_neg hnext] at h
          exact ih _ h

/-- **Each function that is to be analysed was analysed with all of its seed.** -/
theorem analysed_of_settled (h : scan.Lawful) {violations : List String}
    (hsettled : (scan.propagated violations).2 = true) {start : Nat}
    (hactive : scan.Active (scan.propagated violations).1.seeding.seeds start) :
    scan.rangeAt start = none ∨ AnalysedWhole (scan.propagated violations).1 start := by
  have hstart : scan.Outstanding [] (scan.start violations) := by
    rintro start (hpending | ⟨r, -, ht⟩)
    · exact Or.inr (Or.inl hpending)
    · cases ht
  have hend := propagate_outstanding h maxRounds hstart start hactive
  rcases hend with hnil | hnext | hrest
  · cases hnil
  · have hempty := next_of_settled maxRounds (scan.start violations) hsettled
    rw [hempty] at hnext
    cases hnext
  · exact hrest

/-! ## The functions that are analysed first -/

theorem visit_analysed {p : Propagation} {run : Analysed} (h : run ∈ p.analysed) (start : Nat) :
    run ∈ (scan.visit p start).analysed := by
  cases hat : scan.rangeAt start with
  | none => rwa [visit_none hat]
  | some range =>
      rw [visit_some hat]
      exact List.mem_append_left _ h

theorem visits_analyse {start : Nat} {range : FunctionRange}
    (hat : scan.rangeAt start = some range) {todo : List Nat} (h : start ∈ todo)
    (p : Propagation) : ∃ run ∈ (todo.foldl scan.visit p).analysed, run.range = range := by
  have hkeep : ∀ (rest : List Nat) (p : Propagation), (∃ run ∈ p.analysed, run.range = range) →
      ∃ run ∈ (rest.foldl scan.visit p).analysed, run.range = range := by
    intro rest
    induction rest with
    | nil => exact fun p hp => hp
    | cons next rest ih =>
        rintro p ⟨run, hrun, heq⟩
        exact ih _ ⟨run, visit_analysed hrun next, heq⟩
  induction todo generalizing p with
  | nil => cases h
  | cons next rest ih =>
      rw [List.foldl_cons]
      rcases List.mem_cons.mp h with rfl | hrest
      · refine hkeep rest _ ⟨⟨range, p.seeding.seeds start⟩, ?_, rfl⟩
        rw [visit_some hat]
        exact List.mem_append_right _ (List.mem_singleton_self _)
      · exact ih hrest _

/-- The first round analyses each function that reads the base itself. -/
theorem pending_analysed (h : scan.Lawful) {start : Nat} {range : FunctionRange}
    (hat : scan.rangeAt start = some range) (hpending : start ∈ scan.initialPending)
    (violations : List String) :
    ∃ run ∈ (scan.propagated violations).1.analysed, run.range = range := by
  rw [propagated, show maxRounds = 4095 + 1 from rfl, propagate, if_neg]
  · refine propagate_keeps (I := fun p => ∃ run ∈ p.analysed, run.range = range)
      (fun p next hp => ?_) (fun p hp => hp) 4095
      (visits_analyse hat ((h.order_perm _).mem_iff.mpr hpending) _)
    obtain ⟨run, hrun, heq⟩ := hp
    exact ⟨run, visit_analysed hrun next, heq⟩
  · intro hempty
    have hnil : scan.initialPending = [] := List.isEmpty_iff.mp hempty
    rw [hnil] at hpending
    cases hpending

theorem mem_initialPending {range : FunctionRange} (hrange : range ∈ scan.ranges)
    (hlen : range.start + 4 ≤ range.stop)
    (hdata : inDataInCode scan.image.dataInCode range.start = false) {inst : Inst}
    (hat : scan.code.instAt range.start = some inst) (hreads : readsBase inst = true) :
    range.start ∈ scan.initialPending := by
  have hmrs : scan.hasMRS range = true := by
    refine List.any_eq_true.mpr ⟨range.start, ?_, ?_⟩
    · exact FunctionAnalysis.mem_addresses.mpr ⟨Nat.le_refl _, by omega, by omega⟩
    · simp [hlen, hdata, hat, hreads]
  exact List.mem_dedup.mpr (List.mem_map_of_mem (List.mem_filter.mpr ⟨hrange, hmrs⟩))

/-! ## What the scan is to report -/

/-- The function starts with an `mrs` of the base into the register and an access off it that is
not allowed. Both instructions are code of the function, and no section ends between them. -/
structure Opens (scan : Scan) (start r : Nat) (inst : Inst) : Prop where
  aligned : start % 4 = 0
  register : r < 31
  mrs : ∃ first, scan.code.instAt start = some first ∧ readsBase first = true ∧ first.rd = r
  access : scan.code.instAt (start + 4) = some inst
  fixed : fixedOffsetAccess inst r = true
  offset : isAllowedOffset (accessOffset inst) = false
  code : inDataInCode scan.image.dataInCode start = false ∧
    inDataInCode scan.image.dataInCode (start + 4) = false
  function : ∀ next ∈ scan.starts, start < next → start + 8 ≤ next
  sections : ∀ sec ∈ scan.code, sec.addr ≤ start → start < sec.addr + sec.size →
    start + 8 ≤ sec.addr + sec.size

/-- The scan refuses the image, with a line for the access at an address. -/
def Reports (scan : Scan) (violations : List String) (addr : Nat) (inst : Inst) : Prop :=
  (scan.scanTSDOffsets violations).1 = false ∧ ∃ range mrsAt,
    (scan.analysis range).accessViolation addr mrsAt (accessOffset inst)
      ∈ (scan.scanTSDOffsets violations).2

theorem scan_settled {violations : List String} {p : Propagation}
    (h : scan.propagated violations = (p, true)) :
    scan.scanTSDOffsets violations = ((p.violations.dedup.insertionSort (· ≤ ·)).isEmpty,
      p.violations.dedup.insertionSort (· ≤ ·)) := by
  rw [scanTSDOffsets, h]
  rfl

theorem scan_unsettled {violations : List String} {p : Propagation}
    (h : scan.propagated violations = (p, false)) :
    scan.scanTSDOffsets violations = (false, p.violations ++ [scan.unsettledViolation]) := by
  rw [scanTSDOffsets, h]
  rfl

theorem reports_of_mem {violations : List String} {addr mrsAt : Nat} {inst : Inst}
    {range : FunctionRange} (h : (scan.analysis range).accessViolation addr mrsAt
      (accessOffset inst) ∈ (scan.propagated violations).1.violations) :
    scan.Reports violations addr inst := by
  unfold Reports
  cases hp : scan.propagated violations with
  | mk p settled =>
      rw [hp] at h
      cases settled with
      | false =>
          rw [scan_unsettled hp]
          exact ⟨rfl, range, mrsAt, List.mem_append_left _ h⟩
      | true =>
          have hmem := (List.mem_insertionSort (· ≤ ·)).mpr (List.mem_dedup.mpr h)
          rw [scan_settled hp]
          exact ⟨List.isEmpty_eq_false_iff.mpr (List.ne_nil_of_mem hmem), range, mrsAt, hmem⟩

theorem mem_of_reports {violations : List String} {addr : Nat} {inst : Inst}
    (h : scan.Reports violations addr inst) : ∃ range mrsAt,
      (scan.analysis range).accessViolation addr mrsAt (accessOffset inst)
        ∈ (scan.propagated violations).1.violations := by
  obtain ⟨-, range, mrsAt, hmem⟩ := h
  refine ⟨range, mrsAt, ?_⟩
  cases hp : scan.propagated violations with
  | mk p settled =>
      cases settled with
      | false =>
          rw [scan_unsettled hp] at hmem
          rcases List.mem_append.mp hmem with hmem | hlast
          · exact hmem
          · have hend := congrArg (fun line => line.toList.getLast?) (List.mem_singleton.mp hlast)
            simp only [FunctionAnalysis.accessViolation_last, unsettledViolation,
              String.toList_append, List.getLast?_append] at hend
            cases hend
      | true =>
          rw [scan_settled hp] at hmem
          exact List.mem_dedup.mp ((List.mem_insertionSort _).mp hmem)

/-- **A function with another start above it is covered**: its access is reported. -/
theorem reports_of_next (h : scan.Lawful) {start r : Nat} {inst : Inst}
    (ho : scan.Opens start r inst) (hstart : start ∈ scan.starts)
    (hnext : ∃ next ∈ scan.starts, start < next) (violations : List String) :
    scan.Reports violations (start + 4) inst := by
  obtain ⟨first, hfirst, hreads, rfl⟩ := ho.mrs
  obtain ⟨range, hat⟩ := Option.isSome_iff_exists.mp ((rangeAt_isSome_iff h).mpr
    ⟨hstart, by rw [hfirst]; rfl, hnext⟩)
  obtain ⟨hmem, heq⟩ := rangeAt_mem h hat
  -- both instructions are in its range: that ends at the next start, or with a section
  have hstop : range.start + 8 ≤ range.stop := by
    rcases (mem_addTails hmem).2 with hbounded | ⟨sec, hsec, hend, hlow, hhigh⟩
    · obtain ⟨-, h2, h3, -, -⟩ := mem_boundedRanges scan.starts_sorted hbounded
      rw [heq] at h3 ⊢
      exact ho.function _ h2 h3
    · rw [heq] at hlow hhigh ⊢
      rw [hend] at hhigh ⊢
      exact ho.sections sec hsec hlow hhigh
  subst heq
  -- the first round analyses it, with some seed
  have hpending := mem_initialPending ((mem_ranges h).mpr hmem) (by omega) ho.code.1 hfirst hreads
  obtain ⟨run, hrun, hrange⟩ := pending_analysed h hat hpending violations
  have hinst : ∀ a inst, range.start ≤ a → a + 4 ≤ range.stop →
      inDataInCode scan.image.dataInCode a = false → scan.code.instAt a = some inst →
      (scan.analysis range).instAt a = some inst := by
    intro a inst h1 h2 hdata hat
    rw [FunctionAnalysis.instAt, if_neg (by simp only [analysis]; omega)]
    simp only [analysis, hdata, Bool.false_eq_true, if_false, hat]
  have hfetch : (scan.analysis range).fetch range.start = some first :=
    FunctionAnalysis.fetch_readsBase
      (hinst range.start first (Nat.le_refl _) (by omega) ho.code.1 hfirst) hreads
  have haccess : (scan.analysis range).fetch (range.start + 4) = some inst :=
    FunctionAnalysis.fetch_access
      (hinst (range.start + 4) inst (by omega) (by omega) ho.code.2 ho.access) ho.fixed
  obtain ⟨mrsAt, hline⟩ := FunctionAnalysis.opening_reported (f := scan.analysis range) ho.aligned
    hstop hfetch hreads ho.register haccess ho.fixed ho.offset run.seed
  have hreturned : (scan.analysis range).accessViolation (range.start + 4) mrsAt
      (accessOffset inst) ∈ (scan.returned run).violations := by
    rw [returned, hrange]
    exact hline
  exact reports_of_mem ((propagated_recorded scan violations).lines run hrun _ hreturned)

/-! ## The highest start -/

/-- `std::sort` as an insertion sort, which keeps the order of ranges with one start, and a set
gone through as it stands. -/
def stable (scan : Scan) : Scan :=
  { scan with
    sort := fun ranges => ranges.insertionSort fun a b => a.start ≤ b.start
    order := fun starts => starts }

theorem stable_lawful (scan : Scan) : scan.stable.Lawful where
  perm := fun ranges => List.perm_insertionSort _ ranges
  sorted := fun ranges => by
    have : Std.Total fun a b : FunctionRange => a.start ≤ b.start :=
      ⟨fun a b => Nat.le_total a.start b.start⟩
    have : IsTrans FunctionRange fun a b => a.start ≤ b.start := ⟨fun _ _ _ => Nat.le_trans⟩
    exact List.pairwise_insertionSort _ ranges
  order_perm := fun starts => List.Perm.refl starts

theorem find?_orderedInsert (start : Nat) (range : FunctionRange) (l : List FunctionRange) :
    (l.orderedInsert (fun a b => a.start ≤ b.start) range).find? (fun r => r.start = start)
      = (range :: l).find? fun r => r.start = start := by
  induction l with
  | nil => rfl
  | cons first rest ih =>
      rw [List.orderedInsert]
      split
      case isTrue => rfl
      case isFalse hlt =>
          rw [List.find?_cons, ih]
          by_cases hrange : range.start = start
          · have hne : first.start ≠ start := by omega
            simp [hrange, hne]
          · simp [hrange, List.find?_cons]

theorem find?_stable (start : Nat) (l : List FunctionRange) :
    (l.insertionSort fun a b => a.start ≤ b.start).find? (fun r => r.start = start)
      = l.find? fun r => r.start = start := by
  induction l with
  | nil => rfl
  | cons range rest ih =>
      rw [List.insertionSort_cons, find?_orderedInsert, List.find?_cons, List.find?_cons, ih]

/-- Where the sort keeps the order, a function ends at the next start. -/
theorem stable_stop {start : Nat} {range : FunctionRange}
    (hat : scan.stable.rangeAt start = some range) {next : Nat} (hnext : next ∈ scan.starts)
    (hlt : start < next) : range.stop ≤ next := by
  obtain ⟨hmem, hstart⟩ := rangeAt_mem scan.stable_lawful hat
  obtain ⟨⟨r, hr, hfrom⟩, -⟩ := mem_addTails hmem
  obtain ⟨tail, htail⟩ := bounded_isPrefix_addTails scan.code (boundedRanges scan.code scan.starts)
  have hfind : (boundedRanges scan.code scan.starts).find? (fun r => r.start = start)
      = some range := by
    have hsome : ((boundedRanges scan.code scan.starts).find? fun r => r.start = start).isSome :=
      List.find?_isSome.mpr ⟨r, hr, by simpa using hfrom.trans hstart⟩
    obtain ⟨found, hfound⟩ := Option.isSome_iff_exists.mp hsome
    have hsorted : scan.stable.rangeAt start
        = scan.unsortedRanges.find? fun r => r.start = start := find?_stable start _
    rw [hsorted, unsortedRanges, ← htail, List.find?_append, hfound, Option.some_or] at hat
    rw [hfound, hat]
  obtain ⟨-, -, -, hleast, -⟩ :=
    mem_boundedRanges scan.starts_sorted (List.mem_of_find?_eq_some hfind)
  exact hleast next hnext (hstart ▸ hlt)

/-- **The highest start is not covered**: no analysis reaches it. -/
theorem not_reports_highest (scan : Scan) {start : Nat} (hstart : start ∈ scan.starts)
    (hhighest : ¬ ∃ next ∈ scan.starts, start < next) (inst : Inst) :
    ¬ scan.stable.Reports [] (start + 4) inst := by
  intro hreports
  obtain ⟨range, mrsAt, hmem⟩ := mem_of_reports hreports
  have hrecorded := propagated_recorded scan.stable []
  rcases hrecorded.source _ hmem with hnil | ⟨run, hrun, hline⟩
  · cases hnil
  · obtain ⟨-, hstop⟩ := FunctionAnalysis.access_in_range hline
    have hat := hrecorded.range run hrun
    have hstop : start + 8 ≤ run.range.stop := hstop
    obtain ⟨hfrom, -, next, hnext, hlt⟩ :=
      (rangeAt_isSome_iff scan.stable_lawful).mp (Option.isSome_iff_exists.mpr ⟨_, hat⟩)
    have hle : next ≤ start := Nat.le_of_not_lt fun hgt => hhighest ⟨next, hnext, hgt⟩
    have := stable_stop hat hstart (by omega)
    omega

/-- **What the scan covers.** A function in a decoded section is covered exactly where another
start is above it: for every way the library may sort the ranges and go through the pending set,
an access in its second instruction is reported; and in every propagation that settles, each
register that a direct call hands it is in a seed it is analysed with. -/
theorem scan_covers_iff (scan : Scan) {start : Nat} (hstart : start ∈ scan.starts)
    (hat : (scan.code.instAt start).isSome = true) :
    (∀ r inst, scan.Opens start r inst →
      ((∀ sort order, Lawful { scan with sort, order } → ∀ violations,
          Reports { scan with sort, order } violations (start + 4) inst) ↔
        ∃ next ∈ scan.starts, start < next)) ∧
    (scan.Lawful → ∀ violations, (scan.propagated violations).2 = true →
      ∀ run ∈ (scan.propagated violations).1.analysed, ∀ site ∈ (scan.returned run).calls,
        site.resolvable = true → site.target = start →
        ∀ r, 19 ≤ r → r ≤ 28 → site.tracked r = true →
          (AnalysedWith (scan.propagated violations).1 start r ↔
            ∃ next ∈ scan.starts, start < next)) := by
  refine ⟨fun r inst ho => ⟨fun hall => ?_, fun hnext sort order h violations => ?_⟩,
    fun h violations hsettled run hrun site hsite hres htarget r h19 h28 ht =>
      ⟨?_, fun hnext => ?_⟩⟩
  · by_contra hhighest
    exact not_reports_highest scan hstart hhighest inst (hall _ _ scan.stable_lawful [])
  · exact reports_of_next h ⟨ho.aligned, ho.register, ho.mrs, ho.access, ho.fixed, ho.offset,
      ho.code, ho.function, ho.sections⟩ hstart hnext violations
  · rintro ⟨run', hrun', hfrom, -⟩
    have hrange := (propagated_recorded scan violations).range run' hrun'
    rw [hfrom] at hrange
    exact ((rangeAt_isSome_iff h).mp (Option.isSome_iff_exists.mpr ⟨_, hrange⟩)).2.2
  · -- what a call hands on is in the seed, and the last analysis has all of the seed
    have hseed := (propagated_recorded scan violations).seeds run hrun site hsite hres r h19 h28 ht
    rw [htarget] at hseed
    rcases analysed_of_settled h hsettled (Or.inr ⟨r, by omega, hseed⟩) with
      hnone | ⟨run', hrun', hfrom, hle⟩
    · have hsome := (rangeAt_isSome_iff h).mpr ⟨hstart, hat, hnext⟩
      rw [hnone] at hsome
      cases hsome
    · exact ⟨run', hrun', hfrom, hle r (by omega) hseed⟩

/-! ## The last function of an image -/

/-- `mrs x9, TPIDRRO_EL0`, `ldr x0, [x9, #0x40]` and `ret`. -/
def readerDecode (word : UInt32) : Inst :=
  if word = 0xd53bd069 then { op := .mrs, rd := 9, imm := tpidrroEl0 }
  else if word = 0xf9402120 then { op := .ldr, rd := 0, rn := 9, offset := 0x40, offImm := true }
  else { op := .ret }

/-- Their words, and one more `ret`. -/
def readerText : List UInt8 :=
  [0x69, 0xd0, 0x3b, 0xd5, 0x20, 0x21, 0x40, 0xf9, 0xc0, 0x03, 0x5f, 0xd6, 0xc0, 0x03, 0x5f, 0xd6]

/-- An image with this text and these starts. -/
def readerScan (functions : List UInt64) : Scan where
  image :=
    { path := "guest"
      segments := [{ name := "__TEXT", vmaddr := 0x1000, vmsize := 16, filesize := 16 }]
      sections := [{ segname := "__TEXT", sectname := "__text", addr := 0x1000, size := 16,
                     flags := 0x80000400 }]
      functions
      data := readerText }
  decode := readerDecode
  opcode := fun _ => 0
  sort := fun ranges => ranges.insertionSort fun a b => a.start ≤ b.start
  order := fun starts => starts

/-- `ldr x0, [x9, #0x40]` -/
def readerAccess : Inst := { op := .ldr, rd := 0, rn := 9, offset := 0x40, offImm := true }

/-- The text, decoded. -/
def readerSection : CodeSection where
  addr := 0x1000
  size := 16
  insts := [{ op := .mrs, rd := 9, imm := tpidrroEl0 }, readerAccess, { op := .ret },
    { op := .ret }]

theorem code_readerScan (functions : List UInt64) :
    (readerScan functions).code = [readerSection] := by
  have hbytes : (readerScan functions).image.readBytes ((readerScan functions).image.host 0x1000) 16
      = some readerText := by
    rw [Image.readBytes, Image.host_sub_slide]
    rfl
  have hwords : rawWords readerText 4 = [0xd53bd069, 0xf9402120, 0xd65f03c0, 0xd65f03c0] := by
    decide
  have hsection : (readerScan functions).decodeSection
      { segname := "__TEXT", sectname := "__text", addr := 0x1000, size := 16,
        flags := 0x80000400 } = some readerSection := by
    rw [decodeSection, if_neg (by decide), if_neg (by decide), hbytes, Option.map_some,
      show (16 : UInt64).toNat / 4 % 2 ^ 32 = 4 by decide, hwords]
    rfl
  rw [code, show (readerScan functions).image.sections = [_] from rfl, List.filterMap_cons,
    hsection]
  rfl

theorem readerScan_opens {functions : List UInt64}
    (h : ∀ next ∈ (readerScan functions).starts, 0x1000 < next → 0x1008 ≤ next) :
    (readerScan functions).Opens 0x1000 9 readerAccess where
  aligned := rfl
  register := by decide
  mrs := by
    rw [code_readerScan]
    exact ⟨_, rfl, rfl, rfl⟩
  access := by rw [code_readerScan]; rfl
  fixed := rfl
  offset := rfl
  code := ⟨rfl, rfl⟩
  function := h
  sections := by
    intro sec hsec
    rw [code_readerScan, List.mem_singleton] at hsec
    rw [hsec]
    intro _ _
    decide

/-- The only function of an image is not analysed at all. -/
theorem not_covers_only :
    ¬ ∀ (scan : Scan), scan.Lawful → ∀ start ∈ scan.starts, ∀ r inst, scan.Opens start r inst →
      scan.Reports [] (start + 4) inst := by
  intro hclaim
  have hopens : (readerScan [0x1000]).Opens 0x1000 9 readerAccess :=
    readerScan_opens (by decide)
  exact not_reports_highest (readerScan [0x1000]) (by decide) (by decide) readerAccess
    (hclaim _ (readerScan [0x1000]).stable_lawful 0x1000 (by decide) 9 readerAccess hopens)

/-- With a function behind it, it is. -/
theorem scan_covers_iff_reader :
    (readerScan [0x1000, 0x100c]).stable.Reports [] 0x1004 readerAccess := by
  have hopens : (readerScan [0x1000, 0x100c]).Opens 0x1000 9 readerAccess :=
    readerScan_opens (by decide)
  have hcovers := scan_covers_iff (readerScan [0x1000, 0x100c]) (by decide : 0x1000 ∈ _) rfl
  exact (hcovers.1 9 readerAccess hopens).mpr (by decide) _ _
    (readerScan [0x1000, 0x100c]).stable_lawful []

end Scan

end Katabasis
