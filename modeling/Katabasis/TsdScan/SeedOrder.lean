import Katabasis.TsdScan.Coverage
import Katabasis.TsdScan.May
import Katabasis.TsdScan.Must

set_option autoImplicit false

/-! # A function with a larger seed

The analysis of one function is monotone in the seed: with more registers in the seed, the calls
that hand a register on still do (`call_mono`), and the instructions that are flagged still are
(`flags_mono`).

For the calls the two fixpoints are not enough, since a call is recorded in each state its block
is processed in, also in those the loop goes through before it ends. Only the first block is
processed more than once, in states that go down, so it is its first state that counts. The runs
with the two seeds go through the same blocks until the larger one comes to the first block
(`first_record`).
-/

namespace Katabasis

namespace FunctionAnalysis

variable {f : FunctionAnalysis}

/-! ## The states on entry to the blocks -/

theorem joining_must :
    Worklist.Joining (fun a b => Registers.Le b a) (f.problem false f.buildBlocks) where
  toGrowing := growing_must f.buildBlocks
  least := fun a o c ha ho r hr h => by
    show (mergeInto false a o).tracked r = true
    rw [merge_must hr, ha r hr h, ho r hr h, Bool.and_self]
  mono := fun b s t h r hr hs => after_mono (h r hr) b hs
  source_lt := fun b n hn => lt_of_mem_succs hn

theorem entryStates_mono {s t : Registers} (h : s.Le t) (b : Nat) :
    (entryStates s b).Le (entryStates t b) := by
  unfold entryStates
  split
  case isTrue => exact h
  case isFalse => exact Registers.Le.refl _

theorem mustIn_mono {s t : Registers} (h : s.Le t) {mustIn mustIn' : Nat → Registers}
    {calls calls' : List CallSite} (hs : f.solve false f.buildBlocks s = some (mustIn, calls))
    (ht : f.solve false f.buildBlocks t = some (mustIn', calls')) (b : Nat) :
    (mustIn b).Le (mustIn' b) :=
  Worklist.runs_mono joining_must (Worklist.solve_runs _ ht) (Worklist.solve_runs _ hs)
    (settled_start _ false s) (entryStates_mono h) b

theorem mayIn_mono {s t : Registers} (h : s.Le t) {mayIn mayIn' : Nat → Registers}
    {log log' : List CallSite} (hs : f.solve true f.buildBlocks s = some (mayIn, log))
    (ht : f.solve true f.buildBlocks t = some (mayIn', log')) (b : Nat) :
    (mayIn b).Le (mayIn' b) :=
  Worklist.runs_mono f.blockGraph.joining (Worklist.solve_runs f.blockGraph.problem hs)
    (Worklist.solve_runs f.blockGraph.problem ht) (f.blockGraph.start_settled t)
    (entryStates_mono h) b

/-! ## The recorded calls -/

/-- The second call hands on what the first does, at the same instruction. -/
structure HandsMore (site site' : CallSite) : Prop where
  addr : site'.addr = site.addr
  target : site'.target = site.target
  resolvable : site'.resolvable = site.resolvable
  tracked : ∀ r < 32, site.tracked r = true → site'.tracked r = true

theorem callSites_mono {s t : Registers} (h : s.Le t) {block : Block} {site : CallSite}
    (hsite : site ∈ f.callSites block s) :
    ∃ site' ∈ f.callSites block t, HandsMore site site' := by
  obtain ⟨addr, haddr, inst, hi, hcall, rfl⟩ := mem_callSites_iff.mp hsite
  refine ⟨_, mem_callSites haddr hi hcall t, rfl, rfl, rfl, fun r hr ht => ?_⟩
  simp only [callSite, Bool.and_eq_true, decide_eq_true_eq] at ht ⊢
  exact ⟨ht.1, run_mono (h r hr) _ _ ht.2⟩

theorem record_mono {s t : Registers} (h : s.Le t) {b : Nat} {site : CallSite}
    (hsite : site ∈ (f.problem false f.buildBlocks).record b s) :
    ∃ site' ∈ (f.problem false f.buildBlocks).record b t, HandsMore site site' := by
  simp only [problem, Bool.false_eq_true, if_false] at hsite ⊢
  cases hb : f.buildBlocks[b]? with
  | none =>
      rw [hb] at hsite
      cases hsite
  | some block =>
      rw [hb] at hsite
      exact callSites_mono h hsite

/-! ## The first state of the first block -/

/-- Behind the first block nothing is tracked on entry. -/
def Idle (entry : Nat → Registers) : Prop := ∀ b, b ≠ 0 → ∀ r, (entry b).tracked r = false

/-- A merge along an edge to the first block takes a register away. -/
def Lowers (f : FunctionAnalysis) (b : Nat) (entry : Nat → Registers) : Prop :=
  0 ∈ (f.problem false f.buildBlocks).succs b ∧
    differs (entry 0) (mergeInto false (entry 0) (f.after b (entry b))) = true

theorem not_differs_iff {s o : Registers} :
    differs s (mergeInto false s o) = false ↔ s.Le o := by
  simp only [differs, List.any_eq_false, List.mem_range]
  constructor
  · intro h r hr hs
    have hsame := h r hr
    rw [merge_must hr, hs] at hsame
    simpa using hsame
  · intro h r hr
    rw [merge_must hr]
    have hle := h r hr
    revert hle
    cases s.tracked r <;> cases o.tracked r <;> simp

theorem merge_le_left (s o : Registers) : (mergeInto false s o).Le s := by
  intro r hr ht
  rw [merge_must hr, Bool.and_eq_true] at ht
  exact ht.1

theorem merge_le_right (s o : Registers) : (mergeInto false s o).Le o := by
  intro r hr ht
  rw [merge_must hr, Bool.and_eq_true] at ht
  exact ht.2

theorem le_merge {s o t : Registers} (hs : t.Le s) (ho : t.Le o) :
    t.Le (mergeInto false s o) := by
  intro r hr ht
  rw [merge_must hr, hs r hr ht, ho r hr ht, Bool.and_self]

theorem idle_update {entry : Nat → Registers} (h : Idle entry) (s : Registers) :
    Idle (Function.update entry 0 s) := by
  intro b hb r
  rw [Function.update_of_ne hb]
  exact h b hb r

theorem idle_merge {entry : Nat → Registers} (h : Idle entry) {n : Nat} (hn : n ≠ 0)
    (out : Registers) : differs (entry n) (mergeInto false (entry n) out) = false := by
  rw [not_differs_iff]
  intro r _ ht
  rw [h n hn r] at ht
  cases ht

/-- Only the first block is changed by a turn, and it comes back on top of the worklist. -/
theorem visits_idle {entry : Nat → Registers} (h : Idle entry) (out : Registers)
    (nexts work : List Nat) :
    nexts.foldl (Worklist.visit (f.problem false f.buildBlocks) out) (entry, work)
      = if 0 ∈ nexts ∧ differs (entry 0) (mergeInto false (entry 0) out) = true
        then (Function.update entry 0 (mergeInto false (entry 0) out), 0 :: work)
        else (entry, work) := by
  have hvisit : ∀ (entry : Nat → Registers) (work : List Nat) (n : Nat),
      Worklist.visit (f.problem false f.buildBlocks) out (entry, work) n
        = if differs (entry n) (mergeInto false (entry n) out) = true
          then (Function.update entry n (mergeInto false (entry n) out), n :: work)
          else (entry, work) := fun _ _ _ => rfl
  induction nexts generalizing entry work with
  | nil => simp
  | cons n rest ih =>
      rw [List.foldl_cons, hvisit]
      by_cases hn : n = 0
      · subst hn
        by_cases hd : differs (entry 0) (mergeInto false (entry 0) out) = true
        · rw [if_pos hd, if_pos ⟨List.mem_cons_self, hd⟩]
          -- a second merge of the same takes nothing more away
          rw [ih (idle_update h _), if_neg]
          rintro ⟨-, hagain⟩
          rw [Function.update_self, not_differs_iff.mpr (merge_le_right _ _)] at hagain
          cases hagain
        · rw [if_neg hd, ih h, if_neg (fun hand => hd hand.2), if_neg (fun hand => hd hand.2)]
      · rw [if_neg (by rw [idle_merge h hn out]; exact Bool.false_ne_true), ih h]
        have hmem : 0 ∈ n :: rest ↔ 0 ∈ rest := by
          rw [List.mem_cons, or_iff_right (Ne.symm hn)]
        simp only [hmem]

theorem solve_of_lowers {entry : Nat → Registers} (hidle : Idle entry) {k : Nat}
    (hlowers : f.Lowers k entry) (fuel : Nat) (work : List Nat) (log : List CallSite) :
    Worklist.solve (f.problem false f.buildBlocks) (fuel + 1) entry (k :: work) log
      = Worklist.solve (f.problem false f.buildBlocks) fuel
          (Function.update entry 0 (mergeInto false (entry 0) (f.after k (entry k))))
          (0 :: work) (log ++ (f.problem false f.buildBlocks).record k (entry k)) := by
  have hturn := visits_idle (f := f) hidle (f.after k (entry k))
    ((f.problem false f.buildBlocks).succs k) work
  unfold Lowers at hlowers
  rw [if_pos hlowers] at hturn
  rw [Worklist.solve]
  exact congrArg (fun s : (Nat → Registers) × List Nat =>
    Worklist.solve (f.problem false f.buildBlocks) fuel s.1 s.2 _) hturn

theorem solve_of_not_lowers {entry : Nat → Registers} (hidle : Idle entry) {k : Nat}
    (hlowers : ¬ f.Lowers k entry) (fuel : Nat) (work : List Nat) (log : List CallSite) :
    Worklist.solve (f.problem false f.buildBlocks) (fuel + 1) entry (k :: work) log
      = Worklist.solve (f.problem false f.buildBlocks) fuel entry work
          (log ++ (f.problem false f.buildBlocks).record k (entry k)) := by
  have hturn := visits_idle (f := f) hidle (f.after k (entry k))
    ((f.problem false f.buildBlocks).succs k) work
  unfold Lowers at hlowers
  rw [if_neg hlowers] at hturn
  rw [Worklist.solve]
  exact congrArg (fun s : (Nat → Registers) × List Nat =>
    Worklist.solve (f.problem false f.buildBlocks) fuel s.1 s.2 _) hturn

theorem le_after_of_not_lowers {k : Nat} {entry : Nat → Registers}
    (hedge : 0 ∈ (f.problem false f.buildBlocks).succs k) (h : ¬ f.Lowers k entry) :
    (entry 0).Le (f.after k (entry k)) := by
  rw [← not_differs_iff]
  simpa [Lowers, hedge] using h

/-- A call that is recorded behind the first block, where nothing is tracked on entry, or at the
first block in at most the state `top`. -/
def RecordedBelow (f : FunctionAnalysis) (top : Registers) (site : CallSite) : Prop :=
  ∃ b s, (b ≠ 0 → ∀ r, s.tracked r = false) ∧ (b = 0 → s.Le top) ∧
    site ∈ (f.problem false f.buildBlocks).record b s

section

variable {fuel : Nat} {entry result : Nat → Registers} {work : List Nat}
  {log log' : List CallSite}
  (h : Worklist.solve (f.problem false f.buildBlocks) fuel entry work log = some (result, log'))

include h

/-- What a run records from here on: the states of the first block go down. -/
theorem records_below (hidle : Idle entry) {top : Registers} (htop : (entry 0).Le top)
    {site : CallSite} (hsite : site ∈ log') : site ∈ log ∨ f.RecordedBelow top site := by
  have hlog := Worklist.solve_log
    (Q := fun b s => (b ≠ 0 → ∀ r, s.tracked r = false) ∧ (b = 0 → s.Le top))
    (fun b s n s' _ _ hs' => by
      refine ⟨fun hn r => ?_, fun hn r hr ht => ?_⟩
      · show (mergeInto false s' _).tracked r = false
        by_cases hr : r < 32
        · rw [merge_must hr, hs'.1 hn r, Bool.false_and]
        · simp only [mergeInto, hr, if_false]
          exact hs'.1 hn r
      · have hmerged : (s'.tracked r && _) = true := (merge_must hr).symm.trans ht
        rw [Bool.and_eq_true] at hmerged
        exact hs'.2 hn r hr hmerged.1)
    h (fun x => ⟨fun hx r => hidle x hx r, fun hx => hx ▸ htop⟩) hsite
  rcases hlog with hold | ⟨b, s, ⟨hempty, hle⟩, hrecord⟩
  · exact Or.inl hold
  · exact Or.inr ⟨b, s, hempty, hle, hrecord⟩

theorem log_grows {site : CallSite} (hsite : site ∈ log) : site ∈ log' :=
  (Worklist.solve_keeps (Q := fun _ _ => True) (fun _ _ _ _ _ _ _ => trivial) h
    (fun _ => trivial)).2.1 site hsite

end

/-- Blocks behind the first send the same along their edges, whatever the seed. -/
theorem after_idle {entry entry' : Nat → Registers} (hidle : Idle entry) {k : Nat} (hk : k ≠ 0) :
    (f.after k (entry k)).Le (f.after k (entry' k)) := by
  intro r _ ht
  refine after_mono (fun hempty => ?_) k ht
  rw [hidle k hk r] at hempty
  cases hempty

/-- Where no edge takes a register from the larger state, none takes one from the smaller. -/
theorem not_lowers_mono {entry entry' : Nat → Registers} (hidle' : Idle entry')
    (hle : (entry 0).Le (entry' 0)) {k : Nat} (hk : k ≠ 0) (h : ¬ f.Lowers k entry') :
    ¬ f.Lowers k entry := by
  rintro ⟨hedge, hdiffers⟩
  have hkeeps : (entry' 0).Le (f.after k (entry' k)) := le_after_of_not_lowers hedge h
  have hsmall : (entry 0).Le (f.after k (entry k)) :=
    (hle.trans hkeeps).trans (after_idle hidle' hk)
  rw [not_differs_iff.mpr hsmall] at hdiffers
  cases hdiffers

/-- Where an edge takes a register from the larger state, the smaller run is below what is left
of it, whether or not the edge takes one from its own state too. -/
theorem records_below_lowered {k fuel : Nat} {entry entry' result : Nat → Registers}
    {work : List Nat} {log ends : List CallSite} (hk : k ≠ 0)
    (h : Worklist.solve (f.problem false f.buildBlocks) (fuel + 1) entry (k :: work) log
      = some (result, ends))
    (hidle : Idle entry) (hle : (entry 0).Le (entry' 0)) (hlowers : f.Lowers k entry')
    {site : CallSite} (hsite : site ∈ ends) :
    site ∈ log ++ (f.problem false f.buildBlocks).record k (entry k) ∨
      f.RecordedBelow (mergeInto false (entry' 0) (f.after k (entry' k))) site := by
  have hafter : (f.after k (entry k)).Le (f.after k (entry' k)) := after_idle hidle hk
  by_cases hsmall : f.Lowers k entry
  · rw [solve_of_lowers hidle hsmall] at h
    refine records_below h (idle_update hidle _) ?_ hsite
    rw [Function.update_self]
    exact le_merge ((merge_le_left _ _).trans hle) ((merge_le_right _ _).trans hafter)
  · rw [solve_of_not_lowers hidle hsmall] at h
    refine records_below h hidle (le_merge hle ?_) hsite
    exact (le_after_of_not_lowers hlowers.1 hsmall).trans hafter

/-- **The first state of the first block.** While no edge takes a register from the larger seed,
none takes one from the smaller, and both runs go down the same list. When the larger one comes to
the first block, it has at least what the smaller has from then on. -/
theorem first_record {k : Nat} {entry entry' result result' : Nat → Registers} {fuel fuel' : Nat}
    {log log' ends ends' : List CallSite} (hk : 0 < k)
    (h : Worklist.solve (f.problem false f.buildBlocks) fuel entry (List.range k).reverse log
      = some (result, ends))
    (h' : Worklist.solve (f.problem false f.buildBlocks) fuel' entry' (List.range k).reverse log'
      = some (result', ends'))
    (hidle : Idle entry) (hidle' : Idle entry') (hle : (entry 0).Le (entry' 0)) :
    ∃ top : Registers,
      (∀ site ∈ (f.problem false f.buildBlocks).record 0 top, site ∈ ends') ∧
      ∀ site ∈ ends, site ∈ log ∨ f.RecordedBelow top site := by
  induction k generalizing entry entry' fuel fuel' log log' with
  | zero => exact absurd hk (Nat.lt_irrefl 0)
  | succ k ih =>
      rw [List.range_succ, List.reverse_append, List.reverse_singleton, List.singleton_append]
        at h h'
      obtain ⟨fuel', rfl⟩ := Worklist.fuel_of_solve h'
      rcases Nat.eq_zero_or_pos k with rfl | hpos
      · -- the first block is next in both runs
        refine ⟨entry' 0, fun site hsite => ?_, fun site => records_below h hidle hle⟩
        rw [Worklist.solve] at h'
        exact log_grows h' (List.mem_append_right _ hsite)
      · obtain ⟨fuel, rfl⟩ := Worklist.fuel_of_solve h
        have hne : k ≠ 0 := by omega
        have hthis : ∀ top, ∀ site ∈ log ++ (f.problem false f.buildBlocks).record k (entry k),
            site ∈ log ∨ f.RecordedBelow top site := fun top site hsite =>
          (List.mem_append.mp hsite).imp id fun hnew =>
            ⟨k, entry k, fun _ => hidle k hne, fun hzero => absurd hzero hne, hnew⟩
        by_cases hlowers : f.Lowers k entry'
        · -- the larger run goes back to the first block, with what the edge leaves of its state
          refine ⟨mergeInto false (entry' 0) (f.after k (entry' k)), fun site hsite => ?_,
            fun site hsite => ?_⟩
          · rw [solve_of_lowers hidle' hlowers] at h'
            obtain ⟨fuel', rfl⟩ := Worklist.fuel_of_solve h'
            rw [Worklist.solve, Function.update_self] at h'
            exact log_grows h' (List.mem_append_right _ hsite)
          · exact (records_below_lowered hne h hidle hle hlowers hsite).elim (hthis _ site) Or.inr
        · -- neither run goes back
          rw [solve_of_not_lowers hidle' hlowers] at h'
          rw [solve_of_not_lowers hidle (not_lowers_mono hidle' hle hne hlowers)] at h
          obtain ⟨top, hrecorded, hrest⟩ := ih hpos h h' hidle hidle' hle
          exact ⟨top, hrecorded, fun site hsite => (hrest site hsite).elim (hthis top site) Or.inr⟩

/-! ## The calls of a function -/

theorem result_calls (f : FunctionAnalysis) (seed : Registers) : ∃ mustIn,
    f.solve false f.buildBlocks seed = some (mustIn, (f.result seed).calls) := by
  obtain ⟨⟨mayIn, log⟩, hmay⟩ := Option.isSome_iff_exists.mp (solve_isSome (f := f) true seed)
  obtain ⟨⟨mustIn, calls⟩, hmust⟩ := Option.isSome_iff_exists.mp (solve_isSome (f := f) false seed)
  refine ⟨mustIn, ?_⟩
  rw [result, analyse, hmay, hmust]
  rfl

theorem idle_entryStates (seed : Registers) : Idle (entryStates seed) := by
  intro b hb r
  rw [entryStates, if_neg hb]

/-- **A larger seed hands on more**, at the same calls. -/
theorem call_mono {s t : Registers} (h : s.Le t) {site : CallSite}
    (hsite : site ∈ (f.result s).calls) : ∃ site' ∈ (f.result t).calls, HandsMore site site' := by
  obtain ⟨mustIn, hs⟩ := f.result_calls s
  obtain ⟨mustIn', ht⟩ := f.result_calls t
  have hblocks : 0 < f.buildBlocks.length := by
    rw [length_buildBlocks]
    exact List.length_pos_of_mem (mem_leaders.mpr (Or.inl rfl))
  obtain ⟨top, htop, hbelow⟩ := first_record hblocks hs ht (idle_entryStates s)
    (idle_entryStates t) (entryStates_mono h 0)
  rcases hbelow site hsite with hnil | ⟨b, state, hempty, hle, hrecord⟩
  · cases hnil
  · by_cases hb : b = 0
    · -- the first block: the larger run has processed it in a state above
      subst hb
      obtain ⟨site', hsite', hmore⟩ := record_mono (hle rfl) hrecord
      exact ⟨site', htop site' hsite', hmore⟩
    · -- the other blocks are processed with the larger seed as well, in some state
      have hmem : b ∈ (List.range f.buildBlocks.length).reverse := by
        rw [List.mem_reverse, List.mem_range]
        by_contra hlt
        simp only [problem, List.getElem?_eq_none (Nat.le_of_not_lt hlt)] at hrecord
        cases hrecord
      obtain ⟨state', -, hrecorded⟩ := (Worklist.solve_keeps (Q := fun _ _ => True)
        (fun _ _ _ _ _ _ _ => trivial) ht (fun _ => trivial)).2.2 b hmem
      have hstate : state.Le state' := fun r _ ht => by rw [hempty hb r] at ht; cases ht
      obtain ⟨site', hsite', hmore⟩ := record_mono hstate hrecord
      exact ⟨site', hrecorded site' hsite', hmore⟩

/-! ## The instructions that are flagged -/

/-- The line is about an instruction of the function. -/
def Names (f : FunctionAnalysis) (line : String) (addr : Nat) : Prop :=
  ∃ rest : List Char, line.toList
    = (f.image.path ++ ": " ++ functionName f.image f.range.start ++ ": ").toList
      ++ ((hex addr).toList ++ ':' :: rest)

/-- **Flagged**: the analysis has a line about the instruction. -/
def Flags (f : FunctionAnalysis) (seed : Registers) (addr : Nat) : Prop :=
  ∃ line ∈ (f.result seed).violations, f.Names line addr

theorem names_unique {line : String} {a a' : Nat} (h : f.Names line a) (h' : f.Names line a') :
    a = a' := by
  obtain ⟨rest, hline⟩ := h
  obtain ⟨rest', hline'⟩ := h'
  have htext := List.append_cancel_left (hline.symm.trans hline')
  have hhex : ∀ k, (hex k).toList = '0' :: 'x' :: Nat.toDigits 16 k := fun k => by simp [hex]
  have hword : ∀ k, ∀ c ∈ (hex k).toList, (c != ':') = true := by
    intro k c hc
    rw [hhex, List.mem_cons, List.mem_cons] at hc
    rcases hc with rfl | rfl | hdigit
    · decide
    · decide
    · simpa using Words.ne_of_mem_toDigits (by decide) hdigit
  have hsame := Words.word_unique (hword a) (hword a') (by simp) (by simp) htext
  rw [hhex, hhex] at hsame
  injection hsame with _ hsame
  injection hsame with _ hsame
  exact Words.toDigits_injective hsame

theorem names_accessViolation (addr mrsAt offset : Nat) :
    f.Names (f.accessViolation addr mrsAt offset) addr :=
  ⟨_, by simp only [accessViolation, String.toList_append, List.append_assoc]; rfl⟩

theorem names_useViolation (addr mrsAt : Nat) (op : Op) :
    f.Names (f.useViolation addr mrsAt op) addr :=
  ⟨_, by simp only [useViolation, String.toList_append, List.append_assoc]; rfl⟩

/-- What `Report` has against an instruction, in the states in front of it. -/
def Objects (inst : Inst) (state certain : Registers) : Prop :=
  inst.op ≠ .mrs ∧ ∃ r < 31, state.tracked r = true ∧
    ((fixedOffsetAccess inst r = true ∧ isAllowedOffset (accessOffset inst) = false) ∨
      (fixedOffsetAccess inst r = false ∧ certain.tracked r = true ∧ usesReg inst r = true))

theorem Objects.mono {inst : Inst} {state certain state' certain' : Registers}
    (h : Objects inst state certain) (hstate : state.Le state') (hcertain : certain.Le certain') :
    Objects inst state' certain' := by
  obtain ⟨hmrs, r, hr, ht, hobjects⟩ := h
  refine ⟨hmrs, r, hr, hstate r (by omega) ht, ?_⟩
  rcases hobjects with hoffset | ⟨hfixed, hheld, huses⟩
  · exact Or.inl hoffset
  · exact Or.inr ⟨hfixed, hcertain r (by omega) hheld, huses⟩

theorem reportInst_iff {addr : Nat} {inst : Inst} {state certain : Registers} :
    (∃ line, line ∈ f.reportInst addr inst state certain) ↔ Objects inst state certain := by
  by_cases hmrs : inst.op = .mrs
  · rw [reportInst, if_pos hmrs]
    simp [Objects, hmrs]
  · rw [reportInst, if_neg hmrs]
    simp only [List.mem_flatMap, List.mem_range, Objects, ne_eq, hmrs, not_false_eq_true, true_and]
    constructor
    · rintro ⟨line, r, hr, hline⟩
      refine ⟨r, hr, ?_⟩
      cases ht : state.tracked r <;> cases hfixed : fixedOffsetAccess inst r <;>
        cases hoffset : isAllowedOffset (accessOffset inst) <;>
        simp [ht, hfixed, hoffset] at hline ⊢ <;> simp [hline]
    · rintro ⟨r, hr, ht, ⟨hfixed, hoffset⟩ | ⟨hfixed, hheld, huses⟩⟩
      · exact ⟨_, r, hr, by simp [ht, hfixed, hoffset]; rfl⟩
      · exact ⟨_, r, hr, by simp [ht, hfixed, hheld, huses]; rfl⟩

theorem names_of_mem_reportInst {addr : Nat} {inst : Inst} {state certain : Registers}
    {line : String} (h : line ∈ f.reportInst addr inst state certain) : f.Names line addr := by
  rcases mem_reportInst_addr h with ⟨m, o, rfl⟩ | ⟨m, op, rfl⟩
  · exact names_accessViolation addr m o
  · exact names_useViolation addr m op

/-- **A larger seed flags more.** -/
theorem flags_mono {s t : Registers} (h : s.Le t) {addr : Nat} (hflags : f.Flags s addr) :
    f.Flags t addr := by
  obtain ⟨mayIn, log, mustIn, calls, hmay, hmust, hlines⟩ := f.mem_violations_iff s
  obtain ⟨mayIn', log', mustIn', calls', hmay', hmust', hlines'⟩ := f.mem_violations_iff t
  obtain ⟨line, hline, hnames⟩ := hflags
  obtain ⟨i, block, hget, hreport⟩ := (hlines line).mp hline
  obtain ⟨a, ha, inst, hi, hinst⟩ := mem_report_iff.mp hreport
  have haddr : addr = a := names_unique hnames (names_of_mem_reportInst hinst)
  subst haddr
  have hobjects := (reportInst_iff.mp ⟨line, hinst⟩).mono
    (fun r hr => run_mono (mayIn_mono h hmay hmay' i r hr) _ _)
    (fun r hr => run_mono (mustIn_mono h hmust hmust' i r hr) _ _)
  obtain ⟨line', hline'⟩ := (reportInst_iff (f := f)).mpr hobjects
  have hreport' := mem_report_iff.mpr ⟨addr, ha, inst, hi, hline'⟩
  exact ⟨line', (hlines' line').mpr ⟨i, block, hget, hreport'⟩, names_of_mem_reportInst hline'⟩

/-- Every line flags an instruction. -/
theorem flags_of_mem {seed : Registers} {line : String}
    (h : line ∈ (f.result seed).violations) : ∃ addr, f.Flags seed addr := by
  obtain ⟨mayIn, log, mustIn, calls, -, -, hlines⟩ := f.mem_violations_iff seed
  obtain ⟨i, block, -, hreport⟩ := (hlines line).mp h
  obtain ⟨addr, -, inst, -, hinst⟩ := mem_report_iff.mp hreport
  exact ⟨addr, line, h, names_of_mem_reportInst hinst⟩

end FunctionAnalysis

end Katabasis
