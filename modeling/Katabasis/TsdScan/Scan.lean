import Katabasis.TsdScan.Soundness

set_option autoImplicit false

/-! # The scan of an image

`ScanTSDOffsets` (`xlate/src/tsd_scan.cpp`): the executable sections are decoded, the function
starts of the image become ranges, and the functions that read `TPIDRRO_EL0` are analysed. A
call in which a callee-saved register carries the base gives the callee a seed, and a callee
whose seed grew is analysed in the next round.

Two choices are left to the standard library and are parameters here: which of several ranges
with one start `std::sort` puts first, and in what order a round goes through the pending set.
-/

namespace Katabasis

/-! ## The decoded sections -/

/-- `S_ATTR_PURE_INSTRUCTIONS | S_ATTR_SOME_INSTRUCTIONS` -/
def instructionFlags : UInt32 := 0x80000000 ||| 0x400

/-- The words copied out of a section: `memcpy` of `words * 4` bytes, with that product an
`unsigned int`. -/
def rawWords (bytes : List UInt8) (words : Nat) : List UInt32 :=
  (List.range words).map fun i =>
    if 4 * i < words * 4 % 2 ^ 32 then
      (List.range 4).foldr (fun k word => word * 256 + (bytes.getD (4 * i + k) 0).toUInt32) 0
    else 0

/-- A scan: `decode` is farmdec's decoder of one instruction, `opcode` its numbering. -/
structure Scan where
  image : Image
  decode : UInt32 → Inst
  opcode : Op → Nat
  /-- `std::sort` of the ranges by their start. -/
  sort : List FunctionRange → List FunctionRange
  /-- The order in which an `unordered_set` is gone through. -/
  order : List Nat → List Nat

namespace Scan

/-- What the standard promises of the two. -/
structure Lawful (scan : Scan) : Prop where
  perm : ∀ ranges, (scan.sort ranges).Perm ranges
  sorted : ∀ ranges, (scan.sort ranges).Pairwise fun a b => a.start ≤ b.start
  order_perm : ∀ starts, (scan.order starts).Perm starts

variable (scan : Scan)

def decodeSection (sec : Section) : Option CodeSection :=
  if sec.flags &&& instructionFlags = 0 then none
  else if sec.size < 4 then none
  else (scan.image.readBytes (scan.image.host sec.addr) sec.size).map fun bytes =>
    { addr := sec.addr.toNat
      size := sec.size.toNat
      insts := (rawWords bytes (sec.size.toNat / 4 % 2 ^ 32)).map scan.decode }

def code : Code := scan.image.sections.filterMap scan.decodeSection

/-! ## The ranges -/

/-- The function starts in order, each once. -/
def starts : List Nat :=
  (scan.image.functions.map UInt64.toNat).dedup.insertionSort (· ≤ ·)

/-- A range from each start in a decoded section up to the next start; none from the last. -/
def boundedRanges (code : Code) : List Nat → List FunctionRange
  | start :: next :: rest =>
      if (code.instAt start).isSome then ⟨start, next⟩ :: boundedRanges code (next :: rest)
      else boundedRanges code (next :: rest)
  | _ => []

/-- The last start that the ranges so far have in a section, 0 for none. -/
def lastStart (ranges : List FunctionRange) (sec : CodeSection) : Nat :=
  ranges.foldl
    (fun last range =>
      if range.start ≥ sec.addr ∧ range.start < sec.addr + sec.size then range.start else last)
    0

/-- The tail of the last function of a section, "which no next-start bounds". -/
def addTail (ranges : List FunctionRange) (sec : CodeSection) : List FunctionRange :=
  let last := lastStart ranges sec
  if last ≠ 0 ∧ last < sec.addr + sec.size then ranges ++ [⟨last, sec.addr + sec.size⟩]
  else ranges

def unsortedRanges : List FunctionRange :=
  scan.code.foldl addTail (boundedRanges scan.code scan.starts)

def ranges : List FunctionRange := scan.sort scan.unsortedRanges

/-- The range a start is analysed with: the first. -/
def rangeAt (start : Nat) : Option FunctionRange :=
  scan.ranges.find? fun range => range.start = start

/-! ## Seeds -/

def readsBase (inst : Inst) : Bool :=
  inst.op == .mrs && inst.imm == tpidrroEl0 && inst.rd != zeroReg

def hasMRS (range : FunctionRange) : Bool :=
  (FunctionAnalysis.addresses range.start range.stop).any fun addr =>
    decide (addr + 4 ≤ range.stop) && !inDataInCode scan.image.dataInCode addr &&
      (scan.code.instAt addr).any readsBase

/-- The functions with an `mrs` of their own, each once. -/
def initialPending : List Nat := ((scan.ranges.filter scan.hasMRS).map FunctionRange.start).dedup

def analysis (range : FunctionRange) : FunctionAnalysis where
  image := scan.image
  code := scan.code
  range := range
  functionStarts := scan.starts
  opcode := scan.opcode

end Scan

/-- The callee's seed with what one call carries. -/
def Registers.receive (seed : Registers) (site : CallSite) : Registers where
  tracked := fun r => seed.tracked r || (decide (19 ≤ r ∧ r ≤ 28) && site.tracked r)
  mrsAt := fun r =>
    if (19 ≤ r ∧ r ≤ 28) ∧ site.tracked r ∧ seed.mrsAt r = 0 then site.mrsAt r else seed.mrsAt r

/-- The call carries a register that the seed does not have. -/
def Registers.grows (seed : Registers) (site : CallSite) : Bool :=
  (List.range' 19 10).any fun r => site.tracked r && !seed.tracked r

/-- The seeds, and the callees whose seed grew. -/
structure Seeding where
  seeds : Nat → Registers := fun _ => {}
  next : List Nat := []

def Seeding.call (s : Seeding) (site : CallSite) : Seeding :=
  if site.resolvable then
    { seeds := Function.update s.seeds site.target ((s.seeds site.target).receive site)
      next := if (s.seeds site.target).grows site then s.next.insert site.target else s.next }
  else s

/-- One analysis of a function, with the seed it was given. -/
structure Analysed where
  range : FunctionRange
  seed : Registers

/-- The state of the propagation. `analysed` is kept for the statements about it only. -/
structure Propagation where
  seeding : Seeding := {}
  violations : List String := []
  analysed : List Analysed := []

namespace Seeding

/-- A call takes no register out of a seed. -/
theorem call_keeps {s : Seeding} {target r : Nat} (h : (s.seeds target).tracked r = true)
    (site : CallSite) : ((s.call site).seeds target).tracked r = true := by
  unfold call
  split
  case isTrue =>
      by_cases ht : target = site.target
      · simp only [ht, Function.update_self, Registers.receive] at h ⊢
        rw [h, Bool.true_or]
      · simp only [Function.update_of_ne ht]
        exact h
  case isFalse => exact h

theorem calls_keep {s : Seeding} {target r : Nat} (h : (s.seeds target).tracked r = true)
    (calls : List CallSite) : ((calls.foldl call s).seeds target).tracked r = true := by
  induction calls generalizing s with
  | nil => exact h
  | cons site rest ih => exact ih (call_keeps h site)

/-- **A call that carries a register seeds its callee with it.** -/
theorem calls_seed {calls : List CallSite} {site : CallSite} (hsite : site ∈ calls)
    (hres : site.resolvable = true) {r : Nat} (h19 : 19 ≤ r) (h28 : r ≤ 28)
    (h : site.tracked r = true) (s : Seeding) :
    ((calls.foldl call s).seeds site.target).tracked r = true := by
  induction calls generalizing s with
  | nil => cases hsite
  | cons first rest ih =>
      rw [List.foldl_cons]
      rcases List.mem_cons.mp hsite with rfl | hrest
      · apply calls_keep
        simp [call, hres, Registers.receive, h19, h28, h]
      · exact ih hrest _

/-- A pending callee stays pending. -/
theorem next_keeps {s : Seeding} {target : Nat} (h : target ∈ s.next) (calls : List CallSite) :
    target ∈ (calls.foldl call s).next := by
  induction calls generalizing s with
  | nil => exact h
  | cons site rest ih =>
      refine ih ?_
      unfold call
      split
      case isTrue =>
          simp only
          split
          case isTrue => exact List.mem_insert_of_mem h
          case isFalse => exact h
      case isFalse => exact h

/-- A register that is new in a seed makes its function pending. -/
theorem calls_next {s : Seeding} {calls : List CallSite} {target r : Nat}
    (h : ((calls.foldl call s).seeds target).tracked r = true) :
    (s.seeds target).tracked r = true ∨ target ∈ (calls.foldl call s).next := by
  induction calls generalizing s with
  | nil => exact Or.inl h
  | cons site rest ih =>
      rcases ih h with hcall | hnext
      · by_cases hold : (s.seeds target).tracked r = true
        · exact Or.inl hold
        · right
          -- the call gives the target the register, so it makes the target pending
          refine next_keeps ?_ rest
          unfold call at hcall ⊢
          split at hcall
          case isFalse => exact absurd hcall hold
          case isTrue hres =>
              rw [if_pos hres]
              simp only at hcall ⊢
              by_cases ht : target = site.target
              · subst ht
                simp only [Function.update_self, Registers.receive, hold, Bool.false_or,
                  Bool.and_eq_true, decide_eq_true_eq] at hcall
                have hgrows : (s.seeds site.target).grows site = true :=
                  List.any_eq_true.mpr ⟨r, by simp; omega, by simp [hcall.2, hold]⟩
                rw [if_pos hgrows]
                exact List.mem_insert_self
              · rw [Function.update_of_ne ht] at hcall
                exact absurd hcall hold
      · exact Or.inr hnext

end Seeding

namespace FunctionAnalysis

variable (f : FunctionAnalysis)

/-- What `Run` returns. -/
def result (seed : Registers) : FunctionResult := (f.analyse seed).getD ⟨[], [], []⟩

end FunctionAnalysis

namespace Scan

variable (scan : Scan)

/-- One pending function. -/
def visit (p : Propagation) (start : Nat) : Propagation :=
  match scan.rangeAt start with
  | none => p
  | some range =>
      let seed := p.seeding.seeds start
      let result := (scan.analysis range).result seed
      { seeding := result.calls.foldl Seeding.call p.seeding
        violations := p.violations ++ result.violations
        analysed := p.analysed ++ [⟨range, seed⟩] }

/-- One round: the callees whose seed grew are pending in the next. -/
def round (p : Propagation) : Propagation :=
  (scan.order p.seeding.next).foldl scan.visit
    { p with seeding := { p.seeding with next := [] } }

/-- `kMaxRounds` -/
def maxRounds : Nat := 4096

/-- The rounds, and whether they ended within so many. -/
def propagate : Nat → Propagation → Propagation × Bool
  | 0, p => (p, p.seeding.next.isEmpty)
  | rounds + 1, p => if p.seeding.next.isEmpty then (p, true) else propagate rounds (scan.round p)

/-- The propagation from the functions with an `mrs` of their own. -/
def propagated (violations : List String) : Propagation × Bool :=
  scan.propagate maxRounds
    { seeding := { next := scan.initialPending }, violations }

/-- The line of a propagation cut off. -/
def unsettledViolation : String :=
  scan.image.path ++ ": the TSD scan's interprocedural seed propagation did not settle in " ++
    toString maxRounds ++ " rounds; fix xlate/src/tsd_scan.cpp"

/-- `ScanTSDOffsets`, on the lines of the images before: what it returns, and the lines. -/
def scanTSDOffsets (violations : List String) : Bool × List String :=
  let (p, settled) := scan.propagated violations
  if settled then
    let lines := p.violations.dedup.insertionSort (· ≤ ·)
    (lines.isEmpty, lines)
  else (false, p.violations ++ [scan.unsettledViolation])

end Scan

end Katabasis
