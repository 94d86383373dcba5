import Katabasis.Lib.LittleEndian
import Katabasis.Xlate.Expressions
import Katabasis.Xlate.Layout

set_option autoImplicit false

/-! # The recovery of jump tables

`JumpTables::Resolve` (`xlate/src/xlate.cpp`) finds the targets of an indirect branch that goes
through a table: `FindLoad` the load of an entry in the expression of the target, `FindIndex` the
index in the address of that load. Then it goes through the values of the index, and takes from
each entry the target it decodes to.

How far the table reaches is told by the conditions that guard the load (`Guards`): the values of
the index that they admit are a run of numbers, which need not start at 0, and the entries on both
sides of the run are other memory. A guard that does not depend on the index alone says nothing;
the source tells it by evaluating it at 0 and at 1.

LLVM's analyses are a part of what is given (`Lifted`): the greatest value of the index, where its
range is known, and the blocks of the function.
-/

namespace Katabasis

namespace JumpTables

/-! ## The load and the index -/

/-- The operand of a cast between integer widths. -/
def Value.widthOperand : Value → Option Value
  | .cast _ .zext _ a => some a
  | .cast _ .sext _ a => some a
  | .cast _ .trunc _ a => some a
  | _ => none

def Value.isInstruction : Value → Bool
  | .constant .. | .argument .. | .constantIntToPtr _ => false
  | .other _ _ instruction => instruction
  | _ => true

def Value.isConstant : Value → Bool
  | .constant .. => true
  | _ => false

def Value.isArgument : Value → Bool
  | .argument .. => true
  | _ => false

def Value.isBinary : Value → Bool
  | .binary .. => true
  | _ => false

def Value.isCast : Value → Bool
  | .cast .. => true
  | _ => false

mutual

/-- `StripCasts`: casts between widths are looked through, and before each one between pointers
and integers. -/
def Value.stripCasts : Value → Value
  | .constantIntToPtr a => a.stripWidths
  | .cast _ .intToPtr _ a => a.stripWidths
  | .cast _ .ptrToInt _ a => a.stripWidths
  | .cast _ .zext _ a => a.stripCasts
  | .cast _ .sext _ a => a.stripCasts
  | .cast _ .trunc _ a => a.stripCasts
  | value => value

/-- The rest of a round of the loop, behind `Strip`. -/
def Value.stripWidths : Value → Value
  | .cast _ .zext _ a => a.stripCasts
  | .cast _ .sext _ a => a.stripCasts
  | .cast _ .trunc _ a => a.stripCasts
  | value => value

end

theorem Value.stripCasts_eq (value : Value) : value.stripCasts = value.strip.stripWidths := by
  cases value with
  | cast name op dest a => cases op <;> rfl
  | _ => rfl

/-- `FindLoad`: the one load in an expression, `none` where the source returns false. -/
def findLoad : Nat → Value → Option LoadInst → Option (Option LoadInst)
  | 0, _, _ => none
  | levels + 1, value, load =>
      match value with
      | .load name bits pointer =>
          let found : LoadInst := { name, bits, pointer }
          if load.any fun l => l ≠ found then none else some (some found)
      | .constant .. => some load
      | .binary _ _ a b => do
          let load ← findLoad levels a load
          findLoad levels b load
      | .cast _ _ _ a => findLoad levels a load
      | _ => none

/-- The indices of a `getelementptr`: the constant ones aside, they are one value. -/
def findIndexOperands : Indices → Option Value → Option (Option Value)
  | .nil, index => some index
  | .cons _ operand rest, index =>
      if operand.isConstant then findIndexOperands rest index
      else
        let candidate := operand.stripCasts
        if index.any fun i => i ≠ candidate then none
        else findIndexOperands rest (some candidate)

/-- `FindIndex`: the one varying value in an address, `none` where the source returns false. -/
def findIndex : Nat → Value → Option Value → Option (Option Value)
  | 0, _, _ => none
  | levels + 1, value, index =>
      let value := value.strip
      match value with
      | .constant .. => some index
      | .gep _ pointer indices => do
          let index ← findIndex levels pointer index
          findIndexOperands indices index
      | .binary _ _ a b => do
          let index ← findIndex levels a index
          findIndex levels b index
      | _ =>
          match value.widthOperand with
          | some a =>
              if index = none ∧ a.isInstruction ∧ ¬ a.isBinary ∧ ¬ a.isCast then some (some a)
              else findIndex levels a index
          | none =>
              if value.isInstruction ∨ value.isArgument then
                if index.any fun i => i ≠ value then none else some (some value)
              else none

/-- The levels of a call with depth 0: the searches go 12 levels deep. -/
def searchLevels : Nat := 13

/-! ## The guards -/

/-- A basic block, as far as `Guards` looks at it. -/
structure BasicBlock where
  singlePredecessor : Option Nat := none
  /-- Of a conditional branch at its end, the condition and the two successors. -/
  branch : Option (Value × Nat × Nat) := none

/-- What the analyses of LLVM say of the lifted function. -/
structure Lifted where
  block : Nat → BasicBlock
  /-- The block of a load. -/
  parent : LoadInst → Nat
  /-- The greatest value of the index at the load, where its range is not the full set. -/
  greatest : Value → LoadInst → Option Nat

/-- The condition by which the predecessor of a block goes to it. -/
def guardOf (pred : BasicBlock) (bb : Nat) : List (Value × Bool) :=
  match pred.branch with
  | some (condition, whenTrue, whenFalse) =>
      if whenTrue = bb then [(condition, true)]
      else if whenFalse = bb then [(condition, false)]
      else []
  | none => []

/-- `Guards`, with the steps it has left. -/
def guardsFrom (fn : Lifted) : Nat → Nat → List (Value × Bool)
  | 0, _ => []
  | steps + 1, bb =>
      match (fn.block bb).singlePredecessor with
      | none => []
      | some pred => guardOf (fn.block pred) bb ++ guardsFrom fn steps pred

def guards (fn : Lifted) (bb : Nat) : List (Value × Bool) := guardsFrom fn 32 bb

/-! ## `Resolve` -/

/-- What the scan of a table goes by. -/
structure Table where
  program : Program
  /-- The address that is branched to. -/
  pc : Value
  load : LoadInst
  index : Value
  limit : Nat
  guards : List (Value × Bool)
  start : BitVec 64
  stop : BitVec 64

namespace Table

variable (t : Table)

/-- A condition at a value of the index; the loaded entry counts as zero. -/
def condition (condition : Value) (i : Nat) : Option (BitVec 64) :=
  evaluate t.index (BitVec.ofNat 64 i) (some t.load) (some 0) maxLevels condition

def inDomain (i : Nat) : Bool :=
  t.guards.all fun guard =>
    match t.condition guard.1 i with
    | some value => decide (value ≠ 0) = guard.2
    | none => true

/-- The size of an entry in bytes. -/
def width : Nat := t.load.bits / 8

/-- The address of an entry. -/
def address (i : Nat) : Option (BitVec 64) :=
  evaluate t.index (BitVec.ofNat 64 i) none none maxLevels t.load.pointer

/-- The entry at an address. -/
def read (address : BitVec 64) : Option (BitVec 64) := do
  let image ← t.program.imageAt (UInt64.ofBitVec address)
  let bytes ← image.readBytes (UInt64.ofBitVec address) (UInt64.ofNat t.width)
  some (BitVec.ofNat 64 (LittleEndian.ofBytes bytes))

def target (i : Nat) (raw : BitVec 64) : Option (BitVec 64) :=
  evaluate t.index (BitVec.ofNat 64 i) (some t.load) (some raw) maxLevels t.pc

/-- A target is an instruction of the function. -/
def accepts (target : BitVec 64) : Bool :=
  !(target.ult t.start || t.stop.ule target || target &&& 3 ≠ 0)

/-- The loop from an index on, with the indices left to the limit. -/
def scan : Nat → Nat → Bool → Finset (BitVec 64) → Finset (BitVec 64)
  | 0, _, _, targets => targets
  | left + 1, i, accepted, targets =>
      if t.inDomain i then
        match (t.address i).bind t.read with
        | none => targets
        | some raw =>
            match (t.target i raw).filter t.accepts with
            | some target => scan left (i + 1) true (insert target targets)
            | none =>
                if t.limit = 4096 ∧ t.guards = [] then targets
                else scan left (i + 1) accepted targets
      else if accepted then targets
      else scan left (i + 1) accepted targets

end Table

/-- How many values of the index are looked at. -/
def limit (fn : Lifted) (index : Value) (load : LoadInst) : Nat :=
  match fn.greatest index load with
  | some greatest =>
      if index.bits = 0 ∨ greatest = 2 ^ index.bits - 1 then 4096 else min 4096 (greatest + 1)
  | none => 4096

/-- The table that a target expression goes through, with all guards of its load. -/
def table (program : Program) (fn : Lifted) (pc : Value) (start stop : BitVec 64) :
    Option Table := do
  let load ← (← findLoad searchLevels pc none)
  let index ← (← findIndex searchLevels load.pointer none)
  some { program, pc, load, index, limit := limit fn index load,
         guards := guards fn (fn.parent load), start, stop }

namespace Table

/-- A guard is kept if it can be evaluated at two values of the index. -/
def probes (t : Table) (guard : Value × Bool) : Bool :=
  (t.condition guard.1 0).isSome && (t.condition guard.1 1).isSome

/-- The table with the guards that are kept. -/
def probed (t : Table) : Table := { t with guards := t.guards.filter t.probes }

/-- What `Resolve` makes of a table. -/
def resolve (t : Table) (targets : Finset (BitVec 64)) : Finset (BitVec 64) :=
  if t.width = 0 ∨ 8 < t.width then targets else t.probed.scan t.limit 0 false targets

end Table

/-- `Resolve` -/
def resolve (program : Program) (fn : Lifted) (pc : Value) (start stop : BitVec 64)
    (targets : Finset (BitVec 64)) : Finset (BitVec 64) :=
  match table program fn pc start stop with
  | none => targets
  | some t => t.resolve targets

/-! ## What the scan collects -/

namespace Table

variable (t : Table)

/-- The target of an entry, if the function has an instruction there. -/
def entry (i : Nat) : Option (BitVec 64) := do
  let address ← t.address i
  let raw ← t.read address
  (t.target i raw).filter t.accepts

/-- All guards are evaluated at the value, each to what it has to be. -/
def Admits (i : Nat) : Prop :=
  ∀ guard ∈ t.guards, (t.condition guard.1 i).map (fun value => decide (value ≠ 0)) = some guard.2

instance (i : Nat) : Decidable (t.Admits i) := inferInstanceAs (Decidable (∀ _ ∈ _, _))

/-- **A guarded table**: its guards can be evaluated at each value of the index and admit the ones
of an interval, where the entries can be read. -/
structure Guarded (lo hi : Nat) : Prop where
  width : t.width ≠ 0 ∧ t.width ≤ 8
  evaluable : ∀ guard ∈ t.guards, ∀ i < t.limit, (t.condition guard.1 i).isSome
  admitted : ∀ i < t.limit, t.Admits i ↔ lo ≤ i ∧ i < hi
  readable : ∀ i < t.limit, lo ≤ i → i < hi → ((t.address i).bind t.read).isSome
  bounded : t.guards ≠ [] ∨ t.limit < 4096

variable {t}

theorem inDomain_iff {i : Nat} (h : ∀ guard ∈ t.guards, (t.condition guard.1 i).isSome) :
    t.inDomain i = true ↔ t.Admits i := by
  rw [inDomain, List.all_eq_true]
  apply forall_congr'
  intro guard
  apply forall_congr'
  intro hguard
  obtain ⟨value, hvalue⟩ := Option.isSome_iff_exists.mp (h guard hguard)
  rw [hvalue, Option.map_some, Option.some.injEq]
  exact decide_eq_true_iff

/-- **What the loop adds**, from an index on: the entries of the interval that are still ahead. It
has accepted an entry only if the interval has begun. -/
theorem mem_scan {lo hi : Nat} (hdomain : ∀ i < t.limit, t.inDomain i = true ↔ lo ≤ i ∧ i < hi)
    (hreadable : ∀ i < t.limit, lo ≤ i → i < hi → ((t.address i).bind t.read).isSome)
    (hbounded : ¬ (t.limit = 4096 ∧ t.guards = [])) (target : BitVec 64) :
    ∀ (left i : Nat) (accepted : Bool) (targets : Finset (BitVec 64)), i + left = t.limit →
      (accepted = true → lo ≤ i) →
      (target ∈ t.scan left i accepted targets ↔ target ∈ targets ∨
        ∃ j, i ≤ j ∧ j < t.limit ∧ lo ≤ j ∧ j < hi ∧ t.entry j = some target) := by
  intro left
  induction left with
  | zero =>
      intro i accepted targets hleft hbegun
      rw [scan]
      constructor
      · exact Or.inl
      · rintro (hold | ⟨j, hij, hj, -⟩)
        · exact hold
        · omega
  | succ left ih =>
      intro i accepted targets hleft hbegun
      have hlimit : i < t.limit := by omega
      -- what is ahead of `i` is the entry there, and what is ahead of the next
      have hahead : (∃ j, i ≤ j ∧ j < t.limit ∧ lo ≤ j ∧ j < hi ∧ t.entry j = some target) ↔
          (lo ≤ i ∧ i < hi ∧ t.entry i = some target) ∨
          ∃ j, i + 1 ≤ j ∧ j < t.limit ∧ lo ≤ j ∧ j < hi ∧ t.entry j = some target := by
        constructor
        · rintro ⟨j, hij, hj⟩
          rcases Nat.eq_or_lt_of_le hij with rfl | hlt
          · exact Or.inl hj.2
          · exact Or.inr ⟨j, hlt, hj⟩
        · rintro (hhere | ⟨j, hij, hj⟩)
          · exact ⟨i, le_refl i, hlimit, hhere⟩
          · exact ⟨j, by omega, hj⟩
      rw [hahead, scan]
      by_cases hin : t.inDomain i = true
      · obtain ⟨hlo, hhi⟩ := (hdomain i hlimit).mp hin
        obtain ⟨raw, hraw⟩ := Option.isSome_iff_exists.mp (hreadable i hlimit hlo hhi)
        have hentry : t.entry i = (t.target i raw).filter t.accepts := by
          obtain ⟨address, haddress, hread⟩ := Option.bind_eq_some_iff.mp hraw
          rw [entry, haddress]
          simp only [Option.bind_eq_bind, Option.bind_some, hread]
        rw [if_pos hin, hraw]
        simp only
        rw [← hentry]
        cases hfound : t.entry i with
        | none =>
            simp only
            rw [if_neg hbounded, ih (i + 1) accepted targets (by omega)
              (fun h => Nat.le_succ_of_le (hbegun h))]
            simp only [reduceCtorEq, and_false, false_or]
        | some found =>
            simp only
            rw [ih (i + 1) true (insert found targets) (by omega) (fun _ => by omega),
              Finset.mem_insert, Option.some.injEq]
            constructor
            · rintro ((rfl | hold) | hnext)
              · exact Or.inr (Or.inl ⟨hlo, hhi, rfl⟩)
              · exact Or.inl hold
              · exact Or.inr (Or.inr hnext)
            · rintro (hold | ⟨-, -, rfl⟩ | hnext)
              · exact Or.inl (Or.inr hold)
              · exact Or.inl (Or.inl rfl)
              · exact Or.inr hnext
      · have hout : ¬ (lo ≤ i ∧ i < hi) := fun h => hin ((hdomain i hlimit).mpr h)
        have hhere : ¬ (lo ≤ i ∧ i < hi ∧ t.entry i = some target) :=
          fun h => hout ⟨h.1, h.2.1⟩
        rw [if_neg hin, or_iff_right hhere]
        split
        case isTrue haccepted =>
            -- the interval has begun, so it is over
            have hlo := hbegun haccepted
            constructor
            · exact Or.inl
            · rintro (hold | ⟨j, hij, -, -, hj, -⟩)
              · exact hold
              · omega
        case isFalse haccepted =>
            rw [ih (i + 1) accepted targets (by omega) (fun h => absurd h haccepted)]

theorem accepts_iff {target : BitVec 64} : t.accepts target = true ↔
    t.start.toNat ≤ target.toNat ∧ target.toNat < t.stop.toNat ∧ target.toNat % 4 = 0 := by
  have haligned : target &&& 3 = 0 ↔ target.toNat % 4 = 0 := by
    rw [← BitVec.toNat_inj, BitVec.toNat_and]
    exact iff_of_eq (congrArg (· = 0) (Nat.and_two_pow_sub_one_eq_mod target.toNat 2))
  rw [accepts, Bool.not_eq_true', Bool.or_eq_false_iff, Bool.or_eq_false_iff, decide_eq_false_iff_not,
    not_not, haligned, BitVec.ult, BitVec.ule, decide_eq_false_iff_not, decide_eq_false_iff_not,
    not_lt, not_le, and_assoc]

/-- The set of targets that the entries of an interval decode to, with the ones there were. -/
def Collects (t : Table) (lo hi : Nat) (targets result : Finset (BitVec 64)) : Prop :=
  ∀ target, target ∈ result ↔ target ∈ targets ∨
    ∃ i address raw, i < t.limit ∧ lo ≤ i ∧ i < hi ∧ t.address i = some address ∧
      t.read address = some raw ∧ t.target i raw = some target ∧
      t.start.toNat ≤ target.toNat ∧ target.toNat < t.stop.toNat ∧ target.toNat % 4 = 0

theorem entry_eq_some_iff {i : Nat} {target : BitVec 64} : t.entry i = some target ↔
    ∃ address raw, t.address i = some address ∧ t.read address = some raw ∧
      t.target i raw = some target ∧
      t.start.toNat ≤ target.toNat ∧ target.toNat < t.stop.toNat ∧ target.toNat % 4 = 0 := by
  constructor
  · intro h
    obtain ⟨address, haddress, h⟩ := Option.bind_eq_some_iff.mp h
    obtain ⟨raw, hraw, h⟩ := Option.bind_eq_some_iff.mp h
    obtain ⟨htarget, haccepts⟩ := Option.filter_eq_some_iff.mp h
    exact ⟨address, raw, haddress, hraw, htarget, accepts_iff.mp haccepts⟩
  · rintro ⟨address, raw, haddress, hraw, htarget, haccepts⟩
    rw [entry, haddress]
    simp only [Option.bind_eq_bind, Option.bind_some, hraw, htarget]
    exact Option.filter_eq_some_iff.mpr ⟨rfl, accepts_iff.mpr haccepts⟩

/-- Where each guard can be evaluated at both values it is probed with, all are kept. -/
theorem probed_eq (h : ∀ guard ∈ t.guards, t.probes guard = true) : t.probed = t := by
  rw [probed, List.filter_eq_self.mpr h]

/-- **A guarded table gives exactly the targets of its interval**, if no guard is discarded. -/
theorem Guarded.collects {lo hi : Nat} (h : t.Guarded lo hi)
    (hprobes : ∀ guard ∈ t.guards, t.probes guard = true) (targets : Finset (BitVec 64)) :
    t.Collects lo hi targets (t.resolve targets) := by
  intro target
  -- the scan's test is the interval, and it does not give up at the limit
  have hdomain : ∀ i < t.limit, t.inDomain i = true ↔ lo ≤ i ∧ i < hi := by
    intro i hi
    rw [inDomain_iff fun guard hguard => h.evaluable guard hguard i hi]
    exact h.admitted i hi
  have hbounded : ¬ (t.limit = 4096 ∧ t.guards = []) := by
    rintro ⟨hlimit, hguards⟩
    rcases h.bounded with hsome | hlt
    · exact hsome hguards
    · omega
  have hwidth : ¬ (t.width = 0 ∨ 8 < t.width) := by
    have := h.width
    omega
  rw [resolve, if_neg hwidth, probed_eq hprobes,
    mem_scan hdomain h.readable hbounded target t.limit 0 false targets (by omega)
      (fun hfalse => nomatch hfalse)]
  apply or_congr_right
  constructor
  · rintro ⟨i, -, hi, hlo, hhi, hentry⟩
    obtain ⟨address, raw, hrest⟩ := entry_eq_some_iff.mp hentry
    exact ⟨i, address, raw, hi, hlo, hhi, hrest⟩
  · rintro ⟨i, address, raw, hi, hlo, hhi, hrest⟩
    exact ⟨i, Nat.zero_le i, hi, hlo, hhi, entry_eq_some_iff.mpr ⟨address, raw, hrest⟩⟩

end Table

theorem limit_pos (fn : Lifted) (index : Value) (load : LoadInst) : 0 < limit fn index load := by
  rw [limit]
  split
  · split <;> omega
  · omega

/-- **`Resolve` collects exactly the guarded domain**: for a table whose guards can be evaluated
at each value of the index, and at 1, the targets of the entries that the guards admit. -/
theorem resolve_collects {program : Program} {fn : Lifted} {pc : Value} {start stop : BitVec 64}
    {t : Table} (htable : table program fn pc start stop = some t) {lo hi : Nat}
    (h : t.Guarded lo hi) (hprobe : ∀ guard ∈ t.guards, (t.condition guard.1 1).isSome)
    (targets : Finset (BitVec 64)) :
    t.Collects lo hi targets (resolve program fn pc start stop targets) := by
  have hpos : 0 < t.limit := by
    obtain ⟨load', -, hrest⟩ := Option.bind_eq_some_iff.mp htable
    obtain ⟨load, -, hrest⟩ := Option.bind_eq_some_iff.mp hrest
    obtain ⟨index', -, hrest⟩ := Option.bind_eq_some_iff.mp hrest
    obtain ⟨index, -, hrest⟩ := Option.bind_eq_some_iff.mp hrest
    rw [← Option.some.inj hrest]
    exact limit_pos fn index load
  rw [resolve, htable]
  refine h.collects (fun guard hguard => ?_) targets
  rw [Table.probes, h.evaluable guard hguard 0 hpos, hprobe guard hguard, Bool.and_self]

/-! ## A table of bytes -/

/-- An image with four bytes at `0x1000`. -/
def byteProgram : Program where
  images := [{ segments := [{ name := "__TEXT", vmaddr := 0x1000, vmsize := 4, filesize := 4 }],
               data := [0x10, 0x11, 0x18, 0x1c] }]

/-- `load i8, getelementptr i8, inttoptr 0x1000, index` -/
def byteLoad : LoadInst where
  name := 1
  bits := 8
  pointer := .gep 2 (.constantIntToPtr (.constant 32 0x1000)) (.cons (.array 1) (.argument 0 32) .nil)

/-- `0x1000 + zext(entry)` -/
def bytePc : Value := .binary 3 .add (.constant 32 0x1000) (.cast 4 .zext 32 byteLoad.value)

/-- The load is behind a branch on a condition; the greatest value of the index is known. -/
def byteLifted (condition : Value) (greatest : Nat) : Lifted where
  block := fun
    | 0 => { branch := some (condition, 1, 2) }
    | _ => { singlePredecessor := some 0 }
  parent := fun _ => 1
  greatest := fun _ _ => some greatest

/-- The table of it. -/
def byteTable (condition : Value) (greatest : Nat) : Table where
  program := byteProgram
  pc := bytePc
  load := byteLoad
  index := .argument 0 32
  limit := min 4096 (greatest + 1)
  guards := guards (byteLifted condition greatest) 1
  start := 0x1000
  stop := 0x1100

/-- `1 <= index`, and `index < 3`: one of the two entries is no instruction. -/
def byteRange : Value :=
  .binary 5 .and (.icmp 6 .uge (.argument 0 32) (.constant 32 1))
    (.icmp 7 .ult (.argument 0 32) (.constant 32 3))

/-- The interval starts above 0. -/
theorem resolve_collects_byte :
    (byteTable byteRange 3).Collects 1 3 ∅
      (resolve byteProgram (byteLifted byteRange 3) bytePc 0x1000 0x1100 ∅) :=
  resolve_collects (t := byteTable byteRange 3) rfl
    { width := by decide
      evaluable := by decide
      admitted := by decide
      readable := by decide
      bounded := by decide } (by decide) ∅

/-- `select (index = 0), false, unknown`: nothing is admitted at 0, and 1 is past the limit. -/
def byteUnknown : Value :=
  .select 8 (.icmp 9 .eq (.argument 0 32) (.constant 32 0)) (.constant 1 0) (.argument 10 1)

/-- A guard that can be evaluated at the only value of the index is discarded all the same. -/
theorem not_collects_only :
    ¬ ∀ (program : Program) (fn : Lifted) (pc : Value) (start stop : BitVec 64) (t : Table)
      (lo hi : Nat) (targets : Finset (BitVec 64)), table program fn pc start stop = some t →
      t.Guarded lo hi → t.Collects lo hi targets (resolve program fn pc start stop targets) := by
  intro hclaim
  have htable : table byteProgram (byteLifted byteUnknown 0) bytePc 0x1000 0x1100
      = some (byteTable byteUnknown 0) := rfl
  have hguarded : (byteTable byteUnknown 0).Guarded 0 0 :=
    { width := by decide
      evaluable := by decide
      admitted := by decide
      readable := by decide
      bounded := by decide }
  have hcollects := hclaim _ _ _ _ _ _ 0 0 ∅ htable hguarded 0x1010
  have hmem : 0x1010#64 ∈ resolve byteProgram (byteLifted byteUnknown 0) bytePc 0x1000 0x1100 ∅ := by
    decide
  rcases hcollects.mp hmem with hold | ⟨i, -, -, -, -, hi, -⟩
  · cases hold
  · omega

end JumpTables

end Katabasis
