import Katabasis.Lib.Worklist
import Katabasis.Macho.Image

set_option autoImplicit false

/-! # The scan for accesses off `TPIDRRO_EL0`

`FunctionAnalysis` (`xlate/src/tsd_scan.cpp`): the blocks of one function, the registers that
may hold the thread's TSD base on entry to each, and a line for every load or store off such a
register at an offset that is not on the audited list. Instructions are as farmdec decodes
them; addresses are naturals, since the addresses of an image do not wrap.
-/

namespace Katabasis

/-- `ZERO_REG`; registers are numbers. -/
def zeroReg : Nat := 31

/-- The operations the scan tells apart. -/
inductive Op
  | error | unknown
  | mrs | ldr | str
  | b | bl | br | blr | bcond | cbz | cbnz | tbz | tbnz
  | ret | svc | brk | hvc | smc | dcps1 | dcps2 | dcps3
  | ldp | ldnp | ldxp | stnp | stp | stxr | stxp
  | ld1Mult | st1Mult | ld2Mult | st2Mult | ld3Mult | st3Mult | ld4Mult | st4Mult
  | ld1Single | st1Single | ld2Single | st2Single | ld3Single | st3Single | ld4Single | st4Single
  | ld1r | ld2r | ld3r | ld4r
  | ldnpFp | stnpFp | ldpFp | stpFp | ldrFp | strFp
  | other (code : Nat)
  deriving DecidableEq, Repr

/-- A decoded instruction: the fields the scan reads. `rd` is also farmdec's `rt`, and `rm` its
`rt2` and `rs`. -/
structure Inst where
  op : Op
  rd : Nat := zeroReg
  rn : Nat := zeroReg
  rm : Nat := zeroReg
  imm : Nat := 0
  offset : Int := 0
  /-- `fad_get_cond(flags) == COND_AL` -/
  always : Bool := false
  /-- `fad_get_addrmode(flags) == AM_OFF_IMM` -/
  offImm : Bool := false
  deriving DecidableEq, Repr

/-! ## Classes of instructions -/

def isVectorDestOp : Op → Bool
  | .ld1Mult | .st1Mult | .ld2Mult | .st2Mult | .ld3Mult | .st3Mult | .ld4Mult | .st4Mult
  | .ld1Single | .st1Single | .ld2Single | .st2Single | .ld3Single | .st3Single | .ld4Single
  | .st4Single | .ld1r | .ld2r | .ld3r | .ld4r | .ldnpFp | .stnpFp | .ldpFp | .stpFp | .ldrFp
  | .strFp => true
  | _ => false

def isStoreLikeOp : Op → Bool
  | .st1Mult | .st2Mult | .st3Mult | .st4Mult | .st1Single | .st2Single | .st3Single
  | .st4Single | .stnp | .stp | .str | .stxr | .stxp => true
  | _ => false

def isTestBranchOp : Op → Bool
  | .cbz | .cbnz | .tbz | .tbnz => true
  | _ => false

/-- The register is taken to be overwritten: as the destination by default, and never by the
three classes above. -/
def clobbersGPR (inst : Inst) (r : Nat) : Bool :=
  if isVectorDestOp inst.op || isStoreLikeOp inst.op || isTestBranchOp inst.op then false
  else match inst.op with
    | .ldp | .ldnp | .ldxp => inst.rd == r || inst.rm == r
    | _ => inst.rd == r

def usesReg (inst : Inst) (r : Nat) : Bool := inst.rn == r || inst.rm == r

def isBranchOp : Op → Bool
  | .bcond | .b | .bl | .br | .blr => true
  | op => isTestBranchOp op

def isIndirectBranchOp : Op → Bool
  | .br | .blr => true
  | _ => false

def isCallOp : Op → Bool
  | .bl | .blr => true
  | _ => false

def isUnconditionalOp (inst : Inst) : Bool :=
  match inst.op with
  | .b | .br | .blr => true
  | .bcond => inst.always
  | _ => false

def isNoReturnOp : Op → Bool
  | .ret | .svc | .brk | .hvc | .smc | .dcps1 | .dcps2 | .dcps3 => true
  | _ => false

/-- The branches whose target is in the instruction. -/
def isDirectBranchOp (op : Op) : Bool :=
  match op with
  | .b | .bl | .bcond => true
  | op => isTestBranchOp op

def branchTarget (inst : Inst) (addr : Nat) : Option Nat :=
  if isIndirectBranchOp inst.op then none
  else if isDirectBranchOp inst.op then some ((addr + inst.offset) % 2 ^ 64).toNat
  else none

/-- `mrs Xt, TPIDRRO_EL0` -/
def tpidrroEl0 : Nat := 0xde83

/-- `kAllowedTSDOffsets` -/
def allowedTSDOffsets : List Nat := [0x358]

def isAllowedOffset (offset : Nat) : Bool := allowedTSDOffsets.contains offset

/-- A load or store off the register with an immediate offset. -/
def fixedOffsetAccess (inst : Inst) (r : Nat) : Bool :=
  (inst.op == .ldr || inst.op == .str) && inst.rn == r && inst.offImm

/-- The offset of such an access, as the scan compares and prints it. -/
def accessOffset (inst : Inst) : Nat := (inst.offset % 2 ^ 64).toNat

/-! ## The code of an image -/

structure FunctionRange where
  start : Nat
  stop : Nat

/-- A decoded section. -/
structure CodeSection where
  addr : Nat
  size : Nat
  insts : List Inst

abbrev Code := List CodeSection

def Code.instAt (code : Code) (addr : Nat) : Option Inst :=
  (code.find? fun s => addr ≥ s.addr ∧ addr + 4 ≤ s.addr + s.size).bind fun s =>
    s.insts[(addr - s.addr) / 4]?

def inDataInCode (ranges : List DataInCodeRange) (vmaddr : Nat) : Bool :=
  ranges.any fun range =>
    vmaddr ≥ range.vmaddr.toNat ∧ vmaddr < range.vmaddr.toNat + range.length.toNat

def hex (value : Nat) : String := "0x" ++ String.ofList (Nat.toDigits 16 value)

/-- The exported symbol at an address, or the name of a lifted function without one. -/
def functionName (image : Image) (vmaddr : Nat) : String :=
  match image.exports.toList.find? fun entry => entry.2.toNat = vmaddr with
  | some (name, _) => name
  | none => "sub_" ++ ((hex vmaddr).drop 2).toString

/-! ## The tracked state -/

/-- For each register whether it holds the base, and the `mrs` that put it there. -/
structure Registers where
  tracked : Nat → Bool := fun _ => false
  mrsAt : Nat → Nat := fun _ => 0

def mergeInto (may : Bool) (into other : Registers) : Registers where
  tracked := fun r =>
    if r < 32 then
      if may then into.tracked r || other.tracked r else into.tracked r && other.tracked r
    else into.tracked r
  mrsAt := fun r =>
    if r < 32 ∧ (may = false ∨ into.mrsAt r = 0) then other.mrsAt r else into.mrsAt r

def differs (a b : Registers) : Bool := (List.range 32).any fun r => a.tracked r != b.tracked r

namespace Registers

/-- `mrs` into a register. -/
def mrs (s : Registers) (inst : Inst) (addr : Nat) : Registers :=
  if inst.rd = zeroReg then s
  else
    { tracked := Function.update s.tracked inst.rd (inst.imm == tpidrroEl0)
      mrsAt := if inst.imm = tpidrroEl0 then Function.update s.mrsAt inst.rd addr else s.mrsAt }

/-- A call gives the registers that do not survive one away. -/
def call (s : Registers) : Registers :=
  { s with tracked := fun r => s.tracked r && !(r ≤ 17 || r == 30) }

/-- The registers an instruction overwrites are no longer tracked. -/
def clobber (s : Registers) (inst : Inst) : Registers :=
  { s with tracked := fun r => s.tracked r && !(r < 31 && clobbersGPR inst r) }

/-- One instruction. -/
def step (s : Registers) (addr : Nat) (inst : Inst) : Registers :=
  if inst.op = .mrs then s.mrs inst addr
  else (if isCallOp inst.op then s.call else s).clobber inst

end Registers

structure CallSite where
  addr : Nat
  target : Nat := 0
  resolvable : Bool := false
  tracked : Nat → Bool := fun _ => false
  mrsAt : Nat → Nat := fun _ => 0

structure Block where
  start : Nat
  stop : Nat
  succs : List Nat := []

/-! ## The analysis of one function -/

/-- `FunctionAnalysis`: `opcode` is farmdec's numbering of the operations. -/
structure FunctionAnalysis where
  image : Image
  code : Code
  range : FunctionRange
  functionStarts : List Nat
  opcode : Op → Nat

namespace FunctionAnalysis

variable (f : FunctionAnalysis)

def instAt (addr : Nat) : Option Inst :=
  if addr < f.range.start ∨ addr + 4 > f.range.stop then none
  else if inDataInCode f.image.dataInCode addr then none
  else f.code.instAt addr

/-- The instruction at an address, where the loops do not skip it. -/
def fetch (addr : Nat) : Option Inst :=
  (f.instAt addr).filter fun inst => inst.op != .error && inst.op != .unknown

/-- `for (addr = start; addr < end; addr += 4)` -/
def addresses (start stop : Nat) : List Nat :=
  (List.range ((stop - start + 3) / 4)).map fun i => start + 4 * i

/-- The leaders one address gives: behind a branch, and at its target. -/
def leadersAt (addr : Nat) : List Nat :=
  match f.fetch addr with
  | none => []
  | some inst =>
      if !isBranchOp inst.op && !isNoReturnOp inst.op then []
      else
        (match branchTarget inst addr with
          | some target =>
              if target ≥ f.range.start ∧ target + 4 ≤ f.range.stop ∧ target % 4 = 0 then [target]
              else []
          | none => []) ++
        if addr + 4 < f.range.stop then [addr + 4] else []

/-- The leaders in order, each once. -/
def leaders : List Nat :=
  (f.range.start :: (addresses f.range.start f.range.stop).flatMap f.leadersAt).dedup.insertionSort
    (· ≤ ·)

/-- Where the blocks that start at these leaders end. -/
def stops : List Nat → List Nat
  | [] => []
  | [_] => [f.range.stop]
  | _ :: next :: rest => next :: stops (next :: rest)

/-- The targets of the edges that leave a block with this end. -/
def edges (stop : Nat) : List Nat :=
  match f.fetch (stop - 4) with
  | none => [stop]
  | some last =>
      if isNoReturnOp last.op then []
      else match branchTarget last (stop - 4) with
        | some target => if isUnconditionalOp last then [target] else [target, stop]
        | none => if isBranchOp last.op then [] else [stop]

def buildBlocks : List Block :=
  let leaders := f.leaders
  (leaders.zip (f.stops leaders)).map fun (start, stop) =>
    { start, stop
      succs := if stop ≤ start then [] else (f.edges stop).filterMap fun target =>
        leaders.idxOf? target }

/-- The state after the instructions from `start` on, up to `stop`. -/
def run (start stop : Nat) (s : Registers) : Registers :=
  (addresses start stop).foldl
    (fun s addr => match f.fetch addr with
      | none => s
      | some inst => s.step addr inst) s

/-- What `Transfer` makes of the state entering a block. -/
def transfer (block : Block) (s : Registers) : Registers := f.run block.start block.stop s

/-- The call site at an instruction, with the callee-saved registers that carry the base. -/
def callSite (addr : Nat) (inst : Inst) (s : Registers) : CallSite :=
  let target := (branchTarget inst addr).filter f.functionStarts.contains
  { addr
    target := target.getD 0
    resolvable := target.isSome
    tracked := fun r => decide (19 ≤ r ∧ r ≤ 28) && s.tracked r
    mrsAt := fun r => if 19 ≤ r ∧ r ≤ 28 then s.mrsAt r else 0 }

/-- The call sites `Transfer` records on its way through a block. -/
def callSites (block : Block) (s : Registers) : List CallSite :=
  ((addresses block.start block.stop).foldl
    (fun (acc : Registers × List CallSite) addr => match f.fetch addr with
      | none => acc
      | some inst =>
          (acc.1.step addr inst,
            if inst.op ≠ .mrs ∧ isCallOp inst.op then acc.2 ++ [f.callSite addr inst acc.1]
            else acc.2)) (s, [])).2

/-- The data flow problem of `Solve`; call sites are recorded by the must analysis only. -/
def problem (may : Bool) (blocks : List Block) : Worklist.Problem Registers CallSite where
  size := blocks.length
  succs := fun b => (blocks[b]?.map Block.succs).getD []
  transfer := fun b s => (blocks[b]?.map fun block => f.transfer block s).getD s
  record := fun b s => if may then [] else (blocks[b]?.map fun block => f.callSites block s).getD []
  merge := mergeInto may
  differs := differs

/-- The state entering each block before the loop: the seed at the first. -/
def entryStates (seed : Registers) : Nat → Registers := fun b => if b = 0 then seed else {}

/-- As many steps as the loop can take. -/
def solveFuel (blocks : List Block) : Nat := blocks.length * 32 + blocks.length

def solve (may : Bool) (blocks : List Block) (seed : Registers) :
    Option ((Nat → Registers) × List CallSite) :=
  Worklist.solve (f.problem may blocks) (solveFuel blocks) (entryStates seed)
    (List.range blocks.length).reverse []

/-- The line of an access off the base at an offset that is not allowed. -/
def accessViolation (addr mrsAt offset : Nat) : String :=
  f.image.path ++ ": " ++ functionName f.image f.range.start ++ ": " ++ hex addr ++
    ": load/store off TPIDRRO_EL0 (from mrs at " ++ hex mrsAt ++ ") at offset " ++ hex offset ++
    ", not on the audited allow-list"

/-- The line of a use the scan has no model for. -/
def useViolation (addr mrsAt : Nat) (op : Op) : String :=
  f.image.path ++ ": " ++ functionName f.image f.range.start ++ ": " ++ hex addr ++
    ": register holding TPIDRRO_EL0 (from mrs at " ++ hex mrsAt ++
    ") used in a form this scanner does not model (opcode " ++ toString (f.opcode op) ++
    "); extend xlate/src/tsd_scan.cpp to classify it, or confirm this is not a TSD access"

/-- The lines of one instruction, by register. -/
def reportInst (addr : Nat) (inst : Inst) (state certain : Registers) : List String :=
  if inst.op = .mrs then []
  else (List.range 31).flatMap fun r =>
    if !state.tracked r then []
    else if fixedOffsetAccess inst r then
      if isAllowedOffset (accessOffset inst) then []
      else [f.accessViolation addr (state.mrsAt r) (accessOffset inst)]
    else if certain.tracked r && usesReg inst r then
      [f.useViolation addr (state.mrsAt r) inst.op]
    else []

structure Reporting where
  state : Registers
  certain : Registers
  violations : List String

def reportStep (acc : Reporting) (addr : Nat) : Reporting :=
  match f.fetch addr with
  | none => acc
  | some inst =>
      { state := acc.state.step addr inst
        certain := acc.certain.step addr inst
        violations := acc.violations ++ f.reportInst addr inst acc.state acc.certain }

/-- `Report`, from the states entering a block. -/
def report (block : Block) (mayIn mustIn : Registers) : List String :=
  ((addresses block.start block.stop).foldl f.reportStep
    { state := mayIn, certain := mustIn, violations := [] }).violations

structure FunctionResult where
  blocks : List Block
  calls : List CallSite
  violations : List String

/-- `Run`: `none` only if a solver ran out of fuel. -/
def analyse (seed : Registers) : Option FunctionResult := do
  let blocks := f.buildBlocks
  let (mayIn, _) ← f.solve true blocks seed
  let (mustIn, calls) ← f.solve false blocks seed
  let lines := blocks.zipIdx.flatMap fun (block, b) => f.report block (mayIn b) (mustIn b)
  return { blocks, calls, violations := lines.dedup.insertionSort (· ≤ ·) }

end FunctionAnalysis

end Katabasis
