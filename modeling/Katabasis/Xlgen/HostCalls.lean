import Katabasis.Xlgen.Crossing

set_option autoImplicit false

/-! # Calls from the host

The wrappers through which the host calls the guest: `ImpWrapper` for a method, the block of
`BlockBridge` and the entry of `CallbackBridge` for a block and a function pointer
(`xlate/src/xlgen.cpp`). Each fills the pack from its arguments, parameter by parameter, and
enters the guest; `ImpWrapper` copies back what the guest left in its out slots.

A pointer whose pointee has different layouts on the two sides needs storage of the guest's
layout. **`keepsLayouts_iff`**: a wrapper gives the guest such storage exactly for the out slots
of a method; any other such pointer is the host's own, widened.

Memory is made of objects, each laid out for one side: a host object has its scalars by path, a
guest object by the members of its mirror. The addresses of local variables are a parameter.
-/

namespace Katabasis

variable {F : FloatWidth → Type}

/-! ## Parameters -/

/-- The declared type of a parameter, on the guest and on the host. -/
inductive Declared
  | plain (g h : CType)
  /-- A pointer to data, by its pointees; it `passes` when they have one layout, or are an
  opaque handle. -/
  | pointer (g h : CType) (passes isConst : Bool)

/-- The `Value` of a parameter: a pointer whose pointee has two layouts comes with its pointee. -/
inductive ParamValue
  | value (value : Value)
  | outSlot (pointee : Value)
  | recordPointer (pointee : Value) (writesBack : Bool)
  | array (element : Value) (countIndex : Nat) (writesBack : Bool)

namespace ParamValue

/-- What `ScalarToGuest` looks at. -/
def toValue : ParamValue → Value
  | value v => v
  | outSlot _ =>
      { kind := .outSlot, guest := .pointer (.data false), host := .pointer (.data false) }
  | recordPointer _ _ =>
      { kind := .recordPointer, guest := .pointer (.data false), host := .pointer (.data false) }
  | array _ _ _ =>
      { kind := .array, guest := .pointer (.data false), host := .pointer (.data false) }

def kind (v : ParamValue) : Kind := v.toValue.kind

/-- The pointee has two layouts. -/
def laidOutTwice : ParamValue → Bool
  | value _ => false
  | _ => true

def isOutSlot : ParamValue → Bool
  | outSlot _ => true
  | _ => false

def writesBack : ParamValue → Bool
  | value _ => false
  | outSlot _ => true
  | recordPointer _ writesBack => writesBack
  | array _ _ writesBack => writesBack

end ParamValue

/-- `Classify(…, true)`. -/
def classifyParameter : Declared → ParamValue
  | .plain g h => .value (classify g h)
  | .pointer _ _ true _ =>
      .value { kind := .pointer, guest := .pointer (.data true), host := .pointer (.data true) }
  | .pointer g h false isConst =>
      let pointee := classify g h
      if pointee.kind = .record then .recordPointer pointee (!isConst)
      else if isConst = false ∧
          (pointee.kind = .integer ∨ pointee.kind = .floating ∨ pointee.kind = .pointer) then
        .outSlot pointee
      else .value { guest := .pointer (.data false), host := .pointer (.data false) }

/-- The names by which `DetectArrays` knows a count. -/
def countLike (name : String) : Bool :=
  let lower := name.toList.map Char.toLower
  ["count", "cnt", "len", "length", "n", "argc"].any (fun word => word.toList = lower) ||
    "num".toList.isPrefixOf lower

/-- The neighbours of a parameter, the nearest first and to the right first. -/
def neighbours (i size : Nat) : List Nat :=
  (List.range size).flatMap fun d =>
    if d = 0 then [] else [i + d] ++ if d ≤ i then [i - d] else []

/-- The parameter that counts the elements of parameter `i`. -/
def countIndex (params : List (Declared × String)) (i : Nat) : Option Nat :=
  (neighbours i params.length).find? fun j =>
    match params[j]? with
    | some (declared, name) => (classifyParameter declared).kind = .integer && countLike name
    | none => false

/-- `DetectArrays`: a pointer to scalars of two layouts, next to a count, points to an array. -/
def detectArrays (params : List (Declared × String)) : List ParamValue :=
  params.zipIdx.map fun ((declared, _), i) =>
    match declared with
    | .pointer g h false isConst =>
        let element := classify g h
        if element.kind = .integer ∨ element.kind = .floating ∨ element.kind = .pointer then
          match countIndex params i with
          | some j => .array element j (!isConst)
          | none => classifyParameter declared
        else classifyParameter declared
    | _ => classifyParameter declared

structure CallSignature where
  params : List ParamValue
  result : Value
  supported : Bool

/-- `FromMethod`: the signature of a method that the SDK declares. -/
def fromMethod (params : List (Declared × String)) (result : Value) : CallSignature where
  params := detectArrays params
  result := result
  supported := ((detectArrays params).all fun v => decide (v.kind ≠ .unsupported)) &&
    decide (result.kind ∉ [.unsupported, .outSlot, .array, .callback, .block])

/-- `FromEncoding`: the signature of any other method, from the types of its encoding. -/
def fromEncoding (params : List Declared) (result : Value) : CallSignature where
  params := params.map classifyParameter
  result := result
  supported := (params.map classifyParameter).all fun v => decide (v.kind ≠ .unsupported)

/-! ## Memory -/

/-- An object in memory, laid out for one side by the leaves of its type. -/
inductive Object (F : FloatWidth → Type)
  | host (leaves : List Leaf) (contents : HostRecord F)
  | guest (leaves : List Leaf) (members : List (Scalar F))

abbrev Memory (F : FloatWidth → Type) := Int → Option (Object F)

/-- The variable that stands for a slot of the guest's width. -/
def slotLeaf (pointee : Value) : Leaf := ⟨"", "", 0, pointee⟩

/-- What a parameter points to, for the number of elements that its count has. -/
def ParamValue.leaves (count : Nat) : ParamValue → List Leaf
  | value _ => []
  | outSlot pointee => [slotLeaf pointee]
  | recordPointer pointee _ =>
      match Katabasis.leaves pointee.guest pointee.host "" "" 0 with
      | some walk => walk.2
      | none => []
  | array element _ _ => (List.range count).map fun i =>
      let path := "[" ++ toString i ++ "]"
      ⟨path, path, i * (slotLeaf element).bytes, element⟩

/-- An argument of a wrapper. -/
inductive HostValue (F : FloatWidth → Type)
  | scalar (x : Scalar F)
  | record (r : HostRecord F)

/-- The value of the count parameter of an array. -/
def ParamValue.count (args : List (HostValue F)) : ParamValue → Nat
  | array _ index _ =>
      match args[index]? with
      | some (.scalar (.integer n)) => n.toNat
      | _ => 0
  | _ => 0

/-! ## The wrappers -/

/-- What the wrappers call besides the conversions: `xl_host_block_wrap`. -/
structure BridgeRuntime (F : FloatWidth → Type) extends Machinery F where
  xlHostBlockWrap : Int → Int

inductive HostWrapper
  | imp | block | callback
  deriving DecidableEq, Repr

/-- The scalars of a member of the pack; there are none where the expression has no value. -/
abbrev PackMember (F : FloatWidth → Type) := Option (List (Scalar F))

section

variable (r : BridgeRuntime F)

/-- `p.a = ScalarToGuest(a)` -/
def scalarField (value : Value) : HostValue F → PackMember F
  | .scalar x => (scalarToGuest r.toMachinery value x).map fun y => [y]
  | .record _ => none

/-- `<mirror>_to_guest(&p.a, &a)` -/
def recordField (value : Value) : HostValue F → PackMember F
  | .scalar _ => none
  | .record contents =>
      (leaves value.guest value.host "" "" 0).bind fun walk =>
        mirrorToGuest r.toMachinery walk.2 contents

/-- `p.a = <HostBlockBridge>(a)` -/
def blockField : HostValue F → PackMember F
  | .scalar (.integer x) => some [.integer (r.xlHostBlockWrap x)]
  | _ => none

/-- What `ImpWrapper` does for one parameter, with a local variable at the place. It does not
come to the call when it is passed a function pointer. -/
def impPass (place : Int) : ParamValue → HostValue F → Memory F → Option (PackMember F × Memory F)
  | .value v, arg, mem =>
      match v.kind with
      | .record => some (recordField r v arg, mem)
      | .block => some (blockField r arg, mem)
      | .callback => none
      | _ => some (scalarField r v arg, mem)
  | .outSlot pointee, .scalar (.integer address), mem =>
      if address = 0 then some (some [.integer 0], mem)
      else
        match mem address with
        | some (.host _ contents) => do
            let x ← scalarToGuest r.toMachinery pointee (contents "")
            let slot ← (slotLeaf pointee).member.store r.toMachinery x
            return (some [.integer place],
              Function.update mem place (some (.guest [slotLeaf pointee] [slot])))
        | _ => none
  | .outSlot _, _, _ => none
  | v, arg, mem => some (scalarField r v.toValue arg, mem)

/-- What the block of `BlockBridge` does for one parameter. -/
def blockPass (v : ParamValue) (arg : HostValue F) : PackMember F :=
  match v.kind with
  | .record => recordField r v.toValue arg
  | .block => blockField r arg
  | _ => scalarField r v.toValue arg

/-- What the entry of `CallbackBridge` does for one parameter. The text has no meaning for a
struct that is passed by value, which it casts to an integer. -/
def callbackPass (v : ParamValue) (arg : HostValue F) : Option (PackMember F) :=
  if v.kind = .record then none else some (scalarField r v.toValue arg)

def pass (w : HostWrapper) (place : Int) (v : ParamValue) (arg : HostValue F) (mem : Memory F) :
    Option (PackMember F × Memory F) :=
  match w with
  | .imp => impPass r place v arg mem
  | .block => some (blockPass r v arg, mem)
  | .callback => (callbackPass r v arg).map fun field => (field, mem)

/-- The statements before the call, from a parameter on; `frame` has the places of the local
variables. -/
def enter (w : HostWrapper) (frame : Nat → Int) :
    Nat → List ParamValue → List (HostValue F) → Memory F → Option (List (PackMember F) × Memory F)
  | i, v :: values, arg :: args, mem => do
      let (field, mem) ← pass r w (frame i) v arg mem
      let (fields, mem) ← enter w frame (i + 1) values args mem
      return (field :: fields, mem)
  | _, _, _, mem => some ([], mem)

/-- `*a = ScalarToHost(a_gslot)`, which may fault. -/
def copySlot (name : String) (i : Nat) (place : Int) (pointee : Value) (address : Int)
    (mem : Memory F) : Option (Memory F) :=
  match mem place, mem address with
  | some (.guest _ [slot]), some (.host ls contents) =>
      match scalarToHost r.toMachinery pointee name i slot with
      | some (.ok x) =>
          some (Function.update mem address (some (.host ls (Function.update contents "" x))))
      | _ => none
  | _, _ => none

/-- What `ImpWrapper` does after the call for one parameter. -/
def copyOne (name : String) (i : Nat) (place : Int) (v : ParamValue) (arg : HostValue F)
    (mem : Memory F) : Option (Memory F) :=
  match v, arg with
  | .outSlot pointee, .scalar (.integer address) =>
      if address = 0 then some mem else copySlot r name i place pointee address mem
  | _, _ => some mem

def copyBack (name : String) (frame : Nat → Int) :
    Nat → List ParamValue → List (HostValue F) → Memory F → Option (Memory F)
  | i, v :: values, arg :: args, mem => do
      let mem ← copyOne r name i (frame i) v arg mem
      copyBack name frame (i + 1) values args mem
  | _, _, _, mem => some mem

/-- What a wrapper does to memory after the guest has returned, unless it faults. -/
def leave (w : HostWrapper) (name : String) (frame : Nat → Int) (values : List ParamValue)
    (args : List (HostValue F)) (mem : Memory F) : Option (Memory F) :=
  match w with
  | .imp => copyBack r name frame 0 values args mem
  | _ => some mem

end

/-! ## What a wrapper owes the guest -/

section

variable {r : BridgeRuntime F} {w : HostWrapper} {frame : Nat → Int} {values : List ParamValue}
  {args : List (HostValue F)} {mem : Memory F}

/-- A call: the local variables have places of their own, and each pointer to something with two
layouts is null, or points to a host object of its type. -/
structure HostCall (frame : Nat → Int) (values : List ParamValue) (args : List (HostValue F))
    (mem : Memory F) : Prop where
  length : args.length = values.length
  places : ∀ i j, frame i = frame j → i = j
  fresh : ∀ i, mem (frame i) = none
  pointers : ∀ (i : Nat) (v : ParamValue), values[i]? = some v → v.laidOutTwice = true →
    ∃ address : Int, args[i]? = some (.scalar (.integer address)) ∧ 0 ≤ address ∧
      address < 2 ^ 32 ∧
      (address = 0 ∨ ∃ contents, mem address = some (.host (v.leaves (v.count args)) contents))

/-- The guest is passed a pointer to an object of its own layout, which has the host's values
converted. -/
def GuestStorage (m : Machinery F) (ls : List Leaf) (contents : HostRecord F) (field : PackMember F)
    (mem : Memory F) (place : Int) : Prop :=
  field = some [.integer place] ∧ ∃ members, mirrorToGuest m ls contents = some members ∧
    mem place = some (.guest ls members)

/-- The host's object has what the guest left in its own, converted. -/
def WrittenBack (m : Machinery F) (ls : List Leaf) (members : List (Scalar F)) (mem : Memory F)
    (address : Int) : Prop :=
  ∃ hostLeaves old contents name index, mem address = some (.host hostLeaves contents) ∧
    mirrorToHost m name index ls members old = some (.ok contents)

/-- **The wrapper keeps the layouts apart.** In every call that comes to the guest, whatever the
guest then does: each pointer to a host object that has two layouts is passed as a pointer to
storage of the guest's layout with the converted value; and when the wrapper returns, the host's
object has what was left there, if the parameter is written back (and no later parameter points
to the same object). -/
def KeepsLayouts (r : BridgeRuntime F) (w : HostWrapper) (values : List ParamValue) : Prop :=
  ∀ (frame : Nat → Int) (args : List (HostValue F)) (mem : Memory F) fields mem',
    HostCall frame values args mem → enter r w frame 0 values args mem = some (fields, mem') →
    ∀ (i : Nat) (v : ParamValue) (address : Int) contents, values[i]? = some v →
      v.laidOutTwice = true → args[i]? = some (.scalar (.integer address)) → address ≠ 0 →
      mem address = some (.host (v.leaves (v.count args)) contents) →
      ∃ field place, fields[i]? = some field ∧
        GuestStorage r.toMachinery (v.leaves (v.count args)) contents field mem' place ∧
        ∀ name left back members, leave r w name frame values args left = some back →
          left place = some (.guest (v.leaves (v.count args)) members) →
          v.writesBack = true →
          (∀ (j : Nat) (v' : ParamValue), i < j → values[j]? = some v' → v'.laidOutTwice = true →
            args[j]? ≠ some (.scalar (.integer address))) →
          WrittenBack r.toMachinery (v.leaves (v.count args)) members back address

/-- The wrapper does not come to the guest: a method that is passed a function pointer traps,
and a callback that is passed a struct is not C. -/
def NeverEnters (w : HostWrapper) (values : List ParamValue) : Prop :=
  ∃ v ∈ values, ∃ value, v = .value value ∧
    (w = .imp ∧ value.kind = .callback ∨ w = .callback ∧ value.kind = .record)

/-! ### The statements before the call -/

theorem cons_of_getElem? {α : Type} {l : List α} {i : Nat} {a : α} (h : l[i]? = some a) :
    ∃ b rest, l = b :: rest := by
  cases l with
  | nil => cases h
  | cons b rest => exact ⟨b, rest, rfl⟩

theorem impPass_mem {place : Int} {v : ParamValue} {arg : HostValue F} {field : PackMember F}
    {mem' : Memory F} (h : impPass r place v arg mem = some (field, mem')) {address : Int}
    (hne : address ≠ place) : mem' address = mem address := by
  unfold impPass at h
  split at h
  case h_1 => split at h <;> cases h <;> rfl
  case h_2 =>
    split at h
    case isTrue => cases h; rfl
    case isFalse =>
      split at h
      case h_1 =>
        obtain ⟨x, -, h⟩ := Option.bind_eq_some_iff.mp h
        obtain ⟨slot, -, h⟩ := Option.bind_eq_some_iff.mp h
        cases h
        exact Function.update_of_ne hne _ _
      case h_2 => cases h
  case h_3 => cases h
  case h_4 => cases h; rfl

/-- A statement only changes its own local variable. -/
theorem pass_mem {place : Int} {v : ParamValue} {arg : HostValue F} {field : PackMember F}
    {mem' : Memory F} (h : pass r w place v arg mem = some (field, mem')) {address : Int}
    (hne : address ≠ place) : mem' address = mem address := by
  cases w with
  | imp => exact impPass_mem h hne
  | block => cases h; rfl
  | callback =>
      obtain ⟨field', -, h⟩ := Option.map_eq_some_iff.mp h
      cases h
      rfl

theorem enter_mem {i : Nat} {fields : List (PackMember F)} {mem' : Memory F}
    (h : enter r w frame i values args mem = some (fields, mem')) {address : Int}
    (hne : ∀ j, i ≤ j → address ≠ frame j) : mem' address = mem address := by
  induction values generalizing i args mem fields with
  | nil => cases h; rfl
  | cons v rest ih =>
      cases args with
      | nil => cases h; rfl
      | cons arg more =>
          obtain ⟨⟨field, before⟩, hpass, h⟩ := Option.bind_eq_some_iff.mp h
          obtain ⟨⟨fields', after⟩, henter, h⟩ := Option.bind_eq_some_iff.mp h
          cases h
          calc mem' address
              = before address := ih henter fun j hj => hne j (by omega)
            _ = mem address := pass_mem hpass (hne i (Nat.le_refl i))

/-- **The statement of one parameter**, among all: what is in no local variable is as it was
before the first statement, and what is in no later one stays as it is after this one. -/
theorem enter_at {k i : Nat} {fields : List (PackMember F)} {mem' : Memory F} {v : ParamValue}
    {arg : HostValue F} (h : enter r w frame k values args mem = some (fields, mem'))
    (hv : values[i]? = some v) (harg : args[i]? = some arg) :
    ∃ field before after, fields[i]? = some field ∧
      pass r w (frame (k + i)) v arg before = some (field, after) ∧
      (∀ address, (∀ j, address ≠ frame j) → before address = mem address) ∧
      ∀ address, (∀ j, k + i < j → address ≠ frame j) → mem' address = after address := by
  induction i generalizing k values args mem fields with
  | zero =>
      obtain ⟨v', rest, rfl⟩ := cons_of_getElem? hv
      obtain ⟨arg', more, rfl⟩ := cons_of_getElem? harg
      cases hv
      cases harg
      obtain ⟨⟨field, after⟩, hpass, h⟩ := Option.bind_eq_some_iff.mp h
      obtain ⟨⟨fields', last⟩, henter, h⟩ := Option.bind_eq_some_iff.mp h
      cases h
      exact ⟨field, mem, after, rfl, hpass, fun _ _ => rfl,
        fun address hne => enter_mem henter fun j hj => hne j (by omega)⟩
  | succ i ih =>
      obtain ⟨v', rest, rfl⟩ := cons_of_getElem? hv
      obtain ⟨arg', more, rfl⟩ := cons_of_getElem? harg
      obtain ⟨⟨field, next⟩, hpass, h⟩ := Option.bind_eq_some_iff.mp h
      obtain ⟨⟨fields', last⟩, henter, h⟩ := Option.bind_eq_some_iff.mp h
      cases h
      obtain ⟨field', before, after, hfield, hpass', hbefore, hafter⟩ := ih henter hv harg
      have hk : k + 1 + i = k + (i + 1) := by omega
      rw [hk] at hpass' hafter
      refine ⟨field', before, after, hfield, hpass', fun address hne => ?_, hafter⟩
      rw [hbefore address hne, pass_mem hpass (hne k)]

/-- An out slot of a method is passed as a local variable with the converted value. -/
theorem impPass_outSlot {place address : Int} {pointee : Value} {field : PackMember F}
    {ls : List Leaf} {contents : HostRecord F} {mem' : Memory F}
    (h : impPass r place (.outSlot pointee) (.scalar (.integer address)) mem
      = some (field, mem'))
    (hne : address ≠ 0) (hobject : mem address = some (.host ls contents)) :
    GuestStorage r.toMachinery [slotLeaf pointee] contents field mem' place := by
  unfold impPass at h
  dsimp only at h
  rw [if_neg hne, hobject] at h
  obtain ⟨x, hx, h⟩ := Option.bind_eq_some_iff.mp h
  obtain ⟨slot, hslot, h⟩ := Option.bind_eq_some_iff.mp h
  cases h
  refine ⟨rfl, [slot], ?_, Function.update_self _ _ _⟩
  simp only [mirrorToGuest, slotLeaf, bind, Option.bind] at hx hslot ⊢
  rw [hx]
  simp only [hslot]
  rfl

/-! ### The statements after the call -/

theorem copyOne_guest {name : String} {i : Nat} {place place' : Int} {v : ParamValue}
    {arg : HostValue F} {mem' : Memory F} (h : copyOne r name i place v arg mem = some mem')
    {ls : List Leaf} {members : List (Scalar F)} (hguest : mem place' = some (.guest ls members)) :
    mem' place' = some (.guest ls members) := by
  unfold copyOne at h
  split at h
  case h_1 pointee address =>
    split at h
    case isTrue => cases h; exact hguest
    case isFalse =>
      unfold copySlot at h
      split at h
      case h_1 hhost =>
        split at h
        case h_1 =>
          cases h
          -- a guest object is no host object
          have hne : place' ≠ address := by
            rintro rfl
            rw [hguest] at hhost
            cases hhost
          rw [Function.update_of_ne hne, hguest]
        case h_2 => cases h
      case h_2 => cases h
  case h_2 => cases h; exact hguest

theorem copyOne_other {name : String} {i : Nat} {place address : Int} {v : ParamValue}
    {arg : HostValue F} {mem' : Memory F} (h : copyOne r name i place v arg mem = some mem')
    (hother : v.laidOutTwice = true → arg ≠ .scalar (.integer address)) :
    mem' address = mem address := by
  unfold copyOne at h
  split at h
  case h_1 pointee address' =>
    split at h
    case isTrue => cases h; rfl
    case isFalse =>
      unfold copySlot at h
      split at h
      case h_1 =>
        split at h
        case h_1 =>
          cases h
          have hne : address ≠ address' := by
            rintro rfl
            exact hother rfl rfl
          exact Function.update_of_ne hne _ _
        case h_2 => cases h
      case h_2 => cases h
  case h_2 => cases h; rfl

theorem copyBack_other {name : String} {k : Nat} {address : Int} {mem' : Memory F}
    (h : copyBack r name frame k values args mem = some mem')
    (hother : ∀ (j : Nat) (v : ParamValue), values[j]? = some v → v.laidOutTwice = true →
      args[j]? ≠ some (.scalar (.integer address))) : mem' address = mem address := by
  induction values generalizing k args mem with
  | nil => cases h; rfl
  | cons v rest ih =>
      cases args with
      | nil => cases h; rfl
      | cons arg more =>
          obtain ⟨next, hone, h⟩ := Option.bind_eq_some_iff.mp h
          calc mem' address
              = next address := ih h fun j v' hv' => hother (j + 1) v' hv'
            _ = mem address := copyOne_other hone fun hv heq =>
                hother 0 v rfl hv (congrArg some heq)

/-- **The out slot is copied back**, and no later parameter changes what it points to. -/
theorem copyBack_written {name : String} {k i : Nat} {pointee : Value} {address : Int}
    {mem' : Memory F} (h : copyBack r name frame k values args mem = some mem')
    (hv : values[i]? = some (.outSlot pointee))
    (harg : args[i]? = some (.scalar (.integer address))) (hne : address ≠ 0)
    {ls : List Leaf} {members : List (Scalar F)}
    (hslot : mem (frame (k + i)) = some (.guest ls members))
    (hother : ∀ (j : Nat) (v : ParamValue), i < j → values[j]? = some v →
      v.laidOutTwice = true → args[j]? ≠ some (.scalar (.integer address))) :
    WrittenBack r.toMachinery [slotLeaf pointee] members mem' address := by
  induction i generalizing k values args mem with
  | zero =>
      obtain ⟨v, rest, rfl⟩ := cons_of_getElem? hv
      obtain ⟨arg, more, rfl⟩ := cons_of_getElem? harg
      cases hv
      cases harg
      obtain ⟨next, hone, h⟩ := Option.bind_eq_some_iff.mp h
      have hlast := copyBack_other h fun j v' hv' => hother (j + 1) v' (by omega) hv'
      unfold copyOne at hone
      dsimp only at hone
      rw [if_neg hne] at hone
      unfold copySlot at hone
      rw [show mem (frame k) = some (.guest ls members) from hslot] at hone
      split at hone
      case h_1 slot hostLeaves contents hguest hhost =>
        cases hguest
        split at hone
        case h_1 x hx =>
          cases hone
          refine ⟨hostLeaves, contents, Function.update contents "" x, name, k, ?_, ?_⟩
          · rw [hlast, Function.update_self]
          · rw [mirrorToHost]
            simp only [slotLeaf, hx]
            rfl
        case h_2 => cases hone
      case h_2 => cases hone
  | succ i ih =>
      obtain ⟨v, rest, rfl⟩ := cons_of_getElem? hv
      obtain ⟨arg, more, rfl⟩ := cons_of_getElem? harg
      obtain ⟨next, hone, h⟩ := Option.bind_eq_some_iff.mp h
      have hk : k + 1 + i = k + (i + 1) := by omega
      refine ih h hv harg ?_ fun j v' hj hv' => hother (j + 1) v' (by omega) hv'
      rw [hk]
      exact copyOne_guest hone hslot

/-! ### When the layouts are kept apart -/

theorem keepsLayouts_of_outSlots
    (h : ∀ v ∈ values, v.laidOutTwice = true → w = .imp ∧ v.isOutSlot = true) :
    KeepsLayouts r w values := by
  intro frame args mem fields mem' hcall henter i v address contents hv htwice harg hne hobject
  obtain ⟨rfl, hslot⟩ := h v (List.mem_of_getElem? hv) htwice
  cases v with
  | outSlot pointee =>
      obtain ⟨field, before, after, hfield, hpass, hbefore, hafter⟩ := enter_at henter hv harg
      rw [Nat.zero_add] at hpass hafter
      have hplace : ∀ j, address ≠ frame j := by
        rintro j rfl
        rw [hcall.fresh j] at hobject
        cases hobject
      have hstorage := impPass_outSlot hpass hne (by rw [hbefore address hplace, hobject])
      obtain ⟨hpassed, members, hmembers, hmem⟩ := hstorage
      have hkept : mem' (frame i) = after (frame i) := hafter (frame i) fun j hj heq => by
        have := hcall.places i j heq
        omega
      refine ⟨field, frame i, hfield, ⟨hpassed, members, hmembers, ?_⟩, ?_⟩
      · rw [hkept, hmem]
        rfl
      · intro name left back members' hleave hleft _ hlast
        have hslot : left (frame (0 + i)) = some (.guest [slotLeaf pointee] members') := by
          rw [Nat.zero_add]
          exact hleft
        exact copyBack_written hleave hv harg hne hslot hlast
  | _ => cases hslot

theorem pass_none {place : Int} {v : Value} {arg : HostValue F}
    (h : w = .imp ∧ v.kind = .callback ∨ w = .callback ∧ v.kind = .record) :
    pass r w place (.value v) arg mem = none := by
  rcases h with ⟨rfl, hkind⟩ | ⟨rfl, hkind⟩
  · simp only [pass, impPass, hkind]
  · have : (ParamValue.value v).kind = .record := hkind
    simp only [pass, callbackPass, this, if_true, Option.map_none]

theorem keepsLayouts_of_neverEnters (h : NeverEnters w values) : KeepsLayouts r w values := by
  obtain ⟨v, hmem, value, rfl, htrap⟩ := h
  intro frame args mem fields mem' hcall henter
  obtain ⟨i, hi⟩ := List.mem_iff_getElem?.mp hmem
  have hlt : i < args.length := by
    rw [hcall.length]
    exact (List.getElem?_eq_some_iff.mp hi).1
  obtain ⟨field, before, after, -, hpass, -⟩ :=
    enter_at henter hi (List.getElem?_eq_getElem hlt)
  rw [pass_none htrap] at hpass
  cases hpass

theorem enter_isSome {k : Nat}
    (h : ∀ (i : Nat) (v : ParamValue) arg, values[i]? = some v → args[i]? = some arg →
      ∀ place mem, ∃ result, pass r w place v arg mem = some result) :
    ∃ result, enter r w frame k values args mem = some result := by
  induction values generalizing k args mem with
  | nil => exact ⟨_, rfl⟩
  | cons v rest ih =>
      cases args with
      | nil => exact ⟨_, rfl⟩
      | cons arg more =>
          obtain ⟨⟨field, next⟩, hpass⟩ := h 0 v arg rfl rfl (frame k) mem
          obtain ⟨⟨fields, last⟩, henter⟩ :
              ∃ result, enter r w frame (k + 1) rest more next = some result :=
            ih fun i v' arg' hv' harg' => h (i + 1) v' arg' hv' harg'
          exact ⟨(field :: fields, last), by
            simp only [enter, hpass, henter, bind, Option.bind]
            rfl⟩

/-- Any other pointer is the host's own: the address 16 is passed as it is. -/
theorem scalarField_wide {v : ParamValue} (htwice : v.laidOutTwice = true) :
    scalarField r v.toValue (.scalar (.integer 16)) = some [.integer 16] := by
  cases v with
  | value _ => cases htwice
  | _ => rfl

theorem pass_wide {place : Int} {v : ParamValue} (htwice : v.laidOutTwice = true)
    (hother : ¬ (w = .imp ∧ v.isOutSlot = true)) :
    pass r w place v (.scalar (.integer 16)) mem = some (some [.integer 16], mem) := by
  rw [← scalarField_wide (r := r) htwice]
  cases v with
  | value _ => cases htwice
  | outSlot pointee =>
      cases w with
      | imp => exact absurd ⟨rfl, rfl⟩ hother
      | _ => rfl
  | _ => cases w <;> rfl

/-- A null pointer, and any other argument, is passed in some way. -/
theorem pass_null {place : Int} {v : ParamValue}
    (henters : ∀ value, v = .value value →
      ¬ (w = .imp ∧ value.kind = .callback ∨ w = .callback ∧ value.kind = .record)) :
    ∃ result, pass r w place v (.scalar (.integer 0)) mem = some result := by
  cases v with
  | value value =>
      have hno := henters value rfl
      cases w with
      | imp =>
          cases hkind : value.kind with
          | callback => exact absurd (.inl ⟨rfl, hkind⟩) hno
          | _ => exact ⟨_, by simp only [pass, impPass, hkind]; rfl⟩
      | block => exact ⟨_, rfl⟩
      | callback =>
          have hkind : (ParamValue.value value).kind ≠ .record := fun h =>
            hno (.inr ⟨rfl, h⟩)
          exact ⟨_, by simp only [pass, callbackPass, if_neg hkind]; rfl⟩
  | _ => cases w <;> exact ⟨_, rfl⟩

theorem not_keepsLayouts {i : Nat} {v : ParamValue} (henters : ¬ NeverEnters w values)
    (hv : values[i]? = some v) (htwice : v.laidOutTwice = true)
    (hother : ¬ (w = .imp ∧ v.isOutSlot = true)) : ¬ KeepsLayouts r w values := by
  intro hkeeps
  -- the host has an object at the address 16, and passes it for this parameter only
  let args : List (HostValue F) :=
    values.mapIdx fun j _ => .scalar (.integer (if j = i then 16 else 0))
  let frame : Nat → Int := fun j => 4096 + j
  let contents : HostRecord F := fun _ => .integer 0
  let mem : Memory F := fun address =>
    if address = 16 then some (.host (v.leaves (v.count args)) contents) else none
  have hargs : ∀ {j : Nat} {v' : ParamValue}, values[j]? = some v' →
      args[j]? = some (.scalar (.integer (if j = i then 16 else 0))) := by
    intro j v' hv'
    rw [List.getElem?_mapIdx, hv']
    rfl
  have hcall : HostCall frame values args mem := by
    refine ⟨List.length_mapIdx, fun j k h => ?_, fun j => if_neg ?_, fun j v' hv' _ => ?_⟩
    · simp only [frame] at h
      omega
    · simp only [frame]
      omega
    · refine ⟨_, hargs hv', ?_, ?_, ?_⟩
      · split <;> decide
      · split <;> decide
      · by_cases hj : j = i
        · subst hj
          rw [hv] at hv'
          cases hv'
          exact .inr ⟨contents, by rw [if_pos rfl]; exact if_pos rfl⟩
        · exact .inl (if_neg hj)
  obtain ⟨⟨fields, mem'⟩, henter⟩ : ∃ result, enter r w frame 0 values args mem = some result := by
    refine enter_isSome fun j v' arg hv' harg place mem => ?_
    have hmem : v' ∈ values := List.mem_of_getElem? hv'
    rw [hargs hv'] at harg
    cases harg
    by_cases hj : j = i
    · subst hj
      rw [hv] at hv'
      cases hv'
      rw [if_pos rfl]
      exact ⟨_, pass_wide htwice hother⟩
    · rw [if_neg hj]
      exact pass_null fun value hvalue htrap => henters ⟨v', hmem, value, hvalue, htrap⟩
  have harg : args[i]? = some (.scalar (.integer 16)) := by
    rw [hargs hv, if_pos rfl]
  obtain ⟨field, before, after, hfield, hpass, hbefore, hafter⟩ := enter_at henter hv harg
  rw [pass_wide htwice hother] at hpass
  obtain ⟨rfl, rfl⟩ : some [.integer 16] = field ∧ before = after := by
    cases hpass
    exact ⟨rfl, rfl⟩
  obtain ⟨field', place, hfield', ⟨hpassed, members, -, hguest⟩, -⟩ :=
    hkeeps frame args mem fields mem' hcall henter i v 16 contents hv htwice harg (by decide)
      (if_pos rfl)
  rw [hfield] at hfield'
  cases hfield'
  cases hpassed
  -- what the guest has at that address is the host's object
  have hframe : ∀ j, (16 : Int) ≠ frame j := by
    intro j
    simp only [frame]
    omega
  rw [hafter 16 fun j _ => hframe j, hbefore 16 hframe] at hguest
  have hhost : mem 16 = some (.host (v.leaves (v.count args)) contents) := if_pos rfl
  rw [hhost] at hguest
  cases hguest

/-- **When a wrapper keeps the layouts apart**: when each parameter that points to something with
two layouts is an out slot of a method, or the wrapper never comes to the guest. -/
theorem keepsLayouts_iff (r : BridgeRuntime F) (w : HostWrapper) (signature : CallSignature) :
    KeepsLayouts r w signature.params ↔
      (∀ v ∈ signature.params, v.laidOutTwice = true → w = .imp ∧ v.isOutSlot = true) ∨
        NeverEnters w signature.params := by
  constructor
  · intro hkeeps
    by_cases henters : NeverEnters w signature.params
    · exact .inr henters
    · refine .inl fun v hv htwice => ?_
      by_contra hother
      obtain ⟨i, hi⟩ := List.mem_iff_getElem?.mp hv
      exact not_keepsLayouts henters hi htwice hother hkeeps
  · rintro (hslots | hnever)
    · exact keepsLayouts_of_outSlots hslots
    · exact keepsLayouts_of_neverEnters hnever

end

/-! ### A sample -/

/-- `NSUInteger` -/
def nsUInteger : CType × CType := (.integer .w64 false, .integer .w32 false)

/-- The fields of `NSFastEnumerationState`: `state`, `itemsPtr`, `mutationsPtr` and `extra`. -/
def enumerationState (word : CType) (size : Nat) : CType :=
  .record false (.cons "state" 0 false word
    (.cons "itemsPtr" size false (.pointer (.data false))
      (.cons "mutationsPtr" (2 * size) false (.pointer (.data false))
        (.cons "extra" (3 * size) false (.array word 5) .nil)))) (8 * size)

/-- `-countByEnumeratingWithState:objects:count:`, which the host sends to a guest's collection. -/
def fastEnumeration : CallSignature :=
  fromMethod
    [(.pointer (enumerationState nsUInteger.1 8) (enumerationState nsUInteger.2 4) false false,
        "state"),
      (.pointer (.pointer .object) (.pointer .object) false false, "buffer"),
      (.plain nsUInteger.1 nsUInteger.2, "len")]
    (classify nsUInteger.1 nsUInteger.2)

theorem not_keepsLayouts_fastEnumeration :
    fastEnumeration.supported = true ∧
      ¬ KeepsLayouts { digitMachinery with xlHostBlockWrap := id } .imp fastEnumeration.params := by
  have hkinds : ∀ v ∈ fastEnumeration.params, v.kind ≠ .callback := by decide
  have hstate : fastEnumeration.params[0]? = some (.recordPointer
      (classify (enumerationState nsUInteger.1 8) (enumerationState nsUInteger.2 4)) true) := rfl
  refine ⟨by decide, not_keepsLayouts ?_ hstate rfl (by decide)⟩
  rintro ⟨v, hv, value, rfl, ⟨-, hcallback⟩ | ⟨hw, -⟩⟩
  · exact hkinds _ hv hcallback
  · cases hw

end Katabasis
