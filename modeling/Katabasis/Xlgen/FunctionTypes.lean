import Katabasis.Xlgen.Leaves

set_option autoImplicit false

/-! # Block and callback types, and the guest side of their bridges

A block or a function pointer in an SDK declaration needs a bridge: a guest function that loads
the arguments from a pack and calls the guest's block, or one that stores them and traps into
the host (`xlate/src/xlgen.cpp`). What a bridge appends to the guest sources depends on the
guest type alone.
-/

namespace Katabasis

mutual

/-- The type of a parameter or a result. Other than a pointer to a function, a type is known by
the name clang gives it. -/
inductive FunctionType
  | void
  | plain (name : String) (type : CType)
  /-- A block; one without a prototype has no parameters that anyone knows. -/
  | block (prototyped : Bool) (params : Params) (result : FunctionType)
  | callback (params : Params) (result : FunctionType)

inductive Params
  | nil
  | cons (type : FunctionType) (rest : Params)

end

namespace FunctionType

/-- What `Classify` sees of a type that is not void. -/
def ctype : FunctionType → CType
  | void => .other 0
  | plain _ type => type
  | block _ _ _ => .pointer .block
  | callback _ _ => .pointer .function

/-- `Classify(…).kind` (as a parameter's, a pointer may also be a record pointer or an out slot,
which the guest side spells like any other pointer). -/
def kind : FunctionType → Kind
  | void => .void
  | type => (classify type.ctype type.ctype).kind

def isSigned (type : FunctionType) : Bool := (classify type.ctype type.ctype).isSigned

def params : FunctionType → Params
  | block _ params _ => params
  | callback params _ => params
  | _ => .nil

end FunctionType

def Params.toList : Params → List FunctionType
  | nil => []
  | cons type rest => type :: rest.toList

/-! ## The guest side -/

inductive BridgeKind
  | block | hostBlock | callback
  deriving DecidableEq, Repr

namespace BridgeKind

/-- `xl_block_0`, `xl_hblock_0`, `xl_callback_0`, … -/
def name (kind : BridgeKind) (id : Nat) : String :=
  (match kind with
    | block => "xl_block_"
    | hostBlock => "xl_hblock_"
    | callback => "xl_callback_") ++ toString id

/-- The name that the generator returns for a bridge. -/
def function (kind : BridgeKind) (id : Nat) : String :=
  kind.name id ++ (match kind with
    | block => "_host"
    | hostBlock => "_wrap"
    | callback => "_host")

end BridgeKind

section

-- `Spell` on the guest's side: a type, and a name declared with it.
variable (spell : FunctionType → String → String)

/-- `PackField(value, true)` -/
def packField (type : FunctionType) : String :=
  match type.kind with
  | .floating => "double"
  | .record => spell type ""
  | _ => "uint64_t"

/-- `GuestStore` -/
def guestStore (type : FunctionType) (expr : String) : String :=
  match type.kind with
  | .integer => if type.isSigned then "(uint64_t)(int64_t)" ++ expr else "(uint64_t)" ++ expr
  | .floating => "(double)" ++ expr
  | .record => expr
  | _ => "(uint64_t)(uintptr_t)" ++ expr

/-- `GuestLoad` -/
def guestLoad (type : FunctionType) (expr : String) : String :=
  match type.kind with
  | .integer | .floating | .record => "(" ++ spell type "" ++ ")" ++ expr
  | _ => "(" ++ spell type "" ++ ")(uintptr_t)" ++ expr

/-- The parameters, each with its name. -/
def namedParams (letter : String) (params : Params) : List (FunctionType × String) :=
  params.toList.zipIdx.map fun (type, i) => (type, letter ++ toString i)

def packStruct (name head : String) (params : List (FunctionType × String))
    (result : Option FunctionType) : String :=
  "struct __attribute__((packed)) " ++ name ++ "_pack \x7b uint64_t " ++ head ++ ";" ++
    String.join (params.map fun param => " " ++ packField spell param.1 ++ " " ++ param.2 ++ ";") ++
    (match result with
      | some result => " " ++ packField spell result ++ " r;"
      | none => "") ++ " \x7d;\n"

/-- The guest function that calls what the pack's first member points to. -/
def guestCall (name head cast : String) (params : List (FunctionType × String))
    (result : Option FunctionType) (type : FunctionType) : String :=
  let call := "((" ++ spell type "" ++ ")" ++ cast ++ "(uintptr_t)p->" ++ head ++ ")(" ++
    ", ".intercalate (params.map fun param => guestLoad spell param.1 ("p->" ++ param.2)) ++ ")"
  "void " ++ name ++ "_guest(struct " ++ name ++ "_pack *p)\n\x7b\n    " ++
    (match result with
      | some result => "p->r = " ++ guestStore result call
      | none => call) ++ ";\n\x7d\n\n"

/-- A result that is not void. -/
def FunctionType.result? (type : FunctionType) : Option FunctionType :=
  if type.kind = .void then none else some type

/-- What `BlockBridge` appends to the guest sources. Without a prototype the result is of no
kind, which is not void: the pack has a word for it. -/
def blockGuest (name : String) : FunctionType → String
  | type@(.block true params result) =>
      packStruct spell name "block" (namedParams "b" params) result.result? ++
        guestCall spell name "block" "(void *)" (namedParams "b" params) result.result? type
  | type =>
      packStruct spell name "block" [] (some (.plain "" (.other 0))) ++
        guestCall spell name "block" "(void *)" [] (some (.plain "" (.other 0))) type

/-- What `CallbackBridge` appends to the guest sources. -/
def callbackGuest (name : String) : FunctionType → String
  | type@(.callback params result) =>
      packStruct spell name "function" (namedParams "c" params) result.result? ++
        guestCall spell name "function" "" (namedParams "c" params) result.result? type
  | _ => ""

/-- What `HostBlockBridge` appends to the guest sources: the invoke function of a guest block
that stands for a host block. -/
def hostBlockGuest (name : String) (type : FunctionType) : String :=
  let (params, result) := match type with
    | .block true params result => (namedParams "b" params, result.result?)
    | _ => ([], none)
  packStruct spell name "host" params result ++
    "extern void xl_trap_" ++ name ++ "(struct " ++ name ++ "_pack *);\n" ++
    spell (result.getD .void) (name ++ "_invoke(struct xl_host_block *self" ++
      String.join (params.map fun param => ", " ++ spell param.1 param.2) ++ ")") ++
    "\n\x7b\n    struct " ++ name ++ "_pack p;\n    p.host = self->host;\n" ++
    String.join (params.map fun param =>
      "    p." ++ param.2 ++ " = " ++ guestStore param.1 param.2 ++ ";\n") ++
    "    xl_trap_" ++ name ++ "(&p);\n" ++
    (match result with
      | some result => "    return " ++ guestLoad spell result "p.r" ++ ";\n"
      | none => "") ++ "\x7d\n\n" ++
    "const struct xl_host_block_descriptor " ++ name ++
    "_descriptor = \x7b0, sizeof(struct xl_host_block), 0, xl_host_block_dispose\x7d;\n\n"

/-- The guest side of a bridge. -/
def guestSide (kind : BridgeKind) (id : Nat) (type : FunctionType) : String :=
  match kind with
  | .block => blockGuest spell (kind.name id) type
  | .hostBlock => hostBlockGuest spell (kind.name id) type
  | .callback => callbackGuest spell (kind.name id) type

end

end Katabasis
