import Katabasis.Lib.Packed
import Katabasis.Xlgen.Types

set_option autoImplicit false

/-! # The scalars of a record, and its mirror

`Leaves` walks a guest type and the host type of the same name together and lists the scalars
it meets, each with its byte offset in the guest layout; it stops at the first member it has
no conversion for. `Mirror` writes a packed struct from that list, for the host side, which
pads to the next scalar's offset where the cursor is behind it (`xlate/src/xlgen.cpp`).

The mirror is exact when the scalars are apart (`Packed.Apart`): the cursor never goes back.
For a record that `Leaves` walks to its end this is a property of the guest type alone
(`leaves_apart_iff`): no union in it has scalars in two members.
-/

namespace Katabasis

inductive Kind
  | void | integer | floating | pointer | protocol | record | recordPointer | outSlot | array
  | block | callback | unsupported
  deriving DecidableEq, Repr

structure Value where
  kind : Kind := .unsupported
  guest : CType
  host : CType
  isSigned : Bool := false
  guestBits : Nat := 0
  hostBits : Nat := 0
  isObject : Bool := false

/-- `Classify` of a type that is not a parameter's. -/
def classify (g h : CType) : Value :=
  match g with
  | .integer width signed =>
      { kind := .integer, guest := g, host := h, isSigned := signed, guestBits := width.bits
        hostBits := h.hostBits }
  | .floating width =>
      { kind := .floating, guest := g, host := h, guestBits := width.bits, hostBits := h.hostBits }
  | .pointer .protocol => { kind := .protocol, guest := g, host := h }
  | .pointer .object => { kind := .pointer, guest := g, host := h, isObject := true }
  | .pointer .selector => { kind := .pointer, guest := g, host := h }
  | .pointer .block => { kind := .block, guest := g, host := h }
  | .pointer .function => { kind := .callback, guest := g, host := h }
  | .pointer (.data passes) =>
      { kind := if passes then .pointer else .unsupported, guest := g, host := h }
  | .record isUnion _ _ =>
      { kind := if isUnion then .unsupported else .record, guest := g, host := h }
  | .array _ _ => { guest := g, host := h }
  | .other _ => { guest := g, host := h }

structure Leaf where
  guestPath : String
  hostPath : String
  offset : Nat := 0
  value : Value

/-- What `Leaves` makes of a type that is neither a record nor an array: any pointer but a
protocol's is a pointer leaf. -/
def leafValue (g h : CType) : Option Value :=
  let value := classify g h
  let value :=
    if value.kind = .callback ∨ value.kind = .block ∨
        (value.kind = .unsupported ∧ g matches .pointer _) then
      { value with kind := .pointer }
    else value
  if value.kind = .integer ∨ value.kind = .floating ∨ value.kind = .pointer then some value
  else none

/-- A walk over members: the leaves it collects, and whether it came to its end. There is no
answer where the source dereferences null. -/
abbrev Walk := Option (Bool × List Leaf)

namespace Walk

/-- A walk that goes on with the next member only where the first came to its end. -/
def andThen : Walk → Walk → Walk
  | none, _ => none
  | some (false, leaves), _ => some (false, leaves)
  | some (true, leaves), next => next.map fun (done, more) => (done, leaves ++ more)

def all : List Walk → Walk
  | [] => some (true, [])
  | walk :: rest => walk.andThen (all rest)

end Walk

/-- `getAsConstantArrayType`, which is null for any other type. -/
def CType.element? : CType → Option CType
  | array element _ => some element
  | _ => none

mutual

/-- `Leaves`, over one type. -/
def leaves (g h : CType) (gpath hpath : String) (base : Nat) : Walk :=
  match g with
  | .record _ gfields _ =>
      match h with
      | .record _ hfields _ => fieldLeaves gfields hfields gpath hpath base
      | _ => some (false, [])
  | .array element count =>
      Walk.all ((List.range count).map fun i =>
        h.element?.bind fun helement =>
          leaves element helement (gpath ++ "[" ++ toString i ++ "]")
            (hpath ++ "[" ++ toString i ++ "]") (base + i * element.guestSize))
  | .integer width signed => scalarLeaf (.integer width signed) h gpath hpath base
  | .floating width => scalarLeaf (.floating width) h gpath hpath base
  | .pointer kind => scalarLeaf (.pointer kind) h gpath hpath base
  | .other size => scalarLeaf (.other size) h gpath hpath base
where
  scalarLeaf (g h : CType) (gpath hpath : String) (base : Nat) : Walk :=
    match leafValue g h with
    | some value => some (true, [⟨gpath, hpath, base, value⟩])
    | none => some (false, [])

/-- `Leaves`, over the fields of the two records: a bit-field ends the walk, and so does a
record that has more fields than the other. -/
def fieldLeaves (gf hf : Fields) (gpath hpath : String) (base : Nat) : Walk :=
  match gf with
  | .nil => some (hf matches .nil, [])
  | .cons gname offset isBitField gtype grest =>
      match hf with
      | .nil => some (false, [])
      | .cons hname _ _ htype hrest =>
          if isBitField then some (false, [])
          else (leaves gtype htype (gpath ++ "." ++ gname) (hpath ++ "." ++ hname)
              (base + offset)).andThen (fieldLeaves grest hrest gpath hpath base)

end

namespace Leaf

/-- The guest's width of the leaf, by which the cursor moves. -/
def bits (leaf : Leaf) : Nat :=
  match leaf.value.kind with
  | .floating => leaf.value.guestBits
  | .integer => leaf.value.guestBits
  | _ => 64

def bytes (leaf : Leaf) : Nat := leaf.bits / 8

end Leaf

/-- The types the members of a mirror are spelled with. -/
inductive MemberType
  | float | double | int (signed : Bool) (bits : Nat) | uint64
  deriving DecidableEq, Repr

def MemberType.bytes : MemberType → Nat
  | float => 4
  | double => 8
  | int _ bits => bits / 8
  | uint64 => 8

/-- The type of the member that stands for a leaf. -/
def Leaf.member (leaf : Leaf) : MemberType :=
  match leaf.value.kind with
  | .floating => if leaf.bits = 32 then .float else .double
  | .integer => .int leaf.value.isSigned leaf.bits
  | _ => .uint64

/-- A mirror struct: the paddings and the leaves, as `pad` and `f` members in this order. -/
abbrev MirrorStruct := List (Packed.Piece Leaf)

/-- The struct `Mirror` emits for a pair of types, whether or not `Leaves` came to its end. -/
def mirror (g h : CType) : Option MirrorStruct :=
  (leaves g h "" "" 0).map fun walk =>
    Packed.rebuild Leaf.offset Leaf.bytes g.guestSize 0 walk.2

namespace MirrorStruct

/-- The offsets of the members `f0`, `f1`, …. -/
def offsets (m : MirrorStruct) : List Nat := Packed.places (fun leaf => leaf.member.bytes) 0 m

def size (m : MirrorStruct) : Nat := Packed.total (fun leaf => leaf.member.bytes) m

end MirrorStruct

end Katabasis
