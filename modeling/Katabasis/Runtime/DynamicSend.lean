import Katabasis.Lib.ArgumentWords
import Katabasis.Lib.Fallible
import Katabasis.Xlgen.IntegerPairs
import Katabasis.Xlgen.Signatures

set_option autoImplicit false

/-! # Messages without a bridge

A message for which no bridge was generated is sent by `xl_dynamic_send`
(`runtime/objc_bridge.m`), which goes by the type encodings of the receiver's method: it puts the
guest's argument registers into words and calls the method with the first twelve of them. A
generated bridge (`EmitBridge`, `xlate/src/xlgen.cpp`) goes by the declarations of the method on
the two sides.

`Agrees` says that the method receives the same arguments from both, and the guest the same
result. `Sendable` says on which messages they do (`sent_agrees_iff`): `xl_dynamic_send` takes the
lower half of a register where the bridge takes the bounds of a type for each other, passes a
pointer as it is where the bridge passes a copy or a trampoline, and leaves a word unused before an
argument of two words. Here is what happens to one argument (`crossing_spec`).

The method is a function of its arguments on the host. Whether the host's calling convention lets
an argument of two words start at an odd word is a parameter; the one of iOS on armv7 does.
-/

namespace Katabasis

namespace DynamicSend

open CIntegers ArgumentWords IntegerPairs Signatures

/-! ## Objects -/

/-- What the runtime knows of objects: the blocks of the guest and their wrappers, and the host's
classes and protocols for the guest's. -/
structure Objects where
  /-- The word at the address is the `isa` of a guest block. -/
  hasBlockIsa : Int → Bool
  xlWrapperFor : Int → Int
  xlClassIn : Int → Int
  xlObjectOut : Int → Int
  /-- The host's protocol of the name that stands in a guest protocol, 0 if it knows none. -/
  objcGetProtocol : Int → Int
  wrapperFor_address : ∀ x, InRange false 32 (xlWrapperFor x) ∧ xlWrapperFor x ≠ 0
  classIn_address : ∀ x, InRange false 32 x → InRange false 32 (xlClassIn x)
  classIn_eq_zero : ∀ x, xlClassIn x = 0 ↔ x = 0
  getProtocol_address : ∀ x, InRange false 32 (objcGetProtocol x)

namespace Objects

variable (o : Objects)

def xlIsGuestBlock (guest : Int) : Bool :=
  decide (guest ≠ 0) && decide (guest / 2 ^ 32 = 0) && o.hasBlockIsa guest

/-- `xl_object_in`. An integer in the place of an object ends the process. -/
def xlObjectIn (guest : Int) (symbol : String) (index : Nat) : Narrowed Int :=
  if guest ≠ 0 ∧ guest < 0x4000 then .error ⟨symbol, index, guest.toNat⟩
  else if o.xlIsGuestBlock guest then .ok (o.xlWrapperFor guest)
  else o.xlClassIn <$> xlNarrowPointer guest symbol index

/-- `xl_protocol` -/
def xlProtocol (guest : Int) : Int := if guest = 0 then 0 else o.objcGetProtocol guest

/-- The host's protocol is what `xl_object_in` makes of the guest's: the same object, where the
guest's protocol is registered in place. -/
def InPlace (guest : Int) : Prop :=
  ∀ symbol index, o.xlObjectIn guest symbol index = .ok (o.xlProtocol guest)

/-- What the expressions of a generated bridge call; no floating-point number is sent here. -/
def machinery : Machinery (fun _ => Unit) where
  extend _ _ := ()
  round _ _ := ()
  xlObjectIn := o.xlObjectIn
  xlObjectOut := o.xlObjectOut

end Objects

/-! ## Types -/

/-- The two sides of a type that is declared once: no integer type is wider on the host. -/
inductive Sides : Declared → Prop
  | integer {w w' : IntWidth} (signed signed' : Bool) (h : w'.bits ≤ w.bits) :
      Sides (.plain (.integer w signed) (.integer w' signed'))
  | pointer (kind : PointerKind) : Sides (.plain (.pointer kind) (.pointer kind))
  | data (g h : CType) (passes isConst : Bool) : Sides (.pointer g h passes isConst)

/-- The letters that encode an integer type of the host. -/
def integerLetters : IntWidth → Bool → List Char
  | .w8, true => ['c']
  | .w8, false => ['C', 'B']
  | .w16, true => ['s']
  | .w16, false => ['S']
  | .w32, true => ['i', 'l']
  | .w32, false => ['I', 'L']
  | .w64, true => ['q']
  | .w64, false => ['Q']

/-- The letters with which the encoding of a type can start, behind its qualifiers. -/
def letters : Declared → List Char
  | .plain _ (.integer w signed) => integerLetters w signed
  | .plain _ (.pointer .object) => ['@', '#']
  | .plain _ (.pointer .protocol) => ['@']
  | .plain _ (.pointer .block) => ['@']
  | .plain _ (.pointer .selector) => [':']
  | .plain _ (.pointer .function) => ['^']
  | .plain _ (.pointer (.data _)) => ['^', '*']
  | .pointer _ _ _ _ => ['^', '*']
  | _ => []

/-- The letter behind the qualifiers. -/
def letterOf (type : List Char) : Option Char :=
  (type.dropWhile (· ∈ ['r', 'n', 'N', 'o', 'O', 'R', 'V'])).head?

/-- The guest's value of the type that its register holds. -/
def guestValue : Declared → Int → Int
  | .plain (.integer w signed) _, register => wrap signed w.bits register
  | _, register => register

/-- The bits of a register that a value of the type determines: it is extended to 32 bits. -/
def registerBits : Declared → Nat
  | .plain (.integer w _) _ => max w.bits 32
  | _ => 64

/-- An argument of a message: the parameter in the declaration, its type in the encoding of the
host's method, and the guest's register, which holds a value of the type. A class is no block. -/
structure Argument (o : Objects) where
  declared : Declared
  name : String
  type : List Char
  register : Int
  sides : Sides declared
  encoded : ∃ letter ∈ letters declared, letterOf type = some letter
  inRange : InRange false 64 register
  extended : wrap false (registerBits declared) (guestValue declared register)
    = wrap false (registerBits declared) register
  isClass : letterOf type = some '#' → o.xlIsGuestBlock register = false

/-- The host has a protocol of the name, where one is passed. -/
def Argument.HasProtocol {o : Objects} (arg : Argument o) : Prop :=
  arg.declared = .plain (.pointer .protocol) (.pointer .protocol) →
    o.xlProtocol arg.register = 0 → arg.register = 0

/-- The result of a method: its type in the declaration, whether the guest's is a `_Bool`, and its
type in the encoding. -/
structure Result where
  type : SdkType
  isBool : Bool
  encoding : List Char
  sides : ∀ declared, type = .declared declared → Sides declared ∧
    ∃ letter ∈ letters declared, letterOf encoding = some letter
  void : type = .void → letterOf encoding = some 'v'
  bool : isBool = true → ∃ h, type = .declared (.plain (.integer .w8 false) h)

/-! ## The fallback -/

inductive SendFault
  | narrowing (fault : NarrowingFault)
  | unbridged (message : String)

def narrowed (x : Narrowed Int) : Except SendFault Int := x.mapError .narrowing

section

variable (o : Objects)

/-- The switch over the type of an argument. -/
def argumentWords (type : List Char) (value : Int) (index : Nat) :
    Except SendFault (Words Int) :=
  let symbol := "dynamic message"
  match letterOf type with
  | some '@' =>
      (narrowed (o.xlObjectIn value symbol index)).map fun x => .one (wrap false 32 x)
  | some '#' =>
      (narrowed (xlNarrowPointer value symbol index)).map fun x =>
        .one (wrap false 32 (o.xlClassIn x))
  | some ':' | some '^' | some '*' =>
      (narrowed (xlNarrowPointer value symbol index)).map fun x => .one (wrap false 32 x)
  | some 'c' | some 'C' | some 's' | some 'S' | some 'i' | some 'I' | some 'l' | some 'L'
  | some 'B' => .ok (.one (wrap false 32 value))
  | some 'q' | some 'Q' => .ok (.two (wrap false 32 value) (wrap false 32 (value / 2 ^ 32)))
  | _ => .error (.unbridged "message without a bridge (argument type)")

/-- The turn of the loop for an argument. -/
def layArgument (words : List Int) (arg : Argument o × Nat) : Except SendFault (List Int) := do
  match ← argumentWords o arg.1.type arg.1.register arg.2 with
  | .one word => return words ++ [word]
  | .two low high =>
      let words := if words.length % 2 = 1 then words ++ [0] else words
      return words ++ [low, high]

/-- The words that `xl_dynamic_send` lays out. -/
def layWords (receiver selector : Int) (args : List (Argument o)) : Except SendFault (List Int) :=
  if 8 < args.length + 2 then
    .error (.unbridged "message without a bridge (stack-passed arguments)")
  else (args.zipIdx 2).foldlM (layArgument o) [wrap false 32 receiver, wrap false 32 selector]

/-- The switch over the type of the result, of what the method leaves in the first two registers
of the host. -/
def guestResult (encoding : List Char) (registers : Int) : Except SendFault Int :=
  let v := wrap false 32 registers
  match letterOf encoding with
  | some 'v' => .ok 0
  | some 'q' | some 'Q' => .ok (wrap false 64 registers)
  | some '@' | some '#' => .ok (o.xlObjectOut v)
  | some ':' | some '^' | some '*' => .ok (xlWidenPointer v)
  | some 'c' => .ok (wrap false 64 (wrap true 8 v))
  | some 's' => .ok (wrap false 64 (wrap true 16 v))
  | some 'i' | some 'l' => .ok (wrap false 64 (wrap true 32 v))
  | some 'B' | some 'C' => .ok (wrap false 8 v)
  | some 'S' => .ok (wrap false 16 v)
  | some 'I' | some 'L' => .ok v
  | _ => .error (.unbridged "message without a bridge (return type)")

/-- `xl_dynamic_send`, of a receiver that has the method: the content of `X0`. -/
def xlDynamicSend (imp : List Int → Int) (encoding : List Char) (receiver selector : Int)
    (args : List (Argument o)) : Except SendFault Int := do
  let words ← layWords o receiver selector args
  guestResult o encoding (imp (words.take 12))

end

/-! ## The host's method -/

/-- An argument of the type has two words on the host. -/
def isWide : Declared → Bool
  | .plain _ (.integer .w64 _) => true
  | _ => false

/-- The number in the words. -/
def join : Words Int → Int
  | .one word => word
  | .two low high => low + 2 ^ 32 * high

/-- The value of the host's type in the words. -/
def decode : Declared → Words Int → Int
  | .plain _ (.integer w signed), words => wrap signed w.bits (join words)
  | _, words => wrap false 32 (join words)

/-- The arguments that the method finds in the words of a call, behind the receiver and the
selector. -/
def received {o : Objects} (aligns : Bool) (args : List (Argument o)) (words : List Int) :
    List Int :=
  List.zipWith (fun arg w => decode arg.declared w) args
    (read aligns 0 words 2 (args.map fun arg => isWide arg.declared))

/-! ## The generated bridge -/

/-- What `HostLoad` makes for a parameter that is not passed as it is: the copy of what it points
to, a trampoline or a block of the host. It is the host's own, at an address that the runtime
passes for nothing of the guest's. -/
structure Made (o : Objects) where
  host : Nat → ParamValue → Int → Narrowed Int
  own : ∀ i v x address, x ≠ 0 → host i v x = .ok address → address ≠ 0 ∧
    ∀ symbol index, o.xlObjectIn x symbol index ≠ .ok address ∧
      xlNarrowPointer x symbol index ≠ .ok address

section

variable {o : Objects} (made : Made o) (id : String)

/-- `HostLoad` -/
def hostLoad (index : Nat) (v : ParamValue) (x : Int) : Narrowed Int :=
  match v with
  | .value value =>
      match value.kind with
      | .integer => integerToHost value x id index
      | .callback =>
          if 0xFFFFFFFFFFFFFF00 ≤ x then .ok (wrap false 32 x)
          else if x = 0 then .ok 0
          else made.host index v x
      | .block => if x = 0 then .ok 0 else made.host index v x
      | .protocol => .ok (o.xlProtocol x)
      | _ => pointerToHost o.machinery value x id index
  | _ => if wrap false 32 x = 0 then .ok 0 else made.host index v x

def parameters (args : List (Argument o)) : List (Declared × String) :=
  args.map fun arg => (arg.declared, arg.name)

/-- The arguments of the call in a bridge for the method. -/
def bridgeArguments (args : List (Argument o)) : Narrowed (List Int) :=
  ((Katabasis.detectArrays (parameters args)).zip args).zipIdx.mapM fun ((v, arg), i) =>
    hostLoad made id i v (wrap false 64 (guestValue arg.declared arg.register))

end

/-- The value that the bridge returns to the guest for the method's result. -/
def bridgeResult (o : Objects) (isBool : Bool) (declared : Declared) (y : Int) : Int :=
  let value := (classifyResult declared).toValue
  match declared with
  | .plain (.integer w signed) _ =>
      if isBool then if integerToGuest value y = 0 then 0 else 1
      else wrap signed w.bits (integerToGuest value y)
  | _ => pointerToGuest o.machinery value y

/-- The method's result is of the host's type. A protocol is no wrapper and no class. -/
def Result.Fits (o : Objects) (result : Result) (y : Int) : Prop :=
  match result.type with
  | .void => True
  | .declared (.plain _ (.integer w signed)) => InRange signed w.bits y
  | .declared (.plain _ (.pointer .protocol)) => InRange false 32 y ∧ o.xlObjectOut y = y
  | .declared _ => InRange false 32 y

/-! ## When the two agree -/

section

variable {o : Objects} (made : Made o) (aligns : Bool) (receiver selector : Int)
  (args : List (Argument o)) (result : Result) (method : List Int → Int)

/-- The registers after the call of a method, which takes its arguments from words. -/
def imp (words : List Int) : Int := wrap false 64 (method (received aligns args words))

/-- **The fallback agrees with the bridge**, which passes these values: all words are passed, the
method receives the values from them, and the guest has the bridge's result in `X0`. -/
structure Agrees (values : List Int) : Prop where
  passed : ∃ words, layWords o receiver selector args = .ok words ∧ words.length ≤ 12 ∧
    received aligns args words = values
  returned : ∃ x0, xlDynamicSend o (imp aligns args method) result.encoding receiver selector args
      = .ok x0 ∧ ∀ declared, result.type = .declared declared →
    wrap false (registerBits declared) x0
      = wrap false (registerBits declared) (bridgeResult o result.isBool declared (method values))

/-- The parameter of this argument crosses the same way in both: no bound of a signed type that is
narrower on the host, null for what the bridge makes an object of its own for, and a protocol that
is the host's. -/
def Plain (v : ParamValue) (arg : Argument o) : Prop :=
  match v with
  | .value value =>
      match value.kind with
      | .integer => value.hostBits < value.guestBits → value.isSigned = true →
          guestValue arg.declared arg.register ≠ highest true value.guestBits ∧
            guestValue arg.declared arg.register ≠ lowest true value.guestBits
      | .callback => arg.register = 0 ∨ 0xFFFFFFFFFFFFFF00 ≤ arg.register
      | .block => arg.register = 0
      | .protocol => o.InPlace arg.register
      | _ => True
  | _ => arg.register = 0

/-- From the first argument of two words that would start at an odd word on, all are so. -/
def FromGap (P : Argument o → Prop) (args : List (Argument o)) : Prop :=
  ArgumentWords.FromGap (fun arg => isWide arg.declared) P 2 args

/-- The result crosses the same way in both. -/
def PlainResult (y : Int) : Prop :=
  match result.type with
  | .declared (.plain (.integer w signed) (.integer w' _)) =>
      (w'.bits < w.bits → y ≠ highest signed w'.bits ∧
        (signed = true → y ≠ lowest signed w'.bits)) ∧
      (w.bits < 32 → InRange signed w.bits y) ∧ (result.isBool = true → y = 0 ∨ y = 1)
  | .declared (.plain (.pointer .protocol) _) => y < 0xFFFFFF00
  | _ => True

/-- What it takes: every argument and the result cross the same way, the words are no more than
are passed, and where the convention leaves no word unused, none that counts comes behind one. -/
structure Sendable (y : Int) : Prop where
  arguments : ∀ p ∈ (Katabasis.detectArrays (parameters args)).zip args, Plain p.1 p.2
  passed : ArgumentWords.extent true 2 (args.map fun arg => isWide arg.declared) ≤ 12
  placed : aligns = true ∨ FromGap (fun arg => guestValue arg.declared arg.register = 0) args
  result : PlainResult result y

end

/-! ## Integers -/

section

variable {w : IntWidth} {signed : Bool}

/-- The words for an integer. -/
theorem argumentWords_integer (o : Objects) {type : List Char} {letter : Char}
    (hletter : letter ∈ integerLetters w signed) (htype : letterOf type = some letter) (x : Int)
    (index : Nat) :
    argumentWords o type x index = .ok (if w = .w64 then
      .two (wrap false 32 x) (wrap false 32 (x / 2 ^ 32)) else .one (wrap false 32 x)) := by
  unfold argumentWords
  rw [htype]
  cases w <;> cases signed <;>
    simp only [integerLetters, List.mem_cons, List.not_mem_nil, or_false] at hletter <;>
    rcases hletter with rfl | rfl <;> rfl

theorem decode_integer (g : CType) (x : Int) :
    decode (.plain g (.integer w signed)) (if w = .w64 then
      .two (wrap false 32 x) (wrap false 32 (x / 2 ^ 32)) else .one (wrap false 32 x))
      = wrap signed w.bits x := by
  by_cases hw : w = .w64
  · rw [if_pos hw, hw]
    apply wrap_congr
    show (x % 2 ^ 32 + 2 ^ 32 * (x / 2 ^ 32 % 2 ^ 32)) % 2 ^ 64 = x % 2 ^ 64
    omega
  · rw [if_neg hw]
    have hle : w.bits ≤ 32 := by
      cases w with
      | w64 => exact absurd rfl hw
      | _ => decide
    exact wrap_wrap hle x

end

/-! ## Addresses -/

theorem narrowed_map_eq_ok {x : Narrowed Int} {f : Int → Words Int} {w : Words Int} :
    (narrowed x).map f = .ok w ↔ ∃ a, x = .ok a ∧ f a = w := by
  cases x with
  | error fault => exact ⟨fun h => (by cases h), fun ⟨a, h, _⟩ => (by cases h)⟩
  | ok a =>
      constructor
      · intro h
        injection h with h
        exact ⟨a, rfl, h⟩
      · rintro ⟨a', h, rfl⟩
        injection h with h
        rw [← h]
        rfl

/-- A pointer that is narrowed is null where it was null, and the same wherever it is sent. -/
theorem narrowPointer_spec {x a : Int} (hx : InRange false 64 x) {symbol : String} {index : Nat}
    (h : xlNarrowPointer x symbol index = .ok a) :
    a = wrap false 32 x ∧ (a = 0 ↔ x = 0) ∧
      ∀ symbol' index', xlNarrowPointer x symbol' index' = .ok a := by
  simp only [InRange, lowest, highest, Bool.false_eq_true, if_false] at hx
  have hmod : wrap false 32 x = x % 2 ^ 32 := rfl
  unfold xlNarrowPointer at h ⊢
  by_cases hhigh : x / 2 ^ 32 ≠ 0
  · rw [if_pos hhigh] at h
    by_cases hsentinel : 0xFFFFFFFFFFFFFF00 ≤ x
    · rw [if_pos hsentinel] at h
      injection h with h
      refine ⟨h.symm, ?_, fun _ _ => by rw [if_pos hhigh, if_pos hsentinel, h]⟩
      rw [← h, hmod]
      omega
    · rw [if_neg hsentinel] at h
      cases h
  · rw [if_neg hhigh] at h
    injection h with h
    refine ⟨h.symm, ?_, fun _ _ => by rw [if_neg hhigh, h]⟩
    rw [← h, hmod]
    omega

theorem objectIn_spec (o : Objects) {x a : Int} (hx : InRange false 64 x) {symbol : String}
    {index : Nat} (h : o.xlObjectIn x symbol index = .ok a) :
    InRange false 32 a ∧ (a = 0 ↔ x = 0) ∧
      (∀ symbol' index', o.xlObjectIn x symbol' index' = .ok a) ∧
      (o.xlIsGuestBlock x = false →
        ∀ symbol' index', o.xlClassIn <$> xlNarrowPointer x symbol' index' = .ok a) := by
  unfold Objects.xlObjectIn at h ⊢
  by_cases hsmall : x ≠ 0 ∧ x < 0x4000
  · rw [if_pos hsmall] at h
    cases h
  rw [if_neg hsmall] at h
  by_cases hblock : o.xlIsGuestBlock x = true
  · rw [if_pos hblock] at h
    injection h with h
    have hne : x ≠ 0 := by
      simp only [Objects.xlIsGuestBlock, Bool.and_eq_true, decide_eq_true_eq] at hblock
      exact hblock.1.1
    obtain ⟨hrange, hnull⟩ := o.wrapperFor_address x
    rw [← h]
    refine ⟨hrange, ⟨fun h => absurd h hnull, fun h => absurd h hne⟩, fun _ _ => ?_, fun hno => ?_⟩
    · rw [if_neg hsmall, if_pos hblock]
    · rw [hblock] at hno
      cases hno
  · rw [if_neg hblock] at h
    obtain ⟨narrow, hnarrow, h⟩ := Fallible.map_eq_ok h
    obtain ⟨hlow, hnull, hsame⟩ := narrowPointer_spec hx hnarrow
    have hclass : ∀ symbol' index',
        o.xlClassIn <$> xlNarrowPointer x symbol' index' = .ok a := fun _ _ => by
      rw [hsame, ← h]
      rfl
    refine ⟨?_, ?_, fun _ _ => by rw [if_neg hsmall, if_neg hblock, hclass], fun _ => hclass⟩
    · rw [← h]
      apply o.classIn_address
      rw [hlow]
      exact inRange_wrap false (by decide) x
    · rw [← h, o.classIn_eq_zero, hnull]

/-- A guest block is passed as its wrapper, anything else as `xl_class_in` has it. -/
theorem objectIn_eq {o : Objects} {x a : Int} (hx : InRange false 64 x) {symbol : String}
    {index : Nat} (h : o.xlObjectIn x symbol index = .ok a) :
    a = if o.xlIsGuestBlock x then o.xlWrapperFor x else o.xlClassIn (wrap false 32 x) := by
  unfold Objects.xlObjectIn at h
  by_cases hsmall : x ≠ 0 ∧ x < 0x4000
  · rw [if_pos hsmall] at h
    cases h
  · rw [if_neg hsmall] at h
    split_ifs at h ⊢ with hblock
    · injection h with h
      exact h.symm
    · obtain ⟨low, hlow, heq⟩ := Fallible.map_eq_ok h
      rw [← heq, (narrowPointer_spec hx hlow).1]

/-- The word of a guest block is its address. -/
theorem wrap_of_guestBlock {o : Objects} {x : Int} (h : o.xlIsGuestBlock x = true) :
    wrap false 32 x = x := by
  simp only [Objects.xlIsGuestBlock, Bool.and_eq_true, decide_eq_true_eq] at h
  have hlow : x / 2 ^ 32 = 0 := h.1.2
  show x % 2 ^ 32 = x
  omega

/-- The lower word is what `xl_object_in` passes, of an object that is neither a guest block nor a
class that the host has another one for. -/
theorem lowerWord_eq_iff {o : Objects}
    (hown : ∀ x, o.xlIsGuestBlock x = true → o.xlWrapperFor x ≠ x) {x a : Int}
    (hx : InRange false 64 x) {symbol : String} {index : Nat}
    (h : o.xlObjectIn x symbol index = .ok a) :
    a = wrap false 32 x ↔
      o.xlIsGuestBlock x = false ∧ o.xlClassIn (wrap false 32 x) = wrap false 32 x := by
  rw [objectIn_eq hx h]
  by_cases hblock : o.xlIsGuestBlock x = true
  · rw [if_pos hblock, wrap_of_guestBlock hblock, hblock]
    simp [hown _ hblock]
  · rw [Bool.not_eq_true] at hblock
    simp [hblock]

/-! ## One argument -/

/-- The type is an address on both sides. -/
structure OneWord (declared : Declared) : Prop where
  wide : isWide declared = false
  value : ∀ register, guestValue declared register = register
  decode : ∀ word, decode declared (.one word) = wrap false 32 word

theorem oneWord_pointer (kind : PointerKind) :
    OneWord (.plain (.pointer kind) (.pointer kind)) := ⟨rfl, fun _ => rfl, fun _ => rfl⟩

theorem oneWord_data (g h : CType) (passes isConst : Bool) :
    OneWord (.pointer g h passes isConst) := ⟨rfl, fun _ => rfl, fun _ => rfl⟩

/-- What is known of an argument with the guest's value `x`, from the words that are sent for it
and the value `y` that the bridge passes. Only of a protocol that the host does not know, the
bridge passes 0 for another value. -/
structure Crossing (declared : Declared) (x : Int) (sent : Except SendFault (Words Int)) (y : Int)
    (plain known : Prop) : Prop where
  plain_iff : (∃ w, sent = .ok w ∧ decode declared w = y) ↔ plain
  wide : ∀ w, sent = .ok w → w.isWide = isWide declared
  blank : ∀ w, sent = .ok w → x = 0 → w.Blank 0
  zero_of_blank : ∀ w, sent = .ok w → w.Blank 0 → decode declared w = y → x = 0
  zero : known → (∃ w, sent = .ok w) → y = 0 → x = 0
  second : ∀ low high word, sent = .ok (.two low high) → word = 0 ∨ word = low →
    decode declared (.two 0 word) = y → low = 0 ∧ high = 0

section

variable {o : Objects} {declared : Declared} {x y : Int} {sent : Except SendFault (Words Int)}
  {plain known : Prop}

theorem decode_blank (declared : Declared) {w : Words Int} (h : w.Blank 0) :
    decode declared w = 0 := by
  have hjoin : join w = 0 := by
    cases w with
    | one word => exact h
    | two low high =>
        obtain ⟨rfl, rfl⟩ := h
        rfl
  unfold decode
  split
  · rw [hjoin]
    rename_i signed
    cases signed
    · exact Int.zero_emod _
    · exact Int.zero_bmod
  · rw [hjoin]
    rfl

/-- An argument that is an address on the host. -/
theorem crossing_address {address : Narrowed Int}
    (hsent : sent = (narrowed address).map fun a => .one (wrap false 32 a))
    (hone : OneWord declared)
    (haddress : ∀ a, address = .ok a → InRange false 32 a ∧ (a = 0 ↔ x = 0))
    (hplain : address = .ok y ↔ plain)
    (hzero : known → (∃ a, address = .ok a) → y = 0 → x = 0) :
    Crossing declared x sent y plain known := by
  subst hsent
  have hself : ∀ a, address = .ok a → wrap false 32 (wrap false 32 a) = a := fun a ha => by
    rw [wrap_wrap (Nat.le_refl _), wrap_of_inRange (by decide) (haddress a ha).1]
  refine ⟨?_, fun w hw => ?_, fun w hw hx => ?_, fun w hw hblank _ => ?_, ?_,
    fun low high word hw => ?_⟩
  · rw [← hplain]
    constructor
    · rintro ⟨w, hw, rfl⟩
      obtain ⟨a, ha, rfl⟩ := narrowed_map_eq_ok.mp hw
      rw [hone.decode, hself a ha, ha]
    · intro hy
      exact ⟨_, narrowed_map_eq_ok.mpr ⟨y, hy, rfl⟩, by rw [hone.decode, hself y hy]⟩
  · obtain ⟨a, ha, rfl⟩ := narrowed_map_eq_ok.mp hw
    exact hone.wide.symm
  · obtain ⟨a, ha, rfl⟩ := narrowed_map_eq_ok.mp hw
    show wrap false 32 a = 0
    rw [(haddress a ha).2.mpr hx]
    rfl
  · obtain ⟨a, ha, rfl⟩ := narrowed_map_eq_ok.mp hw
    have hlow : wrap false 32 a = 0 := hblank
    rw [wrap_of_inRange (by decide) (haddress a ha).1] at hlow
    exact (haddress a ha).2.mp hlow
  · rintro hknown ⟨w, hw⟩
    obtain ⟨a, ha, -⟩ := narrowed_map_eq_ok.mp hw
    exact hzero hknown ⟨a, ha⟩
  · obtain ⟨a, -, h⟩ := narrowed_map_eq_ok.mp hw
    cases h

/-- The bridge passes the same address. -/
theorem crossing_same {address : Narrowed Int}
    (hsent : sent = (narrowed address).map fun a => .one (wrap false 32 a))
    (hone : OneWord declared)
    (haddress : ∀ a, address = .ok a → InRange false 32 a ∧ (a = 0 ↔ x = 0))
    (hy : address = .ok y) : Crossing declared x sent y True known :=
  crossing_address hsent hone haddress (iff_of_true hy trivial)
    fun _ _ => (haddress y hy).2.mp

/-- The bridge passes null for null, and otherwise an object of the host's own. -/
theorem crossing_own {address : Narrowed Int}
    (hsent : sent = (narrowed address).map fun a => .one (wrap false 32 a))
    (hone : OneWord declared)
    (haddress : ∀ a, address = .ok a → InRange false 32 a ∧ (a = 0 ↔ x = 0))
    (hnull : x = 0 → y = 0 ∧ address = .ok 0)
    (hown : x ≠ 0 → (∃ a, address = .ok a) → y ≠ 0 ∧ address ≠ .ok y) :
    Crossing declared x sent y (x = 0) known := by
  refine crossing_address hsent hone haddress ⟨fun hy => ?_, fun hx => ?_⟩ fun _ hsome hy => ?_
  · by_contra hx
    exact (hown hx ⟨y, hy⟩).2 hy
  · obtain ⟨rfl, h⟩ := hnull hx
    exact h
  · by_contra hx
    exact (hown hx hsome).1 hy

/-- An argument that is an integer on the host. -/
theorem crossing_integer {w w' : IntWidth} {signed signed' : Bool} (hle : w'.bits ≤ w.bits)
    {register : Int} (hx : wrap signed w.bits register = x) (hregister : InRange false 64 register)
    (hextended : wrap false (max w.bits 32) x = wrap false (max w.bits 32) register)
    (hsent : sent = .ok (if w' = .w64 then
      .two (wrap false 32 register) (wrap false 32 (register / 2 ^ 32))
      else .one (wrap false 32 register)))
    {id : String} {index : Nat}
    (hy : integerToHost (pair w w' signed signed') (wrap false 64 x) id
      index = .ok y) :
    Crossing (.plain (.integer w signed) (.integer w' signed')) x sent y
      (w'.bits < w.bits → signed = true →
        x ≠ highest true w.bits ∧ x ≠ lowest true w.bits) known := by
  subst hsent
  have hrange : InRange signed w.bits x := by
    rw [← hx]
    exact inRange_wrap signed (width_pos w) register
  have hlower : wrap signed' w'.bits register = wrap signed' w'.bits x := by
    rw [← hx, wrap_wrap hle]
  simp only [InRange, lowest, highest, Bool.false_eq_true, if_false] at hregister
  refine ⟨?_, fun words hw => ?_, fun words hw hzero => ?_, fun words _ hblank hdecode => ?_,
    fun _ _ hzero => ?_, fun low high word hw hword hdecode => ?_⟩
  · rw [← lowerBits_eq_iff hle hrange hy, ← hlower]
    constructor
    · rintro ⟨words, hw, hdecode⟩
      injection hw with hw
      rw [← hw, decode_integer] at hdecode
      exact hdecode
    · intro hdecode
      exact ⟨_, rfl, by rw [decode_integer]; exact hdecode⟩
  · injection hw with hw
    rw [← hw]
    cases w' <;> rfl
  · injection hw with hw
    rw [hzero] at hextended
    have hlow : register % 2 ^ 32 = 0 := by
      have hdvd : (2 : Int) ^ 32 ∣ 2 ^ max w.bits 32 := pow_dvd_pow 2 (Nat.le_max_right _ _)
      have hmod : (0 : Int) % 2 ^ max w.bits 32 = register % 2 ^ max w.bits 32 := hextended
      rw [← Int.emod_emod_of_dvd register hdvd, ← hmod]
      rfl
    rw [← hw]
    by_cases hw' : w' = .w64
    · have hw64 : w = .w64 := by
        rw [hw'] at hle
        cases w <;> first | rfl | exact absurd hle (by decide)
      rw [hw64] at hextended
      have hregister' : register = 0 := by
        have hmod : (0 : Int) % 2 ^ 64 = register % 2 ^ 64 := hextended
        omega
      rw [if_pos hw', hregister']
      exact ⟨rfl, rfl⟩
    · rw [if_neg hw']
      exact hlow
  · rw [decode_blank _ hblank] at hdecode
    rw [← hdecode] at hy
    exact eq_zero_of_integerToHost hle hrange hy
  · rw [hzero] at hy
    exact eq_zero_of_integerToHost hle hrange hy
  · injection hw with hw
    by_cases hw' : w' = .w64
    · rw [if_pos hw'] at hw
      injection hw with hlow hhigh
      have hplain := (lowerBits_eq_iff hle hrange hy).mpr fun hlt => by
        have := width_le w
        rw [hw'] at hlt
        exact absurd hlt (by show ¬ 64 < w.bits; omega)
      rw [← hplain, ← hlower, hw'] at hdecode
      have hmod : (0 + 2 ^ 32 * word) % 2 ^ 64 = register % 2 ^ 64 := wrap_eq_iff.mp hdecode
      have hlow : register % 2 ^ 32 = low := hlow
      have hhigh : register / 2 ^ 32 % 2 ^ 32 = high := hhigh
      omega
    · rw [if_neg hw'] at hw
      cases hw

end

/-- What is narrowed for a letter of a pointer. -/
theorem argumentWords_pointer (o : Objects) {type : List Char} {letter : Char}
    (htype : letterOf type = some letter) (x : Int) (index : Nat) :
    (letter = '@' → argumentWords o type x index
      = (narrowed (o.xlObjectIn x "dynamic message" index)).map fun a => .one (wrap false 32 a)) ∧
    (letter = '#' → argumentWords o type x index
      = (narrowed (o.xlClassIn <$> xlNarrowPointer x "dynamic message" index)).map fun a =>
        .one (wrap false 32 a)) ∧
    (letter = ':' ∨ letter = '^' ∨ letter = '*' → argumentWords o type x index
      = (narrowed (xlNarrowPointer x "dynamic message" index)).map fun a =>
        .one (wrap false 32 a)) := by
  unfold argumentWords
  rw [htype]
  refine ⟨?_, ?_, ?_⟩
  · rintro rfl
    rfl
  · rintro rfl
    cases h : xlNarrowPointer x "dynamic message" index with
    | error fault => simp only [h]; rfl
    | ok a => simp only [h]; rfl
  · rintro (rfl | rfl | rfl) <;> rfl

section

variable {o : Objects} {made : Made o} {id : String} {index : Nat} {arg : Argument o} {y : Int}
  {known : Prop}

theorem register_wrap (arg : Argument o) : wrap false 64 arg.register = arg.register :=
  wrap_of_inRange (by decide) arg.inRange

theorem narrow_address {symbol : String} {i : Nat} (arg : Argument o) (a : Int)
    (h : xlNarrowPointer arg.register symbol i = .ok a) :
    InRange false 32 a ∧ (a = 0 ↔ arg.register = 0) := by
  obtain ⟨hlow, hnull, -⟩ := narrowPointer_spec arg.inRange h
  refine ⟨?_, hnull⟩
  rw [hlow]
  exact inRange_wrap false (by decide) _

theorem object_address {symbol : String} {i : Nat} (arg : Argument o) (a : Int)
    (h : o.xlObjectIn arg.register symbol i = .ok a) :
    InRange false 32 a ∧ (a = 0 ↔ arg.register = 0) :=
  ⟨(objectIn_spec o arg.inRange h).1, (objectIn_spec o arg.inRange h).2.1⟩

theorem objectIn_zero (o : Objects) (symbol : String) (i : Nat) :
    o.xlObjectIn 0 symbol i = .ok 0 := by
  show Except.ok (o.xlClassIn 0) = .ok 0
  rw [(o.classIn_eq_zero 0).mpr rfl]

/-- A pointer that the bridge makes something of its own for, unless it is null on the host. -/
theorem crossing_narrowed (v : ParamValue)
    (hone : OneWord arg.declared)
    (hletter : argumentWords o arg.type arg.register (index + 2)
      = (narrowed (xlNarrowPointer arg.register "dynamic message" (index + 2))).map fun a =>
        .one (wrap false 32 a))
    (hload : (if wrap false 32 arg.register = 0 then .ok 0
      else made.host index v arg.register) = Except.ok y) :
    Crossing arg.declared (guestValue arg.declared arg.register)
      (argumentWords o arg.type arg.register (index + 2)) y (arg.register = 0) known := by
  rw [hone.value]
  refine crossing_own hletter hone (narrow_address arg) (fun hx => ?_) fun hx hsome => ?_
  · rw [hx, if_pos (by rfl)] at hload
    injection hload with hload
    rw [hx]
    exact ⟨hload.symm, rfl⟩
  · obtain ⟨a, ha⟩ := hsome
    obtain ⟨hlow, hnull, -⟩ := narrowPointer_spec arg.inRange ha
    rw [if_neg (fun h => hx (hnull.mp (hlow.trans h)))] at hload
    obtain ⟨hne, hown⟩ := made.own index v arg.register y hx hload
    exact ⟨hne, (hown _ _).2⟩

/-- A protocol: the bridge passes the host's protocol of its name. -/
theorem crossing_protocol
    (hone : OneWord arg.declared)
    (hletter : argumentWords o arg.type arg.register (index + 2)
      = (narrowed (o.xlObjectIn arg.register "dynamic message" (index + 2))).map fun a =>
        .one (wrap false 32 a)) :
    Crossing arg.declared (guestValue arg.declared arg.register)
      (argumentWords o arg.type arg.register (index + 2)) (o.xlProtocol arg.register)
      (o.InPlace arg.register) (o.xlProtocol arg.register = 0 → arg.register = 0) := by
  rw [hone.value]
  refine crossing_address hletter hone (object_address arg) ⟨fun hsame => ?_, fun hplace => ?_⟩
    fun hknown _ => hknown
  · exact (objectIn_spec o arg.inRange hsame).2.2.1
  · exact hplace _ _

/-- A block. -/
theorem crossing_block (v : ParamValue)
    (hone : OneWord arg.declared)
    (hletter : argumentWords o arg.type arg.register (index + 2)
      = (narrowed (o.xlObjectIn arg.register "dynamic message" (index + 2))).map fun a =>
        .one (wrap false 32 a))
    (hload : (if arg.register = 0 then .ok 0
      else made.host index v arg.register) = Except.ok y) :
    Crossing arg.declared (guestValue arg.declared arg.register)
      (argumentWords o arg.type arg.register (index + 2)) y (arg.register = 0) known := by
  rw [hone.value]
  refine crossing_own hletter hone (object_address arg) (fun hx => ?_) fun hx _ => ?_
  · rw [if_pos hx] at hload
    injection hload with hload
    rw [hx, objectIn_zero]
    exact ⟨hload.symm, rfl⟩
  · rw [if_neg hx] at hload
    obtain ⟨hne, hown⟩ := made.own index v arg.register y hx hload
    exact ⟨hne, (hown _ _).1⟩

/-- A function pointer: the sentinels are passed as they are. -/
theorem crossing_function (v : ParamValue)
    (hone : OneWord arg.declared)
    (hletter : argumentWords o arg.type arg.register (index + 2)
      = (narrowed (xlNarrowPointer arg.register "dynamic message" (index + 2))).map fun a =>
        .one (wrap false 32 a))
    (hload : (if 0xFFFFFFFFFFFFFF00 ≤ arg.register then .ok (wrap false 32 arg.register)
      else if arg.register = 0 then .ok 0
      else made.host index v arg.register) = Except.ok y) :
    Crossing arg.declared (guestValue arg.declared arg.register)
      (argumentWords o arg.type arg.register (index + 2)) y
      (arg.register = 0 ∨ 0xFFFFFFFFFFFFFF00 ≤ arg.register) known := by
  rw [hone.value]
  by_cases hsentinel : 0xFFFFFFFFFFFFFF00 ≤ arg.register
  · rw [if_pos hsentinel] at hload
    injection hload with hload
    have hnarrow : xlNarrowPointer arg.register "dynamic message" (index + 2) = .ok y := by
      unfold xlNarrowPointer
      rw [if_pos (by omega), if_pos hsentinel, hload]
    rw [iff_true_intro (Or.inr hsentinel : arg.register = 0 ∨ _)]
    exact crossing_same hletter hone (narrow_address arg) hnarrow
  · rw [if_neg hsentinel] at hload
    rw [show (arg.register = 0 ∨ 0xFFFFFFFFFFFFFF00 ≤ arg.register) = (arg.register = 0) from
      propext (or_iff_left hsentinel)]
    refine crossing_own hletter hone (narrow_address arg) (fun hx => ?_) fun hx _ => ?_
    · rw [if_pos hx] at hload
      injection hload with hload
      rw [hx]
      exact ⟨hload.symm, rfl⟩
    · rw [if_neg hx] at hload
      obtain ⟨hne, hown⟩ := made.own index v arg.register y hx hload
      exact ⟨hne, (hown _ _).2⟩

/-- A pointer to data or a selector that the bridge narrows. -/
theorem crossing_pointer {value : Value}
    (hone : OneWord arg.declared)
    (hletter : argumentWords o arg.type arg.register (index + 2)
      = (narrowed (xlNarrowPointer arg.register "dynamic message" (index + 2))).map fun a =>
        .one (wrap false 32 a))
    (hobject : value.isObject = false)
    (hload : pointerToHost o.machinery value arg.register id index = .ok y) :
    Crossing arg.declared (guestValue arg.declared arg.register)
      (argumentWords o arg.type arg.register (index + 2)) y True known := by
  rw [hone.value]
  refine crossing_same hletter hone (narrow_address arg) ?_
  unfold pointerToHost at hload
  rw [hobject, register_wrap] at hload
  obtain ⟨a, ha, hy⟩ := Fallible.map_eq_ok hload
  have hrange : wrap false 32 a = a := wrap_of_inRange (by decide) (narrow_address arg a ha).1
  rw [(narrowPointer_spec arg.inRange ha).2.2, ← hy, hrange]

/-- An object, or a class. -/
theorem crossing_objectPointer {value : Value} {letter : Char}
    (hone : OneWord arg.declared)
    (htype : letterOf arg.type = some letter) (hletter : letter = '@' ∨ letter = '#')
    (hobject : value.isObject = true)
    (hload : pointerToHost o.machinery value arg.register id index = .ok y) :
    Crossing arg.declared (guestValue arg.declared arg.register)
      (argumentWords o arg.type arg.register (index + 2)) y True known := by
  rw [hone.value]
  unfold pointerToHost at hload
  rw [hobject, register_wrap] at hload
  obtain ⟨a, ha, hy⟩ := Fallible.map_eq_ok hload
  have ha : o.xlObjectIn arg.register id index = .ok a := ha
  obtain ⟨hrange, hnull, hsame, hclass⟩ := objectIn_spec o arg.inRange ha
  have hy : a = y := by rw [← hy, wrap_of_inRange (by decide) hrange]
  subst hy
  obtain ⟨hobjectWords, hclassWords, -⟩ :=
    argumentWords_pointer o htype arg.register (index + 2)
  rcases hletter with rfl | rfl
  · exact crossing_same (hobjectWords rfl) hone (object_address arg) (hsame _ _)
  · have hclass := hclass (arg.isClass htype)
    refine crossing_same (hclassWords rfl) hone (fun a' ha' => ?_) (hclass _ _)
    rw [hclass] at ha'
    injection ha' with ha'
    rw [← ha']
    exact ⟨hrange, hnull⟩

/-- The letters of a type that is narrowed. -/
theorem argumentWords_narrowed {declared : Declared} (hd : arg.declared = declared)
    (hletters : ∀ letter ∈ letters declared, letter = ':' ∨ letter = '^' ∨ letter = '*') :
    argumentWords o arg.type arg.register (index + 2)
      = (narrowed (xlNarrowPointer arg.register "dynamic message" (index + 2))).map fun a =>
        .one (wrap false 32 a) := by
  obtain ⟨letter, hmem, htype⟩ := arg.encoded
  rw [hd] at hmem
  exact (argumentWords_pointer o htype arg.register (index + 2)).2.2 (hletters letter hmem)

/-- A pointer to data of two layouts that is no copy does not cross. -/
theorem unsupported_of_detected {params : List (Declared × String)} {index : Nat} {g h : CType}
    {isConst : Bool} {value : Value}
    (hv : detected params index (.pointer g h false isConst) = .value value) :
    value.kind = .unsupported := by
  have hparameter : ∀ {value : Value}, classifyParameter (.pointer g h false isConst)
      = .value value → value.kind = .unsupported := by
    intro value hvalue
    simp only [classifyParameter] at hvalue
    split at hvalue
    · cases hvalue
    · split at hvalue
      · cases hvalue
      · cases hvalue
        rfl
  simp only [detected] at hv
  split at hv
  · rcases hcount : countIndex params index with - | j
    · rw [hcount] at hv
      exact hparameter hv
    · rw [hcount] at hv
      cases hv
  · exact hparameter hv

/-- **An argument crosses the same way in both exactly if it is plain**, whatever it is. -/
theorem crossing_spec {params : List (Declared × String)}
    (hkind : (detected params index arg.declared).kind ≠ .unsupported)
    (hload : hostLoad made id index (detected params index arg.declared)
      (wrap false 64 (guestValue arg.declared arg.register)) = .ok y) :
    Crossing arg.declared (guestValue arg.declared arg.register)
      (argumentWords o arg.type arg.register (index + 2)) y
      (Plain (detected params index arg.declared) arg) arg.HasProtocol := by
  obtain ⟨letter, hletter, htype⟩ := arg.encoded
  obtain ⟨declared, hd⟩ : ∃ declared, arg.declared = declared := ⟨_, rfl⟩
  have hsides : Sides declared := hd ▸ arg.sides
  rw [hd] at hletter
  cases hsides with
  | integer signed signed' hle =>
      rename_i w w'
      have hdetected : detected params index arg.declared
          = .value (classify (.integer w signed) (.integer w' signed')) := by rw [hd]; rfl
      have hvalue : wrap signed w.bits arg.register = guestValue arg.declared arg.register := by
        rw [hd]
        rfl
      have hextended := arg.extended
      rw [show registerBits arg.declared = max w.bits 32 by rw [hd]; rfl] at hextended
      rw [hdetected] at hload ⊢
      have hsent := argumentWords_integer o hletter htype arg.register (index + 2)
      have hcrossing : Crossing _ _ _ _ _ arg.HasProtocol :=
        crossing_integer hle hvalue arg.inRange hextended hsent hload
      rw [← hd] at hcrossing
      exact hcrossing
  | pointer kind =>
      have hone : OneWord arg.declared := by rw [hd]; exact oneWord_pointer kind
      have hdetected : detected params index arg.declared
          = .value (classify (.pointer kind) (.pointer kind)) := by rw [hd]; rfl
      rw [hdetected] at hload hkind ⊢
      rw [hone.value, register_wrap] at hload
      cases kind with
      | data passes =>
          cases passes with
          | true =>
              have hwords := @argumentWords_narrowed o index arg _ hd fun letter h =>
                .inr (List.mem_pair.mp h)
              exact crossing_pointer hone hwords rfl hload
          | false => exact absurd rfl hkind
      | object => exact crossing_objectPointer hone htype (List.mem_pair.mp hletter) rfl hload
      | selector =>
          have hwords := @argumentWords_narrowed o index arg _ hd fun letter h =>
            .inl (List.mem_singleton.mp h)
          exact crossing_pointer hone hwords rfl hload
      | protocol =>
          have hword := (argumentWords_pointer o htype arg.register (index + 2)).1
            (List.mem_singleton.mp hletter)
          injection hload with hload
          rw [← hload, show arg.HasProtocol = (o.xlProtocol arg.register = 0 → arg.register = 0) from
            propext ⟨fun h => h hd, fun h _ => h⟩]
          exact crossing_protocol hone hword
      | block =>
          have hword := (argumentWords_pointer o htype arg.register (index + 2)).1
            (List.mem_singleton.mp hletter)
          exact crossing_block _ hone hword hload
      | function =>
          have hwords := @argumentWords_narrowed o index arg _ hd fun letter h =>
            .inr (.inl (List.mem_singleton.mp h))
          exact crossing_function _ hone hwords hload
  | data g h passes isConst =>
      have hone : OneWord arg.declared := by rw [hd]; exact oneWord_data g h passes isConst
      have hwords := @argumentWords_narrowed o index arg _ hd fun letter h =>
        .inr (List.mem_pair.mp h)
      rw [hone.value, register_wrap] at hload
      have hdetected : detected params index arg.declared
          = detected params index (.pointer g h passes isConst) := by rw [hd]
      rw [hdetected] at hkind hload ⊢
      rcases hv : detected params index (.pointer g h passes isConst) with
        value | pointee | ⟨pointee, writesBack⟩ | ⟨element, j, writesBack⟩
      case value =>
          -- only a pointee of one layout, or a handle, is passed as it is
          rw [hv] at hload hkind
          cases passes with
          | true =>
              cases hv
              exact crossing_pointer hone hwords rfl hload
          | false =>
              exact absurd (unsupported_of_detected hv) hkind
      all_goals
        rw [hv] at hload
        exact crossing_narrowed _ hone hwords hload

end

end DynamicSend

end Katabasis
