import Katabasis.Runtime.DynamicAgreement

set_option autoImplicit false

/-! # Variadic collection constructors

Four selectors that take a list of objects up to `nil` have handlers of their own
(`runtime/objc_bridge.m`): the first object is in `X2`, the others are in slots of eight bytes
from the guest's `SP` on.

`Respects` says that a call answers with an instance of the receiver's class that has the listed
objects in it, each as `xl_object_in` passes it. **`respects_iff`**: the handlers put the guest's
words into the collection as they are, so no listed object may be a guest block or a class with
another one on the host; and only `initWithObjects:` takes the class from the receiver in
general, the handler of dictionaries asks whether it is mutable, and the other two do not look.

Foundation is a parameter. What a set makes of equal objects and a dictionary of a key that is
listed twice is left to it: the contents of a collection are what was put in, in order.
-/

namespace Katabasis

namespace VariadicConstructors

open CIntegers DynamicSend

/-! ## Foundation -/

/-- What was put into a collection, in order; a dictionary has pairs of an object and its key. -/
inductive Contents
  | objects (list : List Int)
  | entries (list : List (Int × Int))
  deriving DecidableEq, Repr

/-- A collection, with its class; a class cluster's private class counts as the public one. -/
structure Collection (Class : Type) where
  cls : Class
  contents : Contents

structure Foundation (Class : Type) where
  isSubclassOfClass : Class → Class → Bool
  /-- The class object at an address, and the class of the instance there. -/
  classAt : Int → Class
  classOf : Int → Class
  nsArray : Class
  nsSet : Class
  nsOrderedSet : Class
  nsDictionary : Class
  nsMutableDictionary : Class
  /-- `copy` of an `NSMutableArray` and of an `NSMutableDictionary`. -/
  copyArray : List Int → Collection Class
  copyDictionary : List (Int × Int) → Collection Class
  setWithArray : Class → List Int → Collection Class
  /-- `initWithArray:` of the allocated instance at an address. -/
  initWithArray : Int → List Int → Collection Class

/-- What Foundation's documentation says of these. -/
structure Foundation.Documented {Class : Type} (f : Foundation Class) : Prop where
  refl : ∀ cls, f.isSubclassOfClass cls cls = true
  antisymm : ∀ a b, f.isSubclassOfClass a b = true → f.isSubclassOfClass b a = true → a = b
  mutableDictionary : f.isSubclassOfClass f.nsMutableDictionary f.nsDictionary = true
  copyArray : ∀ list, f.copyArray list = ⟨f.nsArray, .objects list⟩
  copyDictionary : ∀ list, f.copyDictionary list = ⟨f.nsDictionary, .entries list⟩
  setWithArray : ∀ cls list, f.setWithArray cls list = ⟨cls, .objects list⟩
  initWithArray : ∀ self list, f.initWithArray self list = ⟨f.classOf self, .objects list⟩

/-! ## The handlers -/

/-- The number in a register of the guest. -/
def word (value : UInt64) : Int := value.toNat

/-- `(id)(uintptr_t)value` -/
def idOf (value : UInt64) : Int := wrap false 32 (word value)

/-- The guest's registers and memory at the call. -/
structure Frame where
  x0 : UInt64
  x2 : UInt64
  sp : UInt64
  /-- The eight bytes at an address. -/
  memory : Int → UInt64

/-- What ends a call early: a word that is no address of the host, and the exception for `nil`. -/
inductive Stop
  | narrowing (fault : NarrowingFault)
  | nilObject
  deriving DecidableEq, Repr

/-- The outcome of a loop that is followed for a number of rounds; there is none where it goes
on. -/
abbrev Outcome (α : Type) := Option (Except Stop α)

def xlVariadicArg (s : Frame) (index : UInt32) : Narrowed UInt64 :=
  if index = 0 then .ok s.x2
  else s.memory <$>
    xlNarrowPointer (word (s.sp + (8 * (index - 1)).toUInt64)) "variadic argument" index.toNat

/-- The loop of `xl_collect_objects` from `i` on, with what `array` has so far. -/
def xlCollectObjects (s : Frame) : Nat → UInt32 → List Int → Outcome (List Int)
  | 0, _, _ => none
  | fuel + 1, i, array =>
      match xlVariadicArg s i with
      | .error fault => some (.error (.narrowing fault))
      | .ok value =>
          if value = 0 then some (.ok array)
          else if idOf value = 0 then some (.error .nilObject)
          else xlCollectObjects s fuel (i + 1) (array ++ [idOf value])

/-- The loop of `xl_h_dictionaryWithObjectsAndKeys` from `i` on. -/
def xlCollectEntries (s : Frame) : Nat → UInt32 → List (Int × Int) → Outcome (List (Int × Int))
  | 0, _, _ => none
  | fuel + 1, i, dict =>
      match xlVariadicArg s i with
      | .error fault => some (.error (.narrowing fault))
      | .ok value =>
          if value = 0 then some (.ok dict)
          else
            match xlVariadicArg s (i + 1) with
            | .error fault => some (.error (.narrowing fault))
            | .ok key =>
                if key = 0 then some (.ok dict)
                else if idOf value = 0 ∨ idOf key = 0 then some (.error .nilObject)
                else xlCollectEntries s fuel (i + 2) (dict ++ [(idOf value, idOf key)])

section Handlers

variable {Class : Type} (f : Foundation Class) (s : Frame) (fuel : Nat)

def xlHDictionaryWithObjectsAndKeys : Outcome (Collection Class) :=
  match xlNarrowPointer (word s.x0) "dictionaryWithObjectsAndKeys:" 0 with
  | .error fault => some (.error (.narrowing fault))
  | .ok self =>
      (xlCollectEntries s fuel 0 []).map <| Except.map fun dict =>
        if f.isSubclassOfClass (f.classAt self) f.nsMutableDictionary then
          ⟨f.nsMutableDictionary, .entries dict⟩
        else f.copyDictionary dict

def xlHArrayWithObjects : Outcome (Collection Class) :=
  (xlCollectObjects s fuel 0 []).map <| Except.map f.copyArray

def xlHInitWithObjects : Outcome (Collection Class) :=
  match xlNarrowPointer (word s.x0) "initWithObjects:" 0 with
  | .error fault => some (.error (.narrowing fault))
  | .ok self => (xlCollectObjects s fuel 0 []).map <| Except.map (f.initWithArray self)

def xlHSetWithObjects : Outcome (Collection Class) :=
  (xlCollectObjects s fuel 0 []).map <| Except.map (f.setWithArray f.nsSet)

/-- The selectors with a handler of their own, `variadic` in `EmitSelectors`. -/
inductive Constructor
  | dictionaryWithObjectsAndKeys
  | arrayWithObjects
  | initWithObjects
  | setWithObjects
  deriving DecidableEq, Repr

def Constructor.handler : Constructor → Outcome (Collection Class)
  | dictionaryWithObjectsAndKeys => xlHDictionaryWithObjectsAndKeys f s fuel
  | arrayWithObjects => xlHArrayWithObjects f s fuel
  | initWithObjects => xlHInitWithObjects f s fuel
  | setWithObjects => xlHSetWithObjects f s fuel

end Handlers

/-! ## What a call asks for -/

/-- From argument `i` on the values are listed, and then `nil`. -/
def Listed (s : Frame) : UInt32 → List UInt64 → Prop
  | i, [] => xlVariadicArg s i = .ok 0
  | i, value :: rest => xlVariadicArg s i = .ok value ∧ value ≠ 0 ∧ Listed s (i + 1) rest

/-- The objects with their keys; an object without a key is not listed. -/
def pairs : List UInt64 → List (UInt64 × UInt64)
  | value :: key :: rest => (value, key) :: pairs rest
  | _ => []

variable {Class : Type}

/-- The class that the collection should be an instance of. -/
def receiverClass (f : Foundation Class) (s : Frame) : Constructor → Class
  | .initWithObjects => f.classOf (idOf s.x0)
  | _ => f.classAt (idOf s.x0)

/-- The receiver is a class of the family, or for `initWithObjects:` an instance of one. -/
def Receives (f : Foundation Class) (s : Frame) (c : Constructor) : Prop :=
  let cls := receiverClass f s c
  match c with
  | .dictionaryWithObjectsAndKeys => f.isSubclassOfClass cls f.nsDictionary = true
  | .arrayWithObjects => f.isSubclassOfClass cls f.nsArray = true
  | .initWithObjects =>
      f.isSubclassOfClass cls f.nsArray = true ∨ f.isSubclassOfClass cls f.nsSet = true ∨
        f.isSubclassOfClass cls f.nsOrderedSet = true
  | .setWithObjects => f.isSubclassOfClass cls f.nsSet = true

/-- `xl_object_in` passes the guest's object as this one of the host's. -/
def Crosses (o : Objects) (value : UInt64) (host : Int) : Prop :=
  ∀ symbol index, o.xlObjectIn (word value) symbol index = .ok host

/-- The collection has what is listed, translated. -/
def Holds (o : Objects) (c : Constructor) (values : List UInt64) : Contents → Prop
  | .objects list =>
      c ≠ .dictionaryWithObjectsAndKeys ∧ List.Forall₂ (Crosses o) values list
  | .entries list =>
      c = .dictionaryWithObjectsAndKeys ∧
        List.Forall₂ (fun entry host => Crosses o entry.1 host.1 ∧ Crosses o entry.2 host.2)
          (pairs values) list

/-- The call answers with a collection of the receiver's class that holds what is listed. -/
def Respects (f : Foundation Class) (o : Objects) (c : Constructor) (s : Frame) (fuel : Nat)
    (values : List UInt64) : Prop :=
  ∃ collection, c.handler f s fuel = some (.ok collection) ∧
    f.isSubclassOfClass collection.cls (receiverClass f s c) = true ∧
    Holds o c values collection.contents

/-! ## When the handlers do -/

/-- The class of the answer, which the handlers choose, is the receiver's. -/
def ClassKept (f : Foundation Class) (s : Frame) (c : Constructor) : Prop :=
  match c with
  | .dictionaryWithObjectsAndKeys =>
      receiverClass f s c = f.nsDictionary ∨ receiverClass f s c = f.nsMutableDictionary
  | .arrayWithObjects => receiverClass f s c = f.nsArray
  | .initWithObjects => True
  | .setWithObjects => receiverClass f s c = f.nsSet

/-- Neither a block of the guest nor a class that the host has another one for. -/
def PlainObject (o : Objects) (value : UInt64) : Prop :=
  o.xlIsGuestBlock (word value) = false ∧ o.xlClassIn (idOf value) = idOf value

/-- The values that end up in the collection. -/
def Constructor.stored (c : Constructor) (values : List UInt64) : List UInt64 :=
  match c with
  | .dictionaryWithObjectsAndKeys => (pairs values).flatMap fun entry => [entry.1, entry.2]
  | _ => values

/-! ## Objects -/

theorem word_inRange (value : UInt64) : InRange false 64 (word value) := by
  have := value.toNat_lt
  simp only [InRange, lowest, highest, Bool.false_eq_true, if_false, word]
  omega

theorem crosses_iff {o : Objects} {value : UInt64} {a b : Int} (h : Crosses o value a) :
    Crosses o value b ↔ a = b := by
  constructor
  · intro hb
    have heq := (h "" 0).symm.trans (hb "" 0)
    injection heq
  · rintro rfl
    exact h

/-- An object is not `nil` as the host's word either. -/
theorem idOf_ne_zero {o : Objects} {value : UInt64} {a : Int} (h : Crosses o value a)
    (hvalue : value ≠ 0) : idOf value ≠ 0 := by
  have hword : word value ≠ 0 := by
    intro hzero
    apply hvalue
    rw [← UInt64.toNat_inj]
    simpa [word] using hzero
  by_cases hblock : o.xlIsGuestBlock (word value) = true
  · rw [idOf, wrap_of_guestBlock hblock]
    exact hword
  · have ha := objectIn_eq (word_inRange value) (h "" 0)
    rw [if_neg hblock] at ha
    intro hzero
    rw [idOf] at hzero
    rw [hzero, (o.classIn_eq_zero 0).mpr rfl] at ha
    exact hword ((objectIn_spec o (word_inRange value) (h "" 0)).2.1.mp ha)

/-- The word itself is what `xl_object_in` passes, of a plain object alone. -/
theorem crosses_idOf_iff {o : Objects}
    (hown : ∀ x, o.xlIsGuestBlock x = true → o.xlWrapperFor x ≠ x) {value : UInt64} {a : Int}
    (h : Crosses o value a) : Crosses o value (idOf value) ↔ PlainObject o value := by
  rw [crosses_iff h]
  exact lowerWord_eq_iff hown (word_inRange value) (h "" 0)

/-! ## The loops -/

theorem Listed.ne_zero {s : Frame} {i : UInt32} {values : List UInt64} (h : Listed s i values)
    {value : UInt64} (hvalue : value ∈ values) : value ≠ 0 := by
  induction values generalizing i with
  | nil => cases hvalue
  | cons first rest ih =>
      obtain ⟨-, hfirst, hrest⟩ := h
      rcases List.mem_cons.mp hvalue with rfl | hmem
      · exact hfirst
      · exact ih hrest hmem

/-- **The loop stops at `nil`** and has collected the words of all the values. -/
theorem xlCollectObjects_eq {s : Frame} {values : List UInt64} {i : UInt32}
    (hlist : Listed s i values) (hid : ∀ value ∈ values, idOf value ≠ 0) {fuel : Nat}
    (hfuel : values.length < fuel) (array : List Int) :
    xlCollectObjects s fuel i array = some (.ok (array ++ values.map idOf)) := by
  induction values generalizing i fuel array with
  | nil =>
      cases fuel with
      | zero => cases hfuel
      | succ fuel =>
          have hend : xlVariadicArg s i = .ok 0 := hlist
          simp [xlCollectObjects, hend]
  | cons value rest ih =>
      cases fuel with
      | zero => cases hfuel
      | succ fuel =>
          obtain ⟨harg, hvalue, hrest⟩ := hlist
          have hhere := hid value List.mem_cons_self
          rw [xlCollectObjects, harg]
          simp only [hvalue, hhere, if_false]
          rw [ih hrest (fun v hv => hid v (List.mem_cons_of_mem _ hv)) (by simpa using hfuel)]
          simp

/-- The same of the loop over the pairs, which also stops at an object without a key. -/
theorem xlCollectEntries_eq {s : Frame} {values : List UInt64} {i : UInt32}
    (hlist : Listed s i values) (hid : ∀ value ∈ values, idOf value ≠ 0) {fuel : Nat}
    (hfuel : values.length < fuel) (dict : List (Int × Int)) :
    xlCollectEntries s fuel i dict =
      some (.ok (dict ++ (pairs values).map fun entry => (idOf entry.1, idOf entry.2))) := by
  induction values using pairs.induct generalizing i fuel dict with
  | case1 value key rest ih =>
      cases fuel with
      | zero => cases hfuel
      | succ fuel =>
          obtain ⟨harg, hvalue, harg', hkey, hrest⟩ := hlist
          have hobject := hid value (by simp)
          have hkeyId := hid key (by simp)
          have hnext : i + 1 + 1 = i + 2 := by
            rw [UInt32.add_assoc]
            rfl
          rw [hnext] at hrest
          rw [xlCollectEntries, harg]
          simp only [hvalue, if_false, harg', hkey, hobject, hkeyId, or_self]
          rw [ih hrest (fun v hv => hid v (by simp [hv])) (by simp at hfuel; omega)]
          simp [pairs]
  | case2 values hshort =>
      cases fuel with
      | zero => cases hfuel
      | succ fuel =>
          match values, hshort with
          | [], _ =>
              have hend : xlVariadicArg s i = .ok 0 := hlist
              simp [xlCollectEntries, hend, pairs]
          | [value], _ =>
              obtain ⟨harg, hvalue, hend⟩ := hlist
              have hend : xlVariadicArg s (i + 1) = .ok 0 := hend
              simp [xlCollectEntries, harg, hvalue, hend, pairs]
          | value :: key :: rest, hshort => exact absurd rfl (hshort value key rest)

/-! ## The answer -/

/-- The class the handler chooses. -/
def answeredClass (f : Foundation Class) (s : Frame) (c : Constructor) : Class :=
  match c with
  | .dictionaryWithObjectsAndKeys =>
      if f.isSubclassOfClass (receiverClass f s c) f.nsMutableDictionary then f.nsMutableDictionary
      else f.nsDictionary
  | .arrayWithObjects => f.nsArray
  | .initWithObjects => receiverClass f s c
  | .setWithObjects => f.nsSet

/-- The words the handler puts into the collection. -/
def putIn (c : Constructor) (values : List UInt64) : Contents :=
  match c with
  | .dictionaryWithObjectsAndKeys =>
      .entries ((pairs values).map fun entry => (idOf entry.1, idOf entry.2))
  | _ => .objects (values.map idOf)

/-- An address of the host is narrowed to itself. -/
theorem narrow_self {s : Frame} (hself : s.x0.toNat < 2 ^ 32) (symbol : String) (index : Nat) :
    xlNarrowPointer (word s.x0) symbol index = .ok (idOf s.x0) := by
  have hlow : word s.x0 / 2 ^ 32 = 0 := by
    simp only [word]
    omega
  rw [xlNarrowPointer, if_neg (by rw [hlow]; decide)]
  rfl

theorem handler_eq {f : Foundation Class} (hf : f.Documented) {c : Constructor} {s : Frame}
    (hself : s.x0.toNat < 2 ^ 32) {values : List UInt64} (hlist : Listed s 0 values)
    (hid : ∀ value ∈ values, idOf value ≠ 0) {fuel : Nat} (hfuel : values.length < fuel) :
    c.handler f s fuel = some (.ok ⟨answeredClass f s c, putIn c values⟩) := by
  have hobjects := xlCollectObjects_eq hlist hid hfuel []
  have hentries := xlCollectEntries_eq hlist hid hfuel []
  rw [List.nil_append] at hobjects hentries
  cases c with
  | dictionaryWithObjectsAndKeys =>
      have hclass : receiverClass f s .dictionaryWithObjectsAndKeys = f.classAt (idOf s.x0) := rfl
      rw [Constructor.handler, xlHDictionaryWithObjectsAndKeys, narrow_self hself, answeredClass,
        hclass]
      simp only [hentries, Option.map_some, Except.map, putIn]
      split_ifs with hmutable
      · rfl
      · rw [hf.copyDictionary]
  | arrayWithObjects =>
      simp only [Constructor.handler, xlHArrayWithObjects, hobjects, Option.map_some, Except.map,
        hf.copyArray, answeredClass, putIn]
  | initWithObjects =>
      simp only [Constructor.handler, xlHInitWithObjects, narrow_self hself, hobjects,
        Option.map_some, Except.map, hf.initWithArray, answeredClass, putIn, receiverClass]
  | setWithObjects =>
      simp only [Constructor.handler, xlHSetWithObjects, hobjects, Option.map_some, Except.map,
        hf.setWithArray, answeredClass, putIn]

/-- A class above a class of the family, and in the family below it, is that class. -/
theorem isSubclass_iff_eq {f : Foundation Class} (hf : f.Documented) {answered receiver : Class}
    (h : f.isSubclassOfClass receiver answered = true) :
    f.isSubclassOfClass answered receiver = true ↔ receiver = answered := by
  constructor
  · intro h'
    exact hf.antisymm _ _ h h'
  · rintro rfl
    exact hf.refl _

theorem answeredClass_iff {f : Foundation Class} (hf : f.Documented) {c : Constructor} {s : Frame}
    (hreceives : Receives f s c) :
    f.isSubclassOfClass (answeredClass f s c) (receiverClass f s c) = true ↔
      ClassKept f s c := by
  cases c with
  | arrayWithObjects => exact isSubclass_iff_eq hf hreceives
  | setWithObjects => exact isSubclass_iff_eq hf hreceives
  | initWithObjects => simp [answeredClass, ClassKept, hf.refl]
  | dictionaryWithObjectsAndKeys =>
      have hreceives : f.isSubclassOfClass (receiverClass f s .dictionaryWithObjectsAndKeys)
        f.nsDictionary = true := hreceives
      simp only [answeredClass, ClassKept]
      generalize receiverClass f s .dictionaryWithObjectsAndKeys = receiver at *
      split_ifs with hmutable
      · rw [isSubclass_iff_eq hf hmutable]
        constructor
        · exact Or.inr
        · rintro (rfl | h)
          · -- `NSDictionary` is no subclass of `NSMutableDictionary`
            exact hf.antisymm _ _ hmutable hf.mutableDictionary
          · exact h
      · rw [isSubclass_iff_eq hf hreceives]
        constructor
        · exact Or.inl
        · rintro (h | rfl)
          · exact h
          · exact absurd (hf.refl _) hmutable

theorem mem_of_mem_pairs {values : List UInt64} {entry : UInt64 × UInt64}
    (h : entry ∈ pairs values) : entry.1 ∈ values ∧ entry.2 ∈ values := by
  induction values using pairs.induct with
  | case1 value key rest ih =>
      rw [pairs, List.mem_cons] at h
      rcases h with rfl | h
      · simp
      · have := ih h
        simp [this.1, this.2]
  | case2 values hshort =>
      match values, hshort with
      | [], _ => cases h
      | [_], _ => cases h
      | value :: key :: rest, hshort => exact absurd rfl (hshort value key rest)

theorem holds_putIn_iff {o : Objects}
    (hown : ∀ x, o.xlIsGuestBlock x = true → o.xlWrapperFor x ≠ x) {c : Constructor}
    {values : List UInt64} (hobjects : ∀ value ∈ values, ∃ host, Crosses o value host) :
    Holds o c values (putIn c values) ↔ ∀ value ∈ c.stored values, PlainObject o value := by
  have hplain : ∀ value ∈ values, (Crosses o value (idOf value) ↔ PlainObject o value) := by
    intro value hvalue
    obtain ⟨host, hhost⟩ := hobjects value hvalue
    exact crosses_idOf_iff hown hhost
  have hlist : List.Forall₂ (Crosses o) values (values.map idOf) ↔
      ∀ value ∈ values, PlainObject o value := by
    rw [List.forall₂_map_right_iff, List.forall₂_same]
    exact forall₂_congr hplain
  cases c with
  | dictionaryWithObjectsAndKeys =>
      simp only [Holds, putIn, Constructor.stored, true_and, List.forall₂_map_right_iff,
        List.forall₂_same, List.mem_flatMap, List.mem_cons, List.not_mem_nil, or_false]
      constructor
      · rintro h value ⟨entry, hentry, rfl | rfl⟩
        · exact (hplain _ (mem_of_mem_pairs hentry).1).mp (h entry hentry).1
        · exact (hplain _ (mem_of_mem_pairs hentry).2).mp (h entry hentry).2
      · intro h entry hentry
        have hmem := mem_of_mem_pairs hentry
        exact ⟨(hplain _ hmem.1).mpr (h _ ⟨entry, hentry, Or.inl rfl⟩),
          (hplain _ hmem.2).mpr (h _ ⟨entry, hentry, Or.inr rfl⟩)⟩
  | _ => simpa [Holds, putIn, Constructor.stored] using hlist

/-- **When a constructor respects its receiver and its list.** The handlers of arrays and sets
answer with the immutable class, the handler of dictionaries with the mutable one for a mutable
receiver; so a further subclass is not respected, nor a mutable array or set. The words go in as
they are, which is right for plain objects only. -/
theorem respects_iff {f : Foundation Class} (hf : f.Documented) {o : Objects}
    (hown : ∀ x, o.xlIsGuestBlock x = true → o.xlWrapperFor x ≠ x) {c : Constructor} {s : Frame}
    (hself : s.x0.toNat < 2 ^ 32) (hreceives : Receives f s c) {values : List UInt64}
    (hlist : Listed s 0 values) (hobjects : ∀ value ∈ values, ∃ host, Crosses o value host)
    {fuel : Nat} (hfuel : values.length < fuel) :
    Respects f o c s fuel values ↔
      ClassKept f s c ∧ ∀ value ∈ c.stored values, PlainObject o value := by
  have hid : ∀ value ∈ values, idOf value ≠ 0 := by
    intro value hvalue
    obtain ⟨host, hhost⟩ := hobjects value hvalue
    exact idOf_ne_zero hhost (hlist.ne_zero hvalue)
  have hanswer := handler_eq hf (c := c) hself hlist hid hfuel
  rw [← answeredClass_iff hf hreceives, ← holds_putIn_iff hown hobjects]
  constructor
  · rintro ⟨collection, hcall, hclass, hholds⟩
    rw [hanswer] at hcall
    injection hcall with hcall
    injection hcall with hcall
    rw [← hcall] at hclass hholds
    exact ⟨hclass, hholds⟩
  · rintro ⟨hclass, hholds⟩
    exact ⟨_, hanswer, hclass, hholds⟩

/-! ### A sample -/

inductive SampleClass
  | nsArray | nsMutableArray | nsSet | nsOrderedSet | nsDictionary | nsMutableDictionary
  deriving DecidableEq, Repr

/-- A process with one class, or instance, that is asked for collections. -/
def sampleFoundation (receiver : SampleClass) : Foundation SampleClass where
  isSubclassOfClass a b :=
    a = b || (a, b) = (.nsMutableArray, .nsArray) || (a, b) = (.nsMutableDictionary, .nsDictionary)
  classAt _ := receiver
  classOf _ := receiver
  nsArray := .nsArray
  nsSet := .nsSet
  nsOrderedSet := .nsOrderedSet
  nsDictionary := .nsDictionary
  nsMutableDictionary := .nsMutableDictionary
  copyArray list := ⟨.nsArray, .objects list⟩
  copyDictionary list := ⟨.nsDictionary, .entries list⟩
  setWithArray cls list := ⟨cls, .objects list⟩
  initWithArray _ list := ⟨receiver, .objects list⟩

theorem sampleFoundation_documented (receiver : SampleClass) :
    (sampleFoundation receiver).Documented where
  refl cls := by simp [sampleFoundation]
  antisymm a b := by cases a <;> cases b <;> simp [sampleFoundation]
  mutableDictionary := by simp [sampleFoundation]
  copyArray _ := rfl
  copyDictionary _ := rfl
  setWithArray _ _ := rfl
  initWithArray _ _ := rfl

/-- The list of one object at 0x6000. -/
def sampleFrame : Frame where
  x0 := 0x5000
  x2 := 0x6000
  sp := 0x7000
  memory _ := 0

theorem sampleFrame_listed : Listed sampleFrame 0 [0x6000] :=
  ⟨rfl, by decide, rfl⟩

theorem sampleFrame_crosses : ∀ value ∈ [(0x6000 : UInt64)],
    ∃ host, Crosses sampleObjects value host := by
  intro value hvalue
  rw [List.mem_singleton.mp hvalue]
  exact ⟨0x6000, fun _ _ => rfl⟩

/-- A list of four, three of them on the stack. -/
def pairsFrame : Frame where
  x0 := 0x5000
  x2 := 0x6000
  sp := 0x7000
  memory slot :=
    if slot = 0x7000 then 0x6100 else if slot = 0x7008 then 0x6200
    else if slot = 0x7010 then 0x6300 else 0

def pairsList : List UInt64 := [0x6000, 0x6100, 0x6200, 0x6300]

theorem pairsFrame_listed : Listed pairsFrame 0 pairsList :=
  ⟨rfl, by decide, rfl, by decide, rfl, by decide, rfl, by decide, rfl⟩

theorem pairsList_crosses : ∀ value ∈ pairsList, ∃ host, Crosses sampleObjects value host := by
  simp only [pairsList, List.forall_mem_cons]
  exact ⟨⟨0x6000, fun _ _ => rfl⟩, ⟨0x6100, fun _ _ => rfl⟩, ⟨0x6200, fun _ _ => rfl⟩,
    ⟨0x6300, fun _ _ => rfl⟩, by simp⟩

theorem pairsList_plain : ∀ value ∈ pairsList, PlainObject sampleObjects value := by
  simp only [pairsList, List.forall_mem_cons]
  exact ⟨⟨by decide, by decide⟩, ⟨by decide, by decide⟩, ⟨by decide, by decide⟩,
    ⟨by decide, by decide⟩, by simp⟩

/-- `[NSMutableDictionary dictionaryWithObjectsAndKeys:first, key, second, other, nil]`, and
`[NSArray arrayWithObjects:…]` of the same list. -/
theorem respects_iff_pairs :
    Respects (sampleFoundation .nsMutableDictionary) sampleObjects .dictionaryWithObjectsAndKeys
        pairsFrame 5 pairsList ∧
      Respects (sampleFoundation .nsArray) sampleObjects .arrayWithObjects pairsFrame 5
        pairsList := by
  have hown : ∀ x, sampleObjects.xlIsGuestBlock x = true → sampleObjects.xlWrapperFor x ≠ x := by
    intro x hblock
    simp [Objects.xlIsGuestBlock, sampleObjects] at hblock
  have hdictionary : Receives (sampleFoundation .nsMutableDictionary) pairsFrame
      .dictionaryWithObjectsAndKeys := rfl
  have harray : Receives (sampleFoundation .nsArray) pairsFrame .arrayWithObjects := rfl
  constructor
  · apply (respects_iff (sampleFoundation_documented .nsMutableDictionary) hown (by decide)
      hdictionary pairsFrame_listed pairsList_crosses (by decide)).mpr
    exact ⟨Or.inr rfl, pairsList_plain⟩
  · apply (respects_iff (sampleFoundation_documented .nsArray) hown (by decide) harray
      pairsFrame_listed pairsList_crosses (by decide)).mpr
    exact ⟨rfl, pairsList_plain⟩

/-- `[NSMutableArray arrayWithObjects:object, nil]` answers with an array that is not mutable. -/
theorem not_respects_mutableArray : (sampleFoundation .nsMutableArray).Documented ∧
    Receives (sampleFoundation .nsMutableArray) sampleFrame .arrayWithObjects ∧
    Listed sampleFrame 0 [0x6000] ∧
    (∀ value ∈ [(0x6000 : UInt64)], ∃ host, Crosses sampleObjects value host) ∧
    ¬ Respects (sampleFoundation .nsMutableArray) sampleObjects .arrayWithObjects sampleFrame 2
      [0x6000] := by
  refine ⟨sampleFoundation_documented _, rfl, sampleFrame_listed, sampleFrame_crosses, ?_⟩
  rintro ⟨collection, hcall, hclass, -⟩
  have hanswer : Constructor.arrayWithObjects.handler (sampleFoundation .nsMutableArray)
      sampleFrame 2 = some (.ok ⟨.nsArray, .objects [0x6000]⟩) := rfl
  rw [hanswer] at hcall
  injection hcall with hcall
  injection hcall with hcall
  rw [← hcall] at hclass
  exact absurd hclass (by decide)

end VariadicConstructors

end Katabasis
