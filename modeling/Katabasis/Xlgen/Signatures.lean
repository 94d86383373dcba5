import Katabasis.Xlgen.Encodings
import Katabasis.Xlgen.HostCalls

set_option autoImplicit false

/-! # Supported signatures

`FromFunction`, `FromMethod` and `FromEncoding` build the signature of a host function or method
from a pair of declarations, or from a type encoding, and mark it as supported or not; the first
two let `DetectArrays` have the last word on that (`xlate/src/xlgen.cpp`).

A supported signature is meant to have only kinds that the bridges convert (`Bridgeable`).
**`bridgeable_iff`** says on the types where it has: `FromFunction` turns a block result down and
`DetectArrays` takes it back, `FromEncoding` does not look at its result, and none of the three
looks into a structure. An encoding has no names of parameters, so the builders part where
`DetectArrays` finds an array.
-/

namespace Katabasis

namespace Signatures

open Encodings

/-! ## The types -/

/-- A type in a declaration or an encoding, on the two sides. -/
inductive SdkType
  | void
  | declared (type : Declared)

/-- `Classify(…, false)` of a type that is not void. -/
def classifyResult : Declared → ParamValue
  | .plain g h => .value (classify g h)
  | .pointer _ _ passes _ =>
      .value
        { kind := if passes then .pointer else .unsupported
          guest := .pointer (.data passes), host := .pointer (.data passes) }

/-- `Classify` -/
def classifyType (parameter : Bool) : SdkType → ParamValue
  | .void => .value { kind := .void, guest := .other 0, host := .other 0 }
  | .declared type => if parameter then classifyParameter type else classifyResult type

/-! ## Signatures -/

structure Parameter where
  value : ParamValue
  note : String
  name : String

structure Signature where
  params : List Parameter := []
  result : ParamValue := .value { guest := .other 0, host := .other 0 }
  resultNote : String := ""
  supported : Bool := true
  note : String := ""

namespace Signature

/-- What the bridges convert. -/
def values (s : Signature) : List ParamValue := s.params.map Parameter.value

/-- A result of one of these kinds is turned down. -/
def reject (kinds : List Kind) (s : Signature) : Signature :=
  if s.result.kind ∈ kinds then
    { s with
      supported := false
      note := "result: " ++ if s.resultNote = "" then "unsupported kind" else s.resultNote }
  else s

/-- The parameters that `DetectArrays` makes arrays. -/
def arrays (params : List (Declared × String)) (s : Signature) : Signature :=
  { s with
    params := s.params.zipWith (fun param value =>
      { param with value, note := if value.kind = .array then "" else param.note })
      (Katabasis.detectArrays params) }

/-- One turn of the loop with which `DetectArrays` ends. -/
def check (s : Signature) (param : Parameter) : Signature :=
  if param.value.kind = .unsupported then
    { s with supported := false, note := param.name ++ ": " ++ param.note }
  else s

/-- `DetectArrays` -/
def detectArrays (params : List (Declared × String)) (s : Signature) : Signature :=
  ((s.arrays params).params.foldl check { s.arrays params with supported := true }).reject
    [.unsupported, .outSlot, .array, .callback]

end Signature

section

-- The note that `Classify` leaves, which spells the type.
variable (spell : SdkType → String)

/-- A builder comes to the parameter with this index; the message is for one it cannot pass. -/
def push (message : Nat → String → String) (s : Signature) (entry : SdkType × Nat) : Signature :=
  let value := classifyType true entry.1
  let s :=
    if value.kind = .unsupported then
      { s with supported := false, note := message entry.2 (spell entry.1) }
    else s
  { s with
    params := s.params ++
      [{ value := value, note := spell entry.1, name := "a" ++ toString entry.2 }] }

/-- The parameters and the result of two declarations. -/
def declare (params : List (Declared × String)) (result : SdkType) : Signature :=
  let message := fun (i : Nat) (note : String) => "parameter " ++ toString i ++ ": " ++ note
  let s := (params.map fun param => SdkType.declared param.1).zipIdx.foldl (push spell message) {}
  { s with result := classifyType false result, resultNote := spell result }

/-- `FromFunction` -/
def fromFunction (params : List (Declared × String)) (result : SdkType) : Signature :=
  ((declare spell params result).reject [.unsupported, .outSlot, .callback, .block]).detectArrays
    params

/-- `FromMethod` -/
def fromMethod (params : List (Declared × String)) (result : SdkType) : Signature :=
  let s := ((declare spell params result).reject [.unsupported, .outSlot, .callback]).detectArrays
    params
  if s.result.kind = .block then { s with supported := false, note := "block result" } else s

/-! ## Encodings -/

section

variable {T U : Type} (gc : Context T) (hc : Context U) (view : T → U → SdkType)

/-- The digits between two types. -/
def skipOffset (text : List Char) : List Char :=
  text.dropWhile fun c => c.isDigit || c = '-'

/-- The next type on the two sides; the host's error is the one that stays. -/
def encodedPair (text : List Char) : Except String (SdkType × List Char) :=
  match typeOf gc text, typeOf hc text with
  | .ok (g, rest), .ok (h, _) => .ok (view g h, rest)
  | _, .error error => .error error
  | .error error, _ => .error error

/-- The types in the text, and the error that ended it. -/
def readTypes : Nat → List Char → List SdkType × Option String
  | 0, _ => ([], none)
  | fuel + 1, text =>
      if text = [] then ([], none)
      else match encodedPair gc hc view text with
        | .error error => ([], some error)
        | .ok (type, rest) =>
            let more := readTypes fuel (skipOffset rest)
            (type :: more.1, more.2)

/-- `FromEncoding`: behind the result stand the receiver, the selector and the parameters. -/
def fromEncoding (text : List Char) : Signature :=
  match encodedPair gc hc view text with
  | .error error => { supported := false, note := error }
  | .ok (result, rest) =>
      let types := readTypes gc hc view rest.length (skipOffset rest)
      let s := (types.1.drop 2).zipIdx.foldl (push spell fun _ note => note)
        { result := classifyType false result, resultNote := spell result }
      match types.2 with
      | some error => { s with supported := false, note := error }
      | none => s

/-- The result and the parameters of an encoding that can be read. -/
def encodingTypes (text : List Char) : Option (SdkType × List SdkType) :=
  match encodedPair gc hc view text with
  | .error _ => none
  | .ok (result, rest) =>
      match readTypes gc hc view rest.length (skipOffset rest) with
      | (_, some _) => none
      | (types, none) => some (result, types.drop 2)

end

end

/-! ## What the builders compute -/

section

variable {s : Signature} {kinds : List Kind} {params : List (Declared × String)}

theorem reject_spec (s : Signature) (kinds : List Kind) :
    (s.reject kinds).values = s.values ∧ (s.reject kinds).result = s.result ∧
      (s.reject kinds).supported = (s.supported && decide (s.result.kind ∉ kinds)) := by
  unfold Signature.reject
  by_cases h : s.result.kind ∈ kinds
  · rw [if_pos h]
    simp [Signature.values, h]
  · rw [if_neg h]
    simp [h]

/-- The loop over the parameters that `DetectArrays` ends with. -/
theorem check_foldl (params : List Parameter) (s : Signature) :
    (params.foldl Signature.check s).values = s.values ∧
      (params.foldl Signature.check s).result = s.result ∧
      (params.foldl Signature.check s).supported
        = (s.supported && params.all fun p => decide (p.value.kind ≠ .unsupported)) := by
  induction params generalizing s with
  | nil => simp
  | cons p rest ih =>
      obtain ⟨hvalues, hresult, hsupported⟩ := ih (s.check p)
      rw [List.foldl_cons, hvalues, hresult, hsupported, List.all_cons]
      unfold Signature.check
      by_cases h : p.value.kind = .unsupported
      · rw [if_pos h]
        simp [Signature.values, h]
      · rw [if_neg h]
        simp [h]

theorem length_detectArrays (params : List (Declared × String)) :
    (Katabasis.detectArrays params).length = params.length := by
  simp [Katabasis.detectArrays]

theorem arrays_values (h : s.params.length = params.length) :
    (s.arrays params).values = Katabasis.detectArrays params := by
  simp only [Signature.values, Signature.arrays, List.map_zipWith]
  apply List.ext_getElem
  · simp [h, length_detectArrays]
  · intro i h1 h2
    simp

theorem detectArrays_spec (h : s.params.length = params.length) :
    (s.detectArrays params).values = Katabasis.detectArrays params ∧
      (s.detectArrays params).result = s.result ∧
      (s.detectArrays params).supported
        = (((Katabasis.detectArrays params).all fun v => decide (v.kind ≠ .unsupported)) &&
          decide (s.result.kind ∉ [.unsupported, .outSlot, .array, .callback])) := by
  unfold Signature.detectArrays
  obtain ⟨hvalues, hresult, hsupported⟩ := reject_spec
    ((s.arrays params).params.foldl Signature.check { s.arrays params with supported := true })
    [.unsupported, .outSlot, .array, .callback]
  obtain ⟨hvalues', hresult', hsupported'⟩ :=
    check_foldl (s.arrays params).params { s.arrays params with supported := true }
  have hall : ((s.arrays params).params.all fun p => decide (p.value.kind ≠ .unsupported))
      = (s.arrays params).values.all fun v => decide (v.kind ≠ .unsupported) := by
    rw [Signature.values, List.all_map]
    rfl
  rw [hvalues, hresult, hsupported, hvalues', hresult', hsupported', hall, ← arrays_values h]
  exact ⟨rfl, rfl, rfl⟩

/-- The loop over the types of the parameters. -/
theorem push_foldl (spell : SdkType → String) (message : Nat → String → String)
    (types : List SdkType) (k : Nat) (s : Signature) :
    ((types.zipIdx k).foldl (push spell message) s).values
        = s.values ++ types.map (classifyType true) ∧
      ((types.zipIdx k).foldl (push spell message) s).result = s.result ∧
      ((types.zipIdx k).foldl (push spell message) s).supported
        = (s.supported && (types.map (classifyType true)).all fun v =>
          decide (v.kind ≠ .unsupported)) := by
  induction types generalizing k s with
  | nil => simp
  | cons type rest ih =>
      obtain ⟨hvalues, hresult, hsupported⟩ := ih (k + 1) (push spell message s (type, k))
      rw [List.zipIdx_cons, List.foldl_cons, hvalues, hresult, hsupported]
      unfold push
      by_cases h : (classifyType true type).kind = .unsupported
      · simp [Signature.values, h]
      · simp [Signature.values, h]

end

/-- Every parameter has a kind that the bridges convert, once `DetectArrays` found the arrays. -/
def accepted (params : List (Declared × String)) : Bool :=
  (Katabasis.detectArrays params).all fun v => decide (v.kind ≠ .unsupported)

theorem declare_spec (spell : SdkType → String) (params : List (Declared × String))
    (result : SdkType) :
    (declare spell params result).params.length = params.length ∧
      (declare spell params result).result = classifyType false result := by
  obtain ⟨hvalues, -, -⟩ := push_foldl spell
    (fun i note => "parameter " ++ toString i ++ ": " ++ note)
    (params.map fun param => SdkType.declared param.1) 0 {}
  refine ⟨?_, rfl⟩
  have hlength := congrArg List.length hvalues
  unfold declare
  simpa [Signature.values] using hlength

/-- What `FromFunction` returns: the block result that it turned down is back. -/
theorem fromFunction_spec (spell : SdkType → String) (params : List (Declared × String))
    (result : SdkType) :
    (fromFunction spell params result).values = Katabasis.detectArrays params ∧
      (fromFunction spell params result).result = classifyType false result ∧
      (fromFunction spell params result).supported = (accepted params &&
        decide ((classifyType false result).kind ∉
          [.unsupported, .outSlot, .array, .callback])) := by
  obtain ⟨hlength, hresult⟩ := declare_spec spell params result
  obtain ⟨hvalues', hresult', -⟩ :=
    reject_spec (declare spell params result) [.unsupported, .outSlot, .callback, .block]
  have hparams := congrArg List.length hvalues'
  simp only [Signature.values, List.length_map] at hparams
  obtain ⟨hvalues, hresult'', hsupported⟩ :=
    detectArrays_spec (s := (declare spell params result).reject
      [.unsupported, .outSlot, .callback, .block]) (hparams.trans hlength)
  unfold fromFunction
  rw [hvalues, hsupported, hresult'', hresult', hresult]
  exact ⟨rfl, rfl, rfl⟩

/-- What `FromMethod` returns. -/
theorem fromMethod_spec (spell : SdkType → String) (params : List (Declared × String))
    (result : SdkType) :
    (fromMethod spell params result).values = Katabasis.detectArrays params ∧
      (fromMethod spell params result).result = classifyType false result ∧
      (fromMethod spell params result).supported = (accepted params &&
        decide ((classifyType false result).kind ∉
          [.unsupported, .outSlot, .array, .callback, .block])) := by
  obtain ⟨hlength, hresult⟩ := declare_spec spell params result
  obtain ⟨hvalues', hresult', -⟩ :=
    reject_spec (declare spell params result) [.unsupported, .outSlot, .callback]
  have hparams := congrArg List.length hvalues'
  simp only [Signature.values, List.length_map] at hparams
  obtain ⟨hvalues, hresult'', hsupported⟩ :=
    detectArrays_spec (s := (declare spell params result).reject
      [.unsupported, .outSlot, .callback]) (hparams.trans hlength)
  rw [hresult', hresult] at hresult'' hsupported
  unfold fromMethod
  dsimp only
  by_cases hblock : (classifyType false result).kind = .block
  · rw [if_pos (by rw [hresult'', hblock])]
    exact ⟨hvalues, hresult'', by simp [hblock]⟩
  · rw [if_neg (by rw [hresult'']; exact hblock)]
    refine ⟨hvalues, hresult'', hsupported.trans ?_⟩
    simp [accepted, hblock]

/-- What `FromEncoding` returns for an encoding that it can read. -/
theorem fromEncoding_spec {T U : Type} (spell : SdkType → String) {gc : Context T}
    {hc : Context U} {view : T → U → SdkType} {text : List Char} {result : SdkType}
    {types : List SdkType} (h : encodingTypes gc hc view text = some (result, types)) :
    (fromEncoding spell gc hc view text).values = types.map (classifyType true) ∧
      (fromEncoding spell gc hc view text).result = classifyType false result ∧
      (fromEncoding spell gc hc view text).supported
        = (types.map (classifyType true)).all fun v => decide (v.kind ≠ .unsupported) := by
  unfold encodingTypes at h
  unfold fromEncoding
  rcases hfirst : encodedPair gc hc view text with error | ⟨result', rest⟩
  · rw [hfirst] at h
    cases h
  · rw [hfirst] at h
    dsimp only at h ⊢
    rcases hrest : readTypes gc hc view rest.length (skipOffset rest) with ⟨types', - | error⟩
    · rw [hrest] at h
      cases h
      exact push_foldl spell (fun _ note => note) (types'.drop 2) 0
        { result := classifyType false result, resultNote := spell result }
    · rw [hrest] at h
      cases h

/-- **The loop over an encoding ends with it**: more turns than it has characters change
nothing. -/
theorem readTypes_fuel {T U : Type} (gc : Context T) (hc : Context U) (view : T → U → SdkType)
    {fuel fuel' : Nat} {text : List Char} (h : text.length ≤ fuel) (h' : text.length ≤ fuel') :
    readTypes gc hc view fuel text = readTypes gc hc view fuel' text := by
  induction fuel generalizing fuel' text with
  | zero =>
      have hnil : text = [] := List.eq_nil_of_length_eq_zero (Nat.le_zero.mp h)
      cases fuel' with
      | zero => rfl
      | succ fuel' => rw [hnil, readTypes, readTypes, if_pos rfl]
  | succ fuel ih =>
      cases fuel' with
      | zero =>
          have hnil : text = [] := List.eq_nil_of_length_eq_zero (Nat.le_zero.mp h')
          rw [hnil, readTypes, readTypes, if_pos rfl]
      | succ fuel' =>
          rw [readTypes, readTypes]
          rcases hpair : encodedPair gc hc view text with error | ⟨type, rest⟩
          · rfl
          · have hshorter : rest.length < text.length := by
              unfold encodedPair at hpair
              split at hpair
              case h_1 hg _ =>
                  cases hpair
                  exact encodedType_length gc hg
              case h_2 => cases hpair
              case h_3 => cases hpair
            have hskip : (skipOffset rest).length ≤ rest.length :=
              (List.dropWhile_sublist _).length_le
            dsimp only
            rw [@ih fuel' (skipOffset rest) (by omega) (by omega)]

/-- An encoding that cannot be read makes no supported signature. -/
theorem fromEncoding_none {T U : Type} (spell : SdkType → String) {gc : Context T}
    {hc : Context U} {view : T → U → SdkType} {text : List Char}
    (h : encodingTypes gc hc view text = none) :
    (fromEncoding spell gc hc view text).supported = false := by
  unfold encodingTypes at h
  unfold fromEncoding
  rcases hfirst : encodedPair gc hc view text with error | ⟨result', rest⟩
  · rfl
  · rw [hfirst] at h
    dsimp only at h ⊢
    rcases hrest : readTypes gc hc view rest.length (skipOffset rest) with ⟨types', - | error⟩
    · rw [hrest] at h
      cases h
    · rfl

/-- The signatures by which the host calls a method are these. -/
theorem fromMethod_calls (spell : SdkType → String) (params : List (Declared × String))
    (g h : CType) :
    (Katabasis.fromMethod params (classify g h)).params
        = (fromMethod spell params (.declared (.plain g h))).values ∧
      (Katabasis.fromMethod params (classify g h)).supported
        = (fromMethod spell params (.declared (.plain g h))).supported := by
  obtain ⟨hvalues, -, hsupported⟩ := fromMethod_spec spell params (.declared (.plain g h))
  rw [hvalues, hsupported]
  exact ⟨rfl, rfl⟩

theorem fromEncoding_calls {T U : Type} (spell : SdkType → String) {gc : Context T}
    {hc : Context U} {view : T → U → SdkType} {text : List Char} {g h : CType}
    {types : List Declared} (hread : encodingTypes gc hc view text
      = some (.declared (.plain g h), types.map .declared)) :
    (Katabasis.fromEncoding types (classify g h)).params
        = (fromEncoding spell gc hc view text).values ∧
      (Katabasis.fromEncoding types (classify g h)).supported
        = (fromEncoding spell gc hc view text).supported := by
  obtain ⟨hvalues, -, hsupported⟩ := fromEncoding_spec spell hread
  rw [hvalues, hsupported, List.map_map]
  exact ⟨rfl, rfl⟩

/-! ## Structures that convert -/

mutual

/-- Member for member, the two types have scalars that a mirror can hold: no bit-fields, no
protocols, no type `Classify` has no answer for. -/
def mirrored : CType → CType → Bool
  | .record _ gfields _, .record _ hfields _ => mirroredFields gfields hfields
  | .array element count, .array helement _ => count = 0 || mirrored element helement
  | .array _ count, _ => count = 0
  | .integer _ _, _ => true
  | .floating _, _ => true
  | .pointer kind, _ => kind ≠ .protocol
  | _, _ => false

def mirroredFields : Fields → Fields → Bool
  | .nil, .nil => true
  | .cons _ _ isBitField type rest, .cons _ _ _ htype hrest =>
      !isBitField && mirrored type htype && mirroredFields rest hrest
  | _, _ => false

end

/-- The walk comes to its end. -/
def Comes (walk : Walk) : Prop := ∃ ls, walk = some (true, ls)

theorem comes_andThen {a b : Walk} : Comes (a.andThen b) ↔ Comes a ∧ Comes b := by
  constructor
  · rintro ⟨ls, h⟩
    obtain ⟨first, more, ha, hb, -⟩ := Walk.andThen_eq_true h
    exact ⟨⟨first, ha⟩, ⟨more, hb⟩⟩
  · rintro ⟨⟨first, rfl⟩, ⟨more, rfl⟩⟩
    exact ⟨first ++ more, rfl⟩

theorem comes_all {walks : List Walk} : Comes (Walk.all walks) ↔ ∀ walk ∈ walks, Comes walk := by
  induction walks with
  | nil => exact ⟨fun _ _ h => absurd h List.not_mem_nil, fun _ => ⟨[], rfl⟩⟩
  | cons walk rest ih =>
      rw [Walk.all, comes_andThen, ih]
      simp

theorem not_comes_false (ls : List Leaf) : ¬ Comes (some (false, ls)) := by
  rintro ⟨ls', h⟩
  cases h

/-- A scalar has a leaf, unless it is a protocol or of no known type. -/
theorem comes_scalarLeaf (g h : CType) (gpath hpath : String) (base : Nat) :
    Comes (leaves.scalarLeaf g h gpath hpath base) ↔ (leafValue g h).isSome := by
  unfold leaves.scalarLeaf
  cases leafValue g h with
  | none => exact ⟨fun hc => absurd hc (not_comes_false []), fun hs => (nomatch hs)⟩
  | some value => exact ⟨fun _ => rfl, fun _ => ⟨_, rfl⟩⟩

theorem isSome_leafValue_pointer (kind : PointerKind) (h : CType) :
    (leafValue (.pointer kind) h).isSome = decide (kind ≠ .protocol) := by
  rcases kind with ⟨- | -⟩ | _ | _ | _ | _ | _ <;> rfl

/-- What holds at each of so many places. -/
theorem forall_lt_iff (count : Nat) (P : Prop) : (∀ i < count, P) ↔ count = 0 ∨ P := by
  rcases Nat.eq_zero_or_pos count with rfl | hpos
  · simp
  · exact ⟨fun h => Or.inr (h 0 hpos), fun h _ _ => h.resolve_left (Nat.ne_of_gt hpos)⟩

mutual

/-- **`Leaves` comes to its end exactly on the types that a mirror can hold**, whatever the
paths. -/
theorem comes_leaves (g h : CType) (gpath hpath : String) (base : Nat) :
    Comes (leaves g h gpath hpath base) ↔ mirrored g h = true := by
  cases g with
  | integer width signed =>
      rw [leaves, comes_scalarLeaf, mirrored]
      exact ⟨fun _ => rfl, fun _ => rfl⟩
  | floating width =>
      rw [leaves, comes_scalarLeaf, mirrored]
      exact ⟨fun _ => rfl, fun _ => rfl⟩
  | pointer kind => rw [leaves, comes_scalarLeaf, mirrored, isSome_leafValue_pointer]
  | other size =>
      rw [leaves, comes_scalarLeaf]
      exact ⟨fun hs => (nomatch hs), fun hm => by simp [mirrored] at hm⟩
  | record isUnion gfields size =>
      cases h with
      | record hisUnion hfields hsize =>
          rw [leaves, mirrored]
          exact comes_fieldLeaves gfields hfields gpath hpath base
      | _ =>
          rw [leaves, mirrored]
          all_goals simp [not_comes_false]
  | array element count =>
      rw [leaves, comes_all]
      cases h with
      | array helement hcount =>
          rw [mirrored]
          simp only [CType.element?, Option.bind_some, List.mem_map, List.mem_range,
            forall_exists_index, and_imp, forall_apply_eq_imp_iff₂,
            comes_leaves element helement, Bool.or_eq_true, decide_eq_true_eq]
          exact forall_lt_iff count _
      | _ =>
          -- `getAsConstantArrayType` is null, and the first element would dereference it.
          simp only [CType.element?, Option.bind_none, List.mem_map, List.mem_range,
            forall_exists_index, and_imp, forall_apply_eq_imp_iff₂, mirrored, decide_eq_true_eq]
          exact (forall_lt_iff count (Comes none)).trans (or_iff_left (by rintro ⟨ls, ⟨⟩⟩))

theorem comes_fieldLeaves (gf hf : Fields) (gpath hpath : String) (base : Nat) :
    Comes (fieldLeaves gf hf gpath hpath base) ↔ mirroredFields gf hf = true := by
  cases gf with
  | nil =>
      cases hf with
      | nil => exact ⟨fun _ => rfl, fun _ => ⟨[], rfl⟩⟩
      | cons _ _ _ _ _ =>
          exact ⟨fun h => absurd h (not_comes_false []), fun h => (nomatch h)⟩
  | cons gname offset isBitField type rest =>
      cases hf with
      | nil => exact ⟨fun h => absurd h (not_comes_false []), fun h => (nomatch h)⟩
      | cons hname hoffset hbit htype hrest =>
          rw [fieldLeaves, mirroredFields]
          cases isBitField with
          | true => simp [not_comes_false]
          | false =>
              simp only [Bool.false_eq_true, if_false, comes_andThen, comes_leaves type htype,
                comes_fieldLeaves rest hrest, Bool.not_false, Bool.true_and, Bool.and_eq_true]

end

/-! ## The types in a signature -/

/-- A value of this type can come back. -/
def returned : SdkType → Bool
  | .void => true
  | .declared (.pointer _ _ passes _) => passes
  | .declared (.plain g _) =>
      match g with
      | .integer _ _ => true
      | .floating _ => true
      | .pointer (.data passes) => passes
      | .pointer kind => kind = .object || kind = .selector || kind = .protocol
      | .record isUnion _ _ => !isUnion
      | _ => false

def isBlock : SdkType → Bool
  | .declared (.plain (.pointer .block) _) => true
  | _ => false

def isStruct : CType → Bool
  | .record isUnion _ _ => !isUnion
  | _ => false

/-- The structure that crosses by value, or behind the pointer of a parameter, has only members
that a mirror can hold. -/
def converts (parameter : Bool) : SdkType → Bool
  | .void => true
  | .declared (.plain g h) => !isStruct g || mirrored g h
  | .declared (.pointer g h passes _) => !parameter || passes || !isStruct g || mirrored g h

/-- No parameter that counts stands beside a pointer to scalars that have two layouts. -/
def Uncounted (params : List (Declared × String)) : Prop :=
  ∀ (i j : Nat) g h isConst name declared count,
    params[i]? = some (Declared.pointer g h false isConst, name) →
    (classify g h).kind ∈ [.integer, .floating, .pointer] → i ≠ j →
    params[j]? = some (declared, count) → (classifyParameter declared).kind = .integer →
    countLike count = false

/-! ## The property -/

/-- The structure that crosses by value or behind a pointer. -/
def recordTypes : ParamValue → Option (CType × CType)
  | .value v => if v.kind = .record then some (v.guest, v.host) else none
  | .recordPointer pointee _ => some (pointee.guest, pointee.host)
  | _ => none

/-- `Leaves` comes to the end of the structure: every field is converted. -/
def Converts (v : ParamValue) : Prop :=
  ∀ g h, recordTypes v = some (g, h) → Comes (leaves g h "" "" 0)

/-- The signature has only kinds that the bridges convert. -/
structure OnlyBridgeable (s : Signature) : Prop where
  params : ∀ v ∈ s.values, v.kind ≠ .unsupported
  result : s.result.kind ∉ [.unsupported, .outSlot, .array, .callback, .block]
  records : ∀ v ∈ s.result :: s.values, Converts v

/-- Two builders agree: on what crosses, and on whether it does. -/
def Agree (s t : Signature) : Prop :=
  s.values = t.values ∧ s.result = t.result ∧ s.supported = t.supported

section

variable {T U : Type} (spell : SdkType → String) (gc : Context T) (hc : Context U)
  (view : T → U → SdkType) (params : List (Declared × String)) (result : SdkType)
  (text : List Char)

/-- **A signature that is marked as supported has only kinds that the bridges convert, and the
builders agree on the same types.** -/
structure Bridgeable : Prop where
  function : (fromFunction spell params result).supported = true →
    OnlyBridgeable (fromFunction spell params result)
  method : (fromMethod spell params result).supported = true →
    OnlyBridgeable (fromMethod spell params result)
  encoding : (fromEncoding spell gc hc view text).supported = true →
    OnlyBridgeable (fromEncoding spell gc hc view text)
  declared : Agree (fromFunction spell params result) (fromMethod spell params result)
  encoded : encodingTypes gc hc view text = some (result, params.map fun p => .declared p.1) →
    Agree (fromMethod spell params result) (fromEncoding spell gc hc view text)

/-- The types and names on which it has. -/
structure Convertible : Prop where
  /-- A function with parameters that cross returns no block. -/
  blockless : accepted params = true → isBlock result = false
  /-- The structures of a declaration that is supported convert. -/
  records : accepted params = true → returned result = true →
    converts false result = true ∧ ∀ p ∈ params, converts true (.declared p.1) = true
  /-- Where the parameters of the encoding cross, so does its result, and the structures
  convert. -/
  encoding : ∀ result types, encodingTypes gc hc view text = some (result, types) →
    (∀ type ∈ types, (classifyType true type).kind ≠ .unsupported) →
    returned result = true ∧ converts false result = true ∧
      ∀ type ∈ types, converts true type = true
  /-- Where the encoding has the types of the declaration, no parameter counts. -/
  counts : encodingTypes gc hc view text = some (result, params.map fun p => .declared p.1) →
    Uncounted params

end

/-! ## When it holds -/

/-- The kind that `Classify` gives a result, on the types that `returned` and `isBlock` tell
apart. -/
theorem kind_result (type : SdkType) :
    (returned type = true ↔ (classifyType false type).kind ∉
      [.unsupported, .outSlot, .array, .callback, .block]) ∧
    (isBlock type = true ↔ (classifyType false type).kind = .block) := by
  cases type with
  | void => simp [returned, isBlock, classifyType, ParamValue.kind, ParamValue.toValue]
  | declared type =>
      simp only [classifyType, Bool.false_eq_true, if_false]
      cases type with
      | pointer g h passes isConst =>
          cases passes <;>
            simp [returned, isBlock, classifyResult, ParamValue.kind, ParamValue.toValue]
      | plain g h =>
          simp only [classifyResult, ParamValue.kind, ParamValue.toValue]
          cases g with
          | pointer kind =>
              cases kind with
              | data passes => cases passes <;> simp [returned, isBlock, classify]
              | _ => simp [returned, isBlock, classify]
          | record isUnion _ _ => cases isUnion <;> simp [returned, isBlock, classify]
          | _ => simp [returned, isBlock, classify]

/-- A result that the two declarations' builders turn down for another reason is no block. -/
theorem rejected_iff (type : SdkType) :
    (classifyType false type).kind ∉ [.unsupported, .outSlot, .array, .callback] ↔
      returned type = true ∨ isBlock type = true := by
  rw [(kind_result type).1, (kind_result type).2]
  generalize (classifyType false type).kind = kind
  cases kind <;> decide

theorem kind_classify_record (g h : CType) :
    (classify g h).kind = .record ↔ isStruct g = true := by
  cases g with
  | pointer kind =>
      cases kind with
      | data passes => cases passes <;> simp [classify, isStruct]
      | _ => simp [classify, isStruct]
  | record isUnion fields size => cases isUnion <;> simp [classify, isStruct]
  | _ => simp [classify, isStruct]

theorem classify_types (g h : CType) : (classify g h).guest = g ∧ (classify g h).host = h := by
  cases g with
  | pointer kind => cases kind <;> exact ⟨rfl, rfl⟩
  | _ => exact ⟨rfl, rfl⟩

/-- What crosses without a structure. -/
theorem converts_of_none {v : ParamValue} (h : recordTypes v = none) : Converts v := by
  intro g h' hv
  rw [h] at hv
  cases hv

theorem converts_of_some {v : ParamValue} {g h : CType} (hv : recordTypes v = some (g, h)) :
    Converts v ↔ mirrored g h = true := by
  rw [← comes_leaves g h "" "" 0]
  constructor
  · intro hc
    exact hc g h hv
  · intro hc g' h' hv'
    rw [hv] at hv'
    cases hv'
    exact hc

/-- **Every field of the structures is converted exactly where their types convert.** -/
theorem converts_iff (parameter : Bool) (type : SdkType) :
    Converts (classifyType parameter type) ↔ converts parameter type = true := by
  -- The structure is that of the pair of types, where there is one.
  have hpair : ∀ (v : ParamValue) (g h : CType),
      recordTypes v = some ((classify g h).guest, (classify g h).host) →
        (Converts v ↔ mirrored g h = true) := by
    intro v g h hv
    rw [(classify_types g h).1, (classify_types g h).2] at hv
    exact converts_of_some hv
  cases type with
  | void => exact iff_of_true (converts_of_none rfl) rfl
  | declared type =>
      cases type with
      | plain g h =>
          have hvalue :
              classifyType parameter (.declared (.plain g h)) = .value (classify g h) := by
            cases parameter <;> rfl
          rw [hvalue]
          cases hs : isStruct g with
          | true =>
              rw [hpair (.value (classify g h)) g h (if_pos ((kind_classify_record g h).mpr hs))]
              simp [converts, hs]
          | false =>
              refine iff_of_true (converts_of_none (if_neg ?_)) (by simp [converts, hs])
              rw [kind_classify_record, hs]
              exact Bool.false_ne_true
      | pointer g h passes isConst =>
          cases parameter with
          | false => exact iff_of_true (converts_of_none (by cases passes <;> rfl)) rfl
          | true =>
              show Converts (classifyParameter (.pointer g h passes isConst)) ↔ _
              cases passes with
              | true => exact iff_of_true (converts_of_none rfl) rfl
              | false =>
                  unfold classifyParameter
                  dsimp only
                  cases hs : isStruct g with
                  | true =>
                      rw [if_pos ((kind_classify_record g h).mpr hs),
                        hpair (.recordPointer _ _) g h rfl]
                      simp [converts, hs]
                  | false =>
                      have hrecord : ¬ (classify g h).kind = .record := by
                        rw [kind_classify_record, hs]
                        exact Bool.false_ne_true
                      rw [if_neg hrecord]
                      refine iff_of_true (converts_of_none ?_) (by simp [converts, hs])
                      split <;> rfl

/-! ### Arrays -/

/-- What `DetectArrays` leaves of one parameter. -/
def detected (params : List (Declared × String)) (i : Nat) (type : Declared) : ParamValue :=
  match type with
  | .pointer g h false isConst =>
      if (classify g h).kind = .integer ∨ (classify g h).kind = .floating ∨
          (classify g h).kind = .pointer then
        match countIndex params i with
        | some j => .array (classify g h) j (!isConst)
        | none => classifyParameter type
      else classifyParameter type
  | _ => classifyParameter type

theorem detectArrays_getElem? (params : List (Declared × String)) (i : Nat) :
    (Katabasis.detectArrays params)[i]? = params[i]?.map fun p => detected params i p.1 := by
  unfold Katabasis.detectArrays
  rw [List.getElem?_map, List.getElem?_zipIdx, Option.map_map, Nat.zero_add]
  cases params[i]? with
  | none => rfl
  | some p =>
      obtain ⟨type, name⟩ := p
      cases type with
      | plain g h => rfl
      | pointer g h passes isConst => cases passes <;> rfl

theorem mem_neighbours {i j n : Nat} (hi : i < n) (hj : j < n) : j ∈ neighbours i n ↔ i ≠ j := by
  simp only [neighbours, List.mem_flatMap, List.mem_range]
  constructor
  · rintro ⟨d, hd, hmem⟩
    split at hmem
    · cases hmem
    · split at hmem
      · simp only [List.cons_append, List.nil_append, List.mem_cons, List.not_mem_nil,
          or_false] at hmem
        omega
      · simp only [List.append_nil, List.mem_singleton] at hmem
        omega
  · intro hne
    rcases Nat.lt_or_gt_of_ne hne with hlt | hgt
    · refine ⟨j - i, by omega, ?_⟩
      rw [if_neg (by omega)]
      exact List.mem_append_left _ (List.mem_singleton.mpr (by omega))
    · refine ⟨i - j, by omega, ?_⟩
      rw [if_neg (by omega), if_pos (by omega)]
      exact List.mem_append_right _ (List.mem_singleton.mpr (by omega))

/-- No other parameter counts the elements. -/
theorem countIndex_eq_none {params : List (Declared × String)} {i : Nat} (hi : i < params.length) :
    countIndex params i = none ↔ ∀ j declared count, i ≠ j → params[j]? = some (declared, count) →
      (classifyParameter declared).kind = .integer → countLike count = false := by
  unfold countIndex
  rw [List.find?_eq_none]
  constructor
  · intro hnone j declared count hne hj hkind
    have hlt := (List.getElem?_eq_some_iff.mp hj).1
    have := hnone j ((mem_neighbours hi hlt).mpr hne)
    rw [hj] at this
    simpa [hkind] using this
  · intro hall j hmem
    rcases hj : params[j]? with - | ⟨declared, count⟩
    · simp
    · have hlt := (List.getElem?_eq_some_iff.mp hj).1
      have hcount := hall j declared count ((mem_neighbours hi hlt).mp hmem) hj
      simpa using hcount

theorem scalar_kinds {kind : Kind} :
    kind ∈ [.integer, .floating, .pointer] ↔
      kind = .integer ∨ kind = .floating ∨ kind = .pointer := by
  simp

theorem classifyParameter_ne_array (type : Declared) (element : Value) (j : Nat) (w : Bool) :
    classifyParameter type ≠ .array element j w := by
  cases type with
  | plain g h => exact fun h => (nomatch h)
  | pointer g h passes isConst =>
      cases passes with
      | true => exact fun h => (nomatch h)
      | false =>
          unfold classifyParameter
          dsimp only
          split
          · exact fun h => (nomatch h)
          · split <;> exact fun h => (nomatch h)

/-- **`DetectArrays` leaves the parameters as they are exactly where nothing counts.** -/
theorem detectArrays_eq_iff (params : List (Declared × String)) :
    Katabasis.detectArrays params = params.map (fun p => classifyParameter p.1) ↔
      Uncounted params := by
  constructor
  · intro heq i j g h isConst name declared count hi hscalar hne hj hkind
    have hlt := (List.getElem?_eq_some_iff.mp hi).1
    refine (countIndex_eq_none hlt).mp ?_ j declared count hne hj hkind
    have hat : detected params i (.pointer g h false isConst)
        = classifyParameter (.pointer g h false isConst) := by
      have := congrArg (fun l => l[i]?) heq
      simpa [detectArrays_getElem?, hi] using this
    unfold detected at hat
    dsimp only at hat
    rw [if_pos (scalar_kinds.mp hscalar)] at hat
    cases hcount : countIndex params i with
    | none => rfl
    | some k =>
        rw [hcount] at hat
        exact absurd hat.symm (classifyParameter_ne_array _ _ _ _)
  · intro huncounted
    apply List.ext_getElem?
    intro i
    rw [detectArrays_getElem?, List.getElem?_map]
    rcases hi : params[i]? with - | ⟨type, name⟩
    · rfl
    · rw [Option.map_some, Option.map_some]
      congr 1
      cases type with
      | plain g h => rfl
      | pointer g h passes isConst =>
          cases passes with
          | true => rfl
          | false =>
              unfold detected
              dsimp only
              split
              case isTrue hscalar =>
                  have hlt := (List.getElem?_eq_some_iff.mp hi).1
                  have hnone : countIndex params i = none :=
                    (countIndex_eq_none hlt).mpr fun j declared count hne hj hkind =>
                      huncounted i j g h isConst name declared count hi
                        (scalar_kinds.mpr hscalar) hne hj hkind
                  rw [hnone]
              case isFalse => rfl

/-- An array has no structures, and neither has the pointer that it was. -/
theorem converts_detected (params : List (Declared × String)) (i : Nat) (type : Declared) :
    Converts (detected params i type) ↔ converts true (.declared type) = true := by
  rw [← converts_iff true]
  show _ ↔ Converts (classifyParameter type)
  unfold detected
  split
  case h_1 g h isConst =>
      split
      case isTrue hscalar =>
          split
          case h_1 j hcount =>
              have hrecord : (classify g h).kind ≠ .record := by
                intro hrecord
                rw [hrecord] at hscalar
                exact absurd (scalar_kinds.mpr hscalar) (by decide)
              refine iff_of_true (converts_of_none rfl) (converts_of_none ?_)
              unfold classifyParameter
              dsimp only
              rw [if_neg hrecord]
              split <;> rfl
          case h_2 => rfl
      case isFalse => rfl
  case h_2 => rfl

theorem converts_detectArrays (params : List (Declared × String)) :
    (∀ v ∈ Katabasis.detectArrays params, Converts v) ↔
      ∀ p ∈ params, converts true (.declared p.1) = true := by
  constructor
  · intro h p hp
    obtain ⟨i, hi⟩ := List.mem_iff_getElem?.mp hp
    refine (converts_detected params i p.1).mp (h _ (List.mem_iff_getElem?.mpr ⟨i, ?_⟩))
    rw [detectArrays_getElem?, hi]
    rfl
  · intro h v hv
    obtain ⟨i, hi⟩ := List.mem_iff_getElem?.mp hv
    rw [detectArrays_getElem?] at hi
    obtain ⟨p, hp, rfl⟩ := Option.map_eq_some_iff.mp hi
    exact (converts_detected params i p.1).mpr (h p (List.mem_of_getElem? hp))

/-! ### The builders -/

/-- A signature whose parameters cross. -/
theorem onlyBridgeable_iff {s : Signature} {result : SdkType}
    (hresult : s.result = classifyType false result)
    (hparams : ∀ v ∈ s.values, v.kind ≠ .unsupported) :
    OnlyBridgeable s ↔ returned result = true ∧ converts false result = true ∧
      ∀ v ∈ s.values, Converts v := by
  rw [(kind_result result).1, ← converts_iff, ← hresult]
  constructor
  · rintro ⟨-, hkind, hrecords⟩
    exact ⟨hkind, hrecords _ List.mem_cons_self, fun v hv => hrecords v (List.mem_cons_of_mem _ hv)⟩
  · rintro ⟨hkind, hrecord, hrecords⟩
    exact ⟨hparams, hkind, List.forall_mem_cons.mpr ⟨hrecord, hrecords⟩⟩

theorem accepted_iff (params : List (Declared × String)) :
    accepted params = true ↔ ∀ v ∈ Katabasis.detectArrays params, v.kind ≠ .unsupported := by
  simp [accepted]

section

variable {T U : Type} (spell : SdkType → String) (gc : Context T) (hc : Context U)
  (view : T → U → SdkType) (params : List (Declared × String)) (result : SdkType)
  (text : List Char)

theorem fromFunction_supported :
    (fromFunction spell params result).supported = true ↔
      accepted params = true ∧ (returned result = true ∨ isBlock result = true) := by
  rw [(fromFunction_spec spell params result).2.2, Bool.and_eq_true, decide_eq_true_eq,
    rejected_iff]

theorem fromMethod_supported :
    (fromMethod spell params result).supported = true ↔
      accepted params = true ∧ returned result = true := by
  rw [(fromMethod_spec spell params result).2.2, Bool.and_eq_true, decide_eq_true_eq,
    (kind_result result).1]

/-- The structures of a declaration whose parameters cross. -/
theorem onlyBridgeable_declared {s : Signature} (haccepted : accepted params = true)
    (hresult : s.result = classifyType false result)
    (hvalues : s.values = Katabasis.detectArrays params) :
    OnlyBridgeable s ↔ returned result = true ∧ converts false result = true ∧
      ∀ p ∈ params, converts true (.declared p.1) = true := by
  rw [onlyBridgeable_iff hresult (by rw [hvalues]; exact (accepted_iff params).mp haccepted),
    hvalues, converts_detectArrays]

/-- The structures of an encoding whose parameters cross. -/
theorem onlyBridgeable_encoded {types : List SdkType}
    (h : encodingTypes gc hc view text = some (result, types)) :
    ((fromEncoding spell gc hc view text).supported = true ↔
      ∀ type ∈ types, (classifyType true type).kind ≠ .unsupported) ∧
    ((∀ type ∈ types, (classifyType true type).kind ≠ .unsupported) →
      (OnlyBridgeable (fromEncoding spell gc hc view text) ↔ returned result = true ∧
        converts false result = true ∧ ∀ type ∈ types, converts true type = true)) := by
  obtain ⟨hvalues, hresult, hsupported⟩ := fromEncoding_spec spell h
  refine ⟨by rw [hsupported]; simp, fun hcross => ?_⟩
  have hparams : ∀ v ∈ (fromEncoding spell gc hc view text).values, v.kind ≠ .unsupported := by
    rw [hvalues]
    intro v hv
    obtain ⟨type, htype, rfl⟩ := List.mem_map.mp hv
    exact hcross type htype
  rw [onlyBridgeable_iff hresult hparams, hvalues]
  simp only [List.mem_map, forall_exists_index, and_imp, forall_apply_eq_imp_iff₂,
    converts_iff true]

/-- **Where a supported signature has only bridgeable kinds and the builders agree**: a function
with parameters that cross returns no block, the result of an encoding can come back, the
structures have only members that a mirror can hold, and no parameter of a declaration that is
also encoded counts the elements of an array. -/
theorem bridgeable_iff :
    Bridgeable spell gc hc view params result text ↔
      Convertible gc hc view params result text := by
  obtain ⟨hfvalues, hfresult, -⟩ := fromFunction_spec spell params result
  obtain ⟨hmvalues, hmresult, -⟩ := fromMethod_spec spell params result
  -- A block cannot come back.
  have hblock : isBlock result = true → returned result = false := by
    rw [(kind_result result).2, ← Bool.not_eq_true, (kind_result result).1]
    intro hkind
    rw [hkind]
    decide
  constructor
  · rintro ⟨hfunction, hmethod, hencoding, -, hencoded⟩
    constructor
    case blockless =>
        intro haccepted
        by_contra hb
        rw [Bool.not_eq_false] at hb
        have honly := hfunction
          ((fromFunction_supported spell params result).mpr ⟨haccepted, Or.inr hb⟩)
        have hreturned :=
          ((onlyBridgeable_declared params result haccepted hfresult hfvalues).mp honly).1
        rw [hblock hb] at hreturned
        cases hreturned
    case records =>
        intro haccepted hreturned
        have honly := hmethod
          ((fromMethod_supported spell params result).mpr ⟨haccepted, hreturned⟩)
        exact ((onlyBridgeable_declared params result haccepted hmresult hmvalues).mp honly).2
    case encoding =>
        intro result types htypes hcross
        obtain ⟨hsupported, honly⟩ := onlyBridgeable_encoded spell gc hc view result text htypes
        exact (honly hcross).mp (hencoding (hsupported.mpr hcross))
    case counts =>
        intro htypes
        obtain ⟨hvalues, -, -⟩ := hencoded htypes
        rw [hmvalues, (fromEncoding_spec spell htypes).1, List.map_map] at hvalues
        exact (detectArrays_eq_iff params).mp hvalues
  · rintro ⟨hblockless, hrecords, hencoding, hcounts⟩
    constructor
    case function =>
        intro hsupported
        obtain ⟨haccepted, hkind⟩ := (fromFunction_supported spell params result).mp hsupported
        have hreturned : returned result = true := by
          refine hkind.resolve_right ?_
          rw [hblockless haccepted]
          exact Bool.false_ne_true
        exact (onlyBridgeable_declared params result haccepted hfresult hfvalues).mpr
          ⟨hreturned, hrecords haccepted hreturned⟩
    case method =>
        intro hsupported
        obtain ⟨haccepted, hreturned⟩ := (fromMethod_supported spell params result).mp hsupported
        exact (onlyBridgeable_declared params result haccepted hmresult hmvalues).mpr
          ⟨hreturned, hrecords haccepted hreturned⟩
    case encoding =>
        intro hsupported
        rcases htypes : encodingTypes gc hc view text with - | ⟨result', types⟩
        · rw [fromEncoding_none spell htypes] at hsupported
          cases hsupported
        · obtain ⟨hcross, honly⟩ := onlyBridgeable_encoded spell gc hc view result' text htypes
          have hall := hcross.mp hsupported
          exact (honly hall).mpr (hencoding result' types htypes hall)
    case declared =>
        refine ⟨hfvalues.trans hmvalues.symm, hfresult.trans hmresult.symm, ?_⟩
        rw [Bool.eq_iff_iff, fromFunction_supported, fromMethod_supported]
        refine and_congr_right fun haccepted => or_iff_left ?_
        rw [hblockless haccepted]
        exact Bool.false_ne_true
    case encoded =>
        intro htypes
        obtain ⟨hvalues, hresult, -⟩ := fromEncoding_spec spell htypes
        have hplain := (detectArrays_eq_iff params).mpr (hcounts htypes)
        refine ⟨?_, hmresult.trans hresult.symm, ?_⟩
        · rw [hmvalues, hvalues, hplain, List.map_map]
          rfl
        · rw [Bool.eq_iff_iff, fromMethod_supported,
            (onlyBridgeable_encoded spell gc hc view result text htypes).1]
          have haccepted : accepted params = true ↔ ∀ type ∈ params.map fun p =>
              SdkType.declared p.1, (classifyType true type).kind ≠ .unsupported := by
            rw [accepted_iff, hplain, List.forall_mem_map, List.forall_mem_map]
            rfl
          rw [← haccepted]
          refine and_iff_left_of_imp fun hcross => ?_
          exact (hencoding result _ htypes (haccepted.mp hcross)).1

end

/-! ### A sample -/

/-- The types of an SDK that declares no structures. -/
inductive SampleType
  | builtin (builtin : Builtin)
  | pointer (pointee : SampleType)
  | record (fields : List SampleType)

def sampleContext : Context SampleType where
  builtin := .builtin
  pointer := .pointer
  lookup := fun _ => none
  record := .record

/-- What `Classify` sees of them. -/
def sampleView : SampleType → SampleType → SdkType
  | .builtin .objCId, _ => .declared (.plain (.pointer .object) (.pointer .object))
  | .builtin .objCSel, _ => .declared (.plain (.pointer .selector) (.pointer .selector))
  | .builtin .char, _ => .declared (.plain (.integer .w8 true) (.integer .w8 true))
  | .pointer (.builtin .char), _ =>
      .declared (.pointer (.integer .w8 true) (.integer .w8 true) true false)
  | .pointer _, _ =>
      .declared (.pointer (.pointer (.data true)) (.pointer (.data true)) false false)
  | _, _ => .void

def blockType : SdkType := .declared (.plain (.pointer .block) (.pointer .block))

/-- The encoding of a method that returns `char **`. -/
def stringsEncoding : List Char := ['^', '*', '1', '6', '@', '0', ':', '8']

/-- A function without parameters that returns a block, and a method that returns `char **`, are
supported. -/
theorem not_bridgeable_block :
    (fromFunction (fun _ => "") [] blockType).supported = true ∧
    (fromFunction (fun _ => "") [] blockType).result.kind = .block ∧
    (fromEncoding (fun _ => "") sampleContext sampleContext sampleView stringsEncoding).supported
      = true ∧
    (fromEncoding (fun _ => "") sampleContext sampleContext sampleView stringsEncoding).result.kind
      = .unsupported ∧
    ¬ Bridgeable (fun _ => "") sampleContext sampleContext sampleView [] blockType
      stringsEncoding := by
  refine ⟨rfl, rfl, rfl, rfl, fun h => ?_⟩
  exact absurd (h.function rfl).result (by decide)

end Signatures

end Katabasis
