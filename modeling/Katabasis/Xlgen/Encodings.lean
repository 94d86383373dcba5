import Mathlib.Tactic

set_option autoImplicit false

/-! # Type encodings

`EncodedType` reads one type of an Objective-C method encoding, and `SynthesizeRecord` the members
of a structure that the SDK does not name (`xlate/src/xlgen.cpp`). Clang's types are a parameter:
each side has a context of its own, which knows the built-in types, makes pointers and records,
and looks up the names that the headers declare.

The two functions call each other on shorter and shorter texts. The fuel stands for the depth of
these calls, and the text bounds it: `typeOf_eq`.
-/

namespace Katabasis

namespace Encodings

/-- The built-in types of `ASTContext`. -/
inductive Builtin
  | char | signedChar | unsignedChar | short | unsignedShort | int | unsignedInt | longLong
  | unsignedLongLong | float | double | bool | void | objCClass | objCSel | objCId
  deriving DecidableEq, Repr

/-- What the two functions ask of an `ASTContext`. -/
structure Context (T : Type) where
  builtin : Builtin → T
  pointer : T → T
  /-- The typedef or record declared by this name. -/
  lookup : String → Option T
  /-- A record with members of these types. -/
  record : List T → T

/-- The characters that stand for a built-in type. -/
def builtinOf : Char → Option Builtin
  | 'c' => some .signedChar
  | 'C' => some .unsignedChar
  | 's' => some .short
  | 'S' => some .unsignedShort
  | 'i' => some .int
  | 'I' => some .unsignedInt
  | 'l' => some .int
  | 'L' => some .unsignedInt
  | 'q' => some .longLong
  | 'Q' => some .unsignedLongLong
  | 'f' => some .float
  | 'd' => some .double
  | 'B' => some .bool
  | 'v' => some .void
  | '#' => some .objCClass
  | ':' => some .objCSel
  | _ => none

/-- `strchr("rnNoORV", c)`, which also finds the end of the string. -/
def isQualifier (c : Char) : Bool :=
  ['r', 'n', 'N', 'o', 'O', 'R', 'V', Char.ofNat 0].contains c

/-- The text up to the brace that closes the `depth` open ones, and the text behind it. -/
def takeBraced : Nat → List Char → List Char × List Char
  | 0, text => ([], text)
  | _ + 1, [] => ([], [])
  | depth + 1, c :: text =>
      let rest := takeBraced
        (if c = '{' then depth + 2 else if c = '}' then depth else depth + 1) text
      (c :: rest.1, rest.2)

/-- What stands behind a quoted name. -/
def skipQuoted (text : List Char) : List Char := (text.dropWhile fun c => c ≠ '"').drop 1

section

variable {T : Type} (ctx : Context T)

/-- Behind an `@`. -/
def objectType : List Char → Except String (T × List Char)
  | '?' :: _ => .error "block parameter of a method the SDK does not declare"
  | '"' :: text => .ok (ctx.builtin .objCId, skipQuoted text)
  | text => .ok (ctx.builtin .objCId, text)

/-- A structure by its name, where it has one. -/
def namedRecord (name : List Char) : Option T :=
  if name = [] ∨ name = ['?'] then none else ctx.lookup (String.ofList name)

mutual

/-- `EncodedType`: the type, and the text behind it. -/
def encodedType : Nat → List Char → Except String (T × List Char)
  | 0, _ => .error "truncated encoding"
  | fuel + 1, text =>
      match text.dropWhile isQualifier with
      | [] => .error "truncated encoding"
      | c :: text =>
          if c = '*' then .ok (ctx.pointer (ctx.builtin .char), text)
          else if c = '@' then objectType ctx text
          else if c = '^' then
            match encodedType fuel text with
            | .ok (pointee, rest) => .ok (ctx.pointer pointee, rest)
            | .error error => .error error
          else if c = '{' then
            let name := text.takeWhile fun c => c ≠ '=' && c ≠ '}'
            let whole := (takeBraced 1 text).1
            let rest := (takeBraced 1 text).2
            match namedRecord ctx name with
            | some type => .ok (type, rest)
            | none =>
                let body := whole.findIdx fun c => c = '='
                if body = whole.length then
                  .error ("structure " ++ String.ofList name ++ " is not declared by the SDK")
                else
                  match synthesizeRecord fuel (whole.dropLast.drop (body + 1)) with
                  | .ok fields => .ok (ctx.record fields, rest)
                  | .error error => .error error
          else
            match builtinOf c with
            | some builtin => .ok (ctx.builtin builtin, text)
            | none => .error ("unsupported encoding character " ++ String.ofList [c])

/-- `SynthesizeRecord`: the types of the members. -/
def synthesizeRecord : Nat → List Char → Except String (List T)
  | 0, _ => .error "truncated encoding"
  | fuel + 1, text =>
      match text with
      | [] => .ok []
      | '"' :: rest => synthesizeRecord fuel (skipQuoted rest)
      | _ =>
          match encodedType fuel text with
          | .error error => .error error
          | .ok (field, rest) =>
              match synthesizeRecord fuel rest with
              | .error error => .error error
              | .ok fields => .ok (field :: fields)

end

/-- `EncodedType`, with the depth that the text bounds. -/
def typeOf (text : List Char) : Except String (T × List Char) :=
  encodedType ctx (2 * text.length + 1) text

/-! ## The depth is enough -/

theorem takeBraced_length (depth : Nat) (text : List Char) :
    (takeBraced depth text).1.length + (takeBraced depth text).2.length = text.length := by
  induction text generalizing depth with
  | nil => cases depth <;> rfl
  | cons c text ih =>
      cases depth with
      | zero => simp [takeBraced]
      | succ depth =>
          simp only [takeBraced, List.length_cons]
          have := ih (if c = '{' then depth + 2 else if c = '}' then depth else depth + 1)
          omega

theorem skipQuoted_length (text : List Char) : (skipQuoted text).length ≤ text.length := by
  have hle := (List.dropWhile_sublist (l := text) fun c => decide (c ≠ '"')).length_le
  simp only [skipQuoted, List.length_drop]
  omega

theorem takeBraced_le (depth : Nat) (text : List Char) :
    (takeBraced depth text).1.length ≤ text.length ∧
      (takeBraced depth text).2.length ≤ text.length := by
  have := takeBraced_length depth text
  omega

theorem objectType_length {text rest : List Char} {type : T}
    (h : objectType ctx text = .ok (type, rest)) : rest.length ≤ text.length := by
  unfold objectType at h
  split at h
  case h_1 => cases h
  case h_2 text =>
      cases h
      have := skipQuoted_length text
      simp only [List.length_cons]
      omega
  case h_3 =>
      cases h
      exact Nat.le_refl _

/-- A type is at least one character. -/
theorem encodedType_length {fuel : Nat} {text rest : List Char} {type : T}
    (h : encodedType ctx fuel text = .ok (type, rest)) : rest.length < text.length := by
  induction fuel generalizing text type rest with
  | zero => cases h
  | succ fuel ih =>
      have hskip := (List.dropWhile_sublist (l := text) isQualifier).length_le
      unfold encodedType at h
      cases hs : text.dropWhile isQualifier with
      | nil =>
          rw [hs] at h
          cases h
      | cons c tail =>
          rw [hs, List.length_cons] at hskip
          rw [hs] at h
          dsimp only at h
          have hbraced := takeBraced_le 1 tail
          split at h
          · cases h
            omega
          split at h
          · have := objectType_length ctx h
            omega
          split at h
          · split at h
            case h_1 hpointee =>
                cases h
                have := ih hpointee
                omega
            case h_2 => cases h
          split at h
          · split at h
            case h_1 =>
                cases h
                omega
            case h_2 =>
                split at h
                · cases h
                · split at h
                  · cases h
                    omega
                  · cases h
          · split at h
            · cases h
              omega
            · cases h

/-- **More fuel than the text bounds changes nothing**, by induction on the fuel: each call
reads a shorter text, or has the members of a structure to read. -/
theorem fuel_irrelevant (fuel : Nat) :
    (∀ {fuel' : Nat} {text : List Char}, 2 * text.length < fuel → 2 * text.length < fuel' →
      encodedType ctx fuel text = encodedType ctx fuel' text) ∧
    (∀ {fuel' : Nat} {text : List Char}, 2 * text.length + 1 < fuel →
      2 * text.length + 1 < fuel' →
        synthesizeRecord ctx fuel text = synthesizeRecord ctx fuel' text) := by
  induction fuel with
  | zero =>
      constructor
      · intro _ _ h
        omega
      · intro _ _ h
        omega
  | succ fuel ih =>
      obtain ⟨ihType, ihRecord⟩ := ih
      constructor
      · intro fuel' text h h'
        obtain ⟨fuel', rfl⟩ := Nat.exists_eq_add_of_lt (Nat.zero_lt_of_lt h')
        rw [Nat.zero_add]
        have hskip := (List.dropWhile_sublist (l := text) isQualifier).length_le
        unfold encodedType
        cases hs : text.dropWhile isQualifier with
        | nil => rfl
        | cons c tail =>
            rw [hs, List.length_cons] at hskip
            dsimp only
            have hbraced := takeBraced_le 1 tail
            -- The members of a structure stand inside its braces.
            have hbody : ((takeBraced 1 tail).1.dropLast.drop
                ((takeBraced 1 tail).1.findIdx (fun c => c = '=') + 1)).length ≤ tail.length := by
              simp only [List.length_drop, List.length_dropLast]
              omega
            rw [@ihType fuel' tail (by omega) (by omega),
              @ihRecord fuel' (List.drop _ _) (by omega) (by omega)]
      · intro fuel' text h h'
        obtain ⟨fuel', rfl⟩ := Nat.exists_eq_add_of_lt (Nat.zero_lt_of_lt h')
        rw [Nat.zero_add]
        unfold synthesizeRecord
        split
        case h_1 => rfl
        case h_2 rest =>
            have := skipQuoted_length rest
            simp only [List.length_cons] at h h'
            exact ihRecord (by omega) (by omega)
        case h_3 =>
            rw [@ihType fuel' text (by omega) (by omega)]
            cases hfield : encodedType ctx fuel' text with
            | error error => rfl
            | ok read =>
                obtain ⟨field, rest⟩ := read
                have := encodedType_length ctx hfield
                dsimp only
                rw [@ihRecord fuel' rest (by omega) (by omega)]

/-- **The depth that `typeOf` starts with is enough.** -/
theorem typeOf_eq {fuel : Nat} {text : List Char} (h : 2 * text.length < fuel) :
    encodedType ctx fuel text = typeOf ctx text :=
  (fuel_irrelevant ctx fuel).1 h (Nat.lt_succ_self _)

end

end Encodings

end Katabasis
