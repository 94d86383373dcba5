import Katabasis.Runtime.DynamicSend

set_option autoImplicit false

/-! # The signature of a block

A block of the guest carries a signature, which the compiler makes from the block's type: the
encoding of the result, that of the block itself, and that of each parameter, each with an offset
behind it. `xl_block_simple_args` (`runtime/objc_bridge.m`) counts the parameters in it, if they
and the result are integers and pointers, of at most four.

The count is right (`xlBlockSimpleArgs_spec`): the scan of a type either ends where the type does,
or it stops within the type, at a letter that no later scan goes past.
-/

namespace Katabasis

namespace BlockTrampolines

open DynamicSend Signatures

/-! ## The scan -/

/-- What a type is: the letters `V`, `I`, `P` and `X` of `xl_type_token`. -/
inductive Token
  | void | integer | pointer | unsupported
  deriving DecidableEq, Repr

def qualifiers : List Char := ['r', 'n', 'N', 'o', 'O', 'R', 'V']

def integers : List Char := ['c', 'i', 's', 'l', 'q', 'C', 'I', 'S', 'L', 'Q', 'B']

/-- The quotation mark. -/
def mark : Char := Char.ofNat 34

/-- The name of a class behind an `@`, or the question mark of a block. -/
def skipName : List Char → List Char
  | [] => []
  | c :: rest =>
      if c = '?' then rest
      else if c = mark then (rest.dropWhile (· ≠ mark)).drop 1
      else c :: rest

/-- `xl_type_token`, with the text behind the token. -/
def xlTypeToken : List Char → Token × List Char
  | [] => (.unsupported, [])
  | c :: rest =>
      if c ∈ qualifiers then xlTypeToken rest
      else if c = 'v' then (.void, rest)
      else if c ∈ integers then (.integer, rest)
      else if c = '@' then (.pointer, skipName rest)
      else if c ∈ ['#', ':', '*'] then (.pointer, rest)
      else if c = '^' then (.pointer, (xlTypeToken rest).2)
      else (.unsupported, c :: rest)

/-- The digits behind a type. -/
def skipDigits (text : List Char) : List Char := text.dropWhile Char.isDigit

theorem length_skipName (text : List Char) : (skipName text).length ≤ text.length := by
  unfold skipName
  split
  · exact Nat.le_refl _
  · rename_i c rest
    have hdrop : ((rest.dropWhile (· ≠ mark)).drop 1).length ≤ rest.length := by
      rw [List.length_drop]
      exact Nat.le_trans (Nat.sub_le _ _) (List.dropWhile_sublist _).length_le
    split_ifs
    · exact Nat.le_succ _
    · exact Nat.le_succ_of_le hdrop
    · exact Nat.le_refl _

/-- The scan goes on, but at a letter of no use. -/
theorem length_xlTypeToken (text : List Char) :
    (xlTypeToken text).2.length ≤ text.length ∧
      ((xlTypeToken text).1 ≠ .unsupported → (xlTypeToken text).2.length < text.length) := by
  induction text with
  | nil => exact ⟨Nat.le_refl _, fun h => absurd rfl h⟩
  | cons c rest ih =>
      have hname := length_skipName rest
      obtain ⟨hle, hlt⟩ := ih
      simp only [xlTypeToken, List.length_cons]
      split_ifs
      · exact ⟨Nat.le_succ_of_le hle, fun h => Nat.lt_succ_of_lt (hlt h)⟩
      · exact ⟨Nat.le_succ _, fun _ => Nat.lt_succ_self _⟩
      · exact ⟨Nat.le_succ _, fun _ => Nat.lt_succ_self _⟩
      · exact ⟨Nat.le_succ_of_le hname, fun _ => Nat.lt_succ_of_le hname⟩
      · exact ⟨Nat.le_succ _, fun _ => Nat.lt_succ_self _⟩
      · exact ⟨Nat.le_succ_of_le hle, fun _ => Nat.lt_succ_of_le hle⟩
      · exact ⟨Nat.le_refl _, fun h => absurd rfl h⟩

/-- The loop over the parameters. -/
def countArgs (count : Nat) (text : List Char) : Option Nat :=
  if text = [] then some count
  else
    if h : (xlTypeToken text).1 = .unsupported ∨ (xlTypeToken text).1 = .void then none
    else countArgs (count + 1) (skipDigits (xlTypeToken text).2)
termination_by text.length
decreasing_by
  have hlt := (length_xlTypeToken text).2 fun hx => h (.inl hx)
  exact Nat.lt_of_le_of_lt (List.dropWhile_sublist _).length_le hlt

/-- `xl_block_simple_args`, of a signature that may be missing. -/
def xlBlockSimpleArgs : Option (List Char) → Option Nat
  | none => none
  | some sig =>
      let (ret, text) := xlTypeToken sig
      if ret = .unsupported then none
      else
        let (block, text) := xlTypeToken (skipDigits text)
        if block ≠ .pointer then none
        else
          match countArgs 0 (skipDigits text) with
          | some count => if 4 < count then none else some count
          | none => none

/-! ## What the compiler writes -/

/-- No type that the scan knows begins with the letter. -/
def Unknown (c : Char) : Prop :=
  c ∉ qualifiers ∧ c ≠ 'v' ∧ c ∉ integers ∧ c ∉ ['@', '#', ':', '*', '^'] ∧ c.isDigit = false

instance (c : Char) : Decidable (Unknown c) := inferInstanceAs (Decidable (_ ∧ _))

/-- The encoding of a type that a pointer may point to. -/
inductive TypeText : List Char → Prop
  | qualified {c : Char} {text : List Char} (hc : c ∈ qualifiers) (h : TypeText text) :
      TypeText (c :: text)
  | void : TypeText ['v']
  | integer {c : Char} (hc : c ∈ integers) : TypeText [c]
  | object : TypeText ['@']
  | named {name : List Char} (hname : mark ∉ name) : TypeText ('@' :: mark :: (name ++ [mark]))
  | block : TypeText ['@', '?']
  | blockOf (signature : List Char) : TypeText ('@' :: '?' :: '<' :: signature)
  | address {c : Char} (hc : c ∈ ['#', ':', '*']) : TypeText [c]
  | pointer {text : List Char} (h : TypeText text) : TypeText ('^' :: text)
  | other {c : Char} (rest : List Char) (hc : Unknown c) : TypeText (c :: rest)

/-- A pointer to data, or an opaque handle. -/
inductive DataPointer : Declared → Prop
  | plain (passes : Bool) :
      DataPointer (.plain (.pointer (.data passes)) (.pointer (.data passes)))
  | pointees (g h : CType) (passes isConst : Bool) : DataPointer (.pointer g h passes isConst)

/-- The encoding of a type of the guest, which has a type of the host beside it. A structure, a
floating-point number or a vector begins with a letter of its own. -/
inductive Spelled : SdkType → List Char → Prop
  | qualified {type : SdkType} {c : Char} {text : List Char} (hc : c ∈ qualifiers)
      (h : Spelled type text) : Spelled type (c :: text)
  | void : Spelled .void ['v']
  | integer {w w' : IntWidth} {signed : Bool} (signed' : Bool) {c : Char}
      (hc : c ∈ integerLetters w signed) (hle : w'.bits ≤ w.bits) :
      Spelled (.declared (.plain (.integer w signed) (.integer w' signed'))) [c]
  | object : Spelled (.declared (.plain (.pointer .object) (.pointer .object))) ['@']
  | isClass : Spelled (.declared (.plain (.pointer .object) (.pointer .object))) ['#']
  | protocol : Spelled (.declared (.plain (.pointer .protocol) (.pointer .protocol))) ['@']
  | named {kind : PointerKind} (hkind : kind = .object ∨ kind = .protocol) {name : List Char}
      (hname : mark ∉ name) :
      Spelled (.declared (.plain (.pointer kind) (.pointer kind)))
        ('@' :: mark :: (name ++ [mark]))
  | block : Spelled (.declared (.plain (.pointer .block) (.pointer .block))) ['@', '?']
  | blockOf (signature : List Char) :
      Spelled (.declared (.plain (.pointer .block) (.pointer .block)))
        ('@' :: '?' :: '<' :: signature)
  | selector : Spelled (.declared (.plain (.pointer .selector) (.pointer .selector))) [':']
  | string {declared : Declared} (h : DataPointer declared) : Spelled (.declared declared) ['*']
  | pointer {declared : Declared} (h : DataPointer declared) {text : List Char}
      (htext : TypeText text) : Spelled (.declared declared) ('^' :: text)
  | function :
      Spelled (.declared (.plain (.pointer .function) (.pointer .function))) ['^', '?']
  | other (type : SdkType) {c : Char} (rest : List Char) (hc : Unknown c) :
      Spelled type (c :: rest)

/-- The offset of an argument. -/
structure Offset where
  digits : List Char
  nonempty : digits ≠ []
  isDigit : ∀ c ∈ digits, c.isDigit = true

/-- A parameter of a block: its type on the two sides, whether the guest's is a `_Bool`, and its
encoding. -/
structure BlockParam where
  declared : Declared
  isBool : Bool
  text : List Char
  offset : Offset
  spelled : Spelled (.declared declared) text
  bool : isBool = true → ∃ h, declared = .plain (.integer .w8 false) h

/-- The type of a block, with the parts of its signature. -/
structure BlockType where
  result : SdkType
  text : List Char
  offset : Offset
  blockOffset : Offset
  params : List BlockParam
  spelled : Spelled result text

/-- The encoding of the parameters. -/
def encoded : List BlockParam → List Char
  | [] => []
  | p :: rest => p.text ++ (p.offset.digits ++ encoded rest)

/-- The signature that the compiler puts into the block's descriptor. -/
def BlockType.signature (b : BlockType) : List Char :=
  b.text ++ (b.offset.digits ++ (['@', '?'] ++ (b.blockOffset.digits ++ encoded b.params)))

/-! ## The scan of a signature -/

/-- The scan has come to a letter that it does not go past. -/
def Stuck (text : List Char) : Prop := ∃ c rest, text = c :: rest ∧ Unknown c

/-- A type ends here: behind it are digits, or nothing. -/
def Ends (rest : List Char) : Prop := ∀ c more, rest = c :: more → c.isDigit = true

/-- The token of a type that is scanned to its end. -/
inductive Reads : SdkType → Token → Prop
  | void : Reads .void .void
  | argument {declared : Declared} {token : Token} (sides : Sides declared)
      (htoken : token = .integer ∨ token = .pointer) : Reads (.declared declared) token

section

variable {c : Char} {text rest : List Char}

theorem xlTypeToken_qualified (hc : c ∈ qualifiers) :
    xlTypeToken (c :: rest) = xlTypeToken rest := by
  rw [xlTypeToken, if_pos hc]

theorem xlTypeToken_integer (hc : c ∈ integers) :
    xlTypeToken (c :: rest) = (.integer, rest) := by
  have hne : c ∉ qualifiers ∧ c ≠ 'v' := by
    simp only [integers, List.mem_cons, List.not_mem_nil, or_false] at hc
    rcases hc with rfl | rfl | rfl | rfl | rfl | rfl | rfl | rfl | rfl | rfl | rfl <;> decide
  rw [xlTypeToken, if_neg hne.1, if_neg hne.2, if_pos hc]

theorem xlTypeToken_object :
    xlTypeToken ('@' :: rest) = (.pointer, skipName rest) := rfl

theorem xlTypeToken_address (hc : c ∈ ['#', ':', '*']) :
    xlTypeToken (c :: rest) = (.pointer, rest) := by
  simp only [List.mem_cons, List.not_mem_nil, or_false] at hc
  rcases hc with rfl | rfl | rfl <;> rfl

theorem xlTypeToken_pointer :
    xlTypeToken ('^' :: rest) = (.pointer, (xlTypeToken rest).2) := rfl

theorem xlTypeToken_unknown (hc : Unknown c) :
    xlTypeToken (c :: rest) = (.unsupported, c :: rest) := by
  obtain ⟨hqualifier, hvoid, hinteger, hother, -⟩ := hc
  simp only [List.mem_cons, List.not_mem_nil, or_false, not_or] at hother
  obtain ⟨hobject, hclass, hselector, hstring, hpointer⟩ := hother
  rw [xlTypeToken, if_neg hqualifier, if_neg hvoid, if_neg hinteger, if_neg hobject, if_neg,
    if_neg hpointer]
  simp [hclass, hselector, hstring]

theorem Stuck.token (h : Stuck text) : (xlTypeToken text).1 = .unsupported := by
  obtain ⟨c, rest, rfl, hc⟩ := h
  rw [xlTypeToken_unknown hc]

theorem Stuck.skipDigits (h : Stuck text) : skipDigits text = text := by
  obtain ⟨c, rest, rfl, -, -, -, -, hdigit⟩ := h
  exact List.dropWhile_cons_of_neg (by rw [hdigit]; decide)

/-- An `@` that no name follows. -/
theorem skipName_ends (hrest : Ends rest) : skipName rest = rest := by
  cases rest with
  | nil => rfl
  | cons c more =>
      have hdigit := hrest c more rfl
      have hne : c ≠ '?' ∧ c ≠ mark :=
        ⟨by rintro rfl; exact absurd hdigit (by decide),
          by rintro rfl; exact absurd hdigit (by decide)⟩
      rw [skipName, if_neg hne.1, if_neg hne.2]

theorem skipName_named {name : List Char} (hname : mark ∉ name) :
    skipName (mark :: (name ++ [mark]) ++ rest) = rest := by
  have hdrop : ((name ++ [mark]) ++ rest).dropWhile (· ≠ mark) = mark :: rest := by
    rw [List.append_assoc, List.dropWhile_append_of_pos]
    · exact List.dropWhile_cons_of_neg (by simp)
    · intro c hc
      have hne : c ≠ mark := fun h => hname (h ▸ hc)
      simpa using hne
  rw [List.cons_append, skipName, if_neg (by decide), if_pos rfl, hdrop]
  rfl

theorem stuck_signature (signature : List Char) : Stuck ('<' :: signature) :=
  ⟨'<', signature, rfl, by decide⟩

/-- The scan of what a pointer points to. -/
theorem TypeText.scan (h : TypeText text) (hrest : Ends rest) :
    (xlTypeToken (text ++ rest)).2 = rest ∨ Stuck (xlTypeToken (text ++ rest)).2 := by
  induction h with
  | qualified hc _ ih =>
      rw [List.cons_append, xlTypeToken_qualified hc]
      exact ih
  | void => exact .inl rfl
  | integer hc =>
      rw [List.singleton_append, xlTypeToken_integer hc]
      exact .inl rfl
  | object =>
      rw [List.singleton_append, xlTypeToken_object]
      exact .inl (skipName_ends hrest)
  | named hname =>
      rw [List.cons_append, xlTypeToken_object]
      exact .inl (skipName_named hname)
  | block => exact .inl rfl
  | blockOf signature => exact .inr (stuck_signature _)
  | address hc =>
      rw [List.singleton_append, xlTypeToken_address hc]
      exact .inl rfl
  | pointer _ ih =>
      rw [List.cons_append, xlTypeToken_pointer]
      exact ih
  | other more hc =>
      rw [List.cons_append, xlTypeToken_unknown hc]
      exact .inr ⟨_, _, rfl, hc⟩

theorem mem_integers {w : IntWidth} {signed : Bool} (hc : c ∈ integerLetters w signed) :
    c ∈ integers := by
  cases signed <;> cases w <;>
    simp only [integerLetters, List.mem_cons, List.not_mem_nil, or_false] at hc <;>
    rcases hc with rfl | rfl <;> decide

theorem DataPointer.sides {declared : Declared} (h : DataPointer declared) : Sides declared := by
  cases h with
  | plain passes => exact .pointer _
  | pointees g h passes isConst => exact .data g h passes isConst

/-- **The scan of a type** ends where the type does, with its token, or within the type. -/
theorem Spelled.scan {type : SdkType} (h : Spelled type text) (hrest : Ends rest) :
    (∃ token, Reads type token ∧ xlTypeToken (text ++ rest) = (token, rest)) ∨
      Stuck (xlTypeToken (text ++ rest)).2 := by
  induction h with
  | qualified hc _ ih =>
      rw [List.cons_append, xlTypeToken_qualified hc]
      exact ih
  | void => exact .inl ⟨.void, .void, rfl⟩
  | integer signed' hc hle =>
      rw [List.singleton_append, xlTypeToken_integer (mem_integers hc)]
      exact .inl ⟨.integer, .argument (.integer _ signed' hle) (.inl rfl), rfl⟩
  | object | protocol =>
      rw [List.singleton_append, xlTypeToken_object, skipName_ends hrest]
      exact .inl ⟨.pointer, .argument (.pointer _) (.inr rfl), rfl⟩
  | isClass | selector => exact .inl ⟨.pointer, .argument (.pointer _) (.inr rfl), rfl⟩
  | named _ hname =>
      rw [List.cons_append, xlTypeToken_object, skipName_named hname]
      exact .inl ⟨.pointer, .argument (.pointer _) (.inr rfl), rfl⟩
  | block => exact .inl ⟨.pointer, .argument (.pointer _) (.inr rfl), rfl⟩
  | blockOf signature => exact .inr (stuck_signature _)
  | string hdata => exact .inl ⟨.pointer, .argument hdata.sides (.inr rfl), rfl⟩
  | pointer hdata htext =>
      rw [List.cons_append, xlTypeToken_pointer]
      rcases htext.scan hrest with hend | hstuck
      · exact .inl ⟨.pointer, .argument hdata.sides (.inr rfl), by rw [hend]⟩
      · exact .inr hstuck
  | function => exact .inr ⟨'?', rest, rfl, by decide⟩
  | other _ more hc =>
      rw [List.cons_append, xlTypeToken_unknown hc]
      exact .inr ⟨_, _, rfl, hc⟩

end

/-! ## What is counted -/

theorem not_isDigit_of_mem {l : List Char} {c : Char} (hc : c ∈ l)
    (h : l.all fun c => !c.isDigit) : c.isDigit = false := by
  simpa using List.all_eq_true.mp h c hc

/-- No type begins with a digit. -/
theorem Spelled.head {type : SdkType} {text : List Char} (h : Spelled type text) :
    ∃ c more, text = c :: more ∧ c.isDigit = false := by
  cases h with
  | qualified hc _ => exact ⟨_, _, rfl, not_isDigit_of_mem hc (by decide)⟩
  | integer _ hc _ => exact ⟨_, _, rfl, not_isDigit_of_mem (mem_integers hc) (by decide)⟩
  | other _ _ hc => exact ⟨_, _, rfl, hc.2.2.2.2⟩
  | _ => exact ⟨_, _, rfl, by decide⟩

theorem Offset.ends (offset : Offset) (rest : List Char) : Ends (offset.digits ++ rest) := by
  rintro c more h
  obtain ⟨digit, digits, hdigits⟩ := List.exists_cons_of_ne_nil offset.nonempty
  have hdigit := offset.isDigit digit (by rw [hdigits]; exact List.mem_cons_self)
  rw [hdigits, List.cons_append] at h
  injection h with hc
  rw [← hc]
  exact hdigit

/-- The digits are skipped up to the next type. -/
theorem Offset.skipDigits (offset : Offset) {rest : List Char}
    (hrest : ∀ c more, rest = c :: more → c.isDigit = false) :
    skipDigits (offset.digits ++ rest) = rest := by
  rw [BlockTrampolines.skipDigits, List.dropWhile_append_of_pos offset.isDigit]
  cases rest with
  | nil => rfl
  | cons c more => exact List.dropWhile_cons_of_neg (by rw [hrest c more rfl]; decide)

theorem encoded_head (params : List BlockParam) :
    ∀ c more, encoded params = c :: more → c.isDigit = false := by
  intro c more h
  cases params with
  | nil => cases h
  | cons p rest =>
      obtain ⟨c', more', htext, hdigit⟩ := p.spelled.head
      rw [encoded, htext, List.cons_append] at h
      injection h with hc
      rw [← hc]
      exact hdigit

theorem countArgs_cons {count : Nat} {text : List Char} (htext : text ≠ []) {n : Nat}
    (h : countArgs count text = some n) :
    (xlTypeToken text).1 ≠ .unsupported ∧ (xlTypeToken text).1 ≠ .void ∧
      countArgs (count + 1) (skipDigits (xlTypeToken text).2) = some n := by
  rw [countArgs, if_neg htext] at h
  split at h
  case isTrue => cases h
  case isFalse hno => exact ⟨fun hx => hno (.inl hx), fun hv => hno (.inr hv), h⟩

/-- The loop does not come past a letter that the scan does not go past. -/
theorem Stuck.countArgs {count : Nat} {text : List Char} (h : Stuck text) :
    countArgs count text = none := by
  have hne : text ≠ [] := by
    obtain ⟨c, rest, rfl, -⟩ := h
    exact List.cons_ne_nil c rest
  rw [BlockTrampolines.countArgs, if_neg hne, dif_pos (.inl h.token)]

/-- **The loop counts the parameters**, if it comes to the end. -/
theorem countArgs_spec (params : List BlockParam) {count n : Nat}
    (h : countArgs count (encoded params) = some n) :
    n = count + params.length ∧ ∀ p ∈ params, Sides p.declared := by
  induction params generalizing count with
  | nil =>
      rw [encoded, countArgs, if_pos rfl] at h
      injection h with h
      exact ⟨h.symm, fun p hp => absurd hp List.not_mem_nil⟩
  | cons p rest ih =>
      have hne : encoded (p :: rest) ≠ [] := by
        obtain ⟨c, more, htext, -⟩ := p.spelled.head
        rw [encoded, htext]
        exact List.cons_ne_nil c _
      obtain ⟨hsupported, hvoid, hnext⟩ := countArgs_cons hne h
      rcases p.spelled.scan (p.offset.ends (encoded rest)) with ⟨token, hreads, hscan⟩ | hstuck
      · rw [encoded, hscan, p.offset.skipDigits (encoded_head rest)] at hnext
        obtain ⟨hn, hrest⟩ := ih hnext
        cases hreads with
        | argument hsides _ =>
            rw [List.length_cons]
            exact ⟨by omega, List.forall_mem_cons.mpr ⟨hsides, hrest⟩⟩
      · rw [encoded, hstuck.skipDigits, hstuck.countArgs] at hnext
        cases hnext

/-- **The signatures that are accepted** have their number of parameters, all integers and
pointers, and so is the result, unless it is void. -/
theorem xlBlockSimpleArgs_spec (b : BlockType) {n : Nat}
    (h : xlBlockSimpleArgs (some b.signature) = some n) :
    n = b.params.length ∧ n ≤ 4 ∧ (∀ p ∈ b.params, Sides p.declared) ∧
      ∀ declared, b.result = .declared declared → Sides declared := by
  have hself : xlTypeToken (['@', '?'] ++ (b.blockOffset.digits ++ encoded b.params))
      = (.pointer, b.blockOffset.digits ++ encoded b.params) := rfl
  have hnext : skipDigits (b.offset.digits
        ++ (['@', '?'] ++ (b.blockOffset.digits ++ encoded b.params)))
      = ['@', '?'] ++ (b.blockOffset.digits ++ encoded b.params) := by
    refine b.offset.skipDigits fun c more hc => ?_
    injection hc with hc
    rw [← hc]
    decide
  rw [xlBlockSimpleArgs, BlockType.signature] at h
  rcases b.spelled.scan (b.offset.ends
    (['@', '?'] ++ (b.blockOffset.digits ++ encoded b.params))) with
    ⟨token, hreads, hscan⟩ | hstuck
  · simp only [hscan, hnext, hself, b.blockOffset.skipDigits (encoded_head b.params)] at h
    cases hcount : countArgs 0 (encoded b.params) with
    | none =>
        rw [hcount] at h
        split_ifs at h
    | some count =>
        obtain ⟨hn, hparams⟩ := countArgs_spec b.params hcount
        rw [hcount] at h
        split_ifs at h with hsupported hpointer
        have hcases : (if 4 < count then none else some count) = some n := h
        split_ifs at hcases with hmore
        injection hcases with h
        refine ⟨by omega, by omega, hparams, fun declared hdeclared => ?_⟩
        rw [hdeclared] at hreads
        cases hreads with
        | argument hsides _ => exact hsides
  · simp only [hstuck.skipDigits, hstuck.token] at h
    split_ifs at h with hsupported hpointer
    exact absurd (by decide) hpointer

end BlockTrampolines

end Katabasis
