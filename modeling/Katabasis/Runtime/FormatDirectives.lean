import Katabasis.Runtime.FormatMarshal

set_option autoImplicit false

/-! # The directives of a format

A format as printf reads it: directives of flags, width, precision, modifiers and a conversion
(`Directive`, `Scans`), each of which takes its arguments one after the other (`Taker`), and each
argument is read from the buffer where the one before ended (`hostReads`).

A directive spells the text that it was read from (`lexDirective_body`), and, spelled out in
front of any text, it is read as itself (`lexDirective_append`).
-/

namespace Katabasis

/-! ## Directives -/

/-- A width or a precision. -/
inductive Count
  | star
  | digits (text : Text)
  deriving DecidableEq, Repr

structure Directive where
  flags : Text
  width : Count
  precision : Option Count
  modifiers : Text
  conversion : Char
  deriving DecidableEq, Repr

/-- What takes an argument: a star, or a conversion with its modifiers. -/
inductive Taker
  | star
  | value (modifiers : Text) (conversion : Char)
  deriving DecidableEq, Repr

def Count.text : Count → Text
  | star => ['*']
  | digits text => text

def Count.takers : Count → List Taker
  | star => [.star]
  | digits _ => []

/-- The text of a precision, with its dot. -/
def precisionText : Option Count → Text
  | none => []
  | some count => '.' :: count.text

def precisionTakers : Option Count → List Taker
  | none => []
  | some count => count.takers

theorem star_of_mem_counts {width : Count} {precision : Option Count} {t : Taker}
    (h : t ∈ width.takers ++ precisionTakers precision) : t = .star := by
  have hstar : ∀ count : Count, t ∈ count.takers → t = .star := by
    intro count ht
    cases count with
    | star => exact List.mem_singleton.mp ht
    | digits text => cases ht
  rcases List.mem_append.mp h with h | h
  · exact hstar width h
  · cases precision with
    | none => cases h
    | some count => exact hstar count h

namespace Directive

/-- The text of the directive, behind its `%`. -/
def body (d : Directive) : Text :=
  d.flags ++ ((d.width.text ++ precisionText d.precision) ++ (d.modifiers ++ [d.conversion]))

/-- The arguments of the directive in their order; only `%m` takes no value. -/
def takers (d : Directive) : List Taker :=
  (d.width.takers ++ precisionTakers d.precision) ++
    if d.conversion = 'm' then [] else [.value d.modifiers d.conversion]

end Directive

/-- The length modifiers; in SQLite's dialect `q` and `z` are conversions. -/
def isModifier (sqliteDialect : Bool) (c : Char) : Bool :=
  "hljtL".toList.contains c || !sqliteDialect && "qz".toList.contains c

def lexCount : Text → Count × Text
  | '*' :: text => (.star, text)
  | text => (.digits (text.takeWhile Char.isDigit), text.dropWhile Char.isDigit)

def lexPrecision : Text → Option Count × Text
  | '.' :: text => (some (lexCount text).1, (lexCount text).2)
  | text => (none, text)

theorem lexPrecision_of_ne {text : Text} (h : ∀ behind, text ≠ '.' :: behind) :
    lexPrecision text = (none, text) := by
  unfold lexPrecision
  split
  case h_1 behind => exact absurd rfl (h behind)
  case h_2 => rfl

/-- The directive at the start of the text, and what is behind it. -/
def lexDirective (sqliteDialect : Bool) (text : Text) : Option (Directive × Text) :=
  let (width, afterWidth) := lexCount (text.dropWhile isFlag)
  let (precision, afterPrecision) := lexPrecision afterWidth
  match afterPrecision.dropWhile (isModifier sqliteDialect) with
  | [] => none
  | conversion :: rest =>
      some (⟨text.takeWhile isFlag, width, precision,
        afterPrecision.takeWhile (isModifier sqliteDialect), conversion⟩, rest)

theorem lexDirective_eq (sqliteDialect : Bool) (text : Text) :
    lexDirective sqliteDialect text =
      match (lexPrecision (lexCount (text.dropWhile isFlag)).2).2.dropWhile
        (isModifier sqliteDialect) with
      | [] => none
      | conversion :: rest =>
          some (⟨text.takeWhile isFlag, (lexCount (text.dropWhile isFlag)).1,
            (lexPrecision (lexCount (text.dropWhile isFlag)).2).1,
            (lexPrecision (lexCount (text.dropWhile isFlag)).2).2.takeWhile
              (isModifier sqliteDialect), conversion⟩, rest) := rfl

/-- The directives of a text. -/
inductive Scans (sqliteDialect : Bool) : Text → List Directive → Prop
  | done : Scans sqliteDialect [] []
  | literal {c : Char} {text : Text} {ds : List Directive} (hc : c ≠ '%')
      (h : Scans sqliteDialect text ds) : Scans sqliteDialect (c :: text) ds
  | percent {text : Text} {ds : List Directive} (h : Scans sqliteDialect text ds) :
      Scans sqliteDialect ('%' :: '%' :: text) ds
  | directive {text rest : Text} {d : Directive} {ds : List Directive}
      (hpercent : text.head? ≠ some '%') (hd : lexDirective sqliteDialect text = some (d, rest))
      (h : Scans sqliteDialect rest ds) : Scans sqliteDialect ('%' :: text) (d :: ds)

/-- A text is read in one way. -/
theorem Scans.unique {sqliteDialect : Bool} {text : Text} {ds ds' : List Directive}
    (h : Scans sqliteDialect text ds) (h' : Scans sqliteDialect text ds') : ds = ds' := by
  induction h generalizing ds' with
  | done => cases h'; rfl
  | literal hc _ ih =>
      cases h' with
      | literal _ h' => exact ih h'
      | percent _ => exact absurd rfl hc
      | directive _ _ _ => exact absurd rfl hc
  | percent _ ih =>
      cases h' with
      | literal hc _ => exact absurd rfl hc
      | percent h' => exact ih h'
      | directive hpercent _ _ => exact absurd rfl hpercent
  | directive hpercent hd _ ih =>
      cases h' with
      | literal hc _ => exact absurd rfl hc
      | percent _ => exact absurd rfl hpercent
      | directive _ hd' h' =>
          rw [hd] at hd'
          cases hd'
          rw [ih h']

/-! ## What the host reads -/

/-- The bytes that the host's printf takes of its argument list. -/
def Taker.hostSize : Taker → Nat
  | star => 4
  | value modifiers conversion =>
      if conversion ∈ integerConversions then
        if 2 ≤ modifiers.count 'l' ∨ 'q' ∈ modifiers ∨ 'j' ∈ modifiers then 8 else 4
      else if conversion ∈ doubleConversions then 8
      else 4

/-- The host's walk over the buffer, each argument from where the one before ended; it ends
exactly at the end of the buffer. -/
def hostReads : List Taker → Nat → List UInt8 → Option (List (Nat × List UInt8))
  | [], _, [] => some []
  | [], _, _ :: _ => none
  | t :: ts, offset, bytes =>
      if bytes.length < t.hostSize then none
      else (hostReads ts (offset + t.hostSize) (bytes.drop t.hostSize)).map fun reads =>
        (offset, bytes.take t.hostSize) :: reads

/-! ## What is read is spelled again -/

theorem lexCount_text (text : Text) : (lexCount text).1.text ++ (lexCount text).2 = text := by
  unfold lexCount
  split
  case h_1 behind => rfl
  case h_2 => exact List.takeWhile_append_dropWhile

theorem lexPrecision_text (text : Text) :
    precisionText (lexPrecision text).1 ++ (lexPrecision text).2 = text := by
  unfold lexPrecision
  split
  case h_1 behind => exact congrArg (List.cons '.') (lexCount_text behind)
  case h_2 => rfl

/-- **A directive spells the text that it was read from.** -/
theorem lexDirective_body {sqliteDialect : Bool} {text rest : Text} {d : Directive}
    (h : lexDirective sqliteDialect text = some (d, rest)) : d.body ++ rest = text := by
  rw [lexDirective_eq] at h
  split at h
  case h_1 => cases h
  case h_2 conversion behind hbehind =>
    cases h
    rw [Directive.body]
    calc _ = text.takeWhile isFlag ++ ((lexCount (text.dropWhile isFlag)).1.text ++
          (precisionText (lexPrecision (lexCount (text.dropWhile isFlag)).2).1 ++
            ((lexPrecision (lexCount (text.dropWhile isFlag)).2).2.takeWhile
              (isModifier sqliteDialect) ++ conversion :: rest))) := by
            simp only [List.append_assoc, List.singleton_append]
      _ = text := by
            rw [← hbehind, List.takeWhile_append_dropWhile, lexPrecision_text, lexCount_text,
              List.takeWhile_append_dropWhile]

theorem length_body_pos (d : Directive) : 0 < d.body.length := by
  rw [Directive.body]
  simp only [List.length_append, List.length_singleton]
  omega

/-! ## What is spelled is read again -/

/-- A text of such characters, in front of one that does not begin with such a character. -/
theorem span_append {p : Char → Bool} {text rest : Text} (htext : ∀ c ∈ text, p c = true)
    (hrest : ∀ c ∈ rest.head?, p c = false) :
    (text ++ rest).takeWhile p = text ∧ (text ++ rest).dropWhile p = rest := by
  rw [List.takeWhile_append_of_pos htext, List.dropWhile_append_of_pos htext]
  cases rest with
  | nil => exact ⟨List.append_nil text, rfl⟩
  | cons c rest =>
      have hc : ¬ p c = true := by rw [hrest c rfl]; decide
      rw [List.takeWhile_cons_of_neg hc, List.dropWhile_cons_of_neg hc]
      exact ⟨List.append_nil text, rfl⟩

/-- A count is a star or of digits. -/
def Count.Digits : Count → Prop
  | star => True
  | digits text => ∀ c ∈ text, c.isDigit = true

/-- No part before the modifiers begins with this character. -/
structure Plain (c : Char) : Prop where
  flag : isFlag c = false
  digit : c.isDigit = false
  star : c ≠ '*'
  dot : c ≠ '.'

theorem lexCount_append {count : Count} {rest : Text} (hcount : count.Digits)
    (hdigit : ∀ c ∈ rest.head?, c.isDigit = false)
    (hstar : ∀ c ∈ rest.head?, c ≠ '*') : lexCount (count.text ++ rest) = (count, rest) := by
  cases count with
  | star => rfl
  | digits text =>
      obtain ⟨htake, hdrop⟩ := span_append hcount hdigit
      show lexCount (text ++ rest) = _
      unfold lexCount
      split
      case h_1 behind hbehind =>
        cases text with
        | nil => exact absurd rfl (hstar '*' (by rw [← List.nil_append rest, hbehind]; rfl))
        | cons c text =>
            have hc : c.isDigit = true := hcount c List.mem_cons_self
            obtain rfl : c = '*' := (List.cons.inj hbehind).1
            cases hc
      case h_2 => rw [htake, hdrop]

theorem lexPrecision_append {precision : Option Count} {rest : Text}
    (hprecision : ∀ count ∈ precision, count.Digits) (hrest : ∀ c ∈ rest.head?, Plain c) :
    lexPrecision (precisionText precision ++ rest) = (precision, rest) := by
  cases precision with
  | none =>
      apply lexPrecision_of_ne
      rintro behind rfl
      exact (hrest '.' rfl).dot rfl
  | some count =>
      have hcount := lexCount_append (hprecision count rfl) (fun c hc => (hrest c hc).digit)
        fun c hc => (hrest c hc).star
      show (some (lexCount (count.text ++ rest)).1, (lexCount (count.text ++ rest)).2) = _
      rw [hcount]

/-- A directive whose parts are what is read for them. -/
structure Directive.Lexes (sqliteDialect : Bool) (d : Directive) : Prop where
  flags : ∀ c ∈ d.flags, isFlag c = true
  width : d.width.Digits
  start : ∀ c ∈ d.width.text.head?, isFlag c = false
  precision : ∀ count ∈ d.precision, count.Digits
  modifiers : ∀ c ∈ d.modifiers, isModifier sqliteDialect c = true
  conversion : Plain d.conversion
  last : isModifier sqliteDialect d.conversion = false

theorem plain_of_isModifier {sqliteDialect : Bool} {c : Char}
    (h : isModifier sqliteDialect c = true) : Plain c := by
  have hletters : "hljtL".toList = ['h', 'l', 'j', 't', 'L'] ∧ "qz".toList = ['q', 'z'] := by
    decide
  have hc : c ∈ ['h', 'l', 'j', 't', 'L', 'q', 'z'] := by
    unfold isModifier at h
    rw [hletters.1, hletters.2] at h
    simp only [Bool.or_eq_true, Bool.and_eq_true, List.contains_iff_mem] at h
    rcases h with h | h
    · exact List.mem_append_left ['q', 'z'] h
    · exact List.mem_append_right ['h', 'l', 'j', 't', 'L'] h.2
  have hall : ∀ c ∈ ['h', 'l', 'j', 't', 'L', 'q', 'z'],
      isFlag c = false ∧ c.isDigit = false ∧ c ≠ '*' ∧ c ≠ '.' :=
    List.all_iff_forall_prop.mp (by decide)
  obtain ⟨hflag, hdigit, hstar, hdot⟩ := hall c hc
  exact ⟨hflag, hdigit, hstar, hdot⟩

/-- **Spelled out in front of any text, a directive is read as itself.** -/
theorem lexDirective_append {sqliteDialect : Bool} {d : Directive} (hd : d.Lexes sqliteDialect)
    (rest : Text) : lexDirective sqliteDialect (d.body ++ rest) = some (d, rest) := by
  have hbody : d.body ++ rest = d.flags ++ (d.width.text ++ (precisionText d.precision ++
      (d.modifiers ++ d.conversion :: rest))) := by
    rw [Directive.body]
    simp only [List.append_assoc, List.singleton_append]
  have hplain : ∀ c ∈ (d.modifiers ++ d.conversion :: rest).head?, Plain c := by
    intro c hc
    cases hmodifiers : d.modifiers with
    | nil =>
        rw [hmodifiers] at hc
        cases hc
        exact hd.conversion
    | cons modifier modifiers =>
        rw [hmodifiers] at hc
        cases hc
        exact plain_of_isModifier (hd.modifiers c (hmodifiers ▸ List.mem_cons_self))
  -- a precision begins with its dot, which is no flag and no digit
  have hdot : ∀ c ∈ (precisionText d.precision ++ (d.modifiers ++ d.conversion :: rest)).head?,
      isFlag c = false ∧ c.isDigit = false ∧ c ≠ '*' := by
    intro c hc
    cases hprecision : d.precision with
    | none =>
        rw [hprecision] at hc
        exact ⟨(hplain c hc).flag, (hplain c hc).digit, (hplain c hc).star⟩
    | some count =>
        rw [hprecision] at hc
        cases hc
        decide
  have hwidth : ∀ c ∈ (d.width.text ++ (precisionText d.precision ++
      (d.modifiers ++ d.conversion :: rest))).head?, isFlag c = false := by
    intro c hc
    cases htext : d.width.text with
    | nil =>
        rw [htext] at hc
        exact (hdot c hc).1
    | cons first behind =>
        rw [htext] at hc
        cases hc
        exact hd.start c (by rw [htext]; rfl)
  obtain ⟨hflags, hbehindFlags⟩ := span_append hd.flags hwidth
  have hcount := lexCount_append hd.width (fun c hc => (hdot c hc).2.1) fun c hc =>
    (hdot c hc).2.2
  have hprecision := lexPrecision_append hd.precision hplain
  have hlast : ∀ c ∈ (d.conversion :: rest).head?, isModifier sqliteDialect c = false := by
    intro c hc
    cases hc
    exact hd.last
  obtain ⟨hmodifiers, hbehind⟩ := span_append hd.modifiers hlast
  rw [lexDirective_eq, hbody, hflags, hbehindFlags, hcount, hprecision, hmodifiers, hbehind]


theorem mem_takeWhile {p : Char → Bool} {text : Text} : ∀ c ∈ text.takeWhile p, p c = true :=
  List.all_eq_true.mp List.all_takeWhile

theorem lexCount_digits (text : Text) : (lexCount text).1.Digits := by
  unfold lexCount
  split
  case h_1 behind => trivial
  case h_2 => exact mem_takeWhile

/-- What is read as a directive is one, if its conversion is none of the other parts. -/
theorem lexDirective_lexes {sqliteDialect : Bool} {text rest : Text} {d : Directive}
    (h : lexDirective sqliteDialect text = some (d, rest)) (hconversion : Plain d.conversion)
    (hlast : isModifier sqliteDialect d.conversion = false) : d.Lexes sqliteDialect := by
  rw [lexDirective_eq] at h
  split at h
  case h_1 => cases h
  case h_2 conversion behind hbehind =>
    cases h
    refine ⟨mem_takeWhile, lexCount_digits _, ?_, ?_, mem_takeWhile, hconversion, hlast⟩
    · rintro c hc
      rw [Option.mem_def] at hc
      have hhead : (text.dropWhile isFlag).head? = some c := by
        rw [← lexCount_text (text.dropWhile isFlag), List.head?_append, hc]
        rfl
      have hstop := List.head?_dropWhile_not isFlag text
      rw [hhead] at hstop
      exact hstop
    · intro count hcount
      unfold lexPrecision at hcount
      split at hcount
      case h_1 =>
        cases hcount
        exact lexCount_digits _
      case h_2 => cases hcount

end Katabasis
