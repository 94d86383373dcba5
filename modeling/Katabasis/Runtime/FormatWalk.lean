import Katabasis.Lib.Fallible
import Katabasis.Runtime.FormatDirectives

set_option autoImplicit false

/-! # Text and arguments in step

What the marshaller writes for a directive is again a directive, of the same arguments but for
the modifiers (`Directive.produced`), and reads back as the one that was meant.
**`format_in_step`**: one slot of the guest for each argument, and the host reads from the buffer
what was written for it.
-/

namespace Katabasis

open LittleEndian

/-! ## What the marshaller writes -/

section

variable (call : FormatCall)

/-- A modifier makes the argument wide. -/
def isWide (modifiers : Text) : Bool :=
  modifiers.any fun c => decide (modifierWide call.sqliteDialect c = some true)

/-- The modifiers of the host's directive. -/
def keptModifiers (modifiers : Text) (conversion : Char) : Text :=
  if isWide call modifiers = false then []
  else if conversion ∈ integerConversions then "ll".toList
  else if conversion ∈ characterConversions ∨ conversion = 's' then "l".toList
  else []

def Taker.produced : Taker → Taker
  | star => star
  | value modifiers conversion => value (keptModifiers call modifiers conversion) conversion

def Directive.produced (d : Directive) : Directive :=
  { d with modifiers := keptModifiers call d.modifiers d.conversion }

/-- What is written of a slot. -/
def Taker.packed (slot : UInt64) : Taker → List UInt8
  | star => slotBytes 4 slot
  | value modifiers conversion =>
      if conversion ∈ integerConversions then
        slotBytes (if isWide call modifiers then 8 else 4) slot
      else if conversion ∈ characterConversions then slotBytes 4 slot
      else if conversion ∈ doubleConversions then slotBytes 8 slot
      else toBytes 4 (pointerFor call (isWide call modifiers) conversion slot).toNat

/-- The slot of a string or a pointer holds an address below 4 GiB. -/
def Taker.Passes (slot : UInt64) : Taker → Prop
  | star => True
  | value _ conversion =>
      conversion ∈ integerConversions ∨ conversion ∈ characterConversions ∨
        conversion ∈ doubleConversions ∨ slot.toNat < 2 ^ 32

/-- What is written for arguments, from a slot on. -/
def packedFrom : Nat → List Taker → List (List UInt8)
  | _, [] => []
  | slot, t :: ts => t.packed call (call.arguments slot) :: packedFrom (slot + 1) ts

end

/-- Of each argument with its slot, from a slot on. -/
def AllFrom (P : Nat → Taker → Prop) : Nat → List Taker → Prop
  | _, [] => True
  | slot, t :: ts => P slot t ∧ AllFrom P (slot + 1) ts

/-- The arguments that are written, from a slot and an offset on. -/
def writes : Nat → Nat → List (List UInt8) → List Write
  | _, _, [] => []
  | slot, offset, bytes :: rest =>
      ⟨slot, offset, bytes⟩ :: writes (slot + 1) (offset + bytes.length) rest

theorem packedFrom_append (call : FormatCall) (slot : Nat) (ts ts' : List Taker) :
    packedFrom call slot (ts ++ ts')
      = packedFrom call slot ts ++ packedFrom call (slot + ts.length) ts' := by
  induction ts generalizing slot with
  | nil => rfl
  | cons t ts ih =>
      rw [List.cons_append, packedFrom, ih, packedFrom, List.cons_append, List.length_cons]
      congr 3
      omega

@[simp] theorem length_packedFrom (call : FormatCall) (slot : Nat) (ts : List Taker) :
    (packedFrom call slot ts).length = ts.length := by
  induction ts generalizing slot with
  | nil => rfl
  | cons t ts ih => rw [packedFrom, List.length_cons, ih, List.length_cons]

theorem allFrom_append {P : Nat → Taker → Prop} {slot : Nat} {ts ts' : List Taker}
    (h : AllFrom P slot ts) (h' : AllFrom P (slot + ts.length) ts') :
    AllFrom P slot (ts ++ ts') := by
  induction ts generalizing slot with
  | nil => exact h'
  | cons t ts ih =>
      refine ⟨h.1, ih h.2 ?_⟩
      rw [List.length_cons] at h'
      rwa [Nat.add_assoc, Nat.add_comm 1]

theorem allFrom_of_forall {P : Nat → Taker → Prop} {slot : Nat} {ts : List Taker}
    (h : ∀ slot, ∀ t ∈ ts, P slot t) : AllFrom P slot ts := by
  induction ts generalizing slot with
  | nil => trivial
  | cons t ts ih =>
      exact ⟨h slot t List.mem_cons_self, ih fun slot t ht => h slot t (List.mem_cons_of_mem _ ht)⟩

theorem writes_append (slot offset : Nat) (bs bs' : List (List UInt8)) :
    writes slot offset (bs ++ bs')
      = writes slot offset bs ++ writes (slot + bs.length) (offset + bs.flatten.length) bs' := by
  induction bs generalizing slot offset with
  | nil => rfl
  | cons b bs ih =>
      rw [List.cons_append, writes, ih, writes, List.cons_append, List.length_cons,
        List.flatten_cons, List.length_append]
      congr 3 <;> omega

theorem slots_writes (slot offset : Nat) (bs : List (List UInt8)) :
    (writes slot offset bs).map Write.slot = List.range' slot bs.length := by
  induction bs generalizing slot offset with
  | nil => rfl
  | cons b bs ih => rw [writes, List.map_cons, ih, List.length_cons, List.range'_succ]

namespace Marshaller

/-- From one state to another so much text is produced, and these arguments are written. -/
structure Adds (m m' : Marshaller) (text : Text) (bytes : List (List UInt8)) : Prop where
  out : m'.out.data = m.out.data ++ text
  args : m'.args.data = m.args.data ++ bytes.flatten
  next : m'.next = m.next + bytes.length
  written : m'.written = m.written ++ writes m.next m.args.data.length bytes

theorem Adds.refl (m : Marshaller) : m.Adds m [] [] :=
  ⟨by simp, by simp, rfl, by simp [writes]⟩

theorem Adds.trans {m m' m'' : Marshaller} {text text' : Text} {bs bs' : List (List UInt8)}
    (h : m.Adds m' text bs) (h' : m'.Adds m'' text' bs') :
    m.Adds m'' (text ++ text') (bs ++ bs') := by
  refine ⟨?_, ?_, ?_, ?_⟩
  · rw [h'.out, h.out, List.append_assoc]
  · rw [h'.args, h.args, List.append_assoc, List.flatten_append]
  · rw [h'.next, h.next, List.length_append]
    omega
  · rw [h'.written, h.written, h.next, h.args, writes_append, List.append_assoc,
      List.length_append]

theorem adds_put (m : Marshaller) (text : Text) : m.Adds (m.put text) text [] :=
  ⟨rfl, by simp [put], rfl, by simp [put, writes]⟩

theorem adds_take (m : Marshaller) (bytes : List UInt8) : m.Adds (m.take bytes) [] [bytes] :=
  ⟨by simp [take], by simp [take, xlAppend], rfl, rfl⟩

end Marshaller

/-- Every string and pointer is below 4 GiB. -/
abbrev PassedFrom (call : FormatCall) (slot : Nat) (ts : List Taker) : Prop :=
  AllFrom (fun slot t => t.Passes (call.arguments slot)) slot ts

/-! ## The marshaller's steps -/

section

variable {call : FormatCall} {m m' : Marshaller} {text : Text}

/-- Flags and digits are copied as they are. -/
theorem copyWhile_adds (p : Char → Bool) (text : Text) (m : Marshaller) :
    (copyWhile p text m).1 = text.dropWhile p ∧
      m.Adds (copyWhile p text m).2 (text.takeWhile p) [] := by
  induction text generalizing m with
  | nil => exact ⟨rfl, Marshaller.Adds.refl m⟩
  | cons c text ih =>
      rw [copyWhile]
      by_cases hc : p c = true
      · rw [if_pos hc, List.dropWhile_cons_of_pos hc, List.takeWhile_cons_of_pos hc]
        obtain ⟨htext, hadds⟩ := ih (m.put [c])
        exact ⟨htext, (Marshaller.adds_put m [c]).trans hadds⟩
      · rw [if_neg hc, List.dropWhile_cons_of_neg hc, List.takeWhile_cons_of_neg hc]
        exact ⟨rfl, Marshaller.Adds.refl m⟩

/-- A star takes an argument; digits take none. -/
theorem copyCount_adds (call : FormatCall) (text : Text) (m : Marshaller) :
    (copyCount call text m).1 = (lexCount text).2 ∧
      m.Adds (copyCount call text m).2 (lexCount text).1.text
        (packedFrom call m.next (lexCount text).1.takers) := by
  unfold copyCount lexCount
  split
  case h_1 text =>
    exact ⟨rfl, (Marshaller.adds_take m _).trans (Marshaller.adds_put _ ['*'])⟩
  case h_2 hstar =>
    split
    case h_1 behind => exact (hstar behind rfl).elim
    case h_2 => exact copyWhile_adds Char.isDigit text m

/-- The width and the precision, which are copied with their arguments. -/
theorem copyParts_adds {start rest : Text}
    (h : copyParts call start text m = .ok (rest, m')) :
    rest = (lexPrecision (lexCount text).2).2 ∧
      m.Adds m' ((lexCount text).1.text ++ precisionText (lexPrecision (lexCount text).2).1)
        (packedFrom call m.next ((lexCount text).1.takers ++
          precisionTakers (lexPrecision (lexCount text).2).1)) := by
  obtain ⟨hwidth, haddsWidth⟩ := copyCount_adds call text m
  have hnext := haddsWidth.next
  rw [length_packedFrom] at hnext
  unfold copyParts at h
  dsimp only at h
  split at h
  case isTrue => cases h
  case isFalse =>
    rw [hwidth] at h
    rw [packedFrom_append, ← hnext]
    split at h
    case h_1 behind hdot =>
      -- the precision begins where the width has stopped, one slot on for a star
      rw [hdot, lexPrecision]
      obtain ⟨hcount, haddsCount⟩ :=
        copyCount_adds call behind ((copyCount call text m).2.put ['.'])
      split at h
      case isTrue => cases h
      case isFalse =>
        cases h
        have hput := Marshaller.adds_put (copyCount call text m).2 ['.']
        exact ⟨hcount, haddsWidth.trans (hput.trans haddsCount)⟩
    case h_2 hdot =>
      cases h
      rw [lexPrecision_of_ne hdot]
      exact ⟨rfl, haddsWidth.trans (Marshaller.Adds.refl _)⟩

/-- The marshaller's table of modifiers lists those that printf has, and no others. -/
theorem isSome_modifierWide (sqliteDialect : Bool) (c : Char) :
    (modifierWide sqliteDialect c).isSome = isModifier sqliteDialect c := by
  have hletters : "hljtL".toList = ['h', 'l', 'j', 't', 'L'] ∧ "qz".toList = ['q', 'z'] := by
    decide
  unfold modifierWide isModifier
  rw [hletters.1, hletters.2]
  cases sqliteDialect <;> split_ifs <;> simp_all <;> grind

/-- The modifiers are dropped from the text; one wide one makes the directive wide. -/
theorem skipModifiers_eq (call : FormatCall) (text : Text) (wide : Bool) :
    skipModifiers call.sqliteDialect text wide =
      (wide || isWide call (text.takeWhile (isModifier call.sqliteDialect)),
        text.dropWhile (isModifier call.sqliteDialect)) := by
  induction text generalizing wide with
  | nil => simp [skipModifiers, isWide]
  | cons c text ih =>
      have hsome := isSome_modifierWide call.sqliteDialect c
      rw [skipModifiers]
      cases hwide : modifierWide call.sqliteDialect c with
      | none =>
          rw [hwide] at hsome
          have hno : ¬ isModifier call.sqliteDialect c = true := by rw [← hsome]; decide
          rw [List.takeWhile_cons_of_neg hno, List.dropWhile_cons_of_neg hno]
          simp [isWide]
      | some w =>
          rw [hwide] at hsome
          have hyes : isModifier call.sqliteDialect c = true := by rw [← hsome]; rfl
          rw [List.takeWhile_cons_of_pos hyes, List.dropWhile_cons_of_pos hyes]
          simp only [ih, isWide, List.any_cons, hwide, Option.some.injEq, Bool.decide_eq_true,
            Bool.or_assoc]

/-- The conversions that the marshaller accepts. -/
def Convertible (call : FormatCall) (conversion : Char) : Prop :=
  conversion ∈ integerConversions ++ (characterConversions ++ (doubleConversions ++
    (pointerConversions ++ ['m']))) ∨
  conversion ∈ sqliteConversions ∧ call.sqliteDialect = true

/-- Every conversion but `%m` takes a value. -/
theorem ne_m_of_mem {c : Char}
    (h : c ∈ integerConversions ∨ c ∈ characterConversions ∨ c ∈ doubleConversions ∨
      c ∈ sqliteConversions ∨ c ∈ pointerConversions) : c ≠ 'm' := by
  rintro rfl
  revert h
  decide

theorem keptModifiers_of_narrow {modifiers : Text} (h : isWide call modifiers = false)
    (conversion : Char) : keptModifiers call modifiers conversion = [] := by
  rw [keptModifiers, if_pos h]

theorem keptModifiers_of_wide {modifiers : Text} (h : isWide call modifiers = true)
    (conversion : Char) : keptModifiers call modifiers conversion =
      if conversion ∈ integerConversions then "ll".toList
      else if conversion ∈ characterConversions ∨ conversion = 's' then "l".toList
      else [] := by
  rw [keptModifiers, if_neg (by rw [h]; decide)]

/-- What is taken of a slot and put behind it. -/
theorem adds_take_put (m : Marshaller) (bytes : List UInt8) (kept : Text) (conversion : Char) :
    m.Adds (((m.take bytes).put kept).put [conversion]) (kept ++ [conversion]) [bytes] :=
  ((Marshaller.adds_take m bytes).trans (Marshaller.adds_put _ kept)).trans
    (Marshaller.adds_put _ [conversion])

theorem adds_take_put_nil (m : Marshaller) (bytes : List UInt8) (conversion : Char) :
    m.Adds ((m.take bytes).put [conversion]) ([] ++ [conversion]) [bytes] :=
  (Marshaller.adds_take m bytes).trans (Marshaller.adds_put _ [conversion])

/-- What the conversion itself adds: its kept modifiers and its letter, and its argument. -/
abbrev ConversionAdds (call : FormatCall) (m m' : Marshaller) (modifiers : Text)
    (conversion : Char) : Prop :=
  m.Adds m' (keptModifiers call modifiers conversion ++ [conversion])
    [Taker.packed call (call.arguments m.next) (.value modifiers conversion)]

section

variable {modifiers : Text} {conversion : Char}

/-- A wide integer takes eight bytes and `ll`, whatever its modifier was. -/
theorem integer_adds (hinteger : conversion ∈ integerConversions)
    (h : convert call (isWide call modifiers) conversion m = .ok m') :
    ConversionAdds call m m' modifiers conversion := by
  unfold ConversionAdds
  rw [convert, if_pos hinteger] at h
  rw [Taker.packed, if_pos hinteger]
  cases hwide : isWide call modifiers with
  | true =>
      rw [hwide] at h
      cases h
      rw [keptModifiers_of_wide hwide, if_pos hinteger]
      exact adds_take_put m _ _ conversion
  | false =>
      rw [hwide] at h
      cases h
      rw [keptModifiers_of_narrow hwide]
      exact adds_take_put_nil m _ conversion

/-- A character takes four bytes, wide or not; `l` is kept. -/
theorem character_adds (hinteger : conversion ∉ integerConversions)
    (hcharacter : conversion ∈ characterConversions)
    (h : convert call (isWide call modifiers) conversion m = .ok m') :
    ConversionAdds call m m' modifiers conversion := by
  unfold ConversionAdds
  rw [convert, if_neg hinteger, if_pos hcharacter] at h
  rw [Taker.packed, if_neg hinteger, if_pos hcharacter]
  cases hwide : isWide call modifiers with
  | true =>
      rw [hwide] at h
      cases h
      rw [keptModifiers_of_wide hwide, if_neg hinteger, if_pos rfl, if_pos (.inl hcharacter)]
      exact adds_take_put m _ _ conversion
  | false =>
      rw [hwide] at h
      cases h
      rw [keptModifiers_of_narrow hwide]
      exact adds_take_put_nil m _ conversion

/-- A double keeps no modifier. -/
theorem double_adds (hinteger : conversion ∉ integerConversions)
    (hcharacter : conversion ∉ characterConversions) (hdouble : conversion ∈ doubleConversions)
    (h : convert call (isWide call modifiers) conversion m = .ok m') :
    ConversionAdds call m m' modifiers conversion := by
  unfold ConversionAdds
  have hs : conversion ≠ 's' := by
    rintro rfl
    revert hdouble
    decide
  have hkept : keptModifiers call modifiers conversion = [] := by
    cases hwide : isWide call modifiers with
    | true =>
        rw [keptModifiers_of_wide hwide, if_neg hinteger, if_neg (not_or.mpr ⟨hcharacter, hs⟩)]
    | false => exact keptModifiers_of_narrow hwide conversion
  rw [convert, if_neg hinteger, if_neg hcharacter, if_pos hdouble] at h
  cases h
  rw [Taker.packed, if_neg hinteger, if_neg hcharacter, if_pos hdouble, hkept]
  exact adds_take_put_nil m _ conversion

/-- Of the pointers, only `%ls` keeps a modifier. -/
theorem pointer_adds (hinteger : conversion ∉ integerConversions)
    (hcharacter : conversion ∉ characterConversions) (hdouble : conversion ∉ doubleConversions)
    (h : (Except.ok ((if isWide call modifiers ∧ conversion = 's' then
        (m.take (toBytes 4 (pointerFor call (isWide call modifiers) conversion
          (call.arguments m.next)).toNat)).put ['l']
        else m.take (toBytes 4 (pointerFor call (isWide call modifiers) conversion
          (call.arguments m.next)).toNat)).put [conversion]) : Except FormatAbort Marshaller)
      = .ok m') :
    ConversionAdds call m m' modifiers conversion := by
  unfold ConversionAdds
  rw [Taker.packed, if_neg hinteger, if_neg hcharacter, if_neg hdouble]
  cases hwide : isWide call modifiers with
  | true =>
      rw [hwide] at h
      rw [keptModifiers_of_wide hwide, if_neg hinteger]
      by_cases hs : conversion = 's'
      · cases h
        rw [if_pos ⟨rfl, hs⟩, if_pos (.inr hs)]
        exact adds_take_put m _ _ conversion
      · cases h
        rw [if_neg (fun h => hs h.2), if_neg (not_or.mpr ⟨hcharacter, hs⟩)]
        exact adds_take_put_nil m _ conversion
  | false =>
      rw [hwide] at h
      cases h
      rw [keptModifiers_of_narrow hwide]
      exact adds_take_put_nil m _ conversion

theorem lt_of_shiftRight_eq_zero {slot : UInt64} (h : slot >>> 32 = 0) :
    slot.toNat < 2 ^ 32 := by
  have hshift : slot.toNat >>> 32 = 0 := by
    have := congrArg UInt64.toNat h
    rwa [UInt64.toNat_shiftRight] at this
  rw [Nat.shiftRight_eq_div_pow] at hshift
  omega

/-- **The step over a conversion**, one case for each group of conversions. -/
theorem convert_adds (h : convert call (isWide call modifiers) conversion m = .ok m') :
    Convertible call conversion ∧
      m.Adds m' (keptModifiers call modifiers conversion ++ [conversion])
        (packedFrom call m.next
          (if conversion = 'm' then [] else [.value modifiers conversion])) ∧
      PassedFrom call m.next (if conversion = 'm' then [] else [.value modifiers conversion]) := by
  have hvalue : conversion ≠ 'm' → ConversionAdds call m m' modifiers conversion →
      (Taker.value modifiers conversion).Passes (call.arguments m.next) →
      m.Adds m' (keptModifiers call modifiers conversion ++ [conversion])
        (packedFrom call m.next
          (if conversion = 'm' then [] else [.value modifiers conversion])) ∧
      PassedFrom call m.next
        (if conversion = 'm' then [] else [.value modifiers conversion]) := by
    intro hm hadds hpasses
    rw [if_neg hm]
    exact ⟨hadds, hpasses, trivial⟩
  unfold Convertible
  simp only [List.mem_append, List.mem_singleton]
  -- the groups in the marshaller's order: a letter is in the first that has it
  by_cases hinteger : conversion ∈ integerConversions
  · exact ⟨.inl (.inl hinteger),
      hvalue (ne_m_of_mem (.inl hinteger)) (integer_adds hinteger h) (.inl hinteger)⟩
  by_cases hcharacter : conversion ∈ characterConversions
  · exact ⟨.inl (.inr (.inl hcharacter)),
      hvalue (ne_m_of_mem (.inr (.inl hcharacter))) (character_adds hinteger hcharacter h)
        (.inr (.inl hcharacter))⟩
  by_cases hdouble : conversion ∈ doubleConversions
  · exact ⟨.inl (.inr (.inr (.inl hdouble))),
      hvalue (ne_m_of_mem (.inr (.inr (.inl hdouble))))
        (double_adds hinteger hcharacter hdouble h) (.inr (.inr (.inl hdouble)))⟩
  rw [convert, if_neg hinteger, if_neg hcharacter, if_neg hdouble] at h
  dsimp only at h
  split at h
  case isTrue => cases h
  case isFalse hdialect =>
    split at h
    case isTrue hstring =>
      have hm : conversion ≠ 'm' := ne_m_of_mem (.inr (.inr (.inr hstring)))
      split at h
      case isTrue => cases h
      case isFalse =>
        split at h
        case isTrue => cases h
        case isFalse habove =>
          refine ⟨?_, hvalue hm (pointer_adds hinteger hcharacter hdouble h)
            (.inr (.inr (.inr (lt_of_shiftRight_eq_zero (not_not.mp habove)))))⟩
          rcases hstring with hsqlite | hpointer
          · exact .inr ⟨hsqlite, by simpa using not_and.mp hdialect hsqlite⟩
          · exact .inl (.inr (.inr (.inr (.inl hpointer))))
    case isFalse =>
      split at h
      case isTrue hm =>
        -- `%m` prints what `errno` says, so it takes no argument
        cases h
        refine ⟨.inl (.inr (.inr (.inr (.inr hm)))), ?_⟩
        rw [if_pos hm, hm]
        have hkept : keptModifiers call modifiers 'm' = [] := by
          cases hwide : isWide call modifiers with
          | true => exact keptModifiers_of_wide hwide 'm'
          | false => exact keptModifiers_of_narrow hwide 'm'
        rw [hkept]
        exact ⟨Marshaller.adds_put m ['m'], trivial⟩
      case isFalse => cases h

end

/-! ## What is written is read again -/

/-- No convertible letter is another part of a directive. -/
theorem plain_of_convertible {c : Char} (h : Convertible call c) :
    Plain c ∧ isModifier call.sqliteDialect c = false ∧ c ≠ '%' := by
  have hletters : ∀ c ∈ integerConversions ++ (characterConversions ++ (doubleConversions ++
      (pointerConversions ++ ['m']))), (isFlag c = false ∧ c.isDigit = false ∧ c ≠ '*' ∧
        c ≠ '.') ∧ (∀ sqliteDialect, isModifier sqliteDialect c = false) ∧ c ≠ '%' :=
    List.all_iff_forall_prop.mp (by decide)
  have hsqlite : ∀ c ∈ sqliteConversions, (isFlag c = false ∧ c.isDigit = false ∧ c ≠ '*' ∧
        c ≠ '.') ∧ isModifier true c = false ∧ c ≠ '%' :=
    List.all_iff_forall_prop.mp (by decide)
  rcases h with h | ⟨h, hdialect⟩
  · obtain ⟨⟨hflag, hdigit, hstar, hdot⟩, hmodifier, hpercent⟩ := hletters c h
    exact ⟨⟨hflag, hdigit, hstar, hdot⟩, hmodifier _, hpercent⟩
  · obtain ⟨⟨hflag, hdigit, hstar, hdot⟩, hmodifier, hpercent⟩ := hsqlite c h
    exact ⟨⟨hflag, hdigit, hstar, hdot⟩, hdialect ▸ hmodifier, hpercent⟩

/-- What is kept are modifiers again, so the host skips them as such. -/
theorem isModifier_keptModifiers (modifiers : Text) (conversion : Char) :
    ∀ c ∈ keptModifiers call modifiers conversion, isModifier call.sqliteDialect c = true := by
  have hl : ∀ c ∈ "ll".toList ++ "l".toList, ∀ sqliteDialect,
      isModifier sqliteDialect c = true := List.all_iff_forall_prop.mp (by decide)
  intro c hc
  unfold keptModifiers at hc
  split_ifs at hc
  · cases hc
  · exact hl c (List.mem_append_left _ hc) _
  · exact hl c (List.mem_append_right _ hc) _
  · cases hc

/-- A directive that the marshaller accepts. -/
structure Accepts (call : FormatCall) (text rest : Text) (d : Directive) : Prop where
  lexes : lexDirective call.sqliteDialect text = some (d, rest)
  convertible : Convertible call d.conversion

namespace Accepts

variable {rest : Text} {d : Directive}

theorem length_lt (h : Accepts call text rest d) : rest.length < text.length := by
  rw [← lexDirective_body h.lexes, List.length_append]
  have hpos := length_body_pos d
  omega

/-- It does not begin with a percent, which would be its conversion. -/
theorem head (h : Accepts call text rest d) : text.head? ≠ some '%' := by
  obtain ⟨-, -, hpercent⟩ := plain_of_convertible h.convertible
  intro hhead
  obtain ⟨behind, rfl⟩ : ∃ behind, text = '%' :: behind := by
    cases text with
    | nil => cases hhead
    | cons c behind => exact ⟨behind, by rw [Option.some.inj hhead]⟩
  have hlex : lexDirective call.sqliteDialect ('%' :: behind) =
      some (⟨[], .digits [], none, [], '%'⟩, behind) := by
    rw [lexDirective_eq]
    cases call.sqliteDialect <;> rfl
  have hd := h.lexes
  rw [hlex] at hd
  cases hd
  exact hpercent rfl

/-- **What is written for it is read as the directive that was meant**, in front of any text. -/
theorem produced (h : Accepts call text rest d) (tail : Text) :
    Accepts call ((d.produced call).body ++ tail) tail (d.produced call) := by
  obtain ⟨hplain, hlast, -⟩ := plain_of_convertible h.convertible
  have hd := lexDirective_lexes h.lexes hplain hlast
  refine ⟨lexDirective_append ?_ tail, h.convertible⟩
  exact { hd with modifiers := isModifier_keptModifiers d.modifiers d.conversion }

end Accepts

/-! ## The directives, one after the other -/

/-- **The step over a directive**: what is read of it is written for the host. -/
theorem marshalDirective_adds {rest : Text}
    (h : marshalDirective call text m = .ok (rest, m')) :
    ∃ d, Accepts call text rest d ∧
      m.Adds m' ('%' :: (d.produced call).body) (packedFrom call m.next d.takers) ∧
      PassedFrom call m.next d.takers := by
  obtain ⟨hflags, haddsFlags⟩ := copyWhile_adds isFlag text (m.put ['%'])
  have hput := (Marshaller.adds_put m ['%']).trans haddsFlags
  have hnextFlags : (copyWhile isFlag text (m.put ['%'])).2.next = m.next := hput.next
  rw [marshalDirective] at h
  obtain ⟨⟨counted, counts⟩, hparts, h⟩ := Fallible.bind_eq_ok h
  obtain ⟨hcounted, haddsParts⟩ := copyParts_adds hparts
  have hnextParts := haddsParts.next
  rw [length_packedFrom, hnextFlags] at hnextParts
  rw [hnextFlags] at haddsParts
  rw [hflags] at hcounted haddsParts hnextParts
  dsimp only at h
  rw [skipModifiers_eq, Bool.false_or] at h
  cases hbehind : counted.dropWhile (isModifier call.sqliteDialect) with
  | nil =>
      rw [hbehind] at h
      cases h
  | cons conversion behind =>
      rw [hbehind] at h
      obtain ⟨m1, hconvert, h⟩ := Fallible.map_eq_ok h
      cases h
      obtain ⟨hconvertible, haddsConversion, hpassed⟩ := convert_adds hconvert
      rw [hnextParts] at haddsConversion hpassed
      refine ⟨_, ⟨by rw [lexDirective_eq, ← hcounted, hbehind], hconvertible⟩, ?_, ?_⟩
      · rw [Directive.body, Directive.takers, packedFrom_append]
        exact hput.trans (haddsParts.trans haddsConversion)
      · refine allFrom_append (allFrom_of_forall fun slot t ht => ?_) hpassed
        -- a width and a precision have no arguments but stars
        rw [star_of_mem_counts ht]
        trivial

/-- The loop ends: behind each step there is less text. -/
theorem isSome_marshalLoop {fuel : Nat} (hfuel : text.length < fuel) :
    (marshalLoop call fuel text m).isSome := by
  fun_induction marshalLoop call fuel text m with
  | case1 => omega
  | case2 => rfl
  | case3 fuel text m ih =>
      apply ih
      simp only [List.length_cons] at hfuel
      omega
  | case4 fuel text m _ rest m' hdirective ih =>
      obtain ⟨d, haccepts, -, -⟩ := marshalDirective_adds hdirective
      have hlength := haccepts.length_lt
      apply ih
      simp only [List.length_cons] at hfuel
      omega
  | case5 => rfl
  | case6 fuel c text m _ _ ih =>
      apply ih
      simp only [List.length_cons] at hfuel
      omega

/-- **The run over a text**: its directives are written for the host one after the other. -/
theorem marshalLoop_adds {fuel : Nat} (h : marshalLoop call fuel text m = some (.ok m')) :
    ∃ ds produced, Scans call.sqliteDialect text ds ∧
      Scans call.sqliteDialect produced (ds.map (Directive.produced call)) ∧
      m.Adds m' produced (packedFrom call m.next (ds.flatMap Directive.takers)) ∧
      PassedFrom call m.next (ds.flatMap Directive.takers) := by
  fun_induction marshalLoop call fuel text m with
  | case1 => cases h
  | case2 =>
      cases h
      exact ⟨[], [], .done, .done, Marshaller.Adds.refl _, trivial⟩
  | case3 fuel text m ih =>
      obtain ⟨ds, produced, hscans, hproduced, hadds, hpassed⟩ := ih h
      exact ⟨ds, _, .percent hscans, .percent hproduced,
        (Marshaller.adds_put m "%%".toList).trans hadds, hpassed⟩
  | case4 fuel text m hpercent rest m1 hdirective ih =>
      obtain ⟨d, haccepts, haddsDirective, hpassedDirective⟩ := marshalDirective_adds hdirective
      obtain ⟨ds, produced, hscans, hproduced, hadds, hpassed⟩ := ih h
      -- the directive is read in front of whatever the rest has produced
      have hread := haccepts.produced produced
      refine ⟨d :: ds, _, .directive haccepts.head haccepts.lexes hscans,
        .directive hread.head hread.lexes hproduced, ?_⟩
      have hnext := haddsDirective.next
      rw [length_packedFrom] at hnext
      rw [hnext] at hadds hpassed
      rw [List.flatMap_cons, packedFrom_append]
      exact ⟨haddsDirective.trans hadds, allFrom_append hpassedDirective hpassed⟩
  | case5 => cases h
  | case6 fuel c text m _ hc ih =>
      obtain ⟨ds, produced, hscans, hproduced, hadds, hpassed⟩ := ih h
      exact ⟨ds, c :: produced, .literal hc hscans, .literal hc hproduced,
        (Marshaller.adds_put m [c]).trans hadds, hpassed⟩

/-! ## What the host reads -/

/-- Width and precision are passed on as stars; only the value's modifiers change. -/
theorem takers_produced (d : Directive) :
    (d.produced call).takers = d.takers.map (Taker.produced call) := by
  have hcount : ∀ count : Count, count.takers.map (Taker.produced call) = count.takers := by
    intro count
    cases count <;> rfl
  have hprecision : (precisionTakers d.precision).map (Taker.produced call)
      = precisionTakers d.precision := by
    cases hp : d.precision with
    | none => rfl
    | some count => exact hcount count
  rw [Directive.takers, Directive.takers, List.map_append, List.map_append, hprecision, hcount]
  show _ ++ (if d.conversion = 'm' then [] else _) = _
  by_cases hm : d.conversion = 'm'
  · rw [if_pos hm, if_pos hm]
    rfl
  · rw [if_neg hm, if_neg hm]
    rfl

/-- What is written has the size that the host reads. -/
theorem length_packed (call : FormatCall) (t : Taker) (slot : UInt64) :
    (t.packed call slot).length = (t.produced call).hostSize := by
  have hapart : ∀ c ∈ characterConversions, c ∉ doubleConversions :=
    List.all_iff_forall_prop.mp (by decide)
  cases t with
  | star => exact length_toBytes 4 _
  | value modifiers conversion =>
      show _ = Taker.hostSize (.value (keptModifiers call modifiers conversion) conversion)
      rw [Taker.packed, Taker.hostSize]
      unfold slotBytes
      by_cases hinteger : conversion ∈ integerConversions
      · rw [if_pos hinteger, if_pos hinteger, length_toBytes]
        cases hwide : isWide call modifiers with
        | true =>
            rw [keptModifiers_of_wide hwide, if_pos hinteger]
            rfl
        | false =>
            rw [keptModifiers_of_narrow hwide]
            rfl
      rw [if_neg hinteger, if_neg hinteger]
      by_cases hcharacter : conversion ∈ characterConversions
      · rw [if_pos hcharacter, if_neg (hapart conversion hcharacter), length_toBytes]
      rw [if_neg hcharacter]
      by_cases hdouble : conversion ∈ doubleConversions
      · rw [if_pos hdouble, if_pos hdouble, length_toBytes]
      · rw [if_neg hdouble, if_neg hdouble, length_toBytes]

/-- **The walk over the buffer** reads what was written, from where it was written. -/
theorem hostReads_packedFrom (ts : List Taker) (slot offset : Nat) :
    hostReads (ts.map (Taker.produced call)) offset (packedFrom call slot ts).flatten
      = some ((writes slot offset (packedFrom call slot ts)).map fun w =>
          (w.offset, w.bytes)) := by
  induction ts generalizing slot offset with
  | nil => rfl
  | cons t ts ih =>
      have hlength := length_packed call t (call.arguments slot)
      rw [List.map_cons, packedFrom, List.flatten_cons, hostReads, ← hlength,
        if_neg (by rw [List.length_append]; omega), List.take_left, List.drop_left, ih,
        Option.map_some, writes, List.map_cons]

theorem bytes_writes (slot offset : Nat) (bs : List (List UInt8)) :
    (writes slot offset bs).map Write.bytes = bs := by
  induction bs generalizing slot offset with
  | nil => rfl
  | cons b bs ih => rw [writes, List.map_cons, ih]

theorem takers_map_produced (ds : List Directive) :
    (ds.map (Directive.produced call)).flatMap Directive.takers
      = (ds.flatMap Directive.takers).map (Taker.produced call) := by
  rw [List.flatMap_map, List.map_flatMap]
  exact congrArg (ds.flatMap ·) (funext takers_produced)

/-- What the marshaller has at the end. -/
structure Ends (call : FormatCall) (text : Text) (m : Marshaller) (ds : List Directive) :
    Prop where
  scans : Scans call.sqliteDialect text ds
  produced : Scans call.sqliteDialect (m.format call.objectFormat).text
    (ds.map (Directive.produced call))
  next : m.next = (ds.flatMap Directive.takers).length
  written : m.written = writes 0 0 (packedFrom call 0 (ds.flatMap Directive.takers))
  arguments : (m.format call.objectFormat).arguments
    = (packedFrom call 0 (ds.flatMap Directive.takers)).flatten
  passed : PassedFrom call 0 (ds.flatMap Directive.takers)

theorem xlFormatMarshal_ends (h : xlFormatMarshal call text = some (.ok m)) :
    ∃ ds, Ends call text m ds := by
  obtain ⟨result, hloop, hresult⟩ := Option.map_eq_some_iff.mp h
  obtain ⟨m1, rfl, rfl⟩ := Fallible.map_eq_ok hresult
  obtain ⟨ds, produced, hscans, hproduced, hadds, hpassed⟩ := marshalLoop_adds hloop
  have hout : m1.out.data = produced := hadds.out
  refine ⟨ds, hscans, ?_, ?_, hadds.written, ?_, hpassed⟩
  · show Scans _ m1.out.data _
    rw [hout]
    exact hproduced
  · show m1.next = _
    rw [hadds.next, length_packedFrom]
    exact Nat.zero_add _
  · show m1.args.data ++ [] = _
    rw [List.append_nil]
    exact hadds.args

end

/-- **Text and arguments stay in step.** The marshaller ends on every text. Where it accepts the
text, each argument of its directives takes the next slot of the guest and is written; and the
host, which walks over the arguments of the produced text, reads from the buffer each thing that
was written, from where it was written, up to the end. -/
theorem format_in_step (call : FormatCall) (text : Text) :
    ∃ result, xlFormatMarshal call text = some result ∧
      ∀ m, result = .ok m → ∃ ds hostDs,
        Scans call.sqliteDialect text ds ∧
        Scans call.sqliteDialect (m.format call.objectFormat).text hostDs ∧
        m.next = (ds.flatMap Directive.takers).length ∧
        m.written.map Write.slot = List.range m.next ∧
        m.written.map Write.bytes = packedFrom call 0 (ds.flatMap Directive.takers) ∧
        hostReads (hostDs.flatMap Directive.takers) 0 (m.format call.objectFormat).arguments
          = some (m.written.map fun w => (w.offset, w.bytes)) := by
  have hsome : (marshalLoop call (text.length + 1) text (Marshaller.put {} [])).isSome :=
    isSome_marshalLoop (Nat.lt_succ_self text.length)
  obtain ⟨result, hloop⟩ := Option.isSome_iff_exists.mp hsome
  have hresult : xlFormatMarshal call text
      = some (result.map fun m => { m with args := xlAppend m.args [] }) := by
    rw [xlFormatMarshal, hloop, Option.map_some]
  refine ⟨_, hresult, ?_⟩
  intro m hm
  rw [hm] at hresult
  obtain ⟨ds, hends⟩ := xlFormatMarshal_ends hresult
  refine ⟨ds, ds.map (Directive.produced call), hends.scans, hends.produced, hends.next, ?_, ?_, ?_⟩
  · rw [hends.written, slots_writes, length_packedFrom, hends.next, List.range_eq_range']
  · rw [hends.written, bytes_writes]
  · rw [takers_map_produced, hends.arguments, hends.written, hostReads_packedFrom]

end Katabasis
