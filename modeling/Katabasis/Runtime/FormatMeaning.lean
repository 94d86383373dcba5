import Katabasis.Lib.CIntegers
import Katabasis.Runtime.FormatWalk

set_option autoImplicit false

/-! # What the arguments say

The value that printf sees in an argument (`Meaning`): on the guest, in the slot, and on the host,
in the bytes that were written for it. The guest's integers are of the width that the modifiers
prescribe; a null string is a text of the library's own.

**`keepsMeaning_iff`**: the values are the same, but for an integer narrowed by `h` whose slot holds
more than fits, since the modifier is dropped; a null `%s` of SQLite's printf, which prints nothing
for it on the guest; and a null `%S` of libc's, which reads units of four bytes.
-/

namespace Katabasis

open LittleEndian CIntegers

/-! ## Strings -/

/-- A text in units of so many bytes, with its terminator. -/
def textBytes (size : Nat) (text : Text) : List UInt8 :=
  (text ++ [Char.ofNat 0]).flatMap fun c => toBytes size c.toNat

/-- The units up to the terminator; without an answer where the bytes end before it. -/
def readUnits (size : Nat) : Nat → List UInt8 → Option (List Nat)
  | 0, _ => none
  | fuel + 1, bytes =>
      if bytes.length < size then none
      else
        let unit := ofBytes (bytes.take size)
        if unit = 0 then some []
        else (readUnits size fuel (bytes.drop size)).map fun units => unit :: units

def nullText : Text := "(null)".toList

/-- What printf sees in an argument; of a string that the program passes, its address. -/
inductive Meaning
  | integer (value : Int)
  | character (wide : Bool) (value : Int)
  | double (bits : Nat)
  | address (pointer : Nat)
  | text (units : List Nat)
  | overrun
  deriving DecidableEq, Repr

namespace FormatCall

variable (call : FormatCall)

/-- What a null string prints on the guest. -/
def nullMeaning : Meaning :=
  .text (if call.sqliteDialect then [] else nullText.map Char.toNat)

/-- The units of a string: bytes, the units of Foundation's `%S`, or those of `wchar_t`. SQLite's
printf has no wide strings, and no `%S` at all. -/
def stringUnit (wide : Bool) (conversion : Char) : Option Nat :=
  if conversion = 'S' then
    if call.sqliteDialect then none
    else if call.objectFormat then some 2
    else some 4
  else if wide && !call.sqliteDialect then some 4
  else some 1

/-- The bytes of a static text. -/
def staticBytes (pointer : Nat) : Option (List UInt8) :=
  if pointer = call.nullTexts.utf8.toNat then some (textBytes 1 nullText)
  else if pointer = call.nullTexts.utf16.toNat then some (textBytes 2 nullText)
  else if pointer = call.nullTexts.wide.toNat then some (textBytes 4 nullText)
  else none

/-- What is read in such units at an address that is not null. -/
def stringMeaning (unit : Option Nat) (pointer : Nat) : Meaning :=
  match call.staticBytes pointer with
  | none => .address pointer
  | some bytes =>
      match unit with
      | none => .text []
      | some size => ((readUnits size bytes.length bytes).map .text).getD .overrun

end FormatCall

/-! ## The two readings -/

def isSigned (conversion : Char) : Bool := "diD".toList.contains conversion

/-- The guest's modifiers of 64 bits. -/
def isLong (sqliteDialect : Bool) (modifiers : Text) : Bool :=
  modifiers.any fun c => "ljt".toList.contains c || !sqliteDialect && "qz".toList.contains c

/-- The width of an integer without a long modifier: a second `h` makes a `char` of a `short`. -/
def shortBits (modifiers : Text) : Nat :=
  if 'h' ∉ modifiers then 32 else if modifiers.count 'h' % 2 = 1 then 16 else 8

section

variable (call : FormatCall)

/-- What the guest's printf sees in a slot. -/
def Taker.guestMeaning (slot : UInt64) : Taker → Meaning
  | star => .integer (wrap true 32 slot.toNat)
  | value modifiers conversion =>
      let long := isLong call.sqliteDialect modifiers
      if conversion ∈ integerConversions then
        .integer (wrap (isSigned conversion) (if long then 64 else shortBits modifiers) slot.toNat)
      else if conversion ∈ characterConversions then
        .character (long || conversion == 'C') (wrap true 32 slot.toNat)
      else if conversion ∈ doubleConversions then .double slot.toNat
      else if conversion = 's' ∨ conversion = 'S' then
        if slot = 0 then call.nullMeaning
        else call.stringMeaning (call.stringUnit long conversion) slot.toNat
      else .address slot.toNat

/-- What the host's printf sees in the bytes that it reads; its `long` has 32 bits. -/
def Taker.hostMeaning (bytes : List UInt8) : Taker → Meaning
  | star => .integer (wrap true 32 (ofBytes bytes))
  | value modifiers conversion =>
      if conversion ∈ integerConversions then
        let long := 2 ≤ modifiers.count 'l' ∨ 'q' ∈ modifiers ∨ 'j' ∈ modifiers
        .integer (wrap (isSigned conversion) (if long then 64 else shortBits modifiers)
          (ofBytes bytes))
      else if conversion ∈ characterConversions then
        .character (modifiers.contains 'l' || conversion == 'C') (wrap true 32 (ofBytes bytes))
      else if conversion ∈ doubleConversions then .double (ofBytes bytes)
      else if conversion = 's' ∨ conversion = 'S' then
        call.stringMeaning (call.stringUnit (modifiers.contains 'l') conversion) (ofBytes bytes)
      else .address (ofBytes bytes)

def guestMeanings : Nat → List Taker → List Meaning
  | _, [] => []
  | slot, t :: ts => t.guestMeaning call (call.arguments slot) :: guestMeanings (slot + 1) ts

def hostMeanings : List Taker → List (List UInt8) → List Meaning :=
  List.zipWith fun t bytes => t.hostMeaning call bytes

/-- The host sees in its arguments what the guest sees in the slots. -/
def KeepsMeaning (m : Marshaller) (ds hostDs : List Directive) : Prop :=
  (hostReads (hostDs.flatMap Directive.takers) 0 (m.format call.objectFormat).arguments).map
      (fun reads => hostMeanings call (hostDs.flatMap Directive.takers) (reads.map Prod.snd))
    = some (guestMeanings call 0 (ds.flatMap Directive.takers))

/-- An argument that is marshalled as it is meant. -/
def Taker.Kept (slot : UInt64) : Taker → Prop
  | star => True
  | value modifiers conversion =>
      if conversion ∈ integerConversions then
        isLong call.sqliteDialect modifiers = true ∨
          InRange (isSigned conversion) (shortBits modifiers)
            (wrap (isSigned conversion) 32 slot.toNat)
      else if conversion = 's' then call.sqliteDialect = true → slot ≠ 0
      else if conversion = 'S' then
        call.sqliteDialect = false → call.objectFormat = false → slot ≠ 0
      else True

end

/-! ## Numbers -/

section

variable {call : FormatCall} {modifiers : Text} {conversion : Char}

theorem modifierWide_eq_some_true (sqliteDialect : Bool) (c : Char) :
    decide (modifierWide sqliteDialect c = some true) =
      ("ljt".toList.contains c || !sqliteDialect && "qz".toList.contains c) := by
  have hletters : "ljt".toList = ['l', 'j', 't'] ∧ "qz".toList = ['q', 'z'] := by decide
  unfold modifierWide
  rw [hletters.1, hletters.2]
  cases sqliteDialect <;> split_ifs <;> grind

theorem isWide_eq_isLong (call : FormatCall) (modifiers : Text) :
    isWide call modifiers = isLong call.sqliteDialect modifiers :=
  congrArg (List.any modifiers ·) (funext (modifierWide_eq_some_true call.sqliteDialect))

/-- The low bytes of a slot say its value modulo their power. -/
theorem wrap_slotBytes (signed : Bool) (bits n : Nat) (h : 2 ^ bits = 256 ^ n) (slot : UInt64) :
    wrap signed bits (ofBytes (slotBytes n slot)) = wrap signed bits slot.toNat := by
  apply wrap_congr
  rw [slotBytes, ofBytes_toBytes, ← h]
  push_cast
  exact Int.emod_emod_of_dvd _ (dvd_refl _)

theorem ofBytes_slotBytes_eight (slot : UInt64) : ofBytes (slotBytes 8 slot) = slot.toNat := by
  rw [slotBytes, ofBytes_toBytes]
  exact Nat.mod_eq_of_lt slot.toNat_lt

theorem contains_keptModifiers (hc : conversion ∉ integerConversions)
    (hl : conversion ∈ characterConversions ∨ conversion = 's') :
    (keptModifiers call modifiers conversion).contains 'l'
      = isLong call.sqliteDialect modifiers := by
  rw [← isWide_eq_isLong]
  cases hwide : isWide call modifiers with
  | true =>
      rw [keptModifiers_of_wide hwide, if_neg hc, if_pos hl]
      rfl
  | false =>
      rw [keptModifiers_of_narrow hwide]
      rfl

theorem shortBits_mem (modifiers : Text) : 0 < shortBits modifiers ∧ shortBits modifiers ≤ 32 := by
  unfold shortBits
  split_ifs <;> decide

/-- **An integer** is the same where its slot has a long modifier, or holds what fits. -/
theorem integer_kept (slot : UInt64) (hinteger : conversion ∈ integerConversions) :
    ((Taker.value modifiers conversion).produced call).hostMeaning call
        ((Taker.value modifiers conversion).packed call slot)
      = (Taker.value modifiers conversion).guestMeaning call slot ↔
    (Taker.value modifiers conversion).Kept call slot := by
  rw [Taker.produced, Taker.hostMeaning, Taker.packed, Taker.guestMeaning, Taker.Kept]
  dsimp only
  rw [if_pos hinteger, if_pos hinteger, if_pos hinteger, if_pos hinteger, isWide_eq_isLong,
    Meaning.integer.injEq]
  cases hlong : isLong call.sqliteDialect modifiers with
  | true =>
      rw [keptModifiers_of_wide (isWide_eq_isLong call modifiers ▸ hlong), if_pos hinteger]
      have height := wrap_slotBytes (isSigned conversion) 64 8 rfl slot
      exact iff_of_true height (.inl rfl)
  | false =>
      rw [keptModifiers_of_narrow (isWide_eq_isLong call modifiers ▸ hlong)]
      have hfour := wrap_slotBytes (isSigned conversion) 32 4 rfl slot
      have hbits := shortBits_mem modifiers
      show wrap (isSigned conversion) 32 (ofBytes (slotBytes 4 slot)) = _ ↔ _
      rw [hfour]
      show wrap _ 32 _ = wrap _ (shortBits modifiers) _ ↔ _
      rw [eq_comm, wrap_eq_wrap_iff hbits.1 hbits.2, or_iff_right Bool.false_ne_true]

theorem character_kept (slot : UInt64) (hinteger : conversion ∉ integerConversions)
    (hcharacter : conversion ∈ characterConversions) :
    ((Taker.value modifiers conversion).produced call).hostMeaning call
        ((Taker.value modifiers conversion).packed call slot)
      = (Taker.value modifiers conversion).guestMeaning call slot := by
  rw [Taker.produced, Taker.hostMeaning, Taker.packed, Taker.guestMeaning]
  dsimp only
  rw [if_neg hinteger, if_neg hinteger, if_neg hinteger, if_pos hcharacter, if_pos hcharacter,
    if_pos hcharacter, contains_keptModifiers hinteger (.inl hcharacter),
    wrap_slotBytes true 32 4 rfl]

theorem double_kept (slot : UInt64) (hinteger : conversion ∉ integerConversions)
    (hcharacter : conversion ∉ characterConversions) (hdouble : conversion ∈ doubleConversions) :
    ((Taker.value modifiers conversion).produced call).hostMeaning call
        ((Taker.value modifiers conversion).packed call slot)
      = (Taker.value modifiers conversion).guestMeaning call slot := by
  rw [Taker.produced, Taker.hostMeaning, Taker.packed, Taker.guestMeaning]
  dsimp only
  rw [if_neg hinteger, if_neg hinteger, if_neg hinteger, if_neg hcharacter, if_neg hcharacter,
    if_neg hcharacter, if_pos hdouble, if_pos hdouble, if_pos hdouble, ofBytes_slotBytes_eight]

/-! ## Strings and pointers -/

theorem ofBytes_toBytes_four (pointer : UInt32) :
    ofBytes (toBytes 4 pointer.toNat) = pointer.toNat := by
  rw [ofBytes_toBytes]
  exact Nat.mod_eq_of_lt pointer.toNat_lt

theorem toNat_toUInt32 {slot : UInt64} (h : slot.toNat < 2 ^ 32) :
    slot.toUInt32.toNat = slot.toNat := by
  rw [UInt64.toNat_toUInt32]
  exact Nat.mod_eq_of_lt h

theorem toUInt32_eq_zero_iff {slot : UInt64} (h : slot.toNat < 2 ^ 32) :
    slot.toUInt32 = 0 ↔ slot = 0 := by
  rw [← UInt32.toNat_inj, ← UInt64.toNat_inj, toNat_toUInt32 h]
  rfl

/-- A pointer that is not null, or not of a string, is written as it is. -/
theorem pointerFor_of_ne {wide : Bool} {slot : UInt64}
    (h : slot.toUInt32 = 0 → ¬ (conversion = 's' ∨ conversion = 'S')) :
    pointerFor call wide conversion slot = slot.toUInt32 := by
  rw [pointerFor, if_neg (not_and.mpr h)]

theorem pointerFor_null {wide : Bool} (h : conversion = 's' ∨ conversion = 'S') :
    pointerFor call wide conversion 0 =
      if conversion = 'S' then call.nullTexts.utf16
      else if wide then call.nullTexts.wide else call.nullTexts.utf8 := by
  rw [pointerFor, if_pos ⟨rfl, h⟩]

/-- Each static text is read in its own units. -/
theorem readUnits_nullText : ∀ size ∈ [1, 2, 4],
    readUnits size (textBytes size nullText).length (textBytes size nullText)
      = some (nullText.map Char.toNat) := by decide

/-- As bytes, the text of `wchar_t` ends behind its first character. -/
theorem readUnits_wide_as_bytes :
    readUnits 1 (textBytes 4 nullText).length (textBytes 4 nullText) = some [40] := by decide

/-- In units of four bytes, the text of two-byte units has no terminator. -/
theorem readUnits_utf16_as_wide :
    readUnits 4 (textBytes 2 nullText).length (textBytes 2 nullText) = none := by decide

theorem staticBytes_utf8 (call : FormatCall) :
    call.staticBytes call.nullTexts.utf8.toNat = some (textBytes 1 nullText) := if_pos rfl

theorem staticBytes_utf16 (call : FormatCall) :
    call.staticBytes call.nullTexts.utf16.toNat = some (textBytes 2 nullText) := by
  obtain ⟨h816, -, -⟩ := call.nullTexts.apart
  rw [FormatCall.staticBytes, if_neg (fun h => h816 (UInt32.toNat_inj.mp h).symm), if_pos rfl]

theorem staticBytes_wide (call : FormatCall) :
    call.staticBytes call.nullTexts.wide.toNat = some (textBytes 4 nullText) := by
  obtain ⟨-, h8w, h16w⟩ := call.nullTexts.apart
  rw [FormatCall.staticBytes, if_neg (fun h => h8w (UInt32.toNat_inj.mp h).symm),
    if_neg (fun h => h16w (UInt32.toNat_inj.mp h).symm), if_pos rfl]

/-- The host reads a string in the units that the guest means. -/
theorem stringUnit_kept (h : conversion = 's' ∨ conversion = 'S') :
    call.stringUnit ((keptModifiers call modifiers conversion).contains 'l') conversion
      = call.stringUnit (isLong call.sqliteDialect modifiers) conversion := by
  rcases h with rfl | rfl
  · rw [contains_keptModifiers (by decide) (.inr rfl)]
  · rfl

theorem stringMeaning_static {pointer size : Nat} {bytes : List UInt8}
    (h : call.staticBytes pointer = some bytes) :
    call.stringMeaning (some size) pointer
      = ((readUnits size bytes.length bytes).map .text).getD .overrun := by
  rw [FormatCall.stringMeaning, h]

theorem nullMeaning_of_sqlite (h : call.sqliteDialect = true) :
    call.nullMeaning = .text [] := by
  rw [FormatCall.nullMeaning, if_pos h]

theorem nullMeaning_of_not_sqlite (h : call.sqliteDialect = false) :
    call.nullMeaning = .text (nullText.map Char.toNat) := by
  rw [FormatCall.nullMeaning, if_neg (by rw [h]; decide)]

/-- **A null `%s`** is read as the guest's library prints it, but for SQLite's printf. -/
theorem null_kept_narrow (call : FormatCall) (long : Bool) :
    call.stringMeaning (call.stringUnit long 's') (pointerFor call long 's' 0).toNat
      = call.nullMeaning ↔ call.sqliteDialect = false := by
  have hunit : call.stringUnit long 's' = if long && !call.sqliteDialect then some 4 else some 1 :=
    if_neg (by decide)
  rw [pointerFor_null (.inl rfl), if_neg (by decide), hunit]
  cases hsqlite : call.sqliteDialect with
  | true =>
      -- the units are bytes, of which there is at least one
      rw [nullMeaning_of_sqlite hsqlite, Bool.not_true, Bool.and_false, if_neg Bool.false_ne_true]
      refine iff_of_false ?_ (by decide)
      cases long with
      | true =>
          rw [if_pos rfl, stringMeaning_static (staticBytes_wide call), readUnits_wide_as_bytes]
          exact fun h => nomatch Meaning.text.inj h
      | false =>
          rw [if_neg Bool.false_ne_true, stringMeaning_static (staticBytes_utf8 call),
            readUnits_nullText 1 (by decide)]
          exact fun h => nomatch Meaning.text.inj h
  | false =>
      rw [nullMeaning_of_not_sqlite hsqlite, Bool.not_false, Bool.and_true]
      refine iff_of_true ?_ rfl
      cases long with
      | true =>
          rw [if_pos rfl, if_pos rfl, stringMeaning_static (staticBytes_wide call),
            readUnits_nullText 4 (by decide)]
          rfl
      | false =>
          rw [if_neg Bool.false_ne_true, if_neg Bool.false_ne_true,
            stringMeaning_static (staticBytes_utf8 call), readUnits_nullText 1 (by decide)]
          rfl

/-- **A null `%S`** is, but for libc's printf. -/
theorem null_kept_wide (call : FormatCall) (long : Bool) :
    call.stringMeaning (call.stringUnit long 'S') (pointerFor call long 'S' 0).toNat
      = call.nullMeaning ↔ (call.sqliteDialect = false → call.objectFormat = true) := by
  rw [pointerFor_null (.inr rfl), if_pos rfl, FormatCall.stringUnit, if_pos rfl]
  cases hsqlite : call.sqliteDialect with
  | true =>
      rw [nullMeaning_of_sqlite hsqlite, if_pos rfl, FormatCall.stringMeaning, staticBytes_utf16]
      exact iff_of_true rfl fun h => absurd h (by decide)
  | false =>
      rw [nullMeaning_of_not_sqlite hsqlite, if_neg Bool.false_ne_true]
      cases hobject : call.objectFormat with
      | true =>
          rw [if_pos rfl, stringMeaning_static (staticBytes_utf16 call),
            readUnits_nullText 2 (by decide)]
          exact iff_of_true rfl fun _ => rfl
      | false =>
          rw [if_neg Bool.false_ne_true, stringMeaning_static (staticBytes_utf16 call),
            readUnits_utf16_as_wide]
          exact iff_of_false (fun h => nomatch h) fun h => absurd (h rfl) (by decide)

theorem string_apart (h : conversion = 's' ∨ conversion = 'S') :
    conversion ∉ integerConversions ∧ conversion ∉ characterConversions ∧
      conversion ∉ doubleConversions := by
  rcases h with rfl | rfl <;> decide

theorem below_of_passes {slot : UInt64} (h : (Taker.value modifiers conversion).Passes slot)
    (hinteger : conversion ∉ integerConversions) (hcharacter : conversion ∉ characterConversions)
    (hdouble : conversion ∉ doubleConversions) : slot.toNat < 2 ^ 32 := by
  rcases h with h | h | h | h
  · exact absurd h hinteger
  · exact absurd h hcharacter
  · exact absurd h hdouble
  · exact h

/-- **A string** is the same, but for those null strings. -/
theorem string_kept {slot : UInt64} (hslot : slot.toNat < 2 ^ 32)
    (h : conversion = 's' ∨ conversion = 'S') :
    ((Taker.value modifiers conversion).produced call).hostMeaning call
        ((Taker.value modifiers conversion).packed call slot)
      = (Taker.value modifiers conversion).guestMeaning call slot ↔
    (Taker.value modifiers conversion).Kept call slot := by
  obtain ⟨hinteger, hcharacter, hdouble⟩ := string_apart h
  rw [Taker.produced, Taker.hostMeaning, Taker.packed, Taker.guestMeaning, Taker.Kept]
  dsimp only
  rw [if_neg hinteger, if_neg hinteger, if_neg hinteger, if_neg hinteger, if_neg hcharacter,
    if_neg hcharacter, if_neg hcharacter, if_neg hdouble, if_neg hdouble, if_neg hdouble, if_pos h,
    if_pos h, stringUnit_kept h, isWide_eq_isLong, ofBytes_toBytes_four]
  by_cases hnull : slot = 0
  · subst hnull
    rw [if_pos rfl]
    rcases h with rfl | rfl
    · rw [null_kept_narrow, if_pos rfl]
      simp
    · rw [null_kept_wide, if_neg (by decide), if_pos rfl]
      simp
  · have hpointer : slot.toUInt32 = 0 → ¬ (conversion = 's' ∨ conversion = 'S') :=
      fun hzero => absurd ((toUInt32_eq_zero_iff hslot).mp hzero) hnull
    rw [if_neg hnull, pointerFor_of_ne hpointer, toNat_toUInt32 hslot]
    refine iff_of_true rfl ?_
    split_ifs
    · exact fun _ => hnull
    · exact fun _ _ => hnull

theorem pointer_kept {slot : UInt64} (hslot : slot.toNat < 2 ^ 32)
    (hinteger : conversion ∉ integerConversions) (hcharacter : conversion ∉ characterConversions)
    (hdouble : conversion ∉ doubleConversions) (h : ¬ (conversion = 's' ∨ conversion = 'S')) :
    ((Taker.value modifiers conversion).produced call).hostMeaning call
        ((Taker.value modifiers conversion).packed call slot)
      = (Taker.value modifiers conversion).guestMeaning call slot := by
  rw [Taker.produced, Taker.hostMeaning, Taker.packed, Taker.guestMeaning]
  dsimp only
  rw [if_neg hinteger, if_neg hinteger, if_neg hinteger, if_neg hcharacter,
    if_neg hcharacter, if_neg hcharacter, if_neg hdouble, if_neg hdouble, if_neg hdouble, if_neg h,
    if_neg h, ofBytes_toBytes_four, pointerFor_of_ne (fun _ => h), toNat_toUInt32 hslot]

/-- **Each argument**: the host sees what the guest means exactly where the argument is kept. -/
theorem taker_kept (t : Taker) {slot : UInt64} (hpasses : t.Passes slot) :
    (t.produced call).hostMeaning call (t.packed call slot) = t.guestMeaning call slot ↔
      t.Kept call slot := by
  cases t with
  | star =>
      rw [Taker.produced, Taker.hostMeaning, Taker.packed, Taker.guestMeaning,
        wrap_slotBytes true 32 4 rfl]
      exact iff_of_true rfl trivial
  | value modifiers conversion =>
      by_cases hinteger : conversion ∈ integerConversions
      · exact integer_kept slot hinteger
      by_cases hstring : conversion = 's' ∨ conversion = 'S'
      · obtain ⟨-, hcharacter, hdouble⟩ := string_apart hstring
        exact string_kept (below_of_passes hpasses hinteger hcharacter hdouble) hstring
      have hkept : (Taker.value modifiers conversion).Kept call slot := by
        rw [Taker.Kept, if_neg hinteger, if_neg (not_or.mp hstring).1,
          if_neg (not_or.mp hstring).2]
        trivial
      by_cases hcharacter : conversion ∈ characterConversions
      · exact iff_of_true (character_kept slot hinteger hcharacter) hkept
      by_cases hdouble : conversion ∈ doubleConversions
      · exact iff_of_true (double_kept slot hinteger hcharacter hdouble) hkept
      have hslot := below_of_passes hpasses hinteger hcharacter hdouble
      exact iff_of_true (pointer_kept hslot hinteger hcharacter hdouble hstring) hkept

end

theorem meanings_eq_iff (call : FormatCall) (ts : List Taker) (slot : Nat)
    (hpassed : PassedFrom call slot ts) :
    hostMeanings call (ts.map (Taker.produced call)) (packedFrom call slot ts)
        = guestMeanings call slot ts ↔
      AllFrom (fun slot t => t.Kept call (call.arguments slot)) slot ts := by
  induction ts generalizing slot with
  | nil => exact iff_of_true rfl trivial
  | cons t ts ih =>
      rw [List.map_cons, packedFrom, hostMeanings, List.zipWith_cons_cons, guestMeanings,
        List.cons.injEq, taker_kept t hpassed.1]
      exact and_congr_right' (ih (slot + 1) hpassed.2)

/-- **What the arguments say.** Where the marshaller accepts a format, the host sees in the
arguments of the produced text what the guest sees in its slots if and only if no integer narrowed
by `h` holds more than fits in its slot, no `%s` of SQLite's printf is null, and no `%S` of libc's
is. -/
theorem keepsMeaning_iff {call : FormatCall} {text : Text} {m : Marshaller}
    {ds hostDs : List Directive} (h : xlFormatMarshal call text = some (.ok m))
    (hds : Scans call.sqliteDialect text ds)
    (hhost : Scans call.sqliteDialect (m.format call.objectFormat).text hostDs) :
    KeepsMeaning call m ds hostDs ↔
      AllFrom (fun slot t => t.Kept call (call.arguments slot)) 0
        (ds.flatMap Directive.takers) := by
  obtain ⟨ds', hends⟩ := xlFormatMarshal_ends h
  obtain rfl := hds.unique hends.scans
  obtain rfl := hhost.unique hends.produced
  rw [KeepsMeaning, takers_map_produced, hends.arguments, hostReads_packedFrom, Option.map_some,
    Option.some.injEq, List.map_map]
  have hbytes : (writes 0 0 (packedFrom call 0 (ds.flatMap Directive.takers))).map
      (Prod.snd ∘ fun w => (w.offset, w.bytes)) = packedFrom call 0 (ds.flatMap Directive.takers) :=
    bytes_writes 0 0 _
  rw [hbytes]
  exact meanings_eq_iff call _ 0 hends.passed

/-! ## A narrowed character -/

/-- `printf("%hhx", c)` for a `char` of -1, which is passed as an `int`. -/
def hexCall : FormatCall where
  arguments := fun _ => 0xFFFFFFFF
  symbol := some "printf"
  nullTexts := ⟨4096, 4104, 4120, by decide⟩

def hexText : Text := "%hhx".toList

def hexDirective : Directive := ⟨[], .digits [], none, ['h', 'h'], 'x'⟩

def hexMarshalled : Marshaller where
  out := ⟨['%', 'x'], 6⟩
  args := ⟨[255, 255, 255, 255], 10⟩
  next := 1
  written := [⟨0, 0, [255, 255, 255, 255]⟩]

theorem xlFormatMarshal_hex : xlFormatMarshal hexCall hexText = some (.ok hexMarshalled) := rfl

theorem scans_hex : Scans hexCall.sqliteDialect hexText [hexDirective] :=
  .directive (by decide) rfl .done

theorem scans_hex_host : Scans hexCall.sqliteDialect (hexMarshalled.format false).text
    [{ hexDirective with modifiers := [] }] :=
  .directive (by decide) rfl .done

theorem keepsMeaning_iff_hex :
    KeepsMeaning hexCall hexMarshalled [hexDirective] [{ hexDirective with modifiers := [] }] ↔
      AllFrom (fun slot t => t.Kept hexCall (hexCall.arguments slot)) 0
        ([hexDirective].flatMap Directive.takers) :=
  keepsMeaning_iff xlFormatMarshal_hex scans_hex scans_hex_host

/-- The guest prints `ff`, the host `ffffffff`. -/
theorem not_keepsMeaning_hex :
    ¬ ∀ (call : FormatCall) (text : Text) (m : Marshaller) (ds hostDs : List Directive),
      xlFormatMarshal call text = some (.ok m) → Scans call.sqliteDialect text ds →
      Scans call.sqliteDialect (m.format call.objectFormat).text hostDs →
      KeepsMeaning call m ds hostDs := by
  intro h
  have hkeeps := h hexCall hexText hexMarshalled _ _ xlFormatMarshal_hex scans_hex scans_hex_host
  revert hkeeps
  show ¬ (_ = _)
  decide

end Katabasis
