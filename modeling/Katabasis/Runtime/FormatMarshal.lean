import Katabasis.Lib.LittleEndian
import Mathlib.Data.Bool.AllAny

set_option autoImplicit false

/-! # Marshalling a format

`xl_format_marshal` (`runtime/bridge.m`) rewrites a format string for the host and packs the
guest's arguments for it, in one pass: what it copies and drops of the text, and how many bytes it
takes of each 8-byte slot, is decided conversion by conversion. Text is a list of bytes, each
given as its character, without the terminator. With each argument that is written the model
keeps what it was (`Write`), which the code does not.
-/

namespace Katabasis

open LittleEndian

abbrev Text := List Char

/-! ## The buffers -/

/-- `struct xl_buffer`; the terminator behind the data is not part of it. -/
structure Buffer (α : Type) where
  data : List α := []
  capacity : Nat := 0

def xlAppend {α : Type} (buffer : Buffer α) (data : List α) : Buffer α where
  data := buffer.data ++ data
  capacity :=
    if buffer.capacity < buffer.data.length + data.length + 1 then
      (buffer.data.length + data.length + 1) * 2
    else buffer.capacity

/-! ## The call -/

/-- The static texts that stand for a null string, by their addresses. -/
structure NullTexts where
  utf8 : UInt32
  utf16 : UInt32
  wide : UInt32
  apart : utf8 ≠ utf16 ∧ utf8 ≠ wide ∧ utf16 ≠ wide

/-- What the marshaller is given besides the text; the text of an object is its `UTF8String`. -/
structure FormatCall where
  objectFormat : Bool := false
  arguments : Nat → UInt64
  symbol : Option String := none
  nullTexts : NullTexts

namespace FormatCall

/-- SQLite's printf is a dialect of its own, in which `q`, `Q`, `w` and `z` are conversions. -/
def sqliteDialect (call : FormatCall) : Bool :=
  match call.symbol with
  | some symbol => "sqlite3_".toList.isPrefixOf symbol.toList
  | none => false

end FormatCall

/-- The ways to `abort`. -/
inductive FormatAbort
  | positional (start : Text)
  | unsupported (conversion : Char)
  | objectOutside
  | pointerAbove (value : UInt64)
  deriving DecidableEq, Repr

/-- The line on standard error, in a call for this text. -/
def FormatAbort.message (call : FormatCall) (text : Text) (abort : FormatAbort) : String :=
  "xlate: " ++ call.symbol.getD "(null)" ++ ": " ++
    match abort with
    | positional start =>
        "positional format arguments are not supported: " ++ String.ofList start
    | unsupported _ => "unsupported conversion in format \"" ++ String.ofList text ++ "\""
    | objectOutside => "%@ outside an object format"
    | pointerAbove value =>
        "pointer argument 0x" ++ String.ofList (Nat.toDigits 16 value.toNat) ++ " above 4 GiB"

/-- An argument that was written: from which slot, and where. -/
structure Write where
  slot : Nat
  offset : Nat
  bytes : List UInt8
  deriving DecidableEq, Repr

/-- The two buffers, and the next slot. -/
structure Marshaller where
  out : Buffer Char := {}
  args : Buffer UInt8 := {}
  next : Nat := 0
  written : List Write := []

namespace Marshaller

def put (m : Marshaller) (text : Text) : Marshaller := { m with out := xlAppend m.out text }

/-- Take the next slot, of which these bytes are written. -/
def take (m : Marshaller) (bytes : List UInt8) : Marshaller where
  out := m.out
  args := xlAppend m.args bytes
  next := m.next + 1
  written := m.written ++ [⟨m.next, m.args.data.length, bytes⟩]

end Marshaller

/-! ## One directive -/

/-- `strchr("-+ #0'", c)` -/
def isFlag (c : Char) : Bool := "-+ #0'".toList.contains c

def copyWhile (p : Char → Bool) : Text → Marshaller → Text × Marshaller
  | c :: text, m => if p c then copyWhile p text (m.put [c]) else (c :: text, m)
  | [], m => ([], m)

section

variable (call : FormatCall)

/-- The low bytes of a slot. -/
def slotBytes (n : Nat) (slot : UInt64) : List UInt8 := toBytes n slot.toNat

/-- A width or a precision: a star takes a slot. -/
def copyCount : Text → Marshaller → Text × Marshaller
  | '*' :: text, m => (text, (m.take (slotBytes 4 (call.arguments m.next))).put ['*'])
  | text, m => copyWhile Char.isDigit text m

/-- The two parts of the loop over width and precision. -/
def copyParts (start text : Text) (m : Marshaller) : Except FormatAbort (Text × Marshaller) :=
  let (text, m) := copyCount call text m
  if text.head? = some '$' then .error (.positional start)
  else
    match text with
    | '.' :: text =>
        let (text, m) := copyCount call text (m.put ['.'])
        if text.head? = some '$' then .error (.positional start) else .ok (text, m)
    | text => .ok (text, m)

/-- The length modifiers, and whether they make an argument `wide`. -/
def modifierWide (sqliteDialect : Bool) (c : Char) : Option Bool :=
  if c = 'h' then some false
  else if c = 'l' ∨ (sqliteDialect = false ∧ (c = 'q' ∨ c = 'z')) ∨ c = 'j' ∨ c = 't' then
    some true
  else if c = 'L' then some false
  else none

/-- The loop over the modifiers, none of which is copied. -/
def skipModifiers (sqliteDialect : Bool) : Text → Bool → Bool × Text
  | c :: text, wide =>
      match modifierWide sqliteDialect c with
      | some w => skipModifiers sqliteDialect text (wide || w)
      | none => (wide, c :: text)
  | [], wide => (wide, [])

def integerConversions : Text := "diouxXDOU".toList
def characterConversions : Text := "cC".toList
def doubleConversions : Text := "eEfFgGaA".toList
def sqliteConversions : Text := "qQwz".toList
def pointerConversions : Text := "sSp@".toList

/-- The address that is written for a string or a pointer: a null `%s` or `%S` becomes a text. -/
def pointerFor (wide : Bool) (conversion : Char) (slot : UInt64) : UInt32 :=
  let pointer := slot.toUInt32
  if pointer = 0 ∧ (conversion = 's' ∨ conversion = 'S') then
    if conversion = 'S' then call.nullTexts.utf16
    else if wide then call.nullTexts.wide
    else call.nullTexts.utf8
  else pointer

/-- The `switch` over the conversion. -/
def convert (wide : Bool) (conversion : Char) (m : Marshaller) :
    Except FormatAbort Marshaller :=
  let slot := call.arguments m.next
  if conversion ∈ integerConversions then
    if wide then .ok (((m.take (slotBytes 8 slot)).put "ll".toList).put [conversion])
    else .ok ((m.take (slotBytes 4 slot)).put [conversion])
  else if conversion ∈ characterConversions then
    let m := m.take (slotBytes 4 slot)
    .ok ((if wide then m.put ['l'] else m).put [conversion])
  else if conversion ∈ doubleConversions then .ok ((m.take (slotBytes 8 slot)).put [conversion])
  else if conversion ∈ sqliteConversions ∧ call.sqliteDialect = false then
    .error (.unsupported conversion)
  else if conversion ∈ sqliteConversions ∨ conversion ∈ pointerConversions then
    if conversion = '@' ∧ call.objectFormat = false then .error .objectOutside
    else if slot >>> 32 ≠ 0 then .error (.pointerAbove slot)
    else
      let m := m.take (toBytes 4 (pointerFor call wide conversion slot).toNat)
      .ok ((if wide ∧ conversion = 's' then m.put ['l'] else m).put [conversion])
  else if conversion = 'm' then .ok (m.put ['m'])
  else .error (.unsupported conversion)

/-- A directive, behind its `%`. -/
def marshalDirective (text : Text) (m : Marshaller) : Except FormatAbort (Text × Marshaller) := do
  let (flagged, m) := copyWhile isFlag text (m.put ['%'])
  let (counted, m) ← copyParts call ('%' :: text) flagged m
  match skipModifiers call.sqliteDialect counted false with
  | (_, []) => .error (.unsupported (Char.ofNat 0))
  | (wide, conversion :: rest) => (convert call wide conversion m).map fun m => (rest, m)

/-- The loop over the text; without an answer where it runs out of fuel. -/
def marshalLoop : Nat → Text → Marshaller → Option (Except FormatAbort Marshaller)
  | 0, _, _ => none
  | _ + 1, [], m => some (.ok m)
  | fuel + 1, '%' :: '%' :: text, m => marshalLoop fuel text (m.put "%%".toList)
  | fuel + 1, '%' :: text, m =>
      match marshalDirective call text m with
      | .ok (rest, m) => marshalLoop fuel rest m
      | .error abort => some (.error abort)
  | fuel + 1, c :: text, m => marshalLoop fuel text (m.put [c])

/-- `struct xl_format`: the host's text, as a string or as an object, and its arguments. -/
structure XlFormat where
  text : Text
  object : Option Text
  arguments : List UInt8
  deriving DecidableEq, Repr

def Marshaller.format (objectFormat : Bool) (m : Marshaller) : XlFormat where
  text := m.out.data
  object := if objectFormat then some m.out.data else none
  arguments := m.args.data

/-- `xl_format_marshal`: the marshaller at the end, whose `format` is the host's. -/
def xlFormatMarshal (text : Text) : Option (Except FormatAbort Marshaller) :=
  (marshalLoop call (text.length + 1) text (Marshaller.put {} [])).map fun result =>
    result.map fun m => { m with args := xlAppend m.args [] }

end

end Katabasis
