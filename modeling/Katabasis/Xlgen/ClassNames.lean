import Katabasis.Lib.Words
import Katabasis.Xlgen.Classes

set_option autoImplicit false

/-! # The names of the host's tables

The tables that `EmitClasses` writes and the overrides of the lifted module meet by name only, at
the linker. A name is words between underscores: what it is the table of, the addresses and places
in it, and which list. No two tables have one name.
-/

namespace Katabasis

/-- Leading zeros do not change a number, so the digits tell addresses apart. -/
theorem Hex_injective {a b : UInt64} (h : Hex a = Hex b) : a = b := by
  have hchars := congrArg String.toList h
  simp only [Hex, String.toList_ofList] at hchars
  exact UInt64.toNat_inj.mp (Words.padded_injective hchars)

theorem underscore_notMem_Hex (a : UInt64) : '_' ∉ (Hex a).toList := by
  simp only [Hex, String.toList_ofList, List.mem_append, not_or]
  constructor
  · intro hzero
    exact absurd (List.eq_of_mem_replicate hzero) (by decide)
  · intro hdigit
    exact Words.ne_of_mem_toDigits (by decide) hdigit rfl

namespace Manifest

/-- A number is not one of the words that stand where a number can stand. -/
theorem toString_ne (n : Nat) : toString n ≠ "proto" ∧ toString n ≠ "meta" ∧ toString n ≠ "ro" ∧
    toString n ≠ "metaro" ∧ toString n ≠ "category" := by
  have hdigits : ∀ {word : String}, word.toList.all Char.isDigit = false → toString n ≠ word := by
    rintro word hword rfl
    have hall : (toString n).toList.all Char.isDigit = true :=
      List.all_eq_true.mpr fun c hc => Words.isDigit_of_mem_toString hc
    rw [hall] at hword
    cases hword
  refine ⟨?_, ?_, ?_, ?_, ?_⟩ <;> exact hdigits (by decide)

theorem ne_toString (n : Nat) : "proto" ≠ toString n ∧ "meta" ≠ toString n ∧ "ro" ≠ toString n ∧
    "metaro" ≠ toString n ∧ "category" ≠ toString n := by
  obtain ⟨hproto, hmeta, hro, hmetaro, hcategory⟩ := toString_ne n
  exact ⟨hproto.symm, hmeta.symm, hro.symm, hmetaro.symm, hcategory.symm⟩

/-! ## Words

Each table's name as a list of words. That it is the name the generator writes is
`name_eq_words`. -/

def Part.words : Part → List String
  | methods => ["methods"]
  | ivars => ["ivars"]
  | properties => ["properties"]
  | protocols => ["protocols"]
  | instanceMethods => ["instance"]
  | classMethods => ["class"]
  | optionalInstance => ["optional", "instance"]
  | optionalClass => ["optional", "class"]

def Place.words (place : Place) : List String := [toString place.image, toString place.index]

def Table.words : Table → List String
  | classlist => ["xl", "objc", "classlist"]
  | protolist => ["xl", "objc", "protolist"]
  | catlist => ["xl", "objc", "catlist"]
  | layouts => ["xl", "class", "layouts"]
  | staticClasses => ["xl", "swift", "static", "classes"]
  | listedClasses => ["xl", "swift", "listed", "classes"]

/-- Of a list: where it belongs, and which it is. -/
def Symbol.words : Symbol → List String
  | protocolPart address part => ["xl", "objc", "proto"] ++ ([Hex address] ++ part.words)
  | dataPart false place part => ["xl", "objc"] ++ (place.words ++ part.words)
  | dataPart true place part => ["xl", "objc", "meta"] ++ (place.words ++ part.words)
  | ro false place => ["xl", "objc", "ro"] ++ place.words
  | ro true place => ["xl", "objc", "metaro"] ++ place.words
  | ivarFixup place => ["xl", "ivar", "fixup"] ++ place.words
  | category place => ["xl", "objc", "category"] ++ place.words
  | categoryPart place part => ["xl", "objc", "category"] ++ (place.words ++ part.words)
  | table list => list.words
  | wrapper number => ["xl", "imp"] ++ [toString number]

theorem part_text (part : Part) : "_".intercalate part.words = part.text := by
  cases part <;> decide

theorem part_words_ne_nil (part : Part) : part.words ≠ [] := by
  cases part <;> simp [Part.words]

theorem place_suffix (place : Place) : "_".intercalate place.words = place.suffix := by
  simp [Place.words, Place.suffix]

theorem place_words_ne_nil (place : Place) : place.words ≠ [] := List.cons_ne_nil _ _

theorem intercalate_place (place : Place) (part : Part) :
    "_".intercalate (place.words ++ part.words) = place.suffix ++ "_" ++ part.text := by
  rw [String.intercalate_append_of_ne_nil (place_words_ne_nil place) (part_words_ne_nil part),
    place_suffix, part_text]

theorem place_part_ne_nil (place : Place) (part : Part) : place.words ++ part.words ≠ [] :=
  List.cons_ne_nil _ _

/-- A name that starts with these words. -/
theorem intercalate_start {words rest : List String} {start : String}
    (hstart : "_".intercalate words ++ "_" = start) (hwords : words ≠ []) (hrest : rest ≠ []) :
    "_".intercalate (words ++ rest) = start ++ "_".intercalate rest := by
  rw [String.intercalate_append_of_ne_nil hwords hrest, hstart]

theorem category_start : "_".intercalate ["xl", "objc", "category"] ++ "_" = "xl_objc_category_" := by
  decide

/-- The words are those of the name, for each kind of table by the way its name is put together. -/
theorem name_eq_words (symbol : Symbol) : symbol.name = "_".intercalate symbol.words := by
  cases symbol with
  | protocolPart address part =>
      have hstart : "_".intercalate ["xl", "objc", "proto"] ++ "_" = "xl_objc_proto_" := by decide
      have hrest : ∀ digits : String, "_".intercalate (["xl", "objc", "proto"] ++
          ([digits] ++ part.words)) = "xl_objc_proto_" ++ (digits ++ ("_" ++ part.text)) := by
        intro digits
        rw [intercalate_start hstart (by simp) (by simp),
          String.intercalate_append_of_ne_nil (by simp) (part_words_ne_nil part),
          String.intercalate_singleton, part_text, String.append_assoc]
      refine Eq.trans ?_ (hrest (Hex address)).symm
      show "xl_objc_proto_" ++ Hex address ++ "_" ++ part.text = _
      rw [String.append_assoc, String.append_assoc]
  | dataPart isMeta place part =>
      have hplain : "_".intercalate ["xl", "objc"] ++ "_" = "xl_objc_" := by decide
      have hmeta : "_".intercalate ["xl", "objc", "meta"] ++ "_" = "xl_objc_meta_" := by decide
      cases isMeta
      · show "xl_objc_" ++ place.suffix ++ "_" ++ part.text
          = "_".intercalate (["xl", "objc"] ++ (place.words ++ part.words))
        rw [intercalate_start hplain (by simp) (place_part_ne_nil place part), intercalate_place,
          ← String.append_assoc, ← String.append_assoc]
      · show "xl_objc_meta_" ++ place.suffix ++ "_" ++ part.text
          = "_".intercalate (["xl", "objc", "meta"] ++ (place.words ++ part.words))
        rw [intercalate_start hmeta (by simp) (place_part_ne_nil place part), intercalate_place,
          ← String.append_assoc, ← String.append_assoc]
  | ro isMeta place =>
      have hplain : "_".intercalate ["xl", "objc", "ro"] ++ "_" = "xl_objc_ro_" := by decide
      have hmeta : "_".intercalate ["xl", "objc", "metaro"] ++ "_" = "xl_objc_metaro_" := by decide
      cases isMeta
      · show "xl_objc_ro_" ++ place.suffix = "_".intercalate (["xl", "objc", "ro"] ++ place.words)
        rw [intercalate_start hplain (by simp) (place_words_ne_nil place), place_suffix]
      · show "xl_objc_metaro_" ++ place.suffix
          = "_".intercalate (["xl", "objc", "metaro"] ++ place.words)
        rw [intercalate_start hmeta (by simp) (place_words_ne_nil place), place_suffix]
  | ivarFixup place =>
      have hstart : "_".intercalate ["xl", "ivar", "fixup"] ++ "_" = "xl_ivar_fixup_" := by decide
      show "xl_ivar_fixup_" ++ place.suffix
        = "_".intercalate (["xl", "ivar", "fixup"] ++ place.words)
      rw [intercalate_start hstart (by simp) (place_words_ne_nil place), place_suffix]
  | category place =>
      show "xl_objc_category_" ++ place.suffix
        = "_".intercalate (["xl", "objc", "category"] ++ place.words)
      rw [intercalate_start category_start (by simp) (place_words_ne_nil place), place_suffix]
  | categoryPart place part =>
      show "xl_objc_category_" ++ place.suffix ++ "_" ++ part.text
        = "_".intercalate (["xl", "objc", "category"] ++ (place.words ++ part.words))
      rw [intercalate_start category_start (by simp) (place_part_ne_nil place part),
        intercalate_place, ← String.append_assoc, ← String.append_assoc]
  | table list => cases list <;> decide
  | wrapper number =>
      have hstart : "_".intercalate ["xl", "imp"] ++ "_" = "xl_imp_" := by decide
      show "xl_imp_" ++ toString number = "_".intercalate (["xl", "imp"] ++ [toString number])
      rw [intercalate_start hstart (by simp) (by simp), String.intercalate_singleton]

theorem words_ne_nil (symbol : Symbol) : symbol.words ≠ [] := by
  cases symbol with
  | dataPart isMeta place part => cases isMeta <;> simp [Symbol.words]
  | ro isMeta place => cases isMeta <;> simp [Symbol.words]
  | table list => cases list <;> simp [Symbol.words, Table.words]
  | _ => simp [Symbol.words]

/-- Words without an underscore of their own. -/
def Plain (words : List String) : Prop := ∀ word ∈ words, '_' ∉ word.toList

@[simp] theorem plain_nil : Plain [] := by simp [Plain]

@[simp] theorem plain_cons {word : String} {words : List String} :
    Plain (word :: words) ↔ '_' ∉ word.toList ∧ Plain words := by
  simp [Plain]

@[simp] theorem plain_append {words words' : List String} :
    Plain (words ++ words') ↔ Plain words ∧ Plain words' := by
  simp [Plain, or_imp, forall_and]

theorem plain_part (part : Part) : Plain part.words := by
  cases part <;> simp [Part.words]

theorem plain_place (place : Place) : Plain place.words := by
  simp [Place.words]

/-- So a name falls into its words again. -/
theorem plain_words (symbol : Symbol) : Plain symbol.words := by
  cases symbol with
  | protocolPart address part => simp [Symbol.words, underscore_notMem_Hex, plain_part]
  | dataPart isMeta place part => cases isMeta <;> simp [Symbol.words, plain_part, plain_place]
  | ro isMeta place => cases isMeta <;> simp [Symbol.words, plain_place]
  | ivarFixup place => simp [Symbol.words, plain_place]
  | category place => simp [Symbol.words, plain_place]
  | categoryPart place part => simp [Symbol.words, plain_part, plain_place]
  | table list => cases list <;> simp [Symbol.words, Table.words]
  | wrapper number => simp [Symbol.words]

/-! ## One symbol for a name -/

theorem Place.words_injective {a b : Place} (h : a.words = b.words) : a = b := by
  obtain ⟨image, index⟩ := a
  obtain ⟨image', index'⟩ := b
  simp only [Place.words, List.cons.injEq] at h
  have himage := Words.toString_injective (congrArg String.toList h.1)
  have hindex := Words.toString_injective (congrArg String.toList h.2.1)
  rw [himage, hindex]

theorem Part.words_injective {a b : Part} (h : a.words = b.words) : a = b := by
  revert h
  cases a <;> cases b <;> simp [Part.words]

theorem Table.words_injective {a b : Table} (h : a.words = b.words) : a = b := by
  revert h
  cases a <;> cases b <;> simp [Table.words]

theorem place_part_injective {a b : Place} {part part' : Part}
    (h : a.words ++ part.words = b.words ++ part'.words) : a = b ∧ part = part' := by
  obtain ⟨hplace, hpart⟩ := List.append_inj h rfl
  exact ⟨Place.words_injective hplace, Part.words_injective hpart⟩

/-- What a symbol is of: a list of a protocol, of a class, and so on. -/
def Symbol.kind : Symbol → Nat
  | protocolPart _ _ => 0
  | dataPart false _ _ => 1
  | dataPart true _ _ => 2
  | ro false _ => 3
  | ro true _ => 4
  | ivarFixup _ => 5
  | category _ => 6
  | categoryPart _ _ => 7
  | table _ => 8
  | wrapper _ => 9

/-- Symbols of different kinds differ in a word, or in how many words there are. -/
theorem kind_eq_of_words {a b : Symbol} (h : a.words = b.words) : a.kind = b.kind := by
  have hpart : ∀ part : Part, [] ≠ part.words := fun part => (part_words_ne_nil part).symm
  revert h
  rcases a with ⟨address, part⟩ | ⟨_ | _, ⟨i, j⟩, part⟩ | ⟨_ | _, ⟨i, j⟩⟩ | ⟨i, j⟩ | ⟨i, j⟩ |
    ⟨⟨i, j⟩, part⟩ | list | n
  all_goals
    rcases b with ⟨address', part'⟩ | ⟨_ | _, ⟨i', j'⟩, part'⟩ | ⟨_ | _, ⟨i', j'⟩⟩ | ⟨i', j'⟩ |
      ⟨i', j'⟩ | ⟨⟨i', j'⟩, part'⟩ | list' | n'
  -- most pairs differ in the words that are the same for all tables of a kind
  all_goals
    simp only [Symbol.words, Place.words, List.cons_append, List.nil_append, List.cons.injEq,
      toString_ne, ne_toString, hpart, part_words_ne_nil, Symbol.kind, true_and, and_true,
      false_and, and_false, false_imp_iff, imp_true_iff, Nat.reduceEqDiff, String.reduceEq]
  -- what is left is a list of which there is one, beside something else
  all_goals first
    | cases list <;> simp [Table.words]
    | cases list' <;> simp [Table.words]

/-- Within a kind, the addresses, the place and the list are read off the words. -/
theorem words_injective {a b : Symbol} (h : a.words = b.words) : a = b := by
  have hkind := kind_eq_of_words h
  cases a with
  | protocolPart address part =>
      cases b with
      | protocolPart address' part' =>
          obtain ⟨hhex, hpart⟩ := List.cons.inj (List.append_cancel_left h)
          rw [Hex_injective hhex, Part.words_injective hpart]
      | dataPart isMeta' | ro isMeta' => cases isMeta' <;> cases hkind
      | _ => cases hkind
  | dataPart isMeta place part =>
      cases b with
      | dataPart isMeta' place' part' =>
          cases isMeta <;> cases isMeta' <;> cases hkind
          all_goals
            obtain ⟨hplace, hpart⟩ := place_part_injective (List.append_cancel_left h)
            rw [hplace, hpart]
      | ro isMeta' => cases isMeta <;> cases isMeta' <;> cases hkind
      | _ => cases isMeta <;> cases hkind
  | ro isMeta place =>
      cases b with
      | ro isMeta' place' =>
          cases isMeta <;> cases isMeta' <;> cases hkind
          all_goals rw [Place.words_injective (List.append_cancel_left h)]
      | dataPart isMeta' => cases isMeta <;> cases isMeta' <;> cases hkind
      | _ => cases isMeta <;> cases hkind
  | ivarFixup place =>
      cases b with
      | ivarFixup place' => rw [Place.words_injective (List.append_cancel_left h)]
      | dataPart isMeta' | ro isMeta' => cases isMeta' <;> cases hkind
      | _ => cases hkind
  | category place =>
      cases b with
      | category place' => rw [Place.words_injective (List.append_cancel_left h)]
      | dataPart isMeta' | ro isMeta' => cases isMeta' <;> cases hkind
      | _ => cases hkind
  | categoryPart place part =>
      cases b with
      | categoryPart place' part' =>
          obtain ⟨hplace, hpart⟩ := place_part_injective (List.append_cancel_left h)
          rw [hplace, hpart]
      | dataPart isMeta' | ro isMeta' => cases isMeta' <;> cases hkind
      | _ => cases hkind
  | table list =>
      cases b with
      | table list' => rw [Table.words_injective h]
      | dataPart isMeta' | ro isMeta' => cases isMeta' <;> cases hkind
      | _ => cases hkind
  | wrapper number =>
      cases b with
      | wrapper number' =>
          obtain ⟨hnumber, -⟩ := List.cons.inj (List.append_cancel_left h)
          rw [Words.toString_injective (congrArg String.toList hnumber)]
      | dataPart isMeta' | ro isMeta' => cases isMeta' <;> cases hkind
      | _ => cases hkind

/-- **No two tables have one name.** -/
theorem name_injective {a b : Symbol} (h : a.name = b.name) : a = b := by
  rw [name_eq_words, name_eq_words] at h
  exact words_injective (Words.intercalate_injective (plain_words a) (plain_words b)
    (words_ne_nil a) (words_ne_nil b) h)

end Manifest

end Katabasis
