import Katabasis.Xlgen.LeavesApart

set_option autoImplicit false

/-! # The pack struct on the two sides

The arguments of a bridged call travel in a packed struct that `EmitBridge` declares twice,
once in the guest sources and once in the host sources. Records are spelled by their guest
type in the one and by their mirror in the other (`xlate/src/xlgen.cpp`).
-/

namespace Katabasis

structure Parameter where
  value : Value
  name : String

structure Signature where
  params : List Parameter := []
  result : Value

inductive CallKind
  | function | message
  deriving DecidableEq, Repr

structure FormatInfo where
  present : Bool := false
  vaParam : Int := -1

/-- How a member of a pack is spelled. -/
inductive PackType
  | double | uint64 | guest (type : CType) | mirror (name : String)

def sanitize (text : String) : String :=
  String.ofList (text.toList.map fun c => if c.isAlphanum then c else '_')

/-- What the generator has declared so far: the mirrors, by name. -/
structure Generator where
  mirrors : List (String × MirrorStruct) := []

namespace Generator

variable (spell : CType → String)

def mirrorName (g : CType) : String := "xl_g_" ++ sanitize (spell g)

/-- `Mirror`: the name of the mirror, which is declared the first time it is asked for. -/
def mirror (generator : Generator) (g h : CType) : Option (String × Generator) :=
  let name := mirrorName spell g
  if (generator.mirrors.lookup name).isSome then some (name, generator)
  else (Katabasis.mirror g h).map fun struct =>
    (name, { generator with mirrors := generator.mirrors ++ [(name, struct)] })

/-- `PackField` on the guest side. -/
def guestPackField (value : Value) : PackType :=
  match value.kind with
  | .floating => .double
  | .record => .guest value.guest
  | _ => .uint64

/-- `PackField` on the host side. -/
def hostPackField (generator : Generator) (value : Value) : Option (PackType × Generator) :=
  match value.kind with
  | .floating => some (.double, generator)
  | .record => (generator.mirror spell value.guest value.host).map fun (name, generator) =>
      (.mirror name, generator)
  | _ => some (.uint64, generator)

/-- The members of a pack in order: words of the bridge itself (no value), the parameters,
and the result. -/
def packSlots (signature : Signature) (kind : CallKind) (format : FormatInfo) :
    List (String × Option Value) :=
  (if kind = .message then [("self", none), ("sel", none)] else []) ++
    signature.params.map (fun param => (param.name, some param.value)) ++
    (if format.present ∧ format.vaParam < 0 then [("va", none)] else []) ++
    (if signature.result.kind ≠ .void then [("r", some signature.result)] else [])

def guestFields (slots : List (String × Option Value)) : List (String × PackType) :=
  slots.map fun slot =>
    (slot.1, match slot.2 with
      | none => .uint64
      | some value => guestPackField value)

def hostFields : Generator → List (String × Option Value) →
    Option (List (String × PackType) × Generator)
  | generator, [] => some ([], generator)
  | generator, (name, none) :: rest => do
      let (fields, generator) ← generator.hostFields rest
      return ((name, .uint64) :: fields, generator)
  | generator, (name, some value) :: rest => do
      let (type, generator) ← generator.hostPackField spell value
      let (fields, generator) ← generator.hostFields rest
      return ((name, type) :: fields, generator)

/-- The two pack structs `EmitBridge` declares, and the generator after it. -/
def emitBridge (generator : Generator) (signature : Signature) (kind : CallKind)
    (format : FormatInfo) :
    Option (List (String × PackType) × List (String × PackType) × Generator) :=
  (generator.hostFields spell (packSlots signature kind format)).map fun (host, generator) =>
    (guestFields (packSlots signature kind format), host, generator)

/-- The size of a pack member, among the declared mirrors. -/
def packBytes (generator : Generator) : PackType → Nat
  | .double => 8
  | .uint64 => 8
  | .guest type => type.guestSize
  | .mirror name => ((generator.mirrors.lookup name).map MirrorStruct.size).getD 0

/-- The offset of a member of a pack. -/
def packOffset (generator : Generator) (fields : List (String × PackType)) (k : Nat) : Nat :=
  Packed.offset (fields.map fun field => generator.packBytes field.2) k

/-! ## Mirrors are declared once -/

/-- The generator after these mirrors have been asked for, in this order. -/
def afterAsking (asked : List (CType × CType)) : Option Generator :=
  asked.foldlM (fun generator record =>
    (generator.mirror spell record.1 record.2).map Prod.snd) {}

/-- The records among the members of a pack, in both contexts. -/
def records (slots : List (String × Option Value)) : List (CType × CType) :=
  ((slots.filterMap Prod.snd).filter fun value => value.kind = .record).map fun value =>
    (value.guest, value.host)

/-- The first record asked for under a mirror's name. -/
def firstNamed (asked : List (CType × CType)) (name : String) : Option (CType × CType) :=
  asked.find? fun record => mirrorName spell record.1 = name

/-- The record whose mirror a pack member of this value is spelled with: the first one asked
for under the name. -/
def namesake (asked : List (CType × CType)) (value : Value) : CType × CType :=
  (firstNamed spell asked (mirrorName spell value.guest)).getD (value.guest, value.host)

variable {spell}

/-- What a host pack field is spelled as, whatever has been declared. -/
def hostType (spell : CType → String) (value : Value) : PackType :=
  match value.kind with
  | .floating => .double
  | .record => .mirror (mirrorName spell value.guest)
  | _ => .uint64

def hostSlot (spell : CType → String) (slot : String × Option Value) : String × PackType :=
  (slot.1, match slot.2 with
    | none => .uint64
    | some value => hostType spell value)

/-- Under each name stands the mirror of the first record asked for under it. -/
structure Declared (spell : CType → String) (asked : List (CType × CType))
    (generator : Generator) : Prop where
  absent : ∀ name, firstNamed spell asked name = none → generator.mirrors.lookup name = none
  first : ∀ name record, firstNamed spell asked name = some record →
    ∃ struct, Katabasis.mirror record.1 record.2 = some struct ∧
      generator.mirrors.lookup name = some struct

theorem Declared.empty : Declared spell [] {} :=
  ⟨fun _ _ => rfl, fun _ _ h => nomatch h⟩

/-- A name already asked for changes nothing; a new one adds its mirror behind the others. -/
theorem mirror_declared {asked : List (CType × CType)} {generator generator' : Generator}
    {g h : CType} {name : String} (hd : Declared spell asked generator)
    (hm : generator.mirror spell g h = some (name, generator')) :
    name = mirrorName spell g ∧ Declared spell (asked ++ [(g, h)]) generator' := by
  have hsplit : ∀ n, firstNamed spell (asked ++ [(g, h)]) n
      = (firstNamed spell asked n).or (if mirrorName spell g = n then some (g, h) else none) := by
    intro n
    by_cases hn : mirrorName spell g = n <;> simp [firstNamed, hn]
  unfold mirror at hm
  simp only at hm
  split at hm
  case isTrue hsome =>
      injection hm with hm
      injection hm with hname hgen
      subst hname hgen
      -- The name is taken, so the record asked for now is not the first under any name.
      obtain ⟨first, hfirst⟩ : ∃ r, firstNamed spell asked (mirrorName spell g) = some r := by
        rw [← Option.isSome_iff_exists, ← Option.ne_none_iff_isSome]
        intro hnone
        simp [hd.absent _ hnone] at hsome
      have hsame : ∀ n, firstNamed spell (asked ++ [(g, h)]) n = firstNamed spell asked n := by
        intro n
        rw [hsplit]
        by_cases hn : mirrorName spell g = n
        · rw [← hn, hfirst, Option.some_or]
        · rw [if_neg hn, Option.or_none]
      exact ⟨rfl, fun n hn => hd.absent n (hsame n ▸ hn),
        fun n r hr => hd.first n r (hsame n ▸ hr)⟩
  case isFalse hnone =>
      obtain ⟨struct, hstruct, heq⟩ := Option.map_eq_some_iff.mp hm
      injection heq with hname hgen
      subst hname hgen
      rw [Bool.not_eq_true, Option.isSome_eq_false_iff, Option.isNone_iff_eq_none] at hnone
      have hfresh : firstNamed spell asked (mirrorName spell g) = none := by
        by_contra hne
        obtain ⟨first, hfirst⟩ := Option.ne_none_iff_exists'.mp hne
        obtain ⟨struct', -, hlookup⟩ := hd.first _ _ hfirst
        rw [hnone] at hlookup
        cases hlookup
      refine ⟨rfl, fun n hn => ?_, fun n r hr => ?_⟩
      · rw [hsplit, Option.or_eq_none_iff] at hn
        have hne : mirrorName spell g ≠ n := fun heq => by simp [heq] at hn
        simp [List.lookup_append, hd.absent n hn.1, List.lookup_cons,
          beq_eq_false_iff_ne.mpr hne.symm]
      · rw [hsplit, Option.or_eq_some_iff] at hr
        rcases hr with hr | ⟨-, hr⟩
        · obtain ⟨struct', hmirror, hlookup⟩ := hd.first n r hr
          exact ⟨struct', hmirror, by simp [List.lookup_append, hlookup]⟩
        · obtain ⟨hname, hrecord⟩ := Option.ite_none_right_eq_some.mp hr
          injection hrecord with hrecord
          subst hname hrecord
          exact ⟨struct, hstruct, by simp [List.lookup_append, hnone]⟩

/-- The mirrors of a history, by induction over it. -/
theorem afterAsking_declared {asked : List (CType × CType)} {generator : Generator}
    (h : afterAsking spell asked = some generator) : Declared spell asked generator := by
  induction asked using List.reverseRecOn generalizing generator with
  | nil =>
      injection h with h
      rw [← h]
      exact Declared.empty
  | append_singleton asked record ih =>
      rw [afterAsking, List.foldlM_append] at h
      obtain ⟨before, hbefore, hlast⟩ := Option.bind_eq_some_iff.mp h
      obtain ⟨after, hafter, hnil⟩ := Option.bind_eq_some_iff.mp hlast
      injection hnil with hnil
      obtain ⟨⟨name, gen⟩, hmirror, rfl⟩ := Option.map_eq_some_iff.mp hafter
      rw [← hnil]
      exact (mirror_declared (ih hbefore) hmirror).2

theorem hostPackField_declared {asked : List (CType × CType)} {generator generator' : Generator}
    {value : Value} {type : PackType} (hd : Declared spell asked generator)
    (h : generator.hostPackField spell value = some (type, generator')) :
    type = hostType spell value ∧
      Declared spell (asked ++ if value.kind = .record then [(value.guest, value.host)] else [])
        generator' := by
  unfold hostPackField at h
  unfold hostType
  split at h
  case h_1 hkind =>
      injection h with h
      injection h with htype hgen
      rw [hkind, ← hgen, ← htype]
      simpa using hd
  case h_2 hkind =>
      obtain ⟨⟨name, gen⟩, hmirror, heq⟩ := Option.map_eq_some_iff.mp h
      injection heq with htype hgen
      obtain ⟨hname, hdecl⟩ := mirror_declared hd hmirror
      rw [hkind, ← htype, ← hgen, hname, if_pos rfl]
      exact ⟨rfl, hdecl⟩
  case h_3 hfloating hrecord =>
      injection h with h
      injection h with htype hgen
      rw [← hgen, ← htype, if_neg hrecord, List.append_nil]
      exact ⟨rfl, hd⟩

theorem records_cons (slot : String × Option Value) (rest : List (String × Option Value)) :
    records (slot :: rest)
      = (match slot.2 with
          | none => []
          | some value => if value.kind = .record then [(value.guest, value.host)] else [])
        ++ records rest := by
  obtain ⟨name, value⟩ := slot
  cases value with
  | none => rfl
  | some value => by_cases h : value.kind = .record <;> simp [records, h]

/-- The host pack, member by member, and the mirrors it declares. -/
theorem hostFields_declared {slots : List (String × Option Value)}
    {asked : List (CType × CType)} {generator : Generator}
    {fields : List (String × PackType)} {generator' : Generator}
    (hd : Declared spell asked generator)
    (h : generator.hostFields spell slots = some (fields, generator')) :
    fields = slots.map (hostSlot spell) ∧
      Declared spell (asked ++ records slots) generator' := by
  induction slots generalizing asked generator fields generator' with
  | nil =>
      injection h with h
      injection h with hfields hgen
      rw [← hfields, ← hgen]
      exact ⟨rfl, by simpa [records] using hd⟩
  | cons slot rest ih =>
      obtain ⟨name, value⟩ := slot
      rw [records_cons, ← List.append_assoc]
      cases value with
      | none =>
          obtain ⟨⟨fs, gen⟩, hrest, heq⟩ := Option.bind_eq_some_iff.mp h
          injection heq with heq
          injection heq with hfields hgen
          obtain ⟨hfs, hdecl⟩ := ih hd hrest
          rw [← hfields, ← hgen, hfs]
          exact ⟨rfl, by simpa using hdecl⟩
      | some value =>
          obtain ⟨⟨type, gen1⟩, hfield, h⟩ := Option.bind_eq_some_iff.mp h
          obtain ⟨⟨fs, gen2⟩, hrest, heq⟩ := Option.bind_eq_some_iff.mp h
          injection heq with heq
          injection heq with hfields hgen
          obtain ⟨htype, hdecl1⟩ := hostPackField_declared hd hfield
          obtain ⟨hfs, hdecl2⟩ := ih hdecl1 hrest
          rw [← hfields, ← hgen, hfs, htype]
          exact ⟨rfl, hdecl2⟩

/-- The mirror a record is spelled with is its namesake's. -/
theorem lookup_mirror {asked : List (CType × CType)} {generator : Generator}
    (hd : Declared spell asked generator) {value : Value}
    (hv : (value.guest, value.host) ∈ asked) :
    namesake spell asked value ∈ asked ∧
      ∃ struct, generator.mirrors.lookup (mirrorName spell value.guest) = some struct ∧
        Katabasis.mirror (namesake spell asked value).1 (namesake spell asked value).2
          = some struct := by
  obtain ⟨record, hrecord⟩ :
      ∃ record, firstNamed spell asked (mirrorName spell value.guest) = some record := by
    rw [← Option.isSome_iff_exists, firstNamed, List.find?_isSome]
    exact ⟨_, hv, by simp⟩
  obtain ⟨struct, hmirror, hlookup⟩ := hd.first _ _ hrecord
  rw [namesake, hrecord, Option.getD_some]
  exact ⟨List.mem_of_find?_eq_some hrecord, struct, hlookup, hmirror⟩

/-! ## The two packs -/

/-- The leaves `Mirror` works with: those collected before `Leaves` stopped. -/
def leafList (g h : CType) : List Leaf := ((leaves g h "" "" 0).map Prod.snd).getD []

/-- The bytes by which a record's mirror is longer than the record: what its leaves share with
the leaf before, and what narrow floating-point members are widened by. -/
def sharedBytes (g h : CType) : Nat :=
  Packed.excess Leaf.offset Leaf.bytes (fun leaf => leaf.member.bytes) 0 (leafList g h)

/-- The size of a mirror. -/
theorem mirror_size {g h : CType} {struct : MirrorStruct} (hw : g.WellFormed)
    (hm : Katabasis.mirror g h = some struct) : struct.size = g.guestSize + sharedBytes g h := by
  obtain ⟨⟨done, ls⟩, hl, rfl⟩ := Option.map_eq_some_iff.mp hm
  have hls : leafList g h = ls := by rw [leafList, hl]; rfl
  have hinside : ∀ leaf ∈ ls, leaf.offset + leaf.bytes ≤ g.guestSize := fun leaf hleaf => by
    have := (leaves_within hw hl leaf hleaf).2
    omega
  have htotal := Packed.total_rebuild (leaves_le_member hl) hinside (Nat.zero_le g.guestSize)
  rw [sharedBytes, hls, ← htotal, Nat.zero_add]
  rfl

/-- A mirror is exact, member by member and in size, exactly when the record's leaves are
apart. -/
theorem mirror_exact_iff {g h : CType} {struct : MirrorStruct} (hw : g.WellFormed)
    (hm : Katabasis.mirror g h = some struct) :
    (struct.offsets = (leafList g h).map Leaf.offset ∧ struct.size = g.guestSize) ↔
      Apart 0 (leafList g h) := by
  obtain ⟨⟨done, ls⟩, hl, rfl⟩ := Option.map_eq_some_iff.mp hm
  have hls : leafList g h = ls := by rw [leafList, hl]; rfl
  rw [hls]
  refine Packed.rebuild_exact_iff (leaves_le_member hl) fun leaf hleaf => ?_
  have := (leaves_within hw hl leaf hleaf).2
  omega

theorem mem_records {slots : List (String × Option Value)} {name : String} {value : Value}
    (h : (name, some value) ∈ slots) (hk : value.kind = .record) :
    (value.guest, value.host) ∈ records slots :=
  List.mem_map_of_mem (List.mem_filter.mpr ⟨List.mem_filterMap.mpr ⟨_, h, rfl⟩, by simpa using hk⟩)

/-- A member has one size in both packs, unless it is a record and the mirror under its name
is longer or shorter than it. -/
theorem packBytes_eq_iff {asked : List (CType × CType)} {slots : List (String × Option Value)}
    {generator : Generator} (hd : Declared spell (asked ++ records slots) generator)
    (hw : ∀ record ∈ asked ++ records slots, record.1.WellFormed)
    {slot : String × Option Value} (hs : slot ∈ slots) :
    generator.packBytes (match slot.2 with
        | none => .uint64
        | some value => guestPackField value) = generator.packBytes (hostSlot spell slot).2 ↔
      ∀ value, slot.2 = some value → value.kind = .record →
        (namesake spell (asked ++ records slots) value).1.guestSize
          + sharedBytes (namesake spell (asked ++ records slots) value).1
              (namesake spell (asked ++ records slots) value).2 = value.guest.guestSize := by
  obtain ⟨name, value⟩ := slot
  cases value with
  | none => simp [hostSlot]
  | some value =>
      by_cases hk : value.kind = .record
      · obtain ⟨hmem, struct, hlookup, hmirror⟩ :=
          lookup_mirror hd (List.mem_append_right asked (mem_records hs hk))
        have hsize := mirror_size (hw _ hmem) hmirror
        simp only [hostSlot, guestPackField, hostType, hk, packBytes, hlookup, Option.map_some,
          Option.getD_some, Option.some.injEq, forall_eq', forall_const]
        rw [eq_comm, hsize]
      · simp only [Option.some.injEq, forall_eq', hk, false_implies, iff_true, hostSlot]
        unfold guestPackField hostType
        split <;> first | rfl | exact absurd ‹_› hk

/-- **Where the two packs agree**, and the mirrors with the records they stand for. A mirror of
a record that `Leaves` walks to its end has its members at the guest's offsets and the guest's
size exactly when no two scalars of the record share memory and none is narrower than `float`.
The two packs have every field at the same offset, whatever mirrors have been asked for before,
exactly when each record that another field follows is as long as the mirror under its name:
that of the first record asked for under it, with the bytes its leaves share. -/
theorem packs_agree_iff (spell : CType → String) :
    (∀ (g h : CType) (ls : List Leaf) (struct : MirrorStruct), g.WellFormed →
      leaves g h "" "" 0 = some (true, ls) → Katabasis.mirror g h = some struct →
      ((struct.offsets = ls.map Leaf.offset ∧ struct.size = g.guestSize) ↔
        g.unshared = true)) ∧
    ∀ (asked : List (CType × CType)) (generator generator' : Generator) (signature : Signature)
      (kind : CallKind) (format : FormatInfo) (gfields hfields : List (String × PackType)),
      afterAsking spell asked = some generator →
      generator.emitBridge spell signature kind format = some (gfields, hfields, generator') →
      (∀ record ∈ asked ++ records (packSlots signature kind format), record.1.WellFormed) →
      gfields.map Prod.fst = hfields.map Prod.fst ∧
        ((∀ k < gfields.length,
            generator'.packOffset gfields k = generator'.packOffset hfields k) ↔
          ∀ (k : Nat) (name : String) (value : Value) (first : CType × CType),
            k + 1 < (packSlots signature kind format).length →
            (packSlots signature kind format)[k]? = some (name, some value) →
            value.kind = .record →
            namesake spell (asked ++ records (packSlots signature kind format)) value = first →
            first.1.guestSize + sharedBytes first.1 first.2 = value.guest.guestSize) := by
  constructor
  · intro g h ls struct hw hl hm
    have hls : leafList g h = ls := by rw [leafList, hl]; rfl
    rw [← leaves_apart_iff hw hl, ← hls]
    exact mirror_exact_iff hw hm
  · intro asked generator generator' signature kind format gfields hfields hasked hemit hw
    obtain ⟨⟨fields, gen⟩, hhost, heq⟩ := Option.map_eq_some_iff.mp hemit
    injection heq with hg heq
    injection heq with hh hgen
    obtain ⟨hfields, hd⟩ := hostFields_declared (afterAsking_declared hasked) hhost
    subst hg hh hgen hfields
    set slots := packSlots signature kind format with hslots
    refine ⟨by simp [guestFields, hostSlot, Function.comp_def], ?_⟩
    have hlen : ((guestFields slots).map fun field => gen.packBytes field.2).length
        = ((slots.map (hostSlot spell)).map fun field => gen.packBytes field.2).length := by
      simp [guestFields]
    have hoffsets := Packed.offsets_eq_iff hlen
    simp only [guestFields, List.length_map] at hoffsets ⊢
    simp only [packOffset, hoffsets]
    constructor
    · rintro hall k name value _ hk hslot hkind rfl
      have hsize := hall k hk
      rw [List.getElem?_map, List.getElem?_map, List.getElem?_map, List.getElem?_map, hslot]
        at hsize
      simp only [Option.map_some, Option.some.injEq] at hsize
      exact (packBytes_eq_iff hd hw (List.mem_of_getElem? hslot)).mp hsize value rfl hkind
    · intro hall k hk
      have hmem : slots[k] ∈ slots := List.getElem_mem (by omega)
      rw [List.getElem?_map, List.getElem?_map, List.getElem?_map, List.getElem?_map,
        List.getElem?_eq_getElem (by omega)]
      simp only [Option.map_some, Option.some.injEq]
      refine (packBytes_eq_iff hd hw hmem).mpr fun value hvalue hkind => ?_
      refine hall k slots[k].1 value _ hk ?_ hkind rfl
      rw [List.getElem?_eq_getElem (by omega), ← hvalue]

/-! ## A record with a union in it -/

/-- `struct { union { float f; int32_t i; } v; int32_t tag; }` -/
def tagged : CType :=
  .record false
    (.cons "v" 0 false
      (.record true
        (.cons "f" 0 false (.floating .single) (.cons "i" 0 false (.integer .w32 true) .nil)) 4)
      (.cons "tag" 4 false (.integer .w32 true) .nil)) 8

/-- Both members of the union are emitted, one behind the other: the mirror has twelve bytes
for eight, and `tag` is at 8 instead of 4. -/
theorem mirror_tagged_shifted :
    ¬ ∀ (g h : CType) (ls : List Leaf) (struct : MirrorStruct), g.WellFormed →
      leaves g h "" "" 0 = some (true, ls) → Katabasis.mirror g h = some struct →
      (struct.offsets = ls.map Leaf.offset ∧ struct.size = g.guestSize) := by
  intro hclaim
  have hw : tagged.WellFormed := by
    simp [tagged, CType.WellFormed, Fields.InOrder, Fields.AtStart, extent, CType.guestSize,
      IntWidth.bits, FloatWidth.bits]
  have hsize := (hclaim tagged tagged _ _ hw rfl rfl).2
  exact absurd hsize (by decide)

/-- A `struct p` asked for behind a typedef `struct_p` gets the other record's mirror. -/
example (spell : CType → String) (g h : CType) (value : Value) (hg : spell g = "struct_p")
    (hvalue : spell value.guest = "struct p") :
    namesake spell [(g, h), (value.guest, value.host)] value = (g, h) := by
  have hname : sanitize "struct_p" = sanitize "struct p" := by decide
  simp [namesake, firstNamed, mirrorName, hg, hvalue, hname]

/-- `struct { double x; float y[2]; }` -/
def plain : CType :=
  .record false
    (.cons "x" 0 false (.floating .double)
      (.cons "y" 8 false (.array (.floating .single) 2) .nil)) 16

def plainSignature : Signature :=
  { params := [⟨classify plain plain, "a0"⟩,
      ⟨classify (.integer .w64 true) (.integer .w32 true), "a1"⟩]
    result := classify (.floating .single) (.floating .single) }

/-- For a record without unions both halves apply: its mirror is exact, and so is the pack it
is a parameter of, also where a record under another name has been asked for before. -/
theorem packs_agree_iff_plain :
    (∃ struct, Katabasis.mirror plain plain = some struct ∧ struct.offsets = [0, 8, 12] ∧
      struct.size = 16) ∧
    ∃ (generator generator' : Generator) (gfields hfields : List (String × PackType)),
      afterAsking (fun type => if type.guestSize = 8 then "struct tagged" else "struct plain")
        [(tagged, tagged)] = some generator ∧
      emitBridge (fun type => if type.guestSize = 8 then "struct tagged" else "struct plain")
        generator plainSignature .function {} = some (gfields, hfields, generator') ∧
      ∀ k < gfields.length, generator'.packOffset gfields k = generator'.packOffset hfields k := by
  have hplain : plain.WellFormed := by
    simp [plain, CType.WellFormed, Fields.InOrder, extent, CType.guestSize, FloatWidth.bits]
  have htagged : tagged.WellFormed := by
    simp [tagged, CType.WellFormed, Fields.InOrder, Fields.AtStart, extent, CType.guestSize,
      IntWidth.bits, FloatWidth.bits]
  have hrecords : records (packSlots plainSignature .function {}) = [(plain, plain)] := rfl
  obtain ⟨hmirror, hpack⟩ := packs_agree_iff fun type =>
    if type.guestSize = 8 then "struct tagged" else "struct plain"
  refine ⟨⟨_, rfl, ?_⟩, _, _, _, _, rfl, rfl, ?_⟩
  · exact (hmirror plain plain _ _ hplain rfl rfl).mpr rfl
  · refine ((hpack [(tagged, tagged)] _ _ plainSignature .function {} _ _ rfl rfl ?_).2).mpr ?_
    · intro record hrecord
      rw [hrecords] at hrecord
      fin_cases hrecord
      · exact htagged
      · exact hplain
    · rintro k name value _ _ hslot hkind rfl
      have hv := mem_records (List.mem_of_getElem? hslot) hkind
      rw [hrecords, List.mem_singleton, Prod.mk.injEq] at hv
      rw [hrecords, namesake, hv.1, hv.2]
      decide

end Generator

end Katabasis
