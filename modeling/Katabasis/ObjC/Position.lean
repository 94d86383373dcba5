import Katabasis.ObjC.Reader
import Katabasis.Xlate.Placement

set_option autoImplicit false

/-! # The metadata wherever an image is placed

`AnalyzeObjC` reads an image where `LayoutAndResolve` has placed it, and what it gives is full of
placed addresses. It also takes an address of zero for none, reads at such an address where a
pointer was not one, and keeps the class objects of `__objc_clsrolist` in the order of their
addresses. None of this lets the place through: an image placed further on has the same metadata
with every address further on (`analyzeObjC_carried`), as long as neither place puts a part of it
on the first page.
-/

namespace Katabasis

open Std Reading

/-! ## A moved image -/

namespace Image

/-- The image, placed so much further. -/
def movedBy (image : Image) (d : UInt64) : Image := { image with slide := image.slide + d }

/-- No part of the image is on the first page, and its fixups are in the order of their places. -/
structure OffNull (image : Image) : Prop where
  memory : ∀ a < 0x1000, image.segmentForVM (a - image.slide) = none
  binds : ∀ a < 0x1000, a - image.slide ∉ image.binds
  rebases : ∀ a < 0x1000, a - image.slide ∉ image.rebases
  targets : ∀ (k t : UInt64), image.rebases[k]? = some t → 0x1000 ≤ image.host (t &&& targetBits)
  order : ∀ k ∈ image.rebases, ∀ k' ∈ image.rebases, k < k' → image.host k < image.host k'

end Image

namespace Metadata

/-- An address that has been carried along, or is none. -/
def Carried (d a b : UInt64) : Prop := b = a + d ∨ (a = 0 ∧ b = 0)

/-- An address that leads off the first page at both places, or is none. -/
def Leads (d a b : UInt64) : Prop :=
  (0x1000 ≤ a ∧ 0x1000 ≤ b ∧ b = a + d) ∨ (a = 0 ∧ b = 0)

/-- An address that has been carried along, or one near zero that has not. -/
def Beside (d a b : UInt64) : Prop := b = a + d ∨ (a < 0x100 ∧ b = a)

inductive CarriedPointer (d : UInt64) : Pointer → Pointer → Prop
  | null : CarriedPointer d .null .null
  | localTo {a b : UInt64} (h : Leads d a b) (ha : a ≠ 0) :
      CarriedPointer d (.localTo a) (.localTo b)
  | imported (symbol library : String) :
      CarriedPointer d (.imported symbol library) (.imported symbol library)
  | raw (value : UInt64) : CarriedPointer d (.raw value) (.raw value)

section

variable {d a b : UInt64}

/-- Two addresses that are carried along to the same one are the same. -/
theorem carry_injective (d : UInt64) : Function.Injective (· + d) := by
  intro a b hab
  have hsub := congrArg (· - d) hab
  simpa using hsub

theorem Leads.carried (h : Leads d a b) : Carried d a b := h.imp (fun h => h.2.2) id

/-- Zero is on the first page, so an address that leads off it is not zero at either place. -/
theorem Leads.eq_zero_iff (h : Leads d a b) : a = 0 ↔ b = 0 := by
  rcases h with ⟨ha, hb, -⟩ | ⟨rfl, rfl⟩
  · have ha' : a ≠ 0 := by
      rintro rfl
      exact absurd ha (by decide)
    have hb' : b ≠ 0 := by
      rintro rfl
      exact absurd hb (by decide)
    simp [ha', hb']
  · rfl

theorem Leads.eq_add (h : Leads d a b) (ha : a ≠ 0) : b = a + d := by
  rcases h with ⟨-, -, hb⟩ | ⟨rfl, -⟩
  · exact hb
  · exact absurd rfl ha

/-- What is near such an address is near the other. -/
theorem Leads.beside (h : Leads d a b) {k : UInt64} (hk : k < 0x100) :
    Beside d (a + k) (b + k) := by
  rcases h with ⟨-, -, rfl⟩ | ⟨rfl, rfl⟩
  · left
    ac_rfl
  · right
    rw [UInt64.zero_add]
    exact ⟨hk, rfl⟩

theorem Leads.beside_self (h : Leads d a b) : Beside d a b := by
  rcases h with ⟨-, -, hb⟩ | ⟨rfl, rfl⟩
  · exact .inl hb
  · exact .inr ⟨by decide, rfl⟩

end

/-! ## Reading at both places -/

section

variable {image : Image} {d : UInt64}

/-- The place is taken off an address before its bytes are looked for in the file. -/
theorem readBytes_movedBy (a size : UInt64) :
    (image.movedBy d).readBytes (a + d) size = image.readBytes a size := by
  have hvm : a + d - (image.slide + d) = a - image.slide := by grind
  simp only [Image.readBytes, Image.movedBy, hvm]
  rfl

theorem readBytes_low (h : image.OffNull) {a : UInt64} (ha : a < 0x1000) (size : UInt64) :
    image.readBytes a size = none := by
  simp only [Image.readBytes, h.memory a ha]

/-! What is read near zero is zero or null: a reader that goes on from a null pointer finds the same
at both places. -/

theorem u32_low (h : image.OffNull) {a : UInt64} (ha : a < 0x1000) : image.u32 a = 0 := by
  rw [Image.u32, readBytes_low h ha]
  rfl

/-- An address near zero with a little more is near zero. -/
theorem low_add {a k : UInt64} (ha : a < 0x100) (hk : k < 0x100) : a + k < 0x1000 := by
  rw [UInt64.lt_iff_toNat_lt] at *
  have h100 : (0x100 : UInt64).toNat = 256 := rfl
  have h1000 : (0x1000 : UInt64).toNat = 4096 := rfl
  rw [UInt64.toNat_add]
  omega

theorem low_of_lt {a : UInt64} (ha : a < 0x100) : a < 0x1000 :=
  UInt64.lt_trans ha (by decide)

theorem u64_low (h : image.OffNull) {a : UInt64} (ha : a < 0x100) : image.u64 a = 0 := by
  rw [Image.u64, u32_low h (low_of_lt ha), u32_low h (low_add ha (by decide))]
  rfl

theorem readPointer_low (h : image.OffNull) {a : UInt64} (ha : a < 0x100) :
    image.readPointer a = .null := by
  have hbind := ExtTreeMap.getElem?_eq_none (h.binds a (low_of_lt ha))
  have hrebase := ExtTreeMap.getElem?_eq_none (h.rebases a (low_of_lt ha))
  simp [Image.readPointer, hbind, hrebase, u64_low h ha]

variable (h : image.OffNull) (h' : (image.movedBy d).OffNull)

include h h'

/-- The word is found where it was, or it is zero at both places. -/
theorem u32_beside {a b : UInt64} (hab : Beside d a b) :
    (image.movedBy d).u32 b = image.u32 a := by
  rcases hab with rfl | ⟨ha, rfl⟩
  · rw [Image.u32, readBytes_movedBy, Image.u32]
  · rw [u32_low h (low_of_lt ha), u32_low h' (low_of_lt ha)]

theorem u64_beside {a b : UInt64} (hab : Beside d a b) :
    (image.movedBy d).u64 b = image.u64 a := by
  rcases hab with rfl | ⟨ha, rfl⟩
  · have hnext : a + d + 4 = a + 4 + d := by ac_rfl
    rw [Image.u64, Image.u64, hnext, u32_beside h h' (.inl rfl), u32_beside h h' (.inl rfl)]
  · rw [u64_low h ha, u64_low h' ha]

/-- The fixups are filed under addresses without the place. An import and a raw word are the same
at both places, a rebased pointer is carried along. -/
theorem readPointer_beside {a b : UInt64} (hab : Beside d a b) :
    CarriedPointer d (image.readPointer a) ((image.movedBy d).readPointer b) := by
  rcases hab with rfl | ⟨ha, rfl⟩
  · have hvm : a + d - (image.movedBy d).slide = a - image.slide := by
      show a + d - (image.slide + d) = _
      grind
    have hbinds : (image.movedBy d).binds = image.binds := rfl
    have hrebases : (image.movedBy d).rebases = image.rebases := rfl
    simp only [Image.readPointer, hvm, hbinds, hrebases, u64_beside h h' (.inl rfl)]
    cases hbind : image.binds[a - image.slide]? with
    | some bind => exact .imported _ _
    | none =>
        cases hrebase : image.rebases[a - image.slide]? with
        | some target =>
            -- the target leads off the first page, so it is none of the words taken for null
            have hmoved : (image.movedBy d).host (target &&& Image.targetBits)
                = image.host (target &&& Image.targetBits) + d := (UInt64.add_assoc ..).symm
            have hlow := h.targets _ _ hrebase
            refine .localTo (.inl ⟨hlow, h'.targets _ _ hrebase, hmoved⟩) fun hzero => ?_
            rw [hzero] at hlow
            exact absurd hlow (by decide)
        | none =>
            simp only
            split
            · exact .raw _
            · exact .null
  · rw [readPointer_low h ha, readPointer_low h' ha]
    exact .null

/-- A pointer that is not into the image is told of, at both places in the same words. -/
theorem readLocal_beside {a b : UInt64} (hab : Beside d a b) (what : String) :
    Alike (Leads d) (image.readLocal a what) ((image.movedBy d).readLocal b what) := by
  have hpointer := readPointer_beside h h' hab
  rw [Image.readLocal, Image.readLocal]
  revert hpointer
  generalize image.readPointer a = pointer, (image.movedBy d).readPointer b = pointer'
  intro hpointer
  cases hpointer with
  | null => exact alike_pure (.inr ⟨rfl, rfl⟩)
  | localTo hleads _ => exact alike_pure hleads
  | imported => exact alike_bind (alike_tell _) fun _ _ _ => alike_pure (.inr ⟨rfl, rfl⟩)
  | raw => exact alike_bind (alike_tell _) fun _ _ _ => alike_pure (.inr ⟨rfl, rfl⟩)

omit h h' in
/-- One address fewer is left. -/
theorem left_succ {a : UInt64} {n : Nat} (hn : n + 1 = (0 - a).toNat) :
    n = (0 - (a + 1)).toNat := by
  have hone : (1 : UInt64) ≤ 0 - a := by
    rw [UInt64.le_iff_toNat_le, ← hn]
    exact Nat.le_add_left 1 n
  have hsub : 0 - (a + 1) = 0 - a - 1 := by grind
  rw [hsub, UInt64.toNat_sub_of_le _ _ hone, ← hn]
  rfl

omit h h' in
theorem eq_zero_of_left {a : UInt64} (hn : 0 = (0 - a).toNat) : a = 0 := by
  have hzero : 0 - a = 0 := UInt64.toNat_inj.mp hn.symm
  grind

/-- A string is read to its end or to the end of the address space, which is at another distance
from each place. -/
theorem readChars_moved (n m : Nat) {a : UInt64} (hn : n = (0 - a).toNat)
    (hm : m = (0 - (a + d)).toNat) :
    (image.movedBy d).readChars m (a + d) = image.readChars n a := by
  induction n generalizing a m with
  | zero =>
      -- the address zero ends the string at one place; at the other nothing is to be read there
      rw [eq_zero_of_left hn]
      cases m with
      | zero => rfl
      | succ m =>
          have hnone : (image.movedBy d).readBytes (0 + d) 1 = none :=
            (readBytes_movedBy 0 1).trans (readBytes_low h (by decide) 1)
          simp only [Image.readChars, hnone]
  | succ n ih =>
      cases m with
      | zero =>
          -- the other way round: what is at zero at the other place is not in the image
          have hzero : image.readBytes a 1 = none := by
            calc image.readBytes a 1 = (image.movedBy d).readBytes (a + d) 1 :=
                  (readBytes_movedBy a 1).symm
              _ = (image.movedBy d).readBytes 0 1 := by rw [eq_zero_of_left hm]
              _ = none := readBytes_low h' (by decide) 1
          rw [Image.readChars, Image.readChars, hzero]
      | succ m =>
          have hnext : a + d + 1 = a + 1 + d := by ac_rfl
          have hrest := ih m (a := a + 1) (left_succ hn) (by rw [← hnext]; exact left_succ hm)
          rw [Image.readChars, Image.readChars, readBytes_movedBy, hnext, hrest]

theorem readString_carried {a b : UInt64} (hab : Carried d a b) :
    (image.movedBy d).readString b = image.readString a := by
  rcases hab with rfl | ⟨rfl, rfl⟩
  · exact congrArg String.ofList (readChars_moved h h' _ _ rfl rfl)
  · rfl

end

/-! ## Lists at both places -/

/-- **A list is read alike at both places** if each of its entries is, and is carried along. -/
theorem collect_leads {d list list' : UInt64} (hlist : Leads d list list') {β : Type}
    {R : β → β → Prop} {f g : UInt64 → Reading String (Turn β)}
    (hfg : ∀ entry, Alike (Turn.Alike R) (f entry) (g (entry + d))) (count : Nat)
    (place : UInt64 → Nat → UInt64) (hplace : ∀ i, place (list + d) i = place list i + d) :
    Alike (List.Forall₂ R)
      (if list = 0 then pure [] else collect (fun i => f (place list i)) (List.range count))
      (if list' = 0 then pure [] else collect (fun i => g (place list' i)) (List.range count)) := by
  by_cases hzero : list = 0
  · rw [if_pos hzero, if_pos (hlist.eq_zero_iff.mp hzero)]
    exact alike_pure .nil
  · rw [if_neg hzero, if_neg (hlist.eq_zero_iff.not.mp hzero), hlist.eq_add hzero]
    refine alike_collect (R := Eq) (fun i j hij => ?_) (List.forall₂_same.mpr fun _ _ => rfl)
    rw [← hij, hplace]
    exact hfg _

theorem entryAt_add (list d : UInt64) (entsize : UInt32) (i : Nat) :
    entryAt (list + d) entsize i = entryAt list entsize i + d := by
  rw [entryAt, entryAt]
  ac_rfl

/-! Of each record the numbers and the texts are the same, and the addresses carried along. -/

structure Method.Carried (d : UInt64) (a b : Method) : Prop where
  selector : b.selector = a.selector
  types : b.types = a.types
  nameAddress : Metadata.Carried d a.nameAddress b.nameAddress
  typesAddress : Metadata.Carried d a.typesAddress b.typesAddress
  imp : Metadata.Carried d a.imp b.imp

structure Property.Carried (d : UInt64) (a b : Property) : Prop where
  name : b.name = a.name
  attributes : b.attributes = a.attributes
  nameAddress : Metadata.Carried d a.nameAddress b.nameAddress
  attributesAddress : Metadata.Carried d a.attributesAddress b.attributesAddress

structure Ivar.Carried (d : UInt64) (a b : Ivar) : Prop where
  name : b.name = a.name
  type : b.type = a.type
  offsetAddress : Metadata.Carried d a.offsetAddress b.offsetAddress
  offsetValue : b.offsetValue = a.offsetValue
  nameAddress : Metadata.Carried d a.nameAddress b.nameAddress
  typeAddress : Metadata.Carried d a.typeAddress b.typeAddress
  alignment : b.alignment = a.alignment
  size : b.size = a.size

structure ClassData.Carried (d : UInt64) (a b : ClassData) : Prop where
  flags : b.flags = a.flags
  instanceStart : b.instanceStart = a.instanceStart
  instanceSize : b.instanceSize = a.instanceSize
  name : b.name = a.name
  nameAddress : Metadata.Carried d a.nameAddress b.nameAddress
  methods : List.Forall₂ (Method.Carried d) a.methods b.methods
  ivars : List.Forall₂ (Ivar.Carried d) a.ivars b.ivars
  properties : List.Forall₂ (Property.Carried d) a.properties b.properties
  protocols : b.protocols = a.protocols.map (· + d)

section

variable {image : Image} {d : UInt64} (h : image.OffNull) (h' : (image.movedBy d).OffNull)

include h h'

/-- The texts of a method are read where its addresses lead. -/
theorem named_carried {m m' : Method} (hname : Carried d m.nameAddress m'.nameAddress)
    (htypes : Carried d m.typesAddress m'.typesAddress) (himp : Carried d m.imp m'.imp) :
    (named image m).Carried d (named (image.movedBy d) m') where
  selector := readString_carried h h' hname
  types := readString_carried h h' htypes
  nameAddress := hname
  typesAddress := htypes
  imp := himp

/-- An entry of relative offsets reaches its name through a slot, and its types and code by their
distance from the entry; one of pointers has all three rebased. -/
theorem readMethod_moved (isRelative : Bool) (entsize : UInt32) (entry : UInt64) :
    Alike (Turn.Alike (Method.Carried d)) (readMethod image isRelative entsize entry)
      (readMethod (image.movedBy d) isRelative entsize (entry + d)) := by
  have hat : ∀ k, Beside d (entry + k) (entry + d + k) := fun k => .inl (by ac_rfl)
  have hself : Beside d entry (entry + d) := .inl rfl
  unfold readMethod
  split
  · rw [u32_beside h h' hself, u32_beside h h' (hat 4), u32_beside h h' (hat 8)]
    have hname := readPointer_beside h h' (hat (signedOffset (image.u32 entry)))
    revert hname
    generalize image.readPointer _ = pointer, (image.movedBy d).readPointer _ = pointer'
    intro hname
    cases hname with
    | localTo hleads _ =>
        refine alike_pure (.push (named_carried h h' hleads.carried (.inl ?_) (.inl ?_)))
        · show entry + d + 4 + _ = entry + 4 + _ + d
          ac_rfl
        · show entry + d + 8 + _ = entry + 8 + _ + d
          ac_rfl
    | _ => exact alike_bind (alike_tell _) fun _ _ _ => alike_pure .skip
  · split
    · exact alike_bind (alike_tell _) fun _ _ _ => alike_pure .leave
    · refine alike_bind (readLocal_beside h h' hself _) fun name name' hname => ?_
      refine alike_bind (readLocal_beside h h' (hat 8) _) fun types types' htypes => ?_
      refine alike_bind (readLocal_beside h h' (hat 16) _) fun imp imp' himp => ?_
      exact alike_pure (.push (named_carried h h' hname.carried htypes.carried himp.carried))

/-- The head of a list says how its entries are read. A list that is none has no head, and no
entries. -/
theorem readMethods_leads {list list' : UInt64} (hlist : Leads d list list') :
    Alike (List.Forall₂ (Method.Carried d)) (readMethods image list)
      (readMethods (image.movedBy d) list') := by
  rw [readMethods, readMethods, u32_beside h h' hlist.beside_self,
    u32_beside h h' (hlist.beside (by decide))]
  exact collect_leads hlist (readMethod_moved h h' _ _) _ (fun list i => entryAt list _ i)
    fun i => entryAt_add list d _ i

theorem readProperty_moved (entry : UInt64) :
    Alike (Turn.Alike (Property.Carried d)) (readProperty image entry)
      (readProperty (image.movedBy d) (entry + d)) := by
  refine alike_bind (readLocal_beside h h' (.inl rfl) _) fun name name' hname => ?_
  refine alike_bind (readLocal_beside h h' (.inl (by ac_rfl)) _) fun text text' htext => ?_
  exact alike_pure (.push
    { name := readString_carried h h' hname.carried
      attributes := readString_carried h h' htext.carried
      nameAddress := hname.carried
      attributesAddress := htext.carried })

theorem readProperties_leads {list list' : UInt64} (hlist : Leads d list list') :
    Alike (List.Forall₂ (Property.Carried d)) (readProperties image list)
      (readProperties (image.movedBy d) list') := by
  rw [readProperties, readProperties, u32_beside h h' hlist.beside_self,
    u32_beside h h' (hlist.beside (by decide))]
  exact collect_leads hlist (readProperty_moved h h') _ (fun list i => entryAt list _ i)
    fun i => entryAt_add list d _ i

/-- An entry that is kept is not null, and so it is carried along. -/
theorem readEntry_moved (what : String) {entry entry' : UInt64} (hentry : Beside d entry entry') :
    Alike (Turn.Alike fun a b => a + d = b) (readEntry image what entry)
      (readEntry (image.movedBy d) what entry') := by
  refine alike_bind (readLocal_beside h h' hentry _) fun target target' htarget => ?_
  by_cases hzero : target = 0
  · rw [if_pos hzero, if_pos (htarget.eq_zero_iff.mp hzero)]
    exact alike_pure .skip
  · rw [if_neg hzero, if_neg (htarget.eq_zero_iff.not.mp hzero)]
    exact alike_pure (.push (htarget.eq_add hzero).symm)

omit h h' in
theorem forall₂_add_iff {as bs : List UInt64} :
    List.Forall₂ (fun a b => a + d = b) as bs ↔ bs = as.map (· + d) := by
  rw [← List.forall₂_map_left_iff, List.forall₂_eq_eq_eq, eq_comm]

theorem readProtocolList_leads {list list' : UInt64} (hlist : Leads d list list') :
    Alike (fun a b => b = a.map (· + d)) (readProtocolList image list)
      (readProtocolList (image.movedBy d) list') := by
  rw [readProtocolList, readProtocolList, u64_beside h h' hlist.beside_self]
  have hlists := collect_leads hlist (fun entry => readEntry_moved h h' "protocol list entry"
    (.inl rfl)) (image.u64 list).toNat
    (fun list i => list + 8 + UInt64.ofNat i * 8) (fun i => by ac_rfl)
  exact ⟨forall₂_add_iff.mp hlists.1, hlists.2⟩

theorem readIvar_moved (entry : UInt64) :
    Alike (Turn.Alike (Ivar.Carried d)) (readIvar image entry)
      (readIvar (image.movedBy d) (entry + d)) := by
  have hat : ∀ k, Beside d (entry + k) (entry + d + k) := fun k => .inl (by ac_rfl)
  refine alike_bind (readLocal_beside h h' (.inl rfl) _) fun place place' hplace => ?_
  refine alike_bind (readLocal_beside h h' (hat 8) _) fun name name' hname => ?_
  refine alike_bind (readLocal_beside h h' (hat 16) _) fun type type' htype => ?_
  refine alike_pure (.push
    { name := readString_carried h h' hname.carried
      type := readString_carried h h' htype.carried
      offsetAddress := hplace.carried
      -- the offset is read at an address of its own, which may be none
      offsetValue := ?_
      nameAddress := hname.carried
      typeAddress := htype.carried
      alignment := u32_beside h h' (hat 24)
      size := u32_beside h h' (hat 28) })
  simp only [ne_eq, ← hplace.eq_zero_iff, u32_beside h h' hplace.beside_self]

theorem readIvars_leads {list list' : UInt64} (hlist : Leads d list list') :
    Alike (List.Forall₂ (Ivar.Carried d)) (readIvars image list)
      (readIvars (image.movedBy d) list') := by
  rw [readIvars, readIvars, u32_beside h h' hlist.beside_self,
    u32_beside h h' (hlist.beside (by decide))]
  exact collect_leads hlist (readIvar_moved h h') _ (fun list i => entryAt list _ i)
    fun i => entryAt_add list d _ i

/-- The `class_ro_t`, member by member in the reader's order. All of them are within the first
hundred bytes, so a class without one reads zeros. -/
theorem readData_leads {ro ro' : UInt64} (hro : Leads d ro ro') :
    Alike (ClassData.Carried d) (readData image ro) (readData (image.movedBy d) ro') := by
  have hlocal : ∀ k < 0x100, ∀ what, Alike (Leads d) (image.readLocal (ro + k) what)
      ((image.movedBy d).readLocal (ro' + k) what) :=
    fun k hk what => readLocal_beside h h' (hro.beside hk) what
  refine alike_bind (hlocal 24 (by decide) _) fun name name' hname => ?_
  refine alike_bind (hlocal 32 (by decide) _) fun list list' hlist => ?_
  refine alike_bind (readMethods_leads h h' hlist) fun methods methods' hmethods => ?_
  refine alike_bind (hlocal 40 (by decide) _) fun list list' hlist => ?_
  refine alike_bind (readProtocolList_leads h h' hlist) fun protocols protocols' hprotocols => ?_
  refine alike_bind (hlocal 48 (by decide) _) fun list list' hlist => ?_
  refine alike_bind (readIvars_leads h h' hlist) fun ivars ivars' hivars => ?_
  refine alike_bind (hlocal 64 (by decide) _) fun list list' hlist => ?_
  refine alike_bind (readProperties_leads h h' hlist) fun properties properties' hproperties => ?_
  exact alike_pure
    { flags := u32_beside h h' hro.beside_self
      instanceStart := u32_beside h h' (hro.beside (by decide))
      instanceSize := u32_beside h h' (hro.beside (by decide))
      name := readString_carried h h' hname.carried
      nameAddress := hname.carried
      methods := hmethods
      ivars := hivars
      properties := hproperties
      protocols := hprotocols }

end

/-! ## Classes at both places -/

theorem toNat_untagged (a : UInt64) : (untagged a).toNat = a.toNat / 8 * 8 := by
  rw [untagged, UInt64.toNat_and, UInt64.toNat_not]
  exact and_not_mask a.toNat 3 a.toNat_lt (by decide)

theorem flags_and (a : UInt64) : (a &&& 3).toNat = a.toNat % 4 := by
  rw [UInt64.toNat_and]
  exact Nat.and_two_pow_sub_one_eq_mod a.toNat 2

section

variable {d a b : UInt64} (hd : d.toNat % 8 = 0) (hab : Leads d a b)

include hd

/-- A place that is a multiple of eight keeps the three bits that are masked off. -/
theorem untagged_add (a : UInt64) : untagged (a + d) = untagged a + d := by
  have ha := a.toNat_lt
  have hd' := d.toNat_lt
  rw [← UInt64.toNat_inj, UInt64.toNat_add, toNat_untagged, toNat_untagged, UInt64.toNat_add]
  omega

include hab

/-- The places of a class and of its data keep the bits that Swift tags them with. -/
theorem Leads.untagged : Leads d (untagged a) (untagged b) := by
  rcases hab with ⟨ha, hb, rfl⟩ | ⟨rfl, rfl⟩
  · left
    rw [UInt64.le_iff_toNat_le] at ha hb ⊢
    rw [UInt64.le_iff_toNat_le, toNat_untagged, toNat_untagged]
    have h1000 : (0x1000 : UInt64).toNat = 4096 := rfl
    exact ⟨by omega, by omega, untagged_add hd a⟩
  · exact .inr ⟨rfl, rfl⟩

theorem Leads.flags : b &&& 3 = a &&& 3 := by
  rcases hab with ⟨-, -, rfl⟩ | ⟨rfl, rfl⟩
  · rw [← UInt64.toNat_inj, flags_and, flags_and, UInt64.toNat_add]
    have ha := a.toNat_lt
    omega
  · rfl

end

structure ObjCClass.Carried (d : UInt64) (a b : ObjCClass) : Prop where
  address : b.address = a.address + d
  swift : b.swift = a.swift
  superclass : CarriedPointer d a.superclass b.superclass
  data : a.data.Carried d b.data
  metaclass : Metadata.Carried d a.metaclass b.metaclass
  metaIsa : CarriedPointer d a.metaIsa b.metaIsa
  metaSuperclass : CarriedPointer d a.metaSuperclass b.metaSuperclass
  metaData : a.metaData.Carried d b.metaData

inductive Half.Carried (d : UInt64) : UInt64 × Half → UInt64 × Half → Prop
  | cls {object : UInt64} {a b : Pointer} (h : CarriedPointer d a b) :
      Carried d (object, .cls a) (object + d, .cls b)
  | metaclass {object : UInt64} : Carried d (object, .metaclass) (object + d, .metaclass)

structure Rolist.Carried (d : UInt64) (a b : Rolist) : Prop where
  halves : List.Forall₂ (Half.Carried d) a.halves b.halves
  count : b.count = a.count
  unowned : b.unowned = a.unowned

section

variable {image : Image} {d : UInt64} (h : image.OffNull) (h' : (image.movedBy d).OffNull)
  (hd : d.toNat % 8 = 0)

include h h'

include hd in
/-- The class object, its data, and the metaclass's data behind its `isa`. -/
theorem readClass_moved (entry : UInt64) :
    Alike (Turn.Alike (ObjCClass.Carried d)) (readClass image entry)
      (readClass (image.movedBy d) (entry + d)) := by
  refine alike_bind (readLocal_beside h h' (.inl rfl) _) fun address address' haddress => ?_
  by_cases hzero : address = 0
  · rw [if_pos hzero, if_pos (haddress.eq_zero_iff.mp hzero)]
    exact alike_pure .skip
  · rw [if_neg hzero, if_neg (haddress.eq_zero_iff.not.mp hzero)]
    refine alike_bind (readLocal_beside h h' haddress.beside_self _) fun isa isa' hisa => ?_
    refine alike_bind (readLocal_beside h h' (haddress.beside (by decide)) _)
      fun bits bits' hbits => ?_
    refine alike_bind (readData_leads h h' (hbits.untagged hd)) fun data data' hdata => ?_
    refine alike_bind (readLocal_beside h h' (hisa.beside (by decide)) _)
      fun metaBits metaBits' hmetaBits => ?_
    refine alike_bind (readData_leads h h' (hmetaBits.untagged hd))
      fun metaData metaData' hmetaData => ?_
    exact alike_pure (.push
      { address := haddress.eq_add hzero
        swift := by simp only [hbits.flags hd]
        superclass := readPointer_beside h h' (haddress.beside (by decide))
        data := hdata
        metaclass := hisa.carried
        metaIsa := readPointer_beside h h' hisa.beside_self
        metaSuperclass := readPointer_beside h h' (hisa.beside (by decide))
        metaData := hmetaData })

include hd in
/-- A slot that leads to one of the listed `class_ro_t`s belongs to the class object 32 bytes in
front of it. -/
theorem classObjectAt_moved (ros : List UInt64) (slot : UInt64) :
    classObjectAt (image.movedBy d) (ros.map (· + d)) (slot + d)
      = (classObjectAt image ros slot).map (Maps.rename (· + d) (· + d)) := by
  have hpointer := readPointer_beside h h' (a := slot) (.inl rfl)
  rw [classObjectAt, classObjectAt]
  revert hpointer
  generalize image.readPointer slot = pointer, (image.movedBy d).readPointer (slot + d) = pointer'
  intro hpointer
  cases hpointer with
  | localTo hleads hne =>
      rw [hleads.eq_add hne]
      simp only [untagged_add hd, List.mem_map_of_injective (carry_injective d)]
      split
      · have hslot : slot + d - 32 = slot - 32 + d := by grind
        rw [hslot]
        rfl
      · rfl
  | _ => rfl

/-! The sections are the same at both places but for where they start. -/

omit h h' in
theorem wholeEntries_movedBy (sect : Section) (size : UInt64) :
    sect.wholeEntries (image.movedBy d) size = (sect.wholeEntries image size).map (· + d) := by
  rw [Section.wholeEntries, Section.wholeEntries, List.map_map]
  apply List.map_congr_left
  intro i _
  exact (UInt64.add_assoc ..).symm

omit h h' in
theorem entries_movedBy (sect : Section) (size : UInt64) :
    sect.entries (image.movedBy d) size = (sect.entries image size).map (· + d) := by
  rw [Section.entries, Section.entries, List.map_map]
  apply List.map_congr_left
  intro i _
  exact (UInt64.add_assoc ..).symm

/-- The class objects that the sections hold, as they are found. -/
def foundObjects (image : Image) (ros : List UInt64) : List (UInt64 × UInt64) :=
  (image.sections.filter isSearched).flatMap fun sect =>
    (sect.wholeEntries image 8).filterMap (classObjectAt image ros)

include hd in
theorem foundObjects_movedBy (ros : List UInt64) :
    foundObjects (image.movedBy d) (ros.map (· + d))
      = (foundObjects image ros).map (Maps.rename (· + d) (· + d)) := by
  rw [foundObjects, foundObjects, List.map_flatMap]
  refine List.flatMap_congr fun sect _ => ?_
  rw [wholeEntries_movedBy, List.filterMap_map, List.map_filterMap]
  refine List.filterMap_congr fun slot _ => ?_
  exact classObjectAt_moved h h' hd ros slot

/-- The slot of a class object is rebased, and off the first page. -/
theorem foundObject_slot {ros : List UInt64} {object : UInt64 × UInt64}
    (hfound : object ∈ foundObjects image ros) :
    ∃ k ∈ image.rebases, object.1 = image.host k - 32 ∧ 0x1000 ≤ image.host k ∧
      0x1000 ≤ image.host k + d := by
  obtain ⟨sect, -, hsect⟩ := List.mem_flatMap.mp hfound
  obtain ⟨slot, -, hslot⟩ := List.mem_filterMap.mp hsect
  -- a slot that is not rebased holds no pointer into the image
  have hkey : slot - image.slide ∈ image.rebases := by
    by_contra hno
    have hnone := ExtTreeMap.getElem?_eq_none hno
    simp only [classObjectAt, Image.readPointer, hnone] at hslot
    cases hbind : image.binds[slot - image.slide]? with
    | some bind => simp [hbind] at hslot
    | none =>
        simp only [hbind] at hslot
        split at hslot
        case h_1 hlocal => split at hlocal <;> cases hlocal
        case h_2 => cases hslot
  have hhost : image.host (slot - image.slide) = slot := UInt64.sub_add_cancel ..
  have hobject : object.1 = slot - 32 := by
    rw [classObjectAt] at hslot
    split at hslot
    case h_1 =>
      split at hslot
      case isTrue => rw [← Option.some.inj hslot]
      case isFalse => cases hslot
    case h_2 => cases hslot
  -- and a rebased one is off the first page at both places
  refine ⟨_, hkey, by rw [hhost, hobject], ?_, ?_⟩
  · rw [hhost]
    by_contra hlow
    exact h.rebases slot (UInt64.not_le.mp hlow) hkey
  · rw [hhost]
    by_contra hlow
    refine h'.rebases (slot + d) (UInt64.not_le.mp hlow) ?_
    have hvm : slot + d - (image.slide + d) = slot - image.slide := by grind
    show slot + d - (image.slide + d) ∈ image.rebases
    rwa [hvm]

/-- **The class objects are in the same order at both places.** -/
theorem foundObjects_order {ros : List UInt64} :
    ∀ a ∈ foundObjects image ros, ∀ b ∈ foundObjects image ros,
      compare a.1 b.1 = .lt → compare (a.1 + d) (b.1 + d) = .lt := by
  intro a ha b hb hab
  obtain ⟨k, hk, hak, hka, hka'⟩ := foundObject_slot h h' ha
  obtain ⟨k', hk', hbk, hkb, hkb'⟩ := foundObject_slot h h' hb
  have h32 : (32 : UInt64).toNat = 32 := rfl
  have h1000 : (0x1000 : UInt64).toNat = 4096 := rfl
  -- above the first page, the 32 bytes in front of a slot do not wrap
  have hsub : ∀ {x y : UInt64}, 0x1000 ≤ x → 0x1000 ≤ y → (x - 32 < y - 32 ↔ x < y) := by
    intro x y hx hy
    rw [UInt64.le_iff_toNat_le] at hx hy
    have hx' : (32 : UInt64) ≤ x := UInt64.le_iff_toNat_le.mpr (by omega)
    have hy' : (32 : UInt64) ≤ y := UInt64.le_iff_toNat_le.mpr (by omega)
    rw [UInt64.lt_iff_toNat_lt, UInt64.lt_iff_toNat_lt, UInt64.toNat_sub_of_le _ _ hx',
      UInt64.toNat_sub_of_le _ _ hy']
    omega
  have hmove : ∀ x : UInt64, x - 32 + d = x + d - 32 := fun x => by grind
  rw [Std.compare_eq_lt, hak, hbk, hsub hka hkb] at hab
  rw [Std.compare_eq_lt, hak, hbk, hmove, hmove, hsub hka' hkb']
  -- the fixups are in the order of their places, so the keys are in the order of the objects
  have hlt : k < k' := by
    rcases lt_trichotomy k k' with hlt | heq | hgt
    · exact hlt
    · rw [heq] at hab
      exact absurd hab (UInt64.lt_irrefl _)
    · exact absurd (h.order k' hk' k hk hgt) (UInt64.lt_asymm hab)
  have hmoved := h'.order k hk k' hk' hlt
  simp only [Image.host, Image.movedBy] at hmoved ⊢
  rwa [UInt64.add_assoc, UInt64.add_assoc]

include hd in
/-- So the map of the class objects is carried along entry by entry. -/
theorem objectRo_toList (ros : List UInt64) :
    (objectRo (image.movedBy d) (ros.map (· + d))).toList
      = (objectRo image ros).toList.map (Maps.rename (· + d) (· + d)) := by
  have hfound := foundObjects_movedBy h h' hd ros
  show (Maps.insertList (foundObjects _ _) _).toList = _
  rw [hfound]
  exact Maps.toList_insertList_rename (foundObjects_order h h')

include hd in
theorem contains_objectRo (ros : List UInt64) (object : UInt64) :
    (objectRo (image.movedBy d) (ros.map (· + d))).contains (object + d)
      = (objectRo image ros).contains object := by
  have hkeys : ∀ (m : ExtTreeMap UInt64 UInt64) (k : UInt64),
      m.contains k = true ↔ k ∈ m.toList.map Prod.fst := by
    intro m k
    rw [ExtTreeMap.map_fst_toList_eq_keys, ExtTreeMap.mem_keys, ExtTreeMap.contains_iff_mem]
  rw [Bool.eq_iff_iff, hkeys, hkeys, objectRo_toList h h' hd, List.map_map]
  show _ ∈ List.map ((· + d) ∘ Prod.fst) _ ↔ _
  rw [← List.map_map, List.mem_map_of_injective (carry_injective d)]

include hd in
/-- Whether the metaclass of a class object is listed too. -/
theorem hasListedIsa_moved (ros : List UInt64) (object : UInt64) :
    hasListedIsa (image.movedBy d) (objectRo (image.movedBy d) (ros.map (· + d))) (object + d)
      = hasListedIsa image (objectRo image ros) object := by
  have hisa := readPointer_beside h h' (a := object) (.inl rfl)
  rw [hasListedIsa, hasListedIsa]
  revert hisa
  generalize image.readPointer object = pointer,
    (image.movedBy d).readPointer (object + d) = pointer'
  intro hisa
  cases hisa with
  | localTo hleads hne =>
      rw [hleads.eq_add hne]
      exact contains_objectRo h h' hd ros _
  | _ => rfl

include hd in
/-- A listed object is a metaclass, a class whose metaclass is listed, or is told of. -/
theorem readHalf_moved (ros : List UInt64) (object : UInt64 × UInt64) :
    Alike (Turn.Alike (Half.Carried d)) (readHalf image (objectRo image ros) object)
      (readHalf (image.movedBy d) (objectRo (image.movedBy d) (ros.map (· + d)))
        (Maps.rename (· + d) (· + d) object)) := by
  have hsuper : Beside d (object.1 + 8) (object.1 + d + 8) := .inl (by ac_rfl)
  simp only [readHalf, Maps.rename, u32_beside h h' (.inl rfl), hasListedIsa_moved h h' hd]
  split
  · exact alike_pure (.push .metaclass)
  · split
    · exact alike_pure (.push (.cls (readPointer_beside h h' hsuper)))
    · exact alike_bind (alike_tell _) fun _ _ _ => alike_pure .skip

include hd in
/-- `__objc_clsrolist`: the entries, the class objects that point at them, and how many have none. -/
theorem readRolist_moved (list : Section) :
    Alike (Rolist.Carried d) (readRolist image list) (readRolist (image.movedBy d) list) := by
  have hlist : List.Forall₂ (fun a b => a + d = b) (list.entries image 8)
      (list.entries (image.movedBy d) 8) := forall₂_add_iff.mpr (entries_movedBy list 8)
  refine alike_bind (alike_collect (fun a b hab => readEntry_moved h h' _ (.inl hab.symm)) hlist)
    fun entries entries' hentries => ?_
  have hros : entries'.dedup = entries.dedup.map (· + d) := by
    rw [forall₂_add_iff.mp hentries, List.dedup_map_of_injective (carry_injective d)]
  have hobjects := objectRo_toList h h' hd entries.dedup
  simp only [hros, hobjects]
  refine alike_bind (alike_collect (R := fun a b => Maps.rename (· + d) (· + d) a = b)
    (fun a b hab => hab ▸ readHalf_moved h h' hd entries.dedup a) ?_) fun halves halves' hhalves => ?_
  · rw [← List.forall₂_map_left_iff, List.forall₂_eq_eq_eq]
  · refine alike_pure
      { halves := hhalves
        count := by simp only [List.length_map]
        unowned := ?_ }
    -- no two of the `class_ro_t`s become one
    have howned : ((((objectRo image entries.dedup).toList.map
        (Maps.rename (· + d) (· + d))).map Prod.snd).dedup).length
          = (((objectRo image entries.dedup).toList.map Prod.snd).dedup).length := by
      rw [List.map_map]
      show ((List.map ((· + d) ∘ Prod.snd) _).dedup).length = _
      rw [← List.map_map, List.dedup_map_of_injective (carry_injective d), List.length_map]
    simp only [howned, List.length_map]

end

/-! ## The other lists at both places -/

structure ObjCCategory.Carried (d : UInt64) (a b : ObjCCategory) : Prop where
  name : b.name = a.name
  nameAddress : Metadata.Carried d a.nameAddress b.nameAddress
  cls : CarriedPointer d a.cls b.cls
  instanceMethods : List.Forall₂ (Method.Carried d) a.instanceMethods b.instanceMethods
  classMethods : List.Forall₂ (Method.Carried d) a.classMethods b.classMethods
  properties : List.Forall₂ (Property.Carried d) a.properties b.properties
  protocols : b.protocols = a.protocols.map (· + d)

structure CarriedString (d : UInt64) (a b : ConstantString) : Prop where
  address : b.address = a.address + d
  flags : b.flags = a.flags
  string : Carried d a.string b.string
  length : b.length = a.length

structure SelectorReference.Carried (d : UInt64) (a b : SelectorReference) : Prop where
  slot : b.slot = a.slot + d
  string : Metadata.Carried d a.string b.string
  selector : b.selector = a.selector

structure ObjCProtocol.Carried (d : UInt64) (a b : ObjCProtocol) : Prop where
  address : b.address = a.address + d
  name : b.name = a.name
  nameAddress : Metadata.Carried d a.nameAddress b.nameAddress
  protocols : b.protocols = a.protocols.map (· + d)
  instanceMethods : List.Forall₂ (Method.Carried d) a.instanceMethods b.instanceMethods
  classMethods : List.Forall₂ (Method.Carried d) a.classMethods b.classMethods
  optionalInstanceMethods :
    List.Forall₂ (Method.Carried d) a.optionalInstanceMethods b.optionalInstanceMethods
  optionalClassMethods :
    List.Forall₂ (Method.Carried d) a.optionalClassMethods b.optionalClassMethods
  properties : List.Forall₂ (Property.Carried d) a.properties b.properties
  flags : b.flags = a.flags
  size : b.size = a.size

/-- The metadata of one image at two places. -/
structure ObjCImage.Carried (d : UInt64) (a b : ObjCImage) : Prop where
  classes : List.Forall₂ (ObjCClass.Carried d) a.classes b.classes
  swiftStaticClasses : b.swiftStaticClasses = a.swiftStaticClasses.map (· + d)
  clsrolistSuperclass : List.Forall₂ (fun x y => y.1 = x.1 + d ∧ CarriedPointer d x.2 y.2)
    a.clsrolistSuperclass b.clsrolistSuperclass
  swiftListedClasses : b.swiftListedClasses = a.swiftListedClasses.map (· + d)
  clsrolistCount : b.clsrolistCount = a.clsrolistCount
  clsrolistUnowned : b.clsrolistUnowned = a.clsrolistUnowned
  categories : List.Forall₂ (ObjCCategory.Carried d) a.categories b.categories
  protocols : List.Forall₂ (ObjCProtocol.Carried d) a.protocols b.protocols
  strings : List.Forall₂ (CarriedString d) a.strings b.strings
  selectors : List.Forall₂ (SelectorReference.Carried d) a.selectors b.selectors
  errors : b.errors = a.errors

section

variable {image : Image} {d : UInt64} (h : image.OffNull) (h' : (image.movedBy d).OffNull)
  (hd : d.toNat % 8 = 0)

include h h'

theorem readCategory_moved (entry : UInt64) :
    Alike (Turn.Alike (ObjCCategory.Carried d)) (readCategory image entry)
      (readCategory (image.movedBy d) (entry + d)) := by
  refine alike_bind (readLocal_beside h h' (.inl rfl) _) fun address address' haddress => ?_
  by_cases hzero : address = 0
  · rw [if_pos hzero, if_pos (haddress.eq_zero_iff.mp hzero)]
    exact alike_pure .skip
  · rw [if_neg hzero, if_neg (haddress.eq_zero_iff.not.mp hzero)]
    have hlocal : ∀ k < 0x100, ∀ what, Alike (Leads d) (image.readLocal (address + k) what)
        ((image.movedBy d).readLocal (address' + k) what) :=
      fun k hk what => readLocal_beside h h' (haddress.beside hk) what
    refine alike_bind (readLocal_beside h h' haddress.beside_self _) fun name name' hname => ?_
    refine alike_bind (hlocal 16 (by decide) _) fun list list' hlist => ?_
    refine alike_bind (readMethods_leads h h' hlist) fun methods methods' hmethods => ?_
    refine alike_bind (hlocal 24 (by decide) _) fun list list' hlist => ?_
    refine alike_bind (readMethods_leads h h' hlist) fun own own' hown => ?_
    refine alike_bind (hlocal 32 (by decide) _) fun list list' hlist => ?_
    refine alike_bind (readProtocolList_leads h h' hlist) fun protocols protocols' hprotocols => ?_
    refine alike_bind (hlocal 40 (by decide) _) fun list list' hlist => ?_
    refine alike_bind (readProperties_leads h h' hlist)
      fun properties properties' hproperties => ?_
    exact alike_pure (.push
      { name := readString_carried h h' hname.carried
        nameAddress := hname.carried
        cls := readPointer_beside h h' (haddress.beside (by decide))
        instanceMethods := hmethods
        classMethods := hown
        properties := hproperties
        protocols := hprotocols })

/-- A constant string is known by the import that its `isa` is bound to. -/
theorem readConstantString_moved (address : UInt64) :
    Alike (Turn.Alike (CarriedString d)) (readConstantString image address)
      (readConstantString (image.movedBy d) (address + d)) := by
  have hat : ∀ k, Beside d (address + k) (address + d + k) := fun k => .inl (by ac_rfl)
  have hisa : isConstantString ((image.movedBy d).readPointer (address + d))
      = isConstantString (image.readPointer address) := by
    have hpointer := readPointer_beside h h' (a := address) (.inl rfl)
    revert hpointer
    generalize image.readPointer address = pointer,
      (image.movedBy d).readPointer (address + d) = pointer'
    intro hpointer
    cases hpointer <;> rfl
  rw [readConstantString, readConstantString, hisa]
  split
  · refine alike_bind (readLocal_beside h h' (hat 16) _) fun string string' hstring => ?_
    exact alike_pure (.push
      { address := rfl
        flags := u32_beside h h' (hat 8)
        string := hstring.carried
        length := u64_beside h h' (hat 24) })
  · exact alike_bind (alike_tell _) fun _ _ _ => alike_pure .skip

theorem readSelector_moved (slot : UInt64) :
    Alike (Turn.Alike (SelectorReference.Carried d)) (readSelector image slot)
      (readSelector (image.movedBy d) (slot + d)) := by
  refine alike_bind (readLocal_beside h h' (.inl rfl) _) fun string string' hstring => ?_
  exact alike_pure (.push
    { slot := rfl
      string := hstring.carried
      selector := readString_carried h h' hstring.carried })

theorem readProtocol_moved (entry : UInt64) :
    Alike (Turn.Alike (ObjCProtocol.Carried d)) (readProtocol image entry)
      (readProtocol (image.movedBy d) (entry + d)) := by
  refine alike_bind (readLocal_beside h h' (.inl rfl) _) fun address address' haddress => ?_
  by_cases hzero : address = 0
  · rw [if_pos hzero, if_pos (haddress.eq_zero_iff.mp hzero)]
    exact alike_pure .skip
  · rw [if_neg hzero, if_neg (haddress.eq_zero_iff.not.mp hzero)]
    have hlocal : ∀ k < 0x100, ∀ what, Alike (Leads d) (image.readLocal (address + k) what)
        ((image.movedBy d).readLocal (address' + k) what) :=
      fun k hk what => readLocal_beside h h' (haddress.beside hk) what
    refine alike_bind (hlocal 8 (by decide) _) fun name name' hname => ?_
    refine alike_bind (hlocal 16 (by decide) _) fun list list' hlist => ?_
    refine alike_bind (readProtocolList_leads h h' hlist) fun protocols protocols' hprotocols => ?_
    refine alike_bind (hlocal 24 (by decide) _) fun list list' hlist => ?_
    refine alike_bind (readMethods_leads h h' hlist) fun methods methods' hmethods => ?_
    refine alike_bind (hlocal 32 (by decide) _) fun list list' hlist => ?_
    refine alike_bind (readMethods_leads h h' hlist) fun own own' hown => ?_
    refine alike_bind (hlocal 40 (by decide) _) fun list list' hlist => ?_
    refine alike_bind (readMethods_leads h h' hlist) fun optional optional' hoptional => ?_
    refine alike_bind (hlocal 48 (by decide) _) fun list list' hlist => ?_
    refine alike_bind (readMethods_leads h h' hlist) fun optOwn optOwn' hoptOwn => ?_
    refine alike_bind (hlocal 56 (by decide) _) fun list list' hlist => ?_
    refine alike_bind (readProperties_leads h h' hlist)
      fun properties properties' hproperties => ?_
    exact alike_pure (.push
      { address := haddress.eq_add hzero
        name := readString_carried h h' hname.carried
        nameAddress := hname.carried
        protocols := hprotocols
        instanceMethods := hmethods
        classMethods := hown
        optionalInstanceMethods := hoptional
        optionalClassMethods := hoptOwn
        properties := hproperties
        flags := u32_beside h h' (haddress.beside (by decide))
        size := u32_beside h h' (haddress.beside (by decide)) })

omit h h' in
/-- One more protocol: it is at an address of the others at both places, or at neither. -/
theorem any_address {kept kept' : List ObjCProtocol} (hkept : List.Forall₂ (ObjCProtocol.Carried d)
    kept kept') {protocol protocol' : ObjCProtocol} (hprotocol : protocol.Carried d protocol') :
    (kept'.any fun existing => existing.address == protocol'.address)
      = kept.any fun existing => existing.address == protocol.address := by
  induction hkept with
  | nil => rfl
  | cons hfirst _ ih =>
      have hsame : ∀ x y : UInt64, (x + d == y + d) = (x == y) := by
        intro x y
        rw [Bool.eq_iff_iff, beq_iff_eq, beq_iff_eq]
        exact (carry_injective d).eq_iff
      rw [List.any_cons, List.any_cons, ih, hfirst.address, hprotocol.address, hsame]

omit h h' in
/-- Of the protocols at one address the first is kept. By induction on the list, over what has been
kept so far. -/
theorem keepFirst_carried {protocols protocols' : List ObjCProtocol}
    (hall : List.Forall₂ (ObjCProtocol.Carried d) protocols protocols') :
    List.Forall₂ (ObjCProtocol.Carried d) (keepFirst protocols) (keepFirst protocols') := by
  have hfold : ∀ kept kept', List.Forall₂ (ObjCProtocol.Carried d) kept kept' →
      List.Forall₂ (ObjCProtocol.Carried d)
        (protocols.foldl (fun kept protocol =>
          if kept.any fun existing => existing.address == protocol.address then kept
          else kept ++ [protocol]) kept)
        (protocols'.foldl (fun kept protocol =>
          if kept.any fun existing => existing.address == protocol.address then kept
          else kept ++ [protocol]) kept') := by
    induction hall with
    | nil => exact fun _ _ hkept => hkept
    | cons hprotocol _ ih =>
        intro kept kept' hkept
        rw [List.foldl_cons, List.foldl_cons, any_address hkept hprotocol]
        apply ih
        split
        · exact hkept
        · exact List.rel_append hkept (.cons hprotocol .nil)
  exact hfold [] [] .nil

omit h h' in
/-- The sections are found by name. -/
theorem readSection_movedBy {β : Type} {R : β → β → Prop} {absent : β} (habsent : R absent absent)
    {read read' : Section → Reading String β} (hread : ∀ list, Alike R (read list) (read' list))
    (name : String) :
    Alike R (readSection image name absent read)
      (readSection (image.movedBy d) name absent read') := by
  have hsection : (image.movedBy d).sectionNamed name = image.sectionNamed name := rfl
  rw [readSection, readSection, hsection]
  cases image.sectionNamed name with
  | some list => exact hread list
  | none => exact alike_pure habsent

omit h h' in
/-- The entries of a section are read alike if each of them is. -/
theorem collect_entries {β : Type} {R : β → β → Prop} {f g : UInt64 → Reading String (Turn β)}
    (hfg : ∀ entry, Alike (Turn.Alike R) (f entry) (g (entry + d))) {as bs : List UInt64}
    (has : bs = as.map (· + d)) : Alike (List.Forall₂ R) (collect f as) (collect g bs) :=
  alike_collect (fun a _ hab => hab ▸ hfg a) (forall₂_add_iff.mpr has)

omit h h' in
/-- What becomes of the listed objects: all are laid out statically, the classes among them have
their superclasses noted. -/
theorem halves_carried {halves halves' : List (UInt64 × Half)}
    (hall : List.Forall₂ (Half.Carried d) halves halves') :
    halves'.map Prod.fst = (halves.map Prod.fst).map (· + d) ∧
      List.Forall₂ (fun x y => y.1 = x.1 + d ∧ CarriedPointer d x.2 y.2)
        (halves.filterMap Half.superclass?) (halves'.filterMap Half.superclass?) := by
  induction hall with
  | nil => exact ⟨rfl, .nil⟩
  | cons hhalf _ ih =>
      cases hhalf with
      | cls hsuper => exact ⟨congrArg _ ih.1, .cons ⟨rfl, hsuper⟩ ih.2⟩
      | metaclass => exact ⟨congrArg _ ih.1, ih.2⟩

include hd in
/-- **The metadata does not depend on the place of the image**, but for its addresses. -/
theorem analyzeObjC_carried :
    (analyzeObjC image).Carried d (analyzeObjC (image.movedBy d)) := by
  have hwhole : Alike (fun a b => ∀ errors, ObjCImage.Carried d { a with errors }
      { b with errors }) (readImage image) (readImage (image.movedBy d)) := by
    refine alike_bind (readSection_movedBy .nil (fun list => collect_entries
      (readClass_moved h h' hd) (entries_movedBy list 8)) _) fun classes classes' hclasses => ?_
    refine alike_bind (readSection_movedBy ⟨.nil, rfl, rfl⟩ (readRolist_moved h h' hd) _)
      fun rolist rolist' hrolist => ?_
    refine alike_bind (readSection_movedBy .nil (fun list => collect_entries
      (readCategory_moved h h') (entries_movedBy list 8)) _)
      fun categories categories' hcategories => ?_
    refine alike_bind (readSection_movedBy .nil (fun list => collect_entries
      (readConstantString_moved h h') (wholeEntries_movedBy list 32)) _)
      fun strings strings' hstrings => ?_
    refine alike_bind (readSection_movedBy .nil (fun list => collect_entries
      (readSelector_moved h h') (entries_movedBy list 8)) _)
      fun selectors selectors' hselectors => ?_
    refine alike_bind (readSection_movedBy .nil (fun list => collect_entries
      (readProtocol_moved h h') (entries_movedBy list 8)) _)
      fun protocols protocols' hprotocols => ?_
    obtain ⟨hstatic, hsupers⟩ := halves_carried hrolist.halves
    exact alike_pure fun errors =>
      { classes := hclasses
        swiftStaticClasses := hstatic
        clsrolistSuperclass := hsupers
        swiftListedClasses := rfl
        clsrolistCount := hrolist.count
        clsrolistUnowned := hrolist.unowned
        categories := hcategories
        protocols := keepFirst_carried hprotocols
        strings := hstrings
        selectors := hselectors
        errors := rfl }
  have hvalue := hwhole.1 (readImage image).log
  rw [analyzeObjC, analyzeObjC, ← hwhole.2]
  exact hvalue

end

/-! ## An image with a class -/

/-- The words that are rebased: the entry of `__objc_classlist`, the isa and the data of the class
at 0x4008, the data of the metaclass at 0x4030, and the names of their two `class_ro_t`s. -/
def shapeSlots : List (UInt64 × UInt64) :=
  [(0x4000, 0x4008), (0x4008, 0x4030), (0x4028, 0x4058), (0x4050, 0x40A0), (0x4070, 0x40E8),
    (0x40B8, 0x40E8)]

/-- An image with a root class, `Shape`, of one field. -/
def shapeImage (slide : UInt64) : Image where
  segments := [{ name := "__DATA", vmaddr := 0x4000, vmsize := 240, filesize := 240 }]
  sections := [{ segname := "__DATA", sectname := "__objc_classlist", addr := 0x4000, size := 8 }]
  slide := slide
  rebases := Maps.insertList shapeSlots ∅
  data := List.replicate 92 0 ++ [8] ++ List.replicate 3 0 ++ [16] ++ List.replicate 63 0 ++ [1]
    ++ List.replicate 71 0 ++ [83, 104, 97, 112, 101, 0, 0, 0]

theorem mem_rebases_shapeImage {slide k : UInt64} (h : k ∈ (shapeImage slide).rebases) :
    k ∈ shapeSlots.map Prod.fst := by
  obtain ⟨target, htarget⟩ := Option.isSome_iff_exists.mp (ExtTreeMap.mem_iff_isSome_getElem?.mp h)
  exact List.mem_map_of_mem (Maps.mem_of_getElem?_insertList htarget)

theorem shapeImage_offNull {slide : UInt64} (hslide : slide = 0 ∨ slide = 0x100000) :
    (shapeImage slide).OffNull := by
  have hinside : ∀ k ∈ shapeSlots.map Prod.fst, 0x4000 ≤ k.toNat ∧ k.toNat < 0x40F0 := by
    simp [shapeSlots]
  have hfar : ∀ a < 0x1000, (a - slide).toNat < 0x4000 ∨ 0x40F0 ≤ (a - slide).toNat := by
    intro a ha
    have hsub := UInt64.toNat_sub a slide
    rw [UInt64.lt_iff_toNat_lt] at ha
    have h1000 : (0x1000 : UInt64).toNat = 0x1000 := rfl
    rcases hslide with rfl | rfl
    · have h0 : (0 : UInt64).toNat = 0 := rfl
      omega
    · have h100000 : (0x100000 : UInt64).toNat = 0x100000 := rfl
      omega
  refine ⟨fun a ha => ?_, fun a _ => ExtTreeMap.not_mem_empty, fun a ha hmem => ?_,
    fun k t hget => ?_, fun k hk k' hk' hlt => ?_⟩
  · rw [Image.segmentForVM, List.find?_eq_none]
    intro segment hsegment hin
    rw [List.mem_singleton.mp hsegment] at hin
    obtain ⟨-, hstart, hstop⟩ := of_decide_eq_true hin
    rcases hfar a ha with hlow | hhigh
    · exact absurd (UInt64.le_iff_toNat_le.mp hstart) (Nat.not_le.mpr hlow)
    · exact absurd (UInt64.lt_iff_toNat_lt.mp hstop) (Nat.not_lt.mpr hhigh)
  · obtain ⟨hlow, hhigh⟩ : 0x4000 ≤ (a - slide).toNat ∧ (a - slide).toNat < 0x40F0 :=
      hinside _ (mem_rebases_shapeImage hmem)
    have := hfar a ha
    omega
  · have hslot : (k, t) ∈ shapeSlots := Maps.mem_of_getElem?_insertList hget
    have htargets : ∀ slot ∈ shapeSlots, 0x1000 ≤ (shapeImage 0).host (slot.2 &&& Image.targetBits) ∧
        0x1000 ≤ (shapeImage 0x100000).host (slot.2 &&& Image.targetBits) := by
      refine List.forall_iff_forall_mem.mp ?_
      decide
    rcases hslide with rfl | rfl
    · exact (htargets _ hslot).1
    · exact (htargets _ hslot).2
  · have hk := hinside _ (mem_rebases_shapeImage hk)
    have hk' := hinside _ (mem_rebases_shapeImage hk')
    rw [UInt64.lt_iff_toNat_lt] at hlt ⊢
    simp only [Image.host, UInt64.toNat_add]
    rcases hslide with rfl | rfl
    · have h0 : (shapeImage 0).slide.toNat = 0 := rfl
      omega
    · have h100000 : (shapeImage 0x100000).slide.toNat = 0x100000 := rfl
      omega

theorem analyzeObjC_carried_shape :
    (analyzeObjC (shapeImage 0)).classes =
        [{ address := 0x4008
           metaclass := 0x4030
           data := { name := "Shape", nameAddress := 0x40E8, instanceStart := 8, instanceSize := 16 }
           metaData := { flags := 1, name := "Shape", nameAddress := 0x40E8 } }] ∧
      (analyzeObjC (shapeImage 0)).Carried 0x100000 (analyzeObjC (shapeImage 0x100000)) := by
  refine ⟨by decide, ?_⟩
  exact @analyzeObjC_carried (shapeImage 0) _ (shapeImage_offNull (.inl rfl))
    (shapeImage_offNull (.inr rfl)) (by decide)

end Metadata

end Katabasis
