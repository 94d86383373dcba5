import Katabasis.Lib.Runs
import Katabasis.Xlate.TlvRegions

set_option autoImplicit false

/-! # Thread-local variables

`xl_tlv_get` (`runtime/bridge.m`) gives each thread a block for each region when the thread
first asks for a variable of it, and answers with the block and the offset that the variable's
descriptor holds. The blocks are as long as `EmitTables` says, which leaves the alignment gap
between the two parts of the template out: the variables are inside their block exactly when
there is no such gap.
-/

namespace Katabasis

open Runs

/-- The memory of the guest, the blocks `malloc` gave (a freed one is empty), and
`pthread_getspecific` by thread and region. -/
structure TlvRuntime where
  memory : UInt32 → UInt8
  blocks : List (List UInt8) := []
  keys : Nat → Nat → Option Nat := fun _ _ => none

namespace TlvRuntime

/-- The little-endian word of eight bytes at an address. -/
def word (s : TlvRuntime) (address : UInt32) : UInt64 :=
  UInt64.ofNat (Nat.ofDigits 256
    ((List.range 8).map fun k => (s.memory (address + UInt32.ofNat k)).toNat))

/-- A byte of a block. -/
def byte (s : TlvRuntime) (block offset : Nat) : Option UInt8 :=
  s.blocks[block]?.bind fun bytes => bytes[offset]?

end TlvRuntime

namespace TlvRegion

def contains (r : TlvRegion) (descriptor : UInt32) : Bool :=
  decide (r.varsStart ≤ descriptor ∧ descriptor < r.varsEnd)

/-- A new block: the template's bytes, and zeros up to the size of the block. -/
def newBlock (r : TlvRegion) (memory : UInt32 → UInt8) : List UInt8 :=
  (List.range r.totalSize.toNat).map fun k =>
    if k < r.dataSize.toNat then memory (r.dataStart + UInt32.ofNat k) else 0

end TlvRegion

/-- `xl_tlv_get`: the block and the offset in it, or null. `mallocs` says whether `malloc` has
memory left. -/
def xlTlvGet (regions : List TlvRegion) (thread : Nat) (descriptor : UInt32) (mallocs : Bool)
    (s : TlvRuntime) : Option (Nat × UInt64) × TlvRuntime :=
  match regions.zipIdx.find? fun entry => entry.1.contains descriptor with
  | none => (none, s)
  | some (r, i) =>
      let offset := s.word (descriptor + 16)
      match s.keys thread i with
      | some block => (some (block, offset), s)
      | none =>
          if mallocs then
            (some (s.blocks.length, offset),
              { s with
                blocks := s.blocks ++ [r.newBlock s.memory]
                keys := fun t j =>
                  if t = thread ∧ j = i then some s.blocks.length else s.keys t j })
          else (none, s)

/-- What happens while the guest runs: a thread asks for a variable, the guest writes into a
block or into its own memory, a thread exits. -/
inductive TlvEvent
  | access (thread : Nat) (descriptor : UInt32) (mallocs : Bool)
  | write (block offset : Nat) (value : UInt8)
  | poke (address : UInt32) (value : UInt8)
  | exit (thread : Nat)
  deriving DecidableEq

/-- The keys' destructor frees the blocks of a thread that exits. -/
def tlvExit (regions : List TlvRegion) (thread : Nat) (s : TlvRuntime) : TlvRuntime :=
  { s with
    blocks := s.blocks.mapIdx fun b bytes =>
      if (List.range regions.length).any fun i => s.keys thread i == some b then [] else bytes
    keys := fun t i => if t = thread then none else s.keys t i }

def tlvStep (regions : List TlvRegion) (s : TlvRuntime) : TlvEvent → TlvRuntime
  | .access thread descriptor mallocs => (xlTlvGet regions thread descriptor mallocs s).2
  | .write block offset value =>
      { s with blocks := s.blocks.modify block fun bytes => bytes.set offset value }
  | .poke address value =>
      { s with memory := fun a => if a = address then value else s.memory a }
  | .exit thread => tlvExit regions thread s

/-! ## What an access does -/

section

variable {regions : List TlvRegion}

/-- The cases of `xl_tlv_get`: outside every region, with a block, with a new block, and
without memory. -/
theorem xlTlvGet_cases (thread : Nat) (descriptor : UInt32) (mallocs : Bool) (s : TlvRuntime) :
    xlTlvGet regions thread descriptor mallocs s = (none, s) ∨
      ∃ r i, regions[i]? = some r ∧
        ((∃ block, s.keys thread i = some block ∧
            xlTlvGet regions thread descriptor mallocs s
              = (some (block, s.word (descriptor + 16)), s)) ∨
          (s.keys thread i = none ∧
            xlTlvGet regions thread descriptor mallocs s
              = (some (s.blocks.length, s.word (descriptor + 16)),
                { s with
                  blocks := s.blocks ++ [r.newBlock s.memory]
                  keys := fun t j =>
                    if t = thread ∧ j = i then some s.blocks.length else s.keys t j }))) := by
  unfold xlTlvGet
  cases hfind : regions.zipIdx.find? fun entry => entry.1.contains descriptor with
  | none => exact .inl rfl
  | some entry =>
      obtain ⟨r, i⟩ := entry
      have hr : regions[i]? = some r :=
        List.mk_mem_zipIdx_iff_getElem?.mp (List.mem_of_find?_eq_some hfind)
      cases hkey : s.keys thread i with
      | some block => exact .inr ⟨r, i, hr, .inl ⟨block, hkey, by simp only [hkey]⟩⟩
      | none =>
          cases mallocs with
          | false => exact .inl (by simp only [hkey]; rfl)
          | true => exact .inr ⟨r, i, hr, .inr ⟨hkey, by simp only [hkey]; rfl⟩⟩

/-! ## The invariant -/

/-- Each block that a key holds has the size of its region, and no two keys hold one block. -/
structure TlvRuntime.Owned (regions : List TlvRegion) (s : TlvRuntime) : Prop where
  sized : ∀ {t i b}, s.keys t i = some b → ∃ r bytes, regions[i]? = some r ∧
    s.blocks[b]? = some bytes ∧ bytes.length = r.totalSize.toNat
  single : ∀ {t i t' i' b}, s.keys t i = some b → s.keys t' i' = some b → t = t' ∧ i = i'

theorem TlvRegion.length_newBlock (r : TlvRegion) (memory : UInt32 → UInt8) :
    (r.newBlock memory).length = r.totalSize.toNat := by
  simp [newBlock]

theorem TlvRegion.getElem?_newBlock (r : TlvRegion) (memory : UInt32 → UInt8) {k : Nat}
    (hk : k < r.totalSize.toNat) :
    (r.newBlock memory)[k]?
      = some (if k < r.dataSize.toNat then memory (r.dataStart + UInt32.ofNat k) else 0) := by
  rw [newBlock, List.getElem?_map, List.getElem?_range hk, Option.map_some]

theorem TlvRuntime.Owned.lt {s : TlvRuntime} (h : s.Owned regions) {t i b : Nat}
    (hk : s.keys t i = some b) : b < s.blocks.length := by
  obtain ⟨r, bytes, -, hb, -⟩ := h.sized hk
  exact (List.getElem?_eq_some_iff.mp hb).1

theorem owned_access {s : TlvRuntime} (h : s.Owned regions) (thread : Nat) (descriptor : UInt32)
    (mallocs : Bool) : (xlTlvGet regions thread descriptor mallocs s).2.Owned regions := by
  rcases xlTlvGet_cases thread descriptor mallocs s with
    heq | ⟨r, i, hr, ⟨block, -, heq⟩ | ⟨hnone, heq⟩⟩
  · rwa [heq]
  · rwa [heq]
  · rw [heq]
    constructor
    · intro t j b hk
      dsimp only at hk ⊢
      split at hk
      case isTrue hnew =>
          cases hk
          exact ⟨r, r.newBlock s.memory, hnew.2 ▸ hr, by simp, r.length_newBlock _⟩
      case isFalse =>
          obtain ⟨r', bytes, hr', hb, hlen⟩ := h.sized hk
          exact ⟨r', bytes, hr', by rw [List.getElem?_append_left (h.lt hk), hb], hlen⟩
    · intro t j t' j' b hk hk'
      dsimp only at hk hk'
      split at hk <;> split at hk'
      case isTrue.isTrue h1 h2 => exact ⟨h1.1.trans h2.1.symm, h1.2.trans h2.2.symm⟩
      case isTrue.isFalse =>
          cases hk
          exact absurd (h.lt hk') (Nat.lt_irrefl _)
      case isFalse.isTrue =>
          cases hk'
          exact absurd (h.lt hk) (Nat.lt_irrefl _)
      case isFalse.isFalse => exact h.single hk hk'

/-- A thread that exits leaves the blocks of the others alone. -/
theorem blocks_tlvExit {s : TlvRuntime} (h : s.Owned regions) {thread t i b : Nat}
    (hne : t ≠ thread) (hk : s.keys t i = some b) :
    (tlvExit regions thread s).blocks[b]? = s.blocks[b]? := by
  have hother : (List.range regions.length).any (fun j => s.keys thread j == some b) = false := by
    rw [List.any_eq_false]
    intro j _ hj
    exact hne (h.single hk (beq_iff_eq.mp hj)).1
  rw [tlvExit, List.getElem?_mapIdx, hother]
  simp

theorem owned_step {s : TlvRuntime} (h : s.Owned regions) (e : TlvEvent) :
    (tlvStep regions s e).Owned regions := by
  cases e with
  | access thread descriptor mallocs => exact owned_access h thread descriptor mallocs
  | write block offset value =>
      refine ⟨fun {t i b} hk => ?_, h.single⟩
      obtain ⟨r, bytes, hr, hb, hlen⟩ := h.sized hk
      simp only [tlvStep, List.getElem?_modify, hb]
      refine ⟨r, _, hr, rfl, ?_⟩
      split <;> simp [hlen]
  | poke address value => exact ⟨h.sized, h.single⟩
  | exit thread =>
      have hkeys : ∀ {t i b}, (tlvExit regions thread s).keys t i = some b →
          t ≠ thread ∧ s.keys t i = some b := by
        intro t i b hk
        simp only [tlvExit] at hk
        split at hk
        case isTrue => cases hk
        case isFalse hne => exact ⟨hne, hk⟩
      constructor
      · intro t i b hk
        obtain ⟨hne, hk⟩ := hkeys hk
        rw [tlvStep, blocks_tlvExit h hne hk]
        exact h.sized hk
      · exact fun hk hk' => h.single (hkeys hk).2 (hkeys hk').2

theorem owned_run {s : TlvRuntime} (h : s.Owned regions) (events : List TlvEvent) :
    (run (tlvStep regions) s events).Owned regions :=
  run_keeps (TlvRuntime.Owned regions) (fun e _ _ hs => owned_step hs e) h

theorem owned_start (memory : UInt32 → UInt8) : ({ memory } : TlvRuntime).Owned regions :=
  ⟨fun hk => (nomatch hk), fun hk _ => (nomatch hk)⟩

/-! ## What the events keep -/

/-- A thread keeps its block until it exits. -/
theorem keys_step {s : TlvRuntime} {t i b : Nat} (hk : s.keys t i = some b) {e : TlvEvent}
    (he : e ≠ .exit t) : (tlvStep regions s e).keys t i = some b := by
  cases e with
  | access thread descriptor mallocs =>
      rcases xlTlvGet_cases thread descriptor mallocs s with
        heq | ⟨r, j, -, ⟨block, -, heq⟩ | ⟨hnone, heq⟩⟩
      · rwa [tlvStep, heq]
      · rwa [tlvStep, heq]
      · rw [tlvStep, heq]
        dsimp only
        rw [if_neg, hk]
        rintro ⟨rfl, rfl⟩
        rw [hk] at hnone
        cases hnone
  | write block offset value => exact hk
  | poke address value => exact hk
  | exit thread =>
      rw [tlvStep, tlvExit]
      dsimp only
      rw [if_neg, hk]
      rintro rfl
      exact he rfl

theorem keys_run {s : TlvRuntime} {t i b : Nat} (hk : s.keys t i = some b)
    {events : List TlvEvent} (he : .exit t ∉ events) :
    (run (tlvStep regions) s events).keys t i = some b :=
  run_keeps (fun s : TlvRuntime => s.keys t i = some b)
    (fun _ hmem _ hs => keys_step hs fun heq => he (heq ▸ hmem)) hk

/-- A byte of a thread's block changes only when it is written. -/
theorem byte_step {s : TlvRuntime} (h : s.Owned regions) {t i b : Nat}
    (hk : s.keys t i = some b) {o : Nat} {e : TlvEvent} (he : e ≠ .exit t)
    (hw : ∀ value, e ≠ .write b o value) : (tlvStep regions s e).byte b o = s.byte b o := by
  cases e with
  | access thread descriptor mallocs =>
      rcases xlTlvGet_cases thread descriptor mallocs s with
        heq | ⟨r, j, -, ⟨block, -, heq⟩ | ⟨hnone, heq⟩⟩
      · rw [tlvStep, heq]
      · rw [tlvStep, heq]
      · rw [tlvStep, heq, TlvRuntime.byte, List.getElem?_append_left (h.lt hk), TlvRuntime.byte]
  | write block offset value =>
      simp only [tlvStep, TlvRuntime.byte, List.getElem?_modify]
      cases s.blocks[b]? with
      | none => rfl
      | some bytes =>
          by_cases hb : block = b
          · have ho : offset ≠ o := by
              rintro rfl
              exact hw value (by rw [hb])
            simp [hb, ho]
          · simp [hb]
  | poke address value => rfl
  | exit thread =>
      have hne : t ≠ thread := fun heq => he (by rw [heq])
      rw [tlvStep, TlvRuntime.byte, blocks_tlvExit h hne hk, TlvRuntime.byte]

theorem byte_run {s : TlvRuntime} (h : s.Owned regions) {t i b : Nat}
    (hk : s.keys t i = some b) {o : Nat} {events : List TlvEvent} (he : .exit t ∉ events)
    (hw : ∀ value, .write b o value ∉ events) :
    (run (tlvStep regions) s events).byte b o = s.byte b o := by
  have hkeep : (run (tlvStep regions) s events).Owned regions ∧
      (run (tlvStep regions) s events).keys t i = some b ∧
      (run (tlvStep regions) s events).byte b o = s.byte b o := by
    refine run_keeps (fun s' : TlvRuntime => s'.Owned regions ∧ s'.keys t i = some b ∧
      s'.byte b o = s.byte b o) ?_ ⟨h, hk, rfl⟩
    rintro e hmem s' ⟨ho, hk', hbyte⟩
    have hexit : e ≠ .exit t := fun heq => he (heq ▸ hmem)
    refine ⟨owned_step ho e, keys_step hk' hexit, ?_⟩
    rw [byte_step ho hk' hexit fun value heq => hw value (heq ▸ hmem), hbyte]
  exact hkeep.2.2

end

/-! ## Variables inside their block -/

/-- A thread-local variable of an image: where its descriptor is, and its place in the
template. -/
structure ThreadVariable where
  descriptor : UInt32
  address : Nat
  size : Nat

/-- The variable lies in one of the two parts of the template, and its descriptor among the
image's. -/
structure ThreadVariable.IsOf (v : ThreadVariable) (r : TlvRegion) (T : Template) : Prop where
  size_pos : 0 < v.size
  place : T.start.toNat ≤ v.address ∧ v.address + v.size ≤ T.start.toNat + T.dataSize.toNat ∨
    T.zeroStart.toNat ≤ v.address ∧ v.address + v.size ≤ T.zeroStart.toNat + T.zeroSize.toNat
  listed : r.contains v.descriptor = true

/-- What an access to a variable is to give: the block and the variable's offset, inside the
block; the same block as long as the thread lives; and the template's bytes in a new block, for
each variable of the image, until they are written. -/
structure AccessHolds (regions : List TlvRegion) (i : Nat) (r : TlvRegion) (image : Image)
    (s : TlvRuntime) (thread : Nat) (v : ThreadVariable) (block : Nat) : Prop where
  result : (xlTlvGet regions thread v.descriptor true s).1
    = some (block, UInt64.ofNat (v.address - image.template.start.toNat))
  inside : ∃ bytes, (xlTlvGet regions thread v.descriptor true s).2.blocks[block]? = some bytes ∧
    v.address - image.template.start.toNat + v.size ≤ bytes.length
  same : ∀ events, .exit thread ∉ events → ∀ descriptor mallocs, r.contains descriptor = true →
    (xlTlvGet regions thread descriptor mallocs (run (tlvStep regions)
      (xlTlvGet regions thread v.descriptor true s).2 events)).1.map Prod.fst = some block
  initial : s.keys thread i = none → ∀ events, .exit thread ∉ events →
    ∀ w : ThreadVariable, w.IsOf r image.template → ∀ k < w.size,
    (∀ value, .write block (w.address - image.template.start.toNat + k) value ∉ events) →
    (run (tlvStep regions) (xlTlvGet regions thread v.descriptor true s).2 events).byte block
        (w.address - image.template.start.toNat + k)
      = some (image.templateByte s.memory (w.address + k))

section

variable {before after : List Image} {image : Image} {vars : Section} {r : TlvRegion}

/-- A descriptor of the image is found in the image's own region. -/
theorem find?_region (hr : tlvRegion image = some r) {descriptor : UInt32}
    (hc : r.contains descriptor = true)
    (hapart : ∀ other ∈ tlvRegions before, other.contains descriptor = false) :
    (tlvRegions (before ++ image :: after)).zipIdx.find?
        (fun entry => entry.1.contains descriptor)
      = some (r, (tlvRegions before).length) := by
  have hnone : (tlvRegions before).zipIdx.find? (fun entry => entry.1.contains descriptor)
      = none := by
    refine List.find?_eq_none.mpr fun entry hm => ?_
    rw [hapart entry.1 (List.fst_mem_of_mem_zipIdx hm)]
    exact Bool.false_ne_true
  have hsplit : tlvRegions (before ++ image :: after)
      = tlvRegions before ++ r :: tlvRegions after := by
    simp [tlvRegions, hr]
  rw [hsplit, List.zipIdx_append, List.find?_append, hnone, List.zipIdx_cons, List.find?_cons,
    hc]
  simp

/-- Where the image is among the guest images: its region, and no image before it has
descriptors in the same place. -/
structure ThreadImage (before : List Image) (image : Image) (vars : Section) (r : TlvRegion) :
    Prop where
  placed : image.ThreadPlaced vars
  region : tlvRegion image = some r
  apart : ∀ other ∈ tlvRegions before, ∀ descriptor, r.contains descriptor = true →
    other.contains descriptor = false

variable (hi : ThreadImage before image vars r) {s : TlvRuntime} {thread : Nat}
  {descriptor : UInt32} (hc : r.contains descriptor = true)

include hi hc

theorem xlTlvGet_of_key {block : Nat}
    (hk : s.keys thread (tlvRegions before).length = some block) (mallocs : Bool) :
    xlTlvGet (tlvRegions (before ++ image :: after)) thread descriptor mallocs s
      = (some (block, s.word (descriptor + 16)), s) := by
  unfold xlTlvGet
  rw [find?_region hi.region hc fun other hm => hi.apart other hm descriptor hc]
  dsimp only
  rw [hk]

theorem xlTlvGet_of_no_key (hk : s.keys thread (tlvRegions before).length = none) :
    xlTlvGet (tlvRegions (before ++ image :: after)) thread descriptor true s
      = (some (s.blocks.length, s.word (descriptor + 16)),
          { s with
            blocks := s.blocks ++ [r.newBlock s.memory]
            keys := fun t j => if t = thread ∧ j = (tlvRegions before).length then
              some s.blocks.length else s.keys t j }) := by
  unfold xlTlvGet
  rw [find?_region hi.region hc fun other hm => hi.apart other hm descriptor hc]
  dsimp only
  rw [hk]
  rfl

/-- After an access the thread has a block. -/
theorem key_of_access (s : TlvRuntime) :
    ∃ block, (xlTlvGet (tlvRegions (before ++ image :: after)) thread descriptor true s).1
        = some (block, s.word (descriptor + 16)) ∧
      (xlTlvGet (tlvRegions (before ++ image :: after)) thread descriptor true s).2.keys thread
        (tlvRegions before).length = some block := by
  cases hk : s.keys thread (tlvRegions before).length with
  | some block =>
      rw [xlTlvGet_of_key hi hc hk]
      exact ⟨block, rfl, hk⟩
  | none =>
      rw [xlTlvGet_of_no_key hi hc hk]
      exact ⟨s.blocks.length, rfl, if_pos ⟨rfl, rfl⟩⟩

omit hc in
theorem region_getElem? :
    (tlvRegions (before ++ image :: after))[(tlvRegions before).length]? = some r := by
  have hsplit : tlvRegions (before ++ image :: after)
      = tlvRegions before ++ r :: tlvRegions after := by
    simp [tlvRegions, hi.region]
  rw [hsplit, List.getElem?_append_right (Nat.le_refl _)]
  simp

omit hc in
/-- The block that an access gives has the size of the image's region. -/
theorem length_block {block : Nat}
    (ho : s.Owned (tlvRegions (before ++ image :: after)))
    (hk : s.keys thread (tlvRegions before).length = some block) :
    ∃ bytes, s.blocks[block]? = some bytes ∧
      bytes.length = image.template.dataSize.toNat + image.template.zeroSize.toNat := by
  obtain ⟨r', bytes, hr', hb, hlen⟩ := ho.sized hk
  have : r' = r := Option.some.inj (hr'.symm.trans (region_getElem? hi))
  subst this
  exact ⟨bytes, hb, hlen.trans (sizes_tlvRegion hi.placed hi.region).2⟩

omit hc in
/-- Without a gap between the two parts, every variable is inside the block. -/
theorem inside_of_no_gap {v : ThreadVariable} (hv : v.IsOf r image.template)
    (hgap : image.template.zeroSize = 0 ∨ image.template.zeroStart.toNat
      = image.template.start.toNat + image.template.dataSize.toNat) :
    image.template.start.toNat ≤ v.address ∧ v.address - image.template.start.toNat + v.size
      ≤ image.template.dataSize.toNat + image.template.zeroSize.toNat := by
  have hordered := hi.placed.ordered
  have hpos := hv.size_pos
  rcases hgap with hzero | hgap
  · have hzero' : image.template.zeroSize.toNat = 0 := by rw [hzero]; rfl
    rcases hv.place with hdata | hbss <;> omega
  · rcases hv.place with hdata | hbss <;> omega

omit hc in
theorem accessHolds_of_no_gap {v : ThreadVariable} (hv : v.IsOf r image.template)
    (ho : s.Owned (tlvRegions (before ++ image :: after)))
    (hword : s.word (v.descriptor + 16)
      = UInt64.ofNat (v.address - image.template.start.toNat))
    (hgap : image.template.zeroSize = 0 ∨ image.template.zeroStart.toNat
      = image.template.start.toNat + image.template.dataSize.toNat) :
    ∃ block, AccessHolds (tlvRegions (before ++ image :: after)) (tlvRegions before).length r
      image s thread v block := by
  obtain ⟨block, hresult, hkey⟩ := key_of_access hi hv.listed s
  have ho' := owned_access ho thread v.descriptor true
  obtain ⟨bytes, hb, hlen⟩ := length_block hi ho' hkey
  refine ⟨block, ⟨by rw [hresult, hword], ⟨bytes, hb, ?_⟩, ?_, ?_⟩⟩
  · rw [hlen]
    exact (inside_of_no_gap hi hv hgap).2
  · intro events he d mallocs hd
    rw [xlTlvGet_of_key hi hd (keys_run hkey he)]
    rfl
  · intro hnone events he w hw k hk hwrite
    have hin := inside_of_no_gap hi hw hgap
    rw [byte_run ho' hkey he hwrite]
    rw [xlTlvGet_of_no_key hi hv.listed hnone] at hresult ⊢
    cases hresult
    have hlt : w.address - image.template.start.toNat + k < r.totalSize.toNat := by
      rw [(sizes_tlvRegion hi.placed hi.region).2]
      omega
    have hbyte := copied_eq_templateByte hi.placed hi.region s.memory
      (w.address - image.template.start.toNat + k)
    have haddr : image.template.start.toNat + (w.address - image.template.start.toNat + k)
        = w.address + k := by omega
    rw [haddr] at hbyte
    rw [TlvRuntime.byte, List.getElem?_concat_length, Option.bind_some,
      r.getElem?_newBlock s.memory hlt, hbyte]

omit hi hc in
/-- What a correct access says of the template's sizes. -/
theorem AccessHolds.offset_le {v : ThreadVariable} {block : Nat}
    (h : AccessHolds (tlvRegions (before ++ image :: after)) (tlvRegions before).length r image s
      thread v block) (hi : ThreadImage before image vars r)
    (ho : s.Owned (tlvRegions (before ++ image :: after)))
    (hlisted : r.contains v.descriptor = true) :
    v.address - image.template.start.toNat + v.size
      ≤ image.template.dataSize.toNat + image.template.zeroSize.toNat := by
  obtain ⟨bytes, hbytes, hinside⟩ := h.inside
  obtain ⟨block', hresult, hkey⟩ := key_of_access hi hlisted s
  have hblock : block = block' :=
    congrArg Prod.fst (Option.some.inj (h.result.symm.trans hresult))
  obtain ⟨bytes', hbytes', hlen⟩ := length_block hi (owned_access ho thread v.descriptor true) hkey
  have hbytes_eq : bytes = bytes' := Option.some.inj (hbytes.symm.trans (hblock ▸ hbytes'))
  rwa [hbytes_eq, hlen] at hinside

end

/-- A memory that holds a word at an address. -/
def memoryOf (address : UInt32) (value : UInt64) : UInt32 → UInt8 := fun a =>
  UInt8.ofNat (value.toNat / 256 ^ (a - address).toNat)

theorem word_memoryOf (address : UInt32) (value : UInt64) :
    ({ memory := memoryOf address value } : TlvRuntime).word address = value := by
  have hbyte : ∀ k < 8, (memoryOf address value (address + UInt32.ofNat k)).toNat
      = value.toNat / 256 ^ k % 256 := by
    intro k hk
    have hsub : (address + UInt32.ofNat k - address).toNat = k := by
      rw [UInt32.add_comm, UInt32.add_sub_cancel,
        UInt32.toNat_ofNat_of_lt' (by simp only [UInt32.size]; omega)]
    rw [memoryOf, hsub]
    rfl
  have hlist : (List.range 8).map (fun k =>
      (memoryOf address value (address + UInt32.ofNat k)).toNat)
        = (List.range 8).map fun k => value.toNat / 256 ^ k % 256 :=
    List.map_congr_left fun k hk => hbyte k (List.mem_range.mp hk)
  have hlt : value.toNat < 256 ^ 8 := value.toNat_lt
  have hdigits : Nat.ofDigits 256 ((List.range 8).map fun k => value.toNat / 256 ^ k % 256)
      = value.toNat := by
    simp only [List.range, List.range.loop, List.map_cons, List.map_nil, Nat.ofDigits_cons,
      Nat.ofDigits_nil]
    omega
  rw [TlvRuntime.word, hlist, hdigits, UInt64.ofNat_toNat]

/-- Every access to a variable of the image, in every run, does what it is to do. -/
def VariablesHold (before : List Image) (image : Image) (after : List Image) (r : TlvRegion) :
    Prop :=
  ∀ memory events thread v, v.IsOf r image.template →
    (run (tlvStep (tlvRegions (before ++ image :: after))) { memory } events).word
        (v.descriptor + 16) = UInt64.ofNat (v.address - image.template.start.toNat) →
    ∃ block, AccessHolds (tlvRegions (before ++ image :: after)) (tlvRegions before).length r
      image (run (tlvStep (tlvRegions (before ++ image :: after))) { memory } events) thread v
      block

/-- A gap puts the last zero-filled byte behind the end of the block. -/
theorem no_gap_of_variablesHold {before after : List Image} {image : Image} {vars : Section}
    {r : TlvRegion} (hi : ThreadImage before image vars r)
    (h : VariablesHold before image after r) :
    vars.size = 0 ∨ image.template.zeroSize = 0 ∨ image.template.zeroStart.toNat
      = image.template.start.toNat + image.template.dataSize.toNat := by
  by_contra hno
  simp only [not_or, ← UInt64.toNat_inj] at hno
  obtain ⟨hvars, hzero, hgap⟩ := hno
  have hvars' : vars.size.toNat ≠ 0 := hvars
  have hzero' : image.template.zeroSize.toNat ≠ 0 := hzero
  have hordered := hi.placed.ordered
  obtain ⟨v, hv⟩ : ∃ v : ThreadVariable, v = ⟨r.varsStart, image.template.zeroStart.toNat
    + image.template.zeroSize.toNat - 1, 1⟩ := ⟨_, rfl⟩
  have hlisted : r.contains v.descriptor = true := by
    rw [hv, TlvRegion.contains, decide_eq_true_eq, contains_vars_iff hi.placed hi.region,
      toNat_varsStart hi.placed hi.region]
    omega
  have hof : v.IsOf r image.template := by
    refine ⟨by rw [hv]; exact Nat.one_pos, .inr ?_, hlisted⟩
    rw [hv]
    dsimp only
    omega
  obtain ⟨block, haccess⟩ := h (memoryOf (v.descriptor + 16)
    (UInt64.ofNat (v.address - image.template.start.toNat))) [] 0 v hof (word_memoryOf _ _)
  have hinside := haccess.offset_le hi (owned_run (owned_start _) []) hlisted
  rw [hv] at hinside
  dsimp only at hinside
  omega

/-- **Every thread-local variable of an image is in its block, at every access of every run,
exactly when the template's two parts have no gap between them** (or there is no second part,
or no descriptor). -/
theorem variablesHold_iff {before : List Image} {image : Image} {vars : Section} {r : TlvRegion}
    (hi : ThreadImage before image vars r) (after : List Image) :
    VariablesHold before image after r ↔
      vars.size = 0 ∨ image.template.zeroSize = 0 ∨ image.template.zeroStart.toNat
        = image.template.start.toNat + image.template.dataSize.toNat := by
  constructor
  · exact no_gap_of_variablesHold hi
  · intro hcond memory events thread v hv hword
    rcases hcond with hvars | hgap
    · have hlisted := hv.listed
      rw [TlvRegion.contains, decide_eq_true_eq,
        contains_vars_iff hi.placed hi.region, hvars] at hlisted
      exact absurd hlisted (by simp)
    · exact accessHolds_of_no_gap hi hv (owned_run (owned_start memory) events) hword hgap

/-- Twelve bytes of data and eight of zeros behind them, from `zeroStart` on; one descriptor. -/
def threadImage (zeroStart : UInt64) : Image where
  slide := 0x1000
  sections := [⟨"__DATA", "__thread_data", 0x4000, 12, 0x11⟩,
    ⟨"__DATA", "__thread_bss", zeroStart, 8, 0x12⟩, ⟨"__DATA", "__thread_vars", 0x4100, 24, 0x13⟩]

theorem variablesHold_adjoining :
    VariablesHold [] (threadImage 0x400c) [] ⟨0x5100, 0x5118, 0x5000, 12, 20⟩ := by
  have hi : ThreadImage [] (threadImage 0x400c) ⟨"__DATA", "__thread_vars", 0x4100, 24, 0x13⟩
      ⟨0x5100, 0x5118, 0x5000, 12, 20⟩ :=
    ⟨⟨rfl, by decide, by decide, by decide, by decide⟩, by decide, fun _ h => by cases h⟩
  exact (variablesHold_iff hi []).mpr (.inr (.inr (by decide)))

/-- Aligned to eight bytes, the zero-filled part starts four bytes behind the data, and the
block is four bytes short. -/
theorem not_variablesHold_aligned :
    ¬ VariablesHold [] (threadImage 0x4010) [] ⟨0x5100, 0x5118, 0x5000, 12, 20⟩ := by
  intro h
  have hi : ThreadImage [] (threadImage 0x4010) ⟨"__DATA", "__thread_vars", 0x4100, 24, 0x13⟩
      ⟨0x5100, 0x5118, 0x5000, 12, 20⟩ :=
    ⟨⟨rfl, by decide, by decide, by decide, by decide⟩, by decide, fun _ h => by cases h⟩
  rcases no_gap_of_variablesHold hi h with hvars | hzero | hgap
  · exact absurd hvars (by decide)
  · exact absurd hzero (by decide)
  · exact absurd hgap (by decide)

end Katabasis
