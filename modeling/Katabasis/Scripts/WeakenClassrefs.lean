import Katabasis.Macho.BindOpcodes

set_option autoImplicit false

/-! # Weak imports in a linked binary

`scripts/weaken_classrefs.py` makes imports of a 32-bit Mach-O weak, in place: it goes through the
bind, the weak-bind and the lazy-bind opcodes of the file (`weaken`), and sets
`BIND_SYMBOL_FLAGS_WEAK_IMPORT` in each `SET_SYMBOL_TRAILING_FLAGS_IMM` of a wanted symbol.

It keeps in step with the opcodes as `Macho/BindOpcodes.lean` reads them (`step_encode`), so it
touches no byte but these (`foldlM_rewriteStream`). The wanted names are text, read from a file in
UTF-8; the names in the binary are read as ASCII, where each byte that is none gives a replacement
character. So a name with such a byte is not the name it is (`weaken_iff`).
-/

namespace Katabasis.WeakenClassrefs

open BindOpcodes

/-- A string of Python. -/
abbrev Str := List Char

/-- `decode("ascii", "replace")` -/
def decodeAscii (bytes : Bytes) : Str :=
  bytes.map fun b => if b < 0x80 then Char.ofNat b.toNat else Char.ofNat 0xfffd

/-- `BIND_SYMBOL_FLAGS_WEAK_IMPORT` -/
def weakImport : UInt8 := 0x1

/-- The loop of `uleb`, on the bytes from the position on. -/
def ulebFrom : Bytes → Nat → Nat → Nat → Option (Nat × Nat)
  | [], _, _, _ => none
  | b :: rest, r, shift, p =>
      let r := r ||| (b &&& 0x7f).toNat <<< shift
      if b &&& 0x80 = 0 then some (r, p + 1) else ulebFrom rest r (shift + 7) (p + 1)

/-- `uleb`: the number at a position, and the position behind it. -/
def uleb (buf : Bytes) (p : Nat) : Option (Nat × Nat) := ulebFrom (buf.drop p) 0 0 p

/-- `data.index(byte, start)` -/
def index (data : Bytes) (byte : UInt8) (start : Nat) : Option Nat :=
  ((data.drop start).idxOf? byte).map fun k => start + k

/-- The body of the loop over a stream: the file and the position after it, `none` where Python
raises an error. -/
def step (want : List Str) (data : Bytes) (p : Nat) : Option (Bytes × Nat) := do
  let b ← data[p]?
  let op := b &&& 0xf0
  let imm := b &&& 0x0f
  let opcodeAt := p
  let p := p + 1
  if op = 0x00 then some (data, p)
  else if op = 0x10 ∨ op = 0x30 ∨ op = 0x50 ∨ op = 0xb0 then some (data, p)
  else if op = 0x20 ∨ op = 0x80 ∨ op = 0xa0 then do
    let (_, p) ← uleb data p
    some (data, p)
  else if op = 0x60 then do
    let (_, p) ← uleb data p
    some (data, p)
  else if op = 0x70 then do
    let (_, p) ← uleb data p
    some (data, p)
  else if op = 0xc0 then do
    let (_, p) ← uleb data p
    let (_, p) ← uleb data p
    some (data, p)
  else if op = 0x90 then some (data, p)
  else if op = 0x40 then do
    let stop ← index data 0 p
    let name := decodeAscii ((data.drop p).take (stop - p))
    let data :=
      if name ∈ want ∧ imm &&& weakImport = 0 then data.set opcodeAt (0x40 ||| (imm ||| weakImport))
      else data
    some (data, stop + 1)
  else some (data, p)

/-- The loop from a position on. Each round goes at least one byte forward, so there are at most
as many as there are bytes. -/
def rewriteFrom (want : List Str) (stop : Nat) : Nat → Bytes → Nat → Option Bytes
  | 0, data, _ => some data
  | rounds + 1, data, p =>
      if p < stop then do
        let (data, p) ← step want data p
        rewriteFrom want stop rounds data p
      else some data

/-- A stream, by its offset in the file and its size. -/
def rewriteStream (want : List Str) (data : Bytes) (stream : Nat × Nat) : Option Bytes :=
  rewriteFrom want (stream.1 + stream.2) stream.2 data stream.1

/-- The offsets and sizes of `LC_DYLD_INFO`, of which the first and the last are not used. -/
structure DyldInfo where
  bindOff : Nat
  bindSize : Nat
  weakBindOff : Nat
  weakBindSize : Nat
  lazyBindOff : Nat
  lazyBindSize : Nat

def DyldInfo.streams (info : DyldInfo) : List (Nat × Nat) :=
  [(info.bindOff, info.bindSize), (info.weakBindOff, info.weakBindSize),
    (info.lazyBindOff, info.lazyBindSize)]

/-- The pass over the bind opcodes. -/
def weaken (want : List Str) (info : DyldInfo) (data : Bytes) : Option Bytes :=
  info.streams.foldlM (rewriteStream want) data

/-! ## One opcode -/

theorem low_bits (bits : Fin 128) : (UInt8.ofNat bits &&& 0x7f).toNat = bits ∧
    UInt8.ofNat bits &&& 0x80 = 0 := by
  revert bits
  decide

theorem low_bits_more (bits : Fin 128) : (UInt8.ofNat (bits + 128) &&& 0x7f).toNat = bits ∧
    UInt8.ofNat (bits + 128) &&& 0x80 ≠ 0 := by
  revert bits
  decide

theorem or_shift {r shift : Nat} (h : r < 2 ^ shift) (bits : Nat) :
    r ||| bits <<< shift = r + bits * 2 ^ shift := by
  rw [Nat.or_comm, ← Nat.shiftLeft_add_eq_or_of_lt h, Nat.shiftLeft_eq, Nat.add_comm]

theorem ulebFrom_bytes (number : Leb) (rest : Bytes) (r shift p : Nat) (h : r < 2 ^ shift) :
    ulebFrom (number.bytes ++ rest) r shift p
      = some (r + number.value * 2 ^ shift, p + number.bytes.length) := by
  induction number generalizing r shift p with
  | last bits =>
      obtain ⟨hvalue, hlast⟩ := low_bits bits
      rw [Leb.bytes, List.singleton_append, ulebFrom, hvalue, or_shift h]
      simp only [hlast, if_true, Leb.value, List.length_singleton]
  | more bits number ih =>
      obtain ⟨hvalue, hmore⟩ := low_bits_more bits
      have hbits := bits.isLt
      have hpow : 2 ^ (shift + 7) = 128 * 2 ^ shift := by
        rw [Nat.pow_add, Nat.mul_comm]
      have hlt : r + bits * 2 ^ shift < 2 ^ (shift + 7) := by
        have hmul : ((bits : Nat) + 1) * 2 ^ shift ≤ 128 * 2 ^ shift := Nat.mul_le_mul_right _ hbits
        rw [Nat.add_mul, Nat.one_mul] at hmul
        omega
      rw [Leb.bytes, List.cons_append, ulebFrom, hvalue, or_shift h, if_neg hmore]
      rw [ih _ _ _ hlt, hpow, Leb.value, List.length_cons]
      congr 2
      · ring
      · omega

/-- **A number is read to its end.** -/
theorem uleb_of_drop {data rest : Bytes} {p : Nat} {number : Leb}
    (h : data.drop p = number.bytes ++ rest) :
    uleb data p = some (number.value, p + number.bytes.length) := by
  rw [uleb, h, ulebFrom_bytes number rest 0 0 p (by decide)]
  simp

theorem drop_of_drop {data front rest : Bytes} {p : Nat} (h : data.drop p = front ++ rest) :
    data.drop (p + front.length) = rest := by
  rw [← List.drop_drop, h, List.drop_left]

theorem idxOf?_bytes (name : Name) (rest : Bytes) :
    (name.bytes ++ 0 :: rest).idxOf? 0 = some name.bytes.length := by
  obtain ⟨bytes, nonzero⟩ := name
  induction bytes with
  | nil => simp [List.idxOf?_cons]
  | cons b bytes ih =>
      have hb : b ≠ 0 := fun heq => nonzero (heq ▸ List.mem_cons_self)
      have hrest := ih fun hmem => nonzero (List.mem_cons_of_mem b hmem)
      simp only at hrest
      rw [List.cons_append, List.idxOf?_cons, if_neg (by simpa using hb), hrest]
      rfl

theorem index_of_drop {data rest : Bytes} {p : Nat} {name : Name}
    (h : data.drop p = name.bytes ++ 0 :: rest) :
    index data 0 p = some (p + name.bytes.length) := by
  rw [index, h, idxOf?_bytes, Option.map_some]

/-- The flag is set where the symbol is selected. -/
def mark (selected : Name → Bool) : Item → Item
  | .setSymbolTrailingFlagsImm flags name =>
      .setSymbolTrailingFlagsImm (if selected name then flags ||| weakFlag else flags) name
  | item => item

/-- The symbols that the source takes for wanted ones. -/
def matched (want : List Str) (name : Name) : Bool := decide (decodeAscii name.bytes ∈ want)

theorem operands_mark (selected : Name → Bool) (item : Item) :
    (mark selected item).operands = item.operands := by
  cases item <;> rfl

theorem length_encode_mark (selected : Name → Bool) (item : Item) :
    (mark selected item).encode.length = item.encode.length := by
  rw [Item.encode, Item.encode, operands_mark, List.length_cons, List.length_cons]

theorem opcodeByte_high (code imm : Fin 16) : opcodeByte code imm &&& 0xf0 = opcodeByte code 0 := by
  revert code imm
  decide

/-- The flag in the byte. -/
theorem opcodeByte_weak (flags : Fin 16) :
    (opcodeByte 4 flags &&& 0x0f) &&& weakImport = 0 →
      0x40 ||| ((opcodeByte 4 flags &&& 0x0f) ||| weakImport)
        = opcodeByte 4 (flags ||| weakFlag) := by
  revert flags
  decide

theorem opcodeByte_weak_set (flags : Fin 16) :
    ¬ (opcodeByte 4 flags &&& 0x0f) &&& weakImport = 0 → flags ||| weakFlag = flags := by
  revert flags
  decide

/-- **One round goes over one opcode**, and changes its first byte if at all. -/
theorem step_encode (want : List Str) (front : Bytes) (item : Item) (rest : Bytes) :
    step want (front ++ (item.encode ++ rest)) front.length
      = some (front ++ ((mark (matched want) item).encode ++ rest),
          front.length + item.encode.length) := by
  have hbyte : (front ++ (item.encode ++ rest))[front.length]? = some item.opcode := by
    rw [List.getElem?_append_right (Nat.le_refl _), Nat.sub_self, Item.encode]
    rfl
  have hbehind : (front ++ (item.encode ++ rest)).drop (front.length + 1)
      = item.operands ++ rest := by
    rw [← List.drop_drop, List.drop_left]
    rfl
  have hend : front.length + 1 + item.operands.length = front.length + item.encode.length := by
    rw [Item.encode, List.length_cons]
    omega
  -- the four bits of the code choose the branch of the round
  rw [step, hbyte]
  simp only [Option.bind_eq_bind, Option.bind_some]
  cases item with
  | plain op imm =>
      simp only [Item.opcode, opcodeByte_high]
      cases op <;> rfl
  | leb op imm operand =>
      have hread := uleb_of_drop hbehind
      rw [Item.operands] at hend
      rw [hend] at hread
      simp only [Item.opcode, opcodeByte_high, hread]
      cases op <;> rfl
  | doBindUlebTimesSkippingUleb imm times skip =>
      rw [Item.operands, List.append_assoc] at hbehind
      rw [Item.operands, List.length_append, ← Nat.add_assoc] at hend
      have hskip := uleb_of_drop (drop_of_drop hbehind)
      rw [hend] at hskip
      simp only [Item.opcode, opcodeByte_high, uleb_of_drop hbehind, Option.bind_some, hskip]
      rfl
  | setSymbolTrailingFlagsImm flags name =>
      rw [Item.operands, List.append_assoc, List.singleton_append] at hbehind
      rw [Item.operands, List.length_append, ← Nat.add_assoc, List.length_singleton] at hend
      -- the file is written at the byte of the opcode alone
      have hset : ∀ b : UInt8,
          (front ++ ((Item.setSymbolTrailingFlagsImm flags name).encode ++ rest)).set front.length b
            = front ++ (b :: (name.bytes ++ [0]) ++ rest) := by
        intro b
        rw [List.set_append_right front.length b (Nat.le_refl _), Nat.sub_self]
        rfl
      simp only [Item.opcode, opcodeByte_high, index_of_drop hbehind, Option.bind_some, hbehind,
        Nat.add_sub_cancel_left, List.take_left, hset, hend]
      rw [if_neg (by decide), if_neg (by decide), if_neg (by decide), if_neg (by decide),
        if_neg (by decide), if_neg (by decide), if_neg (by decide), if_pos (by decide)]
      congr 2
      rw [mark, Item.encode, Item.encode, Item.opcode, Item.opcode, Item.operands, Item.operands,
        matched]
      by_cases hwant : decodeAscii name.bytes ∈ want
      · by_cases hweak : (opcodeByte 4 flags &&& 0x0f) &&& weakImport = 0
        · simp only [hwant, hweak, and_self, if_true, decide_true, opcodeByte_weak flags hweak]
        · -- the flag is set already
          simp only [hweak, and_false, if_false, hwant, decide_true, if_true,
            opcodeByte_weak_set flags hweak]
      · simp only [hwant, false_and, if_false, decide_false, Bool.false_eq_true]

/-! ## One stream -/

/-- **A stream is gone over opcode by opcode.** -/
theorem rewriteFrom_encode (want : List Str) (items : List Item) (rest : Bytes) (rounds : Nat)
    (front : Bytes) (h : items.length ≤ rounds) :
    rewriteFrom want (front.length + (encode items).length) rounds (front ++ (encode items ++ rest))
        front.length
      = some (front ++ (encode (items.map (mark (matched want))) ++ rest)) := by
  induction items generalizing rounds front with
  | nil =>
      cases rounds with
      | zero => rfl
      | succ rounds =>
          rw [rewriteFrom]
          exact if_neg (Nat.lt_irrefl _)
  | cons item items ih =>
      cases rounds with
      | zero => cases h
      | succ rounds =>
          have hlt : front.length < front.length + (encode (item :: items)).length := by
            rw [encode_cons, List.length_append, Item.encode, List.length_cons]
            omega
          -- the flag does not change a length, so the rest starts where it did
          have hstep := step_encode want front item (encode items ++ rest)
          have hrest := ih rounds (front ++ (mark (matched want) item).encode)
            (Nat.le_of_succ_le_succ h)
          rw [List.length_append, length_encode_mark, List.append_assoc, List.append_assoc] at hrest
          rw [rewriteFrom, if_pos hlt, encode_cons, List.append_assoc, hstep]
          simp only [Option.bind_eq_bind, Option.bind_some]
          rw [List.length_append, ← Nat.add_assoc, hrest, List.map_cons, encode_cons,
            List.append_assoc]

theorem length_encode_map (selected : Name → Bool) (items : List Item) :
    (encode (items.map (mark selected))).length = (encode items).length := by
  induction items with
  | nil => rfl
  | cons item items ih =>
      rw [List.map_cons, encode_cons, encode_cons, List.length_append, List.length_append, ih,
        length_encode_mark]

/-! ## A place in the file -/

/-- The bytes at an offset, of a size. -/
def region (data : Bytes) (place : Nat × Nat) : Bytes := (data.drop place.1).take place.2

/-- The place is in the file. -/
def Inside (data : Bytes) (place : Nat × Nat) : Prop := place.1 + place.2 ≤ data.length

/-- One place is behind the other. -/
def Apart (a b : Nat × Nat) : Prop := a.1 + a.2 ≤ b.1 ∨ b.1 + b.2 ≤ a.1

/-- The index is in the place. -/
def Covers (place : Nat × Nat) (i : Nat) : Prop := place.1 ≤ i ∧ i < place.1 + place.2

instance (data : Bytes) (place : Nat × Nat) : Decidable (Inside data place) :=
  inferInstanceAs (Decidable (_ ≤ _))

instance (a b : Nat × Nat) : Decidable (Apart a b) := inferInstanceAs (Decidable (_ ∨ _))

theorem getElem?_region (data : Bytes) (place : Nat × Nat) (k : Nat) :
    (region data place)[k]? = if k < place.2 then data[place.1 + k]? else none := by
  rw [region, List.getElem?_take, List.getElem?_drop]

/-- The same bytes at the indices of a place. -/
theorem region_congr {data data' : Bytes} {place : Nat × Nat}
    (h : ∀ i, Covers place i → data'[i]? = data[i]?) : region data' place = region data place := by
  apply List.ext_getElem?
  intro k
  rw [getElem?_region, getElem?_region]
  split
  case isTrue hk => exact h _ ⟨Nat.le_add_right _ _, by omega⟩
  case isFalse => rfl

theorem getElem?_of_region {data data' : Bytes} {place : Nat × Nat}
    (h : region data' place = region data place) {i : Nat} (hi : Covers place i) :
    data'[i]? = data[i]? := by
  have hk := congrArg (fun bytes => bytes[i - place.1]?) h
  obtain ⟨hle, hlt⟩ := hi
  simp only [getElem?_region, show i - place.1 < place.2 by omega, if_true,
    Nat.add_sub_cancel' hle] at hk
  exact hk

/-- **A stream is rewritten in its place.** -/
theorem rewriteStream_region (want : List Str) {data : Bytes} {place : Nat × Nat}
    (hinside : Inside data place) {items : List Item}
    (h : decode (region data place) = some items) :
    ∃ data', rewriteStream want data place = some data' ∧ data'.length = data.length ∧
      region data' place = encode (items.map (mark (matched want))) ∧
      ∀ i, ¬ Covers place i → data'[i]? = data[i]? := by
  have hregion := encode_of_decode h
  have hfront : (data.take place.1).length = place.1 := by
    rw [List.length_take]
    exact Nat.min_eq_left ((Nat.le_add_right _ _).trans hinside)
  have hsize : (encode items).length = place.2 := by
    rw [hregion, region, List.length_take, List.length_drop]
    rw [Inside] at hinside
    omega
  -- what is in front of the stream, the stream, and what is behind it
  have hsplit : data = data.take place.1 ++ (encode items ++ data.drop (place.1 + place.2)) := by
    rw [hregion, region, ← List.drop_drop, List.take_append_drop, List.take_append_drop]
  have hrewrite := rewriteFrom_encode want items (data.drop (place.1 + place.2)) place.2
    (data.take place.1) (hsize ▸ length_le_encode items)
  rw [hfront, hsize, ← hsplit] at hrewrite
  have hmarked := length_encode_map (matched want) items
  rw [hsize] at hmarked
  refine ⟨_, hrewrite, ?_, ?_, fun i hi => ?_⟩
  · rw [List.length_append, List.length_append, hfront, hmarked, List.length_drop]
    rw [Inside] at hinside
    omega
  · rw [region, List.drop_left' hfront, ← hmarked, List.take_left]
  · rw [Covers] at hi
    by_cases hlt : i < place.1
    · rw [List.getElem?_append_left (by omega), List.getElem?_take, if_pos hlt]
    · rw [List.getElem?_append_right (by omega), List.getElem?_append_right (by omega),
        List.getElem?_drop, hfront, hmarked]
      congr 1
      omega

/-! ## The streams of a file -/

/-- What the pass leaves: each stream with the symbols marked that are taken for wanted ones. -/
structure Rewritten (want : List Str) (streams : List (Nat × Nat)) (data data' : Bytes) : Prop where
  length : data'.length = data.length
  stream : ∀ place ∈ streams, ∀ items, decode (region data place) = some items →
    region data' place = encode (items.map (mark (matched want)))
  outside : ∀ i, (∀ place ∈ streams, ¬ Covers place i) → data'[i]? = data[i]?

theorem Apart.not_covers {a b : Nat × Nat} (h : Apart a b) {i : Nat} (hi : Covers a i) :
    ¬ Covers b i := by
  rintro ⟨hle, hlt⟩
  obtain ⟨hle', hlt'⟩ := hi
  rcases h with hab | hba <;> omega

/-- **The streams are rewritten one after the other**, each as it was. -/
theorem foldlM_rewriteStream (want : List Str) (streams : List (Nat × Nat))
    (hapart : streams.Pairwise Apart) (data : Bytes)
    (h : ∀ place ∈ streams, Inside data place ∧ (decode (region data place)).isSome) :
    ∃ data', streams.foldlM (rewriteStream want) data = some data' ∧
      Rewritten want streams data data' := by
  induction streams generalizing data with
  | nil => exact ⟨data, rfl, rfl, fun _ hmem => (nomatch hmem), fun _ _ => rfl⟩
  | cons first rest ih =>
      obtain ⟨hfirst, hrest⟩ := List.pairwise_cons.mp hapart
      obtain ⟨hinside, hdecode⟩ := h first List.mem_cons_self
      obtain ⟨items, hitems⟩ := Option.isSome_iff_exists.mp hdecode
      obtain ⟨mid, hmid, hlength, hregion, houtside⟩ := rewriteStream_region want hinside hitems
      -- the other streams are still what they were
      have hsame : ∀ place ∈ rest, region mid place = region data place := by
        intro place hplace
        exact region_congr fun i hi =>
          houtside i fun hcon => (hfirst place hplace).not_covers hcon hi
      obtain ⟨data', hfold, hrewritten⟩ := ih hrest mid fun place hplace => by
        rw [hsame place hplace, Inside, hlength]
        exact h place (List.mem_cons_of_mem _ hplace)
      refine ⟨data', ?_, hrewritten.length.trans hlength, ?_, ?_⟩
      · rw [List.foldlM_cons, hmid]
        exact hfold
      · intro place hplace items' hitems'
        rcases List.mem_cons.mp hplace with rfl | hplace
        · rw [hitems] at hitems'
          cases hitems'
          rw [← hregion]
          exact region_congr fun i hi => hrewritten.outside i fun other hother =>
            (hfirst other hother).not_covers hi
        · rw [← hsame place hplace] at hitems'
          exact hrewritten.stream place hplace items' hitems'
      · intro i hi
        rw [hrewritten.outside i fun place hplace => hi place (List.mem_cons_of_mem _ hplace)]
        exact houtside i (hi first List.mem_cons_self)

theorem mark_mark (selected : Name → Bool) (item : Item) :
    mark selected (mark selected item) = mark selected item := by
  cases item with
  | setSymbolTrailingFlagsImm flags name =>
      have htwice : flags ||| weakFlag ||| weakFlag = flags ||| weakFlag := by
        revert flags
        decide
      rw [mark, mark]
      split
      case isTrue => rw [htwice]
      case isFalse => rfl
  | _ => rfl

/-- **The pass changes nothing when it is run again.** -/
theorem Rewritten.again {want : List Str} {streams : List (Nat × Nat)} {data data' data'' : Bytes}
    (h : ∀ place ∈ streams, (decode (region data place)).isSome)
    (hfirst : Rewritten want streams data data') (hsecond : Rewritten want streams data' data'') :
    data'' = data' := by
  apply List.ext_getElem?
  intro i
  by_cases hi : ∀ place ∈ streams, ¬ Covers place i
  · exact hsecond.outside i hi
  · push Not at hi
    obtain ⟨place, hplace, hcovers⟩ := hi
    obtain ⟨items, hitems⟩ := Option.isSome_iff_exists.mp (h place hplace)
    have honce := hfirst.stream place hplace items hitems
    have htwice := hsecond.stream place hplace _ (honce ▸ decode_encode _)
    rw [List.map_map, show mark (matched want) ∘ mark (matched want) = mark (matched want) from
      funext (mark_mark _), ← honce] at htwice
    exact getElem?_of_region htwice hcovers

/-! ## The wanted symbols -/

/-- A string in UTF-8. -/
def encodeUtf8 (s : Str) : Bytes := s.flatMap String.utf8EncodeChar

/-- The symbol is one of the wanted names. -/
def wanted (want : List Str) (name : Name) : Bool := decide (name.bytes ∈ want.map encodeUtf8)

/-- The streams of the file can be read, and none is in another. -/
structure WellFormed (info : DyldInfo) (data : Bytes) : Prop where
  apart : info.streams.Pairwise Apart
  inside : ∀ place ∈ info.streams, Inside data place
  decodes : ∀ place ∈ info.streams, (decode (region data place)).isSome

/-- **Only weak flags change**: the opcodes of each stream are what they were, but for the flag in
those of wanted symbols; nothing outside the streams changes, and nothing when it is done again. -/
def OnlyWeakened (want : List Str) (info : DyldInfo) (data : Bytes) : Prop :=
  ∃ data', weaken want info data = some data' ∧ weaken want info data' = some data' ∧
    data'.length = data.length ∧
    (∀ i, (∀ place ∈ info.streams, ¬ Covers place i) → data'[i]? = data[i]?) ∧
    ∀ place ∈ info.streams, ∀ items, decode (region data place) = some items →
      decode (region data' place) = some (items.map (mark (wanted want)))

/-- Each symbol that is not weak yet is taken for a wanted one exactly if it is. -/
def Recognised (want : List Str) (info : DyldInfo) (data : Bytes) : Prop :=
  ∀ place ∈ info.streams, ∀ items, decode (region data place) = some items →
    ∀ flags name, .setSymbolTrailingFlagsImm flags name ∈ items → flags ||| weakFlag ≠ flags →
      matched want name = wanted want name

theorem mark_eq_iff {f g : Name → Bool} {item : Item} : mark f item = mark g item ↔
    ∀ flags name, item = .setSymbolTrailingFlagsImm flags name → flags ||| weakFlag ≠ flags →
      f name = g name := by
  cases item with
  | setSymbolTrailingFlagsImm flags name =>
      constructor
      · rintro h _ _ ⟨⟩ hweak
        injection h with hflags
        cases hf : f name <;> cases hg : g name <;> simp only [hf, hg] at hflags ⊢
        · exact absurd hflags.symm hweak
        · exact absurd hflags hweak
      · intro h
        by_cases hweak : flags ||| weakFlag = flags
        · simp only [mark, hweak, ite_self]
        · simp only [mark, h flags name rfl hweak]
  | _ => exact ⟨fun _ _ _ h => (nomatch h), fun _ => rfl⟩

theorem map_mark_eq_iff {f g : Name → Bool} {items : List Item} :
    items.map (mark f) = items.map (mark g) ↔
      ∀ flags name, .setSymbolTrailingFlagsImm flags name ∈ items → flags ||| weakFlag ≠ flags →
        f name = g name := by
  rw [List.map_inj_left]
  constructor
  · intro h flags name hmem
    exact mark_eq_iff.mp (h _ hmem) flags name rfl
  · rintro h item hmem
    exact mark_eq_iff.mpr fun flags name heq => h flags name (heq ▸ hmem)

/-! ## Names in ASCII -/

theorem utf8EncodeChar_ascii {c : Char} (h : c.val.toNat < 0x80) :
    String.utf8EncodeChar c = [UInt8.ofNat c.val.toNat] :=
  if_pos (Nat.le_of_lt_succ h)

/-- A character that is not ASCII begins with a byte that is not. -/
theorem exists_not_ascii {c : Char} (h : ¬ c.val.toNat < 0x80) :
    ∃ b ∈ String.utf8EncodeChar c, ¬ b < 0x80 := by
  have hbyte : ∀ {k : Nat}, 0x80 ≤ k → k < 256 → ¬ UInt8.ofNat k < 0x80 := by
    intro k hlow hhigh
    rw [UInt8.lt_iff_toNat_lt, toNat_byte hhigh]
    exact Nat.not_lt.mpr hlow
  unfold String.utf8EncodeChar
  simp only
  rw [if_neg (by omega)]
  split
  · exact ⟨_, List.mem_cons_self, hbyte (by omega) (by omega)⟩
  · split <;> exact ⟨_, List.mem_cons_self, hbyte (by omega) (by omega)⟩

theorem encodeUtf8_decodeAscii {bytes : Bytes} (h : ∀ b ∈ bytes, b < 0x80) :
    encodeUtf8 (decodeAscii bytes) = bytes := by
  induction bytes with
  | nil => rfl
  | cons b bytes ih =>
      have hb := h b List.mem_cons_self
      have hlt := UInt8.lt_iff_toNat_lt.mp hb
      have hlt' : b.toNat < 128 := hlt
      have hval : (Char.ofNat b.toNat).val.toNat = b.toNat := by
        rw [Char.ofNat, dif_pos (Or.inl (by omega))]
        rfl
      rw [decodeAscii, List.map_cons, if_pos hb, encodeUtf8, List.flatMap_cons,
        utf8EncodeChar_ascii (by omega), hval, UInt8.ofNat_toNat]
      exact congrArg (b :: ·) (ih fun b' hb' => h b' (List.mem_cons_of_mem b hb'))

theorem decodeAscii_encodeUtf8 {s : Str} (h : ∀ b ∈ encodeUtf8 s, b < 0x80) :
    decodeAscii (encodeUtf8 s) = s := by
  induction s with
  | nil => rfl
  | cons c s ih =>
      rw [encodeUtf8, List.flatMap_cons] at h ⊢
      have hc : c.val.toNat < 0x80 := by
        by_contra hcon
        obtain ⟨b, hmem, hb⟩ := exists_not_ascii hcon
        exact hb (h b (List.mem_append_left _ hmem))
      have hchar : Char.ofNat c.val.toNat = c := Char.ofNat_toNat c
      rw [utf8EncodeChar_ascii hc] at h ⊢
      have hb := h _ (List.mem_append_left _ (List.mem_singleton_self _))
      rw [List.singleton_append, decodeAscii, List.map_cons, if_pos hb, toNat_byte (by omega),
        hchar]
      exact congrArg (c :: ·) (ih fun b hmem => h b (List.mem_append_right _ hmem))

/-- **A name in ASCII is recognised.** -/
theorem matched_eq_wanted (want : List Str) {name : Name} (h : ∀ b ∈ name.bytes, b < 0x80) :
    matched want name = wanted want name := by
  rw [matched, wanted, decide_eq_decide, List.mem_map]
  constructor
  · exact fun hmem => ⟨_, hmem, encodeUtf8_decodeAscii h⟩
  · rintro ⟨s, hs, heq⟩
    rw [← heq] at h ⊢
    rwa [decodeAscii_encodeUtf8 h]

theorem recognised_of_ascii (want : List Str) {info : DyldInfo} {data : Bytes}
    (h : ∀ place ∈ info.streams, ∀ items, decode (region data place) = some items →
      ∀ flags name, .setSymbolTrailingFlagsImm flags name ∈ items → ∀ b ∈ name.bytes, b < 0x80) :
    Recognised want info data :=
  fun place hplace items hitems flags name hmem _ =>
    matched_eq_wanted want (h place hplace items hitems flags name hmem)

/-! ## The script -/

/-- **When the script changes only the flags of wanted symbols**: exactly if it recognises them. -/
theorem weaken_iff (want : List Str) {info : DyldInfo} {data : Bytes} (h : WellFormed info data) :
    OnlyWeakened want info data ↔ Recognised want info data := by
  have hstreams := fun place hplace => And.intro (h.inside place hplace) (h.decodes place hplace)
  obtain ⟨data', hweaken, hrewritten⟩ :=
    foldlM_rewriteStream want info.streams h.apart data hstreams
  -- each stream of the result can be read
  have hread : ∀ place ∈ info.streams, ∀ items, decode (region data place) = some items →
      decode (region data' place) = some (items.map (mark (matched want))) := by
    intro place hplace items hitems
    rw [hrewritten.stream place hplace items hitems, decode_encode]
  constructor
  · rintro ⟨result, hresult, -, -, -, hdecode⟩ place hplace items hitems
    have heq : result = data' := Option.some.inj (hresult.symm.trans hweaken)
    subst heq
    have hsame := (hread place hplace items hitems).symm.trans (hdecode place hplace items hitems)
    exact map_mark_eq_iff.mp (Option.some.inj hsame)
  · intro hrecognised
    have hstreams' : ∀ place ∈ info.streams,
        Inside data' place ∧ (decode (region data' place)).isSome := by
      intro place hplace
      obtain ⟨items, hitems⟩ := Option.isSome_iff_exists.mp (h.decodes place hplace)
      rw [Inside, hrewritten.length, hread place hplace items hitems]
      exact ⟨h.inside place hplace, rfl⟩
    obtain ⟨data'', hagain, hrewritten'⟩ :=
      foldlM_rewriteStream want info.streams h.apart data' hstreams'
    rw [hrewritten.again h.decodes hrewritten'] at hagain
    refine ⟨data', hweaken, hagain, hrewritten.length, hrewritten.outside, ?_⟩
    intro place hplace items hitems
    rw [hread place hplace items hitems]
    exact congrArg some (map_mark_eq_iff.mpr (hrecognised place hplace items hitems))

/-- Bind opcodes of two symbols, `_a` and `_é`. -/
def twoSymbols : Bytes :=
  [0x11, 0x40, 0x5f, 0x61, 0x00, 0x72, 0x90, 0x41, 0x90, 0x40, 0x5f, 0xc3, 0xa9, 0x00, 0x90, 0x00]

def twoSymbolsInfo : DyldInfo where
  bindOff := 0
  bindSize := 16
  weakBindOff := 0
  weakBindSize := 0
  lazyBindOff := 0
  lazyBindSize := 0

theorem twoSymbols_wellFormed : WellFormed twoSymbolsInfo twoSymbols where
  apart := by decide
  inside := by decide
  decodes := by decide

/-- `_é` is wanted, and stays as it is. -/
theorem not_onlyWeakened :
    ¬ ∀ (want : List Str) (info : DyldInfo) (data : Bytes), WellFormed info data →
      OnlyWeakened want info data := by
  intro hclaim
  obtain ⟨data', hweaken, -, -, -, hdecode⟩ :=
    hclaim [['_', Char.ofNat 0xe9]] twoSymbolsInfo twoSymbols twoSymbols_wellFormed
  have hsame : weaken [['_', Char.ofNat 0xe9]] twoSymbolsInfo twoSymbols = some twoSymbols := by
    decide
  have hdata : data' = twoSymbols := Option.some.inj (hweaken.symm.trans hsame)
  subst hdata
  obtain ⟨items, hitems⟩ := Option.isSome_iff_exists.mp
    (twoSymbols_wellFormed.decodes (0, 16) List.mem_cons_self)
  have hmarked := hitems.symm.trans (hdecode (0, 16) List.mem_cons_self items hitems)
  revert hmarked
  cases hitems
  decide

/-- `_a` is wanted: its byte `0x40` becomes `0x41`, and the `0x41` in an operand stays. -/
theorem weaken_iff_ascii : OnlyWeakened [['_', 'a']] twoSymbolsInfo twoSymbols := by
  apply (weaken_iff [['_', 'a']] twoSymbols_wellFormed).mpr
  refine fun place hplace items hitems => map_mark_eq_iff.mp ?_
  have hplaces : place = (0, 16) ∨ place = (0, 0) := by
    rcases hplace with _ | ⟨_, _ | ⟨_, _ | ⟨_, ⟨⟩⟩⟩⟩
    · exact Or.inl rfl
    · exact Or.inr rfl
    · exact Or.inr rfl
  rcases hplaces with rfl | rfl
  · cases hitems
    decide
  · cases hitems
    rfl

end Katabasis.WeakenClassrefs
