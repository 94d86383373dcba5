import Katabasis.Lib.Runs
import Katabasis.Xlgen.FunctionTypes
import Std.Data.ExtTreeMap

set_option autoImplicit false

/-! # The bridges that are made once

`BlockBridge`, `HostBlockBridge` and `CallbackBridge` (`xlate/src/xlgen.cpp`) make a bridge for
the first request with a host spelling and give later requests with that spelling the same one.
A bridge made for a block asks for bridges of its block and callback parameters. Each request
gets a bridge of its own guest type exactly when the requests of one host spelling all have one
guest type (`served_iff`).
-/

namespace Katabasis

open Std

/-- What one of the generators is asked for. -/
structure Request where
  kind : BridgeKind
  guest : FunctionType
  host : FunctionType

/-- A bridge in the guest sources, with the request it was made for. -/
structure Bridge where
  id : Nat
  request : Request
  text : String

/-- The three memo tables, by host spelling; the bridges in the guest sources; and the requests
so far, each with the bridge it was given. -/
structure Bridges where
  blocks : ExtTreeMap String Nat := ∅
  hostBlocks : ExtTreeMap String Nat := ∅
  callbacks : ExtTreeMap String Nat := ∅
  emitted : List Bridge := []
  log : List (Request × Nat) := []

namespace Bridges

/-- The memo table of a generator. -/
def table (s : Bridges) : BridgeKind → ExtTreeMap String Nat
  | .block => s.blocks
  | .hostBlock => s.hostBlocks
  | .callback => s.callbacks

/-- Enter the next bridge of a generator. -/
def register (s : Bridges) (kind : BridgeKind) (key : String) : Bridges :=
  match kind with
  | .block => { s with blocks := s.blocks.insert key s.blocks.size }
  | .hostBlock => { s with hostBlocks := s.hostBlocks.insert key s.hostBlocks.size }
  | .callback => { s with callbacks := s.callbacks.insert key s.callbacks.size }

def note (s : Bridges) (request : Request) (id : Nat) : Bridges :=
  { s with log := s.log ++ [(request, id)] }

def emit (s : Bridges) (bridge : Bridge) : Bridges := { s with emitted := s.emitted ++ [bridge] }

end Bridges

/-- The bridge that a generator asks for when it meets a parameter: `BlockBridge` wraps host
blocks, `HostBlockBridge` unwraps guest blocks and callbacks, `CallbackBridge` does neither. -/
def nestedKind : BridgeKind → Kind → Option BridgeKind
  | .block, .block => some .hostBlock
  | .hostBlock, .block => some .block
  | .hostBlock, .callback => some .callback
  | _, _ => none

section

variable (spellGuest spellHost : FunctionType → String → String)

mutual

/-- A bridge for a pair of types: the one its host spelling has, or a new one. -/
def bridge (kind : BridgeKind) (g h : FunctionType) (s : Bridges) : Nat × Bridges :=
  match (s.table kind)[spellHost h ""]? with
  | some id => (id, s.note ⟨kind, g, h⟩ id)
  | none =>
      let id := (s.table kind).size
      let s := (s.register kind (spellHost h "")).note ⟨kind, g, h⟩ id
      let s := match g with
        | .block true params _ => nested kind params h.params s
        | .callback params _ => nested kind params h.params s
        | _ => s
      (id, s.emit ⟨id, ⟨kind, g, h⟩, guestSide spellGuest kind id g⟩)

/-- The bridges of the parameters, in their order. -/
def nested (kind : BridgeKind) (gparams hparams : Params) (s : Bridges) : Bridges :=
  match gparams, hparams with
  | .cons g grest, .cons h hrest =>
      match nestedKind kind g.kind with
      | some inner => nested kind grest hrest (bridge inner g h s).2
      | none => nested kind grest hrest s
  | _, _ => s

end

def blockBridge (g h : FunctionType) (s : Bridges) : Nat × Bridges :=
  bridge spellGuest spellHost .block g h s

def hostBlockBridge (g h : FunctionType) (s : Bridges) : Nat × Bridges :=
  bridge spellGuest spellHost .hostBlock g h s

def callbackBridge (g h : FunctionType) (s : Bridges) : Nat × Bridges :=
  bridge spellGuest spellHost .callback g h s

def answer (s : Bridges) (request : Request) : Bridges :=
  (match request.kind with
    | .block => blockBridge spellGuest spellHost request.guest request.host s
    | .hostBlock => hostBlockBridge spellGuest spellHost request.guest request.host s
    | .callback => callbackBridge spellGuest spellHost request.guest request.host s).2

/-! ## The tables -/

namespace Bridges

theorem table_note (s : Bridges) (request : Request) (id : Nat) (kind : BridgeKind) :
    (s.note request id).table kind = s.table kind := by
  cases kind <;> rfl

theorem table_emit (s : Bridges) (made : Bridge) (kind : BridgeKind) :
    (s.emit made).table kind = s.table kind := by
  cases kind <;> rfl

theorem table_register (s : Bridges) (kind other : BridgeKind) (key : String) :
    (s.register kind key).table other
      = if other = kind then (s.table kind).insert key (s.table kind).size else s.table other := by
  cases kind <;> cases other <;> rfl

theorem log_register (s : Bridges) (kind : BridgeKind) (key : String) :
    (s.register kind key).log = s.log := by
  cases kind <;> rfl

theorem emitted_register (s : Bridges) (kind : BridgeKind) (key : String) :
    (s.register kind key).emitted = s.emitted := by
  cases kind <;> rfl

/-- One state has come after another: nothing of it is lost. -/
structure Extends (s s' : Bridges) : Prop where
  table : ∀ {kind : BridgeKind} {key : String} {id : Nat},
    (s.table kind)[key]? = some id → (s'.table kind)[key]? = some id
  emitted : ∀ made ∈ s.emitted, made ∈ s'.emitted
  log : ∀ entry ∈ s.log, entry ∈ s'.log

theorem Extends.refl (s : Bridges) : s.Extends s := ⟨id, fun _ h => h, fun _ h => h⟩

theorem Extends.trans {s s' s'' : Bridges} (h : s.Extends s') (h' : s'.Extends s'') :
    s.Extends s'' :=
  ⟨fun hk => h'.table (h.table hk), fun b hb => h'.emitted b (h.emitted b hb),
    fun e he => h'.log e (h.log e he)⟩

end Bridges

/-- What holds between two requests, while the bridges of `pending` are being made. -/
structure Bridges.Sound (pending : List (BridgeKind × Nat)) (s : Bridges) : Prop where
  bounded : ∀ {kind : BridgeKind} {key : String} {id : Nat},
    (s.table kind)[key]? = some id → id < (s.table kind).size
  injective : ∀ {kind : BridgeKind} {key key' : String} {id : Nat}, (s.table kind)[key]? = some id →
    (s.table kind)[key']? = some id → key = key'
  /-- A request was given the bridge of its host spelling. -/
  logged : ∀ entry ∈ s.log,
    (s.table entry.1.kind)[spellHost entry.1.host ""]? = some entry.2
  /-- A bridge has the guest side of the request it was made for. -/
  made : ∀ b ∈ s.emitted, (b.request, b.id) ∈ s.log ∧
    b.text = guestSide spellGuest b.request.kind b.id b.request.guest
  /-- There is a bridge for every entry, but those that are being made. -/
  present : ∀ {kind : BridgeKind} {key : String} {id : Nat},
    (s.table kind)[key]? = some id → (kind, id) ∉ pending →
    ∃ b ∈ s.emitted, b.request.kind = kind ∧ b.id = id

section

variable {spellGuest spellHost}

theorem sound_start : ({} : Bridges).Sound spellGuest spellHost [] := by
  have hnone : ∀ {kind : BridgeKind} {key : String} {id : Nat}, (({} : Bridges).table kind)[key]? ≠ some id := by
    intro kind key id h
    cases kind <;> simp [Bridges.table] at h
  refine ⟨fun h => absurd h hnone, fun h => absurd h hnone, ?_, ?_, fun h => absurd h hnone⟩
  · intro entry h
    cases h
  · intro b h
    cases h

theorem sound_note {pending : List (BridgeKind × Nat)} {s : Bridges}
    (h : s.Sound spellGuest spellHost pending) {request : Request} {id : Nat}
    (hid : (s.table request.kind)[spellHost request.host ""]? = some id) :
    (s.note request id).Sound spellGuest spellHost pending := by
  constructor
  · intro kind key id' hk
    rw [Bridges.table_note] at hk ⊢
    exact h.bounded hk
  · intro kind key key' id' hk hk'
    rw [Bridges.table_note] at hk hk'
    exact h.injective hk hk'
  · intro entry hm
    rw [Bridges.table_note]
    rcases List.mem_append.mp hm with hold | hnew
    · exact h.logged entry hold
    · rw [List.mem_singleton.mp hnew]
      exact hid
  · intro b hb
    exact ⟨List.mem_append_left _ (h.made b hb).1, (h.made b hb).2⟩
  · intro kind key id' hk hp
    rw [Bridges.table_note] at hk
    exact h.present hk hp

theorem extends_note (s : Bridges) (request : Request) (id : Nat) :
    s.Extends (s.note request id) :=
  ⟨fun h => by rwa [Bridges.table_note], fun _ h => h, fun _ h => List.mem_append_left _ h⟩

theorem getElem?_register {s : Bridges} {kind other : BridgeKind} {key key' : String} :
    ((s.register kind key).table other)[key']?
      = if other = kind ∧ key = key' then some (s.table kind).size
        else (s.table other)[key']? := by
  rw [Bridges.table_register]
  by_cases hk : other = kind
  · subst hk
    rw [if_pos rfl, ExtTreeMap.getElem?_insert]
    by_cases hkey : key = key'
    · simp [hkey]
    · simp [hkey]
  · simp [hk]

/-- Entering a bridge: until it is made, it is pending. -/
theorem sound_register {pending : List (BridgeKind × Nat)} {s : Bridges}
    (h : s.Sound spellGuest spellHost pending) {kind : BridgeKind} {key : String}
    (hnone : (s.table kind)[key]? = none) :
    (s.register kind key).Sound spellGuest spellHost ((kind, (s.table kind).size) :: pending) := by
  have hsize : ∀ other, (s.table other).size ≤ ((s.register kind key).table other).size ∧
      (other = kind → (s.table kind).size < ((s.register kind key).table other).size) := by
    intro other
    rw [Bridges.table_register]
    by_cases hk : other = kind
    · subst hk
      rw [if_pos rfl, ExtTreeMap.size_insert, if_neg]
      · omega
      · rw [ExtTreeMap.contains_eq_isSome_getElem?, hnone]
        exact Bool.false_ne_true
    · rw [if_neg hk]
      exact ⟨Nat.le_refl _, fun heq => absurd heq hk⟩
  constructor
  · intro other key' id hk
    rw [getElem?_register] at hk
    split at hk
    case isTrue heq =>
        cases hk
        exact (hsize other).2 heq.1
    case isFalse => exact Nat.lt_of_lt_of_le (h.bounded hk) (hsize other).1
  · intro other key1 key2 id hk1 hk2
    rw [getElem?_register] at hk1 hk2
    split at hk1 <;> split at hk2
    case isTrue.isTrue h1 h2 => exact h1.2.symm.trans h2.2
    case isTrue.isFalse h1 _ =>
        cases hk1
        rw [h1.1] at hk2
        exact absurd (h.bounded hk2) (Nat.lt_irrefl _)
    case isFalse.isTrue _ h2 =>
        cases hk2
        rw [h2.1] at hk1
        exact absurd (h.bounded hk1) (Nat.lt_irrefl _)
    case isFalse.isFalse => exact h.injective hk1 hk2
  · intro entry hm
    rw [Bridges.log_register] at hm
    have hlogged := h.logged entry hm
    rw [getElem?_register, if_neg, hlogged]
    rintro ⟨hkind, hkey⟩
    rw [hkind, ← hkey, hnone] at hlogged
    cases hlogged
  · intro b hb
    rw [Bridges.emitted_register] at hb
    rw [Bridges.log_register]
    exact h.made b hb
  · intro other key' id hk hp
    rw [getElem?_register] at hk
    rw [Bridges.emitted_register]
    split at hk
    case isTrue heq =>
        cases hk
        exact absurd (by rw [heq.1]; exact List.mem_cons_self) hp
    case isFalse => exact h.present hk fun hm => hp (List.mem_cons_of_mem _ hm)

theorem extends_register {s : Bridges} {kind : BridgeKind} {key : String}
    (hnone : (s.table kind)[key]? = none) : s.Extends (s.register kind key) := by
  refine ⟨fun {other key' id} hk => ?_, fun b hb => ?_, fun e he => ?_⟩
  · rw [getElem?_register, if_neg, hk]
    rintro ⟨rfl, rfl⟩
    rw [hnone] at hk
    cases hk
  · rwa [Bridges.emitted_register]
  · rwa [Bridges.log_register]

/-- Making a bridge that is pending. -/
theorem sound_emit {pending : List (BridgeKind × Nat)} {s : Bridges} {request : Request}
    {id : Nat} (h : s.Sound spellGuest spellHost ((request.kind, id) :: pending))
    (hlog : (request, id) ∈ s.log) :
    (s.emit ⟨id, request, guestSide spellGuest request.kind id request.guest⟩).Sound
      spellGuest spellHost pending := by
  constructor
  · intro kind key id' hk
    rw [Bridges.table_emit] at hk ⊢
    exact h.bounded hk
  · intro kind key key' id' hk hk'
    rw [Bridges.table_emit] at hk hk'
    exact h.injective hk hk'
  · intro entry hm
    rw [Bridges.table_emit]
    exact h.logged entry hm
  · intro b hb
    rcases List.mem_append.mp hb with hold | hnew
    · exact h.made b hold
    · rw [List.mem_singleton.mp hnew]
      exact ⟨hlog, rfl⟩
  · intro kind key id' hk hp
    rw [Bridges.table_emit] at hk
    by_cases hnew : (kind, id') = (request.kind, id)
    · injection hnew with hkind hid
      exact ⟨_, List.mem_append_right _ List.mem_cons_self, hkind.symm, hid.symm⟩
    · obtain ⟨b, hb, hbk⟩ := h.present hk (by simp [hp, hnew])
      exact ⟨b, List.mem_append_left _ hb, hbk⟩

theorem extends_emit (s : Bridges) (made : Bridge) : s.Extends (s.emit made) :=
  ⟨fun h => by rwa [Bridges.table_emit], fun _ h => List.mem_append_left _ h, fun _ h => h⟩

/-- A new bridge, around whatever its parameters ask for. -/
theorem sound_new (request : Request) {pending : List (BridgeKind × Nat)} {s inner : Bridges}
    (h : s.Sound spellGuest spellHost pending)
    (hnone : (s.table request.kind)[spellHost request.host ""]? = none)
    (hinner : ∀ pending', ((s.register request.kind (spellHost request.host "")).note request
        (s.table request.kind).size).Sound spellGuest spellHost pending' →
      inner.Sound spellGuest spellHost pending' ∧
        ((s.register request.kind (spellHost request.host "")).note request
          (s.table request.kind).size).Extends inner) :
    (inner.emit ⟨(s.table request.kind).size, request,
        guestSide spellGuest request.kind (s.table request.kind).size request.guest⟩).Sound
          spellGuest spellHost pending ∧
      s.Extends (inner.emit ⟨(s.table request.kind).size, request,
        guestSide spellGuest request.kind (s.table request.kind).size request.guest⟩) ∧
      (request, (s.table request.kind).size) ∈ inner.log := by
  have hid : ((s.register request.kind (spellHost request.host "")).table request.kind)[
      spellHost request.host ""]? = some (s.table request.kind).size := by
    rw [getElem?_register, if_pos ⟨rfl, rfl⟩]
  obtain ⟨hsound, hext⟩ := hinner _ (sound_note (sound_register h hnone) hid)
  have hlog : (request, (s.table request.kind).size) ∈ inner.log :=
    hext.log _ (List.mem_append_right _ List.mem_cons_self)
  refine ⟨sound_emit hsound hlog, ?_, hlog⟩
  exact (((extends_register hnone).trans (extends_note _ request _)).trans hext).trans
    (extends_emit inner _)

mutual

/-- **Each request keeps the tables sound**, those of its parameters included. -/
theorem sound_bridge (g host : FunctionType) {pending : List (BridgeKind × Nat)} {s : Bridges}
    (h : s.Sound spellGuest spellHost pending) (kind : BridgeKind) :
    (bridge spellGuest spellHost kind g host s).2.Sound spellGuest spellHost pending ∧
      s.Extends (bridge spellGuest spellHost kind g host s).2 ∧
      (⟨kind, g, host⟩, (bridge spellGuest spellHost kind g host s).1)
        ∈ (bridge spellGuest spellHost kind g host s).2.log := by
  rw [bridge]
  split
  case h_1 id hid =>
      exact ⟨sound_note h hid, extends_note s _ id, List.mem_append_right _ List.mem_cons_self⟩
  case h_2 hnone =>
      refine sound_new ⟨kind, g, host⟩ h hnone fun pending' h' => ?_
      cases g with
      | void => exact ⟨h', .refl _⟩
      | plain name type => exact ⟨h', .refl _⟩
      | block prototyped params result =>
          cases prototyped with
          | false => exact ⟨h', .refl _⟩
          | true => exact sound_nested params host.params h' kind
      | callback params result => exact sound_nested params host.params h' kind

theorem sound_nested (gparams hparams : Params) {pending : List (BridgeKind × Nat)} {s : Bridges}
    (h : s.Sound spellGuest spellHost pending) (kind : BridgeKind) :
    (nested spellGuest spellHost kind gparams hparams s).Sound spellGuest spellHost pending ∧
      s.Extends (nested spellGuest spellHost kind gparams hparams s) := by
  cases gparams with
  | nil =>
      rw [nested]
      · exact ⟨h, .refl s⟩
      · rintro g grest host hrest ⟨⟩
  | cons g grest =>
      cases hparams with
      | nil =>
          rw [nested]
          · exact ⟨h, .refl s⟩
          · rintro g grest host hrest - ⟨⟩
      | cons host hrest =>
          rw [nested]
          split
          case h_1 inner _ =>
              obtain ⟨hsound, hext, -⟩ := sound_bridge g host h inner
              obtain ⟨hsound', hext'⟩ := sound_nested grest hrest hsound kind
              exact ⟨hsound', hext.trans hext'⟩
          case h_2 => exact sound_nested grest hrest h kind

end

theorem sound_answer {s : Bridges} (h : s.Sound spellGuest spellHost []) (request : Request) :
    (answer spellGuest spellHost s request).Sound spellGuest spellHost [] := by
  obtain ⟨kind, g, host⟩ := request
  cases kind with
  | block => exact (sound_bridge g host h .block).1
  | hostBlock => exact (sound_bridge g host h .hostBlock).1
  | callback => exact (sound_bridge g host h .callback).1

theorem extends_answer {s : Bridges} (h : s.Sound spellGuest spellHost []) (request : Request) :
    s.Extends (answer spellGuest spellHost s request) := by
  obtain ⟨kind, g, host⟩ := request
  cases kind with
  | block => exact (sound_bridge g host h .block).2.1
  | hostBlock => exact (sound_bridge g host h .hostBlock).2.1
  | callback => exact (sound_bridge g host h .callback).2.1

theorem sound_run (spellGuest spellHost : FunctionType → String → String)
    (requests : List Request) :
    (Runs.run (answer spellGuest spellHost) {} requests).Sound spellGuest spellHost [] :=
  Runs.run_keeps (fun s : Bridges => s.Sound spellGuest spellHost [])
    (fun request _ _ h => sound_answer h request) sound_start

end

end

/-- A request was served with a bridge of its own guest type: there is a bridge under the name
it was given, made for its guest type, and its guest side calls, packs and loads that type. -/
structure Served (spellGuest : FunctionType → String → String) (s : Bridges)
    (entry : Request × Nat) : Prop where
  made : ∃ b ∈ s.emitted, b.request.kind = entry.1.kind ∧ b.id = entry.2
  same : ∀ b ∈ s.emitted, b.request.kind = entry.1.kind → b.id = entry.2 →
    b.request.guest = entry.1.guest ∧
      b.text = guestSide spellGuest entry.1.kind entry.2 entry.1.guest

/-- Requests that were given one bridge have the guest type it was made for. -/
theorem guest_eq_of_served {spellGuest spellHost : FunctionType → String → String} {s : Bridges}
    (h : s.Sound spellGuest spellHost []) (hserved : ∀ entry ∈ s.log, Served spellGuest s entry)
    {a b : Request × Nat} (ha : a ∈ s.log) (hb : b ∈ s.log) (hkind : a.1.kind = b.1.kind)
    (hkey : spellHost a.1.host "" = spellHost b.1.host "") : a.1.guest = b.1.guest := by
  have hid : a.2 = b.2 := by
    have hla := h.logged a ha
    rw [hkind, hkey, h.logged b hb] at hla
    exact (Option.some.inj hla).symm
  obtain ⟨made, hmade, hmk, hmid⟩ := (hserved a ha).made
  rw [← ((hserved a ha).same made hmade hmk hmid).1]
  exact ((hserved b hb).same made hmade (hmk.trans hkind) (hmid.trans hid)).1

/-- **Every request is served with a bridge of its own guest type exactly when the requests that
one generator gets with one host spelling have one guest type**, the requests being those of the
sequence and those that the bridges made for them ask for. -/
theorem served_iff (spellGuest spellHost : FunctionType → String → String)
    (requests : List Request) :
    (∀ entry ∈ (Runs.run (answer spellGuest spellHost) {} requests).log,
        Served spellGuest (Runs.run (answer spellGuest spellHost) {} requests) entry) ↔
      ∀ a ∈ (Runs.run (answer spellGuest spellHost) {} requests).log,
        ∀ b ∈ (Runs.run (answer spellGuest spellHost) {} requests).log,
        a.1.kind = b.1.kind → spellHost a.1.host "" = spellHost b.1.host "" →
          a.1.guest = b.1.guest := by
  have h := sound_run spellGuest spellHost requests
  generalize Runs.run (answer spellGuest spellHost) {} requests = s at h ⊢
  constructor
  · exact fun hserved a ha b hb => guest_eq_of_served h hserved ha hb
  · intro hcond entry hentry
    refine ⟨h.present (h.logged entry hentry) (by simp), fun made hmade hkind hid => ?_⟩
    obtain ⟨hlog, htext⟩ := h.made made hmade
    -- two entries of one id have one key
    have hkey : spellHost made.request.host "" = spellHost entry.1.host "" := by
      refine h.injective (h.logged _ hlog) ?_
      rw [hkind, hid]
      exact h.logged entry hentry
    have hguest := hcond _ hlog entry hentry hkind hkey
    exact ⟨hguest, by rw [htext, hkind, hid, hguest]⟩

/-- The log has every request of the sequence, with the bridge it was given. -/
theorem logged_of_mem {spellGuest spellHost : FunctionType → String → String}
    (before after : List Request) (request : Request) :
    (request, (bridge spellGuest spellHost request.kind request.guest request.host
        (Runs.run (answer spellGuest spellHost) {} before)).1)
      ∈ (Runs.run (answer spellGuest spellHost) {} (before ++ request :: after)).log := by
  have hb := sound_bridge request.guest request.host
    (sound_run spellGuest spellHost before) request.kind
  rw [Runs.run_append, Runs.run_cons]
  have hanswer : answer spellGuest spellHost (Runs.run (answer spellGuest spellHost) {} before)
      request = (bridge spellGuest spellHost request.kind request.guest request.host
        (Runs.run (answer spellGuest spellHost) {} before)).2 := by
    obtain ⟨kind, g, host⟩ := request
    cases kind <;> rfl
  rw [hanswer]
  exact (Runs.run_keeps (fun s : Bridges => s.Sound spellGuest spellHost [] ∧ _ ∈ s.log)
    (fun request _ s hs => ⟨sound_answer hs.1 request, (extends_answer hs.1 request).log _ hs.2⟩)
    ⟨hb.1, hb.2.2⟩).2

/-! Two blocks, with an `NSInteger` and an `int` parameter, which are one type on the host. -/

mutual

/-- How clang spells these types. -/
def spellType : FunctionType → String → String
  | .void, name => "void" ++ (if name = "" then "" else " " ++ name)
  | .plain type _, name => type ++ (if name = "" then "" else " " ++ name)
  | .block _ params result, name => spellType result "" ++ " (^" ++ name ++ ")(" ++
      spellParams params ++ ")"
  | .callback params result, name => spellType result "" ++ " (*" ++ name ++ ")(" ++
      spellParams params ++ ")"

def spellParams : Params → String
  | .nil => ""
  | .cons type .nil => spellType type ""
  | .cons type rest => spellType type "" ++ ", " ++ spellParams rest

end

def takesInt : FunctionType :=
  .block true (.cons (.plain "int" (.integer .w32 true)) .nil) .void

def takesLong : FunctionType :=
  .block true (.cons (.plain "long" (.integer .w64 true)) .nil) .void

/-- The block that takes an `NSInteger`, then the one that takes an `int`. -/
def integerRequests : List Request := [⟨.block, takesLong, takesInt⟩, ⟨.block, takesInt, takesInt⟩]

theorem log_integerRequests :
    (Runs.run (answer spellType spellType) {} integerRequests).log
      = [(⟨.block, takesLong, takesInt⟩, 0), (⟨.block, takesInt, takesInt⟩, 0)] := rfl

/-- The second block is given the bridge of the first one, which passes it a `long`. -/
theorem not_served_integerRequests :
    ¬ ∀ requests : List Request,
      ∀ entry ∈ (Runs.run (answer spellType spellType) {} requests).log,
        Served spellType (Runs.run (answer spellType spellType) {} requests) entry := by
  intro h
  have hguest : takesLong = takesInt := guest_eq_of_served
    (a := (⟨.block, takesLong, takesInt⟩, 0)) (b := (⟨.block, takesInt, takesInt⟩, 0))
    (sound_run spellType spellType integerRequests) (h integerRequests)
    (by rw [log_integerRequests]; exact List.mem_cons_self)
    (by rw [log_integerRequests]; exact List.mem_cons_of_mem _ List.mem_cons_self) rfl rfl
  simp [takesLong, takesInt] at hguest

end Katabasis
