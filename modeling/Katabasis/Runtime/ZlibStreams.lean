import Katabasis.Lib.Refinement
import Katabasis.Xlgen.Scalars

set_option autoImplicit false

/-! # Compression streams of the guest

The guest's `z_stream` is not the host's, and zlib keeps a pointer back to the stream in its inner
state, so a stream cannot be copied for a call. Each guest stream has one host stream, its *mirror*,
whose address is in the guest's `state` field (`xl_z_init`, `XL_Z_CALL` and `XL_Z_END` in
`runtime/bridge.m`).

zlib is a parameter: what it does to the fields of a stream, to its own state and to memory. The
guest's own idea of its streams is `Direct`: each of them has a zlib of its own, and there are no
addresses. The mirrors refine it (`zlib_streams_refine`).
-/

namespace Katabasis.ZlibStreams

open Refinement

/-! ## Streams -/

/-- `struct xl_gzstream`, without its `state`. -/
structure GuestFields where
  nextIn : UInt64 := 0
  availIn : UInt32 := 0
  totalIn : UInt64 := 0
  nextOut : UInt64 := 0
  availOut : UInt32 := 0
  totalOut : UInt64 := 0
  msg : UInt64 := 0
  dataType : UInt32 := 0
  adler : UInt64 := 0
  deriving DecidableEq, Repr

structure GuestStream extends GuestFields where
  state : UInt64 := 0
  deriving DecidableEq, Repr

/-- The host's `z_stream`, without the pointer to zlib's own state. -/
structure HostFields where
  nextIn : UInt32 := 0
  availIn : UInt32 := 0
  totalIn : UInt32 := 0
  nextOut : UInt32 := 0
  availOut : UInt32 := 0
  totalOut : UInt32 := 0
  msg : UInt32 := 0
  dataType : UInt32 := 0
  adler : UInt32 := 0
  deriving DecidableEq, Repr

def widenPointer (value : UInt32) : UInt64 := UInt64.ofNat (xlWidenPointer value.toNat).toNat

/-- `xl_z_in` -/
def zIn (g : GuestFields) (z : HostFields) : Narrowed HostFields := do
  let nextIn ← xlNarrowPointer g.nextIn.toNat "zlib" 0
  let nextOut ← xlNarrowPointer g.nextOut.toNat "zlib" 1
  return { z with
    nextIn := UInt32.ofNat nextIn.toNat
    availIn := g.availIn
    nextOut := UInt32.ofNat nextOut.toNat
    availOut := g.availOut }

/-- `xl_z_out`, which writes all fields but `state`. -/
def zOut (z : HostFields) : GuestFields where
  nextIn := widenPointer z.nextIn
  availIn := z.availIn
  totalIn := z.totalIn.toUInt64
  nextOut := widenPointer z.nextOut
  availOut := z.availOut
  totalOut := z.totalOut.toUInt64
  msg := widenPointer z.msg
  dataType := z.dataType
  adler := z.adler.toUInt64

/-! ## zlib -/

def Z_OK : Int32 := 0
def Z_STREAM_ERROR : Int32 := -2
def Z_MEM_ERROR : Int32 := -4

inductive ZInit
  | inflateInit
  | inflateInit2 (windowBits : Int32)
  | deflateInit (level : Int32)
  | deflateInit2 (level method windowBits memLevel strategy : Int32)
  deriving DecidableEq

inductive ZCall
  | inflate (flush : Int32)
  | deflate (flush : Int32)
  | inflateReset
  | deflateReset
  deriving DecidableEq

inductive ZEnd
  | inflateEnd
  | deflateEnd
  deriving DecidableEq

abbrev ZError := { rc : Int32 // rc ≠ Z_OK }

/-- What zlib does, to the fields of a stream, its own state `σ` and the memory `μ`. -/
structure Zlib (σ μ : Type) where
  init : ZInit → HostFields → μ → (ZError ⊕ σ) × HostFields × μ
  call : ZCall → HostFields → σ → μ → Int32 × HostFields × σ × μ
  finish : ZEnd → HostFields → σ → μ → Int32 × HostFields × μ

/-- zlib's own state, with the address of the stream that it belongs to. -/
structure Inner (σ : Type) where
  strm : UInt32
  rest : σ

structure HostStream (σ : Type) where
  fields : HostFields
  inner : Option (Inner σ) := none

section

variable {σ μ : Type} (zlib : Zlib σ μ)

/-- An init function of zlib, on the stream at `z`. -/
def hostInit (args : ZInit) (z : UInt32) (stream : HostStream σ) (mem : μ) :
    Int32 × HostStream σ × μ :=
  match zlib.init args stream.fields mem with
  | (.inl rc, fields, mem) => (rc.val, ⟨fields, none⟩, mem)
  | (.inr rest, fields, mem) => (Z_OK, ⟨fields, some ⟨z, rest⟩⟩, mem)

/-- A function of zlib, on the stream at `z`: an error where that is not the stream of the state. -/
def hostCall (op : ZCall) (z : UInt32) (stream : HostStream σ) (mem : μ) :
    Int32 × HostStream σ × μ :=
  match stream.inner with
  | none => (Z_STREAM_ERROR, stream, mem)
  | some inner =>
      if inner.strm ≠ z then (Z_STREAM_ERROR, stream, mem)
      else
        match zlib.call op stream.fields inner.rest mem with
        | (rc, fields, rest, mem) => (rc, ⟨fields, some ⟨z, rest⟩⟩, mem)

def hostFinish (op : ZEnd) (z : UInt32) (stream : HostStream σ) (mem : μ) :
    Int32 × HostStream σ × μ :=
  match stream.inner with
  | none => (Z_STREAM_ERROR, stream, mem)
  | some inner =>
      if inner.strm ≠ z then (Z_STREAM_ERROR, stream, mem)
      else
        match zlib.finish op stream.fields inner.rest mem with
        | (rc, fields, mem) => (rc, ⟨fields, none⟩, mem)

end

/-! ## The mirrors -/

/-- Why the program stops: a pointer that does not fit, or a mirror that is not there. -/
inductive ZStop
  | fault (fault : NarrowingFault)
  | undefined
  deriving DecidableEq

/-- What the guest does to the `state` field when it writes a stream: nothing, clear it, or
anything else. -/
inductive StateWrite
  | keep
  | clear
  | scribble (value : UInt64)
  deriving DecidableEq

inductive ZEvent (μ : Type)
  | write (g : UInt32) (fields : GuestFields) (state : StateWrite)
  /-- Anything else the program does to memory. -/
  | work (f : μ → μ)
  | init (g : UInt64) (args : ZInit) (turn : Nat)
  | call (g : UInt64) (op : ZCall)
  | finish (g : UInt64) (op : ZEnd)

structure ZState (σ μ : Type) where
  guest : UInt32 → GuestStream := fun _ => {}
  /-- The mirrors that are allocated. -/
  mirrors : UInt32 → Option (HostStream σ) := fun _ => none
  mem : μ

/-- `p->r` -/
def zResult (rc : Int32) : UInt64 := rc.toInt64.toUInt64

section

variable {σ μ : Type} (zlib : Zlib σ μ)
  (calloc : Nat → (UInt32 → Bool) → Option UInt32)

/-- `xl_z_init` -/
def xlZInit (s : ZState σ μ) (g : UInt32) (args : ZInit) (turn : Nat) :
    Except ZStop (UInt64 × ZState σ μ) :=
  match calloc turn fun z => (s.mirrors z).isSome with
  | none => .ok (zResult Z_MEM_ERROR, s)
  | some z =>
      match zIn (s.guest g).toGuestFields {} with
      | .error fault => .error (.fault fault)
      | .ok fields =>
          match hostInit zlib args z { fields } s.mem with
          | (rc, stream, mem) =>
              if rc ≠ Z_OK then
                .ok (zResult rc, { s with
                  guest := Function.update s.guest g { s.guest g with state := 0 }
                  mem })
              else
                .ok (zResult rc,
                  { guest := Function.update s.guest g ⟨zOut stream.fields, z.toUInt64⟩
                    mirrors := Function.update s.mirrors z (some stream)
                    mem })

/-- `XL_Z_CALL` -/
def xlZCall (s : ZState σ μ) (g : UInt32) (op : ZCall) : Except ZStop (UInt64 × ZState σ μ) :=
  let z := (s.guest g).state.toUInt32
  if z = 0 then .ok (zResult Z_STREAM_ERROR, s)
  else
    match s.mirrors z with
    | none => .error .undefined
    | some stream =>
        match zIn (s.guest g).toGuestFields stream.fields with
        | .error fault => .error (.fault fault)
        | .ok fields =>
            match hostCall zlib op z { stream with fields } s.mem with
            | (rc, stream, mem) =>
                .ok (zResult rc,
                  { guest := Function.update s.guest g ⟨zOut stream.fields, (s.guest g).state⟩
                    mirrors := Function.update s.mirrors z (some stream)
                    mem })

/-- `XL_Z_END` -/
def xlZEnd (s : ZState σ μ) (g : UInt32) (op : ZEnd) : Except ZStop (UInt64 × ZState σ μ) :=
  let z := (s.guest g).state.toUInt32
  if z = 0 then .ok (zResult Z_STREAM_ERROR, s)
  else
    match s.mirrors z with
    | none => .error .undefined
    | some stream =>
        match zIn (s.guest g).toGuestFields stream.fields with
        | .error fault => .error (.fault fault)
        | .ok fields =>
            match hostFinish zlib op z { stream with fields } s.mem with
            | (rc, stream, mem) =>
                .ok (zResult rc,
                  { guest := Function.update s.guest g ⟨zOut stream.fields, 0⟩
                    mirrors := Function.update s.mirrors z none
                    mem })

/-- One event. A stream is where the low word of its address says. -/
def zStep (s : ZState σ μ) : ZEvent μ → Except ZStop (UInt64 × ZState σ μ)
  | .write g fields state =>
      let value := match state with
        | .keep => (s.guest g).state
        | .clear => 0
        | .scribble value => value
      .ok (0, { s with guest := Function.update s.guest g ⟨fields, value⟩ })
  | .work f => .ok (0, { s with mem := f s.mem })
  | .init g args turn => xlZInit zlib calloc s g.toUInt32 args turn
  | .call g op => xlZCall zlib s g.toUInt32 op
  | .finish g op => xlZEnd zlib s g.toUInt32 op

end

/-! ## The guest's own zlib -/

/-- What the guest may think of one of its streams. -/
inductive Session (σ : Type)
  /-- It was written over since it was made, or not made at all. -/
  | unknown
  | none
  | live (fields : HostFields) (rest : σ)

/-- Streams with a zlib of their own. -/
structure Direct (σ μ : Type) where
  guest : UInt32 → GuestFields := fun _ => {}
  sessions : UInt32 → Session σ := fun _ => .none
  mem : μ

section

variable {σ μ : Type} (zlib : Zlib σ μ)

def directInit (t : Direct σ μ) (g : UInt32) (args : ZInit) : Except ZStop (UInt64 × Direct σ μ) :=
  match zIn (t.guest g) {} with
  | .error fault => .error (.fault fault)
  | .ok fields =>
      match zlib.init args fields t.mem with
      | (.inl rc, _, mem) =>
          .ok (zResult rc.val, { t with sessions := Function.update t.sessions g .none, mem })
      | (.inr rest, fields, mem) =>
          .ok (zResult Z_OK,
            { guest := Function.update t.guest g (zOut fields)
              sessions := Function.update t.sessions g (.live fields rest)
              mem })

def directCall (t : Direct σ μ) (g : UInt32) (op : ZCall) : Except ZStop (UInt64 × Direct σ μ) :=
  match t.sessions g with
  | .unknown => .error .undefined
  | .none => .ok (zResult Z_STREAM_ERROR, t)
  | .live fields rest =>
      match zIn (t.guest g) fields with
      | .error fault => .error (.fault fault)
      | .ok fields =>
          match zlib.call op fields rest t.mem with
          | (rc, fields, rest, mem) =>
              .ok (zResult rc,
                { guest := Function.update t.guest g (zOut fields)
                  sessions := Function.update t.sessions g (.live fields rest)
                  mem })

def directEnd (t : Direct σ μ) (g : UInt32) (op : ZEnd) : Except ZStop (UInt64 × Direct σ μ) :=
  match t.sessions g with
  | .unknown => .error .undefined
  | .none => .ok (zResult Z_STREAM_ERROR, t)
  | .live fields rest =>
      match zIn (t.guest g) fields with
      | .error fault => .error (.fault fault)
      | .ok fields =>
          match zlib.finish op fields rest t.mem with
          | (rc, fields, mem) =>
              .ok (zResult rc,
                { guest := Function.update t.guest g (zOut fields)
                  sessions := Function.update t.sessions g .none
                  mem })

/-- What an event may do. Only an init may fail for want of memory. -/
inductive DirectStep : Direct σ μ → ZEvent μ → Except ZStop (UInt64 × Direct σ μ) → Prop
  | write (t : Direct σ μ) (g : UInt32) (fields : GuestFields) (state : StateWrite) :
      DirectStep t (.write g fields state) (.ok (0, { t with
        guest := Function.update t.guest g fields
        sessions := Function.update t.sessions g
          (match state with
            | .keep => t.sessions g
            | .clear => .none
            | .scribble _ => .unknown) }))
  | work (t : Direct σ μ) (f : μ → μ) :
      DirectStep t (.work f) (.ok (0, { t with mem := f t.mem }))
  | noMemory (t : Direct σ μ) (g : UInt64) (args : ZInit) (turn : Nat) :
      DirectStep t (.init g args turn) (.ok (zResult Z_MEM_ERROR, t))
  | init (t : Direct σ μ) (g : UInt64) (args : ZInit) (turn : Nat) :
      DirectStep t (.init g args turn) (directInit zlib t g.toUInt32 args)
  | call (t : Direct σ μ) (g : UInt64) (op : ZCall) :
      DirectStep t (.call g op) (directCall zlib t g.toUInt32 op)
  | finish (t : Direct σ μ) (g : UInt64) (op : ZEnd) :
      DirectStep t (.finish g op) (directEnd zlib t g.toUInt32 op)

end

/-! ## What the guest sees -/

/-- What the guest can see behind an event: the result, the fields of all streams, the memory. -/
structure Seen (μ : Type) where
  result : UInt64
  streams : UInt32 → GuestFields
  mem : μ

def seeMirrors {σ μ : Type} (entry : UInt64 × ZState σ μ) : Seen μ × ZState σ μ :=
  (⟨entry.1, fun g => (entry.2.guest g).toGuestFields, entry.2.mem⟩, entry.2)

def seeDirect {σ μ : Type} (entry : UInt64 × Direct σ μ) : Seen μ × Direct σ μ :=
  (⟨entry.1, entry.2.guest, entry.2.mem⟩, entry.2)

/-- One event over the mirrors, and what the guest sees of it. -/
def zTurn {σ μ : Type} (zlib : Zlib σ μ) (calloc : Nat → (UInt32 → Bool) → Option UInt32)
    (s : ZState σ μ) (e : ZEvent μ) : Except ZStop (Seen μ × ZState σ μ) :=
  (zStep zlib calloc s e).map seeMirrors

/-- One event over streams with a zlib of their own. -/
def DirectTurn {σ μ : Type} (zlib : Zlib σ μ) (t : Direct σ μ) (e : ZEvent μ)
    (x : Except ZStop (Seen μ × Direct σ μ)) : Prop :=
  ∃ y, DirectStep zlib t e y ∧ x = y.map seeDirect

/-- The guest works on streams that it knows. -/
def Knows {σ μ : Type} (t : Direct σ μ) : ZEvent μ → Prop
  | .call g _ => t.sessions g.toUInt32 ≠ .unknown
  | .finish g _ => t.sessions g.toUInt32 ≠ .unknown
  | _ => True

/-! ## Each stream has a mirror of its own -/

/-- A stream and its session: no mirror, or a mirror with zlib's state for its very address. -/
def SessionAt {σ μ : Type} (s : ZState σ μ) (g : UInt32) : Session σ → Prop
  | .unknown => True
  | .none => (s.guest g).state = 0
  | .live fields rest => ∃ z, z ≠ 0 ∧ (s.guest g).state = z.toUInt64 ∧
      s.mirrors z = some ⟨fields, some ⟨z, rest⟩⟩

structure Mirrored {σ μ : Type} (s : ZState σ μ) (t : Direct σ μ) : Prop where
  mem : t.mem = s.mem
  fields : ∀ g, t.guest g = (s.guest g).toGuestFields
  session : ∀ g, SessionAt s g (t.sessions g)
  own : ∀ g g' fields rest fields' rest', t.sessions g = .live fields rest →
    t.sessions g' = .live fields' rest' → (s.guest g).state = (s.guest g').state → g = g'

section

variable {σ μ : Type} {s : ZState σ μ} {t : Direct σ μ} (h : Mirrored s t)

include h

/-- The address of a mirror, and its place in memory. -/
theorem Mirrored.live {g : UInt32} {fields : HostFields} {rest : σ}
    (hlive : t.sessions g = .live fields rest) :
    (s.guest g).state.toUInt32 ≠ 0 ∧
      s.mirrors (s.guest g).state.toUInt32
        = some ⟨fields, some ⟨(s.guest g).state.toUInt32, rest⟩⟩ ∧
      (s.guest g).state = (s.guest g).state.toUInt32.toUInt64 := by
  have hsession := h.session g
  rw [hlive] at hsession
  obtain ⟨z, hz, hstate, hmirror⟩ := hsession
  have hback : (s.guest g).state.toUInt32 = z := by rw [hstate, UInt32.toUInt32_toUInt64]
  rw [hback]
  exact ⟨hz, hmirror, hstate⟩

/-- Two streams with a mirror have two mirrors. -/
theorem Mirrored.apart {g g' : UInt32} {fields fields' : HostFields} {rest rest' : σ}
    (hg : t.sessions g = .live fields rest) (hg' : t.sessions g' = .live fields' rest')
    (hne : g' ≠ g) : (s.guest g').state.toUInt32 ≠ (s.guest g).state.toUInt32 := by
  intro heq
  apply hne
  apply h.own g' g _ _ _ _ hg' hg
  rw [(h.live hg').2.2, (h.live hg).2.2, heq]

/-- **One stream changes**: its session, and of the mirrors only its own, or one that nobody had. -/
theorem Mirrored.update {g : UInt32} (stream : GuestStream) {session : Session σ}
    {mirrors : UInt32 → Option (HostStream σ)} {mem : μ}
    (hsession : SessionAt { guest := Function.update s.guest g stream, mirrors, mem } g session)
    (hothers : ∀ g' fields rest, g' ≠ g → t.sessions g' = .live fields rest →
      mirrors (s.guest g').state.toUInt32 = s.mirrors (s.guest g').state.toUInt32)
    (hnew : ∀ fields rest, session = .live fields rest → ∀ g' fields' rest', g' ≠ g →
      t.sessions g' = .live fields' rest' → (s.guest g').state ≠ stream.state) :
    Mirrored { guest := Function.update s.guest g stream, mirrors, mem }
      { guest := Function.update t.guest g stream.toGuestFields
        sessions := Function.update t.sessions g session
        mem } where
  mem := rfl
  fields g' := by
    by_cases hg : g' = g
    · subst hg
      simp
    · simp [hg, h.fields g']
  session g' := by
    dsimp only
    by_cases hg : g' = g
    · subst hg
      rwa [Function.update_self]
    · rw [Function.update_of_ne hg]
      have hold := h.session g'
      cases hs : t.sessions g' with
      | unknown => trivial
      | none =>
          rw [hs] at hold
          show (Function.update s.guest g stream g').state = 0
          rwa [Function.update_of_ne hg]
      | live fields rest =>
          obtain ⟨hz, hmirror, hstate⟩ := h.live hs
          refine ⟨(s.guest g').state.toUInt32, hz, ?_, ?_⟩
          · dsimp only
            rwa [Function.update_of_ne hg]
          · exact (hothers g' fields rest hg hs).trans hmirror
  own g₁ g₂ fields₁ rest₁ fields₂ rest₂ h₁ h₂ hstate := by
    dsimp only at h₁ h₂ hstate
    by_cases hg₁ : g₁ = g
    · by_cases hg₂ : g₂ = g
      · rw [hg₁, hg₂]
      · subst hg₁
        rw [Function.update_self] at h₁
        rw [Function.update_of_ne hg₂] at h₂
        rw [Function.update_self, Function.update_of_ne hg₂] at hstate
        exact absurd hstate.symm (hnew _ _ h₁ g₂ _ _ hg₂ h₂)
    · rw [Function.update_of_ne hg₁] at h₁
      by_cases hg₂ : g₂ = g
      · subst hg₂
        rw [Function.update_self] at h₂
        rw [Function.update_of_ne hg₁, Function.update_self] at hstate
        exact absurd hstate (hnew _ _ h₂ g₁ _ _ hg₁ h₁)
      · rw [Function.update_of_ne hg₂] at h₂
        rw [Function.update_of_ne hg₁, Function.update_of_ne hg₂] at hstate
        exact h.own g₁ g₂ _ _ _ _ h₁ h₂ hstate

end

/-! ## The mirrors refine the guest's zlib -/

section

variable {σ μ : Type} {zlib : Zlib σ μ} {calloc : Nat → (UInt32 → Bool) → Option UInt32}
  (hcalloc : ∀ turn live z, calloc turn live = some z → z ≠ 0 ∧ live z = false)
  {s : ZState σ μ} {t : Direct σ μ} (h : Mirrored s t)

include h

include hcalloc in
theorem xlZInit_matched (g : UInt64) (args : ZInit) (turn : Nat) :
    Matched (DirectStep zlib) Mirrored t (.init g args turn)
      (xlZInit zlib calloc s g.toUInt32 args turn) := by
  unfold xlZInit
  cases hz : calloc turn fun z => (s.mirrors z).isSome with
  | none => exact ⟨t, .noMemory t g args turn, h⟩
  | some z =>
      obtain ⟨hne, hfree⟩ := hcalloc turn _ z hz
      -- the new mirror is nobody's
      have hothers : ∀ (stream : HostStream σ) (g' : UInt32) (fields : HostFields) (rest : σ),
          g' ≠ g.toUInt32 → t.sessions g' = .live fields rest →
          Function.update s.mirrors z (some stream) (s.guest g').state.toUInt32
            = s.mirrors (s.guest g').state.toUInt32 := by
        intro stream g' fields rest _ hlive
        rw [Function.update_of_ne]
        rintro rfl
        rw [(h.live hlive).2.1] at hfree
        cases hfree
      have hnew : ∀ (g' : UInt32) (fields' : HostFields) (rest' : σ),
          t.sessions g' = .live fields' rest' → (s.guest g').state ≠ z.toUInt64 := by
        intro g' fields' rest' hlive heq
        have hmirror := (h.live hlive).2.1
        rw [heq, UInt32.toUInt32_toUInt64] at hmirror
        rw [hmirror] at hfree
        cases hfree
      have hstep : DirectStep zlib t (.init g args turn) _ := .init t g args turn
      unfold directInit at hstep
      rw [h.fields] at hstep
      dsimp only
      cases hin : zIn (s.guest g.toUInt32).toGuestFields {} with
      | error fault =>
          rw [hin] at hstep
          exact hstep
      | ok fields =>
          simp only [hin] at hstep
          rw [h.mem] at hstep
          obtain ⟨result, fields', mem, hinit⟩ :
              ∃ result fields' mem, zlib.init args fields s.mem = (result, fields', mem) :=
            ⟨_, _, _, rfl⟩
          simp only [hinit] at hstep
          cases result with
          | inl rc =>
              have hhost : hostInit zlib args z { fields } s.mem = (rc.val, ⟨fields', none⟩, mem) := by
                simp only [hostInit, hinit]
              simp only [hhost, ne_eq, rc.property, not_false_eq_true, if_true]
              refine ⟨_, hstep, ?_⟩
              -- the fields of the stream stay as they are
              have hupdate : Mirrored
                  { s with
                    guest := Function.update s.guest g.toUInt32
                      { s.guest g.toUInt32 with state := 0 }
                    mem }
                  { guest := Function.update t.guest g.toUInt32 (t.guest g.toUInt32)
                    sessions := Function.update t.sessions g.toUInt32 .none
                    mem } := by
                rw [h.fields]
                exact h.update _ (by simp [SessionAt]) (fun _ _ _ _ _ => rfl) (by simp)
              rw [Function.update_eq_self] at hupdate
              exact hupdate
          | inr rest =>
              have hhost : hostInit zlib args z { fields } s.mem
                  = (Z_OK, ⟨fields', some ⟨z, rest⟩⟩, mem) := by
                simp only [hostInit, hinit]
              simp only [hhost, ne_eq, not_true_eq_false, if_false]
              refine ⟨_, hstep, ?_⟩
              refine h.update ⟨zOut fields', z.toUInt64⟩ ⟨z, hne, ?_, ?_⟩
                (hothers _) (fun _ _ _ g' _ _ _ hlive => hnew g' _ _ hlive)
              · simp
              · simp

/-- A call reaches the mirror of its own stream. -/
theorem xlZCall_matched (g : UInt64) (op : ZCall) (hknown : t.sessions g.toUInt32 ≠ .unknown) :
    Matched (DirectStep zlib) Mirrored t (.call g op) (xlZCall zlib s g.toUInt32 op) := by
  have hstep : DirectStep zlib t (.call g op) _ := .call t g op
  unfold directCall at hstep
  unfold xlZCall
  cases hs : t.sessions g.toUInt32 with
  | unknown => exact absurd hs hknown
  | none =>
      have hsession := h.session g.toUInt32
      rw [hs] at hsession hstep
      have hzero : (s.guest g.toUInt32).state.toUInt32 = 0 := by
        rw [hsession]
        rfl
      simp only [hzero, if_true]
      exact ⟨t, hstep, h⟩
  | live fields rest =>
      obtain ⟨hz, hmirror, hstate⟩ := h.live hs
      simp only [hs, h.fields] at hstep
      simp only [hz, if_false, hmirror]
      cases hin : zIn (s.guest g.toUInt32).toGuestFields fields with
      | error fault =>
          rw [hin] at hstep
          exact hstep
      | ok fields' =>
          simp only [hin, h.mem] at hstep
          obtain ⟨rc, fields'', rest', mem, hcall⟩ : ∃ rc fields'' rest' mem,
              zlib.call op fields' rest s.mem = (rc, fields'', rest', mem) := ⟨_, _, _, _, rfl⟩
          simp only [hcall] at hstep
          simp only [hostCall, ne_eq, not_true_eq_false, if_false, hcall]
          refine ⟨_, hstep, ?_⟩
          refine h.update ⟨zOut fields'', (s.guest g.toUInt32).state⟩
            ⟨_, hz, ?_, ?_⟩ (fun g' _ _ hne hlive => ?_) (fun _ _ _ g' _ _ hne hlive heq => ?_)
          · dsimp only
            rw [Function.update_self]
            exact hstate
          · simp
          · exact Function.update_of_ne (h.apart hs hlive hne) _ _
          · exact hne (h.own g' g.toUInt32 _ _ _ _ hlive hs heq)

/-- An end frees the mirror of its own stream. -/
theorem xlZEnd_matched (g : UInt64) (op : ZEnd) (hknown : t.sessions g.toUInt32 ≠ .unknown) :
    Matched (DirectStep zlib) Mirrored t (.finish g op) (xlZEnd zlib s g.toUInt32 op) := by
  have hstep : DirectStep zlib t (.finish g op) _ := .finish t g op
  unfold directEnd at hstep
  unfold xlZEnd
  cases hs : t.sessions g.toUInt32 with
  | unknown => exact absurd hs hknown
  | none =>
      have hsession := h.session g.toUInt32
      rw [hs] at hsession hstep
      have hzero : (s.guest g.toUInt32).state.toUInt32 = 0 := by
        rw [hsession]
        rfl
      simp only [hzero, if_true]
      exact ⟨t, hstep, h⟩
  | live fields rest =>
      obtain ⟨hz, hmirror, -⟩ := h.live hs
      simp only [hs, h.fields] at hstep
      simp only [hz, if_false, hmirror]
      cases hin : zIn (s.guest g.toUInt32).toGuestFields fields with
      | error fault =>
          rw [hin] at hstep
          exact hstep
      | ok fields' =>
          simp only [hin, h.mem] at hstep
          obtain ⟨rc, fields'', mem, hfinish⟩ : ∃ rc fields'' mem,
              zlib.finish op fields' rest s.mem = (rc, fields'', mem) := ⟨_, _, _, rfl⟩
          simp only [hfinish] at hstep
          simp only [hostFinish, ne_eq, not_true_eq_false, if_false, hfinish]
          refine ⟨_, hstep, ?_⟩
          refine h.update ⟨zOut fields'', 0⟩ ?_ (fun g' _ _ hne hlive => ?_) (by simp)
          · simp [SessionAt]
          · exact Function.update_of_ne (h.apart hs hlive hne) _ _

theorem write_matched (g : UInt32) (fields : GuestFields) (state : StateWrite) :
    Matched (DirectStep zlib) Mirrored t (.write g fields state)
      (zStep zlib calloc s (.write g fields state)) := by
  refine ⟨_, .write t g fields state, ?_⟩
  rw [h.mem]
  refine h.update ⟨fields, _⟩ ?_ (fun _ _ _ _ _ => rfl) ?_
  · cases state with
    | keep =>
        have hsession := h.session g
        cases hs : t.sessions g with
        | unknown => trivial
        | none =>
            rw [hs] at hsession
            simpa [SessionAt] using hsession
        | live fields rest =>
            rw [hs] at hsession
            simpa [SessionAt] using hsession
    | clear => simp [SessionAt]
    | scribble value => trivial
  · intro fields' rest' hlive g' fields'' rest'' hne hlive' heq
    cases state with
    | keep => exact hne (h.own g' g _ _ _ _ hlive' hlive heq)
    | clear => cases hlive
    | scribble value => cases hlive

end

/-- What belongs together looks the same. -/
theorem matched_see {σ μ : Type} {zlib : Zlib σ μ} {t : Direct σ μ} {e : ZEvent μ}
    {x : Except ZStop (UInt64 × ZState σ μ)} (h : Matched (DirectStep zlib) Mirrored t e x) :
    Matched (DirectTurn zlib) Mirrored t e (x.map seeMirrors) := by
  cases x with
  | error stop => exact ⟨_, h, rfl⟩
  | ok entry =>
      obtain ⟨t', hstep, hmirrored⟩ := h
      refine ⟨t', ⟨_, hstep, ?_⟩, hmirrored⟩
      have hstreams : (fun g => (entry.2.guest g).toGuestFields) = t'.guest :=
        funext fun g => (hmirrored.fields g).symm
      simp only [Except.map, seeDirect, hstreams, hmirrored.mem]

/-- A guest that works on streams it knows never meets one that is not there. -/
theorem directStep_ne_undefined {σ μ : Type} {zlib : Zlib σ μ} {t : Direct σ μ} {e : ZEvent μ}
    (hk : Knows t e) : ¬ DirectStep zlib t e (.error .undefined) := by
  intro hstep
  generalize hresult : (Except.error ZStop.undefined : Except ZStop (UInt64 × Direct σ μ)) = result
    at hstep
  cases hstep with
  | write g fields state => cases hresult
  | work f => cases hresult
  | noMemory g args turn => cases hresult
  | init g args turn =>
      unfold directInit at hresult
      split at hresult
      case h_1 => cases hresult
      case h_2 => split at hresult <;> cases hresult
  | call g op =>
      unfold directCall at hresult
      split at hresult
      case h_1 hunknown => exact hk hunknown
      case h_2 => cases hresult
      case h_3 => split at hresult <;> cases hresult
  | finish g op =>
      unfold directEnd at hresult
      split at hresult
      case h_1 hunknown => exact hk hunknown
      case h_2 => cases hresult
      case h_3 => split at hresult <;> cases hresult

/-- **Every guest stream has a zlib of its own.** Whatever the streams, and in whatever order the
guest works on them, every run over the mirrors is a run in which each stream keeps zlib's state to
itself: the same results, the same fields, the same memory, the same fault where a pointer does not
fit. A mirror that is not there is never used, as long as the guest works on streams that it has
not written over. -/
theorem zlib_streams_refine {σ μ : Type} (zlib : Zlib σ μ)
    (calloc : Nat → (UInt32 → Bool) → Option UInt32)
    (hcalloc : ∀ turn live z, calloc turn live = some z → z ≠ 0 ∧ live z = false) (mem : μ)
    (events : List (ZEvent μ)) (hok : Allowed (DirectTurn zlib) Knows { mem } events) :
    Runs (DirectTurn zlib) { mem } events (run (zTurn zlib calloc) { mem } events).1
        (run (zTurn zlib calloc) { mem } events).2 ∧
      (run (zTurn zlib calloc) { mem } events).2 ≠ some .undefined := by
  have hstart : Mirrored (σ := σ) { mem } { mem } :=
    ⟨rfl, fun _ => rfl, fun _ => rfl, fun _ _ _ _ _ _ hlive => by cases hlive⟩
  have hruns : Runs (DirectTurn zlib) { mem } events (run (zTurn zlib calloc) { mem } events).1
      (run (zTurn zlib calloc) { mem } events).2 := by
    refine run_refines (R := Mirrored) (fun s t e h hk => matched_see ?_) hstart hok
    cases e with
    | write g fields state => exact write_matched h g fields state
    | work f => exact ⟨_, .work t f, ⟨by rw [h.mem], h.fields, h.session, h.own⟩⟩
    | init g args turn => exact xlZInit_matched hcalloc h g args turn
    | call g op => exact xlZCall_matched h g op hk
    | finish g op => exact xlZEnd_matched h g op hk
  refine ⟨hruns, hruns.ne_stop (fun t e hk hstep => ?_) hok⟩
  obtain ⟨y, hstep, hy⟩ := hstep
  cases y with
  | error stop =>
      cases hy
      exact directStep_ne_undefined hk hstep
  | ok entry => cases hy

/-! ### A guest that leaves the state field alone -/

theorem Session.none_ne {σ : Type} : (none : Session σ) ≠ unknown := by
  intro h
  cases h

theorem Session.live_ne {σ : Type} (fields : HostFields) (rest : σ) :
    live fields rest ≠ unknown := by
  intro h
  cases h

def LeavesState {μ : Type} : ZEvent μ → Prop
  | .write _ _ (.scribble _) => False
  | _ => True

/-- Such a guest knows all of its streams, from the first on. -/
theorem allowed_of_leavesState {σ μ : Type} {zlib : Zlib σ μ} {events : List (ZEvent μ)}
    {t : Direct σ μ} (hevents : ∀ e ∈ events, LeavesState e)
    (ht : ∀ g, t.sessions g ≠ .unknown) : Allowed (DirectTurn zlib) Knows t events := by
  induction events generalizing t with
  | nil => trivial
  | cons e rest ih =>
      rw [List.forall_mem_cons] at hevents
      constructor
      · cases e with
        | call g op => exact ht g.toUInt32
        | finish g op => exact ht g.toUInt32
        | write g fields state => trivial
        | work f => trivial
        | init g args turn => trivial
      · rintro seen t' ⟨y, hstep, hy⟩
        apply ih hevents.2
        -- no step makes a session unknown
        have hupdate : ∀ (g : UInt32) (session : Session σ), session ≠ .unknown →
            ∀ g', Function.update t.sessions g session g' ≠ .unknown := by
          intro g session hsession g'
          by_cases hg : g' = g
          · subst hg
            rwa [Function.update_self]
          · rw [Function.update_of_ne hg]
            exact ht g'
        cases hstep with
        | write g fields state =>
            cases hy
            apply hupdate
            cases state with
            | keep => exact ht g
            | clear => exact Session.none_ne
            | scribble value => exact absurd hevents.1 id
        | work f =>
            cases hy
            exact ht
        | noMemory g args turn =>
            cases hy
            exact ht
        | init g args turn =>
            unfold directInit at hy
            split at hy
            case h_1 => cases hy
            case h_2 =>
              split at hy
              case h_1 =>
                cases hy
                exact hupdate _ _ Session.none_ne
              case h_2 =>
                cases hy
                exact hupdate _ _ (Session.live_ne _ _)
        | call g op =>
            unfold directCall at hy
            split at hy
            case h_1 => cases hy
            case h_2 =>
              cases hy
              exact ht
            case h_3 =>
              split at hy
              case h_1 => cases hy
              case h_2 =>
                cases hy
                exact hupdate _ _ (Session.live_ne _ _)
        | finish g op =>
            unfold directEnd at hy
            split at hy
            case h_1 => cases hy
            case h_2 =>
              cases hy
              exact ht
            case h_3 =>
              split at hy
              case h_1 => cases hy
              case h_2 =>
                cases hy
                exact hupdate _ _ Session.none_ne

/-- A zlib that copies bytes and counts the calls. -/
def copying : Zlib Nat Unit where
  init _ fields mem := (.inr 0, { fields with totalIn := 0, totalOut := 0 }, mem)
  call _ fields rest mem :=
    let n := min fields.availIn fields.availOut
    (Z_OK, { fields with
      nextIn := fields.nextIn + n
      availIn := fields.availIn - n
      totalIn := fields.totalIn + n
      nextOut := fields.nextOut + n
      availOut := fields.availOut - n
      totalOut := fields.totalOut + n }, rest + 1, mem)
  finish _ fields _ mem := (Z_OK, fields, mem)

/-- The lower of two places that is free. -/
def twoPlaces (_ : Nat) (live : UInt32 → Bool) : Option UInt32 :=
  if live 16 = false then some 16 else if live 32 = false then some 32 else none

/-- Two streams at once, and a call behind the end of one. -/
def twoStreams : List (ZEvent Unit) :=
  [.write 0x100 { nextIn := 0x1000, availIn := 8, nextOut := 0x2000, availOut := 4 } .keep,
    .init 0x100 (.inflateInit2 15) 0, .init 0x200 (.deflateInit 9) 1, .call 0x100 (.inflate 0),
    .finish 0x100 .inflateEnd, .call 0x200 (.deflate 4), .call 0x100 (.inflate 0)]

theorem zlib_streams_refine_two :
    (run (zTurn copying twoPlaces) { mem := () } twoStreams).1.map Seen.result
        = [0, 0, 0, 0, 0, 0, 0xFFFFFFFFFFFFFFFE] ∧
      Runs (DirectTurn copying) { mem := () } twoStreams
        (run (zTurn copying twoPlaces) { mem := () } twoStreams).1
        (run (zTurn copying twoPlaces) { mem := () } twoStreams).2 := by
  refine ⟨by decide, (zlib_streams_refine copying twoPlaces ?_ () twoStreams ?_).1⟩
  · intro turn live z h
    unfold twoPlaces at h
    split at h
    case isTrue hfree =>
      cases h
      exact ⟨by decide, hfree⟩
    case isFalse =>
      split at h
      case isTrue hfree =>
        cases h
        exact ⟨by decide, hfree⟩
      case isFalse => cases h
  · apply allowed_of_leavesState
    · simp [twoStreams, LeavesState]
    · intro g
      exact Session.none_ne

end Katabasis.ZlibStreams
