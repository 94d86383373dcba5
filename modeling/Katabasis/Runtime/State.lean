import Mathlib.Tactic

set_option autoImplicit false

/-! # The register state of lifted code

Lifted code keeps the guest's registers in a `State`, one for each thread. When the runtime
calls guest code it does so on the state of the thread that it is on, so what it does not put
back the guest code has overwritten (`xl_invoke_n`, `runtime/runtime.c`).
-/

namespace Katabasis

/-- The guest's registers: `X0`–`X30`, `SP`, `PC` and `V0`–`V31`. -/
structure State where
  x : Fin 31 → UInt64
  sp : UInt64
  pc : UInt64
  v : Fin 32 → BitVec 128

/-- The numerals name registers. -/
instance registers_ne_zero : NeZero 31 := ⟨by decide⟩

/-- The registers as `xl_invoke_n` sets them up for a guest function: the arguments from `X0`
on, at most eight of them, the address in `PC` and no return address. -/
def State.enter (s : State) (address : UInt64) (arguments : List UInt64) : State where
  x i := if i = 30 then 0 else if i.val < 8 then (arguments[i.val]?).getD (s.x i) else s.x i
  sp := s.sp
  pc := address
  v := s.v

/-- The registers behind the call: `PC`, `X30` and `X0`–`X7` are those from before, the others
are as the guest function leaves them. -/
def State.leave (before after : State) : State where
  x i := if i = 30 ∨ i.val < 8 then before.x i else after.x i
  sp := after.sp
  pc := before.pc
  v := after.v

/-- `xl_zero_result`: `X0`, `X1` and `V0`–`V3` are zero. -/
def State.zeroResult (s : State) : State :=
  { s with
    x := fun i => if i.val < 2 then 0 else s.x i
    v := fun i => if i.val < 4 then 0 else s.v i }

@[simp] theorem State.leave_v (before after : State) : (before.leave after).v = after.v := rfl

/-- The registers that carry a message's selector and arguments: `X1`–`X7` and `V0`–`V7`. -/
def State.SameArguments (s t : State) : Prop :=
  (∀ i : Fin 31, 1 ≤ i.val → i.val ≤ 7 → t.x i = s.x i) ∧
    ∀ i : Fin 32, i.val ≤ 7 → t.v i = s.v i

end Katabasis
