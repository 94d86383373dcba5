import Mathlib.Tactic

set_option autoImplicit false

/-! # JSON documents

A document as the tree of its values, and the accessors that give nothing where a member is absent
or of another kind.
-/

inductive Json
  | integer (value : Int64)
  | string (value : String)
  | array (elements : List Json)
  | object (members : List (String × Json))

namespace Json

def get (json : Json) (key : String) : Option Json :=
  match json with
  | object members => members.lookup key
  | _ => none

def asInteger : Json → Option Int64
  | integer value => some value
  | _ => none

def asString : Json → Option String
  | string value => some value
  | _ => none

def asArray : Json → Option (List Json)
  | array elements => some elements
  | _ => none

def getInteger (json : Json) (key : String) : Option Int64 := (json.get key).bind asInteger

def getString (json : Json) (key : String) : Option String := (json.get key).bind asString

def getArray (json : Json) (key : String) : Option (List Json) := (json.get key).bind asArray

/-- Read each element of the array at a key. -/
def getEach {α : Type} (json : Json) (key : String) (read : Json → Option α) : Option (List α) :=
  (json.getArray key).bind fun elements => elements.mapM read

/-- A list is read back element by element. -/
theorem mapM_map {α β γ : Type} {write : α → γ} {read : γ → Option β} {seen : α → β}
    {l : List α} (h : ∀ a ∈ l, read (write a) = some (seen a)) :
    (l.map write).mapM read = some (l.map seen) := by
  induction l with
  | nil => rfl
  | cons a rest ih =>
      have hrest := ih fun b hb => h b (List.mem_cons_of_mem a hb)
      simp [h a List.mem_cons_self, hrest]

end Json
