import Katabasis.Lib.Maps
import Katabasis.Lib.Tally
import Katabasis.Lib.Words
import Katabasis.Runtime.Routing
import Katabasis.Xlgen.Pack
import Katabasis.Xlgen.Signatures

set_option autoImplicit false

/-! # The bridges of the selectors

`EmitSelectors` (`xlate/src/xlgen.cpp`) makes a bridge for each selector that the guest sends. The
SDK may declare a selector in many classes, and not alike: the declarations are counted by the
encoding that the host runtime will show, and the encoding with the most of them becomes the
selector's own bridge; every other one that can be bridged becomes a variant. `Write` writes both
as tables, and `xl_setup` (`runtime/objc_bridge.m`) makes the dictionaries of them that `xl_route`
looks in.
-/

namespace Katabasis

open Std

/-- A declaration of a method in an SDK, as `clang` shows it. -/
structure MethodDecl where
  /-- The name of the class, category or protocol around it. -/
  container : Option String
  isInstance : Bool := true
  selector : String
  paramSize : Nat := 0
  /-- `getObjCEncodingForMethodDecl` -/
  encoding : String
  variadic : Bool := false
  /-- The parameter that a format attribute names, from one. -/
  formatIdx : Option Nat := none
  definition : Bool := false

namespace Selectors

/-! ## The declarations -/

abbrev Pool := ExtTreeMap String (List MethodDecl)

def Pool.push (pool : Pool) (key : String) (method : MethodDecl) : Pool :=
  pool.insert key (pool[key]?.getD [] ++ [method])

/-- `VisitObjCMethodDecl` -/
def visitObjCMethodDecl (pool : Pool) (method : MethodDecl) : Pool :=
  if method.definition then pool
  else
    Pool.push (Pool.push pool ((if method.isInstance then "-" else "+") ++ method.selector) method)
      ("*" ++ method.selector) method

/-- `CollectMethods`, over the declarations in the order of the traversal. -/
def collectMethods (decls : List MethodDecl) : Pool := decls.foldl visitObjCMethodDecl ∅

/-- `Counterpart` -/
def counterpart (guest : MethodDecl) (host : List MethodDecl) : Option MethodDecl :=
  host.find? fun candidate =>
    guest.container.isSome && guest.container == candidate.container &&
      candidate.isInstance == guest.isInstance && candidate.paramSize == guest.paramSize

/-- The guest declarations that the host SDK has too, each with its counterpart. -/
def counterparts (guests hosts : List MethodDecl) : List (MethodDecl × MethodDecl) :=
  guests.filterMap fun guest => (counterpart guest hosts).map fun host => (guest, host)

/-- The key of a declaration: its encoding on the host, without offsets and tags. -/
def encodingKey (pair : MethodDecl × MethodDecl) : String :=
  String.ofList (normalizeEncoding false pair.2.encoding.toList)

/-! ## Bridges -/

/-- `manual` -/
def manual : List (String × String) :=
  [("countByEnumeratingWithState:objects:count:", "xl_manual_fast_enumeration"),
    ("initWithFormat:arguments:", "xl_manual_init_with_format_arguments")]

/-- `format_variants` -/
def formatVariants : List (String × String) :=
  [("stringWithFormat:", "xl_format_string_with_format"),
    ("initWithFormat:", "xl_format_init_with_format"),
    ("appendFormat:", "xl_format_append_format"),
    ("localizedStringWithFormat:", "xl_format_string_with_format")]

/-- `variadic` -/
def variadic : List (String × String) :=
  [("dictionaryWithObjectsAndKeys:", "xl_h_dictionaryWithObjectsAndKeys"),
    ("arrayWithObjects:", "xl_h_arrayWithObjects"),
    ("initWithObjects:", "xl_h_initWithObjects"),
    ("setWithObjects:", "xl_h_setWithObjects")]

/-- The format string of a bridge. -/
structure Format extends FormatInfo where
  object : Bool := false
  formatIndex : Nat := 0

/-- What `EmitBridge` is asked for. -/
structure Plan where
  signature : Signatures.Signature
  callee : String := ""
  format : Format := {}
  manual : String := ""

/-- A message bridge in the two sources; `number` is the part of its id that tells it from the
others. -/
structure MessageBridge where
  number : Nat
  plan : Plan

def MessageBridge.id (bridge : MessageBridge) : String := "selector_" ++ toString bridge.number

/-- The macro of its address, in the header that `xlate` writes for the guest functions. -/
def MessageBridge.guest (bridge : MessageBridge) : String := "XL_GUEST_xl_" ++ bridge.id

/-- A machine word that is handed on as it stands. -/
def rawValue : ParamValue :=
  .value { kind := .pointer, guest := .integer .w64 false, host := .integer .w32 false }

/-- The signature of a handler written by hand: words only. -/
def rawSignature (params : Nat) : Signatures.Signature where
  params := (List.range params).map fun i =>
    { value := rawValue, note := "", name := "a" ++ toString i }
  result := rawValue

/-- What the generator has written so far. -/
structure Emitted where
  /-- `counter_` -/
  counter : Nat := 0
  bridges : List MessageBridge := []
  /-- `selector_shims_` -/
  shims : List (String × String) := []
  /-- `selector_variants_` -/
  variants : List (String × String × String) := []
  /-- `variadic_shims_` -/
  variadicShims : List (String × String) := []
  report : List String := []
  unsupported : Nat := 0

namespace Emitted

/-- `Report` -/
def say (s : Emitted) (line : String) : Emitted := { s with report := s.report ++ [line] }

def lacks (s : Emitted) (line : String) : Emitted :=
  { s.say line with unsupported := s.unsupported + 1 }

/-- The bridge that comes next. -/
def next (s : Emitted) (plan : Plan) : MessageBridge := ⟨s.counter, plan⟩

/-- `EmitBridge` -/
def emitBridge (s : Emitted) (plan : Plan) : Emitted :=
  { s with bridges := s.bridges ++ [s.next plan], counter := s.counter + 1 }

def addShim (s : Emitted) (selector : String) (bridge : MessageBridge) : Emitted :=
  { s with shims := s.shims ++ [(selector, bridge.guest)] }

def addVariant (s : Emitted) (selector encoding : String) (bridge : MessageBridge) : Emitted :=
  { s with variants := s.variants ++ [(selector, encoding, bridge.guest)] }

end Emitted

section

-- The types of the parameters with their names, and of the result, of a pair of declarations;
-- and the note that `Classify` leaves, which spells a type.
variable (types : MethodDecl × MethodDecl → List (Declared × String) × Signatures.SdkType)
  (spell : Signatures.SdkType → String)

/-- `FromMethod` -/
def fromMethod (pair : MethodDecl × MethodDecl) : Signatures.Signature :=
  Signatures.fromMethod spell (types pair).1 (types pair).2

/-- What is asked of `EmitBridge` for a selector with these declarations, or why nothing is. -/
def plan (selector : String) (pair : MethodDecl × MethodDecl) : Except String Plan :=
  let plan : Plan :=
    match manual.lookup selector with
    | some handler => { signature := rawSignature pair.1.paramSize, manual := handler }
    | none => { signature := fromMethod types spell pair }
  if pair.1.variadic then
    match pair.1.formatIdx, formatVariants.lookup selector with
    | some index, some variant =>
        check { plan with
          format := { present := true, object := true, formatIndex := index - 1 }
          callee := variant }
    | _, _ => .error "variadic method without a va_list bridge"
  else check plan
where
  check (plan : Plan) : Except String Plan :=
    if plan.signature.supported = false ∧ plan.manual = "" then .error plan.signature.note
    else .ok plan

/-- A declaration whose encoding is not the selector's own. -/
def emitVariant (selector best : String) (s : Emitted)
    (entry : String × MethodDecl × MethodDecl) : Emitted :=
  if entry.1 = best then s
  else
    let signature := fromMethod types spell entry.2
    if signature.supported then
      (s.emitBridge { signature }).addVariant selector entry.1 (s.next { signature })
    else
      s.say ("selector " ++ selector ++ " variant " ++ entry.1 ++ ": UNSUPPORTED: " ++
        signature.note)

/-- The bridges of a selector with these declarations. -/
def emitDeclared (s : Emitted) (selector : String) (pairs : List (MethodDecl × MethodDecl)) :
    Emitted :=
  let variants : ExtTreeMap String (MethodDecl × MethodDecl) := Tally.firsts encodingKey pairs
  let best := Tally.leader (Tally.votes encodingKey pairs : ExtTreeMap String Nat) ""
  if variants.isEmpty then
    s.lacks ("selector " ++ selector ++ ": UNSUPPORTED: no host declaration")
  else match variants[best]? with
  -- the best of the keys is one of them
  | none => s
  | some pair =>
      match plan types spell selector pair with
      | .error note => s.lacks ("selector " ++ selector ++ ": UNSUPPORTED: " ++ note)
      | .ok plan =>
          let bridge := s.next plan
          let s := (s.emitBridge plan).addShim selector bridge
          if 1 < variants.size then
            let s := s.say ("selector " ++ selector ++ ": " ++ toString variants.size ++
              " differing SDK declarations, bridged as " ++ best)
            if plan.manual = "" ∧ plan.format.present = false then
              variants.toList.foldl (emitVariant types spell selector best)
                (s.addVariant selector best bridge)
            else s
          else s

/-- One turn of `EmitSelectors`. -/
def emitSelector (guestPool hostPool : Pool) (guestSelectors : List String) (s : Emitted)
    (selector : String) : Emitted :=
  match variadic.lookup selector with
  | some handler =>
      { s with variadicShims := s.variadicShims ++ [(selector, handler)] }.say
        ("selector " ++ selector ++ ": variadic handler " ++ handler)
  | none =>
      match guestPool["*" ++ selector]? with
      | none =>
          if guestSelectors.contains selector then
            s.say ("selector " ++ selector ++ ": implemented by the guest only")
          else s.lacks ("selector " ++ selector ++ ": UNSUPPORTED: not declared by the SDK")
      | some guests =>
          emitDeclared types spell s selector
            (counterparts guests (hostPool["*" ++ selector]?.getD []))

/-- `EmitSelectors`, for the selectors of the manifest. -/
def emitSelectors (guestDecls hostDecls : List MethodDecl) (selectors guestSelectors : List String)
    (s : Emitted) : Emitted :=
  selectors.foldl
    (emitSelector types spell (collectMethods guestDecls) (collectMethods hostDecls) guestSelectors)
    s

end

/-! ## The pool of a selector -/

/-- The declarations of a selector. -/
def declared (decls : List MethodDecl) (selector : String) : List MethodDecl :=
  decls.filter fun method => !method.definition && method.selector == selector

theorem star_ne_sign (selector : String) (method : MethodDecl) :
    (if method.isInstance then "-" else "+") ++ method.selector ≠ "*" ++ selector := by
  intro h
  have hlist := congrArg String.toList h
  rw [String.toList_append, String.toList_append] at hlist
  cases hsign : method.isInstance <;> simp [hsign] at hlist

theorem star_inj {a b : String} : "*" ++ a = "*" ++ b ↔ a = b := by
  refine ⟨fun h => ?_, fun h => h ▸ rfl⟩
  have hlist := congrArg String.toList h
  rw [String.toList_append, String.toList_append] at hlist
  exact String.toList_injective (List.append_cancel_left hlist)

theorem getElem?_push (pool : Pool) (key : String) (method : MethodDecl) (k : String) :
    (pool.push key method)[k]?
      = if key = k then some (pool[k]?.getD [] ++ [method]) else pool[k]? := by
  rw [Pool.push, ExtTreeMap.getElem?_insert]
  simp only [Std.LawfulEqCmp.compare_eq_iff_eq]
  split_ifs with h
  · rw [h]
  · rfl

theorem getElem?_visitObjCMethodDecl (pool : Pool) (method : MethodDecl) (selector : String) :
    (visitObjCMethodDecl pool method)["*" ++ selector]?
      = if !method.definition && method.selector == selector then
          some (pool["*" ++ selector]?.getD [] ++ [method])
        else pool["*" ++ selector]? := by
  unfold visitObjCMethodDecl
  cases hdef : method.definition with
  | true => simp
  | false =>
      rw [if_neg Bool.false_ne_true, getElem?_push, getElem?_push]
      simp only [star_inj, if_neg (star_ne_sign selector method), Bool.not_false, Bool.true_and,
        beq_iff_eq]

/-- **What is collected for a selector** are its declarations, in the order of the traversal. -/
theorem getElem?_collectMethods (decls : List MethodDecl) (selector : String) :
    (collectMethods decls)["*" ++ selector]?
      = if declared decls selector = [] then none else some (declared decls selector) := by
  have hfold : ∀ (decls : List MethodDecl) (pool : Pool),
      (decls.foldl visitObjCMethodDecl pool)["*" ++ selector]?
        = if declared decls selector = [] then pool["*" ++ selector]?
          else some (pool["*" ++ selector]?.getD [] ++ declared decls selector) := by
    intro decls
    induction decls with
    | nil => intro pool; simp [declared]
    | cons method rest ih =>
        intro pool
        rw [List.foldl_cons, ih, getElem?_visitObjCMethodDecl]
        by_cases hown : (!method.definition && method.selector == selector) = true
        · have hcons : declared (method :: rest) selector = method :: declared rest selector :=
            List.filter_cons_of_pos hown
          rw [if_pos hown, hcons, if_neg (List.cons_ne_nil _ _), Option.getD_some]
          split_ifs with hrest
          · rw [hrest]
          · rw [List.append_assoc, List.singleton_append]
        · have hcons : declared (method :: rest) selector = declared rest selector :=
            List.filter_cons_of_neg hown
          rw [if_neg hown, hcons]
  rw [collectMethods, hfold]
  simp

/-- The pairs that a selector's bridges are made from. -/
def pairsOf (guestDecls hostDecls : List MethodDecl) (selector : String) :
    List (MethodDecl × MethodDecl) :=
  counterparts (declared guestDecls selector) (declared hostDecls selector)

theorem getD_collectMethods (decls : List MethodDecl) (selector : String) :
    (collectMethods decls)["*" ++ selector]?.getD [] = declared decls selector := by
  rw [getElem?_collectMethods]
  split_ifs with h
  · rw [h]
    rfl
  · rfl

/-! ## What a selector adds -/

namespace Emitted

/-- The bridge of a selector in `xl_selector_shims`. -/
def shimsOf (s : Emitted) (selector : String) : List String :=
  (s.shims.filter fun shim => shim.1 = selector).map Prod.snd

/-- The rows of a selector in `xl_selector_variants`. -/
def variantsOf (s : Emitted) (selector : String) : List (String × String) :=
  (s.variants.filter fun variant => variant.1 = selector).map Prod.snd

end Emitted

/-- Something is written for one selector: bridges with the numbers that come next, and rows of
that selector only. -/
structure Grows (selector : String) (s s' : Emitted) : Prop where
  counter : s.counter ≤ s'.counter
  numbers : s'.bridges.map MessageBridge.number
    = s.bridges.map MessageBridge.number ++ List.range' s.counter (s'.counter - s.counter)
  bridges : s.bridges ⊆ s'.bridges
  shims : ∀ other, other ≠ selector → s'.shimsOf other = s.shimsOf other
  variants : ∀ other, other ≠ selector → s'.variantsOf other = s.variantsOf other

section

variable {selector : String} {s s' s'' : Emitted}

theorem Grows.refl (s : Emitted) : Grows selector s s where
  counter := le_rfl
  numbers := by simp
  bridges := List.Subset.refl _
  shims _ _ := rfl
  variants _ _ := rfl

theorem Grows.trans (h : Grows selector s s') (h' : Grows selector s' s'') :
    Grows selector s s'' where
  counter := h.counter.trans h'.counter
  numbers := by
    have hc := h.counter
    have hc' := h'.counter
    have hsum : s''.counter - s.counter
        = (s'.counter - s.counter) + (s''.counter - s'.counter) := by
      omega
    have hmid : s.counter + (s'.counter - s.counter) = s'.counter := by omega
    rw [h'.numbers, h.numbers, hsum, List.append_assoc, ← List.range'_append_1, hmid]
  bridges := List.Subset.trans h.bridges h'.bridges
  shims other hne := (h'.shims other hne).trans (h.shims other hne)
  variants other hne := (h'.variants other hne).trans (h.variants other hne)

theorem Grows.say (line : String) : Grows selector s (s.say line) where
  counter := le_rfl
  numbers := by simp [Emitted.say]
  bridges := List.Subset.refl _
  shims _ _ := rfl
  variants _ _ := rfl

theorem Grows.lacks (line : String) : Grows selector s (s.lacks line) where
  counter := le_rfl
  numbers := by simp [Emitted.lacks, Emitted.say]
  bridges := List.Subset.refl _
  shims _ _ := rfl
  variants _ _ := rfl

theorem Grows.emitBridge (plan : Plan) : Grows selector s (s.emitBridge plan) where
  counter := Nat.le_succ _
  numbers := by simp [Emitted.emitBridge, Emitted.next]
  bridges := List.subset_append_left _ _
  shims _ _ := rfl
  variants _ _ := rfl

theorem Grows.addShim (bridge : MessageBridge) : Grows selector s (s.addShim selector bridge) where
  counter := le_rfl
  numbers := by simp [Emitted.addShim]
  bridges := List.Subset.refl _
  shims other hne := by simp [Emitted.shimsOf, Emitted.addShim, hne.symm]
  variants _ _ := rfl

theorem Grows.addVariant (encoding : String) (bridge : MessageBridge) :
    Grows selector s (s.addVariant selector encoding bridge) where
  counter := le_rfl
  numbers := by simp [Emitted.addVariant]
  bridges := List.Subset.refl _
  shims _ _ := rfl
  variants other hne := by simp [Emitted.variantsOf, Emitted.addVariant, hne.symm]

theorem Grows.foldl {α : Type} {f : Emitted → α → Emitted}
    (hf : ∀ s a, Grows selector s (f s a)) (l : List α) (s : Emitted) :
    Grows selector s (l.foldl f s) := by
  induction l generalizing s with
  | nil => exact Grows.refl s
  | cons a rest ih => exact (hf s a).trans (ih (f s a))

end

section

variable {types : MethodDecl × MethodDecl → List (Declared × String) × Signatures.SdkType}
  {spell : Signatures.SdkType → String}

theorem grows_emitVariant (selector best : String) (s : Emitted)
    (entry : String × MethodDecl × MethodDecl) :
    Grows selector s (emitVariant types spell selector best s entry) := by
  unfold emitVariant
  simp only
  split_ifs
  · exact Grows.refl s
  · exact (Grows.emitBridge _).trans (Grows.addVariant _ _)
  · exact Grows.say _

theorem grows_emitDeclared (s : Emitted) (selector : String)
    (pairs : List (MethodDecl × MethodDecl)) :
    Grows selector s (emitDeclared types spell s selector pairs) := by
  unfold emitDeclared
  simp only
  split
  · exact Grows.lacks _
  · split
    · exact Grows.refl s
    · split
      · exact Grows.lacks _
      · have hown : ∀ plan,
            Grows selector s ((s.emitBridge plan).addShim selector (s.next plan)) :=
          fun plan => (Grows.emitBridge plan).trans (Grows.addShim _)
        split_ifs
        · exact (((hown _).trans (Grows.say _)).trans (Grows.addVariant _ _)).trans
            (Grows.foldl (fun s entry => grows_emitVariant selector _ s entry) _ _)
        · exact (hown _).trans (Grows.say _)
        · exact hown _

theorem grows_emitSelector (guestPool hostPool : Pool) (guestSelectors : List String) (s : Emitted)
    (selector : String) :
    Grows selector s (emitSelector types spell guestPool hostPool guestSelectors s selector) := by
  unfold emitSelector
  split
  · exact ⟨le_rfl, by simp [Emitted.say], List.Subset.refl _, fun _ _ => rfl, fun _ _ => rfl⟩
  · split
    · split_ifs
      · exact Grows.say _
      · exact Grows.lacks _
    · exact grows_emitDeclared s selector _

end

/-! ## The rows of the variants -/

section

variable (types : MethodDecl × MethodDecl → List (Declared × String) × Signatures.SdkType)
  (spell : Signatures.SdkType → String)

/-- A declaration that becomes a variant. -/
def wanted (best : String) (entry : String × MethodDecl × MethodDecl) : Bool :=
  entry.1 ≠ best && (fromMethod types spell entry.2).supported

/-- The row of a variant, with its bridge, among the bridges written in the end. -/
structure Row (bridges : List MessageBridge) (row : String × MessageBridge)
    (entry : String × MethodDecl × MethodDecl) : Prop where
  key : row.1 = entry.1
  signature : row.2.plan.signature = fromMethod types spell entry.2
  written : row.2 ∈ bridges

end

section

variable {types : MethodDecl × MethodDecl → List (Declared × String) × Signatures.SdkType}
  {spell : Signatures.SdkType → String} {selector best : String}

theorem emitVariant_cases (s : Emitted) (entry : String × MethodDecl × MethodDecl) :
    (wanted types spell best entry = false ∧
        (emitVariant types spell selector best s entry).variants = s.variants) ∨
      wanted types spell best entry = true ∧ ∃ bridge : MessageBridge,
        bridge.plan.signature = fromMethod types spell entry.2 ∧
        bridge ∈ (emitVariant types spell selector best s entry).bridges ∧
        (emitVariant types spell selector best s entry).variants
          = s.variants ++ [(selector, entry.1, bridge.guest)] := by
  unfold emitVariant wanted
  simp only
  split_ifs with hbest hsupported
  · exact .inl ⟨by simp [hbest], rfl⟩
  · right
    exact ⟨by simp [hbest, hsupported], s.next { signature := fromMethod types spell entry.2 },
      rfl, List.mem_append_right _ (List.mem_singleton_self _), rfl⟩
  · exact .inl ⟨by simp [hsupported], rfl⟩

/-- The rows that the loop over the variants adds, in its order. -/
theorem foldl_emitVariant (entries : List (String × MethodDecl × MethodDecl)) (s : Emitted) :
    ∃ rows : List (String × MessageBridge),
      (entries.foldl (emitVariant types spell selector best) s).variants
        = s.variants ++ rows.map (fun row => (selector, row.1, row.2.guest)) ∧
      List.Forall₂
        (Row types spell (entries.foldl (emitVariant types spell selector best) s).bridges)
        rows (entries.filter (wanted types spell best)) := by
  induction entries generalizing s with
  | nil => exact ⟨[], by simp, .nil⟩
  | cons entry rest ih =>
      obtain ⟨rows, hrows, hall⟩ := ih (emitVariant types spell selector best s entry)
      rw [List.foldl_cons]
      have hcases := @emitVariant_cases types spell selector best s entry
      rcases hcases with ⟨hskip, hsame⟩ | ⟨hwanted, bridge, hsig, hmem, hadded⟩
      · refine ⟨rows, by rw [hrows, hsame], ?_⟩
        rwa [List.filter_cons_of_neg (by simp [hskip])]
      · refine ⟨(entry.1, bridge) :: rows, ?_, ?_⟩
        · rw [hrows, hadded, List.append_assoc]
          rfl
        · rw [List.filter_cons_of_pos hwanted]
          refine .cons ⟨rfl, hsig, ?_⟩ hall
          exact (Grows.foldl (fun s entry => grows_emitVariant selector best s entry)
            rest _).bridges hmem

end

/-! ## The tables of a selector -/

section

variable (types : MethodDecl × MethodDecl → List (Declared × String) × Signatures.SdkType)
  (spell : Signatures.SdkType → String)

/-- A selector that no hand-written handler takes, and that is not variadic in the SDK. -/
structure Ordinary (selector : String) (pairs : List (MethodDecl × MethodDecl)) : Prop where
  manual : manual.lookup selector = none
  variadic : variadic.lookup selector = none
  fixed : ∀ pair ∈ pairs, pair.1.variadic = false

/-- The first declaration with this key. -/
def own (pairs : List (MethodDecl × MethodDecl)) (key : String) :
    Option (MethodDecl × MethodDecl) :=
  pairs.find? fun pair => encodingKey pair = key

/-- No encoding has more declarations than that of the default. -/
structure Voted (pairs : List (MethodDecl × MethodDecl)) (default : MethodDecl × MethodDecl) :
    Prop where
  first : own pairs (encodingKey default) = some default
  most : ∀ key, pairs.countP (fun pair => encodingKey pair = key)
    ≤ pairs.countP fun pair => encodingKey pair = encodingKey default

/-- The two tables have the bridges of a selector with these declarations. -/
structure Tabled (s : Emitted) (selector : String) (pairs : List (MethodDecl × MethodDecl))
    (default : MethodDecl × MethodDecl) (bridge : MessageBridge)
    (rows : List (String × MessageBridge)) : Prop where
  shims : s.shimsOf selector = [bridge.guest]
  bridge : bridge ∈ s.bridges ∧ bridge.plan.signature = fromMethod types spell default
  variants : s.variantsOf selector = rows.map fun row => (row.1, row.2.guest)
  distinct : (rows.map Prod.fst).Nodup
  sound : ∀ row ∈ rows, ∃ pair, own pairs row.1 = some pair ∧
    (fromMethod types spell pair).supported = true ∧ Row types spell s.bridges row (row.1, pair)
  complete : ∀ key pair, own pairs key = some pair →
    (fromMethod types spell pair).supported = true →
      key = encodingKey default ∨ ∃ row ∈ rows, row.1 = key

end

section

variable {types : MethodDecl × MethodDecl → List (Declared × String) × Signatures.SdkType}
  {spell : Signatures.SdkType → String} {selector : String}
  {pairs : List (MethodDecl × MethodDecl)}

theorem getElem?_variants (pairs : List (MethodDecl × MethodDecl)) (key : String) :
    (Tally.firsts encodingKey pairs : ExtTreeMap String (MethodDecl × MethodDecl))[key]?
      = own pairs key := Tally.getElem?_firsts encodingKey pairs key

theorem own_key {pair : MethodDecl × MethodDecl} {key : String} (h : own pairs key = some pair) :
    encodingKey pair = key := by
  simpa using List.find?_some h

/-- The declarations of some key have a default. -/
theorem exists_voted (hkeys : ∀ pair ∈ pairs, encodingKey pair ≠ "") (hne : pairs ≠ []) :
    ∃ default, Voted pairs default ∧
      Tally.leader (Tally.votes encodingKey pairs : ExtTreeMap String Nat) ""
        = encodingKey default := by
  have hblank : "" ∉ (Tally.votes encodingKey pairs : ExtTreeMap String Nat) := by
    rw [Tally.mem_votes]
    rintro ⟨pair, hpair, heq⟩
    exact hkeys pair hpair heq
  have hvotes : (Tally.votes encodingKey pairs : ExtTreeMap String Nat) ≠ ∅ := by
    obtain ⟨pair, hpair⟩ := List.exists_mem_of_ne_nil pairs hne
    intro hempty
    have hmem : encodingKey pair ∈ (Tally.votes encodingKey pairs : ExtTreeMap String Nat) :=
      (Tally.mem_votes _ _ _).mpr ⟨pair, hpair, rfl⟩
    rw [hempty] at hmem
    simp at hmem
  obtain ⟨hmem, hmost⟩ := Tally.leader_spec hblank hvotes
  obtain ⟨pair, hpair, hkey⟩ := (Tally.mem_votes _ _ _).mp hmem
  obtain ⟨default, hdefault⟩ : ∃ default, own pairs (encodingKey pair) = some default := by
    rw [← Option.isSome_iff_exists, own, List.find?_isSome]
    exact ⟨pair, hpair, by simp⟩
  have hsame : encodingKey default = encodingKey pair := own_key hdefault
  refine ⟨default, ⟨by rw [hsame, hdefault], fun key => ?_⟩, by rw [hsame, hkey]⟩
  have hle := hmost key
  rw [Tally.getD_votes, Tally.getD_votes, ← hkey, ← hsame] at hle
  exact hle

theorem Voted.mem {default : MethodDecl × MethodDecl} (h : Voted pairs default) :
    default ∈ pairs := List.mem_of_find?_eq_some h.first

theorem Ordinary.plan (h : Ordinary selector pairs) {pair : MethodDecl × MethodDecl}
    (hpair : pair ∈ pairs) :
    plan types spell selector pair
      = if (fromMethod types spell pair).supported then
          .ok { signature := fromMethod types spell pair }
        else .error (fromMethod types spell pair).note := by
  unfold Selectors.plan
  simp only [h.manual, h.fixed pair hpair, Bool.false_eq_true, if_false]
  unfold Selectors.plan.check
  cases (fromMethod types spell pair).supported <;> simp

/-- With one key in the map, every declaration has it. -/
theorem key_of_size {first second : MethodDecl × MethodDecl} {key key' : String}
    (hsize : ¬ 1 < (Tally.firsts encodingKey pairs :
      ExtTreeMap String (MethodDecl × MethodDecl)).size)
    (hfirst : own pairs key = some first) (hsecond : own pairs key' = some second) :
    key = key' := by
  rw [← getElem?_variants, ← ExtTreeMap.mem_toList_iff_getElem?_eq_some] at hfirst hsecond
  rw [← ExtTreeMap.length_toList] at hsize
  obtain ⟨i, hi, hget⟩ := List.mem_iff_getElem.mp hfirst
  obtain ⟨j, hj, hget'⟩ := List.mem_iff_getElem.mp hsecond
  have hsame : i = j := by omega
  subst hsame
  exact congrArg Prod.fst (hget.symm.trans hget')

/-! ### The rows of a state -/

section

variable {s : Emitted} (name encoding line : String) (bridge : MessageBridge) (plan : Plan)

@[simp] theorem shimsOf_say : (s.say line).shimsOf name = s.shimsOf name := rfl

@[simp] theorem shimsOf_lacks : (s.lacks line).shimsOf name = s.shimsOf name := rfl

@[simp] theorem shimsOf_emitBridge : (s.emitBridge plan).shimsOf name = s.shimsOf name := rfl

@[simp] theorem shimsOf_addVariant (other : String) :
    (s.addVariant other encoding bridge).shimsOf name = s.shimsOf name := rfl

@[simp] theorem shimsOf_addShim :
    (s.addShim name bridge).shimsOf name = s.shimsOf name ++ [bridge.guest] := by
  simp [Emitted.shimsOf, Emitted.addShim]

@[simp] theorem variantsOf_say : (s.say line).variantsOf name = s.variantsOf name := rfl

@[simp] theorem variantsOf_lacks : (s.lacks line).variantsOf name = s.variantsOf name := rfl

@[simp] theorem variantsOf_emitBridge : (s.emitBridge plan).variantsOf name = s.variantsOf name :=
  rfl

@[simp] theorem variantsOf_addShim (other : String) :
    (s.addShim other bridge).variantsOf name = s.variantsOf name := rfl

@[simp] theorem variantsOf_addVariant :
    (s.addVariant name encoding bridge).variantsOf name
      = s.variantsOf name ++ [(encoding, bridge.guest)] := by
  simp [Emitted.variantsOf, Emitted.addVariant]

end

theorem shimsOf_foldl_emitVariant {best name : String}
    (entries : List (String × MethodDecl × MethodDecl)) (s : Emitted) :
    (entries.foldl (emitVariant types spell selector best) s).shimsOf name = s.shimsOf name := by
  induction entries generalizing s with
  | nil => rfl
  | cons entry rest ih =>
      rw [List.foldl_cons, ih]
      unfold emitVariant
      simp only
      split_ifs <;> rfl

theorem variantsOf_of_rows {s s' : Emitted} {rows : List (String × MessageBridge)}
    (h : s'.variants = s.variants ++ rows.map fun row => (selector, row.1, row.2.guest)) :
    s'.variantsOf selector
      = s.variantsOf selector ++ rows.map fun row => (row.1, row.2.guest) := by
  unfold Emitted.variantsOf
  rw [h, List.filter_append, List.map_append]
  congr 1
  rw [List.filter_eq_self.mpr]
  · simp
  · intro row hrow
    obtain ⟨r, -, rfl⟩ := List.mem_map.mp hrow
    simp

/-! ### Rows and their declarations -/

section

variable {bridges : List MessageBridge} {rows : List (String × MessageBridge)}
  {entries : List (String × MethodDecl × MethodDecl)}

theorem rows_keys (h : List.Forall₂ (Row types spell bridges) rows entries) :
    rows.map Prod.fst = entries.map Prod.fst := by
  induction h with
  | nil => rfl
  | cons hrow _ ih => rw [List.map_cons, List.map_cons, hrow.key, ih]

theorem exists_entry (h : List.Forall₂ (Row types spell bridges) rows entries)
    {row : String × MessageBridge} (hrow : row ∈ rows) :
    ∃ entry ∈ entries, Row types spell bridges row entry := by
  induction h with
  | nil => cases hrow
  | cons hfirst _ ih =>
      rcases List.mem_cons.mp hrow with rfl | hrest
      · exact ⟨_, List.mem_cons_self, hfirst⟩
      · obtain ⟨entry, hentry, hboth⟩ := ih hrest
        exact ⟨entry, List.mem_cons_of_mem _ hentry, hboth⟩

end

theorem mem_variants {entry : String × MethodDecl × MethodDecl} :
    entry ∈ (Tally.firsts encodingKey pairs : ExtTreeMap String (MethodDecl × MethodDecl)).toList ↔
      own pairs entry.1 = some entry.2 := by
  rw [← getElem?_variants]
  exact ExtTreeMap.mem_toList_iff_getElem?_eq_some

/-- Behind the row of the default, the loop writes a row for each of the others. -/
theorem tabled_loop {start : Emitted} {default : MethodDecl × MethodDecl} {bridge : MessageBridge}
    (hvoted : Voted pairs default) (hsup : (fromMethod types spell default).supported = true)
    (hshims : start.shimsOf selector = [bridge.guest])
    (hvariants : start.variantsOf selector = [(encodingKey default, bridge.guest)])
    (hwritten : bridge ∈ start.bridges)
    (hsig : bridge.plan.signature = fromMethod types spell default) :
    ∃ rows, Tabled types spell
      ((Tally.firsts encodingKey pairs : ExtTreeMap String (MethodDecl × MethodDecl)).toList.foldl
        (emitVariant types spell selector (encodingKey default)) start)
      selector pairs default bridge rows := by
  have hloop := @foldl_emitVariant types spell selector (encodingKey default)
    (Tally.firsts encodingKey pairs : ExtTreeMap String (MethodDecl × MethodDecl)).toList start
  obtain ⟨rows, hrows, hall⟩ := hloop
  have hgrows := Grows.foldl
    (fun s entry => @grows_emitVariant types spell selector (encodingKey default) s entry)
    (Tally.firsts encodingKey pairs : ExtTreeMap String (MethodDecl × MethodDecl)).toList start
  have hkeys := rows_keys hall
  refine ⟨(encodingKey default, bridge) :: rows, ?_, ⟨hgrows.bridges hwritten, hsig⟩,
    ?_, ?_, ?_, ?_⟩
  · rw [shimsOf_foldl_emitVariant, hshims]
  · rw [variantsOf_of_rows hrows, hvariants]
    rfl
  · rw [List.map_cons, List.nodup_cons, hkeys]
    refine ⟨fun hmem => ?_, ?_⟩
    · obtain ⟨entry, hin, heq⟩ := List.mem_map.mp hmem
      have hwanted := (List.mem_filter.mp hin).2
      simp [wanted, heq] at hwanted
    · refine List.Nodup.sublist (List.filter_sublist.map _) ?_
      exact (Maps.distinct_toList _).map _ fun _ _ h => h
  · intro row hrow
    rcases List.mem_cons.mp hrow with rfl | hrest
    · exact ⟨default, hvoted.first, hsup, rfl, hsig, hgrows.bridges hwritten⟩
    · obtain ⟨entry, hin, hboth⟩ := exists_entry hall hrest
      obtain ⟨hin, hwanted⟩ := List.mem_filter.mp hin
      simp only [wanted, Bool.and_eq_true] at hwanted
      refine ⟨entry.2, ?_, hwanted.2, rfl, hboth.signature, hboth.written⟩
      rw [hboth.key]
      exact mem_variants.mp hin
  · intro key pair hown hsupported
    by_cases hdefault : key = encodingKey default
    · exact .inl hdefault
    · right
      have hin : (key, pair) ∈ (Tally.firsts encodingKey pairs :
          ExtTreeMap String (MethodDecl × MethodDecl)).toList.filter
            (wanted types spell (encodingKey default)) :=
        List.mem_filter.mpr ⟨mem_variants.mpr hown, by simp [wanted, hdefault, hsupported]⟩
      have hrow : key ∈ rows.map Prod.fst := by
        rw [hkeys]
        exact List.mem_map.mpr ⟨(key, pair), hin, rfl⟩
      obtain ⟨row, hrow, heq⟩ := List.mem_map.mp hrow
      exact ⟨row, List.mem_cons_of_mem _ hrow, heq⟩

/-- **What the bridges of a selector are.** -/
theorem emitDeclared_tabled {s : Emitted} (hord : Ordinary selector pairs)
    (hkeys : ∀ pair ∈ pairs, encodingKey pair ≠ "") (hne : pairs ≠ [])
    (hshims : s.shimsOf selector = []) (hvariants : s.variantsOf selector = []) :
    ∃ default, Voted pairs default ∧
      ((fromMethod types spell default).supported = false →
        (emitDeclared types spell s selector pairs).shimsOf selector = [] ∧
        (emitDeclared types spell s selector pairs).variantsOf selector = []) ∧
      ((fromMethod types spell default).supported = true → ∃ bridge rows,
        Tabled types spell (emitDeclared types spell s selector pairs) selector pairs default
          bridge rows) := by
  obtain ⟨default, hvoted, hleader⟩ := exists_voted hkeys hne
  have hempty : (Tally.firsts encodingKey pairs :
      ExtTreeMap String (MethodDecl × MethodDecl)).isEmpty = false := by
    rw [ExtTreeMap.isEmpty_eq_false_iff]
    intro hnone
    have hfirst := hvoted.first
    rw [← getElem?_variants, hnone] at hfirst
    simp at hfirst
  refine ⟨default, hvoted, fun hun => ?_, fun hsup => ?_⟩
  · unfold emitDeclared
    simp only [hempty, hleader, getElem?_variants, hvoted.first, hord.plan hvoted.mem, hun,
      Bool.false_eq_true, if_false]
    exact ⟨hshims, hvariants⟩
  · unfold emitDeclared
    simp only [hempty, hleader, getElem?_variants, hvoted.first, hord.plan hvoted.mem, hsup,
      Bool.false_eq_true, if_false, if_true]
    refine ⟨s.next { signature := fromMethod types spell default }, ?_⟩
    have hwritten : s.next { signature := fromMethod types spell default }
        ∈ (s.emitBridge { signature := fromMethod types spell default }).bridges :=
      List.mem_append_right _ (List.mem_singleton_self _)
    generalize hbridge : s.next { signature := fromMethod types spell default } = bridge at *
    by_cases hsize : 1 < (Tally.firsts encodingKey pairs :
        ExtTreeMap String (MethodDecl × MethodDecl)).size
    · rw [if_pos hsize, if_pos (by simp)]
      apply tabled_loop hvoted hsup
      · simp [hshims]
      · simp [hvariants]
      · exact hwritten
      · rw [← hbridge]
        rfl
    · rw [if_neg hsize]
      refine ⟨[], ?_, ⟨hwritten, by rw [← hbridge]; rfl⟩, ?_, List.nodup_nil, ?_, ?_⟩
      · simp [hshims]
      · simp [hvariants]
      · intro row hrow
        cases hrow
      · intro key pair hown _
        exact .inl (key_of_size hsize hown hvoted.first)

end

/-! ## All selectors -/

section

variable {types : MethodDecl × MethodDecl → List (Declared × String) × Signatures.SdkType}
  {spell : Signatures.SdkType → String} {guestDecls hostDecls : List MethodDecl}
  {guestSelectors : List String}

theorem emitSelector_missing {s : Emitted} {selector : String}
    (hpairs : pairsOf guestDecls hostDecls selector = []) :
    (emitSelector types spell (collectMethods guestDecls) (collectMethods hostDecls) guestSelectors
        s selector).shimsOf selector = s.shimsOf selector ∧
      (emitSelector types spell (collectMethods guestDecls) (collectMethods hostDecls)
        guestSelectors s selector).variantsOf selector = s.variantsOf selector := by
  unfold emitSelector
  split
  · exact ⟨rfl, rfl⟩
  · rw [getElem?_collectMethods, getD_collectMethods]
    by_cases hdeclared : declared guestDecls selector = []
    · rw [if_pos hdeclared]
      simp only
      split_ifs <;> exact ⟨rfl, rfl⟩
    · rw [if_neg hdeclared]
      simp only
      rw [show counterparts (declared guestDecls selector) (declared hostDecls selector) = [] from
        hpairs]
      simp [emitDeclared, Tally.firsts]

theorem emitSelector_declared {s : Emitted} {selector : String}
    (hvariadic : variadic.lookup selector = none)
    (hpairs : pairsOf guestDecls hostDecls selector ≠ []) :
    emitSelector types spell (collectMethods guestDecls) (collectMethods hostDecls) guestSelectors s
        selector
      = emitDeclared types spell s selector (pairsOf guestDecls hostDecls selector) := by
  have hdeclared : declared guestDecls selector ≠ [] := by
    intro hnone
    exact hpairs (by rw [pairsOf, hnone]; rfl)
  unfold emitSelector
  rw [hvariadic, getElem?_collectMethods, getD_collectMethods, if_neg hdeclared]
  rfl

/-- The other selectors leave the rows of a selector as they are. -/
theorem foldl_apart {selectors : List String} {name : String} (hname : name ∉ selectors)
    (guestPool hostPool : Pool) (s : Emitted) :
    (selectors.foldl (emitSelector types spell guestPool hostPool guestSelectors) s).shimsOf name
        = s.shimsOf name ∧
      (selectors.foldl (emitSelector types spell guestPool hostPool guestSelectors) s).variantsOf
        name = s.variantsOf name ∧
      s.bridges
        ⊆ (selectors.foldl (emitSelector types spell guestPool hostPool guestSelectors)
          s).bridges := by
  induction selectors generalizing s with
  | nil => exact ⟨rfl, rfl, List.Subset.refl _⟩
  | cons selector rest ih =>
      have hne : name ≠ selector := fun h => hname (h ▸ List.mem_cons_self)
      have hgrows := @grows_emitSelector types spell guestPool hostPool guestSelectors s selector
      obtain ⟨hshims, hvariants, hbridges⟩ := ih (fun h => hname (List.mem_cons_of_mem _ h))
        (emitSelector types spell guestPool hostPool guestSelectors s selector)
      rw [List.foldl_cons]
      exact ⟨hshims.trans (hgrows.shims name hne), hvariants.trans (hgrows.variants name hne),
        List.Subset.trans hgrows.bridges hbridges⟩

/-- **The rows of a selector are written in its own turn.** -/
theorem emitSelectors_turn {selectors : List String} {name : String} (hnodup : selectors.Nodup)
    (hname : name ∈ selectors) (s : Emitted) :
    ∃ before, before.shimsOf name = s.shimsOf name ∧ before.variantsOf name = s.variantsOf name ∧
      (emitSelectors types spell guestDecls hostDecls selectors guestSelectors s).shimsOf name
        = (emitSelector types spell (collectMethods guestDecls) (collectMethods hostDecls)
            guestSelectors before name).shimsOf name ∧
      (emitSelectors types spell guestDecls hostDecls selectors guestSelectors s).variantsOf name
        = (emitSelector types spell (collectMethods guestDecls) (collectMethods hostDecls)
            guestSelectors before name).variantsOf name ∧
      (emitSelector types spell (collectMethods guestDecls) (collectMethods hostDecls)
        guestSelectors before name).bridges
        ⊆ (emitSelectors types spell guestDecls hostDecls selectors guestSelectors s).bridges := by
  obtain ⟨first, rest, rfl⟩ := List.append_of_mem hname
  obtain ⟨-, hcons, hdisjoint⟩ := List.nodup_append.mp hnodup
  have hfirst : name ∉ first := fun h => hdisjoint name h name List.mem_cons_self rfl
  have hrest : name ∉ rest := (List.nodup_cons.mp hcons).1
  have hbefore := @foldl_apart types spell guestSelectors first name hfirst
    (collectMethods guestDecls) (collectMethods hostDecls) s
  unfold emitSelectors
  rw [List.foldl_append, List.foldl_cons]
  have hafter := @foldl_apart types spell guestSelectors rest name hrest
    (collectMethods guestDecls) (collectMethods hostDecls)
    (emitSelector types spell (collectMethods guestDecls) (collectMethods hostDecls) guestSelectors
      (first.foldl (emitSelector types spell (collectMethods guestDecls) (collectMethods hostDecls)
        guestSelectors) s) name)
  exact ⟨_, hbefore.1, hbefore.2.1, hafter.1, hafter.2.1, hafter.2.2⟩

/-- The bridges have different numbers, and so different names. -/
theorem nodup_numbers (selectors : List String) (guestPool hostPool : Pool) (s : Emitted)
    (hs : (s.bridges.map MessageBridge.number).Nodup)
    (hbound : ∀ bridge ∈ s.bridges, bridge.number < s.counter) :
    ((selectors.foldl (emitSelector types spell guestPool hostPool guestSelectors) s).bridges.map
      MessageBridge.number).Nodup := by
  induction selectors generalizing s with
  | nil => exact hs
  | cons selector rest ih =>
      have hgrows := @grows_emitSelector types spell guestPool hostPool guestSelectors s selector
      have hcounter := hgrows.counter
      rw [List.foldl_cons]
      apply ih
      · rw [hgrows.numbers, List.nodup_append]
        refine ⟨hs, List.nodup_range', fun number hnumber other hother => ?_⟩
        obtain ⟨bridge, hbridge, rfl⟩ := List.mem_map.mp hnumber
        have hlt := hbound bridge hbridge
        rw [List.mem_range'_1] at hother
        omega
      · intro bridge hbridge
        have hnumber : bridge.number ∈ s.bridges.map MessageBridge.number ++
            List.range' s.counter ((emitSelector types spell guestPool hostPool guestSelectors s
              selector).counter - s.counter) := by
          rw [← hgrows.numbers]
          exact List.mem_map_of_mem hbridge
        rcases List.mem_append.mp hnumber with hold | hnew
        · obtain ⟨other, hother, heq⟩ := List.mem_map.mp hold
          have hlt := hbound other hother
          omega
        · rw [List.mem_range'_1] at hnew
          omega

theorem guest_injective {bridge other : MessageBridge} (h : bridge.guest = other.guest) :
    bridge.number = other.number := by
  have hlist := congrArg String.toList h
  simp only [MessageBridge.guest, MessageBridge.id, String.toList_append] at hlist
  exact Words.toString_injective (List.append_cancel_left (List.append_cancel_left hlist))

end

end Selectors

end Katabasis
