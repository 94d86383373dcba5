import Katabasis.Xlgen.Selectors

set_option autoImplicit false

/-! # The route of a message to its bridge

`xl_setup` (`runtime/objc_bridge.m`) makes the dictionaries of `xl_route` from the two tables that
`EmitSelectors` wrote. A message that the host answers then goes to the bridge of the first
declaration with the method's own encoding, where that declaration can be bridged, and to the
selector's default where it cannot or there is none (`message_bridged`). Without a default there is
no bridge at all.
-/

namespace Katabasis

open Std

namespace Selectors

/-! ## The dictionaries of the runtime -/

section

-- Where a macro's guest function is.
variable (address : String → UInt32)

def selectorTable (shims : List (String × String)) : ExtTreeMap String UInt64 :=
  Maps.insertList (shims.map fun shim => (shim.1, (address shim.2).toUInt64)) ∅

def addVariantRow (table : ExtTreeMap String (ExtTreeMap String UInt64))
    (row : String × String × String) : ExtTreeMap String (ExtTreeMap String UInt64) :=
  table.insert row.1 ((table[row.1]?.getD ∅).insert row.2.1 (address row.2.2).toUInt64)

def variantTable (rows : List (String × String × String)) :
    ExtTreeMap String (ExtTreeMap String UInt64) := rows.foldl (addVariantRow address) ∅

/-- `xl_setup`, as far as the bridges of the selectors go. A zero in a dictionary is no answer. -/
def xlSetup (b : Messaging) (s : Emitted) : Messaging :=
  { b with
    selectorTable := fun name => (selectorTable address s.shims)[name]?.filter (· != 0)
    selectorVariants := fun name =>
      (variantTable address s.variants)[name]?.map fun byEncoding key =>
        byEncoding[key]?.filter (· != 0) }

end

section

variable {address : String → UInt32} {s : Emitted} {name : String}

theorem getElem?_selectorTable_none (h : s.shimsOf name = []) :
    (selectorTable address s.shims)[name]? = none := by
  have hnone : ∀ shim ∈ s.shims, shim.1 ≠ name := by
    intro shim hshim heq
    have hmem : shim.2 ∈ s.shimsOf name :=
      List.mem_map_of_mem (List.mem_filter.mpr ⟨hshim, by simpa using heq⟩)
    rw [h] at hmem
    cases hmem
  rw [selectorTable, Maps.getElem?_insertList_of_notMem]
  · simp
  · intro entry hentry
    obtain ⟨shim, hshim, rfl⟩ := List.mem_map.mp hentry
    exact hnone shim hshim

theorem getElem?_selectorTable_some {guest : String} (h : s.shimsOf name = [guest]) :
    (selectorTable address s.shims)[name]? = some (address guest).toUInt64 := by
  have hguest : guest ∈ s.shimsOf name := by simp [h]
  obtain ⟨shim, hshim, rfl⟩ := List.mem_map.mp hguest
  obtain ⟨hshim, hname⟩ := List.mem_filter.mp hshim
  have hfound : ∃ value, (name, value) ∈ s.shims.map
      (fun shim => (shim.1, (address shim.2).toUInt64)) ∧
      (selectorTable address s.shims)[name]? = some value :=
    Maps.getElem?_insertList_of_mem ⟨_, List.mem_map_of_mem hshim, by simpa using hname⟩
  obtain ⟨value, hvalue, hget⟩ := hfound
  obtain ⟨other, hother, heq⟩ := List.mem_map.mp hvalue
  obtain ⟨hotherName, rfl⟩ := Prod.mk.inj heq
  have hmem : other.2 ∈ s.shimsOf name :=
    List.mem_map_of_mem (List.mem_filter.mpr ⟨hother, by simpa using hotherName⟩)
  rw [h, List.mem_singleton] at hmem
  rw [hget, hmem]

theorem getD_foldl_addVariantRow (rows : List (String × String × String))
    (table : ExtTreeMap String (ExtTreeMap String UInt64)) :
    (rows.foldl (addVariantRow address) table)[name]?.getD ∅
      = Maps.insertList ((rows.filter fun row => row.1 = name).map fun row =>
          (row.2.1, (address row.2.2).toUInt64)) (table[name]?.getD ∅) := by
  induction rows generalizing table with
  | nil => rfl
  | cons row rest ih =>
      rw [List.foldl_cons, ih, addVariantRow, ExtTreeMap.getElem?_insert]
      by_cases hrow : row.1 = name
      · rw [if_pos (LawfulEqCmp.compare_eq_iff_eq.mpr hrow), List.filter_cons_of_pos (by simpa),
          hrow]
        rfl
      · rw [if_neg (fun h => hrow (LawfulEqCmp.compare_eq_iff_eq.mp h)),
          List.filter_cons_of_neg (by simpa)]

/-- The encodings of a selector, each with its bridge. -/
theorem getD_variantTable :
    (variantTable address s.variants)[name]?.getD ∅
      = Maps.insertList ((s.variantsOf name).map fun row => (row.1, (address row.2).toUInt64))
          ∅ := by
  rw [variantTable, getD_foldl_addVariantRow, Emitted.variantsOf, List.map_map]
  simp
  rfl

theorem selectorVariants_xlSetup (b : Messaging) (key : String) :
    (((xlSetup address b s).selectorVariants name).bind fun byEncoding => byEncoding key)
      = ((Maps.insertList ((s.variantsOf name).map fun row => (row.1, (address row.2).toUInt64))
          (∅ : ExtTreeMap String UInt64))[key]?).filter (· != 0) := by
  rw [← getD_variantTable]
  simp only [xlSetup]
  cases (variantTable address s.variants)[name]? <;> simp

end

/-! ## The bridge of a message -/

theorem toUInt64_ne_zero {a : UInt32} (h : a ≠ 0) : a.toUInt64 ≠ 0 := by
  intro hzero
  apply h
  have hnat := congrArg UInt64.toNat hzero
  rw [UInt32.toNat_toUInt64] at hnat
  exact UInt32.toNat_inj.mp hnat

/-- The answer to a message that has no bridge. -/
def missing (b : Messaging) : Route := if b.collect then .zero else .noBridge

section

variable {b : Messaging} {rt : ShadowRuntime} {message : Address × UInt64}

theorem ownRoute_of_table {bridge : UInt64}
    (h : b.selectorTable (b.selName message.2) = some bridge) :
    b.ownRoute rt message
      = .address ((b.variantOf rt.host message.1 message.2).getD bridge) := by
  unfold Messaging.ownRoute Messaging.defaultRoute
  rw [h]
  cases b.variantOf rt.host message.1 message.2 <;> rfl

theorem ownRoute_missing (htable : b.selectorTable (b.selName message.2) = none)
    (hvariant : b.variantOf rt.host message.1 message.2 = none) :
    b.ownRoute rt message = missing b := by
  unfold Messaging.ownRoute Messaging.defaultRoute
  rw [hvariant, htable]
  rfl

/-- Where one implementation is one method, the messages before do not matter. -/
theorem route_own {imp : Imp} (hrouted : b.neutralized rt.host message.1 message.2 = false)
    (himp : b.implementationFor rt.host message.1 message.2 = some imp)
    (hhost : b.guestMethod rt (some imp) = none)
    (hmethod : ∀ other : Address × UInt64,
      b.implementationFor rt.host other.1 other.2 = some imp →
        b.variantOf rt.host other.1 other.2 = b.variantOf rt.host message.1 message.2)
    (history : List (Address × UInt64)) :
    (b.route (b.afterHistory rt history) message).1 = b.ownRoute rt message := by
  refine (Messaging.route_of_cached (b.afterHistory rt history).variantCache hrouted himp
    hhost).trans ?_
  cases hcached : (b.afterHistory rt history).variantCache imp with
  | none => rfl
  | some cached =>
      obtain ⟨other, hother⟩ := Messaging.afterHistory_caches hcached
      have hvariant := hother.variant
      rw [hmethod other hother.implementation] at hvariant
      simp only [Messaging.ownRoute, hvariant]

end

section

variable (types : MethodDecl × MethodDecl → List (Declared × String) × Signatures.SdkType)
  (spell : Signatures.SdkType → String)

/-- The declaration that a method with this key is called by: the first one with its own encoding
where that can be bridged, else the default. -/
def answered (pairs : List (MethodDecl × MethodDecl)) (default : MethodDecl × MethodDecl)
    (key : String) : MethodDecl × MethodDecl :=
  ((own pairs key).filter fun pair => (fromMethod types spell pair).supported).getD default

variable {types spell} {address : String → UInt32} {s : Emitted} {name : String}
  {pairs : List (MethodDecl × MethodDecl)} {default : MethodDecl × MethodDecl}
  {bridge : MessageBridge} {rows : List (String × MessageBridge)}

/-- The rows of a selector stay as they are. -/
theorem Tabled.later {s' : Emitted} (h : Tabled types spell s name pairs default bridge rows)
    (hshims : s'.shimsOf name = s.shimsOf name) (hvariants : s'.variantsOf name = s.variantsOf name)
    (hbridges : s.bridges ⊆ s'.bridges) :
    Tabled types spell s' name pairs default bridge rows where
  shims := hshims.trans h.shims
  bridge := ⟨hbridges h.bridge.1, h.bridge.2⟩
  variants := hvariants.trans h.variants
  distinct := h.distinct
  sound row hrow := by
    obtain ⟨pair, hown, hsupported, hboth⟩ := h.sound row hrow
    exact ⟨pair, hown, hsupported, hboth.key, hboth.signature, hbridges hboth.written⟩
  complete := h.complete

theorem Tabled.finds (h : Tabled types spell s name pairs default bridge rows)
    (hvoted : Voted pairs default) (haddress : ∀ bridge ∈ s.bridges, address bridge.guest ≠ 0)
    (key : String) :
    ∃ found ∈ s.bridges,
      found.plan.signature = fromMethod types spell (answered types spell pairs default key) ∧
      (((Maps.insertList ((s.variantsOf name).map fun row => (row.1, (address row.2).toUInt64))
        (∅ : ExtTreeMap String UInt64))[key]?).filter (· != 0)).getD (address bridge.guest).toUInt64
          = (address found.guest).toUInt64 := by
  rw [h.variants, List.map_map]
  by_cases hrow : ∃ row ∈ rows, row.1 = key
  · obtain ⟨row, hrow, rfl⟩ := hrow
    obtain ⟨pair, hown, hsupported, hboth⟩ := h.sound row hrow
    refine ⟨row.2, hboth.written, ?_, ?_⟩
    · rw [hboth.signature, answered, hown]
      simp [Option.filter, hsupported]
    · have hentry : (row.1, (address row.2.guest).toUInt64) ∈ rows.map
          ((fun row => (row.1, (address row.2).toUInt64)) ∘ fun row => (row.1, row.2.guest)) :=
        List.mem_map.mpr ⟨row, hrow, rfl⟩
      have hget : (Maps.insertList (rows.map
          ((fun row => (row.1, (address row.2).toUInt64)) ∘ fun row => (row.1, row.2.guest)))
          (∅ : ExtTreeMap String UInt64))[row.1]? = some (address row.2.guest).toUInt64 :=
        Maps.getElem?_insertList_of_nodup (by rw [List.map_map]; exact h.distinct) hentry
      have hne : ((address row.2.guest).toUInt64 != 0) = true := by
        simpa using toUInt64_ne_zero (haddress row.2 hboth.written)
      rw [hget]
      simp [Option.filter, hne]
  · refine ⟨bridge, h.bridge.1, ?_, ?_⟩
    · rw [h.bridge.2, answered]
      cases hown : own pairs key with
      | none => rfl
      | some pair =>
          cases hsupported : (fromMethod types spell pair).supported with
          | false => simp [Option.filter, hsupported]
          | true =>
              rcases h.complete key pair hown hsupported with hdefault | hmem
              · rw [hdefault, hvoted.first, Option.some.injEq] at hown
                subst hown
                simp [Option.filter, hsupported]
              · exact absurd hmem hrow
    · rw [Maps.getElem?_insertList_of_notMem]
      · simp
      · intro entry hentry heq
        obtain ⟨row, hin, rfl⟩ := List.mem_map.mp hentry
        exact hrow ⟨row, hin, heq⟩

end

section

variable {types : MethodDecl × MethodDecl → List (Declared × String) × Signatures.SdkType}
  {spell : Signatures.SdkType → String} {guestDecls hostDecls : List MethodDecl}
  {selectors guestSelectors : List String} {address : String → UInt32}
  {b : Messaging} {rt : ShadowRuntime} {message : Address × UInt64} {imp : Imp} {encoding : String}

/-- The host answers a message with a method of its own, with this type encoding, and the
implementation is that of no other method. -/
structure HostMessage (b : Messaging) (rt : ShadowRuntime) (message : Address × UInt64) (imp : Imp)
    (encoding : String) : Prop where
  routed : b.neutralized rt.host message.1 message.2 = false
  implementation : b.implementationFor rt.host message.1 message.2 = some imp
  host : b.guestMethod rt (some imp) = none
  encoded : b.encoding rt.host message.1 (b.selName message.2) = some encoding
  fits : (normalizeEncoding false encoding.toList).length ≤ 255
  method : ∀ other : Address × UInt64, b.implementationFor rt.host other.1 other.2 = some imp →
    b.selName other.2 = b.selName message.2 ∧
      b.encoding rt.host other.1 (b.selName other.2) = some encoding

/-- The route after a history of messages, with the tables of these bridges. -/
def routed (address : String → UInt32) (b : Messaging) (s : Emitted) (rt : ShadowRuntime)
    (history : List (Address × UInt64)) (message : Address × UInt64) : Route :=
  ((xlSetup address b s).route ((xlSetup address b s).afterHistory rt history) message).1

theorem variantOf_xlSetup {s : Emitted} {lookup : Address} {selector : UInt64}
    (hencoding : b.encoding rt.host lookup (b.selName selector) = some encoding)
    (hfits : (normalizeEncoding false encoding.toList).length ≤ 255) :
    (xlSetup address b s).variantOf rt.host lookup selector
      = ((Maps.insertList ((s.variantsOf (b.selName selector)).map fun row =>
            (row.1, (address row.2).toUInt64)) (∅ : ExtTreeMap String UInt64))[
          String.ofList (normalizeEncoding false encoding.toList)]?).filter (· != 0) := by
  rw [← selectorVariants_xlSetup b]
  have hread : (xlSetup address b s).encoding rt.host lookup
      ((xlSetup address b s).selName selector) = some encoding := hencoding
  unfold Messaging.variantOf
  rw [hread]
  simp only [Option.bind_some, stripEncoding_eq_take, List.take_of_length_le hfits]
  rfl

theorem routed_own {s : Emitted} (h : HostMessage b rt message imp encoding)
    (history : List (Address × UInt64)) :
    routed address b s rt history message = (xlSetup address b s).ownRoute rt message := by
  -- neither the lookup nor the guest's methods depend on the tables
  have hrouted : (xlSetup address b s).neutralized rt.host message.1 message.2 = false := h.routed
  have himp : (xlSetup address b s).implementationFor rt.host message.1 message.2 = some imp :=
    h.implementation
  have hhost : (xlSetup address b s).guestMethod rt (some imp) = none := h.host
  refine route_own hrouted himp hhost (fun other hother => ?_) history
  obtain ⟨hname, hencoding⟩ := h.method other hother
  rw [variantOf_xlSetup hencoding h.fits, variantOf_xlSetup h.encoded h.fits, hname]

/-- Without a row for the selector there is no bridge to go to. -/
theorem routed_missing {s : Emitted} (h : HostMessage b rt message imp encoding)
    (hshims : s.shimsOf (b.selName message.2) = [])
    (hvariants : s.variantsOf (b.selName message.2) = []) (history : List (Address × UInt64)) :
    routed address b s rt history message = missing b := by
  rw [routed_own h]
  refine ownRoute_missing ?_ ?_
  · show ((selectorTable address s.shims)[b.selName message.2]?).filter (· != 0) = none
    rw [getElem?_selectorTable_none hshims]
    rfl
  · rw [variantOf_xlSetup h.encoded h.fits, hvariants]
    simp [Maps.insertList]

/-- With its rows, the message goes to the bridge of the declaration that answers for the encoding
of the host's method. -/
theorem routed_tabled {s : Emitted} {pairs : List (MethodDecl × MethodDecl)}
    {default : MethodDecl × MethodDecl} {bridge : MessageBridge}
    {rows : List (String × MessageBridge)} (h : HostMessage b rt message imp encoding)
    (htable : Tabled types spell s (b.selName message.2) pairs default bridge rows)
    (hvoted : Voted pairs default) (haddress : ∀ bridge ∈ s.bridges, address bridge.guest ≠ 0) :
    ∃ found ∈ s.bridges,
      found.plan.signature = fromMethod types spell (answered types spell pairs default
        (String.ofList (normalizeEncoding false encoding.toList))) ∧
      ∀ history, routed address b s rt history message
        = .address (address found.guest).toUInt64 := by
  obtain ⟨found, hfound, hsig, hget⟩ := htable.finds hvoted haddress
    (String.ofList (normalizeEncoding false encoding.toList))
  refine ⟨found, hfound, hsig, fun history => ?_⟩
  -- the default stands in the table of the selectors, the others in that of the encodings
  have hdefault : (xlSetup address b s).selectorTable ((xlSetup address b s).selName message.2)
      = some (address bridge.guest).toUInt64 := by
    show ((selectorTable address s.shims)[b.selName message.2]?).filter (· != 0) = _
    rw [getElem?_selectorTable_some htable.shims]
    have hne : ((address bridge.guest).toUInt64 != 0) = true := by
      simpa using toUInt64_ne_zero (haddress bridge htable.bridge.1)
    simp [Option.filter, hne]
  rw [routed_own h, ownRoute_of_table hdefault, variantOf_xlSetup h.encoded h.fits, hget]

theorem nodup_guests {bridges : List MessageBridge}
    (hnumbers : (bridges.map MessageBridge.number).Nodup) :
    (bridges.map MessageBridge.guest).Nodup := by
  rw [List.nodup_map_iff_inj_on (List.Nodup.of_map _ hnumbers)]
  intro bridge hbridge other hother hguest
  exact List.inj_on_of_nodup_map hnumbers hbridge hother (guest_injective hguest)

/-- **A message is bridged by its own declaration.** The bridges have different names. Without a
declaration on both sides, or where the default cannot be bridged, there is no bridge; else every
message, whatever came before, goes to a bridge with the signature of the declaration that answers
for the encoding of the host's method. -/
theorem message_bridged (hnodup : selectors.Nodup) (hname : b.selName message.2 ∈ selectors)
    (hord : Ordinary (b.selName message.2) (pairsOf guestDecls hostDecls (b.selName message.2)))
    (hkeys : ∀ pair ∈ pairsOf guestDecls hostDecls (b.selName message.2), encodingKey pair ≠ "")
    (haddress : ∀ bridge ∈
      (emitSelectors types spell guestDecls hostDecls selectors guestSelectors {}).bridges,
      address bridge.guest ≠ 0)
    (hmessage : HostMessage b rt message imp encoding) :
    ((emitSelectors types spell guestDecls hostDecls selectors guestSelectors {}).bridges.map
        MessageBridge.guest).Nodup ∧
      (pairsOf guestDecls hostDecls (b.selName message.2) = [] → ∀ history,
        routed address b
          (emitSelectors types spell guestDecls hostDecls selectors guestSelectors {})
          rt history message = missing b) ∧
      (pairsOf guestDecls hostDecls (b.selName message.2) ≠ [] → ∃ default,
        Voted (pairsOf guestDecls hostDecls (b.selName message.2)) default ∧
        ((fromMethod types spell default).supported = false → ∀ history,
          routed address b
            (emitSelectors types spell guestDecls hostDecls selectors guestSelectors {})
            rt history message = missing b) ∧
        ((fromMethod types spell default).supported = true → ∃ bridge ∈
          (emitSelectors types spell guestDecls hostDecls selectors guestSelectors {}).bridges,
          bridge.plan.signature = fromMethod types spell (answered types spell
            (pairsOf guestDecls hostDecls (b.selName message.2)) default
            (String.ofList (normalizeEncoding false encoding.toList))) ∧
          ∀ history, routed address b
            (emitSelectors types spell guestDecls hostDecls selectors guestSelectors {})
            rt history message = .address (address bridge.guest).toUInt64)) := by
  have hturn := @emitSelectors_turn types spell guestDecls hostDecls guestSelectors selectors
    (b.selName message.2) hnodup hname {}
  obtain ⟨before, hbeforeShims, hbeforeVariants, hshims, hvariants, hbridges⟩ := hturn
  have hnumbers : ((emitSelectors types spell guestDecls hostDecls selectors guestSelectors
      {}).bridges.map MessageBridge.number).Nodup :=
    nodup_numbers selectors _ _ {} List.nodup_nil (fun _ h => by cases h)
  generalize emitSelectors types spell guestDecls hostDecls selectors guestSelectors {} = s at *
  refine ⟨nodup_guests hnumbers, fun hpairs => ?_, fun hpairs => ?_⟩
  · obtain ⟨hnoShims, hnoVariants⟩ := @emitSelector_missing types spell guestDecls hostDecls
      guestSelectors before (b.selName message.2) hpairs
    apply routed_missing hmessage
    · rw [hshims, hnoShims, hbeforeShims]
      rfl
    · rw [hvariants, hnoVariants, hbeforeVariants]
      rfl
  · rw [emitSelector_declared hord.variadic hpairs] at hshims hvariants hbridges
    have htabled := @emitDeclared_tabled types spell (b.selName message.2)
      (pairsOf guestDecls hostDecls (b.selName message.2)) before hord hkeys hpairs
      (by rw [hbeforeShims]; rfl) (by rw [hbeforeVariants]; rfl)
    obtain ⟨default, hvoted, hunsupported, hsupported⟩ := htabled
    refine ⟨default, hvoted, fun hun => ?_, fun hsup => ?_⟩
    · obtain ⟨hnoShims, hnoVariants⟩ := hunsupported hun
      exact routed_missing hmessage (hshims.trans hnoShims) (hvariants.trans hnoVariants)
    · obtain ⟨bridge, rows, htable⟩ := hsupported hsup
      have hfinal : Tabled types spell s (b.selName message.2)
          (pairsOf guestDecls hostDecls (b.selName message.2)) default bridge rows :=
        htable.later hshims hvariants hbridges
      exact routed_tabled hmessage hfinal hvoted haddress

end

/-! ### A selector with two signatures -/

/-- `-timestamp`, which is an object of the one class and a number of the other. -/
def timestamps (object number : String) : List MethodDecl :=
  [{ container := some "CLLocation", selector := "timestamp", encoding := object },
    { container := some "UIEvent", selector := "timestamp", encoding := number }]

def guestTimestamps : List MethodDecl := timestamps "@16@0:8" "d16@0:8"

def hostTimestamps : List MethodDecl := timestamps "@8@0:4" "d8@0:4"

def timestampTypes (pair : MethodDecl × MethodDecl) :
    List (Declared × String) × Signatures.SdkType :=
  ([], .declared
    (if pair.2.encoding = "d8@0:4" then .plain (.floating .double) (.floating .double)
      else .plain (.pointer .object) (.pointer .object)))

/-- The class `1` is the location's, and `2` the event's. -/
def timestampMessaging : Messaging where
  selName := fun _ => "timestamp"
  isaOf := fun object => object
  superAt := fun _ => (0, 0)
  encoding := fun _ lookup _ => if lookup = 1 then some "@8@0:4" else some "d8@0:4"

def timestampRuntime : ShadowRuntime where
  host :=
    { classAt := fun cls =>
        { methods := if cls = 1 then [("timestamp", .native 1)]
            else if cls = 2 then [("timestamp", .native 2)] else [] }
      named := fun _ => none }

def bridgeAddress (guest : String) : UInt32 :=
  if guest = "XL_GUEST_xl_selector_0" then 0x1000 else 0x2000

/-- The timestamp of an event is asked for as a number, whatever was asked before. -/
theorem message_bridged_timestamp :
    ∃ bridge ∈ (emitSelectors timestampTypes (fun _ => "") guestTimestamps hostTimestamps
        ["timestamp"] [] {}).bridges,
      bridge.plan.signature.result.kind = .floating ∧
      ∀ history, routed bridgeAddress timestampMessaging
        (emitSelectors timestampTypes (fun _ => "") guestTimestamps hostTimestamps ["timestamp"] []
          {}) timestampRuntime history (2, 5) = .address (bridgeAddress bridge.guest).toUInt64 := by
  have hmessage : HostMessage timestampMessaging timestampRuntime (2, 5) (.native 2) "d8@0:4" := by
    refine ⟨rfl, rfl, rfl, rfl, by decide, fun other hother => ⟨rfl, ?_⟩⟩
    have hlookup : other.1 ≠ 1 := by
      intro hone
      have himp : timestampMessaging.implementationFor timestampRuntime.host other.1 other.2
          = some (.native 1) := by
        rw [hone]
        rfl
      rw [himp] at hother
      simp at hother
    simp [timestampMessaging, hlookup]
  have hsupported : ∀ pair ∈ pairsOf guestTimestamps hostTimestamps "timestamp",
      (fromMethod timestampTypes (fun _ => "") pair).supported = true := by decide
  have hbridged := (@message_bridged timestampTypes (fun _ => "") guestTimestamps hostTimestamps
    ["timestamp"] [] bridgeAddress timestampMessaging timestampRuntime (2, 5) (.native 2) "d8@0:4"
    (by decide) (by decide) ⟨rfl, rfl, by decide⟩ (by decide)
    (fun bridge _ => by unfold bridgeAddress; split_ifs <;> decide) hmessage).2.2 (by decide)
  obtain ⟨default, hvoted, -, hbridge⟩ := hbridged
  obtain ⟨bridge, hmem, hsig, hroute⟩ := hbridge (hsupported default hvoted.mem)
  refine ⟨bridge, hmem, ?_, hroute⟩
  rw [hsig]
  rfl

end Selectors

end Katabasis
