import Katabasis.Xlgen.SameLayout
import Katabasis.Xlgen.Selectors

set_option autoImplicit false

/-! # The imports of the guest

`xlgen` gives each symbol that the guest images import and do not answer themselves a definition in
the guest sources, or hands it to the host's linker (`main`, `xlate/src/xlgen.cpp`). A function of
the SDK becomes a bridge, a variable of one layout on both sides is the host's own, and any other
variable is a guest copy that is filled at start-up. What has no bridge becomes a trap that says
why, unless the images import it only weakly: then it stays unbound, so that the guest's check finds
it absent.

The definitions follow one after another; those that depend on the name alone come before any look
at the SDK.
-/

namespace Katabasis

namespace Symbols

open Signatures (SdkType)

/-! ## The SDK -/

/-- A format attribute. -/
structure FormatAttr where
  /-- The format is an `NSString`. -/
  object : Bool
  /-- `getFormatIdx` -/
  index : Nat

structure FunctionDecl where
  params : Nat := 0
  variadic : Bool := false
  format : Option FormatAttr := none

/-- The types of a variable on the two sides, as `SameLayout` and as `Classify` see them. -/
structure VariableTypes where
  guestLayout : SameLayout.QualType
  hostLayout : SameLayout.QualType
  guest : CType
  host : CType

/-- The declarations of the headers, by name, parsed for the guest and for the host. -/
structure Sdk where
  guestFunction : String → Option FunctionDecl := fun _ => none
  hostFunction : String → Bool := fun _ => false
  guestVariable : String → Bool := fun _ => false
  hostVariable : String → Bool := fun _ => false
  functionTypes : String → List (Declared × String) × SdkType
  variableTypes : String → VariableTypes
  spell : SdkType → String

/-! ## The tables of names -/

/-- `trampolines` -/
def trampolines : List (String × String) :=
  [("_objc_msgSend", "objc_msgSend"), ("_objc_msgSendSuper2", "objc_msgSendSuper2")]

/-- `weak_functions`, with the number of their parameters. -/
def weakFunctions : List (String × Nat) :=
  [("_objc_initWeak", 2), ("_objc_storeWeak", 2), ("_objc_destroyWeak", 1),
    ("_objc_loadWeakRetained", 1), ("_objc_loadWeak", 1), ("_objc_copyWeak", 2),
    ("_objc_moveWeak", 2), ("_objc_autoreleaseReturnValue", 1),
    ("_objc_retainAutoreleasedReturnValue", 1), ("_objc_retainAutoreleaseReturnValue", 1),
    ("_objc_unsafeClaimAutoreleasedReturnValue", 1), ("_objc_claimAutoreleasedReturnValue", 1),
    ("_objc_retainBlock", 1), ("_objc_retain", 1), ("_objc_release", 1), ("_objc_autorelease", 1),
    ("___cxa_atexit", 3), ("__Znwm", 1), ("__Znam", 1), ("__ZdlPv", 1), ("__ZdaPv", 1),
    ("_NSGetUncaughtExceptionHandler", 0), ("_kevent", 6), ("_inflateInit_", 3),
    ("_inflateInit2_", 4), ("_deflateInit_", 4), ("_deflateInit2_", 8), ("_inflate", 2),
    ("_deflate", 2), ("_inflateEnd", 1), ("_deflateEnd", 1), ("_inflateReset", 1),
    ("_deflateReset", 1), ("_utimensat", 4), ("_readdir", 1), ("_signal", 2), ("___assert_rtn", 4),
    ("_exit", 1), ("__exit", 1), ("_objc_copyImageNames", 1), ("_objc_copyClassNamesForImage", 2),
    ("_objc_copyClassList", 1), ("_objc_readClassPair", 2), ("__objc_realizeClassFromSwift", 2),
    ("_class_getImageName", 1)]

/-- `faults` -/
def faults : List String :=
  ["__Unwind_Resume", "___objc_personality_v0", "___gxx_personality_v0", "___cxa_throw",
    "_objc_exception_throw"]

/-- `exec_family` -/
def execFamily : List String :=
  ["_execl", "_execle", "_execlp", "_execv", "_execve", "_execvp", "_execvP"]

/-- `vectors` of `EmitExec`, with the number of their parameters. -/
def execVectors : List (String × Nat) :=
  [("_execv", 2), ("_execve", 3), ("_execvp", 2), ("_execvP", 3)]

/-- `lists` of `EmitExec`: each with the vector form it calls. -/
def execLists : List (String × String) :=
  [("_execl", "_execv"), ("_execle", "_execve"), ("_execlp", "_execvp")]

/-- `empty_singletons` -/
def emptySingletons : List (String × String) :=
  [("___NSArray0__", "NSArray"), ("___NSDictionary0__", "NSDictionary")]

/-- `unattributed_printf`: the variant that takes a `va_list`, and the format's index. -/
def unattributedPrintf : List (String × String × Nat) :=
  [("sqlite3_mprintf", "sqlite3_vmprintf", 0), ("sqlite3_snprintf", "sqlite3_vsnprintf", 2)]

/-- `variants` of `EmitFunction` -/
def formatVariants : List (String × String) :=
  [("printf", "vprintf"), ("fprintf", "vfprintf"), ("sprintf", "vsprintf"),
    ("snprintf", "vsnprintf"), ("asprintf", "vasprintf"), ("dprintf", "vdprintf"),
    ("syslog", "vsyslog"), ("NSLog", "NSLogv"), ("asl_log", "asl_vlog")]

/-- `valist_readers` -/
def valistReaders : List String :=
  ["vprintf", "vfprintf", "vsprintf", "vsnprintf", "vasprintf", "vdprintf", "vsyslog", "asl_vlog",
    "NSLogv"]

/-- `fixed_variadic`: the words behind the parameters. -/
def fixedVariadic : List (String × Nat) := [("open", 1), ("fcntl", 1), ("ioctl", 1), ("openat", 1)]

/-- `shim_callee` of the variadic functions -/
def variadicShims : List (String × String) := [("openat", "xl_shim_openat")]

/-- `shim_callee` -/
def shimCallee : List (String × String) :=
  [("malloc_type_malloc", "xl_shim_malloc_type_malloc"),
    ("malloc_type_calloc", "xl_shim_malloc_type_calloc"),
    ("malloc_type_realloc", "xl_shim_malloc_type_realloc"),
    ("malloc_type_aligned_alloc", "xl_shim_malloc_type_aligned_alloc"),
    ("mkdirat", "xl_shim_mkdirat"), ("unlinkat", "xl_shim_unlinkat"),
    ("fstatat", "xl_shim_fstatat"), ("readlinkat", "xl_shim_readlinkat"),
    ("fchmodat", "xl_shim_fchmodat"), ("fchownat", "xl_shim_fchownat"),
    ("faccessat", "xl_shim_faccessat"), ("renameat", "xl_shim_renameat"),
    ("linkat", "xl_shim_linkat"), ("symlinkat", "xl_shim_symlinkat"),
    ("fdopendir", "xl_shim_fdopendir"), ("sqlite3_bind_blob64", "xl_shim_sqlite3_bind_blob64"),
    ("sqlite3_bind_text64", "xl_shim_sqlite3_bind_text64"),
    ("sqlite3_malloc64", "xl_shim_sqlite3_malloc64"),
    ("sqlite3_realloc64", "xl_shim_sqlite3_realloc64"),
    ("CCRandomGenerateBytes", "xl_shim_CCRandomGenerateBytes"),
    ("clock_gettime", "xl_shim_clock_gettime"), ("clock_getres", "xl_shim_clock_getres"),
    ("__exp10", "xl_shim_exp10"), ("sqlite3_prepare_v3", "xl_shim_sqlite3_prepare_v3"),
    ("CGImageGetUTType", "xl_shim_CGImageGetUTType"),
    ("CGImageSourceRemoveCacheAtIndex", "xl_shim_CGImageSourceRemoveCacheAtIndex")]

/-! ## What is written -/

/-- A function bridge in the two sources: what `EmitBridge` is asked for. -/
structure FunctionBridge where
  id : String
  signature : Signatures.Signature
  callee : String
  format : Selectors.Format := {}
  manual : String := ""
  /-- `variadic_words_` -/
  variadicWords : Nat := 0

/-- What the host puts into a guest copy at start-up. -/
inductive Fill
  /-- Its own variable of that name, converted. -/
  | copy (value : Value)
  /-- A new object of the class. -/
  | created (hostClass : String)

/-- The sources so far. -/
structure Sources where
  /-- `counter_` -/
  counter : Nat := 0
  /-- The linker symbols that the guest sources define, apart from the functions of the bridges. -/
  defined : List String := []
  bridges : List FunctionBridge := []
  /-- The guest copies that the host fills at start-up, by symbol. -/
  filled : List (String × Fill) := []
  passthrough : List String := []
  report : List String := []
  unsupported : Nat := 0
  /-- `exec_emitted_` -/
  execEmitted : List String := []
  /-- `section_helper_emitted` -/
  sectionHelper : Bool := false

namespace Sources

/-- `Report` -/
def say (s : Sources) (line : String) : Sources := { s with report := s.report ++ [line] }

def lacks (s : Sources) (line : String) : Sources :=
  { s.say line with unsupported := s.unsupported + 1 }

def define (s : Sources) (symbol : String) : Sources := { s with defined := s.defined ++ [symbol] }

/-- `Passthrough` -/
def pass (s : Sources) (symbol : String) : Sources :=
  { s with passthrough := s.passthrough ++ [symbol] }

/-- `EmitBridge` of a function: its code is the function `xl_fn_` with the id behind it, and the
symbol of the C name `exported` is set to it. -/
def emitBridge (s : Sources) (exported : String) (bridge : FunctionBridge) : Sources :=
  { s.define ("_" ++ exported) with bridges := s.bridges ++ [bridge] }

def fill (s : Sources) (symbol : String) (fill : Fill) : Sources :=
  { s.define symbol with filled := s.filled ++ [(symbol, fill)] }

/-- Every linker symbol that the guest sources define: besides those above, the functions behind
the bridges. -/
def symbols (s : Sources) : List String :=
  s.defined ++ s.bridges.map fun bridge => "_xl_fn_" ++ bridge.id

end Sources

/-- `symbol.substr(1)` -/
def cName (symbol : String) : String := String.ofList (symbol.toList.drop 1)

/-- `symbol[0] == '_'` -/
def hasCName (symbol : String) : Bool := symbol.toList.head? == some '_'

/-- The C name in front of a `$`, and the whole name where there is one (`variant_alias_`). -/
def splitVariant (name : String) : String × Option String :=
  let base := name.toList.takeWhile (· != '$')
  if base.length < name.toList.length ∧ 0 < base.length then (String.ofList base, some name)
  else (name, none)

section

variable (sdk : Sdk) (weakOnly : List String)

/-- `Fault` -/
def fault (s : Sources) (symbol reason : String) : Sources :=
  if weakOnly.contains symbol then
    s.lacks (symbol ++ ": UNSUPPORTED: " ++ (reason ++ " (weak import, left unbound)"))
  else
    { (s.lacks (symbol ++ ": UNSUPPORTED: " ++ reason)).define symbol with
      counter := s.counter + 1 }

/-- `EmitEmptyCollectionSingleton` -/
def emitEmptyCollectionSingleton (s : Sources) (symbol hostClass : String) : Sources :=
  (s.fill symbol (.created hostClass)).say
    (symbol ++ ": guest-owned empty " ++ hostClass ++ " singleton, created at startup")

/-- `EmitTlvBootstrap` -/
def emitTlvBootstrap (s : Sources) : Sources :=
  let value : ParamValue :=
    .value { kind := .pointer, guest := .pointer (.data true), host := .pointer (.data true) }
  (s.emitBridge "_tlv_bootstrap"
    { id := "tlv_bootstrap"
      signature := { params := [{ value, note := "", name := "a0" }], result := value }
      callee := "", manual := "xl_manual__tlv_bootstrap" }).say
    "__tlv_bootstrap: thread-local storage bootstrap -> xl_manual__tlv_bootstrap"

/-- `EmitTrampoline` -/
def emitTrampoline (s : Sources) (symbol trap : String) : Sources :=
  (s.define ("_" ++ cName symbol)).say
    (symbol ++ ": register-preserving trampoline to " ++ trap)

/-- `EmitManualFunction` -/
def emitManualFunction (s : Sources) (symbol : String) (arguments : Nat) (handler : String) :
    Sources :=
  if (sdk.guestFunction (cName symbol)).map FunctionDecl.params = some arguments then
    (s.define ("_" ++ cName symbol)).say
      (symbol ++ ": manual bridge " ++ handler ++
        " (the runtime keeps the address of the guest slot)")
  else fault weakOnly s symbol "manual bridge has no matching declaration"

/-- `EmitLazyClassNamer` -/
def emitLazyClassNamer (s : Sources) (symbol : String) : Sources :=
  (s.define "_objc_setHook_lazyClassNamer").say
    (symbol ++ ": manual bridge xl_manual_objc_setHook_lazyClassNamer " ++
      "(the runtime keeps the hook and asks it)")

/-- `EmitImageNameHook` -/
def emitImageNameHook (s : Sources) (symbol : String) : Sources :=
  (s.define "_objc_setHook_getImageName").say
    (symbol ++ ": manual bridge xl_manual_objc_setHook_getImageName " ++
      "(class_getImageName asks the hook first)")

/-- The vector form of a call of the exec family, written once. -/
def emitExecVector (s : Sources) (vector : String) : Sources :=
  if s.execEmitted.contains vector then s
  else
    emitManualFunction sdk weakOnly { s with execEmitted := s.execEmitted ++ [vector] } vector
      ((execVectors.lookup vector).getD 0) ("xl_manual_" ++ cName vector)

/-- `EmitExec` -/
def emitExec (s : Sources) (symbol : String) : Sources :=
  match execLists.lookup symbol with
  -- a vector form
  | none => emitExecVector sdk weakOnly s symbol
  | some vector =>
      let s := emitExecVector sdk weakOnly s vector
      if s.execEmitted.contains symbol then s
      else
        ({ s with execEmitted := s.execEmitted ++ [symbol] }.define ("_" ++ cName symbol)).say
          (symbol ++ ": guest-side argument collection, then " ++ vector)

/-! ## Functions -/

/-- What `EmitFunction` makes of a function, or why it cannot. -/
structure FunctionPlan where
  signature : Signatures.Signature
  callee : String
  format : Selectors.Format := {}
  variadicWords : Nat := 0

/-- `FromFunction` -/
def signatureOf (name : String) : Signatures.Signature :=
  Signatures.fromFunction sdk.spell (sdk.functionTypes name).1 (sdk.functionTypes name).2

/-- The variant that takes a `va_list`, where the function has a format; nothing without one. -/
def formatOf (name : String) (g : FunctionDecl) :
    Except String (Option (String × Selectors.Format)) :=
  match g.format with
  | some attr =>
      match formatVariants.lookup name with
      | some variant =>
          if g.variadic then
            .ok (some (variant,
              { present := true, object := attr.object, formatIndex := attr.index - 1 }))
          else readerOf attr
      | none => readerOf attr
  | none =>
      if g.variadic then
        .ok ((unattributedPrintf.lookup name).map fun known =>
          (known.1, { present := true, formatIndex := known.2 }))
      else .ok none
where
  readerOf (attr : FormatAttr) : Except String (Option (String × Selectors.Format)) :=
    if g.variadic = false ∧ valistReaders.contains name ∧ 1 ≤ g.params then
      .ok (some (name,
        { present := true, object := attr.object, formatIndex := attr.index - 1
          vaParam := (g.params : Int) - 1 }))
    else .error "formatted function without a known va_list variant"

def planFunction (name : String) (g : FunctionDecl) : Except String FunctionPlan := do
  let format ← formatOf name g
  let signature := signatureOf sdk name
  match format with
  | some (variant, format) =>
      if signature.supported then .ok { signature, callee := variant, format }
      else .error signature.note
  | none =>
      if g.variadic then
        match fixedVariadic.lookup name with
        | none => .error "variadic function without a format attribute"
        | some words =>
            if signature.supported then
              .ok
                { signature :=
                    { signature with
                      params := signature.params ++ (List.range words).map fun i =>
                        { value := Selectors.rawValue, note := "", name := "v" ++ toString i } }
                  callee := (variadicShims.lookup name).getD name
                  variadicWords := words }
            else .error signature.note
      else if signature.supported then
        .ok { signature, callee := (shimCallee.lookup name).getD name }
      else .error signature.note

/-- The section lookup in the header of a guest image, written once. -/
def emitSectionHelper (s : Sources) : Sources := { s with sectionHelper := true }

/-- A header that is passed as it is. -/
def rawHeader (signature : Signatures.Signature) : Signatures.Signature :=
  { signature with
    params := signature.params.modify 0 fun param =>
      { param with
        note := ""
        value := .value
          { kind := .pointer, guest := .pointer (.data true), host := .pointer (.data true) } } }

/-- The bridge of a function, under its name or under the decorated name of the import. -/
def writeFunction (s : Sources) (name : String) (exported : Option String) (plan : FunctionPlan) :
    Sources :=
  let bridge : FunctionBridge :=
    { id := name, signature := plan.signature, callee := plan.callee, format := plan.format
      variadicWords := plan.variadicWords }
  if plan.variadicWords ≠ 0 then s.emitBridge name bridge
  else if name = "dlsym" then (s.emitBridge "xl_unused_dlsym_alias" bridge).define ("_" ++ name)
  else if name = "getsectiondata" then
    (emitSectionHelper (s.emitBridge "xl_unused_getsectiondata_alias"
      { bridge with signature := rawHeader bridge.signature })).define ("_" ++ name)
  else
    match exported with
    | some exported =>
        s.emitBridge exported
          { bridge with
            id := String.ofList (exported.toList.map fun c => if c == '$' then '_' else c) }
    | none => s.emitBridge name bridge

/-- `EmitFunction` -/
def emitFunction (s : Sources) (symbol name : String) (exported : Option String)
    (g : FunctionDecl) : Sources :=
  if name = "getsectbynamefromheader_64" then
    ((emitSectionHelper s).define ("_" ++ name)).say
      (symbol ++ ": guest-side Mach-O section lookup (64-bit guest header)")
  else
    match planFunction sdk name g with
    -- reported, and a trap unless the import is weak
    | .error reason => fault weakOnly s symbol reason
    | .ok plan => writeFunction s name exported plan

/-! ## Variables -/

/-- `EmitVariable` -/
def emitVariable (s : Sources) (symbol : String) (types : VariableTypes) : Sources :=
  if (SameLayout.sameLayout [] types.guestLayout types.hostLayout).1 then
    (s.pass symbol).say (symbol ++ ": host data with an identical layout")
  else
    let value := classify types.guest types.host
    let value := if types.guest matches .pointer _ then { value with kind := .pointer } else value
    match value.kind with
    | .record =>
        match leaves types.guest types.host "" "" 0 with
        | some (true, _) =>
            (s.fill symbol (.copy value)).say
              (symbol ++ ": guest copy of host data struct, filled at startup")
        -- the walk that dereferences null, which ends the program, is counted here
        | _ => s.lacks (symbol ++ ": UNSUPPORTED: " ++ "data struct with an unconvertible field")
    | .floating =>
        (s.fill symbol (.copy value)).say
          (symbol ++ ": guest copy of host floating data, filled at startup")
    | .integer | .pointer =>
        (s.fill symbol (.copy value)).say (symbol ++ ": guest copy of host data, filled at startup")
    | _ => s.lacks (symbol ++ ": UNSUPPORTED: " ++ "data of a different layout")

/-! ## The loop over the imports -/

/-- What the host's linker answers. -/
def isHostObject (symbol : String) : Bool :=
  "_OBJC_CLASS_$_".toList.isPrefixOf symbol.toList ||
    "_OBJC_METACLASS_$_".toList.isPrefixOf symbol.toList || symbol == "__objc_empty_cache" ||
    symbol == "___CFConstantStringClassReference"

/-- A symbol that the SDK may declare. -/
def emitDeclared (s : Sources) (symbol : String) : Sources :=
  let name := splitVariant (cName symbol)
  match sdk.guestFunction name.1, sdk.hostFunction name.1 with
  | some g, true => emitFunction sdk weakOnly s symbol name.1 name.2 g
  | _, _ =>
      if sdk.guestVariable name.1 && sdk.hostVariable name.1 then
        emitVariable s symbol (sdk.variableTypes name.1)
      else fault weakOnly s symbol "no declaration in the SDK headers"

/-- A symbol that goes by its name. -/
def emitNamed (s : Sources) (symbol : String) : Sources :=
  if execFamily.contains symbol then emitExec sdk weakOnly s symbol
  else match trampolines.lookup symbol with
  | some trap => emitTrampoline s symbol trap
  | none =>
      if symbol = "__tlv_bootstrap" then emitTlvBootstrap s
      else if symbol = "_objc_setHook_lazyClassNamer" then emitLazyClassNamer s symbol
      else if symbol = "_objc_setHook_getImageName" then emitImageNameHook s symbol
      else match weakFunctions.lookup symbol with
      | some arguments =>
          emitManualFunction sdk weakOnly s symbol arguments ("xl_manual_" ++ cName symbol)
      | none =>
          if faults.contains symbol then
            fault weakOnly s symbol
              "exception unwinding across translated code is not implemented"
          else match emptySingletons.lookup symbol with
          | some hostClass => emitEmptyCollectionSingleton s symbol hostClass
          | none =>
              if hasCName symbol then emitDeclared sdk weakOnly s symbol
              else s.say (symbol ++ ": UNSUPPORTED: " ++ "symbol without a C name")

/-- One turn of the loop of `main`. -/
def emitImport (provided : List String) (s : Sources) (symbol : String) : Sources :=
  if provided.contains symbol || symbol == "dyld_stub_binder" then s
  else if isHostObject symbol then s.pass symbol
  else emitNamed sdk weakOnly s symbol

/-- The loop of `main` over the imports. -/
def emitImports (provided imports : List String) (s : Sources) : Sources :=
  imports.foldl (emitImport sdk weakOnly provided) s

end

/-! ## Names -/

section

variable {symbol : String}

theorem underscore_cName (h : hasCName symbol = true) : "_" ++ cName symbol = symbol := by
  rw [hasCName, beq_iff_eq] at h
  obtain ⟨rest, hrest⟩ := List.head?_eq_some_iff.mp h
  rw [← String.toList_inj]
  simp [cName, hrest]

theorem mem_keys_of_lookup {β : Type} {table : List (String × β)} {name : String}
    (h : (table.lookup name).isSome) : name ∈ table.map Prod.fst := by
  obtain ⟨value, hvalue⟩ := Option.isSome_iff_exists.mp h
  obtain ⟨front, back, rfl, -⟩ := List.lookup_eq_some_iff.mp hvalue
  simp

theorem hasCName_of_mem {β : Type} {table : List (String × β)} {value : β}
    (htable : (table.map Prod.fst).all hasCName = true) (h : table.lookup symbol = some value) :
    hasCName symbol = true :=
  List.all_eq_true.mp htable symbol (mem_keys_of_lookup (h ▸ rfl))

end

theorem splitVariant_cases (name : String) :
    splitVariant name = (name, none) ∨ ∃ base, splitVariant name = (base, some name) := by
  simp only [splitVariant]
  split
  next => exact .inr ⟨_, rfl⟩
  next => exact .inl rfl

/-- The functions whose bridge has the plain name, also where the import has a decorated one. -/
def plainOnly : List String :=
  ["getsectbynamefromheader_64", "open", "fcntl", "ioctl", "openat", "dlsym", "getsectiondata"]

/-- A decorated name of a function whose bridge has the plain one. -/
def decorated (symbol : String) : Bool :=
  (splitVariant (cName symbol)).2.isSome && plainOnly.contains (splitVariant (cName symbol)).1

/-- The id of an import's bridge: its C name, without the dollars where it is a decorated one. -/
def bridgeId (symbol : String) : String :=
  if symbol = "__tlv_bootstrap" then "tlv_bootstrap"
  else
    match (splitVariant (cName symbol)).2 with
    | some exported => String.ofList (exported.toList.map fun c => if c == '$' then '_' else c)
    | none => cName symbol

/-- A name of the translator's own. -/
def isReserved (symbol : String) : Bool := "_xl_".toList.isPrefixOf symbol.toList

/-- Only the four functions that are called with a fixed number of words have words behind their
parameters. -/
theorem words_planFunction {sdk : Sdk} {name : String} {g : FunctionDecl} {plan : FunctionPlan}
    (h : planFunction sdk name g = .ok plan) (hwords : plan.variadicWords ≠ 0) :
    (fixedVariadic.lookup name).isSome := by
  unfold planFunction at h
  cases hformat : formatOf name g with
  | error reason => simp [hformat, bind, Except.bind] at h
  | ok format =>
      simp only [hformat, bind, Except.bind] at h
      split at h
      next =>
        split at h
        next => exact absurd (by rw [← Except.ok.inj h]) hwords
        next => exact absurd h (by simp)
      next =>
        split at h
        next =>
          split at h
          next => exact absurd h (by simp)
          next words hlookup => rw [hlookup]; rfl
        next =>
          split at h
          next => exact absurd (by rw [← Except.ok.inj h]) hwords
          next => exact absurd h (by simp)

theorem mem_plainOnly_of_words {sdk : Sdk} {name : String} {g : FunctionDecl} {plan : FunctionPlan}
    (h : planFunction sdk name g = .ok plan) (hwords : plan.variadicWords ≠ 0) :
    name ∈ plainOnly := by
  have hkeys : fixedVariadic.map Prod.fst ⊆ plainOnly := by decide
  exact hkeys (mem_keys_of_lookup (words_planFunction h hwords))

end Symbols

end Katabasis
