import Katabasis.Lib.Runs
import Katabasis.Xlate.Resolved
import Katabasis.Xlgen.Imports

set_option autoImplicit false

/-! # Every import is settled, and defined once

Of a loop over the imports (`emitImports`) two things are promised. Each import that the guest
images do not answer has a definition, or goes to the host's linker, or stands in the report with
the reason (`import_settled`); and no symbol is defined twice (`defined_nodup`), among them the functions
`xl_fn_…` behind the bridges. Both rest on one case analysis of a turn (`Turn`, and `ExecTurn` for
the calls of the exec family, which write one another).

With what the second pass of `xlate` does with the library that is built from the sources, the
guest's strong calls have a place to go (`strict_pass_succeeds`).
-/

namespace Katabasis

namespace Symbols

/-! ## What one turn does to an import -/

/-- A definition that stands beside that of the import. -/
def beside (symbol : String) : List String :=
  if symbol = "_dlsym" then ["_xl_unused_dlsym_alias"]
  else if symbol = "_getsectiondata" then ["_xl_unused_getsectiondata_alias"]
  else []

section

variable (sdk : Sdk) (weakOnly : List String)

/-- A variable of the SDK on both sides. -/
def isVariable (symbol : String) : Bool :=
  sdk.guestVariable (splitVariant (cName symbol)).1 &&
    sdk.hostVariable (splitVariant (cName symbol)).1

/-- A variable of the SDK whose two types have one layout. -/
def isSharedVariable (symbol : String) : Bool :=
  isVariable sdk symbol &&
    (SameLayout.sameLayout [] (sdk.variableTypes (splitVariant (cName symbol)).1).guestLayout
      (sdk.variableTypes (splitVariant (cName symbol)).1).hostLayout).1

/-- The imports that may be left to the host's linker. -/
def mayPass (symbol : String) : Bool := isHostObject symbol || isSharedVariable sdk symbol

/-- The imports that may be left without a definition: those that every image imports weakly, those
that have no C name, and variables. -/
def mayStayOpen (symbol : String) : Bool :=
  weakOnly.contains symbol || !hasCName symbol || isVariable sdk symbol

/-- The report says why there is nothing for the import. -/
def Reported (s : Sources) (symbol : String) : Prop :=
  ∃ reason, symbol ++ ": UNSUPPORTED: " ++ reason ∈ s.report

/-- An import with a definition, one left to the host's linker, or one that the report names. -/
def Settled (s : Sources) (symbol : String) : Prop :=
  symbol ∈ s.defined ∨ symbol ∈ s.passthrough ∧ mayPass sdk symbol = true ∨
    Reported s symbol ∧ mayStayOpen sdk weakOnly symbol = true

/-- What a turn keeps. -/
structure Grows (s s' : Sources) : Prop where
  defined : s.defined ⊆ s'.defined
  passthrough : s.passthrough ⊆ s'.passthrough
  report : s.report ⊆ s'.report
  execEmitted : s.execEmitted ⊆ s'.execEmitted

/-- What a turn for an import that is not of the exec family does: it defines nothing but the import
and what stands beside it, and the import is settled. -/
structure Turn (s s' : Sources) (symbol : String) : Prop where
  passthrough : s.passthrough ⊆ s'.passthrough
  report : s.report ⊆ s'.report
  execEmitted : s'.execEmitted = s.execEmitted
  outcome :
    (∃ helpers, helpers.Sublist (beside symbol) ∧ s'.defined = s.defined ++ (helpers ++ [symbol])) ∨
      s'.defined = s.defined ∧
        (symbol ∈ s'.passthrough ∧ mayPass sdk symbol = true ∨
          Reported s' symbol ∧ mayStayOpen sdk weakOnly symbol = true)

end

variable {sdk : Sdk} {weakOnly : List String} {s s' t : Sources} {symbol : String}

namespace Grows

theorem refl (s : Sources) : Grows s s :=
  ⟨List.Subset.refl _, List.Subset.refl _, List.Subset.refl _, List.Subset.refl _⟩

theorem trans (h : Grows s t) (h' : Grows t s') : Grows s s' :=
  ⟨List.Subset.trans h.defined h'.defined, List.Subset.trans h.passthrough h'.passthrough,
    List.Subset.trans h.report h'.report, List.Subset.trans h.execEmitted h'.execEmitted⟩

theorem reported (h : Grows s s') (hreported : Reported s symbol) : Reported s' symbol :=
  hreported.imp fun _ hline => h.report hline

theorem settled (h : Grows s s') (hsettled : Settled sdk weakOnly s symbol) :
    Settled sdk weakOnly s' symbol :=
  hsettled.imp (fun hdefined => h.defined hdefined)
    (.imp (.imp_left fun hpassed => h.passthrough hpassed) (.imp_left h.reported))

end Grows

namespace Turn

theorem grows (h : Turn sdk weakOnly s s' symbol) : Grows s s' := by
  refine ⟨?_, h.passthrough, h.report, h.execEmitted ▸ List.Subset.refl _⟩
  rcases h.outcome with ⟨helpers, -, hdefined⟩ | ⟨hdefined, -⟩
  · exact hdefined ▸ List.subset_append_left _ _
  · exact hdefined ▸ List.Subset.refl _

theorem settled (h : Turn sdk weakOnly s s' symbol) : Settled sdk weakOnly s' symbol := by
  rcases h.outcome with ⟨helpers, -, hdefined⟩ | ⟨-, hopen⟩
  · exact .inl (by simp [hdefined])
  · exact .inr hopen

/-- Only a line of the report is left to write. -/
theorem say (h : Turn sdk weakOnly s s' symbol) (line : String) :
    Turn sdk weakOnly s (s'.say line) symbol where
  passthrough := h.passthrough
  report := List.Subset.trans h.report (List.subset_append_left _ _)
  execEmitted := h.execEmitted
  outcome :=
    h.outcome.imp id (.imp id (.imp id (.imp_left fun hreported =>
      hreported.imp fun _ hline => List.mem_append_left _ hline)))

end Turn

/-- The import gets its definition. -/
theorem turn_define {helpers : List String} (hhelpers : helpers.Sublist (beside symbol))
    (hpassthrough : s'.passthrough = s.passthrough) (hreport : s'.report = s.report)
    (hexec : s'.execEmitted = s.execEmitted)
    (hdefined : s'.defined = s.defined ++ (helpers ++ [symbol])) :
    Turn sdk weakOnly s s' symbol where
  passthrough := hpassthrough ▸ List.Subset.refl _
  report := hreport ▸ List.Subset.refl _
  execEmitted := hexec
  outcome := .inl ⟨helpers, hhelpers, hdefined⟩

theorem turn_define_alone (s : Sources) (symbol : String) :
    Turn sdk weakOnly s (s.define symbol) symbol :=
  turn_define (List.nil_sublist _) rfl rfl rfl rfl

theorem turn_fill (s : Sources) (symbol : String) (fill : Fill) :
    Turn sdk weakOnly s (s.fill symbol fill) symbol :=
  turn_define (List.nil_sublist _) rfl rfl rfl rfl

theorem turn_pass (hpass : mayPass sdk symbol = true) (s : Sources) :
    Turn sdk weakOnly s (s.pass symbol) symbol where
  passthrough := List.subset_append_left _ _
  report := List.Subset.refl _
  execEmitted := rfl
  outcome := .inr ⟨rfl, .inl ⟨List.mem_append_right _ (List.mem_singleton_self _), hpass⟩⟩

/-- Only the report speaks of the import. -/
theorem turn_report {reason : String} (hopen : mayStayOpen sdk weakOnly symbol = true)
    (hdefined : s'.defined = s.defined) (hpassthrough : s'.passthrough = s.passthrough)
    (hexec : s'.execEmitted = s.execEmitted)
    (hreport : s'.report = s.report ++ [symbol ++ ": UNSUPPORTED: " ++ reason]) :
    Turn sdk weakOnly s s' symbol where
  passthrough := hpassthrough ▸ List.Subset.refl _
  report := hreport ▸ List.subset_append_left _ _
  execEmitted := hexec
  outcome := .inr ⟨hdefined, .inr ⟨⟨reason, by simp [hreport]⟩, hopen⟩⟩

/-- A fault is a trap, or the import is weak. -/
theorem turn_fault (s : Sources) (symbol reason : String) :
    Turn sdk weakOnly s (fault weakOnly s symbol reason) symbol := by
  unfold fault
  split
  next hweak =>
    have hopen : mayStayOpen sdk weakOnly symbol = true := by
      simp only [mayStayOpen, hweak, Bool.true_or]
    exact turn_report hopen rfl rfl rfl rfl
  next =>
    -- the trap is the import's definition
    refine ⟨List.Subset.refl _, List.subset_append_left _ _, rfl, .inl ⟨[], ?_, rfl⟩⟩
    exact List.nil_sublist _

/-! ### The C name -/

theorem turn_define_cName (hname : hasCName symbol = true) (s : Sources) :
    Turn sdk weakOnly s (s.define ("_" ++ cName symbol)) symbol := by
  rw [underscore_cName hname]
  exact turn_define_alone s symbol

theorem turn_emitManualFunction (hname : hasCName symbol = true) (s : Sources) (arguments : Nat)
    (handler : String) :
    Turn sdk weakOnly s (emitManualFunction sdk weakOnly s symbol arguments handler) symbol := by
  unfold emitManualFunction
  split
  next => exact (turn_define_cName hname s).say _
  next => exact turn_fault s symbol _

/-! ### Functions -/

theorem turn_emitBridge {exported : String} (hcode : "_" ++ exported = symbol) (s : Sources)
    (bridge : FunctionBridge) :
    Turn sdk weakOnly s (s.emitBridge exported bridge) symbol :=
  turn_define (List.nil_sublist _) rfl rfl rfl (by rw [← hcode]; rfl)

/-- A function under its own name. -/
theorem turn_writeFunction_plain {name : String} {plan : FunctionPlan}
    (hcode : "_" ++ name = symbol) (s : Sources) :
    Turn sdk weakOnly s (writeFunction s name none plan) symbol := by
  simp only [writeFunction]
  split
  next => exact turn_emitBridge hcode s _
  next =>
    split
    next hdlsym =>
      -- the bridge has the helper's name, and the guest code around it the import's
      have hbeside : ["_xl_unused_dlsym_alias"].Sublist (beside symbol) := by
        rw [← hcode, hdlsym]
        exact List.Sublist.refl _
      exact turn_define hbeside rfl rfl rfl (by rw [← hcode]; exact List.append_assoc _ _ _)
    next =>
      split
      next hsection =>
        have hbeside : ["_xl_unused_getsectiondata_alias"].Sublist (beside symbol) := by
          rw [← hcode, hsection]
          exact List.Sublist.refl _
        exact turn_define hbeside rfl rfl rfl (by rw [← hcode]; exact List.append_assoc _ _ _)
      next => exact turn_emitBridge hcode s _

/-- A function whose import has a decorated name. -/
theorem turn_writeFunction_decorated {name exported : String} {plan : FunctionPlan}
    (hcode : "_" ++ exported = symbol) (hwords : plan.variadicWords = 0) (hname : name ∉ plainOnly)
    (s : Sources) :
    Turn sdk weakOnly s (writeFunction s name (some exported) plan) symbol := by
  have hdlsym : name ≠ "dlsym" := fun h => hname (by simp [h, plainOnly])
  have hsection : name ≠ "getsectiondata" := fun h => hname (by simp [h, plainOnly])
  simp only [writeFunction, hwords, ne_eq, not_true_eq_false, if_false, hdlsym, hsection]
  exact turn_emitBridge hcode s _

theorem turn_emitFunction (hname : hasCName symbol = true) (hplain : decorated symbol = false)
    (s : Sources) (g : FunctionDecl) :
    Turn sdk weakOnly s
      (emitFunction sdk weakOnly s symbol (splitVariant (cName symbol)).1
        (splitVariant (cName symbol)).2 g) symbol := by
  have hcode := underscore_cName hname
  unfold emitFunction
  rcases splitVariant_cases (cName symbol) with hsplit | ⟨base, hsplit⟩
  · -- the plain name
    simp only [hsplit]
    split
    next =>
      refine Turn.say ?_ _
      exact turn_define (List.nil_sublist _) rfl rfl rfl (by rw [hcode]; rfl)
    next =>
      split
      next reason _ => exact turn_fault s symbol reason
      next => exact turn_writeFunction_plain hcode s
  · -- a decorated name, of a function that is bridged under it
    have hbase : base ∉ plainOnly := by
      simpa [decorated, hsplit] using hplain
    simp only [hsplit]
    split
    next hsection => exact absurd (by simp [hsection, plainOnly]) hbase
    next =>
      split
      next reason _ => exact turn_fault s symbol reason
      next plan hplan =>
        have hwords : plan.variadicWords = 0 := by
          by_contra hne
          exact hbase (mem_plainOnly_of_words hplan hne)
        exact turn_writeFunction_decorated hcode hwords hbase s

/-! ### Variables and names -/

theorem turn_emitVariable (hvariable : isVariable sdk symbol = true) (s : Sources) :
    Turn sdk weakOnly s
      (emitVariable s symbol (sdk.variableTypes (splitVariant (cName symbol)).1)) symbol := by
  have hopen : mayStayOpen sdk weakOnly symbol = true := by
    simp only [mayStayOpen, hvariable, Bool.or_true]
  simp only [emitVariable]
  split
  next hlayout =>
    have hpass : mayPass sdk symbol = true := by
      simp only [mayPass, isSharedVariable, hvariable, hlayout, Bool.and_self, Bool.or_true]
    exact (turn_pass hpass s).say _
  next =>
    split
    next =>
      split
      next => exact (turn_fill s symbol _).say _
      next => exact turn_report hopen rfl rfl rfl rfl
    next => exact (turn_fill s symbol _).say _
    next => exact (turn_fill s symbol _).say _
    next => exact (turn_fill s symbol _).say _
    next => exact turn_report hopen rfl rfl rfl rfl

theorem turn_emitDeclared (hname : hasCName symbol = true) (hplain : decorated symbol = false)
    (s : Sources) : Turn sdk weakOnly s (emitDeclared sdk weakOnly s symbol) symbol := by
  simp only [emitDeclared]
  split
  next g _ _ => exact turn_emitFunction hname hplain s g
  next =>
    split
    next hvariable => exact turn_emitVariable hvariable s
    next => exact turn_fault s symbol _

/-- A symbol that goes by its name alone, or one that the SDK may declare. -/
theorem turn_or_declared (hexec : symbol ∉ execFamily) (s : Sources) :
    Turn sdk weakOnly s (emitNamed sdk weakOnly s symbol) symbol ∨
      hasCName symbol = true ∧
        emitNamed sdk weakOnly s symbol = emitDeclared sdk weakOnly s symbol := by
  unfold emitNamed
  split
  next h => exact absurd (List.contains_iff_mem.mp h) hexec
  next =>
    split
    next trap htrap =>
      exact .inl ((turn_define_cName (hasCName_of_mem (by decide) htrap) s).say _)
    next =>
      split
      next htlv =>
        refine .inl (Turn.say ?_ _)
        rw [htlv]
        exact turn_emitBridge (by decide) s _
      next =>
        split
        next hhook => rw [hhook]; exact .inl ((turn_define_alone s _).say _)
        next =>
          split
          next hhook => rw [hhook]; exact .inl ((turn_define_alone s _).say _)
          next =>
            split
            next arguments hweak =>
              exact .inl (turn_emitManualFunction (hasCName_of_mem (by decide) hweak) s _ _)
            next =>
              split
              next => exact .inl (turn_fault s symbol _)
              next =>
                split
                next => exact .inl ((turn_fill s symbol _).say _)
                next =>
                  split
                  next hname => exact .inr ⟨hname, rfl⟩
                  next hname =>
                    exact .inl (turn_report (by simp [mayStayOpen, hname]) rfl rfl rfl rfl)

/-- **One turn** for a symbol that goes by its name. -/
theorem turn_emitNamed (hexec : symbol ∉ execFamily) (hplain : decorated symbol = false)
    (s : Sources) : Turn sdk weakOnly s (emitNamed sdk weakOnly s symbol) symbol := by
  -- the decoration matters only where the SDK is asked
  rcases turn_or_declared hexec s with hturn | ⟨hname, heq⟩
  · exact hturn
  · rw [heq]
    exact turn_emitDeclared hname hplain s

/-! ### The exec family -/

/-- What the calls of the exec family that are written so far have come to. -/
def ExecSettled (sdk : Sdk) (weakOnly : List String) (s : Sources) : Prop :=
  ∀ call ∈ s.execEmitted, Settled sdk weakOnly s call

/-- What a turn for an import of the exec family does: each call is written once. -/
structure ExecTurn (sdk : Sdk) (weakOnly : List String) (s s' : Sources) : Prop where
  grows : Grows s s'
  settled : ExecSettled sdk weakOnly s → ExecSettled sdk weakOnly s'
  outcome : ∃ calls : List String, calls.Nodup ∧
    (∀ call ∈ calls, call ∈ execFamily ∧ call ∉ s.execEmitted ∧ call ∈ s'.execEmitted) ∧
    s'.defined = s.defined ++ calls

namespace ExecTurn

theorem refl (s : Sources) : ExecTurn sdk weakOnly s s :=
  ⟨.refl s, id, [], List.nodup_nil, by simp, by simp⟩

theorem trans (h : ExecTurn sdk weakOnly s t) (h' : ExecTurn sdk weakOnly t s') :
    ExecTurn sdk weakOnly s s' := by
  refine ⟨h.grows.trans h'.grows, h'.settled ∘ h.settled, ?_⟩
  obtain ⟨first, hfirst, hfresh, hdefined⟩ := h.outcome
  obtain ⟨second, hsecond, hfresh', hdefined'⟩ := h'.outcome
  refine ⟨first ++ second, ?_, ?_, by rw [hdefined', hdefined, List.append_assoc]⟩
  · rw [List.nodup_append']
    refine ⟨hfirst, hsecond, fun call hmem hmem' => ?_⟩
    exact (hfresh' call hmem').2.1 (hfresh call hmem).2.2
  · intro call hmem
    rcases List.mem_append.mp hmem with hmem | hmem
    · obtain ⟨hfamily, hnew, hwritten⟩ := hfresh call hmem
      exact ⟨hfamily, hnew, h'.grows.execEmitted hwritten⟩
    · obtain ⟨hfamily, hnew, hwritten⟩ := hfresh' call hmem
      exact ⟨hfamily, fun hold => hnew (h.grows.execEmitted hold), hwritten⟩

/-- One call of the family, noted before it is written. -/
theorem of_turn {call : String} (hfamily : call ∈ execFamily) (hnew : call ∉ s.execEmitted)
    (h : Turn sdk weakOnly { s with execEmitted := s.execEmitted ++ [call] } s' call) :
    ExecTurn sdk weakOnly s s' := by
  have hnoted : s'.execEmitted = s.execEmitted ++ [call] := h.execEmitted
  have hgrows : Grows s s' :=
    ⟨h.grows.defined, h.passthrough, h.report, hnoted ▸ List.subset_append_left _ _⟩
  refine ⟨hgrows, fun hsettled other hmem => ?_, ?_⟩
  · rw [hnoted, List.mem_append, List.mem_singleton] at hmem
    rcases hmem with hmem | rfl
    · exact hgrows.settled (hsettled other hmem)
    · exact h.settled
  · rcases h.outcome with ⟨helpers, hhelpers, hdefined⟩ | ⟨hdefined, -⟩
    · -- nothing stands beside a call of the family
      have hnone : ∀ call ∈ execFamily, beside call = [] := by decide
      rw [hnone call hfamily, List.sublist_nil] at hhelpers
      subst hhelpers
      refine ⟨[call], List.nodup_singleton _, fun other hmem => ?_, hdefined⟩
      rw [List.mem_singleton.mp hmem, hnoted]
      exact ⟨hfamily, hnew, List.mem_append_right _ (List.mem_singleton_self _)⟩
    · exact ⟨[], List.nodup_nil, by simp, by simp [hdefined]⟩

end ExecTurn

theorem hasCName_exec {call : String} (hfamily : call ∈ execFamily) : hasCName call = true := by
  have hall : ∀ call ∈ execFamily, hasCName call = true := by decide
  exact hall call hfamily

theorem execTurn_emitExecVector {vector : String} (hvector : vector ∈ execFamily) (s : Sources) :
    ExecTurn sdk weakOnly s (emitExecVector sdk weakOnly s vector) ∧
      vector ∈ (emitExecVector sdk weakOnly s vector).execEmitted := by
  unfold emitExecVector
  split
  next h => exact ⟨.refl s, List.contains_iff_mem.mp h⟩
  next h =>
    have hturn : Turn sdk weakOnly { s with execEmitted := s.execEmitted ++ [vector] } _ vector :=
      turn_emitManualFunction (hasCName_exec hvector) _ ((execVectors.lookup vector).getD 0)
        ("xl_manual_" ++ cName vector)
    refine ⟨.of_turn hvector (fun hmem => h (List.contains_iff_mem.mpr hmem)) hturn, ?_⟩
    rw [hturn.execEmitted]
    exact List.mem_append_right _ (List.mem_singleton_self _)

/-- **One turn** for a call of the exec family. -/
theorem execTurn_emitExec (hsymbol : symbol ∈ execFamily) (s : Sources) :
    ExecTurn sdk weakOnly s (emitExec sdk weakOnly s symbol) ∧
      symbol ∈ (emitExec sdk weakOnly s symbol).execEmitted := by
  unfold emitExec
  split
  next => exact execTurn_emitExecVector hsymbol s
  next vector hlist =>
    have hvectors : execLists.map Prod.snd ⊆ execFamily := by decide
    obtain ⟨front, back, htable, -⟩ := List.lookup_eq_some_iff.mp hlist
    have hfamily : vector ∈ execFamily := hvectors (by simp [htable])
    -- the vector form comes first, then the list form that calls it
    have hfirst : ExecTurn sdk weakOnly s _ := (execTurn_emitExecVector hfamily s).1
    simp only
    split
    next h => exact ⟨hfirst, List.contains_iff_mem.mp h⟩
    next h =>
      have hturn : Turn sdk weakOnly _ _ symbol :=
        (turn_define_cName (hasCName_exec hsymbol)
          { emitExecVector sdk weakOnly s vector with
            execEmitted := (emitExecVector sdk weakOnly s vector).execEmitted ++ [symbol] }).say
          (symbol ++ ": guest-side argument collection, then " ++ vector)
      refine ⟨hfirst.trans (.of_turn hsymbol (fun hmem => h (List.contains_iff_mem.mpr hmem))
        hturn), ?_⟩
      rw [hturn.execEmitted]
      exact List.mem_append_right _ (List.mem_singleton_self _)

/-! ## The whole loop -/

/-- Whatever name the import has, the bridge of a function only adds definitions. -/
theorem writeFunction_keeps (s : Sources) (name : String) (exported : Option String)
    (plan : FunctionPlan) :
    s.defined ⊆ (writeFunction s name exported plan).defined ∧
      (writeFunction s name exported plan).passthrough = s.passthrough ∧
      (writeFunction s name exported plan).report = s.report ∧
      (writeFunction s name exported plan).execEmitted = s.execEmitted := by
  have hone : ∀ symbol, s.defined ⊆ s.defined ++ [symbol] := fun _ => List.subset_append_left _ _
  have htwo : ∀ helper symbol, s.defined ⊆ s.defined ++ [helper] ++ [symbol] := fun _ _ =>
    List.Subset.trans (List.subset_append_left _ _) (List.subset_append_left _ _)
  simp only [writeFunction]
  split
  next => exact ⟨hone _, rfl, rfl, rfl⟩
  next =>
    split
    next => exact ⟨htwo _ _, rfl, rfl, rfl⟩
    next =>
      split
      next => exact ⟨htwo _ _, rfl, rfl, rfl⟩
      next => split <;> exact ⟨hone _, rfl, rfl, rfl⟩

/-- What no turn undoes, for whatever import. -/
structure Keeps (sdk : Sdk) (weakOnly : List String) (s s' : Sources) : Prop where
  grows : Grows s s'
  settled : ExecSettled sdk weakOnly s → ExecSettled sdk weakOnly s'

theorem Keeps.refl (s : Sources) : Keeps sdk weakOnly s s := ⟨.refl s, id⟩

/-- Away from the exec family nothing is noted. -/
theorem Keeps.of_execEmitted (h : Grows s s') (hexec : s'.execEmitted = s.execEmitted) :
    Keeps sdk weakOnly s s' :=
  ⟨h, fun hsettled call hmem => h.settled (hsettled call (hexec ▸ hmem))⟩

theorem Turn.keeps (h : Turn sdk weakOnly s s' symbol) : Keeps sdk weakOnly s s' :=
  .of_execEmitted h.grows h.execEmitted

theorem keeps_emitFunction (s : Sources) (symbol name : String) (exported : Option String)
    (g : FunctionDecl) :
    Keeps sdk weakOnly s (emitFunction sdk weakOnly s symbol name exported g) := by
  unfold emitFunction
  split
  next =>
    refine .of_execEmitted ⟨List.subset_append_left _ _, List.Subset.refl _,
      List.subset_append_left _ _, List.Subset.refl _⟩ rfl
  next =>
    split
    next reason _ =>
      have hturn : Turn sdk weakOnly s _ symbol := turn_fault s symbol reason
      exact hturn.keeps
    next plan _ =>
      obtain ⟨hdefined, hpassthrough, hreport, hexec⟩ := writeFunction_keeps s name exported plan
      exact .of_execEmitted ⟨hdefined, hpassthrough ▸ List.Subset.refl _,
        hreport ▸ List.Subset.refl _, hexec ▸ List.Subset.refl _⟩ hexec

theorem keeps_emitDeclared (s : Sources) (symbol : String) :
    Keeps sdk weakOnly s (emitDeclared sdk weakOnly s symbol) := by
  simp only [emitDeclared]
  split
  next g _ _ => exact keeps_emitFunction s symbol _ _ g
  next =>
    split
    next hvariable =>
      have hturn : Turn sdk weakOnly s _ symbol :=
        turn_emitVariable hvariable s
      exact hturn.keeps
    next =>
      have hturn : Turn sdk weakOnly s _ symbol :=
        turn_fault s symbol "no declaration in the SDK headers"
      exact hturn.keeps

theorem emitNamed_exec (h : symbol ∈ execFamily) (s : Sources) :
    emitNamed sdk weakOnly s symbol = emitExec sdk weakOnly s symbol := by
  rw [emitNamed, if_pos (List.contains_iff_mem.mpr h)]

theorem keeps_emitNamed (s : Sources) (symbol : String) :
    Keeps sdk weakOnly s (emitNamed sdk weakOnly s symbol) := by
  by_cases hexec : symbol ∈ execFamily
  · rw [emitNamed_exec hexec]
    obtain ⟨hgrows, hsettled, -⟩ := (execTurn_emitExec hexec s : ExecTurn sdk weakOnly s _ ∧ _).1
    exact ⟨hgrows, hsettled⟩
  · rcases turn_or_declared hexec s with hturn | ⟨-, heq⟩
    · exact hturn.keeps
    · rw [heq]
      exact keeps_emitDeclared s symbol

theorem settled_emitNamed (hplain : decorated symbol = false)
    (hsettled : ExecSettled sdk weakOnly s) :
    Settled sdk weakOnly (emitNamed sdk weakOnly s symbol) symbol := by
  by_cases hexec : symbol ∈ execFamily
  · rw [emitNamed_exec hexec]
    obtain ⟨hturn, hmem⟩ := execTurn_emitExec hexec s
    exact hturn.settled hsettled symbol hmem
  · exact (turn_emitNamed hexec hplain s).settled

variable {provided imports : List String}

theorem mayPass_of_object (hobject : isHostObject symbol = true) : mayPass sdk symbol = true := by
  rw [mayPass, hobject, Bool.true_or]

theorem keeps_emitImport (s : Sources) (symbol : String) :
    Keeps sdk weakOnly s (emitImport sdk weakOnly provided s symbol) := by
  unfold emitImport
  split
  next => exact .refl s
  next =>
    split
    next hobject =>
      have hturn : Turn sdk weakOnly s _ symbol := turn_pass (mayPass_of_object hobject) s
      exact hturn.keeps
    next => exact keeps_emitNamed s symbol

theorem settled_emitImport (hprovided : symbol ∉ provided) (hbinder : symbol ≠ "dyld_stub_binder")
    (hplain : decorated symbol = false) (hsettled : ExecSettled sdk weakOnly s) :
    Settled sdk weakOnly (emitImport sdk weakOnly provided s symbol) symbol := by
  unfold emitImport
  split
  next h => simp [hprovided, hbinder] at h
  next =>
    split
    next hobject => exact (turn_pass (mayPass_of_object hobject) s).settled
    next => exact settled_emitNamed hplain hsettled

/-- **A run of the loop** settles each of its imports, and no later turn undoes it. -/
theorem settled_emitImports (hsymbol : symbol ∈ imports) (hprovided : symbol ∉ provided)
    (hbinder : symbol ≠ "dyld_stub_binder") (hplain : decorated symbol = false)
    (hexec : ExecSettled sdk weakOnly s) :
    Settled sdk weakOnly (emitImports sdk weakOnly provided imports s) symbol :=
  Runs.run_does (ExecSettled sdk weakOnly) (fun s => Settled sdk weakOnly s symbol) hsymbol
    (fun s other => (keeps_emitImport s other).settled)
    (fun _ hexec => settled_emitImport hprovided hbinder hplain hexec)
    (fun s other => (keeps_emitImport s other).grows.settled) hexec

theorem execSettled_start : ExecSettled sdk weakOnly {} := fun _ hmem =>
  absurd hmem List.not_mem_nil

/-- An SDK with functions of one parameter and no variable. -/
def functionSdk (names : List String) (variadic : Bool) : Sdk where
  guestFunction name := if names.contains name then some { params := 1, variadic } else none
  hostFunction name := names.contains name
  functionTypes _ := ([], .void)
  variableTypes _ :=
    { guestLayout := .void, hostLayout := .void, guest := .other 0, host := .other 0 }
  spell _ := ""

/-- **Every import comes to something.** Whatever the guest images import and do not answer
themselves is defined in the guest sources, is left to the host's linker (its own classes, and
variables of one layout), or is named in the report with its reason; the last only where it has no
C name, is a variable, or is imported weakly by all of them. The decorated names of a few functions
are the exception: their bridge goes by the plain name. -/
theorem import_settled (sdk : Sdk) (weakOnly provided imports : List String)
    (hsymbol : symbol ∈ imports) (hprovided : symbol ∉ provided)
    (hbinder : symbol ≠ "dyld_stub_binder") (hplain : decorated symbol = false) :
    Settled sdk weakOnly (emitImports sdk weakOnly provided imports {}) symbol :=
  settled_emitImports hsymbol hprovided hbinder hplain execSettled_start

theorem import_settled_execl :
    Settled (functionSdk ["puts"] false) [] (emitImports (functionSdk ["puts"] false) [] ["_main"]
      ["_execl", "_main", "_puts"] {}) "_execl" :=
  import_settled _ [] ["_main"] ["_execl", "_main", "_puts"] (by decide) (by decide) (by decide)
    (by decide)

/-- The decorated name of a function that is called with a fixed number of words gets nothing. -/
example : (emitImports (functionSdk ["open"] true) [] [] ["_open$NOCANCEL"] {}).defined =
    ["_open"] := by decide

/-! ## No definition twice -/

/-- The definitions that stand beside imports. -/
def helperSymbols : List String := ["_xl_unused_dlsym_alias", "_xl_unused_getsectiondata_alias"]

theorem mem_beside {helper : String} :
    helper ∈ beside symbol ↔ symbol = "_dlsym" ∧ helper = "_xl_unused_dlsym_alias" ∨
      symbol = "_getsectiondata" ∧ helper = "_xl_unused_getsectiondata_alias" := by
  unfold beside
  split
  next h => simp [h]
  next h =>
    split
    next h' => simp [h']
    next h' => simp [h, h']

theorem beside_subset (symbol : String) : beside symbol ⊆ helperSymbols := by
  intro helper hmem
  rcases mem_beside.mp hmem with ⟨-, rfl⟩ | ⟨-, rfl⟩ <;> decide

theorem helper_not_exec {helper : String} (h : helper ∈ helperSymbols) : helper ∉ execFamily := by
  have hall : ∀ helper ∈ helperSymbols, helper ∉ execFamily := by decide
  exact hall helper h

theorem nodup_beside (symbol : String) : (beside symbol).Nodup := by
  unfold beside
  split
  next => exact List.nodup_singleton _
  next => split <;> simp

theorem beside_injective {helper first second : String} (h : helper ∈ beside first)
    (h' : helper ∈ beside second) : first = second := by
  rcases mem_beside.mp h with ⟨rfl, rfl⟩ | ⟨rfl, rfl⟩ <;>
    rcases mem_beside.mp h' with ⟨rfl, h'⟩ | ⟨rfl, h'⟩ <;>
    first | rfl | exact absurd h' (by decide)

/-- After the turns of the imports `past`: what is defined is an import of these, stands beside one,
or is a call of the exec family that has been noted. -/
structure Once (past : List String) (s : Sources) : Prop where
  nodup : s.defined.Nodup
  exec : ∀ symbol ∈ s.defined, symbol ∈ execFamily → symbol ∈ s.execEmitted
  owned : ∀ symbol ∈ s.defined, symbol ∉ execFamily →
    symbol ∈ past ∨ ∃ owner ∈ past, symbol ∈ beside owner

namespace Once

variable {past : List String}

theorem grow (h : Once past s) (symbol : String) : Once (past ++ [symbol]) s :=
  ⟨h.nodup, h.exec, fun defined hmem hexec => (h.owned defined hmem hexec).imp
    (List.mem_append_left _) fun ⟨owner, howner, hbeside⟩ =>
      ⟨owner, List.mem_append_left _ howner, hbeside⟩⟩

/-- An import whose turn has not come is not defined. -/
theorem fresh (h : Once past s) (hexec : symbol ∉ execFamily) (hnew : symbol ∉ past)
    (hname : symbol ∉ helperSymbols) : symbol ∉ s.defined := by
  intro hmem
  rcases h.owned symbol hmem hexec with hpast | ⟨owner, -, hbeside⟩
  · exact hnew hpast
  · exact hname (beside_subset owner hbeside)

/-- Nor is what will stand beside it, since only one import has it there. -/
theorem helper_fresh (h : Once past s) (hnew : symbol ∉ past)
    (hnames : ∀ name ∈ past, name ∉ helperSymbols) {helper : String}
    (hbeside : helper ∈ beside symbol) : helper ∉ s.defined := by
  intro hold
  have hhelper := beside_subset symbol hbeside
  rcases h.owned helper hold (helper_not_exec hhelper) with hpast | ⟨owner, howner, hother⟩
  · exact hnames helper hpast hhelper
  · exact hnew (beside_injective hother hbeside ▸ howner)

theorem turn (h : Once past s) (hturn : Turn sdk weakOnly s s' symbol)
    (hexec : symbol ∉ execFamily) (hnew : symbol ∉ past)
    (hnames : ∀ name ∈ past, name ∉ helperSymbols) (hname : symbol ∉ helperSymbols) :
    Once (past ++ [symbol]) s' := by
  rcases hturn.outcome with ⟨helpers, hhelpers, hdefined⟩ | ⟨hdefined, -⟩
  · have hbeside : ∀ helper ∈ helpers, helper ∈ beside symbol := fun _ hmem =>
      hhelpers.subset hmem
    have hapart : symbol ∉ helpers := fun hmem => hname (beside_subset symbol (hbeside _ hmem))
    refine ⟨?_, ?_, ?_⟩
    · rw [hdefined, List.nodup_append', List.nodup_append']
      refine ⟨h.nodup, ⟨(nodup_beside symbol).sublist hhelpers, List.nodup_singleton _, ?_⟩, ?_⟩
      · simpa using hapart
      · intro defined hold hmem
        rcases List.mem_append.mp hmem with hmem | hmem
        · exact h.helper_fresh hnew hnames (hbeside defined hmem) hold
        · exact h.fresh hexec hnew hname (List.mem_singleton.mp hmem ▸ hold)
    · intro defined hmem hfamily
      rw [hturn.execEmitted]
      rw [hdefined, List.mem_append, List.mem_append, List.mem_singleton] at hmem
      rcases hmem with hmem | hmem | rfl
      · exact h.exec defined hmem hfamily
      · have hhelper := beside_subset symbol (hbeside defined hmem)
        exact absurd hfamily (helper_not_exec hhelper)
      · exact absurd hfamily hexec
    · intro defined hmem hnoexec
      rw [hdefined, List.mem_append, List.mem_append, List.mem_singleton] at hmem
      rcases hmem with hmem | hmem | rfl
      · exact (h.grow symbol).owned defined hmem hnoexec
      · exact .inr ⟨symbol, by simp, hbeside defined hmem⟩
      · exact .inl (by simp)
  · -- nothing is defined in this turn
    have hgrown := h.grow symbol
    exact ⟨hdefined ▸ hgrown.nodup, hdefined ▸ hturn.execEmitted ▸ hgrown.exec,
      hdefined ▸ hgrown.owned⟩

theorem execTurn (h : Once past s) (hturn : ExecTurn sdk weakOnly s s') :
    Once past s' := by
  obtain ⟨calls, hnodup, hcalls, hdefined⟩ := hturn.outcome
  refine ⟨?_, ?_, ?_⟩
  · rw [hdefined, List.nodup_append']
    refine ⟨h.nodup, hnodup, fun call hold hmem => ?_⟩
    obtain ⟨hfamily, hnew, -⟩ := hcalls call hmem
    exact hnew (h.exec call hold hfamily)
  · intro defined hmem hfamily
    rw [hdefined, List.mem_append] at hmem
    rcases hmem with hmem | hmem
    · exact hturn.grows.execEmitted (h.exec defined hmem hfamily)
    · exact (hcalls defined hmem).2.2
  · intro defined hmem hnoexec
    rw [hdefined, List.mem_append] at hmem
    rcases hmem with hmem | hmem
    · exact h.owned defined hmem hnoexec
    · exact absurd (hcalls defined hmem).1 hnoexec

end Once

theorem once_emitImport {past : List String} (h : Once past s) (hnew : symbol ∉ past)
    (hnames : ∀ name ∈ past ++ [symbol], name ∉ helperSymbols) (hplain : decorated symbol = false) :
    Once (past ++ [symbol]) (emitImport sdk weakOnly provided s symbol) := by
  have hexec_pass : isHostObject symbol = true → symbol ∉ execFamily := fun hobject hmem => by
    have hnone : ∀ call ∈ execFamily, isHostObject call = false := by decide
    exact absurd hobject (by simp [hnone symbol hmem])
  have hpast : ∀ name ∈ past, name ∉ helperSymbols := fun name hmem =>
    hnames name (List.mem_append_left _ hmem)
  have hname := hnames symbol (by simp)
  unfold emitImport
  split
  next => exact h.grow symbol
  next =>
    split
    next hobject =>
      have hturn : Turn sdk weakOnly s _ symbol := turn_pass (mayPass_of_object hobject) s
      exact h.turn hturn (hexec_pass hobject) hnew hpast hname
    next =>
      by_cases hexec : symbol ∈ execFamily
      · rw [emitNamed_exec hexec]
        have hturn : ExecTurn sdk weakOnly s _ := (execTurn_emitExec hexec s).1
        exact (h.execTurn hturn).grow symbol
      · exact h.turn (turn_emitNamed hexec hplain s) hexec hnew hpast hname

/-! ### The functions behind the bridges -/

/-- A turn adds at most the bridge of its import. -/
def AddsBridge (s s' : Sources) (symbol : String) : Prop :=
  s'.bridges = s.bridges ∨ ∃ bridge, s'.bridges = s.bridges ++ [bridge] ∧ bridge.id = bridgeId symbol

theorem bridges_fault (s : Sources) (symbol reason : String) :
    (fault weakOnly s symbol reason).bridges = s.bridges := by
  unfold fault
  split <;> rfl

theorem bridges_emitManualFunction (s : Sources) (symbol : String) (arguments : Nat)
    (handler : String) :
    (emitManualFunction sdk weakOnly s symbol arguments handler).bridges = s.bridges := by
  unfold emitManualFunction
  split
  next => rfl
  next => exact bridges_fault s symbol _

theorem bridges_emitExecVector (s : Sources) (vector : String) :
    (emitExecVector sdk weakOnly s vector).bridges = s.bridges := by
  unfold emitExecVector
  split
  next => rfl
  next => exact bridges_emitManualFunction _ vector _ _

theorem bridges_emitExec (s : Sources) (symbol : String) :
    (emitExec sdk weakOnly s symbol).bridges = s.bridges := by
  unfold emitExec
  split
  next => exact bridges_emitExecVector s symbol
  next vector _ =>
    simp only
    split
    next => exact bridges_emitExecVector s vector
    next => exact bridges_emitExecVector s vector

theorem bridges_emitVariable (s : Sources) (symbol : String) (types : VariableTypes) :
    (emitVariable s symbol types).bridges = s.bridges := by
  simp only [emitVariable]
  split
  next => rfl
  next => split <;> first | rfl | (split <;> rfl)

/-- A bridge has the id of its name, or of the decorated name of the import. -/
theorem writeFunction_adds {name : String} {exported : Option String} {plan : FunctionPlan}
    (hid : (match exported with
      | some exported => String.ofList (exported.toList.map fun c => if c == '$' then '_' else c)
      | none => name) = bridgeId symbol)
    (hplain : exported = none ∨ plan.variadicWords = 0 ∧ name ∉ plainOnly) (s : Sources) :
    AddsBridge s (writeFunction s name exported plan) symbol := by
  have hname : exported.isSome → plan.variadicWords = 0 ∧ name ∉ plainOnly := fun hsome =>
    hplain.resolve_left (Option.isSome_iff_ne_none.mp hsome)
  cases exported with
  | none =>
      simp only [writeFunction]
      split
      next => exact .inr ⟨_, rfl, hid⟩
      next =>
        split
        next => exact .inr ⟨_, rfl, hid⟩
        next =>
          split
          next => exact .inr ⟨_, rfl, hid⟩
          next => exact .inr ⟨_, rfl, hid⟩
  | some exported =>
      obtain ⟨hwords, hname⟩ := hname rfl
      have hdlsym : name ≠ "dlsym" := fun h => hname (by simp [h, plainOnly])
      have hsection : name ≠ "getsectiondata" := fun h => hname (by simp [h, plainOnly])
      simp only [writeFunction, hwords, ne_eq, not_true_eq_false, if_false, hdlsym, hsection]
      exact .inr ⟨_, rfl, hid⟩

theorem emitFunction_adds (hplain : decorated symbol = false) (htlv : symbol ≠ "__tlv_bootstrap")
    (s : Sources) (g : FunctionDecl) :
    AddsBridge s (emitFunction sdk weakOnly s symbol (splitVariant (cName symbol)).1
      (splitVariant (cName symbol)).2 g) symbol := by
  unfold emitFunction
  split
  next => exact .inl rfl
  next =>
    split
    next reason _ => exact .inl (bridges_fault s symbol reason)
    next plan hplan =>
      refine writeFunction_adds ?_ ?_ s
      · rw [bridgeId, if_neg htlv]
        rcases splitVariant_cases (cName symbol) with hsplit | ⟨base, hsplit⟩ <;> rw [hsplit]
      · cases hexported : (splitVariant (cName symbol)).2 with
        | none => exact .inl rfl
        | some exported =>
            have hname : (splitVariant (cName symbol)).1 ∉ plainOnly := by
              simpa [decorated, hexported] using hplain
            refine .inr ⟨?_, hname⟩
            by_contra hwords
            exact hname (mem_plainOnly_of_words hplan hwords)

theorem emitDeclared_adds (hplain : decorated symbol = false) (htlv : symbol ≠ "__tlv_bootstrap")
    (s : Sources) : AddsBridge s (emitDeclared sdk weakOnly s symbol) symbol := by
  simp only [emitDeclared]
  split
  next g _ _ => exact emitFunction_adds hplain htlv s g
  next =>
    split
    next => exact .inl (bridges_emitVariable s symbol _)
    next => exact .inl (bridges_fault s symbol _)

theorem emitNamed_adds (hplain : decorated symbol = false) (s : Sources) :
    AddsBridge s (emitNamed sdk weakOnly s symbol) symbol := by
  unfold emitNamed
  split
  next => exact .inl (bridges_emitExec s symbol)
  next =>
    split
    next => exact .inl rfl
    next =>
      split
      next htlv => exact .inr ⟨_, rfl, by rw [bridgeId, if_pos htlv]⟩
      next htlv =>
        split
        next => exact .inl rfl
        next =>
          split
          next => exact .inl rfl
          next =>
            split
            next => exact .inl (bridges_emitManualFunction s symbol _ _)
            next =>
              split
              next => exact .inl (bridges_fault s symbol _)
              next =>
                split
                next => exact .inl rfl
                next =>
                  split
                  next => exact emitDeclared_adds hplain htlv s
                  next => exact .inl rfl

theorem emitImport_adds (hplain : decorated symbol = false) (s : Sources) :
    AddsBridge s (emitImport sdk weakOnly provided s symbol) symbol := by
  unfold emitImport
  split
  next => exact .inl rfl
  next =>
    split
    next => exact .inl rfl
    next => exact emitNamed_adds hplain s

/-- The bridges of a run, in the order of their imports. -/
theorem ids_emitImports (hplain : ∀ symbol ∈ imports, decorated symbol = false) (s : Sources) :
    ((emitImports sdk weakOnly provided imports s).bridges.map FunctionBridge.id).Sublist
      (s.bridges.map FunctionBridge.id ++ imports.map bridgeId) := by
  induction imports generalizing s with
  | nil =>
      rw [List.map_nil, List.append_nil]
      exact List.Sublist.refl _
  | cons symbol rest ih =>
      have hrest := ih (fun other hmem => hplain other (List.mem_cons_of_mem _ hmem))
        (emitImport sdk weakOnly provided s symbol)
      refine hrest.trans ?_
      rcases emitImport_adds (hplain symbol List.mem_cons_self) s with hsame | ⟨bridge, hadd, hid⟩
      · rw [hsame]
        exact (List.sublist_cons_self _ _).append_left _
      · rw [hadd, List.map_append, List.append_assoc, List.map_cons, hid]
        exact List.Sublist.refl _

/-- What is defined under the name of an import does not have the name of a bridge's function. -/
theorem Once.notMem_code {past : List String} (h : Once past s)
    (hnames : ∀ name ∈ past, isReserved name = false) (id : String) :
    "_xl_fn_" ++ id ∉ s.defined := by
  have hreserved : isReserved ("_xl_fn_" ++ id) = true := by
    simp [isReserved, String.toList_append]
  intro hmem
  by_cases hexec : "_xl_fn_" ++ id ∈ execFamily
  · have hnone : ∀ call ∈ execFamily, isReserved call = false := by decide
    exact absurd hreserved (by simp [hnone _ hexec])
  · rcases h.owned _ hmem hexec with hpast | ⟨owner, -, hbeside⟩
    · exact absurd hreserved (by simp [hnames _ hpast])
    · -- the helpers have other names from the fifth character on
      have hhelper := beside_subset owner hbeside
      simp [helperSymbols, ← String.toList_inj] at hhelper

/-- **No symbol is defined twice**, neither under the name of an import nor as the function behind
a bridge. The calls of the exec family, which import and are imported by one another, are written
once; and what stands beside `dlsym` and `getsectiondata` has a name of its own. -/
theorem defined_nodup (sdk : Sdk) (weakOnly provided imports : List String)
    (hids : (imports.map bridgeId).Nodup) (hnames : ∀ symbol ∈ imports, isReserved symbol = false)
    (hplain : ∀ symbol ∈ imports, decorated symbol = false) :
    (emitImports sdk weakOnly provided imports {}).symbols.Nodup := by
  have hnodup : imports.Nodup := hids.of_map
  have hhelper : ∀ symbol ∈ imports, symbol ∉ helperSymbols := fun symbol hmem hhelper => by
    have hall : ∀ helper ∈ helperSymbols, isReserved helper = true := by decide
    exact absurd (hall symbol hhelper) (by simp [hnames symbol hmem])
  have hstart : Once [] ({} : Sources) :=
    ⟨List.nodup_nil, fun _ hmem => absurd hmem List.not_mem_nil,
      fun _ hmem => absurd hmem List.not_mem_nil⟩
  -- the imports so far own the definitions so far
  have hrun : Once ([] ++ imports) (emitImports sdk weakOnly provided imports {}) := by
    refine Runs.run_past Once (fun before symbol after hsplit s hs => ?_) hstart
    rw [List.nil_append] at hsplit
    subst hsplit
    have hnew : symbol ∉ before := fun hmem =>
      List.disjoint_of_nodup_append hnodup hmem List.mem_cons_self
    refine once_emitImport hs hnew (fun name hmem => hhelper name ?_) (hplain symbol (by simp))
    simpa [or_assoc] using (List.mem_append.mp hmem).imp_right Or.inl
  have hcode : ((emitImports sdk weakOnly provided imports {}).bridges.map
      FunctionBridge.id).Nodup := (ids_emitImports hplain {}).nodup hids
  rw [Sources.symbols, List.nodup_append']
  refine ⟨hrun.nodup, ?_, fun symbol hmem hbridge => ?_⟩
  · have hmap := hcode.map (f := fun id => "_xl_fn_" ++ id) fun a b hab => by simpa using hab
    rwa [List.map_map] at hmap
  · obtain ⟨bridge, -, rfl⟩ := List.mem_map.mp hbridge
    exact hrun.notMem_code (by simpa using hnames) bridge.id hmem

theorem defined_nodup_execl :
    (emitImports (functionSdk ["puts", "dlsym"] false) [] []
      ["_dlsym", "_execl", "_execv", "_puts"] {}).symbols.Nodup :=
  defined_nodup _ [] [] _ (by decide) (by decide) (by decide)

/-- A decorated name and the same name with an underscore share the function behind the bridge. -/
example : (emitImports (functionSdk ["puts", "puts_UNIX"] false) [] []
    ["_puts$UNIX", "_puts_UNIX"] {}).symbols
    = ["_puts$UNIX", "_puts_UNIX", "_xl_fn_puts_UNIX", "_xl_fn_puts_UNIX"] := by decide

/-! ## The bridges and the strict pass -/

/-- `imports.txt` of `scripts/translate.sh`: what the guest images and the support objects import,
without what the guest images answer and the weak imports that the target does not have. -/
def importsOf (allImports resolved weakAbsent : List String) : List String :=
  allImports.filter fun symbol => !resolved.contains symbol && !weakAbsent.contains symbol

/-- The sources for the guest images: `provided.txt` has the symbols of the support objects and what
the guest images answer. -/
def sourcesFor (sdk : Sdk) (weakOnly allImports weakAbsent support resolved : List String) :
    Sources :=
  emitImports sdk weakOnly (support ++ resolved) (importsOf allImports resolved weakAbsent) {}

/-- An import that is to be a call of the guest: a function under its plain name, which some image
imports strongly. -/
structure Callable (sdk : Sdk) (weakOnly allImports : List String) (symbol : String) : Prop where
  imported : symbol ∈ allImports
  binder : symbol ≠ "dyld_stub_binder"
  plain : decorated symbol = false
  passes : mayPass sdk symbol = false
  staysOpen : mayStayOpen sdk weakOnly symbol = false

/-- A call of the guest that neither its images nor the support objects answer has its
definition. -/
theorem defined_of_callable {allImports weakAbsent support resolved : List String}
    (h : Callable sdk weakOnly allImports symbol) (habsent : weakAbsent ⊆ weakOnly)
    (hsupport : symbol ∉ support) (hresolved : symbol ∉ resolved) :
    symbol ∈ (sourcesFor sdk weakOnly allImports weakAbsent support resolved).defined := by
  -- it is strong, so it is not one of the weak imports that are taken out
  have hstrong : symbol ∉ weakOnly := fun hmem => by
    have hopen := h.staysOpen
    simp [mayStayOpen, hmem] at hopen
  have himport : symbol ∈ importsOf allImports resolved weakAbsent := by
    rw [importsOf, List.mem_filter]
    have hkept : symbol ∉ weakAbsent := fun hmem => hstrong (habsent hmem)
    exact ⟨h.imported, by simp [hresolved, hkept]⟩
  have hsettled : Settled sdk weakOnly
      (sourcesFor sdk weakOnly allImports weakAbsent support resolved) symbol :=
    settled_emitImports himport (by simp [hsupport, hresolved]) h.binder h.plain execSettled_start
  -- a plain function is neither left to the host's linker nor left open
  rcases hsettled with hdefined | ⟨-, hpassed⟩ | ⟨-, hopen⟩
  · exact hdefined
  · exact absurd hpassed (by simp [h.passes])
  · exact absurd hopen (by simp [h.staysOpen])

section

open Program

/-- **The bridges close the program.** The first pass notes what the guest images answer among
themselves, the loop gives definitions to their other imports, and the second pass has the library
that is built from these and the support objects behind the guest images. When that library exports
what it is built from and answers its own calls, the strict pass succeeds, and each strong call of
the guest images is a guest stub. -/
theorem strict_pass_succeeds {base : UInt64} {guests more : List Image}
    {isBridge isBridge' : String → Bool} {equivalent : String → String → Bool}
    {replaces : List String} {p p' : Program}
    (h : layoutAndResolve base guests isBridge equivalent replaces false = .ok p)
    (h' : layoutAndResolve base (guests ++ more) isBridge' equivalent replaces true = .ok p')
    (hbridge : ∀ path, isBridge path = true → isBridge' path = true)
    (hfiles : OtherFiles equivalent guests more)
    (sdk : Sdk) (weakOnly allImports weakAbsent support : List String)
    (habsent : weakAbsent ⊆ weakOnly)
    (hcalls : ∀ image ∈ p.images, ∀ entry ∈ image.stubs.toList, entry.2.weak = false →
      isTrap entry.2.symbol = false → entry.2.symbol ∉ p.resolved →
        Callable sdk weakOnly allImports entry.2.symbol)
    (hsupport : ∀ symbol ∈ support, Bridged isBridge' p' symbol)
    (hlibrary :
      ∀ symbol ∈ (sourcesFor sdk weakOnly allImports weakAbsent support p.resolved).defined,
        Bridged isBridge' p' symbol)
    (hown : ∀ image ∈ p'.images, image ∉ p.images → ∀ entry ∈ image.stubs.toList,
      entry.2.weak = false → isTrap entry.2.symbol = false → Bridged isBridge' p' entry.2.symbol) :
    p'.ok = true ∧
      ∀ image ∈ p.images, ∀ entry ∈ image.stubs.toList, entry.2.weak = false →
        isTrap entry.2.symbol = false → image.host entry.1 ∈ p'.stubToGuest := by
  have hguest : ∀ image ∈ p.images, ∀ entry ∈ image.stubs.toList, entry.2.weak = false →
      isTrap entry.2.symbol = false →
        entry.2.symbol ∈ p.resolved ∨ Bridged isBridge' p' entry.2.symbol := by
    intro image himage entry hentry hstrong htrap
    by_cases hresolved : entry.2.symbol ∈ p.resolved
    · exact .inl hresolved
    · -- the support objects, then the loop
      by_cases hobject : entry.2.symbol ∈ support
      · exact .inr (hsupport _ hobject)
      · have hcall := hcalls image himage entry hentry hstrong htrap hresolved
        exact .inr (hlibrary _ (defined_of_callable hcall habsent hobject hresolved))
  refine ⟨ok_of_known h h' hbridge hfiles fun image himage entry hentry hstrong htrap => ?_, ?_⟩
  · by_cases hmem : image ∈ p.images
    · exact (hguest image hmem entry hentry hstrong htrap).imp_left fun hresolved =>
        ⟨hmem, hresolved⟩
    · exact .inr (hown image himage hmem entry hentry hstrong htrap)
  · intro image himage entry hentry hstrong htrap
    have hknown := hguest image himage entry hentry hstrong htrap
    exact (stubToGuest_of_known h h' hbridge hfiles himage hentry hknown).2

end

/-- The library that defines `puts` is enough for the guest that calls it. -/
theorem strict_pass_succeeds_puts :
    Program.putsSecond.ok = true ∧
      (Program.putsCaller.slidTo 0x10000000).host 0x410C ∈ Program.putsSecond.stubToGuest := by
  obtain ⟨hok, hguest⟩ := strict_pass_succeeds Program.putsFirst_resolved
    Program.putsSecond_resolved (fun _ h => absurd h Bool.false_ne_true) (by
      intro path guest hguest heq image himage
      rw [List.mem_singleton.mp hguest, beq_iff_eq] at heq
      rw [List.mem_singleton.mp himage, heq]
      decide)
    (functionSdk ["puts"] false) [] ["_main", "_puts"] [] [] (List.Subset.refl _) (by
      intro image himage entry hentry _ _ hresolved
      rw [List.mem_singleton.mp himage] at hentry
      have hstubs : ∀ entry ∈ (Program.putsCaller.slidTo 0x10000000).stubs.toList,
          entry.2.symbol = "_main" ∨ entry.2.symbol = "_puts" := by decide
      have hmain : "_main" ∈ Program.putsFirst.resolved := by decide
      rcases hstubs entry hentry with hsymbol | hsymbol
      · exact absurd (hsymbol ▸ hmain) hresolved
      · rw [hsymbol]
        exact ⟨by decide, by decide, by decide, by decide, by decide⟩)
    (by simp) (by
      have hdefined : (sourcesFor (functionSdk ["puts"] false) [] ["_main", "_puts"] [] []
          Program.putsFirst.resolved).defined = ["_puts"] := by decide
      intro symbol hsymbol
      rw [hdefined, List.mem_singleton] at hsymbol
      rw [hsymbol]
      exact ⟨Program.putsBridge.slidTo 0x10100000, by simp [Program.putsSecond], by rfl,
        by decide⟩)
    (by
      intro image himage hguest entry hentry _ htrap
      have himage' : image = Program.putsBridge.slidTo 0x10100000 := by
        rcases List.mem_cons.mp himage with hfirst | hsecond
        · exact absurd (hfirst ▸ List.mem_singleton_self _) hguest
        · exact List.mem_singleton.mp hsecond
      rw [himage'] at hentry
      have htraps : ∀ entry ∈ (Program.putsBridge.slidTo 0x10100000).stubs.toList,
          isTrap entry.2.symbol = true := by decide
      exact absurd (htraps entry hentry) (by simp [htrap]))
  refine ⟨hok, hguest (Program.putsCaller.slidTo 0x10000000) (List.mem_singleton_self _)
    (0x410C, { symbol := "_puts", library := "libSystem" }) ?_ rfl (by decide)⟩
  rw [Std.ExtTreeMap.mem_toList_iff_getElem?_eq_some]
  rfl

end Symbols

end Katabasis
