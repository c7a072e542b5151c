/-
  Caap.Semantic.Entry

  `semantic/policy.rs` and `semantic/symbol.rs`: the policy enumerations, effect sets,
  and the symbol and semantic entries stored in a unit's semantic graph.
-/

import Caap.Semantic.Value

namespace Caap

/-- `PhasePolicy`. -/
inductive PhasePolicy where
  | runtime | compileTime | dual
  deriving DecidableEq, Repr

def PhasePolicy.asStr : PhasePolicy → String
  | .runtime => "runtime"
  | .compileTime => "compile_time"
  | .dual => "dual"

/-- `EvalPolicy`. -/
inductive EvalPolicy where
  | eager | lazyIf | sequential | specialForm
  deriving DecidableEq, Repr

/-- `ControlPolicy`. -/
inductive ControlPolicy where
  | plain | conditionalBranch | structuredExit
  deriving DecidableEq, Repr

/-- `ScopePolicy`. -/
inductive ScopePolicy where
  | none | lexicalBinding
  deriving DecidableEq, Repr

/-- `FoldPolicy`. -/
inductive FoldPolicy where
  | always | runtimePure | never
  deriving DecidableEq, Repr

/-- `SymbolKind`. -/
inductive SymbolKind where
  | topLevel | parameter | «local» | injected | builtin | external
  deriving DecidableEq, Repr

/-- `EntrySource`. -/
inductive EntrySource where
  | builtin | topLevel | registered | parameter | «local» | external
  deriving DecidableEq, Repr

def EntrySource.asStr : EntrySource → String
  | .builtin => "builtin"
  | .topLevel => "top_level"
  | .registered => "registered"
  | .parameter => "parameter"
  | .local => "local"
  | .external => "external"

/-! ## Effects -/

/-- `BuiltinEffectTag`. -/
inductive BuiltinEffectTag where
  | compilerRegistry | emitDiagnostics | emitEvents | hostServices | impure | mutation
  | readAttributes | readFacts | readFiles | readIr | readSymbols | requestRestart
  | useFiles | useHostServices | writeAttributes | writeFacts | writeFiles | writeIr
  | writeSymbols
  deriving DecidableEq, Repr

def BuiltinEffectTag.asStr : BuiltinEffectTag → String
  | .compilerRegistry => "compiler_registry"
  | .emitDiagnostics => "emit_diagnostics"
  | .emitEvents => "emit_events"
  | .hostServices => "host_services"
  | .impure => "impure"
  | .mutation => "mutation"
  | .readAttributes => "read_attributes"
  | .readFacts => "read_facts"
  | .readFiles => "read_files"
  | .readIr => "read_ir"
  | .readSymbols => "read_symbols"
  | .requestRestart => "request_restart"
  | .useFiles => "use_files"
  | .useHostServices => "use_host_services"
  | .writeAttributes => "write_attributes"
  | .writeFacts => "write_facts"
  | .writeFiles => "write_files"
  | .writeIr => "write_ir"
  | .writeSymbols => "write_symbols"

/-- `EffectSet`: tags in strictly increasing order, as every constructor of the source
    collects them from an ordered set.  The binary search of the source finds a tag of
    such a vector exactly when it is a member. -/
structure EffectSet where
  tags : List String
  sorted : tags.Pairwise (· < ·)
  deriving DecidableEq

namespace EffectSet

/-- `EffectSet::empty`. -/
def empty : EffectSet := ⟨[], List.Pairwise.nil⟩

/-- `EffectSet::contains_str`. -/
def containsStr (e : EffectSet) (expected : String) : Bool := e.tags.contains expected

/-- `EffectSet::contains_builtin`. -/
def containsBuiltin (e : EffectSet) (expected : BuiltinEffectTag) : Bool :=
  e.containsStr expected.asStr

end EffectSet

/-- `EffectPolicy`. -/
structure EffectPolicy where
  tags : EffectSet
  deriving DecidableEq

/-- `EffectPolicy::pure`. -/
def EffectPolicy.pure : EffectPolicy := ⟨EffectSet.empty⟩

/-! ## Entries -/

/-- `SymbolEntry`. -/
structure SymbolEntry where
  name : String
  kind : SymbolKind
  phasePolicy : PhasePolicy
  nodeId : Option NodeId
  isPublic : Bool
  publicNames : List String
  deriving DecidableEq, Repr

/-- `SymbolEntry::new`. -/
def SymbolEntry.new (name : String) (kind : SymbolKind) (phasePolicy : PhasePolicy)
    (nodeId : Option NodeId) : CaapResult SymbolEntry :=
  if name = "" then .error (.semantic "symbol name must be non-empty")
  else .ok
    { name := name, kind := kind, phasePolicy := phasePolicy, nodeId := nodeId
      isPublic := false, publicNames := [] }

/-- The loop of `validate_symbol_entry` over the public names, with the names seen so
    far and the previous one. -/
def validatePublicNames : List String → List String → Option String → CaapResult Unit
  | [], _, _ => .ok ()
  | publicName :: rest, seen, previousName =>
    if publicName = "" then .error (.semantic "public symbol names must be non-empty")
    else if publicName ∈ seen then
      .error (.semantic ("public symbol name is duplicated: " ++ publicName))
    else if previousName.any (fun previous => publicName < previous) then
      .error (.semantic "public symbol names must be sorted deterministically")
    else validatePublicNames rest (publicName :: seen) (some publicName)

/-- `validate_symbol_entry`. -/
def validateSymbolEntry (entry : SymbolEntry) : CaapResult Unit :=
  if entry.name = "" then .error (.semantic "symbol name must be non-empty")
  else if entry.isPublic == entry.publicNames.isEmpty then
    .error (.semantic "symbol public flag must match public symbol names")
  else validatePublicNames entry.publicNames [] none

/-- `SemanticEntry`. -/
structure SemanticEntry where
  name : String
  source : EntrySource
  phasePolicy : PhasePolicy
  effectPolicy : EffectPolicy
  evalPolicy : EvalPolicy
  controlPolicy : ControlPolicy
  scopePolicy : ScopePolicy
  foldPolicy : FoldPolicy
  nodeId : Option NodeId
  unitId : Option String
  value : SemanticValue
  stableId : Option StableId

/-- `SemanticEntry::new`. -/
def SemanticEntry.new (name : String) (source : EntrySource) : CaapResult SemanticEntry :=
  if name = "" then .error (.semantic "semantic entry name must be non-empty")
  else .ok
    { name := name, source := source, phasePolicy := .runtime, effectPolicy := .pure
      evalPolicy := .eager, controlPolicy := .plain, scopePolicy := .none, foldPolicy := .never
      nodeId := none, unitId := none, value := .null, stableId := none }

/-- The derived `PartialEq`: fieldwise, with IEEE equality inside the value. -/
instance : BEq SemanticEntry where
  beq a b :=
    a.name == b.name && a.source == b.source && a.phasePolicy == b.phasePolicy &&
    a.effectPolicy == b.effectPolicy && a.evalPolicy == b.evalPolicy &&
    a.controlPolicy == b.controlPolicy && a.scopePolicy == b.scopePolicy &&
    a.foldPolicy == b.foldPolicy && a.nodeId == b.nodeId && a.unitId == b.unitId &&
    a.value == b.value && a.stableId == b.stableId

end Caap
