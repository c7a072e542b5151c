/-
  Caap.Query.Provider

  Query providers and the context one runs in (`compiler/query_provider_types.rs`), and
  the check of the effects a provider declares (`query_service/cache.rs`).

  A callback is a Rust closure over the compiler and the unit; the provider holds the
  number it is found under (`callback`).
-/

import Caap.Lib.Sorting
import Caap.Artifacts.Key
import Caap.Semantic.Entry

namespace Caap

open Lib

/-- `QueryProviderCacheScope`. -/
inductive QueryProviderCacheScope where
  | none | unit
  deriving DecidableEq, Repr

def QueryProviderCacheScope.asStr : QueryProviderCacheScope → String
  | .none => "none"
  | .unit => "unit"

/-- `is_cacheable`. -/
def QueryProviderCacheScope.isCacheable (scope : QueryProviderCacheScope) : Bool :=
  scope != .none

/-- `QueryProviderResumePolicy`. -/
inductive QueryProviderResumePolicy where
  | safe | never | bootstrapSafe
  deriving DecidableEq, Repr

def QueryProviderResumePolicy.asStr : QueryProviderResumePolicy → String
  | .safe => "safe"
  | .never => "never"
  | .bootstrapSafe => "bootstrap_safe"

/-- `allows_restart`. -/
def QueryProviderResumePolicy.allowsRestart (policy : QueryProviderResumePolicy)
    (bootstrapActive : Bool) : Bool :=
  match policy with
  | .safe => true
  | .never => false
  | .bootstrapSafe => !bootstrapActive

/-- `QueryProvider`. -/
structure QueryProvider where
  name : String
  stage : String
  family : Option String
  phasePolicy : PhasePolicy
  requires : List String
  requiresData : List String
  providesData : List String
  provides : List String
  effectTags : EffectSet
  inputSchema : Option String
  reads : List String
  writes : List String
  cacheScope : QueryProviderCacheScope
  resumePolicy : QueryProviderResumePolicy
  registrationIndex : Nat
  enforceEffectPostconditions : Bool
  callback : Nat
  deriving DecidableEq

/-- What `register_provider_with_effects` adds to the registry. -/
def QueryProvider.registered (name stage : String) (phasePolicy : PhasePolicy)
    (effectTags : EffectSet) (registrationIndex callback : Nat) : QueryProvider where
  name := name
  stage := stage
  family := none
  phasePolicy := phasePolicy
  requires := []
  requiresData := []
  providesData := []
  provides := []
  effectTags := effectTags
  inputSchema := none
  reads := []
  writes := []
  cacheScope := .none
  resumePolicy := .safe
  registrationIndex := registrationIndex
  enforceEffectPostconditions := true
  callback := callback

/-- The value of an initial binding, seen through its identity token; a value without a
    token makes a query uncacheable. -/
structure InitialValue where
  identityToken : Option String
  deriving DecidableEq, Repr

/-- `QueryProviderContext`. -/
structure QueryProviderContext where
  provider : String
  stage : String
  family : Option String
  phase : PhasePolicy
  unitId : String
  effectTags : EffectSet
  initialBindings : List (String × InitialValue)
  registrationIndex : Nat
  readsSubjects : List String
  writesSubjects : List String
  readCells : List String
  writeCells : List String
  readsFiles : List String
  writesFiles : List String
  artifactDependencies : List ArtifactKey
  deriving DecidableEq

/-! ## Tracking keys -/

/-- `semantic_subject_tracking_key`. -/
def semanticSubjectTrackingKey (subject : SemanticSubjectId) : String :=
  subject.kind ++ ":" ++ subject.value

/-- `semantic_cell_tracking_key`. -/
def semanticCellTrackingKey (subject predicate : String) : String := subject ++ "@" ++ predicate

/-- `ANNOTATION_PREDICATE_PREFIX`. -/
def annotationPredicateLead : String := "annotation."

/-- The predicate names an annotation. -/
def isAnnotation (predicate : String) : Bool := startsWith predicate annotationPredicateLead

/-- One iteration of the loop of `extend_unique`; `seen` holds the elements of `target`. -/
def pushUnique (target : List String) (value : String) : List String :=
  if value ∈ target then target else target ++ [value]

/-- `extend_unique`. -/
def extendUnique (target values : List String) : List String :=
  sort (values.foldl pushUnique target)

theorem mem_pushUnique {target : List String} {value x : String} :
    x ∈ pushUnique target value ↔ x ∈ target ∨ x = value := by
  unfold pushUnique
  by_cases h : value ∈ target
  · rw [if_pos h]
    refine ⟨.inl, ?_⟩
    rintro (hx | rfl)
    · exact hx
    · exact h
  · rw [if_neg h, List.mem_append, List.mem_singleton]

theorem mem_extendUnique {target values : List String} {x : String} :
    x ∈ extendUnique target values ↔ x ∈ target ∨ x ∈ values := by
  rw [extendUnique, mem_sort]
  induction values generalizing target with
  | nil => simp
  | cons v vs ih => rw [List.foldl_cons, ih, mem_pushUnique, List.mem_cons, or_assoc]

/-! ## Declared effects -/

/-- `ProviderIrChangeStats`. -/
structure ProviderIrChangeStats where
  rewriteCount : Nat
  erasedCount : Nat
  touchedNodeKinds : List String
  changeDomains : List String
  deriving DecidableEq, Repr

/-- `has_ir_change`. -/
def ProviderIrChangeStats.hasIrChange (stats : ProviderIrChangeStats) : Bool :=
  decide (0 < stats.rewriteCount) || decide (0 < stats.erasedCount)

/-- `SemanticWriteSummary`. -/
structure SemanticWriteSummary where
  facts : Bool
  attributes : Bool
  symbols : Bool
  deriving DecidableEq, Repr

/-- `SemanticWriteSummary::default`. -/
def SemanticWriteSummary.empty : SemanticWriteSummary :=
  { facts := false, attributes := false, symbols := false }

/-- `provider_declares_effect`. -/
def QueryProvider.declaresEffect (provider : QueryProvider) (expected : BuiltinEffectTag) : Bool :=
  provider.effectTags.containsBuiltin expected

/-- One check of `provider_effect_policy_violation`: something happened that needs an
    undeclared effect. -/
def QueryProvider.undeclared (provider : QueryProvider) (happened : Bool)
    (expected : BuiltinEffectTag) : Bool :=
  happened && !provider.declaresEffect expected

/-- `provider_effect_policy_violation`. -/
def providerEffectPolicyViolation (provider : QueryProvider) (diagnosticsEmitted : Nat)
    (irChange : ProviderIrChangeStats) (attributesChanged : Bool)
    (semanticWrites : SemanticWriteSummary) (context : Option QueryProviderContext) :
    Option String :=
  let violation (what : String) : Option String :=
    some ("query provider " ++ provider.name ++ " " ++ what ++ " effect")
  if provider.undeclared irChange.hasIrChange .writeIr then
    violation "modified IR without declaring write-ir"
  else if provider.undeclared (decide (0 < diagnosticsEmitted)) .emitDiagnostics then
    violation "emitted diagnostics without declaring emit-diagnostics"
  else if provider.undeclared attributesChanged .writeAttributes then
    violation "modified unit attributes without declaring write-attributes"
  else if provider.undeclared semanticWrites.symbols .writeSymbols then
    violation "modified symbols without declaring write-symbols"
  else if provider.undeclared semanticWrites.facts .writeFacts then
    violation "modified facts without declaring write-facts"
  else if provider.undeclared semanticWrites.attributes .writeAttributes then
    violation "modified semantic attributes without declaring write-attributes"
  else if provider.undeclared (context.any fun c => !c.readsFiles.isEmpty) .readFiles then
    violation "read files without declaring read-files"
  else if provider.undeclared (context.any fun c => !c.writesFiles.isEmpty) .writeFiles then
    violation "wrote files without declaring write-files"
  else none

theorem ite_some_eq_none {α : Type} {c : Prop} [Decidable c] {a : α} {x : Option α} :
    (if c then some a else x) = none ↔ ¬ c ∧ x = none := by
  by_cases hc : c
  · simp [hc]
  · simp [hc]

/-- No violation means that every observed change was declared. -/
theorem declared_of_no_violation {provider : QueryProvider} {diagnosticsEmitted : Nat}
    {irChange : ProviderIrChangeStats} {attributesChanged : Bool}
    {semanticWrites : SemanticWriteSummary} {context : Option QueryProviderContext}
    (h : providerEffectPolicyViolation provider diagnosticsEmitted irChange attributesChanged
      semanticWrites context = none) : provider.undeclared irChange.hasIrChange .writeIr = false ∧
      provider.undeclared semanticWrites.facts .writeFacts = false ∧
      provider.undeclared semanticWrites.attributes .writeAttributes = false := by
  simp only [providerEffectPolicyViolation, ite_some_eq_none, Bool.not_eq_true] at h
  obtain ⟨hir, _, _, _, hfacts, hattributes, _⟩ := h
  exact ⟨hir, hfacts, hattributes⟩

end Caap
