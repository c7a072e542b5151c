/-
  Caap.Query.InitialBindings

  The identity tokens of a list of initial bindings and the two cache keys that end with
  them (`query_service/cache.rs`).

  The unit's fingerprint, a digest of its serialised template, is a parameter: the parts of
  a key before the tokens are as many whatever it is.
-/

import Caap.Query.IdentityToken
import Caap.Query.Record

namespace Caap

open Std Lib Option

section Keys

-- `{value:?}` of a float
variable (debugF64 : UInt64 → String)

-- `Unit::content_fingerprint`
variable (contentFingerprint : CaapUnit → CaapResult String)

/-- The name and token of each binding. -/
def bindingTokens : List (String × RuntimeValue) → Option (List (String × String))
  | [] => some []
  | (name, value) :: bindings => do
    let token ← runtimeValueIdentityToken debugF64 value
    let tokens ← bindingTokens bindings
    some ((name, token) :: tokens)

/-- `initial_bindings_identity_token`. -/
def initialBindingsIdentityToken (initialBindings : List (String × RuntimeValue)) :
    Option (List String) :=
  if initialBindings.isEmpty then some []
  else do
    let items ← bindingTokens debugF64 initialBindings
    some ((sort items).flatMap fun (name, value) => ["initial_binding", name, value])

/-- `QueryStageCacheVersions`. -/
structure QueryStageCacheVersions where
  providerRegistry : Nat
  compilerRegistry : Nat
  host : Nat
  bootstrapCapability : Nat
  bootstrapImage : Nat
  deriving DecidableEq

/-- `QueryStageCacheKeyInput`. -/
structure QueryStageCacheKeyInput where
  unit : CaapUnit
  stage : String
  phase : PhasePolicy
  initialBindings : List (String × RuntimeValue)
  versions : QueryStageCacheVersions

/-- The parts of both keys that name the state the query runs in. -/
def stateParts (unitId : String) (version : Nat) (unitFingerprint : String)
    (versions : QueryStageCacheVersions) : List String :=
  [unitId, toString version, "unit_fingerprint", unitFingerprint,
    "provider_registry", toString versions.providerRegistry,
    "compiler_registry", toString versions.compilerRegistry,
    "host", toString versions.host,
    "bootstrap_capabilities", toString versions.bootstrapCapability,
    "bootstrap_images", toString versions.bootstrapImage]

/-- `query_stage_cache_key`. -/
def queryStageCacheKey (input : QueryStageCacheKeyInput) : CaapResult (Option ArtifactKey) :=
  match initialBindingsIdentityToken debugF64 input.initialBindings with
  | none => .ok none
  | some initialBindingTokens => do
    let unitFingerprint ← contentFingerprint input.unit
    let parts := ["query_stage", input.stage, input.phase.asStr] ++
      stateParts input.unit.unitId input.unit.version unitFingerprint input.versions
    let key ← ArtifactKey.new (parts ++ initialBindingTokens)
    .ok (some key)

/-- `provider_cache_key`; `versions` are those of the compiler's registries. -/
def providerCacheKey (versions : QueryStageCacheVersions) (unit : CaapUnit)
    (provider : QueryProvider) (phase : PhasePolicy)
    (initialBindings : List (String × RuntimeValue)) : CaapResult (Option ArtifactKey) :=
  if !providerCacheable provider then .ok none
  else do
    let unitFingerprint ← contentFingerprint unit
    let parts := ["provider_cache", provider.name, provider.stage, provider.cacheScope.asStr,
        phase.asStr] ++ stateParts unit.unitId unit.version unitFingerprint versions
    match initialBindingsIdentityToken debugF64 initialBindings with
    | none => .ok none
    | some initialBindingTokens => do
      let key ← ArtifactKey.new (parts ++ initialBindingTokens)
      .ok (some key)

end Keys

/-! ## Equal tokens -/

/-- The lists bind the same names to structurally equal values. -/
def SameBindings (bindings bindings' : List (String × RuntimeValue)) : Prop :=
  bindings.length = bindings'.length ∧
    ∀ e ∈ bindings, ∃ value, bindings'.lookup e.1 = some value ∧ e.2.deepEqual value = true

instance (bindings bindings' : List (String × RuntimeValue)) :
    Decidable (SameBindings bindings bindings') :=
  decidable_of_iff
    (bindings.length = bindings'.length ∧
      ∀ e ∈ bindings, (bindings'.lookup e.1).any (e.2.deepEqual ·) = true)
    (and_congr_right' (forall₂_congr fun _ _ => Option.any_eq_true ..))

/-- A list of initial bindings as `normalize_initial_bindings` leaves it, of data. -/
structure DataBindings (bindings : List (String × RuntimeValue)) : Prop where
  names : (bindings.map Prod.fst).Nodup
  data : ∀ e ∈ bindings, e.2.isData = true

section Tokens

variable {debugF64 : UInt64 → String} {bindings bindings' : List (String × RuntimeValue)}

theorem forall₂_bindingTokens {items : List (String × String)}
    (h : bindingTokens debugF64 bindings = some items) : List.Forall₂ (fun e item => e.1 = item.1 ∧
      runtimeValueIdentityToken debugF64 e.2 = some item.2) bindings items := by
  induction bindings generalizing items with
  | nil =>
    rw [← some.inj h]
    exact .nil
  | cons e bindings ih =>
    obtain ⟨t, ht, hrest⟩ := bind_eq_some_iff.mp h
    obtain ⟨us, hus, heq⟩ := bind_eq_some_iff.mp hrest
    rw [← some.inj heq]
    exact .cons ⟨rfl, ht⟩ (ih hus)

/-- The tokens are the sorted names and values, each after a marker. -/
theorem exists_bindingTokens {tokens : List String}
    (h : initialBindingsIdentityToken debugF64 bindings = some tokens) :
    ∃ items, bindingTokens debugF64 bindings = some items ∧
      tokens = (sort items).flatMap fun item => ["initial_binding", item.1, item.2] := by
  unfold initialBindingsIdentityToken at h
  split_ifs at h with hempty
  · rw [List.isEmpty_iff.mp hempty]
    exact ⟨[], rfl, (some.inj h).symm⟩
  · obtain ⟨items, hitems, heq⟩ := bind_eq_some_iff.mp h
    exact ⟨items, hitems, (some.inj heq).symm⟩

theorem triples_injective {items items' : List (String × String)}
    (h : items.flatMap (fun item => ["initial_binding", item.1, item.2]) =
      items'.flatMap fun item => ["initial_binding", item.1, item.2]) : items = items' := by
  induction items generalizing items' with
  | nil =>
    cases items' with
    | nil => rfl
    | cons item' items' => exact absurd h (by simp)
  | cons item items ih =>
    cases items' with
    | nil => exact absurd h (by simp)
    | cons item' items' =>
      simp only [List.flatMap_cons, List.cons_append, List.nil_append, List.cons.injEq,
        true_and] at h
      obtain ⟨hname, hvalue, hrest⟩ := h
      rw [Prod.ext hname hvalue, ih hrest]

theorem sameBindings_of_tokens (hb : DataBindings bindings) (hb' : DataBindings bindings')
    (hfree : ∀ e ∈ bindings, e.2.separatorFree = true)
    (hfree' : ∀ e ∈ bindings', e.2.separatorFree = true) {tokens : List String}
    (h : initialBindingsIdentityToken debugF64 bindings = some tokens)
    (h' : initialBindingsIdentityToken debugF64 bindings' = some tokens) :
    SameBindings bindings bindings' := by
  obtain ⟨items, hitems, htokens⟩ := exists_bindingTokens h
  obtain ⟨items', hitems', htokens'⟩ := exists_bindingTokens h'
  have hsort : sort items = sort items' := triples_injective (htokens ▸ htokens')
  constructor
  · calc
      bindings.length = items.length := (forall₂_bindingTokens hitems).length_eq
      _ = (sort items).length := (List.length_insertionSort ..).symm
      _ = (sort items').length := by rw [hsort]
      _ = items'.length := List.length_insertionSort ..
      _ = bindings'.length := (forall₂_bindingTokens hitems').length_eq.symm
  · intro e he
    obtain ⟨item, hitem, hname, hvalue⟩ :=
      exists_of_forall₂_left (forall₂_bindingTokens hitems) he
    have hitem' : item ∈ items' := mem_sort.mp (hsort ▸ mem_sort.mpr hitem)
    obtain ⟨e', he', hname', hvalue'⟩ :=
      exists_of_forall₂_right (forall₂_bindingTokens hitems') hitem'
    refine ⟨e'.2, ?_, ?_⟩
    · rw [hname, ← hname']
      exact lookup_of_mem hb'.names he'
    · exact deepEqual_of_token_eq (hb.data e he) (hb'.data e' he') (hfree e he) (hfree' e' he')
        hvalue hvalue'

end Tokens

/-! ## Equal keys -/

section CacheKeys

variable {debugF64 : UInt64 → String} {contentFingerprint : CaapUnit → CaapResult String}

theorem parts_of_new {parts : List String} {key : ArtifactKey}
    (h : ArtifactKey.new parts = .ok key) : key.parts = parts := by
  unfold ArtifactKey.new at h
  split_ifs at h
  exact (congrArg ArtifactKey.parts (Except.ok.inj h)).symm

/-- The tokens are the last parts of a stage's key. -/
theorem parts_of_queryStageCacheKey {input : QueryStageCacheKeyInput} {key : ArtifactKey}
    (h : queryStageCacheKey debugF64 contentFingerprint input = .ok (some key)) :
    ∃ tokens, initialBindingsIdentityToken debugF64 input.initialBindings = some tokens ∧
      key.parts.drop 17 = tokens := by
  unfold queryStageCacheKey at h
  cases htokens : initialBindingsIdentityToken debugF64 input.initialBindings with
  | none =>
    rw [htokens] at h
    exact absurd h (by simp)
  | some tokens =>
    rw [htokens] at h
    obtain ⟨fingerprint, -, hrest⟩ := bind_eq_ok.mp h
    obtain ⟨key', hkey, heq⟩ := bind_eq_ok.mp hrest
    rw [← some.inj (Except.ok.inj heq), parts_of_new hkey]
    exact ⟨tokens, rfl, rfl⟩

/-- The tokens are the last parts of a provider's key. -/
theorem parts_of_providerCacheKey {versions : QueryStageCacheVersions} {unit : CaapUnit}
    {provider : QueryProvider} {phase : PhasePolicy} {bindings : List (String × RuntimeValue)}
    {key : ArtifactKey}
    (h : providerCacheKey debugF64 contentFingerprint versions unit provider phase bindings =
      .ok (some key)) : ∃ tokens, initialBindingsIdentityToken debugF64 bindings = some tokens ∧
      key.parts.drop 19 = tokens := by
  unfold providerCacheKey at h
  split_ifs at h
  · exact absurd h (by simp)
  obtain ⟨fingerprint, -, hrest⟩ := bind_eq_ok.mp h
  cases htokens : initialBindingsIdentityToken debugF64 bindings with
  | none =>
    rw [htokens] at hrest
    exact absurd hrest (by simp)
  | some tokens =>
    rw [htokens] at hrest
    obtain ⟨key', hkey, heq⟩ := bind_eq_ok.mp hrest
    rw [← some.inj (Except.ok.inj heq), parts_of_new hkey]
    exact ⟨tokens, rfl, rfl⟩

end CacheKeys

/-- Neither the tokens nor one of the two cache keys is shared by lists of bindings that
    differ, when no text inside a tuple, list or map holds a character that structures the
    token. -/
theorem initialBindingsIdentityToken_injective (debugF64 : UInt64 → String)
    (contentFingerprint : CaapUnit → CaapResult String)
    (bindings bindings' : List (String × RuntimeValue)) (hb : DataBindings bindings)
    (hb' : DataBindings bindings') (hfree : ∀ e ∈ bindings, e.2.separatorFree = true)
    (hfree' : ∀ e ∈ bindings', e.2.separatorFree = true) :
    (∀ tokens, initialBindingsIdentityToken debugF64 bindings = some tokens →
      initialBindingsIdentityToken debugF64 bindings' = some tokens →
      SameBindings bindings bindings') ∧
    (∀ input input' : QueryStageCacheKeyInput, ∀ key, input.initialBindings = bindings →
      input'.initialBindings = bindings' →
      queryStageCacheKey debugF64 contentFingerprint input = .ok (some key) →
      queryStageCacheKey debugF64 contentFingerprint input' = .ok (some key) →
      SameBindings bindings bindings') ∧
    ∀ versions versions' unit unit' provider provider' phase phase' key,
      providerCacheKey debugF64 contentFingerprint versions unit provider phase bindings =
        .ok (some key) →
      providerCacheKey debugF64 contentFingerprint versions' unit' provider' phase' bindings' =
        .ok (some key) → SameBindings bindings bindings' := by
  refine ⟨fun tokens => sameBindings_of_tokens hb hb' hfree hfree', ?_, ?_⟩
  · rintro input input' key rfl rfl h h'
    obtain ⟨tokens, htokens, hparts⟩ := parts_of_queryStageCacheKey h
    obtain ⟨tokens', htokens', hparts'⟩ := parts_of_queryStageCacheKey h'
    have hsame : tokens' = tokens := hparts'.symm.trans hparts
    exact sameBindings_of_tokens hb hb' hfree hfree' htokens (hsame ▸ htokens')
  · intro versions versions' unit unit' provider provider' phase phase' key h h'
    obtain ⟨tokens, htokens, hparts⟩ := parts_of_providerCacheKey h
    obtain ⟨tokens', htokens', hparts'⟩ := parts_of_providerCacheKey h'
    have hsame : tokens' = tokens := hparts'.symm.trans hparts
    exact sameBindings_of_tokens hb hb' hfree hfree' htokens (hsame ▸ htokens')

/-- Two maps with the same entries, inserted in another order, beside a text that may hold
    a comma. -/
theorem initialBindingsIdentityToken_injective_reordered : SameBindings
    [("x", .map [(.str "a", .int 1), (.null, .tuple [.str "b"])]), ("y", .str "c,str:d")]
      [("y", .str "c,str:d"), ("x", .map [(.null, .tuple [.str "b"]), (.str "a", .int 1)])] :=
  (initialBindingsIdentityToken_injective (fun _ => "") (fun _ => .ok "00") _ _
    ⟨by decide, by decide⟩ ⟨by decide, by decide⟩ (by decide) (by decide)).1 _ rfl rfl

/-- A tuple of one text reads as a tuple of two, and a map key takes over the value: the
    tokens, and with them both keys, are those of other bindings. -/
theorem initialBindingsIdentityToken_collision :
    let one : List (String × RuntimeValue) := [("x", .tuple [.str "a,str:b"])]
    let two : List (String × RuntimeValue) := [("x", .tuple [.str "a", .str "b"])]
    let value : List (String × RuntimeValue) := [("x", .map [(.str "a", .str "b:null")])]
    let key : List (String × RuntimeValue) := [("x", .map [(.str "a:str:b", .null)])]
    (∀ bindings ∈ [one, two, value, key], (bindings.map Prod.fst).Nodup ∧
      ∀ e ∈ bindings, e.2.isData = true) ∧ (initialBindingsIdentityToken (fun _ => "") one =
        some ["initial_binding", "x", "tuple:[str:a,str:b]"] ∧
      initialBindingsIdentityToken (fun _ => "") two =
        some ["initial_binding", "x", "tuple:[str:a,str:b]"] ∧ ¬ SameBindings one two) ∧
    (initialBindingsIdentityToken (fun _ => "") value =
        some ["initial_binding", "x", "map:\x7bstr:a:str:b:null\x7d"] ∧
      initialBindingsIdentityToken (fun _ => "") key =
        some ["initial_binding", "x", "map:\x7bstr:a:str:b:null\x7d"] ∧ ¬ SameBindings value key) ∧
    (∀ fingerprint (input : QueryStageCacheKeyInput), queryStageCacheKey (fun _ => "") fingerprint
        { input with initialBindings := one } =
      queryStageCacheKey (fun _ => "") fingerprint { input with initialBindings := two }) ∧
    ∀ fingerprint versions unit provider phase,
      providerCacheKey (fun _ => "") fingerprint versions unit provider phase one =
        providerCacheKey (fun _ => "") fingerprint versions unit provider phase two := by
  refine ⟨by decide, ⟨rfl, rfl, by decide⟩, ⟨rfl, rfl, by decide⟩, ?_, ?_⟩
  · intro fingerprint input
    rfl
  · intro fingerprint versions unit provider phase
    rfl

end Caap
