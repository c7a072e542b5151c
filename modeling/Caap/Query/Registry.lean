/-
  Caap.Query.Registry

  The registry of stages and providers (`compiler/query_provider_registry.rs`) with the
  normalisation of what is registered (`compiler/query_provider_types.rs`,
  `semantic/policy.rs`).  Whatever is registered, and in whatever order, the names of the
  providers are distinct and their lists hold non-empty labels once (`wellFormed_run`).
-/

import Caap.Query.Schedule

namespace Caap

open Std Lib OrdMap List

/-! ## Labels -/

/-- `char::is_whitespace`. -/
def isWhitespace (c : Char) : Bool :=
  let n := c.toNat
  (9 ≤ n && n ≤ 13) || n == 0x20 || n == 0x85 || n == 0xA0 || n == 0x1680 ||
    (0x2000 ≤ n && n ≤ 0x200A) || n == 0x2028 || n == 0x2029 || n == 0x202F || n == 0x205F ||
    n == 0x3000

/-- `char::is_control`. -/
def isControl (c : Char) : Bool :=
  let n := c.toNat
  n ≤ 0x1F || (0x7F ≤ n && n ≤ 0x9F)

/-- `str::trim`. -/
def trim (s : String) : String :=
  String.ofList ((s.toList.dropWhile isWhitespace).reverse.dropWhile isWhitespace).reverse

/-- `str::split_once`. -/
def splitOnce (s : String) (sep : Char) : Option (String × String) :=
  match s.toList.span (· != sep) with
  | (_, []) => none
  | (before, _ :: after) => some (String.ofList before, String.ofList after)

/-- `normalize_stage_name`. -/
def normalizeStageName (value : String) : CaapResult String :=
  if trim value = "" then .error (.compiler "compiler stage name must be non-empty")
  else .ok (trim value)

/-- The loop that `normalize_unique_labels`, `normalize_data_keys` and
    `normalize_provider_domains` share: normalise each value and refuse one that is there. -/
def collectUnique (normalize : String → CaapResult String) (label : String)
    (values : List String) : CaapResult (List String) := do
  let normalized ← foldOk (fun (normalized : OrdSet String) value => do
    let value ← normalize value
    if value ∈ normalized then .error (.compiler (label ++ " is duplicated: " ++ value))
    else .ok (normalized.insert value ())) ∅ values
  .ok normalized.keys

/-- `normalize_unique_labels`. -/
def normalizeUniqueLabels (values : List String) (label : String) : CaapResult (List String) :=
  collectUnique (fun value =>
    if trim value = "" then .error (.compiler (label ++ " must be non-empty"))
    else .ok (trim value)) label values

/-- `normalize_data_key_domain`. -/
def normalizeDataKeyDomain (domain : String) : CaapResult String :=
  let domain := trim domain
  if domain = "" then .error (.compiler "provider data key domain must be non-empty")
  else if !domain.toList.all fun c => c.isAlphanum || c == '-' || c == '_' then
    .error (.compiler "provider data key domain must use ASCII letters, digits, '-' or '_'")
  else .ok domain

/-- `normalize_domain_data_key`. -/
def normalizeDomainDataKey (domain rest : String) : CaapResult String := do
  let domain ← normalizeDataKeyDomain domain
  let rest := trim rest
  if rest = "" then
    .error (.compiler "provider data key must include a subject or '*' wildcard")
  else if rest.toList.any fun c => isControl c || isWhitespace c then
    .error (.compiler
      "provider data key subject must not contain whitespace or control characters")
  else .ok (domain ++ "." ++ rest)

/-- `normalize_data_key`. -/
def normalizeDataKey (value : String) : CaapResult String :=
  let value := trim value
  if value = "" then .error (.compiler "provider data key must be non-empty")
  else
    match splitOnce value ':', splitOnce value '.' with
    | some (domain, rest), _ => normalizeDomainDataKey domain rest
    | none, some (domain, rest) => normalizeDomainDataKey domain rest
    | none, none => normalizeDomainDataKey value "*"

/-- `normalize_data_keys`. -/
def normalizeDataKeys (values : List String) : CaapResult (List String) :=
  collectUnique normalizeDataKey "provider data key" values

/-- `PROVIDER_DOMAINS`. -/
def providerDomains : List String :=
  ["attributes", "cache", "diagnostics", "events", "facts", "files", "host_services", "ir",
    "registry", "symbols", "unit"]

/-- `normalize_provider_domain`. -/
def normalizeProviderDomain (domain : String) : CaapResult String :=
  let domain := trim domain
  if domain ∈ providerDomains then .ok domain
  else
    .error (.compiler ("unsupported provider domain " ++ debugStr domain ++
      "; supported values: " ++ ", ".intercalate providerDomains))

/-- `normalize_provider_domains`. -/
def normalizeProviderDomains (values : List String) (label : String) : CaapResult (List String) :=
  collectUnique (fun value =>
    match normalizeProviderDomain value with
    | .ok domain => .ok domain
    | .error error =>
      .error (.compiler (label ++ " " ++ debugStr value ++ " is invalid: " ++ error.display)))
    label values

/-- `data_keys_for_domains`. -/
def dataKeysForDomains (domains : List String) : CaapResult (List String) :=
  normalizeDataKeys (domains.map (· ++ ".*"))

/-- `require_non_empty_labels`. -/
def requireNonEmptyLabels (values : List String) (label : String) : CaapResult (List String) := do
  checkDistinct id
    (fun value => if value = "" then .error (.compiler (label ++ " must be non-empty")) else .ok ())
    (fun value => .compiler (label ++ " is duplicated: " ++ value)) [] values
  .ok values

/-- `normalize_cache_scope`. -/
def normalizeCacheScope (value : String) : CaapResult QueryProviderCacheScope :=
  if value = "" then .error (.compiler "query provider cache_scope must be non-empty")
  else if value = "none" then .ok .none
  else if value = "unit" then .ok .unit
  else
    .error (.compiler ("unsupported query provider cache_scope " ++ debugStr value ++
      "; supported values: none, unit"))

/-- `normalize_resume_policy`. -/
def normalizeResumePolicy (value : String) : CaapResult QueryProviderResumePolicy :=
  if value = "" then .error (.compiler "query provider resume_policy must be non-empty")
  else if value = "safe" then .ok .safe
  else if value = "never" then .ok .never
  else if value = "bootstrap_safe" then .ok .bootstrapSafe
  else
    .error (.compiler ("unsupported query provider resume_policy " ++ debugStr value ++
      "; supported values: safe, never, bootstrap_safe"))

/-! ## Effect tags -/

/-- `validate_effect_policy_tag`. -/
def validateEffectPolicyTag (tag : String) : CaapResult Unit :=
  if tag = "" then .error (.semantic "effect policy tags must be non-empty")
  else if trim tag ≠ tag then
    .error (.semantic ("effect policy tags must not contain leading or trailing whitespace: " ++
      debugStr tag))
  else if tag.toList.any fun c => !(c.isLower || c.isDigit || c == '_') then
    .error (.semantic ("effect policy tag contains unsupported characters: " ++ debugStr tag))
  else if startsWith tag "_" || (stripSuffix tag "_").isSome ||
      (tag.toList.zip tag.toList.tail).contains ('_', '_') then
    .error (.semantic ("effect policy tags must be snake_case with non-empty segments: " ++
      debugStr tag))
  else .ok ()

variable {label : String} {values : List String}

namespace EffectSet

/-- The set of the tags in a list. -/
def ofTags (tags : List String) : EffectSet :=
  ⟨sortDedup tags, (pairwise_sortDedup tags).imp fun h => compare_lt_iff_lt.mp h⟩

/-- `EffectTag::new`, with the message of the loops below. -/
def checkTag (label value : String) : CaapResult Unit :=
  match validateEffectPolicyTag value with
  | .ok _ => .ok ()
  | .error error =>
    .error (.semantic (label ++ " is invalid (" ++ debugStr value ++ "): " ++ error.display))

/-- `EffectSet::from_unique_strings`. -/
def fromUniqueStrings (values : List String) (label : String) : CaapResult EffectSet := do
  checkDistinct id (checkTag label) (fun tag => .semantic (label ++ " is duplicated: " ++ tag)) []
    values
  .ok (ofTags values)

/-- `EffectSet::from_string_set`. -/
def fromStringSet (values : List String) (label : String) : CaapResult EffectSet := do
  checkAll (checkTag label) values
  .ok (ofTags values)

/-- Every tag passes its check. -/
def Valid (e : EffectSet) : Prop := ∀ tag ∈ e.tags, validateEffectPolicyTag tag = .ok ()

theorem mem_ofTags {tags : List String} {tag : String} : tag ∈ (ofTags tags).tags ↔ tag ∈ tags :=
  mem_sortDedup

theorem checkTag_eq_ok {value : String} :
    checkTag label value = .ok () ↔ validateEffectPolicyTag value = .ok () := by
  unfold checkTag
  cases validateEffectPolicyTag value <;> simp

theorem fromUniqueStrings_valid {e : EffectSet}
    (h : fromUniqueStrings values label = .ok e) : e.Valid := by
  obtain ⟨_, hcheck, heq⟩ := bind_eq_ok.mp h
  obtain rfl := Except.ok.inj heq
  intro tag htag
  exact checkTag_eq_ok.mp ((checkDistinct_eq_ok.mp hcheck).1 tag (mem_ofTags.mp htag))

end EffectSet

/-! ## The registry -/

/-- `QueryStageSpec`. -/
structure QueryStageSpec where
  name : String
  requires : List String
  phasePolicy : PhasePolicy
  inputKinds : List String
  familyLabel : Option String
  aliases : List String
  restartStage : Option String
  deriving DecidableEq

/-- `QueryProviderRegistrationSpec`; its family is not read. -/
structure QueryProviderRegistrationSpec where
  inputSchema : Option String
  requiresData : List String
  providesData : List String
  reads : List String
  writes : List String
  cacheScope : String
  resumePolicy : String

/-- `QueryProviderRegistrationSpec::default`. -/
def QueryProviderRegistrationSpec.default : QueryProviderRegistrationSpec :=
  { inputSchema := none, requiresData := [], providesData := [], reads := [], writes := []
    cacheScope := "none", resumePolicy := "safe" }

/-- `QueryProviderContractSpec`. -/
structure QueryProviderContractSpec where
  name : String
  stage : String
  family : Option String
  phasePolicy : PhasePolicy
  requires : List String
  effectTags : List String
  registration : QueryProviderRegistrationSpec

/-- `QueryProviderRegistry`. -/
structure QueryProviderRegistry where
  stages : OrdMap String QueryStageSpec
  aliases : OrdMap String String
  defaultStageByFamily : OrdMap String String
  inputKindToStage : OrdMap String String
  providers : List QueryProvider
  nextRegistrationIndex : Nat
  version : Nat

namespace QueryProviderRegistry

/-- `QueryProviderRegistry::new`. -/
def new : QueryProviderRegistry :=
  { stages := ∅, aliases := ∅, defaultStageByFamily := ∅, inputKindToStage := ∅, providers := []
    nextRegistrationIndex := 0, version := 0 }

/-- `next_version`. -/
def nextVersion (r : QueryProviderRegistry) : CaapResult Nat :=
  if r.version + 1 < u64Size then .ok (r.version + 1)
  else .error (.compiler "query provider registry version overflow")

/-- `next_registration_index`. -/
def followingRegistrationIndex (r : QueryProviderRegistry) : CaapResult Nat :=
  if r.nextRegistrationIndex + 1 < u64Size then .ok (r.nextRegistrationIndex + 1)
  else .error (.compiler "query provider registration index overflow")

/-- `resolve_stage`. -/
def resolveStage (r : QueryProviderRegistry) (target : String) : CaapResult String :=
  if r.stages.isEmpty then .error (.compiler "no compiler stages registered")
  else do
    let target ← normalizeStageName target
    if target ∈ r.stages then .ok target
    else
      match r.aliases[target]? with
      | some stage => .ok stage
      | none => .error (.compiler ("unsupported query target: " ++ target))

/-- The entries of an index that do not belong to a stage (`retain` of
    `drop_stage_indexes`). -/
def dropStage (stage : String) (index : OrdMap String String) : OrdMap String String :=
  OrdMap.ofEntries (index.toList.filter fun entry => entry.2 ≠ stage)

/-- An index in which every key of a list belongs to a stage. -/
def assignStage (stage : String) (keys : List String) (index : OrdMap String String) :
    OrdMap String String :=
  keys.foldl (fun index key => index.insert key stage) index

/-- Refuse a key that another stage owns. -/
def checkOwner (index : OrdMap String String) (name : String) (message : String → String → String)
    (key : String) : CaapResult Unit :=
  match index[key]? with
  | some owner => if owner ≠ name then .error (.compiler (message key owner)) else .ok ()
  | none => .ok ()

/-- The message for an alias of another stage. -/
def aliasOwned (key owner : String) : String :=
  "compiler stage alias " ++ debugStr key ++ " is already registered for stage " ++ debugStr owner

/-- Normalise a label that may be absent. -/
def normalizeOptional : Option String → CaapResult (Option String)
  | none => .ok none
  | some value => do
    let value ← normalizeStageName value
    .ok (some value)

/-- `register_stage`. -/
def registerStage (r : QueryProviderRegistry) (spec : QueryStageSpec) :
    CaapResult QueryProviderRegistry := do
  let name ← normalizeStageName spec.name
  let requires ← normalizeUniqueLabels spec.requires "compiler stage dependency"
  let aliases ← normalizeUniqueLabels spec.aliases "compiler stage alias"
  let inputKinds ← normalizeUniqueLabels spec.inputKinds "compiler stage input kind"
  let familyLabel ← normalizeOptional spec.familyLabel
  let restartStage ← normalizeOptional spec.restartStage
  if name ∈ requires then .error (.compiler "compiler stage cannot require itself")
  else do
    checkAll (checkOwner r.aliases name aliasOwned) aliases
    checkAll (checkOwner r.inputKindToStage name fun key owner =>
      "input kind " ++ debugStr key ++ " is already accepted by stage " ++ debugStr owner) inputKinds
    let version ← r.nextVersion
    let families := dropStage name r.defaultStageByFamily
    .ok
      { r with
        aliases := assignStage name aliases (dropStage name r.aliases)
        inputKindToStage := assignStage name inputKinds (dropStage name r.inputKindToStage)
        defaultStageByFamily :=
          match familyLabel with
          | some family => if family ∈ families then families else families.insert family name
          | none => families
        stages := r.stages.insert name
          { name := name, requires := requires, phasePolicy := spec.phasePolicy
            inputKinds := inputKinds, familyLabel := familyLabel, aliases := aliases
            restartStage := restartStage }
        version := version }

/-- `register_alias`. -/
def registerAlias (r : QueryProviderRegistry) (stage newAlias : String) :
    CaapResult QueryProviderRegistry := do
  let stage ← r.resolveStage stage
  let newAlias ← normalizeStageName newAlias
  checkOwner r.aliases stage aliasOwned newAlias
  let version ← r.nextVersion
  .ok
    { r with
      aliases := r.aliases.insert newAlias stage
      stages :=
        match r.stages[stage]? with
        | some spec =>
          if newAlias ∈ spec.aliases then r.stages
          else r.stages.insert stage { spec with aliases := sort (spec.aliases ++ [newAlias]) }
        | none => r.stages
      version := version }

/-- `register_restart_stage`. -/
def registerRestartStage (r : QueryProviderRegistry) (stage restartStage : String) :
    CaapResult QueryProviderRegistry := do
  let stage ← r.resolveStage stage
  let restartStage ← r.resolveStage restartStage
  let version ← r.nextVersion
  .ok
    { r with
      stages :=
        match r.stages[stage]? with
        | some spec => r.stages.insert stage { spec with restartStage := some restartStage }
        | none => r.stages
      version := version }

/-- The checks on the name of a new provider. -/
def checkProviderName (r : QueryProviderRegistry) (name : String) : CaapResult Unit :=
  if name = "" then .error (.compiler "query provider name must be non-empty")
  else if name ∈ r.providers.map QueryProvider.name then
    .error (.compiler ("query provider already registered: " ++ name))
  else .ok ()

/-- Add a provider, with the next registration index. -/
def push (r : QueryProviderRegistry) (provider : Nat → QueryProvider) :
    CaapResult QueryProviderRegistry := do
  let nextRegistrationIndex ← r.followingRegistrationIndex
  let version ← r.nextVersion
  .ok
    { r with
      providers := r.providers ++ [provider r.nextRegistrationIndex]
      nextRegistrationIndex := nextRegistrationIndex
      version := version }

/-- `register_provider_with_effects`. -/
def registerProviderWithEffects (r : QueryProviderRegistry) (name stage : String)
    (phasePolicy : PhasePolicy) (effectTags : List String) (callback : Nat) :
    CaapResult QueryProviderRegistry := do
  r.checkProviderName name
  let stage ← r.resolveStage stage
  let effectTags ← EffectSet.fromUniqueStrings effectTags "query provider effect tag"
  r.push fun index => QueryProvider.registered name stage phasePolicy effectTags index callback

/-- The data a provider provides: what it says, or all of the domains it writes. -/
def providedData (explicitProvidesData writes : List String) : CaapResult (List String) :=
  if explicitProvidesData.isEmpty then dataKeysForDomains writes else .ok explicitProvidesData

/-- `register_provider_contract_with_outcome_and_effect_postconditions`. -/
def registerProviderContract (r : QueryProviderRegistry) (contract : QueryProviderContractSpec)
    (enforceEffectPostconditions : Bool) (callback : Nat) : CaapResult QueryProviderRegistry := do
  r.checkProviderName contract.name
  let stage ← r.resolveStage contract.stage
  let family ← normalizeOptional contract.family
  let requires ← requireNonEmptyLabels contract.requires "query provider requirement"
  let effectTags ← EffectSet.fromUniqueStrings contract.effectTags "query provider effect tag"
  let spec := contract.registration
  let requiresData ← normalizeDataKeys spec.requiresData
  let explicitProvidesData ← normalizeDataKeys spec.providesData
  let reads ← normalizeProviderDomains spec.reads "query provider read domain"
  let writes ← normalizeProviderDomains spec.writes "query provider write domain"
  let providesData ← providedData explicitProvidesData writes
  let cacheScope ← normalizeCacheScope spec.cacheScope
  let resumePolicy ← normalizeResumePolicy spec.resumePolicy
  r.push fun index =>
    { name := contract.name
      stage := stage
      family := family
      phasePolicy := contract.phasePolicy
      requires := requires
      requiresData := requiresData
      providesData := providesData
      provides := providesData
      effectTags := effectTags
      inputSchema := spec.inputSchema
      reads := reads
      writes := writes
      cacheScope := cacheScope
      resumePolicy := resumePolicy
      registrationIndex := index
      enforceEffectPostconditions := enforceEffectPostconditions
      callback := callback }

/-- `ordered_providers`. -/
def orderedProviders (r : QueryProviderRegistry) : List QueryProvider :=
  r.providers.insertionSort fun a b => a.registrationIndex ≤ b.registrationIndex

/-- `providers_for_stage`. -/
def providersForStage (r : QueryProviderRegistry) (stage : String) :
    CaapResult (List QueryProvider) := do
  let stage ← r.resolveStage stage
  .ok (r.orderedProviders.filter fun provider => provider.stage = stage)

end QueryProviderRegistry

/-- `observed_provider_requires`. -/
def observedProviderRequires (providers : List QueryProvider)
    (previouslySatisfied : OrdSet String) (dynamicRequires : OrdMap String (List String)) :
    OrdMap String (List String) :=
  OrdMap.ofEntries (providers.map fun provider =>
    (provider.name, sortDedup (((dynamicRequires[provider.name]?).getD []).filter fun requirement =>
      (providers.map QueryProvider.name).contains requirement ||
        decide (requirement ∈ previouslySatisfied))))

/-- `provider_schedule_for_stage_with_dynamic_requires`. -/
def QueryProviderRegistry.providerScheduleForStage (r : QueryProviderRegistry) (stage : String)
    (availableData : List String) (previouslySatisfied : OrdSet String)
    (dynamicRequires : OrdMap String (List String)) : CaapResult QueryProviderSchedule := do
  let providers ← r.providersForStage stage
  let availableData ← normalizeDataKeys availableData
  providerScheduleBatches providers availableData
    (observedProviderRequires providers previouslySatisfied dynamicRequires)

/-! ## What is registered -/

/-- Every label once, and none of them empty. -/
structure UniqueLabels (labels : List String) : Prop where
  nodup : labels.Nodup
  nonempty : ∀ label ∈ labels, label ≠ ""

theorem uniqueLabels_nil : UniqueLabels [] := ⟨nodup_nil, by simp⟩

theorem uniqueLabels_of_collectUnique {normalize : String → CaapResult String}
    {labels : List String} (h : collectUnique normalize label values = .ok labels)
    (hnormalize : ∀ value result, normalize value = .ok result → result ≠ "") :
    UniqueLabels labels := by
  obtain ⟨normalized, hfold, heq⟩ := bind_eq_ok.mp h
  obtain rfl := Except.ok.inj heq
  refine ⟨nodup_keysList normalized, fun x hx => ?_⟩
  have hall : ∀ x ∈ normalized, x ≠ "" := by
    refine foldOk_invariant (I := fun _ (s : OrdSet String) => ∀ x ∈ s, x ≠ "") ?_ hfold (by simp)
    intro _ value s s' hs hstep x hx
    obtain ⟨result, hresult, hinsert⟩ := bind_eq_ok.mp hstep
    split_ifs at hinsert with hmem
    obtain rfl := Except.ok.inj hinsert
    rcases mem_insert.mp hx with rfl | hold
    · exact hnormalize value x hresult
    · exact hs x hold
  exact hall x (ExtTreeMap.mem_keys.mp hx)

theorem normalizeDomainDataKey_ne {domain rest key : String}
    (h : normalizeDomainDataKey domain rest = .ok key) : key ≠ "" := by
  obtain ⟨d, -, hrest⟩ := bind_eq_ok.mp h
  simp only at hrest
  split_ifs at hrest
  obtain rfl := Except.ok.inj hrest
  intro hempty
  have htext := congrArg String.toList hempty
  simp at htext

theorem normalizeDataKey_ne {value key : String} (h : normalizeDataKey value = .ok key) :
    key ≠ "" := by
  unfold normalizeDataKey at h
  simp only at h
  split_ifs at h
  split at h <;> exact normalizeDomainDataKey_ne h

variable {name : String}

theorem normalizeStageName_ne {value : String} (h : normalizeStageName value = .ok name) :
    name ≠ "" := by
  unfold normalizeStageName at h
  split_ifs at h with hempty
  exact Except.ok.inj h ▸ hempty

theorem uniqueLabels_dataKeys {keys : List String} (h : normalizeDataKeys values = .ok keys) :
    UniqueLabels keys :=
  uniqueLabels_of_collectUnique h fun _ _ => normalizeDataKey_ne

theorem uniqueLabels_domains {domains : List String}
    (h : normalizeProviderDomains values label = .ok domains) : UniqueLabels domains := by
  refine uniqueLabels_of_collectUnique h fun value domain hdomain => ?_
  unfold normalizeProviderDomain at hdomain
  simp only at hdomain
  split_ifs at hdomain with hmem
  obtain rfl := Except.ok.inj hdomain
  rintro hempty
  rw [hempty] at hmem
  exact absurd hmem (by decide)

theorem uniqueLabels_required {labels : List String}
    (h : requireNonEmptyLabels values label = .ok labels) : UniqueLabels labels := by
  obtain ⟨_, hcheck, heq⟩ := bind_eq_ok.mp h
  obtain rfl := Except.ok.inj heq
  obtain ⟨hne, hnodup, -⟩ := checkDistinct_eq_ok.mp hcheck
  rw [map_id] at hnodup
  refine ⟨hnodup, fun x hx hempty => ?_⟩
  have hx' := hne x hx
  rw [if_pos hempty] at hx'
  exact absurd hx' (by simp)

/-- What holds of every provider of a registry. -/
structure QueryProvider.WellFormed (p : QueryProvider) : Prop where
  name : p.name ≠ ""
  stage : p.stage ≠ ""
  requires : UniqueLabels p.requires
  requiresData : UniqueLabels p.requiresData
  providesData : UniqueLabels p.providesData
  provides : UniqueLabels p.provides
  reads : UniqueLabels p.reads
  writes : UniqueLabels p.writes
  effectTags : p.effectTags.Valid

namespace QueryProviderRegistry

theorem dropWhile_of_head {p : Char → Bool} {l : List Char}
    (h : ∀ c, l.head? = some c → p c = false) : l.dropWhile p = l := by
  cases l with
  | nil => rfl
  | cons c l => rw [dropWhile_cons_of_neg (by simp [h c rfl])]

theorem trim_trim (s : String) : trim (trim s) = trim s := by
  unfold trim
  rw [String.toList_ofList]
  set middle := s.toList.dropWhile isWhitespace with hmiddle
  set text := (middle.reverse.dropWhile isWhitespace).reverse with htext
  have hhead : text.dropWhile isWhitespace = text := by
    apply dropWhile_of_head
    intro c hc
    obtain ⟨rest, hrest⟩ : text <+: middle := by
      have hsuffix := dropWhile_suffix isWhitespace (l := middle.reverse)
      simpa [htext] using reverse_suffix.mp (by simpa [htext] using hsuffix)
    have hcm : middle.head? = some c := by
      rw [← hrest]
      cases htext' : text with
      | nil => simp [htext'] at hc
      | cons a l => simpa [htext'] using hc
    have hnot := head?_dropWhile_not isWhitespace s.toList
    rw [← hmiddle, hcm] at hnot
    simpa using hnot
  rw [hhead, htext, reverse_reverse, dropWhile_idempotent]

theorem normalizeStageName_normal {value : String} (h : normalizeStageName value = .ok name) :
    normalizeStageName name = .ok name := by
  have hne := normalizeStageName_ne h
  unfold normalizeStageName at h ⊢
  split_ifs at h with hempty
  obtain rfl := Except.ok.inj h
  rw [trim_trim, if_neg hne]

/-- Every stage is filed under its normalised name, and an alias belongs to a stage. -/
structure Named (r : QueryProviderRegistry) : Prop where
  keyed : ∀ (key : String) (spec : QueryStageSpec), r.stages[key]? = some spec → spec.name = key
  normal : ∀ stage ∈ r.stages, normalizeStageName stage = .ok stage
  aliases : ∀ (key : String) stage, r.aliases[key]? = some stage → stage ∈ r.stages

/-- The invariant of the registry: the stages are named, and the providers are well formed and
    have distinct names. -/
structure WellFormed (r : QueryProviderRegistry) : Prop where
  named : r.Named
  names : (r.providers.map QueryProvider.name).Nodup
  providers : ∀ p ∈ r.providers, p.WellFormed

theorem named_new : new.Named := ⟨by simp [new], by simp [new], by simp [new]⟩

theorem wellFormed_new : new.WellFormed := ⟨named_new, by simp [new], by simp [new]⟩

variable {r r' : QueryProviderRegistry}

variable {stage : String}

theorem Named.resolveStage_mem (h : r.Named) {target : String}
    (hstage : r.resolveStage target = .ok stage) : stage ∈ r.stages := by
  unfold resolveStage at hstage
  split_ifs at hstage
  obtain ⟨name, -, hrest⟩ := bind_eq_ok.mp hstage
  split_ifs at hrest with hmem
  · exact Except.ok.inj hrest ▸ hmem
  · cases halias : r.aliases[name]? with
    | none => simp [halias] at hrest
    | some owner =>
      simp only [halias] at hrest
      exact Except.ok.inj hrest ▸ h.aliases name owner halias

theorem Named.resolveStage_ne (h : r.Named) {target : String}
    (hstage : r.resolveStage target = .ok stage) : stage ≠ "" :=
  normalizeStageName_ne (h.normal stage (h.resolveStage_mem hstage))

/-- New aliases of a stage and a new entry under its own name. -/
theorem Named.insert (h : r.Named) {spec : QueryStageSpec}
    (hr' : r'.stages = r.stages.insert name spec) (hname : spec.name = name)
    (hnormal : normalizeStageName name = .ok name)
    (haliases : ∀ (key : String) stage, r'.aliases[key]? = some stage →
      stage = name ∨ stage ∈ r.stages) : r'.Named := by
  refine ⟨?_, ?_, ?_⟩
  · intro key spec' hlookup
    rw [hr', lookup_insert] at hlookup
    split_ifs at hlookup with hkey
    · rw [← Option.some.inj hlookup, hname, hkey]
    · exact h.keyed key spec' hlookup
  · intro stage hstage
    rw [hr'] at hstage
    rcases mem_insert.mp hstage with rfl | hold
    · exact hnormal
    · exact h.normal stage hold
  · intro key stage hlookup
    rw [hr']
    exact mem_insert.mpr (haliases key stage hlookup)

theorem Named.congr (h : r.Named) (hs : r'.stages = r.stages)
    (ha : ∀ (key : String) stage, r'.aliases[key]? = some stage → stage ∈ r.stages) : r'.Named :=
  ⟨by rw [hs]; exact h.keyed, by rw [hs]; exact h.normal, by rw [hs]; exact ha⟩

theorem checkProviderName_eq_ok (h : r.checkProviderName name = .ok ()) :
    name ≠ "" ∧ name ∉ r.providers.map QueryProvider.name := by
  unfold checkProviderName at h
  split_ifs at h with hempty hmem
  exact ⟨hempty, hmem⟩

theorem WellFormed.push (h : r.WellFormed) {provider : Nat → QueryProvider}
    (hr : r.push provider = .ok r') (hname : ∀ index, (provider index).name = name)
    (hnew : name ∉ r.providers.map QueryProvider.name)
    (hprovider : ∀ index, (provider index).WellFormed) : r'.WellFormed := by
  obtain ⟨index, -, hrest⟩ := bind_eq_ok.mp hr
  obtain ⟨version, -, heq⟩ := bind_eq_ok.mp hrest
  obtain rfl := Except.ok.inj heq
  refine ⟨h.named.congr rfl h.named.aliases, ?_, ?_⟩
  · rw [map_append, map_singleton, hname]
    exact nodup_append'.mpr ⟨h.names, nodup_singleton _, by simpa using hnew⟩
  · intro p hp
    rcases mem_append.mp hp with hold | hlast
    · exact h.providers p hold
    · rw [mem_singleton.mp hlast]
      exact hprovider _

theorem WellFormed.registerProviderWithEffects (h : r.WellFormed)
    {phasePolicy : PhasePolicy} {effectTags : List String} {callback : Nat}
    (hr : r.registerProviderWithEffects name stage phasePolicy effectTags callback = .ok r') :
    r'.WellFormed := by
  obtain ⟨_, hname, hr⟩ := bind_eq_ok.mp hr
  obtain ⟨stage', hstage, hr⟩ := bind_eq_ok.mp hr
  obtain ⟨tags, htags, hr⟩ := bind_eq_ok.mp hr
  obtain ⟨hne, hnew⟩ := checkProviderName_eq_ok hname
  refine h.push hr (fun _ => rfl) hnew fun _ => ?_
  exact ⟨hne, h.named.resolveStage_ne hstage, uniqueLabels_nil, uniqueLabels_nil, uniqueLabels_nil,
    uniqueLabels_nil, uniqueLabels_nil, uniqueLabels_nil, EffectSet.fromUniqueStrings_valid htags⟩

theorem WellFormed.registerProviderContract (h : r.WellFormed)
    {contract : QueryProviderContractSpec} {enforce : Bool} {callback : Nat}
    (hr : r.registerProviderContract contract enforce callback = .ok r') : r'.WellFormed := by
  obtain ⟨_, hname, hr⟩ := bind_eq_ok.mp hr
  obtain ⟨stage, hstage, hr⟩ := bind_eq_ok.mp hr
  obtain ⟨family, -, hr⟩ := bind_eq_ok.mp hr
  obtain ⟨requires, hrequires, hr⟩ := bind_eq_ok.mp hr
  obtain ⟨tags, htags, hr⟩ := bind_eq_ok.mp hr
  obtain ⟨requiresData, hrequiresData, hr⟩ := bind_eq_ok.mp hr
  obtain ⟨explicit, hexplicit, hr⟩ := bind_eq_ok.mp hr
  obtain ⟨reads, hreads, hr⟩ := bind_eq_ok.mp hr
  obtain ⟨writes, hwrites, hr⟩ := bind_eq_ok.mp hr
  obtain ⟨providesData, hprovidesData, hr⟩ := bind_eq_ok.mp hr
  obtain ⟨scope, -, hr⟩ := bind_eq_ok.mp hr
  obtain ⟨policy, -, hr⟩ := bind_eq_ok.mp hr
  obtain ⟨hne, hnew⟩ := checkProviderName_eq_ok hname
  have hprovides : UniqueLabels providesData := by
    unfold providedData at hprovidesData
    split_ifs at hprovidesData
    · exact uniqueLabels_dataKeys hprovidesData
    · exact Except.ok.inj hprovidesData ▸ uniqueLabels_dataKeys hexplicit
  refine h.push hr (fun _ => rfl) hnew fun _ => ?_
  exact ⟨hne, h.named.resolveStage_ne hstage, uniqueLabels_required hrequires,
    uniqueLabels_dataKeys hrequiresData, hprovides, hprovides, uniqueLabels_domains hreads,
    uniqueLabels_domains hwrites, EffectSet.fromUniqueStrings_valid htags⟩

theorem lookup_assignStage {P : String → Prop} {keys : List String} {index : OrdMap String String}
    (hindex : ∀ key owner : String, index[key]? = some owner → P owner) (hstage : P stage) :
    ∀ key owner : String, (assignStage stage keys index)[key]? = some owner → P owner := by
  induction keys generalizing index with
  | nil => exact hindex
  | cons k keys ih =>
    refine ih fun key owner hlookup => ?_
    rw [lookup_insert] at hlookup
    split_ifs at hlookup
    · exact Option.some.inj hlookup ▸ hstage
    · exact hindex key owner hlookup

theorem lookup_dropStage {index : OrdMap String String} {key owner : String}
    (h : (dropStage stage index)[key]? = some owner) : index[key]? = some owner := by
  have hnodup : ((index.toList.filter fun entry => entry.2 ≠ stage).map Prod.fst).Nodup :=
    (nodup_keys index).sublist (filter_sublist.map _)
  rw [dropStage, lookup_ofEntries hnodup] at h
  exact mem_toList.mp (mem_filter.mp h).1

theorem Named.registerStage (h : r.Named) {spec : QueryStageSpec}
    (hr : r.registerStage spec = .ok r') : r'.Named ∧ r'.providers = r.providers := by
  obtain ⟨name, hname, hr⟩ := bind_eq_ok.mp hr
  obtain ⟨requires, -, hr⟩ := bind_eq_ok.mp hr
  obtain ⟨aliases, -, hr⟩ := bind_eq_ok.mp hr
  obtain ⟨inputKinds, -, hr⟩ := bind_eq_ok.mp hr
  obtain ⟨familyLabel, -, hr⟩ := bind_eq_ok.mp hr
  obtain ⟨restartStage, -, hr⟩ := bind_eq_ok.mp hr
  split_ifs at hr
  obtain ⟨_, -, hr⟩ := bind_eq_ok.mp hr
  obtain ⟨_, -, hr⟩ := bind_eq_ok.mp hr
  obtain ⟨version, -, hr⟩ := bind_eq_ok.mp hr
  obtain rfl := Except.ok.inj hr
  refine ⟨h.insert rfl rfl (normalizeStageName_normal hname) ?_, rfl⟩
  exact lookup_assignStage (P := fun stage => stage = name ∨ stage ∈ r.stages)
    (fun key owner hlookup => .inr (h.aliases key owner (lookup_dropStage hlookup))) (.inl rfl)

theorem Named.registerAlias (h : r.Named) {newAlias : String}
    (hr : r.registerAlias stage newAlias = .ok r') : r'.Named ∧ r'.providers = r.providers := by
  obtain ⟨stage', hstage, hr⟩ := bind_eq_ok.mp hr
  obtain ⟨alias', -, hr⟩ := bind_eq_ok.mp hr
  obtain ⟨_, -, hr⟩ := bind_eq_ok.mp hr
  obtain ⟨version, -, hr⟩ := bind_eq_ok.mp hr
  have hmem := h.resolveStage_mem hstage
  have haliases : ∀ (key : String) owner, (r.aliases.insert alias' stage')[key]? = some owner →
      owner ∈ r.stages := by
    intro key owner hlookup
    rw [lookup_insert] at hlookup
    split_ifs at hlookup
    · exact Option.some.inj hlookup ▸ hmem
    · exact h.aliases key owner hlookup
  obtain ⟨spec, hspec⟩ := mem_iff_exists.mp hmem
  rw [hspec] at hr
  by_cases hold : alias' ∈ spec.aliases
  · obtain rfl := Except.ok.inj hr
    exact ⟨h.congr (if_pos hold) haliases, rfl⟩
  · obtain rfl := Except.ok.inj hr
    refine ⟨h.insert (if_neg hold) ?_ (h.normal _ hmem)
      fun key owner hlookup => .inr (haliases key owner hlookup), rfl⟩
    exact h.keyed stage' spec hspec

theorem Named.registerRestartStage (h : r.Named) {restartStage : String}
    (hr : r.registerRestartStage stage restartStage = .ok r') : r'.Named ∧ r'.providers = r.providers := by
  obtain ⟨stage', hstage, hr⟩ := bind_eq_ok.mp hr
  obtain ⟨restart', -, hr⟩ := bind_eq_ok.mp hr
  obtain ⟨version, -, hr⟩ := bind_eq_ok.mp hr
  have hmem := h.resolveStage_mem hstage
  obtain ⟨spec, hspec⟩ := mem_iff_exists.mp hmem
  rw [hspec] at hr
  obtain rfl := Except.ok.inj hr
  refine ⟨h.insert rfl ?_ (h.normal _ hmem)
    fun key owner hlookup => .inr (h.aliases key owner hlookup), rfl⟩
  exact h.keyed stage' spec hspec

/-- The operations on stages do not touch the providers. -/
theorem WellFormed.withStages (h : r.WellFormed) (h' : r'.Named ∧ r'.providers = r.providers) :
    r'.WellFormed :=
  ⟨h'.1, h'.2 ▸ h.names, h'.2 ▸ h.providers⟩

/-- One call of a public operation of the registry. -/
inductive Call where
  | registerStage (spec : QueryStageSpec)
  | registerAlias (stage newAlias : String)
  | registerRestartStage (stage restartStage : String)
  | registerProvider (name stage : String) (phasePolicy : PhasePolicy) (effectTags : List String)
      (callback : Nat)
  | registerContract (contract : QueryProviderContractSpec) (enforceEffectPostconditions : Bool)
      (callback : Nat)

/-- The result of a call. -/
def call (r : QueryProviderRegistry) : Call → CaapResult QueryProviderRegistry
  | .registerStage spec => r.registerStage spec
  | .registerAlias stage newAlias => r.registerAlias stage newAlias
  | .registerRestartStage stage restartStage => r.registerRestartStage stage restartStage
  | .registerProvider name stage phasePolicy effectTags callback =>
    r.registerProviderWithEffects name stage phasePolicy effectTags callback
  | .registerContract contract enforce callback =>
    r.registerProviderContract contract enforce callback

/-- The registry after a call; one that fails leaves it as it is. -/
def step (r : QueryProviderRegistry) (c : Call) : QueryProviderRegistry :=
  match r.call c with
  | .ok r' => r'
  | .error _ => r

theorem WellFormed.step (h : r.WellFormed) (c : Call) : (r.step c).WellFormed := by
  unfold QueryProviderRegistry.step
  cases hr : r.call c with
  | error e => exact h
  | ok r' =>
    cases c with
    | registerStage spec => exact h.withStages (h.named.registerStage hr)
    | registerAlias stage newAlias => exact h.withStages (h.named.registerAlias hr)
    | registerRestartStage stage restartStage => exact h.withStages (h.named.registerRestartStage hr)
    | registerProvider name stage phasePolicy effectTags callback =>
      exact h.registerProviderWithEffects hr
    | registerContract contract enforce callback => exact h.registerProviderContract hr

/-- Every registry that calls build is well formed. -/
theorem wellFormed_run (calls : List Call) : (run step new calls).WellFormed :=
  run_invariant (fun _ c h => h.step c) wellFormed_new calls

/-! ## The providers of a stage -/

theorem mem_providersForStage {providers : List QueryProvider}
    (h : r.providersForStage stage = .ok providers) :
    ∃ resolved, r.resolveStage stage = .ok resolved ∧
      ∀ p ∈ providers, p ∈ r.providers ∧ p.stage = resolved := by
  obtain ⟨resolved, hresolved, heq⟩ := bind_eq_ok.mp h
  obtain rfl := Except.ok.inj heq
  refine ⟨resolved, hresolved, fun p hp => ?_⟩
  obtain ⟨hmem, hstage⟩ := mem_filter.mp hp
  exact ⟨(mem_insertionSort _).mp hmem, of_decide_eq_true hstage⟩

theorem WellFormed.nodup_providersForStage (hr : r.WellFormed)
    {providers : List QueryProvider} (h : r.providersForStage stage = .ok providers) :
    (providers.map QueryProvider.name).Nodup := by
  obtain ⟨resolved, -, heq⟩ := bind_eq_ok.mp h
  obtain rfl := Except.ok.inj heq
  have hperm : (r.orderedProviders.map QueryProvider.name).Perm (r.providers.map QueryProvider.name) :=
    (perm_insertionSort _ _).map _
  exact (hperm.nodup_iff.mpr hr.names).sublist (filter_sublist.map _)

/-- The schedule of a stage runs providers of the registry that belong to the stage, each of
    them once. -/
theorem WellFormed.schedule (hr : r.WellFormed) {availableData : List String}
    {previouslySatisfied : OrdSet String} {dynamicRequires : OrdMap String (List String)}
    {schedule : QueryProviderSchedule}
    (h : r.providerScheduleForStage stage availableData previouslySatisfied dynamicRequires =
      .ok schedule) : (schedule.groups.flatten.map QueryProvider.name).Nodup ∧
      ∃ resolved, r.resolveStage stage = .ok resolved ∧
        ∀ p ∈ schedule.groups.flatten, p.WellFormed ∧ p.stage = resolved := by
  obtain ⟨providers, hproviders, h⟩ := bind_eq_ok.mp h
  obtain ⟨keys, -, hschedule⟩ := bind_eq_ok.mp h
  have hnodup := hr.nodup_providersForStage hproviders
  have honce := (providerScheduleBatches_respects hnodup hschedule).once
  obtain ⟨resolved, hresolved, hmem⟩ := mem_providersForStage hproviders
  refine ⟨(honce.map _).nodup_iff.mpr hnodup, resolved, hresolved, fun p hp => ?_⟩
  obtain ⟨hregistered, hstage⟩ := hmem p (honce.mem_iff.mp hp)
  exact ⟨hr.providers p hregistered, hstage⟩

/-- Whatever is registered: no two providers share a name, and a schedule runs the providers
    of its stage once each, in groups that respect their requirements and conflicts. -/
theorem scheduleForStage_respects (calls : List Call) :
    ((run step new calls).providers.map QueryProvider.name).Nodup ∧
    ∀ stage available satisfied requires schedule,
      (run step new calls).providerScheduleForStage stage available satisfied requires =
        .ok schedule →
      ∃ providers keys, (run step new calls).providersForStage stage = .ok providers ∧
        normalizeDataKeys available = .ok keys ∧ (∀ p ∈ providers, p.WellFormed) ∧
        Respects providers keys (observedProviderRequires providers satisfied requires)
          schedule.groups := by
  have hr := wellFormed_run calls
  refine ⟨hr.names, fun _ _ _ _ _ h => ?_⟩
  obtain ⟨providers, hproviders, h⟩ := bind_eq_ok.mp h
  obtain ⟨keys, hkeys, hschedule⟩ := bind_eq_ok.mp h
  obtain ⟨_, -, hmem⟩ := mem_providersForStage hproviders
  exact ⟨providers, keys, hproviders, hkeys, fun p hp => hr.providers p (hmem p hp).1,
    providerScheduleBatches_respects (hr.nodup_providersForStage hproviders) hschedule⟩

end QueryProviderRegistry

end Caap
