/-
  Caap.Semantic.Unified

  `UnifiedSemanticGraph` of `semantic/graph.rs`: symbols, semantic entries, stable ids
  and facts of one unit, with the generation counters that every write advances.

  Each mutator computes its counters before it writes anything, so it returns the new
  graph inside the result and a failed call leaves the graph as it was.
  `debug_assert!` lines are not modelled: the functions below are the release build.
-/

import Caap.Semantic.FactGraph
import Caap.Semantic.Registry

namespace Caap

open Std Lib

/-- `UnifiedSemanticGraph`. -/
structure UnifiedSemanticGraph where
  symbols : OrdMap String SymbolEntry
  semantics : SemanticRegistry
  facts : Option SemanticGraph
  stableIds : OrdMap String StableId
  cellGenerations : OrdMap String Nat
  version : Nat
  nameGeneration : Nat
  factGeneration : Nat
  nextCellGeneration : Nat

/-- `UnifiedSemanticGraphSnapshot`. -/
structure UnifiedSemanticGraphSnapshot where
  symbols : List (String × SymbolEntry)
  semantics : SemanticRegistrySnapshot
  facts : Option SemanticGraphSnapshot
  stableIds : List (String × StableId)
  cellGenerations : List (String × Nat)
  version : Nat
  nameGeneration : Nat
  factGeneration : Nat
  nextCellGeneration : Nat

/-- `cell_key`. -/
def cellKey (subject : SemanticSubjectId) (predicate : String) : String :=
  subject.kind ++ ":" ++ subject.value ++ ":" ++ predicate

/-- The error of every fact operation on a graph without a fact store. -/
def noFactStoreError : CaapError :=
  .semantic "unified semantic graph does not have an attached fact store"

namespace UnifiedSemanticGraph

/-- `with_facts`. -/
def withFacts (includeFacts : Bool) : UnifiedSemanticGraph :=
  { symbols := ∅
    semantics := SemanticRegistry.new
    facts := if includeFacts then some SemanticGraph.new else none
    stableIds := ∅
    cellGenerations := ∅
    version := 0
    nameGeneration := 0
    factGeneration := 0
    nextCellGeneration := 1 }

/-- `UnifiedSemanticGraph::new`. -/
def new : UnifiedSemanticGraph := withFacts true

/-- `without_facts`. -/
def withoutFacts : UnifiedSemanticGraph := withFacts false

/-! ## Counters -/

/-- `cell_generation`. -/
def cellGeneration (g : UnifiedSemanticGraph) (subject : SemanticSubjectId) (predicate : String) :
    Option Nat := g.cellGenerations[cellKey subject predicate]?

/-- `prepare_cell_bump`: the generation to hand out and the one after it. -/
def prepareCellBump (g : UnifiedSemanticGraph) : CaapResult (Nat × Nat) := do
  let generation := max g.nextCellGeneration 1
  let nextGeneration ← checkedGenerationIncrement generation "semantic cell generation"
  .ok (generation, nextGeneration)

/-- `bump_cell_prepared`. -/
def bumpCellPrepared (g : UnifiedSemanticGraph) (subject : SemanticSubjectId) (predicate : String)
    (cell : Nat × Nat) : UnifiedSemanticGraph :=
  { g with
    cellGenerations := g.cellGenerations.insert (cellKey subject predicate) cell.1
    nextCellGeneration := cell.2 }

/-- The counters a symbol or semantic write advances: cell, name generation, version. -/
def prepareNameWrite (g : UnifiedSemanticGraph) : CaapResult ((Nat × Nat) × Nat × Nat) := do
  let cell ← g.prepareCellBump
  let nameGeneration ← checkedGenerationIncrement g.nameGeneration "semantic name generation"
  let version ← checkedGenerationIncrement g.version "semantic graph version"
  .ok (cell, nameGeneration, version)

/-- The counters a fact write advances: cell, fact generation, version. -/
def prepareFactWrite (g : UnifiedSemanticGraph) : CaapResult ((Nat × Nat) × Nat × Nat) := do
  let cell ← g.prepareCellBump
  let factGeneration ← checkedGenerationIncrement g.factGeneration "semantic fact generation"
  let version ← checkedGenerationIncrement g.version "semantic graph version"
  .ok (cell, factGeneration, version)

/-! ## Symbols, semantic entries and stable ids -/

/-- The first public name of `entry` that another symbol owns, with its owner. -/
def publicNameConflict (g : UnifiedSemanticGraph) (entry : SymbolEntry) :
    Option (String × String) :=
  entry.publicNames.findSome? fun publicName =>
    (g.symbols.toList.find? fun existing =>
      existing.1 != entry.name && existing.2.publicNames.contains publicName).map
        fun existing => (publicName, existing.1)

/-- `define_symbol`. -/
def defineSymbol (g : UnifiedSemanticGraph) (entry : SymbolEntry) :
    CaapResult (Bool × UnifiedSemanticGraph) := do
  validateSymbolEntry entry
  match g.publicNameConflict entry with
  | some (publicName, existingName) =>
    .error (.semantic ("public symbol name " ++ debugStr publicName ++ " is already owned by "
      ++ debugStr existingName))
  | none =>
    if g.symbols[entry.name]? = some entry then .ok (false, g)
    else do
      let subject ← symbolSubjectId entry.name
      let (cell, nameGeneration, version) ← g.prepareNameWrite
      .ok (true,
        { g.bumpCellPrepared subject "symbol.entry" cell with
          symbols := g.symbols.insert entry.name entry
          nameGeneration := nameGeneration
          version := version })

/-- `remove_symbol`. -/
def removeSymbol (g : UnifiedSemanticGraph) (name : String) :
    CaapResult (Bool × UnifiedSemanticGraph) :=
  if name = "" then .error (.semantic "symbol removal name must be non-empty")
  else if (g.symbols[name]?).isNone then .ok (false, g)
  else do
    let subject ← symbolSubjectId name
    let (cell, nameGeneration, version) ← g.prepareNameWrite
    .ok (true,
      { g.bumpCellPrepared subject "symbol.entry" cell with
        symbols := g.symbols.erase name
        nameGeneration := nameGeneration
        version := version })

/-- `define_semantic`. -/
def defineSemantic (g : UnifiedSemanticGraph) (entry : SemanticEntry) :
    CaapResult (Unit × UnifiedSemanticGraph) := do
  let existing ← g.semantics.lookup entry.name
  if existing == some entry then .ok ((), g)
  else do
    let subject ← subjectId "semantic" entry.name
    let (cell, nameGeneration, version) ← g.prepareNameWrite
    let semantics ← g.semantics.define entry
    .ok ((),
      { g.bumpCellPrepared subject "semantic.entry" cell with
        semantics := semantics
        nameGeneration := nameGeneration
        version := version })

/-- `record_stable_id`. -/
def recordStableId (g : UnifiedSemanticGraph) (key : String) (stableId : StableId) :
    CaapResult (Bool × UnifiedSemanticGraph) :=
  if key = "" then .error (.semantic "stable id key must be non-empty")
  else
    match g.stableIds.toList.find? fun existing => existing.1 != key && existing.2 == stableId with
    | some (existingKey, _) =>
      .error (.semantic ("stable id " ++ debugStr stableId.value
        ++ " is already recorded for key " ++ debugStr existingKey))
    | none =>
      if g.stableIds[key]? = some stableId then .ok (false, g)
      else do
        let subject ← subjectId "stable_id" key
        let cell ← g.prepareCellBump
        let version ← checkedGenerationIncrement g.version "semantic graph version"
        .ok (true,
          { g.bumpCellPrepared subject "stable_id" cell with
            stableIds := g.stableIds.insert key stableId
            version := version })

/-! ## Facts -/

/-- The attached fact store. -/
def factStore (g : UnifiedSemanticGraph) : CaapResult SemanticGraph :=
  match g.facts with
  | some facts => .ok facts
  | none => .error noFactStoreError

/-- `get_fact`. -/
def getFact (g : UnifiedSemanticGraph) (subject : SemanticSubjectId) (predicate : String) :
    CaapResult (Option SemanticValue) := do
  let facts ← g.factStore
  facts.getFact subject predicate none

/-- `set_fact`. -/
def setFact (g : UnifiedSemanticGraph) (subject : SemanticSubjectId) (predicate : String)
    (value : SemanticValue) : CaapResult (Bool × UnifiedSemanticGraph) := do
  value.validate
  let facts ← g.factStore
  let current ← facts.getFact subject predicate none
  if current == some value then .ok (false, g)
  else do
    let (cell, factGeneration, version) ← g.prepareFactWrite
    let (changed, facts) ← facts.addFact subject predicate value
    .ok (changed,
      { g.bumpCellPrepared subject predicate cell with
        facts := some facts
        factGeneration := factGeneration
        version := version })

/-- `remove_fact`. -/
def removeFact (g : UnifiedSemanticGraph) (subject : SemanticSubjectId) (predicate : String) :
    CaapResult (Bool × UnifiedSemanticGraph) := do
  let facts ← g.factStore
  let current ← facts.getFact subject predicate none
  if current.isNone then .ok (false, g)
  else do
    let (cell, factGeneration, version) ← g.prepareFactWrite
    let (changed, facts) ← facts.removeFact subject predicate
    .ok (changed,
      { g.bumpCellPrepared subject predicate cell with
        facts := some facts
        factGeneration := factGeneration
        version := version })

/-- `query_facts`. -/
def queryFacts (g : UnifiedSemanticGraph) (subject : Option SemanticSubjectId)
    (predicate : Option String) :
    CaapResult (List (SemanticSubjectId × String × SemanticValue)) := do
  let facts ← g.factStore
  facts.query subject predicate none

/-- `commit_facts`. -/
def commitFacts (g : UnifiedSemanticGraph) : CaapResult (Nat × UnifiedSemanticGraph) := do
  let graphVersion ← checkedGenerationIncrement g.version "semantic graph version"
  let facts ← g.factStore
  let (version, facts) ← facts.commit
  .ok (version, { g with facts := some facts, version := graphVersion })

/-- `rollback_facts_for_subject`. -/
def rollbackFactsForSubject (g : UnifiedSemanticGraph) (subject : SemanticSubjectId) :
    CaapResult (Bool × UnifiedSemanticGraph) := do
  let facts ← g.factStore
  if (facts.facts[subject]?).isNone then .ok (false, g)
  else do
    let (cell, factGeneration, version) ← g.prepareFactWrite
    let (changed, facts) := facts.rollbackSubject subject
    .ok (changed,
      { g.bumpCellPrepared subject "_rollback" cell with
        facts := some facts
        factGeneration := factGeneration
        version := version })

/-! ## Snapshots and transactions -/

/-- `snapshot`. -/
def snapshot (g : UnifiedSemanticGraph) : UnifiedSemanticGraphSnapshot :=
  { symbols := g.symbols.toList
    semantics := g.semantics.snapshot
    facts := g.facts.map SemanticGraph.snapshot
    stableIds := g.stableIds.toList
    cellGenerations := g.cellGenerations.toList
    version := g.version
    nameGeneration := g.nameGeneration
    factGeneration := g.factGeneration
    nextCellGeneration := g.nextCellGeneration }

/-- The inner loop of `restore_symbol_map`: claim the public names of one symbol. -/
def claimPublicName (key : String) (owners : OrdMap String String) (publicName : String) :
    CaapResult (OrdMap String String) :=
  match owners[publicName]? with
  | some owner =>
    .error (.semantic ("semantic snapshot public symbol name " ++ debugStr publicName
      ++ " is shared by " ++ debugStr owner ++ " and " ++ debugStr key))
  | none => .ok (owners.insert publicName key)

/-- One iteration of `restore_symbol_map`. -/
def restoreSymbol (state : OrdMap String SymbolEntry × OrdMap String String)
    (item : String × SymbolEntry) : CaapResult (OrdMap String SymbolEntry × OrdMap String String) :=
  let (key, entry) := item
  if key = "" then .error (.semantic "semantic snapshot symbol key must be non-empty")
  else do
    validateSymbolEntry entry
    if key ≠ entry.name then
      .error (.semantic ("semantic snapshot symbol key " ++ debugStr key
        ++ " does not match entry name " ++ debugStr entry.name))
    else if (state.1[key]?).isSome then
      .error (.semantic ("semantic snapshot symbol key is duplicated: " ++ key))
    else do
      let owners ← foldOk (claimPublicName key) state.2 entry.publicNames
      .ok (state.1.insert key entry, owners)

/-- `restore_symbol_map`. -/
def restoreSymbolMap (entries : List (String × SymbolEntry)) :
    CaapResult (OrdMap String SymbolEntry) := do
  let (symbols, _) ← foldOk restoreSymbol (∅, ∅) entries
  .ok symbols

/-- One iteration of `restore_stable_id_map`. -/
def restoreStableId (state : OrdMap String StableId × OrdMap StableId String)
    (item : String × StableId) : CaapResult (OrdMap String StableId × OrdMap StableId String) :=
  let (key, stableId) := item
  if key = "" then .error (.semantic "semantic snapshot stable id key must be non-empty")
  else
    match state.2[stableId]? with
    | some previousKey =>
      .error (.semantic ("semantic snapshot stable id " ++ debugStr stableId.value
        ++ " is duplicated by keys " ++ debugStr previousKey ++ " and " ++ debugStr key))
    | none =>
      if (state.1[key]?).isSome then
        .error (.semantic ("semantic snapshot stable id key is duplicated: " ++ key))
      else .ok (state.1.insert key stableId, state.2.insert stableId key)

/-- `restore_stable_id_map`. -/
def restoreStableIdMap (entries : List (String × StableId)) :
    CaapResult (OrdMap String StableId) := do
  let (stableIds, _) ← foldOk restoreStableId (∅, ∅) entries
  .ok stableIds

/-- One iteration of `restore_generation_map`. -/
def restoreGeneration (generations : OrdMap String Nat) (item : String × Nat) :
    CaapResult (OrdMap String Nat) :=
  let (key, generation) := item
  if key = "" then .error (.semantic "semantic snapshot cell generation key must be non-empty")
  else if (generations[key]?).isSome then
    .error (.semantic ("semantic snapshot cell generation key is duplicated: " ++ key))
  else .ok (generations.insert key generation)

/-- `restore_generation_map`. -/
def restoreGenerationMap (entries : List (String × Nat)) : CaapResult (OrdMap String Nat) :=
  foldOk restoreGeneration ∅ entries

/-- The fact store of a snapshot. -/
def restoreFacts : Option SemanticGraphSnapshot → CaapResult (Option SemanticGraph)
  | some factsSnapshot => do
    let facts ← SemanticGraph.restoreSnapshot factsSnapshot
    .ok (some facts)
  | none => .ok none

/-- `restore_snapshot`: the graph that replaces the receiver. -/
def restoreSnapshot (snapshot : UnifiedSemanticGraphSnapshot) :
    CaapResult UnifiedSemanticGraph := do
  let symbols ← restoreSymbolMap snapshot.symbols
  let semantics ← SemanticRegistry.new.restoreSnapshot snapshot.semantics
  let facts ← restoreFacts snapshot.facts
  let stableIds ← restoreStableIdMap snapshot.stableIds
  let cellGenerations ← restoreGenerationMap snapshot.cellGenerations
  let version ← checkedGenerationIncrement snapshot.version "semantic graph version"
  let nameGeneration ←
    checkedGenerationIncrement snapshot.nameGeneration "semantic name generation"
  let factGeneration ←
    checkedGenerationIncrement snapshot.factGeneration "semantic fact generation"
  .ok
    { symbols := symbols
      semantics := semantics
      facts := facts
      stableIds := stableIds
      cellGenerations := cellGenerations
      version := version
      nameGeneration := nameGeneration
      factGeneration := factGeneration
      nextCellGeneration := max snapshot.nextCellGeneration 1 }

/-- `begin_transaction`: a transaction is the snapshot it was begun at. -/
def beginTransaction (g : UnifiedSemanticGraph) : UnifiedSemanticGraphSnapshot := g.snapshot

/-- `rollback_transaction`. -/
def rollbackTransaction (transaction : UnifiedSemanticGraphSnapshot) :
    CaapResult (Unit × UnifiedSemanticGraph) := do
  let g ← restoreSnapshot transaction
  .ok ((), g)

/-- `commit_transaction`. -/
def commitTransaction (g : UnifiedSemanticGraph) : CaapResult (Nat × UnifiedSemanticGraph) := do
  let version ← checkedGenerationIncrement g.version "semantic graph version"
  .ok (version, { g with version := version })

end UnifiedSemanticGraph

end Caap
