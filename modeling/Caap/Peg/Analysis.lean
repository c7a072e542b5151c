/-
  Caap.Peg.Analysis

  The fixpoints of the grammar analysis (`analysis.rs`, `parser_analysis.rs`): which rules
  can match the empty text, and which can match at all.  Both are computed by at most 64
  passes over the rules in the order in which they are declared, so that a rule whose
  derivation goes back 64 times to a rule declared no earlier is not found.
-/

import Caap.Lib.Passes
import Caap.Lib.Sorting
import Caap.Peg.Expr

namespace Caap.Peg

open Lib List

/-- `is_match("")` of a compiled pattern. -/
abbrev MatchesEmpty := String → Bool

mutual

/-- `is_expr_nullable_with_rules_impl`. -/
def PegExpr.nullable (matchesEmpty : MatchesEmpty) (nullableRules : List String) : PegExpr → Bool
  | .optional _ | .zeroOrMore _ | .cut => true
  | .not _ | .semanticPredicate _ => true
  | .and n | .noTrivia n | .withTrivia _ n | .eager n => n.nullable matchesEmpty nullableRules
  | .named _ n | .expected _ n | .semanticAction _ n | .semanticGuard _ n | .capture _ n =>
    n.nullable matchesEmpty nullableRules
  | .oneOrMore n => n.nullable matchesEmpty nullableRules
  | .repeated n min _ => min == 0 || n.nullable matchesEmpty nullableRules
  | .precedence operand _ => operand.nullable matchesEmpty nullableRules
  | .sepOneOrMore element _ | .interspersed element _ => element.nullable matchesEmpty nullableRules
  | .sequence items => nullableAll matchesEmpty nullableRules items
  | .choice alternatives => nullableAny matchesEmpty nullableRules alternatives
  | .ref name => nullableRules.contains name
  | .literal s | .hardKeyword s | .softKeyword s => s == ""
  | .regex pattern => matchesEmpty pattern
  | _ => false

/-- All of the expressions can match the empty text. -/
def nullableAll (matchesEmpty : MatchesEmpty) (nullableRules : List String) : List PegExpr → Bool
  | [] => true
  | e :: es => e.nullable matchesEmpty nullableRules && nullableAll matchesEmpty nullableRules es

/-- One of the expressions can match the empty text. -/
def nullableAny (matchesEmpty : MatchesEmpty) (nullableRules : List String) : List PegExpr → Bool
  | [] => false
  | e :: es => e.nullable matchesEmpty nullableRules || nullableAny matchesEmpty nullableRules es

end

mutual

/-- `is_expr_productive_impl`. -/
def PegExpr.productive (productiveRules : List String) : PegExpr → Bool
  | .literal _ | .regex _ | .charClass _ | .recover _ | .dot | .hardKeyword _ | .softKeyword _
  | .island _ _ _ | .rawBlock _ _ _ | .cut | .not _ | .lookBehind _ _ | .backref _ | .newline
  | .indent | .dedent | .importedRef _ _ | .grammarScope _ _ | .parameter _
  | .semanticPredicate _ | .tokenRef _ _ => true
  | .ref name => productiveRules.contains name
  | .sequence items => productiveAll productiveRules items
  | .choice alternatives => productiveAny productiveRules alternatives
  | .optional _ | .zeroOrMore _ => true
  | .repeated n min _ => min == 0 || n.productive productiveRules
  | .precedence operand _ => operand.productive productiveRules
  | .oneOrMore n | .and n | .eager n | .noTrivia n | .withTrivia _ n =>
    n.productive productiveRules
  | .named _ n | .expected _ n | .semanticAction _ n | .semanticGuard _ n | .capture _ n =>
    n.productive productiveRules
  | .sepOneOrMore element _ | .interspersed element _ => element.productive productiveRules
  | .call _ args => productiveAll productiveRules args
  | .invalid _ => false

/-- All of the expressions can match. -/
def productiveAll (productiveRules : List String) : List PegExpr → Bool
  | [] => true
  | e :: es => e.productive productiveRules && productiveAll productiveRules es

/-- One of the expressions can match. -/
def productiveAny (productiveRules : List String) : List PegExpr → Bool
  | [] => false
  | e :: es => e.productive productiveRules || productiveAny productiveRules es

end

/-- The rules with their names. -/
def Grammar.bodies (g : Grammar) : List (String × PegExpr) :=
  g.rules.map fun rule => (rule.name, rule.expr)

/-- The number of passes that `analyze_grammar_with_refs` makes at most. -/
def passLimit : Nat := 64

/-- `productive_rules` of `analyze_grammar_with_refs`. -/
def Grammar.productiveRules (g : Grammar) : List String :=
  Passes.passes (fun e known => e.productive known) g.bodies passLimit []

/-- `nullable_set` of `analyze_grammar_with_refs`. -/
def Grammar.nullableRules (matchesEmpty : MatchesEmpty) (g : Grammar) : List String :=
  Passes.passes (fun e known => e.nullable matchesEmpty known) g.bodies passLimit []

/-- `unproductive` of `analyze_grammar_with_refs`. -/
def Grammar.unproductive (g : Grammar) : List String :=
  sort ((g.rules.map (·.name)).filter fun name => !g.productiveRules.contains name)

/-- The errors for unproductive rules. -/
def Grammar.unproductiveErrors (g : Grammar) : List String :=
  g.unproductive.map fun rule => "rule '" ++ rule ++ "' is unproductive (cannot match any input)"

/-! ## The bodies are monotone -/

section Monotone

variable {s t : List String}

theorem contains_of_subset (h : s ⊆ t) {name : String} (hs : s.contains name = true) :
    t.contains name = true :=
  contains_iff_mem.mpr (h (contains_iff_mem.mp hs))

theorem or_of_imp {a a' b b' : Bool} (ha : a = true → a' = true) (hb : b = true → b' = true)
    (h : (a || b) = true) : (a' || b') = true :=
  Bool.or_eq_true_iff.mpr ((Bool.or_eq_true_iff.mp h).imp ha hb)

theorem and_of_imp {a a' b b' : Bool} (ha : a = true → a' = true) (hb : b = true → b' = true)
    (h : (a && b) = true) : (a' && b') = true :=
  Bool.and_eq_true_iff.mpr ((Bool.and_eq_true_iff.mp h).imp ha hb)

mutual

theorem PegExpr.nullable_mono (matchesEmpty : MatchesEmpty) (h : s ⊆ t) (e : PegExpr)
    (hs : e.nullable matchesEmpty s = true) : e.nullable matchesEmpty t = true := by
  match e with
  | .optional _ | .zeroOrMore _ | .cut | .not _ | .semanticPredicate _ => rfl
  | .and n | .noTrivia n | .withTrivia _ n | .eager n | .named _ n | .expected _ n
  | .semanticAction _ n | .semanticGuard _ n | .capture _ n | .oneOrMore n | .precedence n _
  | .sepOneOrMore n _ | .interspersed n _ => exact n.nullable_mono matchesEmpty h hs
  | .repeated n min _ => exact or_of_imp id (n.nullable_mono matchesEmpty h) hs
  | .sequence items => exact nullableAll_mono h hs
  | .choice alternatives => exact nullableAny_mono h hs
  | .ref name => exact contains_of_subset h hs
  | .literal _ | .hardKeyword _ | .softKeyword _ | .regex _ => exact hs

theorem nullableAll_mono {matchesEmpty : MatchesEmpty} (h : s ⊆ t) {es : List PegExpr}
    (hs : nullableAll matchesEmpty s es = true) : nullableAll matchesEmpty t es = true := by
  match es with
  | [] => rfl
  | e :: es => exact and_of_imp (e.nullable_mono matchesEmpty h) (nullableAll_mono h) hs

theorem nullableAny_mono {matchesEmpty : MatchesEmpty} (h : s ⊆ t) {es : List PegExpr}
    (hs : nullableAny matchesEmpty s es = true) : nullableAny matchesEmpty t es = true := by
  match es with
  | e :: es => exact or_of_imp (e.nullable_mono matchesEmpty h) (nullableAny_mono h) hs

end

mutual

theorem PegExpr.productive_mono (h : s ⊆ t) (e : PegExpr) (hs : e.productive s = true) :
    e.productive t = true := by
  match e with
  | .literal _ | .regex _ | .charClass _ | .recover _ | .dot | .hardKeyword _ | .softKeyword _
  | .island _ _ _ | .rawBlock _ _ _ | .cut | .not _ | .lookBehind _ _ | .backref _ | .newline
  | .indent | .dedent | .importedRef _ _ | .grammarScope _ _ | .parameter _
  | .semanticPredicate _ | .tokenRef _ _ | .optional _ | .zeroOrMore _ => rfl
  | .oneOrMore n | .and n | .eager n | .noTrivia n | .withTrivia _ n | .named _ n | .expected _ n
  | .semanticAction _ n | .semanticGuard _ n | .capture _ n | .precedence n _
  | .sepOneOrMore n _ | .interspersed n _ => exact n.productive_mono h hs
  | .repeated n min _ => exact or_of_imp id (n.productive_mono h) hs
  | .sequence _ | .call _ _ => exact productiveAll_mono h hs
  | .choice alternatives => exact productiveAny_mono h hs
  | .ref name => exact contains_of_subset h hs

theorem productiveAll_mono (h : s ⊆ t) {es : List PegExpr} (hs : productiveAll s es = true) :
    productiveAll t es = true := by
  match es with
  | [] => rfl
  | e :: es => exact and_of_imp (e.productive_mono h) (productiveAll_mono h) hs

theorem productiveAny_mono (h : s ⊆ t) {es : List PegExpr} (hs : productiveAny s es = true) :
    productiveAny t es = true := by
  match es with
  | e :: es => exact or_of_imp (e.productive_mono h) (productiveAny_mono h) hs

end

end Monotone

/-! ## The fixpoints -/

/-- The test of a rule's body in the two analyses. -/
abbrev BodyTest := PegExpr → List String → Bool

/-- A body can match, given the rules that can. -/
abbrev productiveTest : BodyTest := fun e known => e.productive known

/-- A body can match the empty text, given the rules that can. -/
abbrev nullableTest (matchesEmpty : MatchesEmpty) : BodyTest :=
  fun e known => e.nullable matchesEmpty known

/-- Every rule that has a derivation has one in which, on each branch, less than
    `passLimit` references go to a rule that is not declared before the rule that refers
    to it. -/
def Grammar.ShortDerivations (g : Grammar) (test : BodyTest) : Prop :=
  ∀ name, Passes.Derivable test g.bodies name → Passes.NameWithin test g.bodies passLimit name

variable {g : Grammar}

theorem productiveTest_mono (e : PegExpr) {s t : List String} (h : s ⊆ t)
    (hs : productiveTest e s = true) : productiveTest e t = true :=
  e.productive_mono h hs

theorem nullableTest_mono (matchesEmpty : MatchesEmpty) (e : PegExpr) {s t : List String}
    (h : s ⊆ t) (hs : nullableTest matchesEmpty e s = true) : nullableTest matchesEmpty e t = true :=
  e.nullable_mono matchesEmpty h hs

theorem mem_bodies {name : String} {e : PegExpr} :
    (name, e) ∈ g.bodies ↔ ∃ rule ∈ g.rules, rule.name = name ∧ rule.expr = e := by
  simp [Grammar.bodies]

theorem map_fst_bodies : g.bodies.map Prod.fst = g.rules.map (·.name) := by
  simp [Grammar.bodies]

theorem mem_unproductive {name : String} :
    name ∈ g.unproductive ↔ name ∈ g.rules.map (·.name) ∧ name ∉ g.productiveRules := by
  rw [Grammar.unproductive, mem_sort, mem_filter]
  simp

theorem mem_names_of_derivable {test : BodyTest} {name : String}
    (h : Passes.Derivable test g.bodies name) : name ∈ g.rules.map (·.name) := by
  cases h with
  | mk rule support hrule _ _ =>
    rw [← map_fst_bodies]
    exact mem_map_of_mem hrule

/-- The rules reported as unproductive are those outside the least closed set exactly if
    the derivations are short. -/
theorem unproductive_iff : (∃ least, Passes.IsLeastClosed productiveTest g.bodies least ∧
        ∀ name, name ∈ g.unproductive ↔ name ∈ g.rules.map (·.name) ∧ name ∉ least) ↔
      g.ShortDerivations productiveTest := by
  have hfound : ∀ name, name ∈ g.productiveRules ↔
      Passes.NameWithin productiveTest g.bodies passLimit name :=
    Passes.mem_passes_iff productiveTest_mono passLimit
  constructor
  · rintro ⟨least, hleast, hreported⟩ name hname
    have hmem : name ∈ least := ((Passes.isLeastClosed_iff productiveTest_mono).mp hleast name).mpr hname
    have hnames := mem_names_of_derivable hname
    have hnot : name ∉ g.unproductive := fun h => ((hreported name).mp h).2 hmem
    rw [mem_unproductive] at hnot
    have hproductive : name ∈ g.productiveRules := by
      by_contra h
      exact hnot ⟨hnames, h⟩
    exact (hfound name).mp hproductive
  · intro hshort
    refine ⟨g.productiveRules, ?_, fun name => mem_unproductive⟩
    exact (Passes.isLeastClosed_passes_iff productiveTest_mono passLimit).mpr hshort

theorem nullableRules_iff (matchesEmpty : MatchesEmpty) :
    Passes.IsLeastClosed (nullableTest matchesEmpty) g.bodies (g.nullableRules matchesEmpty) ↔
      g.ShortDerivations (nullableTest matchesEmpty) :=
  Passes.isLeastClosed_passes_iff (nullableTest_mono matchesEmpty) passLimit

theorem derivable_of_perm {g' : Grammar} (hperm : g'.rules.Perm g.rules) {test : BodyTest}
    {name : String} (h : Passes.Derivable test g.bodies name) :
    Passes.Derivable test g'.bodies name := by
  induction h with
  | mk rule support hrule _ hbody ih =>
    refine .mk rule support ?_ ih hbody
    obtain ⟨r, hr, hname, hexpr⟩ := mem_bodies.mp hrule
    exact mem_bodies.mpr ⟨r, hperm.mem_iff.mpr hr, hname, hexpr⟩

theorem mem_productiveRules_of_short (h : g.ShortDerivations productiveTest) {name : String} :
    name ∈ g.productiveRules ↔ Passes.Derivable productiveTest g.bodies name := by
  rw [Grammar.productiveRules, Passes.mem_passes_iff productiveTest_mono]
  exact ⟨fun hname => (Passes.derivable_iff productiveTest_mono).mpr ⟨passLimit, hname⟩, h name⟩

/-- With short derivations, the errors do not depend on the order of the rules. -/
theorem unproductiveErrors_of_perm {g' : Grammar} (hperm : g'.rules.Perm g.rules)
    (h : g.ShortDerivations productiveTest) (h' : g'.ShortDerivations productiveTest) :
    g'.unproductiveErrors = g.unproductiveErrors := by
  have hsame (name : String) : name ∈ g'.productiveRules ↔ name ∈ g.productiveRules := by
    rw [mem_productiveRules_of_short h, mem_productiveRules_of_short h']
    exact ⟨derivable_of_perm hperm.symm, derivable_of_perm hperm⟩
  have hnames := (hperm.map (·.name)).filter fun name => !g'.productiveRules.contains name
  have hfilter : (fun name => !g'.productiveRules.contains name) =
      fun name => !g.productiveRules.contains name := by
    funext name
    rw [Bool.eq_iff_iff]
    simp [hsame]
  have hlists : g'.unproductive = g.unproductive := by
    unfold Grammar.unproductive
    rw [hfilter] at hnames ⊢
    exact sort_eq_of_perm hnames
  rw [Grammar.unproductiveErrors, Grammar.unproductiveErrors, hlists]

/-- The reported rules are exactly those outside the least set of productive rules, and the
    nullable rules are exactly the least set of nullable ones, if and only if the derivations
    are short; and then the errors do not depend on the order of declaration. -/
theorem analysis_fixpoints_iff (matchesEmpty : MatchesEmpty) (g : Grammar) :
    ((∃ least, Passes.IsLeastClosed productiveTest g.bodies least ∧
        ∀ name, name ∈ g.unproductive ↔ name ∈ g.rules.map (·.name) ∧ name ∉ least) ↔
      g.ShortDerivations productiveTest) ∧
    (Passes.IsLeastClosed (nullableTest matchesEmpty) g.bodies (g.nullableRules matchesEmpty) ↔
      g.ShortDerivations (nullableTest matchesEmpty)) ∧
    (g.ShortDerivations productiveTest → ∀ g' : Grammar, g'.rules.Perm g.rules →
      g'.ShortDerivations productiveTest → g'.unproductiveErrors = g.unproductiveErrors) :=
  ⟨unproductive_iff, nullableRules_iff matchesEmpty,
    fun h _ hperm h' => unproductiveErrors_of_perm hperm h h'⟩

/-! ## A chain of rules -/

/-- The name of the rule with number `i`. -/
def chainName (i : Nat) : String := String.ofList (List.replicate (i + 1) 'r')

/-- Rules that refer each to the next one; the last one is a literal. -/
def chain (last : Nat) : Grammar where
  startRule := chainName 0
  rules := (List.range (last + 1)).map fun i =>
    ⟨chainName i, [], if i = last then .literal "x" else .ref (chainName (i + 1))⟩

theorem chainName_injective {i j : Nat} (h : chainName i = chainName j) : i = j := by
  have hlist : replicate (i + 1) 'r' = replicate (j + 1) 'r' := String.ofList_injective h
  have hlength := congrArg length hlist
  simpa using hlength

theorem chain_getElem? {last i : Nat} {rule : String × PegExpr}
    (h : (chain last).bodies[i]? = some rule) :
    i ≤ last ∧ rule = (chainName i, if i = last then .literal "x" else .ref (chainName (i + 1))) := by
  simp only [chain, Grammar.bodies, map_map, getElem?_map, Option.map_eq_some_iff,
    getElem?_range'] at h
  obtain ⟨j, hj, rfl⟩ := h
  obtain ⟨hlt, rfl⟩ := List.getElem?_eq_some_iff.mp hj
  rw [length_range] at hlt
  refine ⟨by omega, ?_⟩
  simp

/-- A rule of the chain needs one pass for each rule after it. -/
theorem chain_within {last n i : Nat} (h : Passes.Within productiveTest (chain last).bodies n i) :
    last < n + i := by
  induction h with
  | mk n i rule before anywhere hrule hlt _ _ hbody _ ih =>
    obtain ⟨hi, rfl⟩ := chain_getElem? hrule
    by_cases hlast : i = last
    · omega
    · simp only [if_neg hlast, productiveTest, PegExpr.productive, contains_iff_mem] at hbody
      obtain ⟨j, hj, rule, hjrule, hname⟩ := Passes.mem_namesAt.mp hbody
      obtain ⟨-, rfl⟩ := chain_getElem? hjrule
      obtain rfl : j = i + 1 := chainName_injective hname
      rcases mem_append.mp hj with hbefore | hany
      · have := hlt _ hbefore
        omega
      · have := ih _ hany
        omega

theorem chain_derivable {last i : Nat} (hi : i ≤ last) :
    Passes.Derivable productiveTest (chain last).bodies (chainName i) := by
  have hmem (i : Nat) (hi : i ≤ last) :
      (chainName i, if i = last then .literal "x" else .ref (chainName (i + 1))) ∈
        (chain last).bodies := by
    refine mem_bodies.mpr ⟨_, mem_map_of_mem (mem_range.mpr (by omega)), rfl, rfl⟩
  induction hk : last - i generalizing i with
  | zero =>
    obtain rfl : i = last := by omega
    exact .mk _ [] (hmem i hi) (by simp) (by simp [productiveTest, PegExpr.productive])
  | succ k ih =>
    have hne : i ≠ last := by omega
    refine .mk _ [chainName (i + 1)] (hmem i hi) ?_
      (by simp [hne, productiveTest, PegExpr.productive])
    intro name hname
    obtain rfl := mem_singleton.mp hname
    exact ih (by omega) (by omega)

/-- In a chain of 66 rules, each declared before the one it refers to, the first rule is
    reported although it matches `x`. -/
theorem chain_unproductive : "r" ∈ (chain 65).unproductive ∧
      Passes.Derivable productiveTest (chain 65).bodies "r" ∧
      ¬ ∃ least, Passes.IsLeastClosed productiveTest (chain 65).bodies least ∧
        ∀ name, name ∈ (chain 65).unproductive ↔
          name ∈ (chain 65).rules.map (·.name) ∧ name ∉ least := by
  have hname : chainName 0 = "r" := rfl
  have hderivable : Passes.Derivable productiveTest (chain 65).bodies "r" :=
    hname ▸ chain_derivable (Nat.zero_le 65)
  have hnot : ¬ Passes.NameWithin productiveTest (chain 65).bodies passLimit "r" := by
    rintro ⟨i, rule, hrule, hr, hwithin⟩
    obtain ⟨-, rfl⟩ := chain_getElem? hrule
    obtain rfl : i = 0 := chainName_injective (hr.trans hname.symm)
    have := chain_within hwithin
    unfold passLimit at this
    omega
  refine ⟨?_, hderivable, ?_⟩
  · refine mem_unproductive.mpr ⟨mem_names_of_derivable hderivable, ?_⟩
    rw [Grammar.productiveRules, Passes.mem_passes_iff productiveTest_mono]
    exact hnot
  · rw [unproductive_iff]
    intro hshort
    exact hnot (hshort "r" hderivable)

end Caap.Peg
