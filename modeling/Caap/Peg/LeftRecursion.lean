/-
  Caap.Peg.LeftRecursion

  Whether the analysis of the left edges covers what the evaluator does.  A rule can be
  invoked where it is being evaluated only along the left edges of rule bodies, if the
  analysis knows every form that can end where it starts and every part that can be
  evaluated there (`LeftExact`); then every rule that is entered again is left recursive.
  A positive lookahead over a part that is not nullable is a form the analysis gets wrong.
-/

import Caap.Peg.BoundsRun

namespace Caap.Peg

open Lib Relation List

/-! ## What the analysis has to know of a form -/

/-- The nullability and the left references of the form cover what it does: a lookahead has
    a part that is nullable, an operator and a separator that can come first add no left
    reference, and none of the forms is used that the analysis takes to advance or to have
    no left reference although it does not. -/
def LeftExact (host : Host) (nullableRules : List String) : PegExpr → Prop
  | .regex pattern => host.MatchesNothing pattern → host.matchesEmpty pattern = true
  | .and d => d.nullable host.matchesEmpty nullableRules = true
  | .island start stop _ => ¬(start = "" ∧ stop = "")
  | .precedence operand levels => ∀ op ∈ levels.flatMap Prod.snd,
      op.leftRefs host.matchesEmpty nullableRules ⊆ operand.leftRefs host.matchesEmpty nullableRules
  | .sepOneOrMore element separator | .interspersed element separator =>
    element.nullable host.matchesEmpty nullableRules = true →
      separator.leftRefs host.matchesEmpty nullableRules ⊆
        element.leftRefs host.matchesEmpty nullableRules
  | .dedent | .lookBehind _ _ | .call _ _ | .parameter _ | .importedRef _ _
  | .grammarScope _ _ => False
  | _ => True

section Lists

variable {matchesEmpty : MatchesEmpty} {nullableRules : List String}

theorem nullableAll_iff {items : List PegExpr} :
    nullableAll matchesEmpty nullableRules items = true ↔
      ∀ d ∈ items, d.nullable matchesEmpty nullableRules = true := by
  induction items with
  | nil => simp [nullableAll]
  | cons item items ih => simp [nullableAll, ih]

theorem nullableAny_iff {alternatives : List PegExpr} :
    nullableAny matchesEmpty nullableRules alternatives = true ↔
      ∃ d ∈ alternatives, d.nullable matchesEmpty nullableRules = true := by
  induction alternatives with
  | nil => simp [nullableAny]
  | cons alternative alternatives ih => simp [nullableAny, ih]

/-- Behind nullable items, the left references of an item are those of the sequence. -/
theorem leftRefs_subset_sequence {before behind : List PegExpr} {d : PegExpr}
    (h : ∀ b ∈ before, b.nullable matchesEmpty nullableRules = true) :
    d.leftRefs matchesEmpty nullableRules ⊆
      leftRefsSequence matchesEmpty nullableRules (before ++ d :: behind) := by
  induction before with
  | nil =>
    rw [nil_append, leftRefsSequence]
    exact subset_append_left _ _
  | cons b before ih =>
    obtain ⟨hb, hbefore⟩ := forall_mem_cons.mp h
    rw [cons_append, leftRefsSequence, if_pos hb]
    exact List.Subset.trans (ih hbefore) (subset_append_right _ _)

theorem leftRefs_subset_choice {alternatives : List PegExpr} {d : PegExpr} (h : d ∈ alternatives) :
    d.leftRefs matchesEmpty nullableRules ⊆
      leftRefsChoice matchesEmpty nullableRules alternatives := by
  induction alternatives with
  | nil => exact absurd h not_mem_nil
  | cons alternative alternatives ih =>
    rw [leftRefsChoice]
    rcases mem_cons.mp h with rfl | h
    · exact subset_append_left _ _
    · exact List.Subset.trans (ih h) (subset_append_right _ _)

end Lists

/-! ## The graph -/

section Graph

variable {host : Host} {g : Grammar}

/-- A left reference of a rule's body. -/
abbrev Grammar.LeftEdge (host : Host) (g : Grammar) (a b : String) : Prop :=
  g.leftEdge host.matchesEmpty a b = true

theorem lookup_map_snd {κ α β : Type} [BEq κ] (f : α → β) (entries : List (κ × α)) (key : κ) :
    (entries.map fun entry => (entry.1, f entry.2)).lookup key = (entries.lookup key).map f := by
  induction entries with
  | nil => rfl
  | cons entry entries ih =>
    obtain ⟨name, value⟩ := entry
    simp only [map_cons, lookup_cons, ih]
    cases key == name <;> rfl

theorem leftEdge_iff {a b : String} : g.LeftEdge host a b ↔ ∃ body, g.bodies.lookup a = some body ∧
    b ∈ body.leftRefs host.matchesEmpty (g.nullableRules host.matchesEmpty) ∧ b ∈ g.names := by
  rw [Grammar.LeftEdge, Grammar.leftEdge, Grammar.leftRefsGraph,
    lookup_map_snd fun body : PegExpr => (body.leftRefs host.matchesEmpty
      (g.nullableRules host.matchesEmpty)).filter g.names.contains]
  simp [Option.any_eq_true]

theorem mem_names_of_lookup {name : String} {body : PegExpr} (h : g.bodies.lookup name = some body) :
    name ∈ g.names := by
  have hmem := mem_map_of_mem (f := Prod.fst) (mem_of_lookup h)
  rwa [map_fst_bodies] at hmem

/-- The rules on a cycle of left references are in the components. -/
theorem mem_leftRecursiveSccs {name : String} (h : TransGen (g.LeftEdge host) name name) :
    name ∈ (g.leftRecursiveSccs host.matchesEmpty).flatten := by
  have hedge (x y : String) (hxy : g.leftEdge host.matchesEmpty x y = true) : x ∈ g.names := by
    obtain ⟨body, hbody, -⟩ := leftEdge_iff.mp hxy
    exact mem_names_of_lookup hbody
  have hleads : leads (g.leftEdge host.matchesEmpty) g.names name name = true :=
    (leads_iff hedge).mpr h
  have hname : name ∈ g.names := by
    obtain ⟨y, hxy, -⟩ := TransGen.head'_iff.mp h
    exact hedge name y hxy
  have hrec : name ∈ g.leftRecursive host.matchesEmpty := mem_filter.mpr ⟨hname, hleads⟩
  have hself : name ∈ g.leftComponent host.matchesEmpty name := by
    rw [Grammar.leftComponent, mem_sort, mem_filter]
    exact ⟨hrec, by rw [hleads]; rfl⟩
  refine mem_flatten.mpr ⟨g.leftComponent host.matchesEmpty name, ?_, hself⟩
  rw [Grammar.leftRecursiveSccs, List.mem_insertionSort, List.mem_dedup]
  exact mem_map_of_mem hrec

theorem of_compile {sourceLen : Nat} {imports : List (String × CompiledGrammar)}
    {compiled : CompiledGrammar} (h : g.compile host sourceLen imports = .ok compiled) :
    compiled.rules = g.bodies ∧
      compiled.leftRecursiveRules = (g.leftRecursiveSccs host.matchesEmpty).flatten := by
  obtain ⟨⟨⟩, -, h⟩ := bind_eq_ok.mp h
  split_ifs at h with hstart
  obtain rfl := Except.ok.inj h
  exact ⟨rfl, rfl⟩

end Graph

/-! ## The track of the left edges -/

/-- A rule that is being evaluated at the position of an expression leads to each rule at
    the left edge of the expression. -/
def leftTrack (host : Host) (g : Grammar) (compiled : CompiledGrammar) : Track where
  zero e := e.nullable host.matchesEmpty (g.nullableRules host.matchesEmpty) = true
  zeroRule rule := rule ∈ g.nullableRules host.matchesEmpty
  call c scope e pos := c = compiled ∧ scope.params = [] ∧
    e.Each (LeftExact host (g.nullableRules host.matchesEmpty)) ∧
    ∀ entry ∈ scope.active, entry.2 ≤ pos ∧ (entry.2 = pos →
      ∀ name ∈ e.leftRefs host.matchesEmpty (g.nullableRules host.matchesEmpty), name ∈ g.names →
        TransGen (g.LeftEdge host) entry.1 name)
  again entry := entry.1 ∈ compiled.leftRecursiveRules

section Covers

variable {host : Host} {g : Grammar} {compiled : CompiledGrammar}

/-- A form that is exact ends where it starts only if the analysis says so. -/
theorem nullable_of_zeroStep {e : PegExpr}
    (hexact : LeftExact host (g.nullableRules host.matchesEmpty) e)
    (h : (leftTrack host g compiled).zeroStep host e) :
    e.nullable host.matchesEmpty (g.nullableRules host.matchesEmpty) = true := by
  cases e with
  | sequence items => exact nullableAll_iff.mpr h
  | choice alternatives => exact nullableAny_iff.mpr h
  | ref rule => exact contains_iff_mem.mpr h
  | literal _ | hardKeyword _ | softKeyword _ => exact beq_iff_eq.mpr h
  | regex pattern => exact hexact h
  | and d => exact hexact
  | repeated d min max => exact Bool.or_eq_true_iff.mpr (.inl (beq_iff_eq.mpr h))
  | island start stop includeDelims => exact absurd h hexact
  | not _ | optional _ | zeroOrMore _ | cut | semanticPredicate _ => rfl
  | oneOrMore _ | precedence _ _ | sepOneOrMore _ _ | interspersed _ _ | named _ _ | expected _ _
  | semanticAction _ _ | semanticGuard _ _ | capture _ _ | noTrivia _ | withTrivia _ _ | eager _ =>
    exact h
  | dot | charClass _ | recover _ | newline | indent | rawBlock _ _ _ | backref _ | tokenRef _ _
  | invalid _ => exact h.elim
  | dedent | lookBehind _ _ | call _ _ | parameter _ | importedRef _ _ | grammarScope _ _ =>
    exact hexact.elim

/-- A part is allowed behind the position of the expression, and at that position if it adds
    no left reference. -/
theorem leftTrack_part {c : CompiledGrammar} {scope scope' : Scope} {e d : PegExpr} {pos cur : Nat}
    (h : (leftTrack host g compiled).call c scope e pos) (hparams : scope'.params = scope.params)
    (hactive : scope'.active = scope.active) (hd : d ∈ e.parts) (hle : pos ≤ cur)
    (hrefs : cur = pos → d.leftRefs host.matchesEmpty (g.nullableRules host.matchesEmpty) ⊆
      e.leftRefs host.matchesEmpty (g.nullableRules host.matchesEmpty)) :
    (leftTrack host g compiled).call c scope' d cur := by
  obtain ⟨hc, hp, heach, hedges⟩ := h
  refine ⟨hc, hparams.trans hp, heach.part hd, fun entry hentry => ?_⟩
  rw [hactive] at hentry
  obtain ⟨hpos, hreach⟩ := hedges entry hentry
  refine ⟨hpos.trans hle, fun heq name hname => ?_⟩
  have hcur : cur = pos := Nat.le_antisymm (heq ▸ hpos) hle
  exact hreach (heq.trans hcur) name (hrefs hcur hname)

variable (hrules : compiled.rules = g.bodies)
variable (hleft : compiled.leftRecursiveRules = (g.leftRecursiveSccs host.matchesEmpty).flatten)
variable (hclosed : Passes.Closed (nullableTest host.matchesEmpty) g.bodies
  (g.nullableRules host.matchesEmpty))
variable (hexact : ∀ rule ∈ g.bodies,
  rule.2.Each (LeftExact host (g.nullableRules host.matchesEmpty)))
include hrules hleft hclosed hexact

/-- The invocation of a rule to which every rule leads that is being evaluated there. -/
theorem leftTrack_ruleCall {scope : Scope} {rule : String} {pos : Nat} (hparams : scope.params = [])
    (hedges : ∀ entry ∈ scope.active, entry.2 ≤ pos ∧ (entry.2 = pos → rule ∈ g.names →
      TransGen (g.LeftEdge host) entry.1 rule)) :
    (leftTrack host g compiled).RuleCall compiled scope rule pos := by
  refine ⟨fun e he => ?_, fun hsome hactive => ?_, fun body hbody _ growing => ?_,
    fun body hbody hzero => ?_⟩
  · rw [hparams] at he
    exact absurd he (by simp)
  · obtain ⟨body, hbody⟩ := Option.isSome_iff_exists.mp hsome
    have hname : rule ∈ g.names := mem_names_of_lookup (hrules ▸ hbody)
    show rule ∈ compiled.leftRecursiveRules
    rw [hleft]
    exact mem_leftRecursiveSccs ((hedges _ hactive).2 rfl hname)
  · rw [hrules] at hbody
    have hname : rule ∈ g.names := mem_names_of_lookup hbody
    refine ⟨rfl, hparams, hexact _ (mem_of_lookup hbody), fun entry hentry => ?_⟩
    have hlast (name : String) (href : name ∈ body.leftRefs host.matchesEmpty
        (g.nullableRules host.matchesEmpty)) (hn : name ∈ g.names) : g.LeftEdge host rule name :=
      leftEdge_iff.mpr ⟨body, hbody, href, hn⟩
    rcases mem_cons.mp hentry with rfl | hentry
    · exact ⟨le_rfl, fun _ name href hn => .single (hlast name href hn)⟩
    · obtain ⟨hle, hreach⟩ := hedges entry hentry
      exact ⟨hle, fun heq name href hn => (hreach heq hname).tail (hlast name href hn)⟩
  · rw [hrules] at hbody
    exact hclosed _ (mem_of_lookup hbody) hzero

theorem leftTrack_callStep {ctx : ParseCtx} {c : CompiledGrammar} {scope : Scope} {e : PegExpr}
    {pos : Nat} (h : (leftTrack host g compiled).call c scope e pos) :
    (leftTrack host g compiled).callStep { ctx with compiled := c }
      { scope with exprDepth := scope.exprDepth + 1 } pos e := by
  have hform := h.2.2.1.self
  -- the only part of a form, at its left edge
  have honly {scope' : Scope} {d : PegExpr} {cur : Nat} (hparams : scope'.params = scope.params)
      (hactive : scope'.active = scope.active) (hd : d ∈ e.parts) (hle : pos ≤ cur)
      (hrefs : d.leftRefs host.matchesEmpty (g.nullableRules host.matchesEmpty) =
        e.leftRefs host.matchesEmpty (g.nullableRules host.matchesEmpty)) :
      (leftTrack host g compiled).call c scope' d cur :=
    leftTrack_part h hparams hactive hd hle fun _ => hrefs ▸ List.Subset.refl _
  have hseparated {element separator : PegExpr} (helement : element ∈ e.parts)
      (hseparator : separator ∈ e.parts)
      (hrefs : element.leftRefs host.matchesEmpty (g.nullableRules host.matchesEmpty) =
        e.leftRefs host.matchesEmpty (g.nullableRules host.matchesEmpty))
      (hsep : element.nullable host.matchesEmpty (g.nullableRules host.matchesEmpty) = true →
        separator.leftRefs host.matchesEmpty (g.nullableRules host.matchesEmpty) ⊆
          element.leftRefs host.matchesEmpty (g.nullableRules host.matchesEmpty))
      (cur : Nat) (hle : pos ≤ cur) :
      (leftTrack host g compiled).call c { scope with exprDepth := scope.exprDepth + 1 } element cur ∧
        ((cur = pos → (leftTrack host g compiled).zero element) →
          (leftTrack host g compiled).call c { scope with exprDepth := scope.exprDepth + 1 }
            separator cur) :=
    ⟨honly rfl rfl helement hle hrefs, fun hzero => leftTrack_part h rfl rfl hseparator hle fun heq =>
      hrefs ▸ hsep (hzero heq)⟩
  cases e with
  | sequence items =>
    intro before d behind hitems cur hle hbefore
    subst hitems
    exact leftTrack_part h rfl rfl (by simp [PegExpr.parts]) hle fun heq =>
      leftRefs_subset_sequence (hbefore heq)
  | choice alternatives =>
    exact fun _ hd => leftTrack_part h rfl rfl hd le_rfl fun _ => leftRefs_subset_choice hd
  | precedence operand levels =>
    intro cur hle
    refine ⟨honly rfl rfl mem_cons_self hle rfl, fun level hlevel op hop => ?_⟩
    have hmem : op ∈ levels.flatMap Prod.snd := mem_flatMap.mpr ⟨level, hlevel, hop⟩
    exact leftTrack_part h rfl rfl (mem_cons_of_mem _ hmem) hle fun _ => hform op hmem
  | sepOneOrMore _ _ | interspersed _ _ =>
    exact hseparated mem_cons_self (mem_cons_of_mem _ mem_cons_self) rfl hform
  | ref rule =>
    obtain ⟨rfl, hparams, -, hedges⟩ := h
    refine leftTrack_ruleCall hrules hleft hclosed hexact hparams fun entry hentry => ?_
    obtain ⟨hle, hreach⟩ := hedges entry hentry
    exact ⟨hle, fun heq hname => hreach heq rule mem_cons_self hname⟩
  | oneOrMore _ | zeroOrMore _ | repeated _ _ _ =>
    exact fun cur hle => honly rfl rfl mem_cons_self hle rfl
  | and _ | not _ | optional _ | eager _ | named _ _ | expected _ _ | semanticAction _ _
  | semanticGuard _ _ | capture _ _ | noTrivia _ | withTrivia _ _ =>
    exact honly rfl rfl mem_cons_self le_rfl rfl
  | lookBehind _ _ | call _ _ | parameter _ | importedRef _ _ | grammarScope _ _ => exact hform.elim
  | literal _ | dot | regex _ | charClass _ | recover _ | cut | newline | indent | dedent
  | semanticPredicate _ | island _ _ _ | rawBlock _ _ _ | backref _ | hardKeyword _
  | softKeyword _ | tokenRef _ _ | invalid _ => trivial

theorem leftTrack_covers {ctx : ParseCtx} (hhost : ctx.host = host) :
    (leftTrack host g compiled).Covers ctx where
  call := leftTrack_callStep hrules hleft hclosed hexact
  choice := fun h _ hd => leftTrack_part h rfl rfl hd le_rfl fun _ => leftRefs_subset_choice hd
  zero := fun h hzero => nullable_of_zeroStep h.2.2.1.self (hhost ▸ hzero)

end Covers

/-! ## Every run -/

/-- In a run of a grammar whose forms the analysis knows, and for which the search for the
    nullable rules ends in its passes, every rule that is invoked where it is being evaluated
    is left recursive. -/
theorem reentered_leftRecursive (g : Grammar) (ctx : ParseCtx) (sourceLen : Nat)
    (hcompile : g.compile ctx.host sourceLen [] = .ok ctx.compiled) (htokens : TokensValid ctx)
    (hshort : g.ShortDerivations (nullableTest ctx.host.matchesEmpty)) (hexact : ∀ rule ∈ g.rules,
      rule.expr.Each (LeftExact ctx.host (g.nullableRules ctx.host.matchesEmpty)))
    (fuel : Nat) (rule : String) (pos : Nat) (hpos : Boundary ctx.text pos)
    (indentationEnabled : Bool) :
    ∀ call ∈ (parseRule fuel ctx rule pos (.new indentationEnabled)).2.reentered,
      call.1 ∈ ctx.compiled.leftRecursiveRules := by
  obtain ⟨hrules, hleft⟩ := of_compile hcompile
  have hclosed := ((nullableRules_iff ctx.host.matchesEmpty).mpr hshort).closed
  have hbodies : ∀ rule ∈ g.bodies,
      rule.2.Each (LeftExact ctx.host (g.nullableRules ctx.host.matchesEmpty)) := by
    intro rule hrule
    obtain ⟨r, hr, -, hexpr⟩ := mem_bodies.mp hrule
    exact hexpr ▸ hexact r hr
  have hcovers : (leftTrack ctx.host g ctx.compiled).Covers ctx :=
    leftTrack_covers hrules hleft hclosed hbodies rfl
  have hcall : (leftTrack ctx.host g ctx.compiled).RuleCall ctx.compiled (.new true) rule pos :=
    leftTrack_ruleCall hrules hleft hclosed hbodies rfl fun _ h => absurd h List.not_mem_nil
  have hrun := parseRuleInner_in (parseExpr_in hcovers htokens fuel ctx.compiled) hcovers hpos hcall
  rcases hend : parseRule fuel ctx rule pos (.new indentationEnabled) with ⟨e | outcome, s⟩
  · exact (hrun.of_error (stateIn_new _ _ _) hend).2.reentered
  · exact (hrun.of_ok (stateIn_new _ _ _) hend).2.reentered

/-- A grammar of one rule with two alternatives. -/
def twoWays (first second : PegExpr) : Grammar :=
  ⟨"A", [⟨"A", [], .choice [first, second]⟩]⟩

/-- A run with the memo and without tokens. -/
def memoCtx (compiled : CompiledGrammar) (text : List Char) : ParseCtx :=
  { compiled := compiled
    text := text
    host := plainHost
    cfg := ⟨true, none, ⟨true, []⟩, some .default, none, 100, 100, false⟩ }

/-- `A <- A 'x' / 'a'`. -/
def growing : Grammar := twoWays (.sequence [.ref "A", .literal "x"]) (.literal "a")

/-- What the grammar is compiled to. -/
def growingCompiled : CompiledGrammar where
  rules := growing.bodies
  ruleParams := []
  imports := []
  leftRecursiveRules := ["A"]
  lrMinStep := [("A", 1)]
  ruleDispatch := [("A", [('a', [2])], [1])]
  ruleScc := [("A", 0)]

theorem growing_short : growing.ShortDerivations (nullableTest plainHost.matchesEmpty) := by
  refine (nullableRules_iff plainHost.matchesEmpty).mp ⟨?_, fun _ _ => nil_subset _⟩
  intro rule hrule hbody
  obtain rfl := mem_singleton.mp hrule
  exact absurd hbody (by decide)

theorem growing_exact : ∀ rule ∈ growing.rules,
    rule.expr.Each (LeftExact plainHost (growing.nullableRules plainHost.matchesEmpty)) := by
  intro rule hrule
  obtain rfl := mem_singleton.mp hrule
  refine ⟨trivial, fun d hd => ?_⟩
  simp only [PegExpr.parts, mem_cons, not_mem_nil, or_false] at hd
  rcases hd with rfl | rfl
  · refine ⟨trivial, fun d hd => ?_⟩
    simp only [PegExpr.parts, mem_cons, not_mem_nil, or_false] at hd
    rcases hd with rfl | rfl <;> exact ⟨trivial, fun _ h => absurd h not_mem_nil⟩
  · exact ⟨trivial, fun _ h => absurd h not_mem_nil⟩

theorem reentered_leftRecursive_growing : growing.compile plainHost 0 [] = .ok growingCompiled ∧
      (parseRule 9 (memoCtx growingCompiled ['a', 'x']) "A" 0 (.new false)).2.reentered ≠ [] ∧
      ∀ call ∈ (parseRule 9 (memoCtx growingCompiled ['a', 'x']) "A" 0 (.new false)).2.reentered,
        call.1 ∈ growingCompiled.leftRecursiveRules := by
  refine ⟨rfl, by decide +kernel, ?_⟩
  exact reentered_leftRecursive growing (memoCtx growingCompiled ['a', 'x']) 0 rfl
    (fun _ h => nomatch h) growing_short growing_exact 9 "A" 0 boundary_zero false

/-- In `A <- &'a' A 'x' / 'a'` the rule is entered again behind the lookahead, which the
    analysis takes to advance, and is not left recursive. -/
theorem reentered_behind_lookahead : ∃ compiled,
    (twoWays (.sequence [.and (.literal "a"), .ref "A", .literal "x"]) (.literal "a")).compile
        plainHost 0 [] = .ok compiled ∧
      ("A", 0) ∈ (parseRule 9 (memoCtx compiled ['a']) "A" 0 (.new false)).2.reentered ∧
      "A" ∉ compiled.leftRecursiveRules := by
  refine ⟨_, rfl, ?_, ?_⟩
  · exact List.mem_cons_self
  · exact List.not_mem_nil

end Caap.Peg
