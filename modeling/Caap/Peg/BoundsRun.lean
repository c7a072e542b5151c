/-
  Caap.Peg.BoundsRun

  The invariant of `Caap.Peg.Bounds` through the matchers that evaluate other expressions,
  through rules and imported grammars, and so through every run.  What a form needs of its
  parts, and when it ends where it starts, is said once for all forms (`callStep`,
  `zeroStep`); a track that covers both is kept by every evaluation.
-/

import Caap.Peg.Bounds
import Caap.Peg.Loops

namespace Caap.Peg

open Lib OutcomeIn List

theorem mem_of_lookup {κ ν : Type} [BEq κ] [LawfulBEq κ] {entries : List (κ × ν)} {key : κ}
    {value : ν} (h : entries.lookup key = some value) : (key, value) ∈ entries := by
  obtain ⟨before, behind, rfl, -⟩ := lookup_eq_some_iff.mp h
  exact mem_append_right before mem_cons_self

/-! ## What a form needs of its parts -/

/-- What the invocation of a rule needs. -/
structure Track.RuleCall (T : Track) (compiled : CompiledGrammar) (scope : Scope) (rule : String)
    (pos : Nat) : Prop where
  bound : ∀ e, (scope.params.head?.bind fun frame => frame.lookup rule) = some e →
    T.call compiled scope e pos ∧ (T.zero e → T.zeroRule rule)
  again : (compiled.rules.lookup rule).isSome → (rule, pos) ∈ scope.active → T.again (rule, pos)
  body : ∀ body, compiled.rules.lookup rule = some body → (rule, pos) ∉ scope.active →
    ∀ growing, T.call compiled
      { scope with active := (rule, pos) :: scope.active, lrGrowing := growing } body pos
  zero : ∀ body, compiled.rules.lookup rule = some body → T.zero body → T.zeroRule rule

/-- What the evaluation of a form at `pos` needs of the evaluations of its parts. -/
def Track.callStep (T : Track) (ctx : ParseCtx) (scope : Scope) (pos : Nat) : PegExpr → Prop
  | .and d | .not d | .optional d | .eager d => T.call ctx.compiled scope d pos
  | .named _ d | .expected _ d | .semanticAction _ d | .semanticGuard _ d | .capture _ d =>
    T.call ctx.compiled scope d pos
  | .oneOrMore d | .zeroOrMore d | .repeated d _ _ => ∀ cur, pos ≤ cur → T.call ctx.compiled scope d cur
  | .sequence items => ∀ before d behind, items = before ++ d :: behind → ∀ cur, pos ≤ cur →
      (cur = pos → ∀ b ∈ before, T.zero b) → T.call ctx.compiled scope d cur
  | .choice alternatives => ∀ d ∈ alternatives, T.call ctx.compiled scope d pos
  | .precedence operand levels => ∀ cur, pos ≤ cur → T.call ctx.compiled scope operand cur ∧
      ∀ level ∈ levels, ∀ op ∈ level.2, T.call ctx.compiled scope op cur
  | .sepOneOrMore element separator | .interspersed element separator => ∀ cur, pos ≤ cur →
      T.call ctx.compiled scope element cur ∧
        ((cur = pos → T.zero element) → T.call ctx.compiled scope separator cur)
  | .noTrivia d => T.call ctx.compiled { scope with triviaOn := false } d pos
  | .withTrivia spec d =>
    T.call ctx.compiled { scope with triviaOverrides := spec :: scope.triviaOverrides } d pos
  | .lookBehind d _ => ∀ start, T.call ctx.compiled scope d start
  | .ref rule => T.RuleCall ctx.compiled scope rule pos
  | .call rule args => T.RuleCall ctx.compiled
      { scope with params := callFrame ctx scope rule args :: scope.params } rule pos
  | .parameter name => ∀ d, scope.binding name = some d → T.call ctx.compiled scope d pos
  | .importedRef grammarName rule => ∀ imported, ctx.compiled.imports.lookup grammarName = some imported →
      T.RuleCall imported (.new scope.triviaOn) rule pos
  | .grammarScope grammarName d => ∀ imported, ctx.compiled.imports.lookup grammarName = some imported →
      T.call imported (.new scope.triviaOn) d pos
  | _ => True

/-- When a form can end where it starts, given when its parts can. -/
def Track.zeroStep (T : Track) (host : Host) : PegExpr → Prop
  | .literal s | .hardKeyword s | .softKeyword s => s = ""
  | .regex pattern => host.MatchesNothing pattern
  | .ref rule | .call rule _ => T.zeroRule rule
  | .sequence items => ∀ d ∈ items, T.zero d
  | .choice alternatives => ∃ d ∈ alternatives, T.zero d
  | .repeated _ min _ => min = 0
  | .oneOrMore d | .precedence d _ | .sepOneOrMore d _ | .interspersed d _ => T.zero d
  | .named _ d | .expected _ d | .semanticAction _ d | .semanticGuard _ d | .capture _ d => T.zero d
  | .noTrivia d | .withTrivia _ d | .eager d => T.zero d
  | .island start stop _ => start = "" ∧ stop = ""
  | .dot | .charClass _ | .recover _ | .newline | .indent | .rawBlock _ _ _ | .backref _
  | .tokenRef _ _ | .invalid _ => False
  | .and _ | .not _ | .optional _ | .zeroOrMore _ | .cut | .dedent | .semanticPredicate _
  | .lookBehind _ _ | .importedRef _ _ | .parameter _ | .grammarScope _ _ => True

/-- The track allows what the forms need, for the expressions that it allows. -/
structure Track.Covers (T : Track) (ctx : ParseCtx) : Prop where
  call : ∀ {compiled scope e pos}, T.call compiled scope e pos →
    T.callStep { ctx with compiled := compiled }
      { scope with exprDepth := scope.exprDepth + 1 } pos e
  choice : ∀ {compiled scope alternatives pos}, T.call compiled scope (.choice alternatives) pos →
    ∀ d ∈ alternatives, T.call compiled scope d pos
  zero : ∀ {compiled scope e pos}, T.call compiled scope e pos → T.zeroStep ctx.host e → T.zero e

variable {scope : Scope} {pos : Nat}

/-- What follows only where the expressions end is kept by every rule. -/
theorem Track.zero_ruleCall {zero : PegExpr → Prop} {compiled : CompiledGrammar}
    {rule : String} : { Track.free with zero }.RuleCall compiled scope rule pos :=
  ⟨fun _ _ => ⟨trivial, fun _ => trivial⟩, fun _ _ => trivial, fun _ _ _ _ => trivial,
    fun _ _ _ => trivial⟩

variable {ctx : ParseCtx}

theorem Track.zero_covers {zero : PegExpr → Prop}
    (h : ∀ e, { Track.free with zero }.zeroStep ctx.host e → zero e) :
    { Track.free with zero }.Covers ctx where
  call := by
    intro compiled scope e pos _
    cases e <;> simp only [Track.callStep] <;> intros <;>
      first | exact Track.zero_ruleCall | simp [Track.free]
  choice := fun _ _ _ => trivial
  zero := fun _ => h _

theorem Track.free_ruleCall {compiled : CompiledGrammar} {rule : String} :
    Track.free.RuleCall compiled scope rule pos :=
  Track.zero_ruleCall

theorem Track.free_covers (ctx : ParseCtx) : Track.free.Covers ctx :=
  Track.zero_covers fun _ _ => trivial

/-! ## Sequences, choices and repetitions -/

/-- The evaluation of the parts that the track allows stays in the text. -/
def EvalIn (T : Track) (eval : ExprEval) (ctx : ParseCtx) : Prop :=
  ∀ scope e pos, T.call ctx.compiled scope e pos → Boundary ctx.text pos →
    StaysIn T ctx pos (T.zero e) (eval ctx scope e pos)

variable {text : List Char} {zero : Prop}

variable {child : PegExpr}

section Combinators

variable {T : Track} {eval : ExprEval} {ctx : ParseCtx} {scope : Scope} {pos : Nat}
variable (hev : EvalIn T eval ctx)
include hev

theorem matchLookahead_in (h : Boundary ctx.text pos) {negative : Bool}
    (hc : T.call ctx.compiled scope child pos) :
    StaysIn T ctx pos True (matchLookahead eval ctx scope negative child pos) := by
  refine specCheckpoint_in.bind fun saved _ => (hev scope child pos hc h).bind fun outcome _ => ?_
  refine (specRollback_in saved).bind fun _ _ => ?_
  exact .ite (fun _ => .pure ⟨le_rfl, h, fun _ => trivial⟩) fun _ => .pure h

omit hev in
theorem sequenceValue_in {cur : Nat} (hle : pos ≤ cur)
    (hcur : Boundary text cur) (hzero : cur = pos → zero) (values : List ParseValue) :
    OutcomeIn text zero pos (sequenceValue cur values) := by
  unfold sequenceValue
  split <;> exact ⟨hle, hcur, hzero⟩

/-- The loop of a sequence, behind items that ended where they started only with `start`. -/
theorem sequenceLoop_in {start : Prop} (items : List PegExpr) (cur : Nat)
    (values : List ParseValue) (cutSeen : Bool) (hle : pos ≤ cur) (hcur : Boundary ctx.text cur)
    (hstart : cur = pos → start)
    (hc : ∀ before d behind, items = before ++ d :: behind → ∀ cur, pos ≤ cur →
      (cur = pos → start ∧ ∀ b ∈ before, T.zero b) → T.call ctx.compiled scope d cur) :
    StaysIn T ctx pos (start ∧ ∀ d ∈ items, T.zero d)
      (sequenceLoop eval ctx scope items cur values cutSeen) := by
  induction items generalizing start cur values cutSeen with
  | nil =>
    have hend (heq : cur = pos) : start ∧ ∀ d ∈ ([] : List PegExpr), T.zero d :=
      ⟨hstart heq, fun _ h => absurd h not_mem_nil⟩
    exact .pure (sequenceValue_in hle hcur hend values)
  | cons item items ih =>
    have hitem : T.call ctx.compiled scope item cur :=
      hc [] item items rfl cur hle fun heq => ⟨hstart heq, fun _ h => absurd h not_mem_nil⟩
    -- the items behind are called where the first one ended
    have hrest (before : List PegExpr) (d : PegExpr) (behind : List PegExpr)
        (hitems : items = before ++ d :: behind) (cur' : Nat) (hcur' : pos ≤ cur')
        (hbefore : cur' = pos → (start ∧ T.zero item) ∧ ∀ b ∈ before, T.zero b) :
        T.call ctx.compiled scope d cur' := by
      refine hc (item :: before) d behind (by rw [hitems, cons_append]) cur' hcur' fun heq => ?_
      obtain ⟨⟨hs, hi⟩, hb⟩ := hbefore heq
      exact ⟨hs, forall_mem_cons.mpr ⟨hi, hb⟩⟩
    have hnext (next : Nat) (values : List ParseValue) (cut : Bool)
        (hout : cur ≤ next ∧ Boundary ctx.text next ∧ (next = cur → T.zero item)) :
        StaysIn T ctx pos (start ∧ ∀ d ∈ item :: items, T.zero d)
          (sequenceLoop eval ctx scope items next values cut) := by
      have hstart' (heq : next = pos) : start ∧ T.zero item :=
        ⟨hstart (by omega), hout.2.2 (by omega)⟩
      refine (ih next values cut (hle.trans hout.1) hout.2.1 hstart' hrest).mono fun o => ?_
      exact imp fun hz => ⟨hz.1.1, forall_mem_cons.mpr ⟨hz.1.2, hz.2⟩⟩
    refine (hev scope item cur hitem hcur).bind fun outcome hout => ?_
    match outcome, hout with
    | .success next _ true, hout | .success next value false, hout => exact hnext _ _ _ hout
    | .failure next _, hout => exact .pure hout

omit hev in
theorem boundary_max {a b : Nat} (ha : Boundary text a) (hb : Boundary text b) :
    Boundary text (max a b) := by
  rcases max_choice a b with hmax | hmax <;> rw [hmax] <;> assumption

theorem choiceLoop_in (h : Boundary ctx.text pos) {alternatives : List PegExpr}
    (hc : ∀ d ∈ alternatives, T.call ctx.compiled scope d pos)
    (candidates : List Nat) (furthest : Nat) (hfurthest : Boundary ctx.text furthest) :
    StaysIn T ctx pos (∃ d ∈ alternatives, T.zero d)
      (choiceLoop eval ctx scope alternatives pos candidates furthest) := by
  induction candidates generalizing furthest with
  | nil => exact .pure hfurthest
  | cons idx candidates ih =>
    refine specCheckpoint_in.bind fun saved _ => ?_
    cases hidx : alternatives[idx]? with
    | none => simpa only [hidx] using .throw nofun
    | some alternative =>
      have hmem : alternative ∈ alternatives := mem_of_getElem? hidx
      refine (hev scope alternative pos (hc _ hmem) h).bind fun outcome hout => ?_
      match outcome, hout with
      | .success stop value cut, hout =>
        exact .pure (hout.imp fun hz => ⟨alternative, hmem, hz⟩)
      | .failure fp true, hout =>
        exact (specRollback_in saved).bind fun _ _ => .pure hout
      | .failure fp false, hout =>
        exact (specRollback_in saved).bind fun _ _ => ih _ (boundary_max hfurthest hout)

section Choice

variable (h : Boundary ctx.text pos) {alternatives : List PegExpr}
variable (hc : ∀ d ∈ alternatives, T.call ctx.compiled scope d pos)
include h hc

theorem matchChoice_in : StaysIn T ctx pos (∃ d ∈ alternatives, T.zero d)
    (matchChoice eval ctx scope alternatives pos) :=
  choiceLoop_in hev h hc _ _ h

theorem matchChoiceDispatched_in {dispatch : ChoiceDispatch} :
    StaysIn T ctx pos (∃ d ∈ alternatives, T.zero d)
      (matchChoiceDispatched eval ctx scope alternatives dispatch pos) := by
  refine skipTrivia_suffix_in h fun cur rest _ _ => ?_
  cases rest.head? with
  | none => exact choiceLoop_in hev h hc _ _ h
  | some c =>
    cases hentry : dispatch.1.lookup c with
    | none => simpa only [hentry] using matchChoice_in hev h hc
    | some indices => simpa only [hentry] using choiceLoop_in hev h hc _ _ h

end Choice

theorem matchOptional_in (h : Boundary ctx.text pos) (hc : T.call ctx.compiled scope child pos) :
    StaysIn T ctx pos True (matchOptional eval ctx scope child pos) := by
  refine specCheckpoint_in.bind fun saved _ => (hev scope child pos hc h).cases
    (fun _ _ _ hout => .pure ⟨hout.1, hout.2.1, fun _ => trivial⟩) fun _ _ _ => ?_
  exact (specRollback_in saved).bind fun _ _ => .pure ⟨le_rfl, h, fun _ => trivial⟩

/-- A round from `cur` ends in `φ` or goes on in the text, and without moving only with `still`. -/
def RoundIn {β γ : Type} (text : List Char) (cur : Nat) (still : Prop) (φ : β → Prop) :
    β ⊕ (Nat × γ) → Prop
  | .inl b => φ b
  | .inr a => cur ≤ a.1 ∧ Boundary text a.1 ∧ (a.1 = cur → still)

/-- A repetition goes on only where the position moves. -/
theorem repeatStep_in (max : Option Nat) (n : Nat) (a : Collected)
    (hc : T.call ctx.compiled scope child a.1) (hcur : Boundary ctx.text a.1) :
    InText ctx.text T (repeatStep eval ctx scope child max n a)
      (RoundIn ctx.text a.1 False (· = a)) := by
  refine .ite (fun _ => .pure rfl) fun _ => specCheckpoint_in.bind fun saved _ => ?_
  refine (hev scope child a.1 hc hcur).cases (fun next value cut hout => ?_) fun fp cut _ => ?_
  · refine .ite (fun hlt => .pure ⟨hout.1, hout.2.1, hlt.ne'⟩) fun _ => ?_
    exact (specRollback_in saved).bind fun _ _ => .pure rfl
  · exact (specRollback_in saved).bind fun _ _ => .pure rfl

theorem repeatLoop_in (hc : ∀ cur, pos ≤ cur → T.call ctx.compiled scope child cur)
    {max : Option Nat} {n cur : Nat} {values : List ParseValue} (hle : pos ≤ cur)
    (hcur : Boundary ctx.text cur) :
    InText ctx.text T (repeatLoop eval ctx scope child max n cur values)
      fun r => cur ≤ r.1 ∧ Boundary ctx.text r.1 ∧ (r.1 = cur → r.2 = values) := by
  rw [repeatLoop_eq]
  refine .loop (P := fun a : Collected => cur ≤ a.1 ∧ Boundary ctx.text a.1 ∧
      (a.1 = cur → a.2 = values)) (fun m _ a ha => ?_) (fun _ _ => .throw nofun)
    ⟨le_rfl, hcur, fun _ => rfl⟩
  refine (repeatStep_in hev max m a (hc a.1 (hle.trans ha.1)) ha.2.1).mono fun r hr => ?_
  cases r with
  | inl b => exact hr ▸ ha
  | inr a' =>
    obtain ⟨hle, hb, hmoves⟩ := hr
    exact ⟨ha.1.trans hle, hb, fun heq => (hmoves (Nat.le_antisymm (heq ▸ ha.1) hle)).elim⟩

variable {fuel : Nat}

section Repetition

variable (h : Boundary ctx.text pos) {child : PegExpr}
variable (hc : ∀ cur, pos ≤ cur → T.call ctx.compiled scope child cur)
include h hc

theorem matchZeroOrMore_in :
    StaysIn T ctx pos True (matchZeroOrMore eval ctx scope child fuel pos) :=
  (repeatLoop_in hev hc le_rfl h).bind fun _ hr =>
    .pure ⟨hr.1, hr.2.1, fun _ => trivial⟩

theorem matchRepeat_in {min : Nat} {max : Option Nat} :
    StaysIn T ctx pos (min = 0) (matchRepeat eval ctx scope child min max fuel pos) := by
  refine (repeatLoop_in hev hc le_rfl h).bind fun r hr => ?_
  refine .ite (fun _ => failExpecting_in hr.2.1 _) fun hmin => .pure ⟨hr.1, hr.2.1, ?_⟩
  intro heq
  rw [hr.2.2 heq, length_nil] at hmin
  omega

end Repetition

theorem matchFirst_in (h : Boundary ctx.text pos) (hc : T.call ctx.compiled scope child pos)
    {more : Nat → ParseValue → Eval ParseOutcome}
    (hmore : ∀ next value, pos ≤ next → Boundary ctx.text next → (next = pos → T.zero child) →
      StaysIn T ctx pos zero (more next value)) :
    StaysIn T ctx pos zero (matchFirst eval ctx scope child pos more) := by
  refine specCheckpoint_in.bind fun saved _ => (hev scope child pos hc h).cases
    (fun next value _ hout => hmore next value hout.1 hout.2.1 hout.2.2) fun _ _ hout => ?_
  exact (specRollback_in saved).bind fun _ _ => .pure hout

theorem matchOneOrMore_in (h : Boundary ctx.text pos)
    (hc : ∀ cur, pos ≤ cur → T.call ctx.compiled scope child cur) :
    StaysIn T ctx pos (T.zero child) (matchOneOrMore eval ctx scope child fuel pos) :=
  matchFirst_in hev h (hc pos le_rfl) fun next value hle hnext hzero =>
    (repeatLoop_in hev hc hle hnext).bind fun r hr =>
      .pure ⟨hle.trans hr.1, hr.2.1, fun heq => hzero (Nat.le_antisymm (hr.1.trans heq.le) hle)⟩

/-- A separated list goes on without moving only if separator and element both do. -/
theorem separatedStep_in {element separator : PegExpr} (keepSeparators : Bool) (n : Nat)
    (a : Collected) (hsep : T.call ctx.compiled scope separator a.1)
    (helement : ∀ cur, a.1 ≤ cur → T.call ctx.compiled scope element cur)
    (hcur : Boundary ctx.text a.1) :
    InText ctx.text T (separatedStep eval ctx scope element separator keepSeparators n a)
      (RoundIn ctx.text a.1 (T.zero separator ∧ T.zero element) (· = a)) := by
  refine specCheckpoint_in.bind fun saved _ => ?_
  have hstop : InText ctx.text T
      (specRollback saved >>= fun _ => (pure (.inl a) : Eval (Collected ⊕ Collected)))
      (RoundIn ctx.text a.1 (T.zero separator ∧ T.zero element) (· = a)) :=
    (specRollback_in saved).bind fun _ _ => .pure rfl
  refine (hev scope separator a.1 hsep hcur).cases (fun sepPos _ _ hsep => ?_) fun _ _ _ => hstop
  refine (hev scope element sepPos (helement sepPos hsep.1) hsep.2.1).cases (fun next _ _ hout => ?_)
    fun _ _ _ => hstop
  refine .pure ⟨hsep.1.trans hout.1, hout.2.1, fun heq => ?_⟩
  exact ⟨hsep.2.2 (by omega), hout.2.2 (by omega)⟩

section Separated

variable {element separator : PegExpr}
variable (hc : ∀ cur, pos ≤ cur → T.call ctx.compiled scope element cur ∧
  ((cur = pos → T.zero element) → T.call ctx.compiled scope separator cur))
include hc

theorem separatedLoop_in {keepSeparators : Bool} {n cur : Nat} {values : List ParseValue}
    (hle : pos ≤ cur) (hcur : Boundary ctx.text cur) (hzero : cur = pos → T.zero element) :
    InText ctx.text T (separatedLoop eval ctx scope element separator keepSeparators n cur values)
      fun r => pos ≤ r.1 ∧ Boundary ctx.text r.1 ∧ (r.1 = pos → T.zero element) := by
  rw [separatedLoop_eq]
  refine .loop (P := fun a : Collected => pos ≤ a.1 ∧ Boundary ctx.text a.1 ∧
      (a.1 = pos → T.zero element)) (fun m _ a ha => ?_) (fun _ _ => .throw nofun)
    ⟨hle, hcur, hzero⟩
  refine (separatedStep_in hev keepSeparators m a ((hc a.1 ha.1).2 ha.2.2)
    (fun cur hcur => (hc cur (ha.1.trans hcur)).1) ha.2.1).mono fun r hr => ?_
  cases r with
  | inl b => exact hr ▸ ha
  | inr a' =>
    obtain ⟨hle, hb, -⟩ := hr
    exact ⟨ha.1.trans hle, hb, fun heq => ha.2.2 (Nat.le_antisymm (heq ▸ hle) ha.1)⟩

variable (h : Boundary ctx.text pos)
include h

theorem matchSepOneOrMore_in : StaysIn T ctx pos (T.zero element)
    (matchSepOneOrMore eval ctx scope element separator fuel pos) :=
  matchFirst_in hev h (hc pos le_rfl).1 fun next value hle hnext hzero =>
    (separatedLoop_in hev hc hle hnext hzero).bind fun _ hr => .pure hr

theorem matchInterspersed_in : StaysIn T ctx pos (T.zero element)
    (matchInterspersed eval ctx scope element separator fuel pos) :=
  matchFirst_in hev h (hc pos le_rfl).1 fun next value hle hnext hzero =>
    (separatedLoop_in hev hc hle hnext hzero).bind fun _ hr => .pure hr

end Separated

/-! ## Operator precedence -/

theorem peekOperators_in (h : Boundary ctx.text pos) (ops : List PegExpr)
    (hc : ∀ op ∈ ops, T.call ctx.compiled scope op pos) :
    InText ctx.text T (peekOperators eval ctx scope pos ops)
      fun found => ∀ r ∈ found, pos ≤ r.2 ∧ Boundary ctx.text r.2 ∧
        (r.2 = pos → ∃ op ∈ ops, T.zero op) := by
  induction ops with
  | nil => exact .pure fun r hr => nomatch hr
  | cons op ops ih =>
    have hop : T.call ctx.compiled scope op pos := hc op mem_cons_self
    refine specCheckpoint_in.bind fun saved _ => (hev scope op pos hop h).bind fun outcome hout => ?_
    refine (specRollback_in saved).bind fun _ _ => ?_
    match outcome, hout with
    | .failure fp cut, _ =>
      refine (ih fun op hmem => hc op (mem_cons_of_mem _ hmem)).mono fun found hfound r hr => ?_
      obtain ⟨hle, hb, hzero⟩ := hfound r hr
      exact ⟨hle, hb, fun heq => (hzero heq).imp fun _ hop => ⟨mem_cons_of_mem _ hop.1, hop.2⟩⟩
    | .success stop value cut, hout =>
      refine .pure fun r hr => ?_
      obtain rfl := Option.some.inj hr
      exact ⟨hout.1, hout.2.1, fun heq => ⟨op, mem_cons_self, hout.2.2 heq⟩⟩

omit hev in
theorem leadingOperators_in (level : Fixity × List PegExpr) :
    InText text T (leadingOperators level) fun ops => ops ⊆ level.2 := by
  rw [leadingOperators]
  refine .ite (fun _ => ?_) fun _ => .pure (List.Subset.refl _)
  cases level.2 with
  | nil => exact .throw nofun
  | cons op ops => exact .pure (cons_subset_cons op (nil_subset ops))

theorem peekPrecOp_in (h : Boundary ctx.text pos) (want : List Fixity)
    (levels : List (Fixity × List PegExpr)) (prec : Nat)
    (hc : ∀ level ∈ levels, ∀ op ∈ level.2, T.call ctx.compiled scope op pos) :
    InText ctx.text T (peekPrecOp eval ctx scope pos want levels prec)
      fun found => ∀ r ∈ found, pos ≤ r.2.1 ∧ Boundary ctx.text r.2.1 ∧
        (r.2.1 = pos → ∃ level ∈ levels, level.1 ∈ want ∧ ∃ op ∈ level.2, T.zero op) := by
  induction levels generalizing prec with
  | nil => exact .pure fun r hr => nomatch hr
  | cons level levels ih =>
    have hrest := fun prec => (ih prec fun level hmem => hc level (mem_cons_of_mem _ hmem)).mono
      fun found (hfound : ∀ r ∈ found, _) r hr => show pos ≤ r.2.1 ∧ Boundary ctx.text r.2.1 ∧
          (r.2.1 = pos → ∃ level' ∈ level :: levels, level'.1 ∈ want ∧ ∃ op ∈ level'.2, T.zero op) from
        ⟨(hfound r hr).1, (hfound r hr).2.1, fun heq => ((hfound r hr).2.2 heq).imp
          fun _ hop => ⟨mem_cons_of_mem _ hop.1, hop.2⟩⟩
    refine .ite (fun hwant => ?_) fun _ => hrest _
    refine (leadingOperators_in level).bind fun ops hops => ?_
    have hcalls : ∀ op ∈ ops, T.call ctx.compiled scope op pos := fun op hop =>
      hc level mem_cons_self op (hops hop)
    refine (peekOperators_in hev h ops hcalls).bind fun found hfound => ?_
    cases found with
    | none => exact hrest _
    | some found =>
      refine .pure fun r hr => ?_
      obtain rfl := Option.some.inj hr
      obtain ⟨hle, hb, hzero⟩ := hfound found rfl
      refine ⟨hle, hb, fun heq => ?_⟩
      obtain ⟨op, hop, hz⟩ := hzero heq
      exact ⟨level, mem_cons_self, hwant, op, hops hop, hz⟩

omit hev in
theorem closingOperator_in (levels : List (Fixity × List PegExpr)) (prec : Nat) :
    InText text T (closingOperator levels prec) fun op => ∃ level ∈ levels, op ∈ level.2 := by
  rw [closingOperator]
  split
  · next op hop =>
      obtain ⟨level, hlevel, hmem⟩ := Option.bind_eq_some_iff.mp hop
      exact .pure ⟨level, mem_of_getElem? hlevel, mem_of_getElem? hmem⟩
  · exact .throw nofun

section Precedence

variable {operand : PegExpr} {levels : List (Fixity × List PegExpr)}

theorem nonAssocChained_in (h : Boundary ctx.text pos)
    (hc : ∀ level ∈ levels, ∀ op ∈ level.2, T.call ctx.compiled scope op pos)
    {fixity : Fixity} {prec : Nat} :
    InText ctx.text T (nonAssocChained eval ctx scope levels fixity prec pos) fun _ => True := by
  refine .ite (fun _ => ?_) fun _ => .pure trivial
  refine (peekPrecOp_in hev h _ levels 0 hc).bind fun found _ => ?_
  cases found <;> exact .pure trivial

/-- The climber, as long as the operands on the right are in the text. -/
def ClimbsIn (T : Track) (eval : ExprEval) (ctx : ParseCtx) (scope : Scope) (operand : PegExpr)
    (levels : List (Fixity × List PegExpr)) (first n : Nat) : Prop :=
  ∀ minBp pos, first ≤ pos → Boundary ctx.text pos →
    StaysIn T ctx pos (T.zero operand) (precedenceBp eval ctx scope operand levels n minBp pos)

variable {first : Nat} (hc : ∀ cur, first ≤ cur → T.call ctx.compiled scope operand cur ∧
  ∀ level ∈ levels, ∀ op ∈ level.2, T.call ctx.compiled scope op cur)
include hc

/-- An operator behind an operand can end where it starts. -/
def EmptyOperator (T : Track) (levels : List (Fixity × List PegExpr)) : Prop :=
  ∃ level ∈ levels, level.1 ∈ ledFixities ∧ ∃ op ∈ level.2, T.zero op

/-- The operators behind an operand go on without moving only with an operator that does. -/
theorem ledStep_in (minBp : Nat) {n : Nat} (hn : ClimbsIn T eval ctx scope operand levels first n)
    (a : Nat × ParseValue) (hfirst : first ≤ a.1) (hle : pos ≤ a.1) (hcur : Boundary ctx.text a.1)
    (hzero : a.1 = pos → zero) : InText ctx.text T (ledStep eval ctx scope operand levels minBp n a)
      (RoundIn ctx.text a.1 (EmptyOperator T levels) (OutcomeIn ctx.text zero pos)) := by
  have hfail (fp : Nat) (label : String) (h : Boundary ctx.text fp) :
      InText ctx.text T
        (.inl <$> failExpecting fp label : Eval (ParseOutcome ⊕ (Nat × ParseValue)))
        (RoundIn ctx.text a.1 (EmptyOperator T levels) (OutcomeIn ctx.text zero pos)) :=
    (failExpecting_in h label).bind fun _ hout => .pure hout
  refine (peekPrecOp_in hev hcur _ levels 0 (hc a.1 hfirst).2).bind fun found hfound => ?_
  match found, hfound with
  | none, _ => exact .pure ⟨hle, hcur, hzero⟩
  | some (opValue, opEnd, prec, fixity), hfound =>
    obtain ⟨hop, hopEnd, hstill⟩ := hfound _ rfl
    have hopLe : a.1 ≤ opEnd := hop
    refine .ite (fun _ => .pure ⟨hle, hcur, hzero⟩) fun _ => ?_
    -- whatever follows, the loop goes on behind the operator
    have hgo (lhs : ParseValue) (next : Nat) (hnext : opEnd ≤ next) (hb : Boundary ctx.text next) :
        InText ctx.text T (pure (.inr (next, lhs)) : Eval (ParseOutcome ⊕ (Nat × ParseValue)))
          (RoundIn ctx.text a.1 (EmptyOperator T levels) (OutcomeIn ctx.text zero pos)) :=
      .pure ⟨hopLe.trans hnext, hb, fun heq =>
        hstill (Nat.le_antisymm (hnext.trans (le_of_eq heq)) hopLe)⟩
    cases fixity with
    | postfixOp => exact hgo _ _ le_rfl hopEnd
    | prefixOp => exact .throw nofun
    | infixLeft | infixRight | infixNon =>
      refine (hn _ opEnd (hfirst.trans hopLe) hopEnd).cases (fun rhsEnd rhs _ hout => ?_)
        fun _ _ _ => hfail _ _ hopEnd
      refine (nonAssocChained_in hev hout.2.1 (hc rhsEnd (by omega)).2).bind fun _ _ => ?_
      exact .ite (fun _ => hfail _ _ hout.2.1) fun _ => hgo _ _ hout.1 hout.2.1
    | ternary =>
      refine (closingOperator_in levels prec).bind fun close ⟨level, hlevel, hmem⟩ => ?_
      refine (hn 0 opEnd (hfirst.trans hopLe) hopEnd).cases (fun thenEnd _ _ hthen => ?_)
        fun _ _ _ => hfail _ _ hopEnd
      have hcall : T.call ctx.compiled scope close thenEnd :=
        (hc thenEnd (by omega)).2 level hlevel close hmem
      refine (hev scope close thenEnd hcall hthen.2.1).cases (fun closeEnd _ _ hclose => ?_)
        fun _ _ _ => hfail _ _ hthen.2.1
      refine (hn prec closeEnd (by omega) hclose.2.1).cases (fun elseEnd _ _ helse => ?_)
        fun _ _ _ => hfail _ _ hclose.2.1
      exact hgo _ _ (by omega) helse.2.1

/-- The climber ends where it starts only with the operand.  The loop behind an operand
    climbs with fewer rounds, so the induction is a strong one. -/
theorem precedenceBp_in (n : Nat) : ClimbsIn T eval ctx scope operand levels first n := by
  induction n using Nat.strong_induction_on with
  | _ n ih =>
    cases n with
    | zero => exact fun _ _ _ _ => .throw nofun
    | succ n =>
      intro minBp pos hfirst h
      have hled (lhs : ParseValue) (cur : Nat) (hle : pos ≤ cur) (hcur : Boundary ctx.text cur)
          (hzero : cur = pos → T.zero operand) : StaysIn T ctx pos (T.zero operand)
          (precedenceLed eval ctx scope operand levels n minBp lhs cur) := by
        rw [precedenceLed_eq]
        refine .loop (P := fun a : Nat × ParseValue => pos ≤ a.1 ∧ Boundary ctx.text a.1 ∧
            (a.1 = pos → T.zero operand)) (fun m hm a ha => ?_) (fun _ _ => .throw nofun)
          ⟨hle, hcur, hzero⟩
        have hstep := ledStep_in hev hc minBp (ih m (Nat.lt_succ_of_lt hm)) a (hfirst.trans ha.1) ha.1
          ha.2.1 ha.2.2
        refine hstep.mono fun r hr => ?_
        cases r with
        | inl o => exact hr
        | inr a' =>
          obtain ⟨hle', hb, -⟩ := hr
          exact ⟨ha.1.trans hle', hb, fun heq => ha.2.2 (Nat.le_antisymm (heq ▸ hle') ha.1)⟩
      rw [precedenceBp]
      refine (peekPrecOp_in hev h _ levels 0 (hc pos hfirst).2).bind fun found hfound => ?_
      match found, hfound with
      | none, _ =>
        exact (hev scope operand pos (hc pos hfirst).1 h).cases
          (fun _ _ _ hout => hled _ _ hout.1 hout.2.1 hout.2.2) fun _ _ hout => .pure hout
      | some (opValue, opEnd, prec, fixity), hfound =>
        obtain ⟨hle, hopEnd, -⟩ := hfound _ rfl
        have hle' : pos ≤ opEnd := hle
        refine (ih n (Nat.lt_succ_self n) prec opEnd (hfirst.trans hle) hopEnd).cases
          (fun stop value cut hout => ?_) fun _ _ _ => failExpecting_in hopEnd _
        exact hled _ _ (hle'.trans hout.1) hout.2.1 fun heq => hout.2.2 (by omega)

end Precedence

/-! ## Wrappers -/

omit hev in
theorem bindCapture_in (name : String) (value : ParseValue) :
    InText text T (bindCapture name value) fun _ => True := by
  rw [bindCapture]
  split
  · exact .modify (fun _ hs => hs.of_eq rfl rfl rfl) trivial
  · exact .pure trivial

omit hev in
theorem stateIn_relabel {s : EvalState} (hs : StateIn text T s)
    (h : Boundary text pos) (message : String) :
    StateIn text T { s with diag := s.diag.relabel pos message } := by
  have hcleared : StateIn text T { s with diag :=
      { s.diag with expected := s.diag.expected.filter fun entry => entry.1 ≠ pos } } :=
    ⟨hs.memo, hs.furthest, hs.reentered⟩
  exact stateIn_recordExpected hcleared h message

variable {name : String}

section Wrappers

variable (h : Boundary ctx.text pos) {child : PegExpr}
variable (hc : T.call ctx.compiled scope child pos)
include h hc

theorem matchNamed_in :
    StaysIn T ctx pos (T.zero child) (matchNamed eval ctx scope name child pos) := by
  refine (hev scope child pos hc h).cases (fun stop value cut hout => ?_) fun _ _ hout => .pure hout
  exact (bindCapture_in name value).bind fun _ _ => .pure hout

theorem matchExpected_in {message : String} :
    StaysIn T ctx pos (T.zero child) (matchExpected eval ctx scope message child pos) := by
  refine .get_bind fun before _ => (hev scope child pos hc h).cases (fun _ _ _ hout => .pure hout)
    fun _ _ _ => .get_bind fun s hs => ?_
  have hfail : Boundary ctx.text
      (if before.diag.furthest < s.diag.furthest then s.diag.furthest else pos) := by
    split_ifs
    · exact hs.furthest
    · exact h
  exact (Keeps.set (φ := fun _ => True) (stateIn_relabel hs hfail message) trivial).bind
    fun _ _ => .pure hfail

omit hc in
theorem matchWithTrivia_in (spec : String) (hc : T.call ctx.compiled
    { scope with triviaOverrides := spec :: scope.triviaOverrides } child pos) :
    StaysIn T ctx pos (T.zero child) (matchWithTrivia eval ctx scope spec child pos) := by
  rw [matchWithTrivia]
  split
  · exact hev _ child pos hc h
  · exact parseError_in

theorem matchSemanticAction_in :
    StaysIn T ctx pos (T.zero child) (matchSemanticAction eval ctx scope name child pos) := by
  refine (hev scope child pos hc h).cases (fun _ _ _ hout => ?_) fun _ _ hout => .pure hout
  exact .ite (fun _ => .pure hout) fun _ => parseError_in

omit hev hc in
theorem matchSemanticPredicate_in (name : String) :
    StaysIn T ctx pos True (matchSemanticPredicate ctx name pos) :=
  .ite (fun _ => .pure ⟨le_rfl, h, fun _ => trivial⟩) fun _ => parseError_in

theorem matchSemanticGuard_in :
    StaysIn T ctx pos (T.zero child) (matchSemanticGuard eval ctx scope child pos) := by
  refine specCheckpoint_in.bind fun saved _ => (hev scope child pos hc h).cases
    (fun _ _ _ hout => .pure hout) fun _ _ hout => ?_
  exact (specRollback_in saved).bind fun _ _ => .pure hout

theorem matchCapture_in :
    StaysIn T ctx pos (T.zero child) (matchCapture eval ctx scope child pos) := by
  exact (hev scope child pos hc h).cases (fun _ _ _ hout => .pure hout) fun _ _ hout => .pure hout

theorem matchEager_in : StaysIn T ctx pos (T.zero child) (matchEager eval ctx scope child pos) := by
  exact (hev scope child pos hc h).cases (fun _ _ _ hout => .pure hout)
    fun _ _ _ => .get_bind fun _ _ => parseError_in

end Wrappers

section LookBehind

variable {child : PegExpr} (hc : ∀ start, T.call ctx.compiled scope child start)
include hc

theorem lookBehindLoop_in {starts : List Nat} :
    InText ctx.text T (lookBehindLoop eval ctx scope child pos starts) fun _ => True := by
  induction starts with
  | nil => exact .pure trivial
  | cons start starts ih =>
    refine .ite (fun hstart => ?_) fun _ => ih
    exact (hev scope child start (hc start) hstart).cases
      (fun _ _ _ _ => .ite (fun _ => .pure trivial) fun _ => ih) fun _ _ _ => ih

theorem matchLookBehind_in (h : Boundary ctx.text pos) {negative : Bool} :
    StaysIn T ctx pos True (matchLookBehind eval ctx scope child negative pos) := by
  refine specCheckpoint_in.bind fun saved _ => ?_
  refine (lookBehindLoop_in hev hc).bind fun matched _ => ?_
  refine (specRollback_in saved).bind fun _ _ => ?_
  exact .ite (fun _ => .pure ⟨le_rfl, h, fun _ => trivial⟩) fun _ => failExpecting_in h _

end LookBehind

/-! ## Rules -/

omit hev in
theorem emit_in (event : TraceEvent) : InText text T (emit ctx event) fun _ => True :=
  .ite (fun _ => .modify (fun _ hs => hs.of_eq rfl rfl rfl) trivial)
    fun _ => .pure trivial

omit hev in
theorem prunePeerMemos_in (rule : String) :
    InText text T (prunePeerMemos ctx rule pos) fun _ => True :=
  .modify (fun _ hs => ⟨fun entry hentry => hs.memo entry (mem_of_mem_filter hentry),
    hs.furthest, hs.reentered⟩) trivial

omit hev in
theorem noteReentry_in (rule : String) (hagain : (rule, pos) ∈ scope.active → T.again (rule, pos)) :
    InText text T (noteReentry scope rule pos) fun _ => True := by
  refine .ite (fun hactive => ?_) fun _ => .pure trivial
  refine .modify (fun s hs => ⟨hs.memo, hs.furthest, ?_⟩) trivial
  exact forall_mem_cons.mpr ⟨hagain (contains_iff_mem.mp hactive), hs.reentered⟩

section RuleBodies

variable (hT : T.Covers ctx) {rule : String} {body : PegExpr} (h : Boundary ctx.text pos)
include hT h

theorem evalBody_in (hc : T.call ctx.compiled scope body pos) :
    StaysIn T ctx pos (T.zero body) (evalBody eval ctx scope rule body pos) := by
  unfold evalBody
  split
  · next alternatives =>
      have halts : ∀ d ∈ alternatives, T.call ctx.compiled scope d pos := hT.choice hc
      have hzero (o : ParseOutcome) (ho : OutcomeIn ctx.text (∃ d ∈ alternatives, T.zero d) pos o) :
          OutcomeIn ctx.text (T.zero (.choice alternatives)) pos o :=
        ho.imp fun hz => hT.zero hc hz
      split
      · exact (matchChoiceDispatched_in hev h halts).mono hzero
      · exact (matchChoice_in hev h halts).mono hzero
  · exact hev scope _ pos hc h

variable (hc : ∀ growing, T.call ctx.compiled
  { scope with active := (rule, pos) :: scope.active, lrGrowing := growing } body pos)
include hc

theorem parseRuleBody_in (growing : List (Nat × Nat)) : StaysIn T ctx pos (T.zero body)
    (parseRuleBody eval ctx { scope with lrGrowing := growing } rule body pos) :=
  (emit_in _).bind fun _ _ => (evalBody_in hev hT h (hc growing)).bind fun _ hout =>
    (emit_in _).bind fun _ _ => .pure hout

variable (hzero : T.zero body → T.zeroRule rule)
include hzero

theorem growStep_in (growing : List (Nat × Nat)) (n : Nat) (best : ParseOutcome)
    (hbest : OutcomeIn ctx.text (T.zeroRule rule) pos best) :
    InText ctx.text T (growStep eval ctx { scope with lrGrowing := growing } rule body pos n best)
      (Sum.elim (OutcomeIn ctx.text (T.zeroRule rule) pos)
        fun o => OutcomeIn ctx.text (T.zeroRule rule) pos o ∧ best.stop < o.stop) := by
  refine (prunePeerMemos_in rule).bind fun _ _ => ?_
  refine (parseRuleBody_in hev hT h hc growing).bind fun result hresult => ?_
  have hresult' := hresult.imp hzero
  refine .ite (fun _ => ?_) fun hgrown => ?_
  · exact (memoInsert_in hbest).bind fun _ _ => .pure hbest
  · exact (memoInsert_in hresult').bind fun _ _ => .pure ⟨hresult', by simp at hgrown; omega⟩

theorem growLoop_in {growing : List (Nat × Nat)} {n : Nat} {best : ParseOutcome}
    (hbest : OutcomeIn ctx.text (T.zeroRule rule) pos best) : StaysIn T ctx pos (T.zeroRule rule)
      (growLoop eval ctx { scope with lrGrowing := growing } rule body pos n best) := by
  rw [growLoop_eq]
  refine .loop (fun m _ best hbest => ?_) (fun _ _ => parseError_in) hbest
  refine (growStep_in hev hT h hc hzero growing m best hbest).mono fun r hr => ?_
  cases r with
  | inl o => exact hr
  | inr o => exact hr.1

theorem runLeftRecursiveGrowth_in :
    StaysIn T ctx pos (T.zeroRule rule) (runLeftRecursiveGrowth eval ctx scope rule body pos) := by
  have hgrow (growing : List (Nat × Nat)) :
      StaysIn T ctx pos (T.zeroRule rule)
        (growLeftRecursive eval ctx { scope with lrGrowing := growing } rule body pos) :=
    (memoInsert_in (o := .failure pos false) h).bind fun _ _ =>
      growLoop_in hev hT h hc hzero h
  rw [runLeftRecursiveGrowth]
  split
  · exact hgrow _
  · exact hgrow scope.lrGrowing

end RuleBodies

section RuleCalls

variable (hT : T.Covers ctx) {rule : String} (h : Boundary ctx.text pos)
variable (hc : T.RuleCall ctx.compiled scope rule pos)
include hT h hc

variable {body : PegExpr}

section

variable (hbody : ctx.compiled.rules.lookup rule = some body)

include hbody

theorem parseRuleUncached_in :
    StaysIn T ctx pos (T.zeroRule rule) (parseRuleUncached eval ctx scope rule body pos) := by
  have hzero := hc.zero body hbody
  refine .ite (fun hgrows => ?_) fun _ => .ite (fun _ => ?_) fun hactive => ?_
  · have hactive : (rule, pos) ∉ scope.active := by
      simp only [Bool.and_eq_true, Bool.not_eq_true', contains_eq_mem, decide_eq_false_iff_not]
        at hgrows
      exact hgrows.1.2
    exact runLeftRecursiveGrowth_in hev hT h (hc.body body hbody hactive) hzero
  · exact (memoInsert_in (o := .failure pos false) h).bind fun _ _ => .pure h
  · have hcall := hc.body body hbody fun hmem => hactive (contains_iff_mem.mpr hmem)
    exact (parseRuleBody_in hev hT h hcall scope.lrGrowing).bind fun _ hout =>
      (memoInsert_in (hout.imp hzero)).bind fun _ _ => .pure (hout.imp hzero)

theorem parseRuleMemo_in :
    StaysIn T ctx pos (T.zeroRule rule) (parseRuleMemo eval ctx scope rule body pos) := by
  refine .get_bind fun s hs => ?_
  cases hcached : s.ruleMemo.lookup (rule, pos) with
  | none => exact parseRuleUncached_in hev hT h hc hbody
  | some cached => exact .pure (hs.memo ((rule, pos), cached) (mem_of_lookup hcached))

theorem parseRuleNoMemo_in :
    StaysIn T ctx pos (T.zeroRule rule) (parseRuleNoMemo eval ctx scope rule body pos) := by
  refine .ite (fun _ => parseError_in) fun _ => .ite (fun _ => .pure h) fun hactive => ?_
  have hcall := hc.body body hbody fun hmem => hactive (contains_iff_mem.mpr hmem)
  exact (parseRuleBody_in hev hT h hcall scope.lrGrowing).mono fun _ => imp (hc.zero body hbody)

end

theorem parseRuleInner_in :
    StaysIn T ctx pos (T.zeroRule rule) (parseRuleInner eval ctx scope rule pos) := by
  refine .ite (fun _ => .pure h) fun _ => ?_
  split
  · next bound hbound =>
      obtain ⟨hcall, hzero⟩ := hc.bound bound hbound
      exact (hev _ _ pos hcall h).mono fun _ => imp hzero
  · split
    · exact parseError_in
    · next body hbody =>
        refine (noteReentry_in rule (hc.again (by rw [hbody]; rfl))).bind fun _ _ => ?_
        exact .ite (fun _ => parseRuleMemo_in hev hT h hc hbody) fun _ =>
          parseRuleNoMemo_in hev hT h hc hbody

end RuleCalls

theorem matchParameter_in (h : Boundary ctx.text pos)
    (hc : ∀ d, scope.binding name = some d → T.call ctx.compiled scope d pos) :
    StaysIn T ctx pos True (matchParameter eval ctx scope name pos) := by
  rw [matchParameter]
  split
  · next bound hbound => exact (hev _ _ pos (hc bound hbound) h).mono fun _ => imp fun _ => trivial
  · exact parseError_in

omit hev in
/-- What an imported grammar does to its own state stays in the text, and so does what its
    caller takes over from it. -/
theorem runInImported_in {body : ParseCtx → Scope → Eval ParseOutcome}
    {φ : ParseOutcome → Prop} (grammarName : String)
    (hbody : ∀ imported, ctx.compiled.imports.lookup grammarName = some imported →
      InText ctx.text T (body { ctx with compiled := imported } (.new scope.triviaOn)) φ) :
    InText ctx.text T (runInImported ctx scope grammarName pos body) φ := by
  rw [runInImported]
  split
  · exact parseError_in
  · next imported himported =>
      intro s hs
      have hsub := hbody imported himported
        { EvalState.new s.layout.indentationEnabled with events := s.events }
        ((stateIn_new ctx.text T s.layout.indentationEnabled).of_eq rfl rfl rfl)
      simp only
      rcases hrun : body { ctx with compiled := imported } (.new scope.triviaOn)
        { EvalState.new s.layout.indentationEnabled with events := s.events } with ⟨e | outcome, sub⟩
      · rw [hrun] at hsub
        exact ⟨hsub.1, hs.of_eq rfl rfl rfl⟩
      · rw [hrun] at hsub
        refine ⟨hsub.1, hs.memo, ?_, hs.reentered⟩
        show Boundary ctx.text
          (if s.diag.furthest ≤ sub.diag.furthest then sub.diag else s.diag).furthest
        split_ifs
        · exact hsub.2.furthest
        · exact hs.furthest

end Combinators

/-! ## Every evaluation -/

/-- The evaluation of the parts stays in the text, whatever grammar it is for. -/
def EvalInAll (T : Track) (eval : ExprEval) (ctx : ParseCtx) : Prop :=
  ∀ compiled, EvalIn T eval { ctx with compiled := compiled }

variable {T : Track}

/-- The track says nothing of its own about the compiled grammar. -/
theorem Track.Covers.withCompiled (hT : T.Covers ctx)
    (compiled : CompiledGrammar) : T.Covers { ctx with compiled := compiled } :=
  ⟨hT.call, hT.choice, hT.zero⟩

section Forms

variable {T : Track} {eval : ExprEval} {ctx : ParseCtx} (hT : T.Covers ctx)
variable (hev : EvalInAll T eval ctx) {scope : Scope} {pos : Nat} (h : Boundary ctx.text pos)
include hT hev h

theorem matchImportedRef_in {grammarName ruleName : String}
    (hc : ∀ imported, ctx.compiled.imports.lookup grammarName = some imported →
      T.RuleCall imported (.new scope.triviaOn) ruleName pos) : StaysIn T ctx pos True
      (matchImportedRef ctx scope (parseRuleInner eval) grammarName ruleName pos) := by
  refine runInImported_in grammarName fun imported himported =>
    .ite (fun _ => ?_) fun _ => parseError_in
  exact (parseRuleInner_in (hev imported) (hT.withCompiled imported) h (hc imported himported)).mono
    fun _ => imp fun _ => trivial

omit hT in
theorem matchGrammarScope_in {grammarName : String}
    (hc : ∀ imported, ctx.compiled.imports.lookup grammarName = some imported →
      T.call imported (.new scope.triviaOn) child pos) :
    StaysIn T ctx pos True (matchGrammarScope eval ctx scope grammarName child pos) := by
  refine runInImported_in grammarName fun imported himported => ?_
  exact (hev imported _ child pos (hc imported himported) h).mono
    fun _ => imp fun _ => trivial

theorem evalForm_in (htokens : TokensValid ctx) (fuel : Nat) {e : PegExpr}
    (hc : T.callStep ctx scope pos e) : StaysIn T ctx pos (T.zeroStep ctx.host e)
      (evalForm eval ctx scope (parseRuleInner eval) fuel e pos) := by
  have hev' : EvalIn T eval ctx := hev ctx.compiled
  cases e with
  | literal value => exact matchLiteral_in h value
  | dot => exact matchDot_in h
  | regex pattern => exact matchRegex_in h pattern
  | charClass cls => exact matchCharClass_in h cls
  | recover syncs => exact matchRecover_in h syncs
  | ref _ | call _ _ => exact parseRuleInner_in hev' hT h hc
  | sequence items =>
    have hcalls (before : List PegExpr) (d : PegExpr) (behind : List PegExpr)
        (hitems : items = before ++ d :: behind) (cur : Nat) (hcur : pos ≤ cur)
        (hbefore : cur = pos → True ∧ ∀ b ∈ before, T.zero b) : T.call ctx.compiled scope d cur :=
      hc before d behind hitems cur hcur fun heq => (hbefore heq).2
    exact (sequenceLoop_in hev' items pos [] false le_rfl h (fun _ => trivial) hcalls).mono
      fun _ => imp And.right
  | choice alternatives => exact matchChoice_in hev' h hc
  | and _ | not _ => exact matchLookahead_in hev' h hc
  | cut => exact .pure ⟨le_rfl, h, fun _ => trivial⟩
  | optional child => exact matchOptional_in hev' h hc
  | oneOrMore child => exact matchOneOrMore_in hev' h hc
  | zeroOrMore child => exact matchZeroOrMore_in hev' h hc
  | repeated child min max => exact matchRepeat_in hev' h hc
  | precedence operand levels => exact precedenceBp_in hev' hc fuel 0 pos le_rfl h
  | sepOneOrMore element separator => exact matchSepOneOrMore_in hev' hc h
  | interspersed element separator => exact matchInterspersed_in hev' hc h
  | named name child => exact matchNamed_in hev' h hc
  | expected message child => exact matchExpected_in hev' h hc
  | noTrivia child => exact hev' _ child pos hc h
  | withTrivia spec child => exact matchWithTrivia_in hev' h spec hc
  | newline => exact matchNewline_in h
  | indent => exact matchIndent_in h
  | dedent => exact matchDedent_in h
  | semanticAction name child => exact matchSemanticAction_in hev' h hc
  | semanticPredicate name => exact matchSemanticPredicate_in h name
  | semanticGuard name child => exact matchSemanticGuard_in hev' h hc
  | capture label child => exact matchCapture_in hev' h hc
  | island start stop includeDelims => exact matchIsland_in h start stop includeDelims
  | rawBlock start stop delimKind => exact matchRawBlock_in h start stop delimKind fuel
  | eager child => exact matchEager_in hev' h hc
  | lookBehind child negative => exact matchLookBehind_in hev' hc h
  | backref name => exact matchBackref_in h name
  | importedRef grammarName ruleName => exact matchImportedRef_in hT hev h hc
  | parameter name => exact matchParameter_in hev' h hc
  | hardKeyword keyword | softKeyword keyword => exact matchHardKeyword_in h keyword
  | grammarScope grammarName child => exact matchGrammarScope_in hev h hc
  | tokenRef kind text => exact matchTokenRef_in htokens h kind text
  | invalid message => exact parseError_in

end Forms

theorem guardExpr_in : InText text T (guardExpr ctx scope pos) fun _ => True := by
  refine .ite (fun _ => parseError_in) fun _ => .get_bind fun s hs => ?_
  refine .ite (fun _ => parseError_in) fun _ => .ite (fun _ => parseError_in) fun _ => ?_
  exact .set (hs.of_eq rfl rfl rfl) trivial

theorem parseExpr_in (hT : T.Covers ctx) (htokens : TokensValid ctx)
    (fuel : Nat) : EvalInAll T (parseExpr fuel) ctx := by
  induction fuel with
  | zero => exact fun _ _ _ _ _ _ => .throw nofun
  | succ fuel ih =>
    intro compiled scope e pos hc h
    refine guardExpr_in.bind fun _ _ => ?_
    have hform := evalForm_in (hT.withCompiled compiled) ih h htokens fuel (hT.call hc)
    exact hform.mono fun _ => imp (hT.zero hc)

/-- The state keeps to the text. -/
abbrev StateInText (text : List Char) (s : EvalState) : Prop := StateIn text .free s

/-- The end of an evaluation at `pos` that stays in the text. -/
def EndsInText (text : List Char) (pos : Nat) : Except Stop ParseOutcome × EvalState → Prop
  | (.ok (.success stop _ _), s) =>
    pos ≤ stop ∧ stop ≤ byteLen text ∧ Boundary text stop ∧ StateInText text s
  | (.ok (.failure fp _), s) => fp ≤ byteLen text ∧ Boundary text fp ∧ StateInText text s
  | (.error e, s) => e ≠ .slice ∧ StateInText text s

theorem endsInText_of_inText {m : Eval ParseOutcome}
    {s : EvalState} (hm : InText text .free m (OutcomeIn text zero pos)) (hs : StateInText text s) :
    EndsInText text pos (m s) := by
  rcases hrun : m s with ⟨e | outcome, s'⟩
  · exact hm.of_error hs hrun
  · obtain ⟨hout, hs'⟩ := hm.of_ok hs hrun
    cases outcome with
    | success stop value cut => exact ⟨hout.1, hout.2.1.le_len, hout.2.1, hs'⟩
    | failure fp cut => exact ⟨hout.le_len, hout, hs'⟩

/-- Every state of a run is in the text, from the first on, and every evaluation in such a
    state at a boundary ends in the text or with an error that is no refused slice. -/
theorem evaluations_in_text (ctx : ParseCtx) (htokens : TokensValid ctx) :
    (∀ indentationEnabled, StateInText ctx.text (.new indentationEnabled)) ∧
    ∀ fuel scope s pos, StateInText ctx.text s → Boundary ctx.text pos →
      (∀ e, EndsInText ctx.text pos (parseExpr fuel ctx scope e pos s)) ∧
      (∀ rule, EndsInText ctx.text pos (parseRuleInner (parseExpr fuel) ctx scope rule pos s)) := by
  have hT := Track.free_covers ctx
  refine ⟨stateIn_new ctx.text .free, fun fuel scope s pos hs hpos => ⟨fun e => ?_, fun rule => ?_⟩⟩
  · exact endsInText_of_inText (parseExpr_in hT htokens fuel ctx.compiled scope e pos trivial hpos) hs
  · exact endsInText_of_inText
      (parseRuleInner_in (parseExpr_in hT htokens fuel ctx.compiled) hT hpos (Track.free_ruleCall ..)) hs

/-- No regular expression matches. -/
def plainHost : Host :=
  ⟨fun _ _ => none, fun _ => none, Char.isAlphanum, fun _ _ _ h => nomatch h⟩

/-- A token of two bytes, and a rule for it. -/
def tokenCtx : ParseCtx :=
  { compiled := ⟨[("start", .tokenRef (some "LETTER") none)], [], [], [], [], [], []⟩
    text := ['é']
    host := plainHost
    cfg := ⟨true, none, ⟨true, []⟩, some .default, some [⟨"LETTER", "é", 0, 2⟩], 100, 100, false⟩ }

theorem evaluations_in_text_token :
    TokensValid tokenCtx ∧ StateInText tokenCtx.text (.new false) ∧ Boundary tokenCtx.text 0 ∧
      EndsInText tokenCtx.text 0 (parseRuleInner (parseExpr 3) tokenCtx (.new true) "start" 0
        (.new false)) := by
  have htokens : TokensValid tokenCtx := by
    intro tokens h
    obtain rfl := Option.some.inj h
    decide
  exact ⟨htokens, stateIn_new _ _ _, boundary_zero, ((evaluations_in_text tokenCtx htokens).2 3
    (.new true) (.new false) 0 (stateIn_new _ _ _) boundary_zero).2 "start"⟩

end Caap.Peg
