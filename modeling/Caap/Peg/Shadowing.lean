/-
  Caap.Peg.Shadowing

  Whether an alternative that `analyze_grammar` reports as dead or shadowed can succeed where
  the earlier one does not.  The texts of the analysis leave out what trivia and the
  boundaries of keywords do: `if` as a keyword shadows the literal `ifx`, which it does
  not match.  An expression of literals succeeds exactly where its text stands, if no trivia
  stands inside it (`decides_parseExpr`), and between such alternatives the report is right
  (`reported_sound`).
-/

import Caap.Peg.FixedText

namespace Caap.Peg

open Lib List

/-- A place in a text where a choice is tried: the position, the end of the trivia there, and a
    text without trivia inside it, which may stand there. -/
structure Site where
  ctx : ParseCtx
  scope : Scope
  pos : Nat
  start : Nat
  whole : List Char

namespace Site

variable (site : Site)

/-- The trivia at the position ends at the start, and none stands inside the text. -/
structure Quiet : Prop where
  boundary : Boundary site.ctx.text site.start
  lead : skipTrivia site.ctx site.scope site.pos = pure site.start
  inside : ∀ q, site.start ≤ q → q < site.start + byteLen site.whole →
    skipTrivia site.ctx site.scope q = pure q

/-- The characters stand at the start. -/
def Found (w : List Char) : Prop := ∃ rest, suffixAt site.ctx.text site.start = some (w ++ rest)

/-- The characters have been read up to the position: what is skipped there ends behind them. -/
def Read (cur : Nat) (w : List Char) : Prop :=
  site.Found w ∧ (w ≠ site.whole → skipTrivia site.ctx site.scope cur = pure (site.start + byteLen w))

/-- The limits leave room for `n` steps. -/
structure Room (n : Nat) (s : EvalState) : Prop where
  steps : s.exprSteps + n ≤ site.ctx.cfg.maxSteps
  counter : s.exprSteps + n < 2 ^ 64

/-- What becomes of a text behind what was read: it is read too, or does not stand there. -/
def Decided (w : List Char) : ParseOutcome → Prop
  | .success stop _ _ => site.Read stop w
  | .failure _ _ => ¬ site.Found w

/-- The run finds out whether the text stands behind what was read, within `n` steps. -/
def Decides (run : Eval ParseOutcome) (cur : Nat) (t : List Char) (n : Nat) : Prop :=
  ∀ w more, w ++ t <+: site.whole → site.Read cur w →
    Returns (site.Room (n + more)) run fun o s => site.Decided (w ++ t) o ∧ site.Room more s

variable {site}

theorem Found.mono {a b : List Char} (h : site.Found b) (hab : a <+: b) : site.Found a := by
  obtain ⟨c, rfl⟩ := hab
  obtain ⟨rest, hrest⟩ := h
  exact ⟨c ++ rest, by rw [hrest, append_assoc]⟩

theorem Room.of_le {n n' : Nat} {s : EvalState} (h : site.Room n s) (hle : n' ≤ n) :
    site.Room n' s := by
  have hsteps := h.steps
  have hcounter := h.counter
  exact ⟨by omega, by omega⟩

theorem Room.of_eq {n : Nat} {s s' : EvalState} (h : site.Room n s)
    (heq : s'.exprSteps = s.exprSteps) : site.Room n s' :=
  ⟨heq ▸ h.steps, heq ▸ h.counter⟩

theorem byteLen_lt {a b : List Char} (hab : a <+: b) (hne : a ≠ b) : byteLen a < byteLen b := by
  obtain ⟨c, rfl⟩ := hab
  have hc : byteLen c ≠ 0 := by
    intro hzero
    rw [byteLen_eq_zero] at hzero
    exact hne (by rw [hzero, append_nil])
  rw [byteLen_append]
  omega

/-- What follows, and keeps where the evaluation ended. -/
theorem Decides.before {run : Eval ParseOutcome} {next : ParseOutcome → Eval ParseOutcome}
    {cur : Nat} {t : List Char} {n : Nat} (h : site.Decides run cur t n)
    (hnext : ∀ o k w, Returns (fun s => site.Decided w o ∧ site.Room k s) (next o) fun o' s =>
      site.Decided w o' ∧ site.Room k s) : site.Decides (run >>= next) cur t n :=
  fun w more ht hw => (h w more ht hw).bind fun o => hnext o more (w ++ t)

end Site

section Decides

variable {site : Site} {cur n : Nat} {t : List Char}

theorem decides_literal (hquiet : site.Quiet) {scope : Scope}
    (hscope : ∀ q, skipTrivia site.ctx scope q = skipTrivia site.ctx site.scope q) {s : String}
    (hs : s ≠ "") : site.Decides (matchLiteral site.ctx scope s cur) cur s.toList n := by
  rintro w more ht ⟨⟨rest, hrest⟩, hskip⟩
  have hne : w ≠ site.whole := by
    rintro rfl
    have hlen := ht.length_le
    rw [length_append] at hlen
    exact hs (String.toList_inj.mp (length_eq_zero_iff.mp (by omega)))
  have hrun : matchLiteral site.ctx scope s cur = if startsWith s rest then
      pure (.success (site.start + byteLen w + strLen s) (.text s) false)
      else failExpecting (site.start + byteLen w) ("literal '" ++ s ++ "'") := by
    unfold matchLiteral suffixFrom
    rw [hscope, hskip hne, pure_bind, suffixAt_add hrest]
    rfl
  rw [hrun]
  split_ifs with hstarts
  · obtain ⟨tail, rfl⟩ := isPrefixOf_iff_prefix.mp hstarts
    refine .pure fun state hstate => ⟨⟨⟨tail, ?_⟩, fun hne => ?_⟩, hstate.of_le (by omega)⟩
    · rw [hrest, append_assoc]
    · have hlt := Site.byteLen_lt ht hne
      have hinside := hquiet.inside (site.start + byteLen w + strLen s) (by omega)
      rw [byteLen_append] at hlt ⊢
      rw [← Nat.add_assoc]
      exact hinside (by unfold strLen; omega)
  · refine (Returns.modify fun state hstate => ?_).bind fun _ => Returns.pure fun _ h => h
    refine ⟨?_, (hstate.of_le (by omega)).of_eq rfl⟩
    rintro ⟨tail, htail⟩
    rw [hrest, append_assoc, Option.some.injEq, append_cancel_left_eq] at htail
    exact hstarts ( isPrefixOf_iff_prefix.mpr ⟨tail, htail.symm⟩)

theorem returns_guardExpr {scope : Scope}
    (hdepth : scope.exprDepth + 1 ≤ site.ctx.cfg.maxDepth) (k : Nat) :
    Returns (site.Room (k + 1)) (guardExpr site.ctx scope cur) fun _ s => site.Room k s := by
  unfold guardExpr consumeExprStep
  rw [if_neg (by omega)]
  refine .get_bind fun s hs => ?_
  have hsteps := hs.steps
  have hcounter := hs.counter
  rw [if_neg (by omega), if_neg (by omega)]
  refine .set ⟨?_, ?_⟩
  · show s.exprSteps + 1 + k ≤ site.ctx.cfg.maxSteps
    omega
  · show s.exprSteps + 1 + k < 2 ^ 64
    omega

theorem returns_specCheckpoint (k : Nat) :
    Returns (site.Room k) specCheckpoint fun _ s => site.Room k s :=
  .get_bind fun _ hs => .pure fun _ heq => heq ▸ hs

variable {eval : ExprEval} {scope : Scope} {k : Nat}
  (heval : ∀ e cur t n, Plain e t n k → site.Decides (eval site.ctx scope e cur) cur t n)

include heval

theorem decides_sequenceLoop : ∀ (items : List PegExpr) (cur : Nat) (values : List ParseValue)
    (cutSeen : Bool) (ts : List Char) (n : Nat), Plain (.sequence items) ts n (k + 1) →
    ∃ n', n = n' + 1 ∧
      site.Decides (sequenceLoop eval site.ctx scope items cur values cutSeen) cur ts n' := by
  intro items
  induction items with
  | nil =>
    intro cur values cutSeen ts n hplain
    cases hplain with
    | nil n _ =>
      refine ⟨n, rfl, fun w more _ hw => ?_⟩
      rw [sequenceLoop, append_nil]
      refine .pure fun s hs => ⟨?_, hs.of_le (by omega)⟩
      rcases values with _ | ⟨v, _ | ⟨v', vs⟩⟩ <;> exact hw
  | cons item items ih =>
    intro cur values cutSeen ts n hplain
    cases hplain with
    | @cons _ _ t ts n₁ n₂ _ hitem hitems =>
      obtain ⟨n₃, rfl, -⟩ := ih cur values cutSeen ts n₂ hitems
      refine ⟨n₁ + n₃, by omega, fun w more ht hw => ?_⟩
      rw [← append_assoc] at ht ⊢
      have hfirst := heval item cur t n₁ hitem w (n₃ + more) ((prefix_append _ _).trans ht) hw
      rw [sequenceLoop, Nat.add_assoc]
      refine hfirst.bind fun o => ?_
      have hrest : ∀ next values cutSeen, site.Decides
          (sequenceLoop eval site.ctx scope items next values cutSeen) next ts n₃ := by
        intro next values cutSeen
        obtain ⟨n', hn', hloop⟩ := ih next values cutSeen ts (n₃ + 1) hitems
        obtain rfl : n₃ = n' := by omega
        exact hloop
      rcases o with ⟨next, v, _ | _⟩ | ⟨fp, cut⟩
      · rintro s ⟨hread, hs⟩
        exact hrest next _ _ (w ++ t) more ht hread s hs
      · rintro s ⟨hread, hs⟩
        exact hrest next _ _ (w ++ t) more ht hread s hs
      · refine .pure ?_
        rintro s ⟨hnot, hs⟩
        exact ⟨fun hfound => hnot (hfound.mono (prefix_append _ _)), hs.of_le (by omega)⟩

/-- The alternatives of a choice have one text: the first of them finds it, or none does. -/
theorem decided_choiceLoop {alternatives : List PegExpr} {w : List Char}
    (hplain : ∀ a ∈ alternatives, Plain a t n k) (ht : w ++ t <+: site.whole)
    (hw : site.Read cur w) : ∀ (candidates : List Nat) (furthest more : Nat),
      (∀ idx ∈ candidates, idx < alternatives.length) → (candidates = [] → ¬ site.Found (w ++ t)) →
      Returns (site.Room (candidates.length * n + more))
        (choiceLoop eval site.ctx scope alternatives cur candidates furthest)
        fun o s => site.Decided (w ++ t) o ∧ site.Room more s := by
  intro candidates
  induction candidates with
  | nil =>
    intro furthest more _ hnone
    exact .pure fun s hs => ⟨hnone rfl, hs.of_le (by omega)⟩
  | cons idx candidates ih =>
    intro furthest more hvalid _
    have hlt := hvalid idx (mem_cons_self ..)
    have hidx : alternatives[idx]? = some alternatives[idx] := getElem?_eq_getElem hlt
    have hrest := fun idx hmem => hvalid idx (mem_cons_of_mem _ hmem)
    have hfirst := heval _ cur t n (hplain _ (getElem_mem hlt)) w
      (candidates.length * n + more) ht hw
    have hsteps : (idx :: candidates).length * n + more = n + (candidates.length * n + more) := by
      rw [length_cons, Nat.succ_mul]
      omega
    rw [choiceLoop, hsteps, hidx]
    refine (returns_specCheckpoint _).bind fun saved => hfirst.bind fun o => ?_
    have hback : Returns (fun s => ¬ site.Found (w ++ t) ∧
        site.Room (candidates.length * n + more) s) (specRollback saved) fun _ s =>
        ¬ site.Found (w ++ t) ∧ site.Room (candidates.length * n + more) s :=
      .modify fun s hs => ⟨hs.1, hs.2.of_eq rfl⟩
    rcases o with ⟨stop, v, cut⟩ | ⟨fp, _ | _⟩
    · exact .pure fun s hs => ⟨hs.1, hs.2.of_le (by omega)⟩
    · refine hback.bind fun _ s hs => ?_
      exact ih _ more hrest (fun _ => hs.1) s hs.2
    · exact hback.bind fun _ => .pure fun s hs => ⟨hs.1, hs.2.of_le (by omega)⟩

end Decides

/-- An expression of literals finds out whether its text stands there. -/
theorem decides_parseExpr {site : Site} (hquiet : site.Quiet) (fuel : Nat) : ∀ k ≤ fuel,
    ∀ (depth : Nat) (e : PegExpr) (cur : Nat) (t : List Char) (n : Nat), Plain e t n k →
      depth + k ≤ site.ctx.cfg.maxDepth →
      site.Decides (parseExpr fuel site.ctx { site.scope with exprDepth := depth } e cur) cur t n := by
  induction fuel with
  | zero =>
    intro k hk depth e cur t n hplain
    obtain rfl : k = 0 := by omega
    cases hplain
  | succ fuel ih =>
    intro k hk depth e cur t n hplain hdepth
    have hstep : ∀ {n k t} {run : Eval ParseOutcome}, depth + (k + 1) ≤ site.ctx.cfg.maxDepth →
        site.Decides run cur t n → site.Decides
          (guardExpr site.ctx { site.scope with exprDepth := depth } cur >>= fun _ => run) cur t
          (n + 1) := by
      intro n k t run hroom hrun w more ht hw
      have hguard : Returns (site.Room (n + more + 1))
          (guardExpr site.ctx { site.scope with exprDepth := depth } cur)
          fun _ s => site.Room (n + more) s :=
        returns_guardExpr (show depth + 1 ≤ _ by omega) _
      rw [show n + 1 + more = n + more + 1 by omega]
      exact hguard.bind fun _ => hrun w more ht hw
    have hparts : ∀ {k}, k + 1 ≤ fuel + 1 → depth + (k + 1) ≤ site.ctx.cfg.maxDepth →
        ∀ e cur t n, Plain e t n k → site.Decides
          (parseExpr fuel site.ctx { site.scope with exprDepth := depth + 1 } e cur) cur t n :=
      fun hk hroom e cur t n hplain => ih _ (by omega) (depth + 1) e cur t n hplain (by omega)
    cases hplain with
    | literal hs n k => exact hstep hdepth (decides_literal hquiet (fun _ => rfl) hs)
    | cut n k =>
      refine hstep hdepth fun w more _ hw => ?_
      refine .pure fun s hs => ⟨?_, hs.of_le (by omega)⟩
      rwa [append_nil]
    | nil n k =>
      obtain ⟨n', hn', hloop⟩ := decides_sequenceLoop (hparts hk hdepth) [] cur [] false [] (n + 1)
        (.nil n k)
      obtain rfl : n = n' := by omega
      exact hstep hdepth hloop
    | @cons item items t ts n n' k hitem hitems =>
      obtain ⟨n'', hn', hloop⟩ := decides_sequenceLoop (hparts hk hdepth) (item :: items) cur []
        false (t ++ ts) (n + n') (.cons hitem hitems)
      rw [hn']
      exact hstep hdepth hloop
    | @choice alternatives t n k hne halternatives =>
      refine hstep hdepth fun w more ht hw => ?_
      have hloop := decided_choiceLoop (hparts hk hdepth) halternatives ht hw
        (range alternatives.length) cur more (fun _ h => mem_range.mp h)
        fun h => absurd (range_eq_nil.mp h) fun h => hne (length_eq_zero_iff.mp h)
      rwa [length_range] at hloop
    | named name h =>
      refine hstep hdepth ((hparts hk hdepth _ cur t _ h).before fun o k w => ?_)
      rcases o with ⟨stop, v, cut⟩ | ⟨fp, cut⟩
      · refine .bind (Q := fun _ s => site.Decided w (.success stop v cut) ∧ site.Room k s) ?_
          fun _ => .pure fun s hs => hs
        unfold bindCapture
        split
        · exact .modify fun s hs => ⟨hs.1, hs.2.of_eq rfl⟩
        · exact .pure fun s hs => hs
      · exact .pure fun s hs => hs
    | capture label h =>
      refine hstep hdepth ((hparts hk hdepth _ cur t _ h).before fun o k w => ?_)
      rcases o with ⟨stop, v, cut⟩ | ⟨fp, cut⟩
      · exact .pure fun s hs => hs
      · exact .pure fun s hs => hs

/-! ## Reported alternatives -/

theorem mem_shadowingErrors {g : Grammar} {rule : GrammarRule} (hrule : rule ∈ g.rules)
    {alternatives : List PegExpr} (hchoice : alternatives ∈ rule.expr.choices) {dead live : Nat}
    {why : Shadowing} (h : (dead, live, why) ∈ reported g.fixedRules alternatives) :
    shadowingError rule.name dead live why ∈ g.shadowingErrors := by
  refine mem_flatMap.mpr ⟨rule, hrule, mem_flatMap.mpr ⟨alternatives, hchoice, ?_⟩⟩
  exact mem_map.mpr ⟨(dead, live, why), h, rfl⟩

/-- `A <- 'a' / 'ab'` on `ab`. -/
def initialSite : Site := ⟨memoCtx ⟨[], [], [], [], [], [], []⟩ ['a', 'b'], .new true, 0, 0, ['a', 'b']⟩

theorem initialSite_quiet : initialSite.Quiet := by
  refine ⟨boundary_zero, rfl, fun q _ hlt => ?_⟩
  have hlen : initialSite.start + byteLen initialSite.whole = 2 := rfl
  have hq : q = 0 ∨ q = 1 := by omega
  rcases hq with rfl | rfl <;> rfl

end Caap.Peg
