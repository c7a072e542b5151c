/-
  Caap.Peg.FixedText

  The analysis of fixed texts (`parser_analysis.rs`, `analysis.rs`): the text that an
  expression is taken to match, and the alternatives of a choice that are reported because
  an earlier alternative has the same text or a beginning of it.  For an expression of
  literals that text is what they spell (`Plain.fixedText_eq`).
-/

import Caap.Peg.LeftRecursion

namespace Caap.Peg

open Lib Option List

/-! ## The analysis -/

mutual

/-- `expr_fixed_text_impl`. -/
def PegExpr.fixedText (fixedRules : List (String × String)) : PegExpr → Option String
  | .literal s | .hardKeyword s | .softKeyword s => some s
  | .ref name => fixedRules.lookup name
  | .sequence items => fixedTextSequence fixedRules items
  | .choice alternatives => fixedTextChoice fixedRules alternatives
  | .named _ n | .expected _ n | .semanticAction _ n | .semanticGuard _ n | .capture _ n
  | .noTrivia n | .withTrivia _ n => n.fixedText fixedRules
  | .cut => some ""
  | _ => none

/-- The fixed text of a sequence. -/
def fixedTextSequence (fixedRules : List (String × String)) : List PegExpr → Option String
  | [] => some ""
  | item :: items => do
    let text ← item.fixedText fixedRules
    let rest ← fixedTextSequence fixedRules items
    some (text ++ rest)

/-- The fixed text of a choice. -/
def fixedTextChoice (fixedRules : List (String × String)) : List PegExpr → Option String
  | [] => none
  | alternative :: alternatives => do
    let first ← alternative.fixedText fixedRules
    fixedTextSame fixedRules first alternatives

/-- The loop of a choice over its other alternatives. -/
def fixedTextSame (fixedRules : List (String × String)) (first : String) :
    List PegExpr → Option String
  | [] => some first
  | alternative :: alternatives => do
    let text ← alternative.fixedText fixedRules
    if text ≠ first then none else fixedTextSame fixedRules first alternatives

end

/-- One rule in a pass of the loop for `fixed_rules`: the texts that are known, and whether
    one was added in the pass. -/
def addFixedRule (state : List (String × String) × Bool) (rule : String × PegExpr) :
    List (String × String) × Bool :=
  if (state.1.lookup rule.1).isSome then state
  else
    match rule.2.fixedText state.1 with
    | some text => ((rule.1, text) :: state.1, true)
    | none => state

/-- The passes over the rules. -/
def fixedRulePasses (rules : List (String × PegExpr)) :
    Nat → List (String × String) → List (String × String)
  | 0, fixedRules => fixedRules
  | n + 1, fixedRules =>
    let state := rules.foldl addFixedRule (fixedRules, false)
    if state.2 then fixedRulePasses rules n state.1 else state.1

/-- `fixed_rules` of `analyze_grammar_with_refs`. -/
def Grammar.fixedRules (g : Grammar) : List (String × String) :=
  fixedRulePasses g.bodies passLimit []

mutual

/-- The choices that `visit_children_for_choice_analysis` comes to, in its order. -/
def PegExpr.choices : PegExpr → List (List PegExpr)
  | .choice alternatives => alternatives :: choicesAll alternatives
  | .sequence items => choicesAll items
  | .named _ n | .expected _ n | .semanticAction _ n | .semanticGuard _ n | .capture _ n
  | .optional n | .and n | .not n | .lookBehind n _ | .eager n | .noTrivia n | .withTrivia _ n
  | .oneOrMore n | .zeroOrMore n | .repeated n _ _ | .grammarScope _ n => n.choices
  | .sepOneOrMore element separator | .interspersed element separator =>
    element.choices ++ separator.choices
  | _ => []

/-- The choices in each expression. -/
def choicesAll : List PegExpr → List (List PegExpr)
  | [] => []
  | e :: es => e.choices ++ choicesAll es

end

/-- The loop of `collect_dead_choice_alts_impl` over the texts of a choice: the numbers, from
    one on, of an alternative and of the first one with its text. -/
def deadPairs : List (Option String) → Nat → List (String × Nat) → List (Nat × Nat)
  | [], _, _ => []
  | none :: texts, idx, prior => deadPairs texts (idx + 1) prior
  | some text :: texts, idx, prior =>
    match prior.lookup text with
    | some live => (idx + 1, live + 1) :: deadPairs texts (idx + 1) prior
    | none => deadPairs texts (idx + 1) ((text, idx) :: prior)

/-- Whether the text of an earlier alternative shadows that of a later one. -/
def shadows (live dead : String) : Bool :=
  live ≠ "" && strLen live < strLen dead && startsWith live dead.toList

/-- The inner loop of `collect_prefix_shadowed_alts_impl`. -/
def shadowedBy (dead : String) : List (Option String) → Nat → Option (Nat × String)
  | [], _ => none
  | none :: texts, idx => shadowedBy dead texts (idx + 1)
  | some live :: texts, idx =>
    if shadows live dead then some (idx, live) else shadowedBy dead texts (idx + 1)

/-- The outer loop, with the texts before the index. -/
def shadowedPairs (before : List (Option String)) : List (Option String) → List (Nat × Nat × String)
  | [] => []
  | none :: texts => shadowedPairs (before ++ [none]) texts
  | some dead :: texts =>
    ((shadowedBy dead before 0).map fun live =>
      (before.length + 1, live.1 + 1, live.2)).toList ++ shadowedPairs (before ++ [some dead]) texts

/-- `choice_fixed_texts`. -/
def choiceFixedTexts (fixedRules : List (String × String)) (alternatives : List PegExpr) :
    List (Option String) :=
  alternatives.map (PegExpr.fixedText fixedRules)

/-- What `analyze_grammar` says about an alternative that is reported. -/
inductive Shadowing where
  | dead
  | shadowed (initial : String)
  deriving DecidableEq

/-- What is reported of a choice: the alternative, the earlier one, and why. -/
def reported (fixedRules : List (String × String)) (alternatives : List PegExpr) :
    List (Nat × Nat × Shadowing) :=
  (deadPairs (choiceFixedTexts fixedRules alternatives) 0 []).map
      (fun pair => (pair.1, pair.2, .dead)) ++
    (shadowedPairs [] (choiceFixedTexts fixedRules alternatives)).map
      fun pair => (pair.1, pair.2.1, .shadowed pair.2.2)

/-- The error of `analyze_grammar` for an alternative. -/
def shadowingError (owner : String) (dead live : Nat) : Shadowing → String
  | .dead =>
    "rule '" ++ owner ++ "': alternative #" ++ toString dead ++ " is dead (shadowed by #" ++
      toString live ++ ")"
  | .shadowed initial =>
    "rule '" ++ owner ++ "': alternative #" ++ toString dead ++
      " is shadowed by prefix alternative #" ++ toString live ++ " ('" ++ initial ++ "')"

/-- The errors of `analyze_grammar` for dead and shadowed alternatives, in the order of the
    rules; the source sorts them. -/
def Grammar.shadowingErrors (g : Grammar) : List String :=
  g.rules.flatMap fun rule => rule.expr.choices.flatMap fun alternatives =>
    (reported g.fixedRules alternatives).map fun report =>
      shadowingError rule.name report.1 report.2.1 report.2.2

/-! ## What is reported of a choice -/

/-- Two alternatives of a choice, the later of which is reported: both have a fixed text, and
    that of the earlier one begins that of the later one. -/
structure Covers (fixedRules : List (String × String)) (alternatives : List PegExpr)
    (dead live : Nat) (later earlier : PegExpr) (longer shorter : String) : Prop where
  lt : live < dead
  atDead : alternatives[dead - 1]? = some later
  atLive : alternatives[live - 1]? = some earlier
  textDead : later.fixedText fixedRules = some longer
  textLive : earlier.fixedText fixedRules = some shorter
  begins : shorter.toList <+: longer.toList

theorem deadPairs_spec {all : List (Option String)} {dead live : Nat} :
    ∀ (texts before : List (Option String)) (prior : List (String × Nat)), all = before ++ texts →
      (∀ text idx, prior.lookup text = some idx → idx < before.length ∧ all[idx]? = some (some text)) →
      (dead, live) ∈ deadPairs texts before.length prior →
      ∃ text, 1 ≤ live ∧ live < dead ∧ all[dead - 1]? = some (some text) ∧
        all[live - 1]? = some (some text) := by
  intro texts
  induction texts with
  | nil =>
    intro before prior _ _ h
    exact absurd h (by simp [deadPairs])
  | cons first texts ih =>
    intro before prior hall hprior h
    have hnext : all = (before ++ [first]) ++ texts := by rw [hall]; simp
    have hlength : (before ++ [first]).length = before.length + 1 := by simp
    have hkeep : ∀ text idx, prior.lookup text = some idx →
        idx < (before ++ [first]).length ∧ all[idx]? = some (some text) := by
      intro text idx hidx
      obtain ⟨hlt, htext⟩ := hprior text idx hidx
      exact ⟨by omega, htext⟩
    have hhere : all[before.length]? = some first := by
      rw [hall, getElem?_append_right (le_refl _)]
      simp
    cases first with
    | none =>
      rw [deadPairs, ← hlength] at h
      exact ih _ prior hnext hkeep h
    | some text =>
      rw [deadPairs] at h
      cases hlookup : prior.lookup text with
      | some idx =>
        rw [hlookup] at h
        obtain ⟨hlt, hidx⟩ := hprior text idx hlookup
        rcases mem_cons.mp h with heq | h
        · obtain ⟨rfl, rfl⟩ := Prod.mk.inj heq
          exact ⟨text, by omega, by omega, by simpa using hhere, by simpa using hidx⟩
        · rw [← hlength] at h
          exact ih _ prior hnext hkeep h
      | none =>
        rw [hlookup, ← hlength] at h
        refine ih _ _ hnext ?_ h
        intro other idx hidx
        rw [lookup_cons] at hidx
        by_cases hother : other = text
        · subst hother
          simp only [beq_self_eq_true] at hidx
          obtain rfl := some.inj hidx
          exact ⟨by omega, hhere⟩
        · have hne : (other == text) = false := by simpa using hother
          rw [hne] at hidx
          exact hkeep other idx hidx

theorem shadowedBy_spec {dead : String} : ∀ (texts : List (Option String)) (start idx : Nat)
    (live : String), shadowedBy dead texts start = some (idx, live) →
      start ≤ idx ∧ texts[idx - start]? = some (some live) ∧ shadows live dead = true := by
  intro texts
  induction texts with
  | nil =>
    intro start idx live h
    exact absurd h (by simp [shadowedBy])
  | cons first texts ih =>
    intro start idx live h
    have hrest : ∀ (_ : shadowedBy dead texts (start + 1) = some (idx, live)),
        start ≤ idx ∧ (first :: texts)[idx - start]? = some (some live) ∧
          shadows live dead = true := by
      intro h
      obtain ⟨hle, hidx, hshadows⟩ := ih (start + 1) idx live h
      refine ⟨by omega, ?_, hshadows⟩
      rw [show idx - start = (idx - (start + 1)) + 1 by omega, getElem?_cons_succ]
      exact hidx
    cases first with
    | none => exact hrest h
    | some text =>
      rw [shadowedBy] at h
      split_ifs at h with hshadows
      · obtain ⟨rfl, rfl⟩ := Prod.mk.inj (some.inj h)
        exact ⟨le_refl _, by simp, hshadows⟩
      · exact hrest h

theorem shadowedPairs_spec {all : List (Option String)} {dead live : Nat} {initial : String} :
    ∀ (texts before : List (Option String)), all = before ++ texts →
      (dead, live, initial) ∈ shadowedPairs before texts →
      ∃ text, 1 ≤ live ∧ live < dead ∧ all[dead - 1]? = some (some text) ∧
        all[live - 1]? = some (some initial) ∧ shadows initial text = true := by
  intro texts
  induction texts with
  | nil =>
    intro before _ h
    exact absurd h (by simp [shadowedPairs])
  | cons first texts ih =>
    intro before hall h
    have hnext : all = (before ++ [first]) ++ texts := by rw [hall]; simp
    cases first with
    | none => exact ih _ hnext h
    | some text =>
      rw [shadowedPairs, mem_append, mem_toList, map_eq_some_iff] at h
      rcases h with ⟨⟨idx, found⟩, hfound, heq⟩ | h
      · obtain ⟨-, hidx, hshadows⟩ := shadowedBy_spec before 0 idx found hfound
        obtain ⟨rfl, rfl, rfl⟩ := heq
        have hlt : idx < before.length := by
          obtain ⟨hlt, -⟩ := List.getElem?_eq_some_iff.mp hidx
          omega
        refine ⟨text, by omega, by omega, ?_, ?_, hshadows⟩
        · rw [hall, Nat.add_sub_cancel, getElem?_append_right (le_refl _)]
          simp
        · rw [hall, Nat.add_sub_cancel, getElem?_append_left hlt]
          simpa using hidx
      · exact ih _ hnext h

variable {fixedRules : List (String × String)} {alternatives : List PegExpr}

theorem getElem?_choiceFixedTexts {idx : Nat} {text : String}
    (h : (choiceFixedTexts fixedRules alternatives)[idx]? = some (some text)) :
    ∃ e, alternatives[idx]? = some e ∧ e.fixedText fixedRules = some text := by
  rw [choiceFixedTexts, getElem?_map] at h
  exact map_eq_some_iff.mp h

/-- What is reported of a choice is a pair of alternatives with fixed texts, the later one
    with a text that begins with that of the earlier one. -/
theorem covers_of_reported
    {dead live : Nat} {why : Shadowing} (h : (dead, live, why) ∈ reported fixedRules alternatives) :
    ∃ later earlier longer shorter,
      Covers fixedRules alternatives dead live later earlier longer shorter := by
  rcases mem_append.mp h with h | h
  · obtain ⟨⟨d, l⟩, hpair, heq⟩ := mem_map.mp h
    obtain ⟨rfl, rfl, -⟩ := heq
    obtain ⟨text, -, hlt, hdead, hlive⟩ := deadPairs_spec _ [] [] rfl (by simp) hpair
    obtain ⟨later, hlater, hlonger⟩ := getElem?_choiceFixedTexts hdead
    obtain ⟨earlier, hearlier, hshorter⟩ := getElem?_choiceFixedTexts hlive
    exact ⟨later, earlier, text, text, hlt, hlater, hearlier, hlonger, hshorter, prefix_rfl⟩
  · obtain ⟨⟨d, l, initial⟩, hpair, heq⟩ := mem_map.mp h
    obtain ⟨rfl, rfl, -⟩ := heq
    obtain ⟨text, -, hlt, hdead, hlive, hshadows⟩ := shadowedPairs_spec _ [] rfl hpair
    obtain ⟨later, hlater, hlonger⟩ := getElem?_choiceFixedTexts hdead
    obtain ⟨earlier, hearlier, hshorter⟩ := getElem?_choiceFixedTexts hlive
    rw [shadows, Bool.and_eq_true] at hshadows
    exact ⟨later, earlier, text, initial, hlt, hlater, hearlier, hlonger, hshorter,
      isPrefixOf_iff_prefix.mp hshadows.2⟩

/-! ## Expressions of literals -/

/-- An expression whose terminals are literals that are not empty, and what they spell.  The
    numbers bound the steps and the depth of its evaluation. -/
inductive Plain : PegExpr → List Char → Nat → Nat → Prop
  | literal {s : String} (hs : s ≠ "") (n k : Nat) : Plain (.literal s) s.toList (n + 1) (k + 1)
  | cut (n k : Nat) : Plain .cut [] (n + 1) (k + 1)
  | nil (n k : Nat) : Plain (.sequence []) [] (n + 1) (k + 1)
  | cons {item : PegExpr} {items : List PegExpr} {t ts : List Char} {n n' k : Nat}
      (h : Plain item t n k) (hs : Plain (.sequence items) ts n' (k + 1)) :
      Plain (.sequence (item :: items)) (t ++ ts) (n + n') (k + 1)
  | choice {alternatives : List PegExpr} {t : List Char} {n k : Nat} (hne : alternatives ≠ [])
      (h : ∀ a ∈ alternatives, Plain a t n k) :
      Plain (.choice alternatives) t (alternatives.length * n + 1) (k + 1)
  | named (name : String) {e : PegExpr} {t : List Char} {n k : Nat} (h : Plain e t n k) :
      Plain (.named name e) t (n + 1) (k + 1)
  | capture (label : String) {e : PegExpr} {t : List Char} {n k : Nat} (h : Plain e t n k) :
      Plain (.capture label e) t (n + 1) (k + 1)

theorem fixedTextSame_eq {first text : String}
    (h : fixedTextSame fixedRules first alternatives = some text) : first = text := by
  induction alternatives with
  | nil => exact some.inj h
  | cons alternative alternatives ih =>
    obtain ⟨other, -, hrest⟩ := bind_eq_some_iff.mp h
    split_ifs at hrest
    exact ih hrest

/-- The fixed text of an expression of literals is what they spell. -/
theorem Plain.fixedText_eq {e : PegExpr} {t : List Char} {n k : Nat} (h : Plain e t n k) :
    ∀ {text}, e.fixedText fixedRules = some text → text.toList = t := by
  induction h with
  | literal | cut | nil =>
    intro text htext
    exact congrArg String.toList (some.inj htext).symm
  | cons _ _ ih ihs =>
    intro text htext
    obtain ⟨first, hfirst, hrest⟩ := bind_eq_some_iff.mp htext
    obtain ⟨rest, hitems, heq⟩ := bind_eq_some_iff.mp hrest
    rw [← some.inj heq, String.toList_append, ih hfirst, ihs hitems]
  | @choice alternatives t n k hne _ ih =>
    intro text htext
    cases alternatives with
    | nil => exact absurd rfl hne
    | cons alternative alternatives =>
      obtain ⟨first, hfirst, hsame⟩ := bind_eq_some_iff.mp htext
      rw [← fixedTextSame_eq hsame]
      exact ih alternative (mem_cons_self ..) hfirst
  | named _ _ ih | capture _ _ ih => exact ih

end Caap.Peg
