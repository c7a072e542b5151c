/-
  Caap.Stdlib.RegexMatch

  The matcher decides the language of a pattern: every node of the tree is one of the
  combinators of `Caap.Lib.Backtrack`, and its matches and runs are those of the rule for it.
  From there `rx_match?` and `rx_search` are read off with their own continuations.
-/

import Caap.Stdlib.RegexLanguage
import Caap.Stdlib.RegexParse

namespace Caap.Stdlib.Regex

open Caap.Lib Caap.Lib.Backtrack

/-! ## The nodes -/

/-- What a group put in place of an earlier span is taken out again. -/
theorem restoreSpan_noteSpan (n p q : Nat) (caps : Caps) :
    restoreSpan n (find n caps) (noteSpan n p q caps) = caps := by
  unfold restoreSpan noteSpan
  cases hfind : find n caps with
  | none => exact remove_upsert hfind (p, q)
  | some span => exact upsert_upsert hfind (p, q)

/-- The matcher of a tree decides its language. -/
abbrev NodeDecides (cs : Str) (x : Node) : Prop :=
  Decides cs.length (mrec cs x) (Matches isSpace cs x) (Runs isSpace cs x)

abbrev SeqDecides (cs : Str) (xs : List Node) : Prop :=
  Decides cs.length (matchSeq cs xs) (MatchesAll isSpace cs xs) (RunsAll isSpace cs xs)

abbrev AltDecides (cs : Str) (xs : List Node) : Prop :=
  Decides cs.length (matchAlt cs xs) (MatchesOne isSpace cs xs) (RunsOne isSpace cs xs)

section Nodes

variable {cs : Str}

theorem lit_decides {c : Char} : NodeDecides cs (.lit c) := by
  rw [NodeDecides, mrec]
  apply (Decides.element fun p => decide (cs[p]? = some c)).congr
  · intro p q
    simp only [Matches, decide_eq_true_eq]
  · intro p caps q caps'
    simp only [Runs, Matches, decide_eq_true_eq]

theorem any_decides : NodeDecides cs .any := by
  rw [NodeDecides, mrec]
  apply (Decides.element fun _ => true).congr
  · intro p q
    simp only [Matches, true_and]
  · intro p caps q caps'
    simp only [Runs, Matches, true_and]

theorem cls_decides {neg : Bool} {items : List Item} : NodeDecides cs (.cls neg items) := by
  have htest (p : Nat) : (cs[p]?).any (classMatch neg items) = true ↔
      ∃ c, cs[p]? = some c ∧ classHolds isSpace neg items c = true := by
    rw [Option.any_eq_true]
    simp only [classMatch_eq]
  rw [NodeDecides, mrec]
  apply (Decides.element fun p => (cs[p]?).any (classMatch neg items)).congr
  · intro p q
    simp only [Matches, htest]
  · intro p caps q caps'
    simp only [Runs, Matches, htest]

theorem start_decides : NodeDecides cs .start := by
  rw [NodeDecides, mrec]
  apply (Decides.position fun p => decide (p = 0)).congr
  · intro p q
    simp only [Matches, decide_eq_true_eq]
  · intro p caps q caps'
    simp only [Runs, Matches, decide_eq_true_eq]

theorem stop_decides : NodeDecides cs .stop := by
  rw [NodeDecides, mrec]
  apply (Decides.position fun p => decide (p = cs.length)).congr
  · intro p q
    simp only [Matches, decide_eq_true_eq]
  · intro p caps q caps'
    simp only [Runs, Matches, decide_eq_true_eq]

theorem seq_nil_decides : SeqDecides cs [] := by
  rw [SeqDecides, matchSeq]
  apply (Decides.position fun _ => true).congr
  · intro p q
    simp only [MatchesAll, true_and]
  · intro p caps q caps'
    simp only [RunsAll, true_and]

theorem alt_nil_decides : AltDecides cs [] := by
  rw [AltDecides, matchAlt]
  apply (Decides.position fun _ => false).congr
  · intro p q
    simp only [MatchesOne, Bool.false_eq_true, false_and]
  · intro p caps q caps'
    simp only [RunsOne, Bool.false_eq_true, false_and]

variable {x : Node} (h : NodeDecides cs x)

include h

/-- `*`, `+` and `{m,n}` are one loop; their languages are by definition its own. -/
theorem rep_decides {min : Nat} {max : Int} : NodeDecides cs (.rep x min max) := by
  rw [NodeDecides, mrec]
  exact h.repeated (show min + cs.length < min + cs.length + 1 by omega)

theorem star_decides : NodeDecides cs (.star x) := by
  rw [NodeDecides, mrec]
  exact h.repeated (show 0 + cs.length < cs.length + 1 by omega)

theorem plus_decides : NodeDecides cs (.plus x) := by
  rw [NodeDecides, mrec]
  exact h.repeated (show 1 + cs.length < cs.length + 2 by omega)

theorem opt_decides : NodeDecides cs (.opt x) := by
  rw [NodeDecides, mrec]
  apply (h.orElse (Decides.position fun _ => true)).congr
  · intro p q
    simp only [Matches, true_and]
  · intro p caps q caps'
    simp only [Runs, true_and]

theorem group_decides {n : Nat} : NodeDecides cs (.group n x) := by
  rw [NodeDecides, mrec]
  exact Decides.capture (restoreSpan_noteSpan n) h

variable {xs : List Node}

theorem seq_cons_decides (hxs : SeqDecides cs xs) : SeqDecides cs (x :: xs) := by
  rw [SeqDecides, matchSeq]
  exact h.andThen hxs

theorem alt_cons_decides (hxs : AltDecides cs xs) : AltDecides cs (x :: xs) := by
  rw [AltDecides, matchAlt]
  exact h.orElse hxs

end Nodes

mutual

/-- The matcher decides the language of every tree, by induction on the tree. -/
theorem mrec_decides (cs : Str) : (x : Node) → NodeDecides cs x
  | .lit c => lit_decides
  | .any => any_decides
  | .cls neg items => cls_decides
  | .start => start_decides
  | .stop => stop_decides
  | .star x => star_decides (mrec_decides cs x)
  | .plus x => plus_decides (mrec_decides cs x)
  | .opt x => opt_decides (mrec_decides cs x)
  | .rep x min max => rep_decides (mrec_decides cs x)
  | .group n x => group_decides (mrec_decides cs x)
  | .seq xs => by
    rw [NodeDecides, mrec]
    exact matchSeq_decides xs
  | .alt xs => by
    rw [NodeDecides, mrec]
    exact matchAlt_decides xs

theorem matchSeq_decides {cs : Str} : (xs : List Node) → SeqDecides cs xs
  | [] => seq_nil_decides
  | x :: xs => seq_cons_decides (mrec_decides cs x) (matchSeq_decides xs)

theorem matchAlt_decides {cs : Str} : (xs : List Node) → AltDecides cs xs
  | [] => alt_nil_decides
  | x :: xs => alt_cons_decides (mrec_decides cs x) (matchAlt_decides xs)

end

/-! ## Matching the whole subject -/

theorem good_atEnd {cs : Str} : Good cs.length 0 (atEnd cs) := by
  refine ⟨fun p caps _ hp => ?_, fun p caps caps' _ hp hsucc => ?_⟩
  · unfold atEnd
    by_cases hend : p = cs.length
    · exact ⟨p, caps, if_pos hend, fun hneg => by omega⟩
    · exact ⟨-1, caps, if_neg hend, fun _ => rfl⟩
  · unfold atEnd at hsucc ⊢
    by_cases hend : p = cs.length
    · rw [if_pos hend]
      exact ⟨p, caps', rfl, by omega⟩
    · rw [if_neg hend] at hsucc
      exact absurd hsucc (not_succeeds_failure caps)

theorem succeeds_atEnd_iff {cs : Str} {p : Nat} {caps : Caps} :
    Succeeds (atEnd cs p caps) ↔ p = cs.length := by
  unfold atEnd
  by_cases hend : p = cs.length
  · rw [if_pos hend]
    exact iff_of_true ⟨p, caps, rfl, by omega⟩ hend
  · rw [if_neg hend]
    exact iff_of_false (not_succeeds_failure caps) hend

/-- `rx_match?` answers whether the tree matches the whole subject. -/
theorem rxMatch_eq {ast : Node} {ngroups : Nat} {s : Str} :
    ∃ b, rxMatch (.ok ast ngroups) s = some b ∧ (b = true ↔ Matches isSpace s ast 0 s.length) := by
  have hdecides := mrec_decides s ast
  obtain ⟨r, caps, hrun, -, -⟩ := hdecides.decides 0 [] (atEnd s) (by omega) good_atEnd
  refine ⟨decide (0 ≤ r), by unfold rxMatch; simp only [hrun], ?_⟩
  have hsucc := hdecides.succeeds_iff (c := []) (Nat.zero_le s.length) good_atEnd
  simp only [succeeds_atEnd_iff, exists_const] at hsucc
  rw [decide_eq_true_iff]
  constructor
  · intro hr
    obtain ⟨q, hmatch, rfl⟩ := hsucc.mp ⟨r, caps, hrun, hr⟩
    exact hmatch
  · intro hmatch
    obtain ⟨r', caps', heq, hr⟩ := hsucc.mpr ⟨s.length, hmatch, rfl⟩
    rw [hrun] at heq
    cases heq
    exact hr

/-! ## Searching -/

/-- The continuation of `try_at`. -/
theorem good_accept (hi : Nat) : Good hi 0 fun p (caps : Caps) => some ((p : Int), caps) := by
  refine ⟨fun p caps _ _ => ?_, fun p caps caps' _ _ _ => ?_⟩
  · exact ⟨p, caps, rfl, fun hneg => by omega⟩
  · exact ⟨p, caps', rfl, by omega⟩

/-- `try_at` finds a match at a start exactly when there is one, with the spans of one run. -/
theorem tryAt_eq (ast : Node) (ngroups : Nat) (cs : Str) {start : Nat}
    (hstart : start ≤ cs.length) :
    (tryAt ast ngroups cs start = some none ∧ ∀ q, ¬ Matches isSpace cs ast start q) ∨
      ∃ (stop : Nat) (caps : Caps), tryAt ast ngroups cs start = some (some (foundAt cs ngroups start stop caps)) ∧
        Runs isSpace cs ast start [] stop caps := by
  have hdecides := mrec_decides cs ast
  obtain ⟨r, caps, hrun, hsucc, hfail⟩ :=
    hdecides.decides start [] _ hstart ((good_accept cs.length).mono (Nat.zero_le start))
  unfold tryAt
  rw [hrun]
  by_cases hr : 0 ≤ r
  · obtain ⟨q, caps', hruns, hend⟩ := hsucc hr
    cases hend
    exact Or.inr ⟨q, caps, by simp only [if_pos hr], hruns⟩
  · refine Or.inl ⟨by simp only [if_neg hr], fun q hmatch => ?_⟩
    exact (hfail (by omega)).2 q hmatch [] ⟨q, [], rfl, by omega⟩

/-- What `rx_search` should report: a match at the smallest start that has one, with its text
    and the groups of one run, or that there is none. -/
def SearchRight (space : Char → Bool) (cs : Str) (ast : Node) (ngroups : Nat) : Search → Prop
  | .notFound => ∀ p ≤ cs.length, ∀ q, ¬ Matches space cs ast p q
  | .found start stop text groups =>
    start ≤ stop ∧ stop ≤ cs.length ∧ Matches space cs ast start stop ∧
      (∀ p < start, ∀ q, ¬ Matches space cs ast p q) ∧ text = slice cs start stop ∧
      ∃ caps, Runs space cs ast start [] stop caps ∧
        groups = buildGroups cs caps ngroups start stop

/-- The loop, with the starts before `i` already tried. -/
theorem searchFrom_right (ast : Node) (ngroups : Nat) (cs : Str) (rounds i : Nat)
    (hrounds : i + rounds = cs.length + 1) (htried : ∀ p < i, ∀ q, ¬ Matches isSpace cs ast p q) :
    ∃ r, searchFrom ast ngroups cs rounds i = some r ∧ SearchRight isSpace cs ast ngroups r := by
  induction rounds generalizing i with
  | zero => exact ⟨.notFound, rfl, fun p hp => htried p (by omega)⟩
  | succ rounds ih =>
    rcases tryAt_eq ast ngroups cs (show i ≤ cs.length by omega) with
      ⟨htry, hnone⟩ | ⟨stop, caps, htry, hruns⟩
    · rw [searchFrom, htry]
      apply ih (i + 1) (by omega)
      intro p hp q
      by_cases hpi : p = i
      · rw [hpi]
        exact hnone q
      · exact htried p (by omega) q
    · rw [searchFrom, htry]
      have hmatch := (mrec_decides cs ast).sound i [] stop caps hruns
      have hwithin := (mrec_decides cs ast).within i stop hmatch (by omega)
      exact ⟨_, rfl, hwithin.1, hwithin.2, hmatch, htried, rfl, caps, hruns, rfl⟩

theorem rxSearch_right {ast : Node} {ngroups : Nat} {s : Str} :
    ∃ r, rxSearch (.ok ast ngroups) s = some r ∧ SearchRight isSpace s ast ngroups r :=
  searchFrom_right ast ngroups s (s.length + 1) 0 (by omega) fun p hp => by omega

/-- The engine decides the documented language of a tree on a subject: both questions are
    answered, and answered right. -/
def DecidesRight (ast : Node) (ngroups : Nat) (s : Str) : Prop :=
  (∃ b, rxMatch (.ok ast ngroups) s = some b ∧
    (b = true ↔ Matches asciiSpace s ast 0 s.length)) ∧
  ∃ r, rxSearch (.ok ast ngroups) s = some r ∧ SearchRight asciiSpace s ast ngroups r

/-- It does where the two readings of space cannot be told apart. -/
theorem decidesRight_of_agree (ast : Node) (ngroups : Nat) (s : Str)
    (h : ast.usesSpace = true → ∀ c ∈ s, isSpace c = asciiSpace c) :
    DecidesRight ast ngroups s := by
  have hmatches : Matches isSpace s ast = Matches asciiSpace s ast := matches_congr ast h
  have hruns : Runs isSpace s ast = Runs asciiSpace s ast := runs_congr ast h
  constructor
  · obtain ⟨b, hrun, hb⟩ := rxMatch_eq
    rw [hmatches] at hb
    exact ⟨b, hrun, hb⟩
  · obtain ⟨r, hrun, hr⟩ := rxSearch_right
    refine ⟨r, hrun, ?_⟩
    cases r with
    | notFound =>
      simp only [SearchRight, hmatches] at hr
      exact hr
    | found start stop text groups =>
      simp only [SearchRight, hmatches, hruns] at hr
      exact hr

theorem matchesAll_dots (space : Char → Bool) (cs : Str) (i : Nat) (rest : List Node) (p q : Nat)
    (hp : p ≤ cs.length) : MatchesAll space cs (List.replicate i .any ++ rest) p q ↔
      p + i ≤ cs.length ∧ MatchesAll space cs rest (p + i) q := by
  induction i generalizing p with
  | zero =>
    exact (and_iff_right hp).symm
  | succ i ih =>
    rw [List.replicate_succ, List.cons_append, MatchesAll]
    constructor
    · rintro ⟨o, ⟨hlt, rfl⟩, hrest⟩
      rw [ih (p + 1) hlt, show p + 1 + i = p + (i + 1) by omega] at hrest
      exact hrest
    · rintro ⟨hle, hrest⟩
      refine ⟨p + 1, ⟨by omega, rfl⟩, ?_⟩
      rw [ih (p + 1) (by omega), show p + 1 + i = p + (i + 1) by omega]
      exact ⟨hle, hrest⟩

/-- The pattern of one class among dots reads one character. -/
theorem spotTree_matches (space : Char → Bool) {cs : Str} {i j : Nat} {c : Char}
    (hlen : cs.length = i + 1 + j) (hc : cs[i]? = some c) :
    Matches space cs (spotTree i j) 0 cs.length ↔ space c = true := by
  rw [spotTree, Matches, matchesAll_dots space cs i _ 0 _ (Nat.zero_le _), Nat.zero_add,
    MatchesAll]
  have hclass : classHolds space false [.pred .space] c = space c := by
    simp [classHolds, Item.holds]
  simp only [Matches, hc, Option.some.injEq]
  constructor
  · rintro ⟨-, o, ⟨-, ⟨c', rfl, hholds⟩, -⟩, -⟩
    rw [hclass] at hholds
    exact hholds
  · intro hspace
    refine ⟨by omega, i + 1, ⟨by omega, ⟨c, rfl, by rw [hclass]; exact hspace⟩, rfl⟩, ?_⟩
    have hdots := matchesAll_dots space cs j [] (i + 1) cs.length (by omega)
    rw [List.append_nil] at hdots
    rw [hdots, MatchesAll]
    omega

/-- What `space?` takes for a space and the documentation does not, and the other way. -/
def Disputed (c : Char) : Prop := c = '\\' ∨ c = 'f' ∨ c = '\x0c'

theorem isSpace_ne {c : Char} (h : Disputed c) : isSpace c ≠ asciiSpace c := by
  rcases h with rfl | rfl | rfl
  · decide
  · decide
  · decide

theorem isSpace_eq_of_not_disputed {c : Char} (h : ¬ Disputed c) : isSpace c = asciiSpace c := by
  unfold Disputed at h
  push Not at h
  exact isSpace_eq h

/-- A subject with a disputed character is decided wrongly for some pattern. -/
theorem exists_decided_wrong {s : Str} {c : Char} (hmem : c ∈ s) (hc : Disputed c) :
    ∃ pattern ast ngroups, rxCompile pattern = .ok (.ok ast ngroups) ∧
      ¬ DecidesRight ast ngroups s := by
  obtain ⟨i, hi, hget⟩ := List.getElem_of_mem hmem
  have hspot : s[i]? = some c := by
    rw [List.getElem?_eq_getElem hi, hget]
  have hlen : s.length = i + 1 + (s.length - (i + 1)) := by omega
  refine ⟨spot i (s.length - (i + 1)), _, _, rxCompile_spot i _, ?_⟩
  rintro ⟨⟨b, hrun, hb⟩, -⟩
  obtain ⟨b', hrun', hb'⟩ := rxMatch_eq
  rw [hrun] at hrun'
  cases hrun'
  rw [spotTree_matches _ hlen hspot] at hb hb'
  exact isSpace_ne hc (Bool.eq_iff_iff.mpr (hb'.symm.trans hb))

end Caap.Stdlib.Regex
