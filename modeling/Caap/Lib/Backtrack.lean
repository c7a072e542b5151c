/-
  Caap.Lib.Backtrack

  Backtracking matchers in continuation-passing style, over positions `0 .. hi` and a record
  `κ` that a successful path leaves behind and a failed one restores.  A matcher takes the
  rest of the match as a continuation and answers its result, negative for failure.

  `Decides hi m lang runs` says that a matcher does what it should: for every continuation
  it answers with success exactly when the continuation succeeds at the end of some match in
  `lang`; a success is the continuation's answer after one run in `runs`, and a failure
  leaves the record as it was.  There is one rule for each way to build a matcher.
-/

import Mathlib.Tactic

namespace Caap.Lib.Backtrack

variable {κ : Type} {hi : Nat}

/-- A result and the record with it; `none` is a repetition that was given too few rounds. -/
abbrev Answer (κ : Type) := Option (Int × κ)

/-- The rest of a match, from a position on. -/
abbrev Cont (κ : Type) := Nat → κ → Answer κ

abbrev Matcher (κ : Type) := Nat → κ → Cont κ → Answer κ

def Succeeds (a : Answer κ) : Prop := ∃ r c, a = some (r, c) ∧ 0 ≤ r

/-- Failure, with the record as it is. -/
def failure (c : κ) : Answer κ := some (-1, c)

theorem not_succeeds_failure (c : κ) : ¬ Succeeds (failure c) := by
  rintro ⟨r, c', h, hr⟩
  cases h
  omega

/-- A continuation that can be given to a matcher at `lo`: it answers, it restores the
    record when it fails, and whether it succeeds does not depend on the record. -/
structure Good (hi lo : Nat) (k : Cont κ) : Prop where
  answers : ∀ p c, lo ≤ p → p ≤ hi → ∃ r c', k p c = some (r, c') ∧ (r < 0 → c' = c)
  blind : ∀ p c c', lo ≤ p → p ≤ hi → Succeeds (k p c) → Succeeds (k p c')

variable {k : Cont κ}

theorem Good.mono {lo lo' : Nat} (h : Good hi lo k) (hle : lo ≤ lo') : Good hi lo' k :=
  ⟨fun p c hp => h.answers p c (hle.trans hp), fun p c c' hp => h.blind p c c' (hle.trans hp)⟩

variable {p : Nat}

/-- The answer at a position; if it is a failure then with every record. -/
theorem Good.answer {lo : Nat} (h : Good hi lo k) (hlo : lo ≤ p) (hp : p ≤ hi)
    (c : κ) : ∃ r c', k p c = some (r, c') ∧ (r < 0 → c' = c ∧ ∀ c₁, ¬ Succeeds (k p c₁)) := by
  obtain ⟨r, c', hrun, hrestore⟩ := h.answers p c hlo hp
  refine ⟨r, c', hrun, fun hr => ⟨hrestore hr, fun c₁ hsucc => ?_⟩⟩
  obtain ⟨r', c'', heq, hr'⟩ := h.blind p c₁ c hlo hp hsucc
  rw [hrun] at heq
  cases heq
  omega

/-- The answer of a matcher that was called with the record `c` and the continuation `k`:
    a success comes from `k` after one of the runs, and with a failure the record is `c` and
    `k` fails after every match. -/
def Settles (ends : Nat → Prop) (runs : Nat → κ → Prop) (c : κ) (k : Cont κ)
    (a : Answer κ) : Prop :=
  ∃ r c', a = some (r, c') ∧
    (0 ≤ r → ∃ q c₁, runs q c₁ ∧ k q c₁ = some (r, c')) ∧
    (r < 0 → c' = c ∧ ∀ q, ends q → ∀ c₁, ¬ Succeeds (k q c₁))

theorem Settles.succeeds_iff {ends : Nat → Prop} {runs : Nat → κ → Prop} {c : κ}
    {a : Answer κ} (h : Settles ends runs c k a) (hsound : ∀ q c₁, runs q c₁ → ends q) :
    Succeeds a ↔ ∃ q, ends q ∧ ∃ c₁, Succeeds (k q c₁) := by
  obtain ⟨r, c', hrun, hsucc, hfail⟩ := h
  constructor
  · rintro ⟨r', c'', heq, hr⟩
    rw [hrun] at heq
    cases heq
    obtain ⟨q, c₁, hruns, hcont⟩ := hsucc hr
    exact ⟨q, hsound q c₁ hruns, c₁, r, c', hcont, hr⟩
  · rintro ⟨q, hmatch, c₁, hcont⟩
    refine ⟨r, c', hrun, ?_⟩
    by_contra hneg
    exact (hfail (by omega)).2 q hmatch c₁ hcont

/-- What a matcher has to do, see above. -/
structure Decides (hi : Nat) (m : Matcher κ) (lang : Nat → Nat → Prop)
    (runs : Nat → κ → Nat → κ → Prop) : Prop where
  within : ∀ p q, lang p q → p ≤ hi → p ≤ q ∧ q ≤ hi
  sound : ∀ p c q c', runs p c q c' → lang p q
  decides : ∀ p c k, p ≤ hi → Good hi p k → Settles (lang p) (runs p c) c k (m p c k)

namespace Decides

variable {m m₁ m₂ : Matcher κ} {lang lang₁ lang₂ : Nat → Nat → Prop}
  {runs runs₁ runs₂ : Nat → κ → Nat → κ → Prop}

/-- A matcher succeeds exactly when its continuation does after some match. -/
theorem succeeds_iff (h : Decides hi m lang runs) {c : κ} (hp : p ≤ hi)
    (hk : Good hi p k) : Succeeds (m p c k) ↔ ∃ q, lang p q ∧ ∃ c₁, Succeeds (k q c₁) :=
  (h.decides p c k hp hk).succeeds_iff fun q c₁ => h.sound p c q c₁

/-- The language and the runs of a matcher, written differently. -/
theorem congr (h : Decides hi m lang₁ runs₁) (hlang : ∀ p q, lang p q ↔ lang₁ p q)
    (hruns : ∀ p c q c', runs p c q c' ↔ runs₁ p c q c') : Decides hi m lang runs := by
  have hl : lang = lang₁ := by
    funext p q
    exact propext (hlang p q)
  have hr : runs = runs₁ := by
    funext p c q c'
    exact propext (hruns p c q c')
  rw [hl, hr]
  exact h

/-- A matcher in front of a continuation is a continuation. -/
theorem good (h : Decides hi m lang runs) {lo : Nat} (hk : Good hi lo k) :
    Good hi lo fun q c => m q c k := by
  refine ⟨fun p c hlo hp => ?_, fun p c c' hlo hp hsucc => ?_⟩
  · obtain ⟨r, c', hrun, -, hfail⟩ := h.decides p c k hp (hk.mono hlo)
    exact ⟨r, c', hrun, fun hr => (hfail hr).1⟩
  · rw [h.succeeds_iff hp (hk.mono hlo)] at hsucc ⊢
    exact hsucc

end Decides

/-! ## One position -/

/-- Consume one element that the test accepts. -/
def element (hi : Nat) (test : Nat → Bool) : Matcher κ := fun p c k =>
  if p < hi ∧ test p = true then k (p + 1) c else failure c

theorem Decides.element (test : Nat → Bool) :
    Decides hi (element hi test : Matcher κ) (fun p q => p < hi ∧ test p = true ∧ q = p + 1)
      fun p c q c' => (p < hi ∧ test p = true ∧ q = p + 1) ∧ c' = c := by
  refine ⟨fun p q h _ => by omega, fun p c q c' h => h.1, fun p c k hp hk => ?_⟩
  unfold Backtrack.element
  by_cases htest : p < hi ∧ test p = true
  · rw [if_pos htest]
    obtain ⟨r, c', hrun, hfail⟩ := hk.answer (show p ≤ p + 1 by omega) (by omega) c
    refine ⟨r, c', hrun, fun hr => ⟨p + 1, c, ⟨⟨htest.1, htest.2, rfl⟩, rfl⟩, hrun⟩, fun hr => ?_⟩
    refine ⟨(hfail hr).1, ?_⟩
    rintro q ⟨-, -, rfl⟩
    exact (hfail hr).2
  · rw [if_neg htest]
    refine ⟨-1, c, rfl, fun hr => by omega, fun _ => ⟨rfl, ?_⟩⟩
    rintro q ⟨h1, h2, -⟩
    exact absurd ⟨h1, h2⟩ htest

/-- Go on from a position that the test accepts. -/
def position (test : Nat → Bool) : Matcher κ := fun p c k =>
  if test p = true then k p c else failure c

theorem Decides.position (test : Nat → Bool) :
    Decides hi (position test : Matcher κ) (fun p q => test p = true ∧ q = p)
      fun p c q c' => (test p = true ∧ q = p) ∧ c' = c := by
  refine ⟨fun p q h _ => by omega, fun p c q c' h => h.1, fun p c k hp hk => ?_⟩
  unfold Backtrack.position
  by_cases htest : test p = true
  · rw [if_pos htest]
    obtain ⟨r, c', hrun, hfail⟩ := hk.answer (le_refl p) hp c
    refine ⟨r, c', hrun, fun hr => ⟨p, c, ⟨⟨htest, rfl⟩, rfl⟩, hrun⟩, fun hr => ?_⟩
    refine ⟨(hfail hr).1, ?_⟩
    rintro q ⟨-, rfl⟩
    exact (hfail hr).2
  · rw [if_neg htest]
    refine ⟨-1, c, rfl, fun hr => by omega, fun _ => ⟨rfl, ?_⟩⟩
    rintro q ⟨h1, -⟩
    exact absurd h1 htest

/-! ## Sequence and choice -/

section Combine

variable {m₁ m₂ : Matcher κ} {lang₁ lang₂ : Nat → Nat → Prop}
  {runs₁ runs₂ : Nat → κ → Nat → κ → Prop}

/-- One matcher, and the other from where it ends. -/
def andThen (m₁ m₂ : Matcher κ) : Matcher κ := fun p c k => m₁ p c fun q c₁ => m₂ q c₁ k

theorem Decides.andThen (h₁ : Decides hi m₁ lang₁ runs₁) (h₂ : Decides hi m₂ lang₂ runs₂) :
    Decides hi (andThen m₁ m₂) (fun p q => ∃ o, lang₁ p o ∧ lang₂ o q)
      fun p c q c' => ∃ o c₁, runs₁ p c o c₁ ∧ runs₂ o c₁ q c' := by
  refine ⟨?_, ?_, fun p c k hp hk => ?_⟩
  · rintro p q ⟨o, hpo, hoq⟩ hp
    have ho := h₁.within p o hpo hp
    have hq := h₂.within o q hoq ho.2
    omega
  · rintro p c q c' ⟨o, c₁, hpo, hoq⟩
    exact ⟨o, h₁.sound p c o c₁ hpo, h₂.sound o c₁ q c' hoq⟩
  · obtain ⟨r, c', hrun, hsucc, hfail⟩ := h₁.decides p c _ hp (h₂.good hk)
    refine ⟨r, c', hrun, fun hr => ?_, fun hr => ⟨(hfail hr).1, ?_⟩⟩
    · obtain ⟨o, c₁, hruns, hcont⟩ := hsucc hr
      have ho := h₁.within p o (h₁.sound p c o c₁ hruns) hp
      obtain ⟨r₂, c₂, hrun₂, hsucc₂, -⟩ := h₂.decides o c₁ k ho.2 (hk.mono ho.1)
      beta_reduce at hcont
      rw [hrun₂] at hcont
      cases hcont
      obtain ⟨q, c₃, hruns₂, hend⟩ := hsucc₂ hr
      exact ⟨q, c₃, ⟨o, c₁, hruns, hruns₂⟩, hend⟩
    · rintro q ⟨o, hpo, hoq⟩ c₁ hend
      have ho := h₁.within p o hpo hp
      refine (hfail hr).2 o hpo c₁ ?_
      exact (h₂.succeeds_iff ho.2 (hk.mono ho.1)).mpr ⟨q, hoq, c₁, hend⟩

/-- The other matcher where the first fails, with the record it leaves. -/
def orElse (m₁ m₂ : Matcher κ) : Matcher κ := fun p c k =>
  match m₁ p c k with
  | none => none
  | some (r, c') => if 0 ≤ r then some (r, c') else m₂ p c' k

theorem Decides.orElse (h₁ : Decides hi m₁ lang₁ runs₁) (h₂ : Decides hi m₂ lang₂ runs₂) :
    Decides hi (orElse m₁ m₂) (fun p q => lang₁ p q ∨ lang₂ p q)
      fun p c q c' => runs₁ p c q c' ∨ runs₂ p c q c' := by
  refine ⟨?_, ?_, fun p c k hp hk => ?_⟩
  · rintro p q (h | h) hp
    · exact h₁.within p q h hp
    · exact h₂.within p q h hp
  · rintro p c q c' (h | h)
    · exact Or.inl (h₁.sound p c q c' h)
    · exact Or.inr (h₂.sound p c q c' h)
  · obtain ⟨r, c', hrun, hsucc, hfail⟩ := h₁.decides p c k hp hk
    unfold Backtrack.orElse
    rw [hrun]
    by_cases hr : 0 ≤ r
    · refine ⟨r, c', if_pos hr, fun _ => ?_, fun hneg => by omega⟩
      obtain ⟨q, c₁, hruns, hend⟩ := hsucc hr
      exact ⟨q, c₁, Or.inl hruns, hend⟩
    · obtain ⟨rfl, hnone⟩ := hfail (by omega)
      obtain ⟨r₂, c₂, hrun₂, hsucc₂, hfail₂⟩ := h₂.decides p c' k hp hk
      refine ⟨r₂, c₂, by simp only [if_neg hr]; exact hrun₂, fun hr₂ => ?_, fun hr₂ => ?_⟩
      · obtain ⟨q, c₁, hruns, hend⟩ := hsucc₂ hr₂
        exact ⟨q, c₁, Or.inr hruns, hend⟩
      · refine ⟨(hfail₂ hr₂).1, ?_⟩
        rintro q (h | h)
        · exact hnone q h
        · exact (hfail₂ hr₂).2 q h

end Combine

/-! ## Repetition -/

/-- So many steps of a relation on positions. -/
inductive Chain (R : Nat → Nat → Prop) : Nat → Nat → Nat → Prop
  | nil (p : Nat) : Chain R 0 p p
  | cons {n p o q : Nat} (h : R p o) (rest : Chain R n o q) : Chain R (n + 1) p q

/-- So many runs after each other. -/
inductive ChainRuns (runs : Nat → κ → Nat → κ → Prop) : Nat → Nat → κ → Nat → κ → Prop
  | nil (p : Nat) (c : κ) : ChainRuns runs 0 p c p c
  | cons {n p o q : Nat} {c c₁ c' : κ} (h : runs p c o c₁) (rest : ChainRuns runs n o c₁ q c') :
      ChainRuns runs (n + 1) p c q c'

theorem ChainRuns.chain {lang : Nat → Nat → Prop} {runs : Nat → κ → Nat → κ → Prop}
    (hsound : ∀ p c q c', runs p c q c' → lang p q) {n q : Nat} {c c' : κ}
    (h : ChainRuns runs n p c q c') : Chain lang n p q := by
  induction h with
  | nil p c => exact Chain.nil p
  | cons h rest ih => exact Chain.cons (hsound _ _ _ _ h) ih

theorem Chain.within {R : Nat → Nat → Prop} (hR : ∀ p q, R p q → p ≤ hi → p ≤ q ∧ q ≤ hi)
    {n q : Nat} (h : Chain R n p q) (hp : p ≤ hi) : p ≤ q ∧ q ≤ hi := by
  induction h with
  | nil p => exact ⟨le_refl p, hp⟩
  | cons h rest ih =>
    have ho := hR _ _ h hp
    omega

/-- A count within the bounds; a negative upper bound is none. -/
def InBounds (min : Nat) (max : Int) (n : Nat) : Prop := min ≤ n ∧ (max < 0 ∨ (n : Int) ≤ max)

/-- The steps that take a repetition from `count` to a count within the bounds. -/
def Repeats (R : Nat → Nat → Prop) (min : Nat) (max : Int) (count p q : Nat) : Prop :=
  ∃ n, InBounds min max (count + n) ∧ Chain R n p q

/-- A repetition ends, or takes a step that is not empty or still counts toward the minimum:
    empty steps past the minimum can be left out. -/
theorem Repeats.step {R : Nat → Nat → Prop} {min : Nat} {max : Int} {count q : Nat}
    (h : Repeats R min max count p q) : (min ≤ count ∧ q = p) ∨
      ∃ o, (max < 0 ∨ (count : Int) < max) ∧ R p o ∧ ¬ (o = p ∧ min ≤ count) ∧
        Repeats R min max (count + 1) o q := by
  obtain ⟨n, hbounds, hchain⟩ := h
  induction n generalizing p with
  | zero =>
    cases hchain
    exact Or.inl ⟨hbounds.1, rfl⟩
  | succ n ih =>
    cases hchain with
    | cons hstep hrest =>
      rename_i o
      by_cases hempty : o = p ∧ min ≤ count
      · obtain ⟨rfl, hmin⟩ := hempty
        refine ih ⟨by omega, ?_⟩ hrest
        have hmax := hbounds.2
        omega
      · refine Or.inr ⟨o, ?_, hstep, hempty, n, ?_, hrest⟩
        · have hmax := hbounds.2
          omega
        · rw [show count + 1 + n = count + (n + 1) by omega]
          exact hbounds

/-- One more step of a repetition; an empty one past the minimum is refused. -/
def oneMore (m : Matcher κ) (min count : Nat) (next : Matcher κ) : Matcher κ := fun p c k =>
  m p c fun q c₁ => if q = p ∧ min ≤ count then failure c₁ else next q c₁ k

/-- Greedy repetition, for at most so many rounds: one more step if the upper bound allows
    it, and where that fails the end, if the lower bound is met. -/
def repeatLoop (m : Matcher κ) (min : Nat) (max : Int) : Nat → Nat → Matcher κ
  | rounds, count => fun p c k =>
    let more : Answer κ :=
      if max < 0 ∨ (count : Int) < max then
        match rounds with
        | 0 => none
        | rounds + 1 => oneMore m min count (repeatLoop m min max rounds (count + 1)) p c k
      else failure c
    match more with
    | none => none
    | some (r, c') =>
      if 0 ≤ r then some (r, c') else if min ≤ count then k p c' else failure c'

section Repetition

variable {m : Matcher κ} {lang : Nat → Nat → Prop} {runs : Nat → κ → Nat → κ → Prop}
  {min : Nat} {max : Int}

/-- What a repetition that has come to `count` runs through. -/
def RepeatRuns (runs : Nat → κ → Nat → κ → Prop) (min : Nat) (max : Int) (count p : Nat) (c : κ)
    (q : Nat) (c' : κ) : Prop :=
  ∃ n, InBounds min max (count + n) ∧ ChainRuns runs n p c q c'

theorem RepeatRuns.repeats (hsound : ∀ p c q c', runs p c q c' → lang p q) {count q : Nat}
    {c c' : κ} (h : RepeatRuns runs min max count p c q c') : Repeats lang min max count p q := by
  obtain ⟨n, hbounds, hchain⟩ := h
  exact ⟨n, hbounds, hchain.chain hsound⟩

theorem RepeatRuns.cons {count o q : Nat} {c c₁ c' : κ} (hstep : runs p c o c₁)
    (h : RepeatRuns runs min max (count + 1) o c₁ q c') :
    RepeatRuns runs min max count p c q c' := by
  obtain ⟨n, hbounds, hchain⟩ := h
  refine ⟨n + 1, ?_, ChainRuns.cons hstep hchain⟩
  rw [show count + (n + 1) = count + 1 + n by omega]
  exact hbounds

/-- The continuation of a step, if what follows it settles from every position at which it
    is not refused. -/
theorem good_oneMore {next : Matcher κ} {count : Nat}
    (hsound : ∀ p c q c', runs p c q c' → lang p q)
    (hnext : ∀ q c, p ≤ q → q ≤ hi → ¬ (q = p ∧ min ≤ count) →
      Settles (Repeats lang min max (count + 1) q) (RepeatRuns runs min max (count + 1) q c) c k
        (next q c k)) :
    Good hi p fun q c => if q = p ∧ min ≤ count then failure c else next q c k := by
  refine ⟨fun q c hpq hq => ?_, fun q c c' hpq hq hsucc => ?_⟩
  · by_cases hempty : q = p ∧ min ≤ count
    · rw [if_pos hempty]
      exact ⟨-1, c, rfl, fun _ => rfl⟩
    · rw [if_neg hempty]
      obtain ⟨r, c', hrun, -, hfail⟩ := hnext q c hpq hq hempty
      exact ⟨r, c', hrun, fun hr => (hfail hr).1⟩
  · by_cases hempty : q = p ∧ min ≤ count
    · rw [if_pos hempty] at hsucc
      exact absurd hsucc (not_succeeds_failure c)
    · rw [if_neg hempty] at hsucc ⊢
      rw [(hnext q c hpq hq hempty).succeeds_iff fun _ _ h => h.repeats hsound] at hsucc
      rw [(hnext q c' hpq hq hempty).succeeds_iff fun _ _ h => h.repeats hsound]
      exact hsucc

/-- The rule of repetition: the rounds have to be more than the steps still to climb to the
    minimum and the positions still ahead. -/
theorem repeatLoop_settles (h : Decides hi m lang runs) (rounds count p : Nat) (c : κ)
    (k : Cont κ) (hp : p ≤ hi) (hk : Good hi p k) (hrounds : min - count + (hi - p) < rounds)
    (hcount : max < 0 ∨ (count : Int) ≤ max) :
    Settles (Repeats lang min max count p) (RepeatRuns runs min max count p c) c k
      (repeatLoop m min max rounds count p c k) := by
  induction rounds generalizing count p c with
  | zero => omega
  | succ rounds ih =>
    -- one more step, and where that fails the end of the repetition
    have hmore : Settles
        (fun q => ∃ o, (max < 0 ∨ (count : Int) < max) ∧ lang p o ∧
          ¬ (o = p ∧ min ≤ count) ∧ Repeats lang min max (count + 1) o q)
        (RepeatRuns runs min max count p c) c k
        (if max < 0 ∨ (count : Int) < max then
          oneMore m min count (repeatLoop m min max rounds (count + 1)) p c k
        else failure c) := by
      by_cases hcan : max < 0 ∨ (count : Int) < max
      · have hnext : ∀ q c, p ≤ q → q ≤ hi → ¬ (q = p ∧ min ≤ count) →
            Settles (Repeats lang min max (count + 1) q)
              (RepeatRuns runs min max (count + 1) q c) c k
              (repeatLoop m min max rounds (count + 1) q c k) := by
          intro q c hpq hq hstep
          exact ih (count + 1) q c hq (hk.mono hpq) (by omega) (by omega)
        rw [if_pos hcan]
        obtain ⟨r, c', hrun, hsucc, hfail⟩ :=
          h.decides p c _ hp (good_oneMore h.sound hnext)
        refine ⟨r, c', hrun, fun hr => ?_, fun hr => ⟨(hfail hr).1, ?_⟩⟩
        · obtain ⟨o, c₁, hruns, hcont⟩ := hsucc hr
          have ho := h.within p o (h.sound p c o c₁ hruns) hp
          beta_reduce at hcont
          by_cases hempty : o = p ∧ min ≤ count
          · rw [if_pos hempty] at hcont
            cases hcont
            omega
          · rw [if_neg hempty] at hcont
            obtain ⟨r₂, c₂, hrun₂, hsucc₂, -⟩ := hnext o c₁ ho.1 ho.2 hempty
            rw [hrun₂] at hcont
            cases hcont
            obtain ⟨q, c₃, hrest, hend⟩ := hsucc₂ hr
            exact ⟨q, c₃, hrest.cons hruns, hend⟩
        · rintro q ⟨o, -, hpo, hstep, hrest⟩ c₁ hend
          have ho := h.within p o hpo hp
          refine (hfail hr).2 o hpo c₁ ?_
          beta_reduce
          rw [if_neg hstep, (hnext o c₁ ho.1 ho.2 hstep).succeeds_iff fun _ _ h' =>
            h'.repeats h.sound]
          exact ⟨q, hrest, c₁, hend⟩
      · rw [if_neg hcan]
        refine ⟨-1, c, rfl, fun hr => by omega, fun _ => ⟨rfl, ?_⟩⟩
        rintro q ⟨o, hcan', -⟩
        exact absurd hcan' hcan
    obtain ⟨r, c', hrun, hsucc, hfail⟩ := hmore
    unfold repeatLoop
    simp only [hrun]
    by_cases hr : 0 ≤ r
    · refine ⟨r, c', if_pos hr, hsucc, fun hneg => by omega⟩
    · obtain ⟨rfl, hnone⟩ := hfail (by omega)
      rw [if_neg hr]
      by_cases hmin : min ≤ count
      · rw [if_pos hmin]
        obtain ⟨r₂, c₂, hrun₂, hfail₂⟩ := hk.answer (le_refl p) hp c'
        refine ⟨r₂, c₂, hrun₂, fun _ => ⟨p, c', ⟨0, ⟨hmin, hcount⟩, ChainRuns.nil p c'⟩, hrun₂⟩,
          fun hr₂ => ⟨(hfail₂ hr₂).1, fun q hq => ?_⟩⟩
        rcases hq.step with ⟨-, rfl⟩ | hstep
        · exact (hfail₂ hr₂).2
        · exact hnone q hstep
      · rw [if_neg hmin]
        refine ⟨-1, c', rfl, fun hr' => by omega, fun _ => ⟨rfl, fun q hq => ?_⟩⟩
        rcases hq.step with ⟨hmin', -⟩ | hstep
        · exact absurd hmin' hmin
        · exact hnone q hstep

/-- A repetition from its start, with rounds for the minimum and for every position. -/
theorem Decides.repeated (h : Decides hi m lang runs) {rounds : Nat} (hrounds : min + hi < rounds) :
    Decides hi (repeatLoop m min max rounds 0) (Repeats lang min max 0)
      (RepeatRuns runs min max 0) := by
  refine ⟨?_, fun p c q c' hruns => hruns.repeats h.sound, fun p c k hp hk => ?_⟩
  · rintro p q ⟨n, -, hchain⟩ hp
    exact hchain.within h.within hp
  · exact repeatLoop_settles h rounds 0 p c k hp hk (by omega) (by omega)

end Repetition

/-! ## Captures -/

section Capture

variable {β : Type} {m : Matcher κ} {lang : Nat → Nat → Prop}
  {runs : Nat → κ → Nat → κ → Prop}

/-- The continuation `k` after the ends of a match from `p` on have been noted in the
    record; what was there before is put back if `k` fails. -/
def noting (save : κ → β) (note : Nat → Nat → κ → κ) (restore : β → κ → κ) (p : Nat)
    (k : Cont κ) : Cont κ := fun q c =>
  match k q (note p q c) with
  | none => none
  | some (r, c') => if r < 0 then some (r, restore (save c) c') else some (r, c')

/-- Note the ends of a match. -/
def capture (save : κ → β) (note : Nat → Nat → κ → κ) (restore : β → κ → κ) (m : Matcher κ) :
    Matcher κ := fun p c k => m p c (noting save note restore p k)

variable {save : κ → β} {note : Nat → Nat → κ → κ} {restore : β → κ → κ}

section

variable (hrestore : ∀ p q c, restore (save c) (note p q c) = c)

include hrestore

theorem noting_eq {q : Nat}
    (hk : Good hi p k) (hpq : p ≤ q) (hq : q ≤ hi) (c : κ) :
    ∃ r c', k q (note p q c) = some (r, c') ∧
      noting save note restore p k q c = some (r, if r < 0 then c else c') := by
  obtain ⟨r, c', hrun, hback⟩ := hk.answers q (note p q c) hpq hq
  refine ⟨r, c', hrun, ?_⟩
  unfold noting
  rw [hrun]
  by_cases hr : r < 0
  · simp only [if_pos hr, hback hr, hrestore]
  · simp only [if_neg hr]

theorem succeeds_noting_iff
    {q : Nat} (hk : Good hi p k) (hpq : p ≤ q) (hq : q ≤ hi) (c : κ) :
    Succeeds (noting save note restore p k q c) ↔ Succeeds (k q (note p q c)) := by
  obtain ⟨r, c', hrun, hnote⟩ := noting_eq hrestore hk hpq hq c
  rw [hrun, hnote]
  constructor
  · rintro ⟨r', c'', heq, hr⟩
    cases heq
    exact ⟨r, c', rfl, hr⟩
  · rintro ⟨r', c'', heq, hr⟩
    cases heq
    exact ⟨r, _, rfl, hr⟩

theorem good_noting
    (hk : Good hi p k) : Good hi p (noting save note restore p k) := by
  refine ⟨fun q c hpq hq => ?_, fun q c c' hpq hq hsucc => ?_⟩
  · obtain ⟨r, c', -, hnote⟩ := noting_eq hrestore hk hpq hq c
    exact ⟨r, _, hnote, fun hr => if_pos hr⟩
  · rw [succeeds_noting_iff hrestore hk hpq hq] at hsucc ⊢
    exact hk.blind q _ _ hpq hq hsucc

theorem Decides.capture
    (h : Decides hi m lang runs) : Decides hi (capture save note restore m) lang
      fun p c q c' => ∃ c₁, runs p c q c₁ ∧ c' = note p q c₁ := by
  refine ⟨h.within, ?_, fun p c k hp hk => ?_⟩
  · rintro p c q c' ⟨c₁, hruns, -⟩
    exact h.sound p c q c₁ hruns
  · obtain ⟨r, c', hrun, hsucc, hfail⟩ := h.decides p c _ hp (good_noting hrestore hk)
    refine ⟨r, c', hrun, fun hr => ?_, fun hr => ⟨(hfail hr).1, fun q hq c₁ hend => ?_⟩⟩
    · obtain ⟨q, c₁, hruns, hcont⟩ := hsucc hr
      have hq := h.within p q (h.sound p c q c₁ hruns) hp
      obtain ⟨r', c₂, hend, hnote⟩ := noting_eq hrestore hk hq.1 hq.2 c₁
      rw [hnote] at hcont
      cases hcont
      refine ⟨q, note p q c₁, ⟨c₁, hruns, rfl⟩, ?_⟩
      rw [hend, if_neg (by omega)]
    · have hq' := h.within p q hq hp
      refine (hfail hr).2 q hq c₁ ?_
      rw [succeeds_noting_iff hrestore hk hq'.1 hq'.2]
      exact hk.blind q _ _ hq'.1 hq'.2 hend

end

end Capture

end Caap.Lib.Backtrack
