/-
  Caap.Lib.Chain

  Chains of a partial function `next : α → Option α`.  `Ends next a` says that
  following `next` from `a` stops; `walk` is the loop that follows it while it
  remembers what it has seen and gives up at the first repetition.  Over a function
  with a finite domain the loop decides `Ends` (`walk_eq_true_iff`), and redirecting
  one element keeps every chain finite as long as the new target does not lead back
  to it (`Ends.redirect`).
-/

import Caap.Lib.Run

namespace Caap.Lib

variable {α : Type*}

/-- Following `next` from `a` stops. -/
inductive Ends (next : α → Option α) : α → Prop
  | stop {a : α} (h : next a = none) : Ends next a
  | step {a b : α} (h : next a = some b) (hb : Ends next b) : Ends next a

/-- `b` is on the chain of `a`. -/
inductive Leads (next : α → Option α) : α → α → Prop
  | here (a : α) : Leads next a a
  | step {a b c : α} (h : next a = some b) (hb : Leads next b c) : Leads next a c

variable {next : α → Option α} {a : α}

theorem Leads.eq_of_none {b : α} (h : Leads next a b) (hn : next a = none) : a = b := by
  cases h with
  | here => rfl
  | step hs _ => exact absurd (hn.symm.trans hs) (by simp)

theorem Leads.concat {b c : α} (h : Leads next a b) (hs : next b = some c) : Leads next a c := by
  induction h with
  | here => exact .step hs (.here c)
  | step hn _ ih => exact .step hn (ih hs)

theorem Leads.trans {b c : α} (h : Leads next a b) (h' : Leads next b c) : Leads next a c := by
  induction h with
  | here => exact h'
  | step hs _ ih => exact .step hs (ih h')

/-- Of two elements on one chain, one leads to the other. -/
theorem Leads.total {b c : α} (hb : Leads next a b) (hc : Leads next a c) :
    Leads next b c ∨ Leads next c b := by
  induction hb with
  | here => exact .inl hc
  | @step a a' b hs hb ih =>
    cases hc with
    | here => exact .inr (.step hs hb)
    | step hs' hc =>
      obtain rfl := Option.some.inj (hs.symm.trans hs')
      exact ih hc

/-- A chain that stops never returns. -/
theorem Ends.not_leads_back {b : α} (h : Ends next a)
    (hs : next a = some b) : ¬ Leads next b a := by
  induction h generalizing b with
  | stop hn => exact absurd (hn.symm.trans hs) (by simp)
  | @step a' b' hs' _ ih =>
    have heq : b' = b := Option.some.inj (hs'.symm.trans hs)
    intro hl
    rw [← heq] at hl
    -- a second visit of the start would also be a second visit of its successor
    cases hl with
    | here => exact ih hs' (.here _)
    | step hn hrest => exact ih hn (hrest.concat hs')

/-- The chain of `a` visits `l` and then stops. -/
inductive Chain (next : α → Option α) : α → List α → Prop
  | stop {a : α} (h : next a = none) : Chain next a []
  | step {a b : α} {l : List α} (h : next a = some b) (hb : Chain next b l) : Chain next a (a :: l)

variable {l : List α}

namespace Chain

variable {next : α → Option α}

theorem of_ends (h : Ends next a) : ∃ l, Chain next a l := by
  induction h with
  | stop h => exact ⟨[], .stop h⟩
  | step h _ ih =>
    obtain ⟨l, hl⟩ := ih
    exact ⟨_, .step h hl⟩

/-- The list of a chain is determined by its start. -/
theorem unique {l' : List α} (h : Chain next a l) (h' : Chain next a l') : l = l' := by
  induction h generalizing l' with
  | stop hn =>
    cases h' with
    | stop _ => rfl
    | step hs _ => exact absurd (hn.symm.trans hs) (by simp)
  | step hs _ ih =>
    cases h' with
    | stop hn => exact absurd (hn.symm.trans hs) (by simp)
    | step hs' hb' =>
      have hb : _ = _ := Option.some.inj (hs.symm.trans hs')
      subst hb
      rw [ih hb']

/-- From each visited element the chain continues with a shorter list. -/
theorem of_mem (h : Chain next a l) {b : α} (hb : b ∈ l) :
    ∃ l', Chain next b l' ∧ l'.length ≤ l.length := by
  induction h with
  | stop _ => exact absurd hb List.not_mem_nil
  | @step a' b' l' hs hb' ih =>
    rcases List.mem_cons.mp hb with heq | hmem
    · rw [heq]
      exact ⟨a' :: l', .step hs hb', Nat.le_refl _⟩
    · obtain ⟨l'', hl'', hlen⟩ := ih hmem
      exact ⟨l'', hl'', Nat.le_succ_of_le hlen⟩

/-- A chain that stops visits no element twice. -/
theorem nodup (h : Chain next a l) : l.Nodup := by
  induction h with
  | stop _ => exact List.nodup_nil
  | @step a' b' l' hs hb' ih =>
    refine List.nodup_cons.mpr ⟨?_, ih⟩
    intro hmem
    -- a second visit would start a chain of the same element with a shorter list
    obtain ⟨l'', hl'', hlen⟩ := hb'.of_mem hmem
    have heq : a' :: l' = l'' := (Chain.step hs hb').unique hl''
    rw [← heq, List.length_cons] at hlen
    omega

/-- Every visited element has a successor. -/
theorem isSome_of_mem (h : Chain next a l) {b : α} (hb : b ∈ l) : (next b).isSome := by
  induction h with
  | stop _ => exact absurd hb List.not_mem_nil
  | step hs _ ih =>
    rcases List.mem_cons.mp hb with heq | hmem
    · rw [heq, hs]
      rfl
    · exact ih hmem

end Chain

/-! ## The loop that follows a chain -/

variable [DecidableEq α]

/-- Follow `next` from `current`, with the elements seen so far, and report whether the
    chain stops before an element is seen twice.  `fuel` bounds the iterations. -/
def walk (next : α → Option α) : Nat → List α → α → Bool
  | 0, _, _ => false
  | fuel + 1, seen, current =>
    match next current with
    | none => true
    | some following =>
      if current ∈ seen then false else walk next fuel (current :: seen) following

variable {next : α → Option α}

theorem ends_of_walk {fuel : Nat} {seen : List α} (h : walk next fuel seen a = true) :
    Ends next a := by
  induction fuel generalizing seen a with
  | zero => exact absurd h (by simp [walk])
  | succ fuel ih =>
    rw [walk] at h
    cases hn : next a with
    | none => exact .stop hn
    | some b =>
      simp only [hn] at h
      by_cases hs : a ∈ seen
      · rw [if_pos hs] at h
        exact absurd h (by simp)
      · rw [if_neg hs] at h
        exact .step hn (ih h)

theorem walk_of_chain {fuel : Nat} {seen : List α} (h : Chain next a l)
    (hfuel : l.length < fuel) (hseen : ∀ x ∈ l, x ∉ seen) : walk next fuel seen a = true := by
  induction h generalizing fuel seen with
  | stop hn =>
    obtain ⟨n, rfl⟩ : ∃ n, fuel = n + 1 := ⟨fuel - 1, by omega⟩
    simp only [walk, hn]
  | @step a' b' l' hs hb' ih =>
    obtain ⟨n, rfl⟩ : ∃ n, fuel = n + 1 := ⟨fuel - 1, by omega⟩
    have hnot : a' ∉ seen := hseen a' (List.mem_cons_self ..)
    have hnd := (Chain.step hs hb').nodup
    simp only [walk, hs, if_neg hnot]
    rw [List.length_cons] at hfuel
    refine ih (by omega) ?_
    intro x hx hmem
    rcases List.mem_cons.mp hmem with heq | hmem
    · rw [heq] at hx
      exact (List.nodup_cons.mp hnd).1 hx
    · exact hseen x (List.mem_cons_of_mem _ hx) hmem

/-- With one unit of fuel more than the domain has elements, the loop decides whether
    the chain stops. -/
theorem walk_eq_true_iff {domain : List α} (hdom : ∀ a, (next a).isSome → a ∈ domain) :
    walk next (domain.length + 1) [] a = true ↔ Ends next a := by
  refine ⟨ends_of_walk, fun h => ?_⟩
  obtain ⟨l, hl⟩ := Chain.of_ends h
  have hsub : l ⊆ domain := fun x hx => hdom x (hl.isSome_of_mem hx)
  have hlen : l.length ≤ domain.length := (hl.nodup.subperm hsub).length_le
  exact walk_of_chain hl (by omega) (fun x _ => List.not_mem_nil)

/-! ## Redirecting one element -/

omit [DecidableEq α] in
/-- A chain that avoids `k` is the same after `k` is redirected. -/
theorem Ends.of_not_leads {next' : α → Option α} {k : α} (h : Ends next a)
    (hsame : ∀ x, x ≠ k → next' x = next x) (hk : ¬ Leads next a k) : Ends next' a := by
  induction h with
  | @stop a' hn =>
    refine .stop ?_
    rw [hsame a' (fun heq => hk (heq ▸ .here a')), hn]
  | @step a' b' hs hb' ih =>
    have hne : a' ≠ k := fun heq => hk (heq ▸ .here a')
    refine .step (b := b') ?_ (ih (fun hl => hk (.step hs hl)))
    rw [hsame a' hne, hs]

/-- Redirecting `k` to an `l` that does not lead to `k` keeps all chains finite. -/
theorem Ends.redirect {next' : α → Option α} {k l : α} (hall : ∀ a, Ends next a)
    (hk : next' k = some l) (hsame : ∀ x, x ≠ k → next' x = next x) (hl : ¬ Leads next l k)
    (a : α) : Ends next' a := by
  have hend : Ends next' l := (hall l).of_not_leads hsame hl
  induction hall a with
  | @stop a' hn =>
    by_cases heq : a' = k
    · rw [heq]
      exact .step hk hend
    · exact .stop ((hsame a' heq).trans hn)
  | @step a' b' hs _ ih =>
    by_cases heq : a' = k
    · rw [heq]
      exact .step hk hend
    · exact .step ((hsame a' heq).trans hs) ih

end Caap.Lib
