/-
  Caap.Lib.Worklist

  Loops over an explicit stack.  `depthFirst` keeps a set of seen elements: each element
  is visited at most once, with the element it was reached from, and the state is
  threaded through the visits in the order of the loop.  `drain` has no such set: it
  ends because each visit uses up the elements it pushes.
-/

import Caap.Lib.Run

namespace Caap.Lib

open List

variable {α σ : Type*} [DecidableEq α]

variable {universe_ : List α}

theorem length_filter_notMem_cons_lt {seen : List α} {key : α} (hu : key ∈ universe_)
    (hs : key ∉ seen) : (universe_.filter fun x => x ∉ key :: seen).length
      < (universe_.filter fun x => x ∉ seen).length := by
  have hsub : (universe_.filter fun x => x ∉ key :: seen)
      = (universe_.filter fun x => x ∉ seen).filter fun x => x ≠ key := by
    rw [filter_filter]
    simp [mem_cons, not_or]
  rw [hsub]
  refine length_filter_lt_length_iff_exists.mpr ⟨key, ?_, by simp⟩
  exact mem_filter.mpr ⟨hu, by simpa using hs⟩

/-- The loop: pop an element with the one it was reached from, skip it when seen,
    otherwise visit it and push its successors.  The top of the stack is the head of
    the list.  All successors lie in a finite universe, which bounds the visits. -/
def depthFirst (succ : α → List α) (visit : σ → α → α → σ) (universe_ : List α)
    (hsucc : ∀ a, ∀ b ∈ succ a, b ∈ universe_) (seen : List α) (stack : List (α × α))
    (hstack : ∀ e ∈ stack, e.1 ∈ universe_) (state : σ) : σ :=
  match stack with
  | [] => state
  | (key, upstream) :: rest =>
    have hrest : ∀ e ∈ rest, e.1 ∈ universe_ := fun e he => hstack e (List.mem_cons_of_mem _ he)
    if h : key ∈ seen then depthFirst succ visit universe_ hsucc seen rest hrest state
    else
      have hpush : ∀ e ∈ (succ key).reverse.map (fun b => (b, key)) ++ rest, e.1 ∈ universe_ := by
        intro e he
        rcases List.mem_append.mp he with he | he
        · obtain ⟨b, hb, rfl⟩ := List.mem_map.mp he
          exact hsucc key b (List.mem_reverse.mp hb)
        · exact hrest e he
      depthFirst succ visit universe_ hsucc (key :: seen)
        ((succ key).reverse.map (fun b => (b, key)) ++ rest) hpush (visit state key upstream)
termination_by ((universe_.filter fun x => x ∉ seen).length, stack.length)
decreasing_by
  · exact Prod.Lex.right _ (by simp)
  · exact Prod.Lex.left _ _ (length_filter_notMem_cons_lt (hstack (key, upstream) (by simp)) h)

variable {succ : α → List α}

/-- What every visit keeps, the traversal keeps. -/
theorem depthFirst_invariant {visit : σ → α → α → σ}
    {hsucc : ∀ a, ∀ b ∈ succ a, b ∈ universe_} {P : σ → Prop}
    (hvisit : ∀ s key upstream, P s → P (visit s key upstream)) (seen : List α)
    (stack : List (α × α)) (hstack : ∀ e ∈ stack, e.1 ∈ universe_) (state : σ) (h0 : P state) :
    P (depthFirst succ visit universe_ hsucc seen stack hstack state) := by
  fun_induction depthFirst succ visit universe_ hsucc seen stack hstack state with
  | case1 => exact h0
  | case2 _ _ _ _ _ _ _ _ _ ih => exact ih h0
  | case3 _ state key upstream _ _ _ _ _ _ ih => exact ih (hvisit state key upstream h0)

/-- `b` is visited after `a`: there is a chain of successors from `a` to `b`. -/
abbrev Leadsto (succ : α → List α) : α → α → Prop := Relation.ReflTransGen fun a b => b ∈ succ a

omit [DecidableEq α] in
/-- A path that starts in a closed set stays there or passes through the stack. -/
theorem seen_or_stack_of_leadsto {seen : List α} {stack : List (α × α)}
    (hclosed : ∀ a ∈ seen, ∀ b ∈ succ a, b ∈ seen ∨ ∃ e ∈ stack, e.1 = b) {a k : α} (ha : a ∈ seen)
    (hk : Leadsto succ a k) : k ∈ seen ∨ ∃ e ∈ stack, Leadsto succ e.1 k := by
  induction hk with
  | refl => exact .inl ha
  | tail _ hlast ih =>
    rcases ih with hseen | ⟨e, he, hpath⟩
    · rcases hclosed _ hseen _ hlast with hseen' | ⟨e, he, rfl⟩
      · exact .inl hseen'
      · exact .inr ⟨e, he, .refl⟩
    · exact .inr ⟨e, he, hpath.tail hlast⟩

/-- The traversal visits the elements that can be reached from the stack, each with the
    element it was reached from, and nothing else. -/
theorem depthFirst_eq_foldl {visit : σ → α → α → σ}
    {hsucc : ∀ a, ∀ b ∈ succ a, b ∈ universe_} (seen : List α) (stack : List (α × α))
    (hstack : ∀ e ∈ stack, e.1 ∈ universe_) (state : σ)
    (hclosed : ∀ a ∈ seen, ∀ b ∈ succ a, b ∈ seen ∨ ∃ e ∈ stack, e.1 = b) : ∃ order : List (α × α),
      depthFirst succ visit universe_ hsucc seen stack hstack state
          = order.foldl (fun s e => visit s e.1 e.2) state ∧
        ∀ k, (k ∈ seen ∨ ∃ e ∈ order, e.1 = k) ↔ k ∈ seen ∨ ∃ e ∈ stack, Leadsto succ e.1 k := by
  fun_induction depthFirst succ visit universe_ hsucc seen stack hstack state with
  | case1 => exact ⟨[], rfl, fun k => by simp⟩
  | case2 seen state key upstream rest _ _ hmem _ ih =>
    have hrest : ∀ a ∈ seen, ∀ b ∈ succ a, b ∈ seen ∨ ∃ e ∈ rest, e.1 = b := by
      intro a ha b hb
      rcases hclosed a ha b hb with hseen | ⟨e, he, rfl⟩
      · exact .inl hseen
      · rcases mem_cons.mp he with rfl | he
        · exact .inl hmem
        · exact .inr ⟨e, he, rfl⟩
    obtain ⟨order, hfold, hkeys⟩ := ih hrest
    refine ⟨order, hfold, fun k => (hkeys k).trans ⟨?_, ?_⟩⟩
    · rintro (hk | ⟨e, he, hpath⟩)
      · exact .inl hk
      · exact .inr ⟨e, mem_cons_of_mem _ he, hpath⟩
    · rintro (hk | ⟨e, he, hpath⟩)
      · exact .inl hk
      · rcases mem_cons.mp he with rfl | he
        · exact seen_or_stack_of_leadsto hrest hmem hpath
        · exact .inr ⟨e, he, hpath⟩
  | case3 seen state key upstream rest _ _ hmem _ _ ih =>
    have hpushed : ∀ b, (∃ e ∈ (succ key).reverse.map (fun b => (b, key)) ++ rest, e.1 = b) ↔
        b ∈ succ key ∨ ∃ e ∈ rest, e.1 = b := by
      simp [or_and_right, exists_or]
    obtain ⟨order, hfold, hkeys⟩ := ih (by
      intro a ha b hb
      rw [hpushed]
      rcases mem_cons.mp ha with rfl | ha
      · exact .inr (.inl hb)
      · rcases hclosed a ha b hb with hseen | ⟨e, he, rfl⟩
        · exact .inl (mem_cons_of_mem _ hseen)
        · rcases mem_cons.mp he with rfl | he
          · exact .inl (mem_cons_self ..)
          · exact .inr (.inr ⟨e, he, rfl⟩))
    refine ⟨(key, upstream) :: order, hfold, fun k => ?_⟩
    have hk := hkeys k
    have hhead : Leadsto succ key k ↔ key = k ∨ ∃ b ∈ succ key, Leadsto succ b k :=
      Relation.ReflTransGen.cases_head_iff
    simp only [mem_cons, mem_append, mem_map, mem_reverse, or_and_right,
      exists_or, exists_eq_left, exists_exists_and_eq_and] at hk ⊢
    rw [hhead]
    constructor
    · rintro (h | h | h)
      · exact .inl h
      · exact .inr (.inl (.inl h))
      · rcases hk.mp (.inr h) with (rfl | h) | h | h
        · exact .inr (.inl (.inl rfl))
        · exact .inl h
        · exact .inr (.inl (.inr h))
        · exact .inr (.inr h)
    · have hback : (k = key ∨ k ∈ seen) ∨ (∃ e ∈ order, e.1 = k) →
          k ∈ seen ∨ key = k ∨ ∃ e ∈ order, e.1 = k := by
        rintro ((rfl | h) | h)
        · exact .inr (.inl rfl)
        · exact .inl h
        · exact .inr (.inr h)
      rintro (h | (rfl | h) | h)
      · exact .inl h
      · exact .inr (.inl rfl)
      · exact hback (hk.mpr (.inr (.inl h)))
      · exact hback (hk.mpr (.inr (.inr h)))

/-! ## Draining a stack -/

section Drain

variable {α σ : Type*} {expand : σ → α → List α} {visit : σ → α → σ}

/-- Pop until the stack is empty: `expand` is what popping an element pushes and `visit`
    the state after it.  The top of the stack is the head of the list. -/
def drain (expand : σ → α → List α) (visit : σ → α → σ) : Nat → σ → List α → σ
  | 0, s, _ => s
  | _ + 1, s, [] => s
  | fuel + 1, s, a :: stack =>
    drain expand visit fuel (visit s a) ((expand s a).reverse ++ stack)

/-- With `weight` bounding what is still to be pushed, the loop empties its stack, and
    what every visit keeps holds at the end. -/
theorem drain_invariant (weight : σ → Nat) {I : σ → List α → Prop}
    (hweight : ∀ s a, (expand s a).length + weight (visit s a) ≤ weight s)
    (hstep : ∀ s a stack, I s (a :: stack) → I (visit s a) ((expand s a).reverse ++ stack))
    {fuel : Nat} {s : σ} {stack : List α} (hfuel : stack.length + weight s ≤ fuel)
    (h0 : I s stack) : I (drain expand visit fuel s stack) [] := by
  induction fuel generalizing s stack with
  | zero =>
    have hnil : stack = [] := length_eq_zero_iff.mp (by omega)
    rw [hnil] at h0
    exact h0
  | succ fuel ih =>
    cases stack with
    | nil => exact h0
    | cons a stack =>
      refine ih ?_ (hstep s a stack h0)
      have hw := hweight s a
      rw [length_cons] at hfuel
      rw [length_append, length_reverse]
      omega

end Drain

end Caap.Lib
