/-
  Caap.Lib.DepGraph

  Dependency graphs over ordered keys: for each key the set of keys that come after it,
  and beside it the number of keys each one waits for.  An edge is added once and counts
  once (`Counted.addEdge`).  An edge against which no path runs keeps the graph acyclic
  (`acyclic_of_edge`); the paths are found by draining a stack (`mem_reachFrom`).
-/

import Caap.Lib.Worklist
import Caap.Lib.OrdMap

namespace Caap.Lib

open Std Relation ExtTreeMap OrdMap Finset

set_option linter.unusedSectionVars false

universe u

/-! ## Acyclic relations -/

section Acyclic

variable {α : Type*} {r s : α → α → Prop}

/-- No element leads back to itself. -/
def Acyclic (r : α → α → Prop) : Prop := ∀ a, ¬ TransGen r a a

theorem Acyclic.mono (h : Acyclic s) (hrs : ∀ a b, r a b → s a b) : Acyclic r :=
  fun a hcycle => h a (TransGen.mono hrs a a hcycle)

/-- Among finitely many elements one has none of them before it. -/
theorem Acyclic.exists_first (h : Acyclic r) {xs : Set α} (hfin : xs.Finite) (hne : xs.Nonempty) :
    ∃ m ∈ xs, ∀ a ∈ xs, ¬ r a m := by
  have := hfin.to_subtype
  have : Std.Irrefl fun a b : xs => TransGen r a.1 b.1 := ⟨fun a => h a.1⟩
  have hwf : WellFounded fun a b : xs => TransGen r a.1 b.1 :=
    Finite.wellFounded_of_trans_of_irrefl _
  obtain ⟨m, -, hmin⟩ := hwf.has_min Set.univ ⟨⟨_, hne.some_mem⟩, trivial⟩
  exact ⟨m.1, m.2, fun a ha hr => hmin ⟨a, ha⟩ trivial (.single hr)⟩

/-- With one more edge `a → b`, a path is an old one or runs through the edge once. -/
theorem transGen_of_edge {a b x y : α} (hs : ∀ x y, s x y ↔ r x y ∨ (x = a ∧ y = b))
    (hback : ¬ ReflTransGen r b a) (h : TransGen s x y) :
    TransGen r x y ∨ (ReflTransGen r x a ∧ ReflTransGen r b y) := by
  induction h with
  | single hxy =>
    rcases (hs _ _).mp hxy with hr | ⟨rfl, rfl⟩
    · exact .inl (.single hr)
    · exact .inr ⟨.refl, .refl⟩
  | tail _ hyz ih =>
    rcases (hs _ _).mp hyz with hr | ⟨rfl, rfl⟩
    · rcases ih with hxy | ⟨hxa, hby⟩
      · exact .inl (hxy.tail hr)
      · exact .inr ⟨hxa, hby.tail hr⟩
    · rcases ih with hxy | ⟨_, hby⟩
      · exact .inr ⟨hxy.to_reflTransGen, .refl⟩
      · exact absurd hby hback

/-- An edge against which no path runs closes no cycle. -/
theorem acyclic_of_edge {a b : α} (hs : ∀ x y, s x y ↔ r x y ∨ (x = a ∧ y = b))
    (hback : ¬ ReflTransGen r b a) (h : Acyclic r) : Acyclic s := by
  intro x hcycle
  rcases transGen_of_edge hs hback hcycle with hr | ⟨hxa, hbx⟩
  · exact h x hr
  · exact hback (hbx.trans hxa)

end Acyclic

/-! ## Graphs -/

/-- The keys after each key, and how many keys each one waits for. -/
structure DepGraph (κ : Type*) [Ord κ] where
  outgoing : OrdMap κ (OrdSet κ)
  incoming : OrdMap κ Nat

namespace DepGraph

variable {κ : Type u} [Ord κ] [TransOrd κ] [LawfulEqOrd κ] [DecidableEq κ]
  {g : DepGraph κ} {a b : κ}

/-- The graph without edges. -/
def ofNodes (l : List κ) : DepGraph κ where
  outgoing := OrdMap.ofEntries (l.map fun k => (k, ∅))
  incoming := OrdMap.ofEntries (l.map fun k => (k, 0))

/-- The keys after `a`. -/
def targets (g : DepGraph κ) (a : κ) : OrdSet κ := (g.outgoing[a]?).getD ∅

/-- `a` comes before `b`. -/
def Edge (g : DepGraph κ) (a b : κ) : Prop := b ∈ g.targets a

instance (g : DepGraph κ) (a b : κ) : Decidable (g.Edge a b) :=
  inferInstanceAs (Decidable (b ∈ g.targets a))

/-- Put `a` before `b`; an edge to itself, from an unknown key or that is there already
    changes nothing. -/
def addEdge (g : DepGraph κ) (a b : κ) : DepGraph κ :=
  if a = b then g
  else
    match g.outgoing[a]? with
    | none => g
    | some targets =>
      if b ∈ targets then g
      else
        { outgoing := g.outgoing.insert a (targets.insert b ())
          incoming := g.incoming.insert b ((g.incoming[b]?).getD 0 + 1) }

theorem mem_of_edge (h : g.Edge a b) : a ∈ g.outgoing := by
  by_contra hno
  rw [Edge, targets, getElem?_eq_none hno] at h
  exact absurd h (by simp)

/-- What adding an edge does. -/
theorem addEdge_cases (g : DepGraph κ) (a b : κ) :
    (g.addEdge a b = g ∧ (a = b ∨ a ∉ g.outgoing ∨ g.Edge a b)) ∨
      (a ≠ b ∧ a ∈ g.outgoing ∧ ¬ g.Edge a b ∧
        g.addEdge a b = { outgoing := g.outgoing.insert a ((g.targets a).insert b ())
                          incoming := g.incoming.insert b ((g.incoming[b]?).getD 0 + 1) }) := by
  rw [addEdge]
  by_cases hab : a = b
  · rw [if_pos hab]
    exact .inl ⟨rfl, .inl hab⟩
  · rw [if_neg hab]
    cases ha : g.outgoing[a]? with
    | none =>
      have hno : a ∉ g.outgoing := by
        rw [mem_iff_isSome_getElem?, ha]
        simp
      exact .inl ⟨rfl, .inr (.inl hno)⟩
    | some targets =>
      have htargets : g.targets a = targets := by rw [DepGraph.targets, ha]; rfl
      have hmem : a ∈ g.outgoing := mem_of_lookup ha
      rw [Edge, htargets]
      by_cases hb : b ∈ targets
      · simp only [if_pos hb]
        exact .inl ⟨trivial, .inr (.inr hb)⟩
      · simp only [if_neg hb]
        exact .inr ⟨hab, hmem, hb, trivial⟩

theorem mem_addEdge {k : κ} :
    k ∈ (g.addEdge a b).outgoing ↔ k ∈ g.outgoing := by
  rcases addEdge_cases g a b with ⟨heq, -⟩ | ⟨-, ha, -, heq⟩
  · rw [heq]
  · rw [heq]
    show k ∈ g.outgoing.insert a _ ↔ _
    rw [OrdMap.mem_insert]
    constructor
    · rintro (rfl | hk)
      · exact ha
      · exact hk
    · exact .inr

theorem targets_addEdge (ha : a ∈ g.outgoing) (hab : a ≠ b)
    (hb : ¬ g.Edge a b) (k : κ) :
    (g.addEdge a b).targets k = if a = k then (g.targets a).insert b () else g.targets k := by
  rcases addEdge_cases g a b with ⟨-, h⟩ | ⟨-, -, -, heq⟩
  · rcases h with h | h | h
    · exact absurd h hab
    · exact absurd ha h
    · exact absurd h hb
  · rw [heq, targets]
    show ((g.outgoing.insert a _)[k]?).getD ∅ = _
    rw [lookup_insert]
    by_cases hk : a = k
    · rw [if_pos hk, if_pos hk]
      rfl
    · rw [if_neg hk, if_neg hk]
      rfl

theorem edge_addEdge {x y : κ} : (g.addEdge a b).Edge x y ↔
      g.Edge x y ∨ (x = a ∧ y = b ∧ a ≠ b ∧ a ∈ g.outgoing) := by
  rcases addEdge_cases g a b with ⟨heq, h⟩ | ⟨hab, ha, hb, -⟩
  · rw [heq]
    constructor
    · exact .inl
    · rintro (hxy | ⟨rfl, rfl, hab, ha⟩)
      · exact hxy
      · rcases h with h | h | h
        · exact absurd h hab
        · exact absurd ha h
        · exact h
  · rw [Edge, targets_addEdge ha hab hb, Edge]
    by_cases hx : a = x
    · subst hx
      rw [if_pos rfl, OrdMap.mem_insert]
      constructor
      · rintro (rfl | hy)
        · exact .inr ⟨rfl, rfl, hab, ha⟩
        · exact .inl hy
      · rintro (hy | ⟨-, rfl, -, -⟩)
        · exact .inr hy
        · exact .inl rfl
    · rw [if_neg hx]
      constructor
      · exact .inl
      · rintro (hy | ⟨rfl, -⟩)
        · exact hy
        · exact absurd rfl hx

/-! ## Counting -/

/-- The keys of the graph. -/
def nodes (g : DepGraph κ) : Finset κ := g.outgoing.keys.toFinset

theorem mem_nodes : a ∈ g.nodes ↔ a ∈ g.outgoing := by
  rw [nodes, List.mem_toFinset, mem_keys]

/-- The keys before `b` that have not been visited. -/
def waitsFor (g : DepGraph κ) (visited : OrdSet κ) (b : κ) : Finset κ :=
  g.nodes.filter fun a => g.Edge a b ∧ a ∉ visited

theorem mem_waitsFor {visited : OrdSet κ} :
    a ∈ g.waitsFor visited b ↔ g.Edge a b ∧ a ∉ visited := by
  rw [waitsFor, Finset.mem_filter, mem_nodes]
  exact ⟨And.right, fun h => ⟨mem_of_edge h.1, h⟩⟩

/-- The counts are those of the edges, and edges run between different keys. -/
structure Counted (g : DepGraph κ) : Prop where
  closed : ∀ a b, g.Edge a b → b ∈ g.outgoing
  irrefl : ∀ a, ¬ g.Edge a a
  counts : ∀ k ∈ g.outgoing, g.incoming[k]? = some (g.waitsFor ∅ k).card

theorem lookup_outgoing_ofNodes (l : List κ) (k : κ) :
    (ofNodes l).outgoing[k]? = if k ∈ l then some ∅ else none := lookup_ofEntries_map l (fun _ => ∅) k

theorem outgoing_ofNodes {l : List κ} {k : κ} : k ∈ (ofNodes l).outgoing ↔ k ∈ l := by
  rw [mem_iff_isSome_getElem?, lookup_outgoing_ofNodes]
  by_cases hk : k ∈ l
  · simp [hk]
  · simp [hk]

theorem not_edge_ofNodes {l : List κ} : ¬ (ofNodes l).Edge a b := by
  rw [Edge, targets, lookup_outgoing_ofNodes]
  by_cases ha : a ∈ l
  · simp [ha]
  · simp [ha]

theorem counted_ofNodes (l : List κ) : (ofNodes l).Counted where
  closed a b h := absurd h not_edge_ofNodes
  irrefl a := not_edge_ofNodes
  counts k hk := by
    have hnone : (ofNodes l).waitsFor ∅ k = ∅ := by
      ext a
      rw [mem_waitsFor]
      exact ⟨fun h => absurd h.1 not_edge_ofNodes, fun h => absurd h (notMem_empty a)⟩
    rw [hnone, card_empty]
    have hlookup : (ofNodes l).incoming[k]? = if k ∈ l then some 0 else none :=
      lookup_ofEntries_map l (fun _ => 0) k
    rw [hlookup, if_pos (outgoing_ofNodes.mp hk)]

theorem Counted.addEdge (h : g.Counted) (hb : b ∈ g.outgoing) :
    (g.addEdge a b).Counted where
  closed x y hxy := by
    rw [mem_addEdge]
    rcases edge_addEdge.mp hxy with hxy | ⟨-, rfl, -⟩
    · exact h.closed x y hxy
    · exact hb
  irrefl x hx := by
    rcases edge_addEdge.mp hx with hx | ⟨rfl, hxb, hab, -⟩
    · exact h.irrefl x hx
    · exact hab hxb
  counts k hk := by
    rw [mem_addEdge] at hk
    rcases addEdge_cases g a b with ⟨heq, -⟩ | ⟨hab, ha, hnew, heq⟩
    · rw [heq]
      exact h.counts k hk
    · by_cases hkb : b = k
      · subst hkb
        -- the one key that waits for one key more
        have hset : (g.addEdge a b).waitsFor ∅ b = insert a (g.waitsFor ∅ b) := by
          ext x
          rw [Finset.mem_insert, mem_waitsFor, mem_waitsFor, edge_addEdge]
          constructor
          · rintro ⟨hx | ⟨rfl, -⟩, hvis⟩
            · exact .inr ⟨hx, hvis⟩
            · exact .inl rfl
          · rintro (rfl | ⟨hx, hvis⟩)
            · exact ⟨.inr ⟨rfl, rfl, hab, ha⟩, by simp⟩
            · exact ⟨.inl hx, hvis⟩
        have hout : a ∉ g.waitsFor ∅ b := fun hmem => hnew (mem_waitsFor.mp hmem).1
        rw [hset, card_insert_of_notMem hout, heq]
        show (g.incoming.insert b _)[b]? = _
        rw [lookup_insert, if_pos rfl, h.counts b hb]
        rfl
      · have hset : (g.addEdge a b).waitsFor ∅ k = g.waitsFor ∅ k := by
          ext x
          rw [mem_waitsFor, mem_waitsFor, edge_addEdge]
          constructor
          · rintro ⟨hx | ⟨-, rfl, -⟩, hvis⟩
            · exact ⟨hx, hvis⟩
            · exact absurd rfl hkb
          · exact fun hx => ⟨.inl hx.1, hx.2⟩
        rw [hset, heq]
        show (g.incoming.insert b _)[k]? = _
        rw [lookup_insert, if_neg hkb]
        exact h.counts k hk

/-! ## Graphs with more edges -/

/-- `g'` is `g` with the edges `E` added. -/
structure Extends (g g' : DepGraph κ) (E : κ → κ → Prop) : Prop where
  mem : ∀ k, k ∈ g'.outgoing ↔ k ∈ g.outgoing
  counted : g.Counted → g'.Counted
  edge : ∀ x y, g'.Edge x y ↔ g.Edge x y ∨ E x y

namespace Extends

variable {g g₁ g₂ : DepGraph κ} {D E : κ → κ → Prop}

theorem refl (g : DepGraph κ) (hE : ∀ x y, ¬ E x y) : g.Extends g E where
  mem _ := .rfl
  counted h := h
  edge x y := (or_iff_left (hE x y)).symm

theorem trans (h₁ : g.Extends g₁ D) (h₂ : g₁.Extends g₂ E) :
    g.Extends g₂ fun x y => D x y ∨ E x y where
  mem k := (h₂.mem k).trans (h₁.mem k)
  counted h := h₂.counted (h₁.counted h)
  edge x y := by rw [h₂.edge, h₁.edge, or_assoc]

theorem congr (h : g.Extends g₁ D) (hDE : ∀ x y, D x y ↔ E x y) : g.Extends g₁ E :=
  { h with edge := fun x y => by rw [h.edge, hDE] }

theorem addEdge (ha : a ∈ g.outgoing) (hb : b ∈ g.outgoing) :
    g.Extends (g.addEdge a b) fun x y => x = a ∧ y = b ∧ x ≠ y where
  mem _ := mem_addEdge
  counted h := h.addEdge hb
  edge x y := by
    rw [edge_addEdge]
    refine or_congr_right ⟨?_, ?_⟩
    · rintro ⟨rfl, rfl, hne, -⟩
      exact ⟨rfl, rfl, hne⟩
    · rintro ⟨rfl, rfl, hne⟩
      exact ⟨rfl, rfl, hne, ha⟩

/-- A loop that adds the edges of one element after the other. -/
theorem foldOk {ε : Type*} {ι : Type u} {f : DepGraph κ → ι → Except ε (DepGraph κ)} {l : List ι}
    {E : ι → κ → κ → Prop}
    (hstep : ∀ g₁ g₂, (∀ k, k ∈ g₁.outgoing ↔ k ∈ g.outgoing) → ∀ i ∈ l, f g₁ i = .ok g₂ →
      g₁.Extends g₂ (E i))
    (h : Lib.foldOk f g l = .ok g₁) : g.Extends g₁ fun x y => ∃ i ∈ l, E i x y := by
  induction l generalizing g with
  | nil =>
    obtain rfl := Except.ok.inj h
    exact refl _ (by simp)
  | cons i l ih =>
    rw [foldOk_cons, bind_eq_ok] at h
    obtain ⟨g', hi, hrest⟩ := h
    have hfirst := hstep g g' (fun _ => .rfl) i (List.mem_cons_self ..) hi
    have hothers := ih (fun g₁ g₂ hmem j hj => hstep g₁ g₂
      (fun k => (hmem k).trans (hfirst.mem k)) j (List.mem_cons_of_mem _ hj)) hrest
    refine (hfirst.trans hothers).congr fun x y => ?_
    simp

end Extends

/-- `g'` has the edges of `g` and maybe more, none of which closes a cycle. -/
structure Widens (g g' : DepGraph κ) : Prop where
  mem : ∀ k, k ∈ g'.outgoing ↔ k ∈ g.outgoing
  counted : g.Counted → g'.Counted
  mono : ∀ x y, g.Edge x y → g'.Edge x y
  acyclic : Acyclic g.Edge → Acyclic g'.Edge

namespace Widens

variable {g g₁ g₂ : DepGraph κ}

theorem refl (g : DepGraph κ) : g.Widens g where
  mem _ := .rfl
  counted h := h
  mono _ _ h := h
  acyclic h := h

theorem trans (h₁ : g.Widens g₁) (h₂ : g₁.Widens g₂) : g.Widens g₂ where
  mem k := (h₂.mem k).trans (h₁.mem k)
  counted h := h₂.counted (h₁.counted h)
  mono x y h := h₂.mono x y (h₁.mono x y h)
  acyclic h := h₂.acyclic (h₁.acyclic h)

theorem transGen (h : g.Widens g₁) {x y : κ} (hxy : TransGen g.Edge x y) : TransGen g₁.Edge x y :=
  TransGen.mono h.mono x y hxy

/-- An edge against which no path runs. -/
theorem addEdge (hb : b ∈ g.outgoing) (hback : ¬ TransGen g.Edge b a) :
    g.Widens (g.addEdge a b) where
  mem _ := mem_addEdge
  counted h := h.addEdge hb
  mono x y h := edge_addEdge.mpr (.inl h)
  acyclic h := by
    by_cases hnew : a ≠ b ∧ a ∈ g.outgoing
    · refine acyclic_of_edge (a := a) (b := b) (fun x y => ?_) (fun hpath => ?_) h
      · exact edge_addEdge.trans (or_congr_right
          ⟨fun hxy => ⟨hxy.1, hxy.2.1⟩, fun hxy => ⟨hxy.1, hxy.2, hnew⟩⟩)
      · rcases reflTransGen_iff_eq_or_transGen.mp hpath with heq | hpath
        · exact hnew.1 heq
        · exact hback hpath
    · refine h.mono fun x y hxy => ?_
      rcases edge_addEdge.mp hxy with hxy | ⟨-, -, hab⟩
      · exact hxy
      · exact absurd hab hnew

end Widens

/-! ## Paths -/

/-- The keys that a path from `a` leads to: a stack of keys is drained, and a key that was
    not seen pushes the keys after it. -/
def reachFrom (g : DepGraph κ) (a : κ) : OrdSet κ :=
  drain (fun (seen : OrdSet κ) b => if b ∈ seen then [] else (g.targets b).keys)
    (fun seen b => if b ∈ seen then seen else seen.insert b ())
    ((g.targets a).keys.length + ∑ b ∈ g.nodes, (g.targets b).keys.length) ∅
    (g.targets a).keys.reverse

/-- What is still to be pushed. -/
def pending (g : DepGraph κ) (seen : OrdSet κ) : Nat :=
  ∑ b ∈ g.nodes.filter (fun b => b ∉ seen), (g.targets b).keys.length

theorem pending_insert (g : DepGraph κ) {seen : OrdSet κ} (hb : b ∉ seen) :
    (g.targets b).keys.length + g.pending (seen.insert b ()) ≤ g.pending seen := by
  have hsplit : (g.nodes.filter fun x => x ∉ seen.insert b ())
      = (g.nodes.filter fun x => x ∉ seen).erase b := by
    ext x
    rw [Finset.mem_erase, Finset.mem_filter, Finset.mem_filter, OrdMap.mem_insert, not_or]
    exact ⟨fun ⟨hn, hxb, hs⟩ => ⟨hxb, hn, hs⟩, fun ⟨hxb, hn, hs⟩ => ⟨hn, hxb, hs⟩⟩
  rw [pending, hsplit]
  by_cases hnode : b ∈ g.nodes
  · have hmem : b ∈ g.nodes.filter fun x => x ∉ seen := mem_filter.mpr ⟨hnode, hb⟩
    exact (add_sum_erase _ (fun x => (g.targets x).keys.length) hmem).le
  · have hempty : (g.targets b).keys.length = 0 := by
      have hno : b ∉ g.outgoing := fun h => hnode (mem_nodes.mpr h)
      rw [targets, getElem?_eq_none hno]
      simp
    rw [hempty, Nat.zero_add, pending]
    exact sum_le_sum_of_subset (erase_subset _ _)

/-- What holds while the stack is drained: everything seen or stacked lies on a path from
    `a`, and every edge from `a` or from a seen key leads to a seen or stacked one. -/
structure Reaching (g : DepGraph κ) (a : κ) (seen : OrdSet κ) (stack : List κ) : Prop where
  sound : ∀ x, x ∈ seen ∨ x ∈ stack → TransGen g.Edge a x
  first : ∀ y, g.Edge a y → y ∈ seen ∨ y ∈ stack
  closed : ∀ x ∈ seen, ∀ y, g.Edge x y → y ∈ seen ∨ y ∈ stack

theorem Reaching.seen {seen : OrdSet κ} {stack : List κ}
    (h : g.Reaching a seen (b :: stack)) (hb : b ∈ seen) : g.Reaching a seen stack where
  sound x hx := h.sound x (hx.imp_right (List.mem_cons_of_mem b))
  first y hy := by
    rcases h.first y hy with hs | hs
    · exact .inl hs
    · rcases List.mem_cons.mp hs with rfl | hs
      · exact .inl hb
      · exact .inr hs
  closed x hx y hy := by
    rcases h.closed x hx y hy with hs | hs
    · exact .inl hs
    · rcases List.mem_cons.mp hs with rfl | hs
      · exact .inl hb
      · exact .inr hs

theorem Reaching.push {seen : OrdSet κ} {stack : List κ}
    (h : g.Reaching a seen (b :: stack)) :
    g.Reaching a (seen.insert b ()) ((g.targets b).keys.reverse ++ stack) := by
  have hmem : ∀ y, y ∈ seen ∨ y ∈ b :: stack →
      y ∈ seen.insert b () ∨ y ∈ (g.targets b).keys.reverse ++ stack := by
    intro y hy
    rw [OrdMap.mem_insert, List.mem_append]
    rcases hy with hs | hs
    · exact .inl (.inr hs)
    · rcases List.mem_cons.mp hs with rfl | hs
      · exact .inl (.inl rfl)
      · exact .inr (.inr hs)
  have hab : TransGen g.Edge a b := h.sound b (.inr (List.mem_cons_self ..))
  refine ⟨fun x hx => ?_, fun y hy => hmem y (h.first y hy), fun x hx y hy => ?_⟩
  · rw [OrdMap.mem_insert, List.mem_append, List.mem_reverse, mem_keys] at hx
    rcases hx with (rfl | hs) | hs | hs
    · exact hab
    · exact h.sound x (.inl hs)
    · exact hab.tail hs
    · exact h.sound x (.inr (List.mem_cons_of_mem _ hs))
  · rcases OrdMap.mem_insert.mp hx with rfl | hs
    · right
      rw [List.mem_append, List.mem_reverse, mem_keys]
      exact .inl hy
    · exact hmem y (h.closed x hs y hy)

theorem reaching_reachFrom (g : DepGraph κ) (a : κ) : g.Reaching a (g.reachFrom a) [] := by
  refine drain_invariant g.pending ?_ ?_ ?_ ?_
  · intro seen b
    by_cases hb : b ∈ seen
    · simp only [if_pos hb, List.length_nil, Nat.zero_add, Nat.le_refl]
    · simp only [if_neg hb]
      exact g.pending_insert hb
  · intro seen b stack h
    by_cases hb : b ∈ seen
    · simp only [if_pos hb, List.reverse_nil, List.nil_append]
      exact h.seen hb
    · simp only [if_neg hb]
      exact h.push
  · rw [List.length_reverse]
    exact Nat.add_le_add_left (sum_le_sum_of_subset (filter_subset _ _)) _
  · refine ⟨fun x hx => ?_, fun y hy => ?_, fun x hx => ?_⟩
    · rw [List.mem_reverse, mem_keys] at hx
      exact .single (hx.resolve_left (by simp))
    · rw [List.mem_reverse, mem_keys]
      exact .inr hy
    · exact absurd hx (by simp)

theorem mem_reachFrom : b ∈ g.reachFrom a ↔ TransGen g.Edge a b := by
  have h := reaching_reachFrom g a
  constructor
  · exact fun hb => h.sound b (.inl hb)
  · intro hb
    induction hb with
    | single hy => exact (h.first _ hy).resolve_right (List.not_mem_nil)
    | tail _ hyz ih => exact (h.closed _ ih _ hyz).resolve_right (List.not_mem_nil)

end DepGraph

end Caap.Lib
