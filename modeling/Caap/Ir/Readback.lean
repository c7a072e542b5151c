/-
  Caap.Ir.Readback

  `expr_spec_for_subtree` as a relation: `Reads g id spec` holds where the recursion along
  the node table returns `spec` with enough steps (`reads_iff`).  An inserted expression
  reads back as itself (`insertExprSpecInto_reads`), a part of the table that is not
  touched reads back as before (`Reads.frame`), and after a subtree is replaced every
  tree reads back with the occurrence of the old subtree replaced (`Replaced.reads`).
-/

import Caap.Ir.Replacement

namespace Caap

open Std Lib Action Bounded List Option

namespace Bounded

variable {α β : Type}

theorem bind_eq_pure {x : Bounded α} {f : α → Bounded β} {b : β} :
    x >>= f = pure b ↔ ∃ a, x = pure a ∧ f a = pure b := by
  constructor
  · intro h
    rcases x with _ | ⟨e | a⟩
    · exact absurd h (by rintro ⟨⟩)
    · exact absurd h (by rintro ⟨⟩)
    · exact ⟨a, rfl, h⟩
  · rintro ⟨a, rfl, h⟩
    exact h

theorem pure_inj {a b : α} : (pure a : Bounded α) = pure b ↔ a = b := by
  refine ⟨fun h => ?_, congrArg _⟩
  exact Except.ok.inj (some.inj h)

theorem mapM_eq_pure {f : α → Bounded β} {as : List α} {bs : List β} :
    as.mapM f = pure bs ↔ List.Forall₂ (fun a b => f a = pure b) as bs := by
  induction as generalizing bs with
  | nil =>
    rw [mapM_nil, pure_inj, forall₂_nil_left_iff, eq_comm]
  | cons a as ih =>
    rw [mapM_cons, bind_eq_pure, forall₂_cons_left_iff]
    constructor
    · rintro ⟨b, hb, h⟩
      obtain ⟨bs', hbs, h⟩ := bind_eq_pure.mp h
      exact ⟨b, bs', hb, ih.mp hbs, (pure_inj.mp h).symm⟩
    · rintro ⟨b, bs', hb, hbs, rfl⟩
      exact ⟨b, hb, bind_eq_pure.mpr ⟨bs', ih.mpr hbs, rfl⟩⟩

theorem exists_mapM {f : α → Bounded β} {as : List α} (h : ∀ a ∈ as, ∃ b, f a = pure b) :
    ∃ bs, as.mapM f = pure bs := by
  induction as with
  | nil => exact ⟨[], rfl⟩
  | cons a as ih =>
    obtain ⟨b, hb⟩ := h a (mem_cons_self ..)
    obtain ⟨bs, hbs⟩ := ih fun x hx => h x (mem_cons_of_mem _ hx)
    refine ⟨b :: bs, ?_⟩
    rw [mapM_cons]
    exact bind_eq_pure.mpr ⟨b, hb, bind_eq_pure.mpr ⟨bs, hbs, rfl⟩⟩

end Bounded

namespace IRGraph

mutual

/-- The subtree at an id reads back as the expression. -/
inductive Reads (g : IRGraph) : Nat → ExprSpec → Prop
  | name {id i : Nat} {identifier : String} (hn : g.nodes[id]? = some (.name i identifier))
      (hid : identifier ≠ "") : Reads g id (.name identifier g.sourceSpans[id]?)
  | literal {id i : Nat} {value : IrLiteralData} (hn : g.nodes[id]? = some (.literal i value)) :
      Reads g id (.literal value g.sourceSpans[id]?)
  | call {id i calleeId : Nat} {argIds : List Nat} {callee : ExprSpec} {args : List ExprSpec}
      (hn : g.nodes[id]? = some (.call i calleeId argIds)) (hcallee : Reads g calleeId callee)
      (hargs : ReadsAll g argIds args) : Reads g id (.call callee args g.sourceSpans[id]?)

/-- The subtrees at the ids read back as the expressions, in their order. -/
inductive ReadsAll (g : IRGraph) : List Nat → List ExprSpec → Prop
  | nil : ReadsAll g [] []
  | cons {id : Nat} {ids : List Nat} {spec : ExprSpec} {specs : List ExprSpec}
      (h : Reads g id spec) (hrest : ReadsAll g ids specs) : ReadsAll g (id :: ids) (spec :: specs)

end

theorem readsAll_iff {g : IRGraph} {ids : List Nat} {specs : List ExprSpec} :
    ReadsAll g ids specs ↔ List.Forall₂ (Reads g) ids specs := by
  constructor
  · intro h
    induction ids generalizing specs with
    | nil =>
      cases h
      exact .nil
    | cons id ids ih =>
      cases h with
      | cons h hrest => exact .cons h (ih hrest)
  · intro h
    induction h with
    | nil => exact .nil
    | cons h _ ih => exact .cons h ih

/-- What the recursion returns is read back. -/
theorem reads_of_exprSpecForSubtree {g : IRGraph} {fuel id : Nat} {spec : ExprSpec}
    (h : g.exprSpecForSubtree fuel id = pure spec) : Reads g id spec := by
  induction fuel generalizing id spec with
  | zero => exact absurd h (by rintro ⟨⟩)
  | succ fuel ih =>
    rw [exprSpecForSubtree] at h
    cases hn : g.nodes[id]? with
    | none =>
      rw [hn] at h
      exact absurd h (by rintro ⟨⟩)
    | some node =>
      rw [hn] at h
      cases node with
      | name i identifier =>
        by_cases hid : identifier = ""
        · simp only [ExprSpec.nameWithSpan, if_pos hid] at h
          exact absurd h (by rintro ⟨⟩)
        · simp only [ExprSpec.nameWithSpan, if_neg hid] at h
          rw [← pure_inj.mp h]
          exact .name hn hid
      | literal i value =>
        rw [← pure_inj.mp h]
        exact .literal hn
      | call i calleeId argIds =>
        obtain ⟨callee, hcallee, h⟩ := bind_eq_pure.mp h
        obtain ⟨args, hargs, h⟩ := bind_eq_pure.mp h
        rw [← pure_inj.mp h]
        refine .call hn (ih hcallee) (readsAll_iff.mpr ?_)
        exact (mapM_eq_pure.mp hargs).imp fun _ _ harg => ih harg

mutual

/-- What is read back is what the recursion returns with enough steps. -/
theorem Reads.exprSpecForSubtree {g : IRGraph} {id : Nat} {spec : ExprSpec} (h : Reads g id spec) :
    ∃ fuel, ∀ fuel', fuel ≤ fuel' → g.exprSpecForSubtree fuel' id = pure spec := by
  cases h with
  | @name _ i identifier hn hid =>
    refine ⟨1, fun fuel' hle => ?_⟩
    obtain ⟨fuel, rfl⟩ : ∃ fuel, fuel' = fuel + 1 := ⟨fuel' - 1, by omega⟩
    simp only [IRGraph.exprSpecForSubtree, hn, ExprSpec.nameWithSpan, if_neg hid]
    rfl
  | literal hn =>
    refine ⟨1, fun fuel' hle => ?_⟩
    obtain ⟨fuel, rfl⟩ : ∃ fuel, fuel' = fuel + 1 := ⟨fuel' - 1, by omega⟩
    simp only [IRGraph.exprSpecForSubtree, hn]
  | call hn hcallee hargs =>
    obtain ⟨fuel₁, h₁⟩ := hcallee.exprSpecForSubtree
    obtain ⟨fuel₂, h₂⟩ := hargs.exprSpecForSubtree
    refine ⟨max fuel₁ fuel₂ + 1, fun fuel' hle => ?_⟩
    obtain ⟨fuel, rfl⟩ : ∃ fuel, fuel' = fuel + 1 := ⟨fuel' - 1, by omega⟩
    simp only [IRGraph.exprSpecForSubtree, hn]
    refine bind_eq_pure.mpr ⟨_, h₁ fuel (by omega), ?_⟩
    exact bind_eq_pure.mpr ⟨_, h₂ fuel (by omega), rfl⟩

/-- The loop over the arguments. -/
theorem ReadsAll.exprSpecForSubtree {g : IRGraph} {ids : List Nat} {specs : List ExprSpec}
    (h : ReadsAll g ids specs) :
    ∃ fuel, ∀ fuel', fuel ≤ fuel' → ids.mapM (g.exprSpecForSubtree fuel') = pure specs := by
  cases h with
  | nil => exact ⟨0, fun _ _ => rfl⟩
  | cons h hrest =>
    obtain ⟨fuel₁, h₁⟩ := h.exprSpecForSubtree
    obtain ⟨fuel₂, h₂⟩ := hrest.exprSpecForSubtree
    refine ⟨max fuel₁ fuel₂, fun fuel' hle => ?_⟩
    rw [mapM_cons]
    refine bind_eq_pure.mpr ⟨_, h₁ fuel' (by omega), ?_⟩
    exact bind_eq_pure.mpr ⟨_, h₂ fuel' (by omega), rfl⟩

end

/-! ## Parts of the table that are not touched -/

section Frame

variable {g g' : IRGraph} {P : Nat → Prop}

mutual

/-- A subtree reads back as before where the tables are the same on a set of ids that is
    closed under children. -/
theorem Reads.frame (hsame : ∀ a, P a →
      g'.nodes[a]? = g.nodes[a]? ∧ g'.sourceSpans[a]? = g.sourceSpans[a]?)
    (hclosed : ∀ {a cs c}, P a → g.kids a = some cs → c ∈ cs → P c) {id : Nat} {spec : ExprSpec}
    (h : Reads g id spec) (hid : P id) : Reads g' id spec := by
  obtain ⟨hnode, hspan⟩ := hsame id hid
  cases h with
  | name hn hne =>
    rw [← hspan]
    exact .name (hnode.trans hn) hne
  | literal hn =>
    rw [← hspan]
    exact .literal (hnode.trans hn)
  | call hn hcallee hargs =>
    rw [← hspan]
    have hk : g.kids id = some _ := kids_eq_some.mpr ⟨_, hn, rfl⟩
    refine .call (hnode.trans hn) ?_ ?_
    · exact hcallee.frame hsame hclosed (hclosed hid hk (mem_cons_self ..))
    · exact hargs.frame hsame hclosed fun a ha => hclosed hid hk (mem_cons_of_mem _ ha)

theorem ReadsAll.frame (hsame : ∀ a, P a →
      g'.nodes[a]? = g.nodes[a]? ∧ g'.sourceSpans[a]? = g.sourceSpans[a]?)
    (hclosed : ∀ {a cs c}, P a → g.kids a = some cs → c ∈ cs → P c) {ids : List Nat}
    {specs : List ExprSpec} (h : ReadsAll g ids specs) (hids : ∀ a ∈ ids, P a) :
    ReadsAll g' ids specs := by
  cases h with
  | nil => exact .nil
  | cons h hrest =>
    refine .cons (h.frame hsame hclosed (hids _ (mem_cons_self ..))) ?_
    exact hrest.frame hsame hclosed fun a ha => hids a (mem_cons_of_mem _ ha)

end

end Frame

/-! ## Inserted expressions -/

theorem Block.closed {g g' : IRGraph} {roots : List Nat} {parent : Option Nat}
    (hb : Block g g' roots parent) {a c : Nat} {cs : List Nat}
    (ha : g.nextId ≤ a ∧ a < g'.nextId) (hk : g'.kids a = some cs) (hc : c ∈ cs) :
    g.nextId ≤ c ∧ c < g'.nextId := by
  obtain ⟨node, hn, -, -, hch⟩ := hb.node a ha.1 ha.2
  obtain ⟨node', hn', rfl⟩ := kids_eq_some.mp hk
  rw [hn, some.injEq] at hn'
  obtain ⟨h1, h2, -⟩ := hch c (hn' ▸ hc)
  omega

/-- No id from the next one on has a span. -/
def SpanFree (g : IRGraph) : Prop := ∀ a : Nat, g.nextId ≤ a → g.sourceSpans[a]? = none

theorem Block.spanFree {g g' : IRGraph} {roots : List Nat} {parent : Option Nat}
    (hb : Block g g' roots parent) (h : g.SpanFree) : g'.SpanFree := by
  intro a ha
  have hle := hb.le
  rw [hb.spans a (.inr ha)]
  exact h a (by omega)

mutual

/-- An inserted expression reads back as itself. -/
theorem insertExprSpecInto_reads (spec : ExprSpec) {parentId : Option Nat} {g g' : IRGraph}
    {id : Nat} (h : insertExprSpecInto spec parentId g = (.ok id, g')) (hfree : g.SpanFree) :
    Reads g' id spec := by
  have hnone : g.sourceSpans[g.nextId]? = none := hfree g.nextId (Nat.le_refl _)
  match spec with
  | .name identifier span =>
    obtain ⟨rfl, -⟩ := insertExprSpecInto_block _ h
    rw [insertExprSpecInto] at h
    obtain ⟨id₁, g₁, halloc, h⟩ := bind_eq_ok.mp h
    obtain ⟨rfl, rfl⟩ := allocateId_eq_ok (call_eq_ok.mp halloc)
    obtain ⟨node, g₂, hcheck, h⟩ := bind_eq_ok.mp h
    obtain ⟨hname, rfl⟩ := check_eq_ok.mp hcheck
    obtain ⟨_, g₃, hset, hspan⟩ := bind_eq_ok.mp h
    obtain ⟨hne, hnode⟩ := ite_error_eq_ok.mp hname
    obtain rfl : Node.name g.nextId identifier = node := Except.ok.inj hnode
    obtain rfl := setNode_eq_ok (update_eq_ok.mp hset)
    obtain ⟨-, spans, rfl, -, hs⟩ := attachSpan_eq_ok hspan
    rw [← hs hnone]
    refine .name (i := g.nextId) ?_ hne
    exact (OrdMap.lookup_insert ..).trans (if_pos rfl)
  | .literal value span =>
    obtain ⟨rfl, -⟩ := insertExprSpecInto_block _ h
    rw [insertExprSpecInto] at h
    obtain ⟨id₁, g₁, halloc, h⟩ := bind_eq_ok.mp h
    obtain ⟨rfl, rfl⟩ := allocateId_eq_ok (call_eq_ok.mp halloc)
    obtain ⟨_, g₂, hset, hspan⟩ := bind_eq_ok.mp h
    obtain rfl := setNode_eq_ok (update_eq_ok.mp hset)
    obtain ⟨-, spans, rfl, -, hs⟩ := attachSpan_eq_ok hspan
    rw [← hs hnone]
    refine .literal (i := g.nextId) ?_
    exact (OrdMap.lookup_insert ..).trans (if_pos rfl)
  | .call callee args span =>
    obtain ⟨rfl, -⟩ := insertExprSpecInto_block _ h
    rw [insertExprSpecInto] at h
    obtain ⟨id₁, g₁, halloc, h⟩ := bind_eq_ok.mp h
    obtain ⟨rfl, hg₁⟩ := allocateId_eq_ok (call_eq_ok.mp halloc)
    obtain ⟨calleeId, g₂, hcallee, h⟩ := bind_eq_ok.mp h
    obtain ⟨argIds, g₃, hargs, h⟩ := bind_eq_ok.mp h
    obtain ⟨_, g₄, hcheck, h⟩ := bind_eq_ok.mp h
    obtain ⟨-, rfl⟩ := check_eq_ok.mp hcheck
    obtain ⟨_, g₅, hset, hspan⟩ := bind_eq_ok.mp h
    have hnext : g₁.nextId = g.nextId + 1 := by rw [hg₁]
    have hfree₁ : g₁.SpanFree := by
      intro a ha
      rw [hg₁]
      exact hfree a (by omega)
    have hb₁ := (insertExprSpecInto_block callee hcallee).2
    have hb₂ := insertArgs_block args hargs
    have hb := hb₁.trans hb₂
    have hle₁ := hb₁.le
    -- the callee is not touched by the arguments, and neither by the call itself
    have hreads₂ : Reads g₃ calleeId callee := by
      refine (insertExprSpecInto_reads callee hcallee hfree₁).frame
        (P := fun a => g₁.nextId ≤ a ∧ a < g₂.nextId) ?_ hb₁.closed ?_
      · intro a ha
        exact ⟨hb₂.nodes a (.inl ha.2), hb₂.spans a (.inl ha.2)⟩
      · obtain ⟨h1, h2, -⟩ := hb₁.root calleeId (mem_singleton_self _)
        exact ⟨h1, h2⟩
    have hreads₃ := insertArgs_reads args hargs (hb₁.spanFree hfree₁)
    have hg₅ := setNode_eq_ok (update_eq_ok.mp hset)
    have hnone₅ : g₅.sourceSpans[g.nextId]? = none := by
      rw [hg₅]
      show g₃.sourceSpans[g.nextId]? = none
      rw [hb.spans g.nextId (.inl (by omega)), hg₁]
      exact hnone
    obtain ⟨-, spans, hg', hspans, hs⟩ := attachSpan_eq_ok hspan
    have hsame : ∀ a, g₁.nextId ≤ a ∧ a < g₃.nextId →
        g'.nodes[a]? = g₃.nodes[a]? ∧ g'.sourceSpans[a]? = g₃.sourceSpans[a]? := by
      rintro a ⟨h1, h2⟩
      have hne : g.nextId ≠ a := by omega
      constructor
      · rw [hg', hg₅]
        exact (OrdMap.lookup_insert ..).trans (if_neg hne)
      · rw [hg', hspans a (Ne.symm hne), hg₅]
    rw [← hs hnone₅, show spans[g.nextId]? = g'.sourceSpans[g.nextId]? by rw [hg']]
    have hnode : g'.nodes[g.nextId]? = some (.call g.nextId calleeId argIds) := by
      rw [hg', hg₅]
      exact (OrdMap.lookup_insert ..).trans (if_pos rfl)
    refine .call hnode ?_ ?_
    · refine hreads₂.frame hsame hb.closed ?_
      obtain ⟨h1, h2, -⟩ := hb.root calleeId (mem_append_left _ (mem_singleton_self _))
      exact ⟨h1, h2⟩
    · refine hreads₃.frame hsame hb.closed fun a ha => ?_
      obtain ⟨h1, h2, -⟩ := hb.root a (mem_append_right _ ha)
      exact ⟨h1, h2⟩

/-- The loop over the arguments. -/
theorem insertArgs_reads (specs : List ExprSpec) {parentId : Option Nat} {g g' : IRGraph}
    {ids : List Nat} (h : insertArgs specs parentId g = (.ok ids, g')) (hfree : g.SpanFree) :
    ReadsAll g' ids specs := by
  match specs with
  | [] =>
    rw [insertArgs] at h
    obtain ⟨rfl, rfl⟩ := pure_eq_ok.mp h
    exact .nil
  | spec :: rest =>
    rw [insertArgs] at h
    obtain ⟨id, g₁, hspec, h⟩ := bind_eq_ok.mp h
    obtain ⟨ids', g₂, hrest, h⟩ := bind_eq_ok.mp h
    obtain ⟨rfl, rfl⟩ := pure_eq_ok.mp h
    have hb₁ := (insertExprSpecInto_block spec hspec).2
    have hb₂ := insertArgs_block rest hrest
    refine .cons ?_ (insertArgs_reads rest hrest (hb₁.spanFree hfree))
    refine (insertExprSpecInto_reads spec hspec hfree).frame
      (P := fun a => g.nextId ≤ a ∧ a < g₁.nextId) ?_ hb₁.closed ?_
    · intro a ha
      exact ⟨hb₂.nodes a (.inl ha.2), hb₂.spans a (.inl ha.2)⟩
    · obtain ⟨h1, h2, -⟩ := hb₁.root id (mem_singleton_self _)
      exact ⟨h1, h2⟩

end

/-! ## Replaced subtrees -/

end IRGraph

/-- The expression with the part at a path replaced by `e`; the callee of a call is its
    first part and the arguments follow. -/
def ExprSpec.replaceAt : ExprSpec → List Nat → ExprSpec → ExprSpec
  | _, [], e => e
  | .call callee args span, 0 :: path, e => .call (callee.replaceAt path e) args span
  | .call callee args span, (i + 1) :: path, e =>
    .call callee (args.modify i fun arg => arg.replaceAt path e) span
  | spec, _ :: _, _ => spec

namespace IRGraph

/-- The node at a path of child positions below an id. -/
def follow (g : IRGraph) : List Nat → Nat → Option Nat
  | [], id => some id
  | i :: path, id => ((g.childrenOf id)[i]?).bind (g.follow path)

section Path

variable {g : IRGraph}

theorem follow_append (path path' : List Nat) (id : Nat) :
    g.follow (path ++ path') id = (g.follow path id).bind (g.follow path') := by
  induction path generalizing id with
  | nil => rfl
  | cons i path ih =>
    simp only [cons_append, follow]
    cases (g.childrenOf id)[i]? with
    | none => rfl
    | some c => exact ih c

/-- A node with children has an entry. -/
theorem kids_of_childrenOf {id c : Nat} (h : c ∈ g.childrenOf id) :
    ∃ cs, g.kids id = some cs ∧ c ∈ cs := by
  cases hk : g.kids id with
  | none =>
    rw [childrenOf, map_eq_none_iff.mp hk] at h
    exact absurd h not_mem_nil
  | some cs => exact ⟨cs, rfl, kids_eq_some_childrenOf hk ▸ h⟩

theorem below_of_follow {path : List Nat} {id t : Nat} (h : g.follow path id = some t) :
    Below g.kids id t := by
  induction path generalizing id with
  | nil =>
    obtain rfl : id = t := some.inj h
    exact .refl
  | cons i path ih =>
    obtain ⟨c, hc, hrest⟩ := bind_eq_some_iff.mp h
    obtain ⟨cs, hk, hmem⟩ := kids_of_childrenOf (mem_of_getElem? hc)
    exact .of_child hk hmem (ih hrest)

/-- Every node below an id is at some path. -/
theorem follow_of_below {id t : Nat} (h : Below g.kids id t) : ∃ path, g.follow path id = some t := by
  induction h with
  | refl => exact ⟨[], rfl⟩
  | @step a c cs _ hk hc ih =>
    obtain ⟨path, hpath⟩ := ih
    obtain ⟨i, hi⟩ := mem_iff_getElem?.mp hc
    refine ⟨path ++ [i], ?_⟩
    rw [follow_append, hpath, bind_some, follow, kids_eq_some_childrenOf hk, hi]
    rfl

end Path

/-- Changing one entry of the second list of a relation between lists. -/
theorem forall₂_modify {α β : Type} {R S : α → β → Prop} {as : List α} {bs : List β}
    (h : List.Forall₂ R as bs) {i : Nat} {f : β → β}
    (hi : ∀ a b, as[i]? = some a → R a b → S a (f b))
    (hrest : ∀ j a b, j ≠ i → as[j]? = some a → R a b → S a b) :
    List.Forall₂ S as (bs.modify i f) := by
  induction h generalizing i with
  | nil => simp
  | @cons a b as bs hab hrec ih =>
    cases i with
    | zero =>
      refine .cons (hi a b rfl hab) ?_
      rw [forall₂_iff_get] at hrec ⊢
      refine ⟨hrec.1, fun j h₁ h₂ => ?_⟩
      refine hrest (j + 1) _ _ (Nat.succ_ne_zero j) ?_ (hrec.2 j h₁ h₂)
      simp [getElem?_eq_getElem h₁]
    | succ i =>
      refine .cons (hrest 0 a b (Nat.succ_ne_zero i).symm rfl hab) (ih ?_ ?_)
      · intro a' b' ha'
        exact hi a' b' ha'
      · intro j a' b' hj ha'
        exact hrest (j + 1) a' b' (by omega) ha'

namespace Replaced

variable {g g' : IRGraph} {t n : Nat}

/-- The id in whose place the id stands afterwards. -/
def exchange (t n a : Nat) : Nat := if a = t then n else a

/-- A node that is not below the old subtree lists the exchanged children. -/
theorem kids_eq (h : Replaced g g' t n) (hl : g.LinksAgree) {a : Nat} {cs : List Nat}
    (hk : g.kids a = some cs) (ha : ¬ Below g.kids t a) :
    g'.kids a = some (cs.map (exchange t n)) := by
  by_cases hp : g.parentOf t = some a
  · rw [h.children a hp, hk]
    rfl
  · have hmem : a ∈ g'.nodes :=
      (h.gone a).mpr ⟨isSome_kids.mp (by rw [hk]; rfl), fun hb => ha hb.2⟩
    have hsame : cs.map (exchange t n) = cs :=
      map_exchange_of_notMem (fun ht => hp (hl.down hk ht)) n
    rw [hsame, ← hk, kids, kids, h.rest a hmem hp]

/-- A tree without the old subtree in it, beside the old subtree, is not touched. -/
theorem reads_beside (h : Replaced g g' t n) (hl : g.LinksAgree) {id : Nat} {spec : ExprSpec}
    (hmem : id ∈ g.nodes) (hreads : Reads g id spec) (hid : ¬ Below g.kids t id)
    (ht : ¬ Below g.kids id t) : Reads g' id spec := by
  have hnodes : ∀ {a}, Below g.kids id a → a ∈ g.nodes := by
    intro a hb
    cases hb with
    | refl => exact hmem
    | step _ hk hc => exact hl.nodes hk hc
  refine hreads.frame (P := Below g.kids id) ?_ (fun hb hk hc => .step hb hk hc) .refl
  intro a ha
  have hkept : a ∈ g'.nodes := by
    refine (h.gone a).mpr ⟨hnodes ha, ?_⟩
    rintro ⟨-, hta⟩
    rcases (hl.leads_of_below ha).total (hl.leads_of_below hta) with hlead | hlead
    · exact hid (hl.below_of_leads hlead)
    · exact ht (hl.below_of_leads hlead)
  refine ⟨h.rest a hkept ?_, h.spans a hkept⟩
  intro hp
  obtain ⟨cs, hk, hc⟩ := hl.up hp
  exact ht (.step ha hk hc)

/-- A node whose child has the old root below it is not below the old root. -/
theorem not_below_of_child (hl : g.LinksAgree) {a c : Nat} {cs : List Nat} (hk : g.kids a = some cs)
    (hc : c ∈ cs) (hct : Below g.kids c t) : ¬ Below g.kids t a := by
  intro hb
  have hback : Leads g.parentOf a c := (hl.leads_of_below hb).trans (hl.leads_of_below hct)
  exact (hl.ends c).not_leads_back (hl.down hk hc) hback

/-- Above the old subtree every tree reads back with the occurrence replaced. -/
theorem reads_above (h : Replaced g g' t n) (hl : g.LinksAgree)
    (hnodup : ∀ {a cs}, g.kids a = some cs → cs.Nodup) {e : ExprSpec} (he : Reads g' n e)
    {path : List Nat} {id : Nat} {spec : ExprSpec} (hpath : g.follow path id = some t)
    (hreads : Reads g id spec) : Reads g' (exchange t n id) (spec.replaceAt path e) := by
  induction path generalizing id spec with
  | nil =>
    obtain rfl : id = t := some.inj hpath
    rw [exchange, if_pos rfl, ExprSpec.replaceAt]
    exact he
  | cons i path ih =>
    obtain ⟨c, hc, hrest⟩ := bind_eq_some_iff.mp hpath
    have hct := below_of_follow hrest
    obtain ⟨cs, hk, hmem⟩ := kids_of_childrenOf (mem_of_getElem? hc)
    rw [kids_eq_some_childrenOf hk] at hc
    have hidt := not_below_of_child hl hk hmem hct
    have hne : id ≠ t := by
      rintro rfl
      exact hidt .refl
    have hid : exchange t n id = id := if_neg hne
    have hkept : id ∈ g'.nodes :=
      (h.gone id).mpr ⟨isSome_kids.mp (by rw [hk]; rfl), fun hb => hidt hb.2⟩
    have hk' := h.kids_eq hl hk hidt
    -- the other children are beside the old subtree
    have hbeside : ∀ d s, d ∈ cs → d ≠ c → Reads g d s → Reads g' (exchange t n d) s := by
      intro d s hd hdc hreads
      have hdt : ¬ Below g.kids d t := fun hb => hdc (hl.child_unique hk hd hmem hb hct)
      have htd : ¬ Below g.kids t d := by
        intro hb
        by_cases hd' : d = t
        · exact hdt (hd' ▸ .refl)
        · obtain ⟨p, hp, hbp⟩ := hl.parent_of_below hb hd'
          rw [hl.down hk hd, some.injEq] at hp
          exact hidt (hp ▸ hbp)
      have hdne : d ≠ t := by
        rintro rfl
        exact hdt .refl
      rw [exchange, if_neg hdne]
      exact h.reads_beside hl (hl.nodes hk hd) hreads htd hdt
    obtain ⟨node', hn', hch⟩ := kids_eq_some.mp hk'
    rw [hid]
    cases hreads with
    | name hn _ | literal hn =>
      rw [kids, hn] at hk
      obtain rfl := some.inj hk
      exact absurd hmem not_mem_nil
    | @call _ j calleeId argIds callee args hn hcallee hargs =>
      rw [kids, hn] at hk
      obtain rfl : calleeId :: argIds = cs := some.inj hk
      have hnd := nodup_cons.mp (hnodup (kids_eq_some.mpr ⟨_, hn, rfl⟩))
      -- a node with children is a call
      obtain ⟨j', hcall⟩ : ∃ j', node' =
          .call j' (exchange t n calleeId) (argIds.map (exchange t n)) := by
        cases node' with
        | name | literal => exact absurd hch (by simp [Node.children])
        | call j' calleeId' argIds' =>
          rw [Node.children, map_cons, cons.injEq] at hch
          exact ⟨j', by rw [hch.1, hch.2]⟩
      rw [hcall] at hn'
      rw [← h.spans id hkept]
      have hargs' := readsAll_iff.mp hargs
      cases i with
      | zero =>
        obtain rfl : calleeId = c := some.inj hc
        rw [ExprSpec.replaceAt]
        refine .call hn' (ih hrest hcallee) (readsAll_iff.mpr ?_)
        rw [forall₂_map_left_iff]
        rw [forall₂_iff_get] at hargs' ⊢
        refine ⟨hargs'.1, fun k h₁ h₂ => ?_⟩
        have hmem' : argIds.get ⟨k, h₁⟩ ∈ argIds := get_mem ..
        refine hbeside _ _ (mem_cons_of_mem _ hmem') ?_ (hargs'.2 k h₁ h₂)
        rintro heq
        exact hnd.1 (heq ▸ hmem')
      | succ i =>
        rw [ExprSpec.replaceAt]
        refine .call hn' ?_ (readsAll_iff.mpr ?_)
        · refine hbeside _ _ (mem_cons_self ..) ?_ hcallee
          rintro rfl
          exact hnd.1 (mem_of_getElem? hc)
        · rw [forall₂_map_left_iff]
          refine forall₂_modify hargs' ?_ ?_
          · intro a s ha hs
            obtain rfl : c = a := some.inj (hc.symm.trans ha)
            exact ih hrest hs
          · intro k a s hk ha hs
            refine hbeside a s (mem_cons_of_mem _ (mem_of_getElem? ha)) ?_ hs
            rintro rfl
            obtain ⟨hlt, hget⟩ := List.getElem?_eq_some_iff.mp ha
            obtain ⟨hlt', hget'⟩ := List.getElem?_eq_some_iff.mp hc
            exact hk (hnd.2.getElem_inj_iff.mp (hget.trans hget'.symm))

end Replaced

end IRGraph

end Caap
