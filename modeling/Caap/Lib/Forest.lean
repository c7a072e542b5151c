/-
  Caap.Lib.Forest

  Forests given by two tables: `kids a` lists the children of a node (none when `a` is
  not a node) and `up a` is its parent entry (`some none` for a root).  `Linked` says that
  child and parent links are inverse to each other and that no node is its own ancestor;
  `Forest` says in addition that the tables have the same entries and which nodes are
  roots.  Three constructions keep a forest: adding trees beside it (`Forest.extend`),
  exchanging a subtree for another tree (`Forest.graft`), and removing a root with
  everything below it (`Forest.prune`); the last two keep links alone, too.
-/

import Caap.Lib.Chain

namespace Caap.Lib

open Option

variable {α : Type*}

/-- Child and parent links are inverse to each other and acyclic. -/
structure Linked (kids : α → Option (List α)) (parent : α → Option α) : Prop where
  down : ∀ {a cs c}, kids a = some cs → c ∈ cs → parent c = some a
  up : ∀ {a p}, parent a = some p → ∃ cs, kids p = some cs ∧ a ∈ cs
  ends : ∀ a, Ends parent a

/-- The two tables describe a forest whose roots are `root`. -/
structure Forest (kids : α → Option (List α)) (up : α → Option (Option α)) (root : α → Prop) :
    Prop where
  dom : ∀ a, (up a).isSome = true ↔ (kids a).isSome = true
  nodup : ∀ {a cs}, kids a = some cs → cs.Nodup
  down : ∀ {a cs c}, kids a = some cs → c ∈ cs → up c = some (some a)
  parent : ∀ {a p}, up a = some (some p) → ∃ cs, kids p = some cs ∧ a ∈ cs
  roots : ∀ a, up a = some none ↔ root a
  ends : ∀ a, Ends (fun a => (up a).join) a

/-- `a` is `r` or below it. -/
inductive Below (kids : α → Option (List α)) (r : α) : α → Prop
  | refl : Below kids r r
  | step {a c : α} {cs : List α} (h : Below kids r a) (hk : kids a = some cs) (hc : c ∈ cs) :
      Below kids r c

variable {r : α} {cs : List α}

/-- What is below a child is below its parent. -/
theorem Below.of_child {kids : α → Option (List α)} {c a : α}
    (hk : kids r = some cs) (hc : c ∈ cs) (h : Below kids c a) : Below kids r a := by
  induction h with
  | refl => exact .step .refl hk hc
  | step _ hk' hc' ih => exact .step ih hk' hc'

/-- What is below `r` is the same for two tables that agree on a set of nodes that has `r`
    and is closed under children. -/
theorem Below.congr_on {kids kids' : α → Option (List α)} {P : α → Prop} {a : α}
    (hsame : ∀ x, P x → kids' x = kids x) (hclosed : ∀ {x cs c}, P x → kids x = some cs → c ∈ cs → P c)
    (hr : P r) : Below kids' r a ↔ Below kids r a := by
  have hP : ∀ {x}, Below kids r x → P x := by
    intro x hb
    induction hb with
    | refl => exact hr
    | step _ hk hc ih => exact hclosed ih hk hc
  constructor
  · intro hb
    induction hb with
    | refl => exact .refl
    | step _ hk hc ih => exact .step ih (by rw [← hsame _ (hP ih), hk]) hc
  · intro hb
    induction hb with
    | refl => exact .refl
    | step hb hk hc ih => exact .step ih (by rw [hsame _ (hP hb), hk]) hc

/-- Other children of a node that is not below `r` change nothing below `r`. -/
theorem Below.congr_except {kids kids' : α → Option (List α)} {p a : α}
    (hkids : ∀ x, x ≠ p → kids' x = kids x) (hp : ¬ Below kids r p) :
    Below kids' r a ↔ Below kids r a := by
  refine Below.congr_on (P := Below kids r) ?_ (fun hb hk hc => .step hb hk hc) .refl
  intro x hb
  refine hkids x ?_
  rintro rfl
  exact hp hb

namespace Linked

variable {kids kids' : α → Option (List α)} {parent parent' : α → Option α}

section

variable (h : Linked kids parent)

include h

/-- A node below `r` that is not `r` has its parent below `r`. -/
theorem parent_of_below {a : α} (hb : Below kids r a) (hne : a ≠ r) :
    ∃ p, parent a = some p ∧ Below kids r p := by
  cases hb with
  | refl => exact absurd rfl hne
  | step hp hk hc => exact ⟨_, h.down hk hc, hp⟩

/-- What is below `r` leads up to it. -/
theorem leads_of_below {a : α} (hb : Below kids r a) :
    Leads parent a r := by
  induction hb with
  | refl => exact .here r
  | step _ hk hc ih => exact .step (h.down hk hc) ih

theorem below_of_leads {a : α} (hl : Leads parent a r) :
    Below kids r a := by
  induction hl with
  | here r => exact .refl
  | step hs _ ih =>
    obtain ⟨cs, hk, hmem⟩ := h.up hs
    exact .step ih hk hmem

/-- A parent is not below its child. -/
theorem not_below_of_parent {a p : α} (hp : parent a = some p) :
    ¬ Below kids a p := fun hb => (h.ends a).not_leads_back hp (h.leads_of_below hb)

/-- The parent of a node that is not below `r` is not below `r`. -/
theorem not_below_parent {a p : α} (hb : ¬ Below kids r a)
    (hp : parent a = some p) : ¬ Below kids r p := by
  intro hbp
  obtain ⟨cs, hk, hmem⟩ := h.up hp
  exact hb (.step hbp hk hmem)

/-- Only one child of a node has a given node below it. -/
theorem child_unique {a c d t : α} (hk : kids a = some cs)
    (hc : c ∈ cs) (hd : d ∈ cs) (hct : Below kids c t) (hdt : Below kids d t) : c = d := by
  -- a child that leads to a sibling leads there through their parent
  have hsame : ∀ {x y}, x ∈ cs → y ∈ cs → Leads parent x y → x = y := by
    intro x y hx hy hl
    cases hl with
    | here => rfl
    | step hs hl =>
      rw [h.down hk hx, some.injEq] at hs
      exact absurd (hs ▸ hl) ((h.ends y).not_leads_back (h.down hk hy))
  rcases (h.leads_of_below hct).total (h.leads_of_below hdt) with hl | hl
  · exact hsame hc hd hl
  · exact (hsame hd hc hl).symm

/-- Removing a root with everything below it. -/
theorem prune (hr : parent r = none)
    (hgone : ∀ a, Below kids r a → kids' a = none ∧ parent' a = none)
    (hkept : ∀ a, ¬ Below kids r a → kids' a = kids a ∧ parent' a = parent a) :
    Linked kids' parent' := by
  -- a remaining node has its old entries, and its parent remains too
  have hkids : ∀ {a cs}, kids' a = some cs → ¬ Below kids r a ∧ kids a = some cs := by
    intro a cs hk
    by_cases hb : Below kids r a
    · rw [(hgone a hb).1] at hk
      exact absurd hk (by simp)
    · exact ⟨hb, (hkept a hb).1 ▸ hk⟩
  have hchild : ∀ {a c cs}, ¬ Below kids r a → kids a = some cs → c ∈ cs → ¬ Below kids r c := by
    intro a c cs hb hk hc hbc
    have hup := h.down hk hc
    by_cases hcr : c = r
    · rw [hcr, hr] at hup
      exact absurd hup (by simp)
    · obtain ⟨p, hp, hbp⟩ := h.parent_of_below hbc hcr
      rw [hup, some.injEq] at hp
      exact hb (hp ▸ hbp)
  refine ⟨?_, ?_, ?_⟩
  · intro a cs c hk hc
    obtain ⟨hb, hk⟩ := hkids hk
    rw [(hkept c (hchild hb hk hc)).2]
    exact h.down hk hc
  · intro a p hp
    by_cases hb : Below kids r a
    · rw [(hgone a hb).2] at hp
      exact absurd hp (by simp)
    · rw [(hkept a hb).2] at hp
      obtain ⟨cs, hk, hmem⟩ := h.up hp
      exact ⟨cs, by rw [(hkept p (h.not_below_parent hb hp)).1, hk], hmem⟩
  · intro a
    by_cases hb : Below kids r a
    · exact .stop (hgone a hb).2
    · -- the whole chain above a remaining node remains
      induction h.ends a with
      | @stop a hn => exact .stop ((hkept a hb).2.trans hn)
      | @step a p hs _ ih => exact .step ((hkept a hb).2.trans hs) (ih (h.not_below_parent hb hs))

variable [DecidableEq α]

/-- Exchanging a child `old` of `p` for a root `new`: `new` hangs below `p` afterwards and
    `old` is a root.  `p` must not be below `new`. -/
theorem graft {p old new : α}
    (hold : parent old = some p) (hnew : parent new = none) (hp : kids p = some cs)
    (hkids : ∀ a, kids' a = if a = p then some (cs.map fun c => if c = old then new else c)
      else kids a)
    (hup : ∀ a, parent' a = if a = old then none else if a = new then some p else parent a)
    (hfree : ¬ Leads parent p new) : Linked kids' parent' := by
  have hne : new ≠ old := by
    rintro rfl
    rw [hnew] at hold
    exact absurd hold (by simp)
  have hnewCs : new ∉ cs := by
    intro hmem
    have hup := h.down hp hmem
    rw [hnew] at hup
    exact absurd hup (by simp)
  have holdCs : old ∈ cs := by
    obtain ⟨cs', hk, hmem⟩ := h.up hold
    rw [hp, some.injEq] at hk
    exact hk ▸ hmem
  refine ⟨?_, ?_, ?_⟩
  · intro a cs' c hk hc
    rw [hkids] at hk
    by_cases hap : a = p
    · rw [if_pos hap, some.injEq] at hk
      rw [← hk] at hc
      obtain ⟨x, hx, hxc⟩ := List.mem_map.mp hc
      by_cases hxo : x = old
      · rw [if_pos hxo] at hxc
        rw [hup, ← hxc, if_neg hne, if_pos rfl, hap]
      · rw [if_neg hxo] at hxc
        have hcn : c ≠ new := fun heq => hnewCs (heq ▸ hxc ▸ hx)
        rw [hup, if_neg (hxc ▸ hxo), if_neg hcn, hap, ← hxc]
        exact h.down hp hx
    · rw [if_neg hap] at hk
      have hc' := h.down hk hc
      have hco : c ≠ old := by
        rintro rfl
        rw [hold, some.injEq] at hc'
        exact hap hc'.symm
      have hcn : c ≠ new := by
        rintro rfl
        rw [hnew] at hc'
        exact absurd hc' (by simp)
      rw [hup, if_neg hco, if_neg hcn]
      exact hc'
  · intro a q hq
    rw [hup] at hq
    by_cases hao : a = old
    · rw [if_pos hao] at hq
      exact absurd hq (by simp)
    · rw [if_neg hao] at hq
      by_cases han : a = new
      · rw [if_pos han, some.injEq] at hq
        refine ⟨_, by rw [hkids, if_pos hq.symm], ?_⟩
        exact List.mem_map.mpr ⟨old, holdCs, by rw [if_pos rfl, han]⟩
      · rw [if_neg han] at hq
        obtain ⟨cs', hk, hmem⟩ := h.up hq
        by_cases hqp : q = p
        · rw [hqp, hp, some.injEq] at hk
          refine ⟨_, by rw [hkids, if_pos hqp], ?_⟩
          exact List.mem_map.mpr ⟨a, hk ▸ hmem, by rw [if_neg hao]⟩
        · exact ⟨cs', by rw [hkids, if_neg hqp, hk], hmem⟩
  · intro a
    -- first hang `new` below `p`, then cut `old` off
    let mid : α → Option α := fun a => if a = new then some p else parent a
    have hmid : ∀ a, Ends mid a := by
      refine Ends.redirect h.ends (k := new) (l := p) (by simp [mid]) ?_ hfree
      intro x hx
      simp [mid, hx]
    have hcut : ∀ x, x ≠ old → parent' x = mid x := by
      intro x hx
      rw [hup, if_neg hx]
    induction hmid a with
    | @stop a hn =>
      by_cases hao : a = old
      · exact .stop (by simp [hup, hao])
      · exact .stop (by rw [hcut a hao, hn])
    | @step a b hs _ ih =>
      by_cases hao : a = old
      · exact .stop (by simp [hup, hao])
      · exact .step (b := b) (by rw [hcut a hao, hs]) ih

end

end Linked

namespace Forest

variable {kids kids' : α → Option (List α)} {up up' : α → Option (Option α)} {root root' : α → Prop}

theorem congr_root (h : Forest kids up root) (hr : ∀ a, root a ↔ root' a) : Forest kids up root' :=
  ⟨h.dom, h.nodup, h.down, h.parent, fun a => (h.roots a).trans (hr a), h.ends⟩

/-- A child is a node. -/
theorem isSome_of_child (h : Forest kids up root) {a c : α} (hk : kids a = some cs)
    (hc : c ∈ cs) : (kids c).isSome = true := by
  rw [← h.dom, h.down hk hc]
  rfl

theorem linked (h : Forest kids up root) : Linked kids (fun a => (up a).join) where
  down hk hc := join_eq_some_iff.mpr (h.down hk hc)
  up hp := h.parent (join_eq_some_iff.mp hp)
  ends := h.ends

/-- Above a root there is nothing, so only the root itself of its tree is a root. -/
theorem eq_of_below_of_root (h : Forest kids up root) {a : α} (hb : Below kids r a)
    (ha : root a) : a = r := by
  by_contra hne
  obtain ⟨p, hp, _⟩ := h.linked.parent_of_below hb hne
  simp [(h.roots a).mpr ha] at hp

/-- Removing a root with everything below it. -/
theorem prune (h : Forest kids up root) (hr : root r)
    (hgone : ∀ a, Below kids r a → kids' a = none ∧ up' a = none)
    (hkept : ∀ a, ¬ Below kids r a → kids' a = kids a ∧ up' a = up a) :
    Forest kids' up' (fun a => root a ∧ a ≠ r) := by
  have hlinked : Linked kids' (fun a => (up' a).join) := by
    refine h.linked.prune (r := r) ?_ ?_ ?_
    · simp [(h.roots r).mpr hr]
    · intro a hb
      exact ⟨(hgone a hb).1, by simp [(hgone a hb).2]⟩
    · intro a hb
      exact ⟨(hkept a hb).1, by simp [(hkept a hb).2]⟩
  refine ⟨?_, ?_, fun hk hc => join_eq_some_iff.mp (hlinked.down hk hc),
    fun hu => hlinked.up (join_eq_some_iff.mpr hu), ?_, hlinked.ends⟩
  · intro a
    by_cases hb : Below kids r a
    · simp [(hgone a hb).1, (hgone a hb).2]
    · rw [(hkept a hb).1, (hkept a hb).2]
      exact h.dom a
  · intro a cs hk
    by_cases hb : Below kids r a
    · rw [(hgone a hb).1] at hk
      exact absurd hk (by simp)
    · exact h.nodup ((hkept a hb).1 ▸ hk)
  · intro a
    by_cases hb : Below kids r a
    · rw [(hgone a hb).2]
      simp only [reduceCtorEq, false_iff]
      rintro ⟨ha, hne⟩
      exact hne (h.eq_of_below_of_root hb ha)
    · rw [(hkept a hb).2, h.roots]
      refine ⟨fun ha => ⟨ha, ?_⟩, And.left⟩
      rintro rfl
      exact hb .refl

/-- Adding trees: every new node has its parent entry inside the new part, below it in a
    well-founded order, or is one of the new roots. -/
theorem extend (h : Forest kids up root) (fresh : α → Prop) {newRoot : α → Prop}
    (hold : ∀ a, ¬ fresh a → kids' a = kids a ∧ up' a = up a)
    (habsent : ∀ a, fresh a → kids a = none)
    (hdom : ∀ a, fresh a → ((up' a).isSome = true ↔ (kids' a).isSome = true))
    (hnodup : ∀ {a cs}, fresh a → kids' a = some cs → cs.Nodup)
    (hdown : ∀ {a cs c}, fresh a → kids' a = some cs → c ∈ cs → fresh c ∧ up' c = some (some a))
    (hparent : ∀ {a p}, fresh a → up' a = some (some p) →
      fresh p ∧ ∃ cs, kids' p = some cs ∧ a ∈ cs)
    (hroots : ∀ a, fresh a → (up' a = some none ↔ newRoot a)) (hnew : ∀ a, newRoot a → fresh a)
    (hends : ∀ a, fresh a → Ends (fun a => (up' a).join) a) :
    Forest kids' up' (fun a => root a ∨ newRoot a) := by
  have habsent' : ∀ a, fresh a → up a = none := by
    intro a ha
    have hdom' := h.dom a
    rw [habsent a ha] at hdom'
    simpa using hdom'
  -- nothing old points into the new part
  have hupOld : ∀ {a p}, up a = some (some p) → ¬ fresh p := by
    intro a p hu hp
    obtain ⟨cs, hk, _⟩ := h.parent hu
    rw [habsent p hp] at hk
    exact absurd hk (by simp)
  have hdownOld : ∀ {a c cs}, kids a = some cs → c ∈ cs → ¬ fresh c := by
    intro a c cs hk hc hf
    have hu := h.down hk hc
    rw [habsent' c hf] at hu
    exact absurd hu (by simp)
  refine ⟨?_, ?_, ?_, ?_, ?_, ?_⟩
  · intro a
    by_cases ha : fresh a
    · exact hdom a ha
    · rw [(hold a ha).1, (hold a ha).2]
      exact h.dom a
  · intro a cs hk
    by_cases ha : fresh a
    · exact hnodup ha hk
    · exact h.nodup ((hold a ha).1 ▸ hk)
  · intro a cs c hk hc
    by_cases ha : fresh a
    · exact (hdown ha hk hc).2
    · have hk' : kids a = some cs := (hold a ha).1 ▸ hk
      rw [(hold c (hdownOld hk' hc)).2]
      exact h.down hk' hc
  · intro a p hu
    by_cases ha : fresh a
    · exact (hparent ha hu).2
    · have hu' : up a = some (some p) := (hold a ha).2 ▸ hu
      rw [(hold p (hupOld hu')).1]
      exact h.parent hu'
  · intro a
    by_cases ha : fresh a
    · rw [hroots a ha]
      refine ⟨.inr, ?_⟩
      rintro (hr | hn)
      · rw [← h.roots, habsent' a ha] at hr
        exact absurd hr (by simp)
      · exact hn
    · rw [(hold a ha).2, h.roots]
      refine ⟨.inl, ?_⟩
      rintro (hr | hn)
      · exact hr
      · exact absurd (hnew a hn) ha
  · intro a
    by_cases ha : fresh a
    · exact hends a ha
    · induction h.ends a with
      | @stop a hn => exact .stop (by simpa [(hold a ha).2] using hn)
      | @step a p hs _ ih =>
        have hu : up a = some (some p) := join_eq_some_iff.mp hs
        refine .step (b := p) ?_ (ih (hupOld hu))
        simpa [(hold a ha).2] using hs

variable [DecidableEq α]

/-- Exchanging an entry for one that is not in the list keeps the entries distinct. -/
theorem nodup_map_exchange {oldId newId : α} (hnew : newId ∉ cs) :
    (cs.map fun c => if c = oldId then newId else c).Nodup ↔ cs.Nodup := by
  refine ⟨List.Nodup.of_map _, fun hnd => hnd.map_on ?_⟩
  intro x hx y hy hxy
  by_cases hxo : x = oldId <;> by_cases hyo : y = oldId
  · rw [hxo, hyo]
  · rw [if_pos hxo, if_neg hyo] at hxy
    exact absurd (hxy ▸ hy) hnew
  · rw [if_neg hxo, if_pos hyo] at hxy
    exact absurd (hxy ▸ hx) hnew
  · rwa [if_neg hxo, if_neg hyo] at hxy

/-- Exchanging a child `old` of `p` for a root `new`: `new` hangs below `p` afterwards and
    `old` is a root.  `p` must not be below `new`. -/
theorem graft (h : Forest kids up root) {p old new : α}
    (hold : up old = some (some p)) (hnew : root new) (hp : kids p = some cs)
    (hkids : ∀ a, kids' a = if a = p then some (cs.map fun c => if c = old then new else c)
      else kids a)
    (hup : ∀ a, up' a = if a = old then some none else if a = new then some (some p) else up a)
    (hfree : ¬ Leads (fun a => (up a).join) p new) :
    Forest kids' up' (fun a => (root a ∧ a ≠ new) ∨ a = old) := by
  have hne : new ≠ old := by
    rintro rfl
    rw [(h.roots new).mpr hnew] at hold
    exact absurd hold (by simp)
  have hnewCs : new ∉ cs := by
    intro hmem
    have hu := h.down hp hmem
    rw [(h.roots new).mpr hnew] at hu
    exact absurd hu (by simp)
  have hlinked : Linked kids' (fun a => (up' a).join) := by
    refine h.linked.graft (join_eq_some_iff.mpr hold) ?_ hp hkids ?_ hfree
    · simp [(h.roots new).mpr hnew]
    · intro a
      rw [hup]
      by_cases hao : a = old
      · simp [hao]
      · by_cases han : a = new
        · simp [han, hne]
        · simp [hao, han]
  refine ⟨?_, ?_, fun hk hc => join_eq_some_iff.mp (hlinked.down hk hc),
    fun hu => hlinked.up (join_eq_some_iff.mpr hu), ?_, hlinked.ends⟩
  · intro a
    rw [hkids, hup]
    by_cases hao : a = old
    · have hkold : (kids old).isSome = true := by rw [← h.dom, hold]; rfl
      rw [if_pos hao, hao]
      by_cases hop : old = p
      · simp [hop]
      · simp [hop, hkold]
    · rw [if_neg hao]
      by_cases han : a = new
      · have hknew : (kids new).isSome = true := by rw [← h.dom, (h.roots new).mpr hnew]; rfl
        rw [if_pos han, han]
        by_cases hnp : new = p
        · simp [hnp]
        · simp [hnp, hknew]
      · rw [if_neg han]
        by_cases hap : a = p
        · have := (h.dom p).mpr (by rw [hp]; rfl)
          simp [hap, this]
        · rw [if_neg hap]
          exact h.dom a
  · intro a cs' hk
    rw [hkids] at hk
    by_cases hap : a = p
    · rw [if_pos hap, some.injEq] at hk
      rw [← hk]
      exact (nodup_map_exchange hnewCs).mpr (h.nodup hp)
    · rw [if_neg hap] at hk
      exact h.nodup hk
  · intro a
    rw [hup]
    by_cases hao : a = old
    · simp [hao]
    · rw [if_neg hao]
      by_cases han : a = new
      · simp [han, hne]
      · rw [if_neg han, h.roots]
        simp [han, hao]

end Forest

end Caap.Lib
