/-
  Caap.Lib.Layering

  Layers of a dependency graph: the keys that wait for nothing are visited together, each
  takes itself off the counts of the keys after it, and those whose count reaches zero form
  the next layer.  A key is visited in a later layer than every key before it
  (`Layered.lt_of_transGen`), and all keys are visited exactly when the graph is acyclic
  (`layers_spec`, `Layered.acyclic`, `mem_of_acyclic`).
-/

import Caap.Lib.DepGraph

namespace Caap.Lib

open Std Relation List

set_option linter.unusedSectionVars false

universe u

/-- A layer while it is visited: what was visited so far, how many keys each key still
    waits for, the values of the layer and the keys of the next one. -/
structure Layer (κ ν : Type u) [Ord κ] where
  visited : OrdSet κ
  counts : OrdMap κ Nat
  batch : List ν
  next : List κ

namespace DepGraph

variable {κ ν : Type u} {ε : Type*} [Ord κ] [TransOrd κ] [LawfulEqOrd κ] [DecidableEq κ]

/-- `target` waits for one key less. -/
def release (l : Layer κ ν) (target : κ) : Layer κ ν :=
  match l.counts[target]? with
  | none => l
  | some count =>
    { l with
      counts := l.counts.insert target (count - 1)
      next := if count - 1 = 0 then l.next ++ [target] else l.next }

/-- Visit a key, unless it was visited before. -/
def visit (g : DepGraph κ) (values : OrdMap κ ν) (lost : κ → ε) (l : Layer κ ν) (name : κ) :
    Except ε (Layer κ ν) :=
  if name ∈ l.visited then .ok l
  else
    match values[name]? with
    | none => .error (lost name)
    | some v =>
      .ok ((g.targets name).keys.foldl release
        { l with visited := l.visited.insert name (), batch := l.batch ++ [v] })

/-- Visit layer after layer until no key is ready; `arrange` puts a layer in order. -/
def layers (g : DepGraph κ) (values : OrdMap κ ν) (lost : κ → ε) (arrange : List κ → List κ) :
    Nat → OrdSet κ → OrdMap κ Nat → List κ → List (List ν) → Except ε (OrdSet κ × List (List ν))
  | 0, visited, _, _, batches => .ok (visited, batches)
  | _ + 1, visited, _, [], batches => .ok (visited, batches)
  | fuel + 1, visited, counts, name :: ready, batches => do
    let l ← foldOk (visit g values lost) ⟨visited, counts, [], []⟩ (name :: ready)
    layers g values lost arrange fuel l.visited l.counts (arrange l.next)
      (if l.batch.isEmpty then batches else batches ++ [l.batch])

/-! ## One visit -/

/-- The count is the last one. -/
def lastCount (counts : OrdMap κ Nat) (k : κ) : Bool :=
  (counts[k]?).any fun count => count - 1 = 0

theorem release_counts (l : Layer κ ν) (target k : κ) : (release l target).counts[k]?
      = if target = k then (l.counts[k]?).map (· - 1) else l.counts[k]? := by
  rw [release]
  cases ht : l.counts[target]? with
  | none =>
    by_cases hk : target = k
    · rw [if_pos hk, ← hk, ht]
      rfl
    · rw [if_neg hk]
  | some count =>
    show (l.counts.insert target (count - 1))[k]? = _
    rw [OrdMap.lookup_insert]
    by_cases hk : target = k
    · rw [if_pos hk, if_pos hk, ← hk, ht]
      rfl
    · rw [if_neg hk, if_neg hk]

theorem release_next (l : Layer κ ν) (target : κ) :
    (release l target).next = l.next ++ if lastCount l.counts target then [target] else [] := by
  rw [release, lastCount]
  cases ht : l.counts[target]? with
  | none => simp
  | some count =>
    by_cases hc : count - 1 = 0
    · simp [hc]
    · simp [hc]

theorem release_visited (l : Layer κ ν) (target : κ) :
    (release l target).visited = l.visited ∧ (release l target).batch = l.batch := by
  rw [release]
  cases l.counts[target]? with
  | none => exact ⟨rfl, rfl⟩
  | some count => exact ⟨rfl, rfl⟩

/-- The keys after a visited one, each once. -/
theorem foldl_release {targets : List κ} (hnd : targets.Nodup) (l : Layer κ ν) :
    (targets.foldl release l).visited = l.visited ∧ (targets.foldl release l).batch = l.batch ∧
      (targets.foldl release l).next = l.next ++ targets.filter (lastCount l.counts) ∧
      ∀ k : κ, (targets.foldl release l).counts[k]?
        = if k ∈ targets then (l.counts[k]?).map (· - 1) else l.counts[k]? := by
  induction targets generalizing l with
  | nil => simp
  | cons t targets ih =>
    obtain ⟨htnot, hrest⟩ := nodup_cons.mp hnd
    obtain ⟨hvisited, hbatch, hnext, hcounts⟩ := ih hrest (release l t)
    rw [foldl_cons]
    -- the counts of the remaining keys are those before the first one was released
    have hlast : targets.filter (lastCount (release l t).counts)
        = targets.filter (lastCount l.counts) := by
      refine filter_congr fun k hk => ?_
      have hne : t ≠ k := fun heq => htnot (heq ▸ hk)
      rw [lastCount, release_counts, if_neg hne, lastCount]
    refine ⟨hvisited.trans (release_visited l t).1, hbatch.trans (release_visited l t).2, ?_, ?_⟩
    · rw [hnext, hlast, release_next, filter_cons, append_assoc]
      by_cases ht : lastCount l.counts t = true
      · rw [if_pos ht, if_pos ht]
        rfl
      · rw [if_neg ht, if_neg ht]
        rfl
    · intro k
      rw [hcounts k, release_counts]
      by_cases htk : t = k
      · subst htk
        rw [if_neg htnot, if_pos rfl, if_pos (mem_cons_self ..)]
      · rw [if_neg htk]
        by_cases hk : k ∈ targets
        · rw [if_pos hk, if_pos (mem_cons_of_mem _ hk)]
        · rw [if_neg hk, if_neg]
          intro hmem
          rcases mem_cons.mp hmem with heq | hmem
          · exact htk heq.symm
          · exact hk hmem

/-- The keys to do are the unvisited ones that wait for nothing, and the counts are those
    of the unvisited keys. -/
structure Ready (g : DepGraph κ) (visited : OrdSet κ) (counts : OrdMap κ Nat) (todo : List κ) :
    Prop where
  counts : ∀ k ∈ g.outgoing, counts[k]? = some (g.waitsFor visited k).card
  closed : ∀ b ∈ visited, ∀ a, g.Edge a b → a ∈ visited
  nodup : todo.Nodup
  mem : ∀ k, k ∈ todo ↔ k ∈ g.outgoing ∧ k ∉ visited ∧ g.waitsFor visited k = ∅

variable {g : DepGraph κ} {visited : OrdSet κ} {counts : OrdMap κ Nat}

theorem Ready.perm
    {todo todo' : List κ} (h : g.Ready visited counts todo) (hperm : todo'.Perm todo) :
    g.Ready visited counts todo' :=
  { h with
    nodup := hperm.nodup_iff.mpr h.nodup
    mem := fun k => hperm.mem_iff.trans (h.mem k) }

variable {k : κ}

theorem waitsFor_insert (visited : OrdSet κ) {name : κ} :
    g.waitsFor (visited.insert name ()) k = (g.waitsFor visited k).erase name := by
  ext x
  rw [Finset.mem_erase, mem_waitsFor, mem_waitsFor, OrdMap.mem_insert, not_or]
  exact ⟨fun ⟨he, hn, hv⟩ => ⟨hn, he, hv⟩, fun ⟨hn, he, hv⟩ => ⟨he, hn, hv⟩⟩

/-- Visiting a key that waits for nothing. -/
theorem Ready.visit (hg : g.Counted) {l l' : Layer κ ν} {name : κ} {rest : List κ}
    (h : g.Ready l.visited l.counts (name :: rest ++ l.next)) (batch : List ν)
    (hl' : l' = (g.targets name).keys.foldl release
      { l with visited := l.visited.insert name (), batch := batch }) :
    g.Ready l'.visited l'.counts (rest ++ l'.next) := by
  subst hl'
  have hkeys : (g.targets name).keys.Nodup := OrdMap.nodup_keysList _
  obtain ⟨hfold, -, hnext, hcounts⟩ := foldl_release hkeys
    { l with visited := l.visited.insert name (), batch := batch }
  rw [hfold, hnext]
  obtain ⟨hmem, hvisited, hwaits⟩ := (h.mem name).mp (by simp)
  have hmemKeys : ∀ {k : κ}, k ∈ (g.targets name).keys ↔ g.Edge name k := ExtTreeMap.mem_keys
  have hnot : name ∉ rest ++ l.next := (nodup_cons.mp h.nodup).1
  -- `name` is one of the keys that each key after it waits for
  have hwaiting : ∀ {k : κ}, g.Edge name k → name ∈ g.waitsFor l.visited k :=
    fun he => mem_waitsFor.mpr ⟨he, hvisited⟩
  have hcard : ∀ {k : κ}, g.Edge name k →
      (g.waitsFor (l.visited.insert name ()) k).card = (g.waitsFor l.visited k).card - 1 := by
    intro k he
    rw [waitsFor_insert, Finset.card_erase_of_mem (hwaiting he)]
  have hsame : ∀ {k : κ}, ¬ g.Edge name k →
      g.waitsFor (l.visited.insert name ()) k = g.waitsFor l.visited k := by
    intro k he
    rw [waitsFor_insert]
    exact Finset.erase_eq_of_notMem fun hw => he (mem_waitsFor.mp hw).1
  have hlast : ∀ {k : κ}, g.Edge name k →
      (lastCount l.counts k = true ↔ g.waitsFor (l.visited.insert name ()) k = ∅) := by
    intro k he
    rw [lastCount, h.counts k (hg.closed name k he), ← Finset.card_eq_zero, hcard he]
    simp
  refine ⟨?_, ?_, ?_, ?_⟩
  · intro k hk
    rw [hcounts k]
    by_cases he : g.Edge name k
    · rw [if_pos (hmemKeys.mpr he), h.counts k hk, hcard he]
      rfl
    · rw [if_neg (fun hm => he (hmemKeys.mp hm)), h.counts k hk, hsame he]
  · intro b hb a hab
    rw [OrdMap.mem_insert] at hb ⊢
    rcases hb with rfl | hb
    · right
      by_contra hno
      have hin : a ∈ g.waitsFor l.visited b := mem_waitsFor.mpr ⟨hab, hno⟩
      rw [hwaits] at hin
      exact absurd hin (Finset.notMem_empty a)
    · exact .inr (h.closed b hb a hab)
  · rw [← append_assoc, nodup_append]
    refine ⟨(nodup_cons.mp h.nodup).2, hkeys.filter _, ?_⟩
    rintro x hx y hy rfl
    have he : g.Edge name x := hmemKeys.mp (mem_filter.mp hy).1
    have hempty := ((h.mem x).mp (mem_cons_of_mem _ hx)).2.2
    have hin := hwaiting he
    rw [hempty] at hin
    exact absurd hin (Finset.notMem_empty name)
  · intro k
    rw [← append_assoc, mem_append, OrdMap.mem_insert, not_or, mem_filter]
    constructor
    · rintro (hold | ⟨hk, hzero⟩)
      · obtain ⟨hout, hvis, hempty⟩ := (h.mem k).mp (mem_cons_of_mem _ hold)
        refine ⟨hout, ⟨fun heq => hnot (heq ▸ hold), hvis⟩, ?_⟩
        rw [waitsFor_insert, hempty]
        rfl
      · have he : g.Edge name k := hmemKeys.mp hk
        refine ⟨hg.closed name k he, ⟨?_, ?_⟩, (hlast he).mp hzero⟩
        · rintro rfl
          exact hg.irrefl k he
        · exact fun hvis => hvisited (h.closed k hvis name he)
    · rintro ⟨hout, ⟨hne, hvis⟩, hempty⟩
      by_cases he : g.Edge name k
      · exact .inr ⟨hmemKeys.mpr he, (hlast he).mpr hempty⟩
      · rw [hsame he] at hempty
        rcases mem_cons.mp ((h.mem k).mpr ⟨hout, hvis, hempty⟩) with heq | hold
        · exact absurd heq hne
        · exact .inl hold

/-! ## One layer -/

section Values

variable {g : DepGraph κ} {values : OrdMap κ ν} {lost : κ → ε} {key : ν → κ}

/-- A layer visits the keys that were ready, in their order. -/
theorem foldOk_visit (lost : κ → ε) (hg : g.Counted)
    (hvalues : ∀ k ∈ g.outgoing, ∃ v, values[k]? = some v ∧ key v = k) {todo : List κ}
    {l : Layer κ ν} (h : g.Ready l.visited l.counts (todo ++ l.next)) :
    ∃ l', foldOk (g.visit values lost) l todo = .ok l' ∧ g.Ready l'.visited l'.counts l'.next ∧
      (∀ k, k ∈ l'.visited ↔ k ∈ l.visited ∨ k ∈ todo) ∧
      ∃ vs, l'.batch = l.batch ++ vs ∧ vs.map key = todo ∧ ∀ v ∈ vs, values[key v]? = some v := by
  induction todo generalizing l with
  | nil => exact ⟨l, rfl, h, by simp, [], by simp⟩
  | cons name todo ih =>
    obtain ⟨hout, hvis, -⟩ := (h.mem name).mp (by simp)
    obtain ⟨v, hv, hkey⟩ := hvalues name hout
    have hkeys : (g.targets name).keys.Nodup := OrdMap.nodup_keysList _
    obtain ⟨hvisited, hbatch, -, -⟩ := foldl_release hkeys
      { l with visited := l.visited.insert name (), batch := l.batch ++ [v] }
    have hstep : g.visit values lost l name = .ok ((g.targets name).keys.foldl release
        { l with visited := l.visited.insert name (), batch := l.batch ++ [v] }) := by
      rw [DepGraph.visit, if_neg hvis, hv]
    have hready := h.visit hg (l.batch ++ [v]) rfl
    obtain ⟨l', hrun, hready', hmem', vs, hvs, hvsKey, hvsVal⟩ := ih hready
    refine ⟨l', ?_, hready', ?_, v :: vs, ?_, ?_, ?_⟩
    · rw [foldOk_cons, hstep, ok_bind, hrun]
    · intro k
      rw [hmem' k, hvisited, OrdMap.mem_insert, mem_cons]
      tauto
    · rw [hvs, hbatch, append_assoc]
      rfl
    · rw [map_cons, hkey, hvsKey]
    · intro w hw
      rcases mem_cons.mp hw with rfl | hw
      · rw [hkey]
        exact hv
      · exact hvsVal w hw

/-! ## All layers -/

/-- The batches hold the visited keys, each once, and every key before one of batch `i` is
    in an earlier batch. -/
structure Layered (g : DepGraph κ) (key : ν → κ) (visited : OrdSet κ) (batches : List (List ν)) :
    Prop where
  mem : ∀ k, k ∈ visited ↔ k ∈ batches.flatten.map key
  nodup : (batches.flatten.map key).Nodup
  before : ∀ (i : Nat) (batch : List ν), batches[i]? = some batch → ∀ v ∈ batch, ∀ a, g.Edge a (key v) →
    ∃ j < i, ∃ earlier : List ν, batches[j]? = some earlier ∧ a ∈ earlier.map key

theorem layered_nil : g.Layered key ∅ [] where
  mem k := by simp
  nodup := by simp
  before i batch h := by simp at h

variable {batches : List (List ν)}

theorem exists_batch_of_mem (h : k ∈ batches.flatten.map key) :
    ∃ (i : Nat) (batch : List ν), batches[i]? = some batch ∧ k ∈ batch.map key := by
  obtain ⟨v, hv, hkey⟩ := mem_map.mp h
  obtain ⟨batch, hbatch, hv⟩ := mem_flatten.mp hv
  obtain ⟨i, hi⟩ := mem_iff_getElem?.mp hbatch
  exact ⟨i, batch, hi, mem_map.mpr ⟨v, hv, hkey⟩⟩

/-- One more batch: the keys that were ready. -/
theorem Layered.concat {visited' : OrdSet κ} {batch : List ν} (h : g.Layered key visited batches)
    (hready : g.Ready visited counts (batch.map key))
    (hmem : ∀ k, k ∈ visited' ↔ k ∈ visited ∨ k ∈ batch.map key) :
    g.Layered key visited' (batches ++ [batch]) where
  mem k := by
    rw [hmem k, h.mem k, flatten_append, map_append, mem_append]
    simp
  nodup := by
    rw [flatten_append, map_append, nodup_append]
    refine ⟨h.nodup, by simpa using hready.nodup, ?_⟩
    rintro x hx y hy rfl
    have hy' : x ∈ batch.map key := by simpa using hy
    exact ((hready.mem x).mp hy').2.1 ((h.mem x).mpr hx)
  before i b hb v hv a ha := by
    rw [getElem?_append] at hb
    by_cases hi : i < batches.length
    · rw [if_pos hi] at hb
      obtain ⟨j, hj, earlier, hearlier, hmem⟩ := h.before i b hb v hv a ha
      refine ⟨j, hj, earlier, ?_, hmem⟩
      rw [getElem?_append_left (by omega)]
      exact hearlier
    · rw [if_neg hi] at hb
      obtain ⟨hlt, hb⟩ := List.getElem?_eq_some_iff.mp hb
      have hidx : i = batches.length := by
        rw [length_singleton] at hlt
        omega
      subst hidx
      have hbatch : batch = b := by simpa using hb
      subst hbatch
      -- the key waits for nothing, so that `a` was visited
      have hwaits := ((hready.mem (key v)).mp (mem_map.mpr ⟨v, hv, rfl⟩)).2.2
      have hvis : a ∈ visited := by
        by_contra hno
        have hin : a ∈ g.waitsFor visited (key v) := mem_waitsFor.mpr ⟨ha, hno⟩
        rw [hwaits] at hin
        exact absurd hin (Finset.notMem_empty a)
      obtain ⟨j, earlier, hearlier, hmem⟩ := exists_batch_of_mem ((h.mem a).mp hvis)
      have hj : j < batches.length := (List.getElem?_eq_some_iff.mp hearlier).1
      exact ⟨j, hj, earlier, (getElem?_append_left hj).trans hearlier, hmem⟩

/-- What the loop ends with: no unvisited key is ready, and the batches are the layers. -/
structure Exhausted (g : DepGraph κ) (values : OrdMap κ ν) (key : ν → κ) (visited : OrdSet κ)
    (batches : List (List ν)) : Prop extends g.Layered key visited batches where
  known : ∀ k ∈ visited, k ∈ g.outgoing
  stuck : ∀ k ∈ g.outgoing, k ∉ visited → (g.waitsFor visited k).Nonempty
  stored : ∀ v ∈ batches.flatten, values[key v]? = some v

/-- The keys that have not been visited. -/
def unvisited (g : DepGraph κ) (visited : OrdSet κ) : Finset κ :=
  g.nodes.filter fun k => k ∉ visited

theorem card_unvisited_lt {visited' : OrdSet κ} (hk : k ∈ g.outgoing)
    (hout : k ∉ visited) (hin : k ∈ visited') (hsub : ∀ a ∈ visited, a ∈ visited') :
    (g.unvisited visited').card < (g.unvisited visited).card := by
  refine Finset.card_lt_card (Finset.ssubset_iff_of_subset ?_ |>.mpr ⟨k, ?_, ?_⟩)
  · intro a ha
    obtain ⟨hn, hv⟩ := Finset.mem_filter.mp ha
    exact Finset.mem_filter.mpr ⟨hn, fun hmem => hv (hsub a hmem)⟩
  · exact Finset.mem_filter.mpr ⟨mem_nodes.mpr hk, hout⟩
  · exact fun ha => (Finset.mem_filter.mp ha).2 hin

/-- With as much fuel as there are unvisited keys, and one for the empty layer at the end,
    the loop ends with no key ready. -/
theorem layers_spec (hg : g.Counted)
    (hvalues : ∀ k ∈ g.outgoing, ∃ v, values[k]? = some v ∧ key v = k)
    {arrange : List κ → List κ} (harrange : ∀ l : List κ, l.Nodup → (arrange l).Perm l)
    {fuel : Nat} {ready : List κ} (hfuel : (g.unvisited visited).card < fuel)
    (hready : g.Ready visited counts ready) (hlayered : g.Layered key visited batches)
    (hknown : ∀ k ∈ visited, k ∈ g.outgoing)
    (hstored : ∀ v ∈ batches.flatten, values[key v]? = some v) :
    ∃ visited' batches', g.layers values lost arrange fuel visited counts ready batches
        = .ok (visited', batches') ∧ g.Exhausted values key visited' batches' := by
  induction fuel generalizing visited counts ready batches with
  | zero => exact absurd hfuel (Nat.not_lt_zero _)
  | succ fuel ih =>
    cases ready with
    | nil =>
      refine ⟨visited, batches, rfl, { hlayered with
        known := hknown
        stored := hstored
        stuck := ?_ }⟩
      intro k hk hvis
      rw [Finset.nonempty_iff_ne_empty]
      intro hempty
      exact absurd ((hready.mem k).mpr ⟨hk, hvis, hempty⟩) (not_mem_nil)
    | cons name ready =>
      have hstart : g.Ready visited counts ((name :: ready) ++ []) := by
        rw [append_nil]
        exact hready
      obtain ⟨l, hrun, hnext, hmem, vs, hbatch, hkeys, hvals⟩ := foldOk_visit lost hg hvalues
        (l := ⟨visited, counts, [], []⟩) hstart
      rw [nil_append] at hbatch
      have hne : l.batch.isEmpty = false := by
        rw [hbatch, isEmpty_eq_false_iff]
        rintro rfl
        exact absurd hkeys (by simp)
      obtain ⟨hout, hnot, -⟩ := (hready.mem name).mp (mem_cons_self ..)
      have hless : (g.unvisited l.visited).card < (g.unvisited visited).card :=
        card_unvisited_lt hout hnot ((hmem name).mpr (.inr (mem_cons_self ..)))
          fun a ha => (hmem a).mpr (.inl ha)
      have hkeysReady : g.Ready visited counts (l.batch.map key) := by
        rw [hbatch, hkeys]
        exact hready
      have hconcat : g.Layered key l.visited (batches ++ [l.batch]) := by
        refine hlayered.concat hkeysReady ?_
        rw [hbatch, hkeys]
        exact hmem
      have hknown' : ∀ k ∈ l.visited, k ∈ g.outgoing := by
        intro k hk
        rcases (hmem k).mp hk with hk | hk
        · exact hknown k hk
        · exact ((hready.mem k).mp hk).1
      have hstored' : ∀ v ∈ (batches ++ [l.batch]).flatten, values[key v]? = some v := by
        intro v hv
        rw [flatten_append, mem_append] at hv
        rcases hv with hv | hv
        · exact hstored v hv
        · exact hvals v (by simpa [hbatch] using hv)
      obtain ⟨visited', batches', hloop, hfinal⟩ := ih (by omega)
        (hnext.perm (harrange l.next hnext.nodup)) hconcat hknown' hstored'
      refine ⟨visited', batches', ?_, hfinal⟩
      rw [layers, hrun, ok_bind, hne]
      exact hloop

/-! ## Layers and paths -/

/-- Every key on a path to a key of batch `i` is in an earlier batch. -/
theorem Layered.before_of_transGen
    (h : g.Layered key visited batches) {a b : κ} (hpath : TransGen g.Edge a b) {i : Nat}
    {batch : List ν} (hi : batches[i]? = some batch) (hb : b ∈ batch.map key) :
    ∃ j < i, ∃ earlier : List ν, batches[j]? = some earlier ∧ a ∈ earlier.map key := by
  induction hpath generalizing i batch with
  | single hab =>
    obtain ⟨v, hv, rfl⟩ := mem_map.mp hb
    exact h.before i batch hi v hv a hab
  | tail _ hbc ih =>
    obtain ⟨v, hv, rfl⟩ := mem_map.mp hb
    obtain ⟨j, hj, middle, hmiddle, hmem⟩ := h.before i batch hi v hv _ hbc
    obtain ⟨k, hk, earlier, hearlier, ha⟩ := ih hmiddle hmem
    exact ⟨k, by omega, earlier, hearlier, ha⟩

/-- A graph whose keys were all visited is acyclic. -/
theorem Layered.acyclic
    (h : g.Layered key visited batches) (hg : g.Counted) (hall : ∀ k ∈ g.outgoing, k ∈ visited) :
    Acyclic g.Edge := by
  -- a key of a cycle would be in a batch before each batch it is in
  have hnone : ∀ (i : Nat) (batch : List ν) (a : κ), batches[i]? = some batch →
      a ∈ batch.map key → ¬ TransGen g.Edge a a := by
    intro i
    induction i using Nat.strong_induction_on with
    | _ i ih =>
      intro batch a hi ha hcycle
      obtain ⟨j, hj, earlier, hearlier, hmem⟩ := h.before_of_transGen hcycle hi ha
      exact ih j hj earlier a hearlier hmem hcycle
  intro a hcycle
  obtain ⟨b, -, hba⟩ := TransGen.tail'_iff.mp hcycle
  obtain ⟨i, batch, hi, ha⟩ := exists_batch_of_mem ((h.mem a).mp (hall a (hg.closed b a hba)))
  exact hnone i batch a hi ha hcycle

/-- In an acyclic graph every key was visited when no key is ready any more. -/
theorem Exhausted.mem_of_acyclic
    (h : g.Exhausted values key visited batches) (hacyclic : Acyclic g.Edge)
    (hk : k ∈ g.outgoing) : k ∈ visited := by
  by_contra hnot
  -- a first unvisited key would wait for an unvisited one
  obtain ⟨m, ⟨hm, hvis⟩, hfirst⟩ := hacyclic.exists_first
    (g.nodes.finite_toSet.inter_of_left { a | a ∉ visited }) ⟨k, mem_nodes.mpr hk, hnot⟩
  obtain ⟨a, ha⟩ := h.stuck m (mem_nodes.mp hm) hvis
  obtain ⟨hedge, ha⟩ := mem_waitsFor.mp ha
  exact hfirst a ⟨mem_nodes.mpr (mem_of_edge hedge), ha⟩ hedge

/-- A key is in one batch only. -/
theorem Layered.index_unique (h : g.Layered key visited batches) {i j : Nat} {b c : List ν}
    (hi : batches[i]? = some b) (hj : batches[j]? = some c) (hb : k ∈ b.map key)
    (hc : k ∈ c.map key) : i = j := by
  have hnd := h.nodup
  rw [map_flatten, nodup_flatten, pairwise_map] at hnd
  obtain ⟨hilt, hi⟩ := List.getElem?_eq_some_iff.mp hi
  obtain ⟨hjlt, hj⟩ := List.getElem?_eq_some_iff.mp hj
  by_contra hne
  have hpair := pairwise_iff_getElem.mp hnd.2
  rcases Nat.lt_or_gt_of_ne hne with hlt | hlt
  · exact hpair i j hilt hjlt hlt (hi ▸ hb) (hj ▸ hc)
  · exact hpair j i hjlt hilt hlt (hj ▸ hc) (hi ▸ hb)

/-- A path leads to a later batch. -/
theorem Layered.lt_of_transGen
    (h : g.Layered key visited batches) {i j : Nat} {b c : List ν} {x y : κ}
    (hi : batches[i]? = some b) (hj : batches[j]? = some c) (hb : x ∈ b.map key)
    (hc : y ∈ c.map key) (hpath : TransGen g.Edge x y) : i < j := by
  obtain ⟨k, hk, earlier, hearlier, hmem⟩ := h.before_of_transGen hpath hj hc
  have heq : i = k := h.index_unique hi hearlier hb hmem
  omega

end Values

end DepGraph

end Caap.Lib
