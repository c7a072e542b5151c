/-
  Caap.Unit.NodeIdentity

  `node_stable_id` of a unit without recorded node ids.  The id of a node is the text of its
  structure followed by the number of earlier nodes with the same text.  Different
  structures may have the same text, since identifiers are not escaped, but the number
  comes last and has no separator in it, so that no two nodes share an id; and a
  renumbering that keeps the order of the nodes with the same text keeps every id.
-/

import Caap.Ir.Readback
import Caap.Unit.Ops

namespace Caap

open Std Lib Bounded ExtTreeMap OrdMap

/-! ## Renumbering -/

/-- The node with other ids. -/
def Node.renumber (f : Nat → Nat) : Node → Node
  | .name id identifier => .name (f id) identifier
  | .literal id value => .literal (f id) value
  | .call id callee args => .call (f id) (f callee) (args.map f)

/-- The graph with other ids. -/
def IRGraph.renumber (g : IRGraph) (f : Nat → Nat) : IRGraph :=
  { rootId := f g.rootId
    nodes := OrdMap.ofEntries (g.nodes.toList.map fun entry => (f entry.1, entry.2.renumber f))
    parents := OrdMap.ofEntries (g.parents.toList.map fun entry => (f entry.1, entry.2.map f))
    sourceSpans := OrdMap.ofEntries (g.sourceSpans.toList.map fun entry => (f entry.1, entry.2))
    internalNodes := OrdSet.ofList (g.internalNodes.keys.map f)
    topLevelForms := g.topLevelForms.map f
    topLevelSet := OrdSet.ofList (g.topLevelForms.map f)
    nextId := f g.nextId }

/-- The unit with other node ids. -/
def CaapUnit.renumber (u : CaapUnit) (f : Nat → Nat) : CaapUnit := { u with ir := u.ir.renumber f }

section Renumber

variable {g : IRGraph} {f : Nat → Nat}

theorem nodup_renumbered_keys (g : IRGraph) (hf : Function.Injective f) :
    ((g.nodes.toList.map fun entry => (f entry.1, entry.2.renumber f)).map Prod.fst).Nodup := by
  have hkeys : (g.nodes.toList.map fun entry => (f entry.1, entry.2.renumber f)).map Prod.fst
      = (g.nodes.toList.map Prod.fst).map f := by
    rw [List.map_map, List.map_map]
    rfl
  rw [hkeys]
  exact (nodup_keys g.nodes).map hf

theorem lookup_renumber (hf : Function.Injective f) (id : Nat) :
    (g.renumber f).nodes[f id]? = (g.nodes[id]?).map (Node.renumber f) := by
  apply Option.ext
  intro node
  show (ofEntries _)[f id]? = some node ↔ _
  rw [lookup_ofEntries (nodup_renumbered_keys g hf), List.mem_map, Option.map_eq_some_iff]
  constructor
  · rintro ⟨⟨a, x⟩, hmem, heq⟩
    rw [Prod.mk.injEq] at heq
    obtain ⟨hid, hnode⟩ := heq
    obtain rfl : a = id := hf hid
    exact ⟨x, mem_toList.mp hmem, hnode⟩
  · rintro ⟨x, hx, hnode⟩
    exact ⟨(id, x), mem_toList.mpr hx, by rw [hnode]⟩

/-- The ids of the renumbered graph, in some order. -/
theorem keys_renumber (hf : Function.Injective f) :
    (g.renumber f).nodes.keys.Perm (g.nodes.keys.map f) := by
  have hnodup : ∀ m : OrdMap Nat Node, m.keys.Nodup := by
    intro m
    have hkeys := nodup_keys m
    rw [map_fst_toList_eq_keys] at hkeys
    exact hkeys
  apply (List.perm_ext_iff_of_nodup (hnodup _) ((hnodup _).map hf)).mpr
  intro a
  rw [mem_keys, List.mem_map, mem_iff_isSome_getElem?, ← not_iff_not,
    Option.not_isSome_iff_eq_none]
  show (ofEntries _)[a]? = none ↔ _
  rw [lookup_ofEntries_none, not_iff_not, List.map_map, List.mem_map]
  constructor
  · rintro ⟨⟨id, x⟩, hmem, rfl⟩
    exact ⟨id, mem_keys.mpr (mem_of_lookup (mem_toList.mp hmem)), rfl⟩
  · rintro ⟨id, hid, rfl⟩
    obtain ⟨x, hx⟩ := mem_iff_exists.mp (mem_keys.mp hid)
    exact ⟨(id, x), mem_toList.mpr hx, rfl⟩

end Renumber

/-! ## Fingerprints -/

namespace CaapUnit

variable {debugF64 : UInt64 → String} {u : CaapUnit}

variable {fuel id : Nat}

/-- The text of a structure has no id in it, and more steps give the same text. -/
theorem nodeStructuralFingerprint_renumber {u' : CaapUnit} {f : Nat → Nat} {fuel' : Nat}
    {text : String}
    (hlookup : ∀ id, u'.ir.nodes[f id]? = (u.ir.nodes[id]?).map (Node.renumber f))
    (hle : fuel ≤ fuel') (h : nodeStructuralFingerprint debugF64 u fuel id = pure text) :
    nodeStructuralFingerprint debugF64 u' fuel' (f id) = pure text := by
  induction fuel generalizing id text fuel' with
  | zero => exact absurd h (by rintro ⟨⟩)
  | succ fuel ih =>
    obtain ⟨fuel', rfl⟩ := Nat.exists_eq_add_one_of_ne_zero (Nat.ne_zero_of_lt hle)
    have hle := Nat.le_of_succ_le_succ hle
    rw [nodeStructuralFingerprint] at h ⊢
    rw [hlookup]
    cases hn : u.ir.nodes[id]? with
    | none =>
      rw [hn] at h
      exact absurd h (by rintro ⟨⟩)
    | some node =>
      rw [hn] at h
      cases node with
      | name i identifier => exact h
      | literal i value => exact h
      | call i callee args =>
        obtain ⟨calleeText, hcallee, h⟩ := bind_eq_pure.mp h
        obtain ⟨argTexts, hargs, h⟩ := bind_eq_pure.mp h
        apply bind_eq_pure.mpr
        refine ⟨calleeText, ih hle hcallee, bind_eq_pure.mpr ⟨argTexts, ?_, h⟩⟩
        apply mapM_eq_pure.mpr
        rw [List.forall₂_map_left_iff]
        exact (mapM_eq_pure.mp hargs).imp fun _ _ => ih hle

theorem nodeStructuralFingerprint_mono {fuel' : Nat} {text : String} (hle : fuel ≤ fuel')
    (h : nodeStructuralFingerprint debugF64 u fuel id = pure text) :
    nodeStructuralFingerprint debugF64 u fuel' id = pure text := by
  have hsame : Node.renumber (fun a => a) = fun node => node := by
    funext node
    cases node <;> simp [Node.renumber]
  exact nodeStructuralFingerprint_renumber (f := fun a => a) (by simp [hsame]) hle h

/-- With more steps than there are nodes below the chain of parents, a node has a text. -/
theorem exists_fingerprint (h : u.ir.Integrity) {above : List Nat}
    (hid : id ∈ u.ir.nodes) (hchain : Chain u.ir.parentOf id above)
    (hfuel : u.ir.nodes.keys.length < fuel + above.length) :
    ∃ text, nodeStructuralFingerprint debugF64 u fuel id = pure text := by
  induction fuel generalizing id above with
  | zero =>
    have hsub : above ⊆ u.ir.nodes.keys := by
      intro a ha
      obtain ⟨p, hp⟩ := Option.isSome_iff_exists.mp (hchain.isSome_of_mem ha)
      obtain ⟨cs, hk, hmem⟩ := h.forest.linked.up hp
      exact mem_keys.mpr (IRGraph.isSome_kids.mp (h.forest.isSome_of_child hk hmem))
    have hlen := (hchain.nodup.subperm hsub).length_le
    omega
  | succ fuel ih =>
    obtain ⟨node, hn⟩ := mem_iff_exists.mp hid
    have hk : u.ir.kids id = some node.children := IRGraph.kids_eq_some.mpr ⟨node, hn, rfl⟩
    have hchild : ∀ c ∈ node.children,
        ∃ text, nodeStructuralFingerprint debugF64 u fuel c = pure text := by
      intro c hc
      have hmem := IRGraph.isSome_kids.mp (h.forest.isSome_of_child hk hc)
      have hup : u.ir.parentOf c = some id := h.forest.linked.down hk hc
      apply ih hmem (Chain.step hup hchain)
      rw [List.length_cons]
      omega
    rw [nodeStructuralFingerprint, hn]
    cases node with
    | name i identifier => exact ⟨_, rfl⟩
    | literal i value => exact ⟨_, rfl⟩
    | call i callee args =>
      obtain ⟨calleeText, hcallee⟩ := hchild callee (List.mem_cons_self ..)
      obtain ⟨argTexts, hargs⟩ : ∃ texts, args.mapM (nodeStructuralFingerprint debugF64 u fuel)
          = pure texts := by
        have hall : ∀ a ∈ args, ∃ text, nodeStructuralFingerprint debugF64 u fuel a = pure text :=
          fun a ha => hchild a (List.mem_cons_of_mem _ ha)
        exact exists_mapM hall
      exact ⟨_, bind_eq_pure.mpr
        ⟨calleeText, hcallee, bind_eq_pure.mpr ⟨argTexts, hargs, rfl⟩⟩⟩

/-! ## Occurrences -/

/-- The number of nodes before `id` with the same text. -/
def occurrences (ids : List Nat) (text : Nat → String) (id : Nat) : Nat :=
  (ids.filter fun a => a < id ∧ text a = text id).length

variable {text : Nat → String}

/-- The loop counts the nodes before `id`, since the candidates come in their order. -/
theorem countOccurrences_eq {occurrence : Nat} {candidates : List Nat}
    (htext : ∀ a ∈ candidates, nodeStructuralFingerprint debugF64 u fuel a = pure (text a))
    (hsorted : candidates.Pairwise (· < ·)) (hid : id ∈ candidates) :
    countOccurrences debugF64 u fuel id (text id) occurrence candidates
      = pure (occurrence + occurrences candidates text id) := by
  induction candidates generalizing occurrence with
  | nil => exact absurd hid List.not_mem_nil
  | cons a rest ih =>
    obtain ⟨hlt, hrest⟩ := List.pairwise_cons.mp hsorted
    rw [countOccurrences]
    by_cases ha : a = id
    · -- what comes after `id` is not counted
      have hnone : occurrences (a :: rest) text id = 0 := by
        rw [occurrences, List.length_eq_zero_iff, List.filter_eq_nil_iff]
        intro b hb hcond
        have hbid : b < id := (of_decide_eq_true hcond).1
        rcases List.mem_cons.mp hb with heq | hmem
        · omega
        · have := hlt b hmem
          omega
      rw [if_pos ha, hnone]
      rfl
    · have hmem : id ∈ rest := (List.mem_cons.mp hid).resolve_left (Ne.symm ha)
      have hbefore : a < id := hlt id hmem
      rw [if_neg ha]
      apply bind_eq_pure.mpr
      refine ⟨text a, htext a (List.mem_cons_self ..), ?_⟩
      rw [ih (fun b hb => htext b (List.mem_cons_of_mem _ hb)) hrest hmem, occurrences, occurrences]
      by_cases heq : text a = text id
      · rw [if_pos heq, List.filter_cons_of_pos (by simp [hbefore, heq]), List.length_cons]
        congr 1
        omega
      · rw [if_neg heq, List.filter_cons_of_neg (by simp [heq])]

theorem sorted_keys (m : OrdMap Nat Node) : m.keys.Pairwise (· < ·) :=
  (ordered_keys (t := m)).imp fun hlt => Std.compare_eq_lt.mp hlt

/-- Of two nodes with the same text the later one has more before it. -/
theorem occurrences_lt {ids : List Nat} {a b : Nat} (ha : a ∈ ids)
    (htext : text a = text b) (hlt : a < b) : occurrences ids text a < occurrences ids text b := by
  have hsub : (ids.filter fun x => x < a ∧ text x = text a).Sublist
      (ids.filter fun x => x < b ∧ text x = text b) := by
    apply List.monotone_filter_right
    intro x hx
    obtain ⟨hxa, htx⟩ := of_decide_eq_true hx
    exact decide_eq_true ⟨by omega, htx.trans htext⟩
  apply Nat.lt_of_le_of_ne hsub.length_le
  intro hlen
  -- `a` itself is before `b` and not before `a`
  have hmem : a ∈ ids.filter fun x => x < b ∧ text x = text b :=
    List.mem_filter.mpr ⟨ha, decide_eq_true ⟨hlt, htext⟩⟩
  rw [← hsub.eq_of_length hlen] at hmem
  have hself := (of_decide_eq_true (List.mem_filter.mp hmem).2).1
  omega

theorem occurrences_renumber {ids ids' : List Nat} {text' : Nat → String} {f : Nat → Nat}
    (hperm : ids'.Perm (ids.map f)) (htext : ∀ a ∈ ids, text' (f a) = text a) (hid : id ∈ ids)
    (horder : ∀ a ∈ ids, ∀ b ∈ ids, text a = text b → a < b → f a < f b) :
    occurrences ids' text' (f id) = occurrences ids text id := by
  rw [occurrences, (hperm.filter _).length_eq, List.filter_map, List.length_map, occurrences]
  congr 1
  apply List.filter_congr
  intro a ha
  rw [Function.comp_apply, decide_eq_decide, htext a ha, htext id hid]
  refine and_congr_left fun heq => ⟨fun hlt => ?_, horder a ha id hid heq⟩
  rcases Nat.lt_trichotomy a id with hless | hsame | hgreater
  · exact hless
  · rw [hsame] at hlt
    omega
  · have := horder id hid a ha heq.symm hgreater
    omega

/-! ## Stable ids -/

/-- The text of a stable id. -/
def stableText (unitId text : String) (occurrence : Nat) : String :=
  "unit:" ++ unitId ++ ":node:" ++ text ++ ":occurrence:" ++ toString occurrence

theorem stableText_ne (unitId text : String) (occurrence : Nat) :
    stableText unitId text occurrence ≠ "" := by
  intro h
  have hlist := congrArg String.toList h
  simp [stableText] at hlist

/-- The stable id of a node with a structure text and an occurrence. -/
def structuralId (unitId text : String) (occurrence : Nat) : StableId :=
  ⟨stableText unitId text occurrence, stableText_ne unitId text occurrence⟩

/-- The part after the last separator and the part before it. -/
theorem append_separator_inj {c : Char} {x y d e : List Char} (hd : c ∉ d) (he : c ∉ e)
    (h : x ++ c :: d = y ++ c :: e) : x = y ∧ d = e := by
  have hlast : ∀ {z w : List Char}, c ∉ z → (z.reverse ++ c :: w).takeWhile (· ≠ c) = z.reverse := by
    intro z w hz
    rw [List.takeWhile_append_of_pos]
    · simp
    · intro a ha
      simp only [ne_eq, decide_not, Bool.not_eq_true', decide_eq_false_iff_not]
      rintro rfl
      exact hz (List.mem_reverse.mp ha)
  have hrev : d.reverse ++ c :: x.reverse = e.reverse ++ c :: y.reverse := by
    have := congrArg List.reverse h
    simpa using this
  have hde : d.reverse = e.reverse := by
    rw [← hlast (w := x.reverse) hd, hrev, hlast he]
  rw [hde] at hrev
  have hxy := List.append_cancel_left hrev
  exact ⟨List.reverse_injective (List.cons.inj hxy).2, List.reverse_injective hde⟩

/-- The text determines the structure text and the occurrence, whatever the identifiers. -/
theorem stableText_inj {unitId text text' : String} {n n' : Nat}
    (h : stableText unitId text n = stableText unitId text' n') : text = text' ∧ n = n' := by
  have hdigits : ∀ m : Nat, ':' ∉ (toString m).toList := by
    intro m hmem
    have hmem' : ':' ∈ Nat.toDigits 10 m := by simpa [Nat.repr] using hmem
    exact absurd (Nat.isDigit_of_mem_toDigits (by omega) (by omega) hmem') (by decide)
  have hsplit : ∀ (t : String) (m : Nat), (stableText unitId t m).toList =
      ("unit:" ++ unitId ++ ":node:" ++ t ++ ":occurrence").toList ++ ':' :: (toString m).toList := by
    simp [stableText]
  have hlist := congrArg String.toList h
  rw [hsplit, hsplit] at hlist
  obtain ⟨hfront, hback⟩ := append_separator_inj (hdigits n) (hdigits n') hlist
  constructor
  · apply String.toList_inj.mp
    simpa using hfront
  · exact Nat.repr_inj.mp (String.toList_inj.mp hback)

/-- No stable id is recorded for a node. -/
def NoNodeIds (u : CaapUnit) : Prop :=
  ∀ id : Nat, u.semantics.stableIds["node:" ++ toString id]? = none

theorem nodeStableId_eq (hnone : u.NoNodeIds)
    (htext : ∀ a ∈ u.ir.nodes, nodeStructuralFingerprint debugF64 u fuel a = pure (text a))
    (hid : id ∈ u.ir.nodes) : nodeStableId debugF64 u fuel id =
      pure (structuralId u.unitId (text id) (occurrences u.ir.nodes.keys text id)) := by
  have hcount : nodeFingerprintOccurrence debugF64 u fuel id (text id)
      = pure (0 + occurrences u.ir.nodes.keys text id) :=
    countOccurrences_eq (fun a ha => htext a (mem_keys.mp ha)) (sorted_keys u.ir.nodes)
      (mem_keys.mpr hid)
  rw [Nat.zero_add] at hcount
  rw [nodeStableId, if_neg (not_not.mpr hid), hnone id]
  apply bind_eq_pure.mpr
  refine ⟨text id, htext id hid, bind_eq_pure.mpr ⟨_, hcount, ?_⟩⟩
  show ofResult (StableId.new (stableText _ _ _)) = _
  rfl

theorem mem_renumber {g : IRGraph} {f : Nat → Nat} (hinj : Function.Injective f) {k : Nat} :
    k ∈ (g.renumber f).nodes ↔ ∃ id ∈ g.nodes, f id = k := by
  rw [← mem_keys, (keys_renumber hinj).mem_iff, List.mem_map]
  simp only [mem_keys]

/-- The ids after a renumbering. -/
theorem nodeStableId_renumber (hnone : u.NoNodeIds)
    (htext : ∀ a ∈ u.ir.nodes, nodeStructuralFingerprint debugF64 u fuel a = pure (text a))
    {f : Nat → Nat} (hinj : Function.Injective f)
    (horder : ∀ a ∈ u.ir.nodes, ∀ b ∈ u.ir.nodes, text a = text b → a < b → f a < f b)
    (hid : id ∈ u.ir.nodes) : nodeStableId debugF64 (u.renumber f) fuel (f id) =
      pure (structuralId u.unitId (text id) (occurrences u.ir.nodes.keys text id)) := by
  -- the text of a new id is that of the id it stands for
  let text' : Nat → String := fun k => text (Function.invFun f k)
  have htext' : ∀ a, text' (f a) = text a := fun a =>
    congrArg text (Function.leftInverse_invFun hinj a)
  have hfingerprint : ∀ k ∈ (u.renumber f).ir.nodes,
      nodeStructuralFingerprint debugF64 (u.renumber f) fuel k = pure (text' k) := by
    intro k hk
    obtain ⟨a, ha, rfl⟩ := (mem_renumber hinj).mp hk
    rw [htext']
    exact nodeStructuralFingerprint_renumber (lookup_renumber hinj) le_rfl (htext a ha)
  have hmem : f id ∈ (u.renumber f).ir.nodes := (mem_renumber hinj).mpr ⟨id, hid, rfl⟩
  have hnone' : (u.renumber f).NoNodeIds := hnone
  have hcount : occurrences (u.renumber f).ir.nodes.keys text' (f id)
      = occurrences u.ir.nodes.keys text id := by
    apply occurrences_renumber (keys_renumber hinj) (fun a _ => htext' a) (mem_keys.mpr hid)
    intro a ha b hb
    exact horder a (mem_keys.mp ha) b (mem_keys.mp hb)
  rw [nodeStableId_eq hnone' hfingerprint hmem, htext', hcount]
  rfl

/-- The ids of the nodes of a unit: every node has one, no two nodes share one, and a
    renumbering that keeps the order of the nodes with the same structure text, such as a
    strictly increasing one, keeps them. -/
theorem nodeStableId_identifies (debugF64 : UInt64 → String) (u : CaapUnit)
    (hvalid : u.ir.validateIntegrity = .ok ()) (hnone : u.NoNodeIds) :
    ∃ (stableId : Nat → StableId) (fuel₀ : Nat), ∀ fuel, fuel₀ ≤ fuel →
      (∀ id ∈ u.ir.nodes, nodeStableId debugF64 u fuel id = pure (stableId id)) ∧
      (∀ a ∈ u.ir.nodes, ∀ b ∈ u.ir.nodes, stableId a = stableId b → a = b) ∧
      (∀ f : Nat → Nat, Function.Injective f → (∀ a ∈ u.ir.nodes, ∀ b ∈ u.ir.nodes,
          nodeStructuralFingerprint debugF64 u fuel a = nodeStructuralFingerprint debugF64 u fuel b →
          a < b → f a < f b) →
        ∀ id ∈ u.ir.nodes, nodeStableId debugF64 (u.renumber f) fuel (f id) = pure (stableId id)) ∧
      (∀ f : Nat → Nat, StrictMono f →
        ∀ id ∈ u.ir.nodes, nodeStableId debugF64 (u.renumber f) fuel (f id) = pure (stableId id)) := by
  have hint := IRGraph.validateIntegrity_eq_ok.mp hvalid
  have hexists : ∀ id ∈ u.ir.nodes, ∃ text,
      nodeStructuralFingerprint debugF64 u (u.ir.nodes.keys.length + 1) id = pure text := by
    intro id hid
    obtain ⟨above, hchain⟩ := Chain.of_ends (hint.forest.ends id)
    exact exists_fingerprint hint hid hchain (by omega)
  let text : Nat → String := fun id =>
    if hid : id ∈ u.ir.nodes then (hexists id hid).choose else ""
  have htext : ∀ fuel, u.ir.nodes.keys.length + 1 ≤ fuel → ∀ id ∈ u.ir.nodes,
      nodeStructuralFingerprint debugF64 u fuel id = pure (text id) := by
    intro fuel hle id hid
    have hchoose := (hexists id hid).choose_spec
    have hid' : text id = (hexists id hid).choose := dif_pos hid
    rw [hid']
    exact nodeStructuralFingerprint_mono hle hchoose
  refine ⟨fun id => structuralId u.unitId (text id) (occurrences u.ir.nodes.keys text id),
    u.ir.nodes.keys.length + 1, fun fuel hle => ?_⟩
  have hrenumber : ∀ f : Nat → Nat, Function.Injective f →
      (∀ a ∈ u.ir.nodes, ∀ b ∈ u.ir.nodes, text a = text b → a < b → f a < f b) →
      ∀ id ∈ u.ir.nodes, nodeStableId debugF64 (u.renumber f) fuel (f id) =
        pure (structuralId u.unitId (text id) (occurrences u.ir.nodes.keys text id)) :=
    fun f hinj horder id hid => nodeStableId_renumber hnone (htext fuel hle) hinj horder hid
  refine ⟨fun id hid => nodeStableId_eq hnone (htext fuel hle) hid, ?_, ?_, ?_⟩
  · intro a ha b hb heq
    obtain ⟨htexts, hoccurrences⟩ := stableText_inj (congrArg StableId.value heq)
    rcases Nat.lt_trichotomy a b with hlt | hsame | hgt
    · have := occurrences_lt (ExtTreeMap.mem_keys.mpr ha) htexts hlt
      omega
    · exact hsame
    · have := occurrences_lt (ExtTreeMap.mem_keys.mpr hb) htexts.symm hgt
      omega
  · intro f hinj horder
    apply hrenumber f hinj
    intro a ha b hb heq
    apply horder a ha b hb
    rw [htext fuel hle a ha, htext fuel hle b hb, heq]
  · intro f hf
    exact hrenumber f hf.injective fun a _ b _ _ hlt => hf hlt

/-- Two top-level forms with the same identifier. -/
def twinForms : List IrGraphOp :=
  [.setNode (.name 0 "x") none, .setNode (.name 1 "x") none, .addTopLevelForm 0, .addTopLevelForm 1]

/-- They have different ids. -/
theorem nodeStableId_identifies_twins : ∃ u, fromGraph "main" (IRGraph.build twinForms) = .ok u ∧
      ∃ (stableId : Nat → StableId) (fuel : Nat),
        nodeStableId (fun _ => "") u fuel 0 = pure (stableId 0) ∧
        nodeStableId (fun _ => "") u fuel 1 = pure (stableId 1) ∧ stableId 0 ≠ stableId 1 := by
  obtain ⟨u, hu, hir, hids⟩ : ∃ u : CaapUnit, fromGraph "main" (IRGraph.build twinForms) = .ok u ∧
      u.ir = IRGraph.build twinForms ∧ u.semantics.stableIds = ∅ := ⟨_, rfl, rfl, rfl⟩
  have hvalid : u.ir.validateIntegrity = .ok () := by
    rw [hir]
    decide
  have h0 : 0 ∈ u.ir.nodes := by
    rw [hir]
    decide
  have h1 : 1 ∈ u.ir.nodes := by
    rw [hir]
    decide
  refine ⟨u, hu, ?_⟩
  obtain ⟨stableId, fuel, h⟩ := nodeStableId_identifies (fun _ => "") u hvalid fun id => by
    rw [hids]
    exact ExtTreeMap.getElem?_empty
  obtain ⟨hids, hinj, -⟩ := h fuel (Nat.le_refl _)
  refine ⟨stableId, fuel, hids 0 h0, hids 1 h1, ?_⟩
  intro heq
  exact absurd (hinj 0 h0 1 h1 heq) (by decide)

end CaapUnit

end Caap
