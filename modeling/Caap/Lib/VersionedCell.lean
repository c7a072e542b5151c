/-
  Caap.Lib.VersionedCell

  One cell of a versioned store: an append-only list of versioned values and a
  list of retraction tombstones (versions at which the cell was deleted).  The
  value visible at a version is the latest entry at or before it, unless a
  tombstone at or before the version is not older than that entry.

  Two writers act on a cell at the store's current version `now`:

    * `put` appends a value; a tombstone of the same version is popped first, and
      the write is skipped when the last entry already holds an equal value and
      the cell was not retracted in this version;
    * `retract` adds a tombstone when a value is visible.

  `WellFormed now` is the invariant both keep: each list is sorted and nothing in
  it is newer than `now`.  Reads below `now` never see a write made at `now`
  (`visibleAt_put_of_lt`, `visibleAt_retract_of_lt`), and reads at `now` see
  exactly the last write, except for a skipped `put` (`visibleAt_put_now`).
-/

import Caap.Lib.Run

namespace Caap.Lib

open List

variable {α β : Type*}

/-! ## Latest element at or before a version -/

/-- Index of the first element that fails `p` in a list partitioned by `p`. -/
def partitionPoint (p : α → Bool) (l : List α) : Nat := (l.takeWhile p).length

/-- Last element of the prefix of `l` whose versions are at most `v`. -/
def latestAtOrBefore (version : α → Nat) (l : List α) (v : Nat) : Option α :=
  let idx := partitionPoint (fun x => decide (version x ≤ v)) l
  if 0 < idx then l[idx - 1]? else none

theorem latestAtOrBefore_eq_getLast? (version : α → Nat) (l : List α) (v : Nat) :
    latestAtOrBefore version l v = (l.takeWhile (fun x => decide (version x ≤ v))).getLast? := by
  have hpre : l.takeWhile (fun x => decide (version x ≤ v)) <+: l := takeWhile_prefix _
  unfold latestAtOrBefore partitionPoint
  generalize l.takeWhile (fun x => decide (version x ≤ v)) = t at hpre ⊢
  rcases Nat.eq_zero_or_pos t.length with h0 | hpos
  · rw [if_neg (by omega), length_eq_zero_iff.mp h0, getLast?_nil]
  · rw [if_pos hpos, getLast?_eq_getElem?]
    obtain ⟨r, hr⟩ := hpre
    rw [← hr, getElem?_append_left (by omega)]

variable {l : List α} {v : Nat}

/-- When nothing in the list is newer than `v`, the latest element is the last. -/
theorem latestAtOrBefore_of_all_le (version : α → Nat)
    (h : ∀ x ∈ l, version x ≤ v) : latestAtOrBefore version l v = l.getLast? := by
  have hall : l.takeWhile (fun x => decide (version x ≤ v)) = l := by
    rw [takeWhile_eq_self_iff]
    intro x hx
    exact decide_eq_true (h x hx)
  rw [latestAtOrBefore_eq_getLast?, hall]

variable {x : α}

/-- An element newer than `v` at the end of the list is not seen at `v`. -/
theorem latestAtOrBefore_append_of_lt (version : α → Nat) (h : v < version x) :
    latestAtOrBefore version (l ++ [x]) v = latestAtOrBefore version l v := by
  have hx : decide (version x ≤ v) = false := decide_eq_false (by omega)
  have htw : (l ++ [x]).takeWhile (fun y => decide (version y ≤ v))
      = l.takeWhile (fun y => decide (version y ≤ v)) := by
    induction l with
    | nil => simp only [nil_append, takeWhile_cons, hx]; rfl
    | cons y l ih => simp only [cons_append, takeWhile_cons, ih]
  rw [latestAtOrBefore_eq_getLast?, latestAtOrBefore_eq_getLast?, htw]

/-- Dropping a last element newer than `v` is not seen at `v`. -/
theorem latestAtOrBefore_dropLast_of_lt (version : α → Nat)
    (hlast : l.getLast? = some x) (h : v < version x) :
    latestAtOrBefore version l.dropLast v = latestAtOrBefore version l v := by
  have hl : l = l.dropLast ++ [x] := (dropLast_append_getLast? x hlast).symm
  conv_rhs => rw [hl]
  exact (latestAtOrBefore_append_of_lt version h).symm

/-! ## The cell -/

/-- The two histories of one cell. -/
@[ext] structure VersionedCell (α : Type*) where
  entries : List (Nat × α)
  tombs : List Nat

namespace VersionedCell

/-- The value of an entry, unless a tombstone is not older than the entry. -/
def uncovered (tomb : Option Nat) (e : Nat × α) : Option α :=
  match tomb with
  | some r => if e.1 ≤ r then none else some e.2
  | none => some e.2

/-- The value visible at version `v`. -/
def visibleAt (c : VersionedCell α) (v : Nat) : Option α :=
  (latestAtOrBefore Prod.fst c.entries v).bind (uncovered (latestAtOrBefore id c.tombs v))

/-- The newest tombstone was set at version `now`. -/
def retractedNow (c : VersionedCell α) (now : Nat) : Bool := c.tombs.getLast? == some now

/-- The write is skipped: not retracted in this version, and the last entry holds
    a value equal to `v`. -/
def skipsPut [BEq α] (c : VersionedCell α) (now : Nat) (v : α) : Bool :=
  !c.retractedNow now && c.entries.getLast?.any (fun e => e.2 == v)

/-- Write `v` at version `now`; the flag says whether anything was written. -/
def put [BEq α] (c : VersionedCell α) (now : Nat) (v : α) : Bool × VersionedCell α :=
  if c.skipsPut now v then (false, c)
  else (true,
    { entries := c.entries ++ [(now, v)]
      tombs := if c.retractedNow now then c.tombs.dropLast else c.tombs })

/-- Delete the cell at version `now`; the flag says whether a value was visible. -/
def retract (c : VersionedCell α) (now : Nat) : Bool × VersionedCell α :=
  if (c.visibleAt now).isNone then (false, c)
  else (true, { c with tombs := if c.retractedNow now then c.tombs else c.tombs ++ [now] })

/-- Both histories are sorted by version and hold nothing newer than `now`;
    tombstones are distinct. -/
structure WellFormed (now : Nat) (c : VersionedCell α) : Prop where
  entries_sorted : c.entries.Pairwise (fun a b => a.1 ≤ b.1)
  entries_le : ∀ e ∈ c.entries, e.1 ≤ now
  tombs_sorted : c.tombs.Pairwise (· < ·)
  tombs_le : ∀ r ∈ c.tombs, r ≤ now

/-- The untouched cell. -/
def empty : VersionedCell α := { entries := [], tombs := [] }

theorem wellFormed_empty (now : Nat) : (empty : VersionedCell α).WellFormed now :=
  ⟨List.Pairwise.nil, fun _ h => (not_mem_nil h).elim, List.Pairwise.nil,
    fun _ h => (not_mem_nil h).elim⟩

theorem uncovered_eq_some {tomb : Option Nat} {e : Nat × α} :
    uncovered tomb e = some x ↔ e.2 = x ∧ ∀ r, tomb = some r → r < e.1 := by
  unfold uncovered
  cases tomb with
  | none => simp
  | some r =>
    by_cases hle : e.1 ≤ r
    · simp [hle]
    · simp [hle, Nat.lt_of_not_le hle]

theorem uncovered_eq_none {tomb : Option Nat} {e : Nat × α} :
    uncovered tomb e = none ↔ ∃ r, tomb = some r ∧ e.1 ≤ r := by
  unfold uncovered
  cases tomb with
  | none => simp
  | some r => simp

theorem exists_entry_of_visibleAt {c : VersionedCell α} {v : Nat} (h : c.visibleAt v = some x) :
    ∃ n, (n, x) ∈ c.entries := by
  obtain ⟨e, he, hx⟩ := Option.bind_eq_some_iff.mp h
  obtain ⟨rfl, -⟩ := uncovered_eq_some.mp hx
  rw [latestAtOrBefore_eq_getLast?] at he
  exact ⟨e.1, ( takeWhile_prefix _).subset (mem_of_getLast? he)⟩

@[simp] theorem visibleAt_empty (v : Nat) : (empty : VersionedCell α).visibleAt v = none := rfl

namespace WellFormed

variable {now : Nat} {c : VersionedCell α}

theorem mono {later : Nat} (h : c.WellFormed now) (hle : now ≤ later) : c.WellFormed later :=
  ⟨h.entries_sorted, fun e he => (h.entries_le e he).trans hle,
    h.tombs_sorted, fun r hr => (h.tombs_le r hr).trans hle⟩

/-- Reading at `now` compares the two last elements. -/
theorem visibleAt_now (h : c.WellFormed now) :
    c.visibleAt now = c.entries.getLast?.bind (uncovered c.tombs.getLast?) := by
  have he := latestAtOrBefore_of_all_le Prod.fst h.entries_le
  have ht := latestAtOrBefore_of_all_le id h.tombs_le
  simp only [visibleAt, he, ht]

/-- Reading above `now` is reading at `now`. -/
theorem visibleAt_of_le (h : c.WellFormed now) (hle : now ≤ v) :
    c.visibleAt v = c.visibleAt now := by
  rw [(h.mono hle).visibleAt_now, h.visibleAt_now]

/-- With the last tombstone popped, the remaining ones are older than it. -/
theorem tombs_dropLast_lt {r : Nat} (h : c.WellFormed now) (hlast : c.tombs.getLast? = some r) :
    ∀ x ∈ c.tombs.dropLast, x < r := by
  have hl : c.tombs.dropLast ++ [r] = c.tombs := dropLast_append_getLast? r hlast
  have hs := h.tombs_sorted
  rw [← hl, pairwise_append] at hs
  exact fun x hx => hs.2.2 x hx r (mem_singleton_self r)

end WellFormed

theorem retractedNow_iff {c : VersionedCell α} {now : Nat} :
    c.retractedNow now = true ↔ c.tombs.getLast? = some now := by
  simp only [retractedNow, beq_iff_eq]

/-! ## Writing a value -/

section Put

variable [BEq α] {now : Nat} {c : VersionedCell α} {v : α}

theorem put_of_skips (h : c.skipsPut now v = true) : c.put now v = (false, c) := by
  simp only [put, h, if_true]

theorem put_of_not_skips (h : c.skipsPut now v = false) : c.put now v = (true,
      { entries := c.entries ++ [(now, v)]
        tombs := if c.retractedNow now then c.tombs.dropLast else c.tombs }) := by
  simp only [put, h]
  rfl

theorem WellFormed.put (h : c.WellFormed now) (v : α) : (c.put now v).2.WellFormed now := by
  cases hs : c.skipsPut now v with
  | true => rw [put_of_skips hs]; exact h
  | false =>
    rw [put_of_not_skips hs]
    refine ⟨?_, ?_, ?_, ?_⟩
    · rw [pairwise_append]
      refine ⟨h.entries_sorted, pairwise_singleton _ _, ?_⟩
      intro a ha b hb
      rw [mem_singleton.mp hb]
      exact h.entries_le a ha
    · intro e he
      rcases mem_append.mp he with he | he
      · exact h.entries_le e he
      · rw [mem_singleton.mp he]
    · show (if c.retractedNow now then c.tombs.dropLast else c.tombs).Pairwise (· < ·)
      split
      · exact h.tombs_sorted.sublist (dropLast_sublist _)
      · exact h.tombs_sorted
    · show ∀ r ∈ (if c.retractedNow now then c.tombs.dropLast else c.tombs), r ≤ now
      split
      · exact fun r hr => h.tombs_le r (mem_of_mem_dropLast hr)
      · exact h.tombs_le

/-- A write that is not skipped is what the current version reads. -/
theorem visibleAt_put_now (h : c.WellFormed now) (hs : c.skipsPut now v = false) :
    (c.put now v).2.visibleAt now = some v := by
  rw [(h.put v).visibleAt_now, put_of_not_skips hs]
  simp only [getLast?_append, getLast?_singleton, Option.some_or, Option.bind_some]
  rw [uncovered_eq_some]
  refine ⟨rfl, ?_⟩
  intro r hlast
  cases hr : c.retractedNow now with
  | true =>
    -- the popped tombstone was the only one as new as `now`
    rw [hr, if_pos rfl] at hlast
    exact h.tombs_dropLast_lt (retractedNow_iff.mp hr) r (mem_of_getLast? hlast)
  | false =>
    rw [hr, if_neg Bool.false_ne_true] at hlast
    have hle := h.tombs_le r (mem_of_getLast? hlast)
    have hne : r ≠ now := by
      intro heq
      rw [retractedNow, hlast, heq, beq_self_eq_true] at hr
      exact Bool.noConfusion hr
    show r < now
    omega

/-- No version below `now` sees a write made at `now`. -/
theorem visibleAt_put_of_lt {u : Nat} (hlt : u < now) :
    (c.put now v).2.visibleAt u = c.visibleAt u := by
  cases hs : c.skipsPut now v with
  | true => rw [put_of_skips hs]
  | false =>
    rw [put_of_not_skips hs]
    simp only [visibleAt]
    rw [latestAtOrBefore_append_of_lt Prod.fst (x := (now, v)) hlt]
    cases hr : c.retractedNow now with
    | true =>
      have hlast := retractedNow_iff.mp hr
      simp only [if_true]
      rw [latestAtOrBefore_dropLast_of_lt id hlast hlt]
    | false => simp only [Bool.false_eq_true, if_false]

end Put

/-! ## Retracting -/

section Retract

variable {now : Nat} {c : VersionedCell α}

/-- A cell with a visible value carries no tombstone of the current version. -/
theorem WellFormed.not_retractedNow (h : c.WellFormed now)
    (hv : c.visibleAt now = some x) : c.retractedNow now = false := by
  cases hr : c.retractedNow now with
  | false => rfl
  | true =>
    rw [h.visibleAt_now, retractedNow_iff.mp hr] at hv
    cases he : c.entries.getLast? with
    | none => rw [he] at hv; exact absurd hv (by simp)
    | some e =>
      have hle := h.entries_le e (mem_of_getLast? he)
      rw [he, Option.bind_some, uncovered_eq_none.mpr ⟨now, rfl, hle⟩] at hv
      exact absurd hv (by simp)

theorem retract_of_none (hv : c.visibleAt now = none) : c.retract now = (false, c) := by
  simp only [retract, hv, Option.isNone_none, if_true]

theorem WellFormed.retract_of_some (h : c.WellFormed now) (hv : c.visibleAt now = some x) :
    c.retract now = (true, { c with tombs := c.tombs ++ [now] }) := by
  simp only [retract, hv, Option.isNone_some, h.not_retractedNow hv, Bool.false_eq_true, if_false]

theorem WellFormed.retract (h : c.WellFormed now) : (c.retract now).2.WellFormed now := by
  cases hv : c.visibleAt now with
  | none => rw [retract_of_none hv]; exact h
  | some x =>
    have hnr := h.not_retractedNow hv
    rw [h.retract_of_some hv]
    refine ⟨h.entries_sorted, h.entries_le, ?_, ?_⟩
    · rw [pairwise_append]
      refine ⟨h.tombs_sorted, pairwise_singleton _ _, ?_⟩
      intro a ha b hb
      rw [mem_singleton.mp hb]
      -- `now` is not the last tombstone, and a sorted list has its maximum last
      have hle := h.tombs_le a ha
      rcases Nat.lt_or_ge a now with hlt | hge
      · exact hlt
      · have han : a = now := by omega
        subst han
        obtain ⟨l, r, hlr⟩ := append_of_mem ha
        have hs := h.tombs_sorted
        cases r with
        | nil =>
          rw [retractedNow, hlr, getLast?_append, getLast?_singleton] at hnr
          simp at hnr
        | cons b r =>
          rw [hlr, pairwise_append, pairwise_cons] at hs
          have hab := hs.2.1.1 b (mem_cons_self ..)
          have hb := h.tombs_le b (by rw [hlr]; simp)
          omega
    · intro r hr
      rcases mem_append.mp hr with hr | hr
      · exact h.tombs_le r hr
      · rw [mem_singleton.mp hr]

/-- After a retraction nothing is visible at the current version. -/
theorem WellFormed.visibleAt_retract_now (h : c.WellFormed now) :
    (c.retract now).2.visibleAt now = none := by
  cases hv : c.visibleAt now with
  | none => rw [retract_of_none hv]; exact hv
  | some x =>
    rw [h.retract.visibleAt_now, h.retract_of_some hv]
    simp only [getLast?_append, getLast?_singleton, Option.some_or]
    cases he : c.entries.getLast? with
    | none => rfl
    | some e =>
      have hle := h.entries_le e (mem_of_getLast? he)
      exact uncovered_eq_none.mpr ⟨now, rfl, hle⟩

/-- No version below `now` sees a retraction made at `now`. -/
theorem WellFormed.visibleAt_retract_of_lt {u : Nat} (h : c.WellFormed now) (hlt : u < now) :
    (c.retract now).2.visibleAt u = c.visibleAt u := by
  cases hv : c.visibleAt now with
  | none => rw [retract_of_none hv]
  | some x =>
    rw [h.retract_of_some hv]
    simp only [visibleAt]
    rw [latestAtOrBefore_append_of_lt id (x := now) hlt]

end Retract

end VersionedCell

end Caap.Lib
