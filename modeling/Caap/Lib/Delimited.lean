/-
  Caap.Lib.Delimited

  Texts that end where a stop symbol begins.  Two such texts that are followed by a stop
  symbol or by nothing are equal when the whole is (`append_cancel_of_stop`), and lists of
  them that are joined with a separator and closed with a bracket can be told apart
  (`joined_cancel`).  Lists of values and of their texts are related element by element.
-/

import Caap.Lib.Run

namespace Caap.Lib

open List

variable {α : Type*} {stop : α → Prop}

/-- Nothing, or a stop symbol first. -/
def AtStop (stop : α → Prop) (rest : List α) : Prop := ∀ a ∈ rest.head?, stop a

theorem atStop_nil : AtStop stop [] := by simp [AtStop]

theorem atStop_cons {a : α} {rest : List α} : AtStop stop (a :: rest) ↔ stop a := by simp [AtStop]

/-- Texts without a stop symbol. -/
theorem append_cancel_of_stop {t t' rest rest' : List α} (ht : ∀ a ∈ t, ¬ stop a)
    (ht' : ∀ a ∈ t', ¬ stop a) (hrest : AtStop stop rest) (hrest' : AtStop stop rest')
    (h : t ++ rest = t' ++ rest') : t = t' ∧ rest = rest' := by
  induction t generalizing t' with
  | nil =>
    cases t' with
    | nil => exact ⟨rfl, h⟩
    | cons b t' =>
      rw [nil_append, cons_append] at h
      rw [h, atStop_cons] at hrest
      exact absurd hrest (ht' b (mem_cons_self ..))
  | cons a t ih =>
    cases t' with
    | nil =>
      rw [nil_append, cons_append] at h
      rw [← h, atStop_cons] at hrest'
      exact absurd hrest' (ht a (mem_cons_self ..))
    | cons b t' =>
      obtain ⟨rfl, htail⟩ := cons.inj h
      obtain ⟨rfl, hrests⟩ := ih (fun x hx => ht x (mem_cons_of_mem _ hx))
        (fun x hx => ht' x (mem_cons_of_mem _ hx)) htail
      exact ⟨rfl, hrests⟩

/-- `t` and `t'` end at the same place wherever they stand before a stop symbol. -/
def Delimits (stop : α → Prop) (t t' : List α) : Prop :=
  ∀ rest rest', AtStop stop rest → AtStop stop rest' → t ++ rest = t' ++ rest' →
    t = t' ∧ rest = rest'

/-- The text has a first symbol, which is no stop symbol. -/
def Begins (stop : α → Prop) (t : List α) : Prop := ∃ a ∈ t.head?, ¬ stop a

/-- A text that begins is not a stop symbol with something after it. -/
theorem Begins.ne_stop {t rest rest' : List α} {a : α} (h : Begins stop t) (ha : stop a) :
    t ++ rest ≠ a :: rest' := by
  obtain ⟨b, hb, hstop⟩ := h
  cases t with
  | nil => simp at hb
  | cons c t =>
    intro heq
    obtain ⟨rfl, -⟩ := cons.inj heq
    rw [head?_cons, Option.mem_some_iff] at hb
    exact hstop (hb ▸ ha)

/-- A joined list is its first text, and each other one after a separator. -/
theorem intercalate_cons_eq (sep : α) (t : List α) (ts : List (List α)) :
    [sep].intercalate (t :: ts) = t ++ ts.flatMap (sep :: ·) := by
  induction ts generalizing t with
  | nil => simp
  | cons u ts ih =>
    rw [intercalate_cons_cons, ih u, flatMap_cons]
    simp

section Joined

variable {sep close : α}

/-- What follows a text of a closed list is the separator or the bracket. -/
theorem atStop_separated (hsep : stop sep) (hclose : stop close) (ts : List (List α))
    (rest : List α) : AtStop stop (ts.flatMap (sep :: ·) ++ close :: rest) := by
  cases ts with
  | nil => exact atStop_cons.mpr hclose
  | cons t ts => exact atStop_cons.mpr hsep

/-- The texts after the first one. -/
theorem separated_cancel (hne : sep ≠ close) (hsep : stop sep) (hclose : stop close)
    {ts ts' : List (List α)} (hdelim : ∀ t ∈ ts, ∀ t' ∈ ts', Delimits stop t t')
    {rest rest' : List α}
    (h : ts.flatMap (sep :: ·) ++ close :: rest = ts'.flatMap (sep :: ·) ++ close :: rest') :
    ts = ts' ∧ rest = rest' := by
  induction ts generalizing ts' with
  | nil =>
    cases ts' with
    | nil => exact ⟨rfl, (cons.inj h).2⟩
    | cons t' ts' => exact absurd (cons.inj h).1.symm hne
  | cons t ts ih =>
    cases ts' with
    | nil => exact absurd (cons.inj h).1 hne
    | cons t' ts' =>
      rw [flatMap_cons, flatMap_cons, append_assoc, append_assoc] at h
      have htail := (cons.inj h).2
      obtain ⟨rfl, hafter⟩ := hdelim t (mem_cons_self ..) t' (mem_cons_self ..) _ _
        (atStop_separated hsep hclose ts rest) (atStop_separated hsep hclose ts' rest') htail
      obtain ⟨rfl, hrest⟩ := ih
        (fun u hu u' hu' => hdelim u (mem_cons_of_mem _ hu) u' (mem_cons_of_mem _ hu'))
        hafter
      exact ⟨rfl, hrest⟩

/-- Lists of texts, joined and closed. -/
theorem joined_cancel (hne : sep ≠ close) (hsep : stop sep) (hclose : stop close)
    {ts ts' : List (List α)} (hdelim : ∀ t ∈ ts, ∀ t' ∈ ts', Delimits stop t t')
    (hbegins : ∀ t ∈ ts, Begins stop t) (hbegins' : ∀ t ∈ ts', Begins stop t) {rest rest' : List α}
    (h : [sep].intercalate ts ++ close :: rest = [sep].intercalate ts' ++ close :: rest') :
    ts = ts' ∧ rest = rest' := by
  cases ts with
  | nil =>
    cases ts' with
    | nil => exact ⟨rfl, (cons.inj h).2⟩
    | cons t' ts' =>
      rw [intercalate_cons_eq, append_assoc] at h
      exact absurd h.symm ((hbegins' t' (mem_cons_self ..)).ne_stop hclose)
  | cons t ts =>
    cases ts' with
    | nil =>
      rw [intercalate_cons_eq, append_assoc] at h
      exact absurd h ((hbegins t (mem_cons_self ..)).ne_stop hclose)
    | cons t' ts' =>
      rw [intercalate_cons_eq, intercalate_cons_eq] at h
      -- with a separator in front, the first text is like the others
      refine separated_cancel hne hsep hclose hdelim ?_
      exact congrArg (sep :: ·) h

end Joined

/-! ## Lists related element by element -/

section Related

variable {β γ : Type*} {R : α → γ → Prop} {S : β → γ → Prop}

theorem exists_of_forall₂_left {l : List α} {m : List γ} (h : List.Forall₂ R l m) {a : α}
    (ha : a ∈ l) : ∃ c ∈ m, R a c := by
  induction h with
  | nil => exact absurd ha not_mem_nil
  | cons hac _ ih =>
    rcases mem_cons.mp ha with rfl | hmem
    · exact ⟨_, mem_cons_self .., hac⟩
    · obtain ⟨c, hc, hrel⟩ := ih hmem
      exact ⟨c, mem_cons_of_mem _ hc, hrel⟩

theorem exists_of_forall₂_right {l : List α} {m : List γ} (h : List.Forall₂ R l m) {c : γ}
    (hc : c ∈ m) : ∃ a ∈ l, R a c :=
  exists_of_forall₂_left (R := flip R) h.flip hc

/-- Two lists related to the same one. -/
theorem forall₂_of_common {Q : α → β → Prop} {l : List α} {l' : List β} {m : List γ}
    (h : List.Forall₂ R l m) (h' : List.Forall₂ S l' m)
    (hQ : ∀ a ∈ l, ∀ b ∈ l', ∀ c, R a c → S b c → Q a b) : List.Forall₂ Q l l' := by
  induction h generalizing l' with
  | nil =>
    cases h'
    exact .nil
  | cons hac _ ih =>
    cases h' with
    | cons hbc hrest =>
      refine .cons (hQ _ (mem_cons_self ..) _ (mem_cons_self ..) _ hac hbc)
        (ih hrest fun a ha b hb => ?_)
      exact hQ a (mem_cons_of_mem _ ha) b (mem_cons_of_mem _ hb)

/-- Lists with the same images, where equal images come from equal elements. -/
theorem eq_of_map_eq {f : α → γ} {l l' : List α} (h : l.map f = l'.map f)
    (hinj : ∀ a ∈ l, ∀ b ∈ l', f a = f b → a = b) : l = l' := by
  have himages (l : List α) : List.Forall₂ (fun a c => f a = c) l (l.map f) :=
    forall₂_map_right_iff.mpr (forall₂_same.mpr fun _ _ => rfl)
  have hequal : List.Forall₂ Eq l l' := by
    refine forall₂_of_common (himages l) (h ▸ himages l') fun a ha b hb c hac hbc => ?_
    exact hinj a ha b hb (hac.trans hbc.symm)
  rwa [forall₂_eq_eq_eq] at hequal

end Related

/-- The entry of a key in a list that holds every key once. -/
theorem lookup_of_mem {κ ν : Type*} [DecidableEq κ] {l : List (κ × ν)}
    (hnodup : (l.map Prod.fst).Nodup) {e : κ × ν} (he : e ∈ l) : l.lookup e.1 = some e.2 := by
  induction l with
  | nil => exact absurd he not_mem_nil
  | cons d l ih =>
    obtain ⟨hfresh, hrest⟩ := nodup_cons.mp hnodup
    rcases mem_cons.mp he with rfl | hmem
    · simp [lookup]
    · have hne : e.1 ≠ d.1 := by
        intro heq
        exact hfresh (heq ▸ mem_map_of_mem hmem)
      rw [lookup_cons, beq_eq_false_iff_ne.mpr hne]
      exact ih hrest hmem

end Caap.Lib
