/-
  Caap.Lib.Positional

  Little-endian positional notation to an arbitrary base, with integer digits: the value of
  a list of digits, how it changes with each operation that digit loops are made of (append,
  take one more, drop, overwrite), its bounds, and the normal form without leading zeros, in
  which a number has one representation.
-/

import Mathlib.Data.List.GetD
import Mathlib.Tactic

namespace Caap.Lib.Positional

open List

variable {b : Int} {ds es : List Int}

/-- The number that a list of digits stands for, the least significant digit first. -/
def value (b : Int) : List Int → Int
  | [] => 0
  | d :: ds => d + b * value b ds

/-- Every element is a digit of the base. -/
def Digits (b : Int) (ds : List Int) : Prop :=
  ∀ d ∈ ds, 0 ≤ d ∧ d < b

/-- No leading zero: the last element, if there is one, is not zero. -/
def Trimmed (ds : List Int) : Prop :=
  ds.getLast? ≠ some 0

/-! ## The value under the list operations -/

@[simp] theorem value_nil : value b [] = 0 := rfl

@[simp] theorem value_cons (d : Int) : value b (d :: ds) = d + b * value b ds := rfl

theorem value_append (ds es : List Int) :
    value b (ds ++ es) = value b ds + b ^ ds.length * value b es := by
  induction ds with
  | nil => simp
  | cons d ds ih =>
    rw [cons_append, value_cons, value_cons, ih, length_cons, pow_succ]
    ring

theorem value_concat (ds : List Int) (d : Int) :
    value b (ds ++ [d]) = value b ds + b ^ ds.length * d := by
  simp [value_append]

@[simp] theorem value_replicate_zero (n : Nat) : value b (replicate n 0) = 0 := by
  induction n with
  | zero => rfl
  | succ n ih => simp [replicate_succ, ih]

/-- The largest number of so many digits. -/
theorem value_replicate_pred (n : Nat) : value b (replicate n (b - 1)) = b ^ n - 1 := by
  induction n with
  | zero => simp
  | succ n ih =>
    rw [replicate_succ, value_cons, ih, pow_succ]
    ring

/-- A digit past the end reads as zero, so this holds at every index. -/
theorem value_take_succ (ds : List Int) (i : Nat) :
    value b (ds.take (i + 1)) = value b (ds.take i) + b ^ i * ds.getD i 0 := by
  induction ds generalizing i with
  | nil => simp
  | cons d ds ih =>
    cases i with
    | zero => simp
    | succ i =>
      rw [take_succ_cons, value_cons, ih, take_succ_cons, value_cons,
        getD_cons_succ, pow_succ]
      ring

theorem value_drop (ds : List Int) (i : Nat) :
    value b (ds.drop i) = ds.getD i 0 + b * value b (ds.drop (i + 1)) := by
  induction ds generalizing i with
  | nil => simp
  | cons d ds ih =>
    cases i with
    | zero => simp
    | succ i => simpa using ih i

theorem value_take_add_drop (ds : List Int) (i : Nat) :
    value b ds = value b (ds.take i) + b ^ i * value b (ds.drop i) := by
  induction ds generalizing i with
  | nil => simp
  | cons d ds ih =>
    cases i with
    | zero => simp
    | succ i =>
      rw [take_succ_cons, drop_succ_cons, value_cons, value_cons, ih i, pow_succ]
      ring

theorem value_set (ds : List Int) (i : Nat) (d : Int) (hi : i < ds.length) :
    value b (ds.set i d) = value b ds + b ^ i * (d - ds.getD i 0) := by
  induction ds generalizing i with
  | nil => exact absurd hi (Nat.not_lt_zero i)
  | cons e ds ih =>
    cases i with
    | zero =>
      simp only [set_cons_zero, value_cons, pow_zero, getD_cons_zero]
      ring
    | succ i =>
      have hi' : i < ds.length := by
        simpa using hi
      rw [set_cons_succ, value_cons, value_cons, ih i hi', getD_cons_succ, pow_succ]
      ring

/-! ## Digits -/

theorem Digits.nil : Digits b [] := fun _ h => nomatch h

theorem Digits.of_cons {d : Int} (h : Digits b (d :: ds)) : (0 ≤ d ∧ d < b) ∧ Digits b ds :=
  forall_mem_cons.mp h

theorem Digits.concat (h : Digits b ds) {d : Int} (h0 : 0 ≤ d) (h1 : d < b) :
    Digits b (ds ++ [d]) := by
  intro e he
  rcases mem_append.mp he with he | he
  · exact h e he
  · rw [mem_singleton.mp he]
    exact ⟨h0, h1⟩

theorem Digits.take (h : Digits b ds) (n : Nat) : Digits b (ds.take n) :=
  fun d hd => h d (mem_of_mem_take hd)

theorem Digits.drop (h : Digits b ds) (n : Nat) : Digits b (ds.drop n) :=
  fun d hd => h d (mem_of_mem_drop hd)

theorem Digits.reverse (h : Digits b ds) : Digits b ds.reverse :=
  fun d hd => h d (mem_reverse.mp hd)

theorem Digits.set (h : Digits b ds) (i : Nat) {d : Int} (h0 : 0 ≤ d) (h1 : d < b) :
    Digits b (ds.set i d) := by
  intro e he
  rcases mem_or_eq_of_mem_set he with he | he
  · exact h e he
  · rw [he]
    exact ⟨h0, h1⟩

theorem Digits.replicate_zero (hb : 0 < b) (n : Nat) : Digits b (replicate n 0) := by
  intro d hd
  rw [eq_of_mem_replicate hd]
  exact ⟨le_refl 0, hb⟩

/-- The digit that a loop reads at an index, past the end included. -/
theorem Digits.getD (h : Digits b ds) (hb : 0 < b) (i : Nat) :
    0 ≤ ds.getD i 0 ∧ ds.getD i 0 < b := by
  rcases Nat.lt_or_ge i ds.length with hi | hi
  · rw [getD_eq_getElem ds 0 hi]
    exact h _ (getElem_mem hi)
  · rw [getD_eq_default ds 0 hi]
    exact ⟨le_refl 0, hb⟩

theorem value_nonneg (hb : 0 < b) (h : Digits b ds) : 0 ≤ value b ds := by
  induction ds with
  | nil => exact le_refl 0
  | cons d ds ih =>
    have hd := h.of_cons
    have hrest : 0 ≤ b * value b ds := mul_nonneg hb.le (ih hd.2)
    rw [value_cons]
    omega

theorem value_lt_pow (hb : 0 < b) (h : Digits b ds) : value b ds < b ^ ds.length := by
  induction ds with
  | nil => simp
  | cons d ds ih =>
    have hd := h.of_cons
    have hrest : b * (value b ds + 1) ≤ b * b ^ ds.length :=
      mul_le_mul_of_nonneg_left (ih hd.2) hb.le
    rw [value_cons, length_cons, pow_succ, mul_comm (b ^ ds.length) b]
    linarith [hd.1.2]

/-- What the digits from an index on are worth is at most what all of them are worth. -/
theorem value_drop_le (hb : 1 ≤ b) (h : Digits b ds) (i : Nat) :
    value b (ds.drop i) ≤ value b ds := by
  have hlow : 0 ≤ value b (ds.take i) := value_nonneg (by omega) (h.take i)
  have hhigh : 0 ≤ value b (ds.drop i) := value_nonneg (by omega) (h.drop i)
  have hpow : 1 ≤ b ^ i := one_le_pow₀ hb
  have hscale : value b (ds.drop i) ≤ b ^ i * value b (ds.drop i) :=
    le_mul_of_one_le_left hhigh hpow
  rw [value_take_add_drop ds i]
  omega

/-! ## Lists without leading zeros -/

theorem Trimmed.nil : Trimmed [] := by
  simp [Trimmed]

theorem Trimmed.of_cons {d e : Int} (h : Trimmed (d :: e :: ds)) : Trimmed (e :: ds) := by
  simpa [Trimmed] using h

/-- A list whose element under the end is not zero is normal. -/
theorem Trimmed.take {n : Nat} (hn : n ≤ ds.length) (h : n = 0 ∨ ds.getD (n - 1) 0 ≠ 0) :
    Trimmed (ds.take n) := by
  rcases Nat.eq_zero_or_pos n with rfl | hpos
  · simp [Trimmed]
  · have hlast : ds.getD (n - 1) 0 ≠ 0 := by
      rcases h with h | h
      · omega
      · exact h
    have hlt : n - 1 < ds.length := by omega
    have hlen : (ds.take n).length = n := by simp [hn]
    rw [getD_eq_getElem ds 0 hlt] at hlast
    rw [Trimmed, getLast?_eq_getElem?, hlen, getElem?_take_of_lt (by omega),
      getElem?_eq_getElem hlt]
    simpa using hlast

/-- The highest digit of a normal list gives a lower bound. -/
theorem Trimmed.pow_le_value (hb : 1 < b) (h : Digits b ds) (hn : Trimmed ds) (hne : ds ≠ []) :
    b ^ (ds.length - 1) ≤ value b ds := by
  induction ds with
  | nil => exact absurd rfl hne
  | cons d ds ih =>
    have hd := h.of_cons
    cases ds with
    | nil =>
      have hd0 : d ≠ 0 := by
        simpa [Trimmed] using hn
      simp only [length_cons, length_nil, Nat.zero_add, Nat.sub_self, pow_zero,
        value_cons, value_nil, mul_zero, add_zero]
      omega
    | cons e ds =>
      have hrest := ih hd.2 hn.of_cons (cons_ne_nil e ds)
      have hscale : b * b ^ ((e :: ds).length - 1) ≤ b * value b (e :: ds) :=
        mul_le_mul_of_nonneg_left hrest (by omega)
      have hpow : b ^ ((d :: e :: ds).length - 1) = b * b ^ ((e :: ds).length - 1) := by
        simp only [length_cons, Nat.add_sub_cancel]
        rw [pow_succ, mul_comm]
      rw [value_cons, hpow]
      omega

theorem Trimmed.length_le_of_value_lt (hb : 1 < b) (h : Digits b ds) (hn : Trimmed ds) {n : Nat}
    (hv : value b ds < b ^ n) : ds.length ≤ n := by
  by_cases hne : ds = []
  · simp [hne]
  · have hlow := hn.pow_le_value hb h hne
    have hlt : b ^ (ds.length - 1) < b ^ n := lt_of_le_of_lt hlow hv
    have hexp : ds.length - 1 < n := (pow_lt_pow_iff_right₀ hb).mp hlt
    omega

theorem Trimmed.value_pos (hb : 1 < b) (h : Digits b ds) (hn : Trimmed ds) (hne : ds ≠ []) :
    0 < value b ds :=
  lt_of_lt_of_le (pow_pos (by omega) _) (hn.pow_le_value hb h hne)

theorem Trimmed.eq_nil_iff (hb : 1 < b) (h : Digits b ds) (hn : Trimmed ds) :
    ds = [] ↔ value b ds = 0 := by
  constructor
  · rintro rfl
    rfl
  · intro hv
    by_contra hne
    have hpos := hn.value_pos hb h hne
    omega

/-- A shorter normal list is worth less. -/
theorem value_lt_of_length_lt (hb : 1 < b) (hd : Digits b ds) (he : Digits b es)
    (hn : Trimmed es) (hlen : ds.length < es.length) : value b ds < value b es := by
  have hne : es ≠ [] := by
    rintro rfl
    exact absurd hlen (Nat.not_lt_zero _)
  have hlow := hn.pow_le_value hb he hne
  have hhigh := value_lt_pow (by omega) hd
  have hpow : b ^ ds.length ≤ b ^ (es.length - 1) := pow_le_pow_right₀ (by omega) (by omega)
  exact lt_of_lt_of_le hhigh (hpow.trans hlow)

/-- Lists that agree above an index compare as their digits there. -/
theorem value_lt_of_getD_lt (hb : 0 < b) (hd : Digits b ds) (he : Digits b es) (i : Nat)
    (hsame : value b (ds.drop (i + 1)) = value b (es.drop (i + 1)))
    (hlt : ds.getD i 0 < es.getD i 0) : value b ds < value b es := by
  rcases Nat.lt_or_ge i ds.length with hi | hi
  · have hlow : value b (ds.take i) < b ^ i := by
      have h := value_lt_pow hb (hd.take i)
      rwa [length_take, Nat.min_eq_left hi.le] at h
    have hbase : 0 ≤ value b (es.take i) := value_nonneg hb (he.take i)
    have hstep : b ^ i * (ds.getD i 0 + 1) ≤ b ^ i * es.getD i 0 :=
      mul_le_mul_of_nonneg_left hlt (pow_nonneg hb.le i)
    rw [value_take_add_drop ds i, value_take_add_drop es i, value_drop ds i, value_drop es i,
      hsame]
    nlinarith
  · have hlow : value b ds < b ^ i := by
      have h := value_lt_pow hb hd
      exact lt_of_lt_of_le h (pow_le_pow_right₀ (by omega) hi)
    have hbase : 0 ≤ value b (es.take i) := value_nonneg hb (he.take i)
    have hrest : 0 ≤ value b (es.drop (i + 1)) := value_nonneg hb (he.drop (i + 1))
    have hds : 0 ≤ ds.getD i 0 := (hd.getD hb i).1
    have hone : 1 ≤ es.getD i 0 + b * value b (es.drop (i + 1)) := by
      have hmul := mul_nonneg hb.le hrest
      omega
    have hscale : b ^ i * 1 ≤ b ^ i * (es.getD i 0 + b * value b (es.drop (i + 1))) :=
      mul_le_mul_of_nonneg_left hone (pow_nonneg hb.le i)
    rw [value_take_add_drop es i, value_drop es i]
    linarith

/-- A number has one normal representation. -/
theorem Trimmed.eq_of_value_eq (hb : 1 < b) (hd : Digits b ds) (he : Digits b es)
    (hnd : Trimmed ds) (hne : Trimmed es) (hv : value b ds = value b es) : ds = es := by
  induction ds generalizing es with
  | nil => exact ((hne.eq_nil_iff hb he).mpr hv.symm).symm
  | cons d ds ih =>
    cases es with
    | nil => exact (hnd.eq_nil_iff hb hd).mpr hv
    | cons e es =>
      have hd' := hd.of_cons
      have he' := he.of_cons
      rw [value_cons, value_cons] at hv
      have hhead : d = e := by
        have hmod : (d + b * value b ds) % b = (e + b * value b es) % b := by
          rw [hv]
        rw [Int.add_mul_emod_self_left, Int.add_mul_emod_self_left,
          Int.emod_eq_of_lt hd'.1.1 hd'.1.2, Int.emod_eq_of_lt he'.1.1 he'.1.2] at hmod
        exact hmod
      have hrest : value b ds = value b es := by
        have hmul : b * value b ds = b * value b es := by omega
        exact mul_left_cancel₀ (by omega) hmul
      have htail : ∀ {d : Int} {ds : List Int}, Trimmed (d :: ds) → Trimmed ds := by
        intro d ds hn
        cases ds with
        | nil => exact Trimmed.nil
        | cons e ds => exact hn.of_cons
      rw [hhead, ih hd'.2 he'.2 (htail hnd) (htail hne) hrest]

end Caap.Lib.Positional
