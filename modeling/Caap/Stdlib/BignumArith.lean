/-
  Caap.Stdlib.BignumArith

  The signed operations on normalised bignums: each returns the normalised bignum of the
  exact result, or fails for the one reason that a list would be longer than the limit.
  No 64-bit operation inside them overflows.
-/

import Caap.Stdlib.BignumDiv

namespace Caap.Stdlib

open Caap.Lib Caap.Lib.Positional Positional Bignum Meets Int Or

/-- The integer that a bignum denotes. -/
def Bignum.value (bn : Bignum) : Int := bn.sign * Positional.value base bn.limbs

/-- Limbs below the base, no leading zero limb, and the sign 0 for the empty list only. -/
structure Bignum.Normalised (bn : Bignum) : Prop where
  digits : Digits base bn.limbs
  normal : Trimmed bn.limbs
  signed : (bn.sign = 0 ∧ bn.limbs = []) ∨ (bn.limbs ≠ [] ∧ (bn.sign = 1 ∨ bn.sign = -1))

/-- A normalised bignum that memory can hold: 2^58 values would take more than 2^62 bytes. -/
structure StoredBignum extends Bignum where
  normalised : toBignum.Normalised
  stored : limbs.length < 2 ^ 58

/-- What an operation returns: the normalised bignum of `v`, of at most `n` limbs. -/
structure Denotes (n : Nat) (v : Int) (bn : Bignum) : Prop where
  normalised : bn.Normalised
  value_eq : bn.value = v
  length_le : bn.limbs.length ≤ n

variable {limit need : Nat} {a b : Bignum}

namespace Bignum.Normalised

theorem magnitude (h : a.Normalised) (hlen : a.limbs.length < 2 ^ 62) : Magnitude a.limbs :=
  ⟨⟨h.digits, hlen⟩, h.normal⟩

theorem abs_value (h : a.Normalised) : |a.value| = Positional.value base a.limbs := by
  have hnonneg : 0 ≤ Positional.value base a.limbs := value_nonneg base_pos h.digits
  unfold value
  rcases h.signed with ⟨hs, hl⟩ | ⟨-, hs | hs⟩
  · rw [hs, hl]
    simp
  · rw [hs, one_mul, abs_of_nonneg hnonneg]
  · rw [hs, neg_one_mul, abs_neg, abs_of_nonneg hnonneg]

theorem isZero_iff (h : a.Normalised) : a.isZero = true ↔ a.value = 0 := by
  unfold isZero
  rw [beq_iff_eq]
  constructor
  · intro hs
    rw [value, hs, zero_mul]
  · intro hv
    rcases h.signed with ⟨hs, -⟩ | ⟨hne, hs⟩
    · exact hs
    · have hpos := h.normal.value_pos one_lt_base h.digits hne
      rcases hs with hs | hs <;> rw [value, hs] at hv <;> omega

/-- A bignum that is not zero has a limb, and its sign is one of two. -/
theorem of_ne_zero (h : a.Normalised) (hv : a.value ≠ 0) :
    a.limbs ≠ [] ∧ (a.sign = 1 ∨ a.sign = -1) := by
  rcases h.signed with ⟨hs, -⟩ | hsome
  · exact absurd (by rw [value, hs, zero_mul]) hv
  · exact hsome

theorem denotes (h : a.Normalised) (hlen : a.limbs.length ≤ need) : Denotes need a.value a :=
  ⟨h, rfl, hlen⟩

end Bignum.Normalised

theorem Bignum.normalised_zero : Bignum.Normalised ⟨0, []⟩ :=
  ⟨Digits.nil, Trimmed.nil, inl ⟨rfl, rfl⟩⟩

/-- A normalised bignum is determined by its value. -/
theorem Bignum.Normalised.eq_of_value_eq (ha : a.Normalised) (hb : b.Normalised)
    (hv : a.value = b.value) : a = b := by
  have hlimbs : a.limbs = b.limbs := by
    refine Trimmed.eq_of_value_eq one_lt_base ha.digits hb.digits ha.normal hb.normal ?_
    rw [← ha.abs_value, ← hb.abs_value, hv]
  have hsign : a.sign = b.sign := by
    by_cases hne : a.limbs = []
    · have hsa : a.sign = 0 := by
        rcases ha.signed with h | h
        · exact h.1
        · exact absurd hne h.1
      have hsb : b.sign = 0 := by
        rcases hb.signed with h | h
        · exact h.1
        · exact absurd (hlimbs ▸ hne) h.1
      rw [hsa, hsb]
    · have hpos := ha.normal.value_pos one_lt_base ha.digits hne
      unfold value at hv
      rw [← hlimbs] at hv
      exact mul_right_cancel₀ (by omega) hv
  cases a
  cases b
  simp_all

/-! ## Constructors -/

/-- Room for the two entries of a bignum, and few enough limbs to index. -/
structure Room (need : Nat) : Prop where
  enough : 2 ≤ need
  indexed : need < 2 ^ 62

theorem bnZero_meets (hn : Room need) :
    Fits limit need (bnZero limit) (Denotes need 0) := by
  unfold bnZero
  refine (ensureLen_meets "assoc" "map" hn.enough).bind fun _ _ => ?_
  exact ok ⟨Bignum.normalised_zero, by simp [Bignum.value], Nat.zero_le _⟩

variable {sign : Int} {limbs : List Int}

theorem bnMake_meets (hn : Room need) (hl : Digits base limbs) (hlen : limbs.length ≤ need) :
    Fits limit need (bnMake limit sign limbs)
      (Denotes need ((if sign < 0 then -1 else 1) * value base limbs)) := by
  unfold bnMake
  refine (magNormalize_meets ⟨hl, hlen.trans_lt hn.indexed⟩ hlen).bind fun ls hls => ?_
  refine (ensureLen_meets "assoc" "map" hn.enough).bind fun _ _ => ?_
  refine ite (fun hzero => ?_) (fun hne => ?_)
  · have hnil : ls = [] := by
      simpa [magIsZero, size] using hzero
    have hv : value base limbs = 0 := by
      rw [← hls.value_eq, hnil, value_nil]
    rw [hv, mul_zero]
    exact ok ⟨Bignum.normalised_zero, by simp [Bignum.value], Nat.zero_le _⟩
  · have hsome : ls ≠ [] := by
      simpa [magIsZero, size] using hne
    refine ok ⟨⟨hls.digits, hls.normal, inr ⟨hsome, ?_⟩⟩, ?_, hls.length_le⟩
    · by_cases hneg : sign < 0 <;> simp [hneg]
    · rw [Bignum.value, hls.value_eq]

/-- With one of the two signs, `bn_make` denotes the signed value. -/
theorem bnMake_signed_meets (hn : Room need) (hsign : sign = 1 ∨ sign = -1)
    (hl : Digits base limbs) (hlen : limbs.length ≤ need) :
    Fits limit need (bnMake limit sign limbs)
      (Denotes need (sign * value base limbs)) := by
  have hsame : sign = (if sign < 0 then -1 else 1) := by
    rcases hsign with h | h <;> rw [h] <;> decide
  have hvalue : sign * value base limbs =
      (if sign < 0 then -1 else 1) * value base limbs := congrArg (· * _) hsame
  rw [hvalue]
  exact bnMake_meets hn hl hlen

/-! ## Comparison and sign -/

/-- The sign of a normalised bignum is the sign of its value. -/
theorem sign_cases (ha : a.Normalised) :
    (a.sign = 0 ∧ a.value = 0) ∨ (a.sign = 1 ∧ 0 < a.value) ∨ (a.sign = -1 ∧ a.value < 0) := by
  unfold Bignum.value
  rcases ha.signed with ⟨hs, -⟩ | ⟨hne, hs⟩
  · exact inl ⟨hs, by rw [hs, zero_mul]⟩
  · have hpos := ha.normal.value_pos one_lt_base ha.digits hne
    rcases hs with hs | hs
    · exact inr (inl ⟨hs, by rw [hs, one_mul]; exact hpos⟩)
    · exact inr (inr ⟨hs, by rw [hs, neg_one_mul]; omega⟩)

theorem value_lt_of_sign_lt (ha : a.Normalised) (hb : b.Normalised) (h : a.sign < b.sign) :
    a.value < b.value := by
  rcases sign_cases ha with hs | hs | hs <;> rcases sign_cases hb with ht | ht | ht <;> omega

/-- `bn_cmp` is the order of the integers and cannot fail. -/
theorem bnCmp_meets {E : Failure → Prop} (ha : a.Normalised) (hb : b.Normalised)
    (hla : a.limbs.length < 2 ^ 62) (hlb : b.limbs.length < 2 ^ 62) :
    Meets E (bnCmp a b) fun c => Compares c a.value b.value := by
  unfold bnCmp
  refine ite (fun hlt => ?_) (fun hnlt => ite (fun hgt => ?_) (fun hngt =>
    ite (fun hz => ?_) (fun hnz => ?_)))
  · exact ok (inl ⟨rfl, value_lt_of_sign_lt ha hb hlt⟩)
  · exact ok (inr (inr ⟨rfl, value_lt_of_sign_lt hb ha hgt⟩))
  · refine ok (inr (inl ⟨rfl, ?_⟩))
    have hz' : b.sign = 0 := by omega
    rw [Bignum.value, Bignum.value, hz, hz', zero_mul, zero_mul]
  · have hsame : b.sign = a.sign := by omega
    refine (magCmp_meets (ha.magnitude hla) (hb.magnitude hlb)).bind fun c hc => ?_
    have hsign : a.sign = 1 ∨ a.sign = -1 := by
      rcases ha.signed with ⟨hs, -⟩ | ⟨-, hs⟩
      · exact absurd hs hnz
      · exact hs
    have hrange : InRange (a.sign * c) := by
      rcases hsign with hs | hs <;> rcases hc with ⟨h, -⟩ | ⟨h, -⟩ | ⟨h, -⟩ <;> rw [hs, h] <;>
        exact InRange.of_bounds (by omega) (by omega)
    rw [intMul_ok hrange, Bignum.value, Bignum.value, hsame]
    refine ok ?_
    rcases hsign with hs | hs <;> rw [hs]
    · rw [one_mul, one_mul, one_mul]
      exact hc
    · rcases hc with ⟨h, hlt⟩ | ⟨h, heq⟩ | ⟨h, hgt⟩
      · exact inr (inr ⟨by omega, by omega⟩)
      · exact inr (inl ⟨by omega, by omega⟩)
      · exact inl ⟨by omega, by omega⟩

theorem sign_bounds (ha : a.Normalised) : -1 ≤ a.sign ∧ a.sign ≤ 1 := by
  rcases ha.signed with ⟨h, -⟩ | ⟨-, h | h⟩ <;> omega

section Operations

variable {x y : Int} (hn : Room need)

include hn

section

variable (ha : Denotes need x a)

include ha

theorem bnNeg_meets :
    Fits limit need (bnNeg limit a) (Denotes need (-x)) := by
  obtain ⟨ha, rfl, hlen⟩ := ha
  have hs := sign_bounds ha
  unfold bnNeg
  rw [intSub_bind (by omega) (by omega)]
  refine (bnMake_meets hn ha.digits hlen).mono fun bn hbn => ?_
  have hvalue : (if 0 - a.sign < 0 then -1 else 1) * value base a.limbs = -a.value := by
    unfold Bignum.value
    rcases ha.signed with ⟨h, hnil⟩ | ⟨-, h | h⟩
    · rw [h, hnil]
      simp
    · rw [h]
      simp
    · rw [h]
      simp
  rw [← hvalue]
  exact hbn

theorem bnAbs_meets :
    Fits limit need (bnAbs limit a) (Denotes need |x|) := by
  obtain ⟨ha, rfl, hlen⟩ := ha
  have habs : intAbs a.sign = .ok |a.sign| := by
    rcases ha.signed with ⟨h, -⟩ | ⟨-, h | h⟩ <;> rw [h] <;> rfl
  unfold bnAbs
  rw [habs, ok_bind, ha.abs_value]
  refine (bnMake_meets hn ha.digits hlen).mono fun bn hbn => ?_
  rw [if_neg (not_lt.mpr (abs_nonneg a.sign)), one_mul] at hbn
  exact hbn

/-! ## Addition and subtraction -/

theorem addOpposite_meets (hb : Denotes need y b)
    (hsa : a.sign = 1 ∨ a.sign = -1) (hopp : b.sign = -a.sign) :
    Fits limit need (addOpposite limit a b) (Denotes need (x + y)) := by
  obtain ⟨ha, rfl, hla⟩ := ha
  obtain ⟨hb, rfl, hlb⟩ := hb
  have hma := ha.magnitude (hla.trans_lt hn.indexed)
  have hmb := hb.magnitude (hlb.trans_lt hn.indexed)
  have hsb : b.sign = 1 ∨ b.sign = -1 := by omega
  unfold addOpposite
  refine (magCmp_meets hma hmb).bind fun c hc => ?_
  refine ite (fun hzero => ?_) (fun hnz => ite (fun hpos => ?_) (fun hneg => ?_))
  · have heq : value base a.limbs = value base b.limbs := by
      rcases hc with h | h | h <;> omega
    have hsum : a.value + b.value = 0 := by
      rw [Bignum.value, Bignum.value, hopp, heq]
      ring
    rw [hsum]
    exact bnZero_meets hn
  · have hle : value base b.limbs ≤ value base a.limbs := by
      rcases hc with h | h | h <;> omega
    refine (magSub_meets hma hmb hla hle).bind fun ls hls => ?_
    have hsum : a.value + b.value = a.sign * value base ls := by
      rw [hls.value_eq, Bignum.value, Bignum.value, hopp]
      ring
    rw [hsum]
    exact bnMake_signed_meets hn hsa hls.digits hls.length_le
  · have hle : value base a.limbs ≤ value base b.limbs := by
      rcases hc with h | h | h <;> omega
    refine (magSub_meets hmb hma hlb hle).bind fun ls hls => ?_
    have hsum : a.value + b.value = b.sign * value base ls := by
      rw [hls.value_eq, Bignum.value, Bignum.value, hopp]
      ring
    rw [hsum]
    exact bnMake_signed_meets hn hsb hls.digits hls.length_le

/-- `bn_add`: what has to fit are the operands and the sum. -/
theorem bnAdd_meets (hb : Denotes need y b)
    (hfits : |x + y| < base ^ need) :
    Fits limit need (bnAdd limit a b) (Denotes need (x + y)) := by
  obtain ⟨ha, rfl, hla⟩ := ha
  obtain ⟨hb, rfl, hlb⟩ := hb
  unfold bnAdd
  refine ite (fun hza => ?_) (fun hza => ite (fun hzb => ?_) (fun hzb => ?_))
  · rw [ha.isZero_iff.mp hza, zero_add]
    exact ok (hb.denotes hlb)
  · rw [hb.isZero_iff.mp hzb, add_zero]
    exact ok (ha.denotes hla)
  · have hsa := (ha.of_ne_zero (fun h => hza (ha.isZero_iff.mpr h))).2
    have hsb := (hb.of_ne_zero (fun h => hzb (hb.isZero_iff.mpr h))).2
    refine ite (fun hsame => ?_) (fun hdiff =>
      addOpposite_meets hn (ha.denotes hla) (hb.denotes hlb) hsa (by omega))
    have hA : 0 ≤ value base a.limbs := value_nonneg base_pos ha.digits
    have hB : 0 ≤ value base b.limbs := value_nonneg base_pos hb.digits
    have hsum : a.value + b.value =
        a.sign * (value base a.limbs + value base b.limbs) := by
      rw [Bignum.value, Bignum.value, ← hsame]
      ring
    have habs : |a.value + b.value| =
        value base a.limbs + value base b.limbs := by
      rw [hsum, abs_mul, abs_of_nonneg (add_nonneg hA hB)]
      rcases hsa with h | h <;> rw [h] <;> simp
    refine (magAdd_meets ⟨ha.digits, hla.trans_lt hn.indexed⟩ ⟨hb.digits, hlb.trans_lt hn.indexed⟩
      (max_le hla hlb) hn.indexed (by rw [← habs]; exact hfits)).bind fun ls hls => ?_
    rw [hsum, ← hls.value_eq]
    exact bnMake_signed_meets hn hsa hls.digits hls.length_le

theorem bnSub_meets (hb : Denotes need y b)
    (hfits : |x - y| < base ^ need) :
    Fits limit need (bnSub limit a b) (Denotes need (x - y)) := by
  rw [sub_eq_add_neg] at hfits ⊢
  exact (bnNeg_meets hn hb).bind fun neg hneg => bnAdd_meets hn ha hneg hfits

end

/-! ## Multiplication -/

theorem bnMul_meets {n m : Nat} (ha : Denotes n x a) (hb : Denotes m y b) (hneed : n + m ≤ need) :
    Fits limit need (bnMul limit a b) (Denotes need (x * y)) := by
  obtain ⟨ha, rfl, hla⟩ := ha
  obtain ⟨hb, rfl, hlb⟩ := hb
  have hidx := hn.indexed
  unfold bnMul
  refine ite (fun hzero => ?_) (fun hne => ?_)
  · have hprod : a.value * b.value = 0 := by
      rcases hzero with h | h
      · rw [ha.isZero_iff.mp h, zero_mul]
      · rw [hb.isZero_iff.mp h, mul_zero]
    rw [hprod]
    exact bnZero_meets hn
  · have hsa := (ha.of_ne_zero (fun h => hne (inl (ha.isZero_iff.mpr h)))).2
    have hsb := (hb.of_ne_zero (fun h => hne (inr (hb.isZero_iff.mpr h)))).2
    have hsign : a.sign * b.sign = 1 ∨ a.sign * b.sign = -1 := by
      rcases hsa with h | h <;> rcases hsb with h' | h' <;> rw [h, h'] <;> decide
    rw [intMul_bind (by omega) (by omega)]
    refine (magMul_meets ⟨ha.digits, by omega⟩ ⟨hb.digits, by omega⟩ (by omega) hidx).bind
      fun ls hls => ?_
    have hprod : a.value * b.value = a.sign * b.sign * value base ls := by
      rw [hls.value_eq, Bignum.value, Bignum.value]
      ring
    rw [hprod]
    exact bnMake_signed_meets hn hsign hls.digits hls.length_le

end Operations

/-! ## Division -/

/-- The sign that `bn_divmod` gives the quotient makes it the truncated one, and the
    remainder takes the sign of the dividend. -/
theorem tdiv_tmod_value (ha : a.Normalised) (hb : b.Normalised) :
    (if a.sign * b.sign < 0 then -1 else 1) * (value base a.limbs / value base b.limbs) =
      a.value.tdiv b.value ∧ (if a.sign < 0 then -1 else 1) *
        (value base a.limbs % value base b.limbs) = a.value.tmod b.value := by
  have hA : 0 ≤ value base a.limbs := value_nonneg base_pos ha.digits
  unfold Bignum.value
  rw [← tdiv_eq_ediv_of_nonneg hA, ← tmod_eq_emod_of_nonneg hA]
  rcases ha.signed with ⟨hs, hnil⟩ | ⟨-, hs | hs⟩
  · rw [hs, hnil]
    simp
  all_goals
    rcases hb.signed with ⟨ht, hnil⟩ | ⟨-, ht | ht⟩
    · rw [hs, ht, hnil]
      simp
    all_goals
      rw [hs, ht]
      simp [Int.neg_tdiv, Int.tdiv_neg, neg_tmod, tmod_neg]

variable {x y : Int}

/-- `bn_divmod`: division truncated toward zero. -/
theorem bnDivmod_meets (hn : Room need) (ha : Denotes need x a) (hb : Denotes need y b)
    (hne : y ≠ 0) (hroom : |y| * base ≤ base ^ need) :
    Fits limit need (bnDivmod limit a b) fun dm =>
      Denotes need (x.tdiv y) dm.quot ∧ Denotes need (x.tmod y) dm.rem := by
  obtain ⟨ha, rfl, hla⟩ := ha
  obtain ⟨hb, rfl, hlb⟩ := hb
  have hzero : b.isZero = false := by
    rw [Bool.eq_false_iff]
    exact fun h => hne (hb.isZero_iff.mp h)
  have hdivisor : Divisor need b.limbs := by
    rw [hb.abs_value] at hroom
    exact ⟨hb.magnitude (hlb.trans_lt hn.indexed), (hb.of_ne_zero hne).1, hroom, hn.enough,
      hn.indexed⟩
  have hsb := sign_bounds hb
  have hsign : InRange (a.sign * b.sign) := by
    rcases ha.signed with ⟨h, -⟩ | ⟨-, h | h⟩ <;> rw [h] <;>
      exact InRange.of_bounds (by omega) (by omega)
  unfold bnDivmod
  rw [hzero, if_neg (by simp)]
  refine (magDivmod_meets (ha.magnitude (hla.trans_lt hn.indexed)) hdivisor hla).bind ?_
  rintro dm ⟨hquot, hrem⟩
  rw [intMul_ok hsign, ok_bind]
  refine (bnMake_meets hn hquot.digits hquot.length_le).bind fun q hq => ?_
  refine (bnMake_meets hn hrem.digits hrem.length_le).bind fun r hr => ?_
  refine (ensureLen_meets "assoc" "map" hn.enough).bind fun _ _ => ?_
  rw [hquot.value_eq, (tdiv_tmod_value ha hb).1] at hq
  rw [hrem.value_eq, (tdiv_tmod_value ha hb).2] at hr
  exact ok ⟨hq, hr⟩

/-- A truncated remainder below zero is the modulus less the divisor. -/
theorem emod_of_tmod (x y : Int) : x % y = if x.tmod y < 0 then x.tmod y + |y| else x.tmod y := by
  by_cases hy : y = 0
  · subst hy
    simp
  · have hnonneg : 0 ≤ x % y := emod_nonneg x hy
    have hlt : x % y < |y| := emod_lt_abs x hy
    have hmod : x.tmod y = x % y - ((if 0 ≤ x ∨ y ∣ x then 0 else y.natAbs : Nat) : Int) :=
      tmod_eq_emod
    split at hmod
    · omega
    · rw [natCast_natAbs] at hmod
      omega

/-- `bn_mod`: the modulus in `[0, |b|)`. -/
theorem bnMod_meets (hn : Room need) (ha : Denotes need x a) (hb : Denotes need y b)
    (hne : y ≠ 0) (hroom : |y| * base ≤ base ^ need) :
    Fits limit need (bnMod limit a b) (Denotes need (x % y)) := by
  have hmod := emod_of_tmod x y
  unfold bnMod bnRem
  refine bind ((bnDivmod_meets hn ha hb hne hroom).bind
    (Q := Denotes need (x.tmod y)) fun dm hdm => ok hdm.2) fun r hr => ?_
  have hcases := sign_cases hr.normalised
  rw [hr.value_eq] at hcases
  refine ite (fun hneg => ?_) (fun hnonneg => ?_)
  · rw [if_pos (by omega)] at hmod
    refine (bnAbs_meets hn hb).bind fun m hm => ?_
    have hbound : |x % y| < base ^ need := by
      have hscale : |y| * 1 ≤ |y| * base :=
        mul_le_mul_of_nonneg_left one_lt_base.le (abs_nonneg _)
      have hlt := emod_lt_abs x hne
      rw [abs_of_nonneg (emod_nonneg x hne)]
      linarith
    rw [hmod] at hbound ⊢
    exact bnAdd_meets hn hr hm hbound
  · rw [if_neg (by omega)] at hmod
    rw [hmod]
    exact ok hr

/-! ## All operations -/

/-- The normalised bignum of an integer. -/
def Exact (v : Int) (bn : Bignum) : Prop := bn.Normalised ∧ bn.value = v

theorem Denotes.exact {n : Nat} {v : Int} {bn : Bignum} (h : Denotes n v bn) : Exact v bn :=
  ⟨h.normalised, h.value_eq⟩

/-- Division truncated toward zero: the remainder is smaller than the divisor and is zero or
    has the sign of the dividend. -/
def TruncatedDivision (x y q r : Int) : Prop :=
  q = x.tdiv y ∧ x = q * y + r ∧ |r| < |y| ∧ (r = 0 ∨ r.sign = x.sign)

theorem truncatedDivision (x : Int) {y : Int} (hy : y ≠ 0) :
    TruncatedDivision x y (x.tdiv y) (x.tmod y) := by
  have hless : |x.tmod y| < |y| := by
    rw [abs_eq_natAbs, abs_eq_natAbs, natAbs_tmod]
    exact ofNat_lt.mpr (Nat.mod_lt _ (natAbs_pos.mpr hy))
  refine ⟨rfl, ?_, hless, ?_⟩
  · rw [mul_comm]
    exact (mul_tdiv_add_tmod x y).symm
  · rcases lt_trichotomy x 0 with hx | hx | hx
    · have hneg : 0 ≤ (-x).tmod y := tmod_nonneg y (by omega)
      rw [neg_tmod] at hneg
      rcases eq_or_ne (x.tmod y) 0 with h | h
      · exact inl h
      · exact inr (by rw [sign_eq_neg_one_of_neg hx, sign_eq_neg_one_of_neg (by omega)])
    · exact inl (by rw [hx, zero_tmod])
    · have hpos : 0 ≤ x.tmod y := tmod_nonneg y hx.le
      rcases eq_or_ne (x.tmod y) 0 with h | h
      · exact inl h
      · exact inr (by rw [sign_eq_one_of_pos hx, sign_eq_one_of_pos (by omega)])

/-- More limbs than any list that an operation on the two builds. -/
def limbsNeeded (a b : Bignum) : Nat := a.limbs.length + b.limbs.length + 2

theorem abs_value_lt (ha : a.Normalised) : |a.value| < base ^ a.limbs.length := by
  rw [ha.abs_value]
  exact value_lt_pow base_pos ha.digits

theorem pow_limbs_le {n m : Nat} (h : n ≤ m) : base ^ n ≤ base ^ m :=
  pow_le_pow_right₀ one_lt_base.le h

/-- The sum of the magnitudes fits into the limbs that are reserved. -/
theorem abs_add_abs_lt (ha : a.Normalised) (hb : b.Normalised) :
    |a.value| + |b.value| < base ^ limbsNeeded a b := by
  have hA := (abs_value_lt ha).trans_le
    (pow_limbs_le (show a.limbs.length ≤ a.limbs.length + b.limbs.length by omega))
  have hB := (abs_value_lt hb).trans_le
    (pow_limbs_le (show b.limbs.length ≤ a.limbs.length + b.limbs.length by omega))
  have htwice : 2 * base ^ (a.limbs.length + b.limbs.length) ≤ base ^ limbsNeeded a b := by
    have hpow : 0 < base ^ (a.limbs.length + b.limbs.length) := pow_pos base_pos _
    have hsq : (2 : Int) ≤ base ^ 2 := by decide
    rw [limbsNeeded, pow_add base _ 2, mul_comm]
    exact mul_le_mul_of_nonneg_left hsq hpow.le
  linarith

theorem abs_mul_base_le (hb : b.Normalised) : |b.value| * base ≤ base ^ limbsNeeded a b := by
  have hB := (abs_value_lt hb).le
  have hscale : |b.value| * base ≤ base ^ b.limbs.length * base :=
    mul_le_mul_of_nonneg_right hB base_pos.le
  rw [← pow_succ] at hscale
  exact hscale.trans (pow_limbs_le (by unfold limbsNeeded; omega))

/-- The operations are exact: each returns the normalised result, or the limit is lower than
    the limbs needed and a list would have been longer than it.  In particular no checked
    64-bit operation overflows. -/
theorem bignum_operations_exact (limit : Nat) (a b : StoredBignum) :
    Meets (OutOfSpace limit (limbsNeeded a.toBignum b.toBignum))
        (bnAdd limit a.toBignum b.toBignum) (Exact (a.value + b.value)) ∧
      Meets (OutOfSpace limit (limbsNeeded a.toBignum b.toBignum))
        (bnSub limit a.toBignum b.toBignum) (Exact (a.value - b.value)) ∧
      Meets (OutOfSpace limit (limbsNeeded a.toBignum b.toBignum))
        (bnMul limit a.toBignum b.toBignum) (Exact (a.value * b.value)) ∧
      Meets (fun _ => False) (bnCmp a.toBignum b.toBignum) (fun c => Compares c a.value b.value) ∧
      (b.value ≠ 0 → Meets (OutOfSpace limit (limbsNeeded a.toBignum b.toBignum))
          (bnDivmod limit a.toBignum b.toBignum) (fun dm =>
            dm.quot.Normalised ∧ dm.rem.Normalised ∧
              TruncatedDivision a.value b.value dm.quot.value dm.rem.value) ∧
        Meets (OutOfSpace limit (limbsNeeded a.toBignum b.toBignum))
          (bnMod limit a.toBignum b.toBignum) (Exact (a.value % b.value))) := by
  have hsa := a.stored
  have hsb := b.stored
  have hneed : limbsNeeded a.toBignum b.toBignum = a.limbs.length + b.limbs.length + 2 := rfl
  have hn : Room (limbsNeeded a.toBignum b.toBignum) := ⟨by omega, by omega⟩
  have ha : Denotes (limbsNeeded a.toBignum b.toBignum) a.value a.toBignum :=
    a.normalised.denotes (by omega)
  have hb : Denotes (limbsNeeded a.toBignum b.toBignum) b.value b.toBignum :=
    b.normalised.denotes (by omega)
  have hsum := abs_add_abs_lt a.normalised b.normalised
  have hroom := abs_mul_base_le (a := a.toBignum) b.normalised
  refine ⟨?_, ?_, ?_, ?_, fun hne => ⟨?_, ?_⟩⟩
  · exact (bnAdd_meets hn ha hb ((abs_add_le a.value b.value).trans_lt hsum)).mono
      fun _ h => h.exact
  · exact (bnSub_meets hn ha hb ((abs_sub a.value b.value).trans_lt hsum)).mono
      fun _ h => h.exact
  · exact (bnMul_meets hn (a.normalised.denotes le_rfl) (b.normalised.denotes le_rfl)
      (by omega)).mono fun _ h => h.exact
  · exact bnCmp_meets a.normalised b.normalised (by omega) (by omega)
  · refine (bnDivmod_meets hn ha hb hne hroom).mono ?_
    rintro dm ⟨hq, hr⟩
    refine ⟨hq.normalised, hr.normalised, ?_⟩
    rw [hq.value_eq, hr.value_eq]
    exact truncatedDivision a.value hne
  · exact (bnMod_meets hn ha hb hne hroom).mono fun _ h => h.exact

theorem normalised_limb {n : Int} (h : 0 < n ∧ n < base) : Bignum.Normalised ⟨1, [n]⟩ := by
  have hne : n ≠ 0 := by omega
  refine ⟨?_, by simpa [Trimmed] using hne, inr ⟨by simp, inl rfl⟩⟩
  intro d hd
  rw [List.mem_singleton.mp hd]
  omega

theorem length_limb (n : Int) : [n].length < 2 ^ 58 := by
  simp

/-- One limb. -/
def StoredBignum.ofLimb (n : Int) (h : 0 < n ∧ n < base) : StoredBignum :=
  ⟨⟨1, [n]⟩, normalised_limb h, length_limb n⟩

theorem normalised_nines {n : Nat} (h : 0 < n) :
    Bignum.Normalised ⟨1, List.replicate n (base - 1)⟩ := by
  have hbase := base_eq
  have hne : n ≠ 0 := by omega
  refine ⟨?_, ?_, inr ⟨by simpa using hne, inl rfl⟩⟩
  · intro d hd
    rw [List.eq_of_mem_replicate hd]
    omega
  · rw [Trimmed, List.getLast?_replicate, if_neg hne]
    simp only [ne_eq, Option.some.injEq]
    omega

theorem length_nines {n : Nat} (h : n < 2 ^ 58) :
    (List.replicate n (base - 1)).length < 2 ^ 58 := by
  simpa using h

/-- The largest number of so many limbs. -/
def StoredBignum.nines (n : Nat) (h : 0 < n ∧ n < 2 ^ 58) : StoredBignum :=
  ⟨⟨1, List.replicate n (base - 1)⟩, normalised_nines h.1, length_nines h.2⟩

def StoredBignum.seven : StoredBignum := .ofLimb 7 (by decide)

def StoredBignum.two : StoredBignum := .ofLimb 2 (by decide)

theorem bignum_operations_exact_seven_two : StoredBignum.two.value ≠ 0 ∧
      Meets (OutOfSpace 1000 (limbsNeeded StoredBignum.seven.toBignum StoredBignum.two.toBignum))
        (bnMod 1000 StoredBignum.seven.toBignum StoredBignum.two.toBignum)
        (Exact (StoredBignum.seven.value % StoredBignum.two.value)) := by
  have hne : StoredBignum.two.value ≠ 0 := by decide
  have hexact := bignum_operations_exact 1000 StoredBignum.seven StoredBignum.two
  exact ⟨hne, (hexact.2.2.2.2 hne).2⟩

/-- A sum that takes one limb more than the limit is not returned: under the default limit,
    the largest number of a million limbs plus one. -/
theorem bnAdd_million_limbs_fails : ∃ a b : StoredBignum, bnAdd 1000000 a.toBignum b.toBignum =
      .error (.error "append: list size limit 1000000 exceeded") := by
  refine ⟨StoredBignum.nines 1000000 (by omega), StoredBignum.ofLimb 1 (by decide), ?_⟩
  have hadd := magAdd_past_limit (show 0 < 1000000 by omega) (by omega)
  have hmessage : sizeLimitError "append" "list" 1000000 =
      .error "append: list size limit 1000000 exceeded" := by decide
  have hsame : (StoredBignum.nines 1000000 (by omega)).sign =
      (StoredBignum.ofLimb 1 (by decide)).sign := rfl
  unfold bnAdd
  exact congrArg (· >>= bnMake 1000000 1) hadd

end Caap.Stdlib
