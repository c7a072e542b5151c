/-
  Caap.Stdlib.BignumInt

  Bignums from kernel integers and back.  The range of a 64-bit integer is not symmetric and
  both directions go through the magnitude: the smallest integer has no bignum, and the
  bignum of that value is refused although it fits.
-/

import Caap.Stdlib.BignumArith

namespace Caap.Stdlib

open Caap.Lib Caap.Lib.Positional Meets

variable {limit need : Nat} {a : Bignum}

/-! ## From an integer -/

/-- The limbs split off so far and what is left of the magnitude `v`. -/
def SplitInv (need : Nat) (v : Int) (s : SplitState) : Prop :=
  (0 ≤ s.m ∧ s.m ≤ maxInt) ∧ Digits base s.limbs ∧ s.limbs.length ≤ need ∧
    v = value base s.limbs + base ^ s.limbs.length * s.m

theorem splitRound_meets {v : Int} (hfits : v < base ^ need) {s : SplitState}
    (hs : SplitInv need v s) (hpos : 0 < s.m) :
    Fits limit need (splitRound limit s) fun s' =>
      SplitInv need v s' ∧ s'.m - 1 < s.m - 1 := by
  obtain ⟨hm, hlimbs, -, hv⟩ := hs
  have hroom : s.limbs.length < need := lt_need_of_pow_le (pow_le_of_carry hlimbs hpos hv) hfits
  obtain ⟨hsplit, hlimb, hdiv⟩ := carry_split hm.1 (lt_mul_of_one_lt_right hpos one_lt_base)
  have hmax : s.m / base ≤ maxInt := by omega
  unfold splitRound
  refine (append_meets hroom).bind ?_
  rintro _ ⟨rfl, -⟩
  rw [intDiv_bind base_pos (by omega) hmax]
  refine ok ⟨⟨⟨hdiv.1, hmax⟩, hlimbs.concat hlimb.1 hlimb.2, by simpa using hroom, ?_⟩,
    Int.sub_lt_sub_right hdiv.2 1⟩
  rw [value_concat, List.length_append, List.length_singleton, pow_succ]
  linear_combination hv - base ^ s.limbs.length * hsplit

/-- `bn_from_int`, for every kernel integer but the smallest. -/
theorem bnFromInt_meets {n : Int} (hn : InRange n) (hmin : n ≠ minInt)
    (hfits : |n| < base ^ need) (hroom : Room need) :
    Fits limit need (bnFromInt limit n) (Denotes need n) := by
  have habs : 0 ≤ |n| ∧ |n| ≤ maxInt := by
    refine ⟨abs_nonneg n, abs_le.mpr ?_⟩
    unfold InRange minInt maxInt at *
    omega
  unfold bnFromInt
  refine ite (fun hzero => ?_) (fun hne => ?_)
  · rw [hzero]
    exact bnZero_meets hroom
  · have hrange : InRange |n| := ⟨by unfold minInt; omega, habs.2⟩
    rw [intAbs, if_pos hrange, ok_bind]
    refine bind (countDown (SplitInv need |n|) (·.m - 1)
      (fun s hs hgo => splitRound_meets hfits hs hgo) (fun s hgo => by omega)
      ⟨habs, Digits.nil, Nat.zero_le _, by simp⟩ (by simp only; omega)) ?_
    rintro s ⟨⟨hm, hlimbs, hlen, hv⟩, hstop⟩
    have hm0 : s.m = 0 := by omega
    rw [hm0, mul_zero, add_zero] at hv
    have hvalue : (if n < 0 then -1 else 1) * value base s.limbs = n := by
      rw [← hv]
      split
      · rw [abs_of_neg (by omega)]
        ring
      · rw [abs_of_nonneg (by omega), one_mul]
    have hsign : (if n < 0 then (-1 : Int) else 1) = 1 ∨ (if n < 0 then (-1 : Int) else 1) = -1 := by
      split <;> simp
    refine (bnMake_signed_meets hroom hsign hlimbs hlen).mono fun bn hbn => ?_
    rw [hvalue] at hbn
    exact hbn

/-- The smallest kernel integer has no absolute value. -/
theorem bnFromInt_minInt (limit : Nat) : bnFromInt limit minInt =
      .error (.error "int_abs: integer overflow (abs(-9223372036854775808))") := by
  have habs : intAbs minInt =
      .error (.error "int_abs: integer overflow (abs(-9223372036854775808))") := by decide
  unfold bnFromInt
  rfl

/-! ## To an integer -/

/-- The limbs from `k` on have been folded. -/
def FoldInv (ls : List Int) (s : FoldState) : Prop :=
  ∃ k : Nat, s.i = (k : Int) - 1 ∧ k ≤ ls.length ∧ s.acc = value base (ls.drop k) ∧
    s.acc ≤ maxInt

theorem foldRound_meets {ls : List Int} (hls : Limbs ls) {s : FoldState} (hs : FoldInv ls s)
    (hi : 0 ≤ s.i) :
    Meets (fun e => maxInt < value base ls ∧ e ≠ .timeout) (foldRound ls s) fun s' =>
      FoldInv ls s' ∧ s'.i < s.i := by
  obtain ⟨k, hk, hkl, hacc, hmax⟩ := hs
  have hstored := hls.stored
  have hindex : s.i = ((k - 1 : Nat) : Int) := by omega
  have hlimb := hls.digits.getD base_pos (k - 1)
  have hnext : value base (ls.drop (k - 1)) = ls.getD (k - 1) 0 + base * s.acc := by
    rw [value_drop, Nat.sub_add_cancel (by omega), ← hacc]
  have hwhole := value_drop_le one_lt_base.le hls.digits (k - 1)
  have hnonneg : 0 ≤ s.acc := by
    rw [hacc]
    exact value_nonneg base_pos (hls.digits.drop k)
  have hscaled : 0 ≤ s.acc * base := mul_nonneg hnonneg base_pos.le
  have hcomm : base * s.acc = s.acc * base := mul_comm _ _
  unfold foldRound intMul intAdd checked
  by_cases hmul : InRange (s.acc * base)
  · rw [if_pos hmul, ok_bind, hindex, get_natCast, ok_bind]
    by_cases hadd : InRange (s.acc * base + ls.getD (k - 1) 0)
    · rw [if_pos hadd, ok_bind, intSub_bind (by omega) (by omega)]
      refine ok ⟨⟨k - 1, rfl, by omega, ?_, hadd.2⟩, by simp only; omega⟩
      rw [hnext]
      ring
    · rw [if_neg hadd]
      refine error ⟨?_, by simp⟩
      unfold InRange minInt at hadd
      omega
  · rw [if_neg hmul]
    refine error ⟨?_, by simp⟩
    unfold InRange minInt at hmul
    omega

/-- `bn_to_int` returns the value of a bignum whose magnitude is a kernel integer, and fails
    on every other. -/
theorem bnToInt_meets (ha : a.Normalised) (hlen : a.limbs.length < 2 ^ 62) :
    Meets (fun _ => maxInt < |a.value|) (bnToInt limit a) fun i =>
      i = a.value ∧ |a.value| ≤ maxInt := by
  unfold bnToInt
  refine ite (fun hzero => ?_) (fun hne => ?_)
  · rw [ha.isZero_iff.mp hzero]
    exact ok ⟨rfl, by decide⟩
  · rw [size, intSub_bind (by omega) (by omega)]
    have hloop : Meets (fun e => maxInt < value base a.limbs ∧ e ≠ .timeout)
        (whileLoop .timeout (fun s : FoldState => .ok (decide (0 ≤ s.i))) (foldRound a.limbs)
          a.limbs.length ⟨(a.limbs.length : Int) - 1, 0⟩)
        fun s => s.acc = value base a.limbs ∧ s.acc ≤ maxInt := by
      refine (countDown (FoldInv a.limbs) (·.i)
        (fun s hs hgo => foldRound_meets ⟨ha.digits, hlen⟩ hs hgo) (fun s hgo => hgo)
        ⟨a.limbs.length, rfl, le_refl _, by simp, (by decide : (0 : Int) ≤ maxInt)⟩ (by simp)).mono ?_
      rintro s ⟨⟨k, hk, -, hacc, hmax⟩, hstop⟩
      have hk0 : k = 0 := by omega
      rw [hk0, List.drop_zero] at hacc
      exact ⟨hacc, hmax⟩
    rw [ha.abs_value]
    refine bind (tryCatch_meets hloop (fun h => h.2 rfl) ?_) ?_
    · exact fun e he => raise_meets fun e' => he.1
    · rintro s ⟨hacc, hmax⟩
      have hnonneg : 0 ≤ s.acc := by
        rw [hacc]
        exact value_nonneg base_pos ha.digits
      have hvalue : a.sign * s.acc = a.value := by
        rw [hacc]
        rfl
      have hrange : InRange (a.sign * s.acc) := by
        unfold InRange minInt maxInt at *
        rcases ha.signed with ⟨h, -⟩ | ⟨-, h | h⟩ <;> rw [h] <;> omega
      rw [intMul_ok hrange]
      exact ok ⟨hvalue, by rw [← hacc]; exact hmax⟩

end Caap.Stdlib
