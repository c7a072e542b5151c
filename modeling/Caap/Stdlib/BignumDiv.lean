/-
  Caap.Stdlib.BignumDiv

  The long division of magnitudes.  Each round brings down the next limb of the dividend and
  finds the limb of the quotient by binary search; with `b * base` as the bound of what is
  brought down, the limb lies below the base, and the invariant is the division equation for
  the limbs brought down so far.
-/

import Caap.Stdlib.BignumMag

namespace Caap.Stdlib

open Caap.Lib Caap.Lib.Positional Meets List

variable {limit need : Nat}

/-! ## Multiplying by one limb -/

/-- After `k` rounds: the first `k` limbs times `m`, in `out` and the carry. -/
def ScaleInv (a : List Int) (m : Int) (s : LimbState) : Prop :=
  ∃ k : Nat, s.i = k ∧ k ≤ a.length ∧ Digits base s.out ∧ s.out.length = k ∧
    (0 ≤ s.carry ∧ s.carry < base) ∧
    value base (a.take k) * m = value base s.out + base ^ k * s.carry

theorem scaleRound_meets {a : List Int} {m : Int} (ha : Limbs a) (hm : 0 ≤ m ∧ m ≤ base)
    (hneed : a.length ≤ need) {s : LimbState} (hs : ScaleInv a m s) (hi : s.i < a.length) :
    Fits limit need (scaleRound limit a m s) fun s' =>
      ScaleInv a m s' ∧ s.i < s'.i := by
  obtain ⟨k, hk, -, hout, hlen, hcarry, hprod⟩ := hs
  have hstored := ha.stored
  have hx := ha.digits.getD base_pos k
  have hbase := base_eq
  have hbounds := product_bounds hx hm
  unfold scaleRound
  rw [hk, get_natCast, ok_bind]
  set x := a.getD k 0 with hxdef
  rw [intMul_bind (by omega) (by omega),
    intAdd_bind (by omega) (by omega), intMod_ok base_pos, ok_bind]
  set t := x * m + s.carry with ht
  obtain ⟨hsplit, hlimb, hdiv⟩ :=
    carry_split (show 0 ≤ t by omega) (show t < base * base by rw [hbase]; omega)
  refine (append_meets (by omega)).bind ?_
  rintro _ ⟨rfl, -⟩
  rw [intDiv_bind base_pos (by omega) (by omega),
    intAdd_bind (by omega) (by omega)]
  refine ok ⟨⟨k + 1, by simp, by omega, hout.concat hlimb.1 hlimb.2, by simp [hlen],
    hdiv, ?_⟩, by simp only; omega⟩
  rw [value_take_succ, ← hxdef, value_concat, hlen, pow_succ]
  linear_combination hprod - base ^ k * hsplit

/-- The carry that is left over is one limb. -/
def FlushInv (need : Nat) (v : Int) (s : LimbState) : Prop :=
  Digits base s.out ∧ s.out.length ≤ need ∧ (0 ≤ s.carry ∧ s.carry < base) ∧
    v = value base s.out + base ^ s.out.length * s.carry

theorem flushRound_meets {v : Int} (hfits : v < base ^ need) {s : LimbState}
    (hs : FlushInv need v s) (hpos : 0 < s.carry) :
    Fits limit need (flushRound limit s) fun s' =>
      FlushInv need v s' ∧ s'.carry - 1 < s.carry - 1 := by
  obtain ⟨hout, -, hcarry, hv⟩ := hs
  have hroom : s.out.length < need := lt_need_of_pow_le (pow_le_of_carry hout hpos hv) hfits
  have hmod : s.carry % base = s.carry := Int.emod_eq_of_lt hcarry.1 hcarry.2
  have hdiv : s.carry / base = 0 := Int.ediv_eq_zero_of_lt hcarry.1 hcarry.2
  unfold flushRound
  rw [intMod_ok base_pos, ok_bind, hmod]
  refine (append_meets hroom).bind ?_
  rintro _ ⟨rfl, -⟩
  rw [intDiv_bind base_pos (by omega) (by omega), hdiv]
  refine ok ⟨⟨hout.concat hcarry.1 hcarry.2, by simpa using hroom, by simp [base_pos], ?_⟩,
    Int.sub_lt_sub_right hpos 1⟩
  rw [value_concat, mul_zero, add_zero, hv]

/-- `mag_mul_small`, for `m` up to the base itself, as the division uses it. -/
theorem magMulSmall_meets {a : List Int} {m : Int} (ha : Limbs a) (hm : 0 ≤ m ∧ m ≤ base)
    (hneed : a.length ≤ need) (hstored : need < 2 ^ 62) (hfits : value base a * m < base ^ need) :
    Fits limit need (magMulSmall limit a m)
      (IsMag limit need (value base a * m)) := by
  unfold magMulSmall
  refine ite (fun hzero => ?_) (fun hne => ?_)
  · rw [hzero, mul_zero]
    exact ok ⟨Digits.nil, Trimmed.nil, rfl, Nat.zero_le _, Nat.zero_le _⟩
  · refine bind (countUp a.length (ScaleInv a m)
      (fun s hs hgo => scaleRound_meets ha hm hneed hs hgo)
      ⟨0, rfl, by omega, Digits.nil, rfl, ⟨le_refl 0, base_pos⟩, by simp⟩ (by simp)) ?_
    rintro s ⟨⟨k, hk, hka, hout, hlen, hcarry, hprod⟩, hstop⟩
    have hall : k = a.length := by omega
    rw [hall, take_length, ← hall, ← hlen] at hprod
    refine bind (countDown (FlushInv need (value base a * m)) (·.carry - 1)
      (fun s hs hgo => flushRound_meets hfits hs hgo) (fun s hgo => by omega)
      ⟨hout, by omega, hcarry, hprod⟩ (by omega)) ?_
    rintro f ⟨⟨hfout, hflen, hfcarry, hfv⟩, hfstop⟩
    have hc : f.carry = 0 := by omega
    rw [hc, mul_zero, add_zero] at hfv
    rw [hfv]
    exact magNormalize_meets ⟨hfout, by omega⟩ hflen

/-! ## The limb of the quotient -/

/-- The divisor of a division: a magnitude that is not zero and leaves room for one more
    limb within `need`. -/
structure Divisor (need : Nat) (b : List Int) : Prop extends Magnitude b where
  nonempty : b ≠ []
  room : value base b * base ≤ base ^ need
  enough : 2 ≤ need
  indexed : need < 2 ^ 62

theorem Divisor.value_pos {b : List Int} (hb : Divisor need b) : 0 < value base b :=
  hb.normal.value_pos one_lt_base hb.digits hb.nonempty

theorem Divisor.length_le {b : List Int} (hb : Divisor need b) : b.length ≤ need := by
  have hpos := hb.value_pos
  have hlt : value base b * 1 < value base b * base :=
    mul_lt_mul_of_pos_left one_lt_base hpos
  exact hb.normal.length_le_of_value_lt one_lt_base hb.digits
    (by rw [mul_one] at hlt; exact lt_of_lt_of_le hlt hb.room)

/-- The divisor times a limb, as every probe of the search computes it. -/
theorem Divisor.scale_meets {b : List Int} (hb : Divisor need b) {d : Int} (hd : 0 ≤ d ∧ d < base) :
    Fits limit need (magMulSmall limit b d)
      (IsMag limit need (value base b * d)) := by
  have hlt : value base b * d < value base b * base := mul_lt_mul_of_pos_left hd.2 hb.value_pos
  exact magMulSmall_meets hb.toLimbs ⟨hd.1, hd.2.le⟩ hb.length_le hb.indexed
    (lt_of_lt_of_le hlt hb.room)

/-- All that is at most `qd` fits into the remainder, nothing above `hi` does. -/
def SearchInv (b rem : List Int) (s : SearchState) : Prop :=
  (0 ≤ s.lo ∧ s.lo ≤ s.hi + 1 ∧ s.hi < base) ∧
    ((s.lo = 0 ∧ s.qd = 0) ∨ s.lo = s.qd + 1) ∧ (0 ≤ s.qd ∧ s.qd < base) ∧
    value base b * s.qd ≤ value base rem ∧ value base rem < value base b * (s.hi + 1)

theorem probeRound_meets {b rem : List Int} (hb : Divisor need b) (hrem : Magnitude rem)
    {s : SearchState} (hs : SearchInv b rem s) (hgo : s.lo ≤ s.hi) :
    Fits limit need (probeRound limit b rem s) fun s' =>
      SearchInv b rem s' ∧ s'.hi - s'.lo < s.hi - s.lo := by
  obtain ⟨hrange, hlast, hqd, hlow, hhigh⟩ := hs
  have hbase := base_eq
  unfold probeRound
  rw [intAdd_bind (by omega) (by omega),
    intDiv_bind (by omega) (by omega) (by omega)]
  have hmid : s.lo ≤ (s.lo + s.hi) / 2 ∧ (s.lo + s.hi) / 2 ≤ s.hi := by omega
  generalize (s.lo + s.hi) / 2 = mid at hmid
  refine (hb.scale_meets (by omega)).bind fun prod hprod => ?_
  refine (magCmp_meets (hprod.magnitude hb.indexed) hrem).bind fun c hc => ?_
  rw [hprod.value_eq] at hc
  refine ite (fun hle => ?_) (fun hgt => ?_)
  · have hfits : value base b * mid ≤ value base rem := by
      rcases hc with h | h | h <;> omega
    rw [intAdd_bind (by omega) (by omega)]
    exact ok ⟨⟨by simp only; omega, Or.inr rfl, by simp only; omega, hfits, hhigh⟩,
      by simp only; omega⟩
  · have hover : value base rem < value base b * mid := by
      rcases hc with h | h | h <;> omega
    rw [intSub_bind (by omega) (by omega)]
    refine ok ⟨⟨by simp only; omega, hlast, hqd, hlow, ?_⟩, by simp only; omega⟩
    simpa using hover

/-- The binary search finds the limb of the quotient. -/
theorem search_meets {b rem : List Int} (hb : Divisor need b) (hrem : Magnitude rem)
    (hbelow : value base rem < value base b * base) : Fits limit need
      (whileLoop .timeout (fun p : SearchState => .ok (decide (p.lo ≤ p.hi)))
        (probeRound limit b rem) base.toNat ⟨0, base - 1, 0⟩) fun found =>
        (0 ≤ found.qd ∧ found.qd < base) ∧ value base b * found.qd ≤ value base rem ∧
          value base rem < value base b * (found.qd + 1) := by
  have hbase := base_eq
  have hnonneg : 0 ≤ value base rem := value_nonneg base_pos hrem.digits
  refine (countDown (SearchInv b rem) (fun p => p.hi - p.lo)
    (fun s hs hgo => probeRound_meets hb hrem hs hgo) (fun s hgo => Int.sub_nonneg_of_le hgo)
    ?init (by simp only; omega)).mono ?rest
  case init =>
    refine ⟨by simp only; omega, Or.inl ⟨rfl, rfl⟩, by simp [base_pos], by simpa using hnonneg, ?_⟩
    simpa using hbelow
  case rest =>
    rintro s ⟨⟨hrange, hlast, hqd, hlow, hhigh⟩, hstop⟩
    have hlast' : s.hi = s.qd := by
      rcases hlast with ⟨hlo0, -⟩ | h
      · -- nothing fits, not even zero times the divisor
        have hhi : s.hi + 1 = 0 := by omega
        rw [hhi, mul_zero] at hhigh
        omega
      · omega
    exact ⟨hqd, hlow, by rw [← hlast']; exact hhigh⟩

/-! ## The rounds of the division -/

/-- The limbs from `k` on have been divided. -/
def DivInv (a b : List Int) (s : DivState) : Prop :=
  ∃ k : Nat, s.i = (k : Int) - 1 ∧ k ≤ a.length ∧ Magnitude s.rem ∧
    value base s.rem < value base b ∧ Digits base s.qrev ∧ s.qrev.length + k = a.length ∧
    value base (a.drop k) = value base s.qrev.reverse * value base b + value base s.rem

/-- What is brought down is less than the divisor times the base. -/
theorem bringDown_lt {r d x : Int} (hr : r < d) (hx : x < base) : r * base + x < d * base := by
  have hstep : (r + 1) * base ≤ d * base := mul_le_mul_of_nonneg_right hr base_pos.le
  linarith

theorem bringDown_meets {b rem : List Int} (hb : Divisor need b) (hrem : Magnitude rem)
    (hless : value base rem < value base b) {x : Int} (hx : 0 ≤ x ∧ x < base) :
    Fits limit need (bringDown limit rem x)
      (IsMag limit need (value base rem * base + x)) := by
  have henough := hb.enough
  have hindexed := hb.indexed
  have hone : Limbs [x] := by
    refine ⟨?_, by simp⟩
    intro d hd
    rw [mem_singleton.mp hd]
    exact hx
  have hshort : rem.length ≤ need := by
    have hlt : value base rem < base ^ b.length :=
      lt_trans hless (value_lt_pow base_pos hb.digits)
    exact (hrem.normal.length_le_of_value_lt one_lt_base hrem.digits hlt).trans hb.length_le
  have hsum := lt_of_lt_of_le (bringDown_lt hless hx.2) hb.room
  unfold bringDown
  refine (append_meets (by simp only [length_nil]; omega)).bind ?_
  rintro _ ⟨rfl, -⟩
  refine (magMulSmall_meets hrem.toLimbs ⟨base_pos.le, le_refl _⟩ hshort hindexed
    (by linarith [hx.1])).bind fun scaled hscaled => ?_
  refine (magNormalize_meets hone (by simp only [length_singleton]; omega)).bind
    fun low hlow => ?_
  have hlowv : value base low = x := by
    rw [hlow.value_eq]
    simp
  have hv : value base scaled + value base low = value base rem * base + x := by
    rw [hscaled.value_eq, hlowv]
  rw [← hv]
  exact magAdd_meets (hscaled.magnitude hindexed).toLimbs (hlow.magnitude hindexed).toLimbs
    (max_le hscaled.length_le hlow.length_le) hindexed (by rw [hv]; exact hsum)

theorem divRound_meets {a b : List Int} (ha : Magnitude a) (hb : Divisor need b)
    (hneed : a.length ≤ need) {s : DivState} (hs : DivInv a b s) (hi : 0 ≤ s.i) :
    Fits limit need (divRound limit a b s) fun s' =>
      DivInv a b s' ∧ s'.i < s.i := by
  obtain ⟨k, hk, hka, hrem, hless, hqrev, hlen, hdiv⟩ := hs
  have hbase := base_eq
  have hindexed := hb.indexed
  have hx := ha.digits.getD base_pos (k - 1)
  have hindex : s.i = ((k - 1 : Nat) : Int) := by omega
  unfold divRound
  rw [hindex, get_natCast, ok_bind]
  refine (bringDown_meets hb hrem hless hx).bind fun down hdown => ?_
  have hdownM := hdown.magnitude hindexed
  refine (search_meets hb hdownM
    (by rw [hdown.value_eq]; exact bringDown_lt hless hx.2)).bind ?_
  rintro found ⟨hqd, hlow, hhigh⟩
  refine (hb.scale_meets hqd).bind fun taken htaken => ?_
  refine (magSub_meets hdownM (htaken.magnitude hindexed) hdown.length_le
    (by rw [htaken.value_eq]; exact hlow)).bind fun rem hrem' => ?_
  refine (append_meets (by omega)).bind ?_
  rintro _ ⟨rfl, -⟩
  rw [intSub_bind (by omega) (by omega)]
  have hleft : value base rem = value base down - value base b * found.qd := by
    rw [hrem'.value_eq, htaken.value_eq]
  refine ok ⟨⟨k - 1, rfl, by omega, hrem'.magnitude hindexed, ?_,
    hqrev.concat hqd.1 hqd.2, ?_, ?_⟩, by simp only; omega⟩
  · linarith
  · simp only [length_append, length_singleton]
    omega
  · have hsucc : k - 1 + 1 = k := by omega
    rw [value_drop, hsucc, hdiv, reverse_append, reverse_singleton,
      singleton_append, value_cons, hleft, hdown.value_eq]
    ring

/-- `mag_divmod` divides: the quotient and the remainder of the values. -/
theorem magDivmod_meets {a b : List Int} (ha : Magnitude a) (hb : Divisor need b)
    (hneed : a.length ≤ need) : Fits limit need (magDivmod limit a b) fun dm =>
      IsMag limit need (value base a / value base b) dm.quot ∧
        IsMag limit need (value base a % value base b) dm.rem := by
  have hnonneg : 0 ≤ value base a := value_nonneg base_pos ha.digits
  have hstored := ha.stored
  have hzero : magIsZero b = false := by
    have hne := hb.nonempty
    simpa [magIsZero, size] using hne
  unfold magDivmod
  rw [hzero, if_neg (by simp)]
  refine (magCmp_meets ha hb.toMagnitude).bind fun c hc => ?_
  refine ite (fun hless => ?_) (fun hge => ?_)
  · have hlt : value base a < value base b := by
      rcases hc with h | h | h <;> omega
    refine (magNormalize_meets ha.toLimbs hneed).bind fun rem hrem => ?_
    refine (ensureLen_meets "assoc" "map" hb.enough).bind fun _ _ => ?_
    rw [Int.ediv_eq_zero_of_lt hnonneg hlt, Int.emod_eq_of_lt hnonneg hlt]
    exact ok ⟨⟨Digits.nil, Trimmed.nil, rfl, Nat.zero_le _, Nat.zero_le _⟩, hrem⟩
  · rw [size, intSub_bind (by omega) (by omega)]
    refine bind (countDown (DivInv a b) (·.i)
      (fun s hs hgo => divRound_meets ha hb hneed hs hgo) (fun s hgo => hgo)
      ⟨a.length, rfl, le_refl _, ⟨⟨Digits.nil, by simp⟩, Trimmed.nil⟩, hb.value_pos, Digits.nil,
        by simp, by simp⟩ (by simp)) ?_
    rintro s ⟨⟨k, hk, -, hrem, hless, hqrev, hlen, hdiv⟩, hstop⟩
    have hk0 : k = 0 := by omega
    subst hk0
    rw [drop_zero] at hdiv
    refine (sequenceReverse_meets (by omega)).bind ?_
    rintro _ ⟨rfl, -⟩
    have hquotL : Limbs s.qrev.reverse := ⟨hqrev.reverse, by rw [length_reverse]; omega⟩
    have hremlen : s.rem.length ≤ need := by
      have hlt := lt_trans hless (value_lt_pow base_pos hb.digits)
      exact (hrem.normal.length_le_of_value_lt one_lt_base hrem.digits hlt).trans hb.length_le
    refine (magNormalize_meets hquotL (by rw [length_reverse]; omega)).bind
      fun quot hquot => ?_
    refine (magNormalize_meets hrem.toLimbs hremlen).bind fun rem hrem' => ?_
    refine (ensureLen_meets "assoc" "map" hb.enough).bind fun _ _ => ?_
    have hunique := (Int.ediv_emod_unique hb.value_pos).mpr
      ⟨show value base s.rem + value base b * value base s.qrev.reverse = value base a by
        rw [hdiv]; ring, value_nonneg base_pos hrem.digits, hless⟩
    rw [hunique.1, hunique.2]
    exact ok ⟨hquot, hrem'⟩

end Caap.Stdlib
