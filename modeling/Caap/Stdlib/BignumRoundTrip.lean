/-
  Caap.Stdlib.BignumRoundTrip

  When the conversions of bignums are faithful: for every kernel integer but the smallest,
  for every bignum but the one of that value, and for every text within the limit.
-/

import Caap.Stdlib.BignumText

namespace Caap.Stdlib

open Caap.Lib Caap.Lib.Positional

variable {limit : Nat} {a : Bignum} {radix : Int}

/-! ## What a returned bignum says about the limit -/

theorem meets_any {α : Type} {x : Result α} : Meets (fun _ => True) x fun _ => True :=
  ⟨fun _ _ => trivial, fun _ _ => trivial⟩

theorem ensureLen_any {context kind : String} {len : Nat} :
    Meets (fun _ => True) (ensureLen limit context kind len) fun _ => len ≤ limit :=
  (ensureLen_meets context kind (le_refl len)).allow fun _ _ => trivial

theorem bnMake_any {sign : Int} {limbs : List Int} :
    Meets (fun _ => True) (bnMake limit sign limbs) fun bn =>
      bn.limbs.length ≤ limit ∧ 2 ≤ limit := by
  have hnormalize : Meets (fun _ => True) (magNormalize limit limbs) fun ls =>
      ls.length ≤ limit := by
    unfold magNormalize sequenceSlice
    refine meets_any.bind fun n _ => ?_
    exact ensureLen_any.bind fun _ hlen => Meets.ok hlen
  unfold bnMake
  refine hnormalize.bind fun ls hls => ?_
  refine ensureLen_any.bind fun _ h2 => ?_
  exact Meets.ite (fun _ => Meets.ok ⟨Nat.zero_le _, h2⟩) (fun _ => Meets.ok ⟨hls, h2⟩)

theorem bnFromInt_any {n : Int} : Meets (fun _ => True) (bnFromInt limit n) fun bn =>
      bn.limbs.length ≤ limit ∧ 2 ≤ limit := by
  unfold bnFromInt bnZero
  refine Meets.ite (fun _ => ?_) (fun _ => ?_)
  · exact ensureLen_any.bind fun _ h2 => Meets.ok ⟨Nat.zero_le _, h2⟩
  · refine meets_any.bind fun m _ => ?_
    exact meets_any.bind fun s _ => bnMake_any

/-! ## Kernel integers -/

/-- `bn_to_int` after `bn_from_int` gives the integer back. -/
def IntRoundTrip (limit : Nat) (i : Int) : Prop :=
  (bnFromInt limit i >>= bnToInt limit) = .ok i

theorem not_outOfSpace {need : Nat} (h : need ≤ limit) (e : Failure) : ¬ OutOfSpace limit need e :=
  fun he => absurd he.1 (not_lt.mpr h)

theorem abs_le_maxInt {i : Int} (hi : InRange i) (hmin : i ≠ minInt) : |i| ≤ maxInt := by
  unfold InRange minInt maxInt at *
  rw [abs_le]
  omega

/-- Three limbs hold every kernel integer. -/
theorem abs_lt_pow_min {i : Int} (hi : |i| ≤ maxInt) (hlimit : |i| < base ^ limit) :
    |i| < base ^ min limit 3 := by
  have hcube : base ^ 3 = 1000000000000000000000000000 := by decide
  unfold maxInt at hi
  rcases Nat.le_total limit 3 with h | h
  · rw [Nat.min_eq_left h]
    exact hlimit
  · rw [Nat.min_eq_right h, hcube]
    omega

theorem intRoundTrip_iff {i : Int} (hi : InRange i) :
    IntRoundTrip limit i ↔ i ≠ minInt ∧ 2 ≤ limit ∧ |i| < base ^ limit := by
  constructor
  · intro htrip
    obtain ⟨bn, hbn, -⟩ := bind_eq_ok.mp htrip
    have hmin : i ≠ minInt := by
      rintro rfl
      exact nomatch hbn
    have hwithin := bnFromInt_any.of_eq_ok hbn
    have hcube : maxInt < base ^ 3 := by decide
    have hden := (bnFromInt_meets hi hmin (lt_of_le_of_lt (abs_le_maxInt hi hmin) hcube)
      ⟨by omega, by omega⟩).of_eq_ok hbn
    refine ⟨hmin, hwithin.2, ?_⟩
    rw [← hden.value_eq]
    exact lt_of_lt_of_le (abs_value_lt hden.normalised) (pow_limbs_le hwithin.1)
  · rintro ⟨hmin, h2, hfits⟩
    have hmax := abs_le_maxInt hi hmin
    obtain ⟨bn, hbn, hden⟩ := (bnFromInt_meets hi hmin (abs_lt_pow_min hmax hfits)
      ⟨by omega, by omega⟩).returns (not_outOfSpace (Nat.min_le_left _ _))
    have hlen := hden.length_le
    have hback : Meets (fun _ => maxInt < |bn.value|) (bnToInt limit bn) fun j =>
        j = bn.value ∧ |bn.value| ≤ maxInt := bnToInt_meets hden.normalised (by omega)
    obtain ⟨j, hj, hvalue, -⟩ := hback.returns
      (fun _ => by rw [hden.value_eq]; exact not_lt.mpr hmax)
    unfold IntRoundTrip
    rw [hbn, ok_bind, hj, hvalue, hden.value_eq]

/-- `bn_to_int` returns the value of a bignum that fits and fails on one that does not. -/
def ToIntFaithful (limit : Nat) (b : Bignum) : Prop :=
  (InRange b.value → bnToInt limit b = .ok b.value) ∧
    (¬ InRange b.value → ∃ e, bnToInt limit b = .error e)

theorem toIntFaithful_iff (ha : a.Normalised) (hlen : a.limbs.length < 2 ^ 62) :
    ToIntFaithful limit a ↔ a.value ≠ minInt := by
  have hmeets : Meets (fun _ => maxInt < |a.value|) (bnToInt limit a) fun j =>
      j = a.value ∧ |a.value| ≤ maxInt := bnToInt_meets ha hlen
  constructor
  · rintro ⟨hfits, -⟩ hmin
    have hrange : InRange a.value := by
      rw [hmin]
      decide
    have hmax := (hmeets.of_eq_ok (hfits hrange)).2
    rw [hmin] at hmax
    exact absurd hmax (by decide)
  · intro hmin
    refine ⟨fun hrange => ?_, fun hout => ?_⟩
    · obtain ⟨j, hj, hvalue, -⟩ := hmeets.returns fun _ =>
        not_lt.mpr (abs_le_maxInt hrange hmin)
      rw [hj, hvalue]
    · cases hrun : bnToInt limit a with
      | error e => exact ⟨e, rfl⟩
      | ok j =>
        have hmax := abs_le.mp (hmeets.of_eq_ok hrun).2
        refine absurd ⟨?_, hmax.2⟩ hout
        unfold minInt
        unfold maxInt at hmax
        omega

/-! ## Text -/

/-- Parsing the text of a bignum gives it back. -/
def TextRoundTrip (limit : Nat) (b : Bignum) (radix : Int) : Prop :=
  (bnFormat limit b radix >>= fun s => bnParse limit s radix) = .ok b

theorem signText_eq {a : Bignum} : signText a = signOf (decide (a.sign < 0)) := by
  unfold signText signOf
  by_cases h : a.sign < 0 <;> simp [h]

/-- The digits of a magnitude to the base two are enough for every radix. -/
theorem abs_value_lt_radix_pow (hr : 2 ≤ radix) (ha : a.Normalised) :
    |a.value| < radix ^ (30 * a.limbs.length) := by
  have hbase : base ≤ 2 ^ 30 := by decide
  have hpow : base ^ a.limbs.length ≤ (2 ^ 30) ^ a.limbs.length :=
    pow_le_pow_left₀ base_pos.le hbase _
  have hradix : (2 : Int) ^ (30 * a.limbs.length) ≤ radix ^ (30 * a.limbs.length) :=
    pow_le_pow_left₀ (by omega) hr _
  rw [← pow_mul] at hpow
  exact lt_of_lt_of_le (abs_value_lt ha) (hpow.trans hradix)

theorem textRoundTrip_only_if (hr : 2 ≤ radix ∧ radix ≤ 36) (ha : a.Normalised)
    (hlen : a.limbs.length < 2 ^ 58) (htrip : TextRoundTrip limit a radix) :
    2 ≤ limit ∧ |a.value| < radix ^ (limit - (signText a).length) := by
  obtain ⟨s, hs, hparse⟩ := bind_eq_ok.mp htrip
  constructor
  · have hlimit : Meets (fun _ => True) (bnParse limit s radix) fun _ => 2 ≤ limit := by
      unfold bnParse
      refine meets_any.bind fun _ _ => ?_
      refine meets_any.bind fun _ _ => ?_
      refine bnFromInt_any.bind fun _ h2 => ?_
      exact meets_any.mono fun _ _ => h2.2
    exact hlimit.of_eq_ok hparse
  · by_cases hzero : a.value = 0
    · rw [hzero, abs_zero]
      exact pow_pos (by omega) _
    · have hsign := length_signText a
      have hpow : radix ^ (30 * a.limbs.length) ≤
          radix ^ (30 * a.limbs.length + 2 - (signText a).length) :=
        pow_le_pow_right₀ (by omega) (by omega)
      obtain ⟨ds, hds, rfl, -, hlimit⟩ := (bnFormat_meets hr ha hzero (le_max_right 2 _)
        ⟨le_max_left 2 _, by omega⟩ (by omega)
        (lt_of_lt_of_le (abs_value_lt_radix_pow hr.1 ha) hpow)).of_eq_ok hs
      rw [List.length_append, length_numeral] at hlimit
      rw [← hds.value_eq]
      exact lt_of_lt_of_le (value_lt_pow (by omega) hds.digits)
        (pow_le_pow_right₀ (by omega) (by omega))

/-- A parsed numeral is the bignum it was written from. -/
theorem bnParse_numeral (hr : 2 ≤ radix ∧ radix ≤ 36) (ha : a.Normalised)
    (hlen : a.limbs.length < 2 ^ 58) {ds : List Int} (hds : IsNumeral radix |a.value| ds)
    (hsize : ds.length < 2 ^ 63) (h2 : 2 ≤ limit) (hlimit : ds.length ≤ limit) :
    bnParse limit (signText a ++ numeral ds) radix = .ok a := by
  have hvalue : value radix ds < base ^ a.limbs.length := by
    rw [hds.value_eq]
    exact abs_value_lt ha
  have hmeets : Meets (OutOfSpace limit limit)
      (bnParse limit (signOf (decide (a.sign < 0)) ++ numeral ds) radix)
      (Exact (if decide (a.sign < 0) then -value radix ds else value radix ds)) := by
    refine bnParse_meets hr hds.digits hds.nonempty _ hvalue
      ⟨le_max_left 2 (min ds.length (a.limbs.length + 1)), ?_⟩ (le_max_right _ _) ?_ hlimit hsize
    · omega
    · omega
  obtain ⟨bn, hbn, hnormal, hv⟩ := hmeets.returns (not_outOfSpace (le_refl limit))
  have hsame : bn.value = a.value := by
    rw [hv, hds.value_eq]
    rcases sign_cases ha with ⟨hs, h⟩ | ⟨hs, h⟩ | ⟨hs, h⟩
    · rw [hs, h]
      simp
    · rw [hs, abs_of_pos h]
      simp
    · rw [hs, abs_of_neg h]
      simp
  rw [signText_eq, hbn, hnormal.eq_of_value_eq ha hsame]

theorem textRoundTrip_if (hr : 2 ≤ radix ∧ radix ≤ 36) (ha : a.Normalised)
    (hlen : a.limbs.length < 2 ^ 58) (h2 : 2 ≤ limit)
    (hfits : |a.value| < radix ^ (limit - (signText a).length)) : TextRoundTrip limit a radix := by
  unfold TextRoundTrip
  by_cases hzero : a.value = 0
  · have hsign : signText a = [] := by
      rcases sign_cases ha with h | h | h
      · rw [signText, h.1]
        rfl
      · omega
      · omega
    have hnum : IsNumeral radix |a.value| [0] := by
      refine ⟨?_, by rw [hzero]; simp, by simp⟩
      intro d hd
      rw [List.mem_singleton.mp hd]
      omega
    have hparse := bnParse_numeral hr ha hlen hnum (by simp) h2 (by simp only [List.length_singleton]; omega)
    rw [hsign, List.nil_append] at hparse
    rw [bnFormat_zero hr ha hzero, ok_bind, hparse]
  · -- the digits are at most the limit and at most thirty a limb
    have hsign := length_signText a
    have hcount : |a.value| <
        radix ^ (min limit (30 * a.limbs.length + 2) - (signText a).length) := by
      rcases Nat.le_total limit (30 * a.limbs.length + 2) with h | h
      · rw [Nat.min_eq_left h]
        exact hfits
      · exact lt_of_lt_of_le (abs_value_lt_radix_pow hr.1 ha)
          (pow_le_pow_right₀ (by omega) (by omega))
    have hlimbs : a.limbs.length ≤ limit := by
      refine ha.normal.length_le_of_value_lt one_lt_base ha.digits ?_
      have hbase := base_eq
      have hpow : radix ^ (limit - (signText a).length) ≤ base ^ (limit - (signText a).length) :=
        pow_le_pow_left₀ (by omega) (by omega) _
      rw [← ha.abs_value]
      exact lt_of_lt_of_le hfits (hpow.trans (pow_limbs_le (Nat.sub_le _ _)))
    have hformat : Meets (OutOfSpace limit (min limit (30 * a.limbs.length + 2)))
        (bnFormat limit a radix)
        (Formatted limit (min limit (30 * a.limbs.length + 2)) a radix) :=
      bnFormat_meets hr ha hzero (le_max_right 2 _) ⟨le_max_left 2 _, by omega⟩ (by omega) hcount
    obtain ⟨s, hs, ds, hds, rfl, hdslen, hlimit⟩ :=
      hformat.returns (not_outOfSpace (Nat.min_le_left _ _))
    rw [hs, ok_bind]
    exact bnParse_numeral hr ha hlen hds (by omega) h2 (by omega)

/-! ## All conversions -/

/-- The conversions are faithful for an integer, a bignum and a radix exactly when neither
    is the smallest kernel integer and the limit has room for the limbs of the integer and
    the text of the bignum. -/
theorem conversions_faithful_iff (limit : Nat) (i : Int) (hi : InRange i) (b : StoredBignum)
    (radix : Int) (hr : 2 ≤ radix ∧ radix ≤ 36) :
    (IntRoundTrip limit i ∧ ToIntFaithful limit b.toBignum ∧ TextRoundTrip limit b.toBignum radix) ↔
      (i ≠ minInt ∧ b.value ≠ minInt) ∧ 2 ≤ limit ∧ |i| < base ^ limit ∧
        |b.value| < radix ^ (limit - (signText b.toBignum).length) := by
  have hb := b.normalised
  have hlen := b.stored
  rw [intRoundTrip_iff hi, toIntFaithful_iff hb (by omega)]
  constructor
  · rintro ⟨⟨hmin, h2, hfits⟩, hvalue, htext⟩
    exact ⟨⟨hmin, hvalue⟩, h2, hfits, (textRoundTrip_only_if hr hb hlen htext).2⟩
  · rintro ⟨⟨hmin, hvalue⟩, h2, hfits, htext⟩
    exact ⟨⟨hmin, h2, hfits⟩, hvalue, textRoundTrip_if hr hb hlen h2 htext⟩

theorem conversions_faithful_seven : (InRange (-7) ∧ (2 : Int) ≤ 16 ∧ (16 : Int) ≤ 36) ∧
      ((IntRoundTrip 100 (-7) ∧ ToIntFaithful 100 StoredBignum.seven.toBignum ∧
          TextRoundTrip 100 StoredBignum.seven.toBignum 16) ↔
        ((-7 : Int) ≠ minInt ∧ StoredBignum.seven.value ≠ minInt) ∧ 2 ≤ 100 ∧
          |(-7 : Int)| < base ^ 100 ∧
          |StoredBignum.seven.value| <
            (16 : Int) ^ (100 - (signText StoredBignum.seven.toBignum).length)) := by
  have hi : InRange (-7) := by decide
  have hr : (2 : Int) ≤ 16 ∧ (16 : Int) ≤ 36 := by decide
  exact ⟨⟨hi, hr⟩, conversions_faithful_iff 100 (-7) hi StoredBignum.seven 16 hr⟩

/-- The smallest kernel integer is refused in both directions: it has no bignum, and the
    bignum with its value, which fits, is not returned. -/
theorem smallest_integer_refused : InRange minInt ∧ bnFromInt 1000000 minInt =
        .error (.error "int_abs: integer overflow (abs(-9223372036854775808))") ∧
      bnToInt 1000000 ⟨-1, [854775808, 223372036, 9]⟩ =
        .error (.raised "stdlib.numeric.bignum.overflow"
          "bignum does not fit in a kernel int".toList none) ∧
      Bignum.value ⟨-1, [854775808, 223372036, 9]⟩ = minInt := by
  refine ⟨by decide, bnFromInt_minInt 1000000, by decide, by decide⟩

end Caap.Stdlib
