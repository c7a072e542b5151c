/-
  Caap.Stdlib.BignumText

  Numerals: `bn_format` writes the digits of the magnitude to the radix, for the radix ten
  limb by limb with zeros in between, and `bn_parse` folds the digits back.  The two are
  inverse wherever the text is not longer than the limit.
-/

import Caap.Stdlib.BignumInt

namespace Caap.Stdlib

open Caap.Lib Caap.Lib.Positional Meets List Int

variable {limit need : Nat} {a : Bignum} {radix : Int}

/-! ## Digits and their characters -/

/-- The character of a digit. -/
def digitSymbol (d : Int) : Char :=
  "0123456789abcdefghijklmnopqrstuvwxyz".toList.getD d.toNat '0'

/-- The text of a little-endian list of digits, the highest first. -/
def numeral (ds : List Int) : Str := (ds.map digitSymbol).reverse

@[simp] theorem length_numeral (ds : List Int) : (numeral ds).length = ds.length := by
  simp [numeral]

theorem numeral_append (ds es : List Int) : numeral (ds ++ es) = numeral es ++ numeral ds := by
  simp [numeral]

theorem digitChar_eq {v : Int} (h0 : 0 ≤ v) (h1 : v < 36) : digitChar v = .ok [digitSymbol v] := by
  have hall : ∀ n : Fin 36, digitChar (n.val : Int) = .ok [digitSymbol (n.val : Int)] := by
    decide
  have hv := hall ⟨v.toNat, by omega⟩
  rwa [toNat_of_nonneg h0] at hv

theorem digitRank_symbol {d : Int} (h0 : 0 ≤ d) (h1 : d < 36) : digitRank [digitSymbol d] = d := by
  have hall : ∀ n : Fin 36, digitRank [digitSymbol (n.val : Int)] = (n.val : Int) := by
    decide
  have hd := hall ⟨d.toNat, by omega⟩
  rwa [toNat_of_nonneg h0] at hd

theorem digitValue_symbol {d : Int} (h0 : 0 ≤ d) (h1 : d < radix) (hr : radix ≤ 36) :
    digitValue [digitSymbol d] radix = d := by
  have hrank : digitRank [digitSymbol d] = d := digitRank_symbol h0 (by omega)
  unfold digitValue
  rw [if_neg (by simp [size]), hrank, if_pos ⟨h0, h1⟩]

/-- No digit looks like a sign. -/
theorem digitSymbol_ne_sign {d : Int} (h0 : 0 ≤ d) (h1 : d < 36) :
    digitSymbol d ≠ '-' ∧ digitSymbol d ≠ '+' := by
  have hall : ∀ n : Fin 36,
      digitSymbol (n.val : Int) ≠ '-' ∧ digitSymbol (n.val : Int) ≠ '+' := by decide +kernel
  have hd := hall ⟨d.toNat, by omega⟩
  rwa [toNat_of_nonneg h0] at hd

theorem digitChar_nat {d : Nat} (hd : d < 10) : Nat.digitChar d = digitSymbol d := by
  have hall : ∀ n : Fin 10, Nat.digitChar n.val = digitSymbol (n.val : Int) := by decide
  exact hall ⟨d, hd⟩

/-! ## Decimal text of a kernel integer -/

/-- Decimal digits of a natural number, in its text without leading zeros. -/
theorem toDigits_numeral (n : Nat) :
    ∃ es, es ≠ [] ∧ Digits 10 es ∧ value 10 es = n ∧ Nat.toDigits 10 n = numeral es ∧
      (0 < n → Trimmed es) ∧ (n = 0 → es = [0]) := by
  induction n using Nat.strong_induction_on with
  | _ n ih =>
    by_cases hsmall : n < 10
    · refine ⟨[(n : Int)], by simp, ?_, by simp, ?_, ?_, ?_⟩
      · intro d hd
        rw [mem_singleton.mp hd]
        omega
      · rw [Nat.toDigits_of_lt_base hsmall, digitChar_nat hsmall]
        rfl
      · intro hpos
        have hne : (n : Int) ≠ 0 := by omega
        simpa [Trimmed] using hne
      · rintro rfl
        rfl
    · obtain ⟨es, hne, hdigits, hvalue, htext, htrim, -⟩ := ih (n / 10) (by omega)
      refine ⟨((n % 10 : Nat) : Int) :: es, by simp, ?_, ?_, ?_, ?_, by omega⟩
      · intro d hd
        rcases mem_cons.mp hd with rfl | hd
        · omega
        · exact hdigits d hd
      · rw [value_cons, hvalue]
        omega
      · rw [Nat.toDigits_of_base_le (by omega) (by omega), htext, digitChar_nat (by omega)]
        simp [numeral]
      · intro _
        have htop := htrim (by omega)
        unfold Trimmed at htop ⊢
        rwa [getLast?_cons_of_ne_nil hne]

theorem intToString_numeral {n : Int} (hn : 0 ≤ n) :
    ∃ es, es ≠ [] ∧ Digits 10 es ∧ value 10 es = n ∧ intToString n = numeral es ∧
      (0 < n → Trimmed es) ∧ (n = 0 → es = [0]) := by
  obtain ⟨m, rfl⟩ := eq_ofNat_of_zero_le hn
  obtain ⟨es, hne, hdigits, hvalue, htext, htrim, hzero⟩ := toDigits_numeral m
  refine ⟨es, hne, hdigits, hvalue, ?_, fun h => htrim (by omega), fun h => hzero (by omega)⟩
  rw [← htext, ← Nat.toList_repr]
  rfl

/-! ## Formatting -/

theorem stringConcatMany_meets {parts : List Str} (h : parts.flatten.length ≤ need) :
    Fits limit need (stringConcatMany limit parts) fun out =>
      out = parts.flatten ∧ out.length ≤ limit := by
  unfold stringConcatMany
  refine (ensureLen_meets "string_concat_many" "string" h).bind fun _ hlen => ?_
  exact ok ⟨rfl, hlen⟩

/-- A list of digits for a number to a radix, leading zeros allowed. -/
structure IsNumeral (radix v : Int) (ds : List Int) : Prop where
  digits : Digits radix ds
  value_eq : value radix ds = v
  nonempty : ds ≠ []

/-- What `bn_format` returns for a bignum that is not zero. -/
def Formatted (limit need : Nat) (a : Bignum) (radix : Int) (s : Str) : Prop :=
  ∃ ds, IsNumeral radix |a.value| ds ∧ s = signText a ++ numeral ds ∧ ds.length ≤ need ∧
    s.length ≤ limit

/-- The text of the limbs from `k` on. -/
def PadInv (ls : List Int) (s : TextState) : Prop :=
  ∃ (k : Nat) (ds : List Int), s.i = (k : Int) - 1 ∧ k ≤ ls.length ∧ ds ≠ [] ∧ Digits 10 ds ∧
    Trimmed ds ∧ value 10 ds = value base (ls.drop k) ∧ s.out = numeral ds

theorem zeros_numeral (n : Nat) :
    (replicate n ['0']).flatten = numeral (replicate n 0) := by
  have hzero : digitSymbol 0 = '0' := by decide
  rw [numeral, map_replicate, reverse_replicate, hzero]
  induction n with
  | zero => rfl
  | succ n ih => rw [replicate_succ, flatten_cons, ih, replicate_succ]; rfl

/-- The digits of one limb below the text of the limbs above it. -/
theorem paddedLimb {es ds : List Int} {limb high : Int} (hes : Digits 10 es)
    (hvalue : value 10 es = limb) (hshort : es.length ≤ 9) (hds : Digits 10 ds)
    (hhigh : value 10 ds = high) (htrim : Trimmed ds) (hne : ds ≠ []) :
    Digits 10 (es ++ (replicate (9 - es.length) 0 ++ ds)) ∧
      Trimmed (es ++ (replicate (9 - es.length) 0 ++ ds)) ∧
      value 10 (es ++ (replicate (9 - es.length) 0 ++ ds)) = limb + base * high ∧
      (es ++ (replicate (9 - es.length) 0 ++ ds)).length = ds.length + 9 := by
  refine ⟨?_, ?_, ?_, ?_⟩
  · intro d hd
    rcases mem_append.mp hd with hd | hd
    · exact hes d hd
    · rcases mem_append.mp hd with hd | hd
      · rw [eq_of_mem_replicate hd]
        decide
      · exact hds d hd
  · unfold Trimmed at htrim ⊢
    rw [getLast?_append_of_ne_nil _ (by simp [hne]), getLast?_append_of_ne_nil _ hne]
    exact htrim
  · have hpow : (10 : Int) ^ es.length * 10 ^ (9 - es.length) = base := by
      rw [← pow_add, Nat.add_sub_cancel' hshort]
      rfl
    rw [value_append, value_append, value_replicate_zero, length_replicate, hvalue, hhigh,
      zero_add, ← mul_assoc, hpow]
  · simp only [length_append, length_replicate]
    omega

theorem padRound_meets {ls : List Int} (hls : Limbs ls) (hfits : value base ls < 10 ^ need)
    {s : TextState} (hs : PadInv ls s) (hi : 0 ≤ s.i) :
    Fits limit need (padRound limit ls s) fun s' =>
      PadInv ls s' ∧ s'.i < s.i := by
  obtain ⟨k, ds, hk, hkl, hne, hdigits, htrim, hvalue, hout⟩ := hs
  have hstored := hls.stored
  have hlimb := hls.digits.getD base_pos (k - 1)
  have hindex : s.i = ((k - 1 : Nat) : Int) := by omega
  unfold padRound
  rw [hindex, get_natCast, ok_bind]
  obtain ⟨es, hesne, hes, hesv, htext, hestrim, heszero⟩ := intToString_numeral hlimb.1
  have hshort : es.length ≤ 9 := by
    by_cases hz : ls.getD (k - 1) 0 = 0
    · rw [heszero hz]
      simp
    · refine (hestrim (by omega)).length_le_of_value_lt (by decide) hes ?_
      rw [hesv]
      exact hlimb.2
  obtain ⟨hnew, hnewtrim, hnewv, hnewlen⟩ :=
    paddedLimb hes hesv hshort hdigits hvalue htrim hne
  have hdrop : value base (ls.drop (k - 1)) =
      ls.getD (k - 1) 0 + base * value base (ls.drop k) := by
    rw [value_drop, Nat.sub_add_cancel (by omega)]
  have hroom : ds.length + 9 ≤ need := by
    rw [← hnewlen]
    refine hnewtrim.length_le_of_value_lt (by decide) hnew ?_
    rw [hnewv, ← hdrop]
    exact lt_of_le_of_lt (value_drop_le one_lt_base.le hls.digits _) hfits
  have hsize : size (intToString (ls.getD (k - 1) 0)) = es.length := by
    rw [htext, size, length_numeral]
  have hpad : baseDigits - (es.length : Int) = ((9 - es.length : Nat) : Int) := by
    unfold baseDigits
    omega
  simp only [hsize]
  rw [intSub_bind (by unfold baseDigits; omega) (by unfold baseDigits; omega), hpad, stringRepeat, if_neg (by omega), toNat_natCast]
  refine bind (P := fun zeros => zeros = numeral (replicate (9 - es.length) 0)) ?_ ?_
  · refine (ensureLen_meets "string_repeat" "string"
      (by simp only [length_singleton]; omega)).bind fun _ _ => ?_
    exact ok (zeros_numeral _)
  · rintro _ rfl
    have hflat : [s.out, numeral (replicate (9 - es.length) 0),
        intToString (ls.getD (k - 1) 0)].flatten =
        numeral (es ++ (replicate (9 - es.length) 0 ++ ds)) := by
      rw [numeral_append, numeral_append, hout, htext]
      simp
    refine (stringConcatMany_meets (by rw [hflat, length_numeral, hnewlen]; exact hroom)).bind ?_
    rintro _ ⟨rfl, -⟩
    rw [intSub_bind (by omega) (by omega)]
    refine ok ⟨⟨k - 1, _, rfl, by omega, by simp [hesne], hnew, hnewtrim, ?_, hflat⟩,
      by simp only; omega⟩
    rw [hnewv, hdrop]

theorem length_signText (a : Bignum) : (signText a).length ≤ 1 := by
  unfold signText
  split <;> simp

/-- `bn_format` to the radix ten. -/
theorem formatDecimal_meets (ha : a.Normalised) (hlen : a.limbs.length < 2 ^ 62)
    (hne : a.value ≠ 0) (hneed : (signText a).length ≤ need)
    (hfits : |a.value| < 10 ^ (need - (signText a).length)) :
    Fits limit need (formatDecimal limit a) (Formatted limit need a 10) := by
  have hsome := (ha.of_ne_zero hne).1
  have hpos : 0 < a.limbs.length := length_pos_iff.mpr hsome
  rw [ha.abs_value] at hfits
  have hloose : value base a.limbs < 10 ^ need :=
    lt_of_lt_of_le hfits (pow_le_pow_right₀ (by decide) (Nat.sub_le _ _))
  have htop : 0 ≤ a.limbs.getD (a.limbs.length - 1) 0 := (ha.digits.getD base_pos _).1
  have htopne : a.limbs.getD (a.limbs.length - 1) 0 ≠ 0 := by
    have hlast := ha.normal
    unfold Trimmed at hlast
    rw [getLast?_eq_getElem?] at hlast
    rw [getD_eq_getElem?_getD]
    intro hz
    rw [getElem?_eq_getElem (by omega)] at hz hlast
    exact hlast (congrArg some hz)
  obtain ⟨es, hesne, hes, hesv, htext, hestrim, -⟩ := intToString_numeral htop
  have hindex : (a.limbs.length : Int) - 1 = ((a.limbs.length - 1 : Nat) : Int) := by omega
  unfold formatDecimal
  rw [size, intSub_bind (by omega) (by omega), hindex, get_natCast,
    ok_bind, intSub_bind (by omega) (by omega)]
  refine bind (countDown (PadInv a.limbs) (·.i)
    (fun s hs hgo => padRound_meets ⟨ha.digits, hlen⟩ hloose hs hgo) (fun s hgo => hgo)
    ?init (by simp only; omega)) ?rest
  case init =>
    refine ⟨a.limbs.length - 1, es, by simp only; omega, by omega, hesne, hes,
      hestrim (by omega), ?_, htext⟩
    rw [hesv, value_drop, Nat.sub_add_cancel hpos, drop_length, value_nil, mul_zero, add_zero]
  case rest =>
    rintro s ⟨⟨k, ds, hk, -, hdne, hdigits, htrim, hvalue, hout⟩, hstop⟩
    have hk0 : k = 0 := by omega
    rw [hk0, drop_zero] at hvalue
    have hshort : ds.length ≤ need - (signText a).length :=
      htrim.length_le_of_value_lt (by decide) hdigits (by rw [hvalue]; exact hfits)
    have hflat : [signText a, s.out].flatten = signText a ++ numeral ds := by
      rw [hout]
      simp
    refine (stringConcatMany_meets ?_).mono ?_
    · rw [hflat, length_append, length_numeral]
      omega
    · rintro _ ⟨rfl, hlimit⟩
      refine ⟨ds, ⟨hdigits, ?_, hdne⟩, hflat, by omega, hlimit⟩
      rw [hvalue, ha.abs_value]

/-! ### Other radices -/

/-- The radix as a bignum, a divisor of one limb. -/
theorem radix_room {room : Nat} (hr : 2 ≤ radix ∧ radix ≤ 36) (hroom : Room room) :
    |radix| < base ^ room ∧ |radix| * base ≤ base ^ room := by
  have hpow : base ^ 2 ≤ base ^ room := pow_limbs_le hroom.enough
  have hsq : base ^ 2 = 1000000000000000000 := by decide
  have hscaled : radix * base = radix * 1000000000 := by rw [base_eq]
  rw [abs_of_nonneg (by omega)]
  omega

/-- The digits split off so far, least significant first, and what is left. -/
def DigitInv (room most : Nat) (radix v : Int) (s : DigitState) : Prop :=
  ∃ ds, s.digits = ds.map (fun d => [digitSymbol d]) ∧ Digits radix ds ∧ ds.length ≤ most ∧
    s.mag.Normalised ∧ 0 ≤ s.mag.value ∧ s.mag.limbs.length ≤ room ∧
    v = value radix ds + radix ^ ds.length * s.mag.value

/-- Dividing by a radix takes at least one binary digit off. -/
theorem size_ediv_lt {m r : Int} (hm : 0 < m) (hr : 2 ≤ r) : (m / r).toNat.size < m.toNat.size := by
  have hpos : 0 < m.toNat.size := Nat.size_pos.mpr (by omega)
  have hself : m.toNat < 2 ^ m.toNat.size := Nat.lt_size_self _
  have hhalf : (m / r).toNat ≤ m.toNat / 2 := by
    obtain ⟨n, rfl⟩ := eq_ofNat_of_zero_le hm.le
    obtain ⟨k, rfl⟩ := eq_ofNat_of_zero_le (show 0 ≤ r by omega)
    exact Nat.div_le_div_left (by omega) (by omega)
  have hpow : 2 ^ m.toNat.size = 2 * 2 ^ (m.toNat.size - 1) := by
    rw [← pow_succ', Nat.sub_add_cancel hpos]
  have hlt : (m / r).toNat < 2 ^ (m.toNat.size - 1) := by omega
  have hsize := Nat.size_le.mpr hlt
  omega

theorem digitRound_meets {room most : Nat} {v : Int} {rbn : Bignum} (hr : 2 ≤ radix ∧ radix ≤ 36)
    (hrbn : Denotes room radix rbn) (hn : Room room) (hneed : room ≤ need) (hmost : most ≤ need)
    (hfits : v < radix ^ most) {s : DigitState}
    (hs : DigitInv room most radix v s) (hpos : s.mag.value ≠ 0) :
    Fits limit need (digitRound limit rbn s) fun s' =>
      DigitInv room most radix v s' ∧ s'.mag.value.toNat.size < s.mag.value.toNat.size := by
  obtain ⟨ds, hds, hdigits, -, hmag, hnonneg, hlen, hv⟩ := hs
  have hradix : 0 < radix := by omega
  have hroom : ds.length < most := by
    have hlow : radix ^ ds.length ≤ v := by
      have hdsv := value_nonneg hradix hdigits
      have hpow : 0 < radix ^ ds.length := pow_pos hradix _
      have hone : radix ^ ds.length * 1 ≤ radix ^ ds.length * s.mag.value :=
        mul_le_mul_of_nonneg_left (by omega) hpow.le
      omega
    exact (pow_lt_pow_iff_right₀ (by omega)).mp (lt_of_le_of_lt hlow hfits)
  unfold digitRound
  refine ((bnDivmod_meets hn (hmag.denotes hlen) hrbn hradix.ne' (radix_room hr hn).2).allow
    fun e he => he.mono hneed).bind ?_
  rintro dm ⟨hquot, hrem⟩
  rw [tdiv_eq_ediv_of_nonneg hnonneg] at hquot
  rw [tmod_eq_emod_of_nonneg hnonneg] at hrem
  have hrem0 : 0 ≤ s.mag.value % radix := emod_nonneg _ (by omega)
  have hrem1 : s.mag.value % radix < radix := emod_lt_of_pos _ hradix
  have hsmall : |dm.rem.value| ≤ maxInt := by
    rw [hrem.value_eq, abs_of_nonneg hrem0]
    unfold maxInt
    omega
  refine ((bnToInt_meets hrem.normalised (hrem.length_le.trans_lt hn.indexed)).allow
    fun e he => absurd he (not_lt.mpr hsmall)).bind ?_
  rintro _ ⟨rfl, -⟩
  rw [hrem.value_eq, digitChar_eq hrem0 (by omega), ok_bind]
  have hdslen : s.digits.length = ds.length := by simp [hds]
  refine (append_meets (by omega)).bind ?_
  rintro _ ⟨rfl, -⟩
  refine ok ⟨⟨ds ++ [s.mag.value % radix], by simp [hds], hdigits.concat hrem0 hrem1,
    by simpa using hroom, hquot.normalised, ?_, hquot.length_le, ?_⟩, ?_⟩
  · rw [hquot.value_eq]
    exact ediv_nonneg hnonneg hradix.le
  · rw [hquot.value_eq, value_concat, length_append, length_singleton, pow_succ]
    have hsplit := emod_add_mul_ediv s.mag.value radix
    linear_combination hv - radix ^ ds.length * hsplit
  · rw [hquot.value_eq]
    exact size_ediv_lt (by omega) hr.1

theorem joined_numeral (ds : List Int) :
    (ds.map fun d => [digitSymbol d]).reverse.flatten = numeral ds := by
  induction ds with
  | nil => rfl
  | cons d ds ih =>
    rw [map_cons, reverse_cons, flatten_append, ih]
    simp [numeral]

section

variable (hr : 2 ≤ radix ∧ radix ≤ 36)

include hr

/-- `bn_format` to a radix other than ten. -/
theorem formatRadix_meets {room : Nat} (ha : a.Normalised)
    (hne : a.value ≠ 0) (hlen : a.limbs.length ≤ room) (hn : Room room) (hneed : room ≤ need)
    (hfits : |a.value| < radix ^ (need - (signText a).length)) :
    Fits limit need (formatRadix limit a radix) (Formatted limit need a radix) := by
  have hsignlen := length_signText a
  have henough := hn.enough
  have hradixR : InRange radix := InRange.of_bounds (by omega) (by omega)
  have hspace : ∀ e, OutOfSpace limit room e → OutOfSpace limit need e :=
    fun e he => he.mono hneed
  unfold formatRadix
  refine ((bnFromInt_meets hradixR (by unfold minInt; omega) (radix_room hr hn).1 hn).allow
    hspace).bind fun rbn hrbn => ?_
  refine ((bnAbs_meets hn (ha.denotes hlen)).allow hspace).bind fun mag hmag => ?_
  have hpos : 0 < |a.value| := abs_pos.mpr hne
  refine bind (whileLoop
    (DigitInv room (need - (signText a).length) radix |a.value|)
    (fun s => s.mag.value ≠ 0) (fun s => s.mag.value.toNat.size)
    ?test ?body ?go ?init ?rounds) ?rest
  case test =>
    rintro s ⟨ds, -, -, -, hm, -⟩
    refine ok ?_
    rw [Bool.not_eq_true', Bool.eq_false_iff, ne_eq, hm.isZero_iff]
  case body =>
    intro s hs hgo
    exact digitRound_meets hr hrbn hn hneed (Nat.sub_le _ _) hfits hs hgo
  case go =>
    rintro s ⟨ds, -, -, -, -, hm, -⟩ hgo
    exact Nat.size_pos.mpr (by omega)
  case init =>
    refine ⟨[], rfl, Digits.nil, Nat.zero_le _, hmag.normalised, ?_, hmag.length_le, ?_⟩
    · rw [hmag.value_eq]
      exact hpos.le
    · rw [hmag.value_eq]
      simp
  case rounds =>
    refine Nat.size_le.mpr ?_
    have hlt : mag.value < base ^ mag.limbs.length := by
      have habs := abs_value_lt hmag.normalised
      rwa [hmag.value_eq, abs_abs, ← hmag.value_eq] at habs
    have hpow : base ^ mag.limbs.length ≤ 2 ^ formatRounds mag := by
      rw [formatRounds, pow_mul]
      exact pow_le_pow_left₀ base_pos.le (by decide) _
    have hnonneg : 0 ≤ mag.value := by
      rw [hmag.value_eq]
      exact hpos.le
    rw [← ofNat_lt, toNat_of_nonneg hnonneg]
    exact hlt.trans_le hpow
  case rest =>
    rintro s ⟨⟨ds, hds, hdigits, hdslen, -, -, -, hv⟩, hstop⟩
    rw [not_not.mp hstop, mul_zero, add_zero] at hv
    have hslen : s.digits.length = ds.length := by simp [hds]
    refine (sequenceReverse_meets (by omega)).bind ?_
    rintro _ ⟨rfl, -⟩
    have hjoin : s.digits.reverse.flatten = numeral ds := by rw [hds, joined_numeral]
    unfold sequenceJoin
    rw [hjoin, length_numeral]
    refine bind (P := fun joined => joined = numeral ds)
      ((ensureLen_meets "sequence_join" "string" (by omega)).bind fun _ _ => ok rfl) ?_
    rintro _ rfl
    have hflat : [signText a, numeral ds].flatten = signText a ++ numeral ds := by simp
    refine (stringConcatMany_meets ?_).mono ?_
    · rw [hflat, length_append, length_numeral]
      omega
    · rintro _ ⟨rfl, hlimit⟩
      refine ⟨ds, ⟨hdigits, hv.symm, ?_⟩, hflat, by omega, hlimit⟩
      rintro rfl
      rw [value_nil] at hv
      omega

theorem checkRadix_ok : checkRadix limit radix = .ok () := by
  unfold checkRadix
  rw [if_neg (by omega)]

/-- `bn_format` of a bignum that is not zero. -/
theorem bnFormat_meets {room : Nat} (ha : a.Normalised)
    (hne : a.value ≠ 0) (hlen : a.limbs.length ≤ room) (hn : Room room) (hneed : room ≤ need)
    (hfits : |a.value| < radix ^ (need - (signText a).length)) :
    Fits limit need (bnFormat limit a radix) (Formatted limit need a radix) := by
  have hzero : a.isZero = false := by
    rw [Bool.eq_false_iff]
    exact fun h => hne (ha.isZero_iff.mp h)
  have hsign := length_signText a
  have henough := hn.enough
  unfold bnFormat
  rw [checkRadix_ok hr, ok_bind, hzero, if_neg (by simp)]
  refine ite (fun hten => ?_) (fun _ => ?_)
  · rw [hten] at hfits ⊢
    exact formatDecimal_meets ha (hlen.trans_lt hn.indexed) hne (by omega) hfits
  · exact formatRadix_meets hr ha hne hlen hn hneed hfits

theorem bnFormat_zero (ha : a.Normalised) (hzero : a.value = 0) :
    bnFormat limit a radix = .ok (numeral [0]) := by
  unfold bnFormat
  rw [checkRadix_ok hr, ok_bind, if_pos (ha.isZero_iff.mpr hzero)]
  rfl

end

/-! ## Parsing -/

theorem value_reverse_take_succ (es : List Int) {k : Nat} (hk : k < es.length) :
    value radix (es.take (k + 1)).reverse =
      value radix (es.take k).reverse * radix + es.getD k 0 := by
  rw [take_succ_eq_append_getElem hk, reverse_append, reverse_singleton,
    singleton_append, value_cons, getD_eq_getElem es 0 hk]
  ring

/-- The digits read so far are worth at most the whole numeral, and less than the power of
    the radix with as many digits. -/
theorem value_reverse_take_bounds (hr : 2 ≤ radix) {es : List Int} (hes : Digits radix es)
    (k : Nat) : 0 ≤ value radix (es.take k).reverse ∧
      value radix (es.take k).reverse ≤ value radix es.reverse ∧
      value radix (es.take k).reverse < radix ^ k := by
  refine ⟨value_nonneg (by omega) (hes.take k).reverse, ?_, ?_⟩
  · rw [reverse_take]
    exact value_drop_le (by omega) hes.reverse _
  · refine lt_of_lt_of_le (value_lt_pow (by omega) (hes.take k).reverse)
      (pow_le_pow_right₀ (by omega) ?_)
    rw [length_reverse, length_take]
    exact Nat.min_le_left _ _

/-- A number of `k` digits to a radix has at most `k` limbs. -/
theorem lt_pow_min (hr : 2 ≤ radix ∧ radix ≤ 36) {v : Int} {k n : Nat} (hk : v < radix ^ k)
    (hn : v < base ^ n) : v < base ^ min k n := by
  have hbase := base_eq
  have hpow : radix ^ k ≤ base ^ k := pow_le_pow_left₀ (by omega) (by omega) k
  rcases Nat.le_total k n with h | h
  · rw [Nat.min_eq_left h]
    exact lt_of_lt_of_le hk hpow
  · rw [Nat.min_eq_right h]
    exact hn

/-- The first `k` digits have been folded. -/
def HornerInv (room : Nat) (radix : Int) (es : List Int) (st : HornerState) : Prop :=
  ∃ k : Nat, st.i = k ∧ k ≤ es.length ∧ Denotes room (value radix (es.take k).reverse) st.acc

theorem hornerRound_meets {room n : Nat} {s : Str} {es : List Int} {rbn : Bignum}
    (hr : 2 ≤ radix ∧ radix ≤ 36) (hes : Digits radix es) (hvalue : value radix es.reverse < base ^ n)
    (hrbn : Denotes room radix rbn) (hn : Room room) (hroom : min es.length (n + 1) ≤ room) (hsize : es.length < 2 ^ 63) {st : HornerState}
    (hst : HornerInv room radix es st) (hi : st.i < es.length) : Meets (OutOfSpace limit room)
      (hornerRound limit s (es.map fun d => [digitSymbol d]) radix rbn st) fun st' =>
        HornerInv room radix es st' ∧ st.i < st'.i := by
  obtain ⟨k, hk, -, hacc⟩ := hst
  have hbase := base_eq
  have hkl : k < es.length := by omega
  have hd := hes.getD (by omega) k
  have hbounds := value_reverse_take_bounds hr.1 hes k
  have hnext := value_reverse_take_bounds hr.1 hes (k + 1)
  have hsucc : value radix (es.take (k + 1)).reverse =
      value radix (es.take k).reverse * radix + es.getD k 0 := value_reverse_take_succ es hkl
  have hchar : (es.map fun d => [digitSymbol d]).getD k [] = [digitSymbol (es.getD k 0)] := by
    rw [getD_eq_getElem _ _ (by simpa using hkl), getElem_map,
      getD_eq_getElem es 0 hkl]
  have hdigit : digitValue [digitSymbol (es.getD k 0)] radix = es.getD k 0 :=
    digitValue_symbol hd.1 hd.2 hr.2
  have haccAbs : |st.acc.value| = value radix (es.take k).reverse := by
    rw [hacc.value_eq, abs_of_nonneg hbounds.1]
  have hacclen : st.acc.limbs.length ≤ min k n := by
    refine hacc.normalised.normal.length_le_of_value_lt one_lt_base hacc.normalised.digits ?_
    rw [← hacc.normalised.abs_value, haccAbs]
    exact lt_pow_min hr hbounds.2.2 (lt_of_le_of_lt hbounds.2.1 hvalue)
  have hrlen : rbn.limbs.length ≤ 1 := by
    refine hrbn.normalised.normal.length_le_of_value_lt one_lt_base hrbn.normalised.digits ?_
    rw [← hrbn.normalised.abs_value, hrbn.value_eq, abs_of_nonneg (by omega), pow_one]
    omega
  unfold hornerRound
  rw [hk, get_natCast, ok_bind, hchar]
  simp only [hdigit]
  rw [if_neg (by omega)]
  refine (bnMul_meets hn ⟨hacc.normalised, hacc.value_eq, hacclen⟩
    ⟨hrbn.normalised, hrbn.value_eq, hrlen⟩ (by omega)).bind fun prod hprod => ?_
  refine (bnFromInt_meets (InRange.of_bounds (by omega) (by omega)) (by unfold minInt; omega)
    ?_ hn).bind fun digit hdig => ?_
  · rw [abs_of_nonneg hd.1]
    have hpow := pow_limbs_le hn.enough
    have hsq : base ^ 2 = 1000000000000000000 := by decide
    omega
  · have hfits : |value radix (es.take (k + 1)).reverse| < base ^ room := by
      rw [abs_of_nonneg hnext.1]
      refine lt_of_lt_of_le (lt_pow_min hr hnext.2.2 (lt_of_le_of_lt hnext.2.1 hvalue))
        (pow_limbs_le ?_)
      omega
    rw [hsucc] at hfits
    refine (bnAdd_meets hn hprod hdig hfits).bind fun acc hacc' => ?_
    rw [intAdd_bind (by omega) (by omega)]
    refine ok ⟨⟨k + 1, by simp, by omega, ?_⟩, by simp only; omega⟩
    rw [hsucc]
    exact hacc'

/-- The sign of a text. -/
def signOf (neg : Bool) : Str := if neg then ['-'] else []

theorem numeral_eq_map (ds : List Int) : numeral ds = ds.reverse.map digitSymbol := by
  rw [numeral, map_reverse]

theorem parseBody_numeral {ds : List Int} (hd : Digits radix ds) (hr : radix ≤ 36) (hne : ds ≠ [])
    (neg : Bool) : stringStartsWith (signOf neg ++ numeral ds) ['-'] = neg ∧
      parseBody (signOf neg ++ numeral ds) = numeral ds := by
  cases neg with
  | true =>
    have hstart : stringStartsWith (signOf true ++ numeral ds) ['-'] = true := by
      simp [signOf, stringStartsWith]
    refine ⟨hstart, ?_⟩
    unfold parseBody
    exact slice_tail '-' (numeral ds)
  | false =>
    obtain ⟨e, es, hes⟩ : ∃ e es, ds.reverse = e :: es :=
      exists_cons_of_ne_nil (by simpa using hne)
    have he := hd.reverse e (by rw [hes]; exact mem_cons_self)
    have hsign := digitSymbol_ne_sign he.1 (by omega)
    have hfirst : ∀ c, c ≠ digitSymbol e →
        stringStartsWith (signOf false ++ numeral ds) [c] = false := by
      intro c hc
      rw [numeral_eq_map, hes]
      simp [signOf, stringStartsWith, isPrefixOf, hc]
    refine ⟨hfirst '-' hsign.1.symm, ?_⟩
    unfold parseBody
    rw [hfirst '-' hsign.1.symm, hfirst '+' hsign.2.symm, if_neg (by simp)]
    rfl

/-- `bn_parse` of a numeral with at most `need` digits, whose value has at most `n` limbs. -/
theorem bnParse_meets {room n : Nat} {ds : List Int} (hr : 2 ≤ radix ∧ radix ≤ 36)
    (hds : Digits radix ds) (hne : ds ≠ []) (neg : Bool) (hvalue : value radix ds < base ^ n)
    (hn : Room room) (hroom : min ds.length (n + 1) ≤ room) (hneed : room ≤ need)
    (hlen : ds.length ≤ need) (hsize : ds.length < 2 ^ 63) :
    Fits limit need (bnParse limit (signOf neg ++ numeral ds) radix)
      (Exact (if neg then -value radix ds else value radix ds)) := by
  obtain ⟨hstart, hbody⟩ := parseBody_numeral hds hr.2 hne neg
  have hspace : ∀ e, OutOfSpace limit room e → OutOfSpace limit need e :=
    fun e he => he.mono hneed
  have hchars : (numeral ds).map (fun c => [c]) = ds.reverse.map fun d => [digitSymbol d] := by
    rw [numeral_eq_map, map_map]
    rfl
  have hrlen : ds.reverse.length = ds.length := length_reverse
  have hpos : 0 < ds.length := length_pos_iff.mpr hne
  unfold bnParse
  rw [checkRadix_ok hr, ok_bind, hbody, stringChars, length_numeral, hchars]
  refine bind (P := fun chars => chars = ds.reverse.map fun d => [digitSymbol d])
    ((ensureLen_meets "string_chars" "list" hlen).bind fun _ _ => ok rfl) ?_
  rintro _ rfl
  refine ((bnFromInt_meets (InRange.of_bounds (by omega) (by omega)) (by unfold minInt; omega)
    (radix_room hr hn).1 hn).allow hspace).bind fun rbn hrbn => ?_
  refine ((bnZero_meets hn).allow hspace).bind fun zero hzero => ?_
  simp only [size, length_map]
  rw [if_neg (by omega)]
  refine bind ((countUp ds.reverse.length (HornerInv room radix ds.reverse)
    ?body ?init (by simp)).allow hspace) ?rest
  case body =>
    intro st hst hgo
    exact hornerRound_meets hr hds.reverse (by rw [reverse_reverse]; exact hvalue) hrbn hn
      (by rw [hrlen]; exact hroom) (by omega) hst hgo
  case init =>
    refine ⟨0, rfl, Nat.zero_le _, ?_⟩
    exact hzero
  case rest =>
    rintro st ⟨⟨k, hk, hkl, hacc⟩, hstop⟩
    have hall : k = ds.reverse.length := by omega
    rw [hall, take_length, reverse_reverse] at hacc
    rw [hstart]
    cases neg with
    | true =>
      exact ((bnNeg_meets hn hacc).allow hspace).mono fun _ h => h.exact
    | false =>
      exact ok hacc.exact

end Caap.Stdlib
