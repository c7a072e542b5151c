/-
  Caap.Stdlib.BignumMag

  The magnitude functions compute what they are named for, on limb lists of any length: the
  carry of the addition, the borrow of the subtraction, the rows of the multiplication and
  the quotient limbs of the long division keep invariants on the values of list prefixes and
  suffixes, and with the limbs below 10^9 every intermediate stays a 64-bit integer.  What
  can fail is the length of a list, against the limit.
-/

import Caap.Lib.Positional
import Caap.Stdlib.Bignum

namespace Caap.Stdlib

open Caap.Lib Caap.Lib.Positional Meets List Int

/-- A list of limbs whose indices are 64-bit integers. -/
structure Limbs (ls : List Int) : Prop where
  digits : Digits base ls
  stored : ls.length < 2 ^ 62

/-- A magnitude: limbs without leading zeros. -/
structure Magnitude (ls : List Int) : Prop extends Limbs ls where
  normal : Trimmed ls

/-- What a magnitude function returns: the one magnitude with the value `v`, of at most `n`
    limbs and within the limit.  The lemmas below take for `n` a number of limbs that is
    enough for the lists the function builds; only with a lower limit can it fail. -/
structure IsMag (limit n : Nat) (v : Int) (out : List Int) : Prop where
  digits : Digits base out
  normal : Trimmed out
  value_eq : value base out = v
  length_le : out.length ≤ n
  within : out.length ≤ limit

variable {n : Nat}

theorem IsMag.magnitude {limit : Nat} {v : Int} {out : List Int} (h : IsMag limit n v out)
    (hn : n < 2 ^ 62) : Magnitude out :=
  ⟨⟨h.digits, lt_of_le_of_lt h.length_le hn⟩, h.normal⟩

theorem base_eq : base = 1000000000 := rfl

theorem base_pos : 0 < base := by decide

theorem one_lt_base : 1 < base := by decide

variable {limit need : Nat}

/-! ## Normalising -/

variable {E : Failure → Prop}

theorem leadingZero_meets {ls : List Int} (hn : n < 2 ^ 62) :
    Meets E (leadingZero ls n) fun t => (t = true ↔ 0 < n ∧ ls.getD (n - 1) 0 = 0) := by
  unfold leadingZero
  refine ite (fun hpos => ?_) (fun hpos => ?_)
  · rw [intSub_bind (by omega) (by omega)]
    have hindex : (n : Int) - 1 = ((n - 1 : Nat) : Int) := by omega
    rw [hindex, get_natCast, ok_bind]
    refine ok ?_
    have hn0 : 0 < n := by omega
    simp [hn0]
  · refine ok ?_
    have hn0 : n = 0 := by omega
    simp [hn0]

/-- `mag_normalize` keeps the value and drops the leading zeros. -/
theorem magNormalize_meets {ls : List Int} (hls : Limbs ls) (hneed : ls.length ≤ need) :
    Fits limit need (magNormalize limit ls) (IsMag limit need (value base ls)) := by
  have hlen := hls.stored
  unfold magNormalize
  refine bind (whileLoop
    (fun n : Int => ∃ k : Nat, n = k ∧ k ≤ ls.length ∧ value base (ls.take k) = value base ls)
    (fun n => 0 < n ∧ ls.getD (n.toNat - 1) 0 = 0) (fun n => n.toNat)
    ?test ?body ?go ?init ?rounds) ?rest
  case test =>
    rintro _ ⟨k, rfl, hk, -⟩
    refine (leadingZero_meets (by omega)).mono fun t ht => ?_
    rw [ht, toNat_natCast, natCast_pos]
  case body =>
    rintro _ ⟨k, rfl, hk, hvalue⟩ ⟨hpos, hzero⟩
    rw [toNat_natCast] at hzero
    rw [intSub, checked, if_pos (InRange.of_bounds (by omega) (by omega))]
    refine ok ⟨⟨k - 1, by omega, by omega, ?_⟩, by omega⟩
    have hsucc := value_take_succ (b := base) ls (k - 1)
    rw [hzero, mul_zero, add_zero, Nat.sub_add_cancel (by omega)] at hsucc
    exact hsucc.symm.trans hvalue
  case go =>
    omega
  case init => exact ⟨ls.length, rfl, le_refl _, by rw [take_length]⟩
  case rounds => simp [size]
  case rest =>
    rintro _ ⟨⟨k, rfl, hk, hvalue⟩, hstop⟩
    refine (sequenceSlice_take_meets hk (hk.trans hneed)).mono ?_
    rintro _ ⟨rfl, hlimit⟩
    have hnormal : Trimmed (ls.take k) := by
      refine Trimmed.take hk ?_
      by_contra hcon
      push Not at hcon
      refine hstop ⟨by omega, ?_⟩
      exact hcon.2
    have hshort : (ls.take k).length = k := by
      rw [length_take, Nat.min_eq_left hk]
    exact ⟨hls.digits.take k, hnormal, hvalue, by omega, by omega⟩

/-! ## Comparing -/

/-- `c` is the order of two numbers as -1, 0 or 1. -/
def Compares (c x y : Int) : Prop :=
  (c = -1 ∧ x < y) ∨ (c = 0 ∧ x = y) ∨ (c = 1 ∧ y < x)

/-- The limbs from `s.i + 1` on are equal, or a difference has been found. -/
def CmpInv (a b : List Int) (s : CmpState) : Prop :=
  ∃ k : Nat, s.i = (k : Int) - 1 ∧ k ≤ a.length ∧
    ((s.res = 0 ∧ value base (a.drop k) = value base (b.drop k)) ∨
      (s.res = -1 ∧ value base a < value base b) ∨ (s.res = 1 ∧ value base b < value base a))

theorem cmpRound_meets {a b : List Int} (ha : Limbs a) (hb : Limbs b)
    {s : CmpState} (hs : CmpInv a b s) (hi : 0 ≤ s.i) (hres : s.res = 0) :
    Meets E (cmpRound a b s) fun s' =>
      CmpInv a b s' ∧ s'.i < s.i := by
  obtain ⟨k, hk, hklen, hcase⟩ := hs
  have hstored := ha.stored
  have hsame : value base (a.drop k) = value base (b.drop k) := by
    rcases hcase with h | h | h
    · exact h.2
    · omega
    · omega
  have hindex : s.i = ((k - 1 : Nat) : Int) := by omega
  have hsucc : k - 1 + 1 = k := by omega
  unfold cmpRound
  rw [hindex, get_natCast, ok_bind, get_natCast, ok_bind,
    intSub_bind (by omega) (by omega)]
  refine ok ⟨⟨k - 1, rfl, by omega, ?_⟩, by simp only; omega⟩
  by_cases hlt : a.getD (k - 1) 0 < b.getD (k - 1) 0
  · refine Or.inr (Or.inl ⟨if_pos hlt, ?_⟩)
    exact value_lt_of_getD_lt base_pos ha.digits hb.digits (k - 1) (by rw [hsucc]; exact hsame) hlt
  · rw [if_neg hlt]
    by_cases hgt : b.getD (k - 1) 0 < a.getD (k - 1) 0
    · refine Or.inr (Or.inr ⟨if_pos hgt, ?_⟩)
      exact value_lt_of_getD_lt base_pos hb.digits ha.digits (k - 1)
        (by rw [hsucc]; exact hsame.symm) hgt
    · refine Or.inl ⟨by rw [if_neg hgt, hres], ?_⟩
      have heq : a.getD (k - 1) 0 = b.getD (k - 1) 0 := by omega
      rw [value_drop a (k - 1), value_drop b (k - 1), hsucc, heq, hsame]

/-- `mag_cmp` compares the values of two magnitudes and cannot fail. -/
theorem magCmp_meets {a b : List Int} (ha : Magnitude a)
    (hb : Magnitude b) : Meets E (magCmp a b) fun c => Compares c (value base a) (value base b) := by
  have hstored := ha.stored
  unfold magCmp
  refine ite (fun hlt => ?_) (fun hnlt => ite (fun hgt => ?_) (fun hngt => ?_))
  · exact ok (Or.inl ⟨rfl, value_lt_of_length_lt one_lt_base ha.digits hb.digits hb.normal
      (by simpa [size] using hlt)⟩)
  · exact ok (Or.inr (Or.inr ⟨rfl, value_lt_of_length_lt one_lt_base hb.digits ha.digits
      ha.normal (by simpa [size] using hgt)⟩))
  · unfold size at hnlt hngt
    rw [size, intSub_bind (by omega) (by omega)]
    refine bind (countDown (CmpInv a b) (·.i)
      (fun s hs hgo => cmpRound_meets ha.toLimbs hb.toLimbs hs hgo.1 hgo.2) (fun s hgo => hgo.1)
      ?init (sub_one_lt_of_le le_rfl)) ?rest
    case init =>
      refine ⟨a.length, rfl, le_refl _, Or.inl ⟨rfl, ?_⟩⟩
      have hlen : a.length = b.length := by omega
      rw [drop_length, hlen, drop_length]
    case rest =>
      rintro s ⟨⟨k, hk, -, hcase⟩, hstop⟩
      refine ok ?_
      rcases hcase with ⟨hres, hsame⟩ | h | h
      · have hk0 : k = 0 := by
          by_contra hne
          exact hstop ⟨by omega, hres⟩
        subst hk0
        exact Or.inr (Or.inl ⟨hres, hsame⟩)
      · exact Or.inl h
      · exact Or.inr (Or.inr h)

/-! ## Adding -/

/-- A number splits into the limb that is stored and the carry. -/
theorem carry_split {t m : Int} (h0 : 0 ≤ t) (h1 : t < m * base) :
    t % base + base * (t / base) = t ∧ (0 ≤ t % base ∧ t % base < base) ∧
      0 ≤ t / base ∧ t / base < m :=
  ⟨emod_add_mul_ediv t base, ⟨emod_nonneg t (by decide), emod_lt_of_pos t base_pos⟩,
    Int.ediv_nonneg h0 base_pos.le, Int.ediv_lt_of_lt_mul base_pos h1⟩

/-- After `k` rounds: the sum of the first `k` limbs of both, in `out` and the carry. -/
def AddInv (a b : List Int) (s : LimbState) : Prop :=
  ∃ k : Nat, s.i = k ∧ k ≤ max a.length b.length ∧ Digits base s.out ∧ s.out.length = k ∧
    (0 ≤ s.carry ∧ s.carry ≤ 1) ∧
    value base (a.take k) + value base (b.take k) = value base s.out + base ^ k * s.carry

variable {s : LimbState}

theorem addRound_meets {a b : List Int} (ha : Limbs a) (hb : Limbs b)
    (hneed : max a.length b.length ≤ need) (hs : AddInv a b s) (hi : s.i < max a.length b.length) :
    Fits limit need (addRound limit a b s) fun s' =>
      AddInv a b s' ∧ s.i < s'.i := by
  obtain ⟨k, hk, -, hout, hlen, hcarry, hsum⟩ := hs
  have hxs := ha.stored
  have hys := hb.stored
  have hx := ha.digits.getD base_pos k
  have hy := hb.digits.getD base_pos k
  have hbase := base_eq
  unfold addRound
  rw [hk, get_natCast, ok_bind, get_natCast, ok_bind]
  set x := a.getD k 0 with hxdef
  set y := b.getD k 0 with hydef
  rw [intAdd_bind (by omega) (by omega),
    intAdd_bind (by omega) (by omega), intMod_ok base_pos, ok_bind]
  set t := x + y + s.carry with ht
  obtain ⟨hsplit, hlimb, hdiv⟩ := carry_split (show 0 ≤ t by omega) (show t < 2 * base by omega)
  refine (append_meets (by omega)).bind ?_
  rintro _ ⟨rfl, -⟩
  rw [intDiv_bind base_pos (by omega) (by omega),
    intAdd_bind (by omega) (by omega)]
  refine ok ⟨⟨k + 1, by simp, by omega, hout.concat hlimb.1 hlimb.2, by simp [hlen],
    ⟨hdiv.1, le_of_lt_add_one hdiv.2⟩, ?_⟩, by simp only; omega⟩
  rw [value_take_succ, value_take_succ, ← hxdef, ← hydef, value_concat, hlen, pow_succ]
  linear_combination hsum - base ^ k * hsplit

/-- A limb list that is full of carries has a value of at least the next power. -/
theorem pow_le_of_carry {out : List Int} {c v : Int} (hout : Digits base out) (hc : 0 < c)
    (hv : v = value base out + base ^ out.length * c) : base ^ out.length ≤ v := by
  have hlow : 0 ≤ value base out := value_nonneg base_pos hout
  have hpow : 0 < base ^ out.length := pow_pos base_pos _
  have hone : base ^ out.length * 1 ≤ base ^ out.length * c :=
    mul_le_mul_of_nonneg_left (by omega) hpow.le
  omega

theorem lt_need_of_pow_le {v : Int} (hlow : base ^ n ≤ v) (hhigh : v < base ^ need) : n < need :=
  (pow_lt_pow_iff_right₀ one_lt_base).mp (lt_of_le_of_lt hlow hhigh)

theorem pushCarry_meets {v : Int} (hout : Digits base s.out)
    (hlen : s.out.length ≤ need) (hstored : need < 2 ^ 62) (hcarry : 0 ≤ s.carry ∧ s.carry < base)
    (hv : v = value base s.out + base ^ s.out.length * s.carry) (hfits : v < base ^ need) :
    Fits limit need (pushCarry limit s) fun out =>
      Limbs out ∧ out.length ≤ need ∧ value base out = v := by
  unfold pushCarry
  refine ite (fun hpos => ?_) (fun hzero => ?_)
  · have hroom : s.out.length < need :=
      lt_need_of_pow_le (pow_le_of_carry hout hpos hv) hfits
    refine (append_meets hroom).mono ?_
    rintro _ ⟨rfl, -⟩
    have hlonger : (s.out ++ [s.carry]).length = s.out.length + 1 := by simp
    refine ⟨⟨hout.concat hcarry.1 hcarry.2, by omega⟩, by omega, ?_⟩
    rw [value_concat, hv]
  · have hc : s.carry = 0 := by omega
    rw [hc, mul_zero, add_zero] at hv
    exact ok ⟨⟨hout, by omega⟩, hlen, hv.symm⟩

/-- The loop of `mag_add`: all limbs of both, with the carry out of the highest. -/
theorem addLoop_meets {a b : List Int} (ha : Limbs a) (hb : Limbs b)
    (hneed : max a.length b.length ≤ need) : Fits limit need (whileLoop .timeout
        (fun s : LimbState =>
          .ok (decide (s.i < if size b < size a then size a else size b)))
        (addRound limit a b) (max a.length b.length) ⟨0, 0, []⟩) fun s =>
      Digits base s.out ∧ s.out.length = max a.length b.length ∧
        (0 ≤ s.carry ∧ s.carry ≤ 1) ∧
        value base a + value base b = value base s.out + base ^ s.out.length * s.carry := by
  have hn : (if size b < size a then size a else size b) =
      ((max a.length b.length : Nat) : Int) := by
    unfold size
    split <;> omega
  simp only [hn]
  refine (countUp _ (AddInv a b) (fun s hs hgo => addRound_meets ha hb hneed hs hgo)
    ⟨0, rfl, by omega, Digits.nil, rfl, by simp, by simp⟩ (by simp)).mono ?_
  rintro s ⟨⟨k, hk, hkn, hout, hlen, hcarry, hsum⟩, hstop⟩
  rw [take_of_length_le (by omega), take_of_length_le (by omega), ← hlen] at hsum
  exact ⟨hout, by omega, hcarry, hsum⟩

theorem magAdd_meets {a b : List Int} (ha : Limbs a) (hb : Limbs b)
    (hneed : max a.length b.length ≤ need) (hstored : need < 2 ^ 62)
    (hfits : value base a + value base b < base ^ need) :
    Fits limit need (magAdd limit a b)
      (IsMag limit need (value base a + value base b)) := by
  unfold magAdd
  refine (addLoop_meets ha hb hneed).bind ?_
  rintro s ⟨hout, hlen, hcarry, hsum⟩
  refine (pushCarry_meets hout (by omega) hstored ⟨hcarry.1, by rw [base_eq]; omega⟩ hsum
    hfits).bind ?_
  rintro out ⟨hlimbs, hroom, hvalue⟩
  rw [← hvalue]
  exact magNormalize_meets hlimbs hroom

/-- A sum with one limb more than the limit allows: `append` refuses the carry. -/
theorem magAdd_past_limit (hn : 0 < n) (hstored : n < 2 ^ 62) :
    magAdd n (replicate n (base - 1)) [1] = .error (sizeLimitError "append" "list" n) := by
  have hbase := base_eq
  have hnines : Limbs (replicate n (base - 1)) := by
    refine ⟨?_, by simpa using hstored⟩
    intro d hd
    rw [eq_of_mem_replicate hd]
    omega
  have hone : Limbs [1] := by
    refine ⟨?_, by simp⟩
    intro d hd
    rw [mem_singleton.mp hd]
    omega
  have hmax : max (replicate n (base - 1)).length [(1 : Int)].length = n := by
    simp only [length_replicate, length_singleton]
    omega
  obtain ⟨s, hrun, hout, hlen, hcarry, hsum⟩ :=
    (addLoop_meets hnines hone hmax.le).returns fun e (he : OutOfSpace n n e) => by
      exact absurd he.1 (lt_irrefl n)
  rw [hmax] at hlen
  have hc : s.carry = 1 := by
    by_contra hne
    have hzero : s.carry = 0 := by omega
    have hlt := value_lt_pow base_pos hout
    rw [value_replicate_pred, value_cons, value_nil, hzero, hlen] at hsum
    rw [hlen] at hlt
    linarith
  unfold magAdd
  simp only [hrun, ok_bind]
  rw [pushCarry, if_pos (by omega), append, ensureLen, if_pos (by omega)]
  rfl

/-! ## Subtracting -/

/-- After `k` rounds: the difference of the first `k` limbs, with the borrow. -/
def SubInv (a b : List Int) (s : LimbState) : Prop :=
  ∃ k : Nat, s.i = k ∧ k ≤ a.length ∧ Digits base s.out ∧ s.out.length = k ∧
    (0 ≤ s.carry ∧ s.carry ≤ 1) ∧
    value base (a.take k) - value base (b.take k) = value base s.out - base ^ k * s.carry

/-- A round stores the limb and the borrow that the difference of the limbs splits into. -/
theorem storeLimb_meets {a b : List Int} (ha : Limbs a) (hneed : a.length ≤ need)
    (hs : SubInv a b s) (hi : s.i < a.length) {limb borrow : Int}
    (h0 : 0 ≤ limb) (h1 : limb < base) (hborrow : 0 ≤ borrow ∧ borrow ≤ 1)
    (hsplit : a.getD s.i.toNat 0 - b.getD s.i.toNat 0 - s.carry = limb - base * borrow) :
    Fits limit need (storeLimb limit s limb borrow) fun s' =>
      SubInv a b s' ∧ s.i < s'.i := by
  obtain ⟨k, hk, -, hout, hlen, -, hdiff⟩ := hs
  have hxs := ha.stored
  rw [hk, toNat_natCast] at hsplit
  unfold storeLimb
  refine (append_meets (by omega)).bind ?_
  rintro _ ⟨rfl, -⟩
  rw [hk, intAdd_bind (by omega) (by omega)]
  refine ok ⟨⟨k + 1, by simp, by omega, hout.concat h0 h1, by simp [hlen],
    hborrow, ?_⟩, by simp only; omega⟩
  rw [value_take_succ, value_take_succ, value_concat, hlen, pow_succ]
  linear_combination hdiff + base ^ k * hsplit

theorem subRound_meets {a b : List Int} (ha : Limbs a) (hb : Limbs b)
    (hneed : a.length ≤ need) (hs : SubInv a b s) (hi : s.i < a.length) :
    Fits limit need (subRound limit a b s) fun s' =>
      SubInv a b s' ∧ s.i < s'.i := by
  obtain ⟨k, hk, -, -, -, hcarry, -⟩ := id hs
  have hx := ha.digits.getD base_pos s.i.toNat
  have hy := hb.digits.getD base_pos s.i.toNat
  have hbase := base_eq
  have hindex : s.i = (s.i.toNat : Int) := by omega
  unfold subRound
  rw [hindex, get_natCast, ok_bind, get_natCast, ok_bind, ← hindex,
    intSub_bind (by omega) (by omega),
    intSub_bind (by omega) (by omega)]
  refine ite (fun hneg => ?_) (fun hnonneg => ?_)
  · rw [intAdd_bind (by omega) (by omega)]
    exact storeLimb_meets ha hneed hs hi (by omega) (by omega) (by omega) (by ring)
  · exact storeLimb_meets ha hneed hs hi (by omega) (by omega) (by omega) (by ring)

/-- `mag_sub` subtracts a magnitude that is not larger: no borrow is left. -/
theorem magSub_meets {a b : List Int} (ha : Magnitude a) (hb : Magnitude b)
    (hneed : a.length ≤ need) (hle : value base b ≤ value base a) :
    Fits limit need (magSub limit a b)
      (IsMag limit need (value base a - value base b)) := by
  have hshort : b.length ≤ a.length := by
    by_contra hlong
    have hlt := value_lt_of_length_lt one_lt_base ha.digits hb.digits hb.normal (by omega)
    omega
  unfold magSub
  refine bind (countUp a.length (SubInv a b)
    (fun s hs hgo => subRound_meets ha.toLimbs hb.toLimbs hneed hs hgo)
    ⟨0, rfl, by omega, Digits.nil, rfl, by simp, by simp⟩ (by simp)) ?_
  rintro s ⟨⟨k, hk, hkn, hout, hlen, hcarry, hdiff⟩, hstop⟩
  rw [take_of_length_le (by omega), take_of_length_le (by omega)] at hdiff
  have hborrow : s.carry = 0 := by
    by_contra hne
    have hc : s.carry = 1 := by omega
    have hlt := value_lt_pow base_pos hout
    rw [hlen] at hlt
    rw [hc, mul_one] at hdiff
    omega
  rw [hborrow, mul_zero, sub_zero] at hdiff
  have hstored := ha.stored
  rw [hdiff]
  exact magNormalize_meets ⟨hout, by omega⟩ (by omega)

/-! ## Multiplying -/

theorem zeroRound_meets (hn : n < 2 ^ 63 - 1) (hneed : n ≤ need)
    (hs : ∃ k : Nat, s.i = k ∧ k ≤ n ∧ s.out = replicate k 0) (hi : s.i < n) :
    Fits limit need (zeroRound limit s) fun s' =>
      (∃ k : Nat, s'.i = k ∧ k ≤ n ∧ s'.out = replicate k 0) ∧ s.i < s'.i := by
  obtain ⟨k, hk, -, hout⟩ := hs
  have hlen : s.out.length = k := by simp [hout]
  unfold zeroRound
  refine (append_meets (by omega)).bind ?_
  rintro _ ⟨rfl, -⟩
  rw [hk, intAdd_bind (by omega) (by omega)]
  refine ok ⟨⟨k + 1, by simp, by omega, ?_⟩, by simp only; omega⟩
  rw [hout, replicate_succ']

/-- Row `k` after `j` products: what the row adds to the accumulator `start` is in `out` and
    the carry, and the cells that the row has not reached are zero. -/
def MulInv (b start : List Int) (n k : Nat) (x : Int) (s : LimbState) : Prop :=
  ∃ j : Nat, s.i = j ∧ j ≤ b.length ∧ Digits base s.out ∧ s.out.length = n ∧
    (0 ≤ s.carry ∧ s.carry < base) ∧
    value base s.out + base ^ (k + j) * s.carry =
      value base start + base ^ k * (x * value base (b.take j)) ∧
    ∀ p, k + b.length ≤ p → s.out.getD p 0 = 0

theorem getD_set_ne (ls : List Int) {p q : Nat} (h : q ≠ p) (v : Int) :
    (ls.set q v).getD p 0 = ls.getD p 0 := by
  rw [getD_eq_getElem?_getD, getElem?_set_ne h, ← getD_eq_getElem?_getD]

/-- The largest product of limbs with both additions stays below `base ^ 2`. -/
theorem product_bounds {x y : Int} (hx : 0 ≤ x ∧ x < base) (hy : 0 ≤ y ∧ y ≤ base) :
    0 ≤ x * y ∧ x * y ≤ 999999999 * y := by
  have hbase := base_eq
  have hx1 : x ≤ 999999999 := by omega
  exact ⟨mul_nonneg hx.1 hy.1, mul_le_mul_of_nonneg_right hx1 hy.1⟩

theorem mulRound_meets {b start : List Int} {k : Nat} {x : Int}
    (hb : Limbs b) (hn : k + b.length < n) (hstored : n < 2 ^ 63) (hx : 0 ≤ x ∧ x < base)
    (hs : MulInv b start n k x s) (hi : s.i < b.length) : Meets E (mulRound b k x s) fun s' =>
      MulInv b start n k x s' ∧ s.i < s'.i := by
  obtain ⟨j, hj, -, hout, hlen, hcarry, hsum, hrest⟩ := hs
  have hy := hb.digits.getD base_pos j
  have hcell := hout.getD base_pos (k + j)
  have hbase := base_eq
  have hprod := product_bounds hx ⟨hy.1, hy.2.le⟩
  unfold mulRound
  rw [hj, intAdd_bind (by omega) (by omega), ← Nat.cast_add,
    get_natCast, ok_bind, get_natCast, ok_bind]
  set y := b.getD j 0 with hydef
  set cell := s.out.getD (k + j) 0 with hcelldef
  rw [intMul_bind (by omega) (by omega),
    intAdd_bind (by omega) (by omega),
    intAdd_bind (by omega) (by omega), intMod_ok base_pos, ok_bind,
    set_natCast _ (by omega), ok_bind]
  set t := cell + x * y + s.carry with ht
  obtain ⟨hsplit, hlimb, hdiv⟩ :=
    carry_split (show 0 ≤ t by omega) (show t < base * base by rw [hbase]; omega)
  rw [intDiv_bind base_pos (by omega) (by omega),
    intAdd_bind (by omega) (by omega)]
  refine ok ⟨⟨j + 1, by simp, by omega, hout.set (k + j) hlimb.1 hlimb.2, by simp [hlen],
    hdiv, ?_, ?_⟩, by simp only; omega⟩
  · rw [value_set s.out (k + j) _ (by omega), value_take_succ, ← hydef, ← hcelldef, ← Nat.add_assoc,
      pow_succ]
    linear_combination hsum + base ^ (k + j) * hsplit + x * y * pow_add base k j
  · intro p hp
    rw [getD_set_ne _ (by omega)]
    exact hrest p hp

/-- After `k` rows: the product of the first `k` limbs of `a` with `b`. -/
def RowInv (a b : List Int) (s : RowState) : Prop :=
  ∃ k : Nat, s.i = k ∧ k ≤ a.length ∧ Digits base s.out ∧ s.out.length = a.length + b.length ∧
    value base s.out = value base (a.take k) * value base b ∧
    ∀ p, k + b.length ≤ p → s.out.getD p 0 = 0

/-- The inner loop of a row. -/
theorem mulRow_meets {b start : List Int} {k : Nat} {x : Int}
    (hb : Limbs b) (hn : k + b.length < n) (hstored : n < 2 ^ 63) (hx : 0 ≤ x ∧ x < base)
    (hstart : Digits base start) (hlen : start.length = n)
    (hzero : ∀ p, k + b.length ≤ p → start.getD p 0 = 0) :
    Meets E (whileLoop .timeout (fun r : LimbState => .ok (decide (r.i < size b)))
      (mulRound b k x) b.length ⟨0, 0, start⟩) fun r =>
        Digits base r.out ∧ r.out.length = n ∧ (0 ≤ r.carry ∧ r.carry < base) ∧
        value base r.out + base ^ (k + b.length) * r.carry =
          value base start + base ^ k * (x * value base b) ∧
        ∀ p, k + b.length ≤ p → r.out.getD p 0 = 0 := by
  refine (countUp b.length (MulInv b start n k x)
    (fun s hs hgo => mulRound_meets hb hn hstored hx hs hgo)
    ⟨0, rfl, by omega, hstart, hlen, ⟨le_refl 0, base_pos⟩, by simp, hzero⟩ (by simp)).mono ?_
  rintro r ⟨⟨j, hj, hjb, hout, hrlen, hcarry, hsum, hrest⟩, hstop⟩
  have hjlen : j = b.length := by omega
  subst hjlen
  rw [take_length] at hsum
  exact ⟨hout, hrlen, hcarry, hsum, hrest⟩

theorem rowRound_meets {a b : List Int} (ha : Limbs a) (hb : Limbs b)
    {s : RowState} (hs : RowInv a b s) (hi : s.i < a.length) : Meets E (rowRound a b s) fun s' =>
      RowInv a b s' ∧ s.i < s'.i := by
  obtain ⟨k, hk, -, hout, hlen, hprod, hzero⟩ := hs
  have hxs := ha.stored
  have hys := hb.stored
  have hx := ha.digits.getD base_pos k
  have hbase := base_eq
  unfold rowRound
  rw [hk, get_natCast, ok_bind]
  refine (mulRow_meets hb (by omega) (by omega) hx hout hlen hzero).bind ?_
  rintro r ⟨hrout, hrlen, hcarry, hsum, hrest⟩
  have hcell : r.out.getD (k + b.length) 0 = 0 := hrest _ (le_refl _)
  rw [size, intAdd_bind (by omega) (by omega), ← Nat.cast_add,
    get_natCast, ok_bind, hcell, intAdd_bind (by omega) (by omega), zero_add, set_natCast _ (by omega), ok_bind,
    intAdd_bind (by omega) (by omega)]
  refine ok ⟨⟨k + 1, by simp, by omega, hrout.set _ hcarry.1 hcarry.2, by simp [hrlen],
    ?_, ?_⟩, by simp only; omega⟩
  · rw [value_set r.out (k + b.length) _ (by omega), hcell, sub_zero, hsum, hprod, value_take_succ]
    ring
  · intro p hp
    rw [getD_set_ne _ (by omega)]
    exact hrest p (by omega)

/-- The accumulator that the rows start from. -/
theorem seedZeros_meets (hn : n < 2 ^ 63 - 1) (hneed : n ≤ need) : Fits limit need
    (whileLoop .timeout (fun s : LimbState => .ok (decide (s.i < (n : Int))))
        (zeroRound limit) n ⟨0, 0, []⟩) fun s => s.out = replicate n 0 := by
  refine (countUp n
    (fun s : LimbState => ∃ k : Nat, s.i = k ∧ k ≤ n ∧ s.out = replicate k 0)
    (fun s hs hgo => zeroRound_meets hn hneed hs hgo) ⟨0, rfl, by omega, rfl⟩ (by simp)).mono ?_
  rintro s ⟨⟨k, hk, hkn, hzeros⟩, hstop⟩
  have hall : k = n := by omega
  rw [hzeros, hall]

/-- `mag_mul`, the schoolbook product: `na + nb` cells are enough. -/
theorem magMul_meets {a b : List Int} (ha : Limbs a) (hb : Limbs b)
    (hneed : a.length + b.length ≤ need) (hstored : need < 2 ^ 62) :
    Fits limit need (magMul limit a b)
      (IsMag limit need (value base a * value base b)) := by
  unfold magMul size
  refine ite (fun hempty => ?_) (fun hsome => ?_)
  · have hzero : value base a * value base b = 0 := by
      rcases hempty with h | h
      · rw [length_eq_zero_iff.mp (natCast_eq_zero.mp h), value_nil, zero_mul]
      · rw [length_eq_zero_iff.mp (natCast_eq_zero.mp h), value_nil, mul_zero]
    rw [hzero]
    exact ok ⟨Digits.nil, Trimmed.nil, rfl, Nat.zero_le _, Nat.zero_le _⟩
  · rw [intAdd_bind (by omega) (by omega), ← Nat.cast_add]
    refine (seedZeros_meets (by omega) hneed).bind fun z hzeros => ?_
    refine bind (countUp a.length (RowInv a b)
      (fun s hs hgo => rowRound_meets ha hb hs hgo) ?init (by simp)) ?rest
    case init =>
      refine ⟨0, rfl, by omega, ?_, by simp [hzeros], by simp [hzeros], ?_⟩
      · simp only [hzeros]
        exact Digits.replicate_zero base_pos _
      · simp [hzeros, getD_replicate]
    case rest =>
      rintro s ⟨⟨k, hk, hka, hout, hlen, hprod, -⟩, hstop⟩
      have hall : k = a.length := by omega
      rw [hall, take_length] at hprod
      rw [← hprod]
      exact magNormalize_meets ⟨hout, by omega⟩ (by omega)

end Caap.Stdlib
