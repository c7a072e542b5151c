/-
  Caap.Stdlib.Bignum

  `stdlib.lib.numeric.bignum`: integers of any size over the bounded kernel int, as a sign
  and a little-endian list of limbs to the base 10^9.  The cells that a loop of the source
  updates are the fields of the state of its `whileLoop`; every index, carry and product
  goes through the checked integer builtins.
-/

import Caap.Stdlib.Prims

namespace Caap.Stdlib

open Caap.Lib

/-- The limb radix. -/
def base : Int := 1000000000

/-- Decimal digits per limb. -/
def baseDigits : Int := 9

/-- `{"sign" -1|0|1, "limbs" [l0 l1 ..]}`. -/
structure Bignum where
  sign : Int
  limbs : List Int
  deriving DecidableEq

/-- `{"quot" .., "rem" ..}`. -/
structure DivMod (α : Type) where
  quot : α
  rem : α
  deriving DecidableEq

/-! ## Magnitudes -/

/-- The test of `mag_normalize`: the limb under the end is zero. -/
def leadingZero (ls : List Int) (n : Int) : Result Bool :=
  if 0 < n then do
    let index ← intSub n 1
    let limb ← get ls index 0
    .ok (limb == 0)
  else .ok false

def magNormalize (limit : Nat) (ls : List Int) : Result (List Int) := do
  let n ← whileLoop .timeout (leadingZero ls) (fun n => intSub n 1) ls.length (size ls)
  sequenceSlice limit ls 0 n

def magIsZero (ls : List Int) : Bool := size ls == 0

structure CmpState where
  i : Int
  res : Int

def cmpRound (a b : List Int) (s : CmpState) : Result CmpState := do
  let ai ← get a s.i 0
  let bi ← get b s.i 0
  let res := if ai < bi then -1 else if bi < ai then 1 else s.res
  let i ← intSub s.i 1
  .ok ⟨i, res⟩

def magCmp (a b : List Int) : Result Int :=
  if size a < size b then .ok (-1)
  else if size b < size a then .ok 1
  else do
    let i ← intSub (size a) 1
    let s ← whileLoop .timeout (fun s => .ok (decide (0 ≤ s.i ∧ s.res = 0))) (cmpRound a b)
      a.length ⟨i, 0⟩
    .ok s.res

/-- The cells of the loops that produce one limb per round. -/
structure LimbState where
  i : Int
  carry : Int
  out : List Int

def addRound (limit : Nat) (a b : List Int) (s : LimbState) : Result LimbState := do
  let ai ← get a s.i 0
  let bi ← get b s.i 0
  let pair ← intAdd ai bi
  let sum ← intAdd pair s.carry
  let limb ← intMod sum base
  let out ← append limit s.out limb
  let carry ← intDiv sum base
  let i ← intAdd s.i 1
  .ok ⟨i, carry, out⟩

/-- The carry out of the highest limb, when there is one. -/
def pushCarry (limit : Nat) (s : LimbState) : Result (List Int) :=
  if 0 < s.carry then append limit s.out s.carry else .ok s.out

def magAdd (limit : Nat) (a b : List Int) : Result (List Int) := do
  let n := if size b < size a then size a else size b
  let s ← whileLoop .timeout (fun s => .ok (decide (s.i < n))) (addRound limit a b)
    (max a.length b.length) ⟨0, 0, []⟩
  let out ← pushCarry limit s
  magNormalize limit out

/-- The end of a round of `mag_sub`: the limb, the borrow, the next index. -/
def storeLimb (limit : Nat) (s : LimbState) (limb borrow : Int) : Result LimbState := do
  let out ← append limit s.out limb
  let i ← intAdd s.i 1
  .ok ⟨i, borrow, out⟩

/-- The `carry` cell is the borrow. -/
def subRound (limit : Nat) (a b : List Int) (s : LimbState) : Result LimbState := do
  let ai ← get a s.i 0
  let bi ← get b s.i 0
  let diff ← intSub ai bi
  let d ← intSub diff s.carry
  if d < 0 then do
    let limb ← intAdd d base
    storeLimb limit s limb 1
  else storeLimb limit s d 0

def magSub (limit : Nat) (a b : List Int) : Result (List Int) := do
  let s ← whileLoop .timeout (fun s => .ok (decide (s.i < size a))) (subRound limit a b)
    a.length ⟨0, 0, []⟩
  magNormalize limit s.out

/-- One zero of the accumulator that `mag_mul` starts from; the `i` cell is `k`. -/
def zeroRound (limit : Nat) (s : LimbState) : Result LimbState := do
  let out ← append limit s.out 0
  let k ← intAdd s.i 1
  .ok ⟨k, s.carry, out⟩

/-- One product of limbs; the `i` cell is `j`. -/
def mulRound (b : List Int) (i ai : Int) (s : LimbState) : Result LimbState := do
  let pos ← intAdd i s.i
  let cell ← get s.out pos 0
  let bj ← get b s.i 0
  let prod ← intMul ai bj
  let part ← intAdd cell prod
  let cur ← intAdd part s.carry
  let limb ← intMod cur base
  let out ← set s.out pos limb
  let carry ← intDiv cur base
  let j ← intAdd s.i 1
  .ok ⟨j, carry, out⟩

structure RowState where
  i : Int
  out : List Int

/-- One limb of `a` times all of `b`, with the carry flushed into the next position. -/
def rowRound (a b : List Int) (s : RowState) : Result RowState := do
  let ai ← get a s.i 0
  let row ← whileLoop .timeout (fun r => .ok (decide (r.i < size b))) (mulRound b s.i ai)
    b.length ⟨0, 0, s.out⟩
  let pos ← intAdd s.i (size b)
  let cell ← get row.out pos 0
  let flushed ← intAdd cell row.carry
  let out ← set row.out pos flushed
  let i ← intAdd s.i 1
  .ok ⟨i, out⟩

def magMul (limit : Nat) (a b : List Int) : Result (List Int) :=
  if size a = 0 ∨ size b = 0 then .ok []
  else do
    let n ← intAdd (size a) (size b)
    let zeros ← whileLoop .timeout (fun s => .ok (decide (s.i < n))) (zeroRound limit)
      (a.length + b.length) ⟨0, 0, []⟩
    let s ← whileLoop .timeout (fun s => .ok (decide (s.i < size a))) (rowRound a b)
      a.length ⟨0, zeros.out⟩
    magNormalize limit s.out

def scaleRound (limit : Nat) (a : List Int) (m : Int) (s : LimbState) : Result LimbState := do
  let ai ← get a s.i 0
  let prod ← intMul ai m
  let cur ← intAdd prod s.carry
  let limb ← intMod cur base
  let out ← append limit s.out limb
  let carry ← intDiv cur base
  let i ← intAdd s.i 1
  .ok ⟨i, carry, out⟩

def flushRound (limit : Nat) (s : LimbState) : Result LimbState := do
  let limb ← intMod s.carry base
  let out ← append limit s.out limb
  let carry ← intDiv s.carry base
  .ok ⟨s.i, carry, out⟩

def magMulSmall (limit : Nat) (a : List Int) (m : Int) : Result (List Int) :=
  if m = 0 then .ok []
  else do
    let s ← whileLoop .timeout (fun s => .ok (decide (s.i < size a))) (scaleRound limit a m)
      a.length ⟨0, 0, []⟩
    let s ← whileLoop .timeout (fun s => .ok (decide (0 < s.carry))) (flushRound limit)
      s.carry.toNat s
    magNormalize limit s.out

structure SearchState where
  lo : Int
  hi : Int
  qd : Int

/-- One probe of the binary search for the largest `d` with `b * d ≤ rem`. -/
def probeRound (limit : Nat) (b rem : List Int) (s : SearchState) : Result SearchState := do
  let both ← intAdd s.lo s.hi
  let mid ← intDiv both 2
  let prod ← magMulSmall limit b mid
  let c ← magCmp prod rem
  if c ≤ 0 then do
    let lo ← intAdd mid 1
    .ok ⟨lo, s.hi, mid⟩
  else do
    let hi ← intSub mid 1
    .ok ⟨s.lo, hi, s.qd⟩

structure DivState where
  i : Int
  rem : List Int
  qrev : List Int

/-- `rem * base + ai`. -/
def bringDown (limit : Nat) (rem : List Int) (ai : Int) : Result (List Int) := do
  let shifted ← append limit [] ai
  let scaled ← magMulSmall limit rem base
  let low ← magNormalize limit shifted
  magAdd limit scaled low

/-- The next limb is brought down and one limb of the quotient found. -/
def divRound (limit : Nat) (a b : List Int) (s : DivState) : Result DivState := do
  let ai ← get a s.i 0
  let rem ← bringDown limit s.rem ai
  let hi ← intSub base 1
  let found ← whileLoop .timeout (fun p => .ok (decide (p.lo ≤ p.hi))) (probeRound limit b rem)
    base.toNat ⟨0, hi, 0⟩
  let taken ← magMulSmall limit b found.qd
  let rem ← magSub limit rem taken
  let qrev ← append limit s.qrev found.qd
  let i ← intSub s.i 1
  .ok ⟨i, rem, qrev⟩

def magDivmod (limit : Nat) (a b : List Int) : Result (DivMod (List Int)) :=
  if magIsZero b then
    raise limit "stdlib.numeric.bignum.divzero" "bignum division by zero".toList none
  else do
    let c ← magCmp a b
    if c = -1 then do
      let rem ← magNormalize limit a
      assocFresh limit 2
      .ok ⟨[], rem⟩
    else do
      let i ← intSub (size a) 1
      let s ← whileLoop .timeout (fun s => .ok (decide (0 ≤ s.i))) (divRound limit a b)
        a.length ⟨i, [], []⟩
      let quot ← sequenceReverse limit s.qrev
      let quot ← magNormalize limit quot
      let rem ← magNormalize limit s.rem
      assocFresh limit 2
      .ok ⟨quot, rem⟩

/-! ## Constructors and conversions of kernel integers -/

def bnMake (limit : Nat) (sign : Int) (limbs : List Int) : Result Bignum := do
  let ls ← magNormalize limit limbs
  assocFresh limit 2
  if magIsZero ls then .ok ⟨0, []⟩
  else .ok ⟨if sign < 0 then -1 else 1, ls⟩

def bnZero (limit : Nat) : Result Bignum := do
  assocFresh limit 2
  .ok ⟨0, []⟩

def Bignum.isZero (bn : Bignum) : Bool := bn.sign == 0

structure SplitState where
  m : Int
  limbs : List Int

def splitRound (limit : Nat) (s : SplitState) : Result SplitState := do
  let limb ← intMod s.m base
  let limbs ← append limit s.limbs limb
  let m ← intDiv s.m base
  .ok ⟨m, limbs⟩

def bnFromInt (limit : Nat) (n : Int) : Result Bignum :=
  if n = 0 then bnZero limit
  else do
    let m ← intAbs n
    let s ← whileLoop .timeout (fun s => .ok (decide (0 < s.m))) (splitRound limit)
      m.toNat ⟨m, []⟩
    bnMake limit (if n < 0 then -1 else 1) s.limbs

structure FoldState where
  i : Int
  acc : Int

def foldRound (ls : List Int) (s : FoldState) : Result FoldState := do
  let scaled ← intMul s.acc base
  let limb ← get ls s.i 0
  let acc ← intAdd scaled limb
  let i ← intSub s.i 1
  .ok ⟨i, acc⟩

def bnToInt (limit : Nat) (bn : Bignum) : Result Int :=
  if bn.isZero then .ok 0
  else do
    let i ← intSub (size bn.limbs) 1
    let s ← tryCatch
      (whileLoop .timeout (fun s => .ok (decide (0 ≤ s.i))) (foldRound bn.limbs)
        bn.limbs.length ⟨i, 0⟩)
      fun _ => raise limit "stdlib.numeric.bignum.overflow"
        "bignum does not fit in a kernel int".toList none
    intMul bn.sign s.acc

/-! ## Signed arithmetic -/

def bnCmp (a b : Bignum) : Result Int :=
  if a.sign < b.sign then .ok (-1)
  else if b.sign < a.sign then .ok 1
  else if a.sign = 0 then .ok 0
  else do
    let c ← magCmp a.limbs b.limbs
    intMul a.sign c

def bnNeg (limit : Nat) (bn : Bignum) : Result Bignum := do
  let sign ← intSub 0 bn.sign
  bnMake limit sign bn.limbs

def bnAbs (limit : Nat) (bn : Bignum) : Result Bignum := do
  let sign ← intAbs bn.sign
  bnMake limit sign bn.limbs

/-- Both are not zero and their signs differ: the smaller magnitude from the larger. -/
def addOpposite (limit : Nat) (a b : Bignum) : Result Bignum := do
  let c ← magCmp a.limbs b.limbs
  if c = 0 then bnZero limit
  else if 0 < c then do
    let ls ← magSub limit a.limbs b.limbs
    bnMake limit a.sign ls
  else do
    let ls ← magSub limit b.limbs a.limbs
    bnMake limit b.sign ls

def bnAdd (limit : Nat) (a b : Bignum) : Result Bignum :=
  if a.isZero then .ok b
  else if b.isZero then .ok a
  else if a.sign = b.sign then do
    let ls ← magAdd limit a.limbs b.limbs
    bnMake limit a.sign ls
  else addOpposite limit a b

def bnSub (limit : Nat) (a b : Bignum) : Result Bignum := do
  let neg ← bnNeg limit b
  bnAdd limit a neg

def bnMul (limit : Nat) (a b : Bignum) : Result Bignum :=
  if a.isZero ∨ b.isZero then bnZero limit
  else do
    let sign ← intMul a.sign b.sign
    let ls ← magMul limit a.limbs b.limbs
    bnMake limit sign ls

def bnDivmod (limit : Nat) (a b : Bignum) : Result (DivMod Bignum) :=
  if b.isZero then
    raise limit "stdlib.numeric.bignum.divzero" "bignum division by zero".toList none
  else do
    let dm ← magDivmod limit a.limbs b.limbs
    let qsign ← intMul a.sign b.sign
    let q ← bnMake limit qsign dm.quot
    let r ← bnMake limit a.sign dm.rem
    assocFresh limit 2
    .ok ⟨q, r⟩

def bnDiv (limit : Nat) (a b : Bignum) : Result Bignum := do
  let dm ← bnDivmod limit a b
  .ok dm.quot

def bnRem (limit : Nat) (a b : Bignum) : Result Bignum := do
  let dm ← bnDivmod limit a b
  .ok dm.rem

def bnMod (limit : Nat) (a b : Bignum) : Result Bignum := do
  let r ← bnRem limit a b
  if r.sign < 0 then do
    let m ← bnAbs limit b
    bnAdd limit r m
  else .ok r

/-! ## Parsing and formatting -/

def decimals : Str := "0123456789".toList

def lowers : Str := "abcdefghijklmnopqrstuvwxyz".toList

def uppers : Str := "ABCDEFGHIJKLMNOPQRSTUVWXYZ".toList

/-- The value of one digit character, before it is compared with the radix. -/
def digitRank (c : Str) : Int :=
  if stringContains decimals c then (stringFind decimals c).getD 0
  else if stringContains lowers c then 10 + (stringFind lowers c).getD 0
  else if stringContains uppers c then 10 + (stringFind uppers c).getD 0
  else -1

def digitValue (c : Str) (radix : Int) : Int :=
  if size c ≠ 1 then -1
  else if 0 ≤ digitRank c ∧ digitRank c < radix then digitRank c
  else -1

def digitChar (v : Int) : Result Str := do
  let stop ← intAdd v 1
  .ok (stringSlice "0123456789abcdefghijklmnopqrstuvwxyz".toList v stop)

def checkRadix (limit : Nat) (radix : Int) : Result Unit :=
  if radix < 2 ∨ 36 < radix then do
    assocFresh limit 1
    raise limit "stdlib.numeric.bignum.radix" "radix must be in 2..36".toList
      (some [("radix", .int radix)])
  else .ok ()

structure HornerState where
  i : Int
  acc : Bignum

def hornerRound (limit : Nat) (s : Str) (chars : List Str) (radix : Int) (rbn : Bignum)
    (st : HornerState) : Result HornerState := do
  let c ← get chars st.i []
  let d := digitValue c radix
  if d < 0 then do
    let message ← stringConcatMany limit
      ["invalid digit `".toList, c, "` for radix ".toList, intToString radix]
    assocFresh limit 2
    raise limit "stdlib.numeric.bignum.parse" message
      (some [("string", .text s), ("index", .int st.i)])
  else do
    let prod ← bnMul limit st.acc rbn
    let digit ← bnFromInt limit d
    let acc ← bnAdd limit prod digit
    let i ← intAdd st.i 1
    .ok ⟨i, acc⟩

/-- The digits after the sign. -/
def parseBody (s : Str) : Str :=
  if stringStartsWith s ['-'] ∨ stringStartsWith s ['+'] then stringSlice s 1 (size s) else s

def emptyNumber (limit : Nat) (s : Str) : Result Bignum := do
  assocFresh limit 1
  raise limit "stdlib.numeric.bignum.parse" "empty number string".toList
    (some [("string", .text s)])

def bnParse (limit : Nat) (s : Str) (radix : Int) : Result Bignum := do
  checkRadix limit radix
  let chars ← stringChars limit (parseBody s)
  let rbn ← bnFromInt limit radix
  let zero ← bnZero limit
  if size chars = 0 then emptyNumber limit s
  else do
    let st ← whileLoop .timeout (fun st => .ok (decide (st.i < size chars)))
      (hornerRound limit s chars radix rbn) chars.length ⟨0, zero⟩
    if stringStartsWith s ['-'] then bnNeg limit st.acc else .ok st.acc

structure TextState where
  i : Int
  out : Str

/-- One limb below the highest, padded to nine decimal digits. -/
def padRound (limit : Nat) (ls : List Int) (s : TextState) : Result TextState := do
  let limb ← get ls s.i 0
  let d := intToString limb
  let pad ← intSub baseDigits (size d)
  let zeros ← stringRepeat limit ['0'] pad
  let out ← stringConcatMany limit [s.out, zeros, d]
  let i ← intSub s.i 1
  .ok ⟨i, out⟩

/-- The sign in front of the digits. -/
def signText (bn : Bignum) : Str := if bn.sign < 0 then ['-'] else []

def formatDecimal (limit : Nat) (bn : Bignum) : Result Str := do
  let top ← intSub (size bn.limbs) 1
  let high ← get bn.limbs top 0
  let i ← intSub (size bn.limbs) 2
  let s ← whileLoop .timeout (fun s => .ok (decide (0 ≤ s.i))) (padRound limit bn.limbs)
    bn.limbs.length ⟨i, intToString high⟩
  stringConcatMany limit [signText bn, s.out]

structure DigitState where
  mag : Bignum
  digits : List Str

def digitRound (limit : Nat) (rbn : Bignum) (s : DigitState) : Result DigitState := do
  let dm ← bnDivmod limit s.mag rbn
  let v ← bnToInt limit dm.rem
  let digit ← digitChar v
  let digits ← append limit s.digits digit
  .ok ⟨dm.quot, digits⟩

/-- The rounds of the loop in `bn_format` are bounded by its digits to the base two. -/
def formatRounds (bn : Bignum) : Nat := 30 * bn.limbs.length

def formatRadix (limit : Nat) (bn : Bignum) (radix : Int) : Result Str := do
  let rbn ← bnFromInt limit radix
  let mag ← bnAbs limit bn
  let s ← whileLoop .timeout (fun s => .ok (!s.mag.isZero)) (digitRound limit rbn)
    (formatRounds mag) ⟨mag, []⟩
  let reversed ← sequenceReverse limit s.digits
  let joined ← sequenceJoin limit reversed
  stringConcatMany limit [signText bn, joined]

def bnFormat (limit : Nat) (bn : Bignum) (radix : Int) : Result Str := do
  checkRadix limit radix
  if bn.isZero then .ok ['0']
  else if radix = 10 then formatDecimal limit bn
  else formatRadix limit bn radix

end Caap.Stdlib
