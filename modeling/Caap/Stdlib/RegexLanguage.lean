/-
  Caap.Stdlib.RegexLanguage

  What a pattern means, apart from how it is matched: `Matches space cs x p q` says that the
  node `x` matches the subject `cs` from `p` to `q`.  The digit and word classes are the ASCII
  ones; the space class is a parameter, since the one of the documentation and the one of the
  code differ.  `Runs` is the same with the spans that a match notes for its groups.
-/

import Caap.Stdlib.Regex

namespace Caap.Stdlib.Regex

open Caap.Lib Caap.Lib.Backtrack List Char

/-- The documented `\s`: space, tab, newline, carriage return, form feed. -/
def asciiSpace (c : Char) : Bool :=
  c == ' ' || c == '\t' || c == '\n' || c == '\r' || c == '\x0c'

/-- The documented `\w`. -/
def asciiWord (c : Char) : Bool := c.isAlphanum || c == '_'

/-- The characters that a class item stands for. -/
def Item.holds (space : Char → Bool) (c : Char) : Item → Bool
  | .ch x => c == x
  | .rng lo hi => decide (lo ≤ c) && decide (c ≤ hi)
  | .pred .digit => c.isDigit
  | .pred .notDigit => !c.isDigit
  | .pred .word => asciiWord c
  | .pred .notWord => !asciiWord c
  | .pred .space => space c
  | .pred .notSpace => !space c

/-- A class holds of the characters of its items, a negated one of all others. -/
def classHolds (space : Char → Bool) (neg : Bool) (items : List Item) (c : Char) : Bool :=
  (items.any (Item.holds space c)) != neg

mutual

/-- The node matches the subject from `p` to `q`. -/
@[simp]
def Matches (space : Char → Bool) (cs : Str) : Node → Nat → Nat → Prop
  | .lit c, p, q => p < cs.length ∧ cs[p]? = some c ∧ q = p + 1
  | .any, p, q => p < cs.length ∧ q = p + 1
  | .cls neg items, p, q =>
    p < cs.length ∧ (∃ c, cs[p]? = some c ∧ classHolds space neg items c = true) ∧ q = p + 1
  | .start, p, q => p = 0 ∧ q = p
  | .stop, p, q => p = cs.length ∧ q = p
  | .star x, p, q => Repeats (Matches space cs x) 0 (-1) 0 p q
  | .plus x, p, q => Repeats (Matches space cs x) 1 (-1) 0 p q
  | .opt x, p, q => Matches space cs x p q ∨ q = p
  | .rep x min max, p, q => Repeats (Matches space cs x) min max 0 p q
  | .seq xs, p, q => MatchesAll space cs xs p q
  | .alt xs, p, q => MatchesOne space cs xs p q
  | .group _ x, p, q => Matches space cs x p q

/-- The nodes match one after the other. -/
@[simp]
def MatchesAll (space : Char → Bool) (cs : Str) : List Node → Nat → Nat → Prop
  | [], p, q => q = p
  | x :: xs, p, q => ∃ o, Matches space cs x p o ∧ MatchesAll space cs xs o q

/-- One of the nodes matches. -/
@[simp]
def MatchesOne (space : Char → Bool) (cs : Str) : List Node → Nat → Nat → Prop
  | [], _, _ => False
  | x :: xs, p, q => Matches space cs x p q ∨ MatchesOne space cs xs p q

end

mutual

/-- A match from `p` to `q` that turns the spans `c` into `c'`: a group notes its span when
    it ends, the last time it takes part. -/
@[simp]
def Runs (space : Char → Bool) (cs : Str) : Node → Nat → Caps → Nat → Caps → Prop
  | .lit ch, p, c, q, c' => Matches space cs (.lit ch) p q ∧ c' = c
  | .any, p, c, q, c' => Matches space cs .any p q ∧ c' = c
  | .cls neg items, p, c, q, c' => Matches space cs (.cls neg items) p q ∧ c' = c
  | .start, p, c, q, c' => Matches space cs .start p q ∧ c' = c
  | .stop, p, c, q, c' => Matches space cs .stop p q ∧ c' = c
  | .star x, p, c, q, c' => RepeatRuns (Runs space cs x) 0 (-1) 0 p c q c'
  | .plus x, p, c, q, c' => RepeatRuns (Runs space cs x) 1 (-1) 0 p c q c'
  | .opt x, p, c, q, c' => Runs space cs x p c q c' ∨ (q = p ∧ c' = c)
  | .rep x min max, p, c, q, c' => RepeatRuns (Runs space cs x) min max 0 p c q c'
  | .seq xs, p, c, q, c' => RunsAll space cs xs p c q c'
  | .alt xs, p, c, q, c' => RunsOne space cs xs p c q c'
  | .group n x, p, c, q, c' => ∃ c₁, Runs space cs x p c q c₁ ∧ c' = noteSpan n p q c₁

@[simp]
def RunsAll (space : Char → Bool) (cs : Str) : List Node → Nat → Caps → Nat → Caps → Prop
  | [], p, c, q, c' => q = p ∧ c' = c
  | x :: xs, p, c, q, c' => ∃ o c₁, Runs space cs x p c o c₁ ∧ RunsAll space cs xs o c₁ q c'

@[simp]
def RunsOne (space : Char → Bool) (cs : Str) : List Node → Nat → Caps → Nat → Caps → Prop
  | [], _, _, _, _ => False
  | x :: xs, p, c, q, c' => Runs space cs x p c q c' ∨ RunsOne space cs xs p c q c'

end

/-! ## Characters of a literal -/

theorem isPrefixOf_singleton (c : Char) (s : Str) : [c].isPrefixOf s = true ↔ s[0]? = some c := by
  cases s with
  | nil => simp [isPrefixOf]
  | cons d s =>
    simp only [isPrefixOf, Bool.and_true, beq_iff_eq, getElem?_cons_zero,
      Option.some.injEq]
    exact eq_comm

/-- `string_contains` of one character is membership. -/
theorem stringContains_singleton (s : Str) (c : Char) : stringContains s [c] = true ↔ c ∈ s := by
  unfold stringContains stringFind
  rw [find?_isSome]
  constructor
  · rintro ⟨i, -, hi⟩
    rw [isPrefixOf_singleton, getElem?_drop] at hi
    exact mem_of_getElem? hi
  · intro hc
    obtain ⟨i, hi, hget⟩ := getElem_of_mem hc
    refine ⟨i, mem_range.mpr (by omega), ?_⟩
    rw [isPrefixOf_singleton, getElem?_drop, Nat.add_zero, getElem?_eq_getElem hi, hget]

/-- A literal of consecutive characters. -/
theorem mem_charRange {lo n : Nat} (h : lo + n < 55296) (c : Char) :
    c ∈ (range' lo n).map ofNat ↔ lo ≤ c.toNat ∧ c.toNat < lo + n := by
  rw [mem_map]
  constructor
  · rintro ⟨k, hk, rfl⟩
    rw [mem_range'_1] at hk
    have hvalid : (ofNat k).toNat = k := by
      rw [toNat_ofNat, if_pos (Or.inl (by omega))]
    omega
  · intro hc
    exact ⟨c.toNat, mem_range'_1.mpr hc, ofNat_toNat c⟩

theorem isDigit_eq (c : Char) : isDigit c = c.isDigit := by
  have hlit : "0123456789".toList = (range' 48 10).map ofNat := by decide
  rw [Bool.eq_iff_iff, isDigit, stringContains_singleton, hlit, mem_charRange (by omega),
    Char.isDigit]
  simp only [Bool.and_eq_true, decide_eq_true_eq, ge_iff_le, UInt32.le_iff_toNat_le]
  exact and_congr_right fun _ => Nat.lt_succ_iff

theorem mem_lowers (c : Char) : c ∈ "abcdefghijklmnopqrstuvwxyz".toList ↔ c.isLower = true := by
  have hlit : "abcdefghijklmnopqrstuvwxyz".toList = (range' 97 26).map ofNat := by decide
  rw [hlit, mem_charRange (by omega), isLower]
  simp only [Bool.and_eq_true, decide_eq_true_eq, ge_iff_le, UInt32.le_iff_toNat_le]
  exact and_congr_right fun _ => Nat.lt_succ_iff

theorem mem_uppers (c : Char) : c ∈ "ABCDEFGHIJKLMNOPQRSTUVWXYZ".toList ↔ c.isUpper = true := by
  have hlit : "ABCDEFGHIJKLMNOPQRSTUVWXYZ".toList = (range' 65 26).map ofNat := by decide
  rw [hlit, mem_charRange (by omega), isUpper]
  simp only [decide_eq_true_eq, ge_iff_le, UInt32.le_iff_toNat_le]
  exact and_congr_right fun _ => Nat.lt_succ_iff

theorem isWord_eq (c : Char) : isWord c = asciiWord c := by
  have hdigit := isDigit_eq c
  have hlower : stringContains "abcdefghijklmnopqrstuvwxyz".toList [c] = c.isLower := by
    rw [Bool.eq_iff_iff, stringContains_singleton, mem_lowers]
  have hupper : stringContains "ABCDEFGHIJKLMNOPQRSTUVWXYZ".toList [c] = c.isUpper := by
    rw [Bool.eq_iff_iff, stringContains_singleton, mem_uppers]
  rw [isDigit] at hdigit
  rw [isWord, hlower, hupper, hdigit, asciiWord, isAlphanum, isAlpha]
  cases c.isLower <;> cases c.isUpper <;> cases c.isDigit <;> rfl

/-- The reader of the language does not know the escape of the form feed: the literal in
    `space?` has a backslash and the letter `f` in its place. -/
theorem spaceLiteral_eq : spaceLiteral = [' ', '\t', '\n', '\r', '\\', 'f'] := by
  decide

/-- The two space classes differ in three characters. -/
theorem isSpace_eq {c : Char} (h : c ≠ '\\' ∧ c ≠ 'f' ∧ c ≠ '\x0c') : isSpace c = asciiSpace c := by
  rw [Bool.eq_iff_iff, isSpace, stringContains_singleton, spaceLiteral_eq, asciiSpace]
  simp [h.1, h.2.1, h.2.2, or_assoc]

theorem classMatch_eq (neg : Bool) (items : List Item) (c : Char) :
    classMatch neg items c = classHolds isSpace neg items c := by
  have hitem : (fun it => classItem it c) = Item.holds isSpace c := by
    funext it
    cases it with
    | ch x => rfl
    | rng lo hi => rfl
    | pred pr => cases pr <;> simp [classItem, Item.holds, isDigit_eq, isWord_eq]
  unfold classMatch classHolds
  rw [hitem]
  cases neg <;> simp

/-! ## The space class of a pattern -/

def Item.usesSpace : Item → Bool
  | .pred .space => true
  | .pred .notSpace => true
  | _ => false

mutual

/-- The pattern has a `\s` or a `\S` somewhere. -/
def Node.usesSpace : Node → Bool
  | .cls _ items => items.any Item.usesSpace
  | .star x => x.usesSpace
  | .plus x => x.usesSpace
  | .opt x => x.usesSpace
  | .rep x _ _ => x.usesSpace
  | .seq xs => usesSpaceAny xs
  | .alt xs => usesSpaceAny xs
  | .group _ x => x.usesSpace
  | _ => false

def usesSpaceAny : List Node → Bool
  | [] => false
  | x :: xs => x.usesSpace || usesSpaceAny xs

end

/-- The class of an item does not depend on what counts as space, for this character. -/
theorem Item.holds_congr {space space' : Char → Bool} {c : Char} {it : Item}
    (h : it.usesSpace = true → space c = space' c) : it.holds space c = it.holds space' c := by
  cases it with
  | ch x => rfl
  | rng lo hi => rfl
  | pred pr =>
    cases pr with
    | space => exact h rfl
    | notSpace => exact congrArg (!·) (h rfl)
    | digit | notDigit | word | notWord => rfl

theorem classHolds_congr {space space' : Char → Bool} {c : Char} {neg : Bool} {items : List Item}
    (h : items.any Item.usesSpace = true → space c = space' c) :
    classHolds space neg items c = classHolds space' neg items c := by
  have hany : items.any (Item.holds space c) = items.any (Item.holds space' c) := by
    induction items with
    | nil => rfl
    | cons it items ih =>
      have hit : it.holds space c = it.holds space' c :=
        Item.holds_congr fun huse => h (by rw [any_cons, huse, Bool.true_or])
      have hrest := ih fun huse => h (by rw [any_cons, huse, Bool.or_true])
      rw [any_cons, any_cons, hit, hrest]
  unfold classHolds
  rw [hany]

section Congr

variable {space space' : Char → Bool} {cs : Str}

theorem matches_cls_congr {neg : Bool} {items : List Item}
    (h : items.any Item.usesSpace = true → ∀ c ∈ cs, space c = space' c) :
    Matches space cs (.cls neg items) = Matches space' cs (.cls neg items) := by
  funext p q
  simp only [Matches]
  have hclass : (∃ c, cs[p]? = some c ∧ classHolds space neg items c = true) ↔
      ∃ c, cs[p]? = some c ∧ classHolds space' neg items c = true := by
    refine exists_congr fun c => and_congr_right fun hc => ?_
    rw [classHolds_congr fun huse => h huse c (mem_of_getElem? hc)]
  rw [hclass]

mutual

/-- Patterns that use no space class, and subjects on which two space classes agree, have
    the same matches for both. -/
theorem matches_congr (x : Node) (h : x.usesSpace = true → ∀ c ∈ cs, space c = space' c) :
    Matches space cs x = Matches space' cs x := by
  funext p q
  match x with
  | .lit _ | .any | .start | .stop => simp only [Matches]
  | .cls _ _ => rw [matches_cls_congr h]
  | .star x | .plus x | .opt x | .rep x _ _ | .group _ x => simp only [Matches, matches_congr x h]
  | .seq xs => simp only [Matches, (matches_list_congr xs h).1]
  | .alt xs => simp only [Matches, (matches_list_congr xs h).2]

theorem matches_list_congr : (xs : List Node) →
    (usesSpaceAny xs = true → ∀ c ∈ cs, space c = space' c) →
    MatchesAll space cs xs = MatchesAll space' cs xs ∧
      MatchesOne space cs xs = MatchesOne space' cs xs
  | [], _ => ⟨by funext p q; simp only [MatchesAll], by funext p q; simp only [MatchesOne]⟩
  | x :: xs, h => by
    have hx := matches_congr x fun huse => h (by rw [usesSpaceAny, huse, Bool.true_or])
    have hxs := matches_list_congr xs fun huse =>
      h (by rw [usesSpaceAny, huse, Bool.or_true])
    constructor
    · funext p q
      simp only [MatchesAll, hx, hxs.1]
    · funext p q
      simp only [MatchesOne, hx, hxs.2]

end

mutual

theorem runs_congr (x : Node) (h : x.usesSpace = true → ∀ c ∈ cs, space c = space' c) :
    Runs space cs x = Runs space' cs x := by
  funext p c q c'
  match x with
  | .lit _ | .any | .start | .stop => simp only [Runs, Matches]
  | .cls _ _ => simp only [Runs, matches_cls_congr h]
  | .star x | .plus x | .opt x | .rep x _ _ | .group _ x => simp only [Runs, runs_congr x h]
  | .seq xs => simp only [Runs, (runs_list_congr xs h).1]
  | .alt xs => simp only [Runs, (runs_list_congr xs h).2]

theorem runs_list_congr : (xs : List Node) →
    (usesSpaceAny xs = true → ∀ c ∈ cs, space c = space' c) →
    RunsAll space cs xs = RunsAll space' cs xs ∧ RunsOne space cs xs = RunsOne space' cs xs
  | [], _ => ⟨by funext p c q c'; simp only [RunsAll], by funext p c q c'; simp only [RunsOne]⟩
  | x :: xs, h => by
    have hx := runs_congr x fun huse => h (by rw [usesSpaceAny, huse, Bool.true_or])
    have hxs := runs_list_congr xs fun huse => h (by rw [usesSpaceAny, huse, Bool.or_true])
    constructor
    · funext p c q c'
      simp only [RunsAll, hx, hxs.1]
    · funext p c q c'
      simp only [RunsOne, hx, hxs.2]

end

end Congr

end Caap.Stdlib.Regex
