/-
  Caap.Stdlib.RegexParse

  What `rx_compile` makes of the patterns that look at one character of a subject: dots,
  `\s` and dots.
-/

import Caap.Stdlib.Regex

namespace Caap.Stdlib.Regex

open Caap.Lib List Nat

/-- The pattern of `i` dots, `\s` and `j` dots: it looks at one character of a subject. -/
def spot (i j : Nat) : Str := List.replicate i '.' ++ ('\\' :: 's' :: List.replicate j '.')

def spotTree (i j : Nat) : Node :=
  .seq (List.replicate i .any ++ (.cls false [.pred .space] :: List.replicate j .any))

/-- No quantifier begins here. -/
def Unquantified (pcs : Str) (p : Nat) : Prop :=
  ∀ c, pcs[p]? = some c → c = '.' ∨ c = '\\'

theorem quantified_eq {pcs : Str} {st : ParseState} (h : Unquantified pcs st.p) (atom : Node) :
    quantified pcs atom st = .ok (atom, st) := by
  have hne {c : Char} (hdot : c ≠ '.') (hback : c ≠ '\\') : ¬ pcs[st.p]? = some c := by
    intro hc
    rcases h c hc with hc' | hc'
    · exact hdot hc'
    · exact hback hc'
  unfold quantified
  simp only [if_neg (hne (c := '*') (by decide) (by decide)),
    if_neg (hne (c := '+') (by decide) (by decide)),
    if_neg (hne (c := '?') (by decide) (by decide)),
    if_neg (hne (c := '\x7b') (by decide) (by decide))]

/-- The loop of `parse_seq` reads a run of dots. -/
theorem parse_dots {inner : Parser Node} {pcs : Str} (k rounds p gc : Nat) (xs : List Node)
    (hdots : ∀ t < k, pcs[p + t]? = some '.') (hnext : Unquantified pcs (p + k)) :
    whileLoop .timeout (fun s => .ok (inSeq pcs s)) (seqRound inner pcs) (rounds + k)
        ⟨xs, ⟨p, gc⟩⟩ = whileLoop .timeout (fun s => .ok (inSeq pcs s)) (seqRound inner pcs) rounds
        ⟨xs ++ replicate k .any, ⟨p + k, gc⟩⟩ := by
  induction k generalizing p xs with
  | zero => rw [replicate_zero, append_nil, add_zero, add_zero]
  | succ k ih =>
    have hdot : pcs[p]? = some '.' := hdots 0 (by omega)
    have hstep : Unquantified pcs (p + 1) := by
      cases k with
      | zero => exact hnext
      | succ k =>
        intro c hc
        rw [hdots 1 (by omega)] at hc
        cases hc
        exact Or.inl rfl
    have hgo : inSeq pcs ⟨xs, ⟨p, gc⟩⟩ = true := by
      unfold inSeq
      rw [hdot]
      rfl
    have hround : seqRound inner pcs ⟨xs, ⟨p, gc⟩⟩ = .ok ⟨xs ++ [.any], ⟨p + 1, gc⟩⟩ := by
      have hatom : parseAtom inner pcs ⟨p, gc⟩ = .ok (.any, ⟨p + 1, gc⟩) := by
        unfold parseAtom
        rw [hdot]
        rfl
      have hquant : quantified pcs .any ⟨p + 1, gc⟩ = .ok (.any, ⟨p + 1, gc⟩) :=
        quantified_eq hstep .any
      unfold seqRound parseQuant
      rw [hatom]
      simp only [ok_bind, hquant]
    have hrest := ih (p + 1) (xs ++ [.any])
      (fun t ht => by rw [add_assoc, add_comm 1 t]; exact hdots (t + 1) (by omega))
      (by rw [add_assoc, add_comm 1 k]; exact hnext)
    rw [show rounds + (k + 1) = rounds + k + 1 by omega, whileLoop]
    simp only [ok_bind, hgo, if_true, hround]
    rw [hrest, append_assoc, replicate_succ, singleton_append,
      show p + 1 + k = p + (k + 1) by omega]

theorem spot_length (i j : Nat) : (spot i j).length = i + 2 + j := by
  simp only [spot, length_append, length_replicate, length_cons]
  omega

theorem spot_first_dots (i j t : Nat) (ht : t < i) : (spot i j)[t]? = some '.' := by
  rw [spot, getElem?_append_left (by rwa [length_replicate]),
    getElem?_replicate_of_lt ht]

theorem spot_after (i j t : Nat) :
    (spot i j)[i + t]? = ('\\' :: 's' :: replicate j '.')[t]? := by
  rw [spot, getElem?_append_right (by rw [length_replicate]; omega),
    length_replicate, Nat.add_sub_cancel_left]

theorem spot_last_dots (i j t : Nat) (ht : t < j) : (spot i j)[i + 2 + t]? = some '.' := by
  rw [add_assoc, spot_after, add_comm 2 t, getElem?_cons_succ,
    getElem?_cons_succ, getElem?_replicate_of_lt ht]

/-- The class in the middle. -/
theorem parse_spot_class {inner : Parser Node} (i j rounds gc : Nat) (xs : List Node) :
    whileLoop .timeout (fun s => .ok (inSeq (spot i j) s)) (seqRound inner (spot i j))
        (rounds + 1) ⟨xs, ⟨i, gc⟩⟩ =
      whileLoop .timeout (fun s => .ok (inSeq (spot i j) s)) (seqRound inner (spot i j)) rounds
        ⟨xs ++ [.cls false [.pred .space]], ⟨i + 2, gc⟩⟩ := by
  have hback : (spot i j)[i]? = some '\\' := spot_after i j 0
  have hletter : (spot i j)[i + 1]? = some 's' := spot_after i j 1
  have hgo : inSeq (spot i j) ⟨xs, ⟨i, gc⟩⟩ = true := by
    unfold inSeq
    rw [hback]
    rfl
  have hatom : parseAtom inner (spot i j) ⟨i, gc⟩ =
      .ok (.cls false [.pred .space], ⟨i + 2, gc⟩) := by
    unfold parseAtom parseEscape
    rw [hback, hletter]
    rfl
  have hnext : Unquantified (spot i j) (i + 2) := by
    intro c hc
    cases j with
    | zero =>
      rw [spot_after] at hc
      exact nomatch hc
    | succ j =>
      rw [spot_last_dots i (j + 1) 0 (by omega)] at hc
      cases hc
      exact Or.inl rfl
  have hquant : quantified (spot i j) (.cls false [.pred .space]) ⟨i + 2, gc⟩ =
      .ok (.cls false [.pred .space], ⟨i + 2, gc⟩) :=
    quantified_eq hnext _
  rw [whileLoop]
  simp only [ok_bind, hgo, if_true, seqRound, parseQuant, hatom, hquant]

theorem parseSeq_spot {inner : Parser Node} (i j : Nat) :
    parseSeq inner (spot i j) ⟨0, 0⟩ = .ok (spotTree i j, ⟨i + 2 + j, 0⟩) := by
  have hbackslash : Unquantified (spot i j) i := by
    intro c hc
    rw [show (spot i j)[i]? = some '\\' from spot_after i j 0] at hc
    cases hc
    exact Or.inr rfl
  have hend : (spot i j)[i + 2 + j]? = none :=
    getElem?_eq_none (by rw [spot_length])
  have hlast : Unquantified (spot i j) (i + 2 + j) := by
    intro c hc
    rw [hend] at hc
    exact nomatch hc
  have hfirst := @parse_dots inner (spot i j) i (1 + j + 1) 0 0 []
    (fun t ht => by rw [zero_add]; exact spot_first_dots i j t ht)
    (by rw [zero_add]; exact hbackslash)
  have hdots := @parse_dots inner (spot i j) j 1 (i + 2) 0
    (replicate i .any ++ [.cls false [.pred .space]]) (spot_last_dots i j) hlast
  have hstop (xs : List Node) : inSeq (spot i j) ⟨xs, ⟨i + 2 + j, 0⟩⟩ = false := by
    unfold inSeq
    rw [hend]
    rfl
  unfold parseSeq
  rw [spot_length, show i + 2 + j = 1 + j + 1 + i by omega, hfirst, nil_append, zero_add,
    parse_spot_class, hdots, whileLoop]
  simp only [ok_bind, hstop, Bool.false_eq_true, if_false, spotTree, append_assoc,
    singleton_append]
  rw [show 1 + j + 1 + i = i + 2 + j by omega]

theorem rxCompile_spot (i j : Nat) : rxCompile (spot i j) = .ok (.ok (spotTree i j) 0) := by
  have hend : (spot i j)[i + 2 + j]? = none :=
    getElem?_eq_none (by rw [spot_length])
  have hparse : parseAlt (spot i j) ((spot i j).length + 1) ⟨0, 0⟩ =
      .ok (spotTree i j, ⟨i + 2 + j, 0⟩) := by
    have hno : decide ((spot i j)[i + 2 + j]? = some '|') = false := by
      rw [hend]
      rfl
    rw [parseAlt]
    unfold altBody
    rw [parseSeq_spot]
    simp only [ok_bind]
    rw [whileLoop.eq_def]
    simp only [ok_bind, hno, Bool.false_eq_true, if_false, branches]
  have hbody : compileBody (spot i j) = .ok (.ok (spotTree i j) 0) := by
    unfold compileBody
    rw [hparse]
    simp only [ok_bind, spot_length, ne_eq, not_true_eq_false, if_false]
  unfold rxCompile
  rw [hbody]
  rfl

end Caap.Stdlib.Regex
