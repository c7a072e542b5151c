/-
  Caap.Peg.Bounds

  The engine stays inside the text: positions are boundaries of characters, a success does
  not end before it starts, and no slice of the text is taken that `str` would refuse.
  The invariant of a run is `StateIn`: it speaks about the memo table, whose entries come
  back as outcomes, and about the furthest failure, which `match_expected` returns.
-/

import Caap.Lib.Effects
import Caap.Lib.Result
import Caap.Peg.Evaluator

namespace Caap.Peg

open Lib List Option

/-! ## Trivia -/

/-- The end of a skip from `pos`. -/
def SkipsIn (text : List Char) (pos : Nat) : Except Stop Nat → Prop
  | .ok stop => pos ≤ stop ∧ Boundary text stop
  | .error e => e ≠ .slice

variable {text : List Char}

variable {pos : Nat}

theorem SkipsIn.of_le {mid : Nat} {r : Except Stop Nat}
    (hle : pos ≤ mid) (h : SkipsIn text mid r) : SkipsIn text pos r := by
  cases r with
  | ok stop => exact ⟨hle.trans h.1, h.2⟩
  | error e => exact h

theorem sliceFrom_of_boundary (h : Boundary text pos) :
    ∃ rest, suffixAt text pos = some rest ∧ sliceFrom text pos = .ok rest := by
  obtain ⟨rest, hrest⟩ := boundary_iff.mp h
  exact ⟨rest, hrest, by rw [sliceFrom, hrest]⟩

/-- Fewer than `n` characters are left at `pos`. -/
def LeftAt (text : List Char) (n pos : Nat) : Prop :=
  ∃ rest, suffixAt text pos = some rest ∧ rest.length < n

theorem leftAt_of_boundary (h : Boundary text pos) : LeftAt text (text.length + 1) pos := by
  obtain ⟨rest, hrest⟩ := boundary_iff.mp h
  obtain ⟨a, rfl, -⟩ := suffixAt_eq_some_iff.mp hrest
  refine ⟨rest, hrest, ?_⟩
  rw [length_append]
  omega

theorem not_leftAt_zero : ¬LeftAt text 0 pos :=
  fun ⟨_, _, hlen⟩ => Nat.not_lt_zero _ hlen

theorem LeftAt.later {n q : Nat} (h : LeftAt text (n + 1) pos) (hlt : pos < q)
    (hq : Boundary text q) : LeftAt text n q := by
  obtain ⟨s, hs, hlen⟩ := h
  obtain ⟨t, ht⟩ := boundary_iff.mp hq
  obtain ⟨a, ha, rfl⟩ := suffixAt_eq_some_iff.mp hs
  obtain ⟨b, hb, rfl⟩ := suffixAt_eq_some_iff.mp ht
  -- of two beginnings of the text the one with more bytes has more characters
  have hmore : a.length < b.length := by
    by_contra hle
    obtain ⟨c, rfl⟩ := prefix_of_prefix_length_le ⟨t, hb.symm⟩ ⟨s, ha.symm⟩ (not_lt.mp hle)
    rw [byteLen_append] at hlt
    omega
  have hlength := congrArg length (ha.symm.trans hb)
  simp only [length_append] at hlength
  exact ⟨t, ht, by omega⟩

/-- The error of a comment that starts at `pos` or later. -/
def CommentError (pos : Nat) (e : Stop) : Prop := ∃ start, pos ≤ start ∧ e = unterminatedBlockComment start

/-- The result is as `φ` says, and an error is one of the `others` if the fuel is `enough`. -/
structure Comes {α : Type} (φ : Except Stop α → Prop) (enough : Prop) (others : Stop → Prop)
    (r : Except Stop α) : Prop where
  ends : φ r
  errors : ∀ e, r = .error e → (e = .fuel ∧ ¬enough) ∨ others e

section Comes

variable {α : Type} {φ φ' : Except Stop α → Prop} {enough enough' : Prop} {others others' : Stop → Prop}

theorem Comes.ok {a : α} (h : φ (.ok a)) : Comes φ enough others (.ok a) :=
  ⟨h, fun _ heq => nomatch heq⟩

theorem Comes.outOfFuel (h : φ (.error .fuel)) (hnot : ¬enough) :
    Comes φ enough others (.error .fuel) :=
  ⟨h, fun _ heq => .inl ⟨(Except.error.inj heq).symm, hnot⟩⟩

theorem Comes.mono {r : Except Stop α} (h : Comes φ' enough' others' r) (hφ : φ' r → φ r)
    (hmore : enough → enough') (hothers : ∀ e, others' e → others e) : Comes φ enough others r :=
  ⟨hφ h.ends, fun e he => (h.errors e he).imp (fun ⟨hfuel, hnot⟩ => ⟨hfuel, fun h => hnot (hmore h)⟩)
    (hothers e)⟩

end Comes

/-- From a later position on. -/
theorem Comes.earlier {mid : Nat} {enough enough' : Prop} {r : Except Stop Nat}
    (h : Comes (SkipsIn text mid) enough' (CommentError mid) r) (hle : pos ≤ mid)
    (hmore : enough → enough') : Comes (SkipsIn text pos) enough (CommentError pos) r :=
  h.mono (.of_le hle) hmore fun _ ⟨start, hstart, heq⟩ => ⟨start, hle.trans hstart, heq⟩

/-- A pattern that does not match the empty text uses up a character in every round. -/
theorem skipRegex_comes (host : Host) (pattern : String) (n pos : Nat) (h : Boundary text pos) :
    Comes (SkipsIn text pos) (LeftAt text n pos ∧ ∀ s, host.regexFind pattern s ≠ some 0)
      (CommentError pos) (skipRegex host pattern text n pos) := by
  induction n generalizing pos with
  | zero => exact .outOfFuel (fun h => nomatch h) fun h => not_leftAt_zero h.1
  | succ n ih =>
    obtain ⟨rest, hrest, hslice⟩ := sliceFrom_of_boundary h
    rw [skipRegex, hslice, ok_bind]
    cases hk : host.regexFind pattern rest with
    | none => exact .ok ⟨le_rfl, h⟩
    | some k =>
      have hle := host.regexFind_le pattern rest k hk
      rw [← take_append_drop k rest] at hrest
      have hnext : Boundary text (pos + byteLen (rest.take k)) := .of_suffixAt (suffixAt_add hrest)
      refine (ih _ hnext).earlier (Nat.le_add_right _ _) fun ⟨hleft, hmoves⟩ => ⟨?_, hmoves⟩
      have hpos : byteLen (rest.take k) ≠ 0 := by
        intro hzero
        have hlen := congrArg length (byteLen_eq_zero.mp hzero)
        rw [length_take, length_nil] at hlen
        exact hmoves rest (by rw [hk, show k = 0 by omega])
      exact hleft.later (by omega) hnext

/-- The end of the scan of a block comment. -/
def CommentEndIn (text : List Char) (pos : Nat) : Except Stop (Option Nat) → Prop
  | .ok stop => ∀ q ∈ stop, pos ≤ q ∧ Boundary text q
  | .error e => e ≠ .slice

theorem CommentEndIn.of_le {mid : Nat} {r : Except Stop (Option Nat)}
    (hle : pos ≤ mid) (h : CommentEndIn text mid r) : CommentEndIn text pos r := by
  cases r with
  | ok stop => exact fun q hq => ⟨hle.trans (h q hq).1, (h q hq).2⟩
  | error e => exact h

theorem blockCommentEnd_comes {opening closing : List Char} (hopening : opening ≠ [])
    (hclosing : closing ≠ []) (n depth pos : Nat) (h : Boundary text pos) :
    Comes (CommentEndIn text pos) (LeftAt text n pos) (fun _ => False)
      (blockCommentEnd text opening closing n depth pos) := by
  induction n generalizing depth pos with
  | zero => exact .outOfFuel (fun h => nomatch h) not_leftAt_zero
  | succ n ih =>
    obtain ⟨rest, hrest, hslice⟩ := sliceFrom_of_boundary h
    have hpast : ∀ {needle : List Char} {off : Nat}, needle ≠ [] → findText needle rest = some off →
        ∀ depth, Comes (CommentEndIn text pos) (LeftAt text (n + 1) pos) (fun _ => False)
          (blockCommentEnd text opening closing n depth (pos + off + byteLen needle)) := by
      intro needle off hneedle hfind depth
      have hend := (suffixAt_add_find hrest hfind).2
      have hpos : byteLen needle ≠ 0 := fun hzero => hneedle (byteLen_eq_zero.mp hzero)
      exact (ih depth _ hend).mono (.of_le (by omega)) (fun hleft => hleft.later (by omega) hend)
        fun _ => id
    -- past a closing delimiter: the end, or back in the comment around
    have hclose : ∀ c, findText closing rest = some c →
        Comes (CommentEndIn text pos) (LeftAt text (n + 1) pos) (fun _ => False)
          (if depth - 1 = 0 then .ok (some (pos + c + byteLen closing))
            else blockCommentEnd text opening closing n (depth - 1) (pos + c + byteLen closing)) := by
      intro c hc
      split_ifs
      · refine .ok fun q hq => ?_
        obtain rfl := some.inj hq
        exact ⟨by omega, (suffixAt_add_find hrest hc).2⟩
      · exact hpast hclosing hc _
    rw [blockCommentEnd, hslice, ok_bind]
    split
    · exact .ok fun q hq => nomatch hq
    · next o c ho hc =>
        have hend := hclose c hc
        split_ifs with hlt hdepth
        · exact hpast hopening ho _
        · rwa [if_pos hdepth] at hend
        · rwa [if_neg hdepth] at hend
    · next c _ hc => exact hclose c hc

theorem lineCommentEnd_in {rest : List Char} (h : suffixAt text pos = some rest) :
    pos + byteLen rest ⊓ 1 ≤ lineCommentEnd text rest pos ∧
      Boundary text (lineCommentEnd text rest pos) := by
  rw [lineCommentEnd]
  split
  · next off hoff =>
      have hend := (suffixAt_add_find h hoff).2
      have hlen : pos + off + 1 ≤ byteLen text := hend.le_len
      rw [min_eq_left hlen]
      exact ⟨by omega, hend⟩
  · have hlen := len_of_suffixAt h
    exact ⟨by omega, boundary_len⟩

theorem utf8Size_of_isDefaultWhitespace {c : Char} (h : isDefaultWhitespace c = true) :
    c.utf8Size = 1 := by
  simp only [isDefaultWhitespace, Bool.or_eq_true, beq_iff_eq] at h
  rcases h with ((rfl | rfl) | rfl) | rfl <;> decide

theorem blockComments_ne_nil {comment : String × String} (h : comment ∈ blockComments) :
    comment.1.toList ≠ [] ∧ comment.2.toList ≠ [] := by
  simp only [blockComments, mem_cons, not_mem_nil, or_false] at h
  rcases h with rfl | rfl <;> decide

theorem skipDefault_comes (n pos : Nat) (h : Boundary text pos) :
    Comes (SkipsIn text pos) (LeftAt text n pos) (CommentError pos) (skipDefault text n pos) := by
  induction n generalizing pos with
  | zero => exact .outOfFuel (fun h => nomatch h) not_leftAt_zero
  | succ n ih =>
    have hnext : ∀ {q : Nat}, pos < q → Boundary text q →
        Comes (SkipsIn text pos) (LeftAt text (n + 1) pos) (CommentError pos) (skipDefault text n q) :=
      fun hlt hq => (ih _ hq).earlier hlt.le fun hleft => hleft.later hlt hq
    obtain ⟨rest, hrest, hslice⟩ := sliceFrom_of_boundary h
    rw [skipDefault, hslice, ok_bind]
    split
    · exact .ok ⟨le_rfl, h⟩
    cases rest with
    | nil => exact .ok ⟨le_rfl, h⟩
    | cons c cs =>
      simp only [head?_cons]
      split_ifs with hspace hline
      · have hstep : Boundary text (pos + byteLen [c]) := .of_suffixAt (suffixAt_add (a := [c]) hrest)
        rw [byteLen_cons, utf8Size_of_isDefaultWhitespace hspace] at hstep
        exact hnext (Nat.lt_succ_self _) hstep
      · obtain ⟨hle, hend⟩ := lineCommentEnd_in hrest
        have hsize := Char.utf8Size_pos c
        rw [byteLen_cons] at hle
        exact hnext (by omega) hend
      · split
        · next opening closing hfind =>
            obtain ⟨hopening, hclosing⟩ := blockComments_ne_nil (mem_of_find?_eq_some hfind)
            have hhere := find?_some hfind
            simp only at hhere
            obtain ⟨t, -, ht⟩ := suffixAt_add_literal hrest hhere
            have hlen : byteLen opening.toList ≠ 0 := fun hzero => hopening (byteLen_eq_zero.mp hzero)
            have hinside := Boundary.of_suffixAt ht
            have hscan := blockCommentEnd_comes hopening hclosing (text.length + 1) 1 _ hinside
            cases hr : blockCommentEnd text opening.toList closing.toList (text.length + 1) 1
                (pos + byteLen opening.toList) with
            | error e =>
              have hleft := leftAt_of_boundary hinside
              exact (hscan.errors e hr).elim (fun h => absurd hleft h.2) False.elim
            | ok found =>
              rw [hr] at hscan
              cases found with
              | none =>
                refine ⟨(fun h => nomatch h), fun e he => .inr ⟨pos, le_rfl, ?_⟩⟩
                exact (Except.error.inj he).symm
              | some stop =>
                obtain ⟨hle, hend⟩ := hscan.ends stop rfl
                exact hnext (by omega) hend
        · exact .ok ⟨le_rfl, h⟩

theorem trySkip_in (host : Host) (h : Boundary text pos)
    (skipper : Skipper) : SkipsIn text pos (skipper.trySkip host text pos) := by
  cases skipper with
  | whitespace =>
    obtain ⟨rest, hrest⟩ := boundary_iff.mp h
    simp only [Skipper.trySkip, hrest]
    exact ⟨Nat.le_add_right _ _, boundary_add_span hrest _⟩
  | default => exact (skipDefault_comes _ pos h).ends
  | regex pattern => exact (skipRegex_comes host pattern _ pos h).ends

/-! ## The invariant and the small steps -/

/-- What is followed through a run besides the positions: which expressions and rules may
    end where they start, at which calls of expressions the run may come by, and which
    rules it may enter again. -/
structure Track where
  zero : PegExpr → Prop
  zeroRule : String → Prop
  call : CompiledGrammar → Scope → PegExpr → Nat → Prop
  again : String × Nat → Prop

/-- Nothing is followed. -/
def Track.free : Track := ⟨fun _ => True, fun _ => True, fun _ _ _ _ => True, fun _ => True⟩

/-- An outcome at `pos` stays in the text, and ends where it starts only with `zero`. -/
def OutcomeIn (text : List Char) (zero : Prop) (pos : Nat) : ParseOutcome → Prop
  | .success stop _ _ => pos ≤ stop ∧ Boundary text stop ∧ (stop = pos → zero)
  | .failure fp _ => Boundary text fp

/-- What is in the state stays in the text. -/
structure StateIn (text : List Char) (T : Track) (s : EvalState) : Prop where
  memo : ∀ entry ∈ s.ruleMemo, OutcomeIn text (T.zeroRule entry.1.1) entry.1.2 entry.2
  furthest : Boundary text s.diag.furthest
  reentered : ∀ call ∈ s.reentered, T.again call

theorem stateIn_new (text : List Char) (T : Track) (indentationEnabled : Bool) :
    StateIn text T (.new indentationEnabled) :=
  ⟨fun _ h => absurd h not_mem_nil, boundary_zero, fun _ h => absurd h not_mem_nil⟩

/-- The program keeps the state in the text and takes no slice that is refused. -/
abbrev InText {α : Type} (text : List Char) (T : Track) (m : Eval α) (φ : α → Prop) : Prop :=
  Keeps (StateIn text T) (· ≠ Stop.slice) m φ

/-- The evaluation at `pos` stays in the text, and ends where it starts only with `zero`. -/
abbrev StaysIn (T : Track) (ctx : ParseCtx) (pos : Nat) (zero : Prop) (m : Eval ParseOutcome) : Prop :=
  InText ctx.text T m (OutcomeIn ctx.text zero pos)

theorem OutcomeIn.imp {zero zero' : Prop} {o : ParseOutcome}
    (h : zero → zero') (ho : OutcomeIn text zero pos o) : OutcomeIn text zero' pos o := by
  cases o with
  | success stop value cut => exact ⟨ho.1, ho.2.1, fun heq => h (ho.2.2 heq)⟩
  | failure fp cut => exact ho

/-- What follows an evaluation, for each of its outcomes. -/
theorem StaysIn.cases {T : Track} {ctx : ParseCtx} {zero : Prop} {m : Eval ParseOutcome}
    {α : Type} {f : ParseOutcome → Eval α} {φ : α → Prop} (h : StaysIn T ctx pos zero m)
    (hsuccess : ∀ stop value cut, pos ≤ stop ∧ Boundary ctx.text stop ∧ (stop = pos → zero) →
      InText ctx.text T (f (.success stop value cut)) φ)
    (hfailure : ∀ fp cut, Boundary ctx.text fp → InText ctx.text T (f (.failure fp cut)) φ) :
    InText ctx.text T (m >>= f) φ := by
  refine .bind h fun o ho => ?_
  cases o with
  | success stop value cut => exact hsuccess stop value cut ho
  | failure fp cut => exact hfailure fp cut ho

section Steps

variable {T : Track} {ctx : ParseCtx} {scope : Scope} {pos : Nat} {φ : ParseOutcome → Prop}

theorem parseError_in {α : Type} {message : String} {start stop : Nat}
    {code : Option String} {φ : α → Prop} : InText text T (parseError message start stop code) φ :=
  .throw fun h => nomatch h

theorem suffixFrom_in (h : Boundary ctx.text pos) :
    InText ctx.text T (suffixFrom ctx pos) fun rest => suffixAt ctx.text pos = some rest := by
  obtain ⟨rest, hrest⟩ := boundary_iff.mp h
  rw [suffixFrom, hrest]
  exact .pure rfl

theorem textBetween_in {start stop : Nat} (hstart : Boundary ctx.text start)
    (hstop : Boundary ctx.text stop) (hle : start ≤ stop) :
    InText ctx.text T (textBetween ctx start stop) fun _ => True := by
  obtain ⟨cs, hcs⟩ := isSome_iff_exists.mp (sliceAt_isSome hstart hstop hle)
  rw [textBetween, hcs]
  exact .pure trivial

/-- A state that differs in what the invariant does not speak about. -/
theorem StateIn.of_eq {s s' : EvalState} (hs : StateIn text T s)
    (hmemo : s'.ruleMemo = s.ruleMemo) (hdiag : s'.diag = s.diag)
    (hreentered : s'.reentered = s.reentered) : StateIn text T s' :=
  ⟨hmemo ▸ hs.memo, hdiag ▸ hs.furthest, hreentered ▸ hs.reentered⟩

theorem stateIn_recordExpected {s : EvalState} (hs : StateIn text T s)
    (h : Boundary text pos) (label : String) :
    StateIn text T { s with diag := s.diag.recordExpected pos label } := by
  refine ⟨hs.memo, ?_, hs.reentered⟩
  show Boundary text (s.diag.recordExpected pos label).furthest
  rw [DiagnosticsState.recordExpected]
  split_ifs
  · exact h
  · exact hs.furthest

theorem failExpecting_in {zero : Prop} {fp : Nat} (h : Boundary text fp)
    (label : String) : InText text T (failExpecting fp label) (OutcomeIn text zero pos) :=
  (Keeps.modify (fun _ hs => stateIn_recordExpected hs h label) trivial).bind
    (φ := fun _ => True) fun _ _ => .pure h

theorem specCheckpoint_in : InText text T specCheckpoint fun _ => True :=
  .get_bind fun _ _ => .pure trivial

theorem specRollback_in (saved : List (String × String)) :
    InText text T (specRollback saved) fun _ => True :=
  .modify (fun _ hs => hs.of_eq rfl rfl rfl) trivial

theorem mem_replaceEntry {κ ν : Type} [DecidableEq κ] {key : κ} {value : ν}
    {entries : List (κ × ν)} {entry : κ × ν} (h : entry ∈ replaceEntry key value entries) :
    entry = (key, value) ∨ entry ∈ entries := by
  rcases mem_cons.mp h with rfl | h
  · exact Or.inl rfl
  · exact Or.inr (mem_of_mem_filter h)

theorem memoInsert_in {rule : String} {o : ParseOutcome}
    (h : OutcomeIn ctx.text (T.zeroRule rule) pos o) :
    InText ctx.text T (memoInsert ctx (rule, pos) o) fun _ => True := by
  refine .get_bind fun s hs => ?_
  refine .ite (fun _ => .pure trivial) fun _ => .ite (fun _ => ?_) fun _ => parseError_in
  refine .set ⟨?_, hs.furthest, hs.reentered⟩ trivial
  intro entry hentry
  rcases mem_replaceEntry hentry with rfl | hentry
  · exact h
  · exact hs.memo entry hentry

theorem skipTrivia_in (h : Boundary ctx.text pos) :
    InText ctx.text T (skipTrivia ctx scope pos) fun stop => pos ≤ stop ∧ Boundary ctx.text stop := by
  rw [skipTrivia]
  refine .ite (fun _ => .pure ⟨le_rfl, h⟩) fun _ => ?_
  cases activeSkipper ctx scope with
  | none => exact .pure ⟨le_rfl, h⟩
  | some skipper =>
    have hskip := trySkip_in ctx.host h skipper
    simp only
    cases hr : skipper.trySkip ctx.host ctx.text pos with
    | ok stop =>
      rw [hr] at hskip
      exact .pure hskip
    | error e =>
      rw [hr] at hskip
      exact .throw hskip

/-- A terminal skips trivia and looks at what follows. -/
theorem skipTrivia_suffix_in {f : Nat → List Char → Eval ParseOutcome} (h : Boundary ctx.text pos)
    (hf : ∀ cur rest, pos ≤ cur → suffixAt ctx.text cur = some rest →
      InText ctx.text T (f cur rest) φ) : InText ctx.text T
      (skipTrivia ctx scope pos >>= fun cur => suffixFrom ctx cur >>= fun rest => f cur rest) φ :=
  (skipTrivia_in h).bind fun cur hcur =>
    (suffixFrom_in hcur.2).bind fun rest hrest => hf cur rest hcur.1 hrest

end Steps

/-! ## Terminals -/

theorem strLen_eq_zero {literal : String} (h : strLen literal = 0) : literal = "" :=
  String.toList_inj.mp (byteLen_eq_zero.mp h)

/-- The pattern matches without a character somewhere. -/
def Host.MatchesNothing (host : Host) (pattern : String) : Prop :=
  ∃ rest n, host.regexFind pattern rest = some n ∧ byteLen (rest.take n) = 0

section Terminals

variable {T : Track} {ctx : ParseCtx} {scope : Scope} {pos : Nat} (h : Boundary ctx.text pos)
include h

theorem matchLiteral_in (literal : String) :
    StaysIn T ctx pos (literal = "") (matchLiteral ctx scope literal pos) := by
  refine skipTrivia_suffix_in h fun cur rest hcur hrest => ?_
  refine .ite (fun hlit => ?_) fun _ => failExpecting_in (.of_suffixAt hrest) _
  obtain ⟨t, -, ht⟩ := suffixAt_add_literal hrest hlit
  exact .pure ⟨by omega, .of_suffixAt ht, fun heq => strLen_eq_zero (by omega)⟩

theorem matchDot_in : StaysIn T ctx pos False (matchDot ctx scope pos) := by
  refine skipTrivia_suffix_in h fun cur rest hcur hrest => ?_
  cases hhead : rest.head? with
  | none => exact failExpecting_in (.of_suffixAt hrest) _
  | some c =>
    have hsize := Char.utf8Size_pos c
    exact .pure ⟨by omega, boundary_add_head hrest hhead, fun heq => by omega⟩

theorem matchRegex_in (pattern : String) :
    StaysIn T ctx pos (ctx.host.MatchesNothing pattern) (matchRegex ctx scope pattern pos) := by
  refine skipTrivia_suffix_in h fun cur rest hcur hrest => ?_
  cases hfind : ctx.host.regexFind pattern rest with
  | none => exact failExpecting_in (.of_suffixAt hrest) _
  | some n =>
    rw [← take_append_drop n rest] at hrest
    exact .pure ⟨by omega, .of_suffixAt (suffixAt_add hrest),
      fun heq => ⟨rest, n, hfind, by omega⟩⟩

theorem matchCharClass_in (cls : CharClass) :
    StaysIn T ctx pos False (matchCharClass ctx scope cls pos) := by
  refine skipTrivia_suffix_in h fun cur rest hcur hrest => ?_
  have hfail : StaysIn T ctx pos False (failExpecting cur cls.toSource) :=
    failExpecting_in (.of_suffixAt hrest) _
  cases hhead : rest.head? with
  | none => exact hfail
  | some c =>
    have hsize := Char.utf8Size_pos c
    refine .ite (fun _ => ?_) fun _ => hfail
    exact .pure ⟨by omega, boundary_add_head hrest hhead, fun heq => by omega⟩

theorem recoverEnd_in {rest : List Char} (hrest : suffixAt ctx.text pos = some rest)
    (hend : ¬ctx.len ≤ pos) (syncs : List String) :
    pos < recoverEnd ctx syncs rest pos ∧ Boundary ctx.text (recoverEnd ctx syncs rest pos) := by
  rw [recoverEnd]
  cases hmin : (((syncs.filter fun sync => sync ≠ "").filterMap fun sync =>
      (findText sync.toList rest).map fun off => pos + off + strLen sync).min?) with
  | none => exact ⟨not_le.mp hend, boundary_len⟩
  | some stop =>
    obtain ⟨sync, hmem, hsync⟩ := mem_filterMap.mp (min?_mem hmin)
    obtain ⟨off, hoff, rfl⟩ := map_eq_some_iff.mp hsync
    have hsize : strLen sync ≠ 0 := fun hzero =>
      of_decide_eq_true (mem_filter.mp hmem).2 (strLen_eq_zero hzero)
    exact ⟨by simp only [getD_some]; omega, (suffixAt_add_find hrest hoff).2⟩

theorem matchRecover_in (syncs : List String) :
    StaysIn T ctx pos False (matchRecover ctx syncs pos) := by
  refine .ite (fun _ => failExpecting_in h _) fun hend => ?_
  refine (suffixFrom_in h).bind fun rest hrest => ?_
  obtain ⟨hlt, hstop⟩ := recoverEnd_in h hrest hend syncs
  exact (textBetween_in h hstop hlt.le).bind fun _ _ =>
    .pure ⟨hlt.le, hstop, fun heq => by omega⟩

theorem matchHardKeyword_in (keyword : String) :
    StaysIn T ctx pos (keyword = "") (matchHardKeyword ctx scope keyword pos) := by
  refine skipTrivia_suffix_in h fun cur rest hcur hrest => ?_
  have hfail : StaysIn T ctx pos (keyword = "")
    (failExpecting cur ("keyword '" ++ keyword ++ "'")) := failExpecting_in (.of_suffixAt hrest) _
  refine .ite (fun hlit => ?_) fun _ => hfail
  obtain ⟨t, -, ht⟩ := suffixAt_add_literal hrest hlit
  refine (suffixFrom_in (.of_suffixAt ht)).bind fun after _ => ?_
  exact .ite (fun _ => hfail) fun _ =>
    .pure ⟨by omega, .of_suffixAt ht, fun heq => strLen_eq_zero (by omega)⟩

theorem matchBackref_in (name : String) :
    StaysIn T ctx pos False (matchBackref ctx scope name pos) := by
  refine (skipTrivia_in h).bind fun cur hcur => .get_bind fun s _ => ?_
  have hfail : StaysIn T ctx pos False
    (failExpecting cur ("backref '" ++ name ++ "'")) := failExpecting_in hcur.2 _
  cases s.captures.lookup name with
  | none => exact hfail
  | some expected =>
    refine .ite (fun _ => hfail) fun hne => (suffixFrom_in hcur.2).bind fun rest hrest => ?_
    refine .ite (fun hlit => ?_) fun _ => hfail
    obtain ⟨t, -, ht⟩ := suffixAt_add_literal hrest hlit
    exact .pure ⟨by omega, .of_suffixAt ht, fun heq => hne (strLen_eq_zero (by omega))⟩

theorem skipHorizontal_in :
    pos ≤ skipHorizontal ctx.text pos ∧ Boundary ctx.text (skipHorizontal ctx.text pos) := by
  obtain ⟨rest, hrest⟩ := boundary_iff.mp h
  simp only [skipHorizontal, hrest]
  exact ⟨Nat.le_add_right _ _, boundary_add_span hrest _⟩

omit h in
theorem indentWidth_eq_zero {cs : List Char} (h : spanLen isHorizontalSpace cs = 0) :
    indentWidth cs = 0 := by
  cases cs with
  | nil => rfl
  | cons c cs =>
    have hsize := Char.utf8Size_pos c
    rw [spanLen] at h
    split_ifs at h with hspace
    · omega
    · simp only [isHorizontalSpace, Bool.or_eq_true, beq_iff_eq, not_or] at hspace
      rw [indentWidth, if_neg hspace.1, if_neg hspace.2]

theorem measureIndent_in :
    pos ≤ (measureIndent ctx.text pos).2 ∧ Boundary ctx.text (measureIndent ctx.text pos).2 ∧
      ((measureIndent ctx.text pos).2 = pos → (measureIndent ctx.text pos).1 = 0) := by
  obtain ⟨rest, hrest⟩ := boundary_iff.mp h
  simp only [measureIndent, hrest]
  exact ⟨Nat.le_add_right _ _, boundary_add_span hrest _,
    fun heq => indentWidth_eq_zero (by omega)⟩

theorem examineLookahead_in : InText ctx.text T (examineLookahead ctx pos) fun _ => True :=
  (suffixFrom_in h).bind fun _ _ => .pure trivial

omit h in
theorem newlineAt_in {cur stop : Nat} (hstop : newlineAt text cur = some stop) :
    cur < stop ∧ Boundary text stop := by
  rw [newlineAt] at hstop
  split at hstop
  · next hc =>
      split_ifs at hstop with hn
      · obtain rfl := some.inj hstop
        exact ⟨by omega, boundary_add_charAt hn⟩
      · obtain rfl := some.inj hstop
        exact ⟨by omega, boundary_add_charAt hc⟩
  · next hc =>
      obtain rfl := some.inj hstop
      exact ⟨by omega, boundary_add_charAt hc⟩
  · exact absurd hstop (by simp)

theorem newlineStart_in : InText ctx.text T (newlineStart ctx scope pos)
    fun cur => pos ≤ cur ∧ Boundary ctx.text cur := by
  refine .get_bind fun s _ => ?_
  exact .ite (fun _ => .pure (skipHorizontal_in h)) fun _ => skipTrivia_in h

theorem matchNewline_in : StaysIn T ctx pos False (matchNewline ctx scope pos) := by
  refine (newlineStart_in h).bind fun cur hcur => ?_
  cases hstop : newlineAt ctx.text cur with
  | none => exact (examineLookahead_in hcur.2).bind fun _ _ => failExpecting_in hcur.2 _
  | some stop =>
    obtain ⟨hlt, hend⟩ := newlineAt_in hstop
    refine .bind (φ := fun _ => True) (.modify (fun _ hs => hs.of_eq rfl rfl rfl) trivial)
      fun _ _ => ?_
    exact .pure ⟨by omega, hend, fun heq => by omega⟩

theorem matchIndent_in : StaysIn T ctx pos False (matchIndent ctx pos) := by
  refine .get_bind fun s hs => ?_
  have hfail : StaysIn T ctx pos False (failExpecting pos "indent") :=
    failExpecting_in h _
  obtain ⟨hle, hstop, hzero⟩ := measureIndent_in h
  refine .ite (fun _ => hfail) fun _ => (examineLookahead_in hstop).bind fun _ _ => ?_
  refine .ite (fun _ => hfail) fun hwide => ?_
  refine .bind (φ := fun _ => True) (.set (hs.of_eq rfl rfl rfl) trivial) fun _ _ => ?_
  exact .pure ⟨hle, hstop, fun heq => hwide ((hzero heq).le.trans (Nat.zero_le _))⟩

theorem matchDedent_in : StaysIn T ctx pos True (matchDedent ctx pos) := by
  refine .get_bind fun s hs => ?_
  have hfail : StaysIn T ctx pos True (failExpecting pos "dedent") :=
    failExpecting_in h _
  obtain ⟨hle, hstop, -⟩ := measureIndent_in h
  refine .ite (fun _ => hfail) fun _ => (examineLookahead_in hstop).bind fun _ _ => ?_
  split
  · refine .ite (fun _ => hfail) fun _ => ?_
    refine .bind (φ := fun _ => True) (.set (hs.of_eq rfl rfl rfl) trivial) fun _ _ => ?_
    exact .pure ⟨hle, hstop, fun _ => trivial⟩
  · exact hfail

theorem matchIsland_in (start stop : String) (includeDelims : Bool) :
    StaysIn T ctx pos (start = "" ∧ stop = "")
      (matchIsland ctx scope start stop includeDelims pos) := by
  refine skipTrivia_suffix_in h fun cur rest hcur hrest => ?_
  refine .ite (fun hlit => ?_) fun _ => failExpecting_in (.of_suffixAt hrest) _
  obtain ⟨t, -, ht⟩ := suffixAt_add_literal hrest hlit
  refine (suffixFrom_in (.of_suffixAt ht)).bind fun content hcontent => ?_
  cases hoff : findText stop.toList content with
  | none => exact failExpecting_in (.of_suffixAt ht) _
  | some off =>
    obtain ⟨hcontentEnd, hfullEnd⟩ := suffixAt_add_find hcontent hoff
    have hvalue : InText ctx.text T (islandValue ctx cur (cur + strLen start)
        (cur + strLen start + off) (cur + strLen start + off + strLen stop) includeDelims)
        fun _ => True := by
      refine .ite (fun _ => ?_) fun _ => ?_
      · exact textBetween_in (.of_suffixAt hrest) hfullEnd (by omega)
      · exact textBetween_in (.of_suffixAt ht) hcontentEnd (by omega)
    exact hvalue.bind fun _ _ => .pure ⟨by omega, hfullEnd,
      fun heq => ⟨strLen_eq_zero (by omega), strLen_eq_zero (by omega)⟩⟩

omit h in
theorem rawBlockScan_in (start stop delimKind : String) {cur contentStart : Nat}
    (hstart : Boundary ctx.text contentStart) (n depth scan : Nat)
    (hle : pos + strLen start ≤ scan) (hcontent : contentStart ≤ scan)
    (hscan : Boundary ctx.text scan) : StaysIn T ctx pos (start = "" ∧ stop = "")
      (rawBlockScan ctx start stop delimKind cur contentStart n depth scan) := by
  induction n generalizing depth scan with
  | zero => exact .throw nofun
  | succ n ih =>
    refine (suffixFrom_in hscan).bind fun rest hrest => ?_
    have hclose : ∀ c, findText stop.toList rest = some c → StaysIn T ctx pos (start = "" ∧ stop = "")
        (if depth - 1 = 0 then
          textBetween ctx contentStart (scan + c) >>= fun content =>
            pure (.success (scan + c + strLen stop) (.text content) false)
        else
          rawBlockScan ctx start stop delimKind cur contentStart n (depth - 1)
            (scan + c + strLen stop)) := by
      intro c hc
      obtain ⟨hbefore, hbehind⟩ := suffixAt_add_find hrest hc
      refine .ite (fun _ => ?_) fun _ => ih _ _ (by omega) (by omega) hbehind
      refine (textBetween_in hstart hbefore (by omega)).bind fun _ _ => ?_
      exact .pure ⟨by omega, hbehind,
        fun heq => ⟨strLen_eq_zero (by omega), strLen_eq_zero (by omega)⟩⟩
    split
    · exact parseError_in
    · next o c ho hc =>
        refine .ite (fun _ => ?_) fun _ => hclose c hc
        exact ih _ _ (by omega) (by omega) (suffixAt_add_find hrest ho).2
    · next c _ hc => exact hclose c hc

theorem matchRawBlock_in (start stop delimKind : String) (fuel : Nat) :
    StaysIn T ctx pos False (matchRawBlock ctx scope start stop delimKind fuel pos) := by
  refine .ite (fun _ => parseError_in) fun hne => ?_
  refine skipTrivia_suffix_in h fun cur rest hcur hrest => ?_
  refine .ite (fun hlit => ?_) fun _ => failExpecting_in (.of_suffixAt hrest) _
  obtain ⟨t, -, ht⟩ := suffixAt_add_literal hrest hlit
  have hscan : pos + strLen start ≤ cur + strLen start := Nat.add_le_add_right hcur _
  refine (rawBlockScan_in start stop delimKind (.of_suffixAt ht) _ _ _ hscan le_rfl
    (.of_suffixAt ht)).mono fun o => OutcomeIn.imp fun hempty => hne ?_
  rw [hempty.1, hempty.2]

end Terminals

/-! ## Tokens -/

/-- The tokens of the configuration have passed the check. -/
def TokensValid (ctx : ParseCtx) : Prop :=
  ∀ tokens, ctx.cfg.lexTokens = some tokens → validateLexTokens ctx.text tokens 0 0 = .ok ()

theorem of_validateLexToken {index previousEnd : Nat} {token : LexToken}
    (h : validateLexToken text index previousEnd token = .ok ()) :
    token.start < token.stop ∧ Boundary text token.stop := by
  unfold validateLexToken at h
  split_ifs at h with _ horder _ _ hbound
  exact ⟨by omega, hbound.2⟩

theorem of_validateLexTokens {tokens : List LexToken} {index previousEnd : Nat}
    (h : validateLexTokens text tokens index previousEnd = .ok ()) {token : LexToken}
    (htoken : token ∈ tokens) : token.start < token.stop ∧ Boundary text token.stop := by
  induction tokens generalizing index previousEnd with
  | nil => exact absurd htoken not_mem_nil
  | cons first tokens ih =>
    obtain ⟨⟨⟩, hfirst, hrest⟩ := bind_eq_ok.mp h
    rcases mem_cons.mp htoken with rfl | htoken
    · exact of_validateLexToken hfirst
    · exact ih hrest htoken

theorem matchTokenRef_in {T : Track} {ctx : ParseCtx} {scope : Scope}
    (htokens : TokensValid ctx) (h : Boundary ctx.text pos) (kind text : Option String) :
    StaysIn T ctx pos False (matchTokenRef ctx scope kind text pos) := by
  refine (skipTrivia_in h).bind fun cur hcur => ?_
  have hfail : StaysIn T ctx pos False
    (failExpecting cur (formatTokLabel kind text)) := failExpecting_in hcur.2 _
  cases hlex : ctx.cfg.lexTokens with
  | none => exact parseError_in
  | some tokens =>
    simp only
    cases hdrop : tokens.dropWhile fun token => token.start < cur with
    | nil => exact hfail
    | cons token rest =>
      refine .ite (fun _ => hfail) fun hstart => .ite (fun _ => hfail) fun _ =>
        .ite (fun _ => hfail) fun _ => ?_
      have hmem : token ∈ tokens :=
        (dropWhile_sublist _).subset (hdrop ▸ mem_cons_self)
      obtain ⟨hlt, hstop⟩ := of_validateLexTokens (htokens tokens hlex) hmem
      exact .pure ⟨by omega, hstop, fun heq => by omega⟩

end Caap.Peg
