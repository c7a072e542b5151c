/-
  Caap.Peg.Text

  A text as its characters, with positions that count bytes as `str` does.  `suffixAt` is
  `&text[pos..]`: there is no such slice when the position is outside the text or inside a
  character.  What the engine needs of positions is one fact: the slice at `pos` is what
  stands behind `pos` bytes (`suffixAt_eq_some_iff`).
-/

import Mathlib.Data.List.Basic
import Mathlib.Tactic

namespace Caap.Peg

open Option

/-- `len` of a text. -/
def byteLen (cs : List Char) : Nat := (cs.map Char.utf8Size).sum

/-- `&text[pos..]`, if the position is on the boundary of a character. -/
def suffixAt : List Char → Nat → Option (List Char)
  | [], pos => if pos = 0 then some [] else none
  | c :: cs, pos =>
    if pos = 0 then some (c :: cs)
    else if c.utf8Size ≤ pos then suffixAt cs (pos - c.utf8Size)
    else none

/-- `is_char_boundary`. -/
def Boundary (text : List Char) (pos : Nat) : Prop := (suffixAt text pos).isSome = true

instance (text : List Char) (pos : Nat) : Decidable (Boundary text pos) :=
  inferInstanceAs (Decidable (_ = _))

/-- The character at a position, if the position is on a boundary before the end. -/
def charAt (text : List Char) (pos : Nat) : Option Char := (suffixAt text pos).bind List.head?

/-- `&text[start..stop]`. -/
def sliceAt (text : List Char) (start stop : Nat) : Option (List Char) :=
  match suffixAt text start, suffixAt text stop with
  | some s, some t => if start ≤ stop then some (s.take (s.length - t.length)) else none
  | _, _ => none

/-- `find` of a string: the offset in bytes of its first occurrence. -/
def findText (needle : List Char) : List Char → Option Nat
  | [] => if needle = [] then some 0 else none
  | c :: cs =>
    if needle.isPrefixOf (c :: cs) then some 0
    else (findText needle cs).map (c.utf8Size + ·)

/-- The bytes of the longest beginning of characters with a property. -/
def spanLen (p : Char → Bool) : List Char → Nat
  | [] => 0
  | c :: cs => if p c then c.utf8Size + spanLen p cs else 0

@[simp] theorem byteLen_nil : byteLen [] = 0 := rfl

@[simp] theorem byteLen_cons (c : Char) (cs : List Char) :
    byteLen (c :: cs) = c.utf8Size + byteLen cs := rfl

@[simp] theorem byteLen_append (a b : List Char) : byteLen (a ++ b) = byteLen a + byteLen b := by
  simp [byteLen]

theorem byteLen_eq_zero {cs : List Char} : byteLen cs = 0 ↔ cs = [] := by
  cases cs with
  | nil => simp
  | cons c cs =>
    have := Char.utf8Size_pos c
    simp
    omega

/-- The slice is what stands behind the first `pos` bytes. -/
theorem suffixAt_eq_some_iff {text s : List Char} {pos : Nat} :
    suffixAt text pos = some s ↔ ∃ a, text = a ++ s ∧ byteLen a = pos := by
  induction text generalizing pos with
  | nil =>
    rw [suffixAt]
    split_ifs with hpos
    · subst hpos
      constructor
      · intro h
        obtain rfl := some.inj h
        exact ⟨[], rfl, rfl⟩
      · rintro ⟨a, ha, -⟩
        rw [(List.append_eq_nil_iff.mp ha.symm).2]
    · constructor
      · intro h
        exact absurd h (by simp)
      · rintro ⟨a, ha, hlen⟩
        rw [(List.append_eq_nil_iff.mp ha.symm).1] at hlen
        exact absurd hlen.symm hpos
  | cons c cs ih =>
    rw [suffixAt]
    split_ifs with hpos hle
    · subst hpos
      constructor
      · intro h
        obtain rfl := some.inj h
        exact ⟨[], rfl, rfl⟩
      · rintro ⟨a, ha, hlen⟩
        rw [byteLen_eq_zero] at hlen
        rw [ha, hlen]
        rfl
    · rw [ih]
      constructor
      · rintro ⟨a, ha, hlen⟩
        refine ⟨c :: a, by rw [ha]; rfl, ?_⟩
        rw [byteLen_cons]
        omega
      · rintro ⟨a, ha, hlen⟩
        cases a with
        | nil => exact absurd hlen.symm hpos
        | cons c' a =>
          obtain ⟨rfl, hcs⟩ := List.cons.inj ha
          rw [byteLen_cons] at hlen
          exact ⟨a, hcs, by omega⟩
    · constructor
      · intro h
        exact absurd h (by simp)
      · rintro ⟨a, ha, hlen⟩
        cases a with
        | nil => exact absurd hlen.symm hpos
        | cons c' a =>
          obtain ⟨rfl, -⟩ := List.cons.inj ha
          rw [byteLen_cons] at hlen
          omega

section Positions

variable {text s : List Char} {pos : Nat}

theorem boundary_iff : Boundary text pos ↔ ∃ s, suffixAt text pos = some s :=
  isSome_iff_exists

theorem Boundary.of_suffixAt (h : suffixAt text pos = some s) : Boundary text pos :=
  boundary_iff.mpr ⟨s, h⟩

theorem suffixAt_zero : suffixAt text 0 = some text :=
  suffixAt_eq_some_iff.mpr ⟨[], rfl, rfl⟩

theorem boundary_zero : Boundary text 0 := .of_suffixAt suffixAt_zero

theorem suffixAt_len : suffixAt text (byteLen text) = some [] :=
  suffixAt_eq_some_iff.mpr ⟨text, (List.append_nil text).symm, rfl⟩

theorem boundary_len : Boundary text (byteLen text) := .of_suffixAt suffixAt_len

theorem len_of_suffixAt (h : suffixAt text pos = some s) : pos + byteLen s = byteLen text := by
  obtain ⟨a, rfl, rfl⟩ := suffixAt_eq_some_iff.mp h
  rw [byteLen_append]

theorem Boundary.le_len (h : Boundary text pos) : pos ≤ byteLen text := by
  obtain ⟨s, hs⟩ := boundary_iff.mp h
  have := len_of_suffixAt hs
  omega

/-- Going on past the beginning of what is left. -/
theorem suffixAt_add {a : List Char} (h : suffixAt text pos = some (a ++ s)) :
    suffixAt text (pos + byteLen a) = some s := by
  obtain ⟨b, rfl, rfl⟩ := suffixAt_eq_some_iff.mp h
  exact suffixAt_eq_some_iff.mpr ⟨b ++ a, by rw [List.append_assoc], byteLen_append b a⟩

theorem suffixAt_add_literal {lit : List Char} (h : suffixAt text pos = some s)
    (hlit : lit.isPrefixOf s = true) : ∃ t, s = lit ++ t ∧ suffixAt text (pos + byteLen lit) = some t := by
  obtain ⟨t, rfl⟩ := List.isPrefixOf_iff_prefix.mp hlit
  exact ⟨t, rfl, suffixAt_add h⟩

/-- The end of an occurrence. -/
theorem findText_eq_some {needle hay : List Char} {off : Nat} (h : findText needle hay = some off) :
    ∃ a b, hay = a ++ needle ++ b ∧ byteLen a = off := by
  induction hay generalizing off with
  | nil =>
    rw [findText] at h
    split_ifs at h with hempty
    subst hempty
    obtain rfl := some.inj h
    exact ⟨[], [], rfl, rfl⟩
  | cons c cs ih =>
    rw [findText] at h
    split_ifs at h with hhere
    · obtain rfl := some.inj h
      obtain ⟨t, ht⟩ := List.isPrefixOf_iff_prefix.mp hhere
      exact ⟨[], t, ht.symm, rfl⟩
    · obtain ⟨rest, hrest, rfl⟩ := map_eq_some_iff.mp h
      obtain ⟨a, b, rfl, rfl⟩ := ih hrest
      exact ⟨c :: a, b, rfl, rfl⟩

theorem suffixAt_add_find {needle : List Char} {off : Nat} (h : suffixAt text pos = some s)
    (hfind : findText needle s = some off) :
    Boundary text (pos + off) ∧ Boundary text (pos + off + byteLen needle) := by
  obtain ⟨a, b, rfl, rfl⟩ := findText_eq_some hfind
  rw [List.append_assoc] at h
  have hstart := suffixAt_add h
  exact ⟨.of_suffixAt hstart, .of_suffixAt (suffixAt_add hstart)⟩

theorem spanLen_split (p : Char → Bool) (cs : List Char) :
    ∃ a b, cs = a ++ b ∧ byteLen a = spanLen p cs := by
  induction cs with
  | nil => exact ⟨[], [], rfl, rfl⟩
  | cons c cs ih =>
    rw [spanLen]
    split_ifs
    · obtain ⟨a, b, rfl, hlen⟩ := ih
      exact ⟨c :: a, b, rfl, by rw [byteLen_cons, hlen]⟩
    · exact ⟨[], c :: cs, rfl, rfl⟩

theorem boundary_add_span (h : suffixAt text pos = some s) (p : Char → Bool) :
    Boundary text (pos + spanLen p s) := by
  obtain ⟨a, b, rfl, hlen⟩ := spanLen_split p s
  rw [← hlen]
  exact .of_suffixAt (suffixAt_add h)

/-- The end of the character that follows. -/
theorem boundary_add_head {c : Char} (h : suffixAt text pos = some s) (hc : s.head? = some c) :
    Boundary text (pos + c.utf8Size) := by
  obtain ⟨cs, rfl⟩ := List.head?_eq_some_iff.mp hc
  have := suffixAt_add (a := [c]) h
  exact .of_suffixAt this

theorem boundary_add_charAt {c : Char} (h : charAt text pos = some c) :
    Boundary text (pos + c.utf8Size) := by
  obtain ⟨s, hs, hc⟩ := bind_eq_some_iff.mp h
  exact boundary_add_head hs hc

/-- A slice between two boundaries. -/
theorem sliceAt_isSome {start stop : Nat} (hstart : Boundary text start) (hstop : Boundary text stop)
    (hle : start ≤ stop) : (sliceAt text start stop).isSome = true := by
  obtain ⟨s, hs⟩ := boundary_iff.mp hstart
  obtain ⟨t, ht⟩ := boundary_iff.mp hstop
  simp [sliceAt, hs, ht, hle]

end Positions

end Caap.Peg
