/-
  Caap.Lib.Assoc

  Association lists that keep the order in which their keys came: the value of a key that
  is there is replaced in its place, a new key goes to the end.
-/

import Mathlib.Data.List.Basic

namespace Caap.Lib

variable {κ α : Type} [DecidableEq κ]

/-- The value of a key. -/
def find (key : κ) : List (κ × α) → Option α
  | [] => none
  | (k, a) :: rest => if k = key then some a else find key rest

/-- Set the value of a key. -/
def upsert (key : κ) (value : α) : List (κ × α) → List (κ × α)
  | [] => [(key, value)]
  | (k, a) :: rest => if k = key then (k, value) :: rest else (k, a) :: upsert key value rest

/-- Remove a key; the others keep their order. -/
def remove (key : κ) : List (κ × α) → List (κ × α)
  | [] => []
  | (k, a) :: rest => if k = key then rest else (k, a) :: remove key rest

/-- A key that was not there before is removed without a trace. -/
theorem remove_upsert {key : κ} {entries : List (κ × α)} (h : find key entries = none)
    (value : α) : remove key (upsert key value entries) = entries := by
  induction entries with
  | nil => simp [upsert, remove]
  | cons entry rest ih =>
    obtain ⟨k, a⟩ := entry
    by_cases hk : k = key
    · simp [find, hk] at h
    · rw [find, if_neg hk] at h
      rw [upsert, if_neg hk, remove, if_neg hk, ih h]

/-- Setting a key back to its value undoes a change. -/
theorem upsert_upsert {key : κ} {entries : List (κ × α)} {old : α}
    (h : find key entries = some old) (value : α) :
    upsert key old (upsert key value entries) = entries := by
  induction entries with
  | nil => simp [find] at h
  | cons entry rest ih =>
    obtain ⟨k, a⟩ := entry
    by_cases hk : k = key
    · rw [find, if_pos hk] at h
      cases h
      rw [upsert, if_pos hk, upsert, if_pos hk]
    · rw [find, if_neg hk] at h
      rw [upsert, if_neg hk, upsert, if_neg hk, ih h]

end Caap.Lib
