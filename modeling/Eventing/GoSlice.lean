import Mathlib.Data.List.Basic
import Mathlib.Tactic.Common

/-!
# Slices of one array

A slice of Go is a length and a capacity over the cells of an array that it shares with
other slices. Here all slices start at the first cell. An operation that is out of bounds
panics, which is `none`.
-/
namespace Eventing.GoSlice

variable {α : Type*}

structure Slice where
  len : ℕ
  cap : ℕ
  deriving DecidableEq

namespace Slice

/-- `s[:high]`, which may reach beyond the length. -/
def upTo (s : Slice) (high : ℕ) : Option Slice :=
  if high ≤ s.cap then some { s with len := high } else none

/-- The elements of `s[low:]`. -/
def elemsFrom (s : Slice) (cells : List α) (low : ℕ) : Option (List α) :=
  if low ≤ s.len then some ((cells.take s.len).drop low) else none

/-- `append(s, xs...)` where the capacity suffices: the cells behind the slice are
overwritten. -/
def append (s : Slice) (cells xs : List α) : List α × Slice :=
  (cells.take s.len ++ xs ++ cells.drop (s.len + xs.length), { s with len := s.len + xs.length })

/-- `append(s[:index], s[index+1:]...)`. What is appended fits into the cells of `s`. -/
def remove (s : Slice) (cells : List α) (index : ℕ) : Option (List α × Slice) :=
  (s.upTo index).bind fun kept =>
    (s.elemsFrom cells (index + 1)).map fun rest => kept.append cells rest

variable {s : Slice} {cells front back tail : List α} {x : α}

/-- The elements behind the removed one move down by a cell, and the last cell keeps what
it holds. -/
lemma remove_eq (hcells : cells = front ++ x :: (back ++ tail))
    (hlen : s.len = front.length + (back.length + 1)) (hcap : s.len ≤ s.cap) :
    s.remove cells front.length =
      some (front ++ (back ++ ((x :: back).drop back.length ++ tail)),
        ⟨front.length + back.length, s.cap⟩) := by
  have hup : s.upTo front.length = some ⟨front.length, s.cap⟩ := if_pos (by omega)
  have hfrom : s.elemsFrom cells (front.length + 1) = some back := by
    rw [elemsFrom, if_pos (by omega), hcells, hlen]
    simp [List.take_append, List.drop_append]
  have hdrop : (front ++ x :: (back ++ tail)).drop (front.length + back.length) =
      (x :: back).drop back.length ++ tail := by
    rw [List.drop_append, List.drop_eq_nil_of_le (by omega), List.nil_append,
      Nat.add_sub_cancel_left, ← List.cons_append, List.drop_append_of_le_length (by simp)]
  rw [remove, hup, Option.bind_some, hfrom, Option.map_some]
  simp only [append, hcells, hdrop, List.take_left, List.append_assoc]

lemma remove_eq_none {index : ℕ} (h : s.len ≤ index) : s.remove cells index = none := by
  have hfrom : s.elemsFrom cells (index + 1) = none := if_neg (by omega)
  cases hup : s.upTo index <;> simp [remove, hup, hfrom]

end Slice

end Eventing.GoSlice
