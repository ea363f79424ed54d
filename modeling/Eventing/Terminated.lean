import Mathlib.Data.List.TakeWhile
import Mathlib.Tactic.Common

/-!
# Strings that end at a terminator

What is seen of a string of any letters by a reader that stops at a terminator.
-/
namespace Eventing.Terminated

variable {α : Type*} [DecidableEq α] {nul : α} {s : List α}

def cut (nul : α) (s : List α) : List α := s.takeWhile (· ≠ nul)

lemma notMem_cut (nul : α) (s : List α) : nul ∉ cut nul s := by
  intro h
  simpa using List.mem_takeWhile_imp h

lemma cut_of_notMem (h : nul ∉ s) : cut nul s = s := by
  apply List.takeWhile_eq_self_iff.mpr
  intro c hc
  have hne : c ≠ nul := fun he => h (he ▸ hc)
  simpa using hne

lemma cut_eq_self_iff : cut nul s = s ↔ nul ∉ s :=
  ⟨fun h => h ▸ notMem_cut nul s, cut_of_notMem⟩

lemma cut_append_cons (h : nul ∉ s) (rest : List α) : cut nul (s ++ nul :: rest) = s := by
  have hs : ∀ c ∈ s, decide (c ≠ nul) = true := by
    intro c hc
    have hne : c ≠ nul := fun he => h (he ▸ hc)
    simpa using hne
  rw [cut, List.takeWhile_append_of_pos hs, List.takeWhile_cons, if_neg (by simp), List.append_nil]

lemma cut_append_self (s : List α) : cut nul (s ++ [nul]) = cut nul s := by
  induction s with
  | nil => simp [cut]
  | cons c s ih =>
    by_cases hc : c = nul
    · simp [cut, hc]
    · simpa [cut, hc] using ih

lemma eq_or_cut (nul : α) (s : List α) :
    nul ∉ s ∨ ∃ rest, s = cut nul s ++ nul :: rest := by
  by_cases h : nul ∈ s
  · obtain ⟨front, rest, hs, hfront⟩ := List.eq_append_cons_of_mem h
    rw [hs, cut_append_cons hfront]
    exact .inr ⟨rest, rfl⟩
  · exact .inl h

end Eventing.Terminated
