import Mathlib.Algebra.Order.SuccPred
import Mathlib.Data.Int.SuccPred
import Mathlib.Order.Bounds.Basic

/-!
# Numbers above all that are in use

The least number above a list that is not below a first one, found in one pass over the list in
any order; and counting in 64 bits.
-/
namespace Eventing.FreshNumber

section
variable {α : Type*} [LinearOrder α] [SuccOrder α] {a p x : α} {l l' : List α}

/-- The larger of `a` and the number behind the largest in the list. -/
def nextAbove (a : α) (l : List α) : α := l.foldl (fun next p => max next (Order.succ p)) a

lemma nextAbove_perm (h : l.Perm l') (a : α) : nextAbove a l = nextAbove a l' := by
  apply h.foldl_eq'
  intro p _ q _ next
  rw [max_assoc, max_assoc, max_comm (Order.succ p)]

lemma nextAbove_singleton [NoMaxOrder α] (next p : α) :
    nextAbove next [p] = if next ≤ p then Order.succ p else next := by
  change max next (Order.succ p) = _
  split_ifs with h
  · exact max_eq_right (h.trans (Order.le_succ p))
  · exact max_eq_left (Order.succ_le_of_lt (not_le.mp h))

theorem isGreatest_nextAbove (a : α) (l : List α) :
    IsGreatest (insert a (Order.succ '' {p | p ∈ l})) (nextAbove a l) := by
  induction l generalizing a with
  | nil => simp [nextAbove, isGreatest_singleton]
  | cons p l ih =>
    have hnext : nextAbove a (p :: l) = nextAbove (max a (Order.succ p)) l := rfl
    obtain ⟨hmem, hle⟩ := ih (max a (Order.succ p))
    rw [hnext]
    constructor
    · rcases hmem with h | ⟨q, hq, h⟩
      · rw [h]
        rcases max_choice a (Order.succ p) with hm | hm
        · exact .inl hm
        · exact .inr ⟨p, List.mem_cons_self, hm.symm⟩
      · exact .inr ⟨q, List.mem_cons_of_mem _ hq, h⟩
    · have hmax : max a (Order.succ p) ≤ nextAbove (max a (Order.succ p)) l := hle (.inl rfl)
      rintro x (rfl | ⟨q, hq, rfl⟩)
      · exact (le_max_left _ _).trans hmax
      · rcases List.mem_cons.mp hq with rfl | hq
        · exact (le_max_right _ _).trans hmax
        · exact hle (.inr ⟨q, hq, rfl⟩)

lemma nextAbove_of_isGreatest (h : IsGreatest {q | q ∈ l} p) :
    nextAbove a l = max a (Order.succ p) :=
  (isGreatest_nextAbove a l).unique ((Order.succ_mono.map_isGreatest h).insert a)

lemma lt_nextAbove [NoMaxOrder α] (h : p ∈ l) : p < nextAbove a l :=
  Order.succ_le_iff.mp ((isGreatest_nextAbove a l).2 (.inr ⟨p, h, rfl⟩))

lemma nextAbove_notMem [NoMaxOrder α] (a : α) (l : List α) : nextAbove a l ∉ l :=
  fun h => (lt_nextAbove h).false

end

lemma nextAbove_range {a : ℤ} {n : ℕ} {l : List ℤ} (h : ∀ p, p ∈ l ↔ a ≤ p ∧ p < a + n) :
    nextAbove a l = a + n := by
  apply (isGreatest_nextAbove a l).unique
  constructor
  · cases n with
    | zero => exact .inl (by simp)
    | succ n =>
      refine .inr ⟨a + n, (h _).mpr ⟨by omega, by omega⟩, ?_⟩
      rw [Order.succ_eq_add_one]
      omega
  · rintro x (rfl | ⟨q, hq, rfl⟩)
    · omega
    · rw [Order.succ_eq_add_one]
      have hlt := ((h q).mp hq).2
      omega

lemma toInt_add_one {x : Int64} (h : x.toInt < 2 ^ 63 - 1) : (x + 1).toInt = x.toInt + 1 := by
  have hge := x.le_toInt
  rw [Int64.toInt_add, Int64.toInt_one]
  exact Int.bmod_eq_of_le (by omega) (by omega)

lemma toInt_lt_of_ne {x : Int64} (h : x ≠ Int64.maxValue) : x.toInt < 2 ^ 63 - 1 := by
  have hlt := x.toInt_lt
  have hne : x.toInt ≠ 2 ^ 63 - 1 :=
    fun he => h (Int64.toInt_inj.mp (he.trans Int64.toInt_maxValue.symm))
  omega

end Eventing.FreshNumber
