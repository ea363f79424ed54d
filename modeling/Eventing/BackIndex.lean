import Mathlib.Data.List.Basic
import Mathlib.Logic.Function.Basic
import Mathlib.Tactic.Common

/-!
# A table and its back index

Two maps that should be each other's inverse. Entering a key for a value writes both;
removing a value deletes the one key that its back index holds, and a default key where
the back index holds none.
-/
namespace Eventing.BackIndex

structure Index (K V : Type*) where
  fwd : K → Option V
  back : V → Option K

variable {K V : Type*} {x : Index K V} {k : K} {v : V} {ks : List K}

namespace Index

def empty : Index K V := ⟨fun _ => none, fun _ => none⟩

def Inverse (x : Index K V) : Prop := ∀ k v, x.fwd k = some v ↔ x.back v = some k

variable [DecidableEq K] [DecidableEq V]

def put (v : V) (x : Index K V) (k : K) : Index K V :=
  ⟨Function.update x.fwd k (some v), Function.update x.back v (some k)⟩

def putAll (x : Index K V) (v : V) (ks : List K) : Index K V := ks.foldl (put v) x

def remove (d : K) (x : Index K V) (v : V) : Index K V :=
  ⟨Function.update x.fwd ((x.back v).getD d) none, Function.update x.back v none⟩

lemma putAll_fwd (k' : K) :
    (x.putAll v ks).fwd k' = if k' ∈ ks then some v else x.fwd k' := by
  induction ks generalizing x with
  | nil => simp [putAll]
  | cons k ks ih =>
    have hi : (x.putAll v (k :: ks)).fwd k' = if k' ∈ ks then some v else (x.put v k).fwd k' := ih
    rw [hi]
    by_cases hk : k' = k
    · subst hk
      simp [put]
    · simp [put, hk]

lemma putAll_back_of_ne {v' : V} (h : v' ≠ v) : (x.putAll v ks).back v' = x.back v' := by
  induction ks generalizing x with
  | nil => rfl
  | cons k ks ih =>
    have hi : (x.putAll v (k :: ks)).back v' = (x.put v k).back v' := ih
    rw [hi]
    simp [put, h]

lemma putAll_back (h : ks ≠ []) : ∃ k ∈ ks, (x.putAll v ks).back v = some k := by
  induction ks generalizing x with
  | nil => exact absurd rfl h
  | cons k ks ih =>
    by_cases hks : ks = []
    · subst hks
      exact ⟨k, by simp, by simp [putAll, put]⟩
    · obtain ⟨k', hk', hb⟩ := ih (x := x.put v k) hks
      exact ⟨k', List.mem_cons_of_mem _ hk', hb⟩

lemma Inverse.putAll_back_of_mem (hi : (x.putAll v ks).Inverse) (hk : k ∈ ks) :
    (x.putAll v ks).back v = some k := by
  rw [← hi k v, putAll_fwd, if_pos hk]

/-- A key of another value would be lost for it, while its back index stays. -/
lemma Inverse.free_of_putAll (h : x.Inverse) (hi : (x.putAll v ks).Inverse) (hk : k ∈ ks) :
    x.fwd k = none ∨ x.fwd k = some v := by
  cases hf : x.fwd k with
  | none => exact .inl rfl
  | some v' =>
    by_cases hv : v' = v
    · exact .inr (by rw [hv])
    · have hb : (x.putAll v ks).back v' = some k := by
        rw [putAll_back_of_ne hv, ← h k v', hf]
      rw [← hi k v', putAll_fwd, if_pos hk, Option.some.injEq] at hb
      exact absurd hb.symm hv

lemma Inverse.own_of_putAll (h : x.Inverse) (hi : (x.putAll v ks).Inverse) (hk : k ∈ ks) :
    x.back v = none ∨ x.back v = some k := by
  cases hb : x.back v with
  | none => exact .inl rfl
  | some k' =>
    have hf : (x.putAll v ks).fwd k' = some v := by
      rw [putAll_fwd]
      split
      · rfl
      · exact (h k' v).mpr hb
    rw [hi k' v, hi.putAll_back_of_mem hk, Option.some.injEq] at hf
    exact .inr (by rw [hf])

/-- Entering keys keeps the two maps inverse exactly when the keys are one key, which
is free or the value's own, and the value has no other key. -/
theorem inverse_putAll_iff (h : x.Inverse) : (x.putAll v ks).Inverse ↔
    ∀ k ∈ ks, (x.fwd k = none ∨ x.fwd k = some v) ∧ (x.back v = none ∨ x.back v = some k) ∧
      ∀ k' ∈ ks, k' = k := by
  constructor
  · intro hi k hk
    refine ⟨h.free_of_putAll hi hk, h.own_of_putAll hi hk, ?_⟩
    intro k' hk'
    exact Option.some.inj ((hi.putAll_back_of_mem hk').symm.trans (hi.putAll_back_of_mem hk))
  · intro hc k v'
    by_cases hks : ks = []
    · subst hks
      exact h k v'
    · obtain ⟨kl, hkl, hback⟩ := putAll_back (x := x) (v := v) hks
      obtain ⟨hfree, hown, hone⟩ := hc kl hkl
      rw [putAll_fwd]
      by_cases hv : v' = v
      · subst hv
        rw [hback]
        constructor
        · intro hf
          split at hf
          · rename_i hk
            rw [hone k hk]
          · rw [h k v'] at hf
            rcases hown with hown | hown
            · simp [hown] at hf
            · exact hown.symm.trans hf
        · intro hk
          rw [Option.some.injEq] at hk
          rw [← hk, if_pos hkl]
      · rw [putAll_back_of_ne hv, ← h k v']
        split
        · rename_i hk
          rw [hone k hk]
          rcases hfree with hfree | hfree
          · simp [hfree, Ne.symm hv]
          · simp [hfree]
        · exact Iff.rfl

/-- Removing a value keeps the two maps inverse exactly when the value has a key or the
default key is free. -/
theorem inverse_remove_iff {d : K} (h : x.Inverse) :
    (x.remove d v).Inverse ↔ x.back v ≠ none ∨ x.fwd d = none := by
  constructor
  · intro hi
    by_contra hno
    rw [not_or, not_not] at hno
    obtain ⟨v', hv'⟩ := Option.ne_none_iff_exists'.mp hno.2
    have hne : v' ≠ v := by
      rintro rfl
      simp [(h d v').mp hv'] at hno
    have hb : (x.remove d v).back v' = some d := by
      simp only [remove, Function.update_of_ne hne]
      exact (h d v').mp hv'
    rw [← hi d v'] at hb
    simp [remove, hno.1] at hb
  · intro hc k v'
    by_cases hv : v' = v
    · subst hv
      simp only [remove, Function.update_self, reduceCtorEq, iff_false]
      by_cases hk : k = (x.back v').getD d
      · simp [hk]
      · rw [Function.update_of_ne hk]
        intro hf
        rw [h k v'] at hf
        simp [hf] at hk
    · simp only [remove, Function.update_of_ne hv, ← h k v']
      by_cases hk : k = (x.back v).getD d
      · subst hk
        simp only [Function.update_self, reduceCtorEq, false_iff]
        intro hf
        cases hb : x.back v with
        | none =>
          rw [hb, Option.getD_none] at hf
          simp [hb, hf] at hc
        | some k' =>
          rw [hb, Option.getD_some, (h k' v).mpr hb, Option.some.injEq] at hf
          exact hv hf.symm
      · rw [Function.update_of_ne hk]

lemma remove_fwd_none {d : K} (h : x.fwd k = none) : (x.remove d v).fwd k = none := by
  simp only [remove, Function.update_apply, h, ite_self]

lemma remove_back_none {d : K} {v' : V} (h : x.back v' = none) : (x.remove d v).back v' = none := by
  simp only [remove, Function.update_apply, h, ite_self]

lemma remove_fwd_ne {d : K} (h : (x.remove d v).Inverse) (k : K) : (x.remove d v).fwd k ≠ some v := by
  rw [Ne, h k v]
  simp [remove]

end Index

end Eventing.BackIndex
