import Mathlib.Data.List.Basic
import Mathlib.Tactic.Common

/-!
# A document store

Atomic operations of a key-value store, each as a function of the stored
documents: a conditional operation whose condition fails changes nothing.
-/
namespace Eventing.KvStore

variable {κ ν : Type*}

/-- The stored documents, `none` for a key that is absent. -/
def Store (κ ν : Type*) := κ → Option ν

def empty : Store κ ν := fun _ => none

def get (s : Store κ ν) (k : κ) : Option ν := s k

/-- What is read of a key, with a value for one that is absent. -/
def getOr (d : ν) (s : Store κ ν) (k : κ) : ν := (get s k).getD d

variable [DecidableEq κ]

def set (s : Store κ ν) (k : κ) (v : ν) : Store κ ν :=
  fun k' => if k' = k then some v else s k'

def delete (s : Store κ ν) (k : κ) : Store κ ν :=
  fun k' => if k' = k then none else s k'

/-- Store a value under a key that must be absent. -/
def add (s : Store κ ν) (k : κ) (v : ν) : Store κ ν :=
  match s k with
  | none => set s k v
  | some _ => s

/-- Extend the value of a key that must be present. -/
def append [Append ν] (s : Store κ ν) (k : κ) (v : ν) : Store κ ν :=
  match s k with
  | none => s
  | some u => set s k (u ++ v)

variable {s : Store κ ν} {k k' : κ} {u v : ν}

omit [DecidableEq κ] in
@[simp] lemma get_empty : get (empty : Store κ ν) k = none := rfl

@[simp] lemma get_set_self : get (set s k v) k = some v := by simp [get, set]

@[simp] lemma get_set_of_ne (h : k' ≠ k) : get (set s k v) k' = get s k' := by
  simp [get, set, h]

@[simp] lemma get_delete_self : get (delete s k) k = none := by simp [get, delete]

@[simp] lemma get_delete_of_ne (h : k' ≠ k) : get (delete s k) k' = get s k' := by
  simp [get, delete, h]

lemma get_delete_eq_some : get (delete s k) k' = some v ↔ k' ≠ k ∧ get s k' = some v := by
  by_cases h : k' = k <;> simp [get, delete, h]

lemma get_set_eq_some :
    get (set s k v) k' = some u ↔ (k' = k ∧ u = v) ∨ (k' ≠ k ∧ get s k' = some u) := by
  by_cases h : k' = k <;> simp [get, set, h, eq_comm]

lemma add_of_absent (h : get s k = none) : add s k v = set s k v := by
  unfold get at h
  simp [add, h]

lemma add_of_present (h : get s k = some u) : add s k v = s := by
  unfold get at h
  simp [add, h]

@[simp] lemma get_add_self : get (add s k v) k = some ((get s k).getD v) := by
  cases h : get s k with
  | none => simp [add_of_absent h]
  | some u => simp [add_of_present h, h]

@[simp] lemma get_add_of_ne (h : k' ≠ k) : get (add s k v) k' = get s k' := by
  cases hk : get s k with
  | none => simp [add_of_absent hk, h]
  | some u => simp [add_of_present hk]

section GetOr
variable {d : ν}

omit [DecidableEq κ] in
lemma getOr_of_get (h : get s k = some v) : getOr d s k = v := by simp [getOr, h]

lemma getOr_set_self : getOr d (set s k v) k = v := by simp [getOr]

lemma getOr_set_of_ne (h : k' ≠ k) : getOr d (set s k v) k' = getOr d s k' := by simp [getOr, h]

lemma getOr_add : getOr d (add s k d) k' = getOr d s k' := by
  by_cases h : k' = k
  · subst h
    simp [getOr]
  · simp [getOr, h]

lemma getOr_delete_self : getOr d (delete s k) k = d := by simp [getOr]

lemma getOr_delete_of_ne (h : k' ≠ k) : getOr d (delete s k) k' = getOr d s k' := by
  simp [getOr, h]

end GetOr

section Append
variable [Append ν]

lemma append_of_absent (h : get s k = none) : append s k v = s := by
  unfold get at h
  simp [append, h]

lemma append_of_present (h : get s k = some u) : append s k v = set s k (u ++ v) := by
  unfold get at h
  simp [append, h]

@[simp] lemma get_append_self : get (append s k v) k = (get s k).map (· ++ v) := by
  cases h : get s k with
  | none => simp [append_of_absent h, h]
  | some u => simp [append_of_present h]

@[simp] lemma get_append_of_ne (h : k' ≠ k) : get (append s k v) k' = get s k' := by
  cases hk : get s k with
  | none => simp [append_of_absent hk]
  | some u => simp [append_of_present hk, h]

lemma getOr_append_of_ne {d : ν} (h : k' ≠ k) : getOr d (append s k v) k' = getOr d s k' := by
  simp [getOr, h]

/-- What is appended to a key that was added with the default stands behind what was read. -/
lemma getOr_append_add {d : ν} : getOr d (append (add s k d) k v) k = getOr d s k ++ v := by
  simp [getOr]

end Append

end Eventing.KvStore
