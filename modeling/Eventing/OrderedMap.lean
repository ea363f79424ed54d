import Mathlib.Logic.Function.Basic
import Mathlib.Order.Lattice
import Mathlib.Data.List.Induction
import Mathlib.Tactic.Common

/-!
# Maps that are gone through in the order of their keys

A map as the list of its entries, with increasing keys.
-/
namespace Eventing.OrderedMap

/-- The value last given to each key. -/
def latest {ι ν : Type*} [DecidableEq ι] (entries : List (ι × ν)) : ι → Option ν :=
  entries.foldl (fun f e => Function.update f e.1 (some e.2)) fun _ => none

lemma latest_concat {ι ν : Type*} [DecidableEq ι] (entries : List (ι × ν)) (e : ι × ν) :
    latest (entries ++ [e]) = Function.update (latest entries) e.1 (some e.2) := by
  simp [latest]

lemma latest_map {ι ν ν' : Type*} [DecidableEq ι] (f : ν → ν') (entries : List (ι × ν)) (k : ι) :
    latest (entries.map fun e => (e.1, f e.2)) k = (latest entries k).map f := by
  induction entries using List.reverseRecOn with
  | nil => rfl
  | append_singleton entries e ih =>
    rw [List.map_append, List.map_singleton, latest_concat, latest_concat, Function.update_apply,
      Function.update_apply, ih]
    split_ifs <;> rfl

lemma latest_map_key {ι ι' ν ν' : Type*} [DecidableEq ι] [DecidableEq ι'] {g : ι → ι'}
    (hg : Function.Injective g) (f : ν → ν') (entries : List (ι × ν)) (k : ι) :
    latest (entries.map fun e => (g e.1, f e.2)) (g k) = (latest entries k).map f := by
  induction entries using List.reverseRecOn with
  | nil => rfl
  | append_singleton entries e ih =>
    rw [List.map_append, List.map_singleton, latest_concat, latest_concat, Function.update_apply,
      Function.update_apply, ih]
    simp only [hg.eq_iff]
    split_ifs <;> rfl

variable {κ ν : Type*} [LinearOrder κ] {k : κ} {v : ν} {m : List (κ × ν)} {e : κ × ν}

/-- `m[k] = v` -/
def assign (k : κ) (v : ν) : List (κ × ν) → List (κ × ν)
  | [] => [(k, v)]
  | e :: m =>
      if k < e.1 then (k, v) :: e :: m
      else if k = e.1 then (k, v) :: m
      else e :: assign k v m

/-- The entries are assigned one after the other. -/
def ofList (entries : List (κ × ν)) : List (κ × ν) :=
  entries.foldl (fun m e => assign e.1 e.2 m) []

def Sorted (m : List (κ × ν)) : Prop := m.Pairwise fun e e' => e.1 < e'.1

lemma mem_assign (h : e ∈ assign k v m) : e = (k, v) ∨ e ∈ m := by
  induction m with
  | nil => simpa [assign] using h
  | cons e' m ih =>
    unfold assign at h
    split_ifs at h
    · simpa using h
    · rcases List.mem_cons.mp h with h | h
      · exact .inl h
      · exact .inr (List.mem_cons_of_mem _ h)
    · rcases List.mem_cons.mp h with h | h
      · exact .inr (h ▸ List.mem_cons_self)
      · exact (ih h).imp id (List.mem_cons_of_mem _)

lemma Sorted.assign (h : Sorted m) (k : κ) (v : ν) : Sorted (assign k v m) := by
  induction m with
  | nil => exact List.pairwise_singleton _ _
  | cons e m ih =>
    obtain ⟨he, hm⟩ := List.pairwise_cons.mp h
    unfold OrderedMap.assign
    split_ifs with hlt heq
    · refine List.pairwise_cons.mpr ⟨?_, h⟩
      intro e' he'
      rcases List.mem_cons.mp he' with rfl | he'
      · exact hlt
      · exact hlt.trans (he e' he')
    · refine List.pairwise_cons.mpr ⟨?_, hm⟩
      intro e' he'
      show k < e'.1
      rw [heq]
      exact he e' he'
    · refine List.pairwise_cons.mpr ⟨?_, ih hm⟩
      intro e' he'
      rcases mem_assign he' with rfl | he'
      · exact lt_of_le_of_ne (not_lt.mp hlt) (Ne.symm heq)
      · exact he e' he'

lemma key_assign_self (k : κ) (v : ν) (m : List (κ × ν)) : ∃ e ∈ assign k v m, e.1 = k := by
  induction m with
  | nil => exact ⟨(k, v), List.mem_singleton.mpr rfl, rfl⟩
  | cons e m ih =>
    unfold assign
    split_ifs
    · exact ⟨(k, v), List.mem_cons_self, rfl⟩
    · exact ⟨(k, v), List.mem_cons_self, rfl⟩
    · obtain ⟨e', he', hk⟩ := ih
      exact ⟨e', List.mem_cons_of_mem _ he', hk⟩

lemma key_assign (he : e ∈ m) (k : κ) (v : ν) : ∃ e' ∈ assign k v m, e'.1 = e.1 := by
  induction m with
  | nil => contradiction
  | cons e₀ m ih =>
    unfold assign
    split_ifs with hlt heq
    · exact ⟨e, List.mem_cons_of_mem _ he, rfl⟩
    · rcases List.mem_cons.mp he with rfl | he
      · exact ⟨(k, v), List.mem_cons_self, heq⟩
      · exact ⟨e, List.mem_cons_of_mem _ he, rfl⟩
    · rcases List.mem_cons.mp he with rfl | he
      · exact ⟨e, List.mem_cons_self, rfl⟩
      · obtain ⟨e', he', hk⟩ := ih he
        exact ⟨e', List.mem_cons_of_mem _ he', hk⟩

lemma foldl_assign_spec (entries m : List (κ × ν)) (hm : Sorted m) :
    let m' := entries.foldl (fun m e => assign e.1 e.2 m) m
    Sorted m' ∧ (∀ e ∈ m', e ∈ entries ∨ e ∈ m) ∧
      ∀ e, e ∈ entries ∨ e ∈ m → ∃ e' ∈ m', e'.1 = e.1 := by
  induction entries generalizing m with
  | nil => exact ⟨hm, fun e he => .inr he, fun e he => ⟨e, he.resolve_left List.not_mem_nil, rfl⟩⟩
  | cons x entries ih =>
    obtain ⟨hs, hsub, hkeys⟩ := ih _ (hm.assign x.1 x.2)
    refine ⟨hs, ?_, ?_⟩
    · intro e he
      rcases hsub e he with h | h
      · exact .inl (List.mem_cons_of_mem _ h)
      · rcases mem_assign h with rfl | h
        · exact .inl List.mem_cons_self
        · exact .inr h
    · rintro e (he | he)
      · rcases List.mem_cons.mp he with rfl | he
        · obtain ⟨e', he', hk⟩ := key_assign_self e.1 e.2 m
          obtain ⟨e'', he'', hk'⟩ := hkeys e' (.inr he')
          exact ⟨e'', he'', hk'.trans hk⟩
        · exact hkeys e (.inl he)
      · obtain ⟨e', he', hk⟩ := key_assign he x.1 x.2
        obtain ⟨e'', he'', hk'⟩ := hkeys e' (.inr he')
        exact ⟨e'', he'', hk'.trans hk⟩

variable {entries : List (κ × ν)}

lemma mem_of_mem_ofList (h : e ∈ ofList entries) : e ∈ entries :=
  ((foldl_assign_spec entries [] List.Pairwise.nil).2.1 e h).resolve_right List.not_mem_nil

/-- The entry that is gone through last has the greatest key. -/
theorem le_of_getLast? {last : κ × ν} (hlast : (ofList entries).getLast? = some last)
    (he : e ∈ entries) : e.1 ≤ last.1 := by
  obtain ⟨hs, -, hkeys⟩ := foldl_assign_spec entries [] List.Pairwise.nil
  obtain ⟨e', he', hk⟩ := hkeys e (.inl he)
  obtain ⟨front, hf⟩ := List.getLast?_eq_some_iff.mp hlast
  have hsorted : Sorted (front ++ [last]) := by rwa [← hf]
  have hmem : e' ∈ front ++ [last] := by rwa [← hf]
  rw [← hk]
  rcases List.mem_append.mp hmem with h | h
  · exact ((List.pairwise_append.mp hsorted).2.2 e' h last (List.mem_singleton.mpr rfl)).le
  · rw [List.mem_singleton.mp h]

def get (k : κ) (m : List (κ × ν)) : Option ν := (m.find? fun e => e.1 = k).map Prod.snd

@[simp] lemma get_nil : get k ([] : List (κ × ν)) = none := rfl

lemma get_cons (k : κ) (e : κ × ν) (m : List (κ × ν)) :
    get k (e :: m) = if e.1 = k then some e.2 else get k m := by
  rw [get, List.find?_cons]
  split_ifs with h <;> simp [h, get]

lemma get_assign (k' : κ) : get k' (assign k v m) = if k = k' then some v else get k' m := by
  induction m with
  | nil => exact get_cons k' (k, v) []
  | cons e m ih =>
    by_cases hlt : k < e.1
    · rw [assign, if_pos hlt, get_cons]
    by_cases heq : k = e.1
    · rw [assign, if_neg hlt, if_pos heq, get_cons, get_cons, ← heq]
      split_ifs <;> rfl
    · rw [assign, if_neg hlt, if_neg heq, get_cons, get_cons, ih]
      by_cases hk : e.1 = k'
      · rw [if_pos hk, if_pos hk, if_neg fun h => heq (h.trans hk.symm)]
      · rw [if_neg hk, if_neg hk]

lemma get_eq_none_of_lt (h : ∀ e ∈ m, k < e.1) : get k m = none := by
  rw [get, List.find?_eq_none.mpr, Option.map_none]
  intro e he
  simpa using (h e he).ne'

lemma mem_of_get (h : get k m = some v) : (k, v) ∈ m := by
  obtain ⟨e, he, rfl⟩ := Option.map_eq_some_iff.mp h
  have hk : e.1 = k := by simpa using List.find?_some he
  rw [← hk]
  exact List.mem_of_find?_eq_some he

lemma Sorted.get_of_mem (h : Sorted m) (hmem : (k, v) ∈ m) : get k m = some v := by
  induction m with
  | nil => contradiction
  | cons e m ih =>
    obtain ⟨hm, hs⟩ := List.pairwise_cons.mp h
    rw [get_cons]
    rcases List.mem_cons.mp hmem with rfl | hmem
    · exact if_pos rfl
    · rw [if_neg (hm (k, v) hmem).ne, ih hs hmem]

lemma not_lt_of_get_eq {m' : List (κ × ν)} {e' : κ × ν} (h' : Sorted (e' :: m'))
    (heq : get e.1 (e :: m) = get e.1 (e' :: m')) : ¬ e.1 < e'.1 := by
  intro hlt
  have hnone : get e.1 (e' :: m') = none := by
    apply get_eq_none_of_lt
    intro x hx
    rcases List.mem_cons.mp hx with rfl | hx
    · exact hlt
    · exact hlt.trans ((List.pairwise_cons.mp h').1 x hx)
  rw [get_cons, if_pos rfl, hnone] at heq
  contradiction

theorem Sorted.ext {m' : List (κ × ν)} (h : Sorted m) (h' : Sorted m')
    (heq : ∀ k, get k m = get k m') : m = m' := by
  induction m generalizing m' with
  | nil =>
    cases m' with
    | nil => rfl
    | cons e' m' =>
      have he := heq e'.1
      rw [get_cons, if_pos rfl] at he
      contradiction
  | cons e m ih =>
    cases m' with
    | nil =>
      have he := heq e.1
      rw [get_cons, if_pos rfl] at he
      contradiction
    | cons e' m' =>
      obtain ⟨hm, hs⟩ := List.pairwise_cons.mp h
      obtain ⟨hm', hs'⟩ := List.pairwise_cons.mp h'
      have hkey : e.1 = e'.1 := le_antisymm (not_lt.mp (not_lt_of_get_eq h (heq e'.1).symm))
        (not_lt.mp (not_lt_of_get_eq h' (heq e.1)))
      have hvalue := heq e.1
      rw [get_cons, get_cons, if_pos rfl, if_pos hkey.symm] at hvalue
      have hrest : m = m' := by
        apply ih hs hs'
        intro k
        by_cases hk : e.1 = k
        · rw [get_eq_none_of_lt (hk ▸ hm), get_eq_none_of_lt (hk ▸ hkey ▸ hm')]
        · have hget := heq k
          rwa [get_cons, get_cons, if_neg hk, if_neg (hkey ▸ hk)] at hget
      rw [Prod.ext hkey (Option.some.inj hvalue), hrest]

lemma ofList_concat (e : κ × ν) : ofList (entries ++ [e]) = assign e.1 e.2 (ofList entries) := by
  simp [ofList]

lemma sorted_ofList (entries : List (κ × ν)) : Sorted (ofList entries) :=
  (foldl_assign_spec entries [] List.Pairwise.nil).1

theorem get_ofList [DecidableEq κ] (k : κ) : get k (ofList entries) = latest entries k := by
  induction entries using List.reverseRecOn with
  | nil => rfl
  | append_singleton entries e ih =>
    rw [ofList_concat, latest_concat, get_assign, ih, Function.update_apply]
    by_cases hk : e.1 = k
    · rw [if_pos hk, if_pos hk.symm]
    · rw [if_neg hk, if_neg (Ne.symm hk)]

lemma ofList_eq_iff [DecidableEq κ] {entries' : List (κ × ν)} :
    ofList entries = ofList entries' ↔ latest entries = latest entries' := by
  constructor
  · intro h
    funext k
    rw [← get_ofList, ← get_ofList, h]
  · intro h
    apply (sorted_ofList entries).ext (sorted_ofList entries')
    intro k
    rw [get_ofList, get_ofList, h]

lemma assign_split (k : κ) (m : List (κ × ν)) :
    ∃ front back, ∀ v, assign k v m = front ++ (k, v) :: back := by
  induction m with
  | nil => exact ⟨[], [], fun v => rfl⟩
  | cons e m ih =>
    obtain ⟨front, back, hsplit⟩ := ih
    by_cases hlt : k < e.1
    · exact ⟨[], e :: m, fun v => by rw [assign, if_pos hlt]; rfl⟩
    by_cases heq : k = e.1
    · exact ⟨[], m, fun v => by rw [assign, if_neg hlt, if_pos heq]; rfl⟩
    · exact ⟨e :: front, back, fun v => by rw [assign, if_neg hlt, if_neg heq, hsplit]; rfl⟩

lemma assign_assign (k : κ) (v w : ν) (m : List (κ × ν)) :
    assign k w (assign k v m) = assign k w m := by
  have hself (v : ν) (m : List (κ × ν)) : assign k w ((k, v) :: m) = (k, w) :: m := by
    rw [assign, if_neg (lt_irrefl k), if_pos rfl]
  induction m with
  | nil => exact hself v []
  | cons e m ih =>
    by_cases hlt : k < e.1
    · rw [assign, if_pos hlt, hself, assign, if_pos hlt]
    by_cases heq : k = e.1
    · rw [assign, if_neg hlt, if_pos heq, hself, assign, if_neg hlt, if_pos heq]
    · have hcons (v : ν) (m : List (κ × ν)) : assign k v (e :: m) = e :: assign k v m := by
        rw [assign, if_neg hlt, if_neg heq]
      rw [hcons, hcons, hcons, ih]

lemma assign_of_forall_lt (h : ∀ e ∈ m, e.1 < k) : assign k v m = m ++ [(k, v)] := by
  induction m with
  | nil => rfl
  | cons e m ih =>
    have hlt := h e List.mem_cons_self
    rw [assign, if_neg (not_lt.mpr hlt.le), if_neg hlt.ne',
      ih fun e' he' => h e' (List.mem_cons_of_mem e he')]
    rfl

/-- A map that is assigned in the order of its keys stays as it is. -/
theorem Sorted.ofList_eq (h : Sorted m) : ofList m = m := by
  induction m using List.reverseRecOn with
  | nil => rfl
  | append_singleton m e ih =>
    obtain ⟨hm, -, hlt⟩ := List.pairwise_append.mp h
    rw [ofList_concat, ih hm]
    exact assign_of_forall_lt fun e' he' => hlt e' he' e (List.mem_singleton.mpr rfl)

lemma Sorted.assign_of_get (hs : Sorted m) (h : get k m = some v) : OrderedMap.assign k v m = m := by
  apply (hs.assign k v).ext hs
  intro k'
  rw [get_assign]
  split_ifs with hk
  · rw [← hk, h]
  · rfl

lemma Sorted.latest_eq [DecidableEq κ] (h : Sorted m) (k : κ) : latest m k = get k m := by
  rw [← get_ofList, h.ofList_eq]

/-- `delete(m, k)` -/
def erase (k : κ) (m : List (κ × ν)) : List (κ × ν) := m.filter fun e => e.1 ≠ k

lemma Sorted.erase (h : Sorted m) (k : κ) : Sorted (erase k m) := h.filter _

lemma mem_of_mem_erase (h : e ∈ erase k m) : e ∈ m := (List.mem_filter.mp h).1

lemma map_assign {ν' : Type*} (f : ν → ν') (k : κ) (v : ν) (m : List (κ × ν)) :
    (assign k v m).map (fun e => (e.1, f e.2)) = assign k (f v) (m.map fun e => (e.1, f e.2)) := by
  induction m with
  | nil => rfl
  | cons e m ih =>
    rw [assign, List.map_cons, assign]
    split_ifs
    · rfl
    · rfl
    · rw [List.map_cons, ih]

lemma get_map {ν' : Type*} (f : ν → ν') (k : κ) (m : List (κ × ν)) :
    get k (m.map fun e => (e.1, f e.2)) = (get k m).map f := by
  induction m with
  | nil => rfl
  | cons e m ih =>
    rw [List.map_cons, get_cons, get_cons, ih]
    split_ifs <;> rfl

end Eventing.OrderedMap
