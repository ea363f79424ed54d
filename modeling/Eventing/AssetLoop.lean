import Eventing.AssetEdits

/-!
# The loop over the cells and the entries

Taking an entry out of the slice moves the entries behind it down by a cell of the array
that the loop goes through. The cells at the end keep copies of the last entry. At each
index the cells are those of a list with a part that is passed and a part that is not, and
the loop is `edited` on the entries that these cells refer to.
-/
namespace Eventing.AssetEdits
open GoSlice MetadataKeys

variable {β : Type*}

section Steps
variable {appName : Text} {info : Bool} {e : Edit β} {index r : ℕ} {a : Asset β}

def Asset.Plain (a : Asset β) : Prop := a.operation ≠ some .delete ∧ a.operation ≠ some .add

lemma editAsset_plain (hr : e.cells[index]? = some r) (ha : e.maps r = some a) (hp : a.Plain) :
    editAsset appName info e index = some e := by
  obtain ⟨hd, hadd⟩ := hp
  rw [editAsset, hr, Option.bind_some, ha, Option.bind_some]
  split
  · contradiction
  · contradiction
  · rfl
  · rfl

lemma visited_of_plain (h : a.Plain) : a.visited appName = some (a, []) := by
  obtain ⟨hd, hadd⟩ := h
  unfold Asset.visited
  split
  · contradiction
  · rfl
  · rfl
  · rfl

lemma editAsset_visited (hr : e.cells[index]? = some r) (ha : e.maps r = some a)
    (hd : a.operation ≠ some .delete) :
    editAsset appName true e index = (a.visited appName).map fun p => { e with
      maps := Function.update e.maps r (some p.1)
      bucket := e.bucket ++ p.2 } := by
  by_cases hadd : a.operation = some .add
  · cases hb : a.content.bind dataURL <;> simp [editAsset, Asset.visited, hr, ha, hadd, hb]
  · rw [editAsset_plain hr ha ⟨hd, hadd⟩, visited_of_plain ⟨hd, hadd⟩, Option.map_some]
    simp [← ha]

lemma plain_of_visited {p : Asset β × List BucketOp} (hd : a.operation ≠ some .delete)
    (h : a.visited appName = some p) : p.1.Plain := by
  unfold Asset.visited at h
  split at h
  · obtain ⟨blob, -, rfl⟩ := Option.map_eq_some_iff.mp h
    simp [Asset.Plain, Asset.added]
  · contradiction
  · next text hop =>
    cases h
    simp [Asset.Plain, hop]
  · next hop =>
    cases h
    simp [Asset.Plain, hop]

lemma editAsset_delete (hr : e.cells[index]? = some r) (ha : e.maps r = some a)
    (hd : a.operation = some .delete) (hlen : 1 < e.assets.len) :
    editAsset appName true e index = (e.assets.remove e.cells index).map fun p =>
      { e with cells := p.1, assets := p.2, bucket := e.bucket ++ [a.deletion appName] } := by
  simp [editAsset, hr, ha, hd, hlen, Asset.deletion]

lemma editAsset_delete_short (hr : e.cells[index]? = some r) (ha : e.maps r = some a)
    (hd : a.operation = some .delete) (hlen : ¬ 1 < e.assets.len) :
    editAsset appName true e index = some { e with
      assets := ⟨0, e.assets.cap⟩
      bucket := e.bucket ++ [a.deletion appName] } := by
  simp [editAsset, hr, ha, hd, hlen, Asset.deletion, Slice.upTo]

end Steps

section Tail
variable {appName : Text} {e : Edit β} {index count last : ℕ} {a : Asset β}

/-- The cells of the next iterations all hold the last entry. -/
def ReadsLast (cells : List ℕ) (index count last : ℕ) : Prop :=
  ∀ i, index ≤ i → i < index + count → cells[i]? = some last

lemma ReadsLast.head {cells : List ℕ} (h : ReadsLast cells index (count + 1) last) :
    cells[index]? = some last :=
  h index le_rfl (by omega)

lemma ReadsLast.tail {cells : List ℕ} (h : ReadsLast cells index (count + 1) last) :
    ReadsLast cells (index + 1) count last := by
  intro i h1 h2
  exact h i (by omega) (by omega)

lemma readsLast_replicate {front : List ℕ} {m : ℕ} (h1 : front.length ≤ index)
    (h2 : index + count ≤ front.length + m) :
    ReadsLast (front ++ List.replicate m last) index count last := by
  intro i hi hi'
  rw [List.getElem?_append_right (by omega), List.getElem?_replicate, if_pos (by omega)]

lemma editFrom_last_plain {info : Bool} (h : ReadsLast e.cells index count last)
    (ha : e.maps last = some a) (hp : a.Plain) : editFrom appName info count index e = some e := by
  induction count generalizing index with
  | zero => rfl
  | succ count ih =>
    rw [editFrom, editAsset_plain h.head ha hp]
    exact ih h.tail

lemma editFrom_last_short (h : ReadsLast e.cells index count last) (ha : e.maps last = some a)
    (hd : a.operation = some .delete) (hlen : ¬ 1 < e.assets.len) (hcount : count ≠ 0) :
    editFrom appName true count index e = some { e with
      assets := ⟨0, e.assets.cap⟩
      bucket := e.bucket ++ List.replicate count (a.deletion appName) } := by
  induction count generalizing index e with
  | zero => contradiction
  | succ count ih =>
    rw [editFrom, editAsset_delete_short h.head ha hd hlen, Option.bind_some]
    by_cases hc : count = 0
    · subst hc
      rfl
    · have hrest := ih (e := { e with
        assets := ⟨0, e.assets.cap⟩
        bucket := e.bucket ++ [a.deletion appName] }) h.tail ha (by simp) hc
      simpa [List.replicate_succ] using hrest

lemma editFrom_last_panic (h : ReadsLast e.cells index count last) (ha : e.maps last = some a)
    (hd : a.operation = some .delete) (hlen : 1 < e.assets.len) (hi : e.assets.len ≤ index)
    (hcount : count ≠ 0) : editFrom appName true count index e = none := by
  cases count with
  | zero => contradiction
  | succ count =>
    rw [editFrom, editAsset_delete h.head ha hd hlen, Slice.remove_eq_none hi]
    rfl

end Tail

section Zipper
variable {appName : Text} {e : Edit β} {front rest cells : List ℕ} {k last r : ℕ}
  {fs rs : List (Asset β)} {x y : Asset β}

/-- The loop is at the first cell of `rest`. What was taken out has left copies of the last
entry behind; `fs` and `rs` are the entries of the cells before and from here. -/
structure Zipper (e : Edit β) (front rest : List ℕ) (k last : ℕ) (fs rs : List (Asset β)) :
    Prop where
  cells : e.cells = front ++ (rest ++ List.replicate k last)
  len : e.assets.len = front.length + rest.length
  cap : e.assets.len ≤ e.assets.cap
  nodup : (front ++ rest).Nodup
  front : front.map e.maps = fs.map some
  rest : rest.map e.maps = rs.map some

lemma Edit.persisted_of_front (hcells : e.cells = front ++ cells)
    (hlen : e.assets.len = front.length) (hfs : front.map e.maps = fs.map some) :
    e.persisted = fs := by
  have h : front.filterMap e.maps = (front.map e.maps).filterMap id := by
    rw [List.filterMap_map]
    rfl
  rw [Edit.persisted, hcells, hlen, List.take_left, h, hfs, List.filterMap_map]
  simp

lemma Zipper.head (h : Zipper e front (r :: rest) k last fs (x :: rs)) :
    e.cells[front.length]? = some r := by
  rw [h.cells, List.getElem?_append_right le_rfl]
  simp

lemma Zipper.maps_head (h : Zipper e front (r :: rest) k last fs (x :: rs)) :
    e.maps r = some x := by
  have hr := h.rest
  simp only [List.map_cons, List.cons.injEq] at hr
  exact hr.1

lemma Zipper.length_front (h : Zipper e front rest k last fs rs) : front.length = fs.length := by
  have hl := congrArg List.length h.front
  simpa using hl

lemma map_update_of_notMem {l : List ℕ} (h : r ∉ l) (maps : ℕ → Option (Asset β))
    (v : Option (Asset β)) : l.map (Function.update maps r v) = l.map maps := by
  apply List.map_congr_left
  intro i hi
  have hne : i ≠ r := by
    rintro rfl
    exact h hi
  exact Function.update_of_ne hne _ _

lemma Zipper.keep (h : Zipper e front (r :: rest) k last fs (x :: rs)) (bucket : List BucketOp)
    (x' : Asset β) :
    Zipper { e with maps := Function.update e.maps r (some x'), bucket := bucket }
      (front ++ [r]) rest k last (fs ++ [x']) rs := by
  have hnd := h.nodup
  have hr := h.rest
  simp only [List.map_cons, List.cons.injEq] at hr
  rw [List.nodup_append] at hnd
  obtain ⟨-, hrest, hdisj⟩ := hnd
  rw [List.nodup_cons] at hrest
  have hfront : r ∉ front := fun hm => hdisj r hm r List.mem_cons_self rfl
  refine ⟨?_, ?_, h.cap, ?_, ?_, ?_⟩
  · rw [h.cells]
    simp
  · have hl := h.len
    simp only [List.length_cons] at hl
    simp only [List.length_append, List.length_cons, List.length_nil]
    omega
  · simpa using h.nodup
  · rw [List.map_append, map_update_of_notMem hfront, h.front]
    simp
  · rw [map_update_of_notMem hrest.1]
    exact hr.2

/-- The cell of a deleted entry gets the next one, which is passed over. -/
lemma Zipper.skip {r' : ℕ} (h : Zipper e front (r :: r' :: rest) k last fs (x :: y :: rs))
    (hlast : (r' :: rest).getLast? = some last) (bucket : List BucketOp) :
    ∃ cells, e.assets.remove e.cells front.length =
        some (cells, ⟨front.length + (rest.length + 1), e.assets.cap⟩) ∧
      Zipper { e with
          cells := cells
          assets := ⟨front.length + (rest.length + 1), e.assets.cap⟩
          bucket := bucket }
        (front ++ [r']) rest (k + 1) last (fs ++ [y]) rs := by
  have hr := h.rest
  have hnd := h.nodup
  have hlen := h.len
  have hcap := h.cap
  simp only [List.map_cons, List.cons.injEq] at hr
  simp only [List.length_cons] at hlen
  have hremove := Slice.remove_eq (s := e.assets) (x := r) h.cells (by simpa using hlen) h.cap
  have hdrop : (r :: r' :: rest).drop (r' :: rest).length = [last] := by
    have hne : r' :: rest ≠ [] := by simp
    rw [List.getLast?_eq_some_getLast hne, Option.some.injEq] at hlast
    rw [List.drop_length_cons hne, hlast]
  rw [hdrop] at hremove
  refine ⟨_, hremove, ?_, ?_, ?_, ?_, ?_, hr.2.2⟩
  · simp [List.replicate_succ]
  · simp only [List.length_append, List.length_cons, List.length_nil]
    omega
  · show front.length + (rest.length + 1) ≤ e.assets.cap
    omega
  · have hsub : (front ++ [r'] ++ rest).Sublist (front ++ r :: r' :: rest) := by simp
    exact hnd.sublist hsub
  · rw [List.map_append, h.front]
    simp [hr.2.1]

lemma Zipper.persisted (h : Zipper e front [] k last fs []) : e.persisted = fs :=
  Edit.persisted_of_front h.cells (by simpa using h.len) h.front

/-- Behind the list only copies of the last entry are read. When it is plain by now, nothing
happens any more. -/
lemma editFrom_end_plain (h : Zipper e (front ++ [last]) [] k last (fs ++ [x]) []) (hp : x.Plain) :
    editFrom appName true k (front.length + 1) e = some e := by
  have hreads : ReadsLast e.cells (front.length + 1) k last := by
    rw [h.cells, List.nil_append]
    exact readsLast_replicate (by simp) (by simp)
  have hx : e.maps last = some x := by
    have hf := h.front
    simp only [List.map_append, List.map_cons, List.map_nil] at hf
    have hlast := (List.append_inj' hf rfl).2
    simpa using hlast
  exact editFrom_last_plain hreads hx hp

/-- The last entry was passed over, and is read from the cells behind the list. -/
lemma editFrom_end (h : Zipper e (front ++ [last]) [] (k + 1) last (fs ++ [x]) []) :
    (editFrom appName true (k + 1) (front.length + 1) e).map Edit.result =
      if x.operation = some .delete then
        if 1 < fs.length + 1 then none
        else some ([], e.bucket ++ List.replicate (k + 1) (x.deletion appName))
      else (x.visited appName).map fun p => (fs ++ [p.1], e.bucket ++ p.2) := by
  have hreads : ReadsLast e.cells (front.length + 1) (k + 1) last := by
    rw [h.cells, List.nil_append]
    exact readsLast_replicate (by simp) (by simp)
  have hf := h.front
  simp only [List.map_append, List.map_cons, List.map_nil] at hf
  obtain ⟨hfs, hlast⟩ := List.append_inj' hf rfl
  have hx : e.maps last = some x := by simpa using hlast
  have hlen := h.len
  have hfl := h.length_front
  simp only [List.length_append, List.length_cons, List.length_nil] at hlen hfl
  by_cases hd : x.operation = some .delete
  · rw [if_pos hd]
    by_cases hl : 1 < fs.length + 1
    · rw [if_pos hl, editFrom_last_panic hreads hx hd (by omega) (by omega) (by omega)]
      rfl
    · rw [if_neg hl, editFrom_last_short hreads hx hd (by omega) (by omega)]
      simp [Edit.result, Edit.persisted]
  · rw [if_neg hd, editFrom, editAsset_visited hreads.head hx hd]
    cases hv : x.visited appName with
    | none => rfl
    | some p =>
      have hnd := h.nodup
      rw [List.append_nil, List.nodup_append] at hnd
      have hnot : last ∉ front := fun hm => hnd.2.2 last hm last List.mem_cons_self rfl
      have hplain := plain_of_visited hd hv
      rw [Option.map_some, Option.bind_some, editFrom_last_plain (e := { e with
        maps := Function.update e.maps last (some p.1)
        bucket := e.bucket ++ p.2 }) hreads.tail (Function.update_self ..) hplain]
      have hpers : ({ e with
          maps := Function.update e.maps last (some p.1)
          bucket := e.bucket ++ p.2 } : Edit β).persisted = fs ++ [p.1] := by
        refine Edit.persisted_of_front h.cells (by simpa using hlen) ?_
        rw [List.map_append, map_update_of_notMem hnot, hfs]
        simp
      simp [Edit.result, hpers]

lemma editFrom_deleted (hcells : e.cells = front ++ List.replicate (k + 1) last)
    (hlen : e.assets.len = front.length) (hfs : front.map e.maps = fs.map some)
    (hx : e.maps last = some x) (hd : x.operation = some .delete) :
    (editFrom appName true k (front.length + 1) e).map Edit.result =
      if k = 0 then some (fs, e.bucket)
      else if 1 < fs.length then none
      else some ([], e.bucket ++ List.replicate k (x.deletion appName)) := by
  have hreads : ReadsLast e.cells (front.length + 1) k last := by
    rw [hcells]
    exact readsLast_replicate (by omega) (by omega)
  have hfl : front.length = fs.length := by simpa using congrArg List.length hfs
  by_cases hk : k = 0
  · subst hk
    simp [editFrom, Edit.result, Edit.persisted_of_front hcells hlen hfs]
  · rw [if_neg hk]
    by_cases hl : 1 < fs.length
    · rw [if_pos hl, editFrom_last_panic hreads hx hd (by omega) (by omega) hk]
      rfl
    · rw [if_neg hl, editFrom_last_short hreads hx hd (by omega) hk]
      simp [Edit.result, Edit.persisted]

lemma editFrom_singleton (h : Zipper e front [last] k last fs [x]) :
    (editFrom appName true (k + 1) front.length e).map Edit.result =
      (edited appName fs k [x]).map fun p => (p.1, e.bucket ++ p.2) := by
  have hlen := h.len
  have hfl := h.length_front
  simp only [List.length_cons, List.length_nil] at hlen
  rw [editFrom, edited]
  by_cases hd : x.operation = some .delete
  · have hcells : e.cells = front ++ List.replicate (k + 1) last := by
      rw [h.cells, List.replicate_succ]
      rfl
    have hstep : editAsset appName true e front.length = some { e with
        assets := ⟨front.length, e.assets.cap⟩
        bucket := e.bucket ++ [x.deletion appName] } := by
      by_cases hl : 1 < e.assets.len
      · have hremove := Slice.remove_eq (s := e.assets) (x := last) h.cells hlen h.cap
        rw [editAsset_delete h.head h.maps_head hd hl, hremove]
        simp [hcells, List.replicate_succ]
      · rw [editAsset_delete_short h.head h.maps_head hd hl, show front.length = 0 by omega]
    rw [if_pos hd, hstep, Option.bind_some, editFrom_deleted (e := { e with
      assets := ⟨front.length, e.assets.cap⟩
      bucket := e.bucket ++ [x.deletion appName] }) hcells rfl h.front h.maps_head hd]
    by_cases hk : k = 0
    · simp [hk]
    · by_cases hl : 1 < fs.length <;> simp [hk, hl, List.replicate_succ]
  · rw [if_neg hd, editAsset_visited h.head h.maps_head hd]
    cases hv : x.visited appName with
    | none => rfl
    | some p =>
      have hk := h.keep (e.bucket ++ p.2) p.1
      rw [Option.map_some, Option.bind_some, editFrom_end_plain hk (plain_of_visited hd hv)]
      simp [Edit.result, hk.persisted]

lemma edited_visited (hd : x.operation ≠ some .delete) :
    edited appName fs k (x :: y :: rs) = (x.visited appName).bind fun p =>
      (edited appName (fs ++ [p.1]) k (y :: rs)).map fun q => (q.1, p.2 ++ q.2) := by
  cases rs <;> simp [edited, hd]

/-- The loop over the cells does to the entries what `edited` does. -/
theorem editFrom_eq_edited (h : Zipper e front rest k last fs rs)
    (hlast : rest.getLast? = some last) :
    (editFrom appName true (k + rest.length) front.length e).map Edit.result =
      (edited appName fs k rs).map fun p => (p.1, e.bucket ++ p.2) := by
  induction hn : rest.length using Nat.strong_induction_on
    generalizing e front rest k fs rs with
  | _ n ih =>
    subst hn
    have hrl : rest.length = rs.length := by simpa using congrArg List.length h.rest
    match rest, rs, hrl with
    | [], [], _ => simp at hlast
    | [r], [x], _ =>
      simp only [List.getLast?_singleton, Option.some.injEq] at hlast
      subst hlast
      exact editFrom_singleton h
    | r :: r' :: rest, x :: y :: rs, _ =>
      have hlast' : (r' :: rest).getLast? = some last := by simpa using hlast
      have hcount : k + (r :: r' :: rest).length = (k + 1 + rest.length) + 1 := by
        simp only [List.length_cons]
        omega
      rw [hcount, editFrom]
      by_cases hd : x.operation = some .delete
      · have hl : 1 < e.assets.len := by
          have hlen := h.len
          simp only [List.length_cons] at hlen
          omega
        obtain ⟨cells, hremove, hz⟩ := h.skip hlast' (e.bucket ++ [x.deletion appName])
        rw [editAsset_delete h.head h.maps_head hd hl, hremove, Option.map_some, Option.bind_some]
        have hrl' : rest.length = rs.length := by simpa using congrArg List.length hz.rest
        match rest, rs, hrl' with
        | [], [], _ =>
          -- The entry passed over is the last one.
          simp only [List.getLast?_singleton, Option.some.injEq] at hlast'
          subst hlast'
          refine (editFrom_end hz).trans ?_
          rw [edited, if_pos hd]
          by_cases hy : y.operation = some .delete
          · by_cases hl : 1 < fs.length + 1 <;> simp [hy, hl, List.replicate_succ]
          · simp [hy, Function.comp_def]
        | r₂ :: rest, z :: rs, _ =>
          have hi := ih (r₂ :: rest).length (by simp) hz (by simpa using hlast') rfl
          rw [List.length_append, List.length_singleton] at hi
          refine hi.trans ?_
          rw [edited, if_pos hd]
          simp [Function.comp_def]
      · rw [editAsset_visited h.head h.maps_head hd, edited_visited hd]
        cases hv : x.visited appName with
        | none => rfl
        | some p =>
          have hi := ih (r' :: rest).length (by simp) (h.keep (e.bucket ++ p.2) p.1) hlast' rfl
          rw [List.length_append, List.length_singleton, List.length_cons] at hi
          rw [Option.map_some, Option.bind_some, Option.bind_some,
            show k + 1 + rest.length = k + (rest.length + 1) by omega, hi]
          simp [Function.comp_def]

lemma Zipper.keep_same (h : Zipper e front (r :: rest) k last fs (x :: rs)) :
    Zipper e (front ++ [r]) rest k last (fs ++ [x]) rs := by
  have hx : Function.update e.maps r (some x) = e.maps := by
    rw [← h.maps_head]
    exact Function.update_eq_self r e.maps
  have hk := h.keep e.bucket x
  rwa [hx] at hk

lemma editFrom_noInfo (h : Zipper e front rest k last fs rs) :
    ((∀ a ∈ rs, a.Plain) → editFrom appName false rs.length front.length e = some e) ∧
      (¬ (∀ a ∈ rs, a.Plain) → editFrom appName false rs.length front.length e = none) := by
  induction rs generalizing front rest fs with
  | nil => simp [editFrom]
  | cons x rs ih =>
    have hrl : rest.length = rs.length + 1 := by simpa using congrArg List.length h.rest
    match rest, hrl with
    | r :: rest, _ =>
      rw [List.length_cons, editFrom]
      by_cases hp : x.Plain
      · have hi := ih h.keep_same
        rw [List.length_append, List.length_singleton] at hi
        rw [editAsset_plain h.head h.maps_head hp, Option.bind_some]
        simpa [hp] using hi
      · have hnone : editAsset appName false e front.length = none := by
          have hop : x.operation = some .delete ∨ x.operation = some .add := by
            unfold Asset.Plain at hp
            tauto
          rcases hop with hop | hop
          · simp [editAsset, h.head, h.maps_head, hop]
          · simp [editAsset, h.head, h.maps_head, hop]
        rw [hnone]
        simp [hp]

lemma zipper_initial (spare : ℕ) (assets : List (Asset β)) :
    Zipper (.initial spare assets) [] (List.range assets.length) 0 (assets.length - 1) []
      assets := by
  refine ⟨by simp [Edit.initial], by simp [Edit.initial], by simp [Edit.initial],
    by simpa using List.nodup_range, rfl, ?_⟩
  apply List.ext_getElem?
  intro i
  by_cases hi : i < assets.length
  · simp [Edit.initial, hi]
  · simp [Edit.initial, hi]

theorem storeAssets_eq_edited (appName : Text) (spare : ℕ) (assets : List (Asset β)) :
    storeAssets appName true spare assets = edited appName [] 0 assets := by
  by_cases hnil : assets = []
  · subst hnil
    rfl
  · have hlen : assets.length ≠ 0 := by simpa using hnil
    have hlast : (List.range assets.length).getLast? = some (assets.length - 1) := by
      rw [List.getLast?_range, if_neg hlen]
    have h : (editFrom appName true _ _ _).map Edit.result = _ :=
      editFrom_eq_edited (zipper_initial spare assets) hlast
    rw [List.length_range, Nat.zero_add, List.length_nil] at h
    rw [storeAssets, h]
    cases edited appName [] 0 assets <;> simp [Edit.initial]

lemma storeAssets_noInfo (appName : Text) (spare : ℕ) (as : List (Asset β)) :
    ((∀ a ∈ as, a.Plain) → storeAssets appName false spare as = some (as, [])) ∧
      (¬ (∀ a ∈ as, a.Plain) → storeAssets appName false spare as = none) := by
  have hz := zipper_initial spare as
  have h : ((∀ a ∈ as, a.Plain) →
      editFrom appName false as.length 0 (.initial spare as) = some (.initial spare as)) ∧
      (¬ (∀ a ∈ as, a.Plain) → editFrom appName false as.length 0 (.initial spare as) = none) :=
    editFrom_noInfo hz
  have hcells : (Edit.initial spare as).cells = List.range as.length ++ [] := by
    simp [Edit.initial]
  have hlen : (Edit.initial spare as).assets.len = (List.range as.length).length := by
    simp [Edit.initial]
  have hpers := Edit.persisted_of_front hcells hlen hz.rest
  constructor
  · intro hp
    rw [storeAssets, h.1 hp, Option.map_some, Edit.result, hpers]
    rfl
  · intro hp
    rw [storeAssets, h.2 hp]
    rfl

end Zipper

end Eventing.AssetEdits
