import Eventing.WorkerDispose
import Eventing.WorkerTable

/-!
# Disposals as runs on the table

`WorkerDispose` follows each worker with its callers, `WorkerTable` the table with its
goroutines. Where each call of the first is a goroutine of the second, its runs are runs there.
So the entries of `workerTable`, which `WorkerDispose` numbers by position, are the ones that
`Exact` finds in the map of the table: the panic is met on the table as it really is.
-/
namespace Eventing.WorkerRuns
open Transition WorkerDispose WorkerTable

/-- One goroutine makes all workers, and each call of `Dispose` is one. -/
abbrev Goroutine := Option (ℕ × Caller)

/-- Where a call of `Dispose` with worker `i` is. -/
def callPc (i : ℕ) : Call → Pc
  | .none | .returned => .idle
  | .entered => .marked i
  | .deleted => .deleted i
  | .panicked => .panicked

/-- The same workers with the same flags, the same calls, and the same entries. -/
structure Simulates (s : WorkerDispose.State) (t : WorkerTable.State Goroutine) : Prop where
  flag : ∀ i, t.flag i = (s.handles i).map Handle.disposed
  count : t.workers.length = s.nextAvailable
  below : ∀ i w, s.handles i = some w → i < s.nextAvailable
  idle : t.pcs none = .idle
  pcs : ∀ i c, t.pcs (some (i, c)) = (s.handles i).elim .idle fun w => callPc i (w.calls c)
  entry : ∀ i, s.workerTable i = true ↔ t.Live i

section
variable {s s' : WorkerDispose.State} {t u : WorkerTable.State Goroutine} {i : ℕ} {c : Caller}
  {w w' : Handle} {call : Call}

lemma Simulates.initial : Simulates .initial .initial where
  flag i := rfl
  count := rfl
  below i w h := by contradiction
  idle := rfl
  pcs i c := rfl
  entry i := iff_of_false nofun fun h => absurd h.1 (Nat.not_lt_zero i)

lemma Simulates.pcs_call (h : Simulates s t) (hw : s.handles i = some w) (hc : w.calls c = call) :
    t.pcs (some (i, c)) = callPc i call := by
  rw [h.pcs, hw, ← hc]
  rfl

lemma Simulates.flag_handle (h : Simulates s t) (hw : s.handles i = some w) :
    t.flag i = some w.disposed := by
  rw [h.flag, hw]
  rfl

lemma Simulates.found (h : Simulates s t) (hw : s.handles i = some w) :
    ∃ v, t.workers[i]? = some v := by
  obtain ⟨v, hv, -⟩ := Option.bind_eq_some_iff.mp (h.flag_handle hw)
  exact ⟨v, hv⟩

lemma Simulates.setCall {table : ℕ → Bool} (h : Simulates s t) (c : Caller) (call : Call)
    (hw : s.handles i = some w) (hcalls : w'.calls = Function.update w.calls c call)
    (hflag : u.flag = Function.update t.flag i (some w'.disposed))
    (hcount : u.workers.length = t.workers.length)
    (hpcs : u.pcs = Function.update t.pcs (some (i, c)) (callPc i call))
    (hentry : ∀ j, table j = true ↔ u.Live j) :
    Simulates { s.setHandle i w' with workerTable := table } u where
  flag j := by
    change _ = (Function.update s.handles i (some w') j).map Handle.disposed
    rw [hflag, Function.update_apply, Function.update_apply, h.flag]
    split_ifs <;> rfl
  count := hcount.trans h.count
  below j v hj := by
    by_cases he : j = i
    · exact he ▸ h.below i w hw
    · exact h.below j v ((Function.update_of_ne he _ _).symm.trans hj)
  idle := by
    rw [hpcs, Function.update_of_ne (by simp), h.idle]
  pcs j c' := by
    change _ = (Function.update s.handles i (some w') j).elim Pc.idle _
    rw [hpcs, Function.update_apply, Function.update_apply, h.pcs]
    by_cases he : j = i
    · subst he
      rw [if_pos rfl, hw, Option.elim_some, Option.elim_some, hcalls, Function.update_apply]
      by_cases hc : c' = c
      · rw [if_pos (by rw [hc]), if_pos hc]
      · rw [if_neg (by simpa using hc), if_neg hc]
    · rw [if_neg (by simp [he]), if_neg he]
  entry := hentry

lemma Simulates.new (h : Simulates s t) (hf : Flagged t) : ∃ u, Reachable WorkerTable.step t u ∧
    Simulates { s.setHandle s.nextAvailable .new with
      workerTable := Function.update s.workerTable s.nextAvailable true
      nextAvailable := s.nextAvailable + 1 } u := by
  have hcount := h.count
  have hfound := t.workers_create none t.workers.length
  rw [if_pos rfl] at hfound
  have hpc : (t.create none).pcs none = .created t.workers.length :=
    (t.setPc_pcs none none _).trans (if_pos rfl)
  have hflag := State.flag_finishNew hfound none
  rw [t.flag_create] at hflag
  have hnone : s.handles s.nextAvailable = none :=
    Option.eq_none_iff_forall_ne_some.mpr fun w hw => (h.below _ w hw).false
  refine ⟨_, (Stepped.create h.idle).reachable.trans (Stepped.finishNew hpc hfound).reachable, ?_⟩
  constructor
  · intro i
    change _ = (Function.update s.handles s.nextAvailable (some .new) i).map Handle.disposed
    rw [hflag, Function.update_apply, Function.update_apply, h.flag, hcount]
    split_ifs <;> rfl
  · change ((t.workers ++ [_]).set _ _).length = s.nextAvailable + 1
    rw [List.length_set, List.length_append, List.length_singleton, hcount]
  · intro i w hw
    change Function.update s.handles s.nextAvailable (some .new) i = some w at hw
    rw [Function.update_apply] at hw
    split_ifs at hw with hi
    · exact hi ▸ Nat.lt_succ_self _
    · exact Nat.lt_succ_of_lt (h.below i w hw)
  · exact ((t.create none).setPc_pcs none none _).trans (if_pos rfl)
  · intro i c
    have hpcs : t.pcs (some (i, c)) = _ := h.pcs i c
    change t.pcs (some (i, c)) =
      (Function.update s.handles s.nextAvailable (some .new) i).elim Pc.idle _
    rw [hpcs, Function.update_apply]
    split_ifs with hi
    · rw [hi, hnone]
      rfl
    · rfl
  · intro i
    have hlive := hf.live_create (g := none) (p := i)
    rw [hcount, ← h.entry] at hlive
    change Function.update s.workerTable s.nextAvailable true i = true ↔ _
    rw [State.live_finishNew, hlive, Function.update_apply]
    split_ifs with hi
    · exact iff_of_true rfl (.inl hi)
    · exact (or_iff_right hi).symm

lemma Simulates.dispose (h : Simulates s t) (hw : s.handles i = some w) (hc : w.calls c = .none) :
    ∃ u, Reachable WorkerTable.step t u ∧ Simulates (s.setHandle i (w.dispose c)) u := by
  have hidle : t.pcs (some (i, c)) = .idle := h.pcs_call hw hc
  have hflag := h.flag_handle hw
  have htest := (Stepped.test hidle hflag).reachable
  rw [Handle.dispose]
  cases hd : w.disposed with
  | true =>
    rw [hd] at htest hflag
    refine ⟨_, htest, h.setCall c .panicked hw rfl ?_ rfl rfl h.entry⟩
    exact (Function.update_eq_self_iff.mpr (hflag.trans (congrArg some hd.symm)).symm).symm
  | false =>
    rw [hd] at htest
    obtain ⟨v, hv⟩ := h.found hw
    have hpc : (t.setPc (some (i, c)) (.tested i)).pcs (some (i, c)) = .tested i :=
      (t.setPc_pcs _ _ _).trans (if_pos rfl)
    have hmark := Stepped.mark hpc hv
    refine ⟨_, htest.trans hmark.reachable, h.setCall c .entered hw rfl ?_ ?_ ?_ ?_⟩
    · exact State.flag_mark (s := t.setPc (some (i, c)) (.tested i)) hv _
    · exact List.length_set
    · exact Function.update_idem _ _ _
    · intro j
      rw [State.live_mark]
      exact h.entry j

lemma Simulates.deleteEntry (h : Simulates s t) (hw : s.handles i = some w)
    (hc : w.calls c = .entered) : ∃ u, Reachable WorkerTable.step t u ∧
      Simulates { s.setHandle i (w.setCall c .deleted) with
        workerTable := Function.update s.workerTable i false } u := by
  obtain ⟨v, hv⟩ := h.found hw
  have hdelete := Stepped.delete (h.pcs_call hw hc) hv
  refine ⟨_, hdelete.reachable, h.setCall c .deleted hw rfl ?_ rfl rfl ?_⟩
  · exact (Function.update_eq_self_iff.mpr (h.flag_handle hw).symm).symm
  · intro j
    rw [State.live_delete, ← h.entry, Function.update_apply]
    split_ifs with hj <;> simp [hj]

lemma Simulates.free (h : Simulates s t) (hw : s.handles i = some w)
    (hc : w.calls c = .deleted) : ∃ u, Reachable WorkerTable.step t u ∧
      Simulates (s.setHandle i { w.setCall c .returned with freed := w.freed + 1 }) u := by
  have hfree := Stepped.free (h.pcs_call hw hc)
  refine ⟨_, hfree.reachable, h.setCall c .returned hw rfl ?_ rfl rfl h.entry⟩
  exact (Function.update_eq_self_iff.mpr (h.flag_handle hw).symm).symm

/-- Dropping a reference is no step of the table's. -/
lemma Simulates.drop (h : Simulates s t) (hw : s.handles i = some w) :
    Simulates (s.setHandle i { w with dropped := true }) t := by
  refine h.setCall .program (w.calls .program) hw ?_ ?_ rfl ?_ h.entry
  · exact (Function.update_eq_self _ _).symm
  · exact (Function.update_eq_self_iff.mpr (h.flag_handle hw).symm).symm
  · exact (Function.update_eq_self_iff.mpr (h.pcs_call hw rfl).symm).symm

lemma Simulates.step {a : WorkerDispose.Action} (h : Simulates s t) (hf : Flagged t)
    (hs : WorkerDispose.step s a = some s') :
    ∃ u, Reachable WorkerTable.step t u ∧ Simulates s' u := by
  cases a with
  | new =>
    obtain rfl := Option.some.inj hs
    exact h.new hf
  | drop i =>
    obtain ⟨w, hw, rfl⟩ := Option.map_eq_some_iff.mp hs
    exact ⟨t, .refl, h.drop hw⟩
  | dispose i c =>
    obtain ⟨w, hw, hs⟩ := Option.bind_eq_some_iff.mp hs
    obtain ⟨hpc, hs⟩ := Option.ite_none_right_eq_some.mp hs
    obtain rfl := Option.some.inj hs
    exact h.dispose hw hpc.1
  | deleteEntry i c =>
    obtain ⟨w, hw, hs⟩ := Option.bind_eq_some_iff.mp hs
    obtain ⟨hpc, hs⟩ := Option.ite_none_right_eq_some.mp hs
    obtain rfl := Option.some.inj hs
    exact h.deleteEntry hw hpc
  | free i c =>
    obtain ⟨w, hw, hs⟩ := Option.bind_eq_some_iff.mp hs
    obtain ⟨hpc, hs⟩ := Option.ite_none_right_eq_some.mp hs
    obtain rfl := Option.some.inj hs
    exact h.free hw hpc

/-- Every run of `WorkerDispose` is a run on the table. -/
theorem reach_simulates (hs : Reachable WorkerDispose.step .initial s) :
    ∃ t, Reachable WorkerTable.step .initial t ∧ Simulates s t := by
  obtain ⟨t, ht, h, -⟩ := hs.simulated (R := fun s t => Simulates s t ∧ Flagged t)
    ⟨.initial, .initial⟩ fun s a s' t _ h _ hs => by
      obtain ⟨u, hu, h'⟩ := h.1.step h.2 hs
      exact ⟨u, hu, h', hu.invariant h.2 fun _ _ _ hf _ hs => (step_stepped hs).flagged hf⟩
  exact ⟨t, ht, h⟩

/-- A worker there is in `workerTable` where the table of the run has an entry for it. -/
theorem workerTable_iff (hs : Reachable WorkerDispose.step .initial s)
    (hn : s.nextAvailable < 2 ^ 31) : ∃ t, Reachable WorkerTable.step .initial t ∧ Simulates s t ∧
      ∀ i, s.workerTable i = true ↔ ∃ key, KvStore.get t.workerTable key = some i := by
  obtain ⟨t, ht, h⟩ := reach_simulates hs
  have hcount := h.count
  have hindexed := indexed_of_reachable ht (by omega)
  have hexact := Exact.of_indexed hindexed (flagged_of_reachable ht) (by omega)
  exact ⟨t, ht, h, fun i => (h.entry i).trans (hexact.entries i).symm⟩

end

end Eventing.WorkerRuns
