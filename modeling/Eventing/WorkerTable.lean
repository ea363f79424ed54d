import Mathlib.Logic.Function.Basic
import Eventing.FreshNumber
import Eventing.KvStore
import Eventing.Transition

/-!
# The table of workers

`New` (`worker.go`) enters a worker in `workerTable` under the next index, and `Dispose` deletes
the entry. Any number of goroutines call them, finalizers among them. A section with
`workerTableLock` is one step, and the rest of a call are others. Pointers are numbers in the
order of allocation. An `int` has 64 bits and a `C.int` has 32.
-/
namespace Eventing.WorkerTable
open FreshNumber KvStore Transition

/-- `workerTableIndex` is an `int`. -/
abbrev WorkerTableIndex := Int64

/-- A `worker` and the `Worker` around it. `cWorker` is the index that `C.worker_new` gets; it
and the flag are there when `New` returns. -/
structure Worker where
  tableIndex : WorkerTableIndex
  cWorker : Option Int32
  disposed : Option Bool

/-- Where a goroutine is: behind the section of `New`, behind the test of `Dispose`, behind its
assignment to `disposed`, and behind its section. -/
inductive Pc
  | idle
  | created (p : ℕ)
  | tested (p : ℕ)
  | marked (p : ℕ)
  | deleted (p : ℕ)
  | panicked
  deriving DecidableEq

/-- `disposals` are the workers whose entries `Dispose` has deleted so far. -/
structure State (γ : Type*) where
  workers : List Worker
  workerTable : Store WorkerTableIndex ℕ
  workerTableNextAvailable : WorkerTableIndex
  pcs : γ → Pc
  disposals : List ℕ

def State.initial {γ : Type*} : State γ := ⟨[], KvStore.empty, 0, fun _ => .idle, []⟩

inductive Action (γ : Type*)
  | create (g : γ)
  | finishNew (g : γ)
  | test (g : γ) (p : ℕ)
  | mark (g : γ)
  | delete (g : γ)
  | free (g : γ)

section
variable {γ : Type*} [DecidableEq γ]

/-- `w.disposed` of a `Worker`; `none` before `New` returns it. -/
def State.flag {γ : Type*} (s : State γ) (p : ℕ) : Option Bool :=
  s.workers[p]?.bind Worker.disposed

def State.setPc (s : State γ) (g : γ) (pc : Pc) : State γ :=
  { s with pcs := Function.update s.pcs g pc }

/-- The section of `New`. -/
def State.create (s : State γ) (g : γ) : State γ :=
  { s.setPc g (.created s.workers.length) with
    workers := s.workers ++ [⟨s.workerTableNextAvailable, none, none⟩]
    workerTable := set s.workerTable s.workerTableNextAvailable s.workers.length
    workerTableNextAvailable := s.workerTableNextAvailable + 1 }

/-- `C.worker_new(C.int(w.tableIndex), appName)`, and the `Worker` that is returned. -/
def State.finishNew (s : State γ) (g : γ) (p : ℕ) (w : Worker) : State γ :=
  { s.setPc g .idle with
    workers := s.workers.set p { w with
      cWorker := some w.tableIndex.toInt32
      disposed := some false } }

def State.mark (s : State γ) (g : γ) (p : ℕ) (w : Worker) : State γ :=
  { s.setPc g (.marked p) with workers := s.workers.set p { w with disposed := some true } }

/-- The section of `Dispose`. -/
def State.delete (s : State γ) (g : γ) (p : ℕ) (w : Worker) : State γ :=
  { s.setPc g (.deleted p) with
    workerTable := KvStore.delete s.workerTable w.tableIndex
    disposals := s.disposals ++ [p] }

def step (s : State γ) : Action γ → Option (State γ)
  | .create g => if s.pcs g = .idle then some (s.create g) else none
  | .finishNew g =>
      match s.pcs g with
      | .created p => s.workers[p]?.map (s.finishNew g p)
      | _ => none
  | .test g p =>
      if s.pcs g = .idle then
        (s.flag p).map fun disposed => s.setPc g (if disposed then .panicked else .tested p)
      else none
  | .mark g =>
      match s.pcs g with
      | .tested p => s.workers[p]?.map (s.mark g p)
      | _ => none
  | .delete g =>
      match s.pcs g with
      | .marked p => s.workers[p]?.map (s.delete g p)
      | _ => none
  | .free g =>
      match s.pcs g with
      | .deleted _ => some (s.setPc g .idle)
      | _ => none

end

variable {γ : Type*}

def workerTableLookup (s : State γ) (index : WorkerTableIndex) : Option ℕ := get s.workerTable index

/-- Created and not yet disposed. -/
def State.Live (s : State γ) (p : ℕ) : Prop := p < s.workers.length ∧ p ∉ s.disposals

/-- The table holds the live workers. -/
structure Exact (s : State γ) : Prop where
  key : ∀ (i : WorkerTableIndex) (p : ℕ), get s.workerTable i = some p →
    ∃ w, s.workers[p]? = some w ∧ w.tableIndex = i
  below : ∀ (i : WorkerTableIndex) (p : ℕ), get s.workerTable i = some p →
    i < s.workerTableNextAvailable
  entries : ∀ p : ℕ, (∃ i, get s.workerTable i = some p) ↔ s.Live p
  unique : ∀ (p q : ℕ) (w v : Worker), s.workers[p]? = some w → s.workers[q]? = some v →
    w.tableIndex = v.tableIndex → p = q
  lookup : ∀ (p : ℕ) (w : Worker), s.workers[p]? = some w →
    (workerTableLookup s w.tableIndex = some p ↔ s.Live p)
  lookup_none : ∀ i : WorkerTableIndex, workerTableLookup s i = none ↔
    ∀ (p : ℕ) (w : Worker), s.workers[p]? = some w → s.Live p → w.tableIndex ≠ i
  cInt : ∀ w ∈ s.workers, w.tableIndex.toInt32.toInt = w.tableIndex.toInt ∧
    ∀ c, w.cWorker = some c → c = w.tableIndex.toInt32
  /-- Every worker that is not flagged is live, and a flagged one is only while some call is at
  its section. -/
  flagged : ∀ p < s.workers.length, (s.flag p ≠ some true → s.Live p) ∧
    (s.flag p = some true → s.Live p → ∃ g, s.pcs g = .marked p)

def Pc.Knows (flag : ℕ → Option Bool) (count : ℕ) : Pc → Prop
  | .idle | .deleted _ | .panicked => True
  | .created p => p < count ∧ flag p = none
  | .tested p => flag p ≠ none
  | .marked p => flag p = some true

/-- Each flag is written by the call that has created the worker and then by its disposal. -/
structure Flagged (s : State γ) : Prop where
  knows : ∀ g, (s.pcs g).Knows s.flag s.workers.length
  one : ∀ g g' p, s.pcs g = .created p → s.pcs g' = .created p → g = g'
  disposal : ∀ p ∈ s.disposals, s.flag p = some true
  marked : ∀ p, s.flag p = some true → p ∈ s.disposals ∨ ∃ g, s.pcs g = .marked p

/-- Indices are numbers of workers. -/
structure Indexed (s : State γ) : Prop where
  next : s.workerTableNextAvailable.toInt = s.workers.length
  index : ∀ (p : ℕ) (w : Worker), s.workers[p]? = some w → w.tableIndex.toInt = p
  cInt : ∀ w ∈ s.workers, ∀ c, w.cWorker = some c → c = w.tableIndex.toInt32
  entry : ∀ (i : WorkerTableIndex) (p : ℕ), get s.workerTable i = some p ↔ i.toInt = p ∧ s.Live p

section
variable [DecidableEq γ] {s t : State γ} {a : Action γ} {g g' : γ} {pc pc' : Pc} {p : ℕ}
  {w : Worker}

inductive Stepped (s : State γ) : State γ → Prop
  | create {g : γ} (pc : s.pcs g = .idle) : Stepped s (s.create g)
  | finishNew {g : γ} {p : ℕ} {w : Worker} (pc : s.pcs g = .created p)
      (found : s.workers[p]? = some w) : Stepped s (s.finishNew g p w)
  | test {g : γ} {p : ℕ} {disposed : Bool} (pc : s.pcs g = .idle)
      (flag : s.flag p = some disposed) :
      Stepped s (s.setPc g (if disposed then .panicked else .tested p))
  | mark {g : γ} {p : ℕ} {w : Worker} (pc : s.pcs g = .tested p)
      (found : s.workers[p]? = some w) : Stepped s (s.mark g p w)
  | delete {g : γ} {p : ℕ} {w : Worker} (pc : s.pcs g = .marked p)
      (found : s.workers[p]? = some w) : Stepped s (s.delete g p w)
  | free {g : γ} {p : ℕ} (pc : s.pcs g = .deleted p) : Stepped s (s.setPc g .idle)

lemma step_stepped (h : step s a = some t) : Stepped s t := by
  cases a with
  | create g =>
    obtain ⟨hpc, h⟩ := Option.ite_none_right_eq_some.mp h
    exact Option.some.inj h ▸ .create hpc
  | finishNew g =>
    simp only [step] at h
    split at h
    · rename_i p hpc
      obtain ⟨w, hw, rfl⟩ := Option.map_eq_some_iff.mp h
      exact .finishNew hpc hw
    · contradiction
  | test g p =>
    obtain ⟨hpc, h⟩ := Option.ite_none_right_eq_some.mp h
    obtain ⟨disposed, hflag, rfl⟩ := Option.map_eq_some_iff.mp h
    exact .test hpc hflag
  | mark g =>
    simp only [step] at h
    split at h
    · rename_i p hpc
      obtain ⟨w, hw, rfl⟩ := Option.map_eq_some_iff.mp h
      exact .mark hpc hw
    · contradiction
  | delete g =>
    simp only [step] at h
    split at h
    · rename_i p hpc
      obtain ⟨w, hw, rfl⟩ := Option.map_eq_some_iff.mp h
      exact .delete hpc hw
    · contradiction
  | free g =>
    simp only [step] at h
    split at h
    · rename_i p hpc
      exact Option.some.inj h ▸ .free hpc
    · contradiction

lemma Stepped.reachable (h : Stepped s t) : Reachable step s t := by
  cases h with
  | @create g pc => exact .one (a := .create g) trivial (if_pos pc)
  | @finishNew g p w pc found => exact .one (a := .finishNew g) trivial (by simp [step, pc, found])
  | @test g p disposed pc flag =>
    exact .one (a := .test g p) trivial (by simp [step, pc, flag])
  | @mark g p w pc found => exact .one (a := .mark g) trivial (by simp [step, pc, found])
  | @delete g p w pc found => exact .one (a := .delete g) trivial (by simp [step, pc, found])
  | @free g p pc => exact .one (a := .free g) trivial (by simp [step, pc])

lemma State.setPc_pcs (s : State γ) (g g' : γ) (pc : Pc) :
    (s.setPc g pc).pcs g' = if g' = g then pc else s.pcs g' :=
  Function.update_apply _ _ _ _

lemma State.workers_create (s : State γ) (g : γ) (p : ℕ) : (s.create g).workers[p]? =
    if p = s.workers.length then some ⟨s.workerTableNextAvailable, none, none⟩
    else s.workers[p]? := by
  change (s.workers ++ [_])[p]? = _
  split_ifs with hp
  · rw [hp, List.getElem?_concat_length]
  · rw [List.getElem?_append]
    split_ifs with hlt
    · rfl
    · rw [List.getElem?_eq_none (by simp; omega), List.getElem?_eq_none (by omega)]

lemma State.flag_create (s : State γ) (g : γ) : (s.create g).flag = s.flag := by
  funext p
  rw [State.flag, s.workers_create]
  split_ifs with hp
  · rw [State.flag, hp, List.getElem?_eq_none (Nat.le_refl _)]
    rfl
  · rfl

omit [DecidableEq γ] in
lemma flag_set (hw : s.workers[p]? = some w) (v : Worker)
    (ht : t.workers = s.workers.set p v) : t.flag = Function.update s.flag p v.disposed := by
  obtain ⟨hp, -⟩ := List.getElem?_eq_some_iff.mp hw
  funext q
  rw [State.flag, ht, Function.update_apply, List.getElem?_set]
  by_cases hq : q = p
  · subst hq
    simp [hp]
  · rw [if_neg (Ne.symm hq), if_neg hq, State.flag]

lemma State.flag_finishNew (hw : s.workers[p]? = some w) (g : γ) :
    (s.finishNew g p w).flag = Function.update s.flag p (some false) :=
  flag_set hw { w with cWorker := some w.tableIndex.toInt32, disposed := some false } rfl

lemma State.flag_mark (hw : s.workers[p]? = some w) (g : γ) :
    (s.mark g p w).flag = Function.update s.flag p (some true) :=
  flag_set hw { w with disposed := some true } rfl

lemma setPc_eq (h : (s.setPc g pc).pcs g' = pc') : (g' = g ∧ pc' = pc) ∨ s.pcs g' = pc' := by
  rw [State.setPc_pcs] at h
  split_ifs at h with hg
  · exact .inl ⟨hg, h.symm⟩
  · exact .inr h

lemma setPc_of_ne (h : s.pcs g' = pc') (hpc : s.pcs g ≠ pc') : (s.setPc g pc).pcs g' = pc' := by
  have hg : g' ≠ g := by
    rintro rfl
    exact hpc h
  rw [State.setPc_pcs, if_neg hg, h]

/-- What a goroutine knows is not touched by the writes of others. -/
lemma Pc.Knows.update {flag : ℕ → Option Bool} {count : ℕ} {disposed : Bool}
    (h : pc.Knows flag count) (hcreated : pc ≠ .created p)
    (hmarked : pc = .marked p → disposed = true) :
    pc.Knows (Function.update flag p (some disposed)) count := by
  cases pc with
  | idle | deleted _ | panicked => trivial
  | created q =>
    have hne : q ≠ p := fun he => hcreated (he ▸ rfl)
    exact ⟨h.1, (Function.update_of_ne hne _ _).trans h.2⟩
  | tested q =>
    by_cases hq : q = p
    · subst hq
      simp [Knows]
    · exact fun hnone => h ((Function.update_of_ne hq _ _).symm.trans hnone)
  | marked q =>
    by_cases hq : q = p
    · subst hq
      simp [Knows, hmarked rfl]
    · exact (Function.update_of_ne hq _ _).trans h

namespace Flagged

omit [DecidableEq γ] in
lemma initial : Flagged (State.initial : State γ) where
  knows g := trivial
  one g g' p h := by contradiction
  disposal p h := by contradiction
  marked p h := by contradiction

omit [DecidableEq γ] in
lemma knows_of (h : Flagged s) (hpc : s.pcs g = pc) : pc.Knows s.flag s.workers.length :=
  hpc ▸ h.knows g

lemma one_of_setPc (h : Flagged s) (hcreated : ∀ p, pc ≠ .created p) {g₁ g₂ : γ}
    (h₁ : (s.setPc g pc).pcs g₁ = .created p) (h₂ : (s.setPc g pc).pcs g₂ = .created p) :
    g₁ = g₂ := by
  obtain ⟨-, he⟩ | hp₁ := setPc_eq h₁
  · exact (hcreated p he.symm).elim
  obtain ⟨-, he⟩ | hp₂ := setPc_eq h₂
  · exact (hcreated p he.symm).elim
  exact h.one g₁ g₂ p hp₁ hp₂

lemma setPc (h : Flagged s) (hknows : pc.Knows s.flag s.workers.length)
    (hcreated : ∀ p, pc ≠ .created p) (hmarked : ∀ p, s.pcs g = .marked p → p ∈ s.disposals) :
    Flagged (s.setPc g pc) where
  knows g' := by
    rw [State.setPc_pcs]
    split_ifs
    · exact hknows
    · exact h.knows g'
  one g₁ g₂ p h₁ h₂ := h.one_of_setPc hcreated h₁ h₂
  disposal := h.disposal
  marked p hp := by
    by_cases hg : s.pcs g = .marked p
    · exact .inl (hmarked p hg)
    · exact (h.marked p hp).imp_right fun ⟨g', hg'⟩ => ⟨g', setPc_of_ne hg' hg⟩

lemma create (h : Flagged s) (hpc : s.pcs g = .idle) : Flagged (s.create g) where
  knows g' := by
    rw [s.flag_create g]
    change ((s.setPc g (.created s.workers.length)).pcs g').Knows s.flag (s.workers ++ [_]).length
    rw [List.length_append, List.length_singleton, State.setPc_pcs]
    split_ifs
    · exact ⟨Nat.lt_succ_self _, by simp [State.flag]⟩
    · have hknows := h.knows g'
      revert hknows
      cases s.pcs g' with
      | created p => exact fun hp => ⟨Nat.lt_succ_of_lt hp.1, hp.2⟩
      | _ => exact id
  one g₁ g₂ p h₁ h₂ := by
    have hfresh (g' : γ) (h' : s.pcs g' = .created s.workers.length) : False :=
      (h.knows_of h').1.false
    obtain ⟨hg₁, he₁⟩ | hp₁ := setPc_eq h₁
    · obtain ⟨hg₂, -⟩ | hp₂ := setPc_eq h₂
      · exact hg₁.trans hg₂.symm
      · exact (hfresh g₂ (hp₂.trans he₁)).elim
    · obtain ⟨-, he₂⟩ | hp₂ := setPc_eq h₂
      · exact (hfresh g₁ (hp₁.trans he₂)).elim
      · exact h.one g₁ g₂ p hp₁ hp₂
  disposal p hp := by
    rw [s.flag_create g]
    exact h.disposal p hp
  marked p hp := by
    rw [s.flag_create g] at hp
    have hne : s.pcs g ≠ .marked p := by simp [hpc]
    exact (h.marked p hp).imp_right fun ⟨g', hg'⟩ => ⟨g', setPc_of_ne hg' hne⟩

lemma write {v : Worker} {d : Bool} (h : Flagged s) (hw : s.workers[p]? = some w)
    (hv : v.disposed = some d) (hcreated : ∀ g', s.pcs g' = .created p → g' = g)
    (htrue : s.flag p = some true → d = true) (hmarked : ∀ q, s.pcs g ≠ .marked q) :
    Flagged { s.setPc g (if d then .marked p else .idle) with workers := s.workers.set p v } := by
  have hflag := (flag_set hw v (t := { s with workers := s.workers.set p v }) rfl).trans
    (congrArg (Function.update s.flag p) hv)
  constructor
  · intro g'
    change ((s.setPc g _).pcs g').Knows (State.flag { s with workers := s.workers.set p v })
      (s.workers.set p v).length
    rw [hflag, List.length_set, State.setPc_pcs]
    split_ifs with hg hd
    · exact (Function.update_self _ _ _).trans (congrArg some hd)
    · trivial
    · apply (h.knows g').update
      · exact fun hg' => hg (hcreated g' hg')
      · exact fun hg' => htrue (h.knows_of hg')
  · exact fun g₁ g₂ q h₁ h₂ => h.one_of_setPc (by cases d <;> simp) h₁ h₂
  · intro q hq
    refine (congrFun hflag q).trans ?_
    have hq := h.disposal q hq
    rw [Function.update_apply]
    split_ifs with he
    · rw [htrue (he ▸ hq)]
    · exact hq
  · intro q hq
    have hq := (congrFun hflag q).symm.trans hq
    rw [Function.update_apply] at hq
    split_ifs at hq with he
    · obtain rfl := Option.some.inj hq
      refine .inr ⟨g, ?_⟩
      rw [he]
      exact (s.setPc_pcs g g _).trans (if_pos rfl)
    · exact (h.marked q hq).imp_right fun ⟨g', hg'⟩ => ⟨g', setPc_of_ne hg' (hmarked q)⟩

lemma finishNew (h : Flagged s) (hpc : s.pcs g = .created p) (hw : s.workers[p]? = some w) :
    Flagged (s.finishNew g p w) := by
  refine h.write (d := false) hw rfl ?_ ?_ ?_
  · exact fun g' hg' => h.one g' g p hg' hpc
  · intro hflag
    rw [(h.knows_of hpc).2] at hflag
    contradiction
  · simp [hpc]

lemma mark (h : Flagged s) (hpc : s.pcs g = .tested p) (hw : s.workers[p]? = some w) :
    Flagged (s.mark g p w) := by
  refine h.write (d := true) hw rfl ?_ (fun _ => rfl) ?_
  · exact fun g' hg' => (h.knows_of hpc (h.knows_of hg').2).elim
  · simp [hpc]

lemma delete (h : Flagged s) (hpc : s.pcs g = .marked p) : Flagged (s.delete g p w) := by
  have hdeleted : Flagged { s with
      workerTable := KvStore.delete s.workerTable w.tableIndex
      disposals := s.disposals ++ [p] } := by
    refine ⟨h.knows, h.one, ?_, ?_⟩
    · intro q hq
      rcases List.mem_append.mp hq with hq | hq
      · exact h.disposal q hq
      · exact List.mem_singleton.mp hq ▸ h.knows_of hpc
    · exact fun q hq => (h.marked q hq).imp_left (List.mem_append_left _)
  refine hdeleted.setPc trivial (fun _ => nofun) ?_
  intro q hq
  obtain rfl := Pc.marked.inj (hpc.symm.trans hq)
  exact List.mem_append_right _ (List.mem_singleton_self _)

end Flagged

lemma Stepped.flagged (hs : Stepped s t) (h : Flagged s) : Flagged t := by
  cases hs with
  | create pc => exact h.create pc
  | finishNew pc found => exact h.finishNew pc found
  | test pc flag =>
    apply h.setPc
    · split_ifs
      · trivial
      · simp [Pc.Knows, flag]
    · intro p
      split_ifs <;> simp
    · simp [pc]
  | mark pc found => exact h.mark pc found
  | delete pc found => exact h.delete pc
  | free pc => exact h.setPc trivial (fun _ => nofun) (by simp [pc])

omit [DecidableEq γ] in
lemma lt_of_flag {d : Bool} (h : s.flag p = some d) : p < s.workers.length := by
  obtain ⟨w, hw, -⟩ := Option.bind_eq_some_iff.mp h
  exact (List.getElem?_eq_some_iff.mp hw).1

omit [DecidableEq γ] in
lemma Flagged.disposal_lt (h : Flagged s) (hp : p ∈ s.disposals) : p < s.workers.length :=
  lt_of_flag (h.disposal p hp)

lemma Flagged.live_create (h : Flagged s) :
    (s.create g).Live p ↔ p = s.workers.length ∨ s.Live p := by
  change p < (s.workers ++ [_]).length ∧ p ∉ s.disposals ↔ _
  rw [List.length_append, List.length_singleton, State.Live]
  constructor
  · rintro ⟨hp, hd⟩
    exact or_iff_not_imp_left.mpr fun hne => ⟨by omega, hd⟩
  · rintro (rfl | ⟨hp, hd⟩)
    · exact ⟨Nat.lt_succ_self _, fun hd => (h.disposal_lt hd).false⟩
    · exact ⟨by omega, hd⟩

omit [DecidableEq γ] in
lemma live_iff (hcount : t.workers.length = s.workers.length) (hd : t.disposals = s.disposals) :
    t.Live p ↔ s.Live p := by
  rw [State.Live, State.Live, hcount, hd]

lemma State.live_finishNew {q : ℕ} : (s.finishNew g p w).Live q ↔ s.Live q :=
  live_iff (t := s.finishNew g p w) List.length_set rfl

lemma State.live_mark {q : ℕ} : (s.mark g p w).Live q ↔ s.Live q :=
  live_iff (t := s.mark g p w) List.length_set rfl

lemma State.live_delete {q : ℕ} : (s.delete g p w).Live q ↔ s.Live q ∧ q ≠ p := by
  change q < s.workers.length ∧ q ∉ s.disposals ++ [p] ↔ _
  rw [List.mem_append, List.mem_singleton, not_or, ← and_assoc, State.Live]

namespace Indexed

omit [DecidableEq γ] in
lemma initial : Indexed (State.initial : State γ) where
  next := rfl
  index p w h := by contradiction
  cInt w h := by contradiction
  entry i p := iff_of_false nofun fun h => absurd h.2.1 (Nat.not_lt_zero p)

lemma setPc (h : Indexed s) : Indexed (s.setPc g pc) := ⟨h.next, h.index, h.cInt, h.entry⟩

omit [DecidableEq γ] in
lemma set {v : Worker} (h : Indexed s) (hw : s.workers[p]? = some w)
    (hindex : v.tableIndex = w.tableIndex)
    (hc : ∀ c, v.cWorker = some c → c = v.tableIndex.toInt32) :
    Indexed { s with workers := s.workers.set p v } where
  next := by
    change s.workerTableNextAvailable.toInt = (s.workers.set p v).length
    rw [List.length_set, h.next]
  index q u hu := by
    change (s.workers.set p v)[q]? = some u at hu
    rw [List.getElem?_set] at hu
    split_ifs at hu with hq
    · obtain rfl := Option.some.inj hu
      rw [hindex, h.index p w hw, hq]
    · exact h.index q u hu
  cInt u hu := by
    rcases List.mem_or_eq_of_mem_set hu with hu | rfl
    · exact h.cInt u hu
    · exact hc
  entry i q := by
    rw [State.Live, List.length_set]
    exact h.entry i q

lemma create (h : Indexed s) (hf : Flagged s) (hroom : s.workers.length < 2 ^ 63 - 1) :
    Indexed (s.create g) where
  next := by
    change (s.workerTableNextAvailable + 1).toInt = (s.workers ++ [_]).length
    have hnext := h.next
    rw [toInt_add_one (by omega), hnext, List.length_append, List.length_singleton]
    rfl
  index p w hw := by
    rw [s.workers_create] at hw
    split_ifs at hw with hp
    · rw [← Option.some.inj hw, hp]
      exact h.next
    · exact h.index p w hw
  cInt w hw := by
    rcases List.mem_append.mp hw with hw | hw
    · exact h.cInt w hw
    · rw [List.mem_singleton.mp hw]
      exact fun c hc => by contradiction
  entry i p := by
    have hnext : i.toInt = s.workers.length ↔ i = s.workerTableNextAvailable := by
      rw [← h.next, Int64.toInt_inj]
    change get (KvStore.set s.workerTable s.workerTableNextAvailable s.workers.length) i = some p ↔
      _
    rw [get_set_eq_some, hf.live_create, h.entry, ne_eq, ← hnext]
    constructor
    · rintro (⟨hi, rfl⟩ | ⟨-, hi, hp⟩)
      · exact ⟨hi, .inl rfl⟩
      · exact ⟨hi, .inr hp⟩
    · rintro ⟨hi, rfl | hp⟩
      · exact .inl ⟨hi, rfl⟩
      · refine .inr ⟨fun hn => ?_, hi, hp⟩
        have hlt := hp.1
        omega

lemma delete (h : Indexed s) (hw : s.workers[p]? = some w) : Indexed (s.delete g p w) where
  next := h.next
  index := h.index
  cInt := h.cInt
  entry i q := by
    have hp := h.index p w hw
    have hne : i = w.tableIndex ↔ i.toInt = p := by rw [← hp, Int64.toInt_inj]
    change get (KvStore.delete s.workerTable w.tableIndex) i = some q ↔ _
    rw [get_delete_eq_some, State.live_delete, h.entry, ne_eq, hne]
    constructor
    · rintro ⟨hip, hiq, hq⟩
      exact ⟨hiq, hq, by omega⟩
    · rintro ⟨hiq, hq, hqp⟩
      exact ⟨by omega, hiq, hq⟩

end Indexed

lemma Stepped.length_le (hs : Stepped s t) : s.workers.length ≤ t.workers.length := by
  cases hs with
  | create => simp [State.create]
  | finishNew | mark => exact (List.length_set ..).ge
  | test | delete | free => exact Nat.le_refl _

lemma Stepped.indexed (hs : Stepped s t) (h : Indexed s) (hf : Flagged s)
    (hroom : t.workers.length < 2 ^ 31) : Indexed t := by
  have hle := hs.length_le
  cases hs with
  | create pc => exact h.create hf (by omega)
  | finishNew pc found =>
    refine (h.set found ?_ ?_).setPc
    · rfl
    · exact fun c hc => (Option.some.inj hc).symm
  | test pc flag => exact h.setPc
  | mark pc found =>
    refine (h.set found ?_ ?_).setPc
    · rfl
    · exact fun c hc => h.cInt _ (List.mem_of_getElem? found) c hc
  | delete pc found => exact h.delete found
  | free pc => exact h.setPc

lemma flagged_of_reachable (hs : Reachable step .initial s) : Flagged s :=
  hs.invariant .initial fun _ _ _ h _ hs => (step_stepped hs).flagged h

lemma indexed_of_reachable (hs : Reachable step .initial s) (hroom : s.workers.length < 2 ^ 31) :
    Indexed s := by
  have h : Flagged s ∧ (s.workers.length < 2 ^ 31 → Indexed s) := by
    refine hs.invariant (I := fun s => Flagged s ∧ (s.workers.length < 2 ^ 31 → Indexed s))
      ⟨.initial, fun _ => .initial⟩ ?_
    intro s a t h _ hs
    have hstep := step_stepped hs
    have hle := hstep.length_le
    exact ⟨hstep.flagged h.1, fun hroom => hstep.indexed (h.2 (by omega)) h.1 hroom⟩
  exact h.2 hroom

omit [DecidableEq γ] in
lemma Indexed.toInt_toInt32 (h : Indexed s) (hroom : s.workers.length < 2 ^ 31)
    (hw : s.workers[p]? = some w) : w.tableIndex.toInt32.toInt = w.tableIndex.toInt := by
  have hp := (List.getElem?_eq_some_iff.mp hw).1
  rw [Int64.toInt_toInt32, h.index p w hw]
  exact Int.bmod_eq_of_le (by omega) (by omega)

omit [DecidableEq γ] in
/-- The entry of a worker is under its index. -/
lemma Indexed.entry_iff (h : Indexed s) (hw : s.workers[p]? = some w) (i : WorkerTableIndex) :
    get s.workerTable i = some p ↔ w.tableIndex = i ∧ s.Live p := by
  rw [h.entry, ← h.index p w hw, Int64.toInt_inj, eq_comm]

omit [DecidableEq γ] in
lemma State.Live.found (h : s.Live p) : ∃ w, s.workers[p]? = some w :=
  ⟨_, List.getElem?_eq_getElem h.1⟩

omit [DecidableEq γ] in
lemma Exact.of_indexed (h : Indexed s) (hf : Flagged s) (hroom : s.workers.length < 2 ^ 31) :
    Exact s where
  key i p hp := by
    obtain ⟨w, hw⟩ := ((h.entry i p).mp hp).2.found
    exact ⟨w, hw, ((h.entry_iff hw i).mp hp).1⟩
  below i p hp := by
    obtain ⟨hi, hlive⟩ := (h.entry i p).mp hp
    have hlt := hlive.1
    have hnext := h.next
    rw [Int64.lt_iff_toInt_lt]
    omega
  entries p := by
    constructor
    · rintro ⟨i, hi⟩
      exact ((h.entry i p).mp hi).2
    · intro hlive
      obtain ⟨w, hw⟩ := hlive.found
      exact ⟨w.tableIndex, (h.entry_iff hw _).mpr ⟨rfl, hlive⟩⟩
  unique p q w v hw hv he := by
    have hp := h.index p w hw
    have hq := h.index q v hv
    rw [he] at hp
    omega
  lookup p w hw := by
    rw [workerTableLookup, h.entry_iff hw]
    exact and_iff_right rfl
  lookup_none i := by
    rw [workerTableLookup, Option.eq_none_iff_forall_ne_some]
    constructor
    · intro hnone p w hw hlive hi
      exact hnone p ((h.entry_iff hw i).mpr ⟨hi, hlive⟩)
    · intro hne p hp
      obtain ⟨w, hw⟩ := ((h.entry i p).mp hp).2.found
      obtain ⟨hi, hlive⟩ := (h.entry_iff hw i).mp hp
      exact hne p w hw hlive hi
  cInt w hw := by
    obtain ⟨p, hp⟩ := List.mem_iff_getElem?.mp hw
    exact ⟨h.toInt_toInt32 hroom hp, h.cInt w hw⟩
  flagged p hp := by
    constructor
    · exact fun hflag => ⟨hp, fun hd => hflag (hf.disposal p hd)⟩
    · exact fun hflag hlive => (hf.marked p hflag).resolve_left hlive.2

/-- In every run of calls of `New` and `Dispose`, with fewer than `2 ^ 31` workers, the table
holds the workers that are live, each under the index that no other worker has ever got. -/
theorem table_exact (hs : Reachable step .initial s) (hn : s.workers.length < 2 ^ 31) : Exact s :=
  .of_indexed (indexed_of_reachable hs hn) (flagged_of_reachable hs) hn

end

/-- One of two workers is disposed of while the other one is made. -/
theorem table_exact_twoWorkers : ∃ s : State Bool, Exact s ∧
    workerTableLookup s 0 = none ∧ workerTableLookup s 1 = some 1 := by
  obtain ⟨s, -, hs, hlookup⟩ := exec_of_any (step (γ := Bool)) (fun _ _ => True) .initial
    [.create false, .finishNew false, .test false 0, .create true, .mark false, .delete false,
      .finishNew true, .free false]
    (fun s => decide (s.workers.length = 2 ∧ workerTableLookup s 0 = none ∧
      workerTableLookup s 1 = some 1)) (by decide)
  obtain ⟨hlength, hlookup⟩ := of_decide_eq_true hlookup
  exact ⟨s, table_exact hs (by omega), hlookup⟩

end Eventing.WorkerTable
