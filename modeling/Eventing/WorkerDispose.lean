import Mathlib.Logic.Function.Basic
import Eventing.Transition

/-!
# Disposing of workers

`New` (`worker.go`) enters a worker in `workerTable` and registers a finalizer that calls
`Dispose`, which panics when the worker is already disposed. The program may call it, too. The
C worker is freed at the end of `Dispose`.
-/
namespace Eventing.WorkerDispose
open Transition

inductive Caller
  | program
  | finalizer
  deriving DecidableEq

/-- A call of `Dispose`: before it, behind the test of `disposed`, behind the section with
`workerTable`, and at its end. -/
inductive Call
  | none
  | entered
  | deleted
  | returned
  | panicked
  deriving DecidableEq

/-- A `Worker`, with its calls of `Dispose`. `freed` is the number of calls of
`C.worker_dispose` with its C worker. -/
structure Handle where
  disposed : Bool
  dropped : Bool
  calls : Caller → Call
  freed : ℕ

/-- Workers are numbered by their table index. -/
structure State where
  handles : ℕ → Option Handle
  workerTable : ℕ → Bool
  nextAvailable : ℕ

def State.initial : State := ⟨fun _ => none, fun _ => false, 0⟩

/-- The program creates workers, drops its references to them and calls `Dispose`, once for
each worker; the collector runs finalizers. -/
inductive Action
  | new
  | drop (i : ℕ)
  | dispose (i : ℕ) (c : Caller)
  | deleteEntry (i : ℕ) (c : Caller)
  | free (i : ℕ) (c : Caller)

def Handle.new : Handle := ⟨false, false, fun _ => .none, 0⟩

def Handle.setCall (w : Handle) (c : Caller) (call : Call) : Handle :=
  { w with calls := Function.update w.calls c call }

def State.setHandle (s : State) (i : ℕ) (w : Handle) : State :=
  { s with handles := Function.update s.handles i (some w) }

def Handle.dispose (w : Handle) (c : Caller) : Handle :=
  if w.disposed then w.setCall c .panicked
  else { w.setCall c .entered with disposed := true }

def step (s : State) : Action → Option State
  | .new => some { s.setHandle s.nextAvailable .new with
      workerTable := Function.update s.workerTable s.nextAvailable true
      nextAvailable := s.nextAvailable + 1 }
  | .drop i => (s.handles i).map fun w => s.setHandle i { w with dropped := true }
  | .dispose i c => do
      let w ← s.handles i
      -- A finalizer runs when the program has no reference left.
      if w.calls c = .none ∧ (c = .finalizer → w.dropped) then some (s.setHandle i (w.dispose c))
      else none
  | .deleteEntry i c => do
      let w ← s.handles i
      if w.calls c = .entered then some { s.setHandle i (w.setCall c .deleted) with
        workerTable := Function.update s.workerTable i false }
      else none
  | .free i c => do
      let w ← s.handles i
      if w.calls c = .deleted then
        some (s.setHandle i { w.setCall c .returned with freed := w.freed + 1 })
      else none

/-- No call has found a disposed worker, and no C worker is freed twice. -/
def Sound (s : State) : Prop :=
  ∀ i w, s.handles i = some w → (∀ c, w.calls c ≠ .panicked) ∧ w.freed ≤ 1

def Called (s : State) (i : ℕ) (c : Caller) : Prop :=
  ∃ w, s.handles i = some w ∧ w.calls c ≠ .none

def Call.Passed (c : Call) : Prop := c = .entered ∨ c = .deleted ∨ c = .returned

/-- At most one call has passed the test, and it frees the C worker at its end. -/
structure Handle.Guarded (w : Handle) : Prop where
  untouched : w.disposed = false → ∀ c, w.calls c = .none
  one : ∀ c c', (w.calls c).Passed → (w.calls c').Passed → c = c'
  freed_le : w.freed ≤ 1
  freed_eq : (∀ c, w.calls c ≠ .returned) → w.freed = 0

/-- The flag is set by a call, and of two calls one has panicked. -/
structure Handle.Counted (w : Handle) : Prop where
  called : w.disposed = true → ∃ c, w.calls c ≠ .none
  panicked_iff : (∃ c, w.calls c = .panicked) ↔ ∀ c, w.calls c ≠ .none

section
variable {w : Handle} {c : Caller} {s t : State} {a : Action} {i : ℕ}

lemma Handle.setCall_calls (w : Handle) (c c' : Caller) (call : Call) :
    (w.setCall c call).calls c' = if c' = c then call else w.calls c' :=
  Function.update_apply _ _ _ _

lemma Handle.setCall_self (w : Handle) (c : Caller) (call : Call) :
    (w.setCall c call).calls c = call := by
  rw [Handle.setCall_calls, if_pos rfl]

namespace Handle.Guarded

lemma new : Handle.new.Guarded where
  untouched _ _ := rfl
  one _ _ h _ := by rcases h with h | h | h <;> contradiction
  freed_le := Nat.zero_le 1
  freed_eq _ := rfl

lemma disposed_ne {call : Call} (h : w.Guarded) (hc : w.calls c = call) (hne : call ≠ .none) :
    w.disposed ≠ false :=
  fun hd => hne (hc.symm.trans (h.untouched hd c))

lemma freed_eq_of_setCall (h : w.Guarded) (hc : w.calls c ≠ .returned) {call : Call}
    (hr : ∀ c', (w.setCall c call).calls c' ≠ .returned) : w.freed = 0 := by
  apply h.freed_eq
  intro c' hc'
  have hne : c' ≠ c := by
    rintro rfl
    exact hc hc'
  apply hr c'
  rw [setCall_calls, if_neg hne, hc']

lemma setCall_panicked (h : w.Guarded) (hd : w.disposed = true) (hc : w.calls c = .none) :
    (w.setCall c .panicked).Guarded where
  untouched hd' := absurd (hd.symm.trans hd') (by decide)
  one c₁ c₂ h₁ h₂ := by
    rw [setCall_calls] at h₁ h₂
    split_ifs at h₁ h₂ with e₁ e₂ e₂
    · exact e₁.trans e₂.symm
    · rcases h₁ with h₁ | h₁ | h₁ <;> contradiction
    · rcases h₂ with h₂ | h₂ | h₂ <;> contradiction
    · exact h.one c₁ c₂ h₁ h₂
  freed_le := h.freed_le
  freed_eq hr := h.freed_eq_of_setCall (by simp [hc]) hr

lemma dispose (h : w.Guarded) (hc : w.calls c = .none) : (w.dispose c).Guarded := by
  rw [Handle.dispose]
  split_ifs with hd
  · exact h.setCall_panicked hd hc
  · have hnone := h.untouched (by simpa using hd)
    have hfreed : w.freed = 0 := h.freed_eq fun c' hc' => by simp [hnone c'] at hc'
    constructor
    · intro hd'
      contradiction
    · intro c₁ c₂ h₁ h₂
      change ((w.setCall c .entered).calls c₁).Passed at h₁
      change ((w.setCall c .entered).calls c₂).Passed at h₂
      rw [setCall_calls, hnone] at h₁ h₂
      split_ifs at h₁ h₂ with e₁ e₂ e₂
      · exact e₁.trans e₂.symm
      · rcases h₂ with h₂ | h₂ | h₂ <;> contradiction
      · rcases h₁ with h₁ | h₁ | h₁ <;> contradiction
      · rcases h₁ with h₁ | h₁ | h₁ <;> contradiction
    · exact h.freed_le
    · exact fun _ => hfreed

lemma passed_setCall {call : Call} {c' : Caller} (hc : (w.calls c).Passed)
    (h : ((w.setCall c call).calls c').Passed) : (w.calls c').Passed := by
  rw [setCall_calls] at h
  split_ifs at h with he
  · exact he ▸ hc
  · exact h

lemma deleteEntry (h : w.Guarded) (hc : w.calls c = .entered) : (w.setCall c .deleted).Guarded where
  untouched hd := absurd hd (h.disposed_ne hc (by decide))
  one c₁ c₂ h₁ h₂ :=
    h.one c₁ c₂ (passed_setCall (.inl hc) h₁) (passed_setCall (.inl hc) h₂)
  freed_le := h.freed_le
  freed_eq hr := h.freed_eq_of_setCall (by simp [hc]) hr

/-- The C worker is freed by the one call that has passed the test, before which nobody
did. -/
lemma free (h : w.Guarded) (hc : w.calls c = .deleted) :
    Guarded { w.setCall c .returned with freed := w.freed + 1 } := by
  have hpassed : (w.calls c).Passed := .inr (.inl hc)
  have hfreed : w.freed = 0 := by
    apply h.freed_eq
    intro c' hc'
    obtain rfl := h.one c c' hpassed (.inr (.inr hc'))
    rw [hc] at hc'
    contradiction
  constructor
  · exact fun hd => absurd hd (h.disposed_ne hc (by decide))
  · exact fun c₁ c₂ h₁ h₂ => h.one c₁ c₂ (passed_setCall hpassed h₁) (passed_setCall hpassed h₂)
  · change w.freed + 1 ≤ 1
    omega
  · intro hr
    exact (hr c (w.setCall_self c .returned)).elim

end Handle.Guarded

namespace Handle.Counted

lemma new : Handle.new.Counted where
  called h := nomatch h
  panicked_iff := iff_of_false (fun ⟨_, h⟩ => nomatch h) fun h => h .program rfl

lemma setCall {call : Call} (h : w.Counted) (hc : w.calls c ≠ .none) (hp : w.calls c ≠ .panicked)
    (hnone : call ≠ .none) (hpanicked : call ≠ .panicked) : (w.setCall c call).Counted where
  called _ := ⟨c, by rwa [w.setCall_self]⟩
  panicked_iff := by
    have hleft : (∃ c', (w.setCall c call).calls c' = .panicked) ↔
        ∃ c', w.calls c' = .panicked := by
      refine exists_congr fun c' => ?_
      rw [setCall_calls]
      split_ifs with he
      · exact iff_of_false hpanicked (he ▸ hp)
      · exact Iff.rfl
    have hright : (∀ c', (w.setCall c call).calls c' ≠ .none) ↔ ∀ c', w.calls c' ≠ .none := by
      refine forall_congr' fun c' => ?_
      rw [setCall_calls]
      split_ifs with he
      · exact iff_of_true hnone (he ▸ hc)
      · exact Iff.rfl
    rw [hleft, hright]
    exact h.panicked_iff

/-- The second call finds the flag that the first one has set. -/
lemma dispose (h : w.Counted) (hg : w.Guarded) (hc : w.calls c = .none) :
    (w.dispose c).Counted := by
  rw [Handle.dispose]
  split_ifs with hd
  · obtain ⟨c', hc'⟩ := h.called hd
    refine ⟨fun _ => ⟨c, by simp [w.setCall_self]⟩, iff_of_true ⟨c, w.setCall_self c _⟩ ?_⟩
    intro c₁
    rw [setCall_calls]
    split_ifs with he
    · decide
    · have hother : c₁ = c' := by
        cases c <;> cases c₁ <;> cases c' <;> simp_all
      exact hother ▸ hc'
  · have hnone := hg.untouched (by simpa using hd)
    refine ⟨fun _ => ⟨c, ?_⟩, iff_of_false ?_ ?_⟩
    · change (w.setCall c .entered).calls c ≠ .none
      simp [w.setCall_self]
    · rintro ⟨c', hc'⟩
      change (w.setCall c .entered).calls c' = .panicked at hc'
      rw [setCall_calls, hnone] at hc'
      split_ifs at hc'
    · intro hall
      cases c with
      | program => exact hall .finalizer (hnone .finalizer)
      | finalizer => exact hall .program (hnone .program)

end Handle.Counted

/-- The handle that an action writes. -/
inductive Written (s : State) : Action → ℕ → Handle → Prop
  | new : Written s .new s.nextAvailable .new
  | drop {i : ℕ} {w : Handle} (found : s.handles i = some w) :
      Written s (.drop i) i { w with dropped := true }
  | dispose {i : ℕ} {c : Caller} {w : Handle} (found : s.handles i = some w)
      (pc : w.calls c = .none) : Written s (.dispose i c) i (w.dispose c)
  | deleteEntry {i : ℕ} {c : Caller} {w : Handle} (found : s.handles i = some w)
      (pc : w.calls c = .entered) : Written s (.deleteEntry i c) i (w.setCall c .deleted)
  | free {i : ℕ} {c : Caller} {w : Handle} (found : s.handles i = some w)
      (pc : w.calls c = .deleted) :
      Written s (.free i c) i { w.setCall c .returned with freed := w.freed + 1 }

lemma step_written (h : step s a = some t) :
    ∃ i w, Written s a i w ∧ t.handles = Function.update s.handles i (some w) ∧
      s.nextAvailable ≤ t.nextAvailable ∧ (a = .new → s.nextAvailable < t.nextAvailable) := by
  cases a with
  | new =>
    obtain rfl := Option.some.inj h
    exact ⟨_, _, .new, rfl, Nat.le_succ _, fun _ => Nat.lt_succ_self _⟩
  | drop i =>
    obtain ⟨w, hw, rfl⟩ := Option.map_eq_some_iff.mp h
    exact ⟨_, _, .drop hw, rfl, Nat.le_refl _, nofun⟩
  | dispose i c =>
    obtain ⟨w, hw, h⟩ := Option.bind_eq_some_iff.mp h
    obtain ⟨hpc, h⟩ := Option.ite_none_right_eq_some.mp h
    obtain rfl := Option.some.inj h
    exact ⟨_, _, .dispose hw hpc.1, rfl, Nat.le_refl _, nofun⟩
  | deleteEntry i c =>
    obtain ⟨w, hw, h⟩ := Option.bind_eq_some_iff.mp h
    obtain ⟨hpc, h⟩ := Option.ite_none_right_eq_some.mp h
    obtain rfl := Option.some.inj h
    exact ⟨_, _, .deleteEntry hw hpc, rfl, Nat.le_refl _, nofun⟩
  | free i c =>
    obtain ⟨w, hw, h⟩ := Option.bind_eq_some_iff.mp h
    obtain ⟨hpc, h⟩ := Option.ite_none_right_eq_some.mp h
    obtain rfl := Option.some.inj h
    exact ⟨_, _, .free hw hpc, rfl, Nat.le_refl _, nofun⟩

/-- What holds of every worker, and that new workers get new numbers. -/
structure Valid (s : State) : Prop where
  guarded : ∀ i w, s.handles i = some w → w.Guarded
  counted : ∀ i w, s.handles i = some w → w.Counted
  fresh : ∀ i, s.nextAvailable ≤ i → s.handles i = none

lemma Valid.initial : Valid .initial where
  guarded i w h := by contradiction
  counted i w h := by contradiction
  fresh i h := rfl

lemma Written.guarded (hw : Written s a i w) (h : Valid s) : w.Guarded := by
  cases hw with
  | new => exact .new
  | drop found =>
    have hg := h.guarded _ _ found
    exact ⟨hg.untouched, hg.one, hg.freed_le, hg.freed_eq⟩
  | dispose found pc => exact (h.guarded _ _ found).dispose pc
  | deleteEntry found pc => exact (h.guarded _ _ found).deleteEntry pc
  | free found pc => exact (h.guarded _ _ found).free pc

lemma Written.counted (hw : Written s a i w) (h : Valid s) : w.Counted := by
  cases hw with
  | new => exact .new
  | drop found =>
    have hc := h.counted _ _ found
    exact ⟨hc.called, hc.panicked_iff⟩
  | dispose found pc => exact (h.counted _ _ found).dispose (h.guarded _ _ found) pc
  | deleteEntry found pc =>
    exact (h.counted _ _ found).setCall (by simp [pc]) (by simp [pc]) nofun nofun
  | @free i c w found pc =>
    have hc : (w.setCall c .returned).Counted :=
      (h.counted _ _ found).setCall (by simp [pc]) (by simp [pc]) nofun nofun
    exact ⟨hc.called, hc.panicked_iff⟩

lemma Valid.lt (h : Valid s) (hw : s.handles i = some w) : i < s.nextAvailable := by
  by_contra hle
  rw [h.fresh i (Nat.le_of_not_lt hle)] at hw
  contradiction

lemma Written.lt (hw : Written s a i w) (h : Valid s) (hle : s.nextAvailable ≤ t.nextAvailable)
    (hnew : a = .new → s.nextAvailable < t.nextAvailable) : i < t.nextAvailable := by
  cases hw with
  | new => exact hnew rfl
  | drop found | dispose found | deleteEntry found | free found =>
    exact Nat.lt_of_lt_of_le (h.lt found) hle

lemma forall_update {p : Handle → Prop} (h : ∀ i w, s.handles i = some w → p w) (hp : p w)
    (ht : t.handles = Function.update s.handles i (some w)) :
    ∀ j v, t.handles j = some v → p v := by
  intro j v hj
  rw [ht, Function.update_apply] at hj
  split_ifs at hj with he
  · exact Option.some.inj hj ▸ hp
  · exact h j v hj

lemma Valid.step (h : Valid s) (hs : step s a = some t) : Valid t := by
  obtain ⟨i, w, hw, ht, hle, hnew⟩ := step_written hs
  constructor
  · exact forall_update h.guarded (hw.guarded h) ht
  · exact forall_update h.counted (hw.counted h) ht
  · intro j hj
    have hlt := hw.lt h hle hnew
    rw [ht, Function.update_of_ne (by omega)]
    exact h.fresh j (Nat.le_trans hle hj)

/-- In every run, no C worker is freed twice. -/
theorem freed_le_one (hs : Reachable WorkerDispose.step .initial s) (hw : s.handles i = some w) :
    w.freed ≤ 1 := by
  have h : Valid s := hs.invariant .initial fun s a t h _ hs => h.step hs
  exact (h.guarded i w hw).freed_le

/-- Of the two calls with a worker, only both together let one panic. -/
lemma Valid.sound_iff (h : Valid s) : Sound s ↔ ∀ i, ∃ c, ¬ Called s i c := by
  have hhandle : ∀ i w, s.handles i = some w →
      ((∀ c, w.calls c ≠ .panicked) ↔ ∃ c, w.calls c = .none) := by
    intro i w hw
    have hcounted := (h.counted i w hw).panicked_iff
    rw [← not_exists, hcounted, not_forall]
    simp only [ne_eq, not_not]
  constructor
  · intro hsound i
    cases hw : s.handles i with
    | none => exact ⟨.program, fun ⟨w, hi, _⟩ => by simp [hw] at hi⟩
    | some w =>
      obtain ⟨c, hc⟩ := (hhandle i w hw).mp (hsound i w hw).1
      refine ⟨c, fun ⟨v, hv, hne⟩ => hne ?_⟩
      exact Option.some.inj (hw.symm.trans hv) ▸ hc
  · intro hone i w hw
    obtain ⟨c, hc⟩ := hone i
    refine ⟨(hhandle i w hw).mpr ⟨c, ?_⟩, (h.guarded i w hw).freed_le⟩
    by_contra hne
    exact hc ⟨w, hw, hne⟩

lemma Written.calls_ne_none_iff (hw : Written s a i w) (h : Valid s) (c : Caller) :
    w.calls c ≠ .none ↔ Called s i c ∨ a = .dispose i c := by
  have hfound : ∀ v, s.handles i = some v → (Called s i c ↔ v.calls c ≠ .none) :=
    fun v hv => ⟨fun ⟨u, hu, hc⟩ => Option.some.inj (hu.symm.trans hv) ▸ hc, fun hc => ⟨v, hv, hc⟩⟩
  cases hw with
  | new =>
    refine iff_of_false (fun hne => hne rfl) ?_
    rintro (⟨v, hv, -⟩ | he)
    · rw [h.fresh _ (Nat.le_refl _)] at hv
      contradiction
    · contradiction
  | drop found => simp [hfound _ found]
  | @dispose i c' w found pc =>
    have hcalls : (w.dispose c').calls c ≠ .none ↔ w.calls c ≠ .none ∨ c' = c := by
      rw [Handle.dispose]
      split_ifs
      · rw [Handle.setCall_calls]
        split_ifs with he <;> simp [he, eq_comm]
      · change (w.setCall c' .entered).calls c ≠ .none ↔ _
        rw [Handle.setCall_calls]
        split_ifs with he <;> simp [he, eq_comm]
    rw [hcalls, hfound w found]
    simp
  | @deleteEntry i c' w found pc =>
    rw [hfound w found, Handle.setCall_calls]
    split_ifs with he <;> simp [he, pc]
  | @free i c' w found pc =>
    rw [hfound w found]
    change (w.setCall c' .returned).calls c ≠ .none ↔ _
    rw [Handle.setCall_calls]
    split_ifs with he <;> simp [he, pc]

lemma Valid.called_step (h : Valid s) (hs : WorkerDispose.step s a = some t) (i : ℕ) (c : Caller) :
    Called t i c ↔ Called s i c ∨ a = .dispose i c := by
  obtain ⟨j, w, hw, ht, -⟩ := step_written hs
  by_cases he : i = j
  · subst he
    rw [← hw.calls_ne_none_iff h]
    simp [Called, ht]
  · have hne : a ≠ .dispose i c := by
      rintro rfl
      cases hw
      exact he rfl
    simp [Called, ht, Function.update_of_ne he, hne]

lemma Valid.called_exec {actions : List Action} (h : Valid s)
    (hexec : exec WorkerDispose.step (fun _ _ => True) s actions = some t) (i : ℕ) (c : Caller) :
    Called t i c ↔ Called s i c ∨ .dispose i c ∈ actions := by
  induction actions generalizing s with
  | nil =>
    obtain rfl := Option.some.inj hexec
    simp
  | cons a as ih =>
    simp only [exec, if_true] at hexec
    obtain ⟨u, hu, hr⟩ := Option.bind_eq_some_iff.mp hexec
    rw [ih (h.step hu) hr, h.called_step hu, List.mem_cons, or_assoc, eq_comm]

/-- In every run of the program and the collector, no call panics and no C worker is freed
twice exactly when for no worker both the program and the finalizer call `Dispose`. -/
theorem sound_iff_disposedOnce {actions : List Action}
    (h : exec step (fun _ _ => True) .initial actions = some t) :
    Along step (fun _ _ t => Sound t) .initial actions ↔
      ∀ i, ∃ c, .dispose i c ∉ actions := by
  have hend : Along step (fun _ _ t => Sound t) .initial actions ↔ Sound t := by
    refine along_iff_last (I := Valid) .initial (fun s a t h hs => h.step hs) ?_ ?_ h
    · intro s a t hv hs hsound
      rw [(hv.step hs).sound_iff] at hsound
      rw [hv.sound_iff]
      intro i
      obtain ⟨c, hc⟩ := hsound i
      exact ⟨c, fun hcalled => hc ((hv.called_step hs i c).mpr (.inl hcalled))⟩
    · intro i w hw
      contradiction
  have hvalid : Valid t :=
    (exec_reach h).invariant .initial fun s a t hv _ hs => hv.step hs
  rw [hend, hvalid.sound_iff]
  refine forall_congr' fun i => exists_congr fun c => not_congr ?_
  rw [Valid.initial.called_exec h]
  exact or_iff_right fun ⟨w, hw, _⟩ => nomatch hw

/-- One worker disposed of by the program and kept, and one left to its finalizer. -/
theorem sound_oneEach : Along step (fun _ _ t => Sound t) .initial
    [.new, .new, .dispose 0 .program, .drop 1, .dispose 1 .finalizer, .deleteEntry 0 .program,
      .deleteEntry 1 .finalizer, .free 1 .finalizer, .free 0 .program] := by
  refine (sound_iff_disposedOnce rfl).mpr fun i => ?_
  by_cases hi : i = 0
  · exact ⟨.finalizer, by simp [hi]⟩
  · exact ⟨.program, by simp [hi]⟩

end

/-- The program disposes of a worker and drops it, and then its finalizer runs. -/
theorem finalizer_after_dispose : ¬ Along step (fun _ _ t => Sound t) .initial
    [.new, .dispose 0 .program, .deleteEntry 0 .program, .free 0 .program, .drop 0,
      .dispose 0 .finalizer] := by
  intro h
  have h₁ := (h _ rfl).2
  have h₂ := (h₁ _ rfl).2
  have h₃ := (h₂ _ rfl).2
  have h₄ := (h₃ _ rfl).2
  have h₅ := (h₄ _ rfl).2
  have hsound := (h₅ _ rfl).1
  exact (hsound 0 _ rfl).1 .finalizer rfl

end Eventing.WorkerDispose
