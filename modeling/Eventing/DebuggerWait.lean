import Eventing.CondVar
import Eventing.Debugger

/-!
# The wait of a request to the debugger

The requests of `Debugger` wait in one step. Here `cv.wait(lk, ..)` (`worker.cc`) is what it is
made of: the test of `data_ready` with `debug_cv_m` held, the sleep without it, and a test again
for whoever is woken. Those that set `data_ready` call `cv.notify_all` in a step of their own, and
take no lock for either.
-/
namespace Eventing.DebuggerWait
open CondVar Transition
open Debugger (Counted Json Kind OwnResponses Request ReturnsOwn Timely handle ownResponses_iff)

variable {ω ι : Type*}

structure State (ω ι : Type*) where
  base : Debugger.State ω ι
  waiters : Waiters ι

def State.initial : State ω ι := ⟨.initial, .initial⟩

/-- `call` is any step outside of the wait. -/
inductive Action (ω ι : Type*)
  | call (a : Debugger.Action ω ι)
  | test (i : ι)
  | sleep (i : ι)
  | notifyAll
  | wakeSpuriously (i : ι)

section
variable [DecidableEq ω] [DecidableEq ι]

def sets (json : Json) (s : Debugger.State ω ι) : Debugger.Action ω ι → Bool
  | .message v text => (s.handler v).any fun k => (handle json k text).ready
  | .finish _ => true
  | _ => false

def stepCall (json : Json) (s : State ω ι) : Debugger.Action ω ι → Option (State ω ι)
  | .wait _ | .wake _ => none
  | a => (Debugger.step json s.base a).map fun base =>
      ⟨base, if sets json s.base a then s.waiters.announce else s.waiters⟩

def step (json : Json) (s : State ω ι) : Action ω ι → Option (State ω ι)
  | .call a => stepCall json s a
  | .test i =>
      match s.base.request i, s.waiters.phase i with
      | .sent w k sentAt, .out =>
          if s.base.dataReady then some { s with base := s.base.setRequest i (.ready w k sentAt) }
          else some { s with waiters := s.waiters.set i .tested }
      | .waiting w k sentAt, .woken =>
          -- The lock is taken again for the test, and kept.
          if s.base.locked then none
          else if s.base.dataReady then some {
            base := { s.base.setRequest i (.ready w k sentAt) with locked := true }
            waiters := s.waiters.set i .out }
          else some {
            base := { s.base.setRequest i (.sent w k sentAt) with locked := true }
            waiters := s.waiters.set i .tested }
      | _, _ => none
  | .sleep i =>
      match s.base.request i, s.waiters.phase i with
      | .sent w k sentAt, .tested => some {
          base := { s.base.setRequest i (.waiting w k sentAt) with locked := false }
          waiters := s.waiters.set i .asleep }
      | _, _ => none
  | .notifyAll => s.waiters.notifyAll.map fun w => { s with waiters := w }
  | .wakeSpuriously i =>
      if s.waiters.phase i = .asleep then some { s with waiters := s.waiters.set i .woken } else none

inductive Stepped (json : Json) (s : State ω ι) : Action ω ι → State ω ι → Prop
  | call {a : Debugger.Action ω ι} {base : Debugger.State ω ι} (wait : ∀ i, a ≠ .wait i)
      (wake : ∀ i, a ≠ .wake i) (taken : Debugger.step json s.base a = some base) :
      Stepped json s (.call a) ⟨base, if sets json s.base a then s.waiters.announce else s.waiters⟩
  | passed {i : ι} {w : ω} {k : Kind} {sentAt : ℕ} (pc : s.base.request i = .sent w k sentAt)
      (phase : s.waiters.phase i = .out) (ready : s.base.dataReady = true) :
      Stepped json s (.test i) { s with base := s.base.setRequest i (.ready w k sentAt) }
  | failed {i : ι} {w : ω} {k : Kind} {sentAt : ℕ} (pc : s.base.request i = .sent w k sentAt)
      (phase : s.waiters.phase i = .out) (ready : s.base.dataReady = false) :
      Stepped json s (.test i) { s with waiters := s.waiters.set i .tested }
  | wokenPassed {i : ι} {w : ω} {k : Kind} {sentAt : ℕ}
      (pc : s.base.request i = .waiting w k sentAt) (phase : s.waiters.phase i = .woken)
      (free : s.base.locked = false) (ready : s.base.dataReady = true) :
      Stepped json s (.test i) {
        base := { s.base.setRequest i (.ready w k sentAt) with locked := true }
        waiters := s.waiters.set i .out }
  | wokenFailed {i : ι} {w : ω} {k : Kind} {sentAt : ℕ}
      (pc : s.base.request i = .waiting w k sentAt) (phase : s.waiters.phase i = .woken)
      (free : s.base.locked = false) (ready : s.base.dataReady = false) :
      Stepped json s (.test i) {
        base := { s.base.setRequest i (.sent w k sentAt) with locked := true }
        waiters := s.waiters.set i .tested }
  | sleep {i : ι} {w : ω} {k : Kind} {sentAt : ℕ} (pc : s.base.request i = .sent w k sentAt)
      (phase : s.waiters.phase i = .tested) :
      Stepped json s (.sleep i) {
        base := { s.base.setRequest i (.waiting w k sentAt) with locked := false }
        waiters := s.waiters.set i .asleep }
  | notifyAll {w : Waiters ι} (notified : s.waiters.notifyAll = some w) :
      Stepped json s .notifyAll { s with waiters := w }
  | wakeSpuriously {i : ι} (phase : s.waiters.phase i = .asleep) :
      Stepped json s (.wakeSpuriously i) { s with waiters := s.waiters.set i .woken }

lemma step_stepped {json : Json} {s t : State ω ι} {a : Action ω ι} (h : step json s a = some t) :
    Stepped json s a t := by
  cases a with
  | call a =>
    cases a with
    | wait i => contradiction
    | wake i => contradiction
    | finish w =>
      cases h
      exact .call nofun nofun rfl
    | _ =>
      obtain ⟨base, hbase, rfl⟩ := Option.map_eq_some_iff.mp h
      exact .call nofun nofun hbase
  | test i =>
    simp only [step] at h
    split at h
    · split_ifs at h with hr
      · cases h
        exact .passed ‹_› ‹_› hr
      · cases h
        exact .failed ‹_› ‹_› (Bool.not_eq_true _ ▸ hr)
    · split_ifs at h with hl hr
      · cases h
        exact .wokenPassed ‹_› ‹_› (Bool.not_eq_true _ ▸ hl) hr
      · cases h
        exact .wokenFailed ‹_› ‹_› (Bool.not_eq_true _ ▸ hl) (Bool.not_eq_true _ ▸ hr)
    · contradiction
  | sleep i =>
    simp only [step] at h
    split at h
    · cases h
      exact .sleep ‹_› ‹_›
    · contradiction
  | notifyAll =>
    obtain ⟨w, hw, rfl⟩ := Option.map_eq_some_iff.mp h
    exact .notifyAll hw
  | wakeSpuriously i =>
    simp only [step] at h
    split_ifs at h with hp
    cases h
    exact .wakeSpuriously hp

/-- The requests that hold `debug_cv_m`. -/
def holds : Request ω → Bool
  | .locked _ _ | .cleared _ _ | .installed _ _ | .sent _ _ _ | .ready _ _ _ => true
  | .idle | .waiting _ _ _ | .unlocked _ _ _ | .returned _ _ _ => false

/-- One request holds the lock at a time, and a waiter whose test has failed is the one. -/
structure Exclusive (s : State ω ι) : Prop where
  locked : ∀ i, holds (s.base.request i) = true → s.base.locked = true
  one : ∀ i j, holds (s.base.request i) = true → holds (s.base.request j) = true → i = j
  tested : ∀ i, s.waiters.phase i = .tested → ∃ w k sentAt, s.base.request i = .sent w k sentAt

def waits : Request ω → Phase → Request ω
  | .sent w k sentAt, .tested => .waiting w k sentAt
  | r, _ => r

/-- The states of the wait in one step. -/
structure Refines (s : State ω ι) (u : Debugger.State ω ι) : Prop where
  request : ∀ i, u.request i = waits (s.base.request i) (s.waiters.phase i)
  locked : u.locked = true ↔ s.base.locked = true ∧ ∀ i, s.waiters.phase i ≠ .tested
  dataReady : u.dataReady = s.base.dataReady
  handler : u.handler = s.base.handler
  result : u.result = s.base.result
  received : u.received = s.base.received

variable {json : Json} {s t : State ω ι} {u : Debugger.State ω ι} {a : Action ω ι} {i : ι}

omit [DecidableEq ω] [DecidableEq ι] in
lemma Exclusive.initial : Exclusive (.initial : State ω ι) where
  locked _ h := by contradiction
  one _ _ h := by contradiction
  tested _ h := by contradiction

omit [DecidableEq ω] [DecidableEq ι] in
lemma Refines.initial : Refines (.initial : State ω ι) .initial where
  request _ := rfl
  locked := ⟨fun h => by contradiction, fun h => absurd h.1 Bool.false_ne_true⟩
  dataReady := rfl
  handler := rfl
  result := rfl
  received := rfl

/-- A step outside of the wait takes the lock for a request or lets the request that holds it go
on, lets one go on without the lock, which it may have held, or does nothing with a request. -/
lemma request_call {s t : Debugger.State ω ι} {a : Debugger.Action ω ι} (hwait : ∀ i, a ≠ .wait i)
    (hwake : ∀ i, a ≠ .wake i) (h : Debugger.step json s a = some t) :
    (t.request = s.request ∧ t.locked = s.locked) ∨
      ∃ i r, t.request = Function.update s.request i r ∧
        (∀ w k sentAt, s.request i ≠ .sent w k sentAt) ∧
        (holds r = true ∧
            (s.locked = false ∧ t.locked = true ∨ holds (s.request i) = true ∧ t.locked = s.locked) ∨
          holds r = false ∧ (t.locked = s.locked ∨ holds (s.request i) = true)) := by
  cases Debugger.step_stepped h with
  | lock pc free => exact .inr ⟨_, _, rfl, by simp [pc], .inl ⟨rfl, .inl ⟨free, rfl⟩⟩⟩
  | clear pc => exact .inr ⟨_, _, rfl, by simp [pc], .inl ⟨rfl, .inr ⟨by rw [pc]; rfl, rfl⟩⟩⟩
  | setMessageHandler pc =>
    exact .inr ⟨_, _, rfl, by simp [pc], .inl ⟨rfl, .inr ⟨by rw [pc]; rfl, rfl⟩⟩⟩
  | sendCommand pc => exact .inr ⟨_, _, rfl, by simp [pc], .inl ⟨rfl, .inr ⟨by rw [pc]; rfl, rfl⟩⟩⟩
  | pass => exact absurd rfl (hwait _)
  | wait => exact absurd rfl (hwait _)
  | wake => exact absurd rfl (hwake _)
  | unlock pc => exact .inr ⟨_, _, rfl, by simp [pc], .inr ⟨rfl, .inr (by rw [pc]; rfl)⟩⟩
  | goString pc => exact .inr ⟨_, _, rfl, by simp [pc], .inr ⟨rfl, .inl rfl⟩⟩
  | message => exact .inl ⟨rfl, rfl⟩
  | ignored => exact .inl ⟨rfl, rfl⟩
  | finish => exact .inl ⟨rfl, rfl⟩

omit [DecidableEq ω] [DecidableEq ι] in
lemma Exclusive.of_eq (h : Exclusive s) (hrequest : t.base.request = s.base.request)
    (hlocked : t.base.locked = s.base.locked)
    (hphase : ∀ i, t.waiters.phase i = .tested → s.waiters.phase i = .tested) : Exclusive t where
  locked i hi := by
    rw [hlocked]
    rw [hrequest] at hi
    exact h.locked i hi
  one i j hi hj := by
    rw [hrequest] at hi hj
    exact h.one i j hi hj
  tested i hi := by
    rw [hrequest]
    exact h.tested i (hphase i hi)

omit [DecidableEq ω] in
lemma Exclusive.hold (h : Exclusive s) {r : Request ω}
    (hrequest : t.base.request = Function.update s.base.request i r) (hlocked : t.base.locked = true)
    (hfree : s.base.locked = false ∨ holds (s.base.request i) = true)
    (htested : ∀ j, t.waiters.phase j = .tested →
      j ≠ i ∧ s.waiters.phase j = .tested ∨ j = i ∧ ∃ w k sentAt, r = .sent w k sentAt) :
    Exclusive t where
  locked _ _ := hlocked
  one j j' hj hj' := by
    have honly (j : ι) (hj : holds (t.base.request j) = true) : j = i := by
      by_contra hne
      rw [hrequest, Function.update_of_ne hne] at hj
      rcases hfree with hfree | hfree
      · rw [h.locked j hj] at hfree
        contradiction
      · exact hne (h.one j i hj hfree)
    rw [honly j hj, honly j' hj']
  tested j hj := by
    rw [hrequest]
    rcases htested j hj with ⟨hne, hphase⟩ | ⟨rfl, w, k, sentAt, rfl⟩
    · rw [Function.update_of_ne hne]
      exact h.tested j hphase
    · exact ⟨w, k, sentAt, Function.update_self _ _ _⟩

omit [DecidableEq ω] in
lemma Exclusive.drop (h : Exclusive s) {r : Request ω}
    (hrequest : t.base.request = Function.update s.base.request i r) (hr : holds r = false)
    (hlocked : t.base.locked = s.base.locked ∨ holds (s.base.request i) = true)
    (htested : ∀ j, t.waiters.phase j = .tested → j ≠ i ∧ s.waiters.phase j = .tested) : Exclusive t := by
  have hbefore (j : ι) (hj : holds (t.base.request j) = true) :
      j ≠ i ∧ holds (s.base.request j) = true := by
    rw [hrequest, Function.update_apply] at hj
    split_ifs at hj with hji
    · rw [hr] at hj
      contradiction
    · exact ⟨hji, hj⟩
  refine ⟨?_, fun j j' hj hj' => h.one j j' (hbefore j hj).2 (hbefore j' hj').2, ?_⟩
  · intro j hj
    obtain ⟨hji, hj⟩ := hbefore j hj
    rcases hlocked with hlocked | hi
    · rw [hlocked, h.locked j hj]
    · exact absurd (h.one j i hj hi) hji
  · intro j hj
    obtain ⟨hne, hphase⟩ := htested j hj
    rw [hrequest, Function.update_of_ne hne]
    exact h.tested j hphase

omit [DecidableEq ω] [DecidableEq ι] in
lemma phase_call (json : Json) (s : State ω ι) (a : Debugger.Action ω ι) :
    (if sets json s.base a then s.waiters.announce else s.waiters).phase = s.waiters.phase := by
  split_ifs <;> rfl

lemma tested_set {w : Waiters ι} {i j : ι} {p : Phase} (hp : p ≠ .tested)
    (h : (w.set i p).phase j = .tested) : j ≠ i ∧ w.phase j = .tested := by
  rw [Waiters.phase_set] at h
  split_ifs at h with hji
  · contradiction
  · exact ⟨hji, h⟩

omit [DecidableEq ι] in
lemma tested_notifyAll {w w' : Waiters ι} {i : ι} (hw : w.notifyAll = some w')
    (h : w'.phase i = .tested) :
    w.phase i = .tested := by
  rw [Waiters.notifyAll] at hw
  split_ifs at hw
  obtain rfl := Option.some.inj hw
  cases hp : w.phase i <;> simp_all [Phase.notified]

lemma Exclusive.step (hE : Exclusive s) (h : step json s a = some t) : Exclusive t := by
  cases step_stepped h with
  | @call a base hwait hwake hstep =>
    have hphase := phase_call json s a
    rcases request_call hwait hwake hstep with
      ⟨hrequest, hlocked⟩ | ⟨i, r, hrequest, hsent, hlocked⟩
    · exact hE.of_eq hrequest hlocked fun i hi => by rwa [← hphase]
    · have htested (j : ι) (hj : (if sets json s.base a then s.waiters.announce else s.waiters).phase j =
          .tested) : j ≠ i ∧ s.waiters.phase j = .tested := by
        rw [hphase] at hj
        obtain ⟨w, k, sentAt, hj'⟩ := hE.tested j hj
        refine ⟨?_, hj⟩
        rintro rfl
        exact hsent w k sentAt hj'
      rcases hlocked with ⟨hr, hlocked⟩ | ⟨hr, hlocked⟩
      · have htrue : base.locked = true := by
          rcases hlocked with ⟨-, hlocked⟩ | ⟨hi, hlocked⟩
          · exact hlocked
          · rw [hlocked, hE.locked i hi]
        exact hE.hold hrequest htrue (hlocked.imp And.left And.left) fun j hj => .inl (htested j hj)
      · exact hE.drop hrequest hr hlocked htested
  | @passed i w k sentAt pc phase ready =>
    refine hE.hold rfl (hE.locked i (by rw [pc]; rfl)) (.inr (by rw [pc]; rfl)) ?_
    intro j hj
    refine .inl ⟨?_, hj⟩
    rintro rfl
    rw [phase] at hj
    contradiction
  | @failed i w k sentAt pc phase ready =>
    refine ⟨hE.locked, hE.one, ?_⟩
    intro j hj
    by_cases hji : j = i
    · exact ⟨w, k, sentAt, hji ▸ pc⟩
    · rw [Waiters.phase_set, if_neg hji] at hj
      exact hE.tested j hj
  | @wokenPassed i w k sentAt pc phase free ready =>
    exact hE.hold rfl rfl (.inl free) fun j hj => .inl (tested_set (by decide) hj)
  | @wokenFailed i w k sentAt pc phase free ready =>
    refine hE.hold rfl rfl (.inl free) ?_
    intro j hj
    by_cases hji : j = i
    · exact .inr ⟨hji, w, k, sentAt, rfl⟩
    · rw [Waiters.phase_set, if_neg hji] at hj
      exact .inl ⟨hji, hj⟩
  | @sleep i w k sentAt pc phase =>
    exact hE.drop rfl rfl (.inr (by rw [pc]; rfl)) fun j hj => tested_set (by decide) hj
  | @notifyAll w notified =>
    exact hE.of_eq rfl rfl fun i hi => tested_notifyAll notified hi
  | @wakeSpuriously i phase =>
    exact hE.of_eq rfl rfl fun j hj => (tested_set (by decide) hj).2

omit [DecidableEq ω] [DecidableEq ι] in
lemma Exclusive.not_tested (hE : Exclusive s) (hfree : s.base.locked = false) :
    s.waiters.phase i ≠ .tested := by
  intro hi
  obtain ⟨w, k, sentAt, hrequest⟩ := hE.tested i hi
  rw [hE.locked i (by rw [hrequest]; rfl)] at hfree
  contradiction

omit [DecidableEq ω] in
lemma waits_of_ne {r : Request ω} {p : Phase} (h : p ≠ .tested) : waits r p = r := by
  cases r with
  | sent w k sentAt => cases p <;> first | rfl | contradiction
  | _ => rfl

omit [DecidableEq ω] in
lemma waits_notified (r : Request ω) (p : Phase) : waits r p.notified = waits r p := by
  cases r <;> cases p <;> rfl

lemma phase_set_of_ne (w : Waiters ι) (i : ι) (p : Phase) :
    ∀ j, j ≠ i → (w.set i p).phase j = w.phase j := by
  intro j hj
  rw [Waiters.phase_set, if_neg hj]

omit [DecidableEq ω] in
lemma pending_waits (r : Request ω) (p : Phase) : (waits r p).pending = r.pending := by
  cases r <;> cases p <;> rfl

omit [DecidableEq ω] in
lemma reads_waits (r : Request ω) (p : Phase) : (waits r p).reads = r.reads := by
  cases r <;> cases p <;> rfl

omit [DecidableEq ω] in
lemma Refines.update (hR : Refines s u) {r r' : Request ω} {phase : ι → Phase}
    (hphase : ∀ j, j ≠ i → phase j = s.waiters.phase j) (hr : r' = waits r (phase i)) (j : ι) :
    Function.update u.request i r' j = waits (Function.update s.base.request i r j) (phase j) := by
  by_cases hji : j = i
  · subst hji
    rw [Function.update_self, Function.update_self, hr]
  · rw [Function.update_of_ne hji, Function.update_of_ne hji, hR.request, hphase j hji]

omit [DecidableEq ω] in
lemma Refines.update_phase (hR : Refines s u) {r : Request ω} {phase : ι → Phase}
    (hphase : ∀ j, j ≠ i → phase j = s.waiters.phase j) (hr : r = waits (s.base.request i) (phase i))
    (j : ι) : Function.update u.request i r j = waits (s.base.request j) (phase j) := by
  have hupdate := hR.update hphase hr j
  rwa [Function.update_eq_self] at hupdate

omit [DecidableEq ω] in
lemma Refines.stutter (hR : Refines s u) {r : Request ω} {phase : ι → Phase}
    (hphase : ∀ j, j ≠ i → phase j = s.waiters.phase j)
    (hi : waits r (phase i) = waits (s.base.request i) (s.waiters.phase i)) (j : ι) :
    u.request j = waits (Function.update s.base.request i r j) (phase j) := by
  have hupdate := hR.update hphase (r := r) (hi.trans (hR.request i).symm).symm j
  rwa [Function.update_eq_self] at hupdate

omit [DecidableEq ω] [DecidableEq ι] in
lemma Refines.free (hR : Refines s u) (hfree : s.base.locked = false) : u.locked = false := by
  rw [← Bool.not_eq_true, hR.locked, hfree]
  exact fun h => Bool.false_ne_true h.1

omit [DecidableEq ι] in
omit [DecidableEq ω] in
lemma Refines.timely (hR : Refines s u) {a : Debugger.Action ω ι} (h : Timely json s.base a) :
    Timely json u a := by
  have hpending (i : ι) : (u.request i).pending = (s.base.request i).pending := by
    rw [hR.request, pending_waits]
  have hreads (i : ι) : (u.request i).reads = (s.base.request i).reads := by
    rw [hR.request, reads_waits]
  cases a <;> simp only [Timely, hR.dataReady, hR.handler, hR.result, hpending, hreads] at h ⊢ <;>
    exact h

lemma Refines.call (hE : Exclusive s) (hR : Refines s u) {a : Debugger.Action ω ι}
    {base : Debugger.State ω ι} {w : Waiters ι} (hw : w.phase = s.waiters.phase)
    (hwait : ∀ i, a ≠ .wait i) (hwake : ∀ i, a ≠ .wake i)
    (h : Debugger.step json s.base a = some base) :
    ∃ v, Debugger.step json u a = some v ∧ Refines ⟨base, w⟩ v := by
  have hrequest (i : ι) (r : Request ω) (hi : s.base.request i = r)
      (hsent : ∀ w k sentAt, r ≠ .sent w k sentAt) :
      u.request i = r ∧ s.waiters.phase i ≠ .tested := by
    have hphase : s.waiters.phase i ≠ .tested := by
      intro hp
      obtain ⟨w, k, sentAt, hp⟩ := hE.tested i hp
      exact hsent w k sentAt (hi.symm.trans hp)
    exact ⟨by rw [hR.request, waits_of_ne hphase, hi], hphase⟩
  have hlocked : u.locked = true ↔ s.base.locked = true ∧ ∀ j, w.phase j ≠ .tested := by
    rw [hw]
    exact hR.locked
  have hupdate (i : ι) (r r' : Request ω) (hr : r' = waits r (w.phase i)) :
      ∀ j, Function.update u.request i r' j =
        waits (Function.update s.base.request i r j) (w.phase j) :=
    hR.update (fun j _ => congrFun hw j) hr
  have hsame (i : ι) : u.request i = waits (s.base.request i) (w.phase i) := by
    rw [hw, hR.request]
  cases Debugger.step_stepped h with
  | @lock i v k pc free =>
    obtain ⟨hi, -⟩ := hrequest i _ pc (by simp)
    refine ⟨{ u.setRequest i (.locked v k) with locked := true }, ?_, hupdate i _ _ rfl, ?_,
      hR.dataReady, hR.handler, hR.result, hR.received⟩
    · simp [Debugger.step, hi, hR.free free]
    · exact ⟨fun _ => ⟨rfl, fun j => hw ▸ hE.not_tested free⟩, fun _ => rfl⟩
  | @clear i v k pc =>
    obtain ⟨hi, -⟩ := hrequest i _ pc (by simp)
    refine ⟨{ u.setRequest i (.cleared v k) with dataReady := false }, ?_, hupdate i _ _ rfl, hlocked,
      rfl, hR.handler, hR.result, hR.received⟩
    simp [Debugger.step, hi]
  | @setMessageHandler i v k pc =>
    obtain ⟨hi, -⟩ := hrequest i _ pc (by simp)
    refine ⟨{ u.setRequest i (.installed v k) with handler := Function.update u.handler v (some k) }, ?_,
      hupdate i _ _ rfl, hlocked, hR.dataReady, ?_, hR.result, hR.received⟩
    · simp [Debugger.step, hi]
    · rw [hR.handler]
  | @sendCommand i v k pc =>
    obtain ⟨hi, hp⟩ := hrequest i _ pc (by simp)
    refine ⟨u.setRequest i (.sent v k u.received), ?_, hupdate i _ _ ?_, hlocked, hR.dataReady,
      hR.handler, hR.result, hR.received⟩
    · simp [Debugger.step, hi]
    · rw [hw, waits_of_ne hp, hR.received]
  | pass => exact absurd rfl (hwait _)
  | wait => exact absurd rfl (hwait _)
  | wake => exact absurd rfl (hwake _)
  | @unlock i v k n pc =>
    obtain ⟨hi, -⟩ := hrequest i _ pc (by simp)
    refine ⟨{ u.setRequest i (.unlocked v k n) with locked := false }, ?_, hupdate i _ _ rfl, ?_,
      hR.dataReady, hR.handler, hR.result, hR.received⟩
    · simp [Debugger.step, hi]
    · exact iff_of_false Bool.false_ne_true fun h => Bool.false_ne_true h.1
  | @goString i v k n pc =>
    obtain ⟨hi, hp⟩ := hrequest i _ pc (by simp)
    refine ⟨u.setRequest i (.returned v n (u.result k)), ?_, hupdate i _ _ ?_, hlocked, hR.dataReady,
      hR.handler, hR.result, hR.received⟩
    · simp [Debugger.step, hi]
    · rw [hw, waits_of_ne hp, hR.result]
  | @message v k text result ready installed handled =>
    refine ⟨{ u with
      dataReady := u.dataReady || ready
      result := Function.update u.result k ⟨result, some (v, u.received)⟩
      received := u.received + 1 }, ?_, hsame, hlocked, ?_, hR.handler, ?_, ?_⟩
    · simp [Debugger.step, hR.handler, installed, handled]
    · rw [hR.dataReady]
    · rw [hR.result, hR.received]
    · rw [hR.received]
  | @ignored v text installed =>
    refine ⟨{ u with received := u.received + 1 }, ?_, hsame, hlocked, hR.dataReady, hR.handler,
      hR.result, congrArg (· + 1) hR.received⟩
    simp [Debugger.step, hR.handler, installed]
  | @finish v =>
    exact ⟨{ u with dataReady := true }, rfl, hsame, hlocked, rfl, hR.handler, hR.result, hR.received⟩

/-- The condition of `Debugger`, on the steps outside of the wait. -/
def TimelyCall (json : Json) (s : State ω ι) : Action ω ι → Prop
  | .call a => Timely json s.base a
  | .test _ | .sleep _ | .notifyAll | .wakeSpuriously _ => True

lemma Refines.step (hE : Exclusive s) (hR : Refines s u) (h : step json s a = some t) :
    Refines t u ∨ ∃ b v, Debugger.step json u b = some v ∧ Refines t v ∧
      (TimelyCall json s a → Timely json u b) := by
  cases step_stepped h with
  | @call a base hwait hwake hstep =>
    obtain ⟨v, hv, hRv⟩ := hR.call hE (phase_call json s a) hwait hwake hstep
    exact .inr ⟨a, v, hv, hRv, fun hok => hR.timely hok⟩
  | @passed i w k sentAt pc phase ready =>
    have hi : u.request i = .sent w k sentAt := by rw [hR.request, pc, phase]; rfl
    refine .inr ⟨.wait i, u.setRequest i (.ready w k sentAt), ?_,
      ⟨hR.update (fun _ _ => rfl) rfl, hR.locked, hR.dataReady, hR.handler, hR.result, hR.received⟩,
      fun _ => trivial⟩
    simp [Debugger.step, hi, hR.dataReady, ready]
  | @failed i w k sentAt pc phase ready =>
    have hi : u.request i = .sent w k sentAt := by rw [hR.request, pc, phase]; rfl
    refine .inr ⟨.wait i, { u.setRequest i (.waiting w k sentAt) with locked := false }, ?_,
      ⟨hR.update_phase (phase_set_of_ne s.waiters i .tested) ?_, ?_, hR.dataReady, hR.handler,
        hR.result, hR.received⟩, fun _ => trivial⟩
    · simp [Debugger.step, hi, hR.dataReady, ready]
    · rw [pc, Waiters.phase_set, if_pos rfl]
      rfl
    · refine ⟨fun h => by contradiction, fun h => absurd ?_ (h.2 i)⟩
      rw [Waiters.phase_set, if_pos rfl]
  | @wokenPassed i w k sentAt pc phase free ready =>
    have hi : u.request i = .waiting w k sentAt := by rw [hR.request, pc, phase]; rfl
    refine .inr ⟨.wake i, { u.setRequest i (.ready w k sentAt) with locked := true }, ?_,
      ⟨hR.update (phase_set_of_ne s.waiters i .out) rfl, ?_, hR.dataReady, hR.handler, hR.result,
        hR.received⟩, fun _ => trivial⟩
    · simp [Debugger.step, hi, hR.dataReady, ready, hR.free free]
    · refine iff_of_true rfl ⟨rfl, fun j hj => ?_⟩
      exact hE.not_tested free (tested_set (by decide) hj).2
  | @wokenFailed i w k sentAt pc phase free ready =>
    refine .inl ⟨hR.stutter (phase_set_of_ne s.waiters i .tested) ?_, ?_,
      hR.dataReady, hR.handler, hR.result, hR.received⟩
    · rw [pc, phase, Waiters.phase_set, if_pos rfl]
      rfl
    · rw [hR.free free]
      refine ⟨fun h => by contradiction, fun h => absurd ?_ (h.2 i)⟩
      rw [Waiters.phase_set, if_pos rfl]
  | @sleep i w k sentAt pc phase =>
    have hfree : u.locked = false := by
      rw [← Bool.not_eq_true, hR.locked]
      exact fun h => h.2 i phase
    refine .inl ⟨hR.stutter (phase_set_of_ne s.waiters i .asleep) ?_, ?_,
      hR.dataReady, hR.handler, hR.result, hR.received⟩
    · rw [pc, phase, Waiters.phase_set, if_pos rfl]
      rfl
    · rw [hfree]
      exact ⟨fun h => by contradiction, fun h => by simpa using h.1⟩
  | @notifyAll w notified =>
    have hphase (j : ι) : w.phase j = (s.waiters.phase j).notified := by
      rw [Waiters.notifyAll] at notified
      split_ifs at notified
      rw [← Option.some.inj notified]
    refine .inl ⟨?_, ?_, hR.dataReady, hR.handler, hR.result, hR.received⟩
    · intro j
      rw [hphase, waits_notified, hR.request]
    · simp only [hphase, ne_eq, Phase.notified_eq_tested]
      exact hR.locked
  | @wakeSpuriously i phase =>
    refine .inl ⟨?_, ?_, hR.dataReady, hR.handler, hR.result, hR.received⟩
    · intro j
      rw [hR.request, Waiters.phase_set]
      split_ifs with hj
      · rw [hj, phase, waits_of_ne (by decide), waits_of_ne (by decide)]
      · rfl
    · have htested (j : ι) :
          (s.waiters.set i .woken).phase j ≠ .tested ↔ s.waiters.phase j ≠ .tested := by
        rw [Waiters.phase_set]
        split_ifs with hj
        · simp [hj, phase]
        · exact Iff.rfl
      simp only [htested]
      exact hR.locked

lemma simulates_one {ok : Debugger.State ω ι → Debugger.Action ω ι → Prop}
    (h : Exclusive s ∧ Refines s u) (hstep : step json s a = some t)
    (hok : ∀ b, (TimelyCall json s a → Timely json u b) → ok u b) :
    ∃ v, Reach (Debugger.step json) ok u v ∧ Exclusive t ∧ Refines t v := by
  rcases h.2.step h.1 hstep with hR | ⟨b, v, hv, hR, htimely⟩
  · exact ⟨u, .refl, h.1.step hstep, hR⟩
  · exact ⟨v, .one (hok b htimely) hv, h.1.step hstep, hR⟩

/-- Every run with the wait taken apart is a run of `Debugger`. -/
theorem reach_refines (hs : Reachable (step json) .initial s) :
    ∃ u, Reachable (Debugger.step json) .initial u ∧ Refines s u := by
  obtain ⟨u, hu, -, hR⟩ := hs.simulated_meets (R := fun s u => Exclusive s ∧ Refines s u)
    ⟨.initial, .initial⟩ fun s a t u h _ hstep => simulates_one h hstep fun _ _ => trivial
  exact ⟨u, hu, hR⟩

theorem reach_refines_timely (hs : Reach (step json) (TimelyCall json) .initial s) :
    ∃ u, Reach (Debugger.step json) (Timely json) .initial u ∧ Refines s u := by
  obtain ⟨u, hu, -, hR⟩ := hs.simulated_meets (R := fun s u => Exclusive s ∧ Refines s u)
    ⟨.initial, .initial⟩ fun s a t u h hok hstep => simulates_one h hstep fun _ htimely => htimely hok
  exact ⟨u, hu, hR⟩

lemma returnsOwn_of_timelyCall {s : State ω ι}
    (hs : Reach (step json) (TimelyCall json) .initial s) : ReturnsOwn s.base := by
  obtain ⟨u, hu, hR⟩ := reach_refines_timely hs
  have hown : Counted u ∧ OwnResponses u := by
    refine hu.invariant (I := fun u => Counted u ∧ OwnResponses u) ⟨.initial, .initial⟩ ?_
    intro u a v hI hok h
    exact ⟨hI.1.step h, (ownResponses_iff hI.1 hI.2 h).mpr hok⟩
  intro i w sentAt r hr
  apply hown.2.returned i w sentAt r
  rw [hR.request, hr]
  rfl

instance {n : ℕ} (json : Json) (s : State ω (Fin n)) : (a : Action ω (Fin n)) →
    Decidable (TimelyCall json s a)
  | .call a => inferInstanceAs (Decidable (Timely json s.base a))
  | .test _ | .sleep _ | .notifyAll | .wakeSpuriously _ => inferInstanceAs (Decidable True)

def evaluateRequest (i : ι) (w : ω) : List (Action ω ι) :=
  [.call (.lock i w .evaluate), .call (.clear i), .call (.setMessageHandler i), .call (.sendCommand i),
    .test i]

/-- A request does not go to sleep after `data_ready` was set and all have notified. -/
def SleepsInTime (s : State ω ι) : Action ω ι → Prop
  | .sleep _ => s.base.dataReady = true → 0 < s.waiters.notifiers
  | .call _ | .test _ | .notifyAll | .wakeSpuriously _ => True

lemma dataReady_call {s t : Debugger.State ω ι} {a : Debugger.Action ω ι}
    (hsets : sets json s a = false) (h : Debugger.step json s a = some t) (hready : t.dataReady = true) : s.dataReady = true := by
  cases Debugger.step_stepped h with
  | clear => contradiction
  | @message w k text result ready installed handled =>
    simp only [sets, installed, Option.any_some, handled, Debugger.Outcome.ready] at hsets
    simpa only [hsets, Bool.or_false] using hready
  | finish => contradiction
  | _ => exact hready

/-- A step leaves nobody asleep unheard, except for a request that goes to sleep too late. -/
lemma heard_iff (hH : Heard s.base.dataReady s.waiters) (h : step json s a = some t) :
    Heard t.base.dataReady t.waiters ↔ SleepsInTime s a := by
  cases step_stepped h with
  | @call a base hwait hwake hstep =>
    refine iff_of_true ?_ trivial
    by_cases hsets : sets json s.base a = true
    · rw [if_pos hsets]
      exact heard_announce
    · rw [if_neg hsets]
      intro hready
      exact hH (dataReady_call (Bool.not_eq_true _ ▸ hsets) hstep hready)
  | passed => exact iff_of_true hH trivial
  | failed => exact iff_of_true (hH.set (by decide)) trivial
  | wokenPassed => exact iff_of_true (hH.set (by decide)) trivial
  | wokenFailed => exact iff_of_true (hH.set (by decide)) trivial
  | sleep => exact heard_sleep_iff
  | notifyAll notified => exact iff_of_true (heard_notifyAll notified) trivial
  | wakeSpuriously => exact iff_of_true (hH.set (by decide)) trivial

/-- Steps other than that `data_ready` is set, and that a sleeper wakes up by itself. -/
def Silent (json : Json) (s : State ω ι) : Action ω ι → Prop
  | .call a => sets json s.base a = false
  | .wakeSpuriously _ => False
  | .test _ | .sleep _ | .notifyAll => True

/-- The request sleeps until `data_ready` is set once more. -/
def Hangs (json : Json) (s : State ω ι) (i : ι) : Prop :=
  ∀ t, Reach (step json) (Silent json) s t → t.waiters.phase i = .asleep

lemma hangs_of_no_notifiers (hi : s.waiters.phase i = .asleep) (hn : s.waiters.notifiers = 0) :
    Hangs json s i := by
  intro t ht
  have hI : t.waiters.phase i = .asleep ∧ t.waiters.notifiers = 0 := by
    refine ht.invariant (I := fun t => t.waiters.phase i = .asleep ∧ t.waiters.notifiers = 0)
      ⟨hi, hn⟩ ?_
    rintro s a t ⟨hi, hn⟩ hok h
    have hother {j : ι} {p : Phase} (hj : s.waiters.phase j ≠ .asleep) :
        (s.waiters.set j p).phase i = .asleep := by
      have hij : i ≠ j := by
        rintro rfl
        exact hj hi
      rw [Waiters.phase_set, if_neg hij, hi]
    cases step_stepped h with
    | @call a base hwait hwake hstep =>
      have hsets : sets json s.base a = false := hok
      rw [hsets]
      exact ⟨hi, hn⟩
    | passed => exact ⟨hi, hn⟩
    | failed pc phase => exact ⟨hother (by rw [phase]; decide), hn⟩
    | wokenPassed pc phase => exact ⟨hother (by rw [phase]; decide), hn⟩
    | wokenFailed pc phase => exact ⟨hother (by rw [phase]; decide), hn⟩
    | sleep pc phase => exact ⟨hother (by rw [phase]; decide), hn⟩
    | notifyAll notified =>
      rw [Waiters.notifyAll, if_neg (by omega)] at notified
      contradiction
    | wakeSpuriously => exact hok.elim
  exact hI.1

/-- Who sleeps unheard while `data_ready` is set hangs, and nobody else does. -/
lemma heard_iff_not_hangs : Heard s.base.dataReady s.waiters ↔
    (s.base.dataReady = true → ∀ i, ¬ Hangs json s i) := by
  constructor
  · intro hH hready i hhangs
    have hn := hH hready i (hhangs s .refl)
    have hstep : step json s .notifyAll =
        some { s with waiters := ⟨fun i => (s.waiters.phase i).notified, s.waiters.notifiers - 1⟩ } := by
      rw [step, Waiters.notifyAll, if_pos hn, Option.map_some]
    exact (s.waiters.phase i).notified_ne (hhangs _ (.one (a := .notifyAll) trivial hstep))
  · intro h hready i hi
    by_contra hn
    exact h hready i (hangs_of_no_notifiers hi (by omega))

/-- No request ever hangs while `data_ready` is set, exactly when none goes to sleep behind the
notification. -/
theorem not_hangs_along_iff (json : Json) (as : List (Action ω ι)) :
    Along (step json) (fun _ _ t => t.base.dataReady = true → ∀ i, ¬ Hangs json t i) .initial as ↔
      Along (step json) (fun s a _ => SleepsInTime s a) .initial as := by
  simp only [← heard_iff_not_hangs]
  exact along_iff (I := fun s : State ω ι => Heard s.base.dataReady s.waiters) heard_initial
    (fun _ _ _ => heard_iff) (fun _ _ _ _ _ h => h) as

/-- The response comes, with its notification, between the test and the sleep of the request. -/
example : (exec (step Debugger.responseJson) (fun _ _ => True) (.initial : State (Fin 1) (Fin 1))
    (evaluateRequest 0 0 ++ [.call (.message 0 Debugger.response), .notifyAll, .sleep 0])).any
      (fun s => s.base.dataReady && s.waiters.phase 0 = .asleep && s.waiters.notifiers = 0) := by
  decide

end

end Eventing.DebuggerWait
