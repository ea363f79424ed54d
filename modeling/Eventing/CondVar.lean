import Mathlib.Logic.Function.Basic
import Mathlib.Tactic.Common

/-!
# Waiting for a flag at a condition variable

A waiter tests the flag while it holds a lock. When the flag is not set, it goes to sleep and
releases the lock, in one step after the test; when it is woken, it takes the lock and tests
again. Whoever sets the flag notifies the sleepers afterwards, without the lock.
-/
namespace Eventing.CondVar

/-- Where a waiter is: outside of the wait, behind a test that failed, asleep, or woken. -/
inductive Phase
  | out
  | tested
  | asleep
  | woken
  deriving DecidableEq

structure Waiters (ι : Type*) where
  phase : ι → Phase
  /-- Those that have set the flag and not notified yet. -/
  notifiers : ℕ

variable {ι : Type*}

def Waiters.initial : Waiters ι := ⟨fun _ => .out, 0⟩

def Waiters.announce (w : Waiters ι) : Waiters ι := { w with notifiers := w.notifiers + 1 }

def Phase.notified : Phase → Phase
  | .asleep => .woken
  | p => p

def Waiters.notifyAll (w : Waiters ι) : Option (Waiters ι) :=
  if 0 < w.notifiers then some ⟨fun i => (w.phase i).notified, w.notifiers - 1⟩ else none

def Waiters.set [DecidableEq ι] (w : Waiters ι) (i : ι) (p : Phase) : Waiters ι :=
  { w with phase := Function.update w.phase i p }

/-- Nobody sleeps while the flag is set, unless somebody is about to notify. -/
def Heard (flag : Bool) (w : Waiters ι) : Prop :=
  flag = true → ∀ i, w.phase i = .asleep → 0 < w.notifiers

variable {flag : Bool} {w w' : Waiters ι} {i : ι} {p : Phase}

lemma Phase.notified_ne (p : Phase) : p.notified ≠ .asleep := by
  cases p <;> nofun

lemma Phase.notified_eq_tested : p.notified = .tested ↔ p = .tested := by
  cases p <;> simp [Phase.notified]

lemma heard_initial : Heard flag (.initial : Waiters ι) := by
  intro _ i hi
  contradiction

lemma heard_announce : Heard flag w.announce := fun _ _ _ => Nat.succ_pos _

lemma heard_notifyAll (h : w.notifyAll = some w') : Heard flag w' := by
  rw [Waiters.notifyAll] at h
  split_ifs at h
  obtain rfl := Option.some.inj h
  intro _ i hi
  exact absurd hi (w.phase i).notified_ne

section
variable [DecidableEq ι]

lemma Waiters.phase_set (w : Waiters ι) (i j : ι) (p : Phase) :
    (w.set i p).phase j = if j = i then p else w.phase j :=
  Function.update_apply _ _ _ _

lemma Heard.set (h : Heard flag w) (hp : p ≠ .asleep) : Heard flag (w.set i p) := by
  intro hflag j hj
  rw [Waiters.phase_set] at hj
  split_ifs at hj
  · contradiction
  · exact h hflag j hj

/-- A waiter may go to sleep when the flag is not set, or when it will be notified. -/
lemma heard_sleep_iff : Heard flag (w.set i .asleep) ↔ (flag = true → 0 < w.notifiers) := by
  constructor
  · intro hsleep hflag
    exact hsleep hflag i (by rw [Waiters.phase_set, if_pos rfl])
  · intro hnotified hflag _ _
    exact hnotified hflag

end

end Eventing.CondVar
