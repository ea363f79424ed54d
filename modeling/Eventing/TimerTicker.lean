import Eventing.TimestampKeys
import Eventing.Transition

/-!
# The seconds that are polled

`processTimerEvent` (`proccess_timer_callbacks.go`) waits for a `time.Ticker` of one second,
whose channel holds one tick and drops what comes while it is full, and polls the key of
the time at which it gets the tick. Callbacks and deletions of an iteration take any time.
Times are nanoseconds, and a step takes no time but that of its iteration.
-/
namespace Eventing.TimerTicker
open Timestamp Transition

/-- From the poll to the return to the `select`. -/
structure Iteration where
  start : ℕ
  stop : ℕ
  deriving DecidableEq

def Iteration.second (i : Iteration) : ℤ := newISO8601At i.start

inductive Loop
  | waiting
  | busy (stop : ℕ)
  | closed
  deriving DecidableEq

structure State where
  now : ℕ
  /-- The time of the next tick. -/
  next : ℕ
  /-- Whether the channel holds a tick. -/
  full : Bool
  loop : Loop
  /-- The iterations so far, the last one first. -/
  iterations : List Iteration
  deriving DecidableEq

/-- The ticker is made at any time. -/
def State.initial (now : ℕ) : State := ⟨now, now + 1000000000, false, .waiting, []⟩

inductive Action
  | tick
  | poll (duration : ℕ)
  | finish
  | close
  deriving DecidableEq

def step (s : State) : Action → Option State
  | .tick =>
      let fired : State := { s with now := s.next, next := s.next + 1000000000, full := true }
      match s.loop with
      | .waiting => if s.full then none else some fired
      | .busy stop => if s.next ≤ stop then some fired else none
      | .closed => none
  | .poll duration =>
      match s.loop with
      | .waiting =>
          if s.full then some { s with
            full := false
            loop := .busy (s.now + duration)
            iterations := ⟨s.now, s.now + duration⟩ :: s.iterations }
          else none
      | _ => none
  | .finish =>
      match s.loop with
      | .busy stop => if stop ≤ s.next then some { s with now := stop, loop := .waiting } else none
      | _ => none
  | .close =>
      match s.loop with
      | .waiting => some { s with loop := .closed }
      | _ => none

inductive Stepped (s : State) : Action → State → Prop
  | tickWaiting (pc : s.loop = .waiting) (empty : s.full = false) :
      Stepped s .tick { s with now := s.next, next := s.next + 1000000000, full := true }
  | tickBusy {stop : ℕ} (pc : s.loop = .busy stop) (due : s.next ≤ stop) :
      Stepped s .tick { s with now := s.next, next := s.next + 1000000000, full := true }
  | poll {duration : ℕ} (pc : s.loop = .waiting) (full : s.full = true) :
      Stepped s (.poll duration) { s with
        full := false
        loop := .busy (s.now + duration)
        iterations := ⟨s.now, s.now + duration⟩ :: s.iterations }
  | finish {stop : ℕ} (pc : s.loop = .busy stop) (due : stop ≤ s.next) :
      Stepped s .finish { s with now := stop, loop := .waiting }
  | close (pc : s.loop = .waiting) : Stepped s .close { s with loop := .closed }

lemma step_stepped {s t : State} {a : Action} (h : step s a = some t) : Stepped s a t := by
  cases a <;> simp only [step] at h
  case tick =>
    split at h
    · split_ifs at h with hf
      cases h
      exact .tickWaiting ‹_› (Bool.not_eq_true _ ▸ hf)
    · split_ifs at h with hd
      cases h
      exact .tickBusy ‹_› hd
    · contradiction
  case poll duration =>
    split at h <;> try contradiction
    split_ifs at h with hf
    cases h
    exact .poll ‹_› hf
  case finish =>
    split at h <;> try contradiction
    split_ifs at h with hd
    cases h
    exact .finish ‹_› hd
  case close =>
    split at h <;> try contradiction
    cases h
    exact .close ‹_›

/-- Every second between two polled ones is polled. -/
def Covered (iterations : List Iteration) : Prop :=
  ∀ i ∈ iterations, ∀ j ∈ iterations, ∀ x, i.second ≤ x → x ≤ j.second →
    ∃ k ∈ iterations, k.second = x

/-- An iteration is over before the second after next begins. -/
def Iteration.InTime (i : Iteration) : Prop :=
  i.stop < (i.start / 1000000000 + 2) * 1000000000

/-- A poll comes after an iteration that was in time, or is the first one. -/
def AfterInTime (s : State) : Action → Prop
  | .poll _ => ∀ i ∈ s.iterations.head?, i.InTime
  | .tick | .finish | .close => True

/-- Where the last iteration is, with the tick that comes within a second of its poll. -/
structure LastIteration (s : State) (i : Iteration) : Prop where
  start_le_stop : i.start ≤ i.stop
  tick_soon : s.next ≤ i.start + 1000000000 ∨ s.full = true
  busy : ∀ stop, s.loop = .busy stop → stop = i.stop
  started : i.start ≤ s.now
  ended : s.loop = .waiting → i.stop ≤ s.now ∧ (s.now = i.stop ∨ s.now ≤ i.start + 1000000000)
  latest : ∀ j ∈ s.iterations, j.start ≤ i.start

structure Inv (s : State) : Prop where
  now_le_next : s.now ≤ s.next
  next_le : s.next ≤ s.now + 1000000000
  now_le_stop : ∀ stop, s.loop = .busy stop → s.now ≤ stop
  last : ∀ i ∈ s.iterations.head?, LastIteration s i
  covered : Covered s.iterations

lemma inv_initial (now : ℕ) : Inv (.initial now) where
  now_le_next := by simp [State.initial]
  next_le := by simp [State.initial]
  now_le_stop := by simp [State.initial]
  last := by simp [State.initial]
  covered := by simp [Covered, State.initial]

lemma Inv.started {s : State} (hI : Inv s) : ∀ j ∈ s.iterations, j.start ≤ s.now := by
  intro j hj
  cases hh : s.iterations.head? with
  | none => simp [List.head?_eq_none_iff.mp hh] at hj
  | some i =>
    have hl := hI.last i hh
    exact (hl.latest j hj).trans hl.started

lemma second_eq (i : Iteration) : i.second = (i.start / 1000000000 : ℕ) - 2 := by
  rw [Iteration.second, newISO8601At_eq]
  norm_cast

lemma covered_cons {its : List Iteration} {i j : Iteration} (hc : Covered its)
    (hi : i ∈ its) (hle : i.start ≤ j.start)
    (hnext : j.start / 1000000000 ≤ i.start / 1000000000 + 1)
    (hlatest : ∀ k ∈ its, k.start ≤ i.start) : Covered (j :: its) := by
  have hij : i.second ≤ j.second ∧ j.second ≤ i.second + 1 := by
    rw [second_eq, second_eq]
    have hdiv : i.start / 1000000000 ≤ j.start / 1000000000 := Nat.div_le_div_right hle
    omega
  have hbefore : ∀ k ∈ its, k.second ≤ i.second := by
    intro k hk
    have hdiv : k.start / 1000000000 ≤ i.start / 1000000000 := Nat.div_le_div_right (hlatest k hk)
    rw [second_eq, second_eq]
    omega
  intro a ha b hb x hax hxb
  -- What is not the new second lies between the first and the last old one.
  by_cases hx : x = j.second
  · exact ⟨j, List.mem_cons_self, hx.symm⟩
  · have hxi : x ≤ i.second := by
      rcases List.mem_cons.mp hb with rfl | hb
      · omega
      · exact hxb.trans (hbefore b hb)
    rcases List.mem_cons.mp ha with rfl | ha
    · omega
    · obtain ⟨k, hk, hkx⟩ := hc a ha i hi x hax hxi
      exact ⟨k, List.mem_cons_of_mem _ hk, hkx⟩

lemma not_covered_cons {its : List Iteration} {i j : Iteration} (hi : i ∈ its)
    (hgap : i.start / 1000000000 + 2 ≤ j.start / 1000000000)
    (hlatest : ∀ k ∈ its, k.start ≤ i.start) : ¬ Covered (j :: its) := by
  intro hc
  have hsec : i.second + 2 ≤ j.second := by
    rw [second_eq, second_eq]
    omega
  obtain ⟨k, hk, hkx⟩ := hc i (List.mem_cons_of_mem _ hi) j List.mem_cons_self (i.second + 1)
    (by omega) (by omega)
  rcases List.mem_cons.mp hk with rfl | hk
  · omega
  · have hdiv : k.start / 1000000000 ≤ i.start / 1000000000 := Nat.div_le_div_right (hlatest k hk)
    rw [second_eq, second_eq] at hkx
    omega

/-- A poll covers what lies between it and the last one exactly when the iteration before
was in time: in time, it comes with the end of that iteration or with the next tick. -/
lemma covered_poll_iff {s : State} {duration : ℕ} (hI : Inv s) (hw : s.loop = .waiting) :
    Covered (⟨s.now, s.now + duration⟩ :: s.iterations) ↔ ∀ i ∈ s.iterations.head?, i.InTime := by
  cases hh : s.iterations.head? with
  | none =>
    have hnil : s.iterations = [] := List.head?_eq_none_iff.mp hh
    simp only [hnil, Option.not_mem_none, false_implies, implies_true, iff_true]
    intro a ha b hb x hax hxb
    rw [List.mem_singleton.mp ha] at hax
    rw [List.mem_singleton.mp hb] at hxb
    exact ⟨_, List.mem_singleton.mpr rfl, by omega⟩
  | some i =>
    have hmem : i ∈ s.iterations := List.mem_of_mem_head? hh
    have hl := hI.last i hh
    obtain ⟨hstop, hnow⟩ := hl.ended hw
    have hss := hl.start_le_stop
    simp only [Option.mem_def, Option.some.injEq, forall_eq', Iteration.InTime]
    constructor
    · intro hc
      by_contra hlate
      have hgap : i.start / 1000000000 + 2 ≤ s.now / 1000000000 := by omega
      exact not_covered_cons hmem hgap hl.latest hc
    · intro hin
      have hsec : s.now / 1000000000 ≤ i.start / 1000000000 + 1 := by omega
      exact covered_cons hI.covered hmem (hss.trans hstop) hsec hl.latest

lemma inv_step {s t : State} {a : Action} (hI : Inv s) (h : Stepped s a t)
    (hc : Covered t.iterations) : Inv t := by
  have hnn := hI.now_le_next
  have hnl := hI.next_le
  cases h with
  | tickWaiting pc empty =>
    refine ⟨by simp, by simp, by simp [pc], ?_, hc⟩
    intro i hi
    have hl := hI.last i hi
    have hstop := (hl.ended pc).1
    have hsoon := hl.tick_soon
    simp only [empty, Bool.false_eq_true, or_false] at hsoon
    refine ⟨hl.start_le_stop, .inr rfl, hl.busy, hl.started.trans hnn, ?_, hl.latest⟩
    intro _
    exact ⟨hstop.trans hnn, .inr hsoon⟩
  | tickBusy pc due =>
    refine ⟨by simp, by simp, ?_, ?_, hc⟩
    · intro stop hs
      rw [pc] at hs
      cases hs
      exact due
    · intro i hi
      have hl := hI.last i hi
      refine ⟨hl.start_le_stop, .inr rfl, hl.busy, hl.started.trans hnn, ?_, hl.latest⟩
      intro hw
      rw [pc] at hw
      contradiction
  | @poll duration pc full =>
    refine ⟨hnn, hnl, ?_, ?_, hc⟩
    · intro stop hs
      cases hs
      exact Nat.le_add_right _ _
    · intro i hi
      simp only [List.head?_cons, Option.mem_def, Option.some.injEq] at hi
      subst hi
      refine ⟨Nat.le_add_right _ _, .inl hnl, ?_, le_rfl, by simp, ?_⟩
      · intro stop hs
        cases hs
        rfl
      · intro j hj
        rcases List.mem_cons.mp hj with rfl | hj
        · exact le_rfl
        · exact hI.started j hj
  | @finish stop pc due =>
    have hstop := hI.now_le_stop _ pc
    have hnext : s.next ≤ stop + 1000000000 := by omega
    refine ⟨due, hnext, by simp, ?_, hc⟩
    intro i hi
    have hl := hI.last i hi
    have hi := hl.busy _ pc
    refine ⟨hl.start_le_stop, hl.tick_soon, by simp, hl.started.trans hstop, ?_, hl.latest⟩
    intro _
    exact ⟨hi.ge, .inl hi⟩
  | close pc =>
    refine ⟨hnn, hnl, by simp, ?_, hc⟩
    intro i hi
    have hl := hI.last i hi
    exact ⟨hl.start_le_stop, hl.tick_soon, by simp, hl.started, by simp, hl.latest⟩

/-- In every run, every second between two polled ones is polled, in all the states the run
goes through, exactly when each iteration that another poll follows was over before the
second after next began. -/
theorem covered_along_iff (now : ℕ) (as : List Action) :
    Along step (fun _ _ t => Covered t.iterations) (.initial now) as ↔
      Along step (fun s a _ => AfterInTime s a) (.initial now) as := by
  refine along_iff (inv_initial now) ?_ ?_ as
  · intro s a t hI hs
    cases step_stepped hs with
    | poll pc full => exact covered_poll_iff hI pc
    | tickWaiting | tickBusy | finish | close => simp [AfterInTime, hI.covered]
  · intro s a t hI hs hc
    exact inv_step hI (step_stepped hs) hc

/-- The ticker is made at 0.9 s and an iteration takes 1.2 s: after second 1, second 3 is
next. -/
theorem not_covered_along : ¬ Along step (fun _ _ t => Covered t.iterations)
    (.initial 900000000) [.tick, .poll 1200000000, .tick, .finish, .poll 0] := by
  intro h
  have hc : Covered [⟨3100000000, 3100000000⟩, ⟨1900000000, 3100000000⟩] := by
    simp [Along, step, State.initial] at h
    exact h.2.2
  obtain ⟨k, hk, hx⟩ := hc ⟨1900000000, 3100000000⟩ (by decide) ⟨3100000000, 3100000000⟩
    (by decide) 0 (by decide) (by decide)
  revert hx
  revert k
  decide

end Eventing.TimerTicker
