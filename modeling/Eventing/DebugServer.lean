import Eventing.Decimal
import Eventing.Transition
import Mathlib.Logic.Function.Basic

/-!
# Starting and stopping the debugger

`startV8Debugger` (`http_handlers.go`) listens on port 6062, turns the debugger of a worker on and
starts a goroutine that serves the listener and turns the debugger off when `Serve` returns.
`stopV8Debugger` closes the listener. Both have it from the global `v8TCPListener`, and so does
the goroutine.
-/
namespace Eventing.DebugServer
open Decimal Transition

variable {ω ι : Type*} [DecidableEq ω] [DecidableEq ι]

/-- Where a start request and its goroutine are. `own` is the listener that it has opened, and
`listener` is the one that is served. -/
inductive Request (ω : Type*)
  | idle
  | listening (own : ℕ)
  | unstarted (own : ℕ) (handle : Option ω)
  | serving (own : ℕ) (listener : Option ℕ) (handle : Option ω)
  | ended
  deriving DecidableEq

/-- `port` is the listener that port 6062 is bound to. Listeners are numbered as they are opened.
`startDebugFlag` is a field of each worker. -/
structure State (ω ι : Type*) where
  port : Option ℕ
  opened : ℕ
  v8TCPListener : Option ℕ
  workerTable : Text → Option ω
  startDebugFlag : ω → Bool
  request : ι → Request ω
  crashed : Bool

def State.initial (workerTable : Text → Option ω) : State ω ι where
  port := none
  opened := 0
  v8TCPListener := none
  workerTable := workerTable
  startDebugFlag _ := false
  request _ := .idle
  crashed := false

inductive Action (ω ι : Type*)
  | listen (i : ι)
  | lookUp (i : ι) (name : Option Text)
  | serve (i : ι)
  | finish (i : ι)
  | stop
  | setWorker (name : Text) (handle : Option ω)

def State.setRequest (s : State ω ι) (i : ι) (r : Request ω) : State ω ι :=
  { s with request := Function.update s.request i r }

/-- `StartV8Debugger` of the worker that was found, if any. -/
def State.startDebugger (s : State ω ι) : Option ω → State ω ι
  | none => s
  | some w => { s with startDebugFlag := Function.update s.startDebugFlag w true }

/-- A request without a name panics, which ends it alone; `StopV8Debugger` of a nil handle ends
the program. A stop request for a nil listener panics, too. -/
def step (s : State ω ι) (a : Action ω ι) : Option (State ω ι) :=
  if s.crashed then none else
  match a with
  | .listen i =>
      match s.request i, s.port with
      | .idle, none =>
          some { s.setRequest i (.listening s.opened) with
            port := some s.opened
            opened := s.opened + 1
            v8TCPListener := some s.opened }
      | .idle, some _ => some { s.setRequest i .ended with v8TCPListener := none }
      | _, _ => none
  | .lookUp i name =>
      match s.request i, name with
      | .listening _, none => some (s.setRequest i .ended)
      | .listening own, some name =>
          some ((s.startDebugger (s.workerTable name)).setRequest i
            (.unstarted own (s.workerTable name)))
      | _, _ => none
  | .serve i =>
      match s.request i with
      | .unstarted own handle => some (s.setRequest i (.serving own s.v8TCPListener handle))
      | _ => none
  | .finish i =>
      match s.request i with
      | .serving _ listener handle =>
          -- `Accept` fails on no listener and on a closed one.
          if listener ≠ none ∧ listener = s.port then none
          else match handle with
            | none => some { s.setRequest i .ended with crashed := true }
            | some w =>
                some { s.setRequest i .ended with
                  startDebugFlag := Function.update s.startDebugFlag w false }
      | _ => none
  | .stop =>
      match s.v8TCPListener with
      | none => some s
      | some n => some { s with port := if s.port = some n then none else s.port }
  | .setWorker name handle =>
      some { s with workerTable := Function.update s.workerTable name handle }

def Request.handle : Request ω → Option ω
  | .unstarted _ handle | .serving _ _ handle => handle
  | _ => none

/-- A stop request closes the listener that holds the port; a worker's debugger is on while there
is a goroutine that will turn it off; each goroutine serves the listener of its own request; and
the program runs. -/
structure Sound (s : State ω ι) : Prop where
  stoppable : ∀ n, s.port = some n → s.v8TCPListener = some n
  accounted : ∀ w, s.startDebugFlag w = true ↔ ∃ i, (s.request i).handle = some w
  own : ∀ i n l h, s.request i = .serving n l h → l = some n
  alive : s.crashed = false

/-- No start request finds the port taken; a goroutine starts before the listener of its request
is replaced; and when `Serve` returns there is a worker to turn off, which no other goroutine
has. -/
def InTurn (s : State ω ι) : Action ω ι → Prop
  | .listen _ => s.port = none
  | .serve i => ∀ n h, s.request i = .unstarted n h → s.v8TCPListener = some n
  | .finish i => ∃ w, (s.request i).handle = some w ∧ ∀ j, j ≠ i → (s.request j).handle ≠ some w
  | _ => True

inductive Stepped (s : State ω ι) : Action ω ι → State ω ι → Prop
  | listen {i : ι} (pc : s.request i = .idle) (free : s.port = none) :
      Stepped s (.listen i)
        { s.setRequest i (.listening s.opened) with
          port := some s.opened
          opened := s.opened + 1
          v8TCPListener := some s.opened }
  | refuse {i : ι} {n : ℕ} (pc : s.request i = .idle) (held : s.port = some n) :
      Stepped s (.listen i) { s.setRequest i .ended with v8TCPListener := none }
  | nameless {i : ι} {own : ℕ} (pc : s.request i = .listening own) :
      Stepped s (.lookUp i none) (s.setRequest i .ended)
  | lookUp {i : ι} {own : ℕ} {name : Text} (pc : s.request i = .listening own) :
      Stepped s (.lookUp i (some name))
        ((s.startDebugger (s.workerTable name)).setRequest i
          (.unstarted own (s.workerTable name)))
  | serve {i : ι} {own : ℕ} {handle : Option ω} (pc : s.request i = .unstarted own handle) :
      Stepped s (.serve i) (s.setRequest i (.serving own s.v8TCPListener handle))
  | crash {i : ι} {own : ℕ} {listener : Option ℕ} (pc : s.request i = .serving own listener none) :
      Stepped s (.finish i) { s.setRequest i .ended with crashed := true }
  | finish {i : ι} {own : ℕ} {listener : Option ℕ} {w : ω}
      (pc : s.request i = .serving own listener (some w)) :
      Stepped s (.finish i)
        { s.setRequest i .ended with startDebugFlag := Function.update s.startDebugFlag w false }
  | stopNothing (absent : s.v8TCPListener = none) : Stepped s .stop s
  | stop {n : ℕ} (listener : s.v8TCPListener = some n) :
      Stepped s .stop { s with port := if s.port = some n then none else s.port }
  | setWorker {name : Text} {handle : Option ω} :
      Stepped s (.setWorker name handle)
        { s with workerTable := Function.update s.workerTable name handle }

section
variable {s t : State ω ι} {a : Action ω ι} {i : ι} {r : Request ω}

lemma step_stepped (h : step s a = some t) : s.crashed = false ∧ Stepped s a t := by
  unfold step at h
  obtain ⟨halive, h⟩ := Option.ite_none_left_eq_some.mp h
  refine ⟨by simpa using halive, ?_⟩
  cases a with
  | listen i =>
    simp only at h
    split at h <;> cases h
    · exact .listen ‹_› ‹_›
    · exact .refuse ‹_› ‹_›
  | lookUp i name =>
    simp only at h
    split at h <;> cases h
    · exact .nameless ‹_›
    · exact .lookUp ‹_›
  | serve i =>
    simp only at h
    split at h <;> cases h
    exact .serve ‹_›
  | finish i =>
    simp only at h
    split at h
    · rename_i own listener handle pc
      obtain ⟨-, h⟩ := Option.ite_none_left_eq_some.mp h
      cases handle with
      | none => exact Option.some.inj h ▸ .crash pc
      | some w => exact Option.some.inj h ▸ .finish pc
    · cases h
  | stop =>
    simp only at h
    split at h <;> cases h
    · exact .stopNothing ‹_›
    · exact .stop ‹_›
  | setWorker name handle => exact Option.some.inj h ▸ .setWorker

omit [DecidableEq ω] in
lemma exists_handle_setRequest (s : State ω ι) (i : ι) (r : Request ω) (w : ω) :
    (∃ j, ((s.setRequest i r).request j).handle = some w) ↔
      r.handle = some w ∨ ∃ j, j ≠ i ∧ (s.request j).handle = some w := by
  simp only [State.setRequest, Function.update_apply]
  constructor
  · rintro ⟨j, hj⟩
    split_ifs at hj with hji
    · exact .inl hj
    · exact .inr ⟨j, hji, hj⟩
  · rintro (hr | ⟨j, hji, hj⟩)
    · exact ⟨i, by rw [if_pos rfl, hr]⟩
    · exact ⟨j, by rw [if_neg hji, hj]⟩

omit [DecidableEq ω] [DecidableEq ι] in
lemma exists_ne_iff {w : ω} (h : (s.request i).handle ≠ some w) :
    (∃ j, j ≠ i ∧ (s.request j).handle = some w) ↔ ∃ j, (s.request j).handle = some w := by
  constructor
  · rintro ⟨j, -, hj⟩
    exact ⟨j, hj⟩
  · rintro ⟨j, hj⟩
    refine ⟨j, ?_, hj⟩
    rintro rfl
    exact h hj

omit [DecidableEq ω] in
lemma exists_handle_of_eq (h : r.handle = (s.request i).handle) (w : ω) :
    (∃ j, ((s.setRequest i r).request j).handle = some w) ↔
      ∃ j, (s.request j).handle = some w := by
  rw [exists_handle_setRequest, h]
  by_cases hi : (s.request i).handle = some w
  · exact iff_of_true (.inl hi) ⟨i, hi⟩
  · rw [exists_ne_iff hi, or_iff_right hi]

omit [DecidableEq ω] in
lemma own_setRequest (h : ∀ i n l h, s.request i = .serving n l h → l = some n)
    (hr : ∀ n l h, r = .serving n l h → l = some n) :
    ∀ j n l h, (s.setRequest i r).request j = .serving n l h → l = some n := by
  intro j n l handle hj
  simp only [State.setRequest, Function.update_apply] at hj
  split_ifs at hj with hji
  · exact hr n l handle hj
  · exact h j n l handle hj

omit [DecidableEq ι] in
lemma startDebugFlag_startDebugger (s : State ω ι) (handle : Option ω) (w : ω) :
    (s.startDebugger handle).startDebugFlag w = true ↔
      handle = some w ∨ s.startDebugFlag w = true := by
  cases handle with
  | none => simp [State.startDebugger]
  | some v =>
    simp only [State.startDebugger, Function.update_apply, Option.some.injEq]
    split_ifs with hwv
    · simp [hwv]
    · simp [Ne.symm hwv]

omit [DecidableEq ω] [DecidableEq ι] in
lemma Sound.initial (workerTable : Text → Option ω) :
    Sound (State.initial workerTable : State ω ι) where
  stoppable n h := nomatch h
  accounted w := by simp [State.initial, Request.handle]
  own i n l h hr := nomatch hr
  alive := rfl

lemma Stepped.sound_iff (hs : Stepped s a t) (h : Sound s) : Sound t ↔ InTurn s a := by
  cases hs with
  | @listen i pc free =>
    refine iff_of_true ⟨fun n hn => hn, fun w => ?_, ?_, h.alive⟩ free
    · rw [exists_handle_of_eq (by rw [pc]; rfl)]
      exact h.accounted w
    · exact own_setRequest h.own nofun
  | @refuse i n pc held =>
    refine iff_of_false (fun ht => ?_) (fun hok => ?_)
    · exact nomatch ht.stoppable n held
    · rw [InTurn, held] at hok
      cases hok
  | @nameless i own pc =>
    refine iff_of_true ⟨h.stoppable, fun w => ?_, own_setRequest h.own nofun, h.alive⟩ trivial
    rw [exists_handle_of_eq (by rw [pc]; rfl)]
    exact h.accounted w
  | @lookUp i own name pc =>
    refine iff_of_true ?_ trivial
    generalize s.workerTable name = handle
    have hport : (s.startDebugger handle).port = s.port ∧
        (s.startDebugger handle).v8TCPListener = s.v8TCPListener ∧
        (s.startDebugger handle).request = s.request ∧
        (s.startDebugger handle).crashed = s.crashed := by
      cases handle <;> exact ⟨rfl, rfl, rfl, rfl⟩
    obtain ⟨hport, hlistener, hrequest, hcrashed⟩ := hport
    refine ⟨fun n hn => ?_, fun w => ?_, own_setRequest (hrequest ▸ h.own) nofun, ?_⟩
    · exact hlistener.trans (h.stoppable n (hport ▸ hn))
    · have hflag := startDebugFlag_startDebugger s handle w
      have hnone : (s.request i).handle = none := by rw [pc]; rfl
      rw [exists_handle_setRequest, hrequest]
      rw [exists_ne_iff (by simp [hnone]), ← h.accounted]
      exact hflag
    · exact hcrashed.trans h.alive
  | @serve i own handle pc =>
    constructor
    · intro ht n h' hr
      obtain ⟨rfl, rfl⟩ := Request.unstarted.inj (pc.symm.trans hr)
      exact ht.own i own _ handle (Function.update_self _ _ _)
    · intro hok
      refine ⟨h.stoppable, fun w => ?_, own_setRequest h.own ?_, h.alive⟩
      · rw [exists_handle_of_eq (by rw [pc]; rfl)]
        exact h.accounted w
      · rintro n l h' hr
        obtain ⟨rfl, rfl, -⟩ := Request.serving.inj hr
        exact hok own handle pc
  | @crash i own listener pc =>
    refine iff_of_false (fun ht => ?_) ?_
    · exact nomatch ht.alive
    · rintro ⟨w, hw, -⟩
      rw [pc] at hw
      cases hw
  | @finish i own listener w pc =>
    have hw : (s.request i).handle = some w := by rw [pc]; rfl
    constructor
    · intro ht
      refine ⟨w, hw, fun j hji hj => ?_⟩
      have hon := (ht.accounted w).mpr
        ((exists_handle_setRequest s i .ended w).mpr (.inr ⟨j, hji, hj⟩))
      simp at hon
    · rintro ⟨v, hv, hothers⟩
      obtain rfl : w = v := Option.some.inj (hw.symm.trans hv)
      refine ⟨h.stoppable, fun u => ?_, own_setRequest h.own nofun, h.alive⟩
      refine Iff.trans ?_ (exists_handle_setRequest s i .ended u).symm
      by_cases huw : u = w
      · subst huw
        refine iff_of_false (by simp) ?_
        rintro (hended | ⟨j, hji, hj⟩)
        · cases hended
        · exact hothers j hji hj
      · change Function.update s.startDebugFlag w false u = true ↔ _
        have hother : (s.request i).handle ≠ some u := by simpa [hw] using Ne.symm huw
        rw [Function.update_of_ne huw, h.accounted, exists_ne_iff hother]
        simp [Request.handle]
  | stopNothing => exact iff_of_true h trivial
  | @stop n hlistener =>
    refine iff_of_true ⟨fun m hm => ?_, h.accounted, h.own, h.alive⟩ trivial
    simp only at hm
    split_ifs at hm with hn
    exact absurd (hm.trans ((h.stoppable m hm).symm.trans hlistener)) hn
  | setWorker => exact iff_of_true ⟨h.stoppable, h.accounted, h.own, h.alive⟩ trivial

/-- Once the port is free and the goroutines have nothing left to do, every debugger is off. -/
theorem Sound.off (h : Sound s) (hport : s.port = none)
    (hstuck : ∀ i, step s (.serve i) = none ∧ step s (.finish i) = none) (w : ω) :
    s.startDebugFlag w = false := by
  rw [← Bool.not_eq_true, h.accounted]
  rintro ⟨i, hi⟩
  obtain ⟨hserve, hfinish⟩ := hstuck i
  cases hr : s.request i with
  | unstarted own handle => simp [step, h.alive, hr] at hserve
  | serving own listener handle =>
    obtain rfl := h.own i own listener handle hr
    cases handle <;> simp [step, h.alive, hr, hport] at hfinish
  | idle | listening | ended =>
    rw [hr] at hi
    cases hi

/-- In every run, a debugger can be stopped and is on just as long as its server, exactly when
the start requests come in turn. -/
theorem inTurn_along_iff (workerTable : Text → Option ω) (as : List (Action ω ι)) :
    Along step (fun _ _ t => Sound t) (.initial workerTable) as ↔
      Along step (fun s a _ => InTurn s a) (.initial workerTable) as := by
  apply along_iff (I := Sound)
  · exact Sound.initial workerTable
  · intro s a t h hs
    exact (step_stepped hs).2.sound_iff h
  · exact fun _ _ _ _ _ ht => ht

end

-- The second start request takes the listener of the first from the stop request.
example : (exec step (fun _ _ => True) (.initial fun _ => none : State Unit (Fin 2))
    [.listen 0, .listen 1, .stop]).any (fun s => s.port = some 0) = true := by
  decide

end Eventing.DebugServer
