import Eventing.PipelineWorker

/-!
# Handlers triggered by their own writes

The marker of a mutation is stored after the mutation is on the stream, and is
deleted when the first instance meets it. A lookup that comes too early or too
late misses it, and the mutation goes to the `OnUpdate` of the application that
wrote it. These are the only ways this can happen.
-/
namespace Eventing.Pipeline
open CasMarker KvStore Transition

variable {ι App : Type*}

/-- No mutation written by a handler of an application reached its `OnUpdate`. -/
def NoFeedback (app : ι → App) (s : State ι App) : Prop :=
  ∀ i, ∀ e ∈ (s.inst i).updates, e.writer ≠ some (app i)

/-- The message that `handleDcpEvent` is about to look up. -/
def WorkerPc.toLookUp : WorkerPc App → Option (Entry App)
  | .received e => some e
  | _ => none

/-- A lookup of an application's own mutation comes after the `BucketSet` that
wrote it has finished and before any instance has deleted the marker. -/
def LookupInTime (app : ι → App) (s : State ι App) : Action ι → Prop
  | .lookup i => ∀ e ∈ (s.inst i).pc.toLookUp, e.writer = some (app i) →
      ¬ s.Pending e.event.cas ∧ ¬ s.Skipped e
  | _ => True

instance [Fintype ι] (s : State ι App) (c : Cas) : Decidable (s.Pending c) :=
  inferInstanceAs (Decidable (∃ i, (s.inst i).isolate.pending.map Prod.fst = some c))

instance [Fintype ι] [DecidableEq App] (s : State ι App) (e : Entry App) :
    Decidable (s.Skipped e) :=
  inferInstanceAs (Decidable (∃ i, e ∈ (s.inst i).skipped))

instance [Fintype ι] [DecidableEq App] (app : ι → App) (s : State ι App) :
    DecidablePred (LookupInTime app s)
  | .lookup i => inferInstanceAs (Decidable (∀ e ∈ (s.inst i).pc.toLookUp,
      e.writer = some (app i) → ¬ s.Pending e.event.cas ∧ ¬ s.Skipped e))
  | .client _ | .deploy _ | .pull _ | .forward _ | .receive _ | .tick _ | .send _ | .unmark _
  | .enter _ _ | .store _ _ _ _ | .mark _ | .leave _ _ | .quit _ => isTrue trivial

/-- The mutation at hand, and those passed on before, are not the application's own. -/
def Clean (a : App) (w : Instance App) : Prop :=
  (∀ e, w.pc = .missed e → e.writer ≠ some a) ∧ ∀ e ∈ w.updates, e.writer ≠ some a

variable [DecidableEq ι] {host : Host} {app : ι → App} {s t : State ι App} {a : Action ι}

lemma clean_step (hm : Markers app s) (h : ∀ j, Clean (app j) (s.inst j))
    (hok : LookupInTime app s a) (hs : Stepped host app s a t) :
    ∀ j, Clean (app j) (t.inst j) := by
  have keep : ∀ {i : ι} {w : Instance App}, Clean (app i) w →
      ∀ j, Clean (app j) ((s.setInst i w).inst j) :=
    fun hw => forall_setInst (P := fun j w => Clean (app j) w) h hw
  cases hs with
  | client _ => exact h
  | tick _ => exact h
  | @miss i e hpc hop hmark =>
    refine keep ⟨?_, (h i).2⟩
    intro e' he'
    simp only [WorkerPc.missed.injEq] at he'
    subst he'
    intro hw
    have hcur : (s.inst i).pc.current = some e := by rw [hpc]; rfl
    obtain ⟨hnp, hns⟩ := hok e (by rw [hpc]; rfl) hw
    have hw' : e.writer ≠ none := by simp [hw]
    exact (hm.lookup_iff ((hm.flow i).current_mem hcur) hop).mpr ⟨hw', hnp, hns⟩ hmark
  | @sendUpdate i e hpc _ =>
    refine keep ⟨by simp, ?_⟩
    intro e' he'
    rcases List.mem_append.mp he' with hu | hu
    · exact (h i).2 e' hu
    · rw [List.mem_singleton.mp hu]
      exact (h i).1 e hpc
  | @leave i hd ok _ =>
    refine keep ⟨?_, (h i).2⟩
    cases hd.ofWorker with
    | false => exact (h i).1
    | true => simp
  | @pull i _ _ _ | @forward i _ _ _ | @enter i _ _ _ => exact keep ⟨(h i).1, (h i).2⟩
  | @store i _ _ _ _ _ _ => exact keep ⟨(h i).1, (h i).2⟩
  | @mark i _ _ _ _ => exact keep ⟨(h i).1, (h i).2⟩
  | @deploy i _ | @quit i _ | @receive i _ _ _ _ | @hit i _ _ _ _ _ | @deletion i _ _ _
  | @ignore i _ _ _ | @sendDelete i _ _ _ => exact keep ⟨by simp, (h i).2⟩
  | @unmark i e _ => exact keep ⟨by simp, (h i).2⟩

omit [DecidableEq ι] in
lemma clean_initial (j : ι) : Clean (app j) ((initial : State ι App).inst j) := by
  simp [Clean, initial, Instance.initial]

/-- One application, any instances of it that its redeploys start, and handlers
on any goroutine. -/
theorem noFeedback_of_lookupInTime (host : Host) (a : App) {s : State ι App}
    (h : Reach (step host fun _ => a) (LookupInTime fun _ => a) initial s) :
    NoFeedback (fun _ => a) s := by
  have hinv : Markers (fun _ => a) s ∧ ∀ j, Clean a (s.inst j) := by
    refine h.invariant (I := fun s => Markers (fun _ => a) s ∧ ∀ j, Clean a (s.inst j))
      ⟨markers_initial, clean_initial⟩ ?_
    rintro s act t ⟨hm, hc⟩ hok hs
    have hst := step_stepped hs
    exact ⟨markers_step hm hst, clean_step hm hc hok hst⟩
  exact fun i => (hinv.2 i).2

/-- A lookup of an own mutation that is not in time leads to `OnUpdate`. -/
theorem missed_of_not_lookupInTime (h : Reachable (step host app) initial s) {i : ι}
    {e : Entry App} (hpc : (s.inst i).pc = .received e) (hop : e.event.opcode = .mutation)
    (hlate : s.Pending e.event.cas ∨ s.Skipped e) :
    ∃ t, step host app s (.lookup i) = some t ∧ (t.inst i).pc = .missed e := by
  have hm := markers_reachable h
  have hcur : (s.inst i).pc.current = some e := by rw [hpc]; rfl
  have hmark : get s.metadata (casValue e.event.cas) = none := by
    by_contra hne
    obtain ⟨-, hnp, hns⟩ := (hm.lookup_iff ((hm.flow i).current_mem hcur) hop).mp hne
    exact hlate.elim hnp hns
  refine ⟨s.setInst i (dispatch s (s.inst i) e), by simp only [step, hpc], ?_⟩
  simp [State.setInst, dispatch, hop, hmark]

/-- A timer callback writes a document; the change is looked up before the marker
is stored. -/
def timerRaceRun : List (Action (Fin 2)) :=
  [.deploy 0, .enter 0 .timerCallback, .store 0 ['b'] ['2'] 8#64, .pull 0, .forward 0, .receive 0,
    .lookup 0, .mark 0, .leave 0 true, .send 0]

/-- `OnUpdate` writes a document and its change is skipped; a redeploy starts a
second instance, which gets the same change from the start of the stream. -/
def replayRun : List (Action (Fin 2)) :=
  [.deploy 0, .client ⟨.mutation, ['a'], ['1'], 0, 0, 7#64⟩, .pull 0, .forward 0, .receive 0,
    .lookup 0, .send 0, .store 0 ['b'] ['2'] 8#64, .mark 0, .leave 0 true, .pull 0, .forward 0,
    .receive 0, .lookup 0, .unmark 0, .quit 0, .deploy 1, .pull 1, .forward 1, .receive 1,
    .lookup 1, .send 1, .leave 1 true, .pull 1, .forward 1, .receive 1, .lookup 1, .send 1]

theorem not_noFeedback_timerRace_replay :
    (∃ s : State (Fin 2) Unit,
      exec (step .littleEndian fun _ => ()) (fun _ _ => True) initial timerRaceRun = some s ∧
        ¬ NoFeedback (fun _ => ()) s) ∧
    ∃ s : State (Fin 2) Unit,
      exec (step .littleEndian fun _ => ()) WorkerHandlersOnly initial replayRun = some s ∧
        ¬ NoFeedback (fun _ => ()) s := by
  constructor
  · obtain ⟨s, he, -, hp⟩ := exec_of_any (step .littleEndian fun _ => ())
      (fun _ _ => True) (initial : State (Fin 2) Unit) timerRaceRun
      (fun s => (s.inst 0).updates.any fun e => e.writer = some ()) (by decide)
    obtain ⟨e, hu, hw⟩ := List.any_eq_true.mp hp
    exact ⟨s, he, fun h => h 0 e hu (of_decide_eq_true hw)⟩
  · obtain ⟨s, he, -, hp⟩ := exec_of_any (step .littleEndian fun _ => ())
      WorkerHandlersOnly (initial : State (Fin 2) Unit) replayRun
      (fun s => (s.inst 1).updates.any fun e => e.writer = some ()) (by decide)
    obtain ⟨e, hu, hw⟩ := List.any_eq_true.mp hp
    exact ⟨s, he, fun h => h 1 e hu (of_decide_eq_true hw)⟩

/-- The timer callback's marker is stored before its change is looked up. -/
def timerInTimeRun : List (Action (Fin 2)) :=
  [.deploy 0, .enter 0 .timerCallback, .store 0 ['b'] ['2'] 8#64, .pull 0, .forward 0, .receive 0,
    .mark 0, .lookup 0, .leave 0 true, .unmark 0]

theorem noFeedback_timerInTimeRun :
    ∃ s : State (Fin 2) Unit,
      exec (step .littleEndian fun _ => ()) (LookupInTime fun _ => ()) initial timerInTimeRun =
        some s ∧ (s.inst 0).skipped.length = 1 ∧ NoFeedback (fun _ => ()) s := by
  obtain ⟨s, he, hr, hp⟩ := exec_of_any (step .littleEndian fun _ => ())
    (LookupInTime fun _ => ()) (initial : State (Fin 2) Unit) timerInTimeRun
    (fun s => (s.inst 0).skipped.length == 1) (by decide)
  exact ⟨s, he, by simpa using hp, noFeedback_of_lookupInTime _ _ hr⟩

/-- Handlers run in `runWorker` only, and no worker looks up a mutation of its own
application after a worker of another one has deleted the marker. -/
def LookupBeforeOthers (app : ι → App) (s : State ι App) : Action ι → Prop
  | .lookup i => ∀ e ∈ (s.inst i).pc.toLookUp, e.writer = some (app i) →
      ∀ j, j ≠ i → e ∉ (s.inst j).skipped
  | a => WorkerHandlersOnly s a

instance [Fintype ι] [DecidableEq App] (app : ι → App) (s : State ι App) :
    DecidablePred (LookupBeforeOthers app s)
  | .lookup i => inferInstanceAs (Decidable (∀ e ∈ (s.inst i).pc.toLookUp,
      e.writer = some (app i) → ∀ j, j ≠ i → e ∉ (s.inst j).skipped))
  | .client _ | .deploy _ | .pull _ | .forward _ | .receive _ | .tick _ | .send _ | .unmark _
  | .enter _ _ | .store _ _ _ _ | .mark _ | .leave _ _ | .quit _ =>
      inferInstanceAs (Decidable (WorkerHandlersOnly s _))

omit [DecidableEq ι] in
lemma LookupBeforeOthers.workerHandlersOnly (h : LookupBeforeOthers app s a) :
    WorkerHandlersOnly s a := by
  cases a with
  | lookup i => rfl
  | _ => exact h

omit [DecidableEq ι] in
/-- With one worker for each application, its own unfinished `BucketSet` and its
own earlier skips never get in the way. -/
theorem lookupInTime_of_beforeOthers (hr : WorkerRun app s) (inj : Function.Injective app)
    (hok : LookupBeforeOthers app s a) : LookupInTime app s a := by
  cases a with
  | lookup i =>
    intro e he hw
    have hpc : (s.inst i).pc = .received e := by
      cases hp : (s.inst i).pc <;> simp_all [WorkerPc.toLookUp]
    have hcur : (s.inst i).pc.current = some e := by rw [hpc]; rfl
    have hm := hr.markers
    have hfeed := (hm.flow i).current_mem hcur
    have hop := hm.written e hfeed (by simp [hw])
    constructor
    · rintro ⟨j, hj⟩
      obtain ⟨⟨c, key⟩, hck, hc⟩ := Option.map_eq_some_iff.mp hj
      obtain ⟨e', he', hw', hc', -⟩ := hm.pending j c key hck
      have hee : e' = e := hm.unique e' he' e hfeed (hm.written e' he' (by simp [hw'])) hop
        (hc'.trans hc)
      rw [hee, hw] at hw'
      have hji : j = i := inj (Option.some.inj hw').symm
      rw [hji, (hr.only i).pending (by simp [hpc])] at hck
      cases hck
    · rintro ⟨j, hj⟩
      by_cases hji : j = i
      · rw [hji] at hj
        exact notMem_skipped_of_current (hm.flow i) hr.distinct (hr.skips i) hop hcur hj
      · exact hok e he hw j hji hj
  | _ => trivial

/-- Any set of applications, one worker each, over the same two buckets. -/
theorem noFeedback_of_lookupBeforeOthers [DecidableEq App] (host : Host) {s : State App App}
    (h : Reach (step host id) (LookupBeforeOthers id) initial s) : NoFeedback id s := by
  have hinv : WorkerRun id s ∧ ∀ j, Clean (id j) (s.inst j) := by
    refine h.invariant (I := fun s => WorkerRun id s ∧ ∀ j, Clean (id j) (s.inst j))
      ⟨workerRun_initial, clean_initial⟩ ?_
    rintro s a t ⟨hr, hc⟩ hok hs
    have hst := step_stepped hs
    have htime := lookupInTime_of_beforeOthers hr Function.injective_id hok
    exact ⟨workerRun_step hr hok.workerHandlersOnly hst, clean_step hr.markers hc htime hst⟩
  exact fun i => (hinv.2 i).2

/-- The applications under `apps/`, which share both buckets. -/
inductive ShippedApp
  | creditScore
  | testApp
  deriving DecidableEq

instance : Fintype ShippedApp where
  elems := {.creditScore, .testApp}
  complete := by
    intro a
    cases a <;> simp

open ShippedApp in
/-- `credit_score` writes a document in `OnUpdate`; the worker of `test_app` meets
the change first and takes the marker away. -/
def markerTakenRun : List (Action ShippedApp) :=
  [.deploy creditScore, .deploy testApp, .client ⟨.mutation, ['a'], ['1'], jsonType, 0, 7#64⟩,
    .pull creditScore, .forward creditScore, .receive creditScore, .lookup creditScore,
    .send creditScore, .store creditScore ['a'] ['2'] 8#64, .mark creditScore,
    .leave creditScore true,
    .pull testApp, .forward testApp, .receive testApp, .lookup testApp, .send testApp,
    .leave testApp true, .pull testApp, .forward testApp, .receive testApp, .lookup testApp,
    .unmark testApp,
    .pull creditScore, .forward creditScore, .receive creditScore, .lookup creditScore,
    .send creditScore]

theorem not_noFeedback_markerTakenRun :
    ∃ s : State ShippedApp ShippedApp,
      exec (step .littleEndian id) WorkerHandlersOnly initial markerTakenRun = some s ∧
        ¬ NoFeedback id s := by
  obtain ⟨s, he, -, hp⟩ := exec_of_any (step .littleEndian id)
    WorkerHandlersOnly (initial : State ShippedApp ShippedApp) markerTakenRun
    (fun s => (s.inst .creditScore).updates.any fun e => e.writer = some .creditScore)
    (by decide)
  obtain ⟨e, hu, hw⟩ := List.any_eq_true.mp hp
  exact ⟨s, he, fun h => h .creditScore e hu (of_decide_eq_true hw)⟩

open ShippedApp in
/-- The worker of `credit_score` meets its own change before `test_app` does. -/
def markerKeptRun : List (Action ShippedApp) :=
  [.deploy creditScore, .deploy testApp, .client ⟨.mutation, ['a'], ['1'], jsonType, 0, 7#64⟩,
    .pull creditScore, .forward creditScore, .receive creditScore, .lookup creditScore,
    .send creditScore, .store creditScore ['a'] ['2'] 8#64, .mark creditScore,
    .leave creditScore true, .pull creditScore, .forward creditScore, .receive creditScore,
    .lookup creditScore, .unmark creditScore]

theorem noFeedback_markerKeptRun :
    ∃ s : State ShippedApp ShippedApp,
      exec (step .littleEndian id) (LookupBeforeOthers id) initial markerKeptRun = some s ∧
        (s.inst .creditScore).skipped.length = 1 ∧ NoFeedback id s := by
  obtain ⟨s, he, hr, hp⟩ := exec_of_any (step .littleEndian id)
    (LookupBeforeOthers id) (initial : State ShippedApp ShippedApp) markerKeptRun
    (fun s => (s.inst .creditScore).skipped.length == 1) (by decide)
  exact ⟨s, he, by simpa using hp, noFeedback_of_lookupBeforeOthers _ hr⟩

end Eventing.Pipeline
