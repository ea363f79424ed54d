import Mathlib.Data.Fintype.Basic
import Eventing.Deploy

/-!
# At most one live worker for an application

A request to deploy finds the worker to stop in `workerTable`, where a worker is
entered some time after the request that started it. A second request in between
stops nobody, or the same worker again, and both new workers stay alive. When no
request comes in between, every worker but the one in the table has been told to quit.
-/
namespace Eventing.Deploy
open Transition

variable {ι App : Type*}

def Phase.inSetUp : Phase → Bool
  | .connecting | .installed | .referring _ => true
  | .undeployed | .running | .quitting | .stuck | .stopped => false

def Phase.preLoad : Phase → Bool
  | .connecting | .installed => true
  | .undeployed | .referring _ | .running | .quitting | .stuck | .stopped => false

/-- The worker is in `workerTable`, or was, and can still receive `Quit`. -/
def Phase.loaded : Phase → Bool
  | .referring _ | .running => true
  | .undeployed | .connecting | .installed | .quitting | .stuck | .stopped => false

def Phase.live : Phase → Bool
  | .running | .quitting | .stuck => true
  | .undeployed | .connecting | .installed | .referring _ | .stopped => false

/-- A `Quit` message is in the channel, or was received and not yet acted upon. -/
def State.pendingQuit (s : State ι App) (i : ι) : Bool :=
  s.quit i || s.phase i = .quitting || s.phase i = .stuck

def AtMostOneLive (app : ι → App) (s : State ι App) : Prop :=
  ∀ a, (∀ i, app i = a → (s.phase i).inSetUp = false) →
    (∀ i, app i = a → (s.phase i).live = true → s.pendingQuit i = false) →
    ∀ i j, app i = a → app j = a → (s.phase i).live = true → (s.phase j).live = true → i = j

/-- `main` sets an application up before it serves requests. -/
def BootFirst (app : ι → App) (s : State ι App) : Action ι → Prop
  | .boot i => ∀ j, app j = app i → s.phase j = .undeployed
  | _ => True

/-- No request for an application comes while `setUpEventingApp` has still to enter
a worker of it in `workerTable`. -/
def RequestAfterLoad (app : ι → App) (s : State ι App) : Action ι → Prop
  | .storeAppSetup i => ∀ j, app j = app i → (s.phase j).preLoad = false
  | _ => True

instance [Fintype ι] [DecidableEq App] (app : ι → App) (s : State ι App) :
    DecidablePred (BootFirst app s)
  | .boot i => inferInstanceAs (Decidable (∀ j, app j = app i → s.phase j = .undeployed))
  | .storeAppSetup _ | .installChans _ | .loadApp _ | .addReferrer _ | .startWorker _
  | .receiveQuit _ | .tearDown _ | .closeStream _ | .closeTimer _ | .crash _ => isTrue trivial

instance [Fintype ι] [DecidableEq App] (app : ι → App) (s : State ι App) :
    DecidablePred (RequestAfterLoad app s)
  | .storeAppSetup i =>
      inferInstanceAs (Decidable (∀ j, app j = app i → (s.phase j).preLoad = false))
  | .boot _ | .installChans _ | .loadApp _ | .addReferrer _ | .startWorker _
  | .receiveQuit _ | .tearDown _ | .closeStream _ | .closeTimer _ | .crash _ => isTrue trivial

/-- One worker of an application at most is on its way to the table, and then all
others have been told to quit; a worker that was not told is the one in the table. -/
structure Sole (app : ι → App) (s : State ι App) : Prop where
  one : ∀ i j, app i = app j → (s.phase i).preLoad = true → (s.phase j).preLoad = true → i = j
  told : ∀ i j, app i = app j → (s.phase i).preLoad = true → (s.phase j).loaded = true →
    s.quit j = true
  table : ∀ i, (s.phase i).loaded = true → s.quit i = false → s.workerTable (app i) = some i

variable {app : ι → App} {referrers : ι → List Text} {s t : State ι App} {a : Action ι}

lemma sole_initial : Sole app (State.initial : State ι App) := by
  constructor <;> simp [State.initial, Phase.preLoad, Phase.loaded]

theorem Sole.keep (h : Sole app s)
    (hpre : ∀ i, (t.phase i).preLoad = true → (s.phase i).preLoad = true)
    (hload : ∀ i, (t.phase i).loaded = true → (s.phase i).loaded = true ∧ t.quit i = s.quit i)
    (htable : t.workerTable = s.workerTable) : Sole app t := by
  constructor
  case one => exact fun i j ha hi hj => h.one i j ha (hpre i hi) (hpre j hj)
  case told =>
    intro i j ha hi hj
    obtain ⟨hl, hq⟩ := hload j hj
    rw [hq]
    exact h.told i j ha (hpre i hi) hl
  case table =>
    intro i hi hq
    obtain ⟨hl, hq'⟩ := hload i hi
    rw [htable]
    exact h.table i hl (hq' ▸ hq)

variable [DecidableEq ι]

lemma phase_update {phase : ι → Phase} {i j : ι} {p : Phase} {f : Phase → Bool}
    (hp : f p = true → f (phase i) = true) (h : f (Function.update phase i p j) = true) :
    f (phase j) = true := by
  by_cases he : j = i
  · subst he
    exact hp (by simpa using h)
  · simpa [he] using h

theorem Sole.leave (h : Sole app s) {i : ι} {p : Phase} (hpre : p.preLoad = false)
    (hload : p.loaded = false) (hphase : t.phase = Function.update s.phase i p)
    (hquit : ∀ j, j ≠ i → t.quit j = s.quit j) (htable : t.workerTable = s.workerTable) :
    Sole app t := by
  refine h.keep ?_ ?_ htable
  · rw [hphase]
    exact fun j => phase_update (by simp [hpre])
  · rw [hphase]
    intro j hj
    have hne : j ≠ i := by
      intro he
      simp [he, hload] at hj
    exact ⟨by simpa [hne] using hj, hquit j hne⟩

theorem Sole.request (h : Sole app s) {i : ι} (quit : ι → Bool)
    (hpre : ∀ j, app j = app i → (s.phase j).preLoad = false)
    (hquit : ∀ j, s.quit j = true → quit j = true)
    (htold : ∀ j, app i = app j → (s.phase j).loaded = true → quit j = true) :
    Sole app { s.setPhase i .connecting with quit := quit } := by
  have hphase : ∀ j, (s.setPhase i .connecting).phase j =
      if j = i then .connecting else s.phase j := by
    intro j
    by_cases he : j = i <;> simp [State.setPhase, he]
  have hloaded : ∀ j, ((s.setPhase i .connecting).phase j).loaded = true →
      (s.phase j).loaded = true := by
    intro j hj
    rw [hphase] at hj
    split_ifs at hj
    · simp [Phase.loaded] at hj
    · exact hj
  have hold : ∀ j, app j = app i →
      ((s.setPhase i .connecting).phase j).preLoad = true → j = i := by
    intro j ha hj
    rw [hphase] at hj
    split_ifs at hj with he
    · exact he
    · simp [hpre j ha] at hj
  constructor
  case one =>
    intro j k ha hj hk
    by_cases hji : app j = app i
    · rw [hold j hji hj, hold k (ha ▸ hji) hk]
    · have hj' : j ≠ i := fun he => hji (by rw [he])
      have hk' : k ≠ i := fun he => hji (by rw [ha, he])
      simp only [hphase, hj', hk', if_false] at hj hk
      exact h.one j k ha hj hk
  case told =>
    intro j k ha hj hk
    by_cases hji : app j = app i
    · exact htold k (hji.symm.trans ha) (hloaded k hk)
    · have hj' : j ≠ i := fun he => hji (by rw [he])
      simp only [hphase, hj', if_false] at hj
      exact hquit k (h.told j k ha hj (hloaded k hk))
  case table =>
    intro j hj hq
    have hq' : s.quit j = false := by
      cases hs : s.quit j with
      | false => rfl
      | true => simp [hquit j hs] at hq
    exact h.table j (hloaded j hj) hq'

variable [DecidableEq App]

/-- The worker enters the table: by now all others have been told to quit. -/
theorem sole_loadApp (h : Sole app s) {i : ι} (hp : s.phase i = .installed) :
    Sole app { s.setPhase i (.referring (referrers i)) with
      workerTable := Function.update s.workerTable (app i) (some i) } := by
  have hpre : ∀ j, (Function.update s.phase i (.referring (referrers i)) j).preLoad = true →
      (s.phase j).preLoad = true := fun j => phase_update (by simp [Phase.preLoad])
  have hi : (s.phase i).preLoad = true := by rw [hp]; rfl
  constructor
  case one => exact fun j k ha hj hk => h.one j k ha (hpre j hj) (hpre k hk)
  case told =>
    intro j k ha hj hk
    have hji : j ≠ i := by
      intro he
      simp [State.setPhase, he, Phase.preLoad] at hj
    by_cases hki : k = i
    · subst hki
      exact absurd (h.one j k ha (hpre j hj) hi) hji
    · exact h.told j k ha (hpre j hj) (by simpa [State.setPhase, hki] using hk)
  case table =>
    intro j hj hq
    by_cases hji : j = i
    · simp [hji]
    · have hl : (s.phase j).loaded = true := by simpa [State.setPhase, hji] using hj
      by_cases ha : app j = app i
      · have ht : s.quit j = true := h.told i j ha.symm hi hl
        exact absurd (ht.symm.trans hq) (by simp)
      · simpa [ha] using h.table j hl hq

lemma sole_step (h : Sole app s) (hboot : BootFirst app s a) (hok : RequestAfterLoad app s a)
    (hs : Stepped app referrers s a t) : Sole app t := by
  cases hs with
  | @boot i _ =>
    refine h.request s.quit (fun j ha => ?_) (fun _ hq => hq) (fun j ha hj => ?_)
    · simp [hboot j ha, Phase.preLoad]
    · simp [hboot j ha.symm, Phase.loaded] at hj
  | @deploy i _ _ hw =>
    refine h.request s.quit hok (fun _ hq => hq) fun j ha hj => ?_
    cases hq : s.quit j with
    | true => rfl
    | false =>
      have ht := h.table j hj hq
      simp [← ha, hw] at ht
  | @redeploy i w _ _ hw _ =>
    refine h.request _ hok (fun j hq => ?_) fun j ha hj => ?_
    · by_cases he : j = w <;> simp [he, hq]
    · cases hq : s.quit j with
      | true => by_cases he : j = w <;> simp [he, hq]
      | false =>
        have ht := h.table j hj hq
        rw [← ha, hw, Option.some.injEq] at ht
        simp [ht]
  | @installChans i hp _ =>
    exact h.keep (fun j => phase_update (by simp [hp, Phase.preLoad]))
      (fun j hj => ⟨phase_update (by simp [Phase.loaded]) hj, rfl⟩) rfl
  | loadApp hp _ => exact sole_loadApp h hp
  | @addReferrer i _ _ hp _ =>
    exact h.keep (fun j => phase_update (by simp [Phase.preLoad]))
      (fun j hj => ⟨phase_update (by simp [hp, Phase.loaded]) hj, rfl⟩) rfl
  | @startWorker i hp =>
    exact h.keep (fun j => phase_update (by simp [Phase.preLoad]))
      (fun j hj => ⟨phase_update (by simp [hp, Phase.loaded]) hj, rfl⟩) rfl
  | receiveQuit _ _ => exact h.leave rfl rfl rfl (fun j hj => by simp [hj]) rfl
  | tearDownNil _ _ _ | tearDownClosed _ _ _ _ | tearDown _ _ _ _ _ | crash _ _ =>
    exact h.leave rfl rfl rfl (fun _ _ => rfl) rfl
  | closeStream _ | closeTimer _ => exact ⟨h.one, h.told, h.table⟩

/-- Any number of requests for any applications. -/
theorem atMostOneLive_of_requestAfterLoad (app : ι → App) (referrers : ι → List Text)
    {s : State ι App}
    (h : Reach (step app referrers) (fun s a => BootFirst app s a ∧ RequestAfterLoad app s a)
      .initial s) : AtMostOneLive app s := by
  have hsole : Sole app s := by
    refine h.invariant (I := Sole app) sole_initial ?_
    intro s a t hi hok hs
    exact sole_step hi hok.1 hok.2 (step_stepped hs)
  intro a _ hpending i j hi hj hlive hlive'
  have inTable : ∀ k, app k = a → (s.phase k).live = true → s.workerTable a = some k := by
    intro k hk hl
    have hp := hpending k hk hl
    simp only [State.pendingQuit, Bool.or_eq_false_iff, decide_eq_false_iff_not] at hp
    obtain ⟨⟨hq, hquitting⟩, hstuck⟩ := hp
    cases hphase : s.phase k with
    | running =>
      rw [← hk]
      exact hsole.table k (by rw [hphase]; rfl) hq
    | quitting => exact absurd hphase hquitting
    | stuck => exact absurd hphase hstuck
    | undeployed | connecting | installed | referring _ | stopped =>
      simp [hphase, Phase.live] at hl
  have heq := (inTable i hi hlive).symm.trans (inTable j hj hlive')
  exact Option.some.inj heq

def setUpSteps (i : ι) : List (Action ι) := [.installChans i, .loadApp i, .startWorker i]

/-- The second request waits until the first worker is in the table. -/
def oneAfterTheOther : List (Action Bool) :=
  .storeAppSetup false :: setUpSteps false ++ .storeAppSetup true :: setUpSteps true ++
    [.receiveQuit false, .tearDown false]

theorem atMostOneLive_oneAfterTheOther :
    ∃ s : State Bool Unit,
      exec (step (fun _ => ()) fun _ => [])
        (fun s a => BootFirst (fun _ => ()) s a ∧ RequestAfterLoad (fun _ => ()) s a) .initial
        oneAfterTheOther = some s ∧
      s.phase true = .running ∧ s.phase false = .stopped ∧ AtMostOneLive (fun _ => ()) s := by
  obtain ⟨s, he, hr, hp⟩ := exec_of_any (step (fun _ => ()) fun _ => [])
    (fun s a => BootFirst (fun _ => ()) s a ∧ RequestAfterLoad (fun _ => ()) s a)
    (.initial : State Bool Unit) oneAfterTheOther
    (fun s => s.phase true = .running ∧ s.phase false = .stopped) (by decide)
  obtain ⟨htrue, hfalse⟩ := of_decide_eq_true hp
  exact ⟨s, he, htrue, hfalse, atMostOneLive_of_requestAfterLoad _ _ hr⟩

/-- Both requests come before a worker is in the table. -/
def overlappingRun : List (Action Bool) :=
  [.storeAppSetup false, .storeAppSetup true] ++ setUpSteps false ++ setUpSteps true

theorem not_atMostOneLive_overlappingRun :
    ∃ s : State Bool Unit,
      exec (step (fun _ => ()) fun _ => []) (BootFirst fun _ => ()) .initial overlappingRun =
        some s ∧ ¬ AtMostOneLive (fun _ => ()) s := by
  obtain ⟨s, he, -, hp⟩ := exec_of_any (step (fun _ => ()) fun _ => []) (BootFirst fun _ => ())
    (.initial : State Bool Unit) overlappingRun
    (fun s => (∀ i, s.phase i = .running) ∧ ∀ i, s.quit i = false) (by decide)
  obtain ⟨hrun, hquit⟩ := of_decide_eq_true hp
  refine ⟨s, he, fun h => ?_⟩
  have heq := h () (fun i _ => by rw [hrun]; rfl)
    (fun i _ _ => by simp [State.pendingQuit, hrun, hquit]) false true rfl rfl
    (by rw [hrun]; rfl) (by rw [hrun]; rfl)
  cases heq

end Eventing.Deploy
