import Eventing.Deploy

/-!
# A worker that quits while its successor is set up

On `Quit` a worker looks the channels to signal up under the name of its
application, and deletes the entry. If `setUpEventingApp` of the next deployment has
already entered its own channels there, the worker stops the stream and the timers of
its successor, and its own go on. It is the order of these two sections alone that
decides which channels are signalled and what the tables hold in the end.
-/
namespace Eventing.Deploy
open Transition

variable {ι App : Type*}

def Phase.rank : Phase → ℕ
  | .undeployed => 0
  | .connecting => 1
  | .installed => 2
  | .referring _ => 3
  | .running => 4
  | .quitting => 5
  | .stopped => 6
  | .stuck => 7

/-- `old` is deployed by `main`, and `new` is requested once, while `old` is running. -/
def OneRedeploy (old new : ι) (s : State ι App) : Action ι → Prop
  | .boot i => i = old
  | .storeAppSetup i => i = new ∧ s.phase old = .running
  | _ => True

/-- `old` signals its own channels; when it has stopped and `new` is set up, the
tables hold the channels of `new`, and its handle for all its referrers. -/
def OwnTeardown (app : ι → App) (referrers : ι → List Text) (old new : ι) (s : State ι App) :
    Prop :=
  (∀ c, .tornDown old c ∈ s.log → c = old) ∧
  (s.phase old = .stopped → 4 ≤ (s.phase new).rank →
    s.appDoneChans (app new) = some new ∧
    ∀ referrer ∈ referrers new, s.workerHTTPReferrerTable referrer = some new)

variable [DecidableEq ι]

/-- `old` has quit before the channels of `new` were entered. -/
def QuitFirst (old new : ι) (log : List (Event ι)) : Prop :=
  ∀ c, .tornDown old c ∈ log → .installed new ∉ log.takeWhile (· ≠ .tornDown old c)

/-- The possible histories, each with how far both deployments have come and whose
channels are entered under the application's name. -/
inductive Stage (old new : ι) : List (Event ι) → ℕ → ℕ → Option ι → Prop
  | fresh {p : ℕ} (hp : p ≤ 1) : Stage old new [] p 0 none
  | deployed {p q : ℕ} (hp : 2 ≤ p) (hp' : p ≤ 5) (hq : q ≤ 1) (hpq : 1 ≤ q → 4 ≤ p) :
      Stage old new [.installed old] p q (some old)
  | overlapping {p q : ℕ} (hp : 4 ≤ p) (hp' : p ≤ 5) (hq : 2 ≤ q) :
      Stage old new [.installed old, .installed new] p q (some new)
  | quitAlone {q : ℕ} (hq : q ≤ 1) :
      Stage old new [.installed old, .tornDown old old] 6 q none
  | replaced {q : ℕ} (hq : 2 ≤ q) :
      Stage old new [.installed old, .tornDown old old, .installed new] 6 q (some new)
  | crossed {q : ℕ} (hq : 2 ≤ q) :
      Stage old new [.installed old, .installed new, .tornDown old new] 6 q none

def Entered (referrers : List Text) (table : Text → Option ι) (new : ι) : Phase → Prop
  | .referring rest => ∃ entered, referrers = entered ++ rest ∧ ∀ r ∈ entered, table r = some new
  | .running | .quitting | .stopped | .stuck => ∀ r ∈ referrers, table r = some new
  | .undeployed | .connecting | .installed => True

structure Redeploying (app : ι → App) (referrers : ι → List Text) (old new : ι)
    (s : State ι App) : Prop where
  others : ∀ i, i ≠ old → i ≠ new → s.phase i = .undeployed
  stage : Stage old new s.log (s.phase old).rank (s.phase new).rank (s.appDoneChans (app old))
  quiet : ∀ i, i ≠ old → s.quit i = false ∧ s.phase i ≠ .quitting
  table : ∀ i, s.workerTable (app old) = some i → i = old ∨ (s.phase i).rank ≠ 0
  silent : (s.phase old).rank ≤ 5 → ∀ i, s.dcpStreamClose i = .empty
  entered : s.log = [.installed old, .tornDown old old, .installed new] →
    Entered (referrers new) s.workerHTTPReferrerTable new (s.phase new)

namespace Stage
variable {old new : ι} {log : List (Event ι)} {p p' q q' : ℕ} {c : Option ι}

omit [DecidableEq ι] in
lemma advanceOld (h : Stage old new log p q c) (hp : p = 0 ∧ p' = 1 ∨ 2 ≤ p ∧ p ≤ p' ∧ p' ≤ 5) :
    Stage old new log p' q c := by
  cases h with
  | fresh _ => exact .fresh (by omega)
  | deployed _ _ hq hpq => exact .deployed (by omega) (by omega) hq (by omega)
  | overlapping _ _ hq => exact .overlapping (by omega) (by omega) hq
  | quitAlone _ => omega
  | replaced _ => omega
  | crossed _ => omega

omit [DecidableEq ι] in
lemma advanceNew (h : Stage old new log p q c)
    (hq : p = 4 ∧ q = 0 ∧ q' = 1 ∨ 2 ≤ q ∧ 2 ≤ q') : Stage old new log p q' c := by
  cases h with
  | fresh _ => omega
  | deployed hp hp' _ _ => exact .deployed hp hp' (by omega) (by omega)
  | overlapping hp hp' _ => exact .overlapping hp hp' (by omega)
  | quitAlone _ => omega
  | replaced _ => exact .replaced (by omega)
  | crossed _ => exact .crossed (by omega)

omit [DecidableEq ι] in
lemma installOld (h : Stage old new log 1 q c) :
    Stage old new (log ++ [.installed old]) 2 q (some old) := by
  cases h with
  | fresh _ => exact .deployed (by omega) (by omega) (by omega) (by omega)
  | deployed hp _ _ _ => omega
  | overlapping hp _ _ => omega

omit [DecidableEq ι] in
lemma installNew (h : Stage old new log p 1 c) :
    Stage old new (log ++ [.installed new]) p 2 (some new) := by
  cases h with
  | deployed _ hp' _ hpq => exact .overlapping (hpq (by omega)) hp' (by omega)
  | overlapping _ _ hq => omega
  | quitAlone _ => exact .replaced (by omega)
  | replaced hq => omega
  | crossed hq => omega

omit [DecidableEq ι] in
lemma quitOld {i : ι} (h : Stage old new log 5 q (some i)) :
    Stage old new (log ++ [.tornDown old i]) 6 q none := by
  cases h with
  | deployed _ _ hq _ => exact .quitAlone hq
  | overlapping _ _ hq => exact .crossed hq

omit [DecidableEq ι] in
lemma chans_of_quitting (h : Stage old new log 5 q c) : c ≠ none := by
  cases h with
  | fresh hp => omega
  | deployed _ _ _ _ => simp
  | overlapping _ _ _ => simp

omit [DecidableEq ι] in
lemma of_replaced
    (h : Stage old new [.installed old, .tornDown old old, .installed new] p q c) :
    p = 6 ∧ c = some new := by
  cases h
  exact ⟨rfl, rfl⟩

end Stage

variable {app : ι → App} {referrers : ι → List Text} {old new : ι} {s t : State ι App}
  {a : Action ι}

omit [DecidableEq ι] in
lemma redeploying_initial : Redeploying app referrers old new (.initial : State ι App) := by
  constructor <;> simp [State.initial, Phase.rank]
  exact .fresh (by omega)

omit [DecidableEq ι] in
lemma Redeploying.who (h : Redeploying app referrers old new s) {i : ι}
    (hi : s.phase i ≠ .undeployed) : i = old ∨ i = new := by
  by_contra hn
  rw [not_or] at hn
  exact hi (h.others i hn.1 hn.2)

section Move
variable (hne : old ≠ new) (h : Redeploying app referrers old new s)
include hne h

theorem Redeploying.moveOld {p : Phase} (hphase : t.phase = Function.update s.phase old p)
    (hstage : Stage old new t.log p.rank (s.phase new).rank (t.appDoneChans (app old)))
    (hquit : ∀ i, i ≠ old → t.quit i = s.quit i)
    (htable : ∀ i, t.workerTable (app old) = some i → i = old ∨ s.workerTable (app old) = some i)
    (hsilent : p.rank ≤ 5 → t.dcpStreamClose = s.dcpStreamClose ∧ (s.phase old).rank ≤ 5)
    (hlate : p.rank = 6 → t.appDoneChans (app old) = none) :
    Redeploying app referrers old new t := by
  have hother : ∀ i, i ≠ old → t.phase i = s.phase i := fun i hi => by simp [hphase, hi]
  have hold : t.phase old = p := by simp [hphase]
  constructor
  case others => exact fun i hi hi' => (hother i hi).trans (h.others i hi hi')
  case stage =>
    rw [hold, hother new hne.symm]
    exact hstage
  case quiet =>
    intro i hi
    rw [hquit i hi, hother i hi]
    exact h.quiet i hi
  case table =>
    intro i hi
    by_cases hio : i = old
    · exact .inl hio
    · rcases htable i hi with hi | hi
      · exact .inl hi
      · rw [hother i hio]
        exact h.table i hi
  case silent =>
    rw [hold]
    intro hp i
    rw [(hsilent hp).1]
    exact h.silent (hsilent hp).2 i
  case entered =>
    intro hlog
    rw [hlog] at hstage
    obtain ⟨hp, hc⟩ := hstage.of_replaced
    rw [hlate hp] at hc
    cases hc

theorem Redeploying.moveNew {p : Phase} (hphase : t.phase = Function.update s.phase new p)
    (hrank : p.rank ≠ 0) (hquitting : p ≠ .quitting)
    (hstage : Stage old new t.log (s.phase old).rank p.rank (t.appDoneChans (app old)))
    (hquit : ∀ i, i ≠ old → t.quit i = s.quit i)
    (htable : ∀ i, t.workerTable (app old) = some i → i = new ∨ s.workerTable (app old) = some i)
    (hstream : t.dcpStreamClose = s.dcpStreamClose)
    (hentered : t.log = [.installed old, .tornDown old old, .installed new] →
      Entered (referrers new) t.workerHTTPReferrerTable new p) :
    Redeploying app referrers old new t := by
  have hother : ∀ i, i ≠ new → t.phase i = s.phase i := fun i hi => by simp [hphase, hi]
  have hnew : t.phase new = p := by simp [hphase]
  constructor
  case others => exact fun i hi hi' => (hother i hi').trans (h.others i hi hi')
  case stage =>
    rw [hnew, hother old hne]
    exact hstage
  case quiet =>
    intro i hi
    rw [hquit i hi]
    refine ⟨(h.quiet i hi).1, ?_⟩
    by_cases hin : i = new
    · rwa [hin, hnew]
    · rw [hother i hin]
      exact (h.quiet i hi).2
  case table =>
    intro i hi
    by_cases hin : i = new
    · rw [hin, hnew]
      exact .inr hrank
    · rw [hother i hin]
      exact h.table i ((htable i hi).resolve_left hin)
  case silent =>
    rw [hother old hne, hstream]
    exact h.silent
  case entered =>
    rw [hnew]
    exact hentered

theorem Redeploying.advance {i : ι} {p : Phase} (hi : 2 ≤ (s.phase i).rank)
    (hrank : (s.phase i).rank ≤ p.rank) (hp : p.rank < 5)
    (hphase : t.phase = Function.update s.phase i p) (hlog : t.log = s.log)
    (hchans : t.appDoneChans = s.appDoneChans) (hquit : t.quit = s.quit)
    (hstream : t.dcpStreamClose = s.dcpStreamClose)
    (htable : ∀ j, t.workerTable (app old) = some j → j = i ∨ s.workerTable (app old) = some j)
    (hentered : Entered (referrers i) s.workerHTTPReferrerTable i (s.phase i) →
      Entered (referrers i) t.workerHTTPReferrerTable i p) :
    Redeploying app referrers old new t := by
  have hst := h.stage
  rw [← hlog, ← hchans] at hst
  have hdeployed : s.phase i ≠ .undeployed := by
    intro hu
    simp [hu, Phase.rank] at hi
  rcases h.who hdeployed with rfl | rfl
  · exact h.moveOld hne hphase (hst.advanceOld (.inr ⟨hi, hrank, by omega⟩))
      (fun j _ => by rw [hquit]) htable (fun _ => ⟨hstream, by omega⟩) (by omega)
  · have hquitting : p ≠ .quitting := by
      rintro rfl
      simp [Phase.rank] at hp
    exact h.moveNew hne hphase (by omega) hquitting (hst.advanceNew (.inr ⟨hi, by omega⟩))
      (fun j _ => by rw [hquit]) htable hstream
      (fun hreplaced => hentered (h.entered (hlog.symm.trans hreplaced)))

end Move

section Step
variable (hne : old ≠ new) (happ : app old = app new)
  (h : Redeploying app referrers old new s)
include hne happ h

theorem redeploying_request {i : ι} {quit : ι → Bool} (hp : s.phase i = .undeployed)
    (hok : OneRedeploy old new s (.storeAppSetup i)) (hquit : ∀ j, j ≠ old → quit j = s.quit j) :
    Redeploying app referrers old new { s.setPhase i .connecting with quit := quit } := by
  obtain ⟨rfl, hrun⟩ := hok
  have hst := h.stage
  rw [hp, hrun] at hst
  refine h.moveNew hne rfl (by simp [Phase.rank]) (by simp) ?_ hquit (fun _ => .inr) rfl
    (fun _ => trivial)
  rw [hrun]
  exact hst.advanceNew (.inl ⟨rfl, rfl, rfl⟩)

omit [DecidableEq ι] hne in
theorem worker_eq_old {w : ι} (hp : s.phase new = .undeployed)
    (hw : s.workerTable (app new) = some w) : w = old := by
  by_contra hwo
  have hrank := (h.table w (happ ▸ hw)).resolve_left hwo
  by_cases hwn : w = new
  · simp [hwn, hp, Phase.rank] at hrank
  · simp [h.others w hwo hwn, Phase.rank] at hrank

lemma redeploying_installChans [DecidableEq App] {i : ι} (hp : s.phase i = .connecting) :
    Redeploying app referrers old new { s.setPhase i .installed with
      appDoneChans := Function.update s.appDoneChans (app i) (some i)
      log := s.log ++ [.installed i] } := by
  have hst := h.stage
  rcases h.who (i := i) (by simp [hp]) with rfl | rfl
  · rw [hp] at hst
    refine h.moveOld hne rfl ?_ (fun _ _ => rfl) (fun _ => .inr)
      (fun _ => ⟨rfl, by simp [hp, Phase.rank]⟩) (by simp [Phase.rank])
    simp only [Function.update_self]
    exact hst.installOld
  · rw [hp] at hst
    refine h.moveNew hne rfl (by simp [Phase.rank]) (by simp) ?_ (fun _ _ => rfl)
      (fun _ => .inr) rfl (fun _ => trivial)
    simp only [happ, Function.update_self]
    exact hst.installNew

lemma redeploying_loadApp [DecidableEq App] {i : ι} (hp : s.phase i = .installed) :
    Redeploying app referrers old new { s.setPhase i (.referring (referrers i)) with
      workerTable := Function.update s.workerTable (app i) (some i) } := by
  have hi : app old = app i := by
    rcases h.who (i := i) (by simp [hp]) with rfl | rfl
    · rfl
    · exact happ
  refine h.advance hne (by simp [hp, Phase.rank]) (by simp [hp, Phase.rank]) (by simp [Phase.rank])
    rfl rfl rfl rfl rfl ?_ ?_
  · exact fun j hj => .inl (by simpa [hi, eq_comm] using hj)
  · exact fun _ => ⟨[], by simp⟩

omit happ in
lemma redeploying_addReferrer {i : ι} {referrer : Text} {rest : List Text}
    (hp : s.phase i = .referring (referrer :: rest)) :
    Redeploying app referrers old new { s.setPhase i (.referring rest) with
      workerHTTPReferrerTable := Function.update s.workerHTTPReferrerTable referrer (some i)
      workerHTTPReferrerTableBackIndex :=
        Function.update s.workerHTTPReferrerTableBackIndex i (some referrer) } := by
  refine h.advance hne (by simp [hp, Phase.rank]) (by simp [hp, Phase.rank]) (by simp [Phase.rank])
    rfl rfl rfl rfl rfl (fun _ => .inr) ?_
  intro he
  rw [hp] at he
  obtain ⟨entered, hsplit, htable⟩ := he
  refine ⟨entered ++ [referrer], by simp [hsplit], ?_⟩
  intro r hr
  by_cases hrr : r = referrer
  · simp [hrr]
  · simpa [hrr] using htable r (by simpa [hrr] using hr)

omit happ in
lemma redeploying_startWorker {i : ι} (hp : s.phase i = .referring []) :
    Redeploying app referrers old new (s.setPhase i .running) := by
  refine h.advance hne (by simp [hp, Phase.rank]) (by simp [hp, Phase.rank]) (by simp [Phase.rank])
    rfl rfl rfl rfl rfl (fun _ => .inr) ?_
  intro he
  rw [hp] at he
  obtain ⟨entered, hsplit, htable⟩ := he
  rw [List.append_nil] at hsplit
  rw [hsplit]
  exact htable

theorem redeploying_tearDown [DecidableEq App] {i c : ι} (hp : s.phase i = .quitting)
    (hc : s.appDoneChans (app i) = some c) {stream timer : ι → Chan} :
    Redeploying app referrers old new { (s.forget i).setPhase i .stopped with
      dcpStreamClose := stream
      timerEventClose := timer
      appDoneChans := Function.update s.appDoneChans (app i) none
      log := s.log ++ [.tornDown i c] } := by
  have hi : i = old := by
    by_contra hio
    exact (h.quiet i hio).2 hp
  subst hi
  have hst := h.stage
  rw [hp, hc] at hst
  refine h.moveOld hne rfl ?_ (fun _ _ => rfl) (fun _ => .inr) (by simp [Phase.rank]) (by simp)
  simpa [Phase.rank, State.setPhase, State.forget, hne.symm] using hst.quitOld

lemma redeploying_step [DecidableEq App] (hok : OneRedeploy old new s a) (hs : Stepped app referrers s a t) :
    Redeploying app referrers old new t := by
  have hst := h.stage
  cases hs with
  | boot hp =>
    obtain rfl := hok
    rw [hp] at hst
    exact h.moveOld hne rfl (hst.advanceOld (.inl ⟨rfl, rfl⟩)) (fun _ _ => rfl)
      (fun _ => .inr) (fun _ => ⟨rfl, by simp [hp, Phase.rank]⟩) (by simp [Phase.rank])
  | deploy hp _ _ => exact redeploying_request hne happ h hp hok fun _ _ => rfl
  | @redeploy i w hp _ hw _ =>
    have hwo : w = old := worker_eq_old happ h (hok.1 ▸ hp) (hok.1 ▸ hw)
    exact redeploying_request hne happ h hp hok fun j hj => by simp [hwo, hj]
  | installChans hp _ => exact redeploying_installChans hne happ h hp
  | loadApp hp _ => exact redeploying_loadApp hne happ h hp
  | addReferrer hp _ => exact redeploying_addReferrer hne h hp
  | startWorker hp => exact redeploying_startWorker hne h hp
  | @receiveQuit i hp hq =>
    have hi : i = old := by
      by_contra hio
      simp [(h.quiet i hio).1] at hq
    subst hi
    rw [hp] at hst
    exact h.moveOld hne rfl (hst.advanceOld (.inr (by simp [Phase.rank])))
      (fun j hj => by simp [hj]) (fun _ => .inr) (fun _ => ⟨rfl, by simp [hp, Phase.rank]⟩)
      (by simp [Phase.rank])
  | @tearDownNil i hp _ hc =>
    have hi : i = old := by
      by_contra hio
      exact (h.quiet i hio).2 hp
    subst hi
    rw [hp] at hst
    exact absurd hc hst.chans_of_quitting
  | @tearDownClosed i c hp _ _ hstream =>
    have hi : i = old := by
      by_contra hio
      exact (h.quiet i hio).2 hp
    subst hi
    simp [h.silent (by simp [hp, Phase.rank]) c] at hstream
  | tearDown hp _ hc _ _ => exact redeploying_tearDown hne happ h hp hc
  | @closeStream i hfull =>
    refine ⟨h.others, h.stage, h.quiet, h.table, ?_, h.entered⟩
    intro hp
    simp [h.silent hp i] at hfull
  | closeTimer _ => exact ⟨h.others, h.stage, h.quiet, h.table, h.silent, h.entered⟩
  | @crash i hp hstream =>
    rcases h.who (i := i) (by simp [hp]) with rfl | rfl
    · simp [h.silent (by simp [hp, Phase.rank]) i] at hstream
    · rw [hp] at hst
      refine h.moveNew hne rfl (by simp [Phase.rank]) (by simp)
        (hst.advanceNew (.inr (by simp [Phase.rank]))) (fun _ _ => rfl) (fun _ => .inr) rfl ?_
      intro hlog
      have he := h.entered hlog
      rwa [hp] at he

end Step

/-- The one history in which the channels were entered too early. -/
theorem Stage.quitFirst_iff (hne : old ≠ new) {log : List (Event ι)} {p q : ℕ} {c : Option ι}
    (h : Stage old new log p q c) :
    QuitFirst old new log ↔ log ≠ [.installed old, .installed new, .tornDown old new] := by
  cases h <;> simp [QuitFirst, hne.symm]

omit [DecidableEq ι] in
lemma Stage.own (hne : old ≠ new) {log : List (Event ι)} {p q : ℕ} {c : Option ι}
    (h : Stage old new log p q c) :
    (∀ i, .tornDown old i ∈ log → i = old) ↔
      log ≠ [.installed old, .installed new, .tornDown old new] := by
  cases h <;> simp [hne.symm]

omit [DecidableEq ι] in
theorem Stage.replaced_of {log : List (Event ι)} {p q : ℕ} {c : Option ι}
    (h : Stage old new log p q c) (hp : p = 6) (hq : 4 ≤ q)
    (hlog : log ≠ [.installed old, .installed new, .tornDown old new]) :
    log = [.installed old, .tornDown old old, .installed new] ∧ c = some new := by
  cases h with
  | fresh _ => omega
  | deployed _ _ _ _ => omega
  | overlapping _ _ _ => omega
  | quitAlone _ => omega
  | replaced _ => exact ⟨rfl, rfl⟩
  | crossed _ => exact absurd rfl hlog

/-- For every interleaving of the redeploy with the `Quit` of the old worker, and in
every state of it. -/
theorem ownTeardown_iff_quitFirst [DecidableEq App] (app : ι → App) (referrers : ι → List Text)
    {old new : ι} (hne : old ≠ new) (happ : app old = app new) {s : State ι App}
    (h : Reach (step app referrers) (OneRedeploy old new) .initial s) :
    OwnTeardown app referrers old new s ↔ QuitFirst old new s.log := by
  have hr : Redeploying app referrers old new s := by
    refine h.invariant (I := Redeploying app referrers old new) redeploying_initial ?_
    intro s a t hi hok hs
    exact redeploying_step hne happ hi hok (step_stepped hs)
  rw [hr.stage.quitFirst_iff hne]
  constructor
  · intro ho
    exact (hr.stage.own hne).mp ho.1
  · intro hlog
    refine ⟨(hr.stage.own hne).mpr hlog, fun hold hnew => ?_⟩
    obtain ⟨hlog', hc⟩ := hr.stage.replaced_of (by rw [hold]; rfl) hnew hlog
    refine ⟨happ ▸ hc, ?_⟩
    have he := hr.entered hlog'
    cases hp : s.phase new with
    | running | quitting | stopped | stuck => rwa [hp] at he
    | undeployed | connecting | installed | referring _ => simp [hp, Phase.rank] at hnew

instance (old new : ι) (s : State ι App) : DecidablePred (OneRedeploy old new s)
  | .boot i => inferInstanceAs (Decidable (i = old))
  | .storeAppSetup i => inferInstanceAs (Decidable (i = new ∧ s.phase old = .running))
  | .installChans _ | .loadApp _ | .addReferrer _ | .startWorker _ | .receiveQuit _
  | .tearDown _ | .closeStream _ | .closeTimer _ | .crash _ => isTrue trivial

/-- One application on one port, deployed and asked for again. -/
def redeployRun : List (Action Bool) :=
  [.boot false, .installChans false, .loadApp false, .addReferrer false, .startWorker false,
    .storeAppSetup true]

def onePort (_ : Bool) : List Text := ["localhost:6063".toList]

/-- The old worker is quick to quit. -/
def quickQuitRun : List (Action Bool) :=
  redeployRun ++ [.receiveQuit false, .tearDown false, .installChans true, .loadApp true,
    .addReferrer true, .startWorker true]

theorem ownTeardown_quickQuitRun :
    ∃ s : State Bool Unit,
      exec (step (fun _ => ()) onePort) (OneRedeploy false true) .initial quickQuitRun = some s ∧
      s.phase false = .stopped ∧ s.phase true = .running ∧
      OwnTeardown (fun _ => ()) onePort false true s := by
  obtain ⟨s, he, hr, hp⟩ := exec_of_any (step (fun _ => ()) onePort) (OneRedeploy false true)
    (.initial : State Bool Unit) quickQuitRun
    (fun s => s.phase false = .stopped ∧ s.phase true = .running ∧
      s.log = [.installed false, .tornDown false false, .installed true]) (by decide)
  obtain ⟨hold, hnew, hlog⟩ := of_decide_eq_true hp
  refine ⟨s, he, hold, hnew, ?_⟩
  have hiff := ownTeardown_iff_quitFirst (fun _ => ()) onePort (by decide) rfl hr
  rw [hiff, hlog]
  intro c hc
  obtain rfl : c = false := by simpa using hc
  decide

/-- The old worker is busy in a handler until the new one is installed. -/
def busyWorkerRun : List (Action Bool) :=
  redeployRun ++ [.installChans true, .receiveQuit false, .tearDown false, .loadApp true,
    .addReferrer true, .startWorker true]

theorem not_ownTeardown_busyWorkerRun :
    ∃ s : State Bool Unit,
      exec (step (fun _ => ()) onePort) (OneRedeploy false true) .initial busyWorkerRun = some s ∧
      ¬ OwnTeardown (fun _ => ()) onePort false true s := by
  obtain ⟨s, he, -, hp⟩ := exec_of_any (step (fun _ => ()) onePort) (OneRedeploy false true)
    (.initial : State Bool Unit) busyWorkerRun
    (fun s => .tornDown false true ∈ s.log) (by decide)
  refine ⟨s, he, fun h => ?_⟩
  have heq := h.1 true (of_decide_eq_true hp)
  cases heq

end Eventing.Deploy
