import Mathlib.Logic.Function.Basic
import Eventing.Decimal
import Eventing.Transition

/-!
# Deploying an application again

`storeAppSetup` (`http_handlers.go`) tells the worker in `workerTable` to quit and
starts `setUpEventingApp` (`app_setup.go`), which creates channels and a worker,
enters both under the name of the application and starts `runWorker`
(`v8_worker.go`). The worker that quits finds the channels to close by that name.
Each section under `tableLock` is one step. What the sections do for the HTTP
servers, the mail channel and the static assets is left out.
-/
namespace Eventing.Deploy

variable {ι App : Type*}

/-- A channel with room for one message, or a closed one. -/
inductive Chan
  | empty
  | full
  | closed
  deriving DecidableEq

/-- Where one deployment is: in `setUpEventingApp` before the channels are entered in
`appDoneChans`, before the worker is entered in `workerTable`, with referrers left
to enter; in the loop of `runWorker`; with `Quit` received; waiting for ever; returned. -/
inductive Phase
  | undeployed
  | connecting
  | installed
  | referring (referrers : List Text)
  | running
  | quitting
  | stuck
  | stopped
  deriving DecidableEq

inductive Event (ι : Type*)
  | installed (i : ι)
  | tornDown (i : ι) (chans : ι)
  deriving DecidableEq

/-- The tables hold the deployment that a handle or a set of channels was created
for. `quit`, `dcpStreamClose` and `timerEventClose` are the channels themselves, and
`locked` says that a goroutine will never release `tableLock`. -/
structure State (ι App : Type*) where
  phase : ι → Phase
  workerTable : App → Option ι
  appDoneChans : App → Option ι
  workerHTTPReferrerTable : Text → Option ι
  workerHTTPReferrerTableBackIndex : ι → Option Text
  quit : ι → Bool
  dcpStreamClose : ι → Chan
  timerEventClose : ι → Chan
  locked : Bool
  log : List (Event ι)

def State.initial : State ι App where
  phase _ := .undeployed
  workerTable _ := none
  appDoneChans _ := none
  workerHTTPReferrerTable _ := none
  workerHTTPReferrerTableBackIndex _ := none
  quit _ := false
  dcpStreamClose _ := .empty
  timerEventClose _ := .empty
  locked := false
  log := []

/-- `boot` is the call of `setUpEventingApp` in `main`. -/
inductive Action (ι : Type*)
  | boot (i : ι)
  | storeAppSetup (i : ι)
  | installChans (i : ι)
  | loadApp (i : ι)
  | addReferrer (i : ι)
  | startWorker (i : ι)
  | receiveQuit (i : ι)
  | tearDown (i : ι)
  | closeStream (i : ι)
  | closeTimer (i : ι)
  | crash (i : ι)

section
variable [DecidableEq ι]

def State.setPhase (s : State ι App) (i : ι) (p : Phase) : State ι App :=
  { s with phase := Function.update s.phase i p }

/-- The first thing `runWorker` does on `Quit`. -/
def State.forget (s : State ι App) (i : ι) : State ι App :=
  { s with
    workerHTTPReferrerTable := match s.workerHTTPReferrerTableBackIndex i with
      | some referrer => Function.update s.workerHTTPReferrerTable referrer none
      | none => s.workerHTTPReferrerTable
    workerHTTPReferrerTableBackIndex :=
      Function.update s.workerHTTPReferrerTableBackIndex i none }

variable [DecidableEq App]

def step (app : ι → App) (referrers : ι → List Text) (s : State ι App) :
    Action ι → Option (State ι App)
  | .boot i =>
      match s.phase i with
      | .undeployed => some (s.setPhase i .connecting)
      | _ => none
  | .storeAppSetup i =>
      match s.phase i, s.locked, s.workerTable (app i) with
      | .undeployed, false, none => some (s.setPhase i .connecting)
      | .undeployed, false, some h =>
          -- With a message in the channel already, the send waits.
          if s.quit h then none
          else some { s.setPhase i .connecting with quit := Function.update s.quit h true }
      | _, _, _ => none
  | .installChans i =>
      match s.phase i, s.locked with
      | .connecting, false =>
          some { s.setPhase i .installed with
            appDoneChans := Function.update s.appDoneChans (app i) (some i)
            log := s.log ++ [.installed i] }
      | _, _ => none
  | .loadApp i =>
      match s.phase i, s.locked with
      | .installed, false =>
          some { s.setPhase i (.referring (referrers i)) with
            workerTable := Function.update s.workerTable (app i) (some i) }
      | _, _ => none
  | .addReferrer i =>
      match s.phase i, s.locked with
      | .referring (referrer :: rest), false =>
          some { s.setPhase i (.referring rest) with
            workerHTTPReferrerTable :=
              Function.update s.workerHTTPReferrerTable referrer (some i)
            workerHTTPReferrerTableBackIndex :=
              Function.update s.workerHTTPReferrerTableBackIndex i (some referrer) }
      | _, _ => none
  | .startWorker i =>
      match s.phase i with
      | .referring [] => some (s.setPhase i .running)
      | _ => none
  | .receiveQuit i =>
      match s.phase i, s.quit i with
      | .running, true =>
          some { s.setPhase i .quitting with quit := Function.update s.quit i false }
      | _, _ => none
  | .tearDown i =>
      match s.phase i, s.locked, s.appDoneChans (app i) with
      | .quitting, false, none =>
          -- A send on a nil channel waits for ever.
          some { (s.forget i).setPhase i .stuck with locked := true }
      | .quitting, false, some c =>
          match s.dcpStreamClose c, s.timerEventClose c with
          | .closed, _ =>
              -- The send panics; the recovery does not unlock.
              some { (s.forget i).setPhase i .stopped with locked := true }
          | .empty, .empty =>
              some { (s.forget i).setPhase i .stopped with
                dcpStreamClose := Function.update s.dcpStreamClose c .full
                timerEventClose := Function.update s.timerEventClose c .full
                appDoneChans := Function.update s.appDoneChans (app i) none
                log := s.log ++ [.tornDown i c] }
          | _, _ => none
      | _, _, _ => none
  | .closeStream i =>
      match s.dcpStreamClose i with
      | .full => some { s with dcpStreamClose := Function.update s.dcpStreamClose i .closed }
      | _ => none
  | .closeTimer i =>
      match s.timerEventClose i with
      | .full => some { s with timerEventClose := Function.update s.timerEventClose i .empty }
      | _ => none
  | .crash i =>
      -- The closed stream closes `rch`, and the worker fails on what it receives.
      match s.phase i, s.dcpStreamClose i with
      | .running, .closed => some (s.setPhase i .stopped)
      | _, _ => none

/-- What each action needs and does, one constructor for each branch of `step`. -/
inductive Stepped (app : ι → App) (referrers : ι → List Text) (s : State ι App) :
    Action ι → State ι App → Prop
  | boot {i : ι} (phase : s.phase i = .undeployed) :
      Stepped app referrers s (.boot i) (s.setPhase i .connecting)
  | deploy {i : ι} (phase : s.phase i = .undeployed) (free : s.locked = false)
      (worker : s.workerTable (app i) = none) :
      Stepped app referrers s (.storeAppSetup i) (s.setPhase i .connecting)
  | redeploy {i h : ι} (phase : s.phase i = .undeployed) (free : s.locked = false)
      (worker : s.workerTable (app i) = some h) (room : s.quit h = false) :
      Stepped app referrers s (.storeAppSetup i)
        { s.setPhase i .connecting with quit := Function.update s.quit h true }
  | installChans {i : ι} (phase : s.phase i = .connecting) (free : s.locked = false) :
      Stepped app referrers s (.installChans i)
        { s.setPhase i .installed with
          appDoneChans := Function.update s.appDoneChans (app i) (some i)
          log := s.log ++ [.installed i] }
  | loadApp {i : ι} (phase : s.phase i = .installed) (free : s.locked = false) :
      Stepped app referrers s (.loadApp i)
        { s.setPhase i (.referring (referrers i)) with
          workerTable := Function.update s.workerTable (app i) (some i) }
  | addReferrer {i : ι} {referrer : Text} {rest : List Text}
      (phase : s.phase i = .referring (referrer :: rest)) (free : s.locked = false) :
      Stepped app referrers s (.addReferrer i)
        { s.setPhase i (.referring rest) with
          workerHTTPReferrerTable := Function.update s.workerHTTPReferrerTable referrer (some i)
          workerHTTPReferrerTableBackIndex :=
            Function.update s.workerHTTPReferrerTableBackIndex i (some referrer) }
  | startWorker {i : ι} (phase : s.phase i = .referring []) :
      Stepped app referrers s (.startWorker i) (s.setPhase i .running)
  | receiveQuit {i : ι} (phase : s.phase i = .running) (message : s.quit i = true) :
      Stepped app referrers s (.receiveQuit i)
        { s.setPhase i .quitting with quit := Function.update s.quit i false }
  | tearDownNil {i : ι} (phase : s.phase i = .quitting) (free : s.locked = false)
      (chans : s.appDoneChans (app i) = none) :
      Stepped app referrers s (.tearDown i) { (s.forget i).setPhase i .stuck with locked := true }
  | tearDownClosed {i c : ι} (phase : s.phase i = .quitting) (free : s.locked = false)
      (chans : s.appDoneChans (app i) = some c) (stream : s.dcpStreamClose c = .closed) :
      Stepped app referrers s (.tearDown i)
        { (s.forget i).setPhase i .stopped with locked := true }
  | tearDown {i c : ι} (phase : s.phase i = .quitting) (free : s.locked = false)
      (chans : s.appDoneChans (app i) = some c) (stream : s.dcpStreamClose c = .empty)
      (timer : s.timerEventClose c = .empty) :
      Stepped app referrers s (.tearDown i)
        { (s.forget i).setPhase i .stopped with
          dcpStreamClose := Function.update s.dcpStreamClose c .full
          timerEventClose := Function.update s.timerEventClose c .full
          appDoneChans := Function.update s.appDoneChans (app i) none
          log := s.log ++ [.tornDown i c] }
  | closeStream {i : ι} (stream : s.dcpStreamClose i = .full) :
      Stepped app referrers s (.closeStream i)
        { s with dcpStreamClose := Function.update s.dcpStreamClose i .closed }
  | closeTimer {i : ι} (timer : s.timerEventClose i = .full) :
      Stepped app referrers s (.closeTimer i)
        { s with timerEventClose := Function.update s.timerEventClose i .empty }
  | crash {i : ι} (phase : s.phase i = .running) (stream : s.dcpStreamClose i = .closed) :
      Stepped app referrers s (.crash i) (s.setPhase i .stopped)

lemma step_stepped {app : ι → App} {referrers : ι → List Text} {s t : State ι App}
    {a : Action ι} (h : step app referrers s a = some t) : Stepped app referrers s a t := by
  cases a <;> simp only [step] at h
  case boot i =>
    split at h <;> cases h
    exact .boot ‹_›
  case storeAppSetup i =>
    split at h
    · cases h
      exact .deploy ‹_› ‹_› ‹_›
    · split_ifs at h with hq
      cases h
      exact .redeploy ‹_› ‹_› ‹_› (by simpa using hq)
    · cases h
  case installChans i =>
    split at h <;> cases h
    exact .installChans ‹_› ‹_›
  case loadApp i =>
    split at h <;> cases h
    exact .loadApp ‹_› ‹_›
  case addReferrer i =>
    split at h <;> cases h
    exact .addReferrer ‹_› ‹_›
  case startWorker i =>
    split at h <;> cases h
    exact .startWorker ‹_›
  case receiveQuit i =>
    split at h <;> cases h
    exact .receiveQuit ‹_› ‹_›
  case tearDown i =>
    split at h
    · cases h
      exact .tearDownNil ‹_› ‹_› ‹_›
    · split at h <;> cases h
      · exact .tearDownClosed ‹_› ‹_› ‹_› ‹_›
      · exact .tearDown ‹_› ‹_› ‹_› ‹_› ‹_›
    · cases h
  case closeStream i =>
    split at h <;> cases h
    exact .closeStream ‹_›
  case closeTimer i =>
    split at h <;> cases h
    exact .closeTimer ‹_›
  case crash i =>
    split at h <;> cases h
    exact .crash ‹_› ‹_›

end

end Eventing.Deploy
