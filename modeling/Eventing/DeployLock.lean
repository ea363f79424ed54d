import Mathlib.Logic.Function.Basic
import Eventing.Deploy

/-!
# What deploying does while it holds `tableLock`

`storeAppSetup` (`http_handlers.go`) sends `Quit` to the worker and the name of the
application to `main` before it releases `tableLock`, and `runWorker`
(`v8_worker.go`) signals the channels in `appDoneChans` under the same lock, which it
also takes at the top of its loop. `main` (`eventing.go`) takes the lock in
`setUpMailServer` for each name it receives. Here every send is a step of its own.
Sections that send nothing and leave these tables alone are left out.
-/
namespace Eventing.DeployLock
open Deploy (Chan)

variable {ι App : Type*}

/-- A request before it takes the lock, at its sends, with `setUpEventingApp` already
`started` or not, at a send on the nil `appSetup`, and answered. -/
inductive Request (ι : Type*)
  | pending
  | sendQuit (handle : ι)
  | sendSetup (started : Bool)
  | sendNil
  | done
  deriving DecidableEq

/-- `setUpEventingApp` up to `loaded`, and `runWorker` from `starting`: before its first
section, at the top of its loop, in the `select`, in `handleDcpEvent`, with `Quit`
received, and at the two sends that close the channels, which are nil without an entry. -/
inductive Phase (ι : Type*)
  | undeployed
  | connecting
  | installed
  | loaded
  | starting
  | looping
  | selecting
  | handling
  | quitting
  | sendStream (chans : Option ι)
  | sendTimer (chans : ι)
  | stopped
  deriving DecidableEq

/-- `main` while it sets up the applications on disk, with the HTTP server running and
`appSetup` still nil, with `files` names left to send, in its `select`, and waiting for
the lock in `setUpMailServer`. -/
inductive Main
  | booting
  | serving
  | filling (files : ℕ)
  | selecting
  | locking
  deriving DecidableEq

inductive Goroutine (ι : Type*)
  | storeAppSetup (i : ι)
  | runWorker (i : ι)
  deriving DecidableEq

/-- As in `Deploy.State`, the tables hold the deployment that a handle or a set of
channels was created for. `appSetup` counts the names in the channel. -/
structure State (ι App : Type*) where
  request : ι → Request ι
  phase : ι → Phase ι
  workerTable : App → Option ι
  appDoneChans : App → Option ι
  quit : ι → Bool
  dcpStreamClose : ι → Chan
  timerEventClose : ι → Chan
  appSetup : Option ℕ
  main : Main
  tableLock : Option (Goroutine ι)

def State.initial : State ι App where
  request _ := .pending
  phase _ := .undeployed
  workerTable _ := none
  appDoneChans _ := none
  quit _ := false
  dcpStreamClose _ := .empty
  timerEventClose _ := .empty
  appSetup := none
  main := .booting
  tableLock := none

/-- The first seven actions are those of `main`; `receiveSetup` says whether the
application has mail settings. -/
inductive Action (ι : Type*)
  | boot (i : ι)
  | serve
  | makeSetup (files : ℕ)
  | fill
  | startLoop
  | receiveSetup (mail : Bool)
  | setUpMailServer
  | storeAppSetup (i : ι)
  | sendQuit (i : ι)
  | sendSetup (i : ι)
  | installChans (i : ι)
  | loadApp (i : ι)
  | startWorker (i : ι)
  | enterLoop (i : ι)
  | enterSelect (i : ι)
  | receiveEvent (i : ι)
  | handled (i : ι)
  | tick (i : ι)
  | crash (i : ι)
  | receiveQuit (i : ι)
  | lockQuit (i : ι)
  | sendStream (i : ι)
  | sendTimer (i : ι)
  | closeStream (i : ι)
  | closeTimer (i : ι)

def setupCapacity : ℕ := 100

section
variable [DecidableEq ι]

def State.setPhase (s : State ι App) (i : ι) (p : Phase ι) : State ι App :=
  { s with phase := Function.update s.phase i p }

def State.setRequest (s : State ι App) (i : ι) (r : Request ι) : State ι App :=
  { s with request := Function.update s.request i r }

@[simp] lemma State.setPhase_request (s : State ι App) (i : ι) (p : Phase ι) :
    (s.setPhase i p).request = s.request := rfl

@[simp] lemma State.setRequest_phase (s : State ι App) (i : ι) (r : Request ι) :
    (s.setRequest i r).phase = s.phase := rfl

variable [DecidableEq App]

def step (app : ι → App) (s : State ι App) : Action ι → Option (State ι App)
  | .boot i =>
      match s.main, s.phase i with
      | .booting, .undeployed => some (s.setPhase i .connecting)
      | _, _ => none
  | .serve =>
      match s.main with
      | .booting => some { s with main := .serving }
      | _ => none
  | .makeSetup files =>
      match s.main with
      | .serving => some { s with main := .filling files, appSetup := some 0 }
      | _ => none
  | .fill =>
      match s.main, s.appSetup with
      | .filling (files + 1), some n =>
          if n < setupCapacity then some { s with main := .filling files, appSetup := some (n + 1) }
          else none
      | _, _ => none
  | .startLoop =>
      match s.main with
      | .filling 0 => some { s with main := .selecting }
      | _ => none
  | .receiveSetup mail =>
      match s.main, s.appSetup with
      | .selecting, some (n + 1) =>
          some { s with main := if mail then .locking else .selecting, appSetup := some n }
      | _, _ => none
  | .setUpMailServer =>
      match s.main, s.tableLock with
      | .locking, none => some { s with main := .selecting }
      | _, _ => none
  | .storeAppSetup i =>
      match s.request i, s.phase i, s.tableLock with
      | .pending, .undeployed, none =>
          if s.main = .booting then none
          else match s.workerTable (app i) with
            | some h =>
                some { s.setRequest i (.sendQuit h) with tableLock := some (.storeAppSetup i) }
            | none =>
                -- `go setUpEventingApp` comes before the send in this branch.
                some { (s.setRequest i (.sendSetup true)).setPhase i .connecting with
                  tableLock := some (.storeAppSetup i) }
      | _, _, _ => none
  | .sendQuit i =>
      match s.request i with
      | .sendQuit h =>
          if s.quit h then none
          else some { s.setRequest i (.sendSetup false) with
            quit := Function.update s.quit h true }
      | _ => none
  | .sendSetup i =>
      match s.request i, s.appSetup with
      | .sendSetup _, none => some (s.setRequest i .sendNil)
      | .sendSetup started, some n =>
          if n < setupCapacity then
            some { (s.setRequest i .done).setPhase i
                (if started then s.phase i else .connecting) with
              appSetup := some (n + 1)
              tableLock := none }
          else none
      | _, _ => none
  | .installChans i =>
      match s.phase i, s.tableLock with
      | .connecting, none =>
          some { s.setPhase i .installed with
            appDoneChans := Function.update s.appDoneChans (app i) (some i) }
      | _, _ => none
  | .loadApp i =>
      match s.phase i, s.tableLock with
      | .installed, none =>
          some { s.setPhase i .loaded with
            workerTable := Function.update s.workerTable (app i) (some i) }
      | _, _ => none
  | .startWorker i =>
      match s.phase i with
      | .loaded => some (s.setPhase i .starting)
      | _ => none
  | .enterLoop i =>
      match s.phase i, s.tableLock with
      | .starting, none => some (s.setPhase i .looping)
      | _, _ => none
  | .enterSelect i =>
      match s.phase i, s.tableLock with
      | .looping, none => some (s.setPhase i .selecting)
      | _, _ => none
  | .receiveEvent i =>
      match s.phase i with
      | .selecting => some (s.setPhase i .handling)
      | _ => none
  | .handled i =>
      match s.phase i with
      | .handling => some (s.setPhase i .looping)
      | _ => none
  | .tick i =>
      match s.phase i with
      | .selecting => some (s.setPhase i .looping)
      | _ => none
  | .crash i =>
      -- The nil ticker in the `select`, or the nil message of a closed `rch`.
      match s.phase i with
      | .selecting | .handling => some (s.setPhase i .stopped)
      | _ => none
  | .receiveQuit i =>
      match s.phase i, s.quit i with
      | .selecting, true =>
          some { s.setPhase i .quitting with quit := Function.update s.quit i false }
      | _, _ => none
  | .lockQuit i =>
      match s.phase i, s.tableLock with
      | .quitting, none =>
          some { s.setPhase i (.sendStream (s.appDoneChans (app i))) with
            tableLock := some (.runWorker i) }
      | _, _ => none
  | .sendStream i =>
      match s.phase i with
      | .sendStream (some c) =>
          match s.dcpStreamClose c with
          | .empty =>
              some { s.setPhase i (.sendTimer c) with
                dcpStreamClose := Function.update s.dcpStreamClose c .full }
          | .full => none
          | .closed => some (s.setPhase i .stopped)
      | _ => none
  | .sendTimer i =>
      match s.phase i with
      | .sendTimer c =>
          match s.timerEventClose c with
          | .empty =>
              some { s.setPhase i .stopped with
                timerEventClose := Function.update s.timerEventClose c .full
                appDoneChans := Function.update s.appDoneChans (app i) none
                tableLock := none }
          | _ => none
      | _ => none
  | .closeStream i =>
      match s.dcpStreamClose i with
      | .full => some { s with dcpStreamClose := Function.update s.dcpStreamClose i .closed }
      | _ => none
  | .closeTimer i =>
      match s.timerEventClose i with
      | .full => some { s with timerEventClose := Function.update s.timerEventClose i .empty }
      | _ => none

inductive Stepped (app : ι → App) (s : State ι App) : Action ι → State ι App → Prop
  | boot {i : ι} (main : s.main = .booting) (phase : s.phase i = .undeployed) :
      Stepped app s (.boot i) (s.setPhase i .connecting)
  | serve (main : s.main = .booting) : Stepped app s .serve { s with main := .serving }
  | makeSetup {files : ℕ} (main : s.main = .serving) :
      Stepped app s (.makeSetup files) { s with main := .filling files, appSetup := some 0 }
  | fill {files n : ℕ} (main : s.main = .filling (files + 1)) (names : s.appSetup = some n)
      (room : n < setupCapacity) :
      Stepped app s .fill { s with main := .filling files, appSetup := some (n + 1) }
  | startLoop (main : s.main = .filling 0) : Stepped app s .startLoop { s with main := .selecting }
  | receiveSetup {mail : Bool} {n : ℕ} (main : s.main = .selecting)
      (names : s.appSetup = some (n + 1)) :
      Stepped app s (.receiveSetup mail)
        { s with main := if mail then .locking else .selecting, appSetup := some n }
  | setUpMailServer (main : s.main = .locking) (free : s.tableLock = none) :
      Stepped app s .setUpMailServer { s with main := .selecting }
  | redeploy {i h : ι} (request : s.request i = .pending) (phase : s.phase i = .undeployed)
      (free : s.tableLock = none) (main : s.main ≠ .booting)
      (worker : s.workerTable (app i) = some h) :
      Stepped app s (.storeAppSetup i)
        { s.setRequest i (.sendQuit h) with tableLock := some (.storeAppSetup i) }
  | deploy {i : ι} (request : s.request i = .pending) (phase : s.phase i = .undeployed)
      (free : s.tableLock = none) (main : s.main ≠ .booting)
      (worker : s.workerTable (app i) = none) :
      Stepped app s (.storeAppSetup i)
        { (s.setRequest i (.sendSetup true)).setPhase i .connecting with
          tableLock := some (.storeAppSetup i) }
  | sendQuit {i h : ι} (request : s.request i = .sendQuit h) (room : s.quit h = false) :
      Stepped app s (.sendQuit i)
        { s.setRequest i (.sendSetup false) with quit := Function.update s.quit h true }
  | sendNil {i : ι} {started : Bool} (request : s.request i = .sendSetup started)
      (names : s.appSetup = none) :
      Stepped app s (.sendSetup i) (s.setRequest i .sendNil)
  | sendSetup {i : ι} {started : Bool} {n : ℕ} (request : s.request i = .sendSetup started)
      (names : s.appSetup = some n) (room : n < setupCapacity) :
      Stepped app s (.sendSetup i)
        { (s.setRequest i .done).setPhase i (if started then s.phase i else .connecting) with
          appSetup := some (n + 1)
          tableLock := none }
  | installChans {i : ι} (phase : s.phase i = .connecting) (free : s.tableLock = none) :
      Stepped app s (.installChans i)
        { s.setPhase i .installed with
          appDoneChans := Function.update s.appDoneChans (app i) (some i) }
  | loadApp {i : ι} (phase : s.phase i = .installed) (free : s.tableLock = none) :
      Stepped app s (.loadApp i)
        { s.setPhase i .loaded with
          workerTable := Function.update s.workerTable (app i) (some i) }
  | startWorker {i : ι} (phase : s.phase i = .loaded) :
      Stepped app s (.startWorker i) (s.setPhase i .starting)
  | enterLoop {i : ι} (phase : s.phase i = .starting) (free : s.tableLock = none) :
      Stepped app s (.enterLoop i) (s.setPhase i .looping)
  | enterSelect {i : ι} (phase : s.phase i = .looping) (free : s.tableLock = none) :
      Stepped app s (.enterSelect i) (s.setPhase i .selecting)
  | receiveEvent {i : ι} (phase : s.phase i = .selecting) :
      Stepped app s (.receiveEvent i) (s.setPhase i .handling)
  | handled {i : ι} (phase : s.phase i = .handling) :
      Stepped app s (.handled i) (s.setPhase i .looping)
  | tick {i : ι} (phase : s.phase i = .selecting) :
      Stepped app s (.tick i) (s.setPhase i .looping)
  | crash {i : ι} (phase : s.phase i = .selecting ∨ s.phase i = .handling) :
      Stepped app s (.crash i) (s.setPhase i .stopped)
  | receiveQuit {i : ι} (phase : s.phase i = .selecting) (message : s.quit i = true) :
      Stepped app s (.receiveQuit i)
        { s.setPhase i .quitting with quit := Function.update s.quit i false }
  | lockQuit {i : ι} (phase : s.phase i = .quitting) (free : s.tableLock = none) :
      Stepped app s (.lockQuit i)
        { s.setPhase i (.sendStream (s.appDoneChans (app i))) with
          tableLock := some (.runWorker i) }
  | sendStream {i c : ι} (phase : s.phase i = .sendStream (some c))
      (stream : s.dcpStreamClose c = .empty) :
      Stepped app s (.sendStream i)
        { s.setPhase i (.sendTimer c) with
          dcpStreamClose := Function.update s.dcpStreamClose c .full }
  | sendClosed {i c : ι} (phase : s.phase i = .sendStream (some c))
      (stream : s.dcpStreamClose c = .closed) :
      Stepped app s (.sendStream i) (s.setPhase i .stopped)
  | sendTimer {i c : ι} (phase : s.phase i = .sendTimer c)
      (timer : s.timerEventClose c = .empty) :
      Stepped app s (.sendTimer i)
        { s.setPhase i .stopped with
          timerEventClose := Function.update s.timerEventClose c .full
          appDoneChans := Function.update s.appDoneChans (app i) none
          tableLock := none }
  | closeStream {i : ι} (stream : s.dcpStreamClose i = .full) :
      Stepped app s (.closeStream i)
        { s with dcpStreamClose := Function.update s.dcpStreamClose i .closed }
  | closeTimer {i : ι} (timer : s.timerEventClose i = .full) :
      Stepped app s (.closeTimer i)
        { s with timerEventClose := Function.update s.timerEventClose i .empty }

lemma step_stepped {app : ι → App} {s t : State ι App} {a : Action ι}
    (h : step app s a = some t) : Stepped app s a t := by
  cases a <;> simp only [step] at h
  case boot i =>
    split at h <;> cases h
    exact .boot ‹_› ‹_›
  case serve =>
    split at h <;> cases h
    exact .serve ‹_›
  case makeSetup files =>
    split at h <;> cases h
    exact .makeSetup ‹_›
  case fill =>
    split at h
    · split_ifs at h with hn
      cases h
      exact .fill ‹_› ‹_› hn
    · cases h
  case startLoop =>
    split at h <;> cases h
    exact .startLoop ‹_›
  case receiveSetup mail =>
    split at h <;> cases h
    exact .receiveSetup ‹_› ‹_›
  case setUpMailServer =>
    split at h <;> cases h
    exact .setUpMailServer ‹_› ‹_›
  case storeAppSetup i =>
    split at h
    · split_ifs at h with hm
      split at h <;> cases h
      · exact .redeploy ‹_› ‹_› ‹_› hm ‹_›
      · exact .deploy ‹_› ‹_› ‹_› hm ‹_›
    · cases h
  case sendQuit i =>
    split at h
    · split_ifs at h with hq
      cases h
      exact .sendQuit ‹_› (by simpa using hq)
    · cases h
  case sendSetup i =>
    split at h
    · cases h
      exact .sendNil ‹_› ‹_›
    · obtain ⟨hn, h⟩ := Option.ite_none_right_eq_some.mp h
      cases h
      exact .sendSetup ‹_› ‹_› hn
    · cases h
  case installChans i =>
    split at h <;> cases h
    exact .installChans ‹_› ‹_›
  case loadApp i =>
    split at h <;> cases h
    exact .loadApp ‹_› ‹_›
  case startWorker i =>
    split at h <;> cases h
    exact .startWorker ‹_›
  case enterLoop i =>
    split at h <;> cases h
    exact .enterLoop ‹_› ‹_›
  case enterSelect i =>
    split at h <;> cases h
    exact .enterSelect ‹_› ‹_›
  case receiveEvent i =>
    split at h <;> cases h
    exact .receiveEvent ‹_›
  case handled i =>
    split at h <;> cases h
    exact .handled ‹_›
  case tick i =>
    split at h <;> cases h
    exact .tick ‹_›
  case crash i =>
    split at h <;> cases h
    · exact .crash (.inl ‹_›)
    · exact .crash (.inr ‹_›)
  case receiveQuit i =>
    split at h <;> cases h
    exact .receiveQuit ‹_› ‹_›
  case lockQuit i =>
    split at h <;> cases h
    exact .lockQuit ‹_› ‹_›
  case sendStream i =>
    split at h
    · split at h <;> cases h
      · exact .sendStream ‹_› ‹_›
      · exact .sendClosed ‹_› ‹_›
    · cases h
  case sendTimer i =>
    split at h
    · split at h <;> cases h
      exact .sendTimer ‹_› ‹_›
    · cases h
  case closeStream i =>
    split at h <;> cases h
    exact .closeStream ‹_›
  case closeTimer i =>
    split at h <;> cases h
    exact .closeTimer ‹_›

lemma Stepped.step {app : ι → App} {s t : State ι App} {a : Action ι}
    (h : Stepped app s a t) : step app s a = some t := by
  cases h with
  | crash hp => rcases hp with hp | hp <;> simp [DeployLock.step, hp]
  | _ => simp [DeployLock.step, *]

end

end Eventing.DeployLock
