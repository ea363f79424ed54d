import Eventing.Deploy

/-!
# A feed that closes

`startBucket` (`dcp_client.go`) forwards the events of a DCP feed on `chans.rch` and closes
that channel when the feed closes. `runWorker` (`v8_worker.go`) selects between `Quit`,
`chans.rch` and a ticker. A receive on the closed channel gives a nil message, and
`handleDcpEvent` indexes the message without a check. One deployment is modelled, whose
channels `appDoneChans` holds, and `tableLock` is left out.
-/
namespace Eventing.WorkerFeed
open Deploy Transition

variable {ε : Type*}

inductive Item (ε : Type*)
  | name (bucket : Text)
  | event (e : ε)

abbrev Message (ε : Type*) := List (Item ε)

/-- What a receive on a closed channel gives. -/
def nilMessage : Message ε := []

inductive StartBucket (ε : Type*)
  | waiting
  | holding (e : ε)
  | returned

/-- Where `runWorker` is. A panic ends it in `recovered`. -/
inductive RunWorker
  | looping
  | selecting
  | handling
  | quitting
  | returned
  | recovered
  deriving DecidableEq

/-- `timerEventClose`, which `processTimerEvent` receives from and nobody closes. -/
inductive TimerChan
  | empty
  | full
  | received
  deriving DecidableEq

/-- `feed` is the feed's own channel. `forwarded` and `passed` are all messages sent on `rch`
and all messages that `handleDcpEvent` was called with. -/
structure State (ε : Type*) where
  feed : List ε
  feedClosed : Bool
  startBucket : StartBucket ε
  rch : List (Message ε)
  rchClosed : Bool
  runWorker : RunWorker
  quit : Bool
  quitSent : Bool
  dcpStreamClose : Chan
  timerEventClose : TimerChan
  forwarded : List (Message ε)
  passed : List (Message ε)

def State.initial : State ε where
  feed := []
  feedClosed := false
  startBucket := .waiting
  rch := []
  rchClosed := false
  runWorker := .looping
  quit := false
  quitSent := false
  dcpStreamClose := .empty
  timerEventClose := .empty
  forwarded := []
  passed := []

inductive Action (ε : Type*)
  | deliver (e : ε)
  | closeFeed
  | take
  | forward
  | closeRch
  | select
  | receiveEvent
  | handled
  | tick
  | sendQuit
  | receiveQuit
  | tearDown
  | closeStream
  | receiveTimer

def capacity : ℕ := 10000

/-- The first statement of `handleDcpEvent` takes `msg[1]`. -/
def handleDcpEvent (msg : Message ε) : RunWorker :=
  match msg[1]? with
  | some (Item.event _) => .handling
  | _ => .recovered

def State.pass (s : State ε) (msg : Message ε) (rch : List (Message ε)) : State ε :=
  { s with runWorker := handleDcpEvent msg, rch := rch, passed := s.passed ++ [msg] }

/-- `stats` says that there is a ticker. Without one, `ticker.C` is a nil dereference. -/
def step (bucketName : Text) (stats : Bool) (s : State ε) : Action ε → Option (State ε)
  | .deliver e => if s.feedClosed then none else some { s with feed := s.feed ++ [e] }
  | .closeFeed => if s.feedClosed then none else some { s with feedClosed := true }
  | .take =>
      match s.startBucket, s.feed with
      | .waiting, e :: feed => some { s with startBucket := .holding e, feed := feed }
      | _, _ => none
  | .forward =>
      match s.startBucket with
      | .holding e =>
          if s.rch.length < capacity then
            some { s with
              startBucket := .waiting
              rch := s.rch ++ [[.name bucketName, .event e]]
              forwarded := s.forwarded ++ [[.name bucketName, .event e]] }
          else none
      | _ => none
  | .closeRch =>
      match s.startBucket, s.feed, s.feedClosed with
      | .waiting, [], true => some { s with startBucket := .returned, rchClosed := true }
      | _, _, _ => none
  | .select =>
      match s.runWorker with
      | .looping => some { s with runWorker := if stats then .selecting else .recovered }
      | _ => none
  | .receiveEvent =>
      match s.runWorker, s.rch, s.rchClosed with
      | .selecting, msg :: rch, _ => some (s.pass msg rch)
      | .selecting, [], true => some (s.pass nilMessage [])
      | _, _, _ => none
  | .handled =>
      match s.runWorker with
      | .handling => some { s with runWorker := .looping }
      | _ => none
  | .tick =>
      match s.runWorker with
      | .selecting => some { s with runWorker := .looping }
      | _ => none
  | .sendQuit => if s.quitSent then none else some { s with quit := true, quitSent := true }
  | .receiveQuit =>
      match s.runWorker, s.quit with
      | .selecting, true => some { s with runWorker := .quitting, quit := false }
      | _, _ => none
  | .tearDown =>
      match s.runWorker, s.dcpStreamClose, s.timerEventClose with
      | .quitting, .empty, .empty =>
          some { s with runWorker := .returned, dcpStreamClose := .full, timerEventClose := .full }
      | _, _, _ => none
  | .closeStream =>
      match s.dcpStreamClose with
      | .full => some { s with dcpStreamClose := .closed, feedClosed := true }
      | _ => none
  | .receiveTimer =>
      match s.timerEventClose with
      | .full => some { s with timerEventClose := .received }
      | _ => none

inductive Stepped (bucketName : Text) (stats : Bool) (s : State ε) : Action ε → State ε → Prop
  | deliver {e : ε} (opened : s.feedClosed = false) :
      Stepped bucketName stats s (.deliver e) { s with feed := s.feed ++ [e] }
  | closeFeed (opened : s.feedClosed = false) :
      Stepped bucketName stats s .closeFeed { s with feedClosed := true }
  | take {e : ε} {feed : List ε} (waits : s.startBucket = .waiting) (next : s.feed = e :: feed) :
      Stepped bucketName stats s .take { s with startBucket := .holding e, feed := feed }
  | forward {e : ε} (holds : s.startBucket = .holding e) (room : s.rch.length < capacity) :
      Stepped bucketName stats s .forward
        { s with
          startBucket := .waiting
          rch := s.rch ++ [[.name bucketName, .event e]]
          forwarded := s.forwarded ++ [[.name bucketName, .event e]] }
  | closeRch (waits : s.startBucket = .waiting) (drained : s.feed = [])
      (closed : s.feedClosed = true) :
      Stepped bucketName stats s .closeRch { s with startBucket := .returned, rchClosed := true }
  | select (worker : s.runWorker = .looping) :
      Stepped bucketName stats s .select
        { s with runWorker := if stats then .selecting else .recovered }
  | receiveEvent {msg : Message ε} {rch : List (Message ε)} (worker : s.runWorker = .selecting)
      (next : s.rch = msg :: rch) : Stepped bucketName stats s .receiveEvent (s.pass msg rch)
  | receiveNil (worker : s.runWorker = .selecting) (drained : s.rch = [])
      (closed : s.rchClosed = true) :
      Stepped bucketName stats s .receiveEvent (s.pass nilMessage [])
  | handled (worker : s.runWorker = .handling) :
      Stepped bucketName stats s .handled { s with runWorker := .looping }
  | tick (worker : s.runWorker = .selecting) :
      Stepped bucketName stats s .tick { s with runWorker := .looping }
  | sendQuit (unsent : s.quitSent = false) :
      Stepped bucketName stats s .sendQuit { s with quit := true, quitSent := true }
  | receiveQuit (worker : s.runWorker = .selecting) (message : s.quit = true) :
      Stepped bucketName stats s .receiveQuit { s with runWorker := .quitting, quit := false }
  | tearDown (worker : s.runWorker = .quitting) (stream : s.dcpStreamClose = .empty)
      (timer : s.timerEventClose = .empty) :
      Stepped bucketName stats s .tearDown
        { s with runWorker := .returned, dcpStreamClose := .full, timerEventClose := .full }
  | closeStream (stream : s.dcpStreamClose = .full) :
      Stepped bucketName stats s .closeStream { s with dcpStreamClose := .closed, feedClosed := true }
  | receiveTimer (timer : s.timerEventClose = .full) :
      Stepped bucketName stats s .receiveTimer { s with timerEventClose := .received }

lemma step_stepped {bucketName : Text} {stats : Bool} {s t : State ε} {a : Action ε}
    (h : step bucketName stats s a = some t) : Stepped bucketName stats s a t := by
  cases a <;> simp only [step] at h
  case deliver e =>
    split_ifs at h with hc
    cases h
    exact .deliver (by simpa using hc)
  case closeFeed =>
    split_ifs at h with hc
    cases h
    exact .closeFeed (by simpa using hc)
  case take =>
    split at h <;> cases h
    exact .take ‹_› ‹_›
  case forward =>
    split at h
    · obtain ⟨hroom, h⟩ := Option.ite_none_right_eq_some.mp h
      cases h
      exact .forward ‹_› hroom
    · cases h
  case closeRch =>
    split at h <;> cases h
    exact .closeRch ‹_› ‹_› ‹_›
  case select =>
    split at h <;> cases h
    exact .select ‹_›
  case receiveEvent =>
    split at h <;> cases h
    · exact .receiveEvent ‹_› ‹_›
    · exact .receiveNil ‹_› ‹_› ‹_›
  case handled =>
    split at h <;> cases h
    exact .handled ‹_›
  case tick =>
    split at h <;> cases h
    exact .tick ‹_›
  case sendQuit =>
    split_ifs at h with hc
    cases h
    exact .sendQuit (by simpa using hc)
  case receiveQuit =>
    split at h <;> cases h
    exact .receiveQuit ‹_› ‹_›
  case tearDown =>
    split at h <;> cases h
    exact .tearDown ‹_› ‹_› ‹_›
  case closeStream =>
    split at h <;> cases h
    exact .closeStream ‹_›
  case receiveTimer =>
    split at h <;> cases h
    exact .receiveTimer ‹_›

def Action.own : Action ε → Bool
  | .select | .receiveEvent | .handled | .tick | .receiveQuit | .tearDown => true
  | _ => false

def State.signalled (s : State ε) : Prop := s.dcpStreamClose ≠ .empty ∧ s.timerEventClose ≠ .empty

section
variable {bucketName : Text} {stats : Bool} {s t : State ε} {a : Action ε}

def Own (_ : State ε) (a : Action ε) : Prop := a.own = true

/-- The worker can go on to pass every message forwarded so far. -/
def CanPass (bucketName : Text) (stats : Bool) (s : State ε) : Prop :=
  ∃ t, Reach (step bucketName stats) Own s t ∧ t.passed = s.forwarded

def OwnOrQuit (_ : State ε) (a : Action ε) : Prop := a.own = true ∨ a = .sendQuit

/-- The worker can go on to take a `Quit` and to signal both channels. -/
def CanQuit (bucketName : Text) (stats : Bool) (s : State ε) : Prop :=
  ∃ t, Reach (step bucketName stats) OwnOrQuit s t ∧ t.signalled

/-- The messages passed on are those forwarded, in order, and can be indexed; the worker
can go on to pass all of them unless it has taken a `Quit`; and it can go on to take a
`Quit`, sent before or after, and to signal both channels. -/
structure Intact (bucketName : Text) (stats : Bool) (s : State ε) : Prop where
  inOrder : s.passed <+: s.forwarded
  indexed : ∀ msg ∈ s.passed, 1 < msg.length
  passes : s.runWorker ≠ .quitting → s.runWorker ≠ .returned → CanPass bucketName stats s
  quits : CanQuit bucketName stats s

/-- There is a ticker, and the worker does not receive from `rch` once it is closed and
drained. -/
def Undrained (stats : Bool) (s : State ε) (a : Action ε) : Prop :=
  stats = true ∧ (a = .receiveEvent → ¬ (s.rch = [] ∧ s.rchClosed = true))

structure Inv (bucketName : Text) (s : State ε) : Prop where
  buffered : s.forwarded = s.passed ++ s.rch
  events : ∀ msg ∈ s.forwarded, ∃ e, msg = [.name bucketName, .event e]
  alive : s.runWorker ≠ .recovered
  unsignalled : s.runWorker ≠ .returned → s.dcpStreamClose = .empty ∧ s.timerEventClose = .empty
  signalled : s.runWorker = .returned → s.signalled
  pending : s.quitSent = true → s.runWorker ≠ .quitting → s.runWorker ≠ .returned → s.quit = true

lemma Inv.initial : Inv bucketName (.initial : State ε) where
  buffered := rfl
  events _ h := absurd h List.not_mem_nil
  alive := by simp [State.initial]
  unsignalled _ := ⟨rfl, rfl⟩
  signalled h := by simp [State.initial] at h
  pending h := by simp [State.initial] at h

lemma handleDcpEvent_event (e : ε) :
    handleDcpEvent [.name bucketName, .event e] = .handling := rfl

lemma Inv.loop (h : Inv bucketName s) {w : RunWorker} (hr : s.runWorker ≠ .returned)
    (hq : s.runWorker ≠ .quitting) (hw : w ≠ .recovered) (hw' : w ≠ .returned) :
    Inv bucketName { s with runWorker := w } where
  buffered := h.buffered
  events := h.events
  alive := hw
  unsignalled _ := h.unsignalled hr
  signalled hret := absurd hret hw'
  pending hsent _ _ := h.pending hsent hq hr

theorem Stepped.inv (hs : Stepped bucketName stats s a t) (h : Inv bucketName s)
    (hok : Undrained stats s a) : Inv bucketName t := by
  cases hs with
  | deliver | closeFeed | take | closeRch =>
    exact ⟨h.buffered, h.events, h.alive, h.unsignalled, h.signalled, h.pending⟩
  | @forward e =>
    refine ⟨?_, ?_, h.alive, h.unsignalled, h.signalled, h.pending⟩
    · simp [h.buffered]
    · intro msg hm
      rcases List.mem_append.mp hm with hm | hm
      · exact h.events msg hm
      · exact ⟨e, List.mem_singleton.mp hm⟩
  | select hw => exact h.loop (by simp [hw]) (by simp [hw]) (by simp [hok.1]) (by simp [hok.1])
  | @receiveEvent msg rch hw hrch =>
    obtain ⟨e, he⟩ := h.events msg (by simp [h.buffered, hrch])
    have hmsg : handleDcpEvent msg = .handling := by rw [he, handleDcpEvent_event]
    have hl := h.loop (w := handleDcpEvent msg) (by simp [hw]) (by simp [hw]) (by simp [hmsg])
      (by simp [hmsg])
    refine ⟨?_, h.events, hl.alive, hl.unsignalled, hl.signalled, hl.pending⟩
    simp [State.pass, h.buffered, hrch]
  | receiveNil _ hrch hclosed => exact absurd ⟨hrch, hclosed⟩ (hok.2 rfl)
  | handled hw => exact h.loop (by simp [hw]) (by simp [hw]) (by simp) (by simp)
  | tick hw => exact h.loop (by simp [hw]) (by simp [hw]) (by simp) (by simp)
  | sendQuit =>
    exact ⟨h.buffered, h.events, h.alive, h.unsignalled, h.signalled, fun _ _ _ => rfl⟩
  | receiveQuit hw =>
    exact ⟨h.buffered, h.events, by simp, fun _ => h.unsignalled (by simp [hw]), by simp,
      fun _ hq => absurd rfl hq⟩
  | tearDown =>
    exact ⟨h.buffered, h.events, by simp, fun hne => absurd rfl hne,
      fun _ => ⟨by simp, by simp⟩, fun _ _ hne => absurd rfl hne⟩
  | closeStream hfull =>
    refine ⟨h.buffered, h.events, h.alive, fun hne => ?_, fun hr => ?_, h.pending⟩
    · simp [(h.unsignalled hne).1] at hfull
    · exact ⟨by simp, (h.signalled hr).2⟩
  | receiveTimer hfull =>
    refine ⟨h.buffered, h.events, h.alive, fun hne => ?_, fun hr => ?_, h.pending⟩
    · simp [(h.unsignalled hne).2] at hfull
    · exact ⟨(h.signalled hr).1, by simp⟩

section Quits
lemma CanQuit.before (h : CanQuit bucketName stats t) (ha : OwnOrQuit s a)
    (hs : step bucketName stats s a = some t) : CanQuit bucketName stats s := by
  obtain ⟨u, hu, hsig⟩ := h
  exact ⟨u, (Reach.one ha hs).trans hu, hsig⟩

lemma canQuit_of_quitting (hw : s.runWorker = .quitting)
    (hu : s.dcpStreamClose = .empty ∧ s.timerEventClose = .empty) : CanQuit bucketName stats s := by
  have hs : step bucketName stats s .tearDown = some
      { s with runWorker := .returned, dcpStreamClose := .full, timerEventClose := .full } := by
    simp [step, hw, hu]
  exact ⟨_, Reach.one (.inl rfl) hs, by simp [State.signalled]⟩

lemma canQuit_of_quit (hw : s.runWorker = .selecting) (hq : s.quit = true)
    (hu : s.dcpStreamClose = .empty ∧ s.timerEventClose = .empty) : CanQuit bucketName stats s := by
  have hs : step bucketName stats s .receiveQuit =
      some { s with runWorker := .quitting, quit := false } := by
    simp [step, hw, hq]
  have hq : CanQuit bucketName stats { s with runWorker := .quitting, quit := false } :=
    canQuit_of_quitting rfl hu
  exact hq.before (.inl rfl) hs

lemma canQuit_of_selecting (hw : s.runWorker = .selecting) (hp : s.quitSent = true → s.quit = true)
    (hu : s.dcpStreamClose = .empty ∧ s.timerEventClose = .empty) : CanQuit bucketName stats s := by
  cases hsent : s.quitSent with
  | true => exact canQuit_of_quit hw (hp hsent) hu
  | false =>
    have hs : step bucketName stats s .sendQuit = some { s with quit := true, quitSent := true } := by
      simp [step, hsent]
    have hq : CanQuit bucketName stats { s with quit := true, quitSent := true } :=
      canQuit_of_quit hw rfl hu
    exact hq.before (.inr rfl) hs

lemma canQuit_of_looping (hw : s.runWorker = .looping) (hp : s.quitSent = true → s.quit = true)
    (hu : s.dcpStreamClose = .empty ∧ s.timerEventClose = .empty) : CanQuit bucketName true s := by
  have hs : step bucketName true s .select = some { s with runWorker := .selecting } := by
    simp [step, hw]
  have hq : CanQuit bucketName true { s with runWorker := .selecting } :=
    canQuit_of_selecting rfl hp hu
  exact hq.before (.inl rfl) hs

/-- With a ticker, every state of the invariant is followed by one in which both channels
are signalled. -/
theorem Inv.canQuit (h : Inv bucketName s) : CanQuit bucketName true s := by
  cases hw : s.runWorker with
  | looping =>
    exact canQuit_of_looping hw (fun hsent => h.pending hsent (by simp [hw]) (by simp [hw]))
      (h.unsignalled (by simp [hw]))
  | selecting =>
    exact canQuit_of_selecting hw (fun hsent => h.pending hsent (by simp [hw]) (by simp [hw]))
      (h.unsignalled (by simp [hw]))
  | handling =>
    have hs : WorkerFeed.step bucketName true s .handled =
        some { s with runWorker := .looping } := by
      simp [WorkerFeed.step, hw]
    have hq : CanQuit bucketName true { s with runWorker := .looping } :=
      canQuit_of_looping rfl (fun hsent => h.pending hsent (by simp [hw]) (by simp [hw]))
        (h.unsignalled (by simp [hw]))
    exact hq.before (.inl rfl) hs
  | quitting => exact canQuit_of_quitting hw (h.unsignalled (by simp [hw]))
  | returned => exact ⟨s, .refl, h.signalled hw⟩
  | recovered => exact absurd hw h.alive

end Quits

section Passes

def RunWorker.inLoop : RunWorker → Prop
  | .looping | .selecting | .handling => True
  | _ => False

lemma reach_own (hs : step bucketName stats s a = some t) (ha : a.own = true) :
    Reach (step bucketName stats) Own s t := Reach.one ha hs

lemma reach_selecting (hw : s.runWorker.inLoop) :
    Reach (step bucketName true) Own s { s with runWorker := .selecting } := by
  cases h : s.runWorker with
  | looping =>
    have hs : step bucketName true s .select = some { s with runWorker := .selecting } := by
      simp [step, h]
    exact reach_own hs rfl
  | selecting =>
    rw [← h]
    exact .refl
  | handling =>
    have hs : step bucketName true s .handled = some { s with runWorker := .looping } := by
      simp [step, h]
    have hs' : step bucketName true { s with runWorker := .looping } .select =
        some { s with runWorker := .selecting } := by
      simp [step]
    exact (reach_own hs rfl).trans (reach_own hs' rfl)
  | quitting | returned | recovered => simp [h, RunWorker.inLoop] at hw

lemma passes_of_inLoop (hw : s.runWorker.inLoop)
    (he : ∀ msg ∈ s.rch, ∃ e, msg = [.name bucketName, .event e]) :
    ∃ t, Reach (step bucketName true) Own s t ∧ t.passed = s.passed ++ s.rch := by
  induction hr : s.rch generalizing s with
  | nil => exact ⟨s, .refl, by simp⟩
  | cons msg rch ih =>
    let u : State ε := { s with runWorker := .selecting }
    have hreceive : step bucketName true u .receiveEvent = some (u.pass msg rch) := by
      simp only [step, u, hr]
    have hhandling : (u.pass msg rch).runWorker.inLoop := by
      obtain ⟨e, rfl⟩ := he msg (by simp [hr])
      simp [State.pass, handleDcpEvent_event, RunWorker.inLoop]
    obtain ⟨t, ht, hpass⟩ := ih hhandling
      (fun m hm => he m (by rw [hr]; exact List.mem_cons_of_mem _ hm)) rfl
    refine ⟨t, ((reach_selecting hw).trans (reach_own hreceive rfl)).trans ht, ?_⟩
    simp [hpass, State.pass, u]

theorem Inv.canPass (h : Inv bucketName s) (hq : s.runWorker ≠ .quitting)
    (hr : s.runWorker ≠ .returned) : CanPass bucketName true s := by
  have hloop : s.runWorker.inLoop := by
    have hc := h.alive
    cases hw : s.runWorker <;> simp_all [RunWorker.inLoop]
  obtain ⟨t, ht, hpass⟩ := passes_of_inLoop hloop fun msg hm =>
    h.events msg (by rw [h.buffered]; exact List.mem_append_right _ hm)
  exact ⟨t, ht, by rw [hpass, h.buffered]⟩

end Passes

theorem Inv.intact (h : Inv bucketName s) : Intact bucketName true s where
  inOrder := ⟨s.rch, h.buffered.symm⟩
  indexed msg hm := by
    obtain ⟨e, rfl⟩ := h.events msg (by rw [h.buffered]; exact List.mem_append_left _ hm)
    simp
  passes := h.canPass
  quits := h.canQuit

/-- Without a ticker, the worker ends at its first `select`. -/
structure NoTicker (s : State ε) : Prop where
  worker : s.runWorker = .looping ∨ s.runWorker = .recovered
  unsignalled : s.dcpStreamClose = .empty

lemma Stepped.noTicker (hs : Stepped bucketName false s a t) (h : NoTicker s) : NoTicker t := by
  obtain ⟨hw, hd⟩ := h
  cases hs with
  | deliver | closeFeed | sendQuit | take | closeRch | receiveTimer | forward => exact ⟨hw, hd⟩
  | select => exact ⟨.inr rfl, hd⟩
  | closeStream hfull => simp [hd] at hfull
  | receiveEvent hr | receiveNil hr | handled hr | tick hr | receiveQuit hr | tearDown hr =>
    rcases hw with hw | hw <;> simp [hw] at hr

lemma NoTicker.not_canQuit (h : NoTicker s) : ¬ CanQuit bucketName false s := by
  rintro ⟨t, ht, hsig⟩
  have hnone : NoTicker t := ht.invariant h fun _ _ _ hi _ hs => (step_stepped hs).noTicker hi
  exact hsig.1 hnone.unsignalled

theorem Stepped.intact_iff (hs : Stepped bucketName stats s a t) (h : Inv bucketName s)
    (hn : stats = false → NoTicker s) : Intact bucketName stats t ↔ Undrained stats s a := by
  constructor
  · intro hi
    have hstats : stats = true := by
      cases stats with
      | true => rfl
      | false => exact absurd hi.quits (hs.noTicker (hn rfl)).not_canQuit
    refine ⟨hstats, ?_⟩
    rintro rfl ⟨hrch, -⟩
    cases hs with
    | receiveEvent _ hnext => simp [hrch] at hnext
    | receiveNil =>
      have hnil := hi.indexed nilMessage (by simp [State.pass])
      simp [nilMessage] at hnil
  · intro hok
    have ht := hs.inv h hok
    rw [hok.1]
    exact ht.intact

/-- For every interleaving of the feed, `startBucket`, the worker, the ticks and a `Quit`,
the worker stays intact exactly when there is a ticker and `rch` is not received from
once it is closed and drained. -/
theorem intact_along_iff (bucketName : Text) (stats : Bool) (as : List (Action ε)) :
    Along (step bucketName stats) (fun _ _ t => Intact bucketName stats t) .initial as ↔
      Along (step bucketName stats) (fun s a _ => Undrained stats s a) .initial as := by
  apply along_iff (I := fun s => Inv bucketName s ∧ (stats = false → NoTicker s))
  · exact ⟨Inv.initial, fun _ => ⟨.inl rfl, rfl⟩⟩
  · intro s a t h hs
    exact (step_stepped hs).intact_iff h.1 h.2
  · intro s a t h hs hi
    have hst := step_stepped hs
    have hok := (hst.intact_iff h.1 h.2).mp hi
    refine ⟨hst.inv h.1 hok, fun hstats => ?_⟩
    simp [hok.1] at hstats

end

/-- The feed closes, `startBucket` closes `rch`, and the worker receives from it. -/
theorem not_intact_closedFeed : ¬ Along (step [] true) (fun _ _ t => Intact [] true t)
    (.initial : State Unit) [.closeFeed, .closeRch, .select, .receiveEvent] := by
  intro h
  have hend := ((((h _ rfl).2 _ rfl).2 _ rfl).2 _ rfl).1
  exact absurd (hend.indexed [] (by simp [State.pass, nilMessage])) (by simp)

end Eventing.WorkerFeed
