import Eventing.WorkerFeed

/-!
# What a feed leaves behind when its worker has ended

Once `runWorker` (`v8_worker.go`) has returned, nothing receives from `chans.rch`. `startBucket`
(`dcp_client.go`) sees the closed feed behind the events that the feed still holds, and it
forwards these first.
-/
namespace Eventing.WorkerFeed
open Transition

variable {ε : Type*} {bucketName : Text} {stats : Bool} {s t : State ε} {a : Action ε}

def Action.ofStartBucket : Action ε → Bool
  | .take | .forward | .closeRch => true
  | _ => false

def OfStartBucket (_ : State ε) (a : Action ε) : Prop := a.ofStartBucket = true

instance (s : State ε) (a : Action ε) : Decidable (OfStartBucket s a) :=
  inferInstanceAs (Decidable (_ = true))

def StartBucket.held : StartBucket ε → ℕ
  | .holding _ => 1
  | _ => 0

/-- The steps that `startBucket` has to take with what it has. -/
def StartBucket.work : StartBucket ε → ℕ
  | .waiting => 1
  | .holding _ => 2
  | .returned => 0

def State.work (s : State ε) : ℕ := 2 * s.feed.length + s.startBucket.work

/-- The events that are in `rch` or have yet to come there. -/
def State.backlog (s : State ε) : ℕ := s.rch.length + s.startBucket.held + s.feed.length

structure Abandoned (s : State ε) : Prop where
  worker : s.runWorker = .returned ∨ s.runWorker = .recovered
  closed : s.feedClosed = true

/-- `rch` is never too full, and a closed `rch` is behind a drained feed. -/
structure Bounded (s : State ε) : Prop where
  room : s.rch.length ≤ capacity
  drained : s.startBucket = .returned → s.feed = [] ∧ s.feedClosed = true

lemma Bounded.initial : Bounded (.initial : State ε) where
  room := Nat.zero_le _
  drained h := nomatch h

lemma Stepped.bounded (hs : Stepped bucketName stats s a t) (h : Bounded s) : Bounded t := by
  obtain ⟨hroom, hdrained⟩ := h
  cases hs with
  | deliver hopen =>
    refine ⟨hroom, fun hr => ?_⟩
    simp [(hdrained hr).2] at hopen
  | closeFeed | closeStream => exact ⟨hroom, fun hr => ⟨(hdrained hr).1, rfl⟩⟩
  | take => exact ⟨hroom, nofun⟩
  | forward _ hlt =>
    refine ⟨?_, nofun⟩
    rw [List.length_append]
    exact hlt
  | closeRch _ hfeed hclosed => exact ⟨hroom, fun _ => ⟨hfeed, hclosed⟩⟩
  | @receiveEvent msg rch _ hnext =>
    refine ⟨Nat.le_of_succ_le ?_, hdrained⟩
    rwa [hnext] at hroom
  | receiveNil => exact ⟨Nat.zero_le _, hdrained⟩
  | select | handled | tick | sendQuit | receiveQuit | tearDown | receiveTimer =>
    exact ⟨hroom, hdrained⟩

lemma Stepped.abandoned (hs : Stepped bucketName stats s a t) (h : Abandoned s) :
    Abandoned t ∧ t.backlog = s.backlog := by
  obtain ⟨hworker, hclosed⟩ := h
  cases hs with
  | deliver hopen => simp [hclosed] at hopen
  | closeFeed | closeStream => exact ⟨⟨hworker, rfl⟩, rfl⟩
  | take hwaits hnext =>
    refine ⟨⟨hworker, hclosed⟩, ?_⟩
    simp only [State.backlog, StartBucket.held, hwaits, hnext, List.length_cons]
    omega
  | forward hholds =>
    refine ⟨⟨hworker, hclosed⟩, ?_⟩
    simp only [State.backlog, StartBucket.held, hholds, List.length_append, List.length_singleton,
      Nat.add_zero]
  | closeRch hwaits =>
    refine ⟨⟨hworker, hclosed⟩, ?_⟩
    simp only [State.backlog, StartBucket.held, hwaits]
  | sendQuit | receiveTimer => exact ⟨⟨hworker, hclosed⟩, rfl⟩
  | select hw | receiveEvent hw | receiveNil hw | handled hw | tick hw | receiveQuit hw
  | tearDown hw => rcases hworker with hworker | hworker <;> simp [hworker] at hw

lemma Stepped.work_lt (hs : Stepped bucketName stats s a t) (ha : OfStartBucket s a) :
    t.work < s.work := by
  cases hs with
  | take hwaits hnext =>
    simp only [State.work, StartBucket.work, hwaits, hnext, List.length_cons]
    omega
  | forward hholds =>
    simp only [State.work, StartBucket.work, hholds]
    omega
  | closeRch hwaits =>
    simp only [State.work, StartBucket.work, hwaits]
    omega
  | deliver | closeFeed | select | receiveEvent | receiveNil | handled | tick | sendQuit
  | receiveQuit | tearDown | closeStream | receiveTimer => cases ha

lemma returned_or_full (hclosed : s.feedClosed = true)
    (hstuck : ∀ a, OfStartBucket s a → step bucketName stats s a = none) :
    s.startBucket = .returned ∨ capacity < s.backlog := by
  cases hb : s.startBucket with
  | returned => exact .inl rfl
  | holding e =>
    have hfull : ¬ s.rch.length < capacity := by
      have hforward := hstuck .forward rfl
      simpa [step, hb] using hforward
    refine .inr ?_
    simp only [State.backlog, StartBucket.held, hb]
    omega
  | waiting =>
    have htake := hstuck .take rfl
    have hclose := hstuck .closeRch rfl
    cases hf : s.feed with
    | nil => simp [step, hb, hf, hclosed] at hclose
    | cons => simp [step, hb, hf] at htake

/-- `startBucket` of an abandoned deployment ends, whenever it is let run, exactly when its
backlog fits into `rch`. Otherwise it never does, whatever else goes on. -/
theorem startBucket_ends_iff (h : Reachable (step bucketName stats) .initial s)
    (hgone : Abandoned s) :
    (s.backlog ≤ capacity → ∀ as t, exec (step bucketName stats) OfStartBucket s as = some t →
      as.length ≤ s.work ∧
      ((∀ a, OfStartBucket t a → step bucketName stats t a = none) → t.startBucket = .returned)) ∧
    (capacity < s.backlog → ∀ t, Reachable (step bucketName stats) s t →
      t.startBucket ≠ .returned) := by
  have hbounded : Bounded s := h.invariant Bounded.initial fun _ _ _ hi _ hs =>
    (step_stepped hs).bounded hi
  constructor
  · intro hfits as t hexec
    constructor
    · have hlen := exec_length_le (I := fun _ => True) (f := State.work) trivial
        (fun _ _ _ _ ha hs => ⟨trivial, (step_stepped hs).work_lt ha⟩) hexec
      omega
    · intro hstuck
      have ht : Abandoned t ∧ t.backlog = s.backlog :=
        (exec_reach hexec).invariant (I := fun t => Abandoned t ∧ t.backlog = s.backlog)
          ⟨hgone, rfl⟩ fun _ _ _ hi _ hs =>
            have hst := (step_stepped hs).abandoned hi.1
            ⟨hst.1, hst.2.trans hi.2⟩
      rcases returned_or_full ht.1.closed hstuck with hret | hfull
      · exact hret
      · omega
  · intro hover t ht hret
    have hI : Bounded t ∧ Abandoned t ∧ t.backlog = s.backlog :=
      ht.invariant (I := fun t => Bounded t ∧ Abandoned t ∧ t.backlog = s.backlog)
        ⟨hbounded, hgone, rfl⟩ fun _ _ _ hi _ hs =>
          have hst := (step_stepped hs).abandoned hi.2.1
          ⟨(step_stepped hs).bounded hi.1, hst.1, hst.2.trans hi.2.2⟩
    obtain ⟨hb, -, hback⟩ := hI
    have hroom : t.backlog = t.rch.length := by
      simp [State.backlog, StartBucket.held, hret, (hb.drained hret).1]
    have hle := hb.room
    omega

def quitRun : List (Action Unit) :=
  [.sendQuit, .select, .deliver (), .receiveQuit, .tearDown, .closeStream]

theorem startBucket_ends_iff_quitRun :
    ∃ s : State Unit, exec (step [] true) (fun _ _ => True) .initial quitRun = some s ∧
      s.backlog ≤ capacity ∧
      ∀ as t, exec (step [] true) OfStartBucket s as = some t →
        as.length ≤ s.work ∧
        ((∀ a, OfStartBucket t a → step [] true t a = none) → t.startBucket = .returned) := by
  obtain ⟨s, hexec, hs, hp⟩ := exec_of_any (step [] true) (fun _ _ => True)
    (.initial : State Unit) quitRun
    (fun s => s.runWorker = .returned ∧ s.feedClosed = true ∧ s.backlog ≤ capacity) (by decide)
  obtain ⟨hworker, hclosed, hfits⟩ := of_decide_eq_true hp
  exact ⟨s, hexec, hfits, (startBucket_ends_iff hs ⟨.inl hworker, hclosed⟩).1 hfits⟩

end Eventing.WorkerFeed
