import Eventing.PipelineSettled
import Eventing.QueueServer

/-!
# From the change stream to the consumers of a queue

The handlers of an application, which `runWorker` (`v8_worker.go`) calls for the changes of the
source bucket, enqueue names on its queue, as `OnUpdate` of the sample handlers
(`handle_event.js`) does with the key of a document, and write documents. Consumers pop the list
of the queue at any time.
-/
namespace Eventing.EnqueueFlow
open BucketAlias CasMarker Components Pipeline QueueServer Transition Utf8
open Utf16 (Units)

variable {App σ : Type*} [DecidableEq σ]

/-- What the handlers of an application enqueue for a change. -/
structure Script where
  onUpdate : DcpEvent → List Units
  onDelete : DcpEvent → List Units

/-- The worker with its pipeline, the servers of the queues, and the names that the handler it
is in is still to enqueue. -/
structure State (App σ : Type*) where
  pipe : Pipeline.State Unit App
  queues : QueueServer.State Unit σ
  todo : List Units

def State.initial (queues : QueueServer.State Unit σ) : State App σ :=
  ⟨Pipeline.initial, queues, []⟩

inductive Action (σ : Type*)
  | pipe (a : Pipeline.Action Unit)
  | enqueue
  | pop (srv : σ) (key : Bytes)

def Script.called (script : Script) : WorkerPc App → List Units
  | .missed e => script.onUpdate e.event
  | .deletion e => script.onDelete e.event
  | .undeployed | .select | .received _ | .found _ | .inHandler | .stopped => []

section
variable (host : Host) (app : Unit → App) (script : Script) (layout : Layout) (redis : Redis σ)

/-- A handler returns when it has enqueued all its names, and enqueues none while it is in
`BucketSet`. -/
def step (s : State App σ) : Action σ → Option (State App σ)
  | .pipe (.leave i ok) =>
      if s.todo = [] then
        (Pipeline.step host app s.pipe (.leave i ok)).map fun p => { s with pipe := p }
      else none
  | .pipe (.send i) =>
      (Pipeline.step host app s.pipe (.send i)).map fun p =>
        { s with pipe := p, todo := script.called (s.pipe.inst i).pc }
  | .pipe a => (Pipeline.step host app s.pipe a).map fun p => { s with pipe := p }
  | .enqueue =>
      match (s.pipe.inst ()).isolate, s.todo with
      | .running _, name :: rest =>
          (QueueServer.step layout redis s.queues (.read () name)).map fun q =>
            { s with queues := q, todo := rest }
      | _, _ => none
  | .pop srv key =>
      (QueueServer.step layout redis s.queues (.pop srv key)).map fun q =>
        { s with queues := q }

end

def InWorker (s : State App σ) : Action σ → Prop
  | .pipe a => WorkerHandlersOnly s.pipe a
  | .enqueue | .pop _ _ => True

instance (s : State App σ) : (a : Action σ) → Decidable (InWorker s a)
  | .pipe a => inferInstanceAs (Decidable (WorkerHandlersOnly s.pipe a))
  | .enqueue | .pop _ _ => inferInstanceAs (Decidable True)

/-- What is pushed for names: those that are array indices are no properties of the alias. -/
def elements (names : List Units) : List Bytes :=
  (names.filter fun name => (arrayIndex name).isNone).map element

/-- What an application enqueues for a change: a mutation that a handler has made is not passed
to it, nor is a control event. -/
def Script.enqueued (script : Script) (e : Entry App) : List Bytes :=
  match e.event.opcode with
  | .mutation => if e.writer.isNone then elements (script.onUpdate e.event) else []
  | .deletion => elements (script.onDelete e.event)
  | .other => []

def popped (srv : σ) (key : Bytes) (s : State App σ) : Action σ → List Bytes
  | .pop srv' key' => QueueServer.popped srv key s.queues (.pop srv' key')
  | .pipe _ | .enqueue => []

section
variable {host : Host} {app : Unit → App} {script : Script} {p p' : Pipeline.State Unit App}
  {a : Pipeline.Action Unit}

/-- A handler is called for what it enqueues. -/
lemma enqueued_settledBy_send (hr : WorkerRun app p) (hset : Settled (p.inst ()))
    (hs : Stepped host app p (.send ()) p') :
    (settledBy p () (.send ())).flatMap script.enqueued = elements (script.called (p.inst ()).pc) := by
  cases hs with
  | @sendUpdate _ e hpc _ =>
    have hop := (hr.markers.flow ()).mutation e (.inl hpc)
    have hw := hset.missed e hpc
    simp [settledBy, WorkerPc.current, hpc, Script.enqueued, Script.called, hop, hw]
  | @sendDelete _ e hpc _ =>
    have hop := (hr.markers.flow ()).deletion e hpc
    simp [settledBy, WorkerPc.current, hpc, Script.enqueued, Script.called, hop]

lemma enqueued_settledBy (hr : WorkerRun app p) (ha : ∀ i, a ≠ .send i)
    (hs : Stepped host app p a p') : (settledBy p () a).flatMap script.enqueued = [] := by
  cases a with
  | send i => exact absurd rfl (ha i)
  | lookup i =>
    refine List.flatMap_eq_nil_iff.mpr ?_
    intro e he
    have hop : e.event.opcode = .other := by
      rw [settledBy, if_pos rfl] at he
      exact of_decide_eq_true (List.mem_filter.mp he).2
    rw [Script.enqueued, hop]
  | unmark i =>
    cases hs with
    | @unmark _ e hpc =>
      have hop := (hr.markers.flow ()).mutation e (.inr hpc)
      have hw := (hr.markers.found () e hpc).1
      have hsome : e.writer.isNone = false := by simpa using Option.isSome_iff_ne_none.mpr hw
      simp [settledBy, WorkerPc.current, hpc, Script.enqueued, hop, hsome]
  | _ => rfl

lemma inHandler_of_step (ha : ∀ i ok, a ≠ .leave i ok) (hs : Stepped host app p a p')
    (hpc : (p.inst ()).pc = .inHandler) : (p'.inst ()).pc = .inHandler := by
  cases hs with
  | leave _ => exact absurd rfl (ha _ _)
  | client _ | tick _ | pull _ _ | forward _ _ | enter _ _ | store _ _ | mark _ => exact hpc
  | sendUpdate _ _ | sendDelete _ _ => rfl
  | deploy h | quit h | receive h _ | miss h _ _ | hit h _ _ | deletion h _ | ignore h _ | unmark h =>
    exact absurd (hpc.symm.trans h) nofun

end

section
variable {host : Host} {app : Unit → App} {script : Script} {layout : Layout}
  {redis : Redis σ} {s t : State App σ} {a : Action σ} {q : Queue × σ} {journal : List Bytes}

/-- Nothing is left to enqueue outside of a handler, and what the consumers have got, what is
there for them and what is left to enqueue is what the settled messages call for. -/
structure Flowing (app : Unit → App) (script : Script) (q : Queue × σ) (p : State App σ × List Bytes) :
    Prop where
  run : WorkerRun app p.1.pipe
  settled : Settled (p.1.pipe.inst ())
  entered : ∀ i, Entered (p.1.pipe.inst i)
  handle : p.1.queues.handle () = some q
  plain : PlainHandles p.1.queues.handle
  todo : (p.1.pipe.inst ()).pc ≠ .inHandler → p.1.todo = []
  account : p.2 ++ (p.1.queues.lists q.2 (encode q.1.queueName)).reverse ++ elements p.1.todo =
    (p.1.pipe.inst ()).settled.flatMap script.enqueued

omit [DecidableEq σ] in
lemma Flowing.pipe (h : Flowing app script q (s, journal)) {b : Pipeline.Action Unit}
    (hok : WorkerHandlersOnly s.pipe b) {p : Pipeline.State Unit App}
    (hs : Pipeline.step host app s.pipe b = some p) {todo : List Units}
    (htodo : (p.inst ()).pc ≠ .inHandler → todo = [])
    (hnew : elements todo = elements s.todo ++ (settledBy s.pipe () b).flatMap script.enqueued) :
    Flowing app script q (⟨p, s.queues, todo⟩, journal) where
  run := workerRun_step h.run hok (step_stepped hs)
  settled := settled_step h.run h.settled hok (step_stepped hs)
  entered := entered_step h.entered (step_stepped hs)
  handle := h.handle
  plain := h.plain
  todo := htodo
  account := by
    rw [settled_eq h.run.markers.flow h.entered (step_stepped hs) (), List.flatMap_append,
      ← h.account, hnew, List.append_assoc _ (elements s.todo)]

lemma Flowing.queue (hredis : redis.Documented) (h : Flowing app script q (s, journal)) {b : QueueServer.Action Unit σ}
    (hb : Spares q.2 (encode q.1.queueName) redis s.queues b) {u : QueueServer.State Unit σ}
    (hs : QueueServer.step layout redis s.queues b = some u) (hhandle : u.handle = s.queues.handle)
    {todo : List Units} (htodo : (s.pipe.inst ()).pc ≠ .inHandler → todo = [])
    (hpushed : elements s.todo =
      pushed q.2 (encode q.1.queueName) s.queues b ++ elements todo) :
    Flowing app script q
      (⟨s.pipe, u, todo⟩, journal ++ QueueServer.popped q.2 (encode q.1.queueName) s.queues b) where
  run := h.run
  settled := h.settled
  entered := h.entered
  handle := hhandle ▸ h.handle
  plain := hhandle ▸ h.plain
  todo := htodo
  account := by
    have hbalance := balance_step hredis h.plain hb hs
    rw [← h.account, hpushed, List.append_assoc journal, hbalance]
    simp only [List.append_assoc]

omit [DecidableEq σ] in
lemma Flowing.send (h : Flowing app script q (s, journal)) {i : Unit} {p : Pipeline.State Unit App}
    (hs : Pipeline.step host app s.pipe (.send i) = some p) :
    Flowing app script q (⟨p, s.queues, script.called (s.pipe.inst i).pc⟩, journal) := by
  have hst := step_stepped hs
  have hbefore : (s.pipe.inst ()).pc ≠ .inHandler := by
    cases hst with
    | sendUpdate hpc _ | sendDelete hpc _ => exact fun h => nomatch hpc.symm.trans h
  have hafter : (p.inst ()).pc = .inHandler := by
    cases hst with
    | sendUpdate _ _ | sendDelete _ _ => rfl
  refine h.pipe (b := .send i) rfl hs (fun hpc => absurd hafter hpc) ?_
  rw [enqueued_settledBy_send h.run h.settled hst, h.todo hbefore]
  rfl

lemma Flowing.enqueue (hredis : redis.Documented) (h : Flowing app script q (s, journal)) {name : Units} {rest : List Units}
    {u : QueueServer.State Unit σ} (htodo : s.todo = name :: rest)
    (hs : QueueServer.step layout redis s.queues (.read () name) = some u) :
    Flowing app script q (⟨s.pipe, u, rest⟩, journal) := by
  have hhandle : u.handle = s.queues.handle := by
    obtain ⟨q', -, rfl⟩ := Option.map_eq_some_iff.mp hs
    cases arrayIndex name <;> rfl
  have hpushed : elements s.todo =
      pushed q.2 (encode q.1.queueName) s.queues (.read () name) ++ elements rest := by
    have hq : s.queues.handle () = some q := h.handle
    simp only [htodo, elements, pushed, hq]
    cases hi : arrayIndex name <;> simp [hi]
  have hempty : (s.pipe.inst ()).pc ≠ .inHandler → rest = [] := by
    intro hpc
    rw [h.todo hpc] at htodo
    contradiction
  have hnext := h.queue hredis (b := .read () name) trivial hs hhandle hempty hpushed
  rwa [QueueServer.popped, List.append_nil] at hnext

lemma Flowing.step (hredis : redis.Documented) (h : Flowing app script q (s, journal)) (hok : InWorker s a)
    (hs : step host app script layout redis s a = some t) :
    Flowing app script q (t, journal ++ popped q.2 (encode q.1.queueName) s a) := by
  cases a with
  | pipe b =>
    rw [popped, List.append_nil]
    cases b with
    | leave i ok =>
      simp only [EnqueueFlow.step] at hs
      split_ifs at hs with hnil
      obtain ⟨p, hp, rfl⟩ := Option.map_eq_some_iff.mp hs
      exact h.pipe hok hp (fun _ => hnil) (by simp [settledBy])
    | send i =>
      obtain ⟨p, hp, rfl⟩ := Option.map_eq_some_iff.mp hs
      exact h.send hp
    | _ =>
      obtain ⟨p, hp, rfl⟩ := Option.map_eq_some_iff.mp hs
      have hst := step_stepped hp
      refine h.pipe hok hp (fun hpc => h.todo fun hin => hpc ?_) ?_
      · exact inHandler_of_step (by simp) hst hin
      · rw [enqueued_settledBy h.run (by simp) hst, List.append_nil]
  | enqueue =>
    rw [popped, List.append_nil]
    simp only [EnqueueFlow.step] at hs
    split at hs
    · rename_i hd name rest hiso htodo
      obtain ⟨u, hu, rfl⟩ := Option.map_eq_some_iff.mp hs
      exact h.enqueue hredis htodo hu
    · contradiction
  | pop srv key =>
    simp only [EnqueueFlow.step] at hs
    obtain ⟨u, hu, rfl⟩ := Option.map_eq_some_iff.mp hs
    have hhandle : u.handle = s.queues.handle := by rw [← Option.some.inj hu]
    exact h.queue hredis (b := .pop srv key) trivial hu hhandle h.todo (by simp [pushed])

/-- The queue of a worker is empty when the worker is constructed. -/
lemma flowing_initial (hredis : redis.Documented) {u queues : QueueServer.State Unit σ} {c : Config}
    (hplain : PlainHandles u.handle) (hc : ∀ q ∈ c.queues, QueueServer.Plain q.queueName)
    (hconstruct : QueueServer.step layout redis u (.construct () c) = some queues)
    (hq : queues.handle () = some q) :
    Flowing app script q ((.initial queues : State App σ), []) where
  run := workerRun_initial
  settled := ⟨rfl, rfl, by simp [State.initial, Pipeline.initial, Instance.initial]⟩
  entered := inOrder_initial.entered
  handle := hq
  plain := plainHandles_step (a := .construct () c) hplain hc hconstruct
  todo _ := rfl
  account := by
    simp only [QueueServer.step] at hconstruct
    split_ifs at hconstruct
    obtain ⟨handles, hw, rfl⟩ := Option.map_eq_some_iff.mp hconstruct
    have hdeclares : Declares redis c q.2 (encode q.1.queueName) := by
      have hhandle : redis.handle handles = some q := by simpa using hq
      obtain ⟨hqueue, hserver⟩ := handle_eq_some hhandle
      rw [(newWorker_eq hw).2.2] at hqueue
      obtain ⟨e, he, hq'⟩ := Option.map_eq_some_iff.mp hqueue
      rw [← hq'] at hserver
      exact ⟨e, List.mem_of_getLast? he, hserver, by rw [← hq']⟩
    have hempty : (queuesInfo c).foldl (fun lists e => deleteQueue redis lists e.2) u.lists q.2
        (encode q.1.queueName) = [] := by
      rw [deleteQueues_apply hredis (plain_of_queuesInfo hc),
        if_pos (show ∃ e ∈ queuesInfo c, _ from hdeclares)]
    simp [State.initial, hempty, elements, Pipeline.initial, Instance.initial, Instance.settled,
      WorkerPc.current]

/-- What consumers get of the queue of an application, and what is there for them, is what its
handlers enqueue for the changes of its stream so far, each handled once and in their order:
the deletions and the mutations that no handler has made. -/
theorem consumed_in_order (host : Host) (app : Unit → App) (script : Script) (layout : Layout)
    (hredis : redis.Documented) {u queues : QueueServer.State Unit σ} {c : Config}
    (hplain : PlainHandles u.handle) (hc : ∀ q ∈ c.queues, QueueServer.Plain q.queueName)
    (hconstruct : QueueServer.step layout redis u (.construct () c) = some queues)
    (hq : queues.handle () = some q) {as : List (Action σ)}
    (h : exec (step host app script layout redis) InWorker (.initial queues) as = some t) :
    ∃ n ≤ t.pipe.feed.length,
      collect (step host app script layout redis) (popped q.2 (encode q.1.queueName))
          (.initial queues) as ++
        (t.queues.lists q.2 (encode q.1.queueName)).reverse ++ elements t.todo =
          (t.pipe.feed.take n).flatMap script.enqueued ∧
      ((t.pipe.inst ()).pc = .select → t.todo = [] ∧ (t.pipe.inst ()).taken = t.pipe.feed.take n) := by
  have hrun := reach_journaled (f := popped q.2 (encode q.1.queueName)) [] h
  rw [List.nil_append] at hrun
  generalize collect (step host app script layout redis) (popped q.2 (encode q.1.queueName))
    (.initial queues) as = journal at hrun ⊢
  have hF : Flowing app script q (t, journal) := by
    refine hrun.invariant (I := Flowing app script q)
      (flowing_initial hredis hplain hc hconstruct hq) ?_
    rintro p a p' hp hok hs
    obtain ⟨v, hv, rfl⟩ := Option.map_eq_some_iff.mp hs
    exact hp.step hredis hok hv
  have htake : (t.pipe.inst ()).settled = t.pipe.feed.take (t.pipe.inst ()).settled.length :=
    settled_eq_take (hF.run.markers.flow ())
  refine ⟨(t.pipe.inst ()).settled.length, ?_, ?_, ?_⟩
  · have hlen := congrArg List.length htake
    rw [List.length_take] at hlen
    omega
  · rw [← htake]
    exact hF.account
  · intro hpc
    refine ⟨hF.todo (by simp [hpc]), ?_⟩
    rw [← htake, Instance.settled, hpc]
    rfl

end

/-- `enqueue(order_queue, meta.key)` -/
def keyScript : Script := ⟨fun e => [Utf16.encode e.key], fun _ => []⟩

/-- A client writes one document, `OnUpdate` writes a second one and enqueues the key of the
first, the second change is skipped, and a consumer gets the key. -/
def updateRun : List (Action Unit) :=
  [.pipe (.deploy ()), .pipe (.client ⟨.mutation, ['a'], ['1'], 0, 0, 7#64⟩), .pipe (.pull ()),
    .pipe (.forward ()), .pipe (.receive ()), .pipe (.lookup ()), .pipe (.send ()),
    .pipe (.store () ['b'] ['2'] 8#64), .pipe (.pull ()), .pipe (.forward ()), .pipe (.mark ()),
    .enqueue, .pipe (.leave () true), .pipe (.receive ()), .pipe (.lookup ()), .pipe (.unmark ()),
    .pop () orderKey]

theorem consumed_in_order_updateRun : ∃ (queues : QueueServer.State Unit Unit) (t : State Unit Unit),
    QueueServer.step shortStrings localServer .initial (.construct () creditScore) = some queues ∧
      exec (step .littleEndian id keyScript shortStrings localServer) InWorker (.initial queues)
        updateRun = some t ∧
      t.pipe.feed.length = 2 ∧
      collect (step .littleEndian id keyScript shortStrings localServer)
        (popped () orderKey) (.initial queues) updateRun = [[97]] ∧
      ∃ n ≤ t.pipe.feed.length,
        collect (step .littleEndian id keyScript shortStrings localServer)
            (popped () (encode orders.queue.queueName)) (.initial queues)
            updateRun ++
          (t.queues.lists () (encode orders.queue.queueName)).reverse ++
            elements t.todo =
          (t.pipe.feed.take n).flatMap keyScript.enqueued ∧
        ((t.pipe.inst ()).pc = .select →
          t.todo = [] ∧ (t.pipe.inst ()).taken = t.pipe.feed.take n) := by
  have hstart : (QueueServer.step shortStrings localServer .initial
      (.construct () creditScore)).any (fun queues => queues.handle () = some (orders.queue, ()) ∧
        (exec (step .littleEndian id keyScript shortStrings localServer) InWorker
          (.initial queues : State Unit Unit) updateRun).any (fun t => t.pipe.feed.length = 2) = true ∧
        collect (step .littleEndian id keyScript shortStrings localServer)
          (popped () orderKey) (.initial queues : State Unit Unit) updateRun = [[97]]) = true := by
    decide
  obtain ⟨queues, hconstruct, hqueues⟩ := (Option.any_eq_true _ _).mp hstart
  obtain ⟨hq, hexec, hpopped⟩ := of_decide_eq_true hqueues
  obtain ⟨t, ht, hlen⟩ := (Option.any_eq_true _ _).mp hexec
  have hplain : ∀ q ∈ creditScore.queues, QueueServer.Plain q.queueName := by
    have horders : QueueServer.Plain orders.queueName :=
      ⟨by decide, by decide, by decide, by decide, by decide⟩
    simpa [creditScore] using horders
  exact ⟨queues, t, hconstruct, ht, of_decide_eq_true hlen, hpopped,
    consumed_in_order .littleEndian id keyScript shortStrings documented_localServer
      (fun _ _ h => by contradiction) hplain hconstruct hq ht⟩

end Eventing.EnqueueFlow
