import Mathlib.Data.Fintype.Basic
import Mathlib.Logic.Function.Basic
import Eventing.CasMarker
import Eventing.KvStore
import Eventing.Transition

/-!
# From the change stream of the source bucket to the handlers

`startBucket` (`dcp_client.go`) forwards the change stream into `chans.rch`,
`runWorker` (`v8_worker.go`) takes one message at a time, and `handleDcpEvent`
drops a mutation whose CAS marker is in the metadata bucket. `BucketSet`
(`bucket.cc`) writes a document and then, as a second operation, its marker.
Every instance of an application has a stream of its own that starts at the first
change; all instances share the source and the metadata bucket.
-/
namespace Eventing.Pipeline
open CasMarker KvStore

/-- The stream also carries control events, which `handleDcpEvent` ignores. -/
inductive Opcode
  | mutation
  | deletion
  | other
  deriving DecidableEq, Repr

structure DcpEvent where
  opcode : Opcode
  key : Text
  value : Text
  flags : BitVec 32
  expiry : BitVec 32
  cas : Cas
  deriving DecidableEq

/-- A change of the source bucket. The writer is `none` for an external client
and an application for `BucketSet` in one of its handlers; no code reads it. -/
structure Entry (App : Type*) where
  event : DcpEvent
  writer : Option App
  deriving DecidableEq

inductive Handler
  | onUpdate
  | onDelete
  | timerCallback
  | onHTTPGet
  | onHTTPPost
  deriving DecidableEq, Repr

/-- The handlers that the `runWorker` goroutine calls. -/
def Handler.ofWorker : Handler → Bool
  | .onUpdate | .onDelete => true
  | .timerCallback | .onHTTPGet | .onHTTPPost => false

/-- Every entry into JavaScript holds the isolate's `Locker` until it returns.
`stored` is a handler inside `BucketSet`, with the document written and the
marker not yet. -/
inductive Isolate
  | free
  | running (handler : Handler)
  | stored (handler : Handler) (cas : Cas) (key : Text)
  deriving DecidableEq

def Isolate.pending : Isolate → Option (Cas × Text)
  | .stored _ cas key => some (cas, key)
  | .free | .running _ => none

inductive WorkerPc (App : Type*)
  | undeployed
  | select
  | received (e : Entry App)
  | missed (e : Entry App)
  | found (e : Entry App)
  | deletion (e : Entry App)
  | inHandler
  | stopped
  deriving DecidableEq

/-- One instance of an application. `held` is the event that `startBucket` has
taken from the stream and not yet sent to `rch`. `taken`, `updates` and `skipped`
record the messages received, the mutations passed to `OnUpdate` and the ones
whose marker was deleted. -/
structure Instance (App : Type*) where
  cursor : ℕ
  held : Option (Entry App)
  rch : List (Entry App)
  pc : WorkerPc App
  isolate : Isolate
  ops : ℕ
  taken : List (Entry App)
  updates : List (Entry App)
  skipped : List (Entry App)

def Instance.initial {App : Type*} : Instance App :=
  ⟨0, none, [], .undeployed, .free, 0, [], [], []⟩

structure State (ι App : Type*) where
  feed : List (Entry App)
  metadata : Store Text Text
  inst : ι → Instance App

def initial {ι App : Type*} : State ι App := ⟨[], empty, fun _ => .initial⟩

inductive Action (ι : Type*)
  | client (e : DcpEvent)
  | deploy (i : ι)
  | pull (i : ι)
  | forward (i : ι)
  | receive (i : ι)
  | tick (i : ι)
  | lookup (i : ι)
  | send (i : ι)
  | unmark (i : ι)
  | enter (i : ι) (h : Handler)
  | store (i : ι) (key value : Text) (cas : Cas)
  | mark (i : ι)
  | leave (i : ι) (ok : Bool)
  | quit (i : ι)

/-- `make(chan []interface{}, 10000)` in `setUpEventingApp`. -/
def rchCapacity : ℕ := 10000

/-- `JSONType`, which `BucketSet` sets on everything it writes. -/
def jsonType : BitVec 32 := 0x2000000

section
variable {ι App : Type*}

def State.Fresh (s : State ι App) (c : Cas) : Prop := ∀ e ∈ s.feed, e.event.cas ≠ c

instance (s : State ι App) (c : Cas) : Decidable (s.Fresh c) :=
  inferInstanceAs (Decidable (∀ e ∈ s.feed, e.event.cas ≠ c))

/-- The change that `BucketSet` makes on behalf of an application. -/
def handlerEntry (a : App) (key value : Text) (cas : Cas) : Entry App :=
  ⟨⟨.mutation, key, value, jsonType, 0, cas⟩, some a⟩

variable [DecidableEq ι]

def State.setInst (s : State ι App) (i : ι) (w : Instance App) : State ι App :=
  { s with inst := Function.update s.inst i w }

/-- `handleDcpEvent` up to and including the lookup of the CAS marker. -/
def dispatch (s : State ι App) (w : Instance App) (e : Entry App) : Instance App :=
  match e.event.opcode with
  | .mutation =>
      match get s.metadata (casValue e.event.cas) with
      | none => { w with pc := .missed e, ops := w.ops + 1 }
      | some _ => { w with pc := .found e }
  | .deletion => { w with pc := .deletion e }
  | .other => { w with pc := .select }

/-- One atomic action of an external client, of `startBucket`, of `runWorker` or
of a handler. A mutation, whoever writes it, has a fresh CAS. `runWorker` also takes
`tableLock` at the top of its loop: to wait there forever is to take no more steps, so what
holds in every run does not depend on it, but that an action can be taken does. -/
def step (host : Host) (app : ι → App) (s : State ι App) : Action ι → Option (State ι App)
  | .client e =>
      if e.opcode = .mutation → s.Fresh e.cas then
        some { s with feed := s.feed ++ [⟨e, none⟩] }
      else none
  | .deploy i =>
      if (s.inst i).pc matches .undeployed then
        some (s.setInst i { s.inst i with pc := .select })
      else none
  | .pull i =>
      match (s.inst i).held, s.feed[(s.inst i).cursor]? with
      | none, some e =>
          some (s.setInst i { s.inst i with held := some e, cursor := (s.inst i).cursor + 1 })
      | _, _ => none
  | .forward i =>
      match (s.inst i).held with
      | some e =>
          if (s.inst i).rch.length < rchCapacity then
            some (s.setInst i { s.inst i with held := none, rch := (s.inst i).rch ++ [e] })
          else none
      | none => none
  | .receive i =>
      match (s.inst i).pc, (s.inst i).rch with
      | .select, e :: rest =>
          some (s.setInst i { s.inst i with
            pc := .received e, rch := rest, taken := (s.inst i).taken ++ [e] })
      | _, _ => none
  | .tick i => if (s.inst i).pc matches .select then some s else none
  | .lookup i =>
      match (s.inst i).pc with
      | .received e => some (s.setInst i (dispatch s (s.inst i) e))
      | _ => none
  | .send i =>
      match (s.inst i).pc, (s.inst i).isolate with
      | .missed e, .free =>
          some (s.setInst i { s.inst i with
            pc := .inHandler, isolate := .running .onUpdate, updates := (s.inst i).updates ++ [e] })
      | .deletion _, .free =>
          some (s.setInst i { s.inst i with pc := .inHandler, isolate := .running .onDelete })
      | _, _ => none
  | .unmark i =>
      match (s.inst i).pc with
      | .found e =>
          some { (s.setInst i { s.inst i with
            pc := .select, skipped := (s.inst i).skipped ++ [e] }) with
            metadata := delete s.metadata (casValue e.event.cas) }
      | _ => none
  | .enter i h =>
      match (s.inst i).isolate, h.ofWorker with
      | .free, false => some (s.setInst i { s.inst i with isolate := .running h })
      | _, _ => none
  | .store i key value cas =>
      match (s.inst i).isolate with
      | .running h =>
          if s.Fresh cas then
            some { (s.setInst i { s.inst i with isolate := .stored h cas key }) with
              feed := s.feed ++ [handlerEntry (app i) key value cas] }
          else none
      | _ => none
  | .mark i =>
      match (s.inst i).isolate with
      | .stored h cas key =>
          some { (s.setInst i { s.inst i with isolate := .running h }) with
            metadata := set s.metadata (casKey host cas) key }
      | _ => none
  | .leave i ok =>
      match (s.inst i).isolate with
      | .running h =>
          some (s.setInst i { s.inst i with
            isolate := .free
            pc := if h.ofWorker then .select else (s.inst i).pc
            ops := if h = .onDelete ∧ ok then (s.inst i).ops + 1 else (s.inst i).ops })
      | _ => none
  | .quit i =>
      if (s.inst i).pc matches .select then
        some (s.setInst i { s.inst i with pc := .stopped })
      else none

/-- What each action needs and does, one constructor for each branch of `step`. -/
inductive Stepped (host : Host) (app : ι → App) (s : State ι App) :
    Action ι → State ι App → Prop
  | client {e : DcpEvent} (fresh : e.opcode = .mutation → s.Fresh e.cas) :
      Stepped host app s (.client e) { s with feed := s.feed ++ [⟨e, none⟩] }
  | deploy {i : ι} (pc : (s.inst i).pc = .undeployed) :
      Stepped host app s (.deploy i) (s.setInst i { s.inst i with pc := .select })
  | pull {i : ι} {e : Entry App} (held : (s.inst i).held = none)
      (next : s.feed[(s.inst i).cursor]? = some e) :
      Stepped host app s (.pull i)
        (s.setInst i { s.inst i with held := some e, cursor := (s.inst i).cursor + 1 })
  | forward {i : ι} {e : Entry App} (held : (s.inst i).held = some e)
      (room : (s.inst i).rch.length < rchCapacity) :
      Stepped host app s (.forward i)
        (s.setInst i { s.inst i with held := none, rch := (s.inst i).rch ++ [e] })
  | receive {i : ι} {e : Entry App} {rest : List (Entry App)} (pc : (s.inst i).pc = .select)
      (rch : (s.inst i).rch = e :: rest) :
      Stepped host app s (.receive i)
        (s.setInst i { s.inst i with
          pc := .received e, rch := rest, taken := (s.inst i).taken ++ [e] })
  | tick {i : ι} (pc : (s.inst i).pc = .select) : Stepped host app s (.tick i) s
  | miss {i : ι} {e : Entry App} (pc : (s.inst i).pc = .received e)
      (opcode : e.event.opcode = .mutation)
      (marker : get s.metadata (casValue e.event.cas) = none) :
      Stepped host app s (.lookup i)
        (s.setInst i { s.inst i with pc := .missed e, ops := (s.inst i).ops + 1 })
  | hit {i : ι} {e : Entry App} {v : Text} (pc : (s.inst i).pc = .received e)
      (opcode : e.event.opcode = .mutation)
      (marker : get s.metadata (casValue e.event.cas) = some v) :
      Stepped host app s (.lookup i) (s.setInst i { s.inst i with pc := .found e })
  | deletion {i : ι} {e : Entry App} (pc : (s.inst i).pc = .received e)
      (opcode : e.event.opcode = .deletion) :
      Stepped host app s (.lookup i) (s.setInst i { s.inst i with pc := .deletion e })
  | ignore {i : ι} {e : Entry App} (pc : (s.inst i).pc = .received e)
      (opcode : e.event.opcode = .other) :
      Stepped host app s (.lookup i) (s.setInst i { s.inst i with pc := .select })
  | sendUpdate {i : ι} {e : Entry App} (pc : (s.inst i).pc = .missed e)
      (isolate : (s.inst i).isolate = .free) :
      Stepped host app s (.send i)
        (s.setInst i { s.inst i with
          pc := .inHandler, isolate := .running .onUpdate, updates := (s.inst i).updates ++ [e] })
  | sendDelete {i : ι} {e : Entry App} (pc : (s.inst i).pc = .deletion e)
      (isolate : (s.inst i).isolate = .free) :
      Stepped host app s (.send i)
        (s.setInst i { s.inst i with pc := .inHandler, isolate := .running .onDelete })
  | unmark {i : ι} {e : Entry App} (pc : (s.inst i).pc = .found e) :
      Stepped host app s (.unmark i)
        { (s.setInst i { s.inst i with
          pc := .select, skipped := (s.inst i).skipped ++ [e] }) with
          metadata := delete s.metadata (casValue e.event.cas) }
  | enter {i : ι} {h : Handler} (isolate : (s.inst i).isolate = .free)
      (side : h.ofWorker = false) :
      Stepped host app s (.enter i h) (s.setInst i { s.inst i with isolate := .running h })
  | store {i : ι} {h : Handler} {key value : Text} {cas : Cas}
      (isolate : (s.inst i).isolate = .running h) (fresh : s.Fresh cas) :
      Stepped host app s (.store i key value cas)
        { (s.setInst i { s.inst i with isolate := .stored h cas key }) with
          feed := s.feed ++ [handlerEntry (app i) key value cas] }
  | mark {i : ι} {h : Handler} {key : Text} {cas : Cas}
      (isolate : (s.inst i).isolate = .stored h cas key) :
      Stepped host app s (.mark i)
        { (s.setInst i { s.inst i with isolate := .running h }) with
          metadata := set s.metadata (casKey host cas) key }
  | leave {i : ι} {h : Handler} {ok : Bool} (isolate : (s.inst i).isolate = .running h) :
      Stepped host app s (.leave i ok)
        (s.setInst i { s.inst i with
          isolate := .free
          pc := if h.ofWorker then .select else (s.inst i).pc
          ops := if h = .onDelete ∧ ok then (s.inst i).ops + 1 else (s.inst i).ops })
  | quit {i : ι} (pc : (s.inst i).pc = .select) :
      Stepped host app s (.quit i) (s.setInst i { s.inst i with pc := .stopped })

lemma step_stepped {host : Host} {app : ι → App} {s t : State ι App} {a : Action ι}
    (h : step host app s a = some t) : Stepped host app s a t := by
  cases a <;> simp only [step] at h
  case lookup i =>
    split at h <;> simp only [Option.some.injEq, reduceCtorEq] at h
    rename_i e hpc
    subst h
    unfold dispatch
    cases ho : e.event.opcode with
    | mutation =>
      cases hm : get s.metadata (casValue e.event.cas) with
      | none => exact .miss hpc ho hm
      | some v => exact .hit hpc ho hm
    | deletion => exact .deletion hpc ho
    | other => exact .ignore hpc ho
  case client e =>
    split_ifs at h with hf
    cases h
    exact .client hf
  case deploy i =>
    split_ifs at h with hpc
    cases h
    split at hpc <;> simp only [reduceCtorEq] at hpc
    exact .deploy ‹_›
  case pull i =>
    split at h <;> simp only [Option.some.injEq, reduceCtorEq] at h
    subst h
    exact .pull ‹_› ‹_›
  case forward i =>
    split at h
    · split_ifs at h with hr
      cases h
      exact .forward ‹_› hr
    · cases h
  case receive i =>
    split at h <;> simp only [Option.some.injEq, reduceCtorEq] at h
    subst h
    exact .receive ‹_› ‹_›
  case tick i =>
    split_ifs at h with hpc
    cases h
    split at hpc <;> simp only [reduceCtorEq] at hpc
    exact .tick ‹_›
  case send i =>
    split at h <;> simp only [Option.some.injEq, reduceCtorEq] at h <;> subst h
    · exact .sendUpdate ‹_› ‹_›
    · exact .sendDelete ‹_› ‹_›
  case unmark i =>
    split at h <;> simp only [Option.some.injEq, reduceCtorEq] at h
    subst h
    exact .unmark ‹_›
  case enter i hd =>
    split at h <;> simp only [Option.some.injEq, reduceCtorEq] at h
    subst h
    exact .enter ‹_› ‹_›
  case store i key value cas =>
    split at h
    · split_ifs at h with hf
      cases h
      exact .store ‹_› hf
    · cases h
  case mark i =>
    split at h <;> simp only [Option.some.injEq, reduceCtorEq] at h
    subst h
    exact .mark ‹_›
  case leave i ok =>
    split at h <;> simp only [Option.some.injEq, reduceCtorEq] at h
    subst h
    exact .leave ‹_›
  case quit i =>
    split_ifs at h with hpc
    cases h
    split at hpc <;> simp only [reduceCtorEq] at hpc
    exact .quit ‹_›

end

end Eventing.Pipeline
