import Mathlib.Logic.Function.Basic
import Mathlib.Data.List.Infix
import Eventing.Decimal
import Eventing.Transition

/-!
# Requests to the debugger

Each request of the debugger (`worker.cc`) clears `data_ready`, sets the handler for the
messages of its isolate, sends a command, waits on `cv` until `data_ready` is set, and
returns a pointer into the global that its handler stores results in, which Go copies
(`worker.go`). The handlers set `data_ready` for some messages, and `SendUpdate` and
`SendDelete` of every worker set it at their end; none of them takes `debug_cv_m`.
-/
namespace Eventing.Debugger
open Transition

inductive Kind
  | cont
  | evaluate
  | setBreakpoint
  | clearBreakpoint
  | listBreakpoints
  deriving DecidableEq

/-- What the handlers use of RapidJSON: whether a message parses, whether it is an object, and
the integers `doc["body"]["line"]` and `doc["body"]["column"]`, at which an assertion fails
where there is none. -/
structure Json where
  parses : Text → Bool
  isObject : Text → Bool
  line : Text → Option ℤ
  column : Text → Option ℤ

/-- What a handler does with a message: the text that it stores, and whether it sets
`data_ready`. It ends the process where an assertion fails, and what it does is not defined
where `sprintf` writes behind its buffer. -/
inductive Outcome
  | stored (text : Text) (ready : Bool)
  | aborted
  | overflow
  deriving DecidableEq

def Outcome.ready : Outcome → Bool
  | .stored _ ready => ready
  | .aborted | .overflow => false

section
variable (json : Json)

/-- A message that has passed the tests of its text. -/
def parseResult (result : Text → Outcome) (message : Text) : Outcome :=
  if json.parses message then
    if json.isObject message then result message else .aborted
  else .stored message false

/-- The message has to contain `command` and must not contain `failure`. -/
def responseResult (command failure : Text) (result : Text → Outcome) (message : Text) : Outcome :=
  if ¬ command <:+: message then .stored message false
  else if failure <:+: message then .stored message false
  else parseResult json result message

def storeMessage (message : Text) : Outcome := .stored message true

def getEvaluateResult : Text → Outcome :=
  responseResult json "\"command\":\"evaluate\"".toList "\"text\":\"".toList storeMessage

/-- `sprintf(buf, "%d:%d", line.GetInt(), column.GetInt())` -/
def breakpointText (message : Text) : Option Text := do
  let line ← json.line message
  let column ← json.column message
  return (toString line).toList ++ ':' :: (toString column).toList

/-- The size of `buf`, which ends with a zero. -/
def bufSize : ℕ := 10

def storeBreakpoint (message : Text) : Outcome :=
  match breakpointText json message with
  | some text => if text.length < bufSize then .stored text true else .overflow
  | none => .aborted

def setBreakpointResult : Text → Outcome :=
  responseResult json "\"command\":\"setbreakpoint\"".toList "\"type\":\"".toList
    (storeBreakpoint json)

def clearBreakpointResult : Text → Outcome :=
  responseResult json "\"command\":\"clearbreakpoint\"".toList "\"message\":\"Error".toList
    storeMessage

def listBreakpointResult : Text → Outcome :=
  responseResult json "\"command\":\"listbreakpoints\"".toList "\"message\":\"Error".toList
    storeMessage

/-- `ContinueResult`, which waits for the message after the response to its command. -/
def continueResult (message : Text) : Outcome :=
  if "\"command\":\"continue\"".toList <:+: message then .stored message false
  else parseResult json storeMessage message

def handle : Kind → Text → Outcome
  | .cont => continueResult json
  | .evaluate => getEvaluateResult json
  | .setBreakpoint => setBreakpointResult json
  | .clearBreakpoint => clearBreakpointResult json
  | .listBreakpoints => listBreakpointResult json

end

/-- A result with the worker whose message it was stored for and the number of messages
before that one. -/
structure Result (ω : Type*) where
  text : Text
  source : Option (ω × ℕ)
  deriving DecidableEq

/-- The text was stored for a message of the worker that came when there had been `sentAt`
messages or more. -/
def Result.Own {ω : Type*} (r : Result ω) (w : ω) (sentAt : ℕ) : Prop :=
  ∃ n, r.source = some (w, n) ∧ sentAt ≤ n

instance {ω : Type*} [DecidableEq ω] (r : Result ω) (w : ω) (sentAt : ℕ) :
    Decidable (r.Own w sentAt) :=
  decidable_of_iff (r.source.any fun p => decide (p.1 = w ∧ sentAt ≤ p.2)) (by
    simp [Result.Own, Option.any_eq_true, and_comm])

/-- A request: with the lock, behind each of its statements up to `SendCommand`, waiting
without the lock, with the lock behind the wait, with the pointer and without the lock, and at
its end with the text that was copied. `sentAt` is the number of messages before the command
was sent. -/
inductive Request (ω : Type*)
  | idle
  | locked (w : ω) (k : Kind)
  | cleared (w : ω) (k : Kind)
  | installed (w : ω) (k : Kind)
  | sent (w : ω) (k : Kind) (sentAt : ℕ)
  | waiting (w : ω) (k : Kind) (sentAt : ℕ)
  | ready (w : ω) (k : Kind) (sentAt : ℕ)
  | unlocked (w : ω) (k : Kind) (sentAt : ℕ)
  | returned (w : ω) (sentAt : ℕ) (r : Result ω)
  deriving DecidableEq

structure Command (ω : Type*) where
  worker : ω
  kind : Kind
  sentAt : ℕ

/-- The command of a request that has been sent, until its result is copied. -/
def Request.pending {ω : Type*} : Request ω → Option (Command ω)
  | .sent w k sentAt | .waiting w k sentAt | .ready w k sentAt | .unlocked w k sentAt =>
      some ⟨w, k, sentAt⟩
  | .idle | .locked _ _ | .cleared _ _ | .installed _ _ | .returned _ _ _ => none

/-- The wait has ended, and the global is still to be copied. -/
def Request.reads {ω : Type*} : Request ω → Bool
  | .ready _ _ _ | .unlocked _ _ _ => true
  | .idle | .locked _ _ | .cleared _ _ | .installed _ _ | .sent _ _ _ | .waiting _ _ _
  | .returned _ _ _ => false

structure State (ω ι : Type*) where
  request : ι → Request ω
  /-- Whether a request holds `debug_cv_m`. -/
  locked : Bool
  dataReady : Bool
  handler : ω → Option Kind
  result : Kind → Result ω
  /-- The number of messages so far. -/
  received : ℕ

variable {ω ι : Type*}

def State.initial : State ω ι where
  request _ := .idle
  locked := false
  dataReady := false
  handler _ := none
  result _ := ⟨[], none⟩
  received := 0

/-- `unlock` is the `return` of a request, `goString` the copy that `worker.go` makes, and
`finish` the end of `SendUpdate` or `SendDelete`. -/
inductive Action (ω ι : Type*)
  | lock (i : ι) (w : ω) (k : Kind)
  | clear (i : ι)
  | setMessageHandler (i : ι)
  | sendCommand (i : ι)
  | wait (i : ι)
  | wake (i : ι)
  | unlock (i : ι)
  | goString (i : ι)
  | message (w : ω) (text : Text)
  | finish (w : ω)

section
variable [DecidableEq ω] [DecidableEq ι]

def State.setRequest (s : State ω ι) (i : ι) (r : Request ω) : State ω ι :=
  { s with request := Function.update s.request i r }

def step (json : Json) (s : State ω ι) : Action ω ι → Option (State ω ι)
  | .lock i w k =>
      match s.request i, s.locked with
      | .idle, false => some { s.setRequest i (.locked w k) with locked := true }
      | _, _ => none
  | .clear i =>
      match s.request i with
      | .locked w k => some { s.setRequest i (.cleared w k) with dataReady := false }
      | _ => none
  | .setMessageHandler i =>
      match s.request i with
      | .cleared w k => some { s.setRequest i (.installed w k) with
          handler := Function.update s.handler w (some k) }
      | _ => none
  | .sendCommand i =>
      match s.request i with
      | .installed w k => some (s.setRequest i (.sent w k s.received))
      | _ => none
  | .wait i =>
      -- `cv.wait` looks at the flag before it releases the lock.
      match s.request i with
      | .sent w k sentAt =>
          if s.dataReady then some (s.setRequest i (.ready w k sentAt))
          else some { s.setRequest i (.waiting w k sentAt) with locked := false }
      | _ => none
  | .wake i =>
      match s.request i, s.locked, s.dataReady with
      | .waiting w k sentAt, false, true => some { s.setRequest i (.ready w k sentAt) with
          locked := true }
      | _, _, _ => none
  | .unlock i =>
      match s.request i with
      | .ready w k sentAt => some { s.setRequest i (.unlocked w k sentAt) with locked := false }
      | _ => none
  | .goString i =>
      match s.request i with
      | .unlocked w k sentAt => some (s.setRequest i (.returned w sentAt (s.result k)))
      | _ => none
  | .message w text =>
      match s.handler w with
      | some k =>
          match handle json k text with
          | .stored result ready => some { s with
              dataReady := s.dataReady || ready
              result := Function.update s.result k ⟨result, some (w, s.received)⟩
              received := s.received + 1 }
          -- The run is over.
          | .aborted | .overflow => none
      | none => some { s with received := s.received + 1 }
  | .finish _ => some { s with dataReady := true }

inductive Stepped (json : Json) (s : State ω ι) : Action ω ι → State ω ι → Prop
  | lock {i : ι} {w : ω} {k : Kind} (pc : s.request i = .idle) (free : s.locked = false) :
      Stepped json s (.lock i w k) { s.setRequest i (.locked w k) with locked := true }
  | clear {i : ι} {w : ω} {k : Kind} (pc : s.request i = .locked w k) :
      Stepped json s (.clear i) { s.setRequest i (.cleared w k) with dataReady := false }
  | setMessageHandler {i : ι} {w : ω} {k : Kind} (pc : s.request i = .cleared w k) :
      Stepped json s (.setMessageHandler i) { s.setRequest i (.installed w k) with
        handler := Function.update s.handler w (some k) }
  | sendCommand {i : ι} {w : ω} {k : Kind} (pc : s.request i = .installed w k) :
      Stepped json s (.sendCommand i) (s.setRequest i (.sent w k s.received))
  | pass {i : ι} {w : ω} {k : Kind} {sentAt : ℕ} (pc : s.request i = .sent w k sentAt)
      (ready : s.dataReady = true) :
      Stepped json s (.wait i) (s.setRequest i (.ready w k sentAt))
  | wait {i : ι} {w : ω} {k : Kind} {sentAt : ℕ} (pc : s.request i = .sent w k sentAt)
      (ready : s.dataReady = false) :
      Stepped json s (.wait i) { s.setRequest i (.waiting w k sentAt) with locked := false }
  | wake {i : ι} {w : ω} {k : Kind} {sentAt : ℕ} (pc : s.request i = .waiting w k sentAt)
      (free : s.locked = false) (ready : s.dataReady = true) :
      Stepped json s (.wake i) { s.setRequest i (.ready w k sentAt) with locked := true }
  | unlock {i : ι} {w : ω} {k : Kind} {sentAt : ℕ} (pc : s.request i = .ready w k sentAt) :
      Stepped json s (.unlock i) { s.setRequest i (.unlocked w k sentAt) with locked := false }
  | goString {i : ι} {w : ω} {k : Kind} {sentAt : ℕ} (pc : s.request i = .unlocked w k sentAt) :
      Stepped json s (.goString i) (s.setRequest i (.returned w sentAt (s.result k)))
  | message {w : ω} {k : Kind} {text result : Text} {ready : Bool} (installed : s.handler w = some k)
      (handled : handle json k text = .stored result ready) :
      Stepped json s (.message w text) { s with
        dataReady := s.dataReady || ready
        result := Function.update s.result k ⟨result, some (w, s.received)⟩
        received := s.received + 1 }
  | ignored {w : ω} {text : Text} (installed : s.handler w = none) :
      Stepped json s (.message w text) { s with received := s.received + 1 }
  | finish {w : ω} : Stepped json s (.finish w) { s with dataReady := true }

lemma step_stepped {json : Json} {s t : State ω ι} {a : Action ω ι} (h : step json s a = some t) :
    Stepped json s a t := by
  cases a <;> simp only [step] at h
  case lock i w k =>
    split at h
    · cases h
      exact .lock ‹_› ‹_›
    · contradiction
  case clear i =>
    split at h
    · cases h
      exact .clear ‹_›
    · contradiction
  case setMessageHandler i =>
    split at h
    · cases h
      exact .setMessageHandler ‹_›
    · contradiction
  case sendCommand i =>
    split at h
    · cases h
      exact .sendCommand ‹_›
    · contradiction
  case wait i =>
    split at h
    · split_ifs at h with hr
      · cases h
        exact .pass ‹_› hr
      · cases h
        exact .wait ‹_› (Bool.not_eq_true _ ▸ hr)
    · contradiction
  case wake i =>
    split at h
    · cases h
      exact .wake ‹_› ‹_› ‹_›
    · contradiction
  case unlock i =>
    split at h
    · cases h
      exact .unlock ‹_›
    · contradiction
  case goString i =>
    split at h
    · cases h
      exact .goString ‹_›
    · contradiction
  case message w text =>
    split at h
    · split at h
      · cases h
        exact .message ‹_› ‹_›
      · contradiction
      · contradiction
    · cases h
      exact .ignored ‹_›
  case finish w =>
    cases h
    exact .finish

end

/-- Whatever a request has returned was stored for a message of its worker after its
command. -/
def ReturnsOwn (s : State ω ι) : Prop :=
  ∀ i w sentAt r, s.request i = .returned w sentAt r → r.Own w sentAt

/-- Requests that can return have a result of their own as well. -/
structure OwnResponses (s : State ω ι) : Prop where
  returned : ReturnsOwn s
  ready : ∀ i, ∀ p ∈ (s.request i).pending, s.dataReady = true ∨ (s.request i).reads = true →
    (s.result p.kind).Own p.worker p.sentAt

/-- `data_ready` is not set while a request is pending that has no result of its own: not
before its command is sent, not at the end of an update or a deletion, and not by a handler
for another kind of request; and a handler does not store over such a result, while the flag
is set or the result is still to be copied, what it gets for another worker. -/
def Timely (json : Json) (s : State ω ι) : Action ω ι → Prop
  | .sendCommand _ => s.dataReady = false
  | .message v text => ∀ k ∈ s.handler v, ∀ i, ∀ p ∈ (s.request i).pending,
      (s.dataReady || (handle json k text).ready) = true ∨ (s.request i).reads = true →
        if p.kind = k then p.worker = v else (s.result p.kind).Own p.worker p.sentAt
  | .finish _ => ∀ i, ∀ p ∈ (s.request i).pending, (s.result p.kind).Own p.worker p.sentAt
  | .lock _ _ _ | .clear _ | .setMessageHandler _ | .wait _ | .wake _ | .unlock _ | .goString _ =>
      True

/-- Commands are sent and results stored at numbers of messages in the past. -/
structure Counted (s : State ω ι) : Prop where
  sent : ∀ i, ∀ p ∈ (s.request i).pending, p.sentAt ≤ s.received
  stored : ∀ k, ∀ p ∈ (s.result k).source, p.2 < s.received

lemma Counted.initial : Counted (State.initial : State ω ι) where
  sent := nofun
  stored := nofun

lemma OwnResponses.initial : OwnResponses (State.initial : State ω ι) where
  returned := nofun
  ready := nofun

section
variable {s t : State ω ι}

lemma Counted.message (hC : Counted s) {w : ω} {k : Kind} {text : Text}
    (hrequest : t.request = s.request)
    (hresult : t.result = Function.update s.result k ⟨text, some (w, s.received)⟩)
    (hreceived : t.received = s.received + 1) : Counted t where
  sent i p hp := by
    rw [hrequest] at hp
    have := hC.sent i p hp
    omega
  stored k' p hp := by
    rw [hresult, Function.update_apply] at hp
    split_ifs at hp
    · obtain rfl := Option.mem_some.mp hp
      omega
    · have := hC.stored k' p hp
      omega

lemma OwnResponses.message_iff (hC : Counted s) (hO : OwnResponses s) (v : ω) (k : Kind)
    (text : Text) (ready : Bool) :
    OwnResponses { s with
      dataReady := ready
      result := Function.update s.result k ⟨text, some (v, s.received)⟩
      received := s.received + 1 } ↔
    (∀ i, ∀ p ∈ (s.request i).pending, ready = true ∨ (s.request i).reads = true →
      if p.kind = k then p.worker = v else (s.result p.kind).Own p.worker p.sentAt) := by
  have hown : ∀ i, ∀ p ∈ (s.request i).pending,
      (Function.update s.result k ⟨text, some (v, s.received)⟩ p.kind).Own p.worker p.sentAt ↔
        if p.kind = k then p.worker = v else (s.result p.kind).Own p.worker p.sentAt := by
    intro i p hp
    rw [Function.update_apply]
    split_ifs
    · have := hC.sent i p hp
      simp [Result.Own, this, eq_comm]
    · exact Iff.rfl
  constructor
  · intro ht i p hp hready
    exact (hown i p hp).mp (ht.ready i p hp hready)
  · intro h
    refine ⟨hO.returned, ?_⟩
    intro i p hp hready
    exact (hown i p hp).mpr (h i p hp hready)

variable [DecidableEq ι]

lemma Counted.update (hC : Counted s) (i : ι) (r : Request ω)
    (hrequest : t.request = Function.update s.request i r) (hresult : t.result = s.result)
    (hreceived : t.received = s.received) (hr : ∀ p ∈ r.pending, p.sentAt ≤ s.received) :
    Counted t where
  sent j := by
    rw [hrequest, hreceived, Function.update_apply]
    split_ifs
    · exact hr
    · exact hC.sent j
  stored := by
    rw [hresult, hreceived]
    exact hC.stored

lemma OwnResponses.update (hO : OwnResponses s) (i : ι) (r : Request ω)
    (hrequest : t.request = Function.update s.request i r) (hresult : t.result = s.result)
    (hready : t.dataReady = true → s.dataReady = true)
    (hreturned : ∀ w sentAt q, r = .returned w sentAt q → q.Own w sentAt)
    (hpending : ∀ p ∈ r.pending, t.dataReady = true ∨ r.reads = true →
      (s.result p.kind).Own p.worker p.sentAt) :
    OwnResponses t where
  returned j := by
    rw [hrequest, Function.update_apply]
    split_ifs
    · exact hreturned
    · exact hO.returned j
  ready j p hp ht := by
    rw [hrequest, Function.update_apply] at hp ht
    rw [hresult]
    split_ifs at hp ht
    · exact hpending p hp ht
    · exact hO.ready j p hp (ht.imp_left hready)

lemma OwnResponses.goesOn (hO : OwnResponses s) {i : ι} {c : Command ω} {r : Request ω}
    (hi : (s.request i).pending = some c) (hr : r.pending = some c)
    (hreads : s.dataReady = true ∨ (s.request i).reads = true)
    (hrequest : t.request = Function.update s.request i r) (hresult : t.result = s.result)
    (hready : t.dataReady = s.dataReady) : OwnResponses t := by
  refine hO.update i r hrequest hresult (fun ht => hready ▸ ht) ?_ ?_
  · rintro w n q rfl
    contradiction
  · intro p hp _
    rw [hr] at hp
    obtain rfl := Option.mem_some.mp hp
    exact hO.ready i c hi hreads

lemma OwnResponses.returns (hO : OwnResponses s) {i : ι} {w : ω} {k : Kind} {n : ℕ}
    (hi : s.request i = .unlocked w k n)
    (hrequest : t.request = Function.update s.request i (.returned w n (s.result k)))
    (hresult : t.result = s.result) (hready : t.dataReady = s.dataReady) : OwnResponses t := by
  refine hO.update i (.returned w n (s.result k)) hrequest hresult (fun ht => hready ▸ ht) ?_ nofun
  rintro _ _ _ ⟨⟩
  exact hO.ready i ⟨w, k, n⟩ (by rw [hi]; rfl) (.inr (by rw [hi]; rfl))

lemma OwnResponses.sendCommand_iff (hC : Counted s) (hO : OwnResponses s) (i : ι) (w : ω) (k : Kind) :
    OwnResponses (s.setRequest i (.sent w k s.received)) ↔ s.dataReady = false := by
  constructor
  · intro ht
    by_contra hready
    have hpending : ((s.setRequest i (.sent w k s.received)).request i).pending =
        some ⟨w, k, s.received⟩ := by simp [State.setRequest, Request.pending]
    obtain ⟨n, hn, hle⟩ := ht.ready i _ hpending (.inl (Bool.not_eq_false _ ▸ hready))
    have hlt : n < s.received := hC.stored k _ hn
    exact absurd hlt (Nat.not_lt.mpr hle)
  · intro hready
    refine hO.update i (.sent w k s.received) rfl rfl id nofun ?_
    rintro p hp (ht | ht)
    · exact absurd (hready.symm.trans ht) Bool.noConfusion
    · contradiction

variable [DecidableEq ω] {json : Json} {a : Action ω ι}

lemma Counted.step (hC : Counted s) (h : step json s a = some t) : Counted t := by
  cases step_stepped h with
  | @lock i w k => exact hC.update i (.locked w k) rfl rfl rfl nofun
  | @clear i w k => exact hC.update i (.cleared w k) rfl rfl rfl nofun
  | @setMessageHandler i w k => exact hC.update i (.installed w k) rfl rfl rfl nofun
  | @sendCommand i w k =>
    refine hC.update i (.sent w k s.received) rfl rfl rfl ?_
    rintro p ⟨⟩
    exact Nat.le_refl _
  | @pass i w k n pc =>
    refine hC.update i (.ready w k n) rfl rfl rfl ?_
    have hn := hC.sent i
    rwa [pc] at hn
  | @wait i w k n pc =>
    refine hC.update i (.waiting w k n) rfl rfl rfl ?_
    have hn := hC.sent i
    rwa [pc] at hn
  | @wake i w k n pc =>
    refine hC.update i (.ready w k n) rfl rfl rfl ?_
    have hn := hC.sent i
    rwa [pc] at hn
  | @unlock i w k n pc =>
    refine hC.update i (.unlocked w k n) rfl rfl rfl ?_
    have hn := hC.sent i
    rwa [pc] at hn
  | @goString i w k n => exact hC.update i (.returned w n (s.result k)) rfl rfl rfl nofun
  | message => exact hC.message rfl rfl rfl
  | ignored =>
    exact ⟨fun i p hp => Nat.le_succ_of_le (hC.sent i p hp),
      fun k p hp => Nat.lt_succ_of_lt (hC.stored k p hp)⟩
  | finish => exact ⟨hC.sent, hC.stored⟩

lemma ownResponses_iff (hC : Counted s) (hO : OwnResponses s) (h : step json s a = some t) :
    OwnResponses t ↔ Timely json s a := by
  cases step_stepped h with
  | @lock i w k =>
    exact iff_of_true (hO.update i (.locked w k) rfl rfl id nofun nofun) trivial
  | @clear i w k =>
    exact iff_of_true (hO.update i (.cleared w k) rfl rfl nofun nofun nofun) trivial
  | @setMessageHandler i w k =>
    exact iff_of_true (hO.update i (.installed w k) rfl rfl id nofun nofun) trivial
  | @sendCommand i w k => exact OwnResponses.sendCommand_iff hC hO i w k
  | @pass i w k n pc ready =>
    exact iff_of_true (hO.goesOn (c := ⟨w, k, n⟩) (by rw [pc]; rfl) rfl (.inl ready) rfl rfl rfl) trivial
  | @wait i w k n pc ready =>
    refine iff_of_true (hO.update i (.waiting w k n) rfl rfl id nofun ?_) trivial
    rintro p hp (ht | ht)
    · exact absurd (ready.symm.trans ht) Bool.noConfusion
    · contradiction
  | @wake i w k n pc _ ready =>
    exact iff_of_true (hO.goesOn (c := ⟨w, k, n⟩) (by rw [pc]; rfl) rfl (.inl ready) rfl rfl rfl) trivial
  | @unlock i w k n pc =>
    have hreads : (s.request i).reads = true := by rw [pc]; rfl
    exact iff_of_true (hO.goesOn (c := ⟨w, k, n⟩) (by rw [pc]; rfl) rfl (.inr hreads) rfl rfl rfl) trivial
  | goString pc => exact iff_of_true (hO.returns pc rfl rfl rfl) trivial
  | @message w k text result ready installed handled =>
    refine (OwnResponses.message_iff hC hO w k _ _).trans ?_
    have hready : (handle json k text).ready = ready := by rw [handled, Outcome.ready]
    simp only [Timely, installed, Option.mem_some]
    constructor
    · rintro h _ rfl
      rw [hready]
      exact h
    · intro h
      rw [← hready]
      exact h k rfl
  | ignored installed =>
    refine iff_of_true ⟨hO.returned, hO.ready⟩ ?_
    intro k hk
    cases installed.symm.trans hk
  | finish =>
    constructor
    · intro ht i p hp
      exact ht.ready i p hp (.inl rfl)
    · intro h
      exact ⟨hO.returned, fun i p hp _ => h i p hp⟩

/-- No request ever can return what is not its own exactly when every step is timely. -/
theorem ownResponses_along_iff (json : Json) (as : List (Action ω ι)) :
    Along (step json) (fun _ _ t => OwnResponses t) .initial as ↔
      Along (step json) (fun s a _ => Timely json s a) .initial as := by
  refine along_iff (I := fun s => Counted s ∧ OwnResponses s) ⟨.initial, .initial⟩ ?_ ?_ as
  · intro s a t hI h
    exact ownResponses_iff hI.1 hI.2 h
  · intro s a t hI h hO
    exact ⟨hI.1.step h, hO⟩

/-- In a run of timely steps, every request returns its own response. -/
theorem returnsOwn_of_timely (hs : Reach (step json) (Timely json) .initial s) : ReturnsOwn s := by
  have hI : Counted s ∧ OwnResponses s := by
    refine hs.invariant (I := fun s => Counted s ∧ OwnResponses s) ⟨.initial, .initial⟩ ?_
    intro s a t hI hok h
    exact ⟨hI.1.step h, (ownResponses_iff hI.1 hI.2 h).mpr hok⟩
  exact hI.2.returned

end

section
variable [DecidableEq ω] {n : ℕ}

instance (json : Json) (s : State ω (Fin n)) : (a : Action ω (Fin n)) → Decidable (Timely json s a)
  | .sendCommand _ => inferInstanceAs (Decidable (s.dataReady = false))
  | .message v text => inferInstanceAs (Decidable (∀ k ∈ s.handler v, ∀ i,
      ∀ p ∈ (s.request i).pending,
      (s.dataReady || (handle json k text).ready) = true ∨ (s.request i).reads = true →
        if p.kind = k then p.worker = v else (s.result p.kind).Own p.worker p.sentAt))
  | .finish _ => inferInstanceAs (Decidable (∀ i, ∀ p ∈ (s.request i).pending,
      (s.result p.kind).Own p.worker p.sentAt))
  | .lock _ _ _ | .clear _ | .setMessageHandler _ | .wait _ | .wake _ | .unlock _ | .goString _ =>
      inferInstanceAs (Decidable True)

end

def response : Text :=
  "\x7b\"type\":\"response\",\"command\":\"evaluate\",\"success\":false\x7d".toList

def responseJson : Json :=
  ⟨fun message => message = response, fun _ => true, fun _ => none, fun _ => none⟩

def evaluateRequest (i : ι) (w : ω) : List (Action ω ι) :=
  [.lock i w .evaluate, .clear i, .setMessageHandler i, .sendCommand i, .wait i]

theorem returnsOwn_evaluate : ∃ s : State (Fin 1) (Fin 1),
    Reach (step responseJson) (Timely responseJson) .initial s ∧
      s.request 0 = .returned 0 0 ⟨response, some (0, 0)⟩ ∧ ReturnsOwn s := by
  obtain ⟨s, -, hs, hreturned⟩ := exec_of_any (step responseJson) (Timely responseJson)
    (.initial : State (Fin 1) (Fin 1)) (evaluateRequest 0 0 ++
      [.message 0 response, .wake 0, .unlock 0, .goString 0])
    (fun s => s.request 0 = .returned 0 0 ⟨response, some (0, 0)⟩) (by decide)
  exact ⟨s, hs, of_decide_eq_true hreturned, returnsOwn_of_timely hs⟩

/-- The second request is woken by an update of another worker and returns the response to
the first one. -/
theorem not_returnsOwn : ∃ s : State (Fin 2) (Fin 2),
    Reachable (step responseJson) .initial s ∧
      s.request 1 = .returned 0 1 ⟨response, some (0, 0)⟩ ∧ ¬ ReturnsOwn s := by
  obtain ⟨s, -, hs, hreturned⟩ := exec_of_any (step responseJson) (fun _ _ => True)
    (.initial : State (Fin 2) (Fin 2))
    (evaluateRequest 0 0 ++
      [.message 0 response, .wake 0, .unlock 0, .goString 0] ++ evaluateRequest 1 0 ++
      [.finish 1, .wake 1, .unlock 1, .goString 1])
    (fun s => s.request 1 = .returned 0 1 ⟨response, some (0, 0)⟩) (by decide)
  refine ⟨s, hs, of_decide_eq_true hreturned, ?_⟩
  intro hown
  obtain ⟨n, hn, hle⟩ := hown 1 0 1 _ (of_decide_eq_true hreturned)
  cases hn
  contradiction

end Eventing.Debugger
