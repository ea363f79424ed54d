import Eventing.SendUpdate
import Eventing.Transition

/-!
# The errors of a worker

A call of a worker returns a code, and `Load`, `SendUpdate` and `SendDelete` (`worker.go`)
make an error of `last_exception` when it is not zero. `worker.cc` sets that field behind some
failures. What V8 and the handles answer during a call is part of the call.
-/
namespace Eventing.LastException
open Transition
open SendUpdate (DocType)

/-- `RETURN_CODE`, without the code that nothing returns. -/
inductive ReturnCode
  | success
  | failedToCompileJs
  | noHandlersDefined
  | failedInitBucketHandle
  | failedInitN1qlHandle
  | failedInitQueueHandle
  | onUpdateCallFail
  | onDeleteCallFail
  deriving DecidableEq

/-- Which globals are functions. -/
structure Handlers where
  onUpdate : Bool
  onDelete : Bool
  onHTTPGet : Bool
  onHTTPPost : Bool

def Handlers.defined (h : Handlers) : Bool := h.onUpdate && h.onDelete && h.onHTTPGet && h.onHTTPPost

/-- The answers during a load: the exceptions of `Script::Compile` and `Run`, as texts, what the
globals are behind them, and whether the handles that there are can be initialized. -/
structure Loading where
  compile : Option Text
  run : Option Text
  globals : Handlers
  bucketHandle : Option Bool
  n1qlHandle : Bool
  queueHandle : Option Bool

/-- A call with the exceptions that are thrown while the arguments are made and in the
handler. -/
inductive Call
  | load (l : Loading)
  | sendUpdate (type : DocType) (value metadata onUpdate : Option Text)
  | sendDelete (onDelete : Option Text)

/-- A text with the number of the call whose failure it was made of. -/
structure Report where
  text : Text
  call : Option ℕ
  deriving DecidableEq

/-- `returned` is the error of the last call. -/
structure State where
  lastException : Report
  /-- Whether the handlers of a script have been set. -/
  handlers : Bool
  calls : ℕ
  returned : Option Report

def State.initial : State := ⟨⟨[], none⟩, false, 0, none⟩

/-- `last_exception = ExceptionString(GetIsolate(), &try_catch)` -/
def State.setException (s : State) (text : Text) : State :=
  { s with lastException := ⟨text, some s.calls⟩ }

/-- With the text of an exception where there was one. -/
def executeScript (s : State) (l : Loading) : State × Bool :=
  match l.compile, l.run with
  | some e, _ => (s.setException e, false)
  | none, some e => (s.setException e, false)
  | none, none => (s, true)

def workerLoad (s : State) (l : Loading) : State × ReturnCode :=
  let executed := executeScript s l
  if executed.2 = false then (executed.1, .failedToCompileJs)
  else if l.globals.defined = false then (executed.1, .noHandlersDefined)
  else
    let s := { executed.1 with handlers := true }
    if l.bucketHandle = some false then (s, .failedInitBucketHandle)
    else if l.n1qlHandle = false then (s, .failedInitN1qlHandle)
    else if l.queueHandle = some false then (s, .failedInitQueueHandle)
    else (s, .success)

/-- The exception that `try_catch` holds once the arguments are made. -/
def argsException (type : DocType) (value metadata : Option Text) : Option Text :=
  match type with
  | .json => metadata.or value
  | .nonJson => metadata

/-- It comes back with a code unless an argument could not be made. -/
def sendUpdate (s : State) (type : DocType) (value metadata onUpdate : Option Text) :
    Option (State × ReturnCode) :=
  match argsException type value metadata with
  -- The exception is logged, and `Function::Call` reads the empty handle: the process ends.
  | some _ => none
  | none =>
      match onUpdate with
      | some _ => some (s, .onUpdateCallFail)
      | none => some (s, .success)

def sendDelete (s : State) (onDelete : Option Text) : State × ReturnCode :=
  match onDelete with
  | some _ => (s, .onDeleteCallFail)
  | none => (s, .success)

def finish (r : State × ReturnCode) : State :=
  { r.1 with returned := if r.2 = .success then none else some r.1.lastException }

def State.begin (s : State) : State := { s with calls := s.calls + 1 }

/-- An update or a deletion needs handlers to call. A call in which the process ends is none. -/
def step (s : State) : Call → Option State
  | .load l => some (finish (workerLoad s.begin l))
  | .sendUpdate type value metadata onUpdate =>
      if s.handlers then (sendUpdate s.begin type value metadata onUpdate).map finish else none
  | .sendDelete onDelete =>
      if s.handlers then some (finish (sendDelete s.begin onDelete)) else none

/-- An error that the last call returned was made of a failure of that call. -/
def OwnError (s : State) : Prop := ∀ r ∈ s.returned, r.call = some s.calls

/-- The call does not fail, or it fails where `last_exception` is set. -/
def Reported : Call → Prop
  | .load l => (l.compile ≠ none ∨ l.run ≠ none) ∨ (l.globals.defined = true ∧
      l.bucketHandle ≠ some false ∧ l.n1qlHandle = true ∧ l.queueHandle ≠ some false)
  | .sendUpdate _ _ _ onUpdate => onUpdate = none
  | .sendDelete onDelete => onDelete = none

/-- The exception is one of the calls so far. -/
def Counted (s : State) : Prop := ∀ n ∈ s.lastException.call, n ≤ s.calls

section
variable {s t : State} {l : Loading} {c : Call}

lemma Counted.call_ne (h : Counted s) : s.begin.lastException.call ≠ some s.begin.calls := by
  intro hcall
  have hle := h _ hcall
  simp only [State.begin] at hle
  omega

lemma ownError_finish (r : State × ReturnCode) : OwnError (finish r) ↔
    r.2 = .success ∨ r.1.lastException.call = some r.1.calls := by
  rw [OwnError, finish]
  by_cases h : r.2 = .success <;> simp [h]

lemma executeScript_of_exception (s : State) (h : l.compile ≠ none ∨ l.run ≠ none) :
    ∃ e, executeScript s l = (s.setException e, false) := by
  rw [executeScript]
  cases hc : l.compile with
  | some e => exact ⟨e, rfl⟩
  | none =>
    obtain ⟨e, he⟩ := Option.ne_none_iff_exists'.mp (h.resolve_left (not_not.mpr hc))
    exact ⟨e, by rw [he]⟩

lemma executeScript_of_none (s : State) (hc : l.compile = none) (hr : l.run = none) :
    executeScript s l = (s, true) := by
  rw [executeScript, hc, hr]

lemma ownError_load (h : Counted s) : OwnError (finish (workerLoad s.begin l)) ↔
    Reported (.load l) := by
  rw [ownError_finish, Reported]
  by_cases he : l.compile ≠ none ∨ l.run ≠ none
  · obtain ⟨e, hexec⟩ := executeScript_of_exception s.begin he
    simp [workerLoad, hexec, State.setException, he]
  · have hnot := he
    rw [not_or, not_not, not_not] at hnot
    have hne := h.call_ne
    simp only [workerLoad, executeScript_of_none s.begin hnot.1 hnot.2, he, false_or]
    split_ifs <;> simp_all

lemma sendUpdate_eq {type : DocType} {value metadata onUpdate : Option Text} {r : State × ReturnCode}
    (h : sendUpdate s type value metadata onUpdate = some r) :
    r = (s, if onUpdate = none then .success else .onUpdateCallFail) := by
  rw [sendUpdate.eq_def] at h
  split at h
  · contradiction
  · split at h <;> exact (Option.some.inj h).symm

lemma ownError_sendUpdate {type : DocType} {value metadata onUpdate : Option Text}
    {r : State × ReturnCode} (h : Counted s)
    (hr : sendUpdate s.begin type value metadata onUpdate = some r) :
    OwnError (finish r) ↔ Reported (.sendUpdate type value metadata onUpdate) := by
  have hne := h.call_ne
  rw [ownError_finish, Reported, sendUpdate_eq hr]
  cases onUpdate <;> simp [hne]

lemma ownError_sendDelete {onDelete : Option Text} (h : Counted s) :
    OwnError (finish (sendDelete s.begin onDelete)) ↔ Reported (.sendDelete onDelete) := by
  have hne := h.call_ne
  rw [ownError_finish, Reported]
  cases onDelete <;> simp [sendDelete, hne]

lemma ownError_iff (h : Counted s) (hs : step s c = some t) : OwnError t ↔ Reported c := by
  cases c with
  | load l => exact Option.some.inj hs ▸ ownError_load h
  | sendUpdate type value metadata onUpdate =>
    obtain ⟨-, hs⟩ := Option.ite_none_right_eq_some.mp hs
    obtain ⟨r, hr, rfl⟩ := Option.map_eq_some_iff.mp hs
    exact ownError_sendUpdate h hr
  | sendDelete onDelete =>
    obtain ⟨-, hs⟩ := Option.ite_none_right_eq_some.mp hs
    exact Option.some.inj hs ▸ ownError_sendDelete h

lemma Counted.setException (s : State) (text : Text) : Counted (s.setException text) := by
  intro n hn
  obtain rfl := Option.some.inj hn
  exact Nat.le_refl _

lemma Counted.begin (h : Counted s) : Counted s.begin :=
  fun n hn => (h n hn).trans (Nat.le_succ _)

lemma Counted.workerLoad (h : Counted s) (l : Loading) : Counted (workerLoad s l).1 := by
  by_cases he : l.compile ≠ none ∨ l.run ≠ none
  · obtain ⟨e, hexec⟩ := executeScript_of_exception s he
    simp only [LastException.workerLoad, hexec, if_true]
    exact Counted.setException s e
  · rw [not_or, not_not, not_not] at he
    simp only [LastException.workerLoad, executeScript_of_none s he.1 he.2]
    split_ifs <;> exact h

lemma Counted.step (h : Counted s) (hs : step s c = some t) : Counted t := by
  cases c with
  | load l => exact Option.some.inj hs ▸ h.begin.workerLoad l
  | sendUpdate type value metadata onUpdate =>
    obtain ⟨-, hs⟩ := Option.ite_none_right_eq_some.mp hs
    obtain ⟨r, hr, rfl⟩ := Option.map_eq_some_iff.mp hs
    rw [sendUpdate_eq hr]
    exact h.begin
  | sendDelete onDelete =>
    obtain ⟨-, hs⟩ := Option.ite_none_right_eq_some.mp hs
    obtain rfl := Option.some.inj hs
    cases onDelete <;> exact h.begin

/-- Every error that is returned in a run was made of a failure of its own call exactly when
every failing call fails where `last_exception` is set. -/
theorem ownError_along_iff (calls : List Call) :
    Along step (fun _ _ t => OwnError t) .initial calls ↔
      Along step (fun _ c _ => Reported c) .initial calls := by
  refine along_iff (I := Counted) ?_ ?_ ?_ calls
  · intro n hn
    contradiction
  · exact fun s c t h hs => ownError_iff h hs
  · exact fun s c t h hs _ => h.step hs

end

def syntaxError : Loading :=
  ⟨some "SyntaxError".toList, none, ⟨false, false, false, false⟩, none, true, none⟩

def onUpdateOnly : Loading := ⟨none, none, ⟨true, false, false, false⟩, none, true, none⟩

/-- A script without the other handlers fails with the error of the script before it. -/
theorem stale_error : ¬ Along step (fun _ _ t => OwnError t) .initial
    [.load syntaxError, .load onUpdateOnly] := by
  intro h
  have hown := ((h _ rfl).2 _ rfl).1 _ rfl
  contradiction

end Eventing.LastException
