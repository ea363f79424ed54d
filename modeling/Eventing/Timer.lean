import Mathlib.Logic.Function.Basic
import Eventing.Delimited
import Eventing.KvStore
import Eventing.TimerJson
import Eventing.Timestamp
import Eventing.Transition

/-!
# Timers in the metadata bucket

A timer has two records. `RegisterCallback` (`worker.cc`) stores a blob under the
document id and then appends the id to a list kept under the second at which the
timer is due, which it creates when it does not see it. `processTimerEvent`
(`proccess_timer_callbacks.go`) reads the list of a second, lets
`SendTimerCallback` call the function named in the blob of each id, and deletes
the list and the blobs. Every operation on the bucket is one step, and the steps of
any number of registrations and loops interleave in any order; the lock of an
isolate, which rules some orders out, is not modelled.
-/
namespace Eventing.Timer
open KvStore Timestamp Delimited

variable {App ρ ℓ : Type*}

/-- The arguments of one call of `registerCallback`, which are strings without lone
surrogates, and the application that makes it. -/
structure Registration (App : Type*) where
  app : App
  callbackFuncName : Text
  documentID : Text
  startTimestamp : Text

namespace Registration

def callbackFunc (r : Registration App) : Text := cString r.callbackFuncName

def docId (r : Registration App) : Text := cString r.documentID

def startTs (r : Registration App) : Text := cString r.startTimestamp

def blob (r : Registration App) (t : Second) : Blob := ⟨r.callbackFunc, r.docId, iso8601 t⟩

lemma blob_nulFree (r : Registration App) (t : Second) : (r.blob t).NulFree :=
  ⟨nul_notMem_cString _, nul_notMem_cString _, nul_notMem_iso8601 t⟩

end Registration

/-- A stored text with the registrations that wrote it, which no code reads. -/
structure Doc (ρ : Type*) where
  text : Text
  writers : List ρ
  deriving DecidableEq

instance : Append (Doc ρ) := ⟨fun a b => ⟨a.text ++ b.text, a.writers ++ b.writers⟩⟩

@[simp] lemma Doc.append_text (a b : Doc ρ) : (a ++ b).text = a.text ++ b.text := rfl

@[simp] lemma Doc.append_writers (a b : Doc ρ) :
    (a ++ b).writers = a.writers ++ b.writers := rfl

/-- What `bucketGet` returns for a key that is absent, and the marker that
`RegisterCallback` adds. -/
def Doc.blank : Doc ρ := ⟨[], []⟩

/-- The operation that `RegisterCallback` does next. -/
inductive RegPc
  | start
  | getMarker (t : Second)
  | addMarker (t : Second)
  | appendId (t : Second)
  | returned
  deriving DecidableEq

def RegPc.due : RegPc → Option Second
  | .getMarker t | .addMarker t | .appendId t => some t
  | .start | .returned => none

/-- Where `processTimerEvent` is: in `SendTimerCallback` before the document of the
next id is read, in a callback, before the list is deleted, or before the next
blob is. -/
inductive LoopPc (ρ : Type*)
  | select
  | firing (t : Second) (value : Doc ρ) (keys : List Text)
  | inCallback (t : Second) (value : Doc ρ) (keys : List Text)
  | fired (t : Second) (value : Doc ρ)
  | purging (keys : List Text)
  | aborted
  | closed
  deriving DecidableEq

/-- The second whose list has been read and not yet deleted. -/
def LoopPc.polling : LoopPc ρ → Option Second
  | .firing t _ _ | .inCallback t _ _ | .fired t _ => some t
  | .select | .purging _ | .aborted | .closed => none

/-- The keys of the blobs that the tick is still to delete. -/
def LoopPc.toPurge : LoopPc ρ → List Text
  | .firing _ value _ | .inCallback _ value _ | .fired _ value => value.text.splitOn ';'
  | .purging keys => keys
  | .select | .aborted | .closed => []

inductive Event (ρ ℓ : Type*)
  | appended (r : ρ) (t : Second) (success : Bool)
  | polled (l : ℓ) (t : Second)
  | called (l : ℓ) (t : Second) (key : Text) (b : Blob) (writers : List ρ)
  | deleted (l : ℓ) (key : Text) (writers : List ρ)
  deriving DecidableEq

structure State (ρ ℓ : Type*) where
  kv : Store Text (Doc ρ)
  reg : ρ → RegPc
  loop : ℓ → LoopPc ρ
  log : List (Event ρ ℓ)

def State.initial (kv : Store Text (Doc ρ)) : State ρ ℓ :=
  ⟨kv, fun _ => .start, fun _ => .select, []⟩

inductive Action (ρ ℓ : Type*)
  | setBlob (r : ρ) (now : ℕ)
  | getMarker (r : ρ) (answered : Bool)
  | addMarker (r : ρ)
  | appendId (r : ρ)
  | poll (l : ℓ) (now : ℕ)
  | fire (l : ℓ)
  | leave (l : ℓ)
  | deleteMarker (l : ℓ)
  | deleteKey (l : ℓ)
  | close (l : ℓ)

/-- The ids in the value that `SendTimerCallback` is given as a `char` pointer. -/
def splitKeys (value : Text) : List Text := getlines ';' (cString value)

def bucketGet (kv : Store Text (Doc ρ)) (key : Text) : Doc ρ := getOr .blank kv key

section BucketGet
variable {kv : Store Text (Doc ρ)} {key key' : Text} {doc : Doc ρ}

lemma bucketGet_of_get (h : get kv key = some doc) : bucketGet kv key = doc := getOr_of_get h

@[simp] lemma bucketGet_set_self : bucketGet (set kv key doc) key = doc := getOr_set_self

lemma bucketGet_set_of_ne (h : key' ≠ key) : bucketGet (set kv key doc) key' = bucketGet kv key' :=
  getOr_set_of_ne h

@[simp] lemma bucketGet_add_blank : bucketGet (add kv key .blank) key' = bucketGet kv key' :=
  getOr_add

lemma bucketGet_append_of_ne (h : key' ≠ key) :
    bucketGet (append kv key doc) key' = bucketGet kv key' :=
  getOr_append_of_ne h

@[simp] lemma bucketGet_delete_self : bucketGet (delete kv key) key = .blank := getOr_delete_self

lemma bucketGet_delete_of_ne (h : key' ≠ key) :
    bucketGet (delete kv key) key' = bucketGet kv key' :=
  getOr_delete_of_ne h

end BucketGet

section
variable [DecidableEq ρ] [DecidableEq ℓ]

/-- One operation of a registration or of a loop. The fetch of a list is evaluated before the
`select`, so that its timeout never ends it. -/
def step (json : Json) (spec : ρ → Registration App) (s : State ρ ℓ) :
    Action ρ ℓ → Option (State ρ ℓ)
  | .setBlob r now =>
      match s.reg r with
      | .start =>
          if atoi (spec r).startTs = 0 then
            some { s with reg := Function.update s.reg r .returned }
          else
            let t := expiry now (spec r).startTs
            some { s with
              kv := set s.kv (spec r).docId ⟨json.write ((spec r).blob t), [r]⟩
              reg := Function.update s.reg r (.getMarker t) }
      | _ => none
  | .getMarker r answered =>
      match s.reg r with
      | .getMarker t =>
          -- The request may also fail for a key that is there.
          if answered && (get s.kv (iso8601 t)).isSome then
            some { s with reg := Function.update s.reg r (.appendId t) }
          else some { s with reg := Function.update s.reg r (.addMarker t) }
      | _ => none
  | .addMarker r =>
      match s.reg r with
      | .addMarker t =>
          some { s with
            kv := add s.kv (iso8601 t) .blank
            reg := Function.update s.reg r (.appendId t) }
      | _ => none
  | .appendId r =>
      match s.reg r with
      | .appendId t =>
          some { s with
            kv := append s.kv (iso8601 t) ⟨(spec r).docId ++ [';'], [r]⟩
            reg := Function.update s.reg r .returned
            log := s.log ++ [.appended r t (get s.kv (iso8601 t)).isSome] }
      | _ => none
  | .poll l now =>
      match s.loop l with
      | .select =>
          let t := newISO8601 now
          let value := bucketGet s.kv (iso8601 t)
          some { s with
            loop := Function.update s.loop l (.firing t value (splitKeys value.text))
            log := s.log ++ [.polled l t] }
      | _ => none
  | .fire l =>
      match s.loop l with
      | .firing t value [] =>
          some { s with loop := Function.update s.loop l (.fired t value) }
      | .firing t value (key :: keys) =>
          match json.parse (bucketGet s.kv key).text with
          | .error => some { s with loop := Function.update s.loop l (.fired t value) }
          | .other => some { s with loop := Function.update s.loop l .aborted }
          | .timer b => some { s with
              loop := Function.update s.loop l (.inCallback t value keys)
              log := s.log ++ [.called l t key b (bucketGet s.kv key).writers] }
      | _ => none
  | .leave l =>
      match s.loop l with
      | .inCallback t value keys =>
          some { s with loop := Function.update s.loop l (.firing t value keys) }
      | _ => none
  | .deleteMarker l =>
      match s.loop l with
      | .fired t value =>
          some { s with
            kv := delete s.kv (iso8601 t)
            loop := Function.update s.loop l (.purging (value.text.splitOn ';'))
            log := s.log ++ [.deleted l (iso8601 t) (bucketGet s.kv (iso8601 t)).writers] }
      | _ => none
  | .deleteKey l =>
      match s.loop l with
      | .purging (key :: keys) =>
          some { s with
            kv := delete s.kv key
            loop := Function.update s.loop l (.purging keys)
            log := s.log ++ [.deleted l key (bucketGet s.kv key).writers] }
      | .purging [] => some { s with loop := Function.update s.loop l .select }
      | _ => none
  | .close l =>
      match s.loop l with
      | .select => some { s with loop := Function.update s.loop l .closed }
      | _ => none

inductive Stepped (json : Json) (spec : ρ → Registration App) (s : State ρ ℓ) :
    Action ρ ℓ → State ρ ℓ → Prop
  | skip {r : ρ} {now : ℕ} (pc : s.reg r = .start) (never : atoi (spec r).startTs = 0) :
      Stepped json spec s (.setBlob r now) { s with reg := Function.update s.reg r .returned }
  | setBlob {r : ρ} {now : ℕ} {t : Second} (pc : s.reg r = .start)
      (expires : atoi (spec r).startTs ≠ 0) (due : t = expiry now (spec r).startTs) :
      Stepped json spec s (.setBlob r now) { s with
        kv := set s.kv (spec r).docId ⟨json.write ((spec r).blob t), [r]⟩
        reg := Function.update s.reg r (.getMarker t) }
  | found {r : ρ} {answered : Bool} {t : Second} {doc : Doc ρ} (pc : s.reg r = .getMarker t)
      (marker : get s.kv (iso8601 t) = some doc) :
      Stepped json spec s (.getMarker r answered)
        { s with reg := Function.update s.reg r (.appendId t) }
  | missing {r : ρ} {answered : Bool} {t : Second} (pc : s.reg r = .getMarker t) :
      Stepped json spec s (.getMarker r answered)
        { s with reg := Function.update s.reg r (.addMarker t) }
  | addMarker {r : ρ} {t : Second} (pc : s.reg r = .addMarker t) :
      Stepped json spec s (.addMarker r) { s with
        kv := add s.kv (iso8601 t) .blank
        reg := Function.update s.reg r (.appendId t) }
  | appendId {r : ρ} {t : Second} (pc : s.reg r = .appendId t) :
      Stepped json spec s (.appendId r) { s with
        kv := append s.kv (iso8601 t) ⟨(spec r).docId ++ [';'], [r]⟩
        reg := Function.update s.reg r .returned
        log := s.log ++ [.appended r t (get s.kv (iso8601 t)).isSome] }
  | poll {l : ℓ} {now : ℕ} {t : Second} {value : Doc ρ} (pc : s.loop l = .select)
      (second : t = newISO8601 now) (fetch : value = bucketGet s.kv (iso8601 t)) :
      Stepped json spec s (.poll l now) { s with
        loop := Function.update s.loop l (.firing t value (splitKeys value.text))
        log := s.log ++ [.polled l t] }
  | fireEnd {l : ℓ} {t : Second} {value : Doc ρ} (pc : s.loop l = .firing t value []) :
      Stepped json spec s (.fire l) { s with loop := Function.update s.loop l (.fired t value) }
  | fireError {l : ℓ} {t : Second} {value : Doc ρ} {key : Text} {keys : List Text}
      (pc : s.loop l = .firing t value (key :: keys))
      (blob : json.parse (bucketGet s.kv key).text = .error) :
      Stepped json spec s (.fire l) { s with loop := Function.update s.loop l (.fired t value) }
  | fireAbort {l : ℓ} {t : Second} {value : Doc ρ} {key : Text} {keys : List Text}
      (pc : s.loop l = .firing t value (key :: keys))
      (blob : json.parse (bucketGet s.kv key).text = .other) :
      Stepped json spec s (.fire l) { s with loop := Function.update s.loop l .aborted }
  | fireCall {l : ℓ} {t : Second} {value : Doc ρ} {key : Text} {keys : List Text} {b : Blob}
      (pc : s.loop l = .firing t value (key :: keys))
      (blob : json.parse (bucketGet s.kv key).text = .timer b) :
      Stepped json spec s (.fire l) { s with
        loop := Function.update s.loop l (.inCallback t value keys)
        log := s.log ++ [.called l t key b (bucketGet s.kv key).writers] }
  | leave {l : ℓ} {t : Second} {value : Doc ρ} {keys : List Text}
      (pc : s.loop l = .inCallback t value keys) :
      Stepped json spec s (.leave l)
        { s with loop := Function.update s.loop l (.firing t value keys) }
  | deleteMarker {l : ℓ} {t : Second} {value : Doc ρ} (pc : s.loop l = .fired t value) :
      Stepped json spec s (.deleteMarker l) { s with
        kv := delete s.kv (iso8601 t)
        loop := Function.update s.loop l (.purging (value.text.splitOn ';'))
        log := s.log ++ [.deleted l (iso8601 t) (bucketGet s.kv (iso8601 t)).writers] }
  | deleteKey {l : ℓ} {key : Text} {keys : List Text}
      (pc : s.loop l = .purging (key :: keys)) :
      Stepped json spec s (.deleteKey l) { s with
        kv := delete s.kv key
        loop := Function.update s.loop l (.purging keys)
        log := s.log ++ [.deleted l key (bucketGet s.kv key).writers] }
  | purged {l : ℓ} (pc : s.loop l = .purging []) :
      Stepped json spec s (.deleteKey l) { s with loop := Function.update s.loop l .select }
  | close {l : ℓ} (pc : s.loop l = .select) :
      Stepped json spec s (.close l) { s with loop := Function.update s.loop l .closed }

lemma step_stepped {json : Json} {spec : ρ → Registration App} {s t : State ρ ℓ}
    {a : Action ρ ℓ} (h : step json spec s a = some t) : Stepped json spec s a t := by
  cases a <;> simp only [step] at h
  case setBlob r now =>
    split at h <;> try contradiction
    split_ifs at h with hz
    · cases h
      exact .skip ‹_› hz
    · cases h
      exact .setBlob ‹_› hz rfl
  case getMarker r answered =>
    split at h <;> try contradiction
    split_ifs at h with hm
    · cases h
      obtain ⟨doc, hdoc⟩ := Option.isSome_iff_exists.mp (Bool.and_eq_true_iff.mp hm).2
      exact .found ‹_› hdoc
    · cases h
      exact .missing ‹_›
  case addMarker r =>
    split at h <;> try contradiction
    cases h
    exact .addMarker ‹_›
  case appendId r =>
    split at h <;> try contradiction
    cases h
    exact .appendId ‹_›
  case poll l now =>
    split at h <;> try contradiction
    cases h
    exact .poll ‹_› rfl rfl
  case fire l =>
    split at h <;> try contradiction
    · cases h
      exact .fireEnd ‹_›
    · split at h <;> cases h
      · exact .fireError ‹_› ‹_›
      · exact .fireAbort ‹_› ‹_›
      · exact .fireCall ‹_› ‹_›
  case leave l =>
    split at h <;> try contradiction
    cases h
    exact .leave ‹_›
  case deleteMarker l =>
    split at h <;> try contradiction
    cases h
    exact .deleteMarker ‹_›
  case deleteKey l =>
    split at h <;> try contradiction
    · cases h
      exact .deleteKey ‹_›
    · cases h
      exact .purged ‹_›
  case close l =>
    split at h <;> try contradiction
    cases h
    exact .close ‹_›

end

end Eventing.Timer
