import Mathlib.Data.Char
import Mathlib.Data.List.Lex
import Mathlib.Logic.Function.Basic
import Eventing.Decimal
import Eventing.OrderedMap

/-!
# The components of a deployment

`ParseDeployment` (`parse_deployment.cc`) keeps the bucket entries of a configuration in a
map under their aliases and the queue entries in a map under their providers. The
constructor of `Worker` (`worker.cc`) makes a handle for each entry of the maps and keeps
the last one of a kind; `WorkerLoad` makes these the globals of the handler. The fields of
entries are C strings.
-/
namespace Eventing.Components
open OrderedMap

structure BucketEntry where
  bucketName : Text
  bucketAlias : Text
  deriving DecidableEq

structure QueueEntry where
  provider : Text
  queueName : Text
  endpoint : Text
  queueAlias : Text
  deriving DecidableEq

structure Config where
  buckets : List BucketEntry
  queues : List QueueEntry
  sourceBucket : Text

def bucketsInfo (c : Config) : List (Text × BucketEntry) :=
  ofList (c.buckets.map fun b => (b.bucketAlias, b))

def queuesInfo (c : Config) : List (Text × QueueEntry) :=
  ofList (c.queues.map fun q => (q.provider, q))

def sourceEndpoint : Text := "localhost".toList

structure Bucket where
  bucketName : Text
  endpoint : Text
  bucketAlias : Text
  deriving DecidableEq

structure N1QL where
  bucketName : Text
  endpoint : Text
  n1qlAlias : Text
  deriving DecidableEq

structure Queue where
  provider : Text
  hostname : Text
  port : Text
  queueAlias : Text
  queueName : Text
  deriving DecidableEq

/-- `endpoint.substr(0, endpoint.find(":"))` -/
def hostname (endpoint : Text) : Text := endpoint.takeWhile (· ≠ ':')

/-- The host is erased first; when there is no colon, `npos + 1` is zero and nothing is
erased. -/
def port (endpoint : Text) : Text :=
  hostname (if ':' ∈ endpoint then (endpoint.dropWhile (· ≠ ':')).tail else endpoint)

def BucketEntry.bucket (b : BucketEntry) : Bucket := ⟨b.bucketName, sourceEndpoint, b.bucketAlias⟩

def QueueEntry.queue (q : QueueEntry) : Queue :=
  ⟨q.provider, hostname q.endpoint, port q.endpoint, q.queueAlias, q.queueName⟩

/-- `bucket_handle`, `n1ql_handle` and `queue_handle`; a handle that is never assigned is
taken to be null. -/
structure Handles where
  bucket : Option Bucket
  n1ql : N1QL
  queue : Option Queue

section
variable (connects : Text → Text → Bool)

/-- The constructor of `Queue`. It throws when `std::stoi` does not read the port and
exits when Redis does not answer there. -/
def newQueue (provider endpoint queueAlias queueName : Text) : Option Queue :=
  if connects (hostname endpoint) (port endpoint) then
    some ⟨provider, hostname endpoint, port endpoint, queueAlias, queueName⟩
  else none

/-- The constructor of `Worker`: each iteration overwrites the handle of the one before. -/
def newWorker (c : Config) : Option Handles := do
  let bucketHandle := (bucketsInfo c).foldl
    (fun _ e => some ⟨e.2.bucketName, sourceEndpoint, e.1⟩) none
  let n1qlHandle := ⟨c.sourceBucket, sourceEndpoint, "_n1ql".toList⟩
  let queueHandle ← (queuesInfo c).foldlM
    (fun _ e => (newQueue connects e.1 e.2.endpoint e.2.queueAlias e.2.queueName).map some) none
  return ⟨bucketHandle, n1qlHandle, queueHandle⟩

end

inductive Component
  | bucket (b : Bucket)
  | n1ql (n : N1QL)
  | queue (q : Queue)
  deriving DecidableEq

def readOnlyGlobals : List Text := ["undefined".toList, "NaN".toList, "Infinity".toList]

/-- `context->Global()->Set(…)`, which leaves a property that is not writable as it is. -/
def setGlobal (globals : Text → Option Component) (name : Text) (component : Component) :
    Text → Option Component :=
  if readOnlyGlobals.contains name then globals else Function.update globals name (some component)

/-- The globals that a successful `WorkerLoad` sets, one `Initialize` after the other. -/
def workerLoad (h : Handles) : Text → Option Component :=
  let withBucket : Text → Option Component := match h.bucket with
    | some b => setGlobal (fun _ => none) b.bucketAlias (.bucket b)
    | none => fun _ => none
  let withN1ql := setGlobal withBucket h.n1ql.n1qlAlias (.n1ql h.n1ql)
  match h.queue with
  | some q => setGlobal withN1ql q.queueAlias (.queue q)
  | none => withN1ql

/-- Every entry is a global under its own alias. -/
structure AllBound (globals : Text → Option Component) (c : Config) : Prop where
  buckets : ∀ b ∈ c.buckets, globals b.bucketAlias = some (.bucket b.bucket)
  queues : ∀ q ∈ c.queues, globals q.queueAlias = some (.queue q.queue)

/-- There is at most one entry of a kind, its alias is not of a read-only global, and the
bucket is not under an alias that a later `Initialize` sets. -/
structure Single (c : Config) : Prop where
  buckets : c.buckets.length ≤ 1
  queues : c.queues.length ≤ 1
  bucket_writable : ∀ b ∈ c.buckets, b.bucketAlias ∉ readOnlyGlobals
  queue_writable : ∀ q ∈ c.queues, q.queueAlias ∉ readOnlyGlobals
  alias_ne_n1ql : ∀ b ∈ c.buckets, b.bucketAlias ≠ "_n1ql".toList
  alias_ne_queue : ∀ b ∈ c.buckets, ∀ q ∈ c.queues, b.bucketAlias ≠ q.queueAlias

variable {connects : Text → Text → Bool} {c : Config} {h : Handles} {a : Text}

lemma getLast?_cons_map {α β : Type*} (f : α → β) (x : α) (l : List α) (init : Option β) :
    (l.getLast?.map f).or (some (f x)) = ((x :: l).getLast?.map f).or init := by
  rw [List.getLast?_cons]
  cases l.getLast? with
  | none => rfl
  | some y => rfl

lemma foldl_some {α β : Type*} (f : α → β) (l : List α) (init : Option β) :
    l.foldl (fun _ e => some (f e)) init = (l.getLast?.map f).or init := by
  induction l generalizing init with
  | nil => rfl
  | cons x l ih => rw [List.foldl_cons, ih, getLast?_cons_map]

lemma foldlM_some {α β : Type*} {f : α → Option β} {g : α → β} (hf : ∀ a b, f a = some b → b = g a)
    {l : List α} {init v : Option β} (hv : l.foldlM (fun _ e => (f e).map some) init = some v) :
    v = (l.getLast?.map g).or init := by
  induction l generalizing init with
  | nil => exact (Option.some.inj hv).symm
  | cons x l ih =>
    rw [List.foldlM_cons] at hv
    obtain ⟨w, hw, hv⟩ := Option.bind_eq_some_iff.mp hv
    obtain ⟨b, hb, rfl⟩ := Option.map_eq_some_iff.mp hw
    rw [ih hv, hf x b hb, getLast?_cons_map]

lemma newQueue_eq {p e s n : Text} {q : Queue} (hq : newQueue connects p e s n = some q) :
    q = ⟨p, hostname e, port e, s, n⟩ := by
  unfold newQueue at hq
  split at hq
  · exact (Option.some.inj hq).symm
  · contradiction

lemma newWorker_eq (hw : newWorker connects c = some h) :
    h.bucket = (bucketsInfo c).getLast?.map (fun e => ⟨e.2.bucketName, sourceEndpoint, e.1⟩) ∧
      h.n1ql = ⟨c.sourceBucket, sourceEndpoint, "_n1ql".toList⟩ ∧
      h.queue = (queuesInfo c).getLast?.map
        (fun e => ⟨e.1, hostname e.2.endpoint, port e.2.endpoint, e.2.queueAlias, e.2.queueName⟩) := by
  obtain ⟨q, hq, hh⟩ := Option.bind_eq_some_iff.mp hw
  obtain rfl := Option.some.inj hh
  refine ⟨?_, rfl, ?_⟩
  · rw [foldl_some, Option.or_none]
  · rw [foldlM_some (fun a b => newQueue_eq) hq, Option.or_none]

lemma setGlobal_apply (globals : Text → Option Component) (name : Text) (component : Component) :
    setGlobal globals name component a =
      if a = name ∧ ¬ readOnlyGlobals.contains a then some component else globals a := by
  unfold setGlobal
  split_ifs with hr ha ha
  · exact absurd (ha.1 ▸ hr) ha.2
  · rfl
  · rw [Function.update_apply, if_pos ha.1]
  · rw [Function.update_apply, if_neg]
    rintro rfl
    exact ha ⟨rfl, hr⟩

/-- A global is a bucket only under the alias of the bucket handle, and only when no later
`Initialize` sets it again. -/
lemma workerLoad_bucket_iff {b : Bucket} :
    workerLoad h a = some (.bucket b) ↔ (h.bucket = some b ∧ a = b.bucketAlias) ∧
      a ∉ readOnlyGlobals ∧ a ≠ h.n1ql.n1qlAlias ∧ ∀ q, h.queue = some q → a ≠ q.queueAlias := by
  obtain ⟨hb, hn, hq⟩ := h
  cases hb <;> cases hq <;> simp only [workerLoad, setGlobal_apply, List.contains_iff_mem] <;> grind

lemma workerLoad_queue_iff {q : Queue} :
    workerLoad h a = some (.queue q) ↔
      (h.queue = some q ∧ a = q.queueAlias) ∧ a ∉ readOnlyGlobals := by
  obtain ⟨hb, hn, hq⟩ := h
  cases hb <;> cases hq <;> simp only [workerLoad, setGlobal_apply, List.contains_iff_mem] <;> grind

/-- One handle cannot stand under several aliases. -/
lemma length_le_one {α : Type*} {f : α → Text} {l : List α} (hd : (l.map f).Nodup)
    (hl : ∀ x ∈ l, ∀ y ∈ l, f x = f y) : l.length ≤ 1 := by
  match l with
  | [] => exact Nat.zero_le 1
  | [_] => exact Nat.le_refl 1
  | x :: y :: l =>
    have hxy : f x = f y := hl x List.mem_cons_self y (by simp)
    simp [hxy] at hd

lemma survives {α : Type*} {key : α → Text} {l : List α} {last : Text × α}
    (hlast : (ofList (l.map fun x => (key x, x))).getLast? = some last) :
    last.2 ∈ l ∧ last.1 = key last.2 ∧ ∀ x ∈ l, key x ≤ key last.2 := by
  have hmem := mem_of_mem_ofList (List.mem_of_getLast? hlast)
  obtain ⟨x, hx, rfl⟩ := List.mem_map.mp hmem
  refine ⟨hx, rfl, ?_⟩
  intro y hy
  exact le_of_getLast? hlast (List.mem_map_of_mem hy)

/-- Of the buckets, the one with the greatest alias keeps its handle. -/
theorem bucket_survives (hw : newWorker connects c = some h) {b : Bucket} (hb : h.bucket = some b) :
    ∃ e ∈ c.buckets, b = e.bucket ∧ ∀ e' ∈ c.buckets, e'.bucketAlias ≤ e.bucketAlias := by
  rw [(newWorker_eq hw).1] at hb
  obtain ⟨last, hlast, rfl⟩ := Option.map_eq_some_iff.mp hb
  obtain ⟨hmem, hkey, hle⟩ := survives hlast
  refine ⟨last.2, hmem, ?_, hle⟩
  rw [BucketEntry.bucket, hkey]

/-- Of the queues, the last one with the greatest provider keeps its handle. -/
theorem queue_survives (hw : newWorker connects c = some h) {q : Queue} (hq : h.queue = some q) :
    ∃ e ∈ c.queues, q = e.queue ∧ ∀ e' ∈ c.queues, e'.provider ≤ e.provider := by
  rw [(newWorker_eq hw).2.2] at hq
  obtain ⟨last, hlast, rfl⟩ := Option.map_eq_some_iff.mp hq
  obtain ⟨hmem, hkey, hle⟩ := survives hlast
  refine ⟨last.2, hmem, ?_, hle⟩
  rw [QueueEntry.queue, hkey]

lemma AllBound.single (hw : newWorker connects c = some h) (hall : AllBound (workerLoad h) c)
    (hb : (c.buckets.map (·.bucketAlias)).Nodup) (hq : (c.queues.map (·.queueAlias)).Nodup) :
    Single c := by
  have hbs := fun b hb => workerLoad_bucket_iff.mp (hall.buckets b hb)
  have hqs := fun q hq => workerLoad_queue_iff.mp (hall.queues q hq)
  refine ⟨length_le_one hb ?_, length_le_one hq ?_, ?_, ?_, ?_, ?_⟩
  · intro b hb b' hb'
    have h := (hbs b hb).1.1.symm.trans (hbs b' hb').1.1
    exact congrArg Bucket.bucketAlias (Option.some.inj h)
  · intro q hq q' hq'
    have h := (hqs q hq).1.1.symm.trans (hqs q' hq').1.1
    exact congrArg Queue.queueAlias (Option.some.inj h)
  · intro b hb
    exact (hbs b hb).2.1
  · intro q hq
    exact (hqs q hq).2
  · intro b hb
    have h := (hbs b hb).2.2.1
    rwa [(newWorker_eq hw).2.1] at h
  · intro b hb q hq
    exact (hbs b hb).2.2.2 q.queue (hqs q hq).1.1

lemma eq_singleton {α : Type*} {l : List α} {x : α} (hl : l.length ≤ 1) (hx : x ∈ l) : l = [x] := by
  obtain ⟨y, rfl⟩ := List.length_eq_one_iff.mp (le_antisymm hl (List.length_pos_of_mem hx))
  rw [List.mem_singleton.mp hx]

lemma Single.allBound (hw : newWorker connects c = some h) (hs : Single c) :
    AllBound (workerLoad h) c := by
  obtain ⟨hbucket, hn1ql, hqueue⟩ := newWorker_eq hw
  refine ⟨?_, ?_⟩
  · intro b hb
    have hhandle : h.bucket = some b.bucket := by
      rw [hbucket, bucketsInfo, eq_singleton hs.buckets hb]
      rfl
    refine workerLoad_bucket_iff.mpr ⟨⟨hhandle, rfl⟩, hs.bucket_writable b hb, ?_, ?_⟩
    · rw [hn1ql]
      exact hs.alias_ne_n1ql b hb
    · intro q hq
      obtain ⟨e, he, rfl, -⟩ := queue_survives hw hq
      exact hs.alias_ne_queue b hb e he
  · intro q hq
    have hhandle : h.queue = some q.queue := by
      rw [hqueue, queuesInfo, eq_singleton hs.queues hq]
      rfl
    exact workerLoad_queue_iff.mpr ⟨⟨hhandle, rfl⟩, hs.queue_writable q hq⟩

/-- Whatever the configuration declares, its worker can bind one bucket and one queue. -/
theorem allBound_iff (hb : (c.buckets.map (·.bucketAlias)).Nodup)
    (hq : (c.queues.map (·.queueAlias)).Nodup) (hw : newWorker connects c = some h) :
    AllBound (workerLoad h) c ↔ Single c := by
  constructor
  · intro hall
    exact hall.single hw hb hq
  · intro hs
    exact hs.allBound hw

def credit : BucketEntry := ⟨"default".toList, "credit_bucket".toList⟩

def orders : QueueEntry :=
  ⟨"redis".toList, "credit_score".toList, "127.0.0.1:6379".toList, "order_queue".toList⟩

/-- `tests/apps/app1` -/
def creditScore : Config := ⟨[credit], [orders], "default".toList⟩

def localRedis (hostname port : Text) : Bool :=
  hostname = "127.0.0.1".toList && port = "6379".toList

theorem allBound_creditScore : ∃ h, newWorker localRedis creditScore = some h ∧
    AllBound (workerLoad h) creditScore := by
  have hs : Single creditScore :=
    ⟨by decide, by decide, by decide, by decide, by decide, by decide⟩
  obtain ⟨h, hw⟩ : ∃ h, newWorker localRedis creditScore = some h :=
    Option.isSome_iff_exists.mp (by decide)
  exact ⟨h, hw, (allBound_iff (by decide) (by decide) hw).mpr hs⟩

def users : BucketEntry := ⟨"users".toList, "user_bucket".toList⟩

def refunds : QueueEntry :=
  ⟨"redis".toList, "refunds".toList, "127.0.0.1:6379".toList, "refund_queue".toList⟩

def twoOfEach : Config := ⟨[credit, users], [orders, refunds], "default".toList⟩

/-- The user bucket has the greater alias, and the refunds come last under their
provider. -/
theorem not_allBound : (twoOfEach.buckets.map (·.bucketAlias)).Nodup ∧
    (twoOfEach.queues.map (·.queueAlias)).Nodup ∧
    ∃ h, newWorker localRedis twoOfEach = some h ∧
      workerLoad h credit.bucketAlias = none ∧ workerLoad h orders.queueAlias = none ∧
      ¬ AllBound (workerLoad h) twoOfEach := by
  refine ⟨by decide, by decide, _, rfl, by decide, by decide, ?_⟩
  intro hall
  have h := hall.buckets credit List.mem_cons_self
  revert h
  decide

end Eventing.Components
