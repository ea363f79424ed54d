import Eventing.BucketAlias
import Eventing.Components
import Eventing.Fifo
import Eventing.Utf8

/-!
# Queues on Redis servers

The constructor of `Queue` (`queue.cc`) deletes the list under the name of the queue, and
reading a property of a queue alias pushes the name of the property onto it
(`QueueGetCall`); consumers pop from its other end. What is relied on of hiredis and of the
servers is a `Redis`.
-/
namespace Eventing.QueueServer
open BucketAlias Components OrderedMap Terminated Transition Utf8
open Utf16 (Units)

/-- What `UnwrapQueueName` reads at the address of a string object. A short string begins
with a byte that is twice its length, and its bytes are behind it. -/
structure Layout where
  read : Bytes → Bytes
  read_short : ∀ s, s ≠ [] → s.length ≤ 22 → 0 ∉ s → read s = UInt8.ofNat (2 * s.length) :: s

/-- `qname` of `QueueGetCall`, without its first byte. -/
def qname (layout : Layout) (queueName : Text) : Bytes := (layout.read (encode queueName)).drop 1

def space : UInt8 := 32
def percent : UInt8 := 37

/-- Bytes that a command takes as one argument. -/
structure Word (b : Bytes) : Prop where
  ne_nil : b ≠ []
  nul_free : 0 ∉ b
  no_space : space ∉ b
  no_percent : percent ∉ b

def delName : Bytes := encode "DEL".toList
def lpushName : Bytes := encode "LPUSH".toList
def rpopName : Bytes := encode "RPOP".toList

def twoValues : Bytes := encode " %s %s".toList

/-- What hiredis and the servers do: the server to which a host and the text of a port connect,
the arguments that a format and its values make, and the lists of a server after a command, the
element pushed last in front. -/
structure Redis (σ : Type*) where
  connect : Text → Text → Option σ
  arguments : Bytes → List Bytes → List Bytes
  command : (Bytes → List Bytes) → List Bytes → Bytes → List Bytes

/-- What is documented of the commands. -/
structure Redis.Documented {σ : Type*} (redis : Redis σ) : Prop where
  arguments_word : ∀ name w, Word name → Word w → redis.arguments (name ++ space :: w) [] = [name, w]
  arguments_values : ∀ name x y, Word name → 0 ∉ x → 0 ∉ y →
    redis.arguments (name ++ twoValues) [x, y] = [name, x, y]
  del : ∀ lists key, redis.command lists [delName, key] = Function.update lists key []
  lpush : ∀ lists key x,
    redis.command lists [lpushName, key, x] = Function.update lists key (x :: lists key)
  rpop : ∀ lists key,
    redis.command lists [rpopName, key] = Function.update lists key (lists key).dropLast

abbrev Lists (σ : Type*) := σ → Bytes → List Bytes

section
variable {σ : Type*} [DecidableEq σ]

def Redis.connects (redis : Redis σ) (hostname port : Text) : Bool :=
  (redis.connect hostname port).isSome

def Redis.server (redis : Redis σ) (q : Queue) : Option σ := redis.connect q.hostname q.port

def Redis.run (redis : Redis σ) (lists : Lists σ) (srv : σ) (args : List Bytes) : Lists σ :=
  Function.update lists srv (redis.command (lists srv) args)

def Redis.redisCommand (redis : Redis σ) (lists : Lists σ) (srv : σ) (format : Bytes)
    (values : List Bytes) : Lists σ :=
  redis.run lists srv (redis.arguments format values)

def delCommand (queueName : Text) : Bytes := encode "DEL ".toList ++ encode queueName

/-- What the constructor of `Queue` does to its server. -/
def deleteQueue (redis : Redis σ) (lists : Lists σ) (q : QueueEntry) : Lists σ :=
  match redis.server q.queue with
  | some srv => redis.redisCommand lists srv (delCommand q.queueName) []
  | none => lists

def setAt {β : Type*} (f : σ → Bytes → β) (srv : σ) (key : Bytes) (x : β) : σ → Bytes → β :=
  Function.update f srv (Function.update (f srv) key x)

end

/-- `handle` is the `queue_handle` of each worker, with the server of its connection. -/
structure State (ω σ : Type*) where
  lists : Lists σ
  handle : ω → Option (Queue × σ)

def State.initial {ω σ : Type*} : State ω σ := ⟨fun _ _ => [], fun _ => none⟩

/-- A worker is constructed, a handler of it reads a property of the queue alias, and a
consumer pops a list. -/
inductive Action (ω σ : Type*)
  | construct (w : ω) (c : Config)
  | read (w : ω) (name : Units)
  | pop (srv : σ) (key : Bytes)

def element (name : Units) : Bytes := objectToString name

variable {ω σ : Type*} [DecidableEq ω] [DecidableEq σ]

/-- The queue handle that is left, and its connection. -/
def Redis.handle (redis : Redis σ) (h : Handles) : Option (Queue × σ) :=
  h.queue.bind fun q => (redis.server q).map fun srv => (q, srv)

/-- A percent sign would make the name of a queue a format, which has no result here. The
interceptor of an alias is not called for array indices. -/
def step (layout : Layout) (redis : Redis σ) (s : State ω σ) : Action ω σ → Option (State ω σ)
  | .construct w c =>
      if ∀ e ∈ queuesInfo c, '%' ∉ e.2.queueName then
        (newWorker redis.connects c).map fun h =>
          { lists := (queuesInfo c).foldl (fun lists e => deleteQueue redis lists e.2) s.lists
            handle := Function.update s.handle w (redis.handle h) }
      else none
  | .read w name =>
      (s.handle w).map fun q =>
        match arrayIndex name with
        | some _ => s
        | none => { s with
            lists := redis.redisCommand s.lists q.2 (lpushName ++ twoValues)
              [qname layout q.1.queueName, element name] }
  | .pop srv key => some { s with lists := redis.run s.lists srv [rpopName, key] }

def Declares (redis : Redis σ) (c : Config) (srv : σ) (key : Bytes) : Prop :=
  ∃ e ∈ queuesInfo c, redis.server e.2.queue = some srv ∧ encode e.2.queueName = key

instance (redis : Redis σ) (c : Config) (srv : σ) (key : Bytes) :
    Decidable (Declares redis c srv key) :=
  inferInstanceAs (Decidable (∃ e ∈ queuesInfo c, _))

/-- What the queues are for: every name on every server is a queue of its own, which begins
anew with each worker that declares it. -/
structure Spec (ω σ : Type*) where
  queues : σ → Bytes → Fifo Bytes
  handle : ω → Option (Queue × σ)

def Spec.initial : Spec ω σ := ⟨fun _ _ => .empty, fun _ => none⟩

def Spec.modify (s : Spec ω σ) (srv : σ) (key : Bytes) (f : Fifo Bytes → Fifo Bytes) : Spec ω σ :=
  { s with queues := setAt s.queues srv key (f (s.queues srv key)) }

def specStep (redis : Redis σ) (s : Spec ω σ) : Action ω σ → Option (Spec ω σ)
  | .construct w c =>
      (newWorker redis.connects c).map fun h =>
        { queues := fun srv key =>
            if Declares redis c srv key then (s.queues srv key).clear else s.queues srv key
          handle := Function.update s.handle w (redis.handle h) }
  | .read w name =>
      (s.handle w).map fun q =>
        match arrayIndex name with
        | some _ => s
        | none => s.modify q.2 (encode q.1.queueName) (·.push (element name))
  | .pop srv key => some (s.modify srv key Fifo.take)

/-- A queue name that the commands take as one argument, and short enough to be found in
its string object. -/
structure Plain (name : Text) : Prop where
  ne_nil : name ≠ []
  short : (encode name).length ≤ 22
  nul_free : '\x00' ∉ name
  no_space : ' ' ∉ name
  no_percent : '%' ∉ name

instance (name : Text) : Decidable (Plain name) :=
  decidable_of_iff (name ≠ [] ∧ (encode name).length ≤ 22 ∧ '\x00' ∉ name ∧ ' ' ∉ name ∧ '%' ∉ name)
    ⟨fun ⟨a, b, c, d, e⟩ => ⟨a, b, c, d, e⟩, fun ⟨a, b, c, d, e⟩ => ⟨a, b, c, d, e⟩⟩

def Action.Plain : Action ω σ → Prop
  | .construct _ c => ∀ q ∈ c.queues, QueueServer.Plain q.queueName
  | .read _ _ | .pop _ _ => True

instance : ∀ a : Action ω σ, Decidable a.Plain
  | .construct _ c => inferInstanceAs (Decidable (∀ q ∈ c.queues, QueueServer.Plain q.queueName))
  | .read _ _ | .pop _ _ => isTrue trivial

section Commands
variable {name : Text} {layout : Layout} {redis : Redis σ} {lists : Lists σ} {srv : σ}

lemma Plain.word (h : Plain name) : Word (encode name) where
  ne_nil he := by
    have hname := congrArg decode he
    rw [decode_encode] at hname
    exact h.ne_nil hname
  nul_free := zero_notMem_encode h.nul_free
  no_space := notMem_encode (by decide) (by decide) h.no_space
  no_percent := notMem_encode (by decide) (by decide) h.no_percent

lemma word_delName : Word delName := ⟨by decide, by decide, by decide, by decide⟩

lemma word_lpushName : Word lpushName := ⟨by decide, by decide, by decide, by decide⟩

lemma qname_of_plain (h : Plain name) : qname layout name = encode name := by
  rw [qname, layout.read_short _ h.word.ne_nil h.short h.word.nul_free, List.drop_one, List.tail_cons]

lemma redisCommand_del (hredis : redis.Documented) (h : Plain name) :
    redis.redisCommand lists srv (delCommand name) [] = setAt lists srv (encode name) [] := by
  have hformat : delCommand name = delName ++ space :: encode name := by
    rw [delCommand, List.append_cons]
    rfl
  rw [Redis.redisCommand, hformat, hredis.arguments_word _ _ word_delName h.word, Redis.run, hredis.del]
  rfl

lemma redisCommand_lpush (hredis : redis.Documented) (h : Plain name) (element : Units) :
    redis.redisCommand lists srv (lpushName ++ twoValues)
        [qname layout name, QueueServer.element element] =
      setAt lists srv (encode name) (QueueServer.element element :: lists srv (encode name)) := by
  have helement : 0 ∉ QueueServer.element element := notMem_cut 0 _
  rw [Redis.redisCommand, qname_of_plain h,
    hredis.arguments_values _ _ _ word_lpushName h.word.nul_free helement, Redis.run, hredis.lpush]
  rfl

lemma run_rpop (hredis : redis.Documented) (key : Bytes) :
    redis.run lists srv [rpopName, key] = setAt lists srv key (lists srv key).dropLast := by
  rw [Redis.run, hredis.rpop]
  rfl

end Commands

section Lists
variable {redis : Redis σ} {lists : Lists σ} {srv srv' : σ} {key key' : Bytes}

lemma setAt_apply {β : Type*} {f : σ → Bytes → β} {x : β} :
    setAt f srv key x srv' key' = if srv' = srv ∧ key' = key then x else f srv' key' := by
  rw [setAt, Function.update_apply]
  by_cases hsrv : srv' = srv
  · rw [if_pos hsrv, Function.update_apply]
    by_cases hkey : key' = key
    · rw [if_pos hkey, if_pos ⟨hsrv, hkey⟩]
    · rw [if_neg hkey, if_neg fun h => hkey h.2, hsrv]
  · rw [if_neg hsrv, if_neg fun h => hsrv h.1]

lemma deleteQueue_apply (hredis : redis.Documented) {q : QueueEntry} (h : Plain q.queueName) :
    deleteQueue redis lists q srv key =
      if redis.server q.queue = some srv ∧ encode q.queueName = key then [] else lists srv key := by
  rw [deleteQueue]
  cases redis.server q.queue with
  | none => simp
  | some srv' =>
    dsimp only
    rw [redisCommand_del hredis h, setAt_apply]
    simp only [Option.some.injEq, eq_comm]

lemma deleteQueues_apply (hredis : redis.Documented) {es : List (Text × QueueEntry)}
    (h : ∀ e ∈ es, Plain e.2.queueName) :
    es.foldl (fun lists e => deleteQueue redis lists e.2) lists srv key =
      if ∃ e ∈ es, redis.server e.2.queue = some srv ∧ encode e.2.queueName = key then []
      else lists srv key := by
  induction es generalizing lists with
  | nil => simp
  | cons e es ih =>
    rw [List.foldl_cons, ih fun e' he' => h e' (List.mem_cons_of_mem e he'),
      deleteQueue_apply hredis (h e List.mem_cons_self)]
    by_cases hes : ∃ e' ∈ es, redis.server e'.2.queue = some srv ∧ encode e'.2.queueName = key
    · rw [if_pos hes, if_pos]
      obtain ⟨e', he', hq⟩ := hes
      exact ⟨e', List.mem_cons_of_mem e he', hq⟩
    · by_cases he : redis.server e.2.queue = some srv ∧ encode e.2.queueName = key
      · rw [if_neg hes, if_pos he, if_pos ⟨e, List.mem_cons_self, he⟩]
      · rw [if_neg hes, if_neg he, if_neg]
        rintro ⟨e', he', hq⟩
        rcases List.mem_cons.mp he' with rfl | he'
        · exact he hq
        · exact hes ⟨e', he', hq⟩

end Lists

def PlainHandles (handle : ω → Option (Queue × σ)) : Prop :=
  ∀ w q, handle w = some q → Plain q.1.queueName

/-- A list is its queue, with the front of the queue at its end. -/
structure Represents (s : State ω σ) (t : Spec ω σ) : Prop where
  handle : s.handle = t.handle
  lists : ∀ srv key, s.lists srv key = (t.queues srv key).contents.reverse
  plain : PlainHandles s.handle

section Steps
variable {layout : Layout} {redis : Redis σ} {s s' : State ω σ} {t : Spec ω σ} {a : Action ω σ}
  {c : Config} {h : Handles}

omit [DecidableEq ω] [DecidableEq σ] in
lemma represents_initial : Represents (.initial : State ω σ) .initial where
  handle := rfl
  lists _ _ := rfl
  plain _ _ h := by contradiction

lemma plain_of_queuesInfo (hc : ∀ q ∈ c.queues, Plain q.queueName) :
    ∀ e ∈ queuesInfo c, Plain e.2.queueName := by
  intro e he
  obtain ⟨q, hq, rfl⟩ := List.mem_map.mp (mem_of_mem_ofList he)
  exact hc q hq

omit [DecidableEq σ] in
lemma handle_eq_some {q : Queue × σ} (hq : redis.handle h = some q) :
    h.queue = some q.1 ∧ redis.server q.1 = some q.2 := by
  obtain ⟨queue, hqueue, hserver⟩ := Option.bind_eq_some_iff.mp hq
  obtain ⟨srv, hsrv, rfl⟩ := Option.map_eq_some_iff.mp hserver
  exact ⟨hqueue, hsrv⟩

omit [DecidableEq σ] in
lemma plainHandles_update (hp : PlainHandles s.handle) (hc : ∀ q ∈ c.queues, Plain q.queueName)
    (hw : newWorker redis.connects c = some h) (w : ω) :
    PlainHandles (Function.update s.handle w (redis.handle h)) := by
  intro v q hq
  rw [Function.update_apply] at hq
  split_ifs at hq
  · obtain ⟨e, he, hqueue, -⟩ := queue_survives hw (handle_eq_some hq).1
    rw [hqueue]
    exact hc e he
  · exact hp v q hq

omit [DecidableEq ω] in
lemma Represents.setAt (hR : Represents s t) {srv : σ} {key : Bytes} {l : List Bytes}
    {f : Fifo Bytes → Fifo Bytes} (hl : l = (f (t.queues srv key)).contents.reverse) :
    Represents { s with lists := QueueServer.setAt s.lists srv key l } (t.modify srv key f) where
  handle := hR.handle
  lists srv' key' := by
    show QueueServer.setAt s.lists srv key l srv' key' =
      (QueueServer.setAt t.queues srv key (f (t.queues srv key)) srv' key').contents.reverse
    rw [setAt_apply, setAt_apply]
    split_ifs
    · exact hl
    · exact hR.lists srv' key'
  plain := hR.plain

lemma represents_construct (hredis : redis.Documented) (hR : Represents s t)
    (hc : ∀ q ∈ c.queues, Plain q.queueName) (w : ω) :
    (step layout redis s (.construct w c)).Rel Represents (specStep redis t (.construct w c)) := by
  have hplain := plain_of_queuesInfo hc
  have hpercent : ∀ e ∈ queuesInfo c, '%' ∉ e.2.queueName := fun e he => (hplain e he).no_percent
  simp only [step, specStep, if_pos hpercent]
  cases hw : newWorker redis.connects c with
  | none => exact .none
  | some h =>
    refine .some ⟨?_, ?_, plainHandles_update hR.plain hc hw w⟩
    · rw [hR.handle]
    · intro srv key
      show (queuesInfo c).foldl (fun lists e => deleteQueue redis lists e.2) s.lists srv key =
        (if Declares redis c srv key then (t.queues srv key).clear else t.queues srv key).contents.reverse
      rw [deleteQueues_apply hredis hplain]
      by_cases hd : Declares redis c srv key
      · rw [if_pos hd, if_pos (show ∃ e ∈ queuesInfo c, _ from hd)]
        rfl
      · rw [if_neg hd, if_neg (show ¬ ∃ e ∈ queuesInfo c, _ from hd)]
        exact hR.lists srv key

lemma represents_step (hredis : redis.Documented) (hR : Represents s t) (ha : a.Plain) :
    (step layout redis s a).Rel Represents (specStep redis t a) := by
  cases a with
  | construct w c => exact represents_construct hredis hR ha w
  | read w name =>
    have hhandle : t.handle w = s.handle w := by rw [hR.handle]
    simp only [step, specStep, hhandle]
    cases hq : s.handle w with
    | none => exact .none
    | some q =>
      have hname : Plain q.1.queueName := hR.plain w q hq
      cases hi : arrayIndex name with
      | some n => exact .some hR
      | none =>
        have hl : element name :: s.lists q.2 (encode q.1.queueName) =
            ((t.queues q.2 (encode q.1.queueName)).push (element name)).contents.reverse := by
          rw [hR.lists, Fifo.contents_push, List.reverse_append]
          rfl
        simp only [Option.map_some, redisCommand_lpush hredis hname]
        exact .some (hR.setAt hl)
  | pop srv key =>
    have hl : (s.lists srv key).dropLast = (t.queues srv key).take.contents.reverse := by
      rw [hR.lists, List.dropLast_reverse, Fifo.contents_take, List.drop_one]
    simp only [step, run_rpop hredis]
    exact .some (hR.setAt hl)

end Steps

/-- Whatever workers, handlers and consumers do, the lists of the servers are the queues
that the workers declare. -/
theorem lists_eq_queues (layout : Layout) {redis : Redis σ} (hredis : redis.Documented)
    (as : List (Action ω σ)) (hplain : ∀ a ∈ as, a.Plain) :
    (exec (step layout redis) (fun _ _ => True) .initial as).Rel
      (fun s t => s.handle = t.handle ∧ ∀ srv key, s.lists srv key = (t.queues srv key).contents.reverse)
      (exec (specStep redis) (fun _ _ => True) .initial as) := by
  have h : (exec (step layout redis) (fun _ _ => True) .initial as).Rel Represents
      (exec (specStep redis) (fun _ _ => True) .initial as) :=
    exec_rel represents_initial fun s t hR a ha => represents_step hredis hR (hplain a ha)
  generalize exec (step layout redis) (fun _ _ => True) .initial as = x at h
  generalize exec (specStep redis) (fun _ _ => True) .initial as = y at h
  cases h with
  | none => exact .none
  | some hR => exact .some ⟨hR.handle, hR.lists⟩

/-- Strings as the C++ library keeps them. What is read of a longer string depends on its
capacity. -/
def shortStrings : Layout where
  read s := if s.length ≤ 22 then UInt8.ofNat (2 * s.length) :: s else []
  read_short _ _ h _ := if_pos h

def valueWord : Bytes := encode "%s".toList

/-- The words of a format with the values for their `%s`. -/
def fill : List Bytes → List Bytes → List Bytes
  | [], _ => []
  | word :: words, values =>
      if word = valueWord then values.head?.toList ++ fill words values.tail
      else word :: fill words values

def localServer : Redis Unit where
  connect hostname port := if localRedis hostname port then some () else none
  arguments format values := fill ((format.splitOn space).filter (· ≠ [])) values
  command lists
    | [name, key] =>
        if name = delName then Function.update lists key []
        else if name = rpopName then Function.update lists key (lists key).dropLast
        else lists
    | [name, key, x] =>
        if name = lpushName then Function.update lists key (x :: lists key) else lists
    | _ => lists

lemma Word.ne_value {w : Bytes} (h : Word w) : w ≠ valueWord := by
  rintro rfl
  exact h.no_percent (by decide)

lemma documented_localServer : localServer.Documented where
  arguments_word name w hname hw := by
    show fill (((name ++ space :: w).splitOn space).filter (· ≠ [])) [] = [name, w]
    rw [List.splitOn_append_cons_self_of_not_mem hname.no_space, List.splitOn_eq_singleton hw.no_space]
    simp [hname.ne_nil, hw.ne_nil, fill, hname.ne_value, hw.ne_value]
  arguments_values name x y hname _ _ := by
    have hvalues : name ++ twoValues = name ++ space :: (valueWord ++ space :: valueWord) :=
      rfl
    have hspace : space ∉ valueWord := by decide
    show fill (((name ++ twoValues).splitOn space).filter (· ≠ [])) [x, y] = [name, x, y]
    rw [hvalues, List.splitOn_append_cons_self_of_not_mem hname.no_space,
      List.splitOn_append_cons_self_of_not_mem hspace, List.splitOn_eq_singleton hspace]
    have hne : valueWord ≠ [] := by decide
    simp [hname.ne_nil, hne, fill, hname.ne_value]
  del _ _ := rfl
  lpush _ _ _ := rfl
  rpop _ _ := rfl

def orderKey : Bytes := encode "credit_score".toList

/-- Two orders are pushed, one with a number as its name is not, and one is consumed. -/
def ordersRun : List (Action Unit Unit) :=
  [.construct () creditScore, .read () (Utf16.encode ['a']), .read () (Utf16.encode ['4', '2']),
    .read () (Utf16.encode ['b']), .pop () orderKey]

theorem lists_eq_queues_ordersRun : ∃ s t,
    exec (step shortStrings localServer) (fun _ _ => True) .initial ordersRun = some s ∧
      exec (specStep localServer) (fun _ _ => True) .initial ordersRun = some t ∧
      s.lists () orderKey = [[98]] ∧ (t.queues () orderKey).put = [[97], [98]] ∧
      (∀ srv key, s.lists srv key = (t.queues srv key).contents.reverse) := by
  have hplain : ∀ a ∈ ordersRun, a.Plain := by
    have horders : Plain orders.queueName := ⟨by decide, by decide, by decide, by decide, by decide⟩
    simpa [ordersRun, Action.Plain, creditScore] using horders
  have h := lists_eq_queues shortStrings documented_localServer ordersRun hplain
  have hlist : (exec (step shortStrings localServer) (fun _ _ => True) .initial ordersRun).any
      (fun s => s.lists () orderKey = [[98]]) = true := by decide
  have hput : (exec (specStep localServer) (fun _ _ => True) .initial ordersRun).any
      (fun t => (t.queues () orderKey).put = [[97], [98]]) = true := by decide
  obtain ⟨s, hs, hsl⟩ := (Option.any_eq_true _ _).mp hlist
  obtain ⟨t, ht, htp⟩ := (Option.any_eq_true _ _).mp hput
  rw [hs, ht] at h
  cases h with
  | some hR => exact ⟨s, t, hs, ht, of_decide_eq_true hsl, of_decide_eq_true htp, hR.2⟩

section Runs
variable (srv : σ) (key : Bytes)

def pushed (s : State ω σ) : Action ω σ → List Bytes
  | .read w name =>
      match s.handle w, arrayIndex name with
      | some q, none => if srv = q.2 ∧ key = encode q.1.queueName then [element name] else []
      | _, _ => []
  | .construct _ _ | .pop _ _ => []

def popped (s : State ω σ) : Action ω σ → List Bytes
  | .pop srv' key' => if srv = srv' ∧ key = key' then (s.lists srv key).getLast?.toList else []
  | .construct _ _ | .read _ _ => []

/-- No worker is constructed that declares the queue. -/
def Spares (redis : Redis σ) (_ : State ω σ) : Action ω σ → Prop
  | .construct _ c => (∀ q ∈ c.queues, Plain q.queueName) ∧ ¬ Declares redis c srv key
  | .read _ _ | .pop _ _ => True

instance (redis : Redis σ) (s : State ω σ) : ∀ a, Decidable (Spares srv key redis s a)
  | .construct _ c =>
      inferInstanceAs (Decidable ((∀ q ∈ c.queues, Plain q.queueName) ∧ ¬ Declares redis c srv key))
  | .read _ _ | .pop _ _ => isTrue trivial

end Runs

section Runs
variable {layout : Layout} {redis : Redis σ} {srv : σ} {key : Bytes} {s t : State ω σ}
  {a : Action ω σ} {as : List (Action ω σ)}

lemma plainHandles_step (hp : PlainHandles s.handle) (ha : a.Plain)
    (h : step layout redis s a = some t) : PlainHandles t.handle := by
  cases a with
  | construct w c =>
    simp only [step] at h
    split_ifs at h
    obtain ⟨hs, hw, rfl⟩ := Option.map_eq_some_iff.mp h
    exact plainHandles_update hp ha hw w
  | read w name =>
    obtain ⟨q, -, rfl⟩ := Option.map_eq_some_iff.mp h
    cases arrayIndex name with
    | some n => exact hp
    | none => exact hp
  | pop srv key =>
    obtain rfl := Option.some.inj h
    exact hp

omit [DecidableEq ω] [DecidableEq σ] in
lemma Spares.plain (h : Spares srv key redis s a) : a.Plain := by
  cases a with
  | construct w c => exact h.1
  | read w name => trivial
  | pop srv key => trivial

lemma getLast?_toList_append {α : Type*} (l : List α) :
    l.getLast?.toList ++ l.dropLast.reverse = l.reverse := by
  induction l using List.reverseRecOn with
  | nil => rfl
  | append_singleton l x _ => simp

lemma balance_step (hredis : redis.Documented) (hp : PlainHandles s.handle)
    (ha : Spares srv key redis s a) (h : step layout redis s a = some t) :
    popped srv key s a ++ (t.lists srv key).reverse =
      (s.lists srv key).reverse ++ pushed srv key s a := by
  cases a with
  | construct w c =>
    obtain ⟨hplain, hdeclares⟩ := ha
    simp only [step] at h
    split_ifs at h
    obtain ⟨hs, -, rfl⟩ := Option.map_eq_some_iff.mp h
    show [] ++ ((queuesInfo c).foldl (fun lists e => deleteQueue redis lists e.2) s.lists srv
      key).reverse = _
    rw [deleteQueues_apply hredis (plain_of_queuesInfo hplain),
      if_neg (show ¬ ∃ e ∈ queuesInfo c, _ from hdeclares), pushed, List.append_nil, List.nil_append]
  | read w name =>
    obtain ⟨q, hq, rfl⟩ := Option.map_eq_some_iff.mp h
    simp only [popped, pushed, hq]
    cases hi : arrayIndex name with
    | some n => simp
    | none =>
      simp only [redisCommand_lpush hredis (hp w q hq), setAt_apply]
      split_ifs with hsame
      · rw [← hsame.1, ← hsame.2, List.reverse_cons, List.nil_append]
      · simp
  | pop srv' key' =>
    obtain rfl := Option.some.inj h
    simp only [popped, pushed, run_rpop hredis, setAt_apply, List.append_nil]
    split_ifs with hsame
    · rw [← hsame.1, ← hsame.2]
      exact getLast?_toList_append _
    · rfl

/-- As long as no worker is constructed that declares a queue, its consumers get what was in
it and then what is pushed onto it, in this order, and what they have not got is still
there. -/
theorem popped_append_list (layout : Layout) (hredis : redis.Documented)
    (hreach : Reach (step layout redis) (fun _ a => a.Plain) .initial s)
    (h : exec (step layout redis) (Spares srv key redis) s as = some t) :
    collect (step layout redis) (popped srv key) s as ++ (t.lists srv key).reverse =
      (s.lists srv key).reverse ++ collect (step layout redis) (pushed srv key) s as := by
  have hp : PlainHandles s.handle :=
    hreach.invariant (I := fun s => PlainHandles s.handle) (by intro w q hq; contradiction)
      fun s a t hp ha hs => plainHandles_step hp ha hs
  refine collect_balance (I := fun s => PlainHandles s.handle) (f := fun s => (s.lists srv key).reverse)
    hp ?_ h
  intro s a t hp ha hs
  exact ⟨plainHandles_step hp ha.plain hs, balance_step hredis hp ha hs⟩

/-- Behind the construction of the worker. -/
def consumeRun : List (Action Unit Unit) :=
  [.read () (Utf16.encode ['a']), .read () (Utf16.encode ['b']), .pop () orderKey]

theorem popped_append_list_consumeRun : ∃ s t : State Unit Unit,
    exec (step shortStrings localServer) (fun _ a => a.Plain) .initial [.construct () creditScore] =
        some s ∧
      exec (step shortStrings localServer) (Spares () orderKey localServer) s consumeRun = some t ∧
      collect (step shortStrings localServer) (popped () orderKey) s consumeRun = [[97]] ∧
      collect (step shortStrings localServer) (popped () orderKey) s consumeRun ++
          (t.lists () orderKey).reverse =
        (s.lists () orderKey).reverse ++
          collect (step shortStrings localServer) (pushed () orderKey) s consumeRun := by
  obtain ⟨s, hs, hreach, hp⟩ := exec_of_any (step shortStrings localServer) (fun _ a => a.Plain)
    (.initial : State Unit Unit) [.construct () creditScore]
    (fun s => (exec (step shortStrings localServer) (Spares () orderKey localServer) s consumeRun).isSome &&
      decide (collect (step shortStrings localServer) (popped () orderKey) s consumeRun = [[97]]))
    (by decide)
  rw [Bool.and_eq_true] at hp
  obtain ⟨t, ht⟩ := Option.isSome_iff_exists.mp hp.1
  exact ⟨s, t, hs, ht, of_decide_eq_true hp.2,
    popped_append_list shortStrings documented_localServer hreach ht⟩

end Runs

end Eventing.QueueServer
