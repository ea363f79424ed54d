import Mathlib.Data.Fintype.Basic
import Eventing.TimerLists

/-!
# Every timer fires

One loop that polls the seconds in increasing order. A registration's blob is kept
under the document id alone, so a later registration of the same document
replaces it and the tick of an earlier second deletes it. When this does not
happen, the tick of a second makes one call for each registration that was
completed before it, with the function of that registration.
-/
namespace Eventing.Timer
open KvStore Timestamp Delimited Transition

variable {App ρ ℓ : Type*}

def pollOf : Event ρ ℓ → Option Second
  | .polled _ t => some t
  | .appended _ _ _ | .called _ _ _ _ _ | .deleted _ _ _ => none

def polledSeconds (log : List (Event ρ ℓ)) : List Second := log.filterMap pollOf

def callIn (T : Second) : Event ρ ℓ → Option (Text × Text)
  | .called _ t _ b _ => if t = T then some (b.callbackFunc, b.docId) else none
  | .appended _ _ _ | .polled _ _ | .deleted _ _ _ => none

def callsIn (T : Second) (log : List (Event ρ ℓ)) : List (Text × Text) := log.filterMap (callIn T)

/-- The registrations for a second that were completed before it was polled. -/
def registeredBefore (T : Second) (log : List (Event ρ ℓ)) : List ρ :=
  appendedTo T (log.takeWhile fun e => pollOf e ≠ some T)

/-- The seconds, not polled so far, for which a registration is completed or in
progress. -/
def State.outstanding [DecidableEq ρ] (s : State ρ ℓ) (r : ρ) : List Second :=
  ((s.reg r).due.toList ++ appendSeconds r s.log).filter (· ∉ polledSeconds s.log)

/-- The call that a registration asks for. -/
def Registration.call (r : Registration App) : Text × Text := (r.callbackFuncName, r.documentID)

/-- The call that its blob says. -/
def Registration.kept (r : Registration App) : Text × Text := (r.callbackFunc, r.docId)

structure Registration.NulFree (r : Registration App) : Prop where
  callbackFuncName : '\x00' ∉ r.callbackFuncName
  documentID : '\x00' ∉ r.documentID

lemma Registration.NulFree.kept_eq {r : Registration App} (h : r.NulFree) : r.kept = r.call :=
  Prod.ext (cString_of_notMem h.callbackFuncName) (cString_of_notMem h.documentID)

def PollsInOrder (s : State ρ ℓ) : Action ρ ℓ → Prop
  | .poll _ now => ∀ t ∈ polledSeconds s.log, t.1 < (newISO8601 now).1
  | _ => True

/-- A registration stores its blob only when the other outstanding timers of the
document are for the same function and second, and the tick in progress is not going
to delete it. -/
def BlobFree [DecidableEq ρ] (spec : ρ → Registration App) (s : State ρ ℓ) : Action ρ ℓ → Prop
  | .setBlob r now => atoi (spec r).startTs ≠ 0 →
      (∀ r', (spec r').docId = (spec r).docId → ∀ t ∈ s.outstanding r',
        (spec r').callbackFunc = (spec r).callbackFunc ∧ t = expiry now (spec r).startTs) ∧
      ∀ l, (spec r).docId ∉ (s.loop l).toPurge
  | _ => True

instance (s : State ρ ℓ) : DecidablePred (PollsInOrder s)
  | .poll _ now =>
      inferInstanceAs (Decidable (∀ t ∈ polledSeconds s.log, t.1 < (newISO8601 now).1))
  | .setBlob _ _ | .getMarker _ _ | .addMarker _ | .appendId _ | .fire _ | .leave _
  | .deleteMarker _ | .deleteKey _ | .close _ => isTrue trivial

instance [DecidableEq ρ] [Fintype ρ] [Fintype ℓ] (spec : ρ → Registration App) (s : State ρ ℓ) :
    DecidablePred (BlobFree spec s)
  | .setBlob r now => inferInstanceAs (Decidable (atoi (spec r).startTs ≠ 0 →
      (∀ r', (spec r').docId = (spec r).docId → ∀ t ∈ s.outstanding r',
        (spec r').callbackFunc = (spec r).callbackFunc ∧ t = expiry now (spec r).startTs) ∧
      ∀ l, (spec r).docId ∉ (s.loop l).toPurge))
  | .poll _ _ | .getMarker _ _ | .addMarker _ | .appendId _ | .fire _ | .leave _
  | .deleteMarker _ | .deleteKey _ | .close _ => isTrue trivial

def LoopPc.isFiring (T : Second) : LoopPc ρ → Bool
  | .firing t _ _ | .inCallback t _ _ => t = T
  | .select | .fired _ _ | .purging _ | .aborted | .closed => false

/-- For every second that was polled and whose tick has no id left to fire, one call for each
registration. -/
def CallsMade (call : ρ → Text × Text) (s : State ρ Unit) : Prop :=
  ∀ T ∈ polledSeconds s.log, (s.loop ()).isFiring T = false →
    callsIn T s.log = (registeredBefore T s.log).map call

def AllFired (spec : ρ → Registration App) (s : State ρ Unit) : Prop :=
  CallsMade (fun r => (spec r).call) s

section Log
variable {T u : Second} {log : List (Event ρ ℓ)} {e : Event ρ ℓ}

lemma polledSeconds_concat :
    polledSeconds (log ++ [e]) = polledSeconds log ++ (pollOf e).toList := by
  rw [polledSeconds, List.filterMap_append]
  cases he : pollOf e <;> simp [polledSeconds, he]

lemma callsIn_concat : callsIn T (log ++ [e]) = callsIn T log ++ (callIn T e).toList := by
  rw [callsIn, List.filterMap_append]
  cases he : callIn T e <;> simp [callsIn, he]

lemma pollOf_ne_of_notMem (h : T ∉ polledSeconds log) :
    ∀ e ∈ log, (decide (pollOf e ≠ some T)) = true := by
  intro e he
  have hne : pollOf e ≠ some T := fun hp => h (List.mem_filterMap.mpr ⟨e, he, hp⟩)
  simpa using hne

/-- The poll ends the list. -/
theorem registeredBefore_polled (h : T ∉ polledSeconds log) {l : ℓ} :
    registeredBefore T (log ++ [.polled l T]) = appendedTo T log := by
  unfold registeredBefore
  rw [List.takeWhile_append_of_pos (pollOf_ne_of_notMem h)]
  simp [pollOf]

theorem registeredBefore_concat (h : T ∈ polledSeconds log) :
    registeredBefore T (log ++ [e]) = registeredBefore T log := by
  unfold registeredBefore
  have hlt : ((log.takeWhile fun e => pollOf e ≠ some T)).length ≠ log.length := by
    intro he
    obtain ⟨e, hel, hpe⟩ := List.mem_filterMap.mp h
    have hself := List.IsPrefix.eq_of_length (List.takeWhile_prefix _) he
    have := List.takeWhile_eq_self_iff.mp hself e hel
    simp [hpe] at this
  rw [List.takeWhile_append, if_neg hlt]

lemma mem_outstanding [DecidableEq ρ] {s : State ρ ℓ} {r : ρ} :
    u ∈ s.outstanding r ↔
      u ∉ polledSeconds s.log ∧ ((s.reg r).due = some u ∨ r ∈ appendedTo u s.log) := by
  rw [State.outstanding, List.mem_filter, List.mem_append, mem_appendSeconds]
  simp [and_comm]

end Log

variable [DecidableEq ρ] {json : Json} {spec : ρ → Registration App}
  {kv₀ : Store Text (Doc ρ)} {s t : State ρ Unit} {a : Action ρ Unit}

/-- A tick in progress is for a second that was polled, and so are all calls. -/
structure Calendar (s : State ρ Unit) : Prop where
  polling : ∀ T, (s.loop ()).polling = some T → T ∈ polledSeconds s.log
  calls : ∀ T, T ∉ polledSeconds s.log → callsIn T s.log = []

lemma calendar_step (h : Calendar s) (hs : Stepped json spec s a t) : Calendar t := by
  have hpoll := h.polling
  cases hs with
  | skip _ _ | setBlob _ _ _ | found _ _ | missing _ | addMarker _ => exact ⟨h.polling, h.calls⟩
  | appendId _ =>
    constructor
    · simpa [polledSeconds_concat, pollOf] using h.polling
    · simpa [polledSeconds_concat, callsIn_concat, pollOf, callIn] using h.calls
  | poll _ _ _ =>
    constructor
    · simp [polledSeconds_concat, pollOf, LoopPc.polling]
    · intro T hT
      simp only [polledSeconds_concat, pollOf, List.mem_append, not_or] at hT
      simpa [callsIn_concat, callIn] using h.calls T hT.1
  | fireEnd hpc | fireError hpc _ | leave hpc =>
    rw [hpc] at hpoll
    exact ⟨by simpa [LoopPc.polling] using hpoll, h.calls⟩
  | fireAbort _ _ => exact ⟨by simp [LoopPc.polling], h.calls⟩
  | @fireCall l u value key keys b hpc _ =>
    rw [hpc] at hpoll
    constructor
    · simpa [polledSeconds_concat, pollOf, LoopPc.polling] using hpoll
    · intro T hT
      simp only [polledSeconds_concat, pollOf, Option.toList_none, List.append_nil] at hT
      have hne : u ≠ T := fun he => hT (he ▸ hpoll u rfl)
      simpa [callsIn_concat, callIn, hne] using h.calls T hT
  | deleteMarker _ | deleteKey _ =>
    constructor
    · simp [LoopPc.polling]
    · simpa [polledSeconds_concat, callsIn_concat, pollOf, callIn] using h.calls
  | purged _ | close _ => exact ⟨by simp [LoopPc.polling], h.calls⟩

lemma polledSeconds_step (hs : Stepped json spec s a t) {T : Second}
    (h : T ∉ polledSeconds t.log) : T ∉ polledSeconds s.log := by
  intro hT
  cases hs <;> simp_all [polledSeconds_concat]

theorem undeleted_of_notMem (hp : ∀ r, PlainId (spec r).docId) (hl : Listed spec s)
    (hc : Calendar s) {T : Second} (hT : T ∉ polledSeconds s.log)
    (hs : Stepped json spec s a t) : Undeleted T s a := by
  cases hs with
  | @deleteMarker l u value hpc => exact fun he => hT (hc.polling T he)
  | @deleteKey l key keys hpc =>
    intro he
    simp only [hpc, LoopPc.toPurge, List.head?_cons, Option.some.injEq] at he
    exact hl.purge_ne hp hpc T he.symm
  | purged hpc => simp [Undeleted, hpc, LoopPc.toPurge]
  | _ => trivial

lemma unpolled_kept_step (hp : ∀ r, PlainId (spec r).docId) (hl : Listed spec s)
    (hc : Calendar s) (h : ∀ T, T ∉ polledSeconds s.log → Kept spec T kv₀ s)
    (hs : Stepped json spec s a t) {T : Second} (hT : T ∉ polledSeconds t.log) :
    Kept spec T kv₀ t := by
  have hT' := polledSeconds_step hs hT
  have hid : IdNotKey spec T a := by
    cases a <;> first | exact (hp _).notKey T | trivial
  exact kept_step (h T hT') (undeleted_of_notMem hp hl hc hT' hs) hid hs

/-- A timer becomes outstanding when its blob is stored. -/
theorem outstanding_step (hs : Stepped json spec s a t) {r : ρ} {T : Second}
    (h : T ∈ t.outstanding r) : T ∈ s.outstanding r ∨ ∃ now, a = .setBlob r now ∧
      atoi (spec r).startTs ≠ 0 ∧ T = expiry now (spec r).startTs := by
  rw [mem_outstanding] at h ⊢
  obtain ⟨hT, h⟩ := h
  have hT' := polledSeconds_step hs hT
  cases hs with
  | @skip r' now hpc _ =>
    by_cases he : r = r' <;> simp_all [RegPc.due]
  | @setBlob r' now u hpc hz hu =>
    by_cases he : r = r'
    · subst he
      simp only [Function.update_self, RegPc.due, Option.some.injEq] at h
      rcases h with h | h
      · exact .inr ⟨now, rfl, hz, h ▸ hu⟩
      · exact .inl ⟨hT', .inr h⟩
    · exact .inl ⟨hT', by simpa [he] using h⟩
  | @found r' _ u _ hpc _ | @missing r' _ u hpc | @addMarker r' u hpc =>
    by_cases he : r = r' <;> simp_all [RegPc.due]
  | @appendId r' u hpc =>
    refine .inl ⟨hT', ?_⟩
    by_cases he : r = r'
    · subst he
      by_cases hu : u = T <;> simp_all [RegPc.due]
    · by_cases hu : u = T <;> simp_all
  | poll _ _ _ | fireEnd _ | fireError _ _ | fireAbort _ _ | fireCall _ _ | leave _
  | deleteMarker _ | deleteKey _ | purged _ | close _ =>
    exact .inl ⟨hT', by simpa using h⟩

/-- The blob of every outstanding timer is in place, and no tick is about to delete
it. -/
structure Blobs (json : Json) (spec : ρ → Registration App) (s : State ρ Unit) : Prop where
  blob : ∀ r, ∀ T ∈ s.outstanding r,
    (bucketGet s.kv (spec r).docId).text = json.write ((spec r).blob T)
  apart : ∀ r, ∀ T ∈ s.outstanding r, (spec r).docId ∉ (s.loop ()).toPurge

omit [DecidableEq ρ] in
lemma write_blob_inj {r r' : ρ} {T T' : Second}
    (h : json.write ((spec r).blob T) = json.write ((spec r').blob T')) :
    (spec r).blob T = (spec r').blob T' := by
  have hp := congrArg json.parse h
  rwa [json.parse_write _ ((spec r).blob_nulFree T), json.parse_write _ ((spec r').blob_nulFree T'),
    Parsed.timer.injEq] at hp

/-- Two outstanding timers of one document are for the same second. -/
theorem Blobs.second_eq (h : Blobs json spec s) {r r' : ρ} {T T' : Second}
    (hr : T ∈ s.outstanding r) (hr' : T' ∈ s.outstanding r')
    (hd : (spec r).docId = (spec r').docId) : T = T' := by
  have hb := h.blob r T hr
  rw [hd, h.blob r' T' hr'] at hb
  have he := write_blob_inj hb
  exact iso8601_injective (congrArg Blob.startTimestamp he).symm

lemma blobs_initial : Blobs json spec (State.initial kv₀ : State ρ Unit) := by
  constructor <;> simp [State.outstanding, State.initial, RegPc.due, appendSeconds]

omit [DecidableEq ρ] in
lemma writers_eq_appendedTo {T : Second} (h₀ : get kv₀ (iso8601 T) = none)
    (hk : Kept spec T kv₀ s) : (bucketGet s.kv (iso8601 T)).writers = appendedTo T s.log := by
  rw [hk.writers]
  simp [bucketGet, getOr, h₀, Doc.blank]

theorem outstanding_of_marker {T : Second} (h₀ : get kv₀ (iso8601 T) = none)
    (hk : Kept spec T kv₀ s) (hT : T ∉ polledSeconds s.log) {r : ρ}
    (hr : r ∈ (bucketGet s.kv (iso8601 T)).writers) : T ∈ s.outstanding r := by
  rw [writers_eq_appendedTo h₀ hk] at hr
  exact mem_outstanding.mpr ⟨hT, .inr hr⟩

section Step
variable (hp : ∀ r, PlainId (spec r).docId) (hne : ∀ r, (spec r).docId ≠ [])
  (h₀ : ∀ t, get kv₀ (iso8601 t) = none) (hl : Listed spec s)
  (hk : ∀ T, T ∉ polledSeconds s.log → Kept spec T kv₀ s)
include hp hne h₀ hl hk

lemma blobs_poll (h : Blobs json spec s) {now : ℕ} (hord : PollsInOrder s (.poll () now))
    (hs : Stepped json spec s (.poll () now) t) {r : ρ} {T : Second} (hr : T ∈ s.outstanding r)
    (hT : T ∉ polledSeconds t.log) :
    (spec r).docId ∉ (bucketGet s.kv (iso8601 (newISO8601 now))).text.splitOn ';' := by
  intro hmem
  rw [(hl.bucketGet _).splitOn hp, List.mem_append, List.mem_map, List.mem_singleton] at hmem
  rcases hmem with ⟨r', hr', hd⟩ | hnil
  · have hnew : newISO8601 now ∉ polledSeconds s.log := fun hm => lt_irrefl _ (hord _ hm)
    have hout := outstanding_of_marker (h₀ _) (hk _ hnew) hnew hr'
    have hTu := h.second_eq hr hout hd.symm
    cases hs
    simp_all [polledSeconds_concat, pollOf]
  · exact hne r hnil

lemma blobs_step (h : Blobs json spec s) (hord : PollsInOrder s a) (hok : BlobFree spec s a)
    (hs : Stepped json spec s a t) : Blobs json spec t := by
  constructor
  · intro r T hr
    rcases doc_step (hp r).notKey hs with hd | ⟨r', now, rfl, hz, hd, hdoc⟩ | ⟨l, rfl, hhead, -⟩
    · rcases outstanding_step hs hr with hr' | ⟨now, rfl, hz, hT⟩
      · rw [hd, h.blob r T hr']
      · -- The blob of `r` itself was just stored.
        cases hs with
        | skip _ hz' => exact absurd hz' hz
        | setBlob _ _ hu => simp [hu, hT]
    · rcases outstanding_step hs hr with hr' | ⟨now', ha, -, hT⟩
      · obtain ⟨hf, hT⟩ := (hok hz).1 r hd.symm T hr'
        rw [hdoc, hT]
        simp [Registration.blob, hf, hd]
      · cases ha
        rw [hdoc, hT]
    · rcases outstanding_step hs hr with hr' | ⟨now, ha, -⟩
      · exact absurd (List.mem_of_head? hhead) (h.apart r T hr')
      · cases ha
  · intro r T hr
    have hT := (mem_outstanding.mp hr).1
    rcases toPurge_step hs () with hsub | ⟨now, rfl, hpurge⟩
    · rcases outstanding_step hs hr with hr' | ⟨now, rfl, hz, -⟩
      · exact fun hm => h.apart r T hr' (hsub hm)
      · exact fun hm => (hok hz).2 () (hsub hm)
    · rcases outstanding_step hs hr with hr' | ⟨now', ha, -⟩
      · rw [hpurge]
        exact blobs_poll hp hne h₀ hl hk h hord hs hr' hT
      · cases ha

end Step

/-- The tick of `T` with `keys` left to fire: the calls made and the keys left are, in
order, those of the registrations completed before the tick, and the blobs of the
latter are in place until the tick deletes them. -/
def Halfway (json : Json) (spec : ρ → Registration App) (s : State ρ Unit) (T : Second)
    (keys : List Text) : Prop :=
  ∃ fired rest, registeredBefore T s.log = fired ++ rest ∧
    callsIn T s.log = fired.map (fun r => (spec r).kept) ∧
    keys = rest.map (fun r => (spec r).docId) ∧
    ∀ r ∈ rest, (bucketGet s.kv (spec r).docId).text = json.write ((spec r).blob T) ∧
      (spec r).docId ∈ (s.loop ()).toPurge

structure Ticking (json : Json) (spec : ρ → Registration App) (s : State ρ Unit) : Prop where
  firing : ∀ T value keys, s.loop () = .firing T value keys → Halfway json spec s T keys
  inCallback : ∀ T value keys, s.loop () = .inCallback T value keys → Halfway json spec s T keys
  alive : s.loop () ≠ .aborted
  ended : CallsMade (fun r => (spec r).kept) s

omit [DecidableEq ρ] in
lemma ticking_initial : Ticking json spec (State.initial kv₀ : State ρ Unit) := by
  constructor <;> simp [State.initial, CallsMade, polledSeconds]

omit [DecidableEq ρ] in
theorem Ticking.advance (h : Ticking json spec s) (hc : Calendar s) (hloop : t.loop = s.loop)
    (hpolled : polledSeconds t.log = polledSeconds s.log)
    (hcalls : ∀ T, callsIn T t.log = callsIn T s.log)
    (hreg : ∀ T ∈ polledSeconds s.log, registeredBefore T t.log = registeredBefore T s.log)
    (hkv : ∀ r, (spec r).docId ∈ (s.loop ()).toPurge →
      bucketGet t.kv (spec r).docId = bucketGet s.kv (spec r).docId) : Ticking json spec t := by
  have half : ∀ T keys, T ∈ polledSeconds s.log → Halfway json spec s T keys →
      Halfway json spec t T keys := by
    rintro T keys hT ⟨fired, rest, hb, hcl, hkeys, hblob⟩
    refine ⟨fired, rest, by rw [hreg T hT, hb], by rw [hcalls, hcl], hkeys, ?_⟩
    intro r hr
    obtain ⟨htext, hpurge⟩ := hblob r hr
    rw [hkv r hpurge, hloop]
    exact ⟨htext, hpurge⟩
  refine ⟨?_, ?_, by rw [hloop]; exact h.alive, ?_⟩
  · intro T value keys hpc
    rw [hloop] at hpc
    exact half T keys (hc.polling T (by rw [hpc]; rfl)) (h.firing T value keys hpc)
  · intro T value keys hpc
    rw [hloop] at hpc
    exact half T keys (hc.polling T (by rw [hpc]; rfl)) (h.inCallback T value keys hpc)
  · intro T hT hover
    rw [hpolled] at hT
    rw [hloop] at hover
    rw [hcalls, hreg T hT]
    exact h.ended T hT hover

omit [DecidableEq ρ] in
theorem Ticking.turn (h : Ticking json spec s) {kv : Store Text (Doc ρ)} {pc : LoopPc ρ}
    {log : List (Event ρ Unit)} (hpc : ∀ T, pc.isFiring T = false) (halive : pc ≠ .aborted)
    (hlog : log = s.log ∨ ∃ key writers, log = s.log ++ [.deleted () key writers])
    (hover : ∀ T ∈ polledSeconds s.log, (s.loop ()).isFiring T = true →
      callsIn T s.log = (registeredBefore T s.log).map fun r => (spec r).kept) :
    Ticking json spec { s with kv := kv, loop := Function.update s.loop () pc, log := log } := by
  have hpolled : polledSeconds log = polledSeconds s.log := by
    rcases hlog with rfl | ⟨key, writers, rfl⟩ <;> simp [polledSeconds_concat, pollOf]
  have hcalls : ∀ T, callsIn T log = callsIn T s.log := by
    rcases hlog with rfl | ⟨key, writers, rfl⟩ <;> simp [callsIn_concat, callIn]
  have hreg : ∀ T ∈ polledSeconds s.log, registeredBefore T log = registeredBefore T s.log := by
    rcases hlog with rfl | ⟨key, writers, rfl⟩
    · exact fun _ _ => rfl
    · exact fun T hT => registeredBefore_concat hT
  refine ⟨?_, ?_, by simpa using halive, ?_⟩
  · intro T value keys he
    have := hpc T
    simp_all [LoopPc.isFiring]
  · intro T value keys he
    have := hpc T
    simp_all [LoopPc.isFiring]
  · intro T hT _
    rw [hpolled] at hT
    rw [hcalls, hreg T hT]
    cases hf : (s.loop ()).isFiring T with
    | true => exact hover T hT hf
    | false => exact h.ended T hT hf

lemma ticking_poll (hp : ∀ r, PlainId (spec r).docId)
    (h₀ : ∀ t, get kv₀ (iso8601 t) = none) (hl : Listed spec s)
    (hk : ∀ T, T ∉ polledSeconds s.log → Kept spec T kv₀ s) (hc : Calendar s)
    (hb : Blobs json spec s) (h : Ticking json spec s) {u : Second}
    (hpc : s.loop () = .select) (hu : u ∉ polledSeconds s.log) {value : Doc ρ}
    (hv : value = bucketGet s.kv (iso8601 u)) :
    Ticking json spec { s with
      loop := Function.update s.loop () (.firing u value (splitKeys value.text))
      log := s.log ++ [.polled () u] } := by
  have hlist : value.Lists spec := hv ▸ hl.bucketGet u
  have hw : value.writers = appendedTo u s.log := hv ▸ writers_eq_appendedTo (h₀ u) (hk u hu)
  refine ⟨?_, by simp, by simp, ?_⟩
  · intro T value' keys he
    simp only [Function.update_self, LoopPc.firing.injEq] at he
    obtain ⟨rfl, rfl, rfl⟩ := he
    refine ⟨[], value.writers, ?_, ?_, hlist.splitKeys hp, ?_⟩
    · simp [registeredBefore_polled hu, hw]
    · simpa [callsIn_concat, callIn] using hc.calls u hu
    · intro r hr
      constructor
      · exact hb.blob r u (outstanding_of_marker (h₀ u) (hk u hu) hu (hv ▸ hr))
      · simp only [Function.update_self, LoopPc.toPurge, hlist.splitOn hp, List.mem_append]
        exact .inl (List.mem_map.mpr ⟨r, hr, rfl⟩)
  · intro T hT hover
    simp only [polledSeconds_concat, pollOf, Option.toList_some, List.mem_append,
      List.mem_singleton] at hT
    rcases hT with hT | rfl
    · have hpast := h.ended T hT (by simp [hpc, LoopPc.isFiring])
      simpa [callsIn_concat, callIn, registeredBefore_concat hT] using hpast
    · simp [LoopPc.isFiring] at hover

omit [DecidableEq ρ] in
theorem Halfway.next {T : Second} {key : Text} {keys : List Text}
    (h : Halfway json spec s T (key :: keys)) :
    ∃ r, json.parse (bucketGet s.kv key).text = .timer ((spec r).blob T) := by
  obtain ⟨fired, rest, -, -, hkeys, hblob⟩ := h
  cases rest with
  | nil => simp at hkeys
  | cons r rest =>
    simp only [List.map_cons, List.cons.injEq] at hkeys
    refine ⟨r, ?_⟩
    rw [hkeys.1, (hblob r (by simp)).1, json.parse_write _ ((spec r).blob_nulFree T)]

omit [DecidableEq ρ] in
lemma ticking_fireCall (hc : Calendar s) (h : Ticking json spec s) {u : Second}
    {value : Doc ρ} {key : Text} {keys : List Text} {b : Blob} {writers : List ρ}
    (hpc : s.loop () = .firing u value (key :: keys))
    (hblob : json.parse (bucketGet s.kv key).text = .timer b) :
    Ticking json spec { s with
      loop := Function.update s.loop () (.inCallback u value keys)
      log := s.log ++ [.called () u key b writers] } := by
  have hu : u ∈ polledSeconds s.log := hc.polling u (by rw [hpc]; rfl)
  obtain ⟨fired, rest, hbefore, hcalls, hkeys, hrest⟩ := h.firing u value _ hpc
  refine ⟨by simp, ?_, by simp, ?_⟩
  · intro T value' keys' he
    simp only [Function.update_self, LoopPc.inCallback.injEq] at he
    obtain ⟨rfl, rfl, rfl⟩ := he
    cases rest with
    | nil => simp at hkeys
    | cons r rest =>
      simp only [List.map_cons, List.cons.injEq] at hkeys
      obtain ⟨rfl, hkeys⟩ := hkeys
      rw [(hrest r (by simp)).1, json.parse_write _ ((spec r).blob_nulFree u),
        Parsed.timer.injEq] at hblob
      refine ⟨fired ++ [r], rest, ?_, ?_, hkeys, ?_⟩
      · simp [registeredBefore_concat hu, hbefore]
      · simp [callsIn_concat, callIn, hcalls, ← hblob, Registration.kept, Registration.blob]
      · intro r' hr'
        simpa [hpc, LoopPc.toPurge] using hrest r' (List.mem_cons_of_mem _ hr')
  · intro T hT hover
    have hne : u ≠ T := by simpa [LoopPc.isFiring] using hover
    simp only [polledSeconds_concat, pollOf, Option.toList_none, List.append_nil] at hT
    have hpast := h.ended T hT (by simp [hpc, LoopPc.isFiring, hne])
    simpa [callsIn_concat, callIn, hne, registeredBefore_concat hT] using hpast

lemma ticking_step (hp : ∀ r, PlainId (spec r).docId)
    (h₀ : ∀ t, get kv₀ (iso8601 t) = none) (hl : Listed spec s)
    (hk : ∀ T, T ∉ polledSeconds s.log → Kept spec T kv₀ s) (hc : Calendar s)
    (hb : Blobs json spec s) (h : Ticking json spec s) (hord : PollsInOrder s a)
    (hok : BlobFree spec s a) (hs : Stepped json spec s a t) : Ticking json spec t := by
  cases hs with
  | skip _ _ | found _ _ | missing _ =>
    exact h.advance hc rfl rfl (fun _ => rfl) (fun _ _ => rfl) fun _ _ => rfl
  | @setBlob r now u _ hz _ =>
    refine h.advance hc rfl rfl (fun _ => rfl) (fun _ _ => rfl) fun r' hr' => ?_
    -- The ids of the tick are not registered again before it has deleted their blobs.
    have hdoc : (spec r').docId ≠ (spec r).docId := fun he => (hok hz).2 () (he ▸ hr')
    exact bucketGet_set_of_ne hdoc
  | addMarker _ =>
    exact h.advance hc rfl rfl (fun _ => rfl) (fun _ _ => rfl) fun _ _ => bucketGet_add_blank
  | appendId _ =>
    refine h.advance hc rfl (by simp [polledSeconds_concat, pollOf])
      (by simp [callsIn_concat, callIn]) (fun T hT => registeredBefore_concat hT) ?_
    exact fun r' _ => bucketGet_append_of_ne ((hp r').notKey _)
  | poll hpc hu hv =>
    have hnew : _ ∉ polledSeconds s.log := fun hm => lt_irrefl _ (hord _ (hu ▸ hm))
    exact ticking_poll hp h₀ hl hk hc hb h hpc hnew hv
  | @fireEnd l u value hpc =>
    refine h.turn (by simp [LoopPc.isFiring]) (by simp) (.inl rfl) ?_
    intro T _ hf
    obtain rfl : u = T := by simpa [hpc, LoopPc.isFiring] using hf
    obtain ⟨fired, rest, hbefore, hcalls, hkeys, -⟩ := h.firing u value [] hpc
    obtain rfl : rest = [] := by simpa using hkeys.symm
    rw [hbefore, hcalls, List.append_nil]
  | fireError hpc he | fireAbort hpc he =>
    obtain ⟨r, hr⟩ := (h.firing _ _ _ hpc).next
    simp [hr] at he
  | fireCall hpc hblob => exact ticking_fireCall hc h hpc hblob
  | @leave l u value keys hpc =>
    have hh := h.inCallback u value keys hpc
    refine ⟨?_, by simp, by simp, ?_⟩
    · intro T value' keys' he
      simp only [Function.update_self, LoopPc.firing.injEq] at he
      obtain ⟨rfl, rfl, rfl⟩ := he
      simpa [Halfway, hpc, LoopPc.toPurge] using hh
    · intro T hT hover
      exact h.ended T hT (by simpa [hpc, LoopPc.isFiring] using hover)
  | deleteMarker hpc | deleteKey hpc =>
    exact h.turn (by simp [LoopPc.isFiring]) (by simp) (.inr ⟨_, _, rfl⟩)
      (by simp [hpc, LoopPc.isFiring])
  | purged hpc | close hpc =>
    exact h.turn (by simp [LoopPc.isFiring]) (by simp) (.inl rfl)
      (by simp [hpc, LoopPc.isFiring])

/-- The steps of the loop alone bring the firing of a tick to its end. -/
def TickEnds (json : Json) (spec : ρ → Registration App) (s : State ρ Unit) : Prop :=
  ∀ T, (s.loop ()).isFiring T = true →
    ∃ t, Reach (step json spec) (fun _ a => a = .fire () ∨ a = .leave ()) s t ∧
      (t.loop ()).isFiring T = false

lemma meets_fire (s : State ρ Unit) :
    PollsInOrder s (.fire ()) ∧ BlobFree spec s (.fire ()) := ⟨trivial, trivial⟩

lemma meets_leave (s : State ρ Unit) :
    PollsInOrder s (.leave ()) ∧ BlobFree spec s (.leave ()) := ⟨trivial, trivial⟩

section Run
variable (hp : ∀ r, PlainId (spec r).docId) (hne : ∀ r, (spec r).docId ≠ [])
  (h₀ : ∀ t, get kv₀ (iso8601 t) = none)
include hp hne h₀

lemma reach_ticking
    (h : Reach (step json spec) (fun s a => PollsInOrder s a ∧ BlobFree spec s a)
      (.initial kv₀) s) : Ticking json spec s := by
  have hinv : Listed spec s ∧ (∀ T, T ∉ polledSeconds s.log → Kept spec T kv₀ s) ∧
      Calendar s ∧ Blobs json spec s ∧ Ticking json spec s := by
    refine h.invariant (I := fun s => Listed spec s ∧
      (∀ T, T ∉ polledSeconds s.log → Kept spec T kv₀ s) ∧ Calendar s ∧ Blobs json spec s ∧
        Ticking json spec s) ?_ ?_
    · exact ⟨listed_initial h₀, fun _ _ => kept_initial, ⟨by simp [State.initial, LoopPc.polling],
        by simp [State.initial, callsIn]⟩, blobs_initial, ticking_initial⟩
    · rintro s a t ⟨hl, hk, hc, hb, ht⟩ ⟨hord, hok⟩ hs
      have hst := step_stepped hs
      exact ⟨listed_step hp hl hst, fun T hT => unpolled_kept_step hp hl hc hk hst hT,
        calendar_step hc hst, blobs_step hp hne h₀ hl hk hb hord hok hst,
        ticking_step hp h₀ hl hk hc hb ht hord hok hst⟩
  exact hinv.2.2.2.2

/-- By induction on the ids left: each one has its blob, so `SendTimerCallback` does
not return early. -/
theorem firing_ends {T : Second} {value : Doc ρ} {keys : List Text}
    (h : Reach (step json spec) (fun s a => PollsInOrder s a ∧ BlobFree spec s a)
      (.initial kv₀) s) (hpc : s.loop () = .firing T value keys) :
    ∃ t, Reach (step json spec) (fun _ a => a = .fire () ∨ a = .leave ()) s t ∧
      (t.loop ()).isFiring T = false := by
  induction keys generalizing s with
  | nil =>
    have hfire : step json spec s (.fire ()) =
        some { s with loop := Function.update s.loop () (.fired T value) } := by
      simp [step, hpc]
    exact ⟨_, Reach.one (.inl rfl) hfire, by simp [LoopPc.isFiring]⟩
  | cons key keys ih =>
    obtain ⟨r, hr⟩ := ((reach_ticking hp hne h₀ h).firing _ _ _ hpc).next
    obtain ⟨s₁, hfire, hpc₁⟩ : ∃ s₁, step json spec s (.fire ()) = some s₁ ∧
        s₁.loop () = .inCallback T value keys := by
      simp [step, hpc, hr]
    obtain ⟨s₂, hleave, hpc₂⟩ : ∃ s₂, step json spec s₁ (.leave ()) = some s₂ ∧
        s₂.loop () = .firing T value keys := by
      simp [step, hpc₁]
    have hreach := (h.tail (meets_fire s) hfire).tail (meets_leave s₁) hleave
    obtain ⟨t, ht, hend⟩ := ih hreach hpc₂
    exact ⟨t, ((Reach.one (.inl rfl) hfire).tail (.inr rfl) hleave).trans ht, hend⟩

end Run

/-- Any interleaving of registrations with a loop that polls in order, from a bucket
without lists. -/
theorem allFired_of_blobFree (json : Json) (spec : ρ → Registration App)
    (hnul : ∀ r, (spec r).NulFree) (hp : ∀ r, PlainId (spec r).docId) (hne : ∀ r, (spec r).docId ≠ [])
    {kv₀ : Store Text (Doc ρ)} (h₀ : ∀ t, get kv₀ (iso8601 t) = none) {s : State ρ Unit}
    (h : Reach (step json spec) (fun s a => PollsInOrder s a ∧ BlobFree spec s a)
      (.initial kv₀) s) : AllFired spec s ∧ TickEnds json spec s := by
  have hcall : (fun r => (spec r).kept) = fun r => (spec r).call := funext fun r => (hnul r).kept_eq
  have hfired : AllFired spec s := by
    rw [AllFired, ← hcall]
    exact (reach_ticking hp hne h₀ h).ended
  refine ⟨hfired, ?_⟩
  intro T hf
  cases hpc : s.loop () with
  | firing u value keys =>
    obtain rfl : u = T := by simpa [hpc, LoopPc.isFiring] using hf
    exact firing_ends hp hne h₀ h hpc
  | inCallback u value keys =>
    obtain rfl : u = T := by simpa [hpc, LoopPc.isFiring] using hf
    obtain ⟨s₁, hleave, hpc₁⟩ : ∃ s₁, step json spec s (.leave ()) = some s₁ ∧
        s₁.loop () = .firing u value keys := by
      simp [step, hpc]
    have hreach := h.tail (meets_leave s) hleave
    obtain ⟨t, ht, hend⟩ := firing_ends hp hne h₀ hreach hpc₁
    exact ⟨t, (Reach.one (.inr rfl) hleave).trans ht, hend⟩
  | select | fired _ _ | purging _ | aborted | closed => simp [hpc, LoopPc.isFiring] at hf

def idleTick (now : ℕ) : List (Action ρ Unit) :=
  [.poll () now, .fire (), .deleteMarker (), .deleteKey (), .deleteKey ()]

def expiringIn (seconds : Text) (f d : Text) : Registration Unit := ⟨(), f, d, seconds⟩

def chainedRegistrations (r : Bool) : Registration Unit :=
  expiringIn "1".toList "onExpiry".toList (if r then "a".toList else "b".toList)

/-- The callback for one document registers another one. -/
def chainedRun : List (Action Bool Unit) :=
  [.setBlob true 6, .getMarker true true, .addMarker true, .appendId true] ++
  idleTick 7 ++ idleTick 8 ++
  [.poll () 9, .fire (), .setBlob false 9, .getMarker false true, .addMarker false,
    .appendId false, .leave (), .fire (), .deleteMarker (), .deleteKey (), .deleteKey (),
    .deleteKey ()] ++
  idleTick 10 ++ idleTick 11 ++ [.poll () 12, .fire (), .leave (), .fire ()]

theorem allFired_chainedRun :
    ∃ s : State Bool Unit,
      exec (step compactJson chainedRegistrations)
        (fun s a => PollsInOrder s a ∧ BlobFree chainedRegistrations s a) (.initial empty)
        chainedRun = some s ∧
      callsIn (newISO8601 12) s.log = [("onExpiry".toList, "b".toList)] ∧
      AllFired chainedRegistrations s ∧ TickEnds compactJson chainedRegistrations s := by
  obtain ⟨s, he, hr, hp⟩ := exec_of_any (step compactJson chainedRegistrations)
    (fun s a => PollsInOrder s a ∧ BlobFree chainedRegistrations s a)
    (.initial empty : State Bool Unit) chainedRun
    (fun s => callsIn (newISO8601 12) s.log = [("onExpiry".toList, "b".toList)]) (by decide)
  have hnul : ∀ r, (chainedRegistrations r).NulFree := by
    intro r
    constructor <;> revert r <;> decide
  have hplain : ∀ r, PlainId (chainedRegistrations r).docId := by
    intro r
    apply PlainId.of_notMem <;> revert r <;> decide
  exact ⟨s, he, of_decide_eq_true hp,
    allFired_of_blobFree _ _ hnul hplain (by decide) (fun _ => rfl) hr⟩

def PollsEverySecond (s : State ρ ℓ) : Action ρ ℓ → Prop
  | .poll l now => PollsInOrder s (.poll l now) ∧
      (polledSeconds s.log = [] ∨ ∃ t ∈ polledSeconds s.log, (newISO8601 now).1 = t.1 + 1)
  | _ => True

/-- Registrations are made one at a time, outside a tick or in a callback, and find
what is stored. -/
def Uninterrupted (s : State ρ ℓ) : Action ρ ℓ → Prop
  | .setBlob _ _ => (∀ r, (s.reg r).due = none) ∧
      ∀ l, (s.loop l matches .select) ∨ (s.loop l matches .inCallback _ _ _)
  | .getMarker _ answered => answered = true
  | .addMarker _ | .appendId _ => True
  | .poll _ _ | .fire _ | .leave _ | .deleteMarker _ | .deleteKey _ | .close _ =>
      ∀ r, (s.reg r).due = none

instance (s : State ρ ℓ) : DecidablePred (PollsEverySecond s)
  | .poll l now => inferInstanceAs (Decidable (PollsInOrder s (.poll l now) ∧
      (polledSeconds s.log = [] ∨ ∃ t ∈ polledSeconds s.log, (newISO8601 now).1 = t.1 + 1)))
  | .setBlob _ _ | .getMarker _ _ | .addMarker _ | .appendId _ | .fire _ | .leave _
  | .deleteMarker _ | .deleteKey _ | .close _ => isTrue trivial

instance [Fintype ρ] [Fintype ℓ] (s : State ρ ℓ) : DecidablePred (Uninterrupted s)
  | .setBlob _ _ => inferInstanceAs (Decidable ((∀ r, (s.reg r).due = none) ∧
      ∀ l, (s.loop l matches .select) ∨ (s.loop l matches .inCallback _ _ _)))
  | .getMarker _ answered => inferInstanceAs (Decidable (answered = true))
  | .addMarker _ | .appendId _ => isTrue trivial
  | .poll _ _ | .fire _ | .leave _ | .deleteMarker _ | .deleteKey _ | .close _ =>
      inferInstanceAs (Decidable (∀ r, (s.reg r).due = none))

def competingRegistrations (r : Bool) : Registration Unit :=
  expiringIn "1".toList (if r then "first".toList else "second".toList) "a".toList

/-- Two functions are registered for one document and one second. -/
def competingRun : List (Action Bool Unit) :=
  [.setBlob true 6, .getMarker true true, .addMarker true, .appendId true,
    .setBlob false 6, .getMarker false true, .appendId false] ++
  idleTick 7 ++ idleTick 8 ++ [.poll () 9, .fire (), .leave (), .fire (), .leave (), .fire ()]

/-- The second function is called twice and the first one never. -/
theorem not_allFired_competingRun :
    ∃ s : State Bool Unit,
      exec (step compactJson competingRegistrations)
        (fun s a => PollsEverySecond s a ∧ Uninterrupted s a) (.initial empty) competingRun =
        some s ∧ ¬ AllFired competingRegistrations s := by
  obtain ⟨s, he, -, hp⟩ := exec_of_any (step compactJson competingRegistrations)
    (fun s a => PollsEverySecond s a ∧ Uninterrupted s a)
    (.initial empty : State Bool Unit) competingRun
    (fun s => newISO8601 9 ∈ polledSeconds s.log ∧
      (s.loop ()).isFiring (newISO8601 9) = false ∧
      callsIn (newISO8601 9) s.log ≠ (registeredBefore (newISO8601 9) s.log).map fun r =>
        (competingRegistrations r).call) (by decide)
  obtain ⟨hpolled, hover, hcalls⟩ := of_decide_eq_true hp
  exact ⟨s, he, fun h => hcalls (h _ hpolled hover)⟩

end Eventing.Timer
