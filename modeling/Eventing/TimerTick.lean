import Eventing.MarkerCodec
import Eventing.Timer

/-!
# One tick

`SendTimerCallback` (`worker.cc`) goes through the ids of a list up to the first one whose
blob it cannot parse; `processTimerEvent` (`proccess_timer_callbacks.go`) then deletes the
list and the blobs of all of them. The bucket is the same for the whole tick here: a tick
is a run of the timer model in which nothing else happens.
-/
namespace Eventing.Timer
open KvStore Timestamp Delimited Transition

variable {App ρ ℓ : Type*}

/-- The blob that `SendTimerCallback` finds under a key, if there is one. -/
def timerAt (json : Json) (kv : Store Text (Doc ρ)) (key : Text) : Option Blob :=
  match json.parse (bucketGet kv key).text with
  | .timer b => some b
  | .error | .other => none

/-- The callbacks that were made, each with the key of its blob, and whether an assertion
has stopped the process. -/
structure Fired where
  calls : List (Text × Blob)
  aborted : Bool
  deriving DecidableEq

def fireAll (json : Json) (kv : Store Text (Doc ρ)) : List Text → Fired
  | [] => ⟨[], false⟩
  | key :: keys =>
      match json.parse (bucketGet kv key).text with
      | .error => ⟨[], false⟩
      | .other => ⟨[], true⟩
      | .timer b => ⟨(key, b) :: (fireAll json kv keys).calls, (fireAll json kv keys).aborted⟩

def sendTimerCallback (json : Json) (kv : Store Text (Doc ρ)) (k : Text) : Fired :=
  fireAll json kv (MarkerCodec.split (cString k) ';')

/-- A tick of `processTimerEvent` that polls second `t`: what it calls and what it leaves in
the bucket. -/
def tick (json : Json) (kv : Store Text (Doc ρ)) (t : Second) : Fired × Store Text (Doc ρ) :=
  let value := (bucketGet kv (iso8601 t)).text
  let fired := sendTimerCallback json kv value
  (fired, if fired.aborted then kv
    else (value.splitOn ';').foldl delete (delete kv (iso8601 t)))

def listedIds (kv : Store Text (Doc ρ)) (t : Second) : List Text :=
  MarkerCodec.split (bucketGet kv (iso8601 t)).text ';'

/-- Every listed id with a blob is called, in the order of the list, and no blob is deleted
without its call. The list itself is no blob, and no document has an empty key. -/
structure Isolates (json : Json) (kv : Store Text (Doc ρ)) (t : Second) : Prop where
  called : (tick json kv t).1.calls =
    (listedIds kv t).filterMap fun id => (timerAt json kv id).map (id, ·)
  deleted : ∀ id b, id ≠ [] → id ≠ iso8601 t → timerAt json kv id = some b →
    get (tick json kv t).2 id = none → (id, b) ∈ (tick json kv t).1.calls

section
variable {json : Json} {kv : Store Text (Doc ρ)} {t : Second} {keys : List Text}

lemma present_of_timerAt {id : Text} {b : Blob} (h : timerAt json kv id = some b) :
    get kv id ≠ none := by
  intro hn
  have hblank : (bucketGet kv id).text = [] := by simp [bucketGet, getOr, hn, Doc.blank]
  rw [timerAt, hblank, json.parse_empty] at h
  contradiction

lemma fireAll_calls_of_some {key : Text} {b : Blob} (h : timerAt json kv key = some b) :
    (fireAll json kv (key :: keys)).calls = (key, b) :: (fireAll json kv keys).calls := by
  unfold timerAt at h
  cases hp : json.parse (bucketGet kv key).text <;> rw [hp] at h
  · contradiction
  · contradiction
  · simp only [Option.some.injEq] at h
    simp [fireAll, hp, h]

lemma fireAll_calls_of_none {key : Text} (h : timerAt json kv key = none) :
    (fireAll json kv (key :: keys)).calls = [] := by
  unfold timerAt at h
  cases hp : json.parse (bucketGet kv key).text <;> rw [hp] at h
  · simp [fireAll, hp]
  · simp [fireAll, hp]
  · contradiction

/-- The loop stops at the first key without a blob, so it makes all calls only when there is
none behind it. -/
lemma fireAll_calls_iff : (fireAll json kv keys).calls =
      keys.filterMap (fun id => (timerAt json kv id).map (id, ·)) ↔
    ∀ id ∈ keys.dropWhile (fun id => (timerAt json kv id).isSome), timerAt json kv id = none := by
  induction keys with
  | nil => simp [fireAll]
  | cons key keys ih =>
    cases hb : timerAt json kv key with
    | some b =>
      rw [fireAll_calls_of_some hb]
      simp [hb, ih]
    | none =>
      rw [fireAll_calls_of_none hb, eq_comm]
      simp [hb, List.filterMap_eq_nil_iff]

lemma get_foldl_delete (kv : Store Text (Doc ρ)) (key : Text) (keys : List Text) :
    get (keys.foldl delete kv) key = if key ∈ keys then none else get kv key := by
  induction keys generalizing kv with
  | nil => simp
  | cons k keys ih =>
    rw [List.foldl_cons, ih]
    by_cases hk : key = k
    · simp [hk]
    · simp [hk, List.mem_cons]

lemma mem_of_mem_splitOn {value id : Text} (hne : id ≠ []) (h : id ∈ value.splitOn ';') :
    id ∈ MarkerCodec.split value ';' := by
  rw [splitOn_eq_getlines, ← MarkerCodec.split_eq_getlines, List.mem_append] at h
  rcases h with h | h
  · exact h
  · split_ifs at h
    · exact absurd (List.mem_singleton.mp h) hne
    · exact absurd h List.not_mem_nil

lemma mem_listedIds_of_deleted {id : Text} {b : Blob} (hne : id ≠ []) (hkey : id ≠ iso8601 t)
    (hb : timerAt json kv id = some b) (hdel : get (tick json kv t).2 id = none) :
    id ∈ listedIds kv t := by
  have hpresent := present_of_timerAt hb
  simp only [tick] at hdel
  split_ifs at hdel
  · exact absurd hdel hpresent
  · rw [get_foldl_delete] at hdel
    split_ifs at hdel with hmem
    · exact mem_of_mem_splitOn hne hmem
    · rw [get_delete_of_ne hkey] at hdel
      exact absurd hdel hpresent

/-- A tick serves its ids one by one exactly when no blob stands behind an id without one. -/
theorem isolates_iff (json : Json) (kv : Store Text (Doc ρ)) (t : Second)
    (hnul : '\x00' ∉ (bucketGet kv (iso8601 t)).text) :
    Isolates json kv t ↔ ∀ id ∈ (listedIds kv t).dropWhile fun id => (timerAt json kv id).isSome,
      timerAt json kv id = none := by
  have hcalls : (tick json kv t).1.calls = (fireAll json kv (listedIds kv t)).calls := by
    simp only [tick, sendTimerCallback, listedIds, cString_of_notMem hnul]
  constructor
  · intro h
    rw [← fireAll_calls_iff, ← hcalls]
    exact h.called
  · intro h
    have hcalled := hcalls.trans (fireAll_calls_iff.mpr h)
    refine ⟨hcalled, ?_⟩
    intro id b hne hkey hb hdel
    have hmem := mem_listedIds_of_deleted hne hkey hb hdel
    rw [hcalled, List.mem_filterMap]
    exact ⟨id, hmem, by rw [hb]; rfl⟩

end

/-- A list of the two ids `a` and `b` of which only `id` has a blob. -/
def oneBlob (id : Text) : Store Text (Doc Unit) :=
  set (set empty id ⟨compactJson.write ⟨['f'], id, ['t']⟩, [()]⟩)
    (iso8601 ⟨0, by decide⟩) ⟨['a', ';', 'b', ';'], []⟩

/-- The first id has lost its blob: the second is not called, and its blob is deleted. -/
theorem not_isolates_of_missing : ¬ Isolates compactJson (oneBlob ['b']) ⟨0, by decide⟩ := by
  intro h
  have hc := h.called
  simp only [tick, sendTimerCallback, listedIds, MarkerCodec.split_eq_getlines] at hc
  revert hc
  decide

theorem isolates_of_missing_last : Isolates compactJson (oneBlob ['a']) ⟨0, by decide⟩ := by
  refine (isolates_iff compactJson (oneBlob ['a']) ⟨0, by decide⟩ (by decide)).mpr ?_
  simp only [listedIds, MarkerCodec.split_eq_getlines]
  decide

section Run
variable [DecidableEq ρ] [DecidableEq ℓ] {json : Json} {spec : ρ → Registration App}
  {s : State ρ ℓ} {l : ℓ} {t : Second} {value : Doc ρ} {keys : List Text}

def callEvent (kv : Store Text (Doc ρ)) (l : ℓ) (t : Second) (c : Text × Blob) : Event ρ ℓ :=
  .called l t c.1 c.2 (bucketGet kv c.1).writers

/-- The loop that is in `SendTimerCallback` makes the calls of `fireAll`. -/
lemma fireAll_reach (h : s.loop l = .firing t value keys) :
    Reachable (step json spec) s { s with
      loop := Function.update s.loop l
        (if (fireAll json s.kv keys).aborted then .aborted else .fired t value)
      log := s.log ++ (fireAll json s.kv keys).calls.map (callEvent s.kv l t) } := by
  induction keys generalizing s with
  | nil =>
    refine Reach.one (a := .fire l) trivial ?_
    simp [step, h, fireAll]
  | cons key keys ih =>
    cases hp : json.parse (bucketGet s.kv key).text with
    | error =>
      refine Reach.one (a := .fire l) trivial ?_
      simp [step, h, hp, fireAll]
    | other =>
      refine Reach.one (a := .fire l) trivial ?_
      simp [step, h, hp, fireAll]
    | timer b =>
      have hcall : step json spec s (.fire l) = some { s with
          loop := Function.update s.loop l (.inCallback t value keys)
          log := s.log ++ [callEvent s.kv l t (key, b)] } := by
        simp [step, h, hp, callEvent]
      have hleave : step json spec { s with
          loop := Function.update s.loop l (.inCallback t value keys)
          log := s.log ++ [callEvent s.kv l t (key, b)] } (.leave l) = some { s with
            loop := Function.update s.loop l (.firing t value keys)
            log := s.log ++ [callEvent s.kv l t (key, b)] } := by
        simp [step]
      have hrest := ih (s := { s with
        loop := Function.update s.loop l (.firing t value keys)
        log := s.log ++ [callEvent s.kv l t (key, b)] }) (by simp)
      have hrun := ((Reach.one trivial hcall).trans (Reach.one trivial hleave)).trans hrest
      simpa [fireAll, hp] using hrun

def deleteEvents (l : ℓ) : Store Text (Doc ρ) → List Text → List (Event ρ ℓ)
  | _, [] => []
  | kv, key :: keys =>
      .deleted l key (bucketGet kv key).writers :: deleteEvents l (delete kv key) keys

lemma purge_reach (h : s.loop l = .purging keys) :
    Reachable (step json spec) s { s with
      kv := keys.foldl delete s.kv
      loop := Function.update s.loop l .select
      log := s.log ++ deleteEvents l s.kv keys } := by
  induction keys generalizing s with
  | nil =>
    refine Reach.one (a := .deleteKey l) trivial ?_
    simp [step, h, deleteEvents]
  | cons key keys ih =>
    have hdelete : step json spec s (.deleteKey l) = some { s with
        kv := delete s.kv key
        loop := Function.update s.loop l (.purging keys)
        log := s.log ++ [.deleted l key (bucketGet s.kv key).writers] } := by
      simp [step, h]
    have hrest := ih (s := { s with
      kv := delete s.kv key
      loop := Function.update s.loop l (.purging keys)
      log := s.log ++ [.deleted l key (bucketGet s.kv key).writers] }) (by simp)
    have hrun := (Reach.one trivial hdelete).trans hrest
    simpa [deleteEvents] using hrun

lemma fired_reach (h : s.loop l = .fired t value) :
    Reachable (step json spec) s { s with
      kv := (value.text.splitOn ';').foldl delete (delete s.kv (iso8601 t))
      loop := Function.update s.loop l .select
      log := s.log ++ deleteEvents l s.kv (iso8601 t :: value.text.splitOn ';') } := by
  have hdelete : step json spec s (.deleteMarker l) = some { s with
      kv := delete s.kv (iso8601 t)
      loop := Function.update s.loop l (.purging (value.text.splitOn ';'))
      log := s.log ++ [.deleted l (iso8601 t) (bucketGet s.kv (iso8601 t)).writers] } := by
    simp [step, h]
  have hpurging : (Function.update s.loop l (.purging (value.text.splitOn ';'))) l =
      .purging (value.text.splitOn ';') := Function.update_self ..
  have hrun := (Reach.one trivial hdelete).trans (purge_reach hpurging)
  simpa [deleteEvents] using hrun

/-- A tick is a run of the timer model: it makes these calls and leaves this bucket. -/
theorem tick_reach (h : s.loop l = .select) (now : ℕ) : ∃ u, Reachable (step json spec) s u ∧
    u.kv = (tick json s.kv (newISO8601 now)).2 ∧
    ∃ deletions, u.log = s.log ++ .polled l (newISO8601 now) ::
      ((tick json s.kv (newISO8601 now)).1.calls.map (callEvent s.kv l (newISO8601 now)) ++
        deletions) := by
  generalize ht : newISO8601 now = t
  set value := bucketGet s.kv (iso8601 t) with hvalue
  have hpoll : step json spec s (.poll l now) = some { s with
      loop := Function.update s.loop l (.firing t value (splitKeys value.text))
      log := s.log ++ [.polled l t] } := by
    simp [step, h, ht, hvalue]
  have hfiring : (Function.update s.loop l (.firing t value (splitKeys value.text))) l =
      .firing t value (splitKeys value.text) := Function.update_self ..
  have hrun := (Reach.one trivial hpoll).trans (fireAll_reach hfiring)
  have hsend : sendTimerCallback json s.kv value.text =
      fireAll json s.kv (splitKeys value.text) := by
    rw [sendTimerCallback, MarkerCodec.split_eq_getlines, splitKeys]
  simp only [tick, ← hvalue, hsend]
  cases hab : (fireAll json s.kv (splitKeys value.text)).aborted with
  | true =>
    refine ⟨_, hrun, ?_, [], ?_⟩
    · simp
    · simp
  | false =>
    simp only [hab, Bool.false_eq_true, if_false] at hrun
    have hfired : (Function.update (Function.update s.loop l
        (.firing t value (splitKeys value.text))) l (.fired t value)) l = .fired t value :=
      Function.update_self ..
    refine ⟨_, hrun.trans (fired_reach hfired), ?_,
      deleteEvents l s.kv (iso8601 t :: value.text.splitOn ';'), ?_⟩
    · simp
    · simp

end Run

end Eventing.Timer
