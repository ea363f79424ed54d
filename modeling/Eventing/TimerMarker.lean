import Eventing.Timer

/-!
# Concurrent registrations for one second

The list of a second is created and extended by separate operations of
registrations that do not see each other, and no error of these operations is
looked at. As long as the list is not deleted, and no document id is spelled like its
key, every id arrives in it.
-/
namespace Eventing.Timer
open KvStore Timestamp Delimited Transition

variable {App ρ ℓ : Type*}

/-- The registrations whose append to the list of a second was carried out, in order. -/
def appendedTo (t : Second) (log : List (Event ρ ℓ)) : List ρ :=
  log.filterMap fun
    | .appended r u _ => if u = t then some r else none
    | _ => none

lemma mem_appendedTo {t : Second} {log : List (Event ρ ℓ)} {r : ρ} :
    r ∈ appendedTo t log ↔ ∃ success, .appended r t success ∈ log := by
  simp only [appendedTo, List.mem_filterMap]
  constructor
  · rintro ⟨e, he, hr⟩
    cases e <;> simp at hr
    obtain ⟨rfl, rfl⟩ := hr
    exact ⟨_, he⟩
  · rintro ⟨success, he⟩
    exact ⟨_, he, by simp⟩

def appendSeconds [DecidableEq ρ] (r : ρ) (log : List (Event ρ ℓ)) : List Second :=
  log.filterMap fun
    | .appended r' t _ => if r' = r then some t else none
    | _ => none

lemma mem_appendSeconds [DecidableEq ρ] {t : Second} {log : List (Event ρ ℓ)} {r : ρ} :
    t ∈ appendSeconds r log ↔ r ∈ appendedTo t log := by
  rw [mem_appendedTo, appendSeconds, List.mem_filterMap]
  constructor
  · rintro ⟨e, he, ht⟩
    cases e <;> simp at ht
    obtain ⟨rfl, rfl⟩ := ht
    exact ⟨_, he⟩
  · rintro ⟨success, he⟩
    exact ⟨_, he, by simp⟩

section Append
variable {t u : Second} {log : List (Event ρ ℓ)} {r : ρ} {success : Bool} {l : ℓ} {key : Text}
  {b : Blob} {writers : List ρ}

@[simp] lemma appendedTo_appended : appendedTo t (log ++ [.appended r u success]) =
    appendedTo t log ++ if u = t then [r] else [] := by
  by_cases h : u = t <;> simp [appendedTo, h]

@[simp] lemma appendedTo_polled : appendedTo t (log ++ [.polled l u]) = appendedTo t log := by
  simp [appendedTo]

@[simp] lemma appendedTo_called :
    appendedTo t (log ++ [.called l u key b writers]) = appendedTo t log := by
  simp [appendedTo]

@[simp] lemma appendedTo_deleted :
    appendedTo t (log ++ [.deleted l key writers]) = appendedTo t log := by
  simp [appendedTo]

end Append

/-- No tick of the second, and no other deletion of its list. -/
def Undeleted (T : Second) (s : State ρ ℓ) : Action ρ ℓ → Prop
  | .deleteMarker l => (s.loop l).polling ≠ some T
  | .deleteKey l => (s.loop l).toPurge.head? ≠ some (iso8601 T)
  | _ => True

instance (T : Second) (s : State ρ ℓ) : DecidablePred (Undeleted T s)
  | .deleteMarker l => inferInstanceAs (Decidable ((s.loop l).polling ≠ some T))
  | .deleteKey l => inferInstanceAs (Decidable ((s.loop l).toPurge.head? ≠ some (iso8601 T)))
  | .setBlob _ _ | .getMarker _ _ | .addMarker _ | .appendId _ | .poll _ _ | .fire _ | .leave _
  | .close _ => isTrue trivial

/-- The document id of a registration is not spelled like the key of the list. -/
def IdNotKey (spec : ρ → Registration App) (T : Second) : Action ρ ℓ → Prop
  | .setBlob r _ => (spec r).docId ≠ iso8601 T
  | _ => True

instance (spec : ρ → Registration App) (T : Second) :
    DecidablePred (IdNotKey spec T : Action ρ ℓ → Prop)
  | .setBlob r _ => inferInstanceAs (Decidable ((spec r).docId ≠ iso8601 T))
  | .getMarker _ _ | .addMarker _ | .appendId _ | .poll _ _ | .fire _ | .leave _
  | .deleteMarker _ | .deleteKey _ | .close _ => isTrue trivial

/-- Every append succeeded, every registration that has returned made one, and the
list is the initial one followed by the ids in the order of the appends. -/
structure NothingLost (spec : ρ → Registration App) (T : Second) (kv₀ : Store Text (Doc ρ))
    (s : State ρ ℓ) : Prop where
  succeeded : ∀ r success, .appended r T success ∈ s.log → success = true
  once : (appendedTo T s.log).Nodup
  returned : ∀ r, s.reg r = .returned → atoi (spec r).startTs ≠ 0 →
    ∃ t, r ∈ appendedTo t s.log
  list : appendedTo T s.log ≠ [] → (get s.kv (iso8601 T)).map Doc.text =
    some ((bucketGet kv₀ (iso8601 T)).text ++
      terminated ';' ((appendedTo T s.log).map fun r => (spec r).docId))

section Runs
variable {json : Json} {spec : ρ → Registration App} {T : Second} {kv₀ : Store Text (Doc ρ)}
  {s t : State ρ ℓ} {a : Action ρ ℓ}

/-- A registration appends once, as its last operation. -/
structure Booked (spec : ρ → Registration App) (s : State ρ ℓ) : Prop where
  once : ∀ t, (appendedTo t s.log).Nodup
  last : ∀ t, ∀ r ∈ appendedTo t s.log, s.reg r = .returned
  returned : ∀ r, s.reg r = .returned → atoi (spec r).startTs ≠ 0 → ∃ t, r ∈ appendedTo t s.log

lemma booked_initial : Booked spec (State.initial kv₀ : State ρ ℓ) := by
  constructor <;> simp [State.initial, appendedTo]

theorem Booked.advance [DecidableEq ρ] (h : Booked spec s) {r : ρ} {pc : RegPc} {kv : Store Text (Doc ρ)}
    (hr : s.reg r ≠ .returned) (hpc : pc = .returned → atoi (spec r).startTs = 0) :
    Booked spec { s with kv := kv, reg := Function.update s.reg r pc } := by
  refine ⟨h.once, ?_, ?_⟩
  · intro t r' hr'
    have hne : r' ≠ r := fun he => hr (he ▸ h.last t r' hr')
    simpa [hne] using h.last t r' hr'
  · intro r' hret hz
    by_cases he : r' = r
    · subst he
      exact absurd (hpc (by simpa using hret)) hz
    · exact h.returned r' (by simpa [he] using hret) hz

theorem Booked.loop (h : Booked spec s) {kv : Store Text (Doc ρ)} {loop : ℓ → LoopPc ρ}
    {log : List (Event ρ ℓ)} (hlog : ∀ t, appendedTo t log = appendedTo t s.log) :
    Booked spec { s with kv := kv, loop := loop, log := log } :=
  ⟨fun t => by simpa [hlog t] using h.once t, fun t => by simpa [hlog t] using h.last t,
    fun r hr hz => by simpa [hlog] using h.returned r hr hz⟩

variable [DecidableEq ρ] [DecidableEq ℓ]

lemma booked_step (h : Booked spec s) (hs : Stepped json spec s a t) : Booked spec t := by
  cases hs with
  | skip hpc hz => exact h.advance (by simp [hpc]) fun _ => hz
  | setBlob hpc _ _ => exact h.advance (by simp [hpc]) (by simp)
  | found hpc _ => exact h.advance (by simp [hpc]) (by simp)
  | missing hpc => exact h.advance (by simp [hpc]) (by simp)
  | addMarker hpc => exact h.advance (by simp [hpc]) (by simp)
  | appendId hpc =>
    rename_i r u
    have hnew : ∀ t, r ∉ appendedTo t s.log := fun t hr => by simp [h.last t r hr] at hpc
    refine ⟨?_, ?_, ?_⟩
    · intro t
      by_cases hu : u = t <;> simp [hu, List.nodup_append, h.once t]
      exact fun r' hr' he => hnew t (he ▸ hr')
    · intro t r' hr'
      by_cases he : r' = r
      · simp [he]
      · have hold : r' ∈ appendedTo t s.log := by
          by_cases hu : u = t <;> simpa [hu, he] using hr'
        simpa [he] using h.last t r' hold
    · intro r' hret hz
      by_cases he : r' = r
      · exact ⟨u, by simp [he]⟩
      · obtain ⟨t, ht⟩ := h.returned r' (by simpa [he] using hret) hz
        exact ⟨t, by simp [ht]⟩
  | poll _ _ _ => exact h.loop (by simp)
  | fireEnd _ => exact h.loop fun _ => rfl
  | fireError _ _ => exact h.loop fun _ => rfl
  | fireAbort _ _ => exact h.loop fun _ => rfl
  | fireCall _ _ => exact h.loop (by simp)
  | leave _ => exact h.loop fun _ => rfl
  | deleteMarker _ => exact h.loop (by simp)
  | deleteKey _ => exact h.loop (by simp)
  | purged _ => exact h.loop fun _ => rfl
  | close _ => exact h.loop fun _ => rfl

/-- The list of `T` as the appends so far have made it; it is there for every
registration that is about to append. -/
structure Kept (spec : ρ → Registration App) (T : Second) (kv₀ : Store Text (Doc ρ))
    (s : State ρ ℓ) : Prop where
  list : (bucketGet s.kv (iso8601 T)).text = (bucketGet kv₀ (iso8601 T)).text ++
    terminated ';' ((appendedTo T s.log).map fun r => (spec r).docId)
  writers : (bucketGet s.kv (iso8601 T)).writers =
    (bucketGet kv₀ (iso8601 T)).writers ++ appendedTo T s.log
  marked : ∀ r, s.reg r = .appendId T → (get s.kv (iso8601 T)).isSome
  present : appendedTo T s.log ≠ [] → (get s.kv (iso8601 T)).isSome
  succeeded : ∀ r success, .appended r T success ∈ s.log → success = true

omit [DecidableEq ρ] [DecidableEq ℓ] in
lemma kept_initial : Kept spec T kv₀ (State.initial kv₀ : State ρ ℓ) := by
  constructor <;> simp [State.initial, appendedTo]

omit [DecidableEq ρ] [DecidableEq ℓ] in
theorem Kept.keep (h : Kept spec T kv₀ s) (hkv : get t.kv (iso8601 T) = get s.kv (iso8601 T))
    (hreg : ∀ r, t.reg r = .appendId T → s.reg r = .appendId T ∨ (get s.kv (iso8601 T)).isSome)
    (happ : appendedTo T t.log = appendedTo T s.log)
    (hlog : ∀ r success, .appended r T success ∈ t.log → .appended r T success ∈ s.log) :
    Kept spec T kv₀ t := by
  refine ⟨?_, ?_, ?_, ?_, fun r b hr => h.succeeded r b (hlog r b hr)⟩
  · simpa [bucketGet, getOr, hkv, happ] using h.list
  · simpa [bucketGet, getOr, hkv, happ] using h.writers
  · intro r hr
    rw [hkv]
    exact (hreg r hr).elim (h.marked r) id
  · simpa [hkv, happ] using h.present

omit [DecidableEq ℓ] in
theorem appendId_of_update {r r' : ρ} {pc : RegPc} (hpc : pc ≠ .appendId T)
    (h : Function.update s.reg r pc r' = .appendId T) : s.reg r' = .appendId T := by
  by_cases he : r' = r
  · subst he
    exact absurd (by simpa using h) hpc
  · simpa [he] using h

lemma kept_step (h : Kept spec T kv₀ s) (hdel : Undeleted T s a) (hid : IdNotKey spec T a)
    (hs : Stepped json spec s a t) : Kept spec T kv₀ t := by
  have same : ∀ r, s.reg r = .appendId T →
      s.reg r = .appendId T ∨ (get s.kv (iso8601 T)).isSome := fun _ => .inl
  have moved : ∀ {r : ρ} {pc : RegPc}, pc ≠ .appendId T → ∀ r',
      Function.update s.reg r pc r' = .appendId T →
        s.reg r' = .appendId T ∨ (get s.kv (iso8601 T)).isSome :=
    fun hpc _ hr => .inl (appendId_of_update hpc hr)
  cases hs with
  | skip hpc hz => exact h.keep rfl (moved (by simp)) rfl (by simp)
  | setBlob hpc _ _ => exact h.keep (get_set_of_ne (Ne.symm hid)) (moved (by simp)) rfl (by simp)
  | found hpc hm =>
    rename_i r answered u doc
    by_cases hu : u = T
    · subst hu
      exact h.keep rfl (fun _ _ => .inr (by simp [hm])) rfl (by simp)
    · exact h.keep rfl (moved (by simp [hu])) rfl (by simp)
  | missing hpc => exact h.keep rfl (moved (by simp)) rfl (by simp)
  | addMarker hpc =>
    rename_i r u
    by_cases hu : u = T
    · subst hu
      refine ⟨?_, ?_, ?_, ?_, h.succeeded⟩
      · simpa using h.list
      · simpa using h.writers
      · simp
      · simp
    · have hne : iso8601 T ≠ iso8601 u := fun he => hu (iso8601_injective he).symm
      exact h.keep (get_add_of_ne hne) (moved (by simp [hu])) rfl (by simp)
  | appendId hpc =>
    rename_i r u
    by_cases hu : u = T
    · subst hu
      obtain ⟨doc, hdoc⟩ := Option.isSome_iff_exists.mp (h.marked r hpc)
      have hlist := h.list
      have hwriters := h.writers
      rw [bucketGet_of_get hdoc] at hlist hwriters
      refine ⟨?_, ?_, ?_, ?_, ?_⟩
      · simp [bucketGet, getOr, hdoc, hlist, terminated]
      · simp [bucketGet, getOr, hdoc, hwriters]
      · simp [hdoc]
      · simp [hdoc]
      · intro r' b hr'
        simp only [hdoc, Option.isSome_some, List.mem_append, List.mem_singleton] at hr'
        rcases hr' with hr' | hr'
        · exact h.succeeded r' b hr'
        · simp_all
    · have hne : iso8601 T ≠ iso8601 u := fun he => hu (iso8601_injective he).symm
      exact h.keep (get_append_of_ne hne) (moved (by simp)) (by simp [hu]) (by simp [Ne.symm hu])
  | poll _ _ _ => exact h.keep rfl same (by simp) (by simp)
  | fireEnd _ => exact h.keep rfl same rfl (by simp)
  | fireError _ _ => exact h.keep rfl same rfl (by simp)
  | fireAbort _ _ => exact h.keep rfl same rfl (by simp)
  | fireCall _ _ => exact h.keep rfl same (by simp) (by simp)
  | leave _ => exact h.keep rfl same rfl (by simp)
  | deleteMarker hpc =>
    rename_i u value
    have hne : u ≠ T := by simpa [Undeleted, hpc, LoopPc.polling] using hdel
    have hkey : iso8601 T ≠ iso8601 u := fun he => hne (iso8601_injective he).symm
    exact h.keep (get_delete_of_ne hkey) same (by simp) (by simp)
  | deleteKey hpc =>
    rename_i key keys
    have hne : key ≠ iso8601 T := by simpa [Undeleted, hpc, LoopPc.toPurge] using hdel
    exact h.keep (get_delete_of_ne (Ne.symm hne)) same (by simp) (by simp)
  | purged _ => exact h.keep rfl same rfl (by simp)
  | close _ => exact h.keep rfl same rfl (by simp)

/-- Any number of registrations, from any workers, over any stored documents. -/
theorem nothingLost_of_idNotKey (json : Json) (spec : ρ → Registration App) (T : Second)
    (kv₀ : Store Text (Doc ρ)) {s : State ρ ℓ}
    (h : Reach (step json spec) (fun s a => Undeleted T s a ∧ IdNotKey spec T a)
      (.initial kv₀) s) : NothingLost spec T kv₀ s := by
  have hinv : Booked spec s ∧ Kept spec T kv₀ s := by
    refine h.invariant (I := fun s => Booked spec s ∧ Kept spec T kv₀ s)
      ⟨booked_initial, kept_initial⟩ ?_
    intro s a t hi hok hs
    have hst := step_stepped hs
    exact ⟨booked_step hi.1 hst, kept_step hi.2 hok.1 hok.2 hst⟩
  obtain ⟨hb, hk⟩ := hinv
  refine ⟨hk.succeeded, hb.once T, hb.returned, fun hne => ?_⟩
  obtain ⟨doc, hdoc⟩ := Option.isSome_iff_exists.mp (hk.present hne)
  have hlist := hk.list
  rw [bucketGet_of_get hdoc] at hlist
  simp [hdoc, hlist]

end Runs

/-- Two workers add the list of the same second, each having missed it, and append
in between. -/
def twoRegistrations (r : Bool) : Registration Unit :=
  ⟨(), "onExpiry".toList, if r then "a".toList else "b".toList, "5".toList⟩

def sharedListRun : List (Action Bool Unit) :=
  [.setBlob true 0, .getMarker true true, .setBlob false 0, .getMarker false false,
    .addMarker true, .appendId true, .addMarker false, .appendId false]

theorem nothingLost_sharedListRun :
    ∃ s : State Bool Unit,
      exec (step compactJson twoRegistrations)
        (fun s a => Undeleted (expiry 0 "5".toList) s a ∧
          IdNotKey twoRegistrations (expiry 0 "5".toList) a) (.initial empty) sharedListRun =
        some s ∧ (appendedTo (expiry 0 "5".toList) s.log).length = 2 ∧
      NothingLost twoRegistrations (expiry 0 "5".toList) empty s := by
  obtain ⟨s, he, hr, hp⟩ := exec_of_any (step compactJson twoRegistrations)
    (fun s a => Undeleted (expiry 0 "5".toList) s a ∧
      IdNotKey twoRegistrations (expiry 0 "5".toList) a)
    (.initial empty : State Bool Unit) sharedListRun
    (fun s => (appendedTo (expiry 0 "5".toList) s.log).length = 2) (by decide)
  exact ⟨s, he, of_decide_eq_true hp, nothingLost_of_idNotKey _ _ _ _ hr⟩

/-- A document whose id is spelled like the second at which its timer is due. -/
def keyedRegistration (_ : Unit) : Registration Unit :=
  ⟨(), "onExpiry".toList, iso8601 (expiry 0 "5".toList), "5".toList⟩

/-- The blob takes the place of the list and the id is appended to it. -/
theorem not_nothingLost_keyedRegistration :
    ∃ s : State Unit Unit,
      exec (step compactJson keyedRegistration) (Undeleted (expiry 0 "5".toList))
        (.initial empty) [.setBlob () 0, .getMarker () true, .appendId ()] = some s ∧
      ¬ NothingLost keyedRegistration (expiry 0 "5".toList) empty s := by
  obtain ⟨s, he, -, hp⟩ := exec_of_any (step compactJson keyedRegistration)
    (Undeleted (expiry 0 "5".toList)) (.initial empty : State Unit Unit)
    [.setBlob () 0, .getMarker () true, .appendId ()]
    (fun s => appendedTo (expiry 0 "5".toList) s.log ≠ [] ∧
      (get s.kv (iso8601 (expiry 0 "5".toList))).map Doc.text ≠
        some ((bucketGet (empty : Store Text (Doc Unit)) (iso8601 (expiry 0 "5".toList))).text ++
          terminated ';' ((appendedTo (expiry 0 "5".toList) s.log).map fun r =>
            (keyedRegistration r).docId))) (by decide)
  have hne := of_decide_eq_true hp
  exact ⟨s, he, fun h => hne.2 (h.list hne.1)⟩

end Eventing.Timer
