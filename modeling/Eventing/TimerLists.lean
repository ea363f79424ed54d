import Eventing.TimerMarker

/-!
# The lists are lists of document ids

When no document id holds a delimiter or is spelled like the key of a list, the
text under the key of a second is the list of the ids that were appended to it,
what a tick reads is such a list, and a tick deletes no list but its own.
-/
namespace Eventing.Timer
open KvStore Timestamp Delimited

variable {App ρ ℓ : Type*}

structure PlainId (d : Text) : Prop where
  noDelimiter : ';' ∉ d
  notKey : ∀ t, d ≠ iso8601 t

theorem PlainId.of_notMem {d : Text} (h : ';' ∉ d) (hT : 'T' ∉ d) : PlainId d :=
  ⟨h, fun t he => hT (he ▸ dateMark_mem_iso8601 t)⟩

def Doc.Lists (spec : ρ → Registration App) (doc : Doc ρ) : Prop :=
  doc.text = terminated ';' (doc.writers.map fun r => (spec r).docId)

/-- What a tick has read is a list, the ids that it is still to fire end it, and
the keys that it deletes besides are ids or the empty rest of the list. -/
def LoopPc.Lists (spec : ρ → Registration App) : LoopPc ρ → Prop
  | .firing _ value keys | .inCallback _ value keys =>
      value.Lists spec ∧ keys <:+ value.writers.map fun r => (spec r).docId
  | .fired _ value => value.Lists spec
  | .purging keys => ∀ key ∈ keys, key = [] ∨ ∃ r, key = (spec r).docId
  | .select | .aborted | .closed => True

structure Listed (spec : ρ → Registration App) (s : State ρ ℓ) : Prop where
  marker : ∀ t doc, get s.kv (iso8601 t) = some doc → doc.Lists spec
  loop : ∀ l, (s.loop l).Lists spec

/-- The registrations in the list of a second. -/
def State.marker (s : State ρ ℓ) (T : Second) : List ρ := (bucketGet s.kv (iso8601 T)).writers

variable {json : Json} {spec : ρ → Registration App} {s t : State ρ ℓ} {a : Action ρ ℓ}

lemma Doc.lists_blank : (.blank : Doc ρ).Lists spec := rfl

lemma Doc.Lists.append {doc : Doc ρ} (h : doc.Lists spec) (r : ρ) :
    (doc ++ ⟨(spec r).docId ++ [';'], [r]⟩).Lists spec := by
  unfold Doc.Lists at *
  simp [h, terminated]

lemma Doc.Lists.nul_notMem {doc : Doc ρ} (h : doc.Lists spec) : '\x00' ∉ doc.text := by
  rw [h]
  apply notMem_terminated (by decide)
  intro item hi
  obtain ⟨r, -, rfl⟩ := List.mem_map.mp hi
  exact nul_notMem_cString _

lemma Doc.Lists.splitKeys (hp : ∀ r, PlainId (spec r).docId) {doc : Doc ρ}
    (h : doc.Lists spec) :
    Timer.splitKeys doc.text = doc.writers.map fun r => (spec r).docId := by
  rw [Timer.splitKeys, cString_of_notMem h.nul_notMem, h]
  apply getlines_terminated
  intro item hi
  obtain ⟨r, -, rfl⟩ := List.mem_map.mp hi
  exact (hp r).noDelimiter

lemma Doc.Lists.splitOn (hp : ∀ r, PlainId (spec r).docId) {doc : Doc ρ}
    (h : doc.Lists spec) :
    doc.text.splitOn ';' = (doc.writers.map fun r => (spec r).docId) ++ [[]] := by
  rw [h]
  apply splitOn_terminated
  intro item hi
  obtain ⟨r, -, rfl⟩ := List.mem_map.mp hi
  exact (hp r).noDelimiter

lemma Listed.bucketGet (h : Listed spec s) (u : Second) :
    (bucketGet s.kv (iso8601 u)).Lists spec := by
  unfold Timer.bucketGet getOr
  cases hm : get s.kv (iso8601 u) with
  | none => exact Doc.lists_blank
  | some doc => exact h.marker u doc hm

lemma Listed.pc (h : Listed spec s) {l : ℓ} {pc : LoopPc ρ} (hpc : s.loop l = pc) :
    pc.Lists spec := hpc ▸ h.loop l

lemma iso8601_ne_nil (t : Second) : iso8601 t ≠ [] := by
  intro he
  simpa [he] using dateMark_mem_iso8601 t

theorem Listed.purge_ne (h : Listed spec s) (hp : ∀ r, PlainId (spec r).docId) {l : ℓ}
    {key : Text} {keys : List Text} (hpc : s.loop l = .purging (key :: keys)) (u : Second) :
    iso8601 u ≠ key := by
  rcases h.pc hpc key (by simp) with rfl | ⟨r, rfl⟩
  · exact iso8601_ne_nil u
  · exact fun he => (hp r).notKey u he.symm

lemma listed_initial {kv₀ : Store Text (Doc ρ)} (h : ∀ t, get kv₀ (iso8601 t) = none) :
    Listed spec (State.initial kv₀ : State ρ ℓ) :=
  ⟨fun t doc hd => by simp [State.initial, h] at hd, fun _ => trivial⟩

lemma Listed.advance (h : Listed spec s) {reg : ρ → RegPc} {log : List (Event ρ ℓ)}
    {kv : Store Text (Doc ρ)}
    (hkv : ∀ u doc, get kv (iso8601 u) = some doc → doc.Lists spec) :
    Listed spec { s with kv := kv, reg := reg, log := log } :=
  ⟨hkv, h.loop⟩

lemma Listed.turn [DecidableEq ℓ] (h : Listed spec s) {l : ℓ} {pc : LoopPc ρ} {log : List (Event ρ ℓ)}
    {kv : Store Text (Doc ρ)}
    (hkv : ∀ u doc, get kv (iso8601 u) = some doc → get s.kv (iso8601 u) = some doc)
    (hpc : pc.Lists spec) :
    Listed spec { s with kv := kv, loop := Function.update s.loop l pc, log := log } := by
  refine ⟨fun u doc hd => h.marker u doc (hkv u doc hd), fun l' => ?_⟩
  by_cases he : l' = l
  · subst he
    simpa using hpc
  · simpa [he] using h.loop l'

lemma listed_step [DecidableEq ρ] [DecidableEq ℓ] (hp : ∀ r, PlainId (spec r).docId) (h : Listed spec s)
    (hs : Stepped json spec s a t) : Listed spec t := by
  cases hs with
  | skip _ _ => exact h.advance h.marker
  | setBlob _ _ _ =>
    refine h.advance fun u doc hd => h.marker u doc ?_
    rwa [get_set_of_ne (Ne.symm ((hp _).notKey u))] at hd
  | found _ _ => exact h.advance h.marker
  | missing _ => exact h.advance h.marker
  | @addMarker r v _ =>
    refine h.advance fun u doc hd => ?_
    by_cases hu : iso8601 u = iso8601 v
    · rw [hu, get_add_self, Option.some.injEq] at hd
      rw [← hd]
      exact h.bucketGet v
    · exact h.marker u doc (by rwa [get_add_of_ne hu] at hd)
  | @appendId r v _ =>
    refine h.advance fun u doc hd => ?_
    by_cases hu : iso8601 u = iso8601 v
    · rw [hu, get_append_self] at hd
      obtain ⟨old, hold, rfl⟩ := Option.map_eq_some_iff.mp hd
      exact (h.marker v old hold).append r
    · exact h.marker u doc (by rwa [get_append_of_ne hu] at hd)
  | @poll l now u value _ _ hf =>
    have hv := h.bucketGet u
    rw [← hf] at hv
    have hkeys := hv.splitKeys hp
    exact h.turn (fun _ _ hd => hd) ⟨hv, hkeys ▸ List.suffix_rfl⟩
  | fireEnd hpc =>
    have hl := h.pc hpc
    exact h.turn (fun _ _ hd => hd) hl.1
  | fireError hpc _ =>
    have hl := h.pc hpc
    exact h.turn (fun _ _ hd => hd) hl.1
  | fireAbort _ _ => exact h.turn (fun _ _ hd => hd) trivial
  | fireCall hpc _ =>
    have hl := h.pc hpc
    exact h.turn (fun _ _ hd => hd) ⟨hl.1, (List.suffix_cons _ _).trans hl.2⟩
  | leave hpc =>
    have hl := h.pc hpc
    exact h.turn (fun _ _ hd => hd) hl
  | deleteMarker hpc =>
    have hl := h.pc hpc
    refine h.turn (fun _ _ hd => (get_delete_eq_some.mp hd).2) ?_
    intro key hk
    rw [Doc.Lists.splitOn hp hl, List.mem_append, List.mem_map, List.mem_singleton] at hk
    rcases hk with ⟨r, -, rfl⟩ | rfl
    · exact .inr ⟨r, rfl⟩
    · exact .inl rfl
  | deleteKey hpc =>
    have hl := h.pc hpc
    exact h.turn (fun _ _ hd => (get_delete_eq_some.mp hd).2)
      fun key hk => hl key (List.mem_cons_of_mem _ hk)
  | purged _ => exact h.turn (fun _ _ hd => hd) trivial
  | close _ => exact h.turn (fun _ _ hd => hd) trivial

/-- What a step does to the document under an id: a registration of the id stores
its blob, and a tick deletes it. -/
theorem doc_step [DecidableEq ρ] [DecidableEq ℓ] {d : Text} (hd : ∀ u, d ≠ iso8601 u)
    (hs : Stepped json spec s a t) :
    bucketGet t.kv d = bucketGet s.kv d ∨
    (∃ r now, a = .setBlob r now ∧ atoi (spec r).startTs ≠ 0 ∧ (spec r).docId = d ∧
      bucketGet t.kv d = ⟨json.write ((spec r).blob (expiry now (spec r).startTs)), [r]⟩) ∨
    ∃ l, a = .deleteKey l ∧ (s.loop l).toPurge.head? = some d ∧ bucketGet t.kv d = .blank := by
  cases hs with
  | @setBlob r now u _ hz hu =>
    by_cases he : d = (spec r).docId
    · exact .inr (.inl ⟨r, now, rfl, hz, he.symm, by simp [he, hu]⟩)
    · exact .inl (bucketGet_set_of_ne he)
  | addMarker _ => exact .inl bucketGet_add_blank
  | appendId _ => exact .inl (bucketGet_append_of_ne (hd _))
  | deleteMarker _ => exact .inl (bucketGet_delete_of_ne (hd _))
  | @deleteKey l key keys hpc =>
    by_cases he : d = key
    · exact .inr (.inr ⟨l, rfl, by simp [hpc, LoopPc.toPurge, he], by simp [he]⟩)
    · exact .inl (bucketGet_delete_of_ne he)
  | _ => exact .inl rfl

theorem toPurge_step [DecidableEq ρ] [DecidableEq ℓ] (hs : Stepped json spec s a t) (l : ℓ) :
    (t.loop l).toPurge ⊆ (s.loop l).toPurge ∨
    ∃ now, a = .poll l now ∧
      (t.loop l).toPurge = (bucketGet s.kv (iso8601 (newISO8601 now))).text.splitOn ';' := by
  have keep : ∀ {l' : ℓ} {pc : LoopPc ρ}, pc.toPurge ⊆ (s.loop l').toPurge →
      (Function.update s.loop l' pc l).toPurge ⊆ (s.loop l).toPurge := by
    intro l' pc hpc
    by_cases he : l = l'
    · subst he
      simpa using hpc
    · simp [he]
  cases hs with
  | skip _ _ | setBlob _ _ _ | found _ _ | missing _ | addMarker _ | appendId _ =>
    exact .inl (List.Subset.refl _)
  | @poll l' now u value hpc hu hv =>
    by_cases he : l = l'
    · subst he
      refine .inr ⟨now, rfl, ?_⟩
      simp [LoopPc.toPurge, hv, hu]
    · exact .inl (by simp [he])
  | fireEnd hpc | fireError hpc _ | fireAbort hpc _ | fireCall hpc _ | leave hpc
  | deleteMarker hpc | deleteKey hpc | purged hpc | close hpc =>
    exact .inl (keep (by simp [hpc, LoopPc.toPurge]))

lemma polling_step [DecidableEq ρ] [DecidableEq ℓ] (hs : Stepped json spec s a t) {l : ℓ}
    {T : Second} (h : (t.loop l).polling = some T) :
    (s.loop l).polling = some T ∨ ∃ now, a = .poll l now ∧ T = newISO8601 now := by
  have keep : ∀ {l' : ℓ} {pc : LoopPc ρ},
      (pc.polling = some T → (s.loop l').polling = some T) →
      (Function.update s.loop l' pc l).polling = some T → (s.loop l).polling = some T := by
    intro l' pc hpc hT
    by_cases he : l = l'
    · subst he
      exact hpc (by simpa using hT)
    · simpa [he] using hT
  cases hs with
  | skip _ _ | setBlob _ _ _ | found _ _ | missing _ | addMarker _ | appendId _ => exact .inl h
  | @poll l' now u value hpc hu hv =>
    by_cases he : l = l'
    · subst he
      have hT : u = T := by simpa [LoopPc.polling] using h
      exact .inr ⟨now, rfl, hT ▸ hu⟩
    · exact .inl (by simpa [he] using h)
  | fireEnd hpc | fireError hpc _ | fireAbort hpc _ | fireCall hpc _ | leave hpc
  | deleteMarker hpc | deleteKey hpc | purged hpc | close hpc =>
    exact .inl (keep (by simp [hpc, LoopPc.polling]) h)

lemma appendedTo_step [DecidableEq ρ] [DecidableEq ℓ] (hs : Stepped json spec s a t)
    {T : Second} {r : ρ} (h : r ∈ appendedTo T s.log) : r ∈ appendedTo T t.log := by
  cases hs <;> simp [h]

theorem marker_step [DecidableEq ρ] [DecidableEq ℓ] (hp : ∀ r, PlainId (spec r).docId)
    (h : Listed spec s) (hs : Stepped json spec s a t) {T : Second} {r : ρ}
    (hr : r ∈ t.marker T) :
    r ∈ s.marker T ∨ (a = .appendId r ∧ s.reg r = .appendId T ∧ r ∈ appendedTo T t.log) := by
  unfold State.marker at hr ⊢
  cases hs with
  | setBlob _ _ _ =>
    rw [bucketGet_set_of_ne ((hp _).notKey T).symm] at hr
    exact .inl hr
  | addMarker _ =>
    rw [bucketGet_add_blank] at hr
    exact .inl hr
  | @appendId r' u hpc =>
    by_cases hu : iso8601 T = iso8601 u
    · obtain rfl := iso8601_injective hu
      cases hm : get s.kv (iso8601 T) with
      | none => simp [bucketGet, getOr, hm, Doc.blank] at hr
      | some doc =>
        simp only [bucketGet, getOr, hm, get_append_self, Option.map_some, Option.getD_some,
          Doc.append_writers, List.mem_append, List.mem_singleton] at hr ⊢
        rcases hr with hr | rfl
        · exact .inl hr
        · exact .inr ⟨rfl, hpc, by simp⟩
    · rw [bucketGet_append_of_ne hu] at hr
      exact .inl hr
  | @deleteMarker l u value hpc =>
    by_cases hu : iso8601 T = iso8601 u
    · rw [hu, bucketGet_delete_self] at hr
      simp [Doc.blank] at hr
    · rw [bucketGet_delete_of_ne hu] at hr
      exact .inl hr
  | deleteKey hpc =>
    rw [bucketGet_delete_of_ne (h.purge_ne hp hpc T)] at hr
    exact .inl hr
  | _ => exact .inl hr

end Eventing.Timer
