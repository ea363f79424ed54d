import Eventing.Pipeline

/-!
# Which markers are in the metadata bucket

In every reachable state, whatever the handlers and instances do, the markers are
those of the handler-written mutations whose `BucketSet` has finished and which
no instance has skipped.
-/
namespace Eventing.Pipeline
open CasMarker KvStore Transition

variable {ι App : Type*}

/-- The message that `runWorker` is working on before it enters JavaScript. -/
def WorkerPc.current : WorkerPc App → Option (Entry App)
  | .received e | .missed e | .found e | .deletion e => some e
  | .undeployed | .select | .inHandler | .stopped => none

/-- Some goroutine is between the two stores of `BucketSet` for this CAS. -/
def State.Pending (s : State ι App) (c : Cas) : Prop :=
  ∃ i, (s.inst i).isolate.pending.map Prod.fst = some c

def State.Skipped (s : State ι App) (e : Entry App) : Prop := ∃ i, e ∈ (s.inst i).skipped

/-- `startBucket` and `runWorker` keep the order of the stream and lose nothing. -/
structure Flow (feed : List (Entry App)) (w : Instance App) : Prop where
  stream : w.taken ++ w.rch ++ w.held.toList = feed.take w.cursor
  bound : w.cursor ≤ feed.length
  current : ∀ e, w.pc.current = some e → w.taken.getLast? = some e
  mutation : ∀ e, w.pc = .missed e ∨ w.pc = .found e → e.event.opcode = .mutation
  deletion : ∀ e, w.pc = .deletion e → e.event.opcode = .deletion

lemma Flow.extend {feed : List (Entry App)} {w : Instance App} (h : Flow feed w)
    (more : List (Entry App)) : Flow (feed ++ more) w where
  stream := by rw [h.stream, List.take_append_of_le_length h.bound]
  bound := by
    have hb := h.bound
    simp only [List.length_append]
    omega
  current := h.current
  mutation := h.mutation
  deletion := h.deletion

lemma Flow.taken_mem {feed : List (Entry App)} {w : Instance App} (h : Flow feed w)
    {e : Entry App} (he : e ∈ w.taken) : e ∈ feed := by
  apply List.mem_of_mem_take (i := w.cursor)
  rw [← h.stream]
  simp [he]

lemma Flow.current_mem {feed : List (Entry App)} {w : Instance App} (h : Flow feed w)
    {e : Entry App} (he : w.pc.current = some e) : e ∈ feed :=
  h.taken_mem (List.mem_of_getLast? (h.current e he))

variable [DecidableEq ι] {host : Host} {app : ι → App} {s t : State ι App} {a : Action ι}

theorem forall_setInst {P : ι → Instance App → Prop} (h : ∀ j, P j (s.inst j)) {i : ι}
    {w : Instance App} (hw : P i w) : ∀ j, P j ((s.setInst i w).inst j) :=
  (Function.forall_update_iff s.inst P).mpr ⟨hw, fun j _ => h j⟩

lemma flow_setInst (h : ∀ j, Flow s.feed (s.inst j)) {i : ι} {w : Instance App}
    (hw : Flow s.feed w) : ∀ j, Flow (s.setInst i w).feed ((s.setInst i w).inst j) :=
  forall_setInst (P := fun _ w => Flow s.feed w) h hw

theorem Flow.setPc {feed : List (Entry App)} {w w' : Instance App} (h : Flow feed w)
    (stream : (w'.taken, w'.rch, w'.held, w'.cursor) = (w.taken, w.rch, w.held, w.cursor))
    (current : ∀ e, w'.pc.current = some e → w.pc.current = some e)
    (mutation : ∀ e, w'.pc = .missed e ∨ w'.pc = .found e → e.event.opcode = .mutation)
    (deletion : ∀ e, w'.pc = .deletion e → e.event.opcode = .deletion) : Flow feed w' := by
  simp only [Prod.mk.injEq] at stream
  obtain ⟨ht, hr, hh, hc⟩ := stream
  refine ⟨?_, ?_, ?_, mutation, deletion⟩
  · rw [ht, hr, hh, hc, h.stream]
  · rw [hc]
    exact h.bound
  · intro e he
    rw [ht]
    exact h.current e (current e he)

lemma flow_step (h : ∀ j, Flow s.feed (s.inst j)) (hs : Stepped host app s a t) :
    ∀ j, Flow t.feed (t.inst j) := by
  cases hs with
  | client _ => exact fun j => (h j).extend _
  | @pull i e hheld hnext =>
    have hlt : (s.inst i).cursor < s.feed.length := (List.getElem?_eq_some_iff.mp hnext).1
    apply flow_setInst h
    refine ⟨?_, hlt, (h i).current, (h i).mutation, (h i).deletion⟩
    have hst := (h i).stream
    simp only [hheld, Option.toList_none, List.append_nil] at hst
    simp only [Option.toList_some, List.take_add_one, hnext, ← hst]
  | @forward i e hheld _ =>
    apply flow_setInst h
    refine ⟨?_, (h i).bound, (h i).current, (h i).mutation, (h i).deletion⟩
    have hst := (h i).stream
    simp only [hheld, Option.toList_some] at hst
    simpa using hst
  | @receive i e rest hpc hrch =>
    apply flow_setInst h
    refine ⟨?_, (h i).bound, ?_, by simp, by simp⟩
    · have hst := (h i).stream
      simpa [hrch] using hst
    · intro e' he'
      simpa [WorkerPc.current] using he'
  | tick _ => exact h
  | @miss i e hpc hop _ =>
    refine flow_setInst h ((h i).setPc rfl ?_ (by simpa using hop) (by simp))
    simp [WorkerPc.current, hpc]
  | @hit i e v hpc hop _ =>
    refine flow_setInst h ((h i).setPc rfl ?_ (by simpa using hop) (by simp))
    simp [WorkerPc.current, hpc]
  | @deletion i e hpc hop =>
    refine flow_setInst h ((h i).setPc rfl ?_ (by simp) (by simpa using hop))
    simp [WorkerPc.current, hpc]
  | @unmark i e _ =>
    exact flow_setInst h ((h i).setPc rfl (by simp [WorkerPc.current]) (by simp) (by simp))
  | @store i hd key value cas _ _ =>
    have hw : Flow s.feed { s.inst i with isolate := .stored hd cas key } :=
      (h i).setPc rfl (fun _ => id) (h i).mutation (h i).deletion
    exact fun j => (flow_setInst h hw j).extend _
  | @mark i _ _ _ _ =>
    exact flow_setInst h ((h i).setPc rfl (fun _ => id) (h i).mutation (h i).deletion)
  | @enter i _ _ _ =>
    exact flow_setInst h ((h i).setPc rfl (fun _ => id) (h i).mutation (h i).deletion)
  | @leave i hd ok _ =>
    apply flow_setInst h
    cases hd.ofWorker with
    | false => exact (h i).setPc rfl (fun _ => id) (h i).mutation (h i).deletion
    | true => exact (h i).setPc rfl (by simp [WorkerPc.current]) (by simp) (by simp)
  | @deploy i _ | @ignore i _ _ _ | @sendUpdate i _ _ _ | @sendDelete i _ _ _ | @quit i _ =>
    exact flow_setInst h ((h i).setPc rfl (by simp [WorkerPc.current]) (by simp) (by simp))

omit [DecidableEq ι] in
lemma pending_congr (h : ∀ j, (t.inst j).isolate.pending = (s.inst j).isolate.pending)
    (c : Cas) : t.Pending c ↔ s.Pending c := by
  simp only [State.Pending, h]

omit [DecidableEq ι] in
lemma skipped_congr (h : ∀ j, (t.inst j).skipped = (s.inst j).skipped) (e : Entry App) :
    t.Skipped e ↔ s.Skipped e := by
  simp only [State.Skipped, h]

/-- The accounting of markers. -/
structure Markers (app : ι → App) (s : State ι App) : Prop where
  flow : ∀ i, Flow s.feed (s.inst i)
  unique : ∀ e ∈ s.feed, ∀ e' ∈ s.feed, e.event.opcode = .mutation →
    e'.event.opcode = .mutation → e.event.cas = e'.event.cas → e = e'
  written : ∀ e ∈ s.feed, e.writer ≠ none → e.event.opcode = .mutation
  found : ∀ i e, (s.inst i).pc = .found e → e.writer ≠ none ∧ ¬ s.Pending e.event.cas
  skipped : ∀ e, s.Skipped e → e ∈ s.feed ∧ e.writer ≠ none
  pending : ∀ i c key, (s.inst i).isolate.pending = some (c, key) →
    ∃ e ∈ s.feed, e.writer = some (app i) ∧ e.event.cas = c ∧ e.event.key = key ∧ ¬ s.Skipped e
  single : ∀ i j c, (s.inst i).isolate.pending.map Prod.fst = some c →
    (s.inst j).isolate.pending.map Prod.fst = some c → i = j
  stored : ∀ k v, get s.metadata k = some v ↔ ∃ e ∈ s.feed, e.writer ≠ none ∧
    casValue e.event.cas = k ∧ e.event.key = v ∧ ¬ s.Pending e.event.cas ∧ ¬ s.Skipped e

omit [DecidableEq ι] in
theorem Markers.local (h : Markers app s) (feed : t.feed = s.feed)
    (metadata : t.metadata = s.metadata)
    (pend : ∀ j, (t.inst j).isolate.pending = (s.inst j).isolate.pending)
    (skip : ∀ j, (t.inst j).skipped = (s.inst j).skipped)
    (flow : ∀ j, Flow t.feed (t.inst j))
    (found : ∀ i e, (t.inst i).pc = .found e →
      (s.inst i).pc = .found e ∨ (e.writer ≠ none ∧ ¬ s.Pending e.event.cas)) :
    Markers app t := by
  have hp : ∀ c, t.Pending c ↔ s.Pending c := pending_congr pend
  have hk : ∀ e, t.Skipped e ↔ s.Skipped e := skipped_congr skip
  refine ⟨flow, ?_, ?_, ?_, ?_, ?_, ?_, ?_⟩
  · simpa only [feed] using h.unique
  · simpa only [feed] using h.written
  · intro i e hpc
    simp only [hp]
    rcases found i e hpc with hf | hf
    · exact h.found i e hf
    · exact hf
  · simpa only [feed, hk] using h.skipped
  · simpa only [feed, hk, pend] using h.pending
  · simpa only [pend] using h.single
  · simpa only [feed, metadata, hp, hk] using h.stored

theorem setInst_congr {β : Type*} (f : Instance App → β) {i : ι} {w : Instance App}
    (h : f w = f (s.inst i)) (j : ι) : f ((s.setInst i w).inst j) = f (s.inst j) := by
  by_cases hj : j = i
  · subst hj
    simpa [State.setInst] using h
  · simp [State.setInst, hj]

theorem Markers.setInst (h : Markers app s) {i : ι} {w : Instance App}
    (flow : ∀ j, Flow s.feed ((s.setInst i w).inst j))
    (pend : w.isolate.pending = (s.inst i).isolate.pending)
    (skip : w.skipped = (s.inst i).skipped)
    (found : ∀ e, w.pc = .found e →
      (s.inst i).pc = .found e ∨ (e.writer ≠ none ∧ ¬ s.Pending e.event.cas)) :
    Markers app (s.setInst i w) := by
  refine h.local rfl rfl (setInst_congr (fun w => w.isolate.pending) pend)
    (setInst_congr Instance.skipped skip) flow ?_
  intro j e
  by_cases hj : j = i
  · subst hj
    simpa [State.setInst] using found e
  · simpa [State.setInst, hj] using Or.inl

omit [DecidableEq ι] in
theorem Markers.unique_concat (h : Markers app s) {n : Entry App}
    (fresh : n.event.opcode = .mutation → s.Fresh n.event.cas) :
    ∀ e ∈ s.feed ++ [n], ∀ e' ∈ s.feed ++ [n], e.event.opcode = .mutation →
      e'.event.opcode = .mutation → e.event.cas = e'.event.cas → e = e' := by
  intro e he e' he' hm hm' hc
  simp only [List.mem_append, List.mem_singleton] at he he'
  rcases he with he | rfl <;> rcases he' with he' | rfl
  · exact h.unique e he e' he' hm hm' hc
  · exact absurd hc (fresh hm' e he)
  · exact absurd hc.symm (fresh hm e' he')
  · rfl

omit [DecidableEq ι] in
lemma Markers.client (h : Markers app s) {e : DcpEvent}
    (fresh : e.opcode = .mutation → s.Fresh e.cas)
    (flow : ∀ j, Flow (s.feed ++ [⟨e, none⟩]) (s.inst j)) :
    Markers app { s with feed := s.feed ++ [⟨e, none⟩] } where
  flow := flow
  unique := h.unique_concat fresh
  written := by
    intro e' he' hw
    rcases List.mem_append.mp he' with he' | he'
    · exact h.written e' he' hw
    · simp [List.mem_singleton.mp he'] at hw
  found := h.found
  skipped := fun e' he' => ⟨List.mem_append_left _ (h.skipped e' he').1, (h.skipped e' he').2⟩
  pending := by
    intro i c key hp
    obtain ⟨e', he', hrest⟩ := h.pending i c key hp
    exact ⟨e', List.mem_append_left _ he', hrest⟩
  single := h.single
  stored := by
    intro k v
    rw [h.stored k v]
    constructor
    · rintro ⟨e', he', hrest⟩
      exact ⟨e', List.mem_append_left _ he', hrest⟩
    · rintro ⟨e', he', hw, hrest⟩
      rcases List.mem_append.mp he' with he' | he'
      · exact ⟨e', he', hw, hrest⟩
      · simp [List.mem_singleton.mp he'] at hw

section Gain
variable {i : ι} {cas : Cas} {key : Text}

omit [DecidableEq ι] in
theorem pending_gain (hs : (s.inst i).isolate.pending = none)
    (ht : (t.inst i).isolate.pending = some (cas, key))
    (hj : ∀ j ≠ i, (t.inst j).isolate.pending = (s.inst j).isolate.pending) (c : Cas) :
    t.Pending c ↔ s.Pending c ∨ c = cas := by
  constructor
  · rintro ⟨j, hjc⟩
    by_cases hji : j = i
    · subst hji
      rw [ht] at hjc
      exact Or.inr (by simpa using hjc.symm)
    · exact Or.inl ⟨j, by rwa [← hj j hji]⟩
  · rintro (⟨j, hjc⟩ | rfl)
    · have hji : j ≠ i := by
        rintro rfl
        simp [hs] at hjc
      exact ⟨j, by rwa [hj j hji]⟩
    · exact ⟨i, by simp [ht]⟩

omit [DecidableEq ι] in
/-- A second pending marker with the fresh CAS would have its mutation in the feed. -/
theorem Markers.single_gain (h : Markers app s) (fresh : s.Fresh cas)
    (ht : (t.inst i).isolate.pending = some (cas, key))
    (hj : ∀ j ≠ i, (t.inst j).isolate.pending = (s.inst j).isolate.pending) :
    ∀ j j' c, (t.inst j).isolate.pending.map Prod.fst = some c →
      (t.inst j').isolate.pending.map Prod.fst = some c → j = j' := by
  have hother : ∀ j ≠ i, ∀ c, (t.inst j).isolate.pending.map Prod.fst = some c → c ≠ cas := by
    intro j hji c hjc hcc
    rw [hj j hji] at hjc
    obtain ⟨⟨c', k⟩, hck, rfl⟩ := Option.map_eq_some_iff.mp hjc
    obtain ⟨e, he, -, hc, -⟩ := h.pending j c' k hck
    exact fresh e he (hc.trans hcc)
  intro j j' c hjc hjc'
  by_cases hji : j = i <;> by_cases hji' : j' = i
  · rw [hji, hji']
  · subst hji
    simp only [ht, Option.map_some, Option.some.injEq] at hjc
    exact absurd hjc.symm (hother j' hji' c hjc')
  · subst hji'
    simp only [ht, Option.map_some, Option.some.injEq] at hjc'
    exact absurd hjc'.symm (hother j hji c hjc)
  · rw [hj j hji] at hjc
    rw [hj j' hji'] at hjc'
    exact h.single j j' c hjc hjc'

end Gain

lemma Markers.store (h : Markers app s) {i : ι} {hd : Handler} {key value : Text} {cas : Cas}
    (isolate : (s.inst i).isolate = .running hd) (fresh : s.Fresh cas)
    (ht : t = { (s.setInst i { s.inst i with isolate := .stored hd cas key }) with
      feed := s.feed ++ [handlerEntry (app i) key value cas] })
    (flow : ∀ j, Flow t.feed (t.inst j)) : Markers app t := by
  have hfeed : t.feed = s.feed ++ [handlerEntry (app i) key value cas] := by rw [ht]
  have hmeta : t.metadata = s.metadata := by rw [ht]; rfl
  have hi : (t.inst i).isolate.pending = some (cas, key) := by
    simp [ht, State.setInst, Isolate.pending]
  have hj : ∀ j ≠ i, (t.inst j).isolate.pending = (s.inst j).isolate.pending := by
    intro j hji
    simp [ht, State.setInst, hji]
  have hpcs : ∀ j, (t.inst j).pc = (s.inst j).pc := by
    rw [ht]
    exact setInst_congr Instance.pc rfl
  have hsk : ∀ e, t.Skipped e ↔ s.Skipped e := by
    rw [ht]
    exact skipped_congr (setInst_congr Instance.skipped rfl)
  have hold : (s.inst i).isolate.pending = none := by rw [isolate]; rfl
  have hp := pending_gain hold hi hj
  have hmem : ∀ e ∈ s.feed, e ∈ t.feed := fun e he => by simp [hfeed, he]
  have hnew : handlerEntry (app i) key value cas ∉ s.feed := fun hm => fresh _ hm rfl
  refine ⟨flow, ?_, ?_, ?_, ?_, ?_, ?_, ?_⟩
  · rw [hfeed]
    exact h.unique_concat fun _ => fresh
  · intro e he hw
    rw [hfeed] at he
    rcases List.mem_append.mp he with he | he
    · exact h.written e he hw
    · rw [List.mem_singleton.mp he]
      rfl
  · intro j e hpc
    have hpc' : (s.inst j).pc = .found e := (hpcs j).symm.trans hpc
    obtain ⟨hw, hnp⟩ := h.found j e hpc'
    have hcur : (s.inst j).pc.current = some e := by rw [hpc']; rfl
    have hne : e.event.cas ≠ cas := fresh e ((h.flow j).current_mem hcur)
    exact ⟨hw, fun hpt => ((hp _).mp hpt).elim hnp hne⟩
  · intro e he
    obtain ⟨hf, hw⟩ := h.skipped e ((hsk e).mp he)
    exact ⟨hmem e hf, hw⟩
  · intro j c k hpj
    by_cases hji : j = i
    · subst hji
      rw [hi] at hpj
      simp only [Option.some.injEq, Prod.mk.injEq] at hpj
      obtain ⟨rfl, rfl⟩ := hpj
      refine ⟨handlerEntry (app j) key value cas, by simp [hfeed], rfl, rfl, rfl, ?_⟩
      intro hs
      exact hnew (h.skipped _ ((hsk _).mp hs)).1
    · rw [hj j hji] at hpj
      obtain ⟨e, he, hw, hc, hk, hs⟩ := h.pending j c k hpj
      exact ⟨e, hmem e he, hw, hc, hk, fun hs' => hs ((hsk e).mp hs')⟩
  · exact h.single_gain fresh hi hj
  · intro k v
    rw [hmeta, h.stored k v]
    constructor
    · rintro ⟨e, he, hw, hk, hv, hnp, hns⟩
      refine ⟨e, hmem e he, hw, hk, hv, ?_, fun hs => hns ((hsk e).mp hs)⟩
      exact fun hpt => ((hp _).mp hpt).elim hnp (fresh e he)
    · rintro ⟨e, he, hw, hk, hv, hnp, hns⟩
      rw [hfeed] at he
      rcases List.mem_append.mp he with he | he
      · exact ⟨e, he, hw, hk, hv, fun hps => hnp ((hp _).mpr (Or.inl hps)),
          fun hs => hns ((hsk e).mpr hs)⟩
      · rw [List.mem_singleton.mp he] at hnp
        exact absurd ((hp _).mpr (Or.inr rfl)) hnp

lemma Markers.mark (h : Markers app s) {i : ι} {hd : Handler} {key : Text} {cas : Cas}
    (isolate : (s.inst i).isolate = .stored hd cas key)
    (ht : t = { (s.setInst i { s.inst i with isolate := .running hd }) with
      metadata := set s.metadata (casKey host cas) key })
    (flow : ∀ j, Flow t.feed (t.inst j)) : Markers app t := by
  have hfeed : t.feed = s.feed := by rw [ht]; rfl
  have hi : (t.inst i).isolate.pending = none := by
    simp [ht, State.setInst, Isolate.pending]
  have hj : ∀ j ≠ i, (t.inst j).isolate.pending = (s.inst j).isolate.pending := by
    intro j hji
    simp [ht, State.setInst, hji]
  have hpcs : ∀ j, (t.inst j).pc = (s.inst j).pc := by
    rw [ht]
    exact setInst_congr Instance.pc rfl
  have hsk : ∀ e, t.Skipped e ↔ s.Skipped e := by
    rw [ht]
    exact skipped_congr (setInst_congr Instance.skipped rfl)
  have hold : (s.inst i).isolate.pending = some (cas, key) := by rw [isolate]; rfl
  have hstored : ¬ t.Pending cas := by
    rintro ⟨j, hjc⟩
    have hji : j ≠ i := by
      rintro rfl
      simp [hi] at hjc
    rw [hj j hji] at hjc
    exact hji (h.single j i cas hjc (by simp [hold]))
  have hp : ∀ c, t.Pending c ↔ s.Pending c ∧ c ≠ cas := by
    intro c
    rw [pending_gain hi hold (fun j hji => (hj j hji).symm) c]
    constructor
    · intro hpt
      exact ⟨Or.inl hpt, fun hc => hstored (hc ▸ hpt)⟩
    · rintro ⟨hpt, hc⟩
      exact hpt.resolve_right hc
  obtain ⟨n, hn, hnw, hnc, hnk, hns⟩ := h.pending i cas key hold
  have hnw' : n.writer ≠ none := by simp [hnw]
  refine ⟨flow, ?_, ?_, ?_, ?_, ?_, ?_, ?_⟩
  · simpa only [hfeed] using h.unique
  · simpa only [hfeed] using h.written
  · intro j e hpc
    have hpc' : (s.inst j).pc = .found e := (hpcs j).symm.trans hpc
    obtain ⟨hw, hnp⟩ := h.found j e hpc'
    exact ⟨hw, fun hpt => hnp ((hp _).mp hpt).1⟩
  · simpa only [hfeed, hsk] using h.skipped
  · intro j c k hpj
    have hji : j ≠ i := by
      rintro rfl
      simp [hi] at hpj
    rw [hj j hji] at hpj
    simpa only [hfeed, hsk] using h.pending j c k hpj
  · intro j j' c hjc hjc'
    have hji : j ≠ i := by
      rintro rfl
      simp [hi] at hjc
    have hji' : j' ≠ i := by
      rintro rfl
      simp [hi] at hjc'
    rw [hj j hji] at hjc
    rw [hj j' hji'] at hjc'
    exact h.single j j' c hjc hjc'
  · intro k v
    have hmeta : t.metadata = set s.metadata (casValue cas) key := by
      rw [ht, casKey_eq_casValue]
    rw [hmeta, get_set_eq_some, h.stored k v, hfeed]
    simp only [hsk, hp]
    constructor
    · rintro (⟨rfl, rfl⟩ | ⟨hne, e, he, hw, hk, hv, hnp, hs⟩)
      · exact ⟨n, hn, hnw', by rw [hnc], hnk, by simp [hnc], hns⟩
      · exact ⟨e, he, hw, hk, hv, fun hps => hnp hps.1, hs⟩
    · rintro ⟨e, he, hw, hk, hv, hnp, hs⟩
      by_cases hc : e.event.cas = cas
      · have hen : e = n :=
          h.unique e he n hn (h.written e he hw) (h.written n hn hnw') (hc.trans hnc.symm)
        subst hen
        exact Or.inl ⟨by rw [← hk, hc], by rw [← hv, hnk]⟩
      · refine Or.inr ⟨?_, e, he, hw, hk, hv, fun hps => hnp ⟨hps, hc⟩, hs⟩
        rintro rfl
        exact hc (casValue_injective hk)

lemma Markers.unmark (h : Markers app s) {i : ι} {n : Entry App}
    (pc : (s.inst i).pc = .found n)
    (ht : t = { (s.setInst i { s.inst i with
      pc := .select, skipped := (s.inst i).skipped ++ [n] }) with
      metadata := delete s.metadata (casValue n.event.cas) })
    (flow : ∀ j, Flow t.feed (t.inst j)) : Markers app t := by
  have hfeed : t.feed = s.feed := by rw [ht]; rfl
  have hpend : ∀ j, (t.inst j).isolate.pending = (s.inst j).isolate.pending := by
    rw [ht]
    exact setInst_congr (fun w => w.isolate.pending) rfl
  have hp : ∀ c, t.Pending c ↔ s.Pending c := pending_congr hpend
  have hsk : ∀ e, t.Skipped e ↔ s.Skipped e ∨ e = n := by
    intro e
    constructor
    · rintro ⟨j, hje⟩
      by_cases hji : j = i
      · subst hji
        have hje' : e ∈ (s.inst j).skipped ++ [n] := by simpa [ht, State.setInst] using hje
        rcases List.mem_append.mp hje' with he | he
        · exact Or.inl ⟨j, he⟩
        · exact Or.inr (List.mem_singleton.mp he)
      · exact Or.inl ⟨j, by simpa [ht, State.setInst, hji] using hje⟩
    · rintro (⟨j, hje⟩ | rfl)
      · refine ⟨j, ?_⟩
        by_cases hji : j = i
        · subst hji
          simp [ht, State.setInst, hje]
        · simpa [ht, State.setInst, hji] using hje
      · exact ⟨i, by simp [ht, State.setInst]⟩
  have hcur : (s.inst i).pc.current = some n := by rw [pc]; rfl
  have hn : n ∈ s.feed := (h.flow i).current_mem hcur
  have hnm : n.event.opcode = .mutation := (h.flow i).mutation n (Or.inr pc)
  obtain ⟨hnw, hnp⟩ := h.found i n pc
  have heq : ∀ e ∈ s.feed, e.writer ≠ none → e.event.cas = n.event.cas → e = n :=
    fun e he hw hc => h.unique e he n hn (h.written e he hw) hnm hc
  refine ⟨flow, ?_, ?_, ?_, ?_, ?_, ?_, ?_⟩
  · simpa only [hfeed] using h.unique
  · simpa only [hfeed] using h.written
  · intro j e hpc
    have hji : j ≠ i := by
      rintro rfl
      simp [ht, State.setInst] at hpc
    have hpc' : (s.inst j).pc = .found e := by simpa [ht, State.setInst, hji] using hpc
    simpa only [hp] using h.found j e hpc'
  · intro e he
    rw [hfeed]
    rcases (hsk e).mp he with he | rfl
    · exact h.skipped e he
    · exact ⟨hn, hnw⟩
  · intro j c k hpj
    rw [hpend] at hpj
    obtain ⟨e, he, hw, hc, hk, hs⟩ := h.pending j c k hpj
    refine ⟨e, by rwa [hfeed], hw, hc, hk, ?_⟩
    intro hst
    rcases (hsk e).mp hst with hs' | rfl
    · exact hs hs'
    · exact hnp ⟨j, by simp [hpj, hc]⟩
  · simpa only [hpend] using h.single
  · intro k v
    have hmeta : t.metadata = delete s.metadata (casValue n.event.cas) := by rw [ht]
    rw [hmeta, get_delete_eq_some, h.stored k v, hfeed]
    simp only [hsk, hp]
    constructor
    · rintro ⟨hne, e, he, hw, hk, hv, hnp', hs⟩
      refine ⟨e, he, hw, hk, hv, hnp', ?_⟩
      rintro (hs' | rfl)
      · exact hs hs'
      · exact hne hk.symm
    · rintro ⟨e, he, hw, hk, hv, hnp', hs⟩
      refine ⟨?_, e, he, hw, hk, hv, hnp', fun hs' => hs (Or.inl hs')⟩
      rintro rfl
      exact hs (Or.inr (heq e he hw (casValue_injective hk)))

lemma markers_step (h : Markers app s) (hs : Stepped host app s a t) : Markers app t := by
  have flow := flow_step h.flow hs
  cases hs with
  | client fresh => exact h.client fresh flow
  | store iso fresh => exact h.store iso fresh rfl flow
  | mark iso => exact h.mark iso rfl flow
  | unmark pc => exact h.unmark pc rfl flow
  | tick _ => exact h
  | @hit i e v hpc hop hm =>
    -- the marker that was found is the one of this very mutation
    obtain ⟨e', he', hw', hk', -, hnp, -⟩ := (h.stored _ _).mp hm
    have hcur : (s.inst i).pc.current = some e := by rw [hpc]; rfl
    have hee : e' = e := h.unique e' he' e ((h.flow i).current_mem hcur) (h.written e' he' hw')
      hop (casValue_injective hk')
    subst hee
    refine h.setInst flow rfl rfl ?_
    intro e hf
    simp only [WorkerPc.found.injEq] at hf
    subst hf
    exact Or.inr ⟨hw', hnp⟩
  | pull _ _ | forward _ _ => exact h.setInst flow rfl rfl fun e hf => Or.inl hf
  | enter iso _ =>
    refine h.setInst flow ?_ rfl fun e hf => Or.inl hf
    rw [iso]
    rfl
  | sendUpdate _ iso | sendDelete _ iso =>
    refine h.setInst flow ?_ rfl fun e hf => by simp at hf
    rw [iso]
    rfl
  | @leave i hd ok iso =>
    refine h.setInst flow ?_ rfl ?_
    · rw [iso]
      rfl
    · cases hd.ofWorker with
      | false => exact fun e hf => Or.inl hf
      | true => exact fun e hf => by simp at hf
  | deploy _ | receive _ _ | miss _ _ _ | deletion _ _ | ignore _ _ | quit _ =>
    exact h.setInst flow rfl rfl fun e hf => by simp at hf

omit [DecidableEq ι] in
lemma markers_initial : Markers app (initial : State ι App) := by
  refine ⟨?_, ?_, ?_, ?_, ?_, ?_, ?_, ?_⟩
  · exact fun i => ⟨rfl, le_rfl, by simp [initial, Instance.initial, WorkerPc.current],
      by simp [initial, Instance.initial], by simp [initial, Instance.initial]⟩
  all_goals simp [initial, Instance.initial, State.Skipped, Isolate.pending]

/-- The accounting holds along every run, of any handlers and any instances. -/
theorem markers_reachable (h : Reachable (step host app) initial s) : Markers app s :=
  h.invariant markers_initial fun _ _ _ hm _ hs => markers_step hm (step_stepped hs)

omit [DecidableEq ι] in
/-- A lookup finds the marker of a handler-written mutation exactly when its
`BucketSet` has finished and no instance has deleted the marker. -/
theorem Markers.lookup_iff (h : Markers app s) {e : Entry App} (he : e ∈ s.feed)
    (hop : e.event.opcode = .mutation) :
    get s.metadata (casValue e.event.cas) ≠ none ↔
      e.writer ≠ none ∧ ¬ s.Pending e.event.cas ∧ ¬ s.Skipped e := by
  constructor
  · intro hm
    obtain ⟨v, hv⟩ := Option.ne_none_iff_exists'.mp hm
    obtain ⟨e', he', hw, hk, -, hnp, hns⟩ := (h.stored _ _).mp hv
    have hee : e' = e :=
      h.unique e' he' e he (h.written e' he' hw) hop (casValue_injective hk)
    subst hee
    exact ⟨hw, hnp, hns⟩
  · rintro ⟨hw, hnp, hns⟩
    have hv := (h.stored (casValue e.event.cas) e.event.key).mpr
      ⟨e, he, hw, rfl, rfl, hnp, hns⟩
    simp [hv]

end Eventing.Pipeline
