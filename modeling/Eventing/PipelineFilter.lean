import Eventing.PipelineWorker

/-!
# One application whose handlers all run in `runWorker`

The goroutine that looks markers up is then the one whose handlers write them, so
every lookup comes after the `BucketSet` of the mutation it is about.
-/
namespace Eventing.Pipeline
open CasMarker KvStore Transition

variable {ι App : Type*}

def Entry.external (e : Entry App) : Bool :=
  decide (e.event.opcode = .mutation) && e.writer.isNone

/-- Each settled message went the right way. -/
structure Settled (w : Instance App) : Prop where
  updates : w.updates = w.settled.filter Entry.external
  skipped : w.skipped = w.settled.filter fun e => e.writer.isSome
  missed : ∀ e, w.pc = .missed e → e.writer = none

theorem Settled.move {w w' : Instance App} (h : Settled w) (settled : w'.settled = w.settled)
    (updates : w'.updates = w.updates) (skipped : w'.skipped = w.skipped)
    (missed : ∀ e, w'.pc = .missed e → e.writer = none) : Settled w' := by
  refine ⟨?_, ?_, missed⟩
  · rw [updates, settled, h.updates]
  · rw [skipped, settled, h.skipped]

theorem Settled.settle {feed : List (Entry App)} {w w' : Instance App} (h : Settled w)
    (hf : Flow feed w) {e : Entry App} (he : w.pc.current = some e)
    (hcur : w'.pc.current = none) (taken : w'.taken = w.taken)
    (updates : w'.updates = w.updates ++ [e].filter Entry.external)
    (skipped : w'.skipped = w.skipped ++ [e].filter fun e => e.writer.isSome) : Settled w' := by
  have htaken := taken_eq_dropLast_concat hf he
  have hu := h.updates
  have hk := h.skipped
  simp only [Instance.settled, he] at hu hk
  refine ⟨?_, ?_, ?_⟩
  · simp only [Instance.settled, hcur]
    rw [taken, htaken, List.filter_append, updates, ← hu]
  · simp only [Instance.settled, hcur]
    rw [taken, htaken, List.filter_append, skipped, ← hk]
  · intro e' he'
    simp [he', WorkerPc.current] at hcur

section OneInstance
variable {host : Host} {app : Unit → App} {s t : State Unit App} {a : Action Unit}

lemma not_pending_of_free (h : (s.inst ()).isolate.pending = none) (c : Cas) :
    ¬ s.Pending c := by
  rintro ⟨⟨⟩, hc⟩
  simp [h] at hc

lemma settled_step (hr : WorkerRun app s) (h : Settled (s.inst ()))
    (hok : WorkerHandlersOnly s a) (hs : Stepped host app s a t) : Settled (t.inst ()) := by
  have hm := hr.markers
  have hwritten : ∀ e, (s.inst ()).pc.current = some e → e.event.opcode ≠ .mutation →
      e.writer = none := by
    intro e he hop
    by_contra hw
    exact hop (hm.written e ((hm.flow ()).current_mem he) hw)
  have keep : ∀ {w : Instance App}, Settled w → Settled ((s.setInst () w).inst ()) :=
    fun hw => forall_setInst (P := fun _ w => Settled w) (fun _ => h) hw ()
  cases hs with
  | client _ => exact h
  | tick _ => exact h
  | enter _ _ => simp [WorkerHandlersOnly, Action.isEnter] at hok
  | @pull i e _ _ | @forward i e _ _ => exact keep (h.move rfl rfl rfl h.missed)
  | @deploy i hpc | @quit i hpc =>
    refine keep (h.move ?_ rfl rfl (by simp))
    simp [Instance.settled, WorkerPc.current, hpc]
  | @receive i e rest hpc _ =>
    refine keep (h.move ?_ rfl rfl (by simp))
    simp [Instance.settled, WorkerPc.current, hpc]
  | @miss i e hpc hop hmark =>
    have hcur : (s.inst ()).pc.current = some e := by rw [hpc]; rfl
    have hnp := not_pending_of_free ((hr.only ()).pending (by simp [hpc])) e.event.cas
    have hns : ¬ s.Skipped e := by
      rintro ⟨_, hk⟩
      exact notMem_skipped_of_current (hm.flow ()) hr.distinct (hr.skips ()) hop hcur hk
    refine keep (h.move ?_ rfl rfl ?_)
    · simp [Instance.settled, WorkerPc.current, hpc]
    · intro e' he'
      simp only [WorkerPc.missed.injEq] at he'
      subst he'
      by_contra hw
      exact (hm.lookup_iff ((hm.flow ()).current_mem hcur) hop).mpr ⟨hw, hnp, hns⟩ hmark
  | @hit i e v hpc _ _ | @deletion i e hpc _ =>
    refine keep (h.move ?_ rfl rfl (by simp))
    simp [Instance.settled, WorkerPc.current, hpc]
  | @ignore i e hpc hop =>
    have hcur : (s.inst ()).pc.current = some e := by rw [hpc]; rfl
    have hw := hwritten e hcur (by simp [hop])
    exact keep (h.settle (hm.flow ()) hcur rfl rfl (by simp [Entry.external, hop]) (by simp [hw]))
  | @sendUpdate i e hpc _ =>
    have hcur : (s.inst ()).pc.current = some e := by rw [hpc]; rfl
    have hop := (hm.flow ()).mutation e (Or.inl hpc)
    have hw := h.missed e hpc
    exact keep (h.settle (hm.flow ()) hcur rfl rfl (by simp [Entry.external, hop, hw])
      (by simp [hw]))
  | @sendDelete i e hpc _ =>
    have hcur : (s.inst ()).pc.current = some e := by rw [hpc]; rfl
    have hop := (hm.flow ()).deletion e hpc
    have hw := hwritten e hcur (by simp [hop])
    exact keep (h.settle (hm.flow ()) hcur rfl rfl (by simp [Entry.external, hop]) (by simp [hw]))
  | @unmark i e hpc =>
    have hcur : (s.inst ()).pc.current = some e := by rw [hpc]; rfl
    have hw := Option.isSome_iff_ne_none.mpr (hm.found () e hpc).1
    have hn : e.writer.isNone = false := by simpa using hw
    have hset : Settled { s.inst () with
        pc := .select, skipped := (s.inst ()).skipped ++ [e] } :=
      h.settle (hm.flow ()) hcur rfl rfl (by simp [Entry.external, hn]) (by simp [hw])
    exact keep hset
  | store _ _ => exact keep (h.move rfl rfl rfl h.missed)
  | mark _ => exact keep (h.move rfl rfl rfl h.missed)
  | @leave i hd ok iso =>
    obtain ⟨hh, hpc⟩ := (hr.only ()).handler hd (by rw [iso]; rfl)
    refine keep (h.move ?_ rfl rfl (by simp [hh]))
    simp [Instance.settled, WorkerPc.current, hpc, hh]

lemma settled_reach (h : Reach (step host app) WorkerHandlersOnly initial s) :
    WorkerRun app s ∧ Settled (s.inst ()) := by
  refine h.invariant (I := fun s => WorkerRun app s ∧ Settled (s.inst ())) ?_ ?_
  · exact ⟨workerRun_initial, rfl, rfl, by simp [initial, Instance.initial]⟩
  · rintro s a t ⟨hr, hset⟩ hok hs
    have hst := step_stepped hs
    exact ⟨workerRun_step hr hok hst, settled_step hr hset hok hst⟩

theorem settled_eq_take {feed : List (Entry App)} {w : Instance App} (hf : Flow feed w) :
    w.settled = feed.take w.settled.length := by
  have hp : w.taken <+: feed := by
    have h1 : w.taken <+: feed.take w.cursor := by
      rw [← hf.stream, List.append_assoc]
      exact List.prefix_append _ _
    exact h1.trans (List.take_prefix _ _)
  have hs : w.settled <+: w.taken := by
    unfold Instance.settled
    cases w.pc.current with
    | none => exact List.prefix_rfl
    | some e => exact List.dropLast_prefix _
  exact List.prefix_iff_eq_take.mp (hs.trans hp)

/-- The mutations passed to `OnUpdate` are the external ones among the first `n`
changes, each once and in order; and between two messages the markers are those
of the handler-written mutations that are still to come. -/
def FilteredExactly (s : State Unit App) : Prop :=
  ∃ n ≤ s.feed.length,
    (s.inst ()).updates = (s.feed.take n).filter Entry.external ∧
    (s.inst ()).updates.Nodup ∧
    ((s.inst ()).pc = .select → (s.inst ()).taken = s.feed.take n ∧
      ∀ k v, get s.metadata k = some v ↔ ∃ e ∈ s.feed.drop n, e.writer ≠ none ∧
        casValue e.event.cas = k ∧ e.event.key = v)

theorem onUpdate_filters_exactly (host : Host) (app : Unit → App) {s : State Unit App}
    (h : Reach (step host app) WorkerHandlersOnly initial s) : FilteredExactly s := by
  obtain ⟨hr, hset⟩ := settled_reach h
  have hm := hr.markers
  have hd := hr.distinct
  have htake := settled_eq_take (hm.flow ())
  have hlen : (s.inst ()).settled.length ≤ s.feed.length := by
    have hl := congrArg List.length htake
    rw [List.length_take] at hl
    omega
  have hext : ∀ e : Entry App, e.external = true → e.event.opcode = .mutation := by
    intro e he
    simp only [Entry.external, Bool.and_eq_true, decide_eq_true_eq] at he
    exact he.1
  have hupd : (s.inst ()).updates =
      (s.feed.take (s.inst ()).settled.length).filter Entry.external := by
    rw [hset.updates, ← htake]
  refine ⟨_, hlen, hupd, ?_, ?_⟩
  · rw [hupd]
    have hdt : Distinct (s.feed.take (s.inst ()).settled.length) :=
      List.Pairwise.sublist (List.take_sublist _ _) hd
    exact hdt.nodup_mutations hext
  · intro hpc
    have hst : (s.inst ()).settled = (s.inst ()).taken := by
      simp [Instance.settled, hpc, WorkerPc.current]
    refine ⟨by rw [← htake, hst], ?_⟩
    intro k v
    rw [hm.stored k v]
    have hnp := not_pending_of_free ((hr.only ()).pending (by simp [hpc]))
    -- a handler-written mutation is skipped exactly when it is among the settled ones
    have hsk : ∀ e ∈ s.feed, e.writer ≠ none →
        (¬ s.Skipped e ↔ e ∈ s.feed.drop (s.inst ()).settled.length) := by
      intro e he hw
      have hmut := hm.written e he hw
      have hsplit : s.feed =
          (s.inst ()).settled ++ s.feed.drop (s.inst ()).settled.length := by
        conv_lhs => rw [← List.take_append_drop (s.inst ()).settled.length s.feed, ← htake]
      have hskip : s.Skipped e ↔ e ∈ (s.inst ()).settled := by
        constructor
        · rintro ⟨⟨⟩, hk⟩
          rw [hset.skipped] at hk
          exact (List.mem_filter.mp hk).1
        · intro hk
          refine ⟨(), ?_⟩
          rw [hset.skipped]
          exact List.mem_filter.mpr ⟨hk, Option.isSome_iff_ne_none.mpr hw⟩
      rw [hskip]
      constructor
      · intro hns
        have he' := he
        rw [hsplit] at he'
        exact (List.mem_append.mp he').resolve_left hns
      · intro hdrop hin
        rw [hsplit] at hd
        exact hd.notMem_right hmut hin hdrop
    constructor
    · rintro ⟨e, he, hw, hk, hv, -, hns⟩
      exact ⟨e, (hsk e he hw).mp hns, hw, hk, hv⟩
    · rintro ⟨e, he, hw, hk, hv⟩
      have he' := List.mem_of_mem_drop he
      exact ⟨e, he', hw, hk, hv, hnp _, (hsk e he' hw).mpr he⟩

/-- A client writes one document, `OnUpdate` writes a second one, and the second
change is skipped. -/
def selfTriggeredRun : List (Action Unit) :=
  [.deploy (), .client ⟨.mutation, ['a'], ['1'], 0, 0, 7#64⟩, .pull (), .forward (), .receive (),
    .lookup (), .send (), .store () ['b'] ['2'] 8#64, .pull (), .forward (), .mark (),
    .leave () true, .tick (), .receive (), .lookup (), .unmark ()]

theorem onUpdate_filters_selfTriggeredRun :
    ∃ s : State Unit Unit,
      exec (step .littleEndian id) WorkerHandlersOnly initial selfTriggeredRun = some s ∧
      (s.inst ()).updates.length = 1 ∧ (s.inst ()).skipped.length = 1 ∧ FilteredExactly s := by
  obtain ⟨s, he, hr, hp⟩ := exec_of_any (step .littleEndian id)
    WorkerHandlersOnly (initial : State Unit Unit) selfTriggeredRun
    (fun s => (s.inst ()).updates.length == 1 && (s.inst ()).skipped.length == 1)
    (by decide)
  simp only [Bool.and_eq_true, beq_iff_eq] at hp
  exact ⟨s, he, hp.1, hp.2, onUpdate_filters_exactly _ _ hr⟩

end OneInstance

end Eventing.Pipeline
