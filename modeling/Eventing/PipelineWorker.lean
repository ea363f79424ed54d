import Eventing.PipelineMarkers

/-!
# What each instance has done with its stream

Messages are settled one at a time in stream order, so an instance never meets a
mutation twice. When all handlers run in `runWorker`, no `BucketSet` of an
instance is unfinished while its goroutine looks a marker up.
-/
namespace Eventing.Pipeline
open CasMarker KvStore Transition

variable {ι App : Type*}

def Action.isEnter : Action ι → Bool
  | .enter _ _ => true
  | _ => false

def WorkerHandlersOnly (_ : State ι App) (a : Action ι) : Prop := a.isEnter = false

instance (s : State ι App) (a : Action ι) : Decidable (WorkerHandlersOnly s a) :=
  inferInstanceAs (Decidable (_ = _))

/-- Mutations at different places of the stream have different CAS values. -/
def Distinct (feed : List (Entry App)) : Prop :=
  feed.Pairwise fun e e' => e.event.opcode = .mutation → e'.event.opcode = .mutation →
    e.event.cas ≠ e'.event.cas

lemma Distinct.concat {feed : List (Entry App)} {n : Entry App} (h : Distinct feed)
    (fresh : n.event.opcode = .mutation → ∀ e ∈ feed, e.event.cas ≠ n.event.cas) :
    Distinct (feed ++ [n]) := by
  refine List.pairwise_append.mpr ⟨h, List.pairwise_singleton _ _, ?_⟩
  intro e he e' he' _ hm'
  rw [List.mem_singleton] at he'
  subst he'
  exact fresh hm' e he

lemma Distinct.notMem_right {xs ys : List (Entry App)} (h : Distinct (xs ++ ys))
    {e : Entry App} (hm : e.event.opcode = .mutation) (hx : e ∈ xs) : e ∉ ys :=
  fun hy => (List.pairwise_append.mp h).2.2 e hx e hy hm hm rfl

lemma Distinct.nodup_mutations {feed : List (Entry App)} (h : Distinct feed)
    {p : Entry App → Bool} (hp : ∀ e, p e = true → e.event.opcode = .mutation) :
    (feed.filter p).Nodup := by
  refine (List.Pairwise.filter p h).imp_of_mem ?_
  intro e e' he he' hne heq
  have hm := hp e (List.mem_filter.mp he).2
  have hm' := hp e' (List.mem_filter.mp he').2
  exact hne hm hm' (by rw [heq])

variable [DecidableEq ι] {host : Host} {app : ι → App} {s t : State ι App} {a : Action ι}

lemma distinct_step (h : Distinct s.feed) (hs : Stepped host app s a t) : Distinct t.feed := by
  cases hs with
  | client fresh => exact h.concat fresh
  | store _ fresh => exact h.concat fun _ => fresh
  | _ => exact h

def Instance.settled (w : Instance App) : List (Entry App) :=
  match w.pc.current with
  | some _ => w.taken.dropLast
  | none => w.taken

def Isolate.handler : Isolate → Option Handler
  | .running h | .stored h _ _ => some h
  | .free => none

/-- The isolate is in use exactly while the goroutine is in a handler. -/
structure WorkerOnly (w : Instance App) : Prop where
  isolate : w.pc ≠ .inHandler → w.isolate = .free
  handler : ∀ h, w.isolate.handler = some h → h.ofWorker = true ∧ w.pc = .inHandler

lemma WorkerOnly.pending {w : Instance App} (h : WorkerOnly w) (hpc : w.pc ≠ .inHandler) :
    w.isolate.pending = none := by
  rw [h.isolate hpc]
  rfl

lemma WorkerOnly.outside {w w' : Instance App} (h : WorkerOnly w) (hpc : w.pc ≠ .inHandler)
    (isolate : w'.isolate = w.isolate) : WorkerOnly w' := by
  have hfree : w'.isolate = .free := isolate.trans (h.isolate hpc)
  exact ⟨fun _ => hfree, by simp [hfree, Isolate.handler]⟩

/-- The two stores of `BucketSet` stay inside one handler. -/
theorem WorkerOnly.inside {w w' : Instance App} (h : WorkerOnly w) (hd : Handler)
    (isolate : w.isolate.handler = some hd) (isolate' : w'.isolate.handler = some hd)
    (pc : w'.pc = w.pc) : WorkerOnly w' := by
  obtain ⟨hh, hpc⟩ := h.handler hd isolate
  refine ⟨fun hne => absurd (pc.trans hpc) hne, ?_⟩
  intro h' hh'
  rw [isolate', Option.some.injEq] at hh'
  subst hh'
  exact ⟨hh, pc.trans hpc⟩

lemma workerOnly_step (h : ∀ j, WorkerOnly (s.inst j)) (hok : WorkerHandlersOnly s a)
    (hs : Stepped host app s a t) : ∀ j, WorkerOnly (t.inst j) := by
  have keep : ∀ {i : ι} {w : Instance App}, WorkerOnly w →
      ∀ j, WorkerOnly ((s.setInst i w).inst j) :=
    fun hw => forall_setInst (P := fun _ w => WorkerOnly w) h hw
  cases hs with
  | client _ => exact h
  | tick _ => exact h
  | enter _ _ => simp [WorkerHandlersOnly, Action.isEnter] at hok
  | @pull i _ _ _ | @forward i _ _ _ => exact keep ⟨(h i).isolate, (h i).handler⟩
  | @deploy i hpc | @quit i hpc | @receive i _ _ hpc _ | @miss i _ hpc _ _
  | @hit i _ _ hpc _ _ | @deletion i _ hpc _ | @ignore i _ hpc _ =>
    exact keep ((h i).outside (by simp [hpc]) rfl)
  | @unmark i e hpc => exact keep ((h i).outside (by simp [hpc]) rfl)
  | @sendUpdate i _ _ _ | @sendDelete i _ _ _ =>
    exact keep ⟨by simp, by simp [Isolate.handler, Handler.ofWorker]⟩
  | @store i hd key value cas iso _ =>
    exact keep ((h i).inside hd (by rw [iso]; rfl) rfl rfl)
  | @mark i hd key cas iso =>
    exact keep ((h i).inside hd (by rw [iso]; rfl) rfl rfl)
  | leave _ => exact keep ⟨fun _ => rfl, by simp [Isolate.handler]⟩

lemma taken_eq_dropLast_concat {feed : List (Entry App)} {w : Instance App} (hf : Flow feed w)
    {e : Entry App} (he : w.pc.current = some e) : w.taken = w.taken.dropLast ++ [e] := by
  have hl := hf.current e he
  rw [List.getLast?_eq_some_iff] at hl
  obtain ⟨xs, hx⟩ := hl
  rw [hx, List.dropLast_concat]

def SkipsSettled (w : Instance App) : Prop := ∀ e ∈ w.skipped, e ∈ w.settled

lemma SkipsSettled.move {w w' : Instance App} (h : SkipsSettled w)
    (settled : w'.settled = w.settled) (skipped : w'.skipped = w.skipped) : SkipsSettled w' := by
  intro e he
  rw [settled]
  exact h e (by rwa [← skipped])

theorem SkipsSettled.settle {w w' : Instance App} (h : SkipsSettled w)
    (hcur : w'.pc.current = none) (taken : w'.taken = w.taken)
    (skipped : ∀ e ∈ w'.skipped, e ∈ w.skipped ∨ e ∈ w.taken) : SkipsSettled w' := by
  intro e he
  simp only [Instance.settled, hcur, taken]
  rcases skipped e he with hk | hk
  · have hs := h e hk
    unfold Instance.settled at hs
    split at hs
    · exact List.mem_of_mem_dropLast hs
    · exact hs
  · exact hk

lemma skipsSettled_step (hf : ∀ j, Flow s.feed (s.inst j))
    (h : ∀ j, SkipsSettled (s.inst j)) (hs : Stepped host app s a t) :
    ∀ j, SkipsSettled (t.inst j) := by
  have keep : ∀ {i : ι} {w : Instance App}, SkipsSettled w →
      ∀ j, SkipsSettled ((s.setInst i w).inst j) :=
    fun hw => forall_setInst (P := fun _ w => SkipsSettled w) h hw
  cases hs with
  | client _ => exact h
  | tick _ => exact h
  | @pull i _ _ _ | @forward i _ _ _ | @enter i _ _ _ => exact keep ((h i).move rfl rfl)
  | @store i _ _ _ _ _ _ => exact keep ((h i).move rfl rfl)
  | @mark i _ _ _ _ => exact keep ((h i).move rfl rfl)
  | @receive i e rest hpc _ =>
    exact keep ((h i).move (by simp [Instance.settled, WorkerPc.current, hpc]) rfl)
  | @miss i _ hpc _ _ | @hit i _ _ hpc _ _ | @deletion i _ hpc _ =>
    exact keep ((h i).move (by simp [Instance.settled, WorkerPc.current, hpc]) rfl)
  | @unmark i e hpc =>
    refine keep ((h i).settle rfl rfl ?_)
    intro e' he'
    have hcur : (s.inst i).pc.current = some e := by rw [hpc]; rfl
    rcases List.mem_append.mp he' with hk | hk
    · exact Or.inl hk
    · rw [List.mem_singleton.mp hk]
      exact Or.inr (List.mem_of_getLast? ((hf i).current e hcur))
  | @leave i hd ok _ =>
    apply keep
    cases hw : hd.ofWorker with
    | false => exact (h i).move rfl rfl
    | true => exact (h i).settle rfl rfl fun e he => Or.inl he
  | @deploy i _ | @quit i _ | @ignore i _ _ _ | @sendUpdate i _ _ _ | @sendDelete i _ _ _ =>
    exact keep ((h i).settle rfl rfl fun e he => Or.inl he)

/-- The stream carries a mutation once, so an instance has not skipped the one it
is working on. -/
theorem notMem_skipped_of_current {feed : List (Entry App)} {w : Instance App} (hf : Flow feed w)
    (hd : Distinct feed) (h : SkipsSettled w) {e : Entry App}
    (hm : e.event.opcode = .mutation) (he : w.pc.current = some e) : e ∉ w.skipped := by
  intro hk
  have hin := h e hk
  simp only [Instance.settled, he] at hin
  have hfeed : Distinct (w.taken.dropLast ++ [e]) := by
    rw [← taken_eq_dropLast_concat hf he]
    have hst : Distinct (feed.take w.cursor) :=
      List.Pairwise.sublist (List.take_sublist _ _) hd
    rw [← hf.stream, List.append_assoc] at hst
    exact (List.pairwise_append.mp hst).1
  exact hfeed.notMem_right hm hin (List.mem_singleton_self e)

structure WorkerRun (app : ι → App) (s : State ι App) : Prop where
  markers : Markers app s
  distinct : Distinct s.feed
  only : ∀ i, WorkerOnly (s.inst i)
  skips : ∀ i, SkipsSettled (s.inst i)

omit [DecidableEq ι] in
lemma workerRun_initial : WorkerRun app (initial : State ι App) where
  markers := markers_initial
  distinct := List.Pairwise.nil
  only := fun _ => ⟨fun _ => rfl, by simp [initial, Instance.initial, Isolate.handler]⟩
  skips := by simp [SkipsSettled, initial, Instance.initial]

lemma workerRun_step (h : WorkerRun app s) (hok : WorkerHandlersOnly s a)
    (hs : Stepped host app s a t) : WorkerRun app t where
  markers := markers_step h.markers hs
  distinct := distinct_step h.distinct hs
  only := workerOnly_step h.only hok hs
  skips := skipsSettled_step h.markers.flow h.skips hs

end Eventing.Pipeline
