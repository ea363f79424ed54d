import Eventing.PipelineFilter

/-!
# The settled messages of an instance

Whatever handlers there are and whoever writes, `runWorker` settles the messages of the stream
one after the other, and a mutation by one call of `OnUpdate` or by skipping it.
-/
namespace Eventing.Pipeline
open CasMarker KvStore Transition

variable {ι App : Type*}

/-- The goroutine is in a handler while the handler is using the isolate. -/
def Entered (w : Instance App) : Prop :=
  w.pc = .inHandler ↔ ∃ h, w.isolate.handler = some h ∧ h.ofWorker = true

lemma Entered.move {w w' : Instance App} (h : Entered w) (pc : w'.pc = .inHandler ↔ w.pc = .inHandler)
    (isolate : w'.isolate.handler = w.isolate.handler) : Entered w' := by
  rw [Entered, pc, isolate]
  exact h

lemma Entered.outside {w : Instance App} (pc : w.pc ≠ .inHandler) (isolate : w.isolate = .free) :
    Entered w := by
  refine iff_of_false pc ?_
  rintro ⟨h, hh, -⟩
  rw [isolate] at hh
  contradiction

def Entry.mutates (e : Entry App) : Bool := decide (e.event.opcode = .mutation)

lemma settled_of_current {feed : List (Entry App)} {w w' : Instance App} (hf : Flow feed w)
    {e : Entry App} (he : w.pc.current = some e) (hcur : w'.pc.current = none)
    (taken : w'.taken = w.taken) : w'.settled = w.settled ++ [e] := by
  simp only [Instance.settled, hcur, he, taken]
  exact taken_eq_dropLast_concat hf he

/-- Each settled mutation was passed to `OnUpdate` or skipped, once, in the order of the stream. -/
structure Accounted (w : Instance App) : Prop where
  handled : (w.updates ++ w.skipped).Perm (w.settled.filter Entry.mutates)
  updates : w.updates.Sublist w.settled
  skipped : w.skipped.Sublist w.settled

lemma Accounted.move {w w' : Instance App} (h : Accounted w) (settled : w'.settled = w.settled)
    (updates : w'.updates = w.updates) (skipped : w'.skipped = w.skipped) : Accounted w' := by
  refine ⟨?_, ?_, ?_⟩
  · rw [settled, updates, skipped]
    exact h.handled
  · rw [settled, updates]
    exact h.updates
  · rw [settled, skipped]
    exact h.skipped

lemma Accounted.settle {feed : List (Entry App)} {w w' : Instance App} (h : Accounted w)
    (hf : Flow feed w) (called passed : List (Entry App)) {e : Entry App}
    (he : w.pc.current = some e) (hcur : w'.pc.current = none) (taken : w'.taken = w.taken)
    (updates : w'.updates = w.updates ++ called) (skipped : w'.skipped = w.skipped ++ passed)
    (hcalled : called.Sublist [e]) (hpassed : passed.Sublist [e])
    (handled : (called ++ passed).Perm ([e].filter Entry.mutates)) : Accounted w' := by
  have hsettled := settled_of_current hf he hcur taken
  refine ⟨?_, ?_, ?_⟩
  · rw [hsettled, List.filter_append, updates, skipped]
    calc
      (w.updates ++ called ++ (w.skipped ++ passed)).Perm
          (w.updates ++ w.skipped ++ (called ++ passed)) := by
        simp only [List.append_assoc]
        exact (List.perm_append_comm_assoc called w.skipped passed).append_left _
      List.Perm _ (w.settled.filter Entry.mutates ++ [e].filter Entry.mutates) :=
        h.handled.append handled
  · rw [hsettled, updates]
    exact h.updates.append hcalled
  · rw [hsettled, skipped]
    exact h.skipped.append hpassed

variable [DecidableEq ι] {host : Host} {app : ι → App} {s t : State ι App} {a : Action ι}

lemma entered_step (h : ∀ j, Entered (s.inst j)) (hs : Stepped host app s a t) :
    ∀ j, Entered (t.inst j) := by
  have keep : ∀ {i : ι} {w : Instance App}, Entered w → ∀ j, Entered ((s.setInst i w).inst j) :=
    fun hw => forall_setInst (P := fun _ w => Entered w) h hw
  cases hs with
  | client _ | tick _ => exact h
  | @pull i _ _ _ | @forward i _ _ _ => exact keep ((h i).move .rfl rfl)
  | @store i hd _ _ _ isolate _ | @mark i hd _ _ isolate =>
    exact keep ((h i).move .rfl (by rw [isolate]; rfl))
  | @deploy i hpc | @quit i hpc | @receive i _ _ hpc _ | @miss i _ hpc _ _ | @hit i _ _ hpc _ _
  | @deletion i _ hpc _ | @ignore i _ hpc _ | @unmark i _ hpc =>
    exact keep ((h i).move (by simp [hpc]) rfl)
  | sendUpdate _ _ => exact keep (iff_of_true rfl ⟨.onUpdate, rfl, rfl⟩)
  | sendDelete _ _ => exact keep (iff_of_true rfl ⟨.onDelete, rfl, rfl⟩)
  | @enter i hd isolate side =>
    refine keep (iff_of_false ?_ ?_)
    · intro hpc
      obtain ⟨h', hh, -⟩ := (h i).mp hpc
      rw [isolate] at hh
      contradiction
    · rintro ⟨h', hh, hw⟩
      obtain rfl := Option.some.inj hh
      exact absurd hw (by simp [side])
  | @leave i hd ok isolate =>
    refine keep (.outside ?_ rfl)
    cases hw : hd.ofWorker with
    | true => simp
    | false =>
      intro hpc
      obtain ⟨h', hh, hw'⟩ := (h i).mp hpc
      rw [isolate] at hh
      obtain rfl := Option.some.inj hh
      exact absurd hw' (by simp [hw])

lemma accounted_step (hf : ∀ j, Flow s.feed (s.inst j)) (he : ∀ j, Entered (s.inst j))
    (h : ∀ j, Accounted (s.inst j))
    (hs : Stepped host app s a t) : ∀ j, Accounted (t.inst j) := by
  have keep : ∀ {i : ι} {w : Instance App}, Accounted w → ∀ j, Accounted ((s.setInst i w).inst j) :=
    fun hw => forall_setInst (P := fun _ w => Accounted w) h hw
  cases hs with
  | client _ | tick _ => exact h
  | @pull i _ _ _ | @forward i _ _ _ | @enter i _ _ _ => exact keep ((h i).move rfl rfl rfl)
  | @store i _ _ _ _ _ _ => exact keep ((h i).move rfl rfl rfl)
  | @mark i _ _ _ _ => exact keep ((h i).move rfl rfl rfl)
  | @deploy i hpc | @quit i hpc | @receive i _ _ hpc _ | @miss i _ hpc _ _ | @hit i _ _ hpc _ _
  | @deletion i _ hpc _ =>
    exact keep ((h i).move (by simp [Instance.settled, WorkerPc.current, hpc]) rfl rfl)
  | @ignore i e hpc hop =>
    refine keep ((h i).settle (hf i) [] [] (by rw [hpc]; rfl) rfl rfl
      (by simp) (by simp) (by simp) (by simp) ?_)
    simp [Entry.mutates, hop]
  | @sendUpdate i e hpc _ =>
    refine keep ((h i).settle (hf i) [e] [] (by rw [hpc]; rfl) rfl rfl rfl
      (by simp) (List.Sublist.refl _) (by simp) ?_)
    have hop := (hf i).mutation e (.inl hpc)
    simp [Entry.mutates, hop]
  | @sendDelete i e hpc _ =>
    refine keep ((h i).settle (hf i) [] [] (by rw [hpc]; rfl) rfl rfl
      (by simp) (by simp) (by simp) (by simp) ?_)
    have hop := (hf i).deletion e hpc
    simp [Entry.mutates, hop]
  | @unmark i e hpc =>
    refine keep ((h i).settle (hf i) [] [e] (by rw [hpc]; rfl) rfl rfl
      (by simp) rfl (by simp) (List.Sublist.refl _) ?_)
    have hop := (hf i).mutation e (.inr hpc)
    simp [Entry.mutates, hop]
  | @leave i hd ok isolate =>
    apply keep
    cases hw : hd.ofWorker with
    | false => exact (h i).move rfl rfl rfl
    | true =>
      have hpc : (s.inst i).pc = .inHandler := (he i).mpr ⟨hd, by rw [isolate]; rfl, hw⟩
      exact (h i).move (by simp [Instance.settled, WorkerPc.current, hpc]) rfl rfl

def settledBy (s : State ι App) (i : ι) : Action ι → List (Entry App)
  | .lookup j =>
      if j = i then (s.inst i).pc.current.toList.filter fun e => e.event.opcode = .other else []
  | .send j | .unmark j => if j = i then (s.inst i).pc.current.toList else []
  | .client _ | .deploy _ | .pull _ | .forward _ | .receive _ | .tick _ | .enter _ _
  | .store _ _ _ _ | .mark _ | .leave _ _ | .quit _ => []

lemma settled_eq (hf : ∀ j, Flow s.feed (s.inst j)) (he : ∀ j, Entered (s.inst j))
    (hs : Stepped host app s a t) (i : ι) :
    (t.inst i).settled = (s.inst i).settled ++ settledBy s i a := by
  have own {j : ι} {w : Instance App} (hinst : t.inst = Function.update s.inst j w)
      (hnone : j ≠ i → settledBy s i a = [])
      (hj : j = i → w.settled = (s.inst i).settled ++ settledBy s i a) :
      (t.inst i).settled = (s.inst i).settled ++ settledBy s i a := by
    by_cases h : j = i
    · rw [hinst, ← hj h, h, Function.update_self]
    · rw [hinst, hnone h, Function.update_of_ne (Ne.symm h), List.append_nil]
  cases hs with
  | client _ | tick _ => simp [settledBy]
  | pull _ _ | forward _ _ | enter _ _ | store _ _ | mark _ =>
    refine own rfl (fun _ => rfl) ?_
    rintro rfl
    simp [settledBy, Instance.settled]
  | deploy hpc | quit hpc | receive hpc _ =>
    refine own rfl (fun _ => rfl) ?_
    rintro rfl
    simp [settledBy, Instance.settled, WorkerPc.current, hpc]
  | miss hpc hop _ | hit hpc hop _ | deletion hpc hop =>
    refine own rfl (fun h => if_neg h) ?_
    rintro rfl
    simp [settledBy, Instance.settled, WorkerPc.current, hpc, hop]
  | @ignore j e hpc hop =>
    refine own rfl (fun h => if_neg h) ?_
    rintro rfl
    refine Eq.trans (settled_of_current (hf j) (e := e) ?_ ?_ ?_) ?_
    · rw [hpc]
      rfl
    · rfl
    · rfl
    · simp [settledBy, WorkerPc.current, hpc, hop]
  | @sendUpdate j e hpc _ | @sendDelete j e hpc _ | @unmark j e hpc =>
    refine own rfl (fun h => if_neg h) ?_
    rintro rfl
    refine Eq.trans (settled_of_current (hf j) (e := e) ?_ ?_ ?_) ?_
    · rw [hpc]
      rfl
    · rfl
    · rfl
    · simp [settledBy, WorkerPc.current, hpc]
  | @leave j hd ok isolate =>
    refine own rfl (fun _ => rfl) ?_
    rintro rfl
    cases hw : hd.ofWorker with
    | false => simp [settledBy, Instance.settled]
    | true =>
      have hpc : (s.inst j).pc = .inHandler := (he j).mpr ⟨hd, by rw [isolate]; rfl, hw⟩
      simp [settledBy, Instance.settled, WorkerPc.current, hpc]

/-- What holds of every instance, whatever the handlers and the other instances do. -/
structure InOrder (s : State ι App) : Prop where
  flow : ∀ i, Flow s.feed (s.inst i)
  entered : ∀ i, Entered (s.inst i)
  accounted : ∀ i, Accounted (s.inst i)

omit [DecidableEq ι] in
lemma inOrder_initial : InOrder (initial : State ι App) where
  flow _ := ⟨rfl, Nat.le_refl _, nofun, by simp [initial, Instance.initial], nofun⟩
  entered _ := .outside (by simp [initial, Instance.initial]) rfl
  accounted _ := ⟨List.Perm.refl _, List.Sublist.refl _, List.Sublist.refl _⟩

lemma inOrder_step (h : InOrder s) (hs : Stepped host app s a t) : InOrder t where
  flow := flow_step h.flow hs
  entered := entered_step h.entered hs
  accounted := accounted_step h.flow h.entered h.accounted hs

/-- For any number of applications and whatever their handlers do: the mutations that an instance
has passed to `OnUpdate` and those that it has skipped are, each once and in their order, those of
the first messages of the stream, and when its worker is back in its `select` these are all that it
has received. -/
theorem handled_once (host : Host) (app : ι → App) (h : Reachable (step host app) initial s) (i : ι) :
    ∃ n ≤ s.feed.length,
      ((s.inst i).updates ++ (s.inst i).skipped).Perm ((s.feed.take n).filter Entry.mutates) ∧
      (s.inst i).updates.Sublist (s.feed.take n) ∧ (s.inst i).skipped.Sublist (s.feed.take n) ∧
      ((s.inst i).pc = .select → (s.inst i).taken = s.feed.take n) := by
  have hs : InOrder s := h.invariant inOrder_initial fun s a t hI _ hstep =>
    inOrder_step hI (step_stepped hstep)
  have htake := settled_eq_take (hs.flow i)
  have hacc := hs.accounted i
  refine ⟨(s.inst i).settled.length, ?_, ?_, ?_, ?_, ?_⟩
  · have hlen := congrArg List.length htake
    rw [List.length_take] at hlen
    omega
  · rw [← htake]
    exact hacc.handled
  · rw [← htake]
    exact hacc.updates
  · rw [← htake]
    exact hacc.skipped
  · intro hpc
    rw [← htake, Instance.settled, hpc]
    rfl

/-- An HTTP handler is between the two stores of `BucketSet` when its own change is looked up. -/
def busyRun : List (Action Unit) :=
  [.deploy (), .enter () .onHTTPGet, .store () ['b'] ['2'] 8#64, .pull (), .forward (), .receive (),
    .lookup (), .mark (), .leave () true, .send (), .leave () true]

theorem handled_once_busyRun : ∃ s : State Unit Unit,
    exec (step .littleEndian id) (fun _ _ => True) initial busyRun = some s ∧
      (s.inst ()).updates.length = 1 ∧ ∃ n ≤ s.feed.length,
        ((s.inst ()).updates ++ (s.inst ()).skipped).Perm ((s.feed.take n).filter Entry.mutates) ∧
        (s.inst ()).updates.Sublist (s.feed.take n) ∧ (s.inst ()).skipped.Sublist (s.feed.take n) ∧
        ((s.inst ()).pc = .select → (s.inst ()).taken = s.feed.take n) := by
  obtain ⟨s, hs, hreach, hp⟩ := exec_of_any (step .littleEndian id) (fun _ _ => True)
    (initial : State Unit Unit) busyRun (fun s => (s.inst ()).updates.length = 1) (by decide)
  exact ⟨s, hs, of_decide_eq_true hp, handled_once .littleEndian id hreach ()⟩

end Eventing.Pipeline
