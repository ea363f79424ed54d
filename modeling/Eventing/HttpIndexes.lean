import Eventing.HttpTables

/-!
# The tables and their back indexes

A back index holds one referrer for a worker and one prefix for an application, while
the tables get an entry for every HTTP entry. When each table and its back index stay
inverse, over all sequences of operations.
-/
namespace Eventing.HttpTables
open BackIndex Transition

variable {s t : Tables} {op : Operation} {cs : List HttpConfig}

/-- After the operation the tables and their back indexes are inverse, and what the
operation takes out has no entry left. -/
def Paired (s : Tables) (op : Operation) (t : Tables) : Prop :=
  t.referrers.Inverse ∧ t.uriPrefixes.Inverse ∧
    match op with
    | .quit handle => ∀ r, t.referrers.fwd r ≠ some handle
    | .storeAppSetup appName =>
        s.workerTable appName ≠ none → ∀ path, t.uriPrefixes.fwd path ≠ some appName
    | _ => True

/-- A worker enters at most one port, which no other worker has; an application enters
at most one prefix, which no other application has and which is the only one it has;
and an application without a prefix is not cleaned up while one has the empty prefix. -/
def OneEntry (s : Tables) : Operation → Prop
  | .loadApp _ cs => ∀ c ∈ cs, s.referrers.fwd c.referrer = none ∧ ∀ c' ∈ cs, c'.port = c.port
  | .performAppHTTPSetup appName cs => ∀ path ∈ paths cs,
      (s.uriPrefixes.fwd path = none ∨ s.uriPrefixes.fwd path = some appName) ∧
      (s.uriPrefixes.back appName = none ∨ s.uriPrefixes.back appName = some path) ∧
      ∀ path' ∈ paths cs, path' = path
  | .storeAppSetup appName => s.workerTable appName = none ∨
      s.uriPrefixes.back appName ≠ none ∨ s.uriPrefixes.fwd [] = none
  | .quit _ => True

structure Inv (s : Tables) : Prop where
  referrers : s.referrers.Inverse
  prefixes : s.uriPrefixes.Inverse
  fresh : ∀ h, s.handles ≤ h → s.referrers.back h = none
  nonempty : s.referrers.fwd [] = none

lemma referrer_injective {c c' : HttpConfig} : c.referrer = c'.referrer ↔ c.port = c'.port := by
  rw [HttpConfig.referrer, HttpConfig.referrer, List.append_cancel_left_eq]

lemma nil_notMem_referrers : [] ∉ cs.map HttpConfig.referrer := by
  intro h
  obtain ⟨c, -, hc⟩ := List.mem_map.mp h
  exact absurd (List.append_eq_nil_iff.mp hc).1 (by decide : localhost ≠ [])

lemma Inv.initial : Inv .initial where
  referrers _ _ := by simp [Tables.initial, Index.empty]
  prefixes _ _ := by simp [Tables.initial, Index.empty]
  fresh _ _ := rfl
  nonempty := rfl

/-- A new worker has no referrer yet, so a port that it may enter is free. -/
lemma Inv.loadApp_iff (h : Inv s) (cs : List HttpConfig) :
    (s.referrers.putAll s.handles (cs.map HttpConfig.referrer)).Inverse ↔
      ∀ c ∈ cs, s.referrers.fwd c.referrer = none ∧ ∀ c' ∈ cs, c'.port = c.port := by
  have hback := h.fresh s.handles (Nat.le_refl _)
  rw [Index.inverse_putAll_iff h.referrers]
  constructor
  · intro hi c hc
    obtain ⟨hfree, -, hone⟩ := hi c.referrer (List.mem_map_of_mem hc)
    refine ⟨hfree.resolve_right fun hown => ?_, fun c' hc' => ?_⟩
    · rw [h.referrers, hback] at hown
      simp at hown
    · exact referrer_injective.mp (hone c'.referrer (List.mem_map_of_mem hc'))
  · intro hc r hr
    obtain ⟨c, hcm, rfl⟩ := List.mem_map.mp hr
    refine ⟨.inl (hc c hcm).1, .inl hback, fun r' hr' => ?_⟩
    obtain ⟨c', hc', rfl⟩ := List.mem_map.mp hr'
    exact referrer_injective.mpr ((hc c hcm).2 c' hc')

theorem paired_iff_oneEntry (h : Inv s) (hs : step s op = some t) : Paired s op t ↔ OneEntry s op := by
  cases op with
  | loadApp a cs =>
    rw [step, Option.some.injEq] at hs
    subst hs
    have hr := h.loadApp_iff cs
    simp only [Paired, OneEntry, Tables.loadApp, hr]
    exact ⟨fun hp => hp.1, fun hc => ⟨hc, h.prefixes, trivial⟩⟩
  | performAppHTTPSetup a cs =>
    obtain ⟨hu, hr, -⟩ := performAppHTTPSetup_spec hs
    simp only [Paired, OneEntry, hu, hr, Index.inverse_putAll_iff h.prefixes]
    exact ⟨fun hp => hp.2.1, fun hc => ⟨h.referrers, hc, trivial⟩⟩
  | storeAppSetup a =>
    rw [step, Option.some.injEq] at hs
    subst hs
    cases hw : s.workerTable a with
    | none =>
      simp only [Paired, OneEntry, Tables.storeAppSetup, hw, true_or, iff_true]
      exact ⟨h.referrers, h.prefixes, fun hne => absurd rfl hne⟩
    | some w =>
      simp only [Paired, OneEntry, Tables.storeAppSetup, hw, reduceCtorEq, false_or,
        ← Index.inverse_remove_iff h.prefixes]
      constructor
      · exact fun hp => hp.2.1
      · exact fun hi => ⟨h.referrers, hi, fun _ path => Index.remove_fwd_ne hi path⟩
  | quit w =>
    rw [step, Option.some.injEq] at hs
    subst hs
    have hi : (s.referrers.remove [] w).Inverse :=
      (Index.inverse_remove_iff h.referrers).mpr (.inr h.nonempty)
    simp only [Paired, OneEntry, Tables.quit, iff_true]
    exact ⟨hi, h.prefixes, Index.remove_fwd_ne hi⟩

/-- A step after which the tables are paired keeps the rest of the invariant, too. -/
theorem Inv.step (h : Inv s) (hs : step s op = some t) (hp : Paired s op t) : Inv t := by
  cases op with
  | loadApp a cs =>
    rw [HttpTables.step, Option.some.injEq] at hs
    subst hs
    refine ⟨hp.1, hp.2.1, fun w hw => ?_, ?_⟩
    · have hlt : s.handles + 1 ≤ w := hw
      have hne : w ≠ s.handles := by omega
      exact (Index.putAll_back_of_ne hne).trans (h.fresh w (by omega))
    · exact (Index.putAll_fwd _).trans ((if_neg nil_notMem_referrers).trans h.nonempty)
  | performAppHTTPSetup a cs =>
    obtain ⟨-, hr, -, hh, -⟩ := performAppHTTPSetup_spec hs
    exact ⟨hp.1, hp.2.1, by rw [hr, hh]; exact h.fresh, by rw [hr]; exact h.nonempty⟩
  | storeAppSetup a =>
    rw [HttpTables.step, Option.some.injEq] at hs
    subst hs
    exact ⟨hp.1, hp.2.1, h.fresh, h.nonempty⟩
  | quit w =>
    rw [HttpTables.step, Option.some.injEq] at hs
    subst hs
    refine ⟨hp.1, hp.2.1, fun w' hw' => ?_, ?_⟩
    · exact Index.remove_back_none (h.fresh w' hw')
    · exact Index.remove_fwd_none h.nonempty

/-- Over every sequence of deployments, redeployments and `Quit`s, the tables stay
inverse exactly when every operation keeps to one entry. -/
theorem paired_along_iff (ops : List Operation) :
    Along step Paired .initial ops ↔ Along step (fun s op _ => OneEntry s op) .initial ops :=
  along_iff Inv.initial (fun _ _ _ => paired_iff_oneEntry) (fun _ _ _ => Inv.step) ops

instance (s : Tables) : DecidablePred (OneEntry s)
  | .loadApp _ cs => inferInstanceAs (Decidable (∀ c ∈ cs, _ ∧ ∀ c' ∈ cs, _))
  | .performAppHTTPSetup _ cs =>
      inferInstanceAs (Decidable (∀ path ∈ paths cs, _ ∧ _ ∧ ∀ path' ∈ paths cs, _))
  | .storeAppSetup _ => inferInstanceAs (Decidable (_ ∨ _ ∨ _))
  | .quit _ => isTrue trivial

def entry (port : Char) (name : Text) : HttpConfig := ⟨[port], '/' :: name ++ ['/']⟩

/-- An application that is deployed twice, the first worker quitting in between. -/
theorem paired_redeploy : Along step Paired .initial
    [.loadApp ['a'] [entry '8' ['a']], .performAppHTTPSetup ['a'] [entry '8' ['a']],
      .storeAppSetup ['a'], .quit 0, .loadApp ['a'] [entry '8' ['a']],
      .performAppHTTPSetup ['a'] [entry '8' ['a']]] :=
  (paired_along_iff _).mpr (by decide)

/-- With two ports the back index holds the second one alone, and after `Quit` the first
one is still in the table. -/
theorem not_paired_twoPorts : ¬ Along step Paired .initial
    [.loadApp ['a'] [entry '8' ['a'], entry '9' ['a']], .quit 0] := by
  intro h
  have hleft := (h _ rfl).2 _ rfl
  exact hleft.1.2.2 (entry '8' ['a']).referrer (by decide)

end Eventing.HttpTables
