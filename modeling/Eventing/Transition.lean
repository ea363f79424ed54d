import Mathlib.Data.List.Basic
import Mathlib.Tactic.Common

/-!
# Runs of a partial step function

A concurrent program is given by a partial function that says what each atomic
action of each party does in a state, `none` standing for an action that is not
enabled. A run picks any enabled action at each point, so a statement over all
runs is a statement over all interleavings.
-/
namespace Eventing.Transition

variable {σ α β : Type*} {step : σ → α → Option σ} {ok : σ → α → Prop} {s₀ s t : σ}

/-- The states reached from `s₀` by a run all of whose steps are taken in a
state and with an action that meet `ok`. -/
inductive Reach (step : σ → α → Option σ) (ok : σ → α → Prop) (s₀ : σ) : σ → Prop
  | refl : Reach step ok s₀ s₀
  | tail {s t : σ} {a : α} (prior : Reach step ok s₀ s) (meets : ok s a)
      (taken : step s a = some t) : Reach step ok s₀ t

/-- Runs without a condition on their steps. -/
abbrev Reachable (step : σ → α → Option σ) (s₀ : σ) : σ → Prop :=
  Reach step (fun _ _ => True) s₀

/-- The invariant rule: what holds initially and is kept by every step that
meets the condition holds in every state reached. -/
theorem Reach.invariant {I : σ → Prop} (h : Reach step ok s₀ s) (init : I s₀)
    (keep : ∀ s a t, I s → ok s a → step s a = some t → I t) : I s := by
  induction h with
  | refl => exact init
  | tail _ hok hs ih => exact keep _ _ _ ih hok hs

lemma Reach.trans (h : Reach step ok s₀ s) (g : Reach step ok s t) :
    Reach step ok s₀ t := by
  induction g with
  | refl => exact h
  | tail _ hok hs ih => exact ih.tail hok hs

lemma Reach.reachable (h : Reach step ok s₀ s) : Reachable step s₀ s := by
  induction h with
  | refl => exact .refl
  | tail _ _ hs ih => exact ih.tail trivial hs

lemma Reach.one {a : α} (hok : ok s a) (hs : step s a = some t) : Reach step ok s t :=
  Reach.refl.tail hok hs

/-- Where every step is matched by a run of another system, a run is. -/
theorem Reach.simulated {σ' α' : Type*} {step' : σ' → α' → Option σ'} {R : σ → σ' → Prop}
    {u : σ'} (h : Reach step ok s₀ s) (init : R s₀ u)
    (sim : ∀ s a t u, Reach step ok s₀ s → R s u → ok s a → step s a = some t →
      ∃ v, Reachable step' u v ∧ R t v) : ∃ v, Reachable step' u v ∧ R s v := by
  induction h with
  | refl => exact ⟨u, .refl, init⟩
  | tail hp hok hs ih =>
    obtain ⟨v, hv, hR⟩ := ih
    obtain ⟨w, hw, hR'⟩ := sim _ _ _ v hp hR hok hs
    exact ⟨w, hv.trans hw, hR'⟩

theorem Reach.simulated_meets {σ' α' : Type*} {step' : σ' → α' → Option σ'} {ok' : σ' → α' → Prop}
    {R : σ → σ' → Prop} {u : σ'} (h : Reach step ok s₀ s) (init : R s₀ u)
    (sim : ∀ s a t u, R s u → ok s a → step s a = some t → ∃ v, Reach step' ok' u v ∧ R t v) :
    ∃ v, Reach step' ok' u v ∧ R s v := by
  induction h with
  | refl => exact ⟨u, .refl, init⟩
  | tail _ hok hs ih =>
    obtain ⟨v, hv, hR⟩ := ih
    obtain ⟨w, hw, hR'⟩ := sim _ _ _ v hR hok hs
    exact ⟨w, hv.trans hw, hR'⟩

/-- What `f` reads of a state is the same in every continuation of the run. -/
def Stays (step : σ → α → Option σ) (f : σ → β) (s : σ) : Prop :=
  ∀ t, Reachable step s t → f t = f s

/-- What every step from a state of the invariant leaves as it is stays for ever. -/
theorem stays_of_step {f : σ → β} {I : σ → Prop} (init : I s)
    (keep : ∀ s a t, I s → step s a = some t → I t ∧ f t = f s) : Stays step f s := by
  intro t ht
  have h : I t ∧ f t = f s := by
    refine ht.invariant (I := fun t => I t ∧ f t = f s) ⟨init, rfl⟩ ?_
    intro u a v hu _ hs
    obtain ⟨hv, he⟩ := keep u a v hu.1 hs
    exact ⟨hv, he.trans hu.2⟩
  exact h.2

/-- Every step that the actions take from `s`, one after the other, meets `p`. -/
def Along (step : σ → α → Option σ) (p : σ → α → σ → Prop) : σ → List α → Prop
  | _, [] => True
  | s, a :: as => ∀ t, step s a = some t → p s a t ∧ Along step p t as

instance Along.decidable {p : σ → α → σ → Prop} [∀ s a t, Decidable (p s a t)] :
    ∀ (as : List α) (s : σ), Decidable (Along step p s as)
  | [], _ => isTrue trivial
  | a :: as, s =>
      have (t : σ) : Decidable (Along step p t as) := Along.decidable as t
      decidable_of_iff (∀ t, t ∈ step s a → p s a t ∧ Along step p t as) Iff.rfl

/-- Where the condition decides each step taken from a state of the invariant, and a
step that does what it should keeps the invariant, the condition decides whole runs. -/
theorem along_iff {I : σ → Prop} {p : σ → α → σ → Prop} (init : I s₀)
    (decides : ∀ s a t, I s → step s a = some t → (p s a t ↔ ok s a))
    (keep : ∀ s a t, I s → step s a = some t → p s a t → I t) (as : List α) :
    Along step p s₀ as ↔ Along step (fun s a _ => ok s a) s₀ as := by
  induction as generalizing s₀ with
  | nil => exact Iff.rfl
  | cons a as ih =>
    simp only [Along]
    constructor
    · intro h t ht
      have hp := (h t ht).1
      exact ⟨(decides _ _ _ init ht).mp hp, (ih (keep _ _ _ init ht hp)).mp (h t ht).2⟩
    · intro h t ht
      have hp := (decides _ _ _ init ht).mpr (h t ht).1
      exact ⟨hp, (ih (keep _ _ _ init ht hp)).mpr (h t ht).2⟩

/-- Execute a list of actions, stopping at the first one that is not enabled or
does not meet the condition. -/
def exec (step : σ → α → Option σ) (ok : σ → α → Prop) [∀ s a, Decidable (ok s a)] :
    σ → List α → Option σ
  | s, [] => some s
  | s, a :: as => if ok s a then (step s a).bind (exec step ok · as) else none

theorem exec_reach [∀ s a, Decidable (ok s a)] {as : List α}
    (h : exec step ok s as = some t) : Reach step ok s t := by
  induction as generalizing s with
  | nil =>
    simp only [exec, Option.some.injEq] at h
    subst h
    exact .refl
  | cons a as ih =>
    simp only [exec] at h
    split_ifs at h with hok
    obtain ⟨u, hu, hr⟩ := Option.bind_eq_some_iff.mp h
    exact (Reach.one hok hu).trans (ih hr)

/-- What each step that is as it should be keeps, holds at the end of a run of such steps. -/
theorem Along.invariant {I : σ → Prop} {p : σ → α → σ → Prop} {as : List α}
    (h : Along step p s as) (hexec : exec step (fun _ _ => True) s as = some t) (init : I s)
    (keep : ∀ s a t, I s → p s a t → step s a = some t → I t) : I t := by
  induction as generalizing s with
  | nil =>
    obtain rfl := Option.some.inj hexec
    exact init
  | cons a as ih =>
    simp only [exec, if_true] at hexec
    obtain ⟨u, hu, hr⟩ := Option.bind_eq_some_iff.mp hexec
    obtain ⟨hp, hrest⟩ := h u hu
    exact ih hrest hr (keep s a u init hp hu)

/-- What no step brings back held before a run at whose end it holds. -/
theorem exec_back {I p : σ → Prop} {as : List α} (init : I s)
    (keep : ∀ s a t, I s → step s a = some t → I t)
    (back : ∀ s a t, I s → step s a = some t → p t → p s)
    (hexec : exec step (fun _ _ => True) s as = some t) (hp : p t) : p s := by
  induction as generalizing s with
  | nil =>
    obtain rfl := Option.some.inj hexec
    exact hp
  | cons a as ih =>
    simp only [exec, if_true] at hexec
    obtain ⟨u, hu, hr⟩ := Option.bind_eq_some_iff.mp hexec
    exact back s a u init hu (ih (keep s a u init hu) hr)

/-- What never comes back once it is lost holds all along a run exactly when it holds at
the end. -/
theorem along_iff_last {I p : σ → Prop} {as : List α} (init : I s)
    (keep : ∀ s a t, I s → step s a = some t → I t)
    (back : ∀ s a t, I s → step s a = some t → p t → p s) (hp : p s)
    (hexec : exec step (fun _ _ => True) s as = some t) :
    Along step (fun _ _ t => p t) s as ↔ p t := by
  induction as generalizing s with
  | nil =>
    obtain rfl := Option.some.inj hexec
    exact iff_of_true trivial hp
  | cons a as ih =>
    simp only [exec, if_true] at hexec
    obtain ⟨u, hu, hr⟩ := Option.bind_eq_some_iff.mp hexec
    have hlast (hpu : p u) := ih (keep s a u init hu) hpu hr
    constructor
    · intro h
      obtain ⟨hpu, hrest⟩ := h u hu
      exact (hlast hpu).mp hrest
    · intro hpt v hv
      obtain rfl := Option.some.inj (hu.symm.trans hv)
      have hpu : p u := exec_back (keep s a u init hu) keep back hr hpt
      exact ⟨hpu, (hlast hpu).mpr hpt⟩

theorem exec_of_any (step : σ → α → Option σ) (ok : σ → α → Prop) [∀ s a, Decidable (ok s a)]
    (s : σ) (as : List α) (p : σ → Bool) (h : (exec step ok s as).any p = true) :
    ∃ t, exec step ok s as = some t ∧ Reach step ok s t ∧ p t = true := by
  obtain ⟨t, ht, hp⟩ := (Option.any_eq_true _ _).mp h
  exact ⟨t, ht, exec_reach ht, hp⟩

/-- Two systems whose steps for the same action are related at related states, are related
at the ends of their runs, and one has a run where the other has one. -/
theorem exec_rel {σ' : Type*} {step' : σ' → α → Option σ'} {R : σ → σ' → Prop} {u : σ'}
    {as : List α} (h : R s u)
    (sim : ∀ s u, R s u → ∀ a ∈ as, (step s a).Rel R (step' u a)) :
    (exec step (fun _ _ => True) s as).Rel R (exec step' (fun _ _ => True) u as) := by
  induction as generalizing s u with
  | nil => exact .some h
  | cons a as ih =>
    simp only [exec, if_true]
    have hone := sim s u h a List.mem_cons_self
    generalize step s a = x at hone
    generalize step' u a = y at hone
    cases hone with
    | none => exact .none
    | some hR => exact ih hR fun s u hsu b hb => sim s u hsu b (List.mem_cons_of_mem a hb)

/-- What the steps of a run give, one after the other. -/
def collect (step : σ → α → Option σ) (f : σ → α → List β) : σ → List α → List β
  | _, [] => []
  | s, a :: as => f s a ++ ((step s a).map fun t => collect step f t as).getD []

/-- The steps together with a journal of what they give. -/
def journaled (step : σ → α → Option σ) (f : σ → α → List β) (s : σ × List β) (a : α) :
    Option (σ × List β) :=
  (step s.1 a).map fun t => (t, s.2 ++ f s.1 a)

theorem reach_journaled {f : σ → α → List β} [∀ s a, Decidable (ok s a)] {as : List α}
    (journal : List β) (h : exec step ok s as = some t) :
    Reach (journaled step f) (fun p a => ok p.1 a) (s, journal)
      (t, journal ++ collect step f s as) := by
  induction as generalizing s journal with
  | nil =>
    obtain rfl := Option.some.inj h
    rw [collect, List.append_nil]
    exact .refl
  | cons a as ih =>
    simp only [exec] at h
    split_ifs at h with hok
    obtain ⟨u, hu, hr⟩ := Option.bind_eq_some_iff.mp h
    have hone : journaled step f (s, journal) a = some (u, journal ++ f s a) := by
      rw [journaled, hu, Option.map_some]
    have hrest := ih (journal ++ f s a) hr
    rw [List.append_assoc] at hrest
    rw [collect, hu, Option.map_some, Option.getD_some]
    have hfirst :
        Reach (journaled step f) (fun p a => ok p.1 a) (s, journal) (u, journal ++ f s a) :=
      Reach.one hok hone
    exact hfirst.trans hrest

/-- Where each step that meets the condition keeps a balance of what goes in and what comes
out, a whole run does. -/
theorem collect_balance {into out : σ → α → List β} {f : σ → List β} {I : σ → Prop}
    [∀ s a, Decidable (ok s a)] {as : List α} (init : I s)
    (one : ∀ s a t, I s → ok s a → step s a = some t → I t ∧ out s a ++ f t = f s ++ into s a)
    (h : exec step ok s as = some t) :
    collect step out s as ++ f t = f s ++ collect step into s as := by
  induction as generalizing s with
  | nil =>
    obtain rfl := Option.some.inj h
    simp [collect]
  | cons a as ih =>
    simp only [exec] at h
    split_ifs at h with hok
    obtain ⟨u, hu, hr⟩ := Option.bind_eq_some_iff.mp h
    obtain ⟨hI, hone⟩ := one s a u init hok hu
    simp only [collect, hu, Option.map_some, Option.getD_some]
    rw [List.append_assoc, ih hI hr, ← List.append_assoc, hone, List.append_assoc]

/-- A run of steps each of which brings a measure down is at most as long as the measure. -/
theorem exec_length_le {I : σ → Prop} {f : σ → ℕ} [∀ s a, Decidable (ok s a)] {as : List α}
    (init : I s) (down : ∀ s a t, I s → ok s a → step s a = some t → I t ∧ f t < f s)
    (h : exec step ok s as = some t) : as.length + f t ≤ f s := by
  induction as generalizing s with
  | nil =>
    obtain rfl := Option.some.inj h
    simp
  | cons a as ih =>
    simp only [exec] at h
    split_ifs at h with hok
    obtain ⟨u, hu, hr⟩ := Option.bind_eq_some_iff.mp h
    obtain ⟨hI, hlt⟩ := down s a u init hok hu
    have hrest := ih hI hr
    rw [List.length_cons]
    omega

/-- Some run of such steps ends where none is left. -/
theorem exists_exec_stuck {I : σ → Prop} {f : σ → ℕ} [∀ s a, Decidable (ok s a)] (init : I s)
    (down : ∀ s a t, I s → ok s a → step s a = some t → I t ∧ f t < f s) :
    ∃ as t, exec step ok s as = some t ∧ ∀ a, ok t a → step t a = none := by
  induction hn : f s using Nat.strongRecOn generalizing s with
  | _ n ih =>
    by_cases hstuck : ∀ a, ok s a → step s a = none
    · exact ⟨[], s, rfl, hstuck⟩
    · push Not at hstuck
      obtain ⟨a, hok, hne⟩ := hstuck
      obtain ⟨u, hu⟩ := Option.ne_none_iff_exists'.mp hne
      obtain ⟨hI, hlt⟩ := down s a u init hok hu
      obtain ⟨as, t, ht, hend⟩ := ih (f u) (hn ▸ hlt) hI rfl
      refine ⟨a :: as, t, ?_, hend⟩
      rw [exec, if_pos hok, hu, Option.bind_some, ht]

end Eventing.Transition
