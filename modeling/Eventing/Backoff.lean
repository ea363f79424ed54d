import Mathlib.Data.List.Basic
import Mathlib.Algebra.Order.Ring.Nat
import Mathlib.Tactic.Common

/-!
# Trying again after a pause

A service that may be down is called again after a pause, which doubles up to a limit. Times are
natural numbers. A loop of this kind need not end, so it comes with fuel.
-/
namespace Eventing.Backoff

variable {β γ : Type*}

/-- What a call at a time gives, if it succeeds, and how long it takes. -/
abbrev Service (β : Type*) := ℕ → Option β × ℕ

/-- From the fuel and the time of the start, the result and the time of the end. -/
abbrev Timed (β : Type*) := ℕ → ℕ → Option (β × ℕ)

def nextSleep (limit sleep : ℕ) : ℕ := if sleep < limit then sleep * 2 else sleep

def again (service : Service β) (limit : ℕ) : ℕ → ℕ → ℕ → Option (β × ℕ)
  | 0, _, _ => none
  | fuel + 1, sleep, now =>
      match service (now + sleep) with
      | (some b, took) => some (b, now + sleep + took)
      | (none, took) => again service limit fuel (nextSleep limit sleep) (now + sleep + took)

/-- A first call, and then one after each pause. -/
def retry (first service : Service β) (limit : ℕ) : Timed β := fun fuel now =>
  match first now with
  | (some b, took) => some (b, now + took)
  | (none, took) => again service limit fuel 1 (now + took)

def andThen (f : Timed β) (g : β → Timed γ) : Timed γ := fun fuel now =>
  (f fuel now).bind fun p => g p.1 fuel p.2

/-- No call takes longer than `d`, and what it gives is as it should be. -/
structure Prompt (d : ℕ) (p : β → Prop) (service : Service β) : Prop where
  took : ∀ now, (service now).2 ≤ d
  gives : ∀ now, ∀ b ∈ (service now).1, p b

def UpFrom (T : ℕ) (service : Service β) : Prop := ∀ now, T ≤ now → (service now).1.isSome

/-- What is started once the services are up takes `c`. What is started before is done `c` after
a last pause. -/
def deadline (T slack c now : ℕ) : ℕ := if T ≤ now then now + c else T + slack + c

def DoneBy (T slack c : ℕ) (p : β → Prop) (f : Timed β) : Prop :=
  ∀ fuel now, T < fuel →
    ∃ b e, f fuel now = some (b, e) ∧ p b ∧ now ≤ e ∧ e ≤ deadline T slack c now

variable {T d slack c c' k now e e' : ℕ} {p : β → Prop} {q : γ → Prop} {first service : Service β}

lemma deadline_trans (hnow : now ≤ e) (he : e ≤ deadline T slack c now)
    (he' : e' ≤ deadline T slack c' e) : e' ≤ deadline T slack (c + c') now := by
  unfold deadline at *
  split_ifs at * <;> omega

/-- The bounds of what runs one after the other add up, with one last pause for all of it. -/
theorem DoneBy.andThen {f : Timed β} {g : β → Timed γ} (hf : DoneBy T slack c p f)
    (hg : ∀ b, p b → DoneBy T slack c' q (g b)) :
    DoneBy T slack (c + c') q (andThen f g) := by
  intro fuel now hfuel
  obtain ⟨b, e, hfe, hb, hle, hdeadline⟩ := hf fuel now hfuel
  obtain ⟨b', e', hge, hb', hle', hdeadline'⟩ := hg b hb fuel e hfuel
  refine ⟨b', e', ?_, hb', hle.trans hle', deadline_trans hle hdeadline hdeadline'⟩
  rw [Backoff.andThen, hfe, Option.bind_some, hge]

lemma doneBy_pure {b : β} (hb : p b) : DoneBy T slack 0 p fun _ now => some (b, now) := by
  intro fuel now _
  refine ⟨b, now, rfl, hb, Nat.le_refl now, ?_⟩
  unfold deadline
  split_ifs <;> omega

lemma nextSleep_two_pow {j : ℕ} (hj : j ≤ k) : ∃ i ≤ k, nextSleep (2 ^ k) (2 ^ j) = 2 ^ i := by
  unfold nextSleep
  split_ifs with hlt
  · have hjk : j < k := (Nat.pow_lt_pow_iff_right (by decide)).mp hlt
    exact ⟨j + 1, hjk, (pow_succ 2 j).symm⟩
  · exact ⟨j, hj, rfl⟩

/-- Each call that fails is made while the services are down, and there are no more of these
than time has passed. -/
lemma again_done (hd : Prompt d p service) (hup : UpFrom T service) {fuel j : ℕ} (hj : j ≤ k)
    (hfuel : 0 < fuel) (hT : T ≤ now + fuel) :
    ∃ b e, again service (2 ^ k) fuel (2 ^ j) now = some (b, e) ∧ p b ∧ now ≤ e ∧
      (e ≤ now + 2 ^ j + d ∨ now + 2 ^ j < T ∧ e ≤ T + 2 ^ k + 2 * d) := by
  induction fuel generalizing j now with
  | zero => contradiction
  | succ fuel ih =>
    have htook := hd.took (now + 2 ^ j)
    have hgives := hd.gives (now + 2 ^ j)
    have hone : 0 < 2 ^ j := Nat.two_pow_pos j
    unfold again
    by_cases hsome : ∃ b, (service (now + 2 ^ j)).1 = some b
    · obtain ⟨b, hb⟩ := hsome
      obtain ⟨took, hs⟩ : ∃ took, service (now + 2 ^ j) = (some b, took) := ⟨_, Prod.ext hb rfl⟩
      rw [hs] at htook hgives ⊢
      exact ⟨b, _, rfl, hgives b rfl, by omega, .inl (Nat.add_le_add_left htook _)⟩
    · have hnone : (service (now + 2 ^ j)).1 = none := by
        rw [Option.eq_none_iff_forall_ne_some]
        exact fun b hb => hsome ⟨b, hb⟩
      have hdown : now + 2 ^ j < T := by
        by_contra hle
        have hisSome := hup _ (not_lt.mp hle)
        rw [hnone] at hisSome
        contradiction
      obtain ⟨took, hs⟩ : ∃ took, service (now + 2 ^ j) = (none, took) := ⟨_, Prod.ext hnone rfl⟩
      rw [hs] at htook ⊢
      obtain ⟨i, hi, hnext⟩ := nextSleep_two_pow hj
      have hpow : 2 ^ i ≤ 2 ^ k := Nat.pow_le_pow_right (by decide) hi
      obtain ⟨b, e, he, hb, hle, hbound⟩ :=
        ih hi (by omega) (show T ≤ now + 2 ^ j + took + fuel by omega)
      refine ⟨b, e, ?_, hb, by omega, .inr ⟨hdown, ?_⟩⟩
      · rw [hnext]
        exact he
      · simp only at htook
        omega

/-- Once the services are up, a retry takes one pause more at most than its calls; before, no
more than the last pause. -/
theorem doneBy_retry (hfirst : Prompt d p first) (hd : Prompt d p service)
    (hup : UpFrom T service) :
    DoneBy T (2 ^ k - 1) (1 + 2 * d) p (retry first service (2 ^ k)) := by
  intro fuel now hfuel
  have htook := hfirst.took now
  have hgives := hfirst.gives now
  have hlimit : 0 < 2 ^ k := Nat.two_pow_pos k
  unfold retry
  match hs : first now with
  | (some b, took) =>
    rw [hs] at htook hgives
    refine ⟨b, _, rfl, hgives b rfl, Nat.le_add_right _ _, ?_⟩
    unfold deadline
    split_ifs <;> simp only at htook <;> omega
  | (none, took) =>
    rw [hs] at htook
    obtain ⟨b, e, he, hb, hle, hbound⟩ :=
      again_done hd hup (Nat.zero_le k) (Nat.zero_lt_of_lt hfuel)
        (show T ≤ now + took + fuel by omega)
    refine ⟨b, e, he, hb, by omega, ?_⟩
    simp only [pow_zero] at htook hbound
    unfold deadline
    split_ifs <;> omega

end Eventing.Backoff
