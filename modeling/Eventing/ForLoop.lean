import Mathlib.Logic.Function.Basic
import Mathlib.Tactic.Common

/-!
# Loops that count in a variable of the state

`for (i = 0; i < limit; i++) body`, where the body is executed in the same state and may assign
the variable, too.
-/
namespace Eventing.ForLoop

structure Counter (σ : Type*) where
  get : σ → Option ℕ
  set : ℕ → σ → σ
  get_set : ∀ n s, get (set n s) = some n

namespace Counter
variable {σ : Type*} (c : Counter σ)

/-- `i++` -/
def increment (s : σ) : σ :=
  match c.get s with
  | some i => c.set (i + 1) s
  | none => s

/-- The loop from its test on: the state behind it and how often the body has been executed.
There is no result when the fuel runs out or the body has none. -/
def loop (limit : ℕ) (body : σ → Option σ) : ℕ → σ → Option (σ × ℕ)
  | 0, _ => none
  | fuel + 1, s =>
      if (c.get s).any (· < limit) then do
        let s ← body s
        let r ← loop limit body fuel (c.increment s)
        return (r.1, r.2 + 1)
      else some (s, 0)

/-- `for (i = 0; i < limit; i++) body` -/
def forLoop (limit : ℕ) (body : σ → Option σ) (fuel : ℕ) (s : σ) : Option (σ × ℕ) :=
  c.loop limit body fuel (c.set 0 s)

def Executes (limit : ℕ) (body : σ → Option σ) (s : σ) (n : ℕ) : Prop :=
  ∃ fuel t, c.forLoop limit body fuel s = some (t, n)

variable {c} {limit k i : ℕ} {body : σ → Option σ} {s t : σ}

lemma increment_of_get (h : c.get s = some i) : c.increment s = c.set (i + 1) s := by
  rw [increment, h]

lemma loop_of_lt (h : c.get s = some i) (hi : i < limit) (hb : body s = some t) (fuel : ℕ) :
    c.loop limit body (fuel + 1) s =
      (c.loop limit body fuel (c.increment t)).map fun r => (r.1, r.2 + 1) := by
  rw [loop, h]
  simp only [Option.any_some, hi, decide_true, if_true, hb, Option.bind_eq_bind,
    Option.bind_some]
  cases c.loop limit body fuel (c.increment t) <;> rfl

lemma loop_of_le (h : c.get s = some i) (hi : limit ≤ i) (fuel : ℕ) :
    c.loop limit body (fuel + 1) s = some (s, 0) := by
  rw [loop, h]
  simp [Nat.not_lt.mpr hi]

/-- A body that leaves the counter alone is executed as often as the limit says, and keeps what
each execution keeps. -/
theorem forLoop_rule {P : ℕ → σ → Prop} (init : P 0 (c.set 0 s))
    (keep : ∀ i s, i < limit → c.get s = some i → P i s →
      ∃ t, body s = some t ∧ c.get t = some i ∧ P (i + 1) (c.set (i + 1) t)) :
    ∃ t, c.forLoop limit body (limit + 1) s = some (t, limit) ∧ P limit t := by
  have from_test : ∀ n i s, i + n = limit → c.get s = some i → P i s →
      ∃ t, c.loop limit body (n + 1) s = some (t, n) ∧ P limit t := by
    intro n
    induction n with
    | zero =>
      intro i s hi hs hP
      obtain rfl : i = limit := hi
      exact ⟨s, loop_of_le hs (Nat.le_refl i) 0, hP⟩
    | succ n ih =>
      intro i s hi hs hP
      obtain ⟨t, hb, ht, hP'⟩ := keep i s (by omega) hs hP
      obtain ⟨u, hu, hPu⟩ := ih (i + 1) (c.set (i + 1) t) (by omega) (c.get_set _ _) hP'
      refine ⟨u, ?_, hPu⟩
      rw [loop_of_lt hs (by omega) hb, increment_of_get ht, hu]
      rfl
  exact from_test limit 0 (c.set 0 s) (Nat.zero_add limit) (c.get_set 0 s) init

/-- A body that sets the counter back never lets the loop end. -/
lemma loop_eq_none (hbody : ∀ s, ∃ t, body s = some t ∧ c.get t = some k) (hk : k + 1 < limit)
    (fuel : ℕ) (hs : c.get s = some (k + 1)) : c.loop limit body fuel s = none := by
  induction fuel generalizing s with
  | zero => rfl
  | succ fuel ih =>
    obtain ⟨t, hb, ht⟩ := hbody s
    rw [loop_of_lt hs hk hb, increment_of_get ht, ih (c.get_set _ _)]
    rfl

/-- A body that sets the counter is executed as often as the limit says when that is at most
once. -/
theorem executes_limit_iff (hbody : ∀ s, ∃ t, body s = some t ∧ c.get t = some k) (s : σ) :
    c.Executes limit body s limit ↔ limit ≤ 1 := by
  have hzero : c.get (c.set 0 s) = some 0 := c.get_set 0 s
  obtain ⟨t, hb, ht⟩ := hbody (c.set 0 s)
  have hnext : c.get (c.set (k + 1) t) = some (k + 1) := c.get_set _ _
  constructor
  · rintro ⟨fuel, u, h⟩
    by_contra hlimit
    obtain ⟨fuel, rfl⟩ : ∃ f, fuel = f + 1 := by
      cases fuel with
      | zero => contradiction
      | succ fuel => exact ⟨fuel, rfl⟩
    rw [forLoop, loop_of_lt hzero (by omega) hb, increment_of_get ht] at h
    by_cases hk : k + 1 < limit
    · rw [loop_eq_none hbody hk fuel hnext] at h
      contradiction
    · obtain ⟨r, hr, hru⟩ := Option.map_eq_some_iff.mp h
      cases fuel with
      | zero => contradiction
      | succ fuel =>
        rw [loop_of_le hnext (by omega)] at hr
        obtain rfl := Option.some.inj hr
        have hcount := congrArg Prod.snd hru
        simp only at hcount
        omega
  · intro hlimit
    by_cases hl : limit = 0
    · subst hl
      exact ⟨1, c.set 0 s, loop_of_le hzero (Nat.le_refl 0) 0⟩
    · obtain rfl : limit = 1 := by omega
      refine ⟨2, c.set (k + 1) t, ?_⟩
      rw [forLoop, loop_of_lt hzero Nat.zero_lt_one hb, increment_of_get ht,
        loop_of_le hnext (by omega)]
      rfl

end Counter

end Eventing.ForLoop
