import Eventing.Timestamp

/-!
# The key that is stored and the key that is polled

`ConvertToISO8601` (`worker.cc`) formats the fields of `gmtime` into a buffer;
`processTimerEvent` (`proccess_timer_callbacks.go`) takes the fields of the clock apart,
puts them together without the fraction of the second, goes back two seconds and formats
the fields of that. Instants of the Go clock are nanoseconds since 1970.
-/
namespace Eventing.Timestamp
open Decimal

/-- `strftime` with `%FT%T` into a buffer, which has room for a closing NUL. -/
def strftimeInto (size : ℕ) (tm : Tm) : Option Text :=
  if (strftime tm).length < size then some (strftime tm) else none

def storedKey (s : ℤ) : Option Text := strftimeInto 20 (gmtime s)

def utc (t : ℤ) : Tm := gmtime (t / 1000000000)

/-- The time that `NewISO8601` gives for an instant, in whole seconds. -/
def newISO8601At (t : ℤ) : ℤ := timeDate (utc t) - 2

/-- `strftime.Format` with `%Y-%m-%dT%H:%M:%S`. Go writes the year with its sign. -/
def goFormat (tm : Tm) : Text :=
  if tm.year < 0 then '-' :: strftime { tm with year := -tm.year } else strftime tm

def polledKey (t : ℤ) : Text := goFormat (gmtime (newISO8601At t))

def endOfYear9999 : ℤ := timeDate ⟨9999, 12, 31, 23, 59, 59⟩

example : endOfYear9999 = 253402300799 := by decide

/-- The two seconds are taken off a number of seconds, whatever fields they cross. -/
lemma newISO8601At_eq (t : ℤ) : newISO8601At t = t / 1000000000 - 2 := by
  simp [newISO8601At, utc]

lemma length_padded {width n : ℕ} (hw : 0 < width) (h : n < 10 ^ width) :
    (padded width n).length = width := by
  have hle : (decimal n).length ≤ width := (Nat.length_toDigits_le_iff (by decide) hw).mpr h
  simp only [padded, List.length_append, List.length_replicate]
  omega

lemma gmtime_bounds (t : ℤ) :
    0 ≤ (gmtime t).mon ∧ (gmtime t).mon < 100 ∧ 0 ≤ (gmtime t).mday ∧ (gmtime t).mday < 100 ∧
      0 ≤ (gmtime t).hour ∧ (gmtime t).hour < 100 ∧ 0 ≤ (gmtime t).min ∧ (gmtime t).min < 100 ∧
      0 ≤ (gmtime t).sec ∧ (gmtime t).sec < 100 := by
  have hb := civil_bounds (t / 86400)
  simp only [gmtime]
  omega

lemma year_le_9999 {t : ℤ} (h : t ≤ endOfYear9999) : (gmtime t).year ≤ 9999 := by
  have hday : t / 86400 ≤ 2932896 := by
    have he : endOfYear9999 = 253402300799 := by decide
    omega
  have hb := civil_bounds (t / 86400)
  have hd := dayOfCivil_civil (t / 86400)
  simp only [gmtime]
  generalize hc : civil (t / 86400) = c at *
  simp only [dayOfCivil] at hd
  by_contra hy
  split_ifs at hd <;> omega

lemma length_strftime {t : ℤ} (h : t ≤ endOfYear9999) :
    (strftime (gmtime t)).length = 19 := by
  have hy := year_le_9999 h
  obtain ⟨hm0, hm, hd0, hd, ho0, ho, hi0, hi, hs0, hs⟩ := gmtime_bounds t
  have hyear : (padded 4 (gmtime t).year.toNat).length = 4 :=
    length_padded (by decide) (by omega)
  have htwo : ∀ f : ℤ, f < 100 → (padded 2 f.toNat).length = 2 := by
    intro f hf
    exact length_padded (by decide) (by omega)
  simp only [strftime, List.length_append, List.length_cons, hyear, htwo _ hm, htwo _ hd,
    htwo _ ho, htwo _ hi, htwo _ hs]

/-- Up to the end of the year 9999 the key fits into the buffer. -/
lemma storedKey_eq {s : ℤ} (h : s ≤ endOfYear9999) :
    storedKey s = some (strftime (gmtime s)) := by
  unfold storedKey strftimeInto
  rw [length_strftime h, if_pos (by decide)]

lemma gmtime_nonneg_of_year {t : ℤ} (h : 0 ≤ (gmtime t).year) : (gmtime t).Nonneg := by
  have hb := gmtime_bounds t
  unfold Tm.Nonneg
  omega

lemma sign_cons_ne_padded {width n : ℕ} {xs ys : Text} : '-' :: xs ≠ padded width n ++ ys := by
  intro h
  have hne : padded width n ≠ [] := by
    intro he
    have hl := congrArg List.length he
    have hd : 0 < (decimal n).length := Nat.length_toDigits_pos
    simp only [padded, List.length_append, List.length_nil] at hl
    omega
  obtain ⟨c, cs, hc⟩ := List.exists_cons_of_ne_nil hne
  rw [hc, List.cons_append, List.cons.injEq] at h
  have hdigit : '-' ∈ padded width n := by
    rw [hc, h.1]
    exact List.mem_cons_self
  exact notMem_padded (by decide) hdigit

/-- No two seconds have the same text, also when one is formatted by each side. -/
lemma goFormat_eq_strftime {u s : ℤ} (h0 : 0 ≤ s) (h : goFormat (gmtime u) = strftime (gmtime s)) :
    u = s := by
  unfold goFormat at h
  split_ifs at h with hy
  · exact absurd h sign_cons_ne_padded
  · have hs : (gmtime s).Nonneg := gmtime_nonneg (by unfold earliest; omega)
    have htm := strftime_inj (gmtime_nonneg_of_year (not_lt.mp hy)) hs h
    have ht := congrArg timeDate htm
    simpa only [timeDate_gmtime] using ht

lemma goFormat_gmtime {s : ℤ} (h0 : 0 ≤ s) : goFormat (gmtime s) = strftime (gmtime s) := by
  have hs : (gmtime s).Nonneg := gmtime_nonneg (by unfold earliest; omega)
  unfold goFormat
  rw [if_neg (not_lt.mpr hs.1)]

lemma storedKey_eq_polledKey {s t : ℤ} (h0 : 0 ≤ s) (h1 : s ≤ endOfYear9999) :
    storedKey s = some (polledKey t) ↔ t / 1000000000 = s + 2 := by
  rw [storedKey_eq h1, Option.some.injEq, polledKey, newISO8601At_eq]
  constructor
  · intro h
    have hu := goFormat_eq_strftime h0 h.symm
    omega
  · intro h
    have hu : t / 1000000000 - 2 = s := by omega
    rw [hu, goFormat_gmtime h0]

/-- A list that is stored is polled at the instants of one second, two seconds after its
own. The keys tell all seconds apart, and a second is over when its list is polled. -/
theorem stored_polled_two_seconds_later :
    (∀ s t : ℤ, 0 ≤ s → s ≤ endOfYear9999 →
      (storedKey s = some (polledKey t) ↔ t / 1000000000 = s + 2)) ∧
    (∀ s s' : ℤ, 0 ≤ s → s ≤ endOfYear9999 → 0 ≤ s' → s' ≤ endOfYear9999 →
      storedKey s = storedKey s' → s = s') ∧
    (∀ t : ℤ, newISO8601At t = t / 1000000000 - 2) ∧
    (∀ s t : ℤ, 0 ≤ s → s ≤ endOfYear9999 → storedKey s = some (polledKey t) →
      (s + 1) * 1000000000 ≤ t) := by
  refine ⟨fun s t h0 h1 => storedKey_eq_polledKey h0 h1, ?_, newISO8601At_eq, ?_⟩
  · intro s s' h0 h1 h0' h1' h
    rw [storedKey_eq h1, storedKey_eq h1', Option.some.injEq, ← goFormat_gmtime h0] at h
    exact goFormat_eq_strftime h0' h
  · intro s t h0 h1 h
    have hsec := (storedKey_eq_polledKey h0 h1).mp h
    omega

/-- The list of the leap day's last second is polled in the second second of March. -/
theorem stored_polled_leap_day :
    storedKey (timeDate ⟨2016, 2, 29, 23, 59, 59⟩) =
      some (polledKey (timeDate ⟨2016, 3, 1, 0, 0, 1⟩ * 1000000000 + 999999999)) :=
  (stored_polled_two_seconds_later.1 _ _ (by decide) (by decide)).mpr (by decide)

/-- These are the keys of the timer model: the one of a second up to the year 9999, -/
theorem storedKey_iso8601 {t : Second} (h : t.1 ≤ endOfYear9999) :
    storedKey t.1 = some (iso8601 t) :=
  storedKey_eq h

/-- and the one of a poll, whatever the fraction of the second. -/
theorem polledKey_newISO8601 {now : ℕ} {fraction : ℤ} (h0 : 0 ≤ fraction)
    (h1 : fraction < 1000000000) :
    polledKey (now * 1000000000 + fraction) = iso8601 (newISO8601 now) := by
  have hnow : (now * 1000000000 + fraction) / 1000000000 = (now : ℤ) := by omega
  have hs : (gmtime ((now : ℤ) - 2)).Nonneg := gmtime_nonneg (by unfold earliest; omega)
  rw [polledKey, newISO8601At_eq, hnow, goFormat, if_neg (not_lt.mpr hs.1)]
  simp only [iso8601, newISO8601, timeDate_gmtime]

end Eventing.Timestamp
