import Mathlib.Tactic.Ring
import Eventing.Decimal
import Eventing.Delimited

/-!
# Timestamp keys

`ConvertToISO8601` (`worker.cc`) turns an expiry into the key of the list of
timers that are due at that second, by `gmtime` and `strftime`;
`processTimerEvent` polls the key of the time two seconds ago. Times are whole
seconds since 1970 in UTC, dates those of the proleptic Gregorian calendar.
-/
namespace Eventing.Timestamp
open Decimal

structure Tm where
  year : ℤ
  mon : ℤ
  mday : ℤ
  hour : ℤ
  min : ℤ
  sec : ℤ
  deriving DecidableEq, Repr

/-- Day `doe` of a period of 400 years that starts on the first of March, as a
year of the period and a day of that year. Leap days end a year, so all periods
but the last of each kind have the same length. -/
def yearAndDay (doe : ℤ) : ℤ × ℤ :=
  let century := min (doe / 36524) 3
  let r := doe - 36524 * century
  let quad := r / 1461
  let r := r - 1461 * quad
  let year := min (r / 365) 3
  (100 * century + 4 * quad + year, r - 365 * year)

/-- The date of a day counted from the first of January 1970. -/
def civil (day : ℤ) : ℤ × ℤ × ℤ :=
  let z := day + 719468
  let yd := yearAndDay (z % 146097)
  let mp := (5 * yd.2 + 2) / 153
  let mon := if mp < 10 then mp + 3 else mp - 9
  (400 * (z / 146097) + yd.1 + if mon ≤ 2 then 1 else 0, mon,
    yd.2 - (153 * mp + 2) / 5 + 1)

/-- The day of a date, by counting the days of the years and months before it. -/
def dayOfCivil (year mon mday : ℤ) : ℤ :=
  let y := if mon ≤ 2 then year - 1 else year
  let mp := if mon ≤ 2 then mon + 9 else mon - 3
  365 * y + y / 4 - y / 100 + y / 400 + (153 * mp + 2) / 5 + mday - 1 - 719468

def gmtime (t : ℤ) : Tm :=
  let date := civil (t / 86400)
  let s := t % 86400
  ⟨date.1, date.2.1, date.2.2, s / 3600, s / 60 % 60, s % 60⟩

/-- `time.Date` of Go, without the nanoseconds. -/
def timeDate (tm : Tm) : ℤ :=
  86400 * dayOfCivil tm.year tm.mon tm.mday + 3600 * tm.hour + 60 * tm.min + tm.sec

lemma yearAndDay_parts {doe : ℤ} (h0 : 0 ≤ doe) (h1 : doe < 146097) :
    ∃ c q y d, yearAndDay doe = (100 * c + 4 * q + y, d) ∧ 0 ≤ c ∧ c ≤ 3 ∧ 0 ≤ q ∧ q ≤ 24 ∧
      0 ≤ y ∧ y ≤ 3 ∧ 0 ≤ d ∧ d ≤ 365 ∧ 36524 * c + 1461 * q + 365 * y + d = doe := by
  refine ⟨_, _, _, _, rfl, ?_⟩
  omega

lemma yearAndDay_spec {doe y d : ℤ} (h0 : 0 ≤ doe) (h1 : doe < 146097)
    (h : yearAndDay doe = (y, d)) :
    0 ≤ y ∧ y < 400 ∧ 0 ≤ d ∧ d ≤ 365 ∧ 365 * y + y / 4 - y / 100 + d = doe := by
  obtain ⟨c, q, r, e, he, hc0, hc3, hq0, hq24, hr0, hr3, hd0, hd, hsum⟩ :=
    yearAndDay_parts h0 h1
  rw [h, Prod.mk.injEq] at he
  obtain ⟨rfl, rfl⟩ := he
  have h4 : (100 * c + 4 * q + r) / 4 = 25 * c + q := by omega
  have h100 : (100 * c + 4 * q + r) / 100 = c := by omega
  rw [h4, h100]
  omega

lemma dayOfCivil_civil (day : ℤ) :
    dayOfCivil (civil day).1 (civil day).2.1 (civil day).2.2 = day := by
  have h0 : 0 ≤ (day + 719468) % 146097 := Int.emod_nonneg _ (by decide)
  have h1 : (day + 719468) % 146097 < 146097 := Int.emod_lt_of_pos _ (by decide)
  rcases hyd : yearAndDay ((day + 719468) % 146097) with ⟨y, d⟩
  obtain ⟨hy0, hy1, hd0, hd1, hcount⟩ := yearAndDay_spec h0 h1 hyd
  have he : day + 719468 = 146097 * ((day + 719468) / 146097) + (day + 719468) % 146097 :=
    (Int.mul_ediv_add_emod _ _).symm
  generalize hera : (day + 719468) / 146097 = era at *
  have h4 : (400 * era + y) / 4 = 100 * era + y / 4 := by omega
  have h100 : (400 * era + y) / 100 = 4 * era + y / 100 := by omega
  have h400 : (400 * era + y) / 400 = era := by omega
  have hmp : (5 * d + 2) / 153 ≤ 11 ∧ 0 ≤ (5 * d + 2) / 153 := by omega
  simp only [civil, dayOfCivil, hyd, hera]
  generalize hm : (5 * d + 2) / 153 = mp at *
  by_cases hmp10 : mp < 10
  · have hmon : ¬ mp + 3 ≤ 2 := by omega
    simp only [hmp10, hmon, if_true, if_false, add_zero, h4, h100, h400]
    rw [show mp + 3 - 3 = mp by ring]
    omega
  · have hmon : mp - 9 ≤ 2 := by omega
    simp only [hmp10, hmon, if_true, if_false, add_sub_cancel_right, h4, h100, h400]
    rw [show mp - 9 + 9 = mp by ring]
    omega

lemma civil_bounds (day : ℤ) :
    1 ≤ (civil day).2.1 ∧ (civil day).2.1 ≤ 12 ∧ 1 ≤ (civil day).2.2 ∧ (civil day).2.2 ≤ 31 := by
  have h0 : 0 ≤ (day + 719468) % 146097 := Int.emod_nonneg _ (by decide)
  have h1 : (day + 719468) % 146097 < 146097 := Int.emod_lt_of_pos _ (by decide)
  rcases hyd : yearAndDay ((day + 719468) % 146097) with ⟨y, d⟩
  obtain ⟨-, -, hd0, hd1, -⟩ := yearAndDay_spec h0 h1 hyd
  simp only [civil, hyd]
  split_ifs <;> omega

@[simp] lemma timeDate_gmtime (t : ℤ) : timeDate (gmtime t) = t := by
  simp only [timeDate, gmtime, dayOfCivil_civil]
  omega

/-- `strftime` with `%FT%T`. -/
def strftime (tm : Tm) : Text :=
  padded 4 tm.year.toNat ++ '-' :: (padded 2 tm.mon.toNat ++ '-' :: (padded 2 tm.mday.toNat ++
    'T' :: (padded 2 tm.hour.toNat ++ ':' :: (padded 2 tm.min.toNat ++ ':' ::
      padded 2 tm.sec.toNat))))

def Tm.Nonneg (tm : Tm) : Prop :=
  0 ≤ tm.year ∧ 0 ≤ tm.mon ∧ 0 ≤ tm.mday ∧ 0 ≤ tm.hour ∧ 0 ≤ tm.min ∧ 0 ≤ tm.sec

lemma padded_cons_inj {width m n : ℕ} {sep : Char} {xs ys : Text} (hsep : sep.isDigit = false)
    (h : padded width m ++ sep :: xs = padded width n ++ sep :: ys) : m = n ∧ xs = ys := by
  obtain ⟨hp, hr⟩ := Delimited.append_sep_inj (notMem_padded hsep) (notMem_padded hsep) h
  exact ⟨padded_injective width hp, hr⟩

lemma toNat_inj {m n : ℤ} (hm : 0 ≤ m) (hn : 0 ≤ n) (h : m.toNat = n.toNat) : m = n := by
  omega

lemma strftime_inj {a b : Tm} (ha : a.Nonneg) (hb : b.Nonneg) (h : strftime a = strftime b) :
    a = b := by
  obtain ⟨hy, h⟩ := padded_cons_inj (by decide) h
  obtain ⟨hmon, h⟩ := padded_cons_inj (by decide) h
  obtain ⟨hday, h⟩ := padded_cons_inj (by decide) h
  obtain ⟨hhour, h⟩ := padded_cons_inj (by decide) h
  obtain ⟨hmin, h⟩ := padded_cons_inj (by decide) h
  have hsec := padded_injective 2 h
  obtain ⟨ya, ma, da, oa, ia, sa⟩ := ha
  obtain ⟨yb, mb, db, ob, ib, sb⟩ := hb
  cases a
  cases b
  simp only [Tm.mk.injEq]
  exact ⟨toNat_inj ya yb hy, toNat_inj ma mb hmon, toNat_inj da db hday,
    toNat_inj oa ob hhour, toNat_inj ia ib hmin, toNat_inj sa sb hsec⟩

/-- The first of March of the year 0. -/
def earliest : ℤ := -719468 * 86400

lemma gmtime_nonneg {t : ℤ} (h : earliest ≤ t) : (gmtime t).Nonneg := by
  have hday : 0 ≤ t / 86400 + 719468 := by
    unfold earliest at h
    omega
  have hb := civil_bounds (t / 86400)
  have hyear : 0 ≤ (civil (t / 86400)).1 := by
    have h0 : 0 ≤ (t / 86400 + 719468) % 146097 := Int.emod_nonneg _ (by decide)
    have h1 : (t / 86400 + 719468) % 146097 < 146097 := Int.emod_lt_of_pos _ (by decide)
    rcases hyd : yearAndDay ((t / 86400 + 719468) % 146097) with ⟨y, d⟩
    obtain ⟨hy0, -, -, -, -⟩ := yearAndDay_spec h0 h1 hyd
    simp only [civil, hyd]
    split_ifs <;> omega
  simp only [Tm.Nonneg, gmtime]
  omega

/-- The seconds whose year has no sign. The code meets no others: an expiry is an
`int`, or a clock reading plus one. -/
def Second := { t : ℤ // earliest ≤ t }
  deriving DecidableEq

/-- The key of the list of the timers due at a second. -/
def iso8601 (t : Second) : Text := strftime (gmtime t.1)

lemma iso8601_injective : Function.Injective iso8601 := by
  intro a b h
  have htm := strftime_inj (gmtime_nonneg a.2) (gmtime_nonneg b.2) h
  have ht := congrArg timeDate htm
  simp only [timeDate_gmtime] at ht
  exact Subtype.ext ht

lemma dateMark_mem_iso8601 (t : Second) : 'T' ∈ iso8601 t := by
  simp [iso8601, strftime]

lemma nul_notMem_iso8601 (t : Second) : '\x00' ∉ iso8601 t := by
  have h : ∀ width n, '\x00' ∉ padded width n := fun _ _ => notMem_padded (by decide)
  simp [iso8601, strftime, h]

def isSpace (c : Char) : Bool :=
  c = ' ' || c = '\t' || c = '\n' || c = '\r' || c.toNat = 11 || c.toNat = 12

/-- `atoi`: what `strtol` reads, cut to its range, as a 32-bit `int`. -/
def atoi (s : Text) : ℤ :=
  let magnitude (digits : Text) : ℤ := Nat.ofDigitChars 10 (digits.takeWhile Char.isDigit) 0
  let value := match s.dropWhile isSpace with
    | '-' :: digits => max (-magnitude digits) (-2 ^ 63)
    | '+' :: digits => min (magnitude digits) (2 ^ 63 - 1)
    | digits => min (magnitude digits) (2 ^ 63 - 1)
  value.bmod (2 ^ 32)

lemma atoi_ge (s : Text) : -2 ^ 31 ≤ atoi s := by
  unfold atoi
  exact Int.le_bmod (by decide)

/-- `ConvertToISO8601` up to the formatting: a large value is a time of its own, a
small one is counted from the clock. -/
def expiry (now : ℕ) (startTs : Text) : Second :=
  ⟨if 25920000 < atoi startTs then atoi startTs else now + atoi startTs, by
    have h := atoi_ge startTs
    unfold earliest
    split_ifs <;> omega⟩

/-- `NewISO8601`: the second before last. -/
def newISO8601 (now : ℕ) : Second :=
  ⟨timeDate (gmtime now) - 2, by
    rw [timeDate_gmtime]
    unfold earliest
    omega⟩

example : iso8601 (expiry 0 "1470737472".toList) = "2016-08-09T10:11:12".toList := by decide

end Eventing.Timestamp
