import Eventing.Timer

/-!
# The expiry of a document as a timer

`handleDcpEvent` (`v8_worker.go`) renders the expiry of a mutation as a decimal string in
`meta.expiry`, and a handler passes it to `registerCallback`. `RegisterCallback` and
`ConvertToISO8601` (`worker.cc`) read it back with `atoi` and decide whether it is a time of
its own or counted from the clock.
-/
namespace Eventing.Timer
open KvStore Timestamp Decimal

/-- `meta.expiry` of a mutation. -/
def metaExpiry (e : UInt32) : Text := decimal e.toNat

/-- The second for which `RegisterCallback` sets up a callback, if any. -/
def scheduled (now : ℕ) (startTs : Text) : Option Second :=
  if atoi startTs = 0 then none else some (expiry now startTs)

/-- The first operation of a registration writes the blob for the second that is scheduled. -/
theorem step_setBlob {App ρ ℓ : Type*} [DecidableEq ρ] [DecidableEq ℓ] {json : Json}
    {spec : ρ → Registration App} {s : State ρ ℓ} {r : ρ} {now : ℕ} (h : s.reg r = .start) :
    step json spec s (.setBlob r now) =
      match scheduled now (spec r).startTs with
      | none => some { s with reg := Function.update s.reg r .returned }
      | some t => some { s with
          kv := set s.kv (spec r).docId ⟨json.write ((spec r).blob t), [r]⟩
          reg := Function.update s.reg r (.getMarker t) } := by
  simp only [step, h, scheduled]
  split_ifs <;> rfl

def thirtyDays : ℕ := 30 * 24 * 60 * 60

/-- When a document with expiry `e` expires: never, so many seconds from now, or at a time
of its own when that is more than thirty days. -/
def documentExpiry (now : ℕ) (e : UInt32) : Option ℤ :=
  if e = 0 then none
  else if e.toNat ≤ thirtyDays then some (now + e.toNat)
  else some e.toNat

/-- The callback is set up for the time at which the document expires, and the value of
the expiry is the same on all the way. -/
structure ScheduledAtExpiry (now : ℕ) (e : UInt32) : Prop where
  second : (scheduled now (metaExpiry e)).map (fun t : Second => t.1) = documentExpiry now e
  value : atoi (metaExpiry e) = e.toNat

lemma isDigit_of_mem_decimal {n : ℕ} {c : Char} (h : c ∈ decimal n) : c.isDigit = true :=
  Nat.isDigit_of_mem_toDigits (by decide) (by decide) h

lemma not_isSpace_of_isDigit {c : Char} (h : c.isDigit = true) : isSpace c = false := by
  simp only [Char.isDigit, Bool.and_eq_true, decide_eq_true_eq] at h
  have hn : 48 ≤ c.toNat := h.1
  unfold isSpace
  simp only [Bool.or_eq_false_iff, decide_eq_false_iff_not]
  refine ⟨⟨⟨⟨⟨?_, ?_⟩, ?_⟩, ?_⟩, ?_⟩, ?_⟩ <;> first | omega | (rintro rfl; revert hn; decide)

/-- `atoi` of a numeral is its number, cut to 32 bits with a sign. -/
lemma atoi_decimal {n : ℕ} (h : n < 2 ^ 63) : atoi (decimal n) = (n : ℤ).bmod (2 ^ 32) := by
  obtain ⟨c, cs, hc⟩ := List.exists_cons_of_ne_nil (Nat.toDigits_ne_nil (n := n) (b := 10))
  have hdigits : ∀ d ∈ c :: cs, d.isDigit = true := by
    intro d hd
    rw [← hc] at hd
    exact isDigit_of_mem_decimal hd
  have hspace : isSpace c = false := not_isSpace_of_isDigit (hdigits c List.mem_cons_self)
  have htake : (c :: cs).takeWhile Char.isDigit = c :: cs := List.takeWhile_eq_self_iff.mpr hdigits
  have hvalue : Nat.ofDigitChars 10 (c :: cs) 0 = n := by
    rw [← hc]
    exact Nat.ofDigitChars_toDigits (by decide) (by decide)
  have hcut : min (n : ℤ) (2 ^ 63 - 1) = n := by omega
  have hdec : decimal n = c :: cs := hc
  have hsign : c ≠ '-' ∧ c ≠ '+' := by
    have hd := hdigits c List.mem_cons_self
    constructor <;> (rintro rfl; revert hd; decide)
  rw [hdec, atoi, List.dropWhile_cons, hspace]
  simp only [Bool.false_eq_true, if_false]
  split
  · next heq => exact absurd (List.cons.inj heq).1 hsign.1
  · next heq => exact absurd (List.cons.inj heq).1 hsign.2
  · rw [htake, hvalue, hcut]

lemma atoi_metaExpiry (e : UInt32) :
    atoi (metaExpiry e) = if e.toNat < 2 ^ 31 then (e.toNat : ℤ) else e.toNat - 2 ^ 32 := by
  have he : e.toNat < 2 ^ 32 := e.toNat_lt
  rw [metaExpiry, atoi_decimal (by omega), Int.bmod_def]
  split_ifs <;> omega

lemma expiry_val (now : ℕ) (startTs : Text) : (expiry now startTs).1 =
    if 25920000 < atoi startTs then atoi startTs else now + atoi startTs := rfl

lemma scheduled_metaExpiry (now : ℕ) (e : UInt32) :
    (scheduled now (metaExpiry e)).map (fun t : Second => t.1) =
      if e = 0 then none
      else if 25920000 < e.toNat ∧ e.toNat < 2 ^ 31 then some (e.toNat : ℤ)
      else some (now + atoi (metaExpiry e)) := by
  have hzero : atoi (metaExpiry e) = 0 ↔ e = 0 := by
    have he : e.toNat < 2 ^ 32 := e.toNat_lt
    rw [atoi_metaExpiry, ← UInt32.toNat_inj, UInt32.toNat_zero]
    split_ifs <;> omega
  unfold scheduled
  by_cases h0 : e = 0
  · rw [if_pos (hzero.mpr h0), if_pos h0]
    rfl
  · rw [if_neg (mt hzero.mp h0), if_neg h0]
    have hlarge : 25920000 < atoi (metaExpiry e) ↔ 25920000 < e.toNat ∧ e.toNat < 2 ^ 31 := by
      have he : e.toNat < 2 ^ 32 := e.toNat_lt
      rw [atoi_metaExpiry]
      split_ifs <;> omega
    by_cases hl : 25920000 < e.toNat ∧ e.toNat < 2 ^ 31
    · rw [if_pos hl, Option.map_some, expiry_val, if_pos (hlarge.mpr hl), atoi_metaExpiry, if_pos hl.2]
    · rw [if_neg hl, Option.map_some, expiry_val, if_neg (mt hlarge.mp hl)]

/-- A callback comes when the document expires, exactly for the expiries up to thirty days and
those above three hundred days that fit into an `int`; in between the clock would have to
stand at zero. -/
theorem scheduledAtExpiry_iff (now : ℕ) (e : UInt32) :
    ScheduledAtExpiry now e ↔ e.toNat ≤ thirtyDays ∨
      25920000 < e.toNat ∧ e.toNat < 2 ^ 31 ∨ now = 0 ∧ e.toNat < 2 ^ 31 := by
  have hday : thirtyDays = 2592000 := rfl
  have hz : e = 0 ↔ e.toNat = 0 := by rw [← UInt32.toNat_inj, UInt32.toNat_zero]
  constructor
  · rintro ⟨hs, hv⟩
    rw [scheduled_metaExpiry, hv, documentExpiry] at hs
    rw [atoi_metaExpiry] at hv
    have hint : e.toNat < 2 ^ 31 := by
      by_contra hn
      rw [if_neg hn] at hv
      omega
    by_cases hd : e.toNat ≤ thirtyDays
    · exact .inl hd
    · by_cases hl : 25920000 < e.toNat
      · exact .inr (.inl ⟨hl, hint⟩)
      · have h0 : e ≠ 0 := fun h => hd (by rw [hz.mp h]; exact Nat.zero_le _)
        rw [if_neg h0, if_neg (fun h => hl h.1), if_neg h0, if_neg hd, Option.some.injEq] at hs
        exact .inr (.inr ⟨by omega, hint⟩)
  · intro h
    have hint : e.toNat < 2 ^ 31 := by omega
    have hv : atoi (metaExpiry e) = e.toNat := by rw [atoi_metaExpiry, if_pos hint]
    refine ⟨?_, hv⟩
    rw [scheduled_metaExpiry, hv, documentExpiry]
    by_cases h0 : e = 0
    · rw [if_pos h0, if_pos h0]
    · rw [if_neg h0, if_neg h0]
      by_cases hd : e.toNat ≤ thirtyDays
      · rw [if_pos hd, if_neg (by omega)]
      · rw [if_neg hd]
        by_cases hl : 25920000 < e.toNat
        · rw [if_pos ⟨hl, hint⟩]
        · rw [if_neg (fun h => hl h.1), Option.some.injEq]
          omega

/-- Thirty days and a second are counted from the clock, and the first second that does not
fit into an `int` is taken for one before 1970. -/
theorem not_scheduledAtExpiry :
    ¬ ScheduledAtExpiry 1470737472 2592001 ∧ ¬ ScheduledAtExpiry 1470737472 2147483648 := by
  constructor
  · intro h
    have hs := h.second
    rw [scheduled_metaExpiry, atoi_metaExpiry, documentExpiry] at hs
    revert hs
    decide
  · intro h
    have hv := h.value
    rw [atoi_metaExpiry] at hv
    revert hv
    decide

end Eventing.Timer
