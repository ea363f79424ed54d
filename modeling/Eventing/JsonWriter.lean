import Mathlib.Tactic.IntervalCases
import Eventing.Decimal
import Eventing.JsonText

/-!
# Writing JSON texts

Strings, arrays and numerals, next to the objects of the reader's own module: what is written
is read again.
-/
namespace Eventing.JsonText
open Decimal

variable {v : Value} {stack base : List Frame}

def quote (escape : Char → List Char) (t : List Char) : List Char :=
  '"' :: (t.flatMap escape ++ ['"'])

theorem parse_quote {escape : Char → List Char} (h : Escapes escape) (t : List Char) :
    parse (quote escape t) = some (.string (Utf16.encode t)) := by
  have hopen : step ⟨.value, []⟩ '"' = some ⟨.string none [] .plain, []⟩ := rfl
  rw [parse, quote, run_cons, hopen, Option.bind_some, run_quoted h]
  rfl

def writeItems : List (List Char) → List Char
  | [] => []
  | [t] => t
  | t :: u :: ts => t ++ ',' :: writeItems (u :: ts)

def writeArray (ts : List (List Char)) : List Char := '[' :: (writeItems ts ++ [']'])

lemma run_firstItem {text : List Char} {mode : Mode} (h : run ⟨.value, stack⟩ text = some ⟨mode, base⟩)
    (hv : mode.result = some v) : run ⟨.firstItem, stack⟩ text = some ⟨mode, base⟩ := by
  induction text with
  | nil =>
    rw [run_nil, Option.some.injEq, State.mk.injEq] at h
    rw [← h.1] at hv
    contradiction
  | cons c text ih =>
    rw [run_cons] at h ⊢
    by_cases hspace : isSpace c
    · have hvalue : step ⟨.value, stack⟩ c = some ⟨.value, stack⟩ := if_pos hspace
      have hfirst : step ⟨.firstItem, stack⟩ c = some ⟨.firstItem, stack⟩ := if_pos hspace
      rw [hvalue] at h
      rw [hfirst]
      exact ih h
    · have hvalue : step ⟨.value, stack⟩ c = begin stack c := if_neg hspace
      have hbracket : c ≠ ']' := by
        rintro rfl
        rw [hvalue] at h
        contradiction
      have hfirst : step ⟨.firstItem, stack⟩ c = begin stack c := by
        simp only [step, if_neg hspace, if_neg hbracket]
      rw [hfirst, ← hvalue]
      exact h

lemma run_firstItem_append {text : List Char} (h : parse text = some v) (rest : List Char) :
    run ⟨.firstItem, base⟩ (text ++ rest) = run ⟨.value, base⟩ (text ++ rest) := by
  obtain ⟨mode, hrun, hresult⟩ := run_of_parse h
  rw [run_append, run_append, hrun, run_firstItem (hrun base) hresult]

lemma run_writeItems {t : List Char} {ts : List (List Char)} {items vs : List Value}
    (h : parse t = some v) (hs : ts.mapM parse = some vs) :
    run ⟨.value, .array items :: base⟩ (writeItems (t :: ts) ++ [']']) =
      some ⟨.done (.array (items ++ v :: vs)), base⟩ := by
  induction ts generalizing t v items vs with
  | nil =>
    obtain rfl := Option.some.inj hs
    rw [writeItems, run_value_closed h (.inr (.inl rfl))]
    rfl
  | cons u ts ih =>
    rw [List.mapM_cons] at hs
    obtain ⟨w, hw, hs⟩ := Option.bind_eq_some_iff.mp hs
    obtain ⟨ws, hws, hs⟩ := Option.bind_eq_some_iff.mp hs
    obtain rfl := Option.some.inj hs
    have hitems : items ++ v :: w :: ws = items ++ [v] ++ w :: ws := by simp
    rw [writeItems, List.append_assoc, List.cons_append, run_value_closed h (.inl rfl), hitems]
    exact ih hw hws

theorem parse_writeArray {ts : List (List Char)} {vs : List Value} (h : ts.mapM parse = some vs) :
    parse (writeArray ts) = some (.array vs) := by
  have hopen : step ⟨.value, []⟩ '[' = some ⟨.firstItem, [.array []]⟩ := rfl
  cases ts with
  | nil =>
    obtain rfl := Option.some.inj h
    rfl
  | cons t ts =>
    rw [List.mapM_cons] at h
    obtain ⟨v, hv, h⟩ := Option.bind_eq_some_iff.mp h
    obtain ⟨vs, hvs, h⟩ := Option.bind_eq_some_iff.mp h
    obtain rfl := Option.some.inj h
    have hsplit : ∃ rest, writeItems (t :: ts) ++ [']'] = t ++ rest := by
      cases ts with
      | nil => exact ⟨[']'], rfl⟩
      | cons u ts => exact ⟨',' :: (writeItems (u :: ts) ++ [']']), by simp [writeItems]⟩
    obtain ⟨rest, hrest⟩ := hsplit
    rw [parse, writeArray, run_cons, hopen, Option.bind_some, hrest, run_firstItem_append hv, ← hrest,
      run_writeItems hv hvs]
    rfl

lemma parse_concat_newline {text : List Char} (h : parse text = some v) :
    parse (text ++ ['\n']) = some v := by
  obtain ⟨mode, hrun, hresult⟩ := run_of_parse h
  have hstep : step ⟨mode, []⟩ '\n' = some ⟨.done v, []⟩ := by
    cases mode with
    | done w => rw [← Option.some.inj hresult]; rfl
    | number p digits =>
      simp only [Mode.result] at hresult
      split_ifs at hresult with hp
      have hnext : p.next '\n' = none := by cases p <;> rfl
      simp only [step, hnext, hp, if_true, ← Option.some.inj hresult]
      rfl
    | _ => contradiction
  rw [parse, run_append, hrun, Option.bind_some, run_cons, hstep]
  rfl

lemma isDigit_digitChar {d : ℕ} (h : d < 10) : isDigit d.digitChar = true := by
  interval_cases d <;> rfl

lemma run_decimal {n : ℕ} (h : 0 < n) :
    run ⟨.value, []⟩ (decimal n) = some ⟨.number .int (decimal n), []⟩ := by
  induction n using Nat.strong_induction_on with
  | _ n ih =>
    by_cases hlt : n < 10
    · rw [decimal, Nat.toDigits_of_lt_base hlt]
      interval_cases n <;> rfl
    · have hdigits : decimal n = decimal (n / 10) ++ [(n % 10).digitChar] :=
        Nat.toDigits_of_base_le (by decide) (not_lt.mp hlt)
      have hdigit := isDigit_digitChar (Nat.mod_lt n (by decide : 0 < 10))
      rw [hdigits, run_append, ih (n / 10) (by omega) (by omega), Option.bind_some, run_cons]
      simp [step, Phase.next, hdigit]

lemma parse_decimal (n : ℕ) : parse (decimal n) = some (.number (decimal n)) := by
  by_cases h : 0 < n
  · rw [parse, run_decimal h]
    rfl
  · obtain rfl : n = 0 := by omega
    rfl

end Eventing.JsonText
