import Mathlib.Data.List.Basic
import Mathlib.Tactic.Common

/-!
# Decimal numerals

Numbers as decimal text, plain or padded with zeros to a least width.
-/
namespace Eventing

/-- Keys, document ids and stored values are texts. -/
abbrev Text := List Char

namespace Decimal

def decimal (n : ℕ) : Text := Nat.toDigits 10 n

lemma decimal_injective : Function.Injective decimal := by
  intro m n h
  have hd := congrArg (Nat.ofDigitChars 10 · 0) h
  simpa [decimal] using hd

/-- At least `width` characters, filled up with zeros on the left. -/
def padded (width n : ℕ) : Text :=
  List.replicate (width - (decimal n).length) '0' ++ decimal n

lemma padded_injective (width : ℕ) : Function.Injective (padded width) := by
  intro m n h
  have hd := congrArg (Nat.ofDigitChars 10 · 0) h
  simpa [padded, decimal, Nat.ofDigitChars_append] using hd

lemma isDigit_of_mem_padded {width n : ℕ} {c : Char} (h : c ∈ padded width n) :
    c.isDigit = true := by
  rcases List.mem_append.mp h with h | h
  · rw [List.eq_of_mem_replicate h]
    decide
  · exact Nat.isDigit_of_mem_toDigits (by decide) (by decide) h

lemma notMem_padded {width n : ℕ} {c : Char} (h : c.isDigit = false) :
    c ∉ padded width n := by
  intro hc
  rw [isDigit_of_mem_padded hc] at h
  contradiction

inductive Letters
  | upper
  | lower

/-- `A` or `a` is the eleventh digit. -/
def hexDigit (letters : Letters) (n : ℕ) : Char :=
  Char.ofNat (if n < 10 then 48 + n else n + match letters with
    | .upper => 55
    | .lower => 87)

end Decimal
end Eventing
