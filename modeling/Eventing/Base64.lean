import Mathlib.Data.List.Basic
import Mathlib.Tactic.Common

/-!
# Base64

The standard alphabet with padding, over bytes. The decoder skips line ends and stops at a
group that is not one of the encoding.
-/
namespace Eventing.Base64

def digit (n : ℕ) : Char :=
  Char.ofNat (if n < 26 then 65 + n else if n < 52 then 71 + n else if n < 62 then n - 4
    else if n = 62 then 43 else 47)

def value (c : Char) : Option ℕ :=
  if 'A' ≤ c ∧ c ≤ 'Z' then some (c.toNat - 65)
  else if 'a' ≤ c ∧ c ≤ 'z' then some (c.toNat - 71)
  else if '0' ≤ c ∧ c ≤ '9' then some (c.toNat + 4)
  else if c = '+' then some 62
  else if c = '/' then some 63
  else none

def encode : List UInt8 → List Char
  | a :: b :: c :: rest =>
      digit (a.toNat / 4) :: digit (a.toNat % 4 * 16 + b.toNat / 16) ::
        digit (b.toNat % 16 * 4 + c.toNat / 64) :: digit (c.toNat % 64) :: encode rest
  | [a, b] =>
      [digit (a.toNat / 4), digit (a.toNat % 4 * 16 + b.toNat / 16), digit (b.toNat % 16 * 4), '=']
  | [a] => [digit (a.toNat / 4), digit (a.toNat % 4 * 16), '=', '=']
  | [] => []

def group (p q r s : ℕ) : List UInt8 :=
  [.ofNat (p * 4 + q / 16), .ofNat (q % 16 * 16 + r / 4), .ofNat (r % 4 * 64 + s)]

def decodeGroups : List Char → List UInt8
  | p :: q :: r :: s :: rest =>
      match value p, value q, value r, value s with
      | some p, some q, some r, some s => group p q r s ++ decodeGroups rest
      | some p, some q, some r, none => if s = '=' then (group p q r 0).take 2 else []
      | some p, some q, none, none =>
          if r = '=' ∧ s = '=' then (group p q 0 0).take 1 else []
      | _, _, _, _ => []
  | _ => []

def decode (s : List Char) : List UInt8 :=
  decodeGroups (s.filter fun c => c ≠ '\n' ∧ c ≠ '\r')

lemma value_digit {n : ℕ} (h : n < 64) : value (digit n) = some n :=
  (show ∀ n < 64, value (digit n) = some n by decide) n h

lemma value_pad : value '=' = none := rfl

lemma ofNat_eq {a : UInt8} {n : ℕ} (h : n = a.toNat) : UInt8.ofNat n = a := by
  subst h
  simp

lemma mem_encode {bytes : List UInt8} {c : Char} (hc : c ∈ encode bytes) :
    c = '=' ∨ ∃ n < 64, c = digit n := by
  fun_induction encode bytes with
  | case1 a b c rest ih =>
    have ha := a.toNat_lt
    have hb := b.toNat_lt
    have hc' := c.toNat_lt
    simp only [List.mem_cons] at hc
    obtain rfl | rfl | rfl | rfl | hc := hc
    · exact .inr ⟨_, by omega, rfl⟩
    · exact .inr ⟨_, by omega, rfl⟩
    · exact .inr ⟨_, by omega, rfl⟩
    · exact .inr ⟨_, by omega, rfl⟩
    · exact ih hc
  | case2 a b =>
    have ha := a.toNat_lt
    have hb := b.toNat_lt
    simp only [List.mem_cons, List.not_mem_nil, or_false] at hc
    obtain rfl | rfl | rfl | rfl := hc
    · exact .inr ⟨_, by omega, rfl⟩
    · exact .inr ⟨_, by omega, rfl⟩
    · exact .inr ⟨_, by omega, rfl⟩
    · exact .inl rfl
  | case3 a =>
    have ha := a.toNat_lt
    simp only [List.mem_cons, List.not_mem_nil, or_false] at hc
    obtain rfl | rfl | rfl | rfl := hc
    · exact .inr ⟨_, by omega, rfl⟩
    · exact .inr ⟨_, by omega, rfl⟩
    · exact .inl rfl
    · exact .inl rfl
  | case4 => contradiction

lemma digit_ne {n : ℕ} (h : n < 64) : digit n ≠ ',' ∧ digit n ≠ '\n' ∧ digit n ≠ '\r' :=
  (show ∀ n < 64, digit n ≠ ',' ∧ digit n ≠ '\n' ∧ digit n ≠ '\r' by decide) n h

lemma ne_of_mem_encode {bytes : List UInt8} {c : Char} (hc : c ∈ encode bytes) :
    c ≠ ',' ∧ c ≠ '\n' ∧ c ≠ '\r' := by
  obtain rfl | ⟨n, hn, rfl⟩ := mem_encode hc
  · decide
  · exact digit_ne hn

theorem comma_notMem_encode (bytes : List UInt8) : ',' ∉ encode bytes := by
  intro hc
  exact (ne_of_mem_encode hc).1 rfl

lemma decodeGroups_encode (bytes : List UInt8) : decodeGroups (encode bytes) = bytes := by
  fun_induction encode bytes with
  | case1 a b c rest ih =>
    have ha := a.toNat_lt
    have hb := b.toNat_lt
    have hc := c.toNat_lt
    have h1 : a.toNat / 4 < 64 := by omega
    have h2 : a.toNat % 4 * 16 + b.toNat / 16 < 64 := by omega
    have h3 : b.toNat % 16 * 4 + c.toNat / 64 < 64 := by omega
    have h4 : c.toNat % 64 < 64 := by omega
    simp only [decodeGroups, value_digit h1, value_digit h2, value_digit h3, value_digit h4, ih,
      group, List.cons_append, List.nil_append, List.cons.injEq]
    exact ⟨ofNat_eq (by omega), ofNat_eq (by omega), ofNat_eq (by omega), trivial⟩
  | case2 a b =>
    have ha := a.toNat_lt
    have hb := b.toNat_lt
    have h1 : a.toNat / 4 < 64 := by omega
    have h2 : a.toNat % 4 * 16 + b.toNat / 16 < 64 := by omega
    have h3 : b.toNat % 16 * 4 < 64 := by omega
    simp only [decodeGroups, value_digit h1, value_digit h2, value_digit h3, value_pad, if_true,
      group, List.take_succ_cons, List.take_zero, List.cons.injEq]
    exact ⟨ofNat_eq (by omega), ofNat_eq (by omega), trivial⟩
  | case3 a =>
    have ha := a.toNat_lt
    have h1 : a.toNat / 4 < 64 := by omega
    have h2 : a.toNat % 4 * 16 < 64 := by omega
    simp only [decodeGroups, value_digit h1, value_digit h2, value_pad, and_self, if_true,
      group, List.take_succ_cons, List.take_zero, List.cons.injEq]
    exact ⟨ofNat_eq (by omega), trivial⟩
  | case4 => rfl

theorem decode_encode (bytes : List UInt8) : decode (encode bytes) = bytes := by
  have hfilter : (encode bytes).filter (fun c => c ≠ '\n' ∧ c ≠ '\r') = encode bytes := by
    rw [List.filter_eq_self]
    intro c hc
    exact decide_eq_true (ne_of_mem_encode hc).2
  rw [decode, hfilter, decodeGroups_encode]

example : encode [104, 105, 33, 255] = "aGkh/w==".toList := by decide

end Eventing.Base64
