import Mathlib.Data.List.Basic
import Mathlib.Tactic.Common

/-!
# Strings of 16-bit units

A Unicode text as a sequence of 16-bit units, and the text that a sequence of units
stands for, where a surrogate without its partner is replaced.
-/
namespace Eventing.Utf16

abbrev Units := List UInt16

def encodeChar (c : Char) : Units :=
  if c.toNat < 0x10000 then [UInt16.ofNat c.toNat]
  else [UInt16.ofNat (0xd800 + (c.toNat - 0x10000) / 0x400),
    UInt16.ofNat (0xdc00 + (c.toNat - 0x10000) % 0x400)]

def encode (t : List Char) : Units := t.flatMap encodeChar

def isHigh (u : UInt16) : Bool := 0xd800 ≤ u.toNat && u.toNat < 0xdc00
def isLow (u : UInt16) : Bool := 0xdc00 ≤ u.toNat && u.toNat < 0xe000

/-- The character of a unit on its own, `U+FFFD` for a surrogate. -/
def single (u : UInt16) : Char := if isHigh u || isLow u then '\ufffd' else Char.ofNat u.toNat

def pair (u v : UInt16) : Char :=
  Char.ofNat (0x10000 + (u.toNat - 0xd800) * 0x400 + (v.toNat - 0xdc00))

def decode : Units → List Char
  | [] => []
  | [u] => [single u]
  | u :: v :: rest =>
      if isHigh u && isLow v then pair u v :: decode rest else single u :: decode (v :: rest)

/-- No surrogate is without its partner. -/
def WellFormed (s : Units) : Prop := ∃ t, s = encode t

lemma toNat_ranges (c : Char) : c.toNat < 0xd800 ∨ 0xdfff < c.toNat ∧ c.toNat < 0x110000 := c.valid

lemma decode_cons_of_not_isHigh {u : UInt16} (h : isHigh u = false) (rest : Units) :
    decode (u :: rest) = single u :: decode rest := by
  cases rest with
  | nil => rfl
  | cons v rest => simp [decode, h]

lemma nul_mem_decode {s : Units} (h : 0 ∈ s) : '\x00' ∈ decode s := by
  have hsingle : single 0 = '\x00' := by decide
  induction s using decode.induct with
  | case1 => contradiction
  | case2 u =>
    rw [← List.mem_singleton.mp h, decode, hsingle]
    exact List.mem_singleton.mpr rfl
  | case3 u v rest hpair ih =>
    obtain ⟨hu, hv⟩ := (Bool.and_eq_true _ _).mp hpair
    rw [decode, if_pos hpair]
    rcases List.mem_cons.mp h with rfl | h
    · exact absurd hu (by decide)
    rcases List.mem_cons.mp h with rfl | h
    · exact absurd hv (by decide)
    · exact List.mem_cons_of_mem _ (ih h)
  | case4 u v rest hpair ih =>
    rw [decode, if_neg hpair]
    rcases List.mem_cons.mp h with rfl | h
    · rw [hsingle]
      exact List.mem_cons_self
    · exact List.mem_cons_of_mem _ (ih h)

lemma encodeChar_cases (c : Char) :
    (∃ u, encodeChar c = [u] ∧ isHigh u = false ∧ isLow u = false ∧ u.toNat = c.toNat) ∨
      ∃ u v, encodeChar c = [u, v] ∧ isHigh u = true ∧ isLow v = true ∧
        (u.toNat - 0xd800) * 0x400 + (v.toNat - 0xdc00) + 0x10000 = c.toNat := by
  have hc := toNat_ranges c
  rw [encodeChar]
  split_ifs with hlt
  · have hu : (UInt16.ofNat c.toNat).toNat = c.toNat := by
      rw [UInt16.toNat_ofNat']
      omega
    refine .inl ⟨_, rfl, ?_, ?_, hu⟩
    · simp [isHigh, hu]
      omega
    · simp [isLow, hu]
      omega
  · have hu : (UInt16.ofNat (0xd800 + (c.toNat - 0x10000) / 0x400)).toNat =
        0xd800 + (c.toNat - 0x10000) / 0x400 := by
      rw [UInt16.toNat_ofNat']
      omega
    have hv : (UInt16.ofNat (0xdc00 + (c.toNat - 0x10000) % 0x400)).toNat =
        0xdc00 + (c.toNat - 0x10000) % 0x400 := by
      rw [UInt16.toNat_ofNat']
      omega
    refine .inr ⟨_, _, rfl, ?_, ?_, ?_⟩
    · simp only [isHigh, hu, Bool.and_eq_true, decide_eq_true_eq]
      omega
    · simp only [isLow, hv, Bool.and_eq_true, decide_eq_true_eq]
      omega
    · rw [hu, hv]
      omega

lemma decode_encodeChar_append (c : Char) (s : Units) : decode (encodeChar c ++ s) = c :: decode s := by
  rcases encodeChar_cases c with ⟨u, hc, hhigh, hlow, hu⟩ | ⟨u, v, hc, hhigh, hlow, hpair⟩
  · rw [hc, List.singleton_append, decode_cons_of_not_isHigh hhigh]
    simp [single, hhigh, hlow, hu]
  · have hchar : pair u v = c := by
      rw [pair, Nat.add_assoc, Nat.add_comm, hpair, Char.ofNat_toNat]
    simp [hc, decode, hhigh, hlow, hchar]

@[simp] theorem decode_encode (t : List Char) : decode (encode t) = t := by
  induction t with
  | nil => rfl
  | cons c t ih =>
    rw [encode, List.flatMap_cons, decode_encodeChar_append]
    exact congrArg (c :: ·) ih

lemma encode_injective : Function.Injective encode := by
  intro a b h
  have hd := congrArg decode h
  simpa using hd

end Eventing.Utf16
