import Mathlib.Data.Fin.Rev
import Mathlib.Tactic.Common

/-!
# Numbers and the order of their bytes

A number of whole bytes, read with the least or with the most significant byte first. Turning
the bytes of a number around goes from one reading to the other.
-/
namespace Eventing.ByteOrder

abbrev Byte := BitVec 8

variable {n : ℕ}

def littleEndian : {n : ℕ} → (Fin n → Byte) → BitVec (8 * n)
  | 0, _ => 0#0
  | _ + 1, b => littleEndian (fun i => b i.succ) ++ b 0

def bigEndian (b : Fin n → Byte) : BitVec (8 * n) := littleEndian fun i => b i.rev

def bytes (v : BitVec (8 * n)) (i : Fin n) : Byte := v.extractLsb' (8 * i) 8

def swap (v : BitVec (8 * n)) : BitVec (8 * n) := bigEndian (bytes v)

lemma getLsbD_littleEndian (b : Fin n → Byte) (i : ℕ) (hi : i / 8 < n) :
    (littleEndian b).getLsbD i = (b ⟨i / 8, hi⟩).getLsbD (i % 8) := by
  induction n generalizing i with
  | zero => omega
  | succ n ih =>
    rw [littleEndian, BitVec.getLsbD_append]
    by_cases h : i < 8
    · have hzero : i / 8 = 0 := by omega
      have hmod : i % 8 = i := by omega
      simp [h, hzero, hmod]
    · have hdiv : (i - 8) / 8 < n := by omega
      have hindex : (⟨(i - 8) / 8, hdiv⟩ : Fin n).succ = ⟨i / 8, hi⟩ := by
        apply Fin.ext
        simp only [Fin.succ_mk]
        omega
      have hmod : (i - 8) % 8 = i % 8 := by omega
      rw [if_neg h, ih _ _ hdiv, hindex, hmod]

lemma getLsbD_bytes (v : BitVec (8 * n)) (i : Fin n) {j : ℕ} (hj : j < 8) :
    (bytes v i).getLsbD j = v.getLsbD (8 * i + j) := by
  simp [bytes, hj]

@[simp] lemma littleEndian_bytes (v : BitVec (8 * n)) : littleEndian (bytes v) = v := by
  apply BitVec.eq_of_getLsbD_eq
  intro i hi
  have hdiv : i / 8 < n := by omega
  rw [getLsbD_littleEndian _ _ hdiv, getLsbD_bytes _ _ (Nat.mod_lt i (by decide))]
  congr 1
  exact Nat.div_add_mod i 8

@[simp] lemma bytes_littleEndian (b : Fin n → Byte) : bytes (littleEndian b) = b := by
  funext i
  apply BitVec.eq_of_getLsbD_eq
  intro j hj
  have hdiv : (8 * i.val + j) / 8 = i := by omega
  have hmod : (8 * i.val + j) % 8 = j := by omega
  rw [getLsbD_bytes _ _ hj, getLsbD_littleEndian _ _ (by omega)]
  simp only [hdiv, hmod]

lemma littleEndian_injective :
    Function.Injective (littleEndian : (Fin n → Byte) → BitVec (8 * n)) :=
  Function.LeftInverse.injective bytes_littleEndian

lemma bigEndian_injective : Function.Injective (bigEndian : (Fin n → Byte) → BitVec (8 * n)) := by
  intro b b' h
  funext i
  have hrev := congrFun (littleEndian_injective h) i.rev
  simpa using hrev

@[simp] lemma swap_littleEndian (b : Fin n → Byte) : swap (littleEndian b) = bigEndian b := by
  rw [swap, bytes_littleEndian]

@[simp] lemma swap_bigEndian (b : Fin n → Byte) : swap (bigEndian b) = littleEndian b := by
  rw [bigEndian, swap_littleEndian, bigEndian]
  simp only [Fin.rev_rev]

theorem swap_swap (v : BitVec (8 * n)) : swap (swap v) = v := by
  rw [← littleEndian_bytes v, swap_littleEndian, swap_bigEndian]

lemma getLsbD_swap (v : BitVec (8 * n)) {i : ℕ} (hi : i / 8 < n) :
    (swap v).getLsbD i = v.getLsbD (8 * (n - 1 - i / 8) + i % 8) := by
  rw [swap, bigEndian, getLsbD_littleEndian _ _ hi, getLsbD_bytes _ _ (Nat.mod_lt i (by decide)),
    Fin.val_rev]
  congr 2
  dsimp only
  omega

end Eventing.ByteOrder
