import Mathlib.Tactic.IntervalCases
import Eventing.ByteOrder
import Eventing.Decimal

/-!
# CAS values and their marker keys

`BucketSet` (`bucket.cc`) stores a marker under the decimal text of the CAS that
the store operation returned, brought into big-endian order by `htonll_64`;
`handleDcpEvent` (`v8_worker.go`) looks up the decimal text of the CAS decoded
from the stream. libcouchbase hands out the eight bytes of the CAS as they are
on the wire, so a little-endian host reads them in reverse.
-/
namespace Eventing.CasMarker
open ByteOrder Decimal

abbrev Cas := BitVec 64

inductive Host
  | littleEndian
  | bigEndian
  deriving DecidableEq, Repr

/-- `htonl` of a little-endian host: the four bytes in reverse. -/
def htonl (x : BitVec 32) : BitVec 32 :=
  (x <<< 24) ||| ((x &&& 0xff00#32) <<< 8) ||| ((x >>> 8) &&& 0xff00#32) ||| (x >>> 24)

/-- `htonll_64` of `bucket.cc`. The source finds out the host's order by looking
at the first byte of an `int`. -/
def htonll64 (host : Host) (value : BitVec 64) : BitVec 64 :=
  match host with
  | .littleEndian =>
      let highPart := htonl ((value >>> 32).setWidth 32)
      let lowPart := htonl ((value &&& 0xFFFFFFFF#64).setWidth 32)
      (lowPart.setWidth 64 <<< 32) ||| highPart.setWidth 64
  | .bigEndian => value

def byte (c : Cas) (i : ℕ) : BitVec 64 := (c >>> (8 * i)) &&& 0xff#64

/-- The integer a host loads from the wire bytes of the CAS whose big-endian
reading is `c`. -/
def loadCas (host : Host) (c : Cas) : BitVec 64 :=
  match host with
  | .littleEndian =>
      byte c 0 <<< 56 ||| byte c 1 <<< 48 ||| byte c 2 <<< 40 ||| byte c 3 <<< 32 |||
        byte c 4 <<< 24 ||| byte c 5 <<< 16 ||| byte c 6 <<< 8 ||| byte c 7
  | .bigEndian => c

lemma htonl_bit (x : BitVec 32) {i : ℕ} (hi : i < 32) :
    (htonl x).getLsbD i = x.getLsbD (24 - 8 * (i / 8) + i % 8) := by
  interval_cases i <;> simp [htonl]

lemma getLsbD_mask (n : ℕ) {i : ℕ} (hi : i < 64) :
    (BitVec.ofNat 64 (2 ^ n - 1)).getLsbD i = decide (i < n) := by
  rw [BitVec.getLsbD_ofNat, Nat.testBit_two_pow_sub_one, decide_eq_true hi, Bool.true_and]

lemma byte_shiftLeft (c : Cas) (k m : ℕ) {i : ℕ} (hi : i < 64) :
    (byte c k <<< (8 * m)).getLsbD i = (decide (i / 8 = m) && c.getLsbD (8 * k + i % 8)) := by
  rw [BitVec.getLsbD_shiftLeft]
  have hmask := getLsbD_mask 8 (by omega : i - 8 * m < 64)
  simp only [Nat.reducePow, Nat.reduceSub] at hmask
  by_cases h : i / 8 = m
  · have hsub : i - 8 * m = i % 8 := by omega
    have hge : ¬ i < 8 * m := by omega
    rw [hsub, decide_eq_true (Nat.mod_lt i (by decide))] at hmask
    simp [byte, hi, h, hge, hsub, hmask]
  · by_cases hlt : i < 8 * m
    · simp [h, hlt]
    · have hge : ¬ i - 8 * m < 8 := by omega
      rw [decide_eq_false hge] at hmask
      simp [byte, h, hmask]

lemma loadCas_bit (c : Cas) {i : ℕ} (hi : i < 64) :
    (loadCas .littleEndian c).getLsbD i = c.getLsbD (56 - 8 * (i / 8) + i % 8) := by
  have hplaces : loadCas .littleEndian c = byte c 0 <<< (8 * 7) ||| byte c 1 <<< (8 * 6) |||
      byte c 2 <<< (8 * 5) ||| byte c 3 <<< (8 * 4) ||| byte c 4 <<< (8 * 3) |||
      byte c 5 <<< (8 * 2) ||| byte c 6 <<< (8 * 1) ||| byte c 7 := rfl
  have hlast := byte_shiftLeft c 7 0 hi
  rw [Nat.mul_zero, BitVec.shiftLeft_zero] at hlast
  have hq : i / 8 < 8 := by omega
  rw [hplaces]
  simp only [BitVec.getLsbD_or, byte_shiftLeft _ _ _ hi, hlast]
  generalize i / 8 = q at *
  interval_cases q <;> simp

lemma low_mask_bit (c : Cas) {i : ℕ} (hi : i < 32) :
    (c &&& 0xFFFFFFFF#64).getLsbD i = c.getLsbD i := by
  have hmask := getLsbD_mask 32 (by omega : i < 64)
  simp only [Nat.reducePow, Nat.reduceSub, hi, decide_true] at hmask
  rw [BitVec.getLsbD_and, hmask, Bool.and_true]

/-- Bit by bit, `htonll_64` reverses the order of the eight bytes. -/
theorem htonll64_bit (c : Cas) {i : ℕ} (hi : i < 64) :
    (htonll64 .littleEndian c).getLsbD i = c.getLsbD (56 - 8 * (i / 8) + i % 8) := by
  simp only [htonll64, BitVec.getLsbD_or, BitVec.getLsbD_shiftLeft, BitVec.getLsbD_setWidth, hi,
    decide_true, Bool.true_and]
  by_cases h : i < 32
  · have hj : 24 - 8 * (i / 8) + i % 8 < 32 := by omega
    simp only [h, decide_true, Bool.not_true, Bool.false_and, Bool.false_or, htonl_bit,
      BitVec.getLsbD_setWidth, BitVec.getLsbD_ushiftRight, hj, Bool.true_and]
    congr 1
    omega
  · have hlow : i - 32 < 32 := by omega
    have hj : 24 - 8 * ((i - 32) / 8) + (i - 32) % 8 < 32 := by omega
    have hhigh (x : BitVec 32) : x.getLsbD i = false := BitVec.getLsbD_of_ge _ _ (by omega)
    simp only [h, decide_false, Bool.not_false, Bool.true_and, hhigh, Bool.or_false,
      htonl_bit _ hlow, BitVec.getLsbD_setWidth, hj, decide_true, low_mask_bit _ hj,
      show i - 32 < 64 by omega]
    congr 1
    omega

lemma htonll64_littleEndian (v : BitVec 64) : htonll64 .littleEndian v = swap (n := 8) v := by
  apply BitVec.eq_of_getLsbD_eq
  intro i hi
  rw [htonll64_bit v hi, getLsbD_swap (n := 8) v (by omega)]
  congr 1
  omega

lemma loadCas_littleEndian (c : Cas) : loadCas .littleEndian c = swap (n := 8) c := by
  apply BitVec.eq_of_getLsbD_eq
  intro i hi
  rw [loadCas_bit c hi, getLsbD_swap (n := 8) c (by omega)]
  congr 1
  omega

/-- `htonll_64` undoes the byte order in which the host reads a CAS. -/
theorem htonll64_loadCas (host : Host) (c : Cas) : htonll64 host (loadCas host c) = c := by
  cases host with
  | bigEndian => rfl
  | littleEndian =>
    rw [htonll64_littleEndian, loadCas_littleEndian]
    exact swap_swap (n := 8) c

lemma htonll64_htonll64 (host : Host) : Function.Involutive (htonll64 host) := by
  intro v
  cases host with
  | bigEndian => rfl
  | littleEndian =>
    rw [htonll64_littleEndian, htonll64_littleEndian]
    exact swap_swap (n := 8) v

/-- `casValue` of `handleDcpEvent`: the key that is looked up. -/
def casValue (c : Cas) : Text := decimal c.toNat

/-- `cas_key` of `BucketSet`: the key under which the marker is stored. -/
def casKey (host : Host) (c : Cas) : Text := decimal (htonll64 host (loadCas host c)).toNat

@[simp] lemma casKey_eq_casValue (host : Host) (c : Cas) : casKey host c = casValue c := by
  rw [casKey, casValue, htonll64_loadCas]

lemma casValue_injective : Function.Injective casValue := by
  intro c d h
  exact BitVec.eq_of_toNat_eq (decimal_injective h)

@[simp] lemma casValue_inj {c d : Cas} : casValue c = casValue d ↔ c = d :=
  casValue_injective.eq_iff

abbrev Wire := Fin 8 → Byte

/-- `m.Cas`, which the client library decodes. -/
def dcpCas (w : Wire) : Cas := bigEndian w

/-- `result.cas`, the bytes as the host reads them. -/
def resultCas (host : Host) (w : Wire) : BitVec 64 :=
  match host with
  | .littleEndian => littleEndian w
  | .bigEndian => bigEndian w

lemma loadCas_dcpCas (host : Host) (w : Wire) : loadCas host (dcpCas w) = resultCas host w := by
  cases host with
  | bigEndian => rfl
  | littleEndian =>
    rw [loadCas_littleEndian]
    exact swap_bigEndian w

/-- `cas_key` of the marker of a mutation that the store has answered with these bytes. -/
def writtenKey (host : Host) (w : Wire) : Text := decimal (htonll64 host (resultCas host w)).toNat

lemma writtenKey_eq (host : Host) (w : Wire) : writtenKey host w = casValue (dcpCas w) := by
  rw [writtenKey, ← loadCas_dcpCas, htonll64_loadCas, casValue]

lemma writtenKey_injective (host : Host) : Function.Injective (writtenKey host) := by
  intro w w' h
  rw [writtenKey_eq, writtenKey_eq, casValue_inj] at h
  exact bigEndian_injective h

/-- The key that is written is the one that is looked up, on every host; it tells one CAS from
another; and `htonll_64` is its own inverse. -/
theorem writtenKey_agrees (host : Host) :
    (∀ w, writtenKey host w = casValue (dcpCas w)) ∧ Function.Injective (writtenKey host) ∧
      Function.Involutive (htonll64 host) :=
  ⟨writtenKey_eq host, writtenKey_injective host, htonll64_htonll64 host⟩

end Eventing.CasMarker
