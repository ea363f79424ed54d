import Eventing.JsonText
import Eventing.Utf8

/-!
# JSON objects as bytes

Objects that are written byte by byte, and when their bytes are those of a text.
-/
namespace Eventing.JsonBytes
open Utf8 (Bytes Valid)

def marks : ObjectText.Marks UInt8 := ⟨0x7b, 0x7d, 0x22, 0x3a, 0x2c⟩

/-- A byte below 128 is escaped as the character with its number, other bytes are copied. -/
def escapeByte (escape : Char → List Char) (u : UInt8) : Bytes :=
  if u < 128 then Utf8.encode (escape (Char.ofNat u.toNat)) else [u]

def writeObject (escape : Char → List Char) : List (Bytes × Bytes) → Bytes :=
  ObjectText.object marks (escapeByte escape)

/-- Only characters below 128 are escaped, and by such characters. -/
structure Ascii (escape : Char → List Char) : Prop where
  low : ∀ c, c.toNat < 128 → escape c ≠ [] ∧ ∀ d ∈ escape c, d.toNat < 128
  high : ∀ c, 128 ≤ c.toNat → escape c = [c]

section
variable {escape : Char → List Char} {b : Bytes} {c : Char} {u : UInt8}

lemma toNat_ofNat (h : u < 128) : (Char.ofNat u.toNat).toNat = u.toNat := by
  have hu : u.toNat < 128 := UInt8.lt_iff_toNat_lt.mp h
  have hvalid : u.toNat.isValidChar := .inl (by omega)
  rw [Char.ofNat, dif_pos hvalid]
  rfl

lemma encodeChar_of_lt (h : c.toNat < 128) : String.utf8EncodeChar c = [UInt8.ofNat c.toNat] := by
  have hu : UInt8.ofNat c.toNat < 128 := by
    rw [UInt8.lt_iff_toNat_lt, UInt8.toNat_ofNat']
    exact lt_of_le_of_lt (Nat.mod_le _ _) h
  have hencode := Utf8.encodeChar_ofNat hu
  rwa [UInt8.toNat_ofNat', Nat.mod_eq_of_lt (by omega), Char.ofNat_toNat] at hencode

lemma lt_iff_of_mem_encodeChar (h : u ∈ String.utf8EncodeChar c) : u < 128 ↔ c.toNat < 128 := by
  constructor
  · intro hu
    rw [Utf8.eq_of_mem_encodeChar (Utf8.encodeChar_ofNat hu) hu h, toNat_ofNat hu]
    exact UInt8.lt_iff_toNat_lt.mp hu
  · intro hc
    rw [encodeChar_of_lt hc, List.mem_singleton] at h
    rw [h, UInt8.lt_iff_toNat_lt, UInt8.toNat_ofNat']
    exact lt_of_le_of_lt (Nat.mod_le _ _) hc

lemma Ascii.flatMap_escape (h : Ascii escape) (c : Char) :
    (escape c).flatMap String.utf8EncodeChar =
      (String.utf8EncodeChar c).flatMap (escapeByte escape) := by
  by_cases hc : c.toNat < 128
  · have hu : UInt8.ofNat c.toNat < 128 :=
      (lt_iff_of_mem_encodeChar (by rw [encodeChar_of_lt hc]; exact List.mem_singleton_self _)).mpr hc
    have hchar : Char.ofNat (UInt8.ofNat c.toNat).toNat = c := by
      rw [UInt8.toNat_ofNat', Nat.mod_eq_of_lt (by omega), Char.ofNat_toNat]
    rw [encodeChar_of_lt hc, List.flatMap_singleton, escapeByte, if_pos hu, hchar]
    rfl
  · have hcopied : ∀ u ∈ String.utf8EncodeChar c, escapeByte escape u = [u] := by
      intro u hu
      exact if_neg fun hlt => hc ((lt_iff_of_mem_encodeChar hu).mp hlt)
    rw [h.high c (not_lt.mp hc), List.flatMap_singleton, List.flatMap_congr hcopied,
      List.flatMap_singleton']

theorem Ascii.encode_writeObject (h : Ascii escape) (ps : List (List Char × List Char)) :
    Utf8.encode (JsonText.writeObject escape ps) =
      writeObject escape (ps.map fun p => (Utf8.encode p.1, Utf8.encode p.2)) :=
  ObjectText.flatMap_object ⟨rfl, rfl, rfl, rfl, rfl⟩ h.flatMap_escape ps

lemma Ascii.valid_flatMap (h : Ascii escape) : Valid (b.flatMap (escapeByte escape)) ↔ Valid b := by
  apply Utf8.valid_flatMap
  · exact fun u hu => if_neg hu
  · intro u hu
    have hlow := h.low (Char.ofNat u.toNat) (by
      rw [toNat_ofNat hu]
      exact UInt8.lt_iff_toNat_lt.mp hu)
    rw [escapeByte, if_pos hu]
    constructor
    · intro hnil
      obtain ⟨c, cs, hcs⟩ := List.exists_cons_of_ne_nil hlow.1
      obtain ⟨v, vs, hv, -⟩ := Utf8.encodeChar_cons c
      rw [hcs, Utf8.encode, List.flatMap_cons, hv] at hnil
      contradiction
    · intro v hv
      obtain ⟨c, hc, hv⟩ := List.mem_flatMap.mp hv
      exact (lt_iff_of_mem_encodeChar hv).mpr (hlow.2 c hc)

lemma Ascii.valid_member (h : Ascii escape) (p : Bytes × Bytes) :
    Valid (ObjectText.member marks (escapeByte escape) p) ↔ Valid p.1 ∧ Valid p.2 := by
  rw [ObjectText.member, Utf8.valid_cons (by decide), Utf8.valid_append_cons (by decide),
    Utf8.valid_cons (by decide), h.valid_flatMap]

/-- The bytes are those of a text exactly when those of all names and values are. -/
theorem Ascii.valid_writeObject (h : Ascii escape) (ps : List (Bytes × Bytes)) :
    Valid (writeObject escape ps) ↔ ∀ p ∈ ps, Valid p.1 ∧ Valid p.2 := by
  have hmembers : Valid (ObjectText.members marks (escapeByte escape) ps) ↔
      ∀ p ∈ ps, Valid p.1 ∧ Valid p.2 := by
    induction ps with
    | nil => exact iff_of_true ⟨[], rfl⟩ (by simp)
    | cons p ps ih =>
      cases ps with
      | nil => rw [ObjectText.members, h.valid_member, List.forall_mem_singleton]
      | cons q ps =>
        rw [ObjectText.members, Utf8.valid_append_cons (by decide), h.valid_member, ih,
          List.forall_mem_cons (l := q :: ps)]
  rw [writeObject, ObjectText.object, Utf8.valid_cons (by decide), Utf8.valid_concat (by decide),
    hmembers]

end

end Eventing.JsonBytes
