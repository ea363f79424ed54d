import Mathlib.Data.List.Basic
import Mathlib.Tactic.Common

/-!
# Bytes as text

UTF-8, and the reading of arbitrary bytes as text in which each byte that starts no
character is replaced by `U+FFFD`.
-/
namespace Eventing.Utf8

abbrev Bytes := List UInt8

variable {b rest : Bytes} {c : Char} {t : List Char}

def encode (t : List Char) : Bytes := t.flatMap String.utf8EncodeChar

def replacement : Char := '\ufffd'

/-- The character whose encoding the bytes start with. -/
def firstChar (b : Bytes) : Option Char := b.toByteArray.utf8DecodeChar? 0

def decodeFuel : ℕ → Bytes → List Char
  | 0, _ => []
  | _ + 1, [] => []
  | n + 1, u :: b =>
      match firstChar (u :: b) with
      | some c => c :: decodeFuel n ((u :: b).drop c.utf8Size)
      | none => replacement :: decodeFuel n b

def decode (b : Bytes) : List Char := decodeFuel b.length b

lemma firstChar_encode_append : firstChar (String.utf8EncodeChar c ++ b) = some c := by
  rw [firstChar, List.toByteArray_append]
  exact ByteArray.utf8DecodeChar?_utf8EncodeChar_append

lemma eq_of_firstChar (h : firstChar b = some c) :
    b = String.utf8EncodeChar c ++ b.drop c.utf8Size := by
  obtain ⟨l, hl⟩ := ByteArray.exists_of_utf8DecodeChar?_eq_some h
  have hb : b = String.utf8EncodeChar c ++ l.data.toList := by
    have hd := congrArg (fun x => x.data.toList) hl
    simpa using hd
  have hlen : (String.utf8EncodeChar c).length = c.utf8Size := String.length_utf8EncodeChar c
  conv_rhs => rw [hb, ← hlen, List.drop_left]
  exact hb

lemma encodeChar_cons (c : Char) :
    ∃ u us, String.utf8EncodeChar c = u :: us ∧ u.IsUTF8FirstByte := by
  have hfirst := @UInt8.isUTF8FirstByte_getElem_zero_utf8EncodeChar c
  cases h : String.utf8EncodeChar c with
  | nil =>
    have hlen := String.length_utf8EncodeChar c
    have hpos := c.utf8Size_pos
    rw [h, List.length_nil] at hlen
    omega
  | cons u us =>
    simp only [h, List.getElem_cons_zero] at hfirst
    exact ⟨u, us, rfl, hfirst⟩

lemma firstChar_of_invalid : firstChar (0xff :: b) = none := by
  cases h : firstChar (0xff :: b) with
  | none => rfl
  | some c =>
    obtain ⟨u, us, hc, hu⟩ := encodeChar_cons c
    have hb := eq_of_firstChar h
    rw [hc, List.cons_append, List.cons.injEq] at hb
    rw [← hb.1] at hu
    exact absurd hu (by decide)

lemma length_drop_utf8Size (c : Char) (u : UInt8) (b : Bytes) :
    ((u :: b).drop c.utf8Size).length ≤ b.length := by
  have hpos := c.utf8Size_pos
  simp only [List.length_drop, List.length_cons]
  omega

lemma decodeFuel_eq {n m : ℕ} (hn : b.length ≤ n) (hm : b.length ≤ m) :
    decodeFuel n b = decodeFuel m b := by
  induction n generalizing m b with
  | zero =>
    rw [List.length_eq_zero_iff.mp (Nat.le_zero.mp hn)]
    cases m <;> rfl
  | succ n ih =>
    cases b with
    | nil => cases m <;> rfl
    | cons u b =>
      simp only [List.length_cons] at hn hm
      obtain ⟨m, rfl⟩ : ∃ k, m = k + 1 := ⟨m - 1, by omega⟩
      simp only [decodeFuel]
      cases firstChar (u :: b) with
      | none => exact congrArg (replacement :: ·) (ih (by omega) (by omega))
      | some c =>
        have hdrop := length_drop_utf8Size c u b
        exact congrArg (c :: ·) (ih (by omega) (by omega))

lemma decode_of_firstChar (h : firstChar b = some c) :
    decode b = c :: decode (b.drop c.utf8Size) := by
  cases b with
  | nil => simp [firstChar, ByteArray.utf8DecodeChar?] at h
  | cons u b =>
    have hdrop := length_drop_utf8Size c u b
    simp only [decode, List.length_cons, decodeFuel, h]
    exact congrArg (c :: ·) (decodeFuel_eq hdrop (Nat.le_refl _))

lemma decode_of_firstChar_none {u : UInt8} (h : firstChar (u :: b) = none) :
    decode (u :: b) = replacement :: decode b := by
  simp only [decode, List.length_cons, decodeFuel, h]

lemma decode_encodeChar_append : decode (String.utf8EncodeChar c ++ b) = c :: decode b := by
  rw [decode_of_firstChar firstChar_encode_append, ← String.length_utf8EncodeChar, List.drop_left]

theorem decode_encode_append (t : List Char) : decode (encode t ++ b) = t ++ decode b := by
  induction t with
  | nil => rfl
  | cons c t ih =>
    rw [encode, List.flatMap_cons, List.append_assoc, decode_encodeChar_append]
    exact congrArg (c :: ·) ih

@[simp] theorem decode_encode (t : List Char) : decode (encode t) = t := by
  have h := decode_encode_append t (b := [])
  rw [List.append_nil] at h
  rw [h, show decode [] = [] from rfl, List.append_nil]

lemma encode_injective : Function.Injective encode := by
  intro a b h
  have hd := congrArg decode h
  simpa using hd

theorem encode_decode (h : replacement ∉ decode b) : encode (decode b) = b := by
  induction hn : b.length using Nat.strongRecOn generalizing b with
  | _ n ih =>
  cases b with
  | nil => rfl
  | cons u b =>
    cases hc : firstChar (u :: b) with
    | none =>
      rw [decode_of_firstChar_none hc] at h
      simp at h
    | some c =>
      rw [decode_of_firstChar hc] at h ⊢
      have hdrop := length_drop_utf8Size c u b
      have hlt : ((u :: b).drop c.utf8Size).length < n := by
        simp only [← hn, List.length_cons]
        omega
      have hi := ih _ hlt (fun hm => h (List.mem_cons_of_mem _ hm)) rfl
      rw [encode, List.flatMap_cons]
      change String.utf8EncodeChar c ++ encode (decode ((u :: b).drop c.utf8Size)) = _
      rw [hi]
      exact (eq_of_firstChar hc).symm

lemma eq_nul_of_mem (h : 0 ∈ String.utf8EncodeChar c) : c = '\x00' := by
  obtain ⟨i, hi, hzero⟩ := List.getElem_of_mem h
  have hfirst : ((0 : UInt8)).IsUTF8FirstByte := by decide
  rw [← hzero, UInt8.isUTF8FirstByte_getElem_utf8EncodeChar] at hfirst
  subst hfirst
  obtain ⟨u, us, hc, -⟩ := encodeChar_cons c
  simp only [hc, List.getElem_cons_zero] at hzero
  have hnul : String.utf8EncodeChar c = String.utf8EncodeChar '\x00' ++ us := by
    rw [hc, hzero]
    rfl
  have hc' := firstChar_encode_append (c := c) (b := [])
  rw [List.append_nil, hnul, firstChar_encode_append] at hc'
  exact (Option.some.inj hc').symm

lemma zero_notMem_encode (h : '\x00' ∉ t) : 0 ∉ encode t := by
  intro hm
  obtain ⟨c, hc, hm⟩ := List.mem_flatMap.mp hm
  exact h (eq_nul_of_mem hm ▸ hc)

lemma isUTF8FirstByte_of_lt {u : UInt8} (h : u < 128) : u.IsUTF8FirstByte := by
  have hall : ∀ n < 128, UInt8.ofNat n &&& 128 = 0 := by decide
  have hu := hall u.toNat (UInt8.lt_iff_toNat_lt.mp h)
  rw [UInt8.ofNat_toNat] at hu
  exact .inl hu

lemma eq_of_mem_encodeChar {d : Char} {u : UInt8} (hd : String.utf8EncodeChar d = [u])
    (hu : u < 128) (h : u ∈ String.utf8EncodeChar c) : c = d := by
  obtain ⟨i, hi, hget⟩ := List.getElem_of_mem h
  have hfirst : u.IsUTF8FirstByte := isUTF8FirstByte_of_lt hu
  rw [← hget, UInt8.isUTF8FirstByte_getElem_utf8EncodeChar] at hfirst
  subst hfirst
  obtain ⟨v, us, hc, -⟩ := encodeChar_cons c
  simp only [hc, List.getElem_cons_zero] at hget
  have hdc : String.utf8EncodeChar c = String.utf8EncodeChar d ++ us := by
    rw [hc, hget, hd]
    rfl
  have hc' := firstChar_encode_append (c := c) (b := [])
  rw [List.append_nil, hdc, firstChar_encode_append] at hc'
  exact (Option.some.inj hc').symm

lemma notMem_encode {d : Char} {u : UInt8} (hd : String.utf8EncodeChar d = [u]) (hu : u < 128)
    (h : d ∉ t) : u ∉ encode t := by
  intro hm
  obtain ⟨c, hc, hm⟩ := List.mem_flatMap.mp hm
  exact h (eq_of_mem_encodeChar hd hu hm ▸ hc)

def Valid (b : Bytes) : Prop := ∃ t, b = encode t

lemma encode_append (t t' : List Char) : encode (t ++ t') = encode t ++ encode t' :=
  List.flatMap_append

lemma encodeChar_ofNat {u : UInt8} (h : u < 128) : String.utf8EncodeChar (Char.ofNat u.toNat) = [u] := by
  have hall : ∀ n < 128, String.utf8EncodeChar (Char.ofNat n) = [UInt8.ofNat n] := by decide
  rw [hall u.toNat (UInt8.lt_iff_toNat_lt.mp h), UInt8.ofNat_toNat]

theorem valid_append_cons {a b : Bytes} {u : UInt8} (hu : u < 128) :
    Valid (a ++ u :: b) ↔ Valid a ∧ Valid b := by
  constructor
  · rintro ⟨t, ht⟩
    induction t generalizing a with
    | nil =>
      have hlen := congrArg List.length ht
      simp [encode] at hlen
    | cons c t ih =>
      rw [encode, List.flatMap_cons] at ht
      rcases List.append_eq_append_iff.mp ht with ⟨l, hc, hrest⟩ | ⟨l, rfl, hrest⟩
      · cases l with
        | nil =>
          have ha : Valid a := ⟨[c], by simpa [encode] using hc.symm⟩
          exact ⟨ha, (ih hrest : Valid [] ∧ Valid b).2⟩
        | cons v l =>
          -- The byte is the whole character.
          obtain ⟨rfl, rfl⟩ := List.cons.inj hrest
          have hmem : u ∈ String.utf8EncodeChar c := hc ▸ List.mem_append_right a List.mem_cons_self
          obtain rfl := eq_of_mem_encodeChar (encodeChar_ofNat hu) hu hmem
          rw [encodeChar_ofNat hu] at hc
          obtain ⟨rfl, hl⟩ : a = [] ∧ l = [] := by
            cases a <;> simp_all
          exact ⟨⟨[], rfl⟩, t, by rw [hl]; rfl⟩
      · obtain ⟨⟨t₁, ht₁⟩, hb⟩ := ih hrest.symm
        exact ⟨⟨c :: t₁, by rw [ht₁]; rfl⟩, hb⟩
  · rintro ⟨⟨t, rfl⟩, t', rfl⟩
    refine ⟨t ++ Char.ofNat u.toNat :: t', ?_⟩
    rw [encode_append, encode, encode, encode, List.flatMap_cons, encodeChar_ofNat hu]
    rfl

lemma valid_cons {u : UInt8} (hu : u < 128) : Valid (u :: b) ↔ Valid b :=
  (valid_append_cons hu (a := [])).trans (and_iff_right ⟨[], rfl⟩)

lemma valid_concat {u : UInt8} (hu : u < 128) : Valid (b ++ [u]) ↔ Valid b :=
  (valid_append_cons hu).trans (and_iff_left ⟨[], rfl⟩)

lemma valid_append_ascii {a l : Bytes} (hne : l ≠ []) (hl : ∀ u ∈ l, u < 128) :
    Valid (a ++ (l ++ b)) ↔ Valid a ∧ Valid b := by
  induction l generalizing a with
  | nil => contradiction
  | cons u l ih =>
    have hu : u < 128 := hl u List.mem_cons_self
    rw [List.cons_append, valid_append_cons hu]
    cases l with
    | nil => rfl
    | cons v l =>
      have hrest := ih (a := []) (List.cons_ne_nil v l) fun w hw => hl w (List.mem_cons_of_mem u hw)
      rw [List.nil_append] at hrest
      rw [hrest]
      exact and_congr_right fun _ => and_iff_right ⟨[], rfl⟩

theorem valid_flatMap {f : UInt8 → Bytes} (hhigh : ∀ u, ¬ u < 128 → f u = [u])
    (hlow : ∀ u < 128, f u ≠ [] ∧ ∀ v ∈ f u, v < 128) : Valid (b.flatMap f) ↔ Valid b := by
  have h (a : Bytes) : Valid (a ++ b.flatMap f) ↔ Valid (a ++ b) := by
    induction b generalizing a with
    | nil => rfl
    | cons u b ih =>
      by_cases hu : u < 128
      · obtain ⟨hne, hl⟩ := hlow u hu
        have hb := ih []
        rw [List.nil_append, List.nil_append] at hb
        rw [List.flatMap_cons, valid_append_ascii hne hl, valid_append_cons hu, hb]
      · have hb := ih (a ++ [u])
        rw [List.append_assoc, List.append_assoc] at hb
        rw [List.flatMap_cons, hhigh u hu]
        exact hb
  exact h []

/-- What is read determines the bytes exactly when they are the encoding of a text without
the replacement character. -/
theorem decode_determines_iff : (∀ b', decode b' = decode b → b' = b) ↔
    ∃ t, replacement ∉ t ∧ b = encode t := by
  constructor
  · intro h
    have hvalid : encode (decode b) = b := h _ (decode_encode _)
    refine ⟨decode b, fun hm => ?_, hvalid.symm⟩
    obtain ⟨t₁, t₂, ht⟩ := List.append_of_mem hm
    -- A byte that starts no character is read as the replacement character, too.
    have hsame : decode (encode t₁ ++ 0xff :: encode t₂) = decode b := by
      rw [decode_encode_append, decode_of_firstChar_none firstChar_of_invalid, decode_encode, ht]
    have hb := congrArg List.length (h _ hsame)
    rw [← hvalid, ht] at hb
    have hsize : (String.utf8EncodeChar replacement).length = 3 := by decide
    simp only [encode, List.flatMap_append, List.flatMap_cons, List.length_append,
      List.length_cons, hsize] at hb
    omega
  · rintro ⟨t, ht, rfl⟩ b' hb'
    rw [decode_encode] at hb'
    rw [← encode_decode (hb' ▸ ht : replacement ∉ decode b'), hb']

end Eventing.Utf8
