import Eventing.Terminated
import Eventing.Utf16
import Eventing.Utf8

/-!
# UTF-8 of strings of 16-bit units

The UTF-8 of a string in which a surrogate without its partner is written like a character with
its number. Distinct strings have distinct bytes, and the bytes are those of a text exactly when
no surrogate is without its partner.
-/
namespace Eventing.Wtf8
open Terminated
open Utf8 (Bytes)
open Utf16 (Units WellFormed isHigh isLow)

/-- The bytes of a number, as UTF-8 has them for the character with this number. -/
def encodePoint (n : ℕ) : Bytes :=
  if n ≤ 0x7f then [UInt8.ofNat n]
  else if n ≤ 0x7ff then [UInt8.ofNat (n / 64 % 0x20 + 0xc0), UInt8.ofNat (n % 0x40 + 0x80)]
  else if n ≤ 0xffff then
    [UInt8.ofNat (n / 4096 % 0x10 + 0xe0), UInt8.ofNat (n / 64 % 0x40 + 0x80),
      UInt8.ofNat (n % 0x40 + 0x80)]
  else
    [UInt8.ofNat (n / 262144 % 0x08 + 0xf0), UInt8.ofNat (n / 4096 % 0x40 + 0x80),
      UInt8.ofNat (n / 64 % 0x40 + 0x80), UInt8.ofNat (n % 0x40 + 0x80)]

def pairPoint (u v : UInt16) : ℕ := (u.toNat - 0xd800) * 0x400 + (v.toNat - 0xdc00) + 0x10000

/-- The numbers that a string stands for: of the pairs of surrogates and of the other units. -/
def points : Units → List ℕ
  | [] => []
  | [u] => [u.toNat]
  | u :: v :: rest =>
      if isHigh u && isLow v then pairPoint u v :: points rest else u.toNat :: points (v :: rest)

def encode (s : Units) : Bytes := (points s).flatMap encodePoint

def readPoint : Bytes → Option (ℕ × Bytes)
  | [] => none
  | u :: rest =>
      if u.toNat < 0x80 then some (u.toNat, rest)
      else if u.toNat < 0xe0 then
        match rest with
        | v :: rest => some ((u.toNat - 0xc0) * 64 + (v.toNat - 0x80), rest)
        | _ => none
      else if u.toNat < 0xf0 then
        match rest with
        | v :: w :: rest =>
            some ((u.toNat - 0xe0) * 4096 + (v.toNat - 0x80) * 64 + (w.toNat - 0x80), rest)
        | _ => none
      else
        match rest with
        | v :: w :: x :: rest =>
            some ((u.toNat - 0xf0) * 262144 + (v.toNat - 0x80) * 4096 + (w.toNat - 0x80) * 64 +
              (x.toNat - 0x80), rest)
        | _ => none

section
variable {n : ℕ} {s : Units} {u : UInt16} {t : List Char}

lemma toNat_ofNat_of_lt (h : n < 256) : (UInt8.ofNat n).toNat = n := by
  rw [UInt8.toNat_ofNat']
  exact Nat.mod_eq_of_lt h

lemma readPoint_encodePoint (h : n < 0x110000) (rest : Bytes) :
    readPoint (encodePoint n ++ rest) = some (n, rest) := by
  rw [encodePoint]
  split_ifs with h₁ h₂ h₃
  · have hn : (UInt8.ofNat n).toNat = n := toNat_ofNat_of_lt (by omega)
    simp only [List.singleton_append, readPoint, hn]
    rw [if_pos (by omega)]
  · have hfirst : (UInt8.ofNat (n / 64 % 0x20 + 0xc0)).toNat = n / 64 % 0x20 + 0xc0 :=
      toNat_ofNat_of_lt (by omega)
    have hlast : (UInt8.ofNat (n % 0x40 + 0x80)).toNat = n % 0x40 + 0x80 :=
      toNat_ofNat_of_lt (by omega)
    simp only [List.cons_append, List.nil_append, readPoint, hfirst, hlast]
    rw [if_neg (by omega), if_pos (by omega), Option.some.injEq, Prod.mk.injEq]
    exact ⟨by omega, rfl⟩
  · have hfirst : (UInt8.ofNat (n / 4096 % 0x10 + 0xe0)).toNat = n / 4096 % 0x10 + 0xe0 :=
      toNat_ofNat_of_lt (by omega)
    have hsecond : (UInt8.ofNat (n / 64 % 0x40 + 0x80)).toNat = n / 64 % 0x40 + 0x80 :=
      toNat_ofNat_of_lt (by omega)
    have hlast : (UInt8.ofNat (n % 0x40 + 0x80)).toNat = n % 0x40 + 0x80 :=
      toNat_ofNat_of_lt (by omega)
    simp only [List.cons_append, List.nil_append, readPoint, hfirst, hsecond, hlast]
    rw [if_neg (by omega), if_neg (by omega), if_pos (by omega), Option.some.injEq, Prod.mk.injEq]
    exact ⟨by omega, rfl⟩
  · have hfirst : (UInt8.ofNat (n / 262144 % 0x08 + 0xf0)).toNat = n / 262144 % 0x08 + 0xf0 :=
      toNat_ofNat_of_lt (by omega)
    have hsecond : (UInt8.ofNat (n / 4096 % 0x40 + 0x80)).toNat = n / 4096 % 0x40 + 0x80 :=
      toNat_ofNat_of_lt (by omega)
    have hthird : (UInt8.ofNat (n / 64 % 0x40 + 0x80)).toNat = n / 64 % 0x40 + 0x80 :=
      toNat_ofNat_of_lt (by omega)
    have hlast : (UInt8.ofNat (n % 0x40 + 0x80)).toNat = n % 0x40 + 0x80 :=
      toNat_ofNat_of_lt (by omega)
    simp only [List.cons_append, List.nil_append, readPoint, hfirst, hsecond, hthird, hlast]
    rw [if_neg (by omega), if_neg (by omega), if_neg (by omega), Option.some.injEq, Prod.mk.injEq]
    exact ⟨by omega, rfl⟩

lemma encodePoint_ne_nil (n : ℕ) : encodePoint n ≠ [] := by
  rw [encodePoint]
  split_ifs <;> simp

lemma flatMap_encodePoint_injOn {ps qs : List ℕ} (hp : ∀ n ∈ ps, n < 0x110000)
    (hq : ∀ n ∈ qs, n < 0x110000) (h : ps.flatMap encodePoint = qs.flatMap encodePoint) : ps = qs := by
  induction ps generalizing qs with
  | nil =>
    cases qs with
    | nil => rfl
    | cons m qs =>
      rw [List.flatMap_nil, List.flatMap_cons, eq_comm, List.append_eq_nil_iff] at h
      exact absurd h.1 (encodePoint_ne_nil m)
  | cons n ps ih =>
    cases qs with
    | nil =>
      rw [List.flatMap_nil, List.flatMap_cons, List.append_eq_nil_iff] at h
      exact absurd h.1 (encodePoint_ne_nil n)
    | cons m qs =>
      rw [List.flatMap_cons, List.flatMap_cons] at h
      have hread := readPoint_encodePoint (hp n List.mem_cons_self) (ps.flatMap encodePoint)
      rw [h, readPoint_encodePoint (hq m List.mem_cons_self), Option.some.injEq, Prod.mk.injEq] at hread
      obtain ⟨rfl, hrest⟩ := hread
      rw [ih (fun k hk => hp k (List.mem_cons_of_mem _ hk)) (fun k hk => hq k (List.mem_cons_of_mem _ hk))
        hrest.symm]

lemma toNat_high (h : isHigh u = true) : 0xd800 ≤ u.toNat ∧ u.toNat < 0xdc00 := by
  simpa [isHigh] using h

lemma toNat_low (h : isLow u = true) : 0xdc00 ≤ u.toNat ∧ u.toNat < 0xe000 := by
  simpa [isLow] using h

lemma lt_of_mem_points (h : n ∈ points s) : n < 0x110000 := by
  induction s using points.induct with
  | case1 => contradiction
  | case2 u =>
    obtain rfl := List.mem_singleton.mp h
    have := u.toNat_lt
    omega
  | case3 u v rest hpair ih =>
    rw [points, if_pos hpair] at h
    obtain ⟨hu, hv⟩ := (Bool.and_eq_true _ _).mp hpair
    rcases List.mem_cons.mp h with rfl | h
    · have := toNat_high hu
      have := toNat_low hv
      rw [pairPoint]
      omega
    · exact ih h
  | case4 u v rest hpair ih =>
    rw [points, if_neg hpair] at h
    rcases List.mem_cons.mp h with rfl | h
    · have := u.toNat_lt
      omega
    · exact ih h

def pointUnits (n : ℕ) : Units :=
  if n < 0x10000 then [UInt16.ofNat n]
  else [UInt16.ofNat (0xd800 + (n - 0x10000) / 0x400), UInt16.ofNat (0xdc00 + (n - 0x10000) % 0x400)]

lemma pointUnits_toNat (u : UInt16) : pointUnits u.toNat = [u] := by
  rw [pointUnits, if_pos u.toNat_lt, UInt16.ofNat_toNat]

lemma pointUnits_pair {u v : UInt16} (hu : isHigh u = true) (hv : isLow v = true) :
    pointUnits (pairPoint u v) = [u, v] := by
  have hu := toNat_high hu
  have hv := toNat_low hv
  have hhigh : 0xd800 + (pairPoint u v - 0x10000) / 0x400 = u.toNat := by
    rw [pairPoint]
    omega
  have hlow : 0xdc00 + (pairPoint u v - 0x10000) % 0x400 = v.toNat := by
    rw [pairPoint]
    omega
  rw [pointUnits, if_neg (by rw [pairPoint]; omega), hhigh, hlow, UInt16.ofNat_toNat,
    UInt16.ofNat_toNat]

lemma flatMap_points (s : Units) : (points s).flatMap pointUnits = s := by
  induction s using points.induct with
  | case1 => rfl
  | case2 u => simp [points, pointUnits_toNat]
  | case3 u v rest hpair ih =>
    obtain ⟨hu, hv⟩ := (Bool.and_eq_true _ _).mp hpair
    rw [points, if_pos hpair, List.flatMap_cons, pointUnits_pair hu hv, ih]
    rfl
  | case4 u v rest hpair ih =>
    rw [points, if_neg hpair, List.flatMap_cons, pointUnits_toNat, ih]
    rfl

/-- Distinct strings have distinct bytes. -/
theorem encode_injective : Function.Injective encode := by
  intro s s' h
  have hpoints : points s = points s' :=
    flatMap_encodePoint_injOn (fun n hn => lt_of_mem_points hn) (fun n hn => lt_of_mem_points hn) h
  rw [← flatMap_points s, hpoints, flatMap_points]

lemma points_cons_of_not_isHigh (h : isHigh u = false) (s : Units) :
    points (u :: s) = u.toNat :: points s := by
  cases s with
  | nil => rfl
  | cons v s => simp [points, h]

lemma points_encodeChar_append (c : Char) (s : Units) :
    points (Utf16.encodeChar c ++ s) = c.toNat :: points s := by
  rcases Utf16.encodeChar_cases c with ⟨u, hc, hhigh, -, hu⟩ | ⟨u, v, hc, hhigh, hlow, hpair⟩
  · rw [hc, List.singleton_append, points_cons_of_not_isHigh hhigh, hu]
  · simp [hc, points, hhigh, hlow, pairPoint, hpair]

lemma points_encode (t : List Char) : points (Utf16.encode t) = t.map Char.toNat := by
  induction t with
  | nil => rfl
  | cons c t ih =>
    rw [Utf16.encode, List.flatMap_cons, points_encodeChar_append]
    exact congrArg (c.toNat :: ·) ih

/-- The bytes of a text are its UTF-8. -/
@[simp] theorem encode_encode (t : List Char) : encode (Utf16.encode t) = Utf8.encode t := by
  rw [encode, points_encode, List.flatMap_map]
  rfl

lemma encode_eq_iff : encode s = Utf8.encode t ↔ s = Utf16.encode t := by
  rw [← encode_encode]
  exact encode_injective.eq_iff

/-- The bytes are those of a text exactly when no surrogate is without its partner. -/
theorem wellFormed_iff : WellFormed s ↔ ∃ t, encode s = Utf8.encode t :=
  exists_congr fun _ => encode_eq_iff.symm

lemma points_append_cons (hhigh : isHigh u = false) (hlow : isLow u = false) (s s' : Units) :
    points (s ++ u :: s') = points s ++ u.toNat :: points s' := by
  induction s using points.induct with
  | case1 => exact points_cons_of_not_isHigh hhigh s'
  | case2 v => simp [points, hlow, points_cons_of_not_isHigh hhigh]
  | case3 v w rest hpair ih =>
    rw [List.cons_append, List.cons_append, points, if_pos hpair, ih, points, if_pos hpair]
    rfl
  | case4 v w rest hpair ih =>
    rw [List.cons_append, List.cons_append, points, if_neg hpair, ← List.cons_append, ih, points,
      if_neg hpair]
    rfl

lemma eq_zero_of_mem_encodePoint (h : 0 ∈ encodePoint n) : n = 0 := by
  have hne {k : ℕ} (hpos : 0 < k) (hlt : k < 256) : 0 ≠ UInt8.ofNat k := by
    intro he
    have hk := congrArg UInt8.toNat he
    rw [toNat_ofNat_of_lt hlt] at hk
    exact hpos.ne hk
  rw [encodePoint] at h
  split_ifs at h with h₁ h₂ h₃
  · by_contra hn
    exact hne (Nat.pos_of_ne_zero hn) (by omega) (List.mem_singleton.mp h)
  · rcases List.mem_pair.mp h with h | h <;> exact absurd h (hne (by omega) (by omega))
  · simp only [List.mem_cons, List.not_mem_nil, or_false] at h
    rcases h with h | h | h <;> exact absurd h (hne (by omega) (by omega))
  · simp only [List.mem_cons, List.not_mem_nil, or_false] at h
    rcases h with h | h | h | h <;> exact absurd h (hne (by omega) (by omega))

lemma zero_notMem_encode (h : 0 ∉ s) : 0 ∉ encode s := by
  intro hm
  obtain ⟨n, hn, hm⟩ := List.mem_flatMap.mp hm
  obtain rfl := eq_zero_of_mem_encodePoint hm
  rw [← flatMap_points s] at h
  exact h (List.mem_flatMap.mpr ⟨0, hn, List.mem_singleton.mpr rfl⟩)

/-- A string is cut where its bytes are. -/
theorem cut_encode (s : Units) : cut 0 (encode s) = encode (cut 0 s) := by
  rcases eq_or_cut 0 s with h | ⟨rest, hs⟩
  · rw [cut_of_notMem h, cut_of_notMem (zero_notMem_encode h)]
  · have hencode : encode s = encode (cut 0 s) ++ 0 :: encode rest := by
      conv_lhs => rw [hs, encode, points_append_cons rfl rfl, List.flatMap_append, List.flatMap_cons]
      rfl
    rw [hencode, cut_append_cons (zero_notMem_encode (notMem_cut 0 s))]

end

end Eventing.Wtf8
