import Mathlib.Data.List.Basic
import Mathlib.Data.List.TakeWhile
import Mathlib.Tactic.Common

/-!
# Regular expressions with leftmost, greedy matching

The part of ECMAScript's regular expressions that has a character of a set, a run of
such characters, concatenation and capture groups. `run` lists the matches at the
start of a text in the order in which a backtracking matcher tries them, longest run
first, and `search` takes the first one at the leftmost position that has any.
-/
namespace Eventing.Regex

variable {α : Type*}

inductive Pattern (α : Type*)
  | empty
  | one (p : α → Bool)
  | star (p : α → Bool)
  | seq (a b : Pattern α)
  | group (a : Pattern α)

/-- The text matched, the captures in the order in which their groups open, and what
follows the match. -/
structure Match (α : Type*) where
  text : List α
  groups : List (List α)
  rest : List α
  deriving DecidableEq

namespace Match

def andThen (x y : Match α) : Match α := ⟨x.text ++ y.text, x.groups ++ y.groups, y.rest⟩

def capture (x : Match α) : Match α := { x with groups := x.text :: x.groups }

def extend (t : List α) (x : Match α) : Match α := { x with rest := x.rest ++ t }

/-- The capture with a number, `0` standing for the whole match. -/
def sub (x : Match α) : ℕ → List α
  | 0 => x.text
  | n + 1 => x.groups.getD n []

lemma sub_extend (t : List α) (x : Match α) : (x.extend t).sub = x.sub := by
  funext n
  cases n <;> rfl

end Match

/-- The ways to cut a text after a run of `p`, longest run first. -/
def cuts (p : α → Bool) : List α → List (List α × List α)
  | [] => [([], [])]
  | c :: cs =>
      if p c then ((cuts p cs).map fun x => (c :: x.1, x.2)) ++ [([], c :: cs)]
      else [([], c :: cs)]

namespace Pattern

def run : Pattern α → List α → List (Match α)
  | .empty, s => [⟨[], [], s⟩]
  | .one _, [] => []
  | .one p, c :: s => if p c then [⟨[c], [], s⟩] else []
  | .star p, s => (cuts p s).map fun x => ⟨x.1, [], x.2⟩
  | .seq a b, s => (a.run s).flatMap fun x => (b.run x.rest).map x.andThen
  | .group a, s => (a.run s).map Match.capture

/-- The match that a backtracking matcher finds at the start of the text. -/
def first (r : Pattern α) (s : List α) : Option (Match α) := (r.run s).head?

/-- The text before the leftmost match, and the match. -/
def search (r : Pattern α) : List α → Option (List α × Match α)
  | [] => (r.first []).map fun x => ([], x)
  | c :: cs =>
      match r.first (c :: cs) with
      | some x => some ([], x)
      | none => (r.search cs).map fun y => (c :: y.1, y.2)

def lit [DecidableEq α] : List α → Pattern α
  | [] => .empty
  | c :: cs => .seq (.one fun d => d = c) (lit cs)

/-- No match contains `nl`. -/
def Avoids (nl : α) : Pattern α → Prop
  | .empty => True
  | .one p | .star p => p nl = false
  | .seq a b => a.Avoids nl ∧ b.Avoids nl
  | .group a => a.Avoids nl

end Pattern

/-- `while (regex_search(content, m, r)) { temp += m.prefix(); temp += ...;
content = m.suffix(); } temp += content`, where `build` says what is added for a
match. There is no result when the fuel runs out. -/
def searchLoop (r : Pattern α) (build : (ℕ → List α) → List α) :
    ℕ → List α → List α → Option (List α)
  | 0, _, _ => none
  | fuel + 1, temp, content =>
      match r.search content with
      | none => some (temp ++ content)
      | some (pre, x) => searchLoop r build fuel (temp ++ pre ++ build x.sub) x.rest

def replaceFirst (r : Pattern α) (build : (ℕ → List α) → List α) (s : List α) : List α :=
  match r.search s with
  | none => s
  | some (pre, x) => pre ++ build x.sub ++ x.rest

section Search
variable {r : Pattern α} {s : List α} {pre : List α} {x : Match α}

lemma search_eq_none : r.search s = none ↔ ∀ u v, s = u ++ v → r.first v = none := by
  induction s with
  | nil =>
    simp only [Pattern.search, Option.map_eq_none_iff]
    constructor
    · intro h u v huv
      rwa [(List.append_eq_nil_iff.mp huv.symm).2]
    · exact fun h => h [] [] rfl
  | cons c cs ih =>
    simp only [Pattern.search]
    cases hf : r.first (c :: cs) with
    | some x =>
      simp only [reduceCtorEq, false_iff]
      intro h
      simp [h [] (c :: cs) rfl] at hf
    | none =>
      simp only [Option.map_eq_none_iff, ih]
      constructor
      · intro h u v huv
        rcases List.cons_eq_append_iff.mp huv with ⟨-, rfl⟩ | ⟨u', -, hcs⟩
        · exact hf
        · exact h u' v hcs
      · intro h u v huv
        exact h (c :: u) v (by rw [huv, List.cons_append])

theorem search_eq_some : r.search s = some (pre, x) ↔
    ∃ v, s = pre ++ v ∧ r.first v = some x ∧
      ∀ u w, pre = u ++ w → w ≠ [] → r.first (w ++ v) = none := by
  induction s generalizing pre with
  | nil =>
    simp only [Pattern.search, Option.map_eq_some_iff, Prod.mk.injEq]
    constructor
    · rintro ⟨y, hy, rfl, rfl⟩
      refine ⟨[], rfl, hy, ?_⟩
      intro u w huw hw
      exact absurd (List.append_eq_nil_iff.mp huw.symm).2 hw
    · rintro ⟨v, hv, hx, -⟩
      obtain ⟨rfl, rfl⟩ := List.append_eq_nil_iff.mp hv.symm
      exact ⟨x, hx, rfl, rfl⟩
  | cons c cs ih =>
    simp only [Pattern.search]
    cases hf : r.first (c :: cs) with
    | some y =>
      simp only [Option.some.injEq, Prod.mk.injEq]
      constructor
      · rintro ⟨rfl, rfl⟩
        refine ⟨c :: cs, rfl, hf, ?_⟩
        intro u w huw hw
        exact absurd (List.append_eq_nil_iff.mp huw.symm).2 hw
      · rintro ⟨v, hv, hx, hleft⟩
        rcases List.cons_eq_append_iff.mp hv with ⟨rfl, rfl⟩ | ⟨pre', rfl, rfl⟩
        · exact ⟨rfl, Option.some.inj (hf.symm.trans hx)⟩
        · have hnone := hleft [] (c :: pre') rfl (by simp)
          simp [hf] at hnone
    | none =>
      simp only [Option.map_eq_some_iff, Prod.mk.injEq, Prod.exists]
      constructor
      · rintro ⟨pre', y, hy, rfl, rfl⟩
        obtain ⟨v, rfl, hx, hleft⟩ := ih.mp hy
        refine ⟨v, rfl, hx, ?_⟩
        intro u w huw hw
        rcases List.cons_eq_append_iff.mp huw with ⟨-, rfl⟩ | ⟨u', -, hpre⟩
        · exact hf
        · exact hleft u' w hpre hw
      · rintro ⟨v, hv, hx, hleft⟩
        rcases List.cons_eq_append_iff.mp hv with ⟨rfl, rfl⟩ | ⟨pre', rfl, rfl⟩
        · simp [hf] at hx
        · refine ⟨pre', x, ih.mpr ⟨v, rfl, hx, ?_⟩, rfl, rfl⟩
          intro u w huw hw
          exact hleft (c :: u) w (by rw [huw, List.cons_append]) hw

theorem search_append {u v : List α} (h : ∀ a b, u = a ++ b → b ≠ [] → r.first (b ++ v) = none) :
    r.search (u ++ v) = (r.search v).map fun y => (u ++ y.1, y.2) := by
  induction u with
  | nil => simp
  | cons c cs ih =>
    have hc := h [] (c :: cs) rfl (by simp)
    have hi := ih fun a b hab hb => h (c :: a) b (by rw [hab, List.cons_append]) hb
    rw [List.cons_append] at hc ⊢
    cases hv : r.search v <;> simp [Pattern.search, hc, hi, hv]

end Search

section Greedy
variable {p : α → Bool} {k : List α → Option (Match α)} {s : List α}

/-- The longest run of `p` after which `k` succeeds. -/
def longest (p : α → Bool) (k : List α → Option (Match α)) (s : List α) :
    Option (List α × Match α) :=
  (cuts p s).findSome? fun y => (k y.2).map fun x => (y.1, x)

lemma longest_cons {c : α} {cs : List α} (hc : p c = true) :
    longest p k (c :: cs) = ((longest p k cs).map fun y => (c :: y.1, y.2)).or
      ((k (c :: cs)).map fun x => ([], x)) := by
  have hmap : ∀ l : List (List α × List α),
      (l.map fun y => (c :: y.1, y.2)).findSome? (fun y => (k y.2).map fun x => (y.1, x)) =
        (l.findSome? fun y => (k y.2).map fun x => (y.1, x)).map fun y => (c :: y.1, y.2) := by
    intro l
    induction l with
    | nil => rfl
    | cons y l ih => cases hk : k y.2 <;> simp [hk, ih]
  simp [longest, cuts, hc, List.findSome?_append, hmap]

lemma longest_cons_of_not {c : α} {cs : List α} (hc : p c = false) :
    longest p k (c :: cs) = (k (c :: cs)).map fun x => ([], x) := by
  simp [longest, cuts, hc]

lemma longest_eq_none : longest p k s = none ↔
    ∀ a t, s = a ++ t → (∀ c ∈ a, p c = true) → k t = none := by
  induction s with
  | nil =>
    simp only [longest, cuts, List.findSome?_singleton, Option.map_eq_none_iff]
    constructor
    · intro h a t hat _
      rwa [(List.append_eq_nil_iff.mp hat.symm).2]
    · exact fun h => h [] [] rfl (by simp)
  | cons c cs ih =>
    cases hc : p c with
    | false =>
      rw [longest_cons_of_not hc, Option.map_eq_none_iff]
      constructor
      · intro h a t hat ha
        rcases List.cons_eq_append_iff.mp hat with ⟨-, rfl⟩ | ⟨a', rfl, -⟩
        · exact h
        · simp [hc] at ha
      · exact fun h => h [] (c :: cs) rfl (by simp)
    | true =>
      rw [longest_cons hc, Option.or_eq_none_iff, Option.map_eq_none_iff, Option.map_eq_none_iff, ih]
      constructor
      · rintro ⟨h, h'⟩ a t hat ha
        rcases List.cons_eq_append_iff.mp hat with ⟨-, rfl⟩ | ⟨a', rfl, hcs⟩
        · exact h'
        · exact h a' t hcs fun d hd => ha d (List.mem_cons_of_mem _ hd)
      · intro h
        refine ⟨fun a t hat ha => ?_, h [] (c :: cs) rfl (by simp)⟩
        exact h (c :: a) t (by rw [hat, List.cons_append]) (by simpa [hc] using ha)

theorem longest_eq_some {a : List α} {x : Match α} : longest p k s = some (a, x) ↔
    ∃ t, s = a ++ t ∧ (∀ c ∈ a, p c = true) ∧ k t = some x ∧
      ∀ b u, t = b ++ u → b ≠ [] → (∀ c ∈ b, p c = true) → k u = none := by
  induction s generalizing a x with
  | nil =>
    simp only [longest, cuts, List.findSome?_singleton, Option.map_eq_some_iff, Prod.mk.injEq]
    constructor
    · rintro ⟨y, hy, rfl, rfl⟩
      refine ⟨[], rfl, by simp, hy, ?_⟩
      intro b u hbu hb
      exact absurd (List.append_eq_nil_iff.mp hbu.symm).1 hb
    · rintro ⟨t, ht, -, hx, -⟩
      obtain ⟨rfl, rfl⟩ := List.append_eq_nil_iff.mp ht.symm
      exact ⟨x, hx, rfl, rfl⟩
  | cons c cs ih =>
    cases hc : p c with
    | false =>
      simp only [longest_cons_of_not hc, Option.map_eq_some_iff, Prod.mk.injEq]
      constructor
      · rintro ⟨y, hy, rfl, rfl⟩
        refine ⟨c :: cs, rfl, by simp, hy, ?_⟩
        intro b u hbu hb hpb
        rcases List.cons_eq_append_iff.mp hbu with ⟨rfl, -⟩ | ⟨b', rfl, -⟩
        · exact absurd rfl hb
        · simp [hc] at hpb
      · rintro ⟨t, ht, ha, hx, -⟩
        rcases List.cons_eq_append_iff.mp ht with ⟨rfl, rfl⟩ | ⟨a', rfl, -⟩
        · exact ⟨x, hx, rfl, rfl⟩
        · simp [hc] at ha
    | true =>
      rw [longest_cons hc]
      cases hl : longest p k cs with
      | some y =>
        simp only [Option.map_some, Option.some_or, Option.some.injEq, Prod.mk.injEq]
        obtain ⟨a', x'⟩ := y
        obtain ⟨t, hcs, ha', hx', hlong⟩ := ih.mp hl
        constructor
        · rintro ⟨rfl, rfl⟩
          exact ⟨t, by rw [hcs, List.cons_append], by simpa [hc] using ha', hx', hlong⟩
        · rintro ⟨t', ht', ha, hx, hlong'⟩
          rcases List.cons_eq_append_iff.mp ht' with ⟨rfl, rfl⟩ | ⟨a₁, rfl, hcs'⟩
          · have hnone := hlong' (c :: a') t (by rw [hcs, List.cons_append]) (by simp)
              (by simpa [hc] using ha')
            simp [hx'] at hnone
          · have hl' := ih.mpr ⟨t', hcs', fun d hd => ha d (List.mem_cons_of_mem _ hd), hx, hlong'⟩
            rw [hl, Option.some.injEq, Prod.mk.injEq] at hl'
            exact ⟨by rw [hl'.1], hl'.2⟩
      | none =>
        simp only [Option.map_none, Option.none_or, Option.map_eq_some_iff, Prod.mk.injEq]
        have hnone := longest_eq_none.mp hl
        constructor
        · rintro ⟨y, hy, rfl, rfl⟩
          refine ⟨c :: cs, rfl, by simp, hy, ?_⟩
          intro b u hbu hb hpb
          rcases List.cons_eq_append_iff.mp hbu with ⟨rfl, -⟩ | ⟨b', rfl, hcs⟩
          · exact absurd rfl hb
          · exact hnone b' u hcs fun d hd => hpb d (List.mem_cons_of_mem _ hd)
        · rintro ⟨t, ht, ha, hx, -⟩
          rcases List.cons_eq_append_iff.mp ht with ⟨rfl, rfl⟩ | ⟨a', rfl, hcs⟩
          · exact ⟨x, hx, rfl, rfl⟩
          · have := hnone a' t hcs fun d hd => ha d (List.mem_cons_of_mem _ hd)
            simp [hx] at this

lemma first_star_seq {r : Pattern α} :
    (Pattern.seq (.group (.star p)) r).first s =
      (longest p r.first s).map fun y => ⟨y.1 ++ y.2.text, y.1 :: y.2.groups, y.2.rest⟩ := by
  have hrun : ∀ y : List α × List α,
      ((r.run y.2).map (Match.andThen (Match.capture ⟨y.1, [], y.2⟩))).head? =
        ((r.first y.2).map fun x => (y.1, x)).map fun y =>
          (⟨y.1 ++ y.2.text, y.1 :: y.2.groups, y.2.rest⟩ : Match α) := by
    intro y
    rw [List.head?_map, Pattern.first, Option.map_map]
    rfl
  rw [Pattern.first, longest, Pattern.run, Pattern.run, Pattern.run, List.map_map,
    List.flatMap_map, List.head?_flatMap]
  induction cuts p s with
  | nil => rfl
  | cons y l ih =>
    rw [List.findSome?_cons, List.findSome?_cons]
    have hy := hrun y
    simp only [Function.comp_apply, Match.capture] at hy ⊢
    rw [hy]
    cases (r.first y.2).map fun x => (y.1, x) with
    | none => exact ih
    | some z => rfl

end Greedy

section Literal
variable {r k : Pattern α} {v s t : List α} {gs : List (List α)} {x : Match α}

/-- `k` matches exactly the text `v`, with these captures. -/
structure Literal (k : Pattern α) (v : List α) (gs : List (List α)) : Prop where
  append : ∀ t, k.run (v ++ t) = [⟨v, gs, t⟩]
  of_not : ∀ s, ¬ v <+: s → k.run s = []

lemma literal_lit [DecidableEq α] (v : List α) : Literal (.lit v) v [] := by
  induction v with
  | nil => exact ⟨fun _ => rfl, fun _ h => absurd (List.nil_prefix) h⟩
  | cons c cs ih =>
    constructor
    · intro t
      simp [Pattern.lit, Pattern.run, ih.append, Match.andThen]
    · intro s h
      cases s with
      | nil => simp [Pattern.lit, Pattern.run]
      | cons d ds =>
        by_cases hd : d = c
        · subst hd
          have hcs : ¬ cs <+: ds := by simpa using h
          simp [Pattern.lit, Pattern.run, ih.of_not ds hcs]
        · simp [Pattern.lit, Pattern.run, hd]

lemma Literal.group (h : Literal k v gs) : Literal (.group k) v (v :: gs) := by
  constructor
  · intro t
    rw [Pattern.run, h.append]
    rfl
  · intro s hs
    rw [Pattern.run, h.of_not s hs]
    rfl

lemma Literal.first_append (h : Literal k v gs) : k.first (v ++ t) = some ⟨v, gs, t⟩ := by
  rw [Pattern.first, h.append]
  rfl

lemma Literal.first_of_not (h : Literal k v gs) (hs : ¬ v <+: s) : k.first s = none := by
  rw [Pattern.first, h.of_not s hs]
  rfl

lemma Literal.prefix_of_some (h : Literal k v gs) (hx : k.first s = some x) :
    ∃ t, s = v ++ t ∧ x = ⟨v, gs, t⟩ := by
  by_cases hv : v <+: s
  · obtain ⟨t, rfl⟩ := hv
    rw [h.first_append, Option.some.injEq] at hx
    exact ⟨t, rfl, hx.symm⟩
  · simp [h.first_of_not hv] at hx

lemma Literal.first_seq_append (h : Literal k v gs) :
    (Pattern.seq k r).first (v ++ t) =
      (r.first t).map fun x => ⟨v ++ x.text, gs ++ x.groups, x.rest⟩ := by
  simp only [Pattern.first, Pattern.run, h.append, List.flatMap_singleton, List.head?_map]
  rfl

lemma Literal.first_seq_of_not (h : Literal k v gs) (hs : ¬ v <+: s) :
    (Pattern.seq k r).first s = none := by
  simp [Pattern.first, Pattern.run, h.of_not s hs]

lemma avoids_lit [DecidableEq α] {nl : α} (h : nl ∉ v) : (Pattern.lit v).Avoids nl := by
  induction v with
  | nil => trivial
  | cons c cs ih =>
    have hc : nl ≠ c := fun he => h (by simp [he])
    exact ⟨by simpa [Pattern.Avoids] using hc, ih fun hm => h (List.mem_cons_of_mem _ hm)⟩

end Literal

section UpTo
variable {p : α → Bool} {v : List α} {gs : List (List α)} {k : Pattern α}
  {s t a b rest : List α} {x : Match α}

/-- A text whose first character does not come again in it, so that two occurrences
of it do not overlap. -/
def HeadOnce (v : List α) : Prop := ∃ c w, v = c :: w ∧ c ∉ w

lemma HeadOnce.ne_nil (h : HeadOnce v) : v ≠ [] := by
  obtain ⟨c, w, rfl, -⟩ := h
  simp

theorem HeadOnce.apart (h : HeadOnce v) {u : List α} (hb : b ≠ []) (heq : v ++ rest = b ++ u)
    (hu : v <+: u) : ∃ b', b = v ++ b' ∧ rest = b' ++ u := by
  rcases List.append_eq_append_iff.mp heq with ⟨b', rfl, hrest⟩ | ⟨w, rfl, hu'⟩
  · exact ⟨b', rfl, hrest⟩
  · cases w with
    | nil => exact ⟨[], by simp, by simpa using hu'.symm⟩
    | cons d ds =>
      obtain ⟨c, w', hv, hc⟩ := h
      obtain ⟨z, rfl⟩ := hu
      cases b with
      | nil => exact absurd rfl hb
      | cons e es =>
        simp only [List.cons_append, List.cons.injEq] at hv hu'
        obtain ⟨rfl, rfl⟩ := hv
        exact absurd (by simp [hu'.1]) hc

/-- No run of `p` from the start of the text leads to another occurrence of `v`. -/
lemma not_infix_takeWhile :
    ¬ v <:+: s.takeWhile p ↔ ∀ b u, s = b ++ u → (∀ c ∈ b ++ v, p c = true) → ¬ v <+: u := by
  constructor
  · rintro h b u rfl hb ⟨z, rfl⟩
    refine h ⟨b, z.takeWhile p, ?_⟩
    rw [← List.append_assoc, List.takeWhile_append_of_pos hb]
  · rintro h ⟨b, z, hbz⟩
    have hp : ∀ c ∈ b ++ v, p c = true := by
      intro c hc
      have hm : c ∈ s.takeWhile p := by
        rw [← hbz]
        exact List.mem_append_left _ hc
      exact List.mem_takeWhile_imp hm
    refine h b (v ++ (z ++ s.dropWhile p)) ?_ hp (List.prefix_append _ _)
    rw [← List.append_assoc b, ← List.append_assoc (b ++ v), hbz, List.takeWhile_append_dropWhile]

lemma infix_takeWhile (h : v <:+: s.takeWhile p) :
    ∃ b u, s = b ++ u ∧ (∀ c ∈ b ++ v, p c = true) ∧ v <+: u := by
  by_contra hno
  exact not_infix_takeWhile.mpr (fun b u hs hb hv => hno ⟨b, u, hs, hb, hv⟩) h

/-- A run of `p` up to the last `v` that it can lead to. -/
theorem first_upTo_some (hk : Literal k v gs) (hv : HeadOnce v) (hp : ∀ c ∈ v, p c = true) :
    (Pattern.seq (.group (.star p)) k).first t = some x ↔
      ∃ a rest, t = a ++ (v ++ rest) ∧ (∀ c ∈ a, p c = true) ∧ ¬ v <:+: rest.takeWhile p ∧
        x = ⟨a ++ v, a :: gs, rest⟩ := by
  rw [first_star_seq, Option.map_eq_some_iff]
  constructor
  · rintro ⟨⟨a, y⟩, hy, rfl⟩
    obtain ⟨t', rfl, ha, hk', hlong⟩ := longest_eq_some.mp hy
    obtain ⟨rest, rfl, rfl⟩ := hk.prefix_of_some hk'
    refine ⟨a, rest, rfl, ha, ?_, rfl⟩
    rw [not_infix_takeWhile]
    rintro b u rfl hb ⟨z, rfl⟩
    have hpb : ∀ c ∈ v ++ b, p c = true :=
      List.forall_mem_append.mpr ⟨hp, (List.forall_mem_append.mp hb).1⟩
    have hnone := hlong (v ++ b) (v ++ z) (by simp) (by simp [hv.ne_nil]) hpb
    simp [hk.first_append] at hnone
  · rintro ⟨a, rest, rfl, ha, hlast, rfl⟩
    refine ⟨(a, ⟨v, gs, rest⟩), longest_eq_some.mpr ⟨v ++ rest, rfl, ha, hk.first_append, ?_⟩, rfl⟩
    intro b u hbu hb hpb
    apply hk.first_of_not
    intro hu
    obtain ⟨b', rfl, rfl⟩ := hv.apart hb hbu hu
    have hpv : ∀ c ∈ b' ++ v, p c = true :=
      List.forall_mem_append.mpr ⟨(List.forall_mem_append.mp hpb).2, hp⟩
    exact not_infix_takeWhile.mp hlast b' u rfl hpv hu

theorem first_upTo_none (hk : Literal k v gs) (hp : ∀ c ∈ v, p c = true) :
    (Pattern.seq (.group (.star p)) k).first t = none ↔ ¬ v <:+: t.takeWhile p := by
  rw [first_star_seq, Option.map_eq_none_iff, longest_eq_none, not_infix_takeWhile]
  constructor
  · rintro h b u rfl hb ⟨z, rfl⟩
    have hnone := h b (v ++ z) rfl fun c hc => hb c (List.mem_append_left _ hc)
    simp [hk.first_append] at hnone
  · intro h a u hau ha
    apply hk.first_of_not
    exact h a u hau (List.forall_mem_append.mpr ⟨ha, hp⟩)

section Two
variable {l : Pattern α} {u : List α}

/-- A `u` that is followed by a `v` on the same run of `p` comes before the last `v`. -/
lemma infix_of_later {b d z rest : List α} (hv : HeadOnce v) (hp : ∀ c ∈ v, p c = true)
    (h : b ++ (v ++ rest) = d ++ (u ++ z)) (hpd : ∀ c ∈ d ++ u, p c = true)
    (hz : v <:+: z.takeWhile p) (hlast : ¬ v <:+: rest.takeWhile p) : u <:+: b := by
  rw [← List.append_assoc d] at h
  rcases List.append_eq_append_iff.mp h with ⟨e, hde, hve⟩ | ⟨e, rfl, -⟩
  · by_cases he : e = []
    · exact ⟨d, [], by simpa [he] using hde⟩
    · exfalso
      have hpe : ∀ c ∈ e, p c = true := fun c hc => hpd c (hde ▸ List.mem_append_right _ hc)
      obtain ⟨z₁, w, rfl, hz₁, hw⟩ := infix_takeWhile hz
      rw [← List.append_assoc] at hve
      obtain ⟨b', hb', rfl⟩ := hv.apart (by simp [he]) hve hw
      have hpb' : ∀ c ∈ v ++ b', p c = true :=
        hb' ▸ List.forall_mem_append.mpr ⟨hpe, (List.forall_mem_append.mp hz₁).1⟩
      refine not_infix_takeWhile.mp hlast b' w rfl ?_ hw
      exact List.forall_mem_append.mpr ⟨(List.forall_mem_append.mp hpb').2, hp⟩
  · exact ⟨d, e, rfl⟩

/-- Two runs of `p` with `u` between them, up to the last `v`: the second run starts
after the last `u` that comes before it. -/
theorem first_upTo_upTo_some (hk : Literal k v gs) (hv : HeadOnce v) (hp : ∀ c ∈ v, p c = true)
    (hl : Literal l u []) (hu : HeadOnce u) (hpu : ∀ c ∈ u, p c = true) :
    (Pattern.seq (.group (.star p)) (.seq l (.seq (.group (.star p)) k))).first t = some x ↔
      ∃ a b rest, t = a ++ (u ++ (b ++ (v ++ rest))) ∧ (∀ c ∈ a, p c = true) ∧
        (∀ c ∈ b, p c = true) ∧ ¬ u <:+: b ∧ ¬ v <:+: rest.takeWhile p ∧
        x = ⟨a ++ (u ++ (b ++ v)), a :: b :: gs, rest⟩ := by
  rw [first_star_seq, Option.map_eq_some_iff]
  constructor
  · rintro ⟨⟨a, y⟩, hy, rfl⟩
    obtain ⟨t', rfl, ha, hk', hlong⟩ := longest_eq_some.mp hy
    have hut : u <+: t' := by
      by_contra hut
      simp [hl.first_seq_of_not hut] at hk'
    obtain ⟨t'', rfl⟩ := hut
    rw [hl.first_seq_append, Option.map_eq_some_iff] at hk'
    obtain ⟨z, hz, rfl⟩ := hk'
    obtain ⟨b, rest, rfl, hb, hlast, rfl⟩ := (first_upTo_some hk hv hp).mp hz
    refine ⟨a, b, rest, rfl, ha, hb, ?_, hlast, rfl⟩
    rintro ⟨b₁, b₂, rfl⟩
    simp only [List.forall_mem_append] at hb
    have hnone := hlong (u ++ b₁) (u ++ (b₂ ++ (v ++ rest))) (by simp) (by simp [hu.ne_nil])
      (List.forall_mem_append.mpr ⟨hpu, hb.1.1⟩)
    rw [hl.first_seq_append, Option.map_eq_none_iff, first_upTo_none hk hp,
      not_infix_takeWhile] at hnone
    exact hnone b₂ (v ++ rest) rfl (List.forall_mem_append.mpr ⟨hb.2, hp⟩) (List.prefix_append _ _)
  · rintro ⟨a, b, rest, rfl, ha, hb, hub, hlast, rfl⟩
    have hz := (first_upTo_some hk hv hp).mpr ⟨b, rest, rfl, hb, hlast, rfl⟩
    refine ⟨(a, ⟨u ++ (b ++ v), b :: gs, rest⟩), longest_eq_some.mpr ⟨_, rfl, ha, ?_, ?_⟩, rfl⟩
    · rw [hl.first_seq_append, hz]
      rfl
    · intro d t' hd hne hpd
      by_contra hsome
      have hut : u <+: t' := by
        by_contra hut
        exact hsome (hl.first_seq_of_not hut)
      obtain ⟨d', rfl, hbd⟩ := hu.apart hne hd hut
      obtain ⟨z, rfl⟩ := hut
      rw [hl.first_seq_append, Option.map_eq_none_iff, first_upTo_none hk hp, not_not] at hsome
      have hpd' : ∀ c ∈ d' ++ u, p c = true := by
        simpa only [List.forall_mem_append, and_comm] using hpd
      exact hub (infix_of_later hv hp hbd hpd' hsome hlast)

theorem first_upTo_upTo_none (hk : Literal k v gs) (hp : ∀ c ∈ v, p c = true)
    (hl : Literal l u []) :
    (Pattern.seq (.group (.star p)) (.seq l (.seq (.group (.star p)) k))).first t = none ↔
      ∀ a b rest, t = a ++ (u ++ (b ++ (v ++ rest))) → (∀ c ∈ a, p c = true) →
        ¬ ∀ c ∈ b, p c = true := by
  rw [first_star_seq, Option.map_eq_none_iff, longest_eq_none]
  constructor
  · rintro h a b rest rfl ha hb
    have hnone := h a _ rfl ha
    rw [hl.first_seq_append, Option.map_eq_none_iff, first_upTo_none hk hp,
      not_infix_takeWhile] at hnone
    exact hnone b (v ++ rest) rfl (List.forall_mem_append.mpr ⟨hb, hp⟩) (List.prefix_append _ _)
  · intro h a t' hat ha
    by_cases hut : u <+: t'
    · obtain ⟨t'', rfl⟩ := hut
      rw [hl.first_seq_append, Option.map_eq_none_iff, first_upTo_none hk hp, not_infix_takeWhile]
      rintro b w rfl hb ⟨rest, rfl⟩
      exact h a b rest hat ha fun c hc => hb c (List.mem_append_left _ hc)
    · exact hl.first_seq_of_not hut

end Two

end UpTo

section Lines
variable {r : Pattern α} {build : (ℕ → List α) → List α} {nl : α} {line more : List α}

lemma cuts_append_nl {p : α → Bool} (h : p nl = false) :
    cuts p (line ++ nl :: more) = (cuts p line).map fun x => (x.1, x.2 ++ nl :: more) := by
  induction line with
  | nil => simp [cuts, h]
  | cons c cs ih =>
    by_cases hc : p c = true
    · simp [cuts, hc, ih]
    · simp [cuts, hc]

theorem run_append_nl (h : r.Avoids nl) :
    r.run (line ++ nl :: more) = (r.run line).map (Match.extend (nl :: more)) := by
  induction r generalizing line with
  | empty => rfl
  | one p =>
    cases line with
    | nil => simp [Pattern.run, show p nl = false from h]
    | cons c cs =>
      by_cases hc : p c = true
      · simp [Pattern.run, hc, Match.extend]
      · simp [Pattern.run, hc]
  | star p =>
    simp only [Pattern.run, cuts_append_nl (show p nl = false from h), List.map_map]
    rfl
  | seq a b iha ihb =>
    simp only [Pattern.run, iha h.1, List.flatMap_map, List.map_flatMap]
    apply List.flatMap_congr
    intro x _
    rw [Match.extend, ihb h.2, List.map_map, List.map_map]
    rfl
  | group a ih =>
    simp only [Pattern.run, ih h, List.map_map]
    rfl

lemma first_append_nl (h : r.Avoids nl) :
    r.first (line ++ nl :: more) = (r.first line).map (Match.extend (nl :: more)) := by
  rw [Pattern.first, run_append_nl h, List.head?_map, Pattern.first]

lemma search_append_nl_some (h : r.Avoids nl) {pre : List α} {x : Match α}
    (hs : r.search line = some (pre, x)) :
    r.search (line ++ nl :: more) = some (pre, x.extend (nl :: more)) := by
  obtain ⟨v, rfl, hx, hleft⟩ := search_eq_some.mp hs
  refine search_eq_some.mpr ⟨v ++ nl :: more, by simp, ?_, ?_⟩
  · rw [first_append_nl h, hx]
    rfl
  · intro u w huw hw
    rw [← List.append_assoc, first_append_nl h, hleft u w huw hw]
    rfl

lemma search_append_nl_none (h : r.Avoids nl) (hs : r.search line = none) :
    r.search (line ++ nl :: more) = (r.search more).map fun y => (line ++ nl :: y.1, y.2) := by
  have hnl : r.search ((line ++ [nl]) ++ more) =
      (r.search more).map fun y => ((line ++ [nl]) ++ y.1, y.2) := by
    apply search_append
    intro a b hab hb
    -- The part after `a` ends with the line break, so it starts in the line.
    obtain ⟨b', rfl⟩ : ∃ b', b = b' ++ [nl] := by
      obtain ⟨b', c, rfl⟩ := List.eq_nil_or_concat b |>.resolve_left hb
      refine ⟨b', ?_⟩
      rw [List.concat_eq_append, ← List.append_assoc] at hab
      rw [List.concat_eq_append, (List.append_inj' hab rfl).2]
    rw [← List.append_assoc] at hab
    rw [List.append_assoc, List.singleton_append, first_append_nl h,
      search_eq_none.mp hs a b' (List.append_inj' hab rfl).1]
    rfl
  simpa using hnl

lemma searchLoop_pass (h : r.Avoids nl) (hs : r.search line = none) (fuel : ℕ) (temp : List α) :
    searchLoop r build fuel temp (line ++ nl :: more) =
      searchLoop r build fuel (temp ++ line ++ [nl]) more := by
  cases fuel with
  | zero => rfl
  | succ fuel =>
    rw [searchLoop, searchLoop, search_append_nl_none h hs]
    cases r.search more <;> simp

/-- The loop acts on every line on its own when the pattern does not match a line
break and the rest of a line after a match has no match. -/
theorem searchLoop_lines [DecidableEq α] (h : r.Avoids nl) (s : List α)
    (once : ∀ line ∈ s.splitOn nl, ∀ pre x, r.search line = some (pre, x) → r.search x.rest = none)
    {fuel : ℕ} (hf : (s.splitOn nl).length < fuel) (temp : List α) :
    searchLoop r build fuel temp s =
      some (temp ++ [nl].intercalate ((s.splitOn nl).map (replaceFirst r build))) := by
  induction hn : s.length using Nat.strongRecOn generalizing s fuel temp with
  | _ n ih =>
  obtain ⟨fuel, rfl⟩ : ∃ k, fuel = k + 1 := ⟨fuel - 1, by omega⟩
  by_cases hnl : nl ∈ s
  · obtain ⟨line, more, rfl, hline⟩ := List.eq_append_cons_of_mem hnl
    rw [List.splitOn_append_cons_self_of_not_mem hline] at hf once ⊢
    have honce : ∀ line' ∈ more.splitOn nl, ∀ pre x, r.search line' = some (pre, x) →
        r.search x.rest = none := fun line' hl => once line' (List.mem_cons_of_mem _ hl)
    have hlen : more.length < n := by
      simp only [← hn, List.length_append, List.length_cons]
      omega
    have hmore : (more.splitOn nl).map (replaceFirst r build) ≠ [] := by simp
    rw [List.map_cons, List.intercalate_cons_of_ne_nil hmore]
    simp only [List.length_cons] at hf
    cases hs : r.search line with
    | none =>
      rw [searchLoop_pass h hs, ih _ hlen more honce (by omega) _ rfl]
      simp [replaceFirst, hs]
    | some y =>
      obtain ⟨pre, x⟩ := y
      rw [searchLoop, search_append_nl_some h hs]
      change searchLoop r build fuel (temp ++ pre ++ build (x.extend (nl :: more)).sub)
        (x.rest ++ nl :: more) = _
      rw [Match.sub_extend, searchLoop_pass h (once line (by simp) pre x hs), ih _ hlen more honce (by omega) _ rfl]
      simp [replaceFirst, hs]
  · rw [List.splitOn_eq_singleton hnl] at hf once ⊢
    simp only [List.length_singleton] at hf
    rw [searchLoop]
    cases hs : r.search s with
    | none => simp [replaceFirst, hs]
    | some y =>
      obtain ⟨pre, x⟩ := y
      obtain ⟨fuel, rfl⟩ : ∃ k, fuel = k + 1 := ⟨fuel - 1, by omega⟩
      simp [searchLoop, once s (by simp) pre x hs, replaceFirst, hs]

end Lines

end Eventing.Regex
