import Eventing.Regex

/-!
# Replacing calls in a text

A text with calls in it, each starting with the same opening text, and when the
search loop replaces every call on its own.
-/
namespace Eventing.Regex

variable {α κ : Type*}

/-- No end of the text is also a start of it. -/
def Unbordered [DecidableEq α] (o : List α) : Prop :=
  ∀ k < o.length, 0 < k → (o.take k ++ o).take o.length ≠ o

/-- A text with calls in it, written by `f`, each followed by more text. -/
def render (f : κ → List α) (t : List α) : List (κ × List α) → List α
  | [] => t
  | (c, t') :: more => t ++ (f c ++ render f t' more)

/-- Every call is good in front of what follows it. -/
def AllGood (good : κ → List α → Prop) (f : κ → List α) : List (κ × List α) → Prop
  | [] => True
  | (c, t) :: more => good c (render f t more) ∧ AllGood good f more

section Openings
variable [DecidableEq α] {o w y z t : List α}

theorem Unbordered.prefix_of_append (ho : Unbordered o) (hw : w ≠ [])
    (h : o ++ y = w ++ (o ++ z)) : o <+: w := by
  by_cases hlen : w.length < o.length
  · have hpos : 0 < w.length := List.length_pos_iff.mpr hw
    have htake : o.take w.length = w := by
      have := congrArg (List.take w.length) h
      rwa [List.take_append_of_le_length hlen.le, List.take_left] at this
    have hfull := congrArg (List.take o.length) h
    rw [List.take_left, ← List.append_assoc, List.take_append_of_le_length (by simp)] at hfull
    exact absurd (by rw [htake, ← hfull]) (ho w.length hlen hpos)
  · exact List.prefix_of_prefix_length_le ⟨y, h⟩ (List.prefix_append w (o ++ z)) (by omega)

lemma no_opening (ho : Unbordered o) (ht : ¬ o <:+: t) {u : List α} (htw : t = u ++ w)
    (hw : w ≠ []) : ¬ o <+: w ++ (o ++ z) := by
  rintro ⟨y, hy⟩
  obtain ⟨v, rfl⟩ := ho.prefix_of_append hw hy
  exact ht ⟨u, v, by rw [htw, List.append_assoc]⟩

end Openings

section Loop
variable {r : Pattern α} {build : (ℕ → List α) → List α}

/-- What the loop has written stays at the start of its result. -/
theorem prefix_of_searchLoop {fuel : ℕ} {temp s out : List α}
    (h : searchLoop r build fuel temp s = some out) : temp <+: out := by
  induction fuel generalizing temp s with
  | zero => simp [searchLoop] at h
  | succ fuel ih =>
    rw [searchLoop] at h
    split at h
    · rw [Option.some.injEq] at h
      exact ⟨s, h⟩
    · rename_i pre x _
      have hlong := ih h
      rw [List.append_assoc] at hlong
      exact (List.prefix_append _ _).trans hlong

section Calls
variable [DecidableEq α] {o temp t : List α} {ps : List (κ × List α)}

/-- At the first call the loop writes what the call stands for, or something else that
stays in the result. -/
lemma not_searchLoop_of_bad (hopen : ∀ s x, r.first s = some x → o <+: s) (ho : Unbordered o)
    {v access out : List α} (hskip : ∀ z z', o ++ z ≠ access ++ z')
    (hbad : ∀ x, r.first (o ++ v) = some x → ∀ z z', build x.sub ++ z ≠ access ++ z')
    (ht : ¬ o <:+: t) (fuel : ℕ) :
    searchLoop r build fuel temp (t ++ (o ++ v)) ≠ some (temp ++ (t ++ (access ++ out))) := by
  intro h
  cases fuel with
  | zero => simp [searchLoop] at h
  | succ fuel =>
    have hpass : r.search (t ++ (o ++ v)) = (r.search (o ++ v)).map fun y => (t ++ y.1, y.2) := by
      apply search_append
      intro u w htw hw
      cases hf : r.first (w ++ (o ++ v)) with
      | none => rfl
      | some x => exact absurd (hopen _ x hf) (no_opening ho ht htw hw)
    rw [searchLoop, hpass] at h
    cases hs : r.search (o ++ v) with
    | none =>
      simp only [hs, Option.map_none, Option.some.injEq, List.append_cancel_left_eq] at h
      exact hskip _ _ h
    | some y =>
      obtain ⟨pre, x⟩ := y
      simp only [hs, Option.map_some] at h
      obtain ⟨z, hz⟩ := prefix_of_searchLoop h
      simp only [List.append_assoc, List.append_cancel_left_eq] at hz
      obtain ⟨v', hv, hx, -⟩ := search_eq_some.mp hs
      by_cases hpre : pre = []
      · subst hpre
        rw [List.nil_append] at hv hz
        exact hbad x (hv ▸ hx) _ _ hz
      · -- A match further on leaves the opening text of this call in place.
        obtain ⟨z', rfl⟩ := hopen _ _ hx
        obtain ⟨pre', rfl⟩ := ho.prefix_of_append hpre hv
        rw [List.append_assoc] at hz
        exact hskip _ _ hz

/-- The loop replaces every call by what it stands for exactly when every call is good
in front of what follows it. -/
theorem searchLoop_render_iff (body access : κ → List α) (good : κ → List α → Prop)
    (hopen : ∀ s x, r.first s = some x → o <+: s) (ho : Unbordered o)
    (hgood : ∀ c v, good c v → ∃ x, r.first (o ++ (body c ++ v)) = some x ∧
      build x.sub = access c ∧ x.rest = v)
    (hbad : ∀ c v, ¬ good c v → ∀ x, r.first (o ++ (body c ++ v)) = some x →
      ∀ z z', build x.sub ++ z ≠ access c ++ z')
    (hskip : ∀ c z z', o ++ z ≠ access c ++ z') (ht : ¬ o <:+: t)
    (hps : ∀ p ∈ ps, ¬ o <:+: p.2) {fuel : ℕ} (hf : ps.length < fuel) :
    searchLoop r build fuel temp (render (fun c => o ++ body c) t ps) =
        some (temp ++ render access t ps) ↔ AllGood good (fun c => o ++ body c) ps := by
  induction ps generalizing fuel temp t with
  | nil =>
    obtain ⟨fuel, rfl⟩ : ∃ k, fuel = k + 1 := ⟨fuel - 1, by omega⟩
    have hnone : r.search t = none := by
      rw [search_eq_none]
      intro u w htw
      cases hw : r.first w with
      | none => rfl
      | some x =>
        obtain ⟨z, rfl⟩ := hopen w x hw
        exact absurd ⟨u, z, by rw [htw, List.append_assoc]⟩ ht
    simp [render, AllGood, searchLoop, hnone]
  | cons p more ih =>
    obtain ⟨c, t'⟩ := p
    simp only [render, AllGood, List.append_assoc]
    by_cases hg : good c (render (fun c => o ++ body c) t' more)
    · obtain ⟨fuel, rfl⟩ : ∃ k, fuel = k + 1 := ⟨fuel - 1, by omega⟩
      obtain ⟨x, hx, hbuild, hrest⟩ := hgood c _ hg
      have hs : r.search (t ++ (o ++ (body c ++ render (fun c => o ++ body c) t' more))) =
          some (t, x) := by
        refine search_eq_some.mpr ⟨_, rfl, hx, ?_⟩
        intro u w htw hw
        cases hfw : r.first (w ++ (o ++ (body c ++ render (fun c => o ++ body c) t' more))) with
        | none => rfl
        | some y => exact absurd (hopen _ y hfw) (no_opening ho ht htw hw)
      have hlen : more.length < fuel := by
        simp only [List.length_cons] at hf
        omega
      have happ : temp ++ (t ++ (access c ++ render access t' more)) =
          temp ++ t ++ access c ++ render access t' more := by simp
      simp only [searchLoop, hs, hbuild, hrest]
      rw [happ, ih (hps (c, t') (by simp)) (fun p hp => hps p (List.mem_cons_of_mem _ hp)) hlen]
      exact (and_iff_right hg).symm
    · constructor
      · intro h
        exact absurd h (not_searchLoop_of_bad hopen ho (hskip c) (hbad c _ hg) ht fuel)
      · intro h
        exact absurd h.1 hg

end Calls

end Loop

end Eventing.Regex
