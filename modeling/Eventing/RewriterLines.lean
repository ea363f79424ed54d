import Eventing.Rewriter

/-!
# The preprocessor, line by line

What the two loops do to a line, said by positions in it: each acts once, from the
first opening to the last closing text of the line.
-/
namespace Eventing.Rewriter
open Regex

def lastBelow (P : ℕ → Bool) : ℕ → Option ℕ
  | 0 => none
  | n + 1 => if P n then some n else lastBelow P n

def occursAt (w line : Text) (i : ℕ) : Bool := w.isPrefixOf (line.drop i)

def firstAt (w line : Text) : Option ℕ := (List.range (line.length + 1)).find? (occursAt w line)

def lastAt (w line : Text) (lo hi : ℕ) : Option ℕ :=
  lastBelow (fun q => occursAt w line q && decide (lo ≤ q ∧ q + w.length ≤ hi)) (line.length + 1)

def slice (line : Text) (i j : ℕ) : Text := (line.take j).drop i

def enqueueLine (line : Text) : Text :=
  match firstAt enqueueOpen line, lastAt enqueueClose line 0 line.length with
  | some i, some p =>
      match lastAt comma line (i + 8) p with
      | some q => line.take i ++ (slice line (i + 8) q ++ "[".toList ++ slice line (q + 2) p ++
          "]".toList) ++ line.drop (p + 1)
      | none => line
  | _, _ => line

def n1qlLine (line : Text) : Text :=
  match firstAt n1qlOpen line with
  | some i =>
      match lastAt n1qlClose line (i + 6) line.length with
      | some p => line.take i ++ (n1qlTick ++ slice line (i + 6) p ++ tick) ++ line.drop (p + 2)
      | none => line
  | none => line

section Positions
variable {w line : Text} {i q lo hi : ℕ}

lemma lastBelow_eq_some {P : ℕ → Bool} {n : ℕ} : lastBelow P n = some q ↔
    q < n ∧ P q = true ∧ ∀ j, q < j → j < n → P j = false := by
  induction n with
  | zero => simp [lastBelow]
  | succ n ih =>
    cases hP : P n with
    | true =>
      simp only [lastBelow, hP, if_true, Option.some.injEq]
      constructor
      · rintro rfl
        exact ⟨by omega, hP, fun j h1 h2 => by omega⟩
      · rintro ⟨hq, -, hlast⟩
        by_contra hne
        simp [hlast n (by omega) (by omega)] at hP
    | false =>
      simp only [lastBelow, hP, Bool.false_eq_true, if_false, ih]
      constructor
      · rintro ⟨hq, hPq, hlast⟩
        refine ⟨by omega, hPq, fun j h1 h2 => ?_⟩
        by_cases hj : j = n
        · rw [hj, hP]
        · exact hlast j h1 (by omega)
      · rintro ⟨hq, hPq, hlast⟩
        have hne : q ≠ n := by
          rintro rfl
          simp [hP] at hPq
        exact ⟨by omega, hPq, fun j h1 h2 => hlast j h1 (by omega)⟩

lemma occursAt_iff (hw : w ≠ []) :
    occursAt w line i = true ↔ ∃ u z, line = u ++ (w ++ z) ∧ u.length = i := by
  rw [occursAt, List.isPrefixOf_iff_prefix]
  constructor
  · rintro ⟨z, hz⟩
    have hi : i ≤ line.length := by
      by_contra hlt
      rw [List.drop_eq_nil_of_le (by omega)] at hz
      exact hw (List.append_eq_nil_iff.mp hz).1
    exact ⟨line.take i, z, by rw [hz, List.take_append_drop], List.length_take_of_le hi⟩
  · rintro ⟨u, z, rfl, rfl⟩
    rw [List.drop_left]
    exact List.prefix_append _ _

lemma firstAt_append {pre z : Text} (hw : w ≠ [])
    (h : ∀ u v, pre = u ++ v → v ≠ [] → ¬ w <+: v ++ (w ++ z)) :
    firstAt w (pre ++ (w ++ z)) = some pre.length := by
  rw [firstAt, List.find?_range_eq_some]
  refine ⟨(occursAt_iff hw).mpr ⟨pre, z, rfl, rfl⟩, ?_, ?_⟩
  · rw [List.mem_range, List.length_append]
    omega
  · intro j hj
    by_contra hocc
    simp only [Bool.not_eq_true', Bool.not_eq_false, occursAt, List.isPrefixOf_iff_prefix] at hocc
    rw [List.drop_append_of_le_length (by omega)] at hocc
    refine h (pre.take j) (pre.drop j) (List.take_append_drop j pre).symm ?_ hocc
    intro hnil
    have := congrArg List.length hnil
    simp only [List.length_drop, List.length_nil] at this
    omega

lemma exists_of_firstAt (hw : w ≠ []) (h : firstAt w line = some i) :
    ∃ pre z, line = pre ++ (w ++ z) ∧ pre.length = i := by
  rw [firstAt, List.find?_range_eq_some] at h
  exact (occursAt_iff hw).mp h.1

lemma lastAt_append {u z : Text} (hw : w ≠ []) (hlo : lo ≤ u.length)
    (hhi : u.length + w.length ≤ hi)
    (h : ∀ u' z', u ++ (w ++ z) = u' ++ (w ++ z') → u.length < u'.length →
      ¬ u'.length + w.length ≤ hi) :
    lastAt w (u ++ (w ++ z)) lo hi = some u.length := by
  rw [lastAt, lastBelow_eq_some]
  refine ⟨by simp only [List.length_append]; omega, ?_, ?_⟩
  · rw [Bool.and_eq_true, decide_eq_true_eq]
    exact ⟨(occursAt_iff hw).mpr ⟨u, z, rfl, rfl⟩, hlo, hhi⟩
  · intro j hj _
    by_contra hocc
    rw [Bool.not_eq_false, Bool.and_eq_true, decide_eq_true_eq] at hocc
    obtain ⟨u', z', hu', rfl⟩ := (occursAt_iff hw).mp hocc.1
    exact h u' z' hu' hj hocc.2.2

lemma exists_of_lastAt (hw : w ≠ []) (h : lastAt w line lo hi = some q) :
    ∃ u z, line = u ++ (w ++ z) ∧ u.length = q ∧ lo ≤ q ∧ q + w.length ≤ hi := by
  rw [lastAt, lastBelow_eq_some, Bool.and_eq_true, decide_eq_true_eq] at h
  obtain ⟨u, z, hline, hu⟩ := (occursAt_iff hw).mp h.2.1.1
  exact ⟨u, z, hline, hu, h.2.1.2⟩

lemma slice_eq {u m z : Text} {j : ℕ} (h : line = u ++ (m ++ z)) (hi : i = u.length)
    (hj : j = (u ++ m).length) : slice line i j = m := by
  subst h hi hj
  rw [slice, ← List.append_assoc, List.take_left, List.drop_left]

lemma drop_eq {u z : Text} (h : line = u ++ z) (hi : i = u.length) : line.drop i = z := by
  subst h hi
  exact List.drop_left

lemma prefix_of_length {u v z z' : Text} (h : u ++ z = v ++ z') (hlen : u.length ≤ v.length) :
    u <+: v :=
  List.prefix_of_prefix_length_le ⟨z, h⟩ (List.prefix_append v z') hlen

lemma later_occurrence (hw : HeadOnce w) {u z u' z' : Text}
    (h : u ++ (w ++ z) = u' ++ (w ++ z')) (hlen : u.length < u'.length) :
    ∃ m, u' = u ++ (w ++ m) ∧ z = m ++ (w ++ z') := by
  obtain ⟨b, rfl⟩ := prefix_of_length h hlen.le
  rw [List.append_assoc, List.append_cancel_left_eq] at h
  have hb : b ≠ [] := by
    rintro rfl
    simp at hlen
  obtain ⟨m, rfl, hz⟩ := hw.apart hb h (List.prefix_append _ _)
  exact ⟨m, rfl, hz⟩

lemma lastAt_last (hw : HeadOnce w) {u z : Text} (hline : line = u ++ (w ++ z))
    (hlo : lo ≤ u.length) (h : ¬ w <:+: z) : lastAt w line lo line.length = some u.length := by
  subst hline
  apply lastAt_append hw.ne_nil hlo (by simp only [List.length_append]; omega)
  intro u' z' hu hlen _
  obtain ⟨m, -, hm⟩ := later_occurrence hw hu hlen
  exact h ⟨m, z', by rw [hm, List.append_assoc]⟩

lemma exists_longer {op a u tail : Text} {v : Text}
    (ha : ∀ c ∈ (u ++ v) ++ (op ++ a), dot c = true) (hopen : op <+: v ++ (op ++ (a ++ tail))) :
    ∃ a', v ++ (op ++ (a ++ tail)) = op ++ (a' ++ tail) ∧ ∀ c ∈ a', dot c = true := by
  obtain ⟨z, hz⟩ := hopen
  have hcut : op ++ z = (v ++ (op ++ a)) ++ tail := by simp [hz]
  obtain ⟨a', ha'⟩ := prefix_of_length hcut (by simp only [List.length_append]; omega)
  refine ⟨a', ?_, ?_⟩
  · rw [← List.append_assoc op a', ha']
    simp
  · intro c hc
    have hm : c ∈ v ++ (op ++ a) := ha' ▸ List.mem_append_right _ hc
    apply ha c
    rw [List.append_assoc]
    exact List.mem_append_right _ hm

end Positions

@[simp] lemma enqueueOpen_length : enqueueOpen.length = 8 := rfl
@[simp] lemma comma_length : comma.length = 2 := rfl
@[simp] lemma enqueueClose_length : enqueueClose.length = 1 := rfl
@[simp] lemma n1qlOpen_length : n1qlOpen.length = 6 := rfl
@[simp] lemma n1qlClose_length : n1qlClose.length = 2 := rfl

section Line
variable {line : Text} {pre : Text} {x : Match Char}

lemma takeWhile_dot {rest : Text} (h : ∀ c ∈ rest, dot c = true) : rest.takeWhile dot = rest :=
  List.takeWhile_eq_self_iff.mpr h

lemma enqueue_leftmost {a b rest : Text} (ha : ∀ c ∈ pre ++ (enqueueOpen ++ a), dot c = true)
    (hb : ∀ c ∈ b, dot c = true)
    (h : ∀ u w, pre = u ++ w → w ≠ [] →
      enqueue.first (w ++ (enqueueOpen ++ (a ++ (comma ++ (b ++ (enqueueClose ++ rest)))))) = none)
    (u w : Text) (huw : pre = u ++ w) (hw : w ≠ []) :
    ¬ enqueueOpen <+: w ++ (enqueueOpen ++ (a ++ (comma ++ (b ++ (enqueueClose ++ rest))))) := by
  intro hopen
  obtain ⟨a', heq, hdot⟩ := exists_longer (huw ▸ ha) hopen
  exact enqueue_first_none.mp (h u w huw hw) a' b rest heq hdot hb

lemma enqueueLine_eq {a b rest : Text}
    (hline : line = pre ++ (enqueueOpen ++ (a ++ (comma ++ (b ++ (enqueueClose ++ rest))))))
    (hi : firstAt enqueueOpen line = some pre.length) (hcomma : ¬ comma <:+: b)
    (hlast : ¬ enqueueClose <:+: rest) :
    enqueueLine line = pre ++ (a ++ "[".toList ++ b ++ "]".toList) ++ rest := by
  have hp : lastAt enqueueClose line 0 line.length =
      some (pre ++ (enqueueOpen ++ (a ++ (comma ++ b)))).length :=
    lastAt_last headOnce_enqueueClose (by simp [hline]) (Nat.zero_le _) hlast
  have hq : lastAt comma line (pre.length + 8)
      (pre ++ (enqueueOpen ++ (a ++ (comma ++ b)))).length =
      some (pre ++ (enqueueOpen ++ a)).length := by
    have hcut : line = (pre ++ (enqueueOpen ++ a)) ++ (comma ++ (b ++ (enqueueClose ++ rest))) := by
      simp [hline]
    rw [hcut]
    apply lastAt_append (by decide) (by simp) (by simp; omega)
    intro u' z' hu hlen hle
    obtain ⟨m, rfl, hm⟩ := later_occurrence headOnce_comma hu hlen
    -- The later comma ends before the closing text, so it lies in `b`.
    have hb' : m ++ comma <+: b := by
      apply prefix_of_length (z := z') (by rw [List.append_assoc]; exact hm.symm)
      simp only [List.length_append] at hle ⊢
      omega
    obtain ⟨b', rfl⟩ := hb'
    exact hcomma ⟨m, b', rfl⟩
  simp only [enqueueLine, hi, hp, hq]
  have htake : line.take pre.length = pre := by rw [hline, List.take_left]
  have ha : slice line (pre.length + 8) (pre ++ (enqueueOpen ++ a)).length = a :=
    slice_eq (u := pre ++ enqueueOpen) (by simp [hline]; rfl) (by simp) (by simp)
  have hb : slice line ((pre ++ (enqueueOpen ++ a)).length + 2)
      (pre ++ (enqueueOpen ++ (a ++ (comma ++ b)))).length = b :=
    slice_eq (u := pre ++ (enqueueOpen ++ (a ++ comma))) (by simp [hline]; rfl) (by simp; omega)
      (by simp)
  have hrest : line.drop ((pre ++ (enqueueOpen ++ (a ++ (comma ++ b)))).length + 1) = rest :=
    drop_eq (u := pre ++ (enqueueOpen ++ (a ++ (comma ++ (b ++ enqueueClose))))) (by simp [hline])
      (by simp; omega)
  rw [htake, ha, hb, hrest]

lemma exists_of_positions {i p q : ℕ} (hi : firstAt enqueueOpen line = some i)
    (hp : lastAt enqueueClose line 0 line.length = some p)
    (hq : lastAt comma line (i + 8) p = some q) :
    ∃ pre a b rest, line =
      pre ++ (enqueueOpen ++ (a ++ (comma ++ (b ++ (enqueueClose ++ rest))))) := by
  obtain ⟨pre, z₁, hz₁, rfl⟩ := exists_of_firstAt (by decide) hi
  obtain ⟨w, z₂, hz₂, rfl, hlo, hhi⟩ := exists_of_lastAt (by decide) hq
  obtain ⟨u, rest, hz₃, rfl, -, -⟩ := exists_of_lastAt (by decide) hp
  have hpre : pre ++ enqueueOpen <+: w := prefix_of_length (by rw [← hz₂, hz₁, List.append_assoc])
    (by simpa using hlo)
  have hw : w ++ comma <+: u := prefix_of_length (by rw [← hz₃, hz₂, List.append_assoc])
    (by simpa using hhi)
  obtain ⟨a, rfl⟩ := hpre
  obtain ⟨b, rfl⟩ := hw
  exact ⟨pre, a, b, rest, by simp [hz₃]⟩

theorem replaceFirst_enqueue (h : ∀ c ∈ line, dot c = true) :
    replaceFirst enqueue queueAccess line = enqueueLine line := by
  cases hs : enqueue.search line with
  | some y =>
    obtain ⟨pre, x⟩ := y
    obtain ⟨v, hline, hx, hleft⟩ := search_eq_some.mp hs
    obtain ⟨a, b, rest, rfl, ha, hb, hcomma, hlast, rfl⟩ := enqueue_first_some.mp hx
    have hrest : ∀ c ∈ rest, dot c = true := fun c hc => h c (by simp [hline, hc])
    rw [takeWhile_dot hrest] at hlast
    have hpre : ∀ c ∈ pre ++ (enqueueOpen ++ a), dot c = true := by
      intro c hc
      apply h c
      rw [hline, ← List.append_assoc enqueueOpen, ← List.append_assoc]
      exact List.mem_append_left _ hc
    have hi : firstAt enqueueOpen line = some pre.length := by
      rw [hline]
      exact firstAt_append (by decide) (enqueue_leftmost hpre hb hleft)
    rw [enqueueLine_eq hline hi hcomma hlast]
    simp only [replaceFirst, hs]
    rfl
  | none =>
    have hnone : enqueueLine line = line := by
      rw [enqueueLine]
      split
      · rename_i i p hi hp
        split
        · rename_i q hq
          obtain ⟨pre, a, b, rest, hline⟩ := exists_of_positions hi hp hq
          refine absurd ?_ (enqueue_first_none.mp (search_eq_none.mp hs pre _ hline) a b rest rfl ?_)
          · exact fun c hc => h c (by simp [hline, hc])
          · exact fun c hc => h c (by simp [hline, hc])
        · rfl
      · rfl
    simp [replaceFirst, hs, hnone]

lemma n1ql_leftmost {a rest : Text} (ha : ∀ c ∈ pre ++ (n1qlOpen ++ a), dot c = true)
    (h : ∀ u w, pre = u ++ w → w ≠ [] →
      n1qlTtl.first (w ++ (n1qlOpen ++ (a ++ (n1qlClose ++ rest)))) = none)
    (u w : Text) (huw : pre = u ++ w) (hw : w ≠ []) :
    ¬ n1qlOpen <+: w ++ (n1qlOpen ++ (a ++ (n1qlClose ++ rest))) := by
  intro hopen
  obtain ⟨a', heq, hdot⟩ := exists_longer (huw ▸ ha) hopen
  exact n1qlTtl_first_none.mp (h u w huw hw) a' rest heq hdot

lemma n1qlLine_eq {a rest : Text} (hline : line = pre ++ (n1qlOpen ++ (a ++ (n1qlClose ++ rest))))
    (hi : firstAt n1qlOpen line = some pre.length) (hlast : ¬ n1qlClose <:+: rest) :
    n1qlLine line = pre ++ (n1qlTick ++ a ++ tick) ++ rest := by
  have hp : lastAt n1qlClose line (pre.length + 6) line.length =
      some (pre ++ (n1qlOpen ++ a)).length :=
    lastAt_last headOnce_n1qlClose (by simp [hline]) (by simp) hlast
  simp only [n1qlLine, hi, hp]
  have htake : line.take pre.length = pre := by rw [hline, List.take_left]
  have ha : slice line (pre.length + 6) (pre ++ (n1qlOpen ++ a)).length = a :=
    slice_eq (u := pre ++ n1qlOpen) (by simp [hline]; rfl) (by simp) (by simp)
  have hrest : line.drop ((pre ++ (n1qlOpen ++ a)).length + 2) = rest :=
    drop_eq (u := pre ++ (n1qlOpen ++ (a ++ n1qlClose))) (by simp [hline]) (by simp; omega)
  rw [htake, ha, hrest]

theorem replaceFirst_n1qlTtl (h : ∀ c ∈ line, dot c = true) :
    replaceFirst n1qlTtl taggedLiteral line = n1qlLine line := by
  cases hs : n1qlTtl.search line with
  | some y =>
    obtain ⟨pre, x⟩ := y
    obtain ⟨v, hline, hx, hleft⟩ := search_eq_some.mp hs
    obtain ⟨a, rest, rfl, ha, hlast, rfl⟩ := n1qlTtl_first_some.mp hx
    have hrest : ∀ c ∈ rest, dot c = true := fun c hc => h c (by simp [hline, hc])
    rw [takeWhile_dot hrest] at hlast
    have hpre : ∀ c ∈ pre ++ (n1qlOpen ++ a), dot c = true := by
      intro c hc
      apply h c
      rw [hline, ← List.append_assoc n1qlOpen, ← List.append_assoc]
      exact List.mem_append_left _ hc
    have hi : firstAt n1qlOpen line = some pre.length := by
      rw [hline]
      exact firstAt_append (by decide) (n1ql_leftmost hpre hleft)
    rw [n1qlLine_eq hline hi hlast]
    simp only [replaceFirst, hs, taggedLiteral_sub]
  | none =>
    have hnone : n1qlLine line = line := by
      rw [n1qlLine]
      split
      · rename_i i hi
        split
        · rename_i p hp
          obtain ⟨pre, z, hz, rfl⟩ := exists_of_firstAt (by decide) hi
          obtain ⟨u, rest, hu, rfl, hlo, -⟩ := exists_of_lastAt (by decide) hp
          obtain ⟨a, rfl⟩ : pre ++ n1qlOpen <+: u :=
            prefix_of_length (by rw [← hu, hz, List.append_assoc]) (by simpa using hlo)
          have hline : line = pre ++ (n1qlOpen ++ (a ++ (n1qlClose ++ rest))) := by simp [hu]
          refine absurd ?_ (n1qlTtl_first_none.mp (search_eq_none.mp hs pre _ hline) a rest rfl)
          exact fun c hc => h c (by simp [hline, hc])
        · rfl
      · rfl
    simp [replaceFirst, hs, hnone]

end Line

section Lines
variable {source line : Text} {fuel : ℕ}

lemma mem_of_mem_splitOn {nl : Char} (hl : line ∈ source.splitOn nl) :
    ∀ c ∈ line, c ∈ source ∧ c ≠ nl := by
  induction source generalizing line with
  | nil =>
    rw [List.splitOn_nil, List.mem_singleton] at hl
    simp [hl]
  | cons d ds ih =>
    rw [List.splitOn_cons_eq_if_modifyHead] at hl
    split_ifs at hl with hd
    · rcases List.mem_cons.mp hl with rfl | hl
      · simp
      · exact fun c hc => ⟨List.mem_cons_of_mem _ (ih hl c hc).1, (ih hl c hc).2⟩
    · obtain ⟨first, others, hsplit⟩ := List.exists_cons_of_ne_nil (List.splitOn_ne_nil nl ds)
      rw [hsplit, List.modifyHead_cons] at hl
      rcases List.mem_cons.mp hl with rfl | hl
      · intro c hc
        rcases List.mem_cons.mp hc with rfl | hc
        · exact ⟨List.mem_cons_self, by simpa using hd⟩
        · have hfirst := ih (by rw [hsplit]; exact List.mem_cons_self) c hc
          exact ⟨List.mem_cons_of_mem _ hfirst.1, hfirst.2⟩
      · intro c hc
        have hother := ih (by rw [hsplit]; exact List.mem_cons_of_mem _ hl) c hc
        exact ⟨List.mem_cons_of_mem _ hother.1, hother.2⟩

lemma dot_of_mem_splitOn (hcr : '\r' ∉ source) (hl : line ∈ source.splitOn '\n') :
    ∀ c ∈ line, dot c = true := by
  intro c hc
  have hm := mem_of_mem_splitOn hl c hc
  have hr : c ≠ '\r' := fun he => hcr (he ▸ hm.1)
  simp [dot, hm.2, hr]

lemma mem_slice {i j : ℕ} {c : Char} (h : c ∈ slice line i j) : c ∈ line :=
  List.mem_of_mem_take (List.mem_of_mem_drop h)

lemma dot_enqueueLine (h : ∀ c ∈ line, dot c = true) : ∀ c ∈ enqueueLine line, dot c = true := by
  intro c hc
  rw [enqueueLine] at hc
  split at hc
  · split at hc
    · simp only [List.mem_append, or_assoc] at hc
      rcases hc with hc | hc | hc | hc | hc | hc
      · exact h c (List.mem_of_mem_take hc)
      · exact h c (mem_slice hc)
      · exact List.all_eq_true.mp (by decide : "[".toList.all dot = true) c hc
      · exact h c (mem_slice hc)
      · exact List.all_eq_true.mp (by decide : "]".toList.all dot = true) c hc
      · exact h c (List.mem_of_mem_drop hc)
    · exact h c hc
  · exact h c hc

lemma dot_n1qlLine (h : ∀ c ∈ line, dot c = true) : ∀ c ∈ n1qlLine line, dot c = true := by
  intro c hc
  rw [n1qlLine] at hc
  split at hc
  · split at hc
    · simp only [List.mem_append, or_assoc] at hc
      rcases hc with hc | hc | hc | hc | hc
      · exact h c (List.mem_of_mem_take hc)
      · exact List.all_eq_true.mp (by decide : n1qlTick.all dot = true) c hc
      · exact h c (mem_slice hc)
      · exact List.all_eq_true.mp (by decide : tick.all dot = true) c hc
      · exact h c (List.mem_of_mem_drop hc)
    · exact h c hc
  · exact h c hc

lemma dot_nl : dot '\n' = false := by decide

lemma avoids_enqueue : enqueue.Avoids '\n' :=
  ⟨avoids_lit (by decide), dot_nl, avoids_lit (by decide), dot_nl, avoids_lit (by decide)⟩

lemma avoids_n1qlTtl : n1qlTtl.Avoids '\n' :=
  ⟨avoids_lit (by decide), dot_nl, avoids_lit (by decide)⟩

/-- What follows a match in a line has no closing text, so it has no match. -/
lemma enqueue_once (h : ∀ c ∈ line, dot c = true) {pre : Text} {x : Match Char}
    (hs : enqueue.search line = some (pre, x)) : enqueue.search x.rest = none := by
  obtain ⟨v, rfl, hx, -⟩ := search_eq_some.mp hs
  obtain ⟨a, b, rest, rfl, -, -, -, hlast, rfl⟩ := enqueue_first_some.mp hx
  have hrest : ∀ c ∈ rest, dot c = true := fun c hc => h c (by simp [hc])
  rw [takeWhile_dot hrest] at hlast
  refine search_eq_none.mpr fun u w hw => enqueue_first_none.mpr ?_
  rintro a' b' rest' rfl - -
  refine hlast ⟨u ++ (enqueueOpen ++ (a' ++ (comma ++ b'))), rest', ?_⟩
  rw [show rest = _ from hw]
  simp

lemma n1qlTtl_once (h : ∀ c ∈ line, dot c = true) {pre : Text} {x : Match Char}
    (hs : n1qlTtl.search line = some (pre, x)) : n1qlTtl.search x.rest = none := by
  obtain ⟨v, rfl, hx, -⟩ := search_eq_some.mp hs
  obtain ⟨a, rest, rfl, -, hlast, rfl⟩ := n1qlTtl_first_some.mp hx
  have hrest : ∀ c ∈ rest, dot c = true := fun c hc => h c (by simp [hc])
  rw [takeWhile_dot hrest] at hlast
  refine search_eq_none.mpr fun u w hw => n1qlTtl_first_none.mpr ?_
  rintro a' rest' rfl -
  refine hlast ⟨u ++ (n1qlOpen ++ a'), rest', ?_⟩
  rw [show rest = _ from hw]
  simp

/-- A loop whose match in a line acts as `g` acts as `g` on every line. -/
lemma searchLoop_map {r : Pattern Char} {build : (ℕ → Text) → Text} {g : Text → Text}
    (havoids : r.Avoids '\n')
    (honce : ∀ line, (∀ c ∈ line, dot c = true) → ∀ pre x, r.search line = some (pre, x) →
      r.search x.rest = none)
    (hg : ∀ line, (∀ c ∈ line, dot c = true) → replaceFirst r build line = g line)
    (hdot : ∀ line ∈ source.splitOn '\n', ∀ c ∈ line, dot c = true)
    (hf : (source.splitOn '\n').length < fuel) :
    searchLoop r build fuel [] source = some (['\n'].intercalate ((source.splitOn '\n').map g)) := by
  rw [searchLoop_lines havoids source (fun line hl => honce line (hdot line hl)) hf]
  have hmap : (source.splitOn '\n').map (replaceFirst r build) = (source.splitOn '\n').map g :=
    List.map_congr_left fun line hl => hg line (hdot line hl)
  rw [hmap, List.nil_append]

lemma splitOn_map {g : Text → Text}
    (hg : ∀ line ∈ source.splitOn '\n', ∀ c ∈ g line, dot c = true) :
    (['\n'].intercalate ((source.splitOn '\n').map g)).splitOn '\n' =
      (source.splitOn '\n').map g := by
  apply List.splitOn_intercalate
  · intro l hl hnl
    obtain ⟨line, hline, rfl⟩ := List.mem_map.mp hl
    exact absurd (hg line hline '\n' hnl) (by decide)
  · simp

/-- The two loops end and act on every line of the source on its own. -/
theorem preprocess_lines (source : Text) (fuel : ℕ) (hcr : '\r' ∉ source)
    (hf : (source.splitOn '\n').length < fuel) :
    ∃ script, preprocess fuel source = some script ∧
      script = ['\n'].intercalate ((source.splitOn '\n').map (n1qlLine ∘ enqueueLine)) ∧
      script.splitOn '\n' = (source.splitOn '\n').map (n1qlLine ∘ enqueueLine) ∧
      ∀ line ∈ source.splitOn '\n', enqueue.search line = none → n1qlTtl.search line = none →
        n1qlLine (enqueueLine line) = line := by
  have hdot : ∀ line ∈ source.splitOn '\n', ∀ c ∈ line, dot c = true :=
    fun line hl => dot_of_mem_splitOn hcr hl
  have hfirst := searchLoop_map avoids_enqueue (fun _ h _ _ => enqueue_once h)
    (fun _ h => replaceFirst_enqueue h) hdot hf
  have hsplit := splitOn_map fun line hl => dot_enqueueLine (hdot line hl)
  have hsecond := searchLoop_map avoids_n1qlTtl (fun _ h _ _ => n1qlTtl_once h)
    (fun _ h => replaceFirst_n1qlTtl h)
    (by
      rw [hsplit]
      intro _ hl
      obtain ⟨line, hline, rfl⟩ := List.mem_map.mp hl
      exact dot_enqueueLine (hdot line hline))
    (by rwa [hsplit, List.length_map])
  rw [hsplit, List.map_map] at hsecond
  refine ⟨_, ?_, rfl, ?_, ?_⟩
  · rw [preprocess, enqueuePass, hfirst, Option.bind_some, n1qlPass, hsecond]
  · exact splitOn_map fun line hl => dot_n1qlLine (dot_enqueueLine (hdot line hl))
  · intro line hl h1 h2
    rw [← replaceFirst_enqueue (hdot line hl)]
    simp only [replaceFirst, h1]
    rw [← replaceFirst_n1qlTtl (hdot line hl)]
    simp only [replaceFirst, h2]

/-- Two lines, each with a call. -/
theorem preprocess_lines_two :
    preprocess 3 "enqueue(q, e);\nn1ql(\"a\") + 1".toList = some "q[e];\nn1ql`a` + 1".toList := by
  obtain ⟨script, hs, rfl, -⟩ :=
    preprocess_lines "enqueue(q, e);\nn1ql(\"a\") + 1".toList 3 (by decide) (by decide)
  rw [hs]
  decide

end Lines

end Eventing.Rewriter
