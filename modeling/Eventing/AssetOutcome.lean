import Eventing.AssetLoop

/-!
# When the edits are applied

What `storeAppSetup` should make of a payload: the deleted entries are gone, the added ones
are marked as stored, and the bucket has received a request for each. Where the loop passes
an entry over or comes to an index behind the slice, it does not; this is read off from
`edited`.
-/
namespace Eventing.AssetEdits
open MetadataKeys

variable {β : Type*} {appName : Text} {kept as res : List (Asset β)} {log : List BucketOp} {k : ℕ}
  {x y : Asset β}

/-- The entries that are to be persisted. -/
def wanted (appName : Text) (as : List (Asset β)) : List (Asset β) :=
  as.filterMap fun a =>
    if a.operation = some .delete then none else (a.visited appName).map Prod.fst

def wantedOps (appName : Text) (as : List (Asset β)) : List BucketOp :=
  as.flatMap fun a =>
    if a.operation = some .delete then [a.deletion appName]
    else ((a.visited appName).map Prod.snd).getD []

/-- The loop does not panic and applies the edits. -/
def Applied (appName : Text) (info : Bool) (spare : ℕ) (as : List (Asset β)) : Prop :=
  ∃ bucket, storeAssets appName info spare as = some (wanted appName as, bucket) ∧
    bucket.Perm (wantedOps appName as)

/-- Every entry to be added has a content with a colon before a comma, as data URLs do. -/
def WellFormed (as : List (Asset β)) : Prop :=
  ∀ a ∈ as, a.operation = some .add → (a.content.bind dataURL).isSome = true

/-- What may stand behind a deleted entry: the list does not end in a deleted entry, and
unless the next entry is the last one, it asks for nothing. -/
def Harmless (after : List (Asset β)) : Prop :=
  (∀ d ∈ after.getLast?, d.operation ≠ some .delete) ∧
    (1 < after.length → ∀ next ∈ after.head?, next.Plain)

def Clean (as : List (Asset β)) : Prop :=
  ∀ d after, (d :: after) <:+ as → d.operation = some .delete → Harmless after

/-- `Clean` along the recursion of `edited`. -/
def Fit : ℕ → List (Asset β) → Prop
  | _, [] => True
  | k, [x] => x.operation = some .delete → k = 0
  | k, [x, y] => y.operation = some .delete → x.operation ≠ some .delete ∧ k = 0
  | k, x :: y :: z :: rest =>
      (x.operation = some .delete → y.Plain ∧ Fit (k + 1) (z :: rest)) ∧
        (x.operation ≠ some .delete → Fit k (y :: z :: rest))

lemma clean_cons : Clean (x :: as) ↔ (x.operation = some .delete → Harmless as) ∧ Clean as := by
  constructor
  · intro h
    exact ⟨h x as List.suffix_rfl, fun d after hs => h d after (hs.trans (List.suffix_cons _ _))⟩
  · intro h d after hs hd
    rcases List.suffix_cons_iff.mp hs with heq | hs
    · cases heq
      exact h.1 hd
    · exact h.2 d after hs hd

lemma clean_nil : Clean ([] : List (Asset β)) := by
  intro d after hs
  simp at hs

lemma fit_iff : Fit k as ↔ Clean as ∧ (k ≠ 0 → ∀ d ∈ as.getLast?, d.operation ≠ some .delete) := by
  fun_induction Fit k as with
  | case1 k => simp [clean_nil]
  | case2 k x =>
    simp [clean_cons, clean_nil, Harmless]
    tauto
  | case3 k x y =>
    simp [clean_cons, clean_nil, Harmless]
    tauto
  | case4 k x y z rest ih1 ih2 =>
    rw [ih1, ih2, clean_cons (x := x)]
    have hlast : ∀ w : Asset β, (w :: z :: rest).getLast? = (z :: rest).getLast? :=
      fun w => List.getLast?_cons_cons
    have hharm : Harmless (y :: z :: rest) ↔
        (∀ d ∈ (z :: rest).getLast?, d.operation ≠ some .delete) ∧ y.Plain := by
      simp [Harmless]
    have hclean : y.Plain → (Clean (y :: z :: rest) ↔ Clean (z :: rest)) := by
      intro hy
      rw [clean_cons]
      exact ⟨fun h => h.2, fun h => ⟨fun hd => absurd hd hy.1, h⟩⟩
    rw [hharm, show (x :: y :: z :: rest).getLast? = (z :: rest).getLast? from rfl, hlast]
    by_cases hd : x.operation = some .delete
    · simp only [hd, true_implies, ne_eq, not_true_eq_false, false_implies, and_true]
      constructor
      · rintro ⟨hy, hc, hl⟩
        exact ⟨⟨⟨hl (by omega), hy⟩, (hclean hy).mpr hc⟩, fun _ => hl (by omega)⟩
      · rintro ⟨⟨⟨hl, hy⟩, hc⟩, -⟩
        exact ⟨hy, (hclean hy).mp hc, fun _ => hl⟩
    · simp [hd]

lemma visited_of_wellFormed (appName : Text) (h : WellFormed (x :: as))
    (hd : x.operation ≠ some .delete) :
    ∃ p, x.visited appName = some p := by
  unfold Asset.visited
  split
  · next hadd =>
    obtain ⟨blob, hb⟩ := Option.isSome_iff_exists.mp (h x List.mem_cons_self hadd)
    exact ⟨_, by rw [hb]; rfl⟩
  · contradiction
  · exact ⟨_, rfl⟩
  · exact ⟨_, rfl⟩

lemma WellFormed.tail (h : WellFormed (x :: as)) : WellFormed as :=
  fun a ha => h a (List.mem_cons_of_mem _ ha)

section Wanted
variable {p : Asset β × List BucketOp}

lemma wanted_delete (hd : x.operation = some .delete) :
    wanted appName (x :: as) = wanted appName as := by
  simp [wanted, hd]

lemma wantedOps_delete (hd : x.operation = some .delete) :
    wantedOps appName (x :: as) = x.deletion appName :: wantedOps appName as := by
  simp [wantedOps, hd]

lemma wanted_visited (hd : x.operation ≠ some .delete) (hv : x.visited appName = some p) :
    wanted appName (x :: as) = p.1 :: wanted appName as := by
  simp [wanted, hd, hv]

lemma wantedOps_visited (hd : x.operation ≠ some .delete) (hv : x.visited appName = some p) :
    wantedOps appName (x :: as) = p.2 ++ wantedOps appName as := by
  simp [wantedOps, hd, hv]

@[simp] lemma wanted_nil : wanted appName ([] : List (Asset β)) = [] := rfl

@[simp] lemma wantedOps_nil : wantedOps appName ([] : List (Asset β)) = [] := rfl

end Wanted

lemma edited_of_fit (hwf : WellFormed as) (hfit : Fit k as) :
    edited appName kept k as = some (kept ++ wanted appName as, wantedOps appName as) := by
  fun_induction edited appName kept k as with
  | case1 kept k => simp
  | case2 kept x hd => simp [wanted_delete hd, wantedOps_delete hd]
  | case3 kept k x hd hk => exact absurd (hfit hd) hk
  | case4 kept k x hd hk => exact absurd (hfit hd) hk
  | case5 kept k x hd =>
    obtain ⟨p, hv⟩ := visited_of_wellFormed appName hwf hd
    simp [hv, wanted_visited hd hv, wantedOps_visited hd hv]
  | case6 kept k x y hd hy => exact absurd hd (hfit hy).1
  | case7 kept k x y hd hy => exact absurd hd (hfit hy).1
  | case8 kept k x y hd hy =>
    obtain ⟨p, hv⟩ := visited_of_wellFormed appName hwf.tail hy
    simp [hv, wanted_delete hd, wantedOps_delete hd, wanted_visited hy hv,
      wantedOps_visited hy hv]
  | case9 kept k x y hd ih =>
    obtain ⟨p, hv⟩ := visited_of_wellFormed appName hwf hd
    have hi := ih p hwf.tail fun hy => (hfit hy).2
    simp [hv, hi, wanted_visited hd hv, wantedOps_visited hd hv]
  | case10 kept k x y z rest hd ih =>
    obtain ⟨hy, hrest⟩ := hfit.1 hd
    have hi := ih hwf.tail.tail hrest
    have hv : y.visited appName = some (y, []) := visited_of_plain hy
    simp [hi, wanted_delete hd, wantedOps_delete hd, wanted_visited hy.1 hv,
      wantedOps_visited hy.1 hv]
  | case11 kept k x y z rest hd ih =>
    obtain ⟨p, hv⟩ := visited_of_wellFormed appName hwf hd
    have hi := ih p hwf.tail (hfit.2 hd)
    simp [hv, hi, wanted_visited hd hv, wantedOps_visited hd hv]

/-- Unless the slice is cut to nothing, what stands before the index stays. So an entry that
is passed over shows whether it should have been. -/
lemma fit_of_edited (h : edited appName kept k as = some (res, log)) (hres : res ≠ []) :
    kept ⊆ res ∧ ((∀ a ∈ res, a.Plain) → Fit k as) := by
  fun_induction edited appName kept k as generalizing log with
  | case1 kept k =>
    cases h
    exact ⟨List.Subset.refl _, fun _ => trivial⟩
  | case2 kept x hd =>
    cases h
    exact ⟨List.Subset.refl _, fun _ _ => rfl⟩
  | case3 => contradiction
  | case4 =>
    cases h
    contradiction
  | case5 kept k x hd =>
    obtain ⟨p, -, hp⟩ := Option.map_eq_some_iff.mp h
    cases hp
    exact ⟨List.subset_append_left _ _, fun _ hx => absurd hx hd⟩
  | case6 => contradiction
  | case7 =>
    cases h
    contradiction
  | case8 kept k x y hd hy =>
    obtain ⟨p, -, hp⟩ := Option.map_eq_some_iff.mp h
    cases hp
    exact ⟨List.subset_append_left _ _, fun _ hy' => absurd hy' hy⟩
  | case9 kept k x y hd ih =>
    obtain ⟨p, -, hp⟩ := Option.bind_eq_some_iff.mp h
    obtain ⟨q, hq, hqr⟩ := Option.map_eq_some_iff.mp hp
    cases hqr
    obtain ⟨hsub, hfit⟩ := ih p hq
    exact ⟨fun a ha => hsub (List.mem_append_left _ ha),
      fun hplain hy => ⟨hd, hfit hplain hy⟩⟩
  | case10 kept k x y z rest hd ih =>
    obtain ⟨q, hq, hqr⟩ := Option.map_eq_some_iff.mp h
    cases hqr
    obtain ⟨hsub, hfit⟩ := ih hq
    refine ⟨fun a ha => hsub (List.mem_append_left _ ha), fun hplain => ⟨fun _ => ?_, ?_⟩⟩
    · exact ⟨hplain y (hsub (by simp)), hfit hplain⟩
    · exact fun hnd => absurd hd hnd
  | case11 kept k x y z rest hd ih =>
    obtain ⟨p, -, hp⟩ := Option.bind_eq_some_iff.mp h
    obtain ⟨q, hq, hqr⟩ := Option.map_eq_some_iff.mp hp
    cases hqr
    obtain ⟨hsub, hfit⟩ := ih p hq
    refine ⟨fun a ha => hsub (List.mem_append_left _ ha), fun hplain => ⟨?_, ?_⟩⟩
    · exact fun hx => absurd hx hd
    · exact fun _ => hfit hplain

/-- After the first of four deleted entries or more the loop comes to an index behind the
slice. -/
lemma edited_deletes (hd : ∀ a ∈ as, a.operation = some .delete) (hne : as ≠ [])
    (hkept : kept ≠ []) (hk : k ≠ 0) (hlong : 1 < kept.length ∨ 1 < as.length) :
    edited appName kept k as = none := by
  fun_induction edited appName kept k as with
  | case1 => contradiction
  | case2 => contradiction
  | case3 => rfl
  | case4 kept k x _ _ hl => simp [hl] at hlong
  | case5 kept k x hx => exact absurd (hd x (by simp)) hx
  | case6 => rfl
  | case7 kept k x y _ _ hl =>
    have hpos : 0 < kept.length := List.length_pos_iff.mpr hkept
    omega
  | case8 kept k x y _ hy => exact absurd (hd y (by simp)) hy
  | case9 kept k x y hx => exact absurd (hd x (by simp)) hx
  | case10 kept k x y z rest hx ih =>
    have hpos : 0 < kept.length := List.length_pos_iff.mpr hkept
    have hrest : ∀ a ∈ z :: rest, a.operation = some .delete :=
      fun a ha => hd a (List.mem_cons_of_mem _ (List.mem_cons_of_mem _ ha))
    have hlong' : 1 < (kept ++ [y]).length := by
      rw [List.length_append, List.length_singleton]
      omega
    rw [ih hrest (by simp) (by simp) (by simp) (.inl hlong')]
    rfl
  | case11 kept k x y z rest hx => exact absurd (hd x (by simp)) hx

/-- Two deleted entries are all right, and three when the last two have one name. -/
def FewDeleted (as : List (Asset β)) : Prop :=
  (∃ a b, as = [a, b] ∧ a.operation = some .delete ∧ b.operation = some .delete) ∨
    ∃ a b c, as = [a, b, c] ∧ a.operation = some .delete ∧ b.operation = some .delete ∧
      c.operation = some .delete ∧ b.name = c.name

lemma deletion_inj (h : x.deletion appName = y.deletion appName) : x.name = y.name := by
  simpa [Asset.deletion, assetCBKey] using h

lemma plain_of_mem_wanted (h : x ∈ wanted appName as) : x.Plain := by
  obtain ⟨a, -, ha⟩ := List.mem_filterMap.mp h
  split_ifs at ha with hd
  obtain ⟨p, hp, rfl⟩ := Option.map_eq_some_iff.mp ha
  exact plain_of_visited hd hp

lemma wanted_of_plain (h : ∀ a ∈ as, a.Plain) : wanted appName as = as ∧ wantedOps appName as = [] := by
  induction as with
  | nil => exact ⟨rfl, rfl⟩
  | cons x as ih =>
    have hx := h x List.mem_cons_self
    have hv : x.visited appName = some (x, []) := visited_of_plain hx
    obtain ⟨hw, ho⟩ := ih fun a ha => h a (List.mem_cons_of_mem _ ha)
    rw [wanted_visited hx.1 hv, wantedOps_visited hx.1 hv, hw, ho]
    exact ⟨rfl, rfl⟩

lemma deleted_of_wanted_nil (hwf : WellFormed as) (h : wanted appName as = []) :
    ∀ a ∈ as, a.operation = some .delete := by
  induction as with
  | nil => simp
  | cons x as ih =>
    by_cases hd : x.operation = some .delete
    · rw [wanted_delete hd] at h
      intro a ha
      rcases List.mem_cons.mp ha with rfl | ha
      · exact hd
      · exact ih hwf.tail h a ha
    · obtain ⟨p, hv⟩ := visited_of_wellFormed appName hwf hd
      rw [wanted_visited hd hv] at h
      contradiction

lemma clean_or_few_of_deleted {bucket : List BucketOp} (hd : ∀ a ∈ as, a.operation = some .delete)
    (h : edited appName [] 0 as = some (wanted appName as, bucket))
    (hp : bucket.Perm (wantedOps appName as)) : Clean as ∨ FewDeleted as := by
  match as with
  | [] => exact .inl clean_nil
  | [a] => exact .inl (by simp [clean_cons, clean_nil, Harmless])
  | [a, b] => exact .inr (.inl ⟨a, b, rfl, hd a (by simp), hd b (by simp)⟩)
  | [a, b, c] =>
    have ha := hd a (by simp)
    have hb := hd b (by simp)
    have hc := hd c (by simp)
    simp only [edited, ha, hc, if_true, one_ne_zero, if_false, List.nil_append,
      List.length_singleton, lt_self_iff_false, Option.map_some, Option.some.injEq, Prod.mk.injEq,
      Nat.zero_add] at h
    rw [← h.2, wantedOps_delete ha, wantedOps_delete hb, wantedOps_delete hc] at hp
    have hmem : b.deletion appName ∈ [c.deletion appName, c.deletion appName] :=
      hp.cons_inv.symm.subset (by simp)
    have hbc : b.deletion appName = c.deletion appName := by simpa using hmem
    exact .inr (.inr ⟨a, b, c, rfl, ha, hb, hc, deletion_inj hbc⟩)
  | a :: b :: c :: d :: rest =>
    rw [edited, if_pos (hd a (by simp)), edited_deletes] at h
    · contradiction
    · intro x hx
      exact hd x (List.mem_cons_of_mem _ (List.mem_cons_of_mem _ hx))
    · simp
    · simp
    · simp
    · simp

lemma applied_of_clean (spare : ℕ) (hwf : WellFormed as) (h : Clean as) :
    Applied appName true spare as := by
  have hfit : Fit 0 as := fit_iff.mpr ⟨h, fun h0 => absurd rfl h0⟩
  refine ⟨wantedOps appName as, ?_, List.Perm.refl _⟩
  rw [storeAssets_eq_edited, edited_of_fit hwf hfit]
  rfl

lemma applied_of_few (spare : ℕ) (h : FewDeleted as) : Applied appName true spare as := by
  rcases h with ⟨a, b, rfl, ha, hb⟩ | ⟨a, b, c, rfl, ha, hb, hc, hname⟩
  · refine ⟨[a.deletion appName, b.deletion appName], ?_, ?_⟩
    · rw [storeAssets_eq_edited]
      simp [edited, ha, hb, wanted]
    · simp [wantedOps, ha, hb]
  · have hbc : b.deletion appName = c.deletion appName := by rw [Asset.deletion, hname]; rfl
    refine ⟨[a.deletion appName, c.deletion appName, c.deletion appName], ?_, ?_⟩
    · rw [storeAssets_eq_edited]
      simp [edited, ha, hb, hc, wanted, List.replicate_succ]
    · simp [wantedOps, ha, hb, hc, hbc]

lemma clean_or_few_of_applied {spare : ℕ} (hwf : WellFormed as)
    (h : Applied appName true spare as) : Clean as ∨ FewDeleted as := by
  obtain ⟨bucket, hs, hp⟩ := h
  rw [storeAssets_eq_edited] at hs
  by_cases hnil : wanted appName as = []
  · exact clean_or_few_of_deleted (deleted_of_wanted_nil hwf hnil) hs hp
  · have hfit := (fit_of_edited hs hnil).2 fun a ha => plain_of_mem_wanted ha
    exact .inl (fit_iff.mp hfit).1

/-- The edits of a payload are applied exactly when it asks for nothing, or the application
is set up and no deleted entry stands before an entry that asks for something and is not the
last one, nor before a deleted last one; two deleted entries alone, and three of which the
last two have one name, come out right all the same. -/
theorem applied_iff (appName : Text) (info : Bool) (spare : ℕ) (as : List (Asset β))
    (hwf : WellFormed as) :
    Applied appName info spare as ↔
      (∀ a ∈ as, a.Plain) ∨ info = true ∧ (Clean as ∨ FewDeleted as) := by
  cases info with
  | true =>
    constructor
    · intro h
      exact .inr ⟨rfl, clean_or_few_of_applied hwf h⟩
    · rintro (hp | ⟨-, hc | hf⟩)
      · refine applied_of_clean spare hwf ?_
        intro d after hs hd
        exact absurd hd (hp d (hs.subset List.mem_cons_self)).1
      · exact applied_of_clean spare hwf hc
      · exact applied_of_few spare hf
  | false =>
    have hno := storeAssets_noInfo appName spare as
    constructor
    · rintro ⟨bucket, hs, -⟩
      left
      by_contra hp
      rw [hno.2 hp] at hs
      contradiction
    · rintro (hp | ⟨hi, -⟩)
      · obtain ⟨hw, ho⟩ : wanted appName as = as ∧ wantedOps appName as = [] :=
          wanted_of_plain hp
        exact ⟨[], by rw [hno.1 hp, hw], by rw [ho]⟩
      · contradiction

def plainAsset (name : Text) : Asset Unit := ⟨name, none, none, none, ()⟩

def deletedAsset (name : Text) : Asset Unit := ⟨name, some .delete, none, none, ()⟩

def addedAsset (name : Text) : Asset Unit :=
  ⟨name, some .add, some "data:text/css;base64,YQ==".toList, none, ()⟩

theorem applied_iff_deleted_first :
    Applied ['p'] true 0 [deletedAsset ['a'], plainAsset ['b'], addedAsset ['c']] := by
  refine (applied_iff ['p'] true 0 _ ?_).mpr (.inr ⟨rfl, .inl ?_⟩)
  · intro a ha hadd
    simp only [List.mem_cons, List.not_mem_nil, or_false] at ha
    rcases ha with rfl | rfl | rfl
    · contradiction
    · contradiction
    · decide
  · simp [clean_cons, clean_nil, Harmless, deletedAsset, plainAsset, addedAsset, Asset.Plain]

/-- A deleted entry, one to be added and a plain one: the one to be added is passed over. -/
theorem not_applied : ¬ Applied ['p'] true 0
    [deletedAsset ['a'], addedAsset ['b'], plainAsset ['c']] := by
  rintro ⟨bucket, hs, -⟩
  have hrun : storeAssets ['p'] true 0 [deletedAsset ['a'], addedAsset ['b'], plainAsset ['c']] =
      some ([addedAsset ['b'], plainAsset ['c']], [.delete ['p', '_', 'a']]) := by
    decide
  rw [hrun] at hs
  have hw := (Prod.mk.inj (Option.some.inj hs)).1
  revert hw
  decide

end Eventing.AssetEdits
