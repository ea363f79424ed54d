import Mathlib.Data.List.Basic
import Mathlib.Tactic.Common

/-!
# Lists of delimiter-terminated items

A list is kept as one text by closing every item with a delimiter. Two readers
of such a text are compared: one that reads up to the next delimiter until the
text is used up, and `List.splitOn`, which also reports what follows the last
delimiter.
-/
namespace Eventing.Delimited

variable {α : Type*} {sep : α} {items : List (List α)} {item text : List α}

/-- Every item followed by the delimiter. -/
def terminated (sep : α) (items : List (List α)) : List α :=
  items.flatMap (· ++ [sep])

@[simp] lemma terminated_nil : terminated sep [] = [] := rfl

@[simp] lemma terminated_cons :
    terminated sep (item :: items) = item ++ sep :: terminated sep items := by
  simp [terminated]

lemma terminated_concat :
    terminated sep (items ++ [item]) = terminated sep items ++ (item ++ [sep]) := by
  simp [terminated]

lemma mem_terminated {c : α} (h : c ∈ terminated sep items) :
    c = sep ∨ ∃ item ∈ items, c ∈ item := by
  obtain ⟨item, hi, hc⟩ := List.mem_flatMap.mp h
  rcases List.mem_append.mp hc with hc | hc
  · exact .inr ⟨item, hi, hc⟩
  · exact .inl (List.mem_singleton.mp hc)

lemma notMem_terminated {c : α} (hc : c ≠ sep) (h : ∀ item ∈ items, c ∉ item) :
    c ∉ terminated sep items := by
  intro hm
  rcases mem_terminated hm with rfl | ⟨item, hi, hm⟩
  · exact hc rfl
  · exact h item hi hm

/-- What stands before and after the first delimiter is determined by the text. -/
theorem append_sep_inj {item' text' : List α} (h : sep ∉ item) (h' : sep ∉ item')
    (heq : item ++ sep :: text = item' ++ sep :: text') : item = item' ∧ text = text' := by
  induction item generalizing item' with
  | nil =>
    cases item' with
    | nil => simpa using heq
    | cons c cs =>
      simp only [List.nil_append, List.cons_append, List.cons.injEq] at heq
      simp [heq.1] at h'
  | cons c cs ih =>
    cases item' with
    | nil =>
      simp only [List.nil_append, List.cons_append, List.cons.injEq] at heq
      simp [heq.1] at h
    | cons c' cs' =>
      simp only [List.cons_append, List.cons.injEq] at heq
      have hi := ih (fun hm => h (List.mem_cons_of_mem _ hm))
        (fun hm => h' (List.mem_cons_of_mem _ hm)) heq.2
      exact ⟨by rw [heq.1, hi.1], hi.2⟩

variable [DecidableEq α]

/-- Read items up to the next delimiter until the text is used up. What follows
the last delimiter is an item only when it is not empty. -/
def getlines (sep : α) : List α → List (List α)
  | [] => []
  | c :: cs =>
      if c = sep then [] :: getlines sep cs
      else match getlines sep cs with
        | [] => [[c]]
        | item :: items => (c :: item) :: items

lemma getlines_append_sep (h : sep ∉ item) :
    getlines sep (item ++ sep :: text) = item :: getlines sep text := by
  induction item with
  | nil => simp [getlines]
  | cons c cs ih =>
    have hc : c ≠ sep := fun he => h (by simp [he])
    have hcs : sep ∉ cs := fun hm => h (List.mem_cons_of_mem _ hm)
    simp [getlines, hc, ih hcs]

/-- Items without the delimiter are read back as they were written. -/
theorem getlines_terminated (h : ∀ item ∈ items, sep ∉ item) :
    getlines sep (terminated sep items) = items := by
  induction items with
  | nil => rfl
  | cons item items ih =>
    have hi := ih fun i hi => h i (List.mem_cons_of_mem _ hi)
    rw [terminated_cons, getlines_append_sep (h item (by simp)), hi]

theorem splitOn_terminated (h : ∀ item ∈ items, sep ∉ item) :
    (terminated sep items).splitOn sep = items ++ [[]] := by
  induction items with
  | nil => simp
  | cons item items ih =>
    have hi := ih fun i hi => h i (List.mem_cons_of_mem _ hi)
    rw [terminated_cons, List.splitOn_append_cons_self_of_not_mem (h item (by simp)), hi]
    rfl

lemma getlines_eq_nil : getlines sep text = [] ↔ text = [] := by
  cases text with
  | nil => simp [getlines]
  | cons c cs =>
    simp only [getlines, reduceCtorEq, iff_false]
    split_ifs
    · simp
    · split <;> simp

lemma sep_notMem_of_mem_getlines (h : item ∈ getlines sep text) : sep ∉ item := by
  induction text generalizing item with
  | nil => simp [getlines] at h
  | cons c cs ih =>
    simp only [getlines] at h
    split_ifs at h with hc
    · rcases List.mem_cons.mp h with rfl | h
      · simp
      · exact ih h
    · have hne : sep ≠ c := fun he => hc he.symm
      cases hcs : getlines sep cs with
      | nil =>
        rw [hcs] at h
        rw [List.mem_singleton.mp h]
        simpa using hne
      | cons first rest =>
        rw [hcs] at h ih
        rcases List.mem_cons.mp h with rfl | h
        · have hfirst : sep ∉ first := ih List.mem_cons_self
          simpa [hne] using hfirst
        · exact ih (List.mem_cons_of_mem _ h)

theorem getlines_terminated_iff :
    getlines sep (terminated sep items) = items ↔ ∀ item ∈ items, sep ∉ item := by
  constructor
  · intro h item hi
    rw [← h] at hi
    exact sep_notMem_of_mem_getlines hi
  · exact getlines_terminated

theorem splitOn_eq_getlines : text.splitOn sep =
    getlines sep text ++ if text = [] ∨ text.getLast? = some sep then [[]] else [] := by
  induction text with
  | nil => simp [getlines]
  | cons c cs ih =>
    rw [List.splitOn_cons_eq_if_modifyHead, ih]
    by_cases hcs : cs = []
    · subst hcs
      by_cases hc : c = sep <;> simp [getlines, hc]
    · have hlast : (c :: cs).getLast? = cs.getLast? := List.getLast?_cons_of_ne_nil hcs
      rw [hlast]
      by_cases hc : c = sep
      · simp [getlines, hc, hcs]
      · have hne : getlines sep cs ≠ [] := mt getlines_eq_nil.mp hcs
        obtain ⟨first, rest, hg⟩ := List.exists_cons_of_ne_nil hne
        simp [getlines, hc, hcs, hg]

lemma getlines_of_ne_nil (h : text ≠ []) : getlines sep text =
    text.takeWhile (· ≠ sep) :: getlines sep (text.dropWhile (· ≠ sep)).tail := by
  induction text with
  | nil => contradiction
  | cons c cs ih =>
    by_cases hc : c = sep
    · simp [getlines, hc]
    · by_cases hcs : cs = []
      · simp [getlines, hc, hcs]
      · simp [getlines, hc, ih hcs]

lemma sep_notMem_of_mem_splitOn (h : item ∈ text.splitOn sep) : sep ∉ item := by
  rw [splitOn_eq_getlines] at h
  rcases List.mem_append.mp h with h | h
  · exact sep_notMem_of_mem_getlines h
  · split_ifs at h
    · rw [List.mem_singleton.mp h]
      exact List.not_mem_nil
    · contradiction

lemma splitOn_concat (sep : α) (text : List α) :
    (text ++ [sep]).splitOn sep = text.splitOn sep ++ [[]] := by
  induction text with
  | nil => simp [List.splitOn_cons_eq_if_modifyHead]
  | cons c cs ih =>
    have hne : cs.splitOn sep ≠ [] := List.splitOn_ne_nil sep cs
    rw [List.cons_append, List.splitOn_cons_eq_if_modifyHead, List.splitOn_cons_eq_if_modifyHead, ih]
    split_ifs
    · rfl
    · obtain ⟨first, rest, hcs⟩ := List.exists_cons_of_ne_nil hne
      rw [hcs]
      rfl

lemma getlines_concat (sep : α) (text : List α) :
    getlines sep (text ++ [sep]) = text.splitOn sep := by
  have hsplit := splitOn_concat sep text
  rw [splitOn_eq_getlines, if_pos (.inr (by simp))] at hsplit
  exact List.append_cancel_right hsplit

lemma splitOn_eq_cons (sep : α) (text : List α) :
    ∃ rest, text.splitOn sep = text.takeWhile (· ≠ sep) :: rest := by
  induction text with
  | nil => exact ⟨[], rfl⟩
  | cons c cs ih =>
    obtain ⟨rest, hrest⟩ := ih
    rw [List.splitOn_cons_eq_if_modifyHead, hrest]
    by_cases hc : c = sep
    · exact ⟨cs.takeWhile (· ≠ sep) :: rest, by simp [hc]⟩
    · exact ⟨rest, by simp [hc]⟩

lemma subset_of_mem_splitOn (h : item ∈ text.splitOn sep) : item ⊆ text := by
  induction text generalizing item with
  | nil =>
    rw [List.splitOn_nil, List.mem_singleton] at h
    rw [h]
    exact List.Subset.refl _
  | cons c cs ih =>
    obtain ⟨rest, hrest⟩ := splitOn_eq_cons sep cs
    rw [List.splitOn_cons_eq_if_modifyHead] at h
    rw [hrest] at h ih
    split_ifs at h
    · rcases List.mem_cons.mp h with rfl | h
      · exact List.nil_subset _
      · exact List.Subset.trans (ih h) (List.subset_cons_self c cs)
    · rw [List.modifyHead_cons] at h
      rcases List.mem_cons.mp h with rfl | h
      · exact List.cons_subset_cons c (ih List.mem_cons_self)
      · exact List.Subset.trans (ih (List.mem_cons_of_mem _ h)) (List.subset_cons_self c cs)

lemma length_splitOn (sep : α) (text : List α) :
    (text.splitOn sep).length = text.count sep + 1 := by
  induction text with
  | nil => rfl
  | cons c cs ih =>
    rw [List.splitOn_cons_eq_if_modifyHead, List.count_cons]
    split_ifs
    · rw [List.length_cons, ih]
    · rw [List.length_modifyHead, ih]

lemma exists_of_splitOn_eq_cons {next : List α} {rest : List (List α)}
    (h : text.splitOn sep = item :: next :: rest) :
    ∃ text', text = item ++ sep :: text' ∧ sep ∉ item ∧ text'.splitOn sep = next :: rest := by
  by_cases hmem : sep ∈ text
  · obtain ⟨front, text', rfl, hfront⟩ := List.eq_append_cons_of_mem hmem
    rw [List.splitOn_append_cons_self_of_not_mem hfront, List.cons.injEq] at h
    obtain ⟨rfl, h⟩ := h
    exact ⟨text', rfl, hfront, h⟩
  · rw [List.splitOn_eq_singleton hmem] at h
    simp at h

def firstLine (sep : α) : List α → List α
  | [] => []
  | c :: cs => if c = sep then [c] else c :: firstLine sep cs

def afterLine (sep : α) : List α → List α
  | [] => []
  | c :: cs => if c = sep then cs else afterLine sep cs

/-- The lines of a text, with their delimiters; the last one may be without. -/
def lines (sep : α) : List α → List (List α)
  | [] => []
  | c :: cs =>
      if c = sep then [c] :: lines sep cs
      else match lines sep cs with
        | [] => [[c]]
        | line :: rest => (c :: line) :: rest

lemma firstLine_append (h : sep ∉ item) :
    firstLine sep (item ++ text) = item ++ firstLine sep text := by
  induction item with
  | nil => rfl
  | cons c cs ih =>
    have hc : c ≠ sep := fun he => h (by simp [he])
    rw [List.cons_append, firstLine, if_neg hc, ih fun hm => h (List.mem_cons_of_mem _ hm)]
    rfl

lemma afterLine_append (h : sep ∉ item) : afterLine sep (item ++ text) = afterLine sep text := by
  induction item with
  | nil => rfl
  | cons c cs ih =>
    have hc : c ≠ sep := fun he => h (by simp [he])
    rw [List.cons_append, afterLine, if_neg hc, ih fun hm => h (List.mem_cons_of_mem _ hm)]

lemma afterLine_of_notMem (h : sep ∉ item) : afterLine sep item = [] := by
  rw [← List.append_nil item, afterLine_append h]
  rfl

lemma firstLine_append_of_mem (h : sep ∈ item) :
    firstLine sep (item ++ text) = firstLine sep item := by
  induction item with
  | nil => contradiction
  | cons c cs ih =>
    by_cases hc : c = sep
    · simp [firstLine, hc]
    · have hcs : sep ∈ cs := (List.mem_cons.mp h).resolve_left (Ne.symm hc)
      simp [firstLine, hc, ih hcs]

lemma afterLine_append_of_mem (h : sep ∈ item) :
    afterLine sep (item ++ text) = afterLine sep item ++ text := by
  induction item with
  | nil => contradiction
  | cons c cs ih =>
    by_cases hc : c = sep
    · simp [afterLine, hc]
    · have hcs : sep ∈ cs := (List.mem_cons.mp h).resolve_left (Ne.symm hc)
      simp [afterLine, hc, ih hcs]

lemma firstLine_append_afterLine (sep : α) (text : List α) :
    firstLine sep text ++ afterLine sep text = text := by
  induction text with
  | nil => rfl
  | cons c cs ih =>
    rw [firstLine, afterLine]
    split_ifs
    · rfl
    · rw [List.cons_append, ih]

lemma lines_of_ne_nil (h : text ≠ []) :
    lines sep text = firstLine sep text :: lines sep (afterLine sep text) := by
  induction text with
  | nil => contradiction
  | cons c cs ih =>
    rw [lines, firstLine, afterLine]
    by_cases hc : c = sep
    · rw [if_pos hc, if_pos hc, if_pos hc]
    · rw [if_neg hc, if_neg hc, if_neg hc]
      by_cases hcs : cs = []
      · subst hcs
        rfl
      · rw [ih hcs]

lemma lines_append (h : sep ∉ item) (hne : item ≠ []) : lines sep (item ++ text) =
    (item ++ firstLine sep text) :: lines sep (afterLine sep text) := by
  rw [lines_of_ne_nil (List.append_ne_nil_of_left_ne_nil hne _), firstLine_append h,
    afterLine_append h]

lemma length_lines_append (front : List α) :
    (lines sep text).length ≤ (lines sep (front ++ text)).length := by
  induction front with
  | nil => exact Nat.le_refl _
  | cons c cs ih =>
    rw [List.cons_append, lines]
    split_ifs
    · rw [List.length_cons]
      omega
    · split
      · rename_i hnil
        rw [hnil, List.length_nil] at ih
        rw [List.length_singleton]
        omega
      · rename_i hcons
        rw [hcons] at ih
        exact ih

lemma length_lines_lt_append (h : sep ∈ item) :
    (lines sep text).length < (lines sep (item ++ text)).length := by
  obtain ⟨front, back, hsplit, hfront⟩ := List.eq_append_cons_of_mem h
  have hle : (lines sep text).length ≤ (lines sep (back ++ text)).length :=
    length_lines_append back
  have hafter : afterLine sep (item ++ text) = back ++ text := by
    rw [hsplit, List.append_assoc, afterLine_append hfront, List.cons_append, afterLine, if_pos rfl]
  rw [lines_of_ne_nil (List.append_ne_nil_of_left_ne_nil (List.ne_nil_of_mem h) _), hafter,
    List.length_cons]
  omega

end Eventing.Delimited
