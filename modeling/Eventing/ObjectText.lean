import Mathlib.Data.List.Basic
import Mathlib.Tactic.Common

/-!
# Objects as texts

Members with escaped names and with values that are copied, over any letters.
-/
namespace Eventing.ObjectText

structure Marks (α : Type*) where
  opening : α
  closing : α
  quote : α
  colon : α
  comma : α

variable {α β : Type*} {m : Marks α} {m' : Marks β} {escape : α → List α} {escape' : β → List β}
  {f : α → List β}

def member (m : Marks α) (escape : α → List α) (p : List α × List α) : List α :=
  m.quote :: (p.1.flatMap escape ++ m.quote :: m.colon :: p.2)

def members (m : Marks α) (escape : α → List α) : List (List α × List α) → List α
  | [] => []
  | [p] => member m escape p
  | p :: q :: ps => member m escape p ++ m.comma :: members m escape (q :: ps)

def object (m : Marks α) (escape : α → List α) (ps : List (List α × List α)) : List α :=
  m.opening :: (members m escape ps ++ [m.closing])

lemma members_cons_append (p : List α × List α) (ps : List (List α × List α)) (q : List α × List α)
    (qs : List (List α × List α)) : members m escape (p :: (ps ++ q :: qs)) =
      member m escape p ++ m.comma :: members m escape (ps ++ q :: qs) := by
  cases ps <;> rfl

/-- A value of an object stands in its text as it is, and nothing else depends on it. -/
theorem object_split (m : Marks α) (escape : α → List α) (front back : List (List α × List α))
    (name : List α) : ∃ before after, ∀ value,
      object m escape (front ++ (name, value) :: back) = before ++ (value ++ after) := by
  have hmembers : ∃ before after, ∀ value,
      members m escape (front ++ (name, value) :: back) = before ++ (value ++ after) := by
    induction front with
    | nil =>
      have hmember (value : List α) : member m escape (name, value) =
          (m.quote :: (name.flatMap escape ++ [m.quote, m.colon])) ++ value := by simp [member]
      cases back with
      | nil =>
        refine ⟨m.quote :: (name.flatMap escape ++ [m.quote, m.colon]), [], ?_⟩
        intro value
        rw [List.nil_append, members, hmember, List.append_nil]
      | cons q back =>
        refine ⟨m.quote :: (name.flatMap escape ++ [m.quote, m.colon]),
          m.comma :: members m escape (q :: back), ?_⟩
        intro value
        rw [List.nil_append, members, hmember, List.append_assoc]
    | cons p front ih =>
      obtain ⟨before, after, hih⟩ := ih
      refine ⟨member m escape p ++ m.comma :: before, after, ?_⟩
      intro value
      rw [List.cons_append, members_cons_append, hih, List.append_assoc]
      rfl
  obtain ⟨before, after, hmembers⟩ := hmembers
  refine ⟨m.opening :: before, after ++ [m.closing], ?_⟩
  intro value
  rw [object, hmembers]
  simp

/-- The letters are written as the letters of another alphabet. -/
structure Marks.MapsTo (m : Marks α) (f : α → List β) (m' : Marks β) : Prop where
  opening : f m.opening = [m'.opening]
  closing : f m.closing = [m'.closing]
  quote : f m.quote = [m'.quote]
  colon : f m.colon = [m'.colon]
  comma : f m.comma = [m'.comma]

lemma flatMap_member (hm : m.MapsTo f m')
    (hescape : ∀ c, (escape c).flatMap f = (f c).flatMap escape') (p : List α × List α) :
    (member m escape p).flatMap f = member m' escape' (p.1.flatMap f, p.2.flatMap f) := by
  have hname : (p.1.flatMap escape).flatMap f = (p.1.flatMap f).flatMap escape' := by
    rw [List.flatMap_assoc, List.flatMap_assoc]
    exact List.flatMap_congr fun c _ => hescape c
  simp only [member, List.flatMap_cons, List.flatMap_append, hname, hm.quote, hm.colon,
    List.cons_append, List.nil_append]

theorem flatMap_object (hm : m.MapsTo f m')
    (hescape : ∀ c, (escape c).flatMap f = (f c).flatMap escape') (ps : List (List α × List α)) :
    (object m escape ps).flatMap f =
      object m' escape' (ps.map fun p => (p.1.flatMap f, p.2.flatMap f)) := by
  have hmembers : (members m escape ps).flatMap f =
      members m' escape' (ps.map fun p => (p.1.flatMap f, p.2.flatMap f)) := by
    induction ps with
    | nil => rfl
    | cons p ps ih =>
      cases ps with
      | nil => exact flatMap_member hm hescape p
      | cons q ps =>
        rw [members, List.flatMap_append, List.flatMap_cons, flatMap_member hm hescape, hm.comma, ih]
        rfl
  rw [object, List.flatMap_cons, List.flatMap_append, hmembers, hm.opening, List.flatMap_singleton,
    hm.closing]
  rfl

end Eventing.ObjectText
