import Eventing.Decimal
import Eventing.Regex

/-!
# The preprocessor of the handler source

`WorkerLoad` (`worker.cc`) rewrites `enqueue(q, e)` to `q[e]` and `n1ql("...")` to a
tagged template literal before it compiles the source, in two loops of
`std::regex_search`.
-/
namespace Eventing.Rewriter
open Regex

/-- `.`, which matches no line terminator. -/
def dot (c : Char) : Bool := c ≠ '\n' && c ≠ '\r'

/-- `(.*)`, followed by `k`. -/
def dots (k : Pattern Char) : Pattern Char := .seq (.group (.star dot)) k

def enqueueOpen : Text := "enqueue(".toList
def comma : Text := ", ".toList
def enqueueClose : Text := ")".toList

/-- `(enqueue\((.*)\, (.*)\))` -/
def enqueue : Pattern Char :=
  .group (.seq (.lit enqueueOpen) (dots (.seq (.lit comma) (dots (.lit enqueueClose)))))

def n1qlOpen : Text := "n1ql(\"".toList
def n1qlClose : Text := "\")".toList
def n1qlTick : Text := "n1ql`".toList
def tick : Text := "`".toList

/-- `(n1ql\(")(.*)("\))` -/
def n1qlTtl : Pattern Char := .seq (.group (.lit n1qlOpen)) (dots (.group (.lit n1qlClose)))

/-- `std::regex_replace`, for a format without `$`. -/
def regexReplace (r : Pattern Char) (fmt s : Text) : Text :=
  (searchLoop r (fun _ => fmt) (s.length + 1) [] s).getD s

/-- What is added for a match in the first loop, and in the second. -/
def queueAccess (m : ℕ → Text) : Text := m 2 ++ "[".toList ++ m 3 ++ "]".toList

def taggedLiteral (m : ℕ → Text) : Text :=
  regexReplace (.lit n1qlOpen) n1qlTick (m 1) ++ m 2 ++ regexReplace (.lit n1qlClose) tick (m 3)

def enqueuePass (fuel : ℕ) (content : Text) : Option Text :=
  searchLoop enqueue queueAccess fuel [] content

def n1qlPass (fuel : ℕ) (temp : Text) : Option Text :=
  searchLoop n1qlTtl taggedLiteral fuel [] temp

/-- Both loops of `WorkerLoad`, before the builtins are appended. -/
def preprocess (fuel : ℕ) (content : Text) : Option Text :=
  (enqueuePass fuel content).bind (n1qlPass fuel)

section Matches
variable {s a b rest : Text} {x : Match Char}

lemma headOnce_comma : HeadOnce comma := ⟨',', [' '], rfl, by decide⟩
lemma headOnce_enqueueClose : HeadOnce enqueueClose := ⟨')', [], rfl, by decide⟩
lemma headOnce_n1qlClose : HeadOnce n1qlClose := ⟨'"', [')'], rfl, by decide⟩

lemma dot_comma : ∀ c ∈ comma, dot c = true :=
  List.all_eq_true.mp (by decide)
lemma dot_enqueueClose : ∀ c ∈ enqueueClose, dot c = true :=
  List.all_eq_true.mp (by decide)
lemma dot_n1qlClose : ∀ c ∈ n1qlClose, dot c = true :=
  List.all_eq_true.mp (by decide)

lemma first_group (r : Pattern Char) (s : Text) :
    (Pattern.group r).first s = (r.first s).map Match.capture := by
  rw [Pattern.first, Pattern.run, List.head?_map, Pattern.first]

/-- The match of `enqueue` at a position: up to the last `)` of the line, and cut at
the last comma before it. -/
theorem enqueue_first_some : enqueue.first s = some x ↔
    ∃ a b rest, s = enqueueOpen ++ (a ++ (comma ++ (b ++ (enqueueClose ++ rest)))) ∧
      (∀ c ∈ a, dot c = true) ∧ (∀ c ∈ b, dot c = true) ∧ ¬ comma <:+: b ∧
      ¬ enqueueClose <:+: rest.takeWhile dot ∧
      x = ⟨enqueueOpen ++ (a ++ (comma ++ (b ++ enqueueClose))),
        [enqueueOpen ++ (a ++ (comma ++ (b ++ enqueueClose))), a, b], rest⟩ := by
  rw [enqueue, first_group, Option.map_eq_some_iff]
  constructor
  · rintro ⟨y, hy, rfl⟩
    have hopen : enqueueOpen <+: s := by
      by_contra hno
      simp [(literal_lit _).first_seq_of_not hno] at hy
    obtain ⟨t, rfl⟩ := hopen
    rw [(literal_lit _).first_seq_append, Option.map_eq_some_iff] at hy
    obtain ⟨z, hz, rfl⟩ := hy
    obtain ⟨a, b, rest, rfl, ha, hb, hcomma, hlast, rfl⟩ := (first_upTo_upTo_some (literal_lit _)
      headOnce_enqueueClose dot_enqueueClose (literal_lit _) headOnce_comma dot_comma).mp hz
    exact ⟨a, b, rest, rfl, ha, hb, hcomma, hlast, rfl⟩
  · rintro ⟨a, b, rest, rfl, ha, hb, hcomma, hlast, rfl⟩
    have hz := (first_upTo_upTo_some (literal_lit _) headOnce_enqueueClose dot_enqueueClose
      (literal_lit _) headOnce_comma dot_comma).mpr ⟨a, b, rest, rfl, ha, hb, hcomma, hlast, rfl⟩
    rw [(literal_lit _).first_seq_append, dots, dots, hz]
    exact ⟨_, rfl, rfl⟩

lemma enqueue_first_none : enqueue.first s = none ↔
    ∀ a b rest, s = enqueueOpen ++ (a ++ (comma ++ (b ++ (enqueueClose ++ rest)))) →
      (∀ c ∈ a, dot c = true) → ¬ ∀ c ∈ b, dot c = true := by
  rw [enqueue, first_group, Option.map_eq_none_iff]
  by_cases hopen : enqueueOpen <+: s
  · obtain ⟨t, rfl⟩ := hopen
    rw [(literal_lit _).first_seq_append, Option.map_eq_none_iff, dots, dots,
      first_upTo_upTo_none (literal_lit _) dot_enqueueClose (literal_lit _)]
    simp only [List.append_cancel_left_eq]
  · simp only [(literal_lit _).first_seq_of_not hopen, true_iff]
    rintro a b rest rfl
    exact absurd (List.prefix_append _ _) hopen

/-- The match of `n1ql_ttl` at a position: up to the last `")` of the line. -/
theorem n1qlTtl_first_some : n1qlTtl.first s = some x ↔
    ∃ a rest, s = n1qlOpen ++ (a ++ (n1qlClose ++ rest)) ∧ (∀ c ∈ a, dot c = true) ∧
      ¬ n1qlClose <:+: rest.takeWhile dot ∧
      x = ⟨n1qlOpen ++ (a ++ n1qlClose), [n1qlOpen, a, n1qlClose], rest⟩ := by
  rw [n1qlTtl, dots]
  constructor
  · intro hx
    have hopen : n1qlOpen <+: s := by
      by_contra hno
      simp [(literal_lit _).group.first_seq_of_not hno] at hx
    obtain ⟨t, rfl⟩ := hopen
    rw [(literal_lit _).group.first_seq_append, Option.map_eq_some_iff] at hx
    obtain ⟨z, hz, rfl⟩ := hx
    obtain ⟨a, rest, rfl, ha, hlast, rfl⟩ := (first_upTo_some (literal_lit _).group
      headOnce_n1qlClose dot_n1qlClose).mp hz
    exact ⟨a, rest, rfl, ha, hlast, rfl⟩
  · rintro ⟨a, rest, rfl, ha, hlast, rfl⟩
    have hz := (first_upTo_some (literal_lit _).group headOnce_n1qlClose dot_n1qlClose).mpr
      ⟨a, rest, rfl, ha, hlast, rfl⟩
    rw [(literal_lit _).group.first_seq_append, hz]
    rfl

lemma taggedLiteral_sub :
    taggedLiteral (Match.sub ⟨n1qlOpen ++ (a ++ n1qlClose), [n1qlOpen, a, n1qlClose], rest⟩) =
      n1qlTick ++ a ++ tick := by
  have hopen : regexReplace (.lit n1qlOpen) n1qlTick n1qlOpen = n1qlTick := by decide
  have hclose : regexReplace (.lit n1qlClose) tick n1qlClose = tick := by decide
  change regexReplace (.lit n1qlOpen) n1qlTick n1qlOpen ++ a ++
    regexReplace (.lit n1qlClose) tick n1qlClose = _
  rw [hopen, hclose]

lemma n1qlTtl_first_none : n1qlTtl.first s = none ↔
    ∀ a rest, s = n1qlOpen ++ (a ++ (n1qlClose ++ rest)) → ¬ ∀ c ∈ a, dot c = true := by
  rw [n1qlTtl, dots]
  by_cases hopen : n1qlOpen <+: s
  · obtain ⟨t, rfl⟩ := hopen
    rw [(literal_lit _).group.first_seq_append, Option.map_eq_none_iff,
      first_upTo_none (literal_lit _).group dot_n1qlClose, not_infix_takeWhile]
    simp only [List.append_cancel_left_eq]
    constructor
    · rintro h a rest rfl ha
      refine h a _ rfl ?_ (List.prefix_append _ _)
      intro c hc
      rcases List.mem_append.mp hc with hc | hc
      · exact ha c hc
      · exact dot_n1qlClose c hc
    · rintro h a u rfl ha ⟨rest, rfl⟩
      exact h a rest rfl fun c hc => ha c (List.mem_append_left _ hc)
  · simp only [(literal_lit _).group.first_seq_of_not hopen, true_iff]
    rintro a rest rfl
    exact absurd (List.prefix_append _ _) hopen

end Matches

end Eventing.Rewriter
