import Eventing.RegexCalls
import Eventing.Rewriter

/-!
# The preprocessor, call by call

A handler source as text with calls in it, and when a loop of the preprocessor replaces
every call on its own. Both groups of a pattern are greedy, so what a call becomes
depends on the rest of its line.
-/
namespace Eventing.Rewriter
open Regex

/-- A source with calls of one kind, which come nowhere else in it. -/
structure Source (κ : Type) (o : Text) where
  text : Text
  calls : List (κ × Text)
  text_free : ¬ o <:+: text
  calls_free : ∀ p ∈ calls, ¬ o <:+: p.2

def Source.write {κ : Type} {o : Text} (src : Source κ o) (f : κ → Text) : Text :=
  render f src.text src.calls

/-- A queue or an item, as the pattern for `enqueue` separates them. -/
def Plain (t : Text) : Prop := t ≠ [] ∧ ∀ c ∈ t, c ≠ ',' ∧ c ≠ '(' ∧ c ≠ ')' ∧ c ≠ '\n'

structure EnqueueCall where
  queue : Text
  item : Text
  queue_plain : Plain queue
  item_plain : Plain item

namespace EnqueueCall

def args (c : EnqueueCall) : Text := c.queue ++ (comma ++ (c.item ++ enqueueClose))
def text (c : EnqueueCall) : Text := enqueueOpen ++ c.args
def access (c : EnqueueCall) : Text := c.queue ++ "[".toList ++ c.item ++ "]".toList

/-- The call has no carriage return, and no `)` comes after it on its line. -/
def Alone (c : EnqueueCall) (rest : Text) : Prop :=
  '\r' ∉ c.queue ∧ '\r' ∉ c.item ∧ ')' ∉ rest.takeWhile dot

end EnqueueCall

section Marks
variable {c : Char} {q a z z' : Text}

/-- The first `c` after `q` is where `a` ends, or `a` goes past it. -/
lemma first_mark (hc : c ∉ q) (h : q ++ c :: z = a ++ c :: z') :
    a = q ∧ z = z' ∨ q ++ [c] <+: a := by
  rcases List.append_eq_append_iff.mp h with ⟨m, rfl, hm⟩ | ⟨m, rfl, hm⟩
  · cases m with
    | nil => exact .inl ⟨List.append_nil q, (List.cons.inj hm).2⟩
    | cons d m =>
      rw [List.cons_append, List.cons.injEq] at hm
      exact .inr ⟨m, by simp [hm.1]⟩
  · cases m with
    | nil => exact .inl ⟨(List.append_nil a).symm, (List.cons.inj hm).2.symm⟩
    | cons d m =>
      rw [List.cons_append, List.cons.injEq] at hm
      exact absurd (by simp [hm.1]) hc

lemma dot_of_ne (hn : c ≠ '\n') (hr : c ≠ '\r') : dot c = true := by simp [dot, hn, hr]

end Marks

lemma unbordered_enqueueOpen : Unbordered enqueueOpen := by
  unfold Unbordered
  decide

lemma enqueueOpen_of_first {s : Text} {x : Match Char} (h : enqueue.first s = some x) :
    enqueueOpen <+: s := by
  obtain ⟨a, b, rest, rfl, -⟩ := enqueue_first_some.mp h
  exact List.prefix_append _ _

namespace EnqueueCall
variable {c : EnqueueCall} {v : Text}

lemma Alone.first (h : c.Alone v) : ∃ x, enqueue.first (enqueueOpen ++ (c.args ++ v)) = some x ∧
    queueAccess x.sub = c.access ∧ x.rest = v := by
  have hqueue : ∀ d ∈ c.queue, dot d = true :=
    fun d hd => dot_of_ne (c.queue_plain.2 d hd).2.2.2 fun he => h.1 (he ▸ hd)
  have hitem : ∀ d ∈ c.item, dot d = true :=
    fun d hd => dot_of_ne (c.item_plain.2 d hd).2.2.2 fun he => h.2.1 (he ▸ hd)
  have hcomma : ¬ comma <:+: c.item :=
    fun hi => (c.item_plain.2 ',' (hi.subset (by decide))).1 rfl
  have hlast : ¬ enqueueClose <:+: v.takeWhile dot := fun hi => h.2.2 (hi.subset (by decide))
  refine ⟨_, enqueue_first_some.mpr ⟨c.queue, c.item, v, ?_, hqueue, hitem, hcomma, hlast, rfl⟩,
    rfl, rfl⟩
  simp [args]

/-- Where the call is not alone, a match at it goes past the call's comma or past its
closing parenthesis. -/
lemma not_access_of_first (h : ¬ c.Alone v) {x : Match Char}
    (hx : enqueue.first (enqueueOpen ++ (c.args ++ v)) = some x) (z z' : Text) :
    queueAccess x.sub ++ z ≠ c.access ++ z' := by
  obtain ⟨a, b, rest, heq, ha, hb, -, hlast, rfl⟩ := enqueue_first_some.mp hx
  intro hout
  have hout' : a ++ '[' :: (b ++ ']' :: z) = c.queue ++ '[' :: (c.item ++ ']' :: z') := by
    simpa [queueAccess, access, Match.sub] using hout
  have heq' : c.queue ++ ',' :: (' ' :: (c.item ++ ')' :: v)) =
      a ++ ',' :: (' ' :: (b ++ ')' :: rest)) := by
    simpa [args, comma, enqueueClose] using heq
  have hqueue : ',' ∉ c.queue := fun hm => (c.queue_plain.2 ',' hm).1 rfl
  have hitem : ')' ∉ c.item := fun hm => (c.item_plain.2 ')' hm).2.2.1 rfl
  rcases first_mark hqueue heq' with ⟨rfl, hrest⟩ | ⟨m, rfl⟩
  · rw [List.append_cancel_left_eq, List.cons.injEq] at hout'
    rw [List.cons.injEq] at hrest
    rcases first_mark hitem hrest.2 with ⟨rfl, rfl⟩ | ⟨m, rfl⟩
    · refine h ⟨?_, ?_, ?_⟩
      · exact fun hm => absurd (ha '\r' hm) (by decide)
      · exact fun hm => absurd (hb '\r' hm) (by decide)
      · intro hm
        obtain ⟨s, t, hst⟩ := List.append_of_mem hm
        exact hlast ⟨s, t, by simp [hst, enqueueClose]⟩
    · simp at hout'
  · simp at hout'

lemma enqueueOpen_ne_access (c : EnqueueCall) (z z' : Text) : enqueueOpen ++ z ≠ c.access ++ z' := by
  intro h
  have hparen : '(' ∉ c.queue := fun hm => (c.queue_plain.2 '(' hm).2.1 rfl
  have h' : enqueueOpen ++ z = c.queue ++ '[' :: (c.item ++ ']' :: z') := by
    simpa [access] using h
  rcases List.append_eq_append_iff.mp h' with ⟨m, hm, -⟩ | ⟨m, hm, hz⟩
  · exact hparen (hm ▸ List.mem_append_left m (by decide : '(' ∈ enqueueOpen))
  · cases m with
    | nil =>
      rw [List.append_nil] at hm
      exact hparen (hm ▸ (by decide : '(' ∈ enqueueOpen))
    | cons d m =>
      rw [List.cons_append, List.cons.injEq] at hz
      exact absurd (by rw [hm, ← hz.1]; simp) (by decide : '[' ∉ enqueueOpen)

end EnqueueCall

/-- The first loop replaces every `enqueue` call by an access to the queue, and nothing
else, exactly when every call is alone on the rest of its line. -/
theorem enqueuePass_calls_iff (src : Source EnqueueCall enqueueOpen) (fuel : ℕ)
    (hf : src.calls.length < fuel) :
    enqueuePass fuel (src.write EnqueueCall.text) = some (src.write EnqueueCall.access) ↔
      AllGood EnqueueCall.Alone EnqueueCall.text src.calls :=
  searchLoop_render_iff EnqueueCall.args EnqueueCall.access EnqueueCall.Alone
    (fun _ _ => enqueueOpen_of_first) unbordered_enqueueOpen (fun _ _ => EnqueueCall.Alone.first)
    (fun _ _ h _ => EnqueueCall.not_access_of_first h) EnqueueCall.enqueueOpen_ne_access
    src.text_free src.calls_free hf

def call (queue item : Text) (h : Plain queue ∧ Plain item) : EnqueueCall := ⟨queue, item, h.1, h.2⟩

def callsByLine : Source EnqueueCall enqueueOpen where
  text := "f();\n".toList
  calls := [(call ['a'] ['b'] (by simp [Plain]), ";\n".toList),
    (call ['c'] ['d'] (by simp [Plain]), ";".toList)]
  text_free := by decide
  calls_free := by decide

theorem enqueuePass_callsByLine : enqueuePass 3 (callsByLine.write EnqueueCall.text) =
    some (callsByLine.write EnqueueCall.access) :=
  (enqueuePass_calls_iff callsByLine 3 (by decide)).mpr
    ⟨⟨by decide, by decide, by decide⟩, ⟨by decide, by decide, by decide⟩, trivial⟩

/-- `enqueue(a, b); enqueue(c, d)`, on one line. -/
def twoCalls : Source EnqueueCall enqueueOpen where
  text := []
  calls := [(call ['a'] ['b'] (by simp [Plain]), "; ".toList), (call ['c'] ['d'] (by simp [Plain]), [])]
  text_free := by decide
  calls_free := by decide

theorem enqueuePass_twoCalls :
    enqueuePass 3 (twoCalls.write EnqueueCall.text) = some "a, b); enqueue(c[d]".toList ∧
      twoCalls.write EnqueueCall.access = "a[b]; c[d]".toList := by decide

def backtick : Char := '\x60'

/-- A call with a query text, between double quotes and without escapes. -/
structure N1qlCall where
  query : Text
  query_plain : ∀ c ∈ query, c ≠ '"' ∧ c ≠ '\\' ∧ c ≠ '\n'

namespace N1qlCall

def args (c : N1qlCall) : Text := c.query ++ n1qlClose
def text (c : N1qlCall) : Text := n1qlOpen ++ c.args
def literal (c : N1qlCall) : Text := n1qlTick ++ c.query ++ tick

/-- The call has no carriage return, and no `")` comes after it on its line. -/
def Alone (c : N1qlCall) (rest : Text) : Prop :=
  '\r' ∉ c.query ∧ ¬ n1qlClose <:+: rest.takeWhile dot

/-- In the rewritten source, the text from an opening to the first backtick after it
is the query. -/
def Closed : List (N1qlCall × Text) → Prop
  | [] => True
  | (c, t) :: more =>
      (c.query ++ (tick ++ render literal t more)).takeWhile (fun d => d ≠ backtick) = c.query ∧ Closed more

variable {c : N1qlCall} {v : Text}

lemma Alone.first (h : c.Alone v) : ∃ x, n1qlTtl.first (n1qlOpen ++ (c.args ++ v)) = some x ∧
    taggedLiteral x.sub = c.literal ∧ x.rest = v := by
  have hquery : ∀ d ∈ c.query, dot d = true :=
    fun d hd => dot_of_ne (c.query_plain d hd).2.2 fun he => h.1 (he ▸ hd)
  refine ⟨_, n1qlTtl_first_some.mpr ⟨c.query, v, ?_, hquery, h.2, rfl⟩, taggedLiteral_sub, rfl⟩
  simp [args]

/-- Where the call is not alone, a match at it goes past the call's closing quote. -/
lemma not_literal_of_first (h : ¬ c.Alone v) {x : Match Char}
    (hx : n1qlTtl.first (n1qlOpen ++ (c.args ++ v)) = some x) (z z' : Text) :
    taggedLiteral x.sub ++ z ≠ c.literal ++ z' := by
  obtain ⟨a, rest, heq, ha, hlast, rfl⟩ := n1qlTtl_first_some.mp hx
  rw [taggedLiteral_sub]
  intro hout
  have hout' : a ++ backtick :: z = c.query ++ backtick :: z' := by
    simpa [literal, tick, backtick] using hout
  have heq' : c.query ++ '"' :: (')' :: v) = a ++ '"' :: (')' :: rest) := by
    simpa [args, n1qlClose] using heq
  rcases first_mark (fun hm => (c.query_plain '"' hm).1 rfl) heq' with ⟨rfl, hrest⟩ | ⟨m, rfl⟩
  · rw [List.cons.injEq] at hrest
    rw [← hrest.2] at hlast
    exact h ⟨fun hm => absurd (ha '\r' hm) (by decide), hlast⟩
  · simp [backtick] at hout'

lemma closed_iff {calls : List (N1qlCall × Text)} :
    Closed calls ↔ ∀ p ∈ calls, backtick ∉ p.1.query := by
  induction calls with
  | nil => simp [Closed]
  | cons p more ih =>
    obtain ⟨c, t⟩ := p
    have hone : (c.query ++ (tick ++ render literal t more)).takeWhile (fun d => d ≠ backtick) = c.query ↔
        backtick ∉ c.query := by
      constructor
      · intro h hm
        rw [← h] at hm
        simpa using List.mem_takeWhile_imp hm
      · intro hm
        rw [List.takeWhile_append_of_pos]
        · simp [tick, backtick]
        · intro d hd
          exact decide_eq_true fun he => hm (he ▸ hd)
    simp only [Closed, hone, ih, List.forall_mem_cons]

end N1qlCall

lemma unbordered_n1qlOpen : Unbordered n1qlOpen := by
  unfold Unbordered
  decide

lemma n1qlOpen_of_first {s : Text} {x : Match Char} (h : n1qlTtl.first s = some x) :
    n1qlOpen <+: s := by
  obtain ⟨a, rest, rfl, -⟩ := n1qlTtl_first_some.mp h
  exact List.prefix_append _ _

/-- The second loop makes every call a template literal that holds its query, and
changes nothing else, exactly when every call is alone on the rest of its line and no
query has a backtick. -/
theorem n1qlPass_calls_iff (src : Source N1qlCall n1qlOpen) (fuel : ℕ)
    (hf : src.calls.length < fuel) :
    n1qlPass fuel (src.write N1qlCall.text) = some (src.write N1qlCall.literal) ∧
        N1qlCall.Closed src.calls ↔
      AllGood N1qlCall.Alone N1qlCall.text src.calls ∧ ∀ p ∈ src.calls, backtick ∉ p.1.query := by
  have hopen : ∀ (c : N1qlCall) (z z' : Text), n1qlOpen ++ z ≠ c.literal ++ z' := by
    intro c z z' h
    have hopen := congrArg (List.take 5) h
    rw [N1qlCall.literal, List.append_assoc, List.append_assoc,
      List.take_append_of_le_length (by decide), List.take_append_of_le_length (by decide)] at hopen
    exact absurd hopen (by decide)
  have hloop : n1qlPass fuel (src.write N1qlCall.text) = some (src.write N1qlCall.literal) ↔
      AllGood N1qlCall.Alone N1qlCall.text src.calls :=
    searchLoop_render_iff N1qlCall.args N1qlCall.literal N1qlCall.Alone
      (fun _ _ => n1qlOpen_of_first) unbordered_n1qlOpen (fun _ _ => N1qlCall.Alone.first)
      (fun _ _ h _ => N1qlCall.not_literal_of_first h) hopen src.text_free src.calls_free hf
  rw [hloop, N1qlCall.closed_iff]

def queriesByLine : Source N1qlCall n1qlOpen where
  text := "f(".toList
  calls := [(⟨['a'], by simp⟩, ");\n".toList), (⟨['b'], by simp⟩, [])]
  text_free := by decide
  calls_free := by decide

theorem n1qlPass_queriesByLine : n1qlPass 3 (queriesByLine.write N1qlCall.text) =
    some (queriesByLine.write N1qlCall.literal) :=
  ((n1qlPass_calls_iff queriesByLine 3 (by decide)).mpr
    ⟨⟨⟨by decide, by decide⟩, ⟨by decide, by decide⟩, trivial⟩, by decide⟩).1

/-- `n1ql("a") + n1ql("b")`, on one line. -/
def twoQueries : Source N1qlCall n1qlOpen where
  text := []
  calls := [(⟨['a'], by simp⟩, " + ".toList), (⟨['b'], by simp⟩, [])]
  text_free := by decide
  calls_free := by decide

theorem n1qlPass_twoQueries :
    n1qlPass 3 (twoQueries.write N1qlCall.text) = some "n1ql`a\") + n1ql(\"b`".toList ∧
      twoQueries.write N1qlCall.literal = "n1ql`a` + n1ql`b`".toList := by decide

end Eventing.Rewriter
