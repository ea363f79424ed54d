import Eventing.Decimal
import Eventing.ForLoop

/-!
# The tag `n1ql`

`builtin.js` is appended to the script of a handler (`WorkerLoad`, `worker.cc`). Its function
`n1ql` counts the substitutions of a template in a variable `i` that it does not declare, which
is a global of the script; the loops of the sample handlers (`handle_event.js`) count in the
same one.
-/
namespace Eventing.N1qlTag
open Decimal ForLoop

/-- The values of JavaScript, with the text that `concat` makes of those that are neither
numbers nor strings. -/
inductive Value
  | number (n : ℕ)
  | string (t : Text)
  | other (text : Text)
  deriving DecidableEq

abbrev Globals := Text → Option Value

/-- The literal parts of a template and the values of its substitutions. -/
structure Template where
  strings : List Text
  values : List Value
  length_strings : strings.length = values.length + 1

def indexVariable : Text := ['i']

def setIndex (n : ℕ) (g : Globals) : Globals := Function.update g indexVariable (some (.number n))

def getIndex (g : Globals) : Option ℕ :=
  match g indexVariable with
  | some (.number n) => some n
  | _ => none

lemma getIndex_setIndex (n : ℕ) (g : Globals) : getIndex (setIndex n g) = some n := by
  simp [getIndex, setIndex]

def globalCounter : Counter Globals := ⟨getIndex, setIndex, getIndex_setIndex⟩

/-- The globals and the local variable `query` of `n1ql`. -/
structure Scope where
  globals : Globals
  query : Text

def scopeCounter : Counter Scope where
  get s := getIndex s.globals
  set n s := { s with globals := setIndex n s.globals }
  get_set n s := getIndex_setIndex n s.globals

/-- What is put into the query for a value. -/
def quoted : Value → Text
  | .string t => if '-' ∈ t then '`' :: (t ++ ['`']) else t
  | .number n => decimal n
  | .other text => text

def undefinedText : Text := "undefined".toList

def Template.piece (t : Template) (i : ℕ) : Text :=
  (t.values[i]?.map quoted).getD undefinedText ++ t.strings[i + 1]?.getD undefinedText

/-- The body of the loop of `n1ql`, which reads `i`. -/
def n1qlBody (t : Template) (s : Scope) : Option Scope :=
  (getIndex s.globals).map fun i => { s with query := s.query ++ t.piece i }

/-- The globals behind a call of `n1ql`, and the query whose result it returns. -/
def n1ql (t : Template) (g : Globals) : Option (Globals × Text) :=
  (scopeCounter.forLoop (t.strings.length - 1) (n1qlBody t) t.strings.length
    ⟨g, t.strings[0]?.getD undefinedText⟩).map fun r => (r.1.globals, r.1.query)

def Template.queryUpTo (t : Template) : ℕ → Text
  | 0 => t.strings[0]?.getD undefinedText
  | i + 1 => t.queryUpTo i ++ t.piece i

lemma setIndex_setIndex (m n : ℕ) (g : Globals) : setIndex m (setIndex n g) = setIndex m g :=
  Function.update_idem _ _ _

/-- The scope behind as many substitutions as the global `i` says. -/
def Template.After (t : Template) (g : Globals) (i : ℕ) (s : Scope) : Prop :=
  s = ⟨setIndex i g, t.queryUpTo i⟩

lemma Template.After.n1qlBody (h : t.After g i s) :
    n1qlBody t s = some { s with query := t.queryUpTo (i + 1) } := by
  rw [h, N1qlTag.n1qlBody, getIndex_setIndex]
  rfl

/-- A call returns, with all substitutions in the query and their number in the global `i`. -/
theorem n1ql_eq (t : Template) (g : Globals) :
    n1ql t g = some (setIndex t.values.length g, t.queryUpTo t.values.length) := by
  have hlength := t.length_strings
  have hinit : t.After g 0 (scopeCounter.set 0 ⟨g, t.strings[0]?.getD undefinedText⟩) := rfl
  have hloop : ∃ s, scopeCounter.forLoop t.values.length (n1qlBody t) (t.values.length + 1)
      ⟨g, t.strings[0]?.getD undefinedText⟩ = some (s, t.values.length) ∧
      t.After g t.values.length s := by
    apply Counter.forLoop_rule hinit
    intro i s _ hi hs
    refine ⟨_, hs.n1qlBody, hi, ?_⟩
    rw [hs]
    simp only [Template.After, scopeCounter, setIndex_setIndex]
  obtain ⟨s, hrun, hs⟩ := hloop
  rw [n1ql, hlength, Nat.add_sub_cancel, hrun, hs]
  rfl

/-- Every global has behind a call the value that it had before. -/
def LeavesGlobals (t : Template) (g : Globals) : Prop :=
  ∃ globals query, n1ql t g = some (globals, query) ∧ ∀ name, globals name = g name

lemma leavesGlobals_iff (t : Template) (g : Globals) :
    LeavesGlobals t g ↔ g indexVariable = some (.number t.values.length) := by
  rw [LeavesGlobals, n1ql_eq]
  constructor
  · rintro ⟨globals, query, h, hg⟩
    obtain ⟨rfl, -⟩ := Prod.mk.inj (Option.some.inj h)
    rw [← hg indexVariable]
    exact Function.update_self _ _ _
  · intro h
    refine ⟨_, _, rfl, fun name => ?_⟩
    rw [setIndex, ← h, Function.update_eq_self]

/-- Statements of a handler that do not assign `i`. -/
structure Statements where
  run : Globals → Globals
  run_index : ∀ g, run g indexVariable = g indexVariable

/-- The body of a loop of a handler, with a call of `n1ql` in it. The values of the template
depend on the globals, the number of its substitutions does not. -/
structure LoopBody where
  before : Statements
  template : Globals → Template
  substitutions : ℕ
  length_values : ∀ g, (template g).values.length = substitutions
  after : Statements

def LoopBody.run (b : LoopBody) (g : Globals) : Option Globals := do
  let g := b.before.run g
  let r ← n1ql (b.template g) g
  return b.after.run r.1

/-- The loop of the handler executes its body as often as its limit says. -/
def ExecutesAll (b : LoopBody) (n : ℕ) (g : Globals) : Prop := globalCounter.Executes n b.run g n

lemma LoopBody.run_index (b : LoopBody) (g : Globals) :
    ∃ h, b.run g = some h ∧ getIndex h = some b.substitutions := by
  refine ⟨b.after.run (setIndex b.substitutions (b.before.run g)), ?_, ?_⟩
  · rw [LoopBody.run, n1ql_eq, b.length_values]
    rfl
  · have hindex := getIndex_setIndex b.substitutions (b.before.run g)
    rw [getIndex] at hindex ⊢
    rw [b.after.run_index]
    exact hindex

lemma executesAll_iff (b : LoopBody) (n : ℕ) (g : Globals) : ExecutesAll b n g ↔ n ≤ 1 :=
  Counter.executes_limit_iff b.run_index g

def limitQuery : Template := ⟨["select * limit ".toList, []], [.number 5], rfl⟩

def queryLoop : LoopBody where
  before := ⟨id, fun _ => rfl⟩
  template _ := limitQuery
  substitutions := 1
  length_values _ := rfl
  after := ⟨id, fun _ => rfl⟩

end Eventing.N1qlTag
