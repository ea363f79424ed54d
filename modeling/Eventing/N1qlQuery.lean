import Eventing.BucketAlias
import Eventing.N1qlTag
import Eventing.RewriterCalls
import Eventing.TemplateLiteral

/-!
# N1QL queries, from the handler source to the rows

`WorkerLoad` (`worker.cc`) makes a tagged template literal of `n1ql("...")`, the tag
(`builtin.js`) puts the values of the substitutions between the literal parts and reads the
property of `_n1ql` that has the query as its name, and `N1QLEnumGetCall` (`n1ql.cc`) runs the
query and makes an array of the rows.
-/
namespace Eventing.N1qlQuery
open BucketAlias N1qlTag Rewriter TemplateLiteral
open Utf16 (Units)
open Utf8 (Bytes)

/-- A call of `n1ql` with a string that has substitutions in it. -/
structure Query where
  literal : Literal
  plain : literal.Plain
  quotable : ∀ c ∈ literal.text, c ≠ '"' ∧ c ≠ '\\' ∧ c ≠ '\n'

def Query.call (q : Query) : N1qlCall := ⟨q.literal.text, q.quotable⟩

def Query.fill (q : Query) (value : Text → Value) : Text := q.literal.fill fun e => quoted (value e)

/-- The literal parts and the values of the substitutions, when there is one more part than
there are substitutions. -/
def template (value : Text → Value) (r : Reading) : Option Template :=
  if h : r.strings.length = (r.substitutions.map value).length + 1 then
    some ⟨r.strings, r.substitutions.map value, h⟩
  else none

/-- The call of the tag on the template literal that the text begins with: the globals behind
it, and the name of the property of `_n1ql` that it reads. -/
def callTag (value : Text → Value) (globals : Globals) (text : Text) : Option (Globals × Text) := do
  let reading ← readLiteral text
  let template ← template value reading
  n1ql template globals

inductive Rc
  | success
  | failure
  deriving DecidableEq

structure Rows where
  rows : List Text
  metadata : Text
  rc : Rc

/-- What the query service answers: the rows, and at the end the response code. -/
inductive Response
  | row (text : Text)
  | final (rc : Rc) (metadata : Text)

def queryCallback (rows : Rows) : Response → Rows
  | .final rc metadata => { rows with rc := rc, metadata := metadata }
  | .row text => { rows with rows := rows.rows ++ [text] }

def Rows.initial : Rows := ⟨[], [], .failure⟩

variable {V : Type*}

/-- An array of JavaScript, with holes. -/
abbrev JsArray (V : Type*) := List (Option V)

/-- `N1QLEnumGetCall`, which V8 does not call for array indices. There is no result when
`JSON::Parse` has none for a row. -/
def n1qlEnumGetCall (parse : Text → Option V) (service : Bytes → List Response) (name : Units) :
    Option (JsArray V) :=
  match arrayIndex name with
  | some _ => none
  | none =>
      let rows := (service (objectToString name)).foldl queryCallback .initial
      match rows.rc with
      | .success => rows.rows.mapM fun row => (parse row).map some
      | .failure => some (List.replicate rows.rows.length none)

/-- The globals behind a call in the rewritten script, and its value. -/
def evaluate (parse : Text → Option V) (service : Bytes → List Response) (value : Text → Value)
    (globals : Globals) (text : Text) : Option (Globals × JsArray V) :=
  (callTag value globals text).bind fun tag =>
    (n1qlEnumGetCall parse service (Utf16.encode tag.2)).map fun rows => (tag.1, rows)

section Tag
variable {q : Query} {value : Text → Value}

lemma queryUpTo_eq (strings : List Text) (values : List Value) (first : Text)
    (h : (first :: strings).length = values.length + 1) (n : ℕ) (hn : n ≤ values.length) :
    (Template.mk (first :: strings) values h).queryUpTo n =
      first ++ ((values.zip strings).take n).flatMap fun p => quoted p.1 ++ p.2 := by
  induction n with
  | zero => simp [Template.queryUpTo]
  | succ n ih =>
    have hlen : strings.length = values.length := by simpa using h
    have hv : n < values.length := hn
    have hs : n < strings.length := hlen ▸ hn
    have hzip : (values.zip strings)[n]? = some (values[n], strings[n]) :=
      List.getElem?_zip_eq_some.mpr ⟨List.getElem?_eq_getElem hv, List.getElem?_eq_getElem hs⟩
    rw [Template.queryUpTo, ih (by omega), List.take_add_one, hzip, List.flatMap_append]
    simp [Template.piece, hv, hs]

lemma fill_eq (q : Query) (value : Text → Value) : q.fill value = q.literal.first ++
    ((q.literal.rest.map Prod.fst).map value |>.zip (q.literal.rest.map Prod.snd)).flatMap
      fun p => quoted p.1 ++ p.2 := by
  rw [Query.fill, Literal.fill]
  congr 1
  induction q.literal.rest with
  | nil => rfl
  | cons p ps ih => simpa using ih

lemma callTag_text (q : Query) (value : Text → Value) (globals : Globals) (after : Text) :
    callTag value globals (q.literal.text ++ TemplateLiteral.backtick :: after) =
      some (setIndex q.literal.rest.length globals, q.fill value) := by
  have hlength : (q.literal.first :: q.literal.rest.map Prod.snd).length =
      ((q.literal.rest.map Prod.fst).map value).length + 1 := by simp
  have hquery := queryUpTo_eq _ _ _ hlength _ le_rfl
  have hall : ((((q.literal.rest.map Prod.fst).map value).zip (q.literal.rest.map Prod.snd)).take
      ((q.literal.rest.map Prod.fst).map value).length) =
      ((q.literal.rest.map Prod.fst).map value).zip (q.literal.rest.map Prod.snd) := by
    apply List.take_of_length_le
    simp
  rw [callTag, readLiteral_text q.plain, Option.bind_eq_bind, Option.bind_some, template,
    dif_pos hlength, Option.bind_eq_bind, Option.bind_some, n1ql_eq, hquery, hall, fill_eq]
  simp

end Tag

section Rows

variable {parse : Text → Option V} {service : Bytes → List Response}

lemma foldl_rows (texts : List Text) (rows : Rows) :
    (texts.map Response.row).foldl queryCallback rows = { rows with rows := rows.rows ++ texts } := by
  induction texts generalizing rows with
  | nil => simp
  | cons t texts ih => simp [ih, queryCallback]

lemma n1qlEnumGetCall_of_answer (parse : Text → Option V) {name : Units} {texts : List Text}
    {rc : Rc} {metadata : Text} (hindex : arrayIndex name = none)
    (hanswer : service (objectToString name) = texts.map Response.row ++ [.final rc metadata]) :
    n1qlEnumGetCall parse service name = match rc with
      | .success => texts.mapM fun row => (parse row).map some
      | .failure => some (List.replicate texts.length none) := by
  simp only [n1qlEnumGetCall, hindex, hanswer, List.foldl_append, foldl_rows]
  cases rc <;> rfl

lemma mapM_parse_some {texts : List Text} {values : List V} (h : texts.mapM parse = some values) :
    (texts.mapM fun row => (parse row).map some) = some (values.map some) := by
  induction texts generalizing values with
  | nil =>
    obtain rfl := Option.some.inj h
    rfl
  | cons t texts ih =>
    rw [List.mapM_cons] at h
    obtain ⟨v, hv, h⟩ := Option.bind_eq_some_iff.mp h
    obtain ⟨vs, hvs, h⟩ := Option.bind_eq_some_iff.mp h
    obtain rfl := Option.some.inj h
    rw [List.mapM_cons, hv, ih hvs]
    rfl

end Rows

section Source

/-- The service has rows for a query, and they are JSON texts. -/
structure Answers (parse : Text → Option V) (service : Bytes → List Response) (query : Text)
    (values : List V) : Prop where
  name : arrayIndex (Utf16.encode query) = none
  nul_free : '\x00' ∉ query
  answer : ∃ (texts : List Text) (metadata : Text), texts.mapM parse = some values ∧
    service (Utf8.encode query) = texts.map Response.row ++ [.final .success metadata]

def calls (src : Source Query n1qlOpen) : Source N1qlCall n1qlOpen where
  text := src.text
  calls := src.calls.map fun p => (p.1.call, p.2)
  text_free := src.text_free
  calls_free := by
    intro p hp
    obtain ⟨q, hq, rfl⟩ := List.mem_map.mp hp
    exact src.calls_free q hq

variable {parse : Text → Option V} {service : Bytes → List Response}

lemma Query.backtick_notMem (q : Query) : Rewriter.backtick ∉ q.call.query := by
  have hpart {s : Text} (h : PlainPart s) : Rewriter.backtick ∉ s := fun hm => (h.1 _ hm).1 rfl
  intro hm
  rcases List.mem_append.mp hm with hm | hm
  · exact hpart q.plain.first hm
  · obtain ⟨p, hp, hm⟩ := List.mem_flatMap.mp hm
    rcases List.mem_append.mp hm with hm | hm
    · exact absurd hm (by decide)
    · rcases List.mem_append.mp hm with hm | hm
      · exact absurd (q.plain.substitutions p hp _ hm) (by decide)
      · rcases List.mem_cons.mp hm with hm | hm
        · exact absurd hm (by decide)
        · exact hpart (q.plain.parts p hp) hm

lemma evaluate_text (q : Query) {value : Text → Value} {values : List V} (globals : Globals)
    (hanswer : Answers parse service (q.fill value) values) (after : Text) :
    evaluate parse service value globals (q.literal.text ++ TemplateLiteral.backtick :: after) =
      some (setIndex q.literal.rest.length globals, values.map some) := by
  obtain ⟨texts, metadata, hparse, hservice⟩ := hanswer.answer
  have hname : objectToString (Utf16.encode (q.fill value)) = Utf8.encode (q.fill value) :=
    objectToString_encode hanswer.nul_free
  have hrows := n1qlEnumGetCall_of_answer parse hanswer.name (hname.symm ▸ hservice)
  rw [evaluate, callTag_text, Option.bind_some, hrows]
  simp only [mapM_parse_some hparse, Option.map_some]

lemma render_split {κ : Type} (f : κ → Text) (t : Text) (before : List (κ × Text)) (c : κ)
    (t' : Text) (after : List (κ × Text)) :
    Regex.render f t (before ++ (c, t') :: after) =
      Regex.render f t before ++ (f c ++ Regex.render f t' after) := by
  induction before generalizing t with
  | nil => rfl
  | cons p before ih => simp [Regex.render, ih]

lemma plainPart {s : Text} (h : ∀ c ∈ s, c ≠ TemplateLiteral.backtick ∧ c ≠ '\\' ∧ c ≠ '\r' ∧ c ≠ '$') :
    PlainPart s :=
  ⟨fun c hc => ⟨(h c hc).1, (h c hc).2.1, (h c hc).2.2.1⟩,
    fun hi => (h '$' (hi.subset List.mem_cons_self)).2.2.2 rfl⟩

def selectName : Query where
  literal := ⟨"select ".toList, [("bucket".toList, ".name".toList)]⟩
  plain := by
    refine ⟨plainPart (by simp [TemplateLiteral.backtick]), ?_, by simp [TemplateLiteral.bracket]⟩
    intro p hp
    rw [List.mem_singleton.mp hp]
    exact plainPart (by simp [TemplateLiteral.backtick])
  quotable := by simp [TemplateLiteral.Literal.text, TemplateLiteral.opening, TemplateLiteral.closing]

def selectSource : Source Query n1qlOpen where
  text := "r=".toList
  calls := [(selectName, ";\n".toList)]
  text_free := by decide
  calls_free := by decide

def beerBucket (_ : Text) : Value := .string "beer-sample".toList

def oneRow (query : Bytes) : List Response :=
  if query = Utf8.encode "select `beer-sample`.name".toList then [.row ['7'], .final .success []]
  else [.final .failure []]

end Source

end Eventing.N1qlQuery
