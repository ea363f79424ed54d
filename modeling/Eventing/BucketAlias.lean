import Mathlib.Algebra.Group.Nat.Defs
import Eventing.Decimal
import Eventing.KvStore
import Eventing.Transition
import Eventing.Wtf8

/-!
# Bucket aliases

A handler reads, assigns and deletes the properties of a bucket alias, and three
interceptors (`bucket.cc`) turn that into operations on the documents of the bucket. V8
calls them for the names that are not array indices; an index is a plain element of the
object. What the interceptors rely on of V8's JSON is a `Json`. Keys and documents are bytes.
-/
namespace Eventing.BucketAlias
open Decimal KvStore Terminated Transition Utf16
open Utf8 (Bytes)

variable {V : Type*}

/-- `String::NewFromUtf8`, which replaces what is no UTF-8. -/
def newFromUtf8 (b : Bytes) : Units := encode (Utf8.decode b)

/-- `JSON.stringify` and `JSON.parse`. A surrogate without its partner stands in a JSON
text as itself, so the text with the surrogate replaced is one of another value. -/
structure Json (V : Type*) where
  stringify : V → Units
  parse : Units → Option V
  parse_stringify : ∀ v, parse (stringify v) = some v
  parse_nil : parse [] = none
  nul_free : ∀ v, 0 ∉ stringify v
  parse_replaced : ∀ v, ¬ WellFormed (stringify v) →
    parse (newFromUtf8 (Wtf8.encode (stringify v))) ≠ some v

/-- `ObjectToString`: the bytes of a string that `String::Utf8Value` writes, as far as a `char`
pointer to them goes. -/
def objectToString (s : Units) : Bytes := cut 0 (Wtf8.encode s)

/-- The index that a property name is, if it is one. -/
def arrayIndex (name : Units) : Option ℕ :=
  let n := Nat.ofDigitChars 10 (decode name) 0
  if encode (decimal n) = name ∧ n < 2 ^ 32 - 1 then some n else none

/-- The documents of the bucket and the plain elements of the object. `assigned` holds the
value last assigned under each name and not deleted since. -/
structure State (V : Type*) where
  bucket : Store Bytes Bytes
  elements : ℕ → Option V
  assigned : Units → Option V

def State.initial : State V := ⟨empty, fun _ => none, fun _ => none⟩

inductive Operation (V : Type*)
  | assign (name : Units) (value : V)
  | delete (name : Units)
  | read (name : Units)

inductive Outcome (V : Type*)
  | value (v : V)
  | undefined
  | throws
  deriving DecidableEq

def Outcome.ofOption : Option V → Outcome V
  | some v => .value v
  | none => .undefined

/-- The document that is not there gives the empty text. -/
def bucketGet (json : Json V) (s : State V) (name : Units) : Outcome V :=
  match json.parse (newFromUtf8 ((get s.bucket (objectToString name)).getD [])) with
  | some v => .value v
  | none => .throws

def bucketSet (json : Json V) (s : State V) (name : Units) (value : V) : Store Bytes Bytes :=
  set s.bucket (objectToString name) (objectToString (json.stringify value))

def bucketDelete (s : State V) (name : Units) : Store Bytes Bytes :=
  delete s.bucket (objectToString name)

/-- What `b[name]` evaluates to. -/
def read (json : Json V) (s : State V) (name : Units) : Outcome V :=
  match arrayIndex name with
  | some n => .ofOption (s.elements n)
  | none => bucketGet json s name

def assign (json : Json V) (s : State V) (name : Units) (value : V) : State V :=
  match arrayIndex name with
  | some n =>
      { s with
        elements := Function.update s.elements n (some value)
        assigned := Function.update s.assigned name (some value) }
  | none =>
      { s with
        bucket := bucketSet json s name value
        assigned := Function.update s.assigned name (some value) }

def remove (s : State V) (name : Units) : State V :=
  match arrayIndex name with
  | some n =>
      { s with
        elements := Function.update s.elements n none
        assigned := Function.update s.assigned name none }
  | none =>
      { s with
        bucket := bucketDelete s name
        assigned := Function.update s.assigned name none }

def step (json : Json V) (s : State V) : Operation V → Option (State V)
  | .assign name value => some (assign json s name value)
  | .delete name => some (remove s name)
  | .read _ => some s

/-- The document under the name itself holds the value. -/
def Visible (json : Json V) (s : State V) (name : Units) (value : V) : Prop :=
  ∃ doc, get s.bucket (Wtf8.encode name) = some doc ∧ json.parse (newFromUtf8 doc) = some value

/-- The documents and elements of other names are as before. -/
def OthersKept (s : State V) (name : Units) (t : State V) : Prop :=
  (∀ key, key ≠ Wtf8.encode name → get t.bucket key = get s.bucket key) ∧
    ∀ n, encode (decimal n) ≠ name → t.elements n = s.elements n

/-- The alias behaves as a map: a read gives what was last assigned under its name, an
assignment is visible in the bucket, and other names are left alone. -/
def AsMap (json : Json V) (s : State V) (op : Operation V) (t : State V) : Prop :=
  match op with
  | .assign name value => Visible json t name value ∧ OthersKept s name t
  | .delete name => OthersKept s name t
  | .read name => read json s name = .ofOption (s.assigned name)

/-- A name that `objectToString` keeps. -/
def Clean (name : Units) : Prop := 0 ∉ name

/-- Names assigned are no array indices and have no NUL, and the JSON text has no lone
surrogate; names read are array indices, or have no NUL and a document; a name deleted is an
array index, or has no NUL, or is cut to one without a document. -/
def Plain (json : Json V) (s : State V) : Operation V → Prop
  | .assign name value => arrayIndex name = none ∧ Clean name ∧ WellFormed (json.stringify value)
  | .delete name => arrayIndex name ≠ none ∨ Clean name ∨ get s.bucket (objectToString name) = none
  | .read name => arrayIndex name ≠ none ∨ Clean name ∧ get s.bucket (objectToString name) ≠ none

section Names
variable {name : Units} {n : ℕ}

lemma objectToString_eq (s : Units) : objectToString s = Wtf8.encode (cut 0 s) := Wtf8.cut_encode s

lemma objectToString_encode {t : Text} (h : '\x00' ∉ t) : objectToString (encode t) = Utf8.encode t := by
  rw [objectToString, Wtf8.encode_encode, cut_of_notMem (Utf8.zero_notMem_encode h)]

lemma objectToString_iff : objectToString name = Wtf8.encode name ↔ Clean name := by
  rw [objectToString_eq, Wtf8.encode_injective.eq_iff, cut_eq_self_iff]
  rfl

lemma eq_encode_of_arrayIndex (h : arrayIndex name = some n) : name = encode (decimal n) := by
  simp only [arrayIndex] at h
  split_ifs at h with hc
  rw [Option.some.injEq] at h
  rw [← h, hc.1]

lemma objectToString_stringify (json : Json V) (v : V) :
    objectToString (json.stringify v) = Wtf8.encode (json.stringify v) :=
  objectToString_iff.mpr (json.nul_free v)

lemma parse_objectToString_iff (json : Json V) (v : V) :
    json.parse (newFromUtf8 (objectToString (json.stringify v))) = some v ↔
      WellFormed (json.stringify v) := by
  rw [objectToString_stringify]
  constructor
  · intro h
    by_contra hw
    exact json.parse_replaced v hw h
  · rintro ⟨text, htext⟩
    rw [htext, Wtf8.encode_encode, newFromUtf8, Utf8.decode_encode, ← htext, json.parse_stringify]

end Names

/-- Without elements, the documents are the values assigned. -/
structure Simulates (json : Json V) (s : State V) : Prop where
  elements : ∀ n, s.elements n = none
  docs : ∀ key doc, get s.bucket key = some doc → ∃ name v, key = Wtf8.encode name ∧
    arrayIndex name = none ∧ Clean name ∧ s.assigned name = some v ∧
    json.parse (newFromUtf8 doc) = some v
  assigned : ∀ name v, s.assigned name = some v → ∃ doc, get s.bucket (Wtf8.encode name) = some doc

section Decides
variable {json : Json V} {s t : State V} {name : Units} {value : V} {doc : Bytes}

lemma Simulates.initial : Simulates json (.initial : State V) where
  elements _ := rfl
  docs _ _ h := by simp [State.initial] at h
  assigned _ _ h := by simp [State.initial] at h

lemma Simulates.document (h : Simulates json s) (hdoc : get s.bucket (Wtf8.encode name) = some doc) :
    arrayIndex name = none ∧ Clean name ∧
      ∃ v, s.assigned name = some v ∧ json.parse (newFromUtf8 doc) = some v := by
  obtain ⟨name', v, hname, hindex, hclean, hassigned, hparse⟩ := h.docs _ doc hdoc
  obtain rfl := Wtf8.encode_injective hname
  exact ⟨hindex, hclean, v, hassigned, hparse⟩

lemma Simulates.clean_of_visible (h : Simulates json s) (hi : arrayIndex name = none)
    (hv : Visible json (assign json s name value) name value) : Clean name := by
  by_contra hclean
  obtain ⟨doc, hdoc, -⟩ := hv
  simp only [assign, hi, bucketSet] at hdoc
  rw [get_set_of_ne fun he => hclean (objectToString_iff.mp he.symm)] at hdoc
  exact hclean (h.document hdoc).2.1

lemma Simulates.assign_iff (h : Simulates json s) :
    Visible json (assign json s name value) name value ∧
        OthersKept s name (assign json s name value) ↔
      arrayIndex name = none ∧ Clean name ∧ WellFormed (json.stringify value) := by
  constructor
  · rintro ⟨hv, -⟩
    cases hi : arrayIndex name with
    | some n =>
      obtain ⟨doc, hdoc, -⟩ := hv
      simp only [assign, hi] at hdoc
      simp [(h.document hdoc).1] at hi
    | none =>
      have hclean := h.clean_of_visible hi hv
      obtain ⟨doc, hdoc, hparse⟩ := hv
      simp only [assign, hi, bucketSet, objectToString_iff.mpr hclean, get_set_self,
        Option.some.injEq] at hdoc
      exact ⟨rfl, hclean, (parse_objectToString_iff json value).mp (hdoc ▸ hparse)⟩
  · rintro ⟨hi, hclean, hw⟩
    simp only [assign, hi, bucketSet, objectToString_iff.mpr hclean, Visible, OthersKept]
    refine ⟨⟨_, get_set_self, (parse_objectToString_iff json value).mpr hw⟩, ?_, fun _ _ => trivial⟩
    exact fun key hne => get_set_of_ne hne

lemma othersKept_remove_iff : OthersKept s name (remove s name) ↔
    arrayIndex name ≠ none ∨ Clean name ∨ get s.bucket (objectToString name) = none := by
  cases hi : arrayIndex name with
  | some n =>
    refine iff_of_true ⟨fun key _ => ?_, fun n' hne => ?_⟩ (.inl (by simp))
    · simp [remove, hi]
    · have hn : n' ≠ n := by
        rintro rfl
        exact hne (eq_encode_of_arrayIndex hi).symm
      simp [remove, hi, hn]
  | none =>
    simp only [remove, hi, bucketDelete, OthersKept, ne_eq, not_true_eq_false, false_or]
    constructor
    · rintro ⟨hkept, -⟩
      by_contra hno
      rw [not_or] at hno
      obtain ⟨doc, hdoc⟩ := Option.ne_none_iff_exists'.mp hno.2
      have hlost := hkept _ fun he => hno.1 (objectToString_iff.mp he)
      simp [hdoc] at hlost
    · intro hc
      refine ⟨fun key hne => ?_, fun _ _ => trivial⟩
      rcases hc with hclean | hc
      · rw [objectToString_iff.mpr hclean]
        exact get_delete_of_ne hne
      · by_cases hkey : key = objectToString name
        · rw [hkey, get_delete_self, hc]
        · exact get_delete_of_ne hkey

lemma Simulates.read_iff (h : Simulates json s) :
    read json s name = .ofOption (s.assigned name) ↔
      arrayIndex name ≠ none ∨ Clean name ∧ get s.bucket (objectToString name) ≠ none := by
  cases hi : arrayIndex name with
  | some n =>
    refine iff_of_true ?_ (.inl (by simp))
    have hnone : s.assigned name = none := by
      by_contra hne
      obtain ⟨v, hv⟩ := Option.ne_none_iff_exists'.mp hne
      obtain ⟨doc, hdoc⟩ := h.assigned name v hv
      simp [(h.document hdoc).1] at hi
    simp [read, hi, h.elements, hnone]
  | none =>
    simp only [read, hi, ne_eq, not_true_eq_false, false_or]
    constructor
    · intro hr
      cases ha : s.assigned name with
      | none =>
        simp only [bucketGet, ha, Outcome.ofOption] at hr
        split at hr <;> simp at hr
      | some v =>
        obtain ⟨doc, hdoc⟩ := h.assigned name v ha
        have hclean := (h.document hdoc).2.1
        exact ⟨hclean, by simp [objectToString_iff.mpr hclean, hdoc]⟩
    · rintro ⟨hclean, hne⟩
      rw [objectToString_iff.mpr hclean] at hne
      obtain ⟨doc, hdoc⟩ := Option.ne_none_iff_exists'.mp hne
      obtain ⟨-, -, v, hv, hparse⟩ := h.document hdoc
      simp [bucketGet, objectToString_iff.mpr hclean, hdoc, hparse, hv, Outcome.ofOption]

lemma Simulates.assign (h : Simulates json s) (hi : arrayIndex name = none) (hclean : Clean name)
    (hv : Visible json (assign json s name value) name value) :
    Simulates json (assign json s name value) := by
  obtain ⟨doc, hdoc, hparse⟩ := hv
  simp only [BucketAlias.assign, hi, bucketSet, objectToString_iff.mpr hclean] at hdoc ⊢
  refine ⟨h.elements, fun key' doc' hdoc' => ?_, fun name' v hv => ?_⟩
  · by_cases hkey : key' = Wtf8.encode name
    · subst hkey
      rw [hdoc, Option.some.injEq] at hdoc'
      exact ⟨name, value, rfl, hi, hclean, Function.update_self .., hdoc' ▸ hparse⟩
    · rw [get_set_of_ne hkey] at hdoc'
      obtain ⟨name', v, rfl, hi', hclean', hv, hparse'⟩ := h.docs key' doc' hdoc'
      have hname' : name' ≠ name := fun he => hkey (he ▸ rfl)
      exact ⟨name', v, rfl, hi', hclean', (Function.update_of_ne hname' _ _).trans hv, hparse'⟩
  · by_cases hname' : name' = name
    · exact ⟨doc, hname' ▸ hdoc⟩
    · simp only [Function.update_of_ne hname'] at hv
      obtain ⟨doc', hdoc'⟩ := h.assigned name' v hv
      have hkey : Wtf8.encode name' ≠ Wtf8.encode name := fun he => hname' (Wtf8.encode_injective he)
      exact ⟨doc', (get_set_of_ne hkey).trans hdoc'⟩

lemma Simulates.remove (h : Simulates json s)
    (hc : arrayIndex name ≠ none ∨ Clean name ∨ get s.bucket (objectToString name) = none) :
    Simulates json (remove s name) := by
  cases hi : arrayIndex name with
  | some n =>
    simp only [BucketAlias.remove, hi]
    refine ⟨fun n' => ?_, fun key doc hdoc => ?_, fun name' v hv => ?_⟩
    · simp only [Function.update_apply, h.elements, ite_self]
    · obtain ⟨name', v, hkey, hindex, hclean, hv, hparse⟩ := h.docs key doc hdoc
      have hne : name' ≠ name := by
        rintro rfl
        simp [hindex] at hi
      exact ⟨name', v, hkey, hindex, hclean, (Function.update_of_ne hne _ _).trans hv, hparse⟩
    · by_cases hname : name' = name
      · simp [hname] at hv
      · simp only [Function.update_of_ne hname] at hv
        exact h.assigned name' v hv
  | none =>
    simp only [BucketAlias.remove, hi, bucketDelete]
    refine ⟨h.elements, fun key doc hdoc => ?_, fun name' v hv => ?_⟩
    · rw [get_delete_eq_some] at hdoc
      obtain ⟨name', v, rfl, hindex, hclean, hv, hparse⟩ := h.docs key doc hdoc.2
      have hne : name' ≠ name := by
        rintro rfl
        exact hdoc.1 (objectToString_iff.mpr hclean).symm
      exact ⟨name', v, rfl, hindex, hclean, (Function.update_of_ne hne _ _).trans hv, hparse⟩
    · by_cases hname : name' = name
      · simp [hname] at hv
      · simp only [Function.update_of_ne hname] at hv
        obtain ⟨doc, hdoc⟩ := h.assigned name' v hv
        refine ⟨doc, get_delete_eq_some.mpr ⟨fun hkey => ?_, hdoc⟩⟩
        -- The document removed is the one of `name`, or there is none.
        rcases hc with hc | hclean | hc
        · exact hc hi
        · rw [objectToString_iff.mpr hclean] at hkey
          exact hname (Wtf8.encode_injective hkey)
        · rw [hkey, hc] at hdoc
          contradiction

/-- The condition decides an operation, and what behaves as a map keeps the simulation. -/
theorem Simulates.step {op : Operation V} (h : Simulates json s)
    (hs : step json s op = some t) :
    (AsMap json s op t ↔ Plain json s op) ∧ (AsMap json s op t → Simulates json t) := by
  cases op with
  | assign name value =>
    rw [BucketAlias.step, Option.some.injEq] at hs
    subst hs
    refine ⟨h.assign_iff, fun hm => ?_⟩
    obtain ⟨hi, hclean, -⟩ := h.assign_iff.mp hm
    exact h.assign hi hclean hm.1
  | delete name =>
    rw [BucketAlias.step, Option.some.injEq] at hs
    subst hs
    exact ⟨othersKept_remove_iff, fun hm => h.remove (othersKept_remove_iff.mp hm)⟩
  | read name =>
    rw [BucketAlias.step, Option.some.injEq] at hs
    subst hs
    exact ⟨h.read_iff, fun _ => h⟩

end Decides

/-- Over every sequence of operations from an empty bucket, the alias behaves as a map
exactly when every operation is on a plain name, and reads find a document. -/
theorem asMap_along_iff (json : Json V) (ops : List (Operation V)) :
    Along (step json) (AsMap json) .initial ops ↔
      Along (step json) (fun s op _ => Plain json s op) .initial ops :=
  along_iff Simulates.initial (fun _ _ _ h hs => (h.step hs).1) (fun _ _ _ h hs => (h.step hs).2) ops

def boolJson : Json Bool where
  stringify v := encode (if v then "true".toList else "false".toList)
  parse s :=
    if s = encode "true".toList then some true
    else if s = encode "false".toList then some false
    else none
  parse_stringify v := by cases v <;> decide
  parse_nil := by decide
  nul_free v := by cases v <;> decide
  parse_replaced v h := absurd ⟨_, rfl⟩ h

/-- A name that is a surrogate without its partner. -/
def loneName : Units := [0xd800]

/-- `b[s] = true; b[s]; delete b[s]` with a surrogate without its partner. -/
theorem asMap_assignReadDelete : Along (step boolJson) (AsMap boolJson) .initial
    [.assign loneName true, .read loneName, .delete loneName] := by
  have hclean : Clean loneName := by
    rw [Clean]
    decide
  refine (asMap_along_iff boolJson _).mpr fun s hs => ⟨⟨by decide, hclean, _, rfl⟩, ?_⟩
  rw [step, Option.some.injEq] at hs
  subst hs
  refine fun t ht => ⟨.inr ⟨hclean, by decide⟩, ?_⟩
  exact fun u hu => ⟨.inr (.inl hclean), trivial⟩

/-- A name without a document is read. -/
theorem not_asMap_readAbsent :
    ¬ Along (step boolJson) (AsMap boolJson) .initial [.read (encode ['a'])] := by
  intro h
  have hr : read boolJson .initial (encode ['a']) = .undefined := (h _ rfl).1
  exact absurd hr (by decide)

end Eventing.BucketAlias
