import Eventing.JsonText
import Eventing.Terminated

/-!
# Documents of RapidJSON

What programs use of RapidJSON, and what it means for the values of a document to stand for JSON
values.
-/
namespace Eventing.RapidJson
open JsonText Terminated
open Utf16 (WellFormed)

mutual

/-- The strings have no lone surrogates, and the numerals are such as are read. -/
def Regular (numeral : Text → Prop) : Value → Prop
  | .number text => numeral text
  | .string s => WellFormed s
  | .array items => RegularItems numeral items
  | .object members => RegularMembers numeral members
  | .null | .bool _ => True

def RegularItems (numeral : Text → Prop) : List Value → Prop
  | [] => True
  | v :: vs => Regular numeral v ∧ RegularItems numeral vs

def RegularMembers (numeral : Text → Prop) : List (Utf16.Units × Value) → Prop
  | [] => True
  | p :: ps => WellFormed p.1 ∧ Regular numeral p.2 ∧ RegularMembers numeral ps

end

section Values

def find (key : Text) : Value → Option Value
  | .object members => (members.find? fun m => m.1 = Utf16.encode key).map Prod.snd
  | _ => none

def getString : Value → Option Text
  | .string s => some (cut '\x00' (Utf16.decode s))
  | _ => none

def getArray : Value → Option (List Value)
  | .array items => some items
  | _ => none

def isObject : Value → Bool
  | .object _ => true
  | _ => false

end Values

/-- `Document::Parse` of a C string, `operator[]`, `GetString` as a C string, the elements behind
`IsArray`, and `IsObject`. There is no result where an assertion fails. -/
structure Reader (δ : Type*) where
  parse : Text → Option δ
  find : Text → δ → Option δ
  getString : δ → Option Text
  getArray : δ → Option (List δ)
  isObject : δ → Bool

/-- The documents stand for the JSON values that they are read from. -/
structure Reader.StandsFor {δ : Type*} (reader : Reader δ) (value : δ → Value)
    (numeral : Text → Prop) : Prop where
  parse : ∀ text v, JsonText.parse text = some v → Regular numeral v →
    ∃ d, reader.parse text = some d ∧ value d = v
  find : ∀ key d, (reader.find key d).map value = RapidJson.find key (value d)
  getString : ∀ d, reader.getString d = RapidJson.getString (value d)
  getArray : ∀ d, (reader.getArray d).map (List.map value) = RapidJson.getArray (value d)
  isObject : ∀ d, reader.isObject d = RapidJson.isObject (value d)

def values : Reader Value := ⟨JsonText.parse, find, getString, getArray, isObject⟩

@[simp] lemma values_find : values.find = find := rfl

@[simp] lemma values_getString : values.getString = getString := rfl

lemma standsFor_values (numeral : Text → Prop) : values.StandsFor id numeral where
  parse _ v h _ := ⟨v, h, rfl⟩
  find _ _ := by simp [values]
  getString _ := rfl
  getArray _ := by simp [values]
  isObject _ := rfl

section Reading
variable {δ β : Type*} {reader : Reader δ} {value : δ → Value} {numeral : Text → Prop}

lemma Reader.StandsFor.find_bind (h : reader.StandsFor value numeral) {f : δ → Option β}
    {g : Value → Option β} (hfg : ∀ d, f d = g (value d)) (key : Text) (d : δ) :
    (reader.find key d).bind f = (RapidJson.find key (value d)).bind g := by
  rw [← h.find key d]
  cases reader.find key d with
  | none => rfl
  | some e => exact hfg e

lemma mapM_value {f : δ → Option β} {g : Value → Option β} (hfg : ∀ d, f d = g (value d))
    (ds : List δ) : ds.mapM f = (ds.map value).mapM g := by
  induction ds with
  | nil => rfl
  | cons d ds ih => rw [List.map_cons, List.mapM_cons, List.mapM_cons, hfg, ih]

end Reading

end Eventing.RapidJson
