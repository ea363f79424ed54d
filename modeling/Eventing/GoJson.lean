import Mathlib.Data.Char
import Mathlib.Data.List.Lex
import Eventing.JsonWriter
import Eventing.MessageCodec
import Eventing.OrderedMap

/-!
# JSON values in Go

`encoding/json` reads a JSON value into an `interface{}` and writes it again: objects are maps,
which are written in the order of their keys, and numbers are `float64`. A string that comes
from JSON is valid UTF-8, so it stands as its text.
-/
namespace Eventing.GoJson
open JsonText MessageCodec OrderedMap

/-- What is used of `float64`: a finite number is written as a JSON number that is read as the
same one; a number out of range is not read. -/
structure Floats (F : Type*) where
  format : F → Text
  read : Text → Option F
  parse_format : ∀ x, parse (format x) = some (.number (format x))
  read_format : ∀ x, read (format x) = some x

/-- An `interface{}`; a map stands as its entries in the order of the keys. -/
inductive Interface (F : Type*)
  | null
  | bool (b : Bool)
  | number (x : F)
  | string (s : Text)
  | array (items : List (Interface F))
  | object (members : List (Text × Interface F))

abbrev GoMap (F : Type*) := List (Text × Interface F)

variable {F : Type*}

section Codec
variable (floats : Floats F)

mutual

def marshal : Interface F → Text
  | .null => Word.null.text
  | .bool b => if b then Word.true.text else Word.false.text
  | .number x => floats.format x
  | .string s => quote escape s
  | .array items => writeArray (marshalItems items)
  | .object members => writeObject escape (marshalMembers members)

def marshalItems : List (Interface F) → List Text
  | [] => []
  | v :: vs => marshal v :: marshalItems vs

def marshalMembers : List (Text × Interface F) → List (Text × Text)
  | [] => []
  | p :: ps => (p.1, marshal p.2) :: marshalMembers ps

end

mutual

/-- `json.Unmarshal` into an `interface{}`, which is an error when a number is out of range. -/
def unmarshal : Value → Option (Interface F)
  | .null => some .null
  | .bool b => some (.bool b)
  | .number text => (floats.read text).map .number
  | .string s => some (.string (Utf16.decode s))
  | .array items => (unmarshalItems items).map .array
  | .object members => (unmarshalMembers members).map fun ms => .object (ofList ms)

def unmarshalItems : List Value → Option (List (Interface F))
  | [] => some []
  | v :: vs => (unmarshal v).bind fun x => (unmarshalItems vs).map (x :: ·)

def unmarshalMembers : List (Utf16.Units × Value) → Option (List (Text × Interface F))
  | [] => some []
  | p :: ps => (unmarshal p.2).bind fun x =>
      (unmarshalMembers ps).map ((Utf16.decode p.1, x) :: ·)

end

mutual

def toJson : Interface F → Value
  | .null => .null
  | .bool b => .bool b
  | .number x => .number (floats.format x)
  | .string s => .string (Utf16.encode s)
  | .array items => .array (toItems items)
  | .object members => .object (toMembers members)

def toItems : List (Interface F) → List Value
  | [] => []
  | v :: vs => toJson v :: toItems vs

def toMembers : List (Text × Interface F) → List (Utf16.Units × Value)
  | [] => []
  | p :: ps => (Utf16.encode p.1, toJson p.2) :: toMembers ps

end

end Codec

mutual

/-- The entries of all maps are in the order of their keys. -/
def Canonical : Interface F → Prop
  | .array items => CanonicalItems items
  | .object members => Sorted members ∧ CanonicalMembers members
  | .null | .bool _ | .number _ | .string _ => True

def CanonicalItems : List (Interface F) → Prop
  | [] => True
  | v :: vs => Canonical v ∧ CanonicalItems vs

def CanonicalMembers : List (Text × Interface F) → Prop
  | [] => True
  | p :: ps => Canonical p.2 ∧ CanonicalMembers ps

end

section RoundTrip
variable (floats : Floats F)

mutual

theorem parse_marshal : ∀ g : Interface F, parse (marshal floats g) = some (toJson floats g)
  | .null => rfl
  | .bool true => rfl
  | .bool false => rfl
  | .number x => floats.parse_format x
  | .string s => parse_quote escapes_escape s
  | .array items => by
      rw [marshal, parse_writeArray (parse_marshalItems items), toJson]
  | .object members => by
      rw [marshal, parse_writeObject escapes_escape (readMembers_marshalMembers members), toJson]

theorem parse_marshalItems : ∀ items : List (Interface F),
    (marshalItems floats items).mapM parse = some (toItems floats items)
  | [] => rfl
  | v :: vs => by
      rw [marshalItems, List.mapM_cons, parse_marshal v, parse_marshalItems vs]
      rfl

theorem readMembers_marshalMembers : ∀ ms : List (Text × Interface F),
    readMembers (marshalMembers floats ms) = some (toMembers floats ms)
  | [] => rfl
  | p :: ps => by
      have hps := readMembers_marshalMembers ps
      rw [readMembers] at hps
      rw [marshalMembers, readMembers, List.mapM_cons, hps, parse_marshal p.2]
      rfl

end

mutual

theorem unmarshal_toJson : ∀ g : Interface F, Canonical g → unmarshal floats (toJson floats g) = some g
  | .null, _ => rfl
  | .bool _, _ => rfl
  | .number x, _ => by rw [toJson, unmarshal, floats.read_format, Option.map_some]
  | .string s, _ => by rw [toJson, unmarshal, Utf16.decode_encode]
  | .array items, h => by
      rw [toJson, unmarshal, unmarshalItems_toItems items h, Option.map_some]
  | .object members, h => by
      rw [toJson, unmarshal, unmarshalMembers_toMembers members h.2, Option.map_some, h.1.ofList_eq]

theorem unmarshalItems_toItems : ∀ items : List (Interface F), CanonicalItems items →
    unmarshalItems floats (toItems floats items) = some items
  | [], _ => rfl
  | v :: vs, h => by
      rw [toItems, unmarshalItems, unmarshal_toJson v h.1, Option.bind_some,
        unmarshalItems_toItems vs h.2, Option.map_some]

theorem unmarshalMembers_toMembers : ∀ ms : List (Text × Interface F), CanonicalMembers ms →
    unmarshalMembers floats (toMembers floats ms) = some ms
  | [], _ => rfl
  | p :: ps, h => by
      rw [toMembers, unmarshalMembers, unmarshal_toJson p.2 h.1, Option.bind_some,
        unmarshalMembers_toMembers ps h.2, Option.map_some, Utf16.decode_encode]

end

end RoundTrip

variable {floats : Floats F}

lemma canonicalMembers_iff {ms : List (Text × Interface F)} :
    CanonicalMembers ms ↔ ∀ p ∈ ms, Canonical p.2 := by
  induction ms with
  | nil => simp [CanonicalMembers]
  | cons p ps ih => simp [CanonicalMembers, ih]

mutual

theorem canonical_unmarshal : ∀ (v : Value) (g : Interface F), unmarshal floats v = some g → Canonical g
  | .null, g, h => by
      obtain rfl := Option.some.inj h
      trivial
  | .bool _, g, h => by
      obtain rfl := Option.some.inj h
      trivial
  | .number _, g, h => by
      obtain ⟨x, -, rfl⟩ := Option.map_eq_some_iff.mp h
      trivial
  | .string _, g, h => by
      obtain rfl := Option.some.inj h
      trivial
  | .array items, g, h => by
      obtain ⟨gs, hgs, rfl⟩ := Option.map_eq_some_iff.mp h
      exact canonicalItems_unmarshal items gs hgs
  | .object members, g, h => by
      obtain ⟨ms, hms, rfl⟩ := Option.map_eq_some_iff.mp h
      have hall := canonicalMembers_iff.mp (canonicalMembers_unmarshal members ms hms)
      exact ⟨sorted_ofList ms, canonicalMembers_iff.mpr fun p hp => hall p (mem_of_mem_ofList hp)⟩

theorem canonicalItems_unmarshal : ∀ (vs : List Value) (gs : List (Interface F)),
    unmarshalItems floats vs = some gs → CanonicalItems gs
  | [], gs, h => by
      obtain rfl := Option.some.inj h
      trivial
  | v :: vs, gs, h => by
      obtain ⟨x, hx, h⟩ := Option.bind_eq_some_iff.mp h
      obtain ⟨xs, hxs, rfl⟩ := Option.map_eq_some_iff.mp h
      exact ⟨canonical_unmarshal v x hx, canonicalItems_unmarshal vs xs hxs⟩

theorem canonicalMembers_unmarshal : ∀ (ps : List (Utf16.Units × Value))
    (ms : List (Text × Interface F)), unmarshalMembers floats ps = some ms → CanonicalMembers ms
  | [], ms, h => by
      obtain rfl := Option.some.inj h
      trivial
  | p :: ps, ms, h => by
      obtain ⟨x, hx, h⟩ := Option.bind_eq_some_iff.mp h
      obtain ⟨xs, hxs, rfl⟩ := Option.map_eq_some_iff.mp h
      exact ⟨canonical_unmarshal p.2 x hx, canonicalMembers_unmarshal ps xs hxs⟩

end

end Eventing.GoJson
