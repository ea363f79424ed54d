import Mathlib.Tactic.IntervalCases
import Eventing.CasMarker
import Eventing.TimerJson
import Eventing.Utf8

/-!
# What a handler gets of a mutation

`handleDcpEvent` (`v8_worker.go`) passes key and value of a mutation to `SendUpdate`
(`worker.go`, `worker.cc`), which hands them to `OnUpdate` as a document and an object with
the key. On the way bytes become Go strings, C strings and V8 strings. What the code
relies on of V8 and of `json.Marshal` is a `Runtime`.
-/
namespace Eventing.SendUpdate
open CasMarker Decimal Utf8

variable {D : Type*}

structure Mutation where
  key : Bytes
  value : Bytes
  flags : UInt32
  cas : Cas
  expiry : UInt32

def jsonType : UInt32 := 0x2000000

/-- `eventMeta`, with the key as `json.Marshal` writes it. -/
structure EventMeta where
  key : Text
  type : Text
  cas : Text
  expiry : Text
  deriving DecidableEq

/-- The third argument of `SendUpdate`, `"json"` or `"non-json"`. -/
inductive DocType
  | json
  | nonJson
  deriving DecidableEq

/-- `parse` is `v8::JSON::Parse`, with no value for a text that is not JSON, and `keyOf` reads
the property `key` of a value. No JSON text has a NUL in it. -/
structure Runtime (D : Type*) where
  newFromUtf8 : Bytes → Text
  parse : Text → Option D
  marshal : EventMeta → Text
  keyOf : D → Option Text
  newFromUtf8_encode : ∀ t, newFromUtf8 (encode t) = t
  parse_nul : ∀ t, '\x00' ∈ t → parse t = none
  parse_marshal : ∀ m, ∃ d, parse (marshal m) = some d ∧ keyOf d = some m.key

/-- A first argument of `OnUpdate`. -/
inductive Arg (D : Type*)
  | document (d : D)
  | string (t : Text)

/-- The arguments of the call of `OnUpdate`, where there is one, and whether an error is
returned, where `SendUpdate` returns. -/
structure Sent (D : Type*) where
  call : Option (Arg D × D)
  error : Option Bool

/-- What C code sees of the copy that `C.CString` makes. -/
def cString (b : Bytes) : Bytes := Terminated.cut 0 b

def docArg (rt : Runtime D) (type : DocType) (value : Bytes) : Option (Arg D) :=
  match type with
  | .json => (rt.parse (rt.newFromUtf8 (cString value))).map .document
  | .nonJson => some (.string (rt.newFromUtf8 (cString value)))

def metaArg (rt : Runtime D) (m : Bytes) : Option D := rt.parse (rt.newFromUtf8 (cString m))

/-- `throws` says for which arguments `OnUpdate` throws. -/
def sendUpdate (rt : Runtime D) (throws : Arg D → D → Bool) (value m : Bytes) (type : DocType) :
    Sent D :=
  match docArg rt type value, metaArg rt m with
  | some doc, some object => ⟨some (doc, object), some (throws doc object)⟩
  -- The exception is logged, and `Function::Call` reads the empty handle: the process ends.
  | _, _ => ⟨none, none⟩

def Mutation.docType (e : Mutation) : DocType := if e.flags = jsonType then .json else .nonJson

def Mutation.eventMeta (e : Mutation) : EventMeta where
  key := decode e.key
  type := if e.flags = jsonType then "json".toList else "base64".toList
  cas := Nat.toDigits 16 e.cas.toNat
  expiry := decimal e.expiry.toNat

/-- `handleDcpEvent` for a mutation that is not suppressed. -/
def handleDcpEvent (rt : Runtime D) (throws : Arg D → D → Bool) (e : Mutation) : Sent D :=
  sendUpdate rt throws e.value (encode (rt.marshal e.eventMeta)) e.docType

def ValidJson (rt : Runtime D) (value : Bytes) : Prop :=
  ∃ text d, value = encode text ∧ rt.parse text = some d

/-- The argument is the JSON document, where the flags say JSON and the value is a JSON
text; otherwise no other value gives it. -/
def DocDetermines (rt : Runtime D) (e : Mutation) (arg : Arg D) : Prop :=
  (∀ text d, e.flags = jsonType → e.value = encode text → rt.parse text = some d →
    arg = .document d) ∧
  (¬ (e.flags = jsonType ∧ ValidJson rt e.value) →
    ∀ value, docArg rt e.docType value = some arg → value = e.value)

/-- No mutation with another key gives this one in its second argument. -/
def KeyDetermines (rt : Runtime D) (e : Mutation) (key : Text) : Prop :=
  ∀ e' : Mutation, (metaArg rt (encode (rt.marshal e'.eventMeta))).bind rt.keyOf = some key →
    e'.key = e.key

/-- `OnUpdate` is called with two arguments that determine the mutation, or it is not called
and an error is returned. -/
def Faithful (rt : Runtime D) (throws : Arg D → D → Bool) (e : Mutation) : Prop :=
  match (handleDcpEvent rt throws e).call with
  | some (doc, object) => ∃ key, rt.keyOf object = some key ∧ DocDetermines rt e doc ∧
      KeyDetermines rt e key
  | none => (handleDcpEvent rt throws e).error = some true

section
variable {rt : Runtime D} {throws : Arg D → D → Bool} {e : Mutation} {t : Text}

lemma cString_of_notMem {b : Bytes} (h : 0 ∉ b) : cString b = b := Terminated.cut_of_notMem h

lemma cString_encode (h : '\x00' ∉ t) : cString (encode t) = encode t :=
  cString_of_notMem (zero_notMem_encode h)

lemma nul_notMem_of_parse {d : D} (h : rt.parse t = some d) : '\x00' ∉ t := by
  intro hm
  simp [rt.parse_nul t hm] at h

lemma metaArg_eventMeta (rt : Runtime D) (e : Mutation) :
    ∃ d, metaArg rt (encode (rt.marshal e.eventMeta)) = some d ∧ rt.keyOf d = some (decode e.key) := by
  obtain ⟨d, hd, hkey⟩ := rt.parse_marshal e.eventMeta
  refine ⟨d, ?_, hkey⟩
  rw [metaArg, cString_encode (nul_notMem_of_parse hd), rt.newFromUtf8_encode, hd]

lemma keyDetermines_iff : KeyDetermines rt e (decode e.key) ↔
    ∃ key, replacement ∉ key ∧ e.key = encode key := by
  rw [← decode_determines_iff]
  constructor
  · intro h key hkey
    obtain ⟨d, hd, hk⟩ := metaArg_eventMeta rt { e with key := key }
    exact h { e with key := key } (by rw [hd, Option.bind_some, hk, hkey])
  · intro h e' he'
    obtain ⟨d, hd, hk⟩ := metaArg_eventMeta rt e'
    rw [hd, Option.bind_some, hk, Option.some.injEq] at he'
    exact h e'.key he'

lemma docArg_append_nul (type : DocType) (value : Bytes) :
    docArg rt type (value ++ [0]) = docArg rt type value := by
  cases type <;> simp [docArg, cString, Terminated.cut_append_self]

/-- A value that is no JSON document is passed on like the same value with a NUL after it,
so no argument determines it. -/
lemma not_docDetermines {arg : Arg D} (hdoc : docArg rt e.docType e.value = some arg)
    (hno : ¬ (e.flags = jsonType ∧ ValidJson rt e.value)) : ¬ DocDetermines rt e arg := by
  intro h
  have hvalue := h.2 hno (e.value ++ [0]) ((docArg_append_nul _ _).trans hdoc)
  simp at hvalue

lemma docArg_validJson {d : D} (hf : e.flags = jsonType) (hv : e.value = encode t)
    (hp : rt.parse t = some d) : docArg rt e.docType e.value = some (.document d) := by
  rw [Mutation.docType, if_pos hf, docArg, hv, cString_encode (nul_notMem_of_parse hp),
    rt.newFromUtf8_encode, hp, Option.map_some]

lemma docDetermines_validJson {d : D} (hf : e.flags = jsonType) (hv : e.value = encode t)
    (hp : rt.parse t = some d) : DocDetermines rt e (.document d) := by
  refine ⟨fun t' d' _ hv' hp' => ?_, fun hno => ?_⟩
  · rw [encode_injective (hv.symm.trans hv'), hp', Option.some.injEq] at hp
    rw [hp]
  · exact absurd ⟨hf, t, d, hv, hp⟩ hno

/-- An argument that cannot be made reaches nobody, and no error is returned. -/
lemma not_faithful_of_docArg (hdoc : docArg rt e.docType e.value = none) :
    ¬ Faithful rt throws e := by
  simp [Faithful, handleDcpEvent, sendUpdate, hdoc]

lemma faithful_of_docArg {arg : Arg D} (hdoc : docArg rt e.docType e.value = some arg) :
    Faithful rt throws e ↔ DocDetermines rt e arg ∧ KeyDetermines rt e (decode e.key) := by
  obtain ⟨d, hd, hk⟩ := metaArg_eventMeta rt e
  simp [Faithful, handleDcpEvent, sendUpdate, hdoc, hd, hk]

/-- For every mutation: it reaches the handler faithfully exactly when the flags say JSON,
the value is a JSON text, and the key is UTF-8 without the replacement character. -/
theorem faithful_iff (rt : Runtime D) (throws : Arg D → D → Bool) (e : Mutation) :
    Faithful rt throws e ↔ e.flags = jsonType ∧ ValidJson rt e.value ∧
      ∃ key, replacement ∉ key ∧ e.key = encode key := by
  constructor
  · intro h
    cases hdoc : docArg rt e.docType e.value with
    | none => exact absurd h (not_faithful_of_docArg hdoc)
    | some arg =>
      obtain ⟨hdet, hkey⟩ := (faithful_of_docArg hdoc).mp h
      have hvalid : e.flags = jsonType ∧ ValidJson rt e.value := by
        by_contra hno
        exact not_docDetermines hdoc hno hdet
      exact ⟨hvalid.1, hvalid.2, keyDetermines_iff.mp hkey⟩
  · rintro ⟨hf, ⟨text, j, hv, hp⟩, hkey⟩
    have hdoc := docArg_validJson hf hv hp
    exact (faithful_of_docArg hdoc).mpr
      ⟨docDetermines_validJson hf hv hp, keyDetermines_iff.mpr hkey⟩

end

def openKey : Text := "\x7b\"key\":\"".toList
def openType : Text := ",\"type\":\"".toList
def openCas : Text := ",\"cas\":\"".toList
def openExpiry : Text := ",\"expiry\":\"".toList

def readMeta (s : Text) : Option EventMeta := do
  let s ← Timer.expect openKey s
  let (key, s) ← Timer.readString s
  let s ← Timer.expect openType s
  let (type, s) ← Timer.readString s
  let s ← Timer.expect openCas s
  let (cas, s) ← Timer.readString s
  let s ← Timer.expect openExpiry s
  let (expiry, s) ← Timer.readString s
  if s = Timer.close then some ⟨key, type, cas, expiry⟩ else none

def writeMeta (m : EventMeta) : Text :=
  openKey ++ (Timer.writeString m.key ++ (openType ++ (Timer.writeString m.type ++
    (openCas ++ (Timer.writeString m.cas ++ (openExpiry ++ (Timer.writeString m.expiry ++
      Timer.close)))))))

lemma nul_notMem_escape (c : Char) : '\x00' ∉ Timer.escape c := by
  by_cases hq : c = '"' ∨ c = '\\'
  · rcases hq with rfl | rfl <;> decide
  by_cases hc : c.toNat < 32
  · have hcn : c = Char.ofNat c.toNat := (Char.ofNat_toNat c).symm
    generalize c.toNat = n at hc hcn
    subst hcn
    interval_cases n <;> decide
  · have hesc : Timer.escape c = [c] := by
      unfold Timer.escape
      rw [if_neg hq]
      split <;> first | omega | rw [if_neg hc]
    rw [hesc, List.mem_singleton]
    rintro rfl
    exact hc (by decide)

lemma nul_notMem_writeString (t : Text) : '\x00' ∉ Timer.writeString t := by
  simp [Timer.writeString, nul_notMem_escape]

lemma nul_notMem_writeMeta (m : EventMeta) : '\x00' ∉ writeMeta m := by
  have hliteral : '\x00' ∉ openKey ++ (openType ++ (openCas ++ (openExpiry ++ Timer.close))) := by
    decide
  simp only [List.mem_append, not_or] at hliteral
  simp only [writeMeta, List.mem_append, nul_notMem_writeString, not_or, not_false_eq_true,
    true_and]
  exact hliteral

/-- A runtime in which the objects of `eventMeta` are the only JSON documents. -/
def compactRuntime : Runtime EventMeta where
  newFromUtf8 := decode
  parse t := if '\x00' ∈ t then none else readMeta t
  marshal := writeMeta
  keyOf m := some m.key
  newFromUtf8_encode := decode_encode
  parse_nul t h := if_pos h
  parse_marshal m := ⟨m, by rw [if_neg (nul_notMem_writeMeta m)]; simp [readMeta, writeMeta], rfl⟩

/-- A value that is not JSON, under flags that say it is. -/
def badJson : Mutation := ⟨[97], [123], jsonType, 1, 0⟩

/-- The process ends in the call of `OnUpdate`. -/
theorem not_faithful_badJson : ¬ Faithful compactRuntime (fun _ _ => false) badJson := by
  have hvalue : badJson.value = encode ['\x7b'] := by decide
  have hdoc : docArg compactRuntime badJson.docType badJson.value = none := by
    rw [hvalue]
    have hcut : cString (encode ['\x7b']) = encode ['\x7b'] := cString_encode (by decide)
    simp only [Mutation.docType, badJson, if_pos, docArg, hcut, compactRuntime, decode_encode]
    decide
  exact not_faithful_of_docArg hdoc

end Eventing.SendUpdate
