import Eventing.HttpResponse
import Eventing.JsonWriter
import Eventing.MessageCodec
import Eventing.Routing

/-!
# An exchange with an HTTP handler

`handleJsRequests` (`http_handlers.go`) marshals a request and sends it to a worker; the worker
parses it for the handler function of the application, and what the function assigns to the
response comes back to the client (`SendHTTPGet` and `SendHTTPPost`, `worker.go` and
`worker.cc`).
-/
namespace Eventing.HttpExchange
open AssetEdits HttpTables JsonText OrderedMap Routing
open HttpResponse hiding escapes_escape
open MessageCodec (escape escapes_escape)
open Timer (cString cString_of_notMem)
open Utf8 (Bytes)

variable {V : Type*}

/-- The map of the first values, in the order of its keys. -/
def params (query : List (Text × Text)) : List (Text × Text) := ofList query.reverse

def marshalParams : Option (List (Text × Text)) → Text
  | none => Word.null.text
  | some m => writeObject escape (m.map fun p => (p.1, quote escape p.2))

def marshalRequest (path host : Text) (params : Option (List (Text × Text))) : Text :=
  writeObject escape [("path".toList, quote escape path), ("host".toList, quote escape host),
    ("params".toList, marshalParams params)]

/-- The argument of the handler function. -/
def jsonParse (request : Text) : Option Value := parse (cString request)

/-- `v[name]`, which the last member with this name has set. -/
def property (name : Text) : Value → Option Value
  | .object members => latest members (Utf16.encode name)
  | _ => none

/-- What the functions of an application assign to the response of a request. -/
structure Handlers (V : Type*) where
  onHTTPGet : Value → List (Assignment V)
  onHTTPPost : Value → List (Assignment V)

/-- What the function that a request is sent to is given, and what it makes of that. -/
def received (handlers : Handlers V) (r : Request) : Answer → Option (Value × List (Assignment V))
  | .sendHTTPGet _ request =>
      (jsonParse (marshalRequest request.path request.host none)).map fun v => (v, handlers.onHTTPGet v)
  | .sendHTTPPost _ request =>
      (jsonParse (marshalRequest request.path request.host (some (params r.query)))).map fun v =>
        (v, handlers.onHTTPPost v)
  | _ => none

def newline : UInt8 := 0x0a

/-- The answer that a client gets, when the worker has served other calls before. The text of the
response is in a buffer that is gone when `SendHTTPGet` returns, and `goString` copies what the
memory of the buffer holds then. -/
def exchange (js : Stringify V) (goString : Bytes → Bytes) (handlers : Handlers V)
    (history : List (Call V)) (s : Tables) (r : Request) : Option Bytes :=
  (handleJsRequests s r).bind fun answer => (received handlers r answer).map fun p =>
    goString (response js history p.2) ++ [newline]

lemma get_params (r : Request) (k : Text) : get k (params r.query) = r.urlValues k := by
  rw [params, get_ofList, Request.urlValues]
  induction r.query with
  | nil => rfl
  | cons p query ih =>
    rw [List.reverse_cons, latest_concat, Function.update_apply, ih, List.find?_cons]
    by_cases hk : p.1 = k
    · simp [hk]
    · simp [hk, Ne.symm hk]

def paramsJson : Option (List (Text × Text)) → Value
  | none => .null
  | some m => .object (m.map fun p => (Utf16.encode p.1, .string (Utf16.encode p.2)))

lemma parse_marshalParams (params : Option (List (Text × Text))) :
    parse (marshalParams params) = some (paramsJson params) := by
  cases params with
  | none => rfl
  | some m =>
    apply parse_writeObject escapes_escape
    induction m with
    | nil => rfl
    | cons p m ih =>
      rw [readMembers] at ih ⊢
      rw [List.map_cons, List.mapM_cons, ih, parse_quote escapes_escape]
      rfl

def requestJson (path host : Text) (params : Option (List (Text × Text))) : Value :=
  .object [(Utf16.encode "path".toList, .string (Utf16.encode path)),
    (Utf16.encode "host".toList, .string (Utf16.encode host)),
    (Utf16.encode "params".toList, paramsJson params)]

lemma jsonParse_marshalRequest (path host : Text) (params : Option (List (Text × Text))) :
    jsonParse (marshalRequest path host params) = some (requestJson path host params) := by
  have hparse : parse (marshalRequest path host params) = some (requestJson path host params) := by
    apply parse_writeObject escapes_escape
    simp only [readMembers, List.mapM_cons, List.mapM_nil, parse_quote escapes_escape,
      parse_marshalParams]
    rfl
  rw [jsonParse, cString_of_notMem (nul_notMem_of_parse hparse), hparse]

section
variable (path host : Text) (params : Option (List (Text × Text)))

lemma property_path :
    property "path".toList (requestJson path host params) = some (.string (Utf16.encode path)) := by
  simp [property, requestJson, latest, Utf16.encode_injective.eq_iff]

lemma property_host :
    property "host".toList (requestJson path host params) = some (.string (Utf16.encode host)) := by
  simp [property, requestJson, latest, Utf16.encode_injective.eq_iff]

lemma property_params :
    property "params".toList (requestJson path host params) = some (paramsJson params) := by
  simp [property, requestJson, latest]

end

lemma property_paramsJson (r : Request) (k : Text) :
    property k (paramsJson (some (params r.query))) =
      (r.urlValues k).map fun value => .string (Utf16.encode value) := by
  have hlatest : property k (paramsJson (some (params r.query))) =
      (latest (params r.query) k).map fun value => .string (Utf16.encode value) :=
    latest_map_key Utf16.encode_injective (fun value => Value.string (Utf16.encode value))
      (params r.query) k
  have hsorted : Sorted (params r.query) := sorted_ofList _
  rw [hlatest, hsorted.latest_eq, get_params]

lemma latest_readMembers {m : List (Text × Text)} {members : Members}
    (h : readMembers m = some members) (k : Text) :
    latest members (Utf16.encode k) = (latest m k).bind parse := by
  induction m using List.reverseRecOn generalizing members with
  | nil =>
    obtain rfl := Option.some.inj h
    rfl
  | append_singleton m e ih =>
    rw [readMembers, List.mapM_append] at h
    obtain ⟨ms, hms, h⟩ := Option.bind_eq_some_iff.mp h
    obtain ⟨last, hlast, h⟩ := Option.bind_eq_some_iff.mp h
    obtain rfl := Option.some.inj h
    obtain ⟨v, rest, hv, hrest, rfl⟩ := readMembers_cons hlast
    obtain rfl : [] = rest := Option.some.inj hrest
    rw [latest_concat, latest_concat, Function.update_apply, Function.update_apply, ih hms]
    simp only [Utf16.encode_injective.eq_iff]
    split_ifs
    · exact hv.symm
    · rfl

/-- What a response gives for a key is the JSON value last assigned to it. -/
lemma exists_members {js : Stringify V} {assignments : List (Assignment V)}
    (h : Writable js assignments) (history : List (Call V)) :
    ∃ text members, response js history assignments = Utf8.encode text ∧
      parse text = some (.object members) ∧
      ∀ k, property k (.object members) = (latest (keyed assignments) (Utf8.encode k)).bind fun v =>
        (js.text v).bind fun s => parse (Utf16.decode s) := by
  obtain ⟨m, hm, hvalues⟩ := h.exists_texts
  obtain ⟨members, hmembers⟩ := exists_readMembers hvalues
  refine ⟨_, members, response_eq_encode hm history,
    parse_writeObject HttpResponse.escapes_escape hmembers, fun k => ?_⟩
  have hentries : (latest m k).map Utf8.encode =
      (latest (keyed assignments) (Utf8.encode k)).map (toString js) := by
    rw [← latest_map_key Utf8.encode_injective, ← hm, assignAll_eq, (sorted_ofList _).latest_eq,
      get_ofList, latest_map]
  rw [property, latest_readMembers hmembers]
  cases hv : latest (keyed assignments) (Utf8.encode k) with
  | none =>
    rw [hv, Option.map_none, Option.map_eq_none_iff] at hentries
    rw [hentries]
    rfl
  | some v =>
    rw [hv, Option.map_some] at hentries
    obtain ⟨text, htext, ht⟩ := Option.map_eq_some_iff.mp hentries
    obtain ⟨s, hs, hw⟩ := h.values _ v hv
    rw [toString_of_text hs] at ht
    rw [htext, Option.bind_some, Option.bind_some, hs, Option.bind_some,
      Wtf8.encode_eq_iff.mp ht.symm, Utf16.decode_encode]

lemma encode_newline (text : Text) : Utf8.encode (text ++ ['\n']) = Utf8.encode text ++ [newline] :=
  Utf8.encode_append text ['\n']

lemma exists_read {js : Stringify V} {assignments : List (Assignment V)}
    {goString : Bytes → Bytes} (hcopy : ∀ bytes, 0 ∉ bytes → goString bytes = bytes)
    (h : Writable js assignments) (history : List (Call V)) :
    ∃ text members, goString (response js history assignments) ++ [newline] = Utf8.encode text ∧
      parse text = some (.object members) ∧
      ∀ k, property k (.object members) = (latest (keyed assignments) (Utf8.encode k)).bind fun v =>
        (js.text v).bind fun s => parse (Utf16.decode s) := by
  obtain ⟨text, members, htext, hparse, hmembers⟩ := exists_members h history
  refine ⟨text ++ ['\n'], members, ?_, parse_concat_newline hparse, hmembers⟩
  rw [htext, hcopy _ (Utf8.zero_notMem_encode (nul_notMem_of_parse hparse)), encode_newline]

def Handlers.function (handlers : Handlers V) (r : Request) : Value → List (Assignment V) :=
  if r.method = "GET".toList then handlers.onHTTPGet else handlers.onHTTPPost

/-- A `GET` or `POST` that reaches a worker is answered by the function for its method, on a
value that has the path segment, the host and, of a `POST`, the first value of each parameter.
When the text of the response outlives its buffer and is one JSON object, the client reads in it
the JSON value last assigned to each key. -/
theorem exchange_reads (js : Stringify V) (goString : Bytes → Bytes) (handlers : Handlers V)
    (history : List (Call V)) (s : Tables) (r : Request) (path : Text) (handle : ℕ)
    (hpath : (r.path.splitOn '/')[2]? = some path) (hhandle : s.referrers.fwd r.host = some handle)
    (hmethod : r.method = "GET".toList ∨ r.method = "POST".toList) :
    ∃ v bytes, exchange js goString handlers history s r = some bytes ∧
      property "path".toList v = some (.string (Utf16.encode path)) ∧
      property "host".toList v = some (.string (Utf16.encode r.urlHost)) ∧
      (r.method = "GET".toList → property "params".toList v = some .null) ∧
      (r.method = "POST".toList → ∀ k, (property "params".toList v).bind (property k) =
        (r.urlValues k).map fun value => .string (Utf16.encode value)) ∧
      ((∀ b, 0 ∉ b → goString b = b) → Writable js (handlers.function r v) →
        ∃ text members, bytes = Utf8.encode text ∧ parse text = some (.object members) ∧
          ∀ k, property k (.object members) =
            (latest (keyed (handlers.function r v)) (Utf8.encode k)).bind fun v =>
              (js.text v).bind fun s => parse (Utf16.decode s)) := by
  rcases hmethod with hget | hpost
  · have hanswer : handleJsRequests s r =
        some (.sendHTTPGet handle ⟨path, r.urlHost, fun _ => none⟩) := by
      simp [handleJsRequests, hget, hpath, hhandle]
    have hexchange : exchange js goString handlers history s r = some (goString (response js history
        (handlers.function r (requestJson path r.urlHost none))) ++ [newline]) := by
      rw [exchange, hanswer, Option.bind_some, received, jsonParse_marshalRequest, Handlers.function,
        if_pos hget]
      rfl
    refine ⟨_, _, hexchange, property_path _ _ _, property_host _ _ _, fun _ => property_params _ _ _,
      ?_, fun hcopy hwritable => exists_read hcopy hwritable history⟩
    intro hpost
    rw [hget] at hpost
    exact absurd hpost (by decide)
  · have hget : r.method ≠ "GET".toList := by
      rw [hpost]
      decide
    have hanswer : handleJsRequests s r =
        some (.sendHTTPPost handle ⟨path, r.urlHost, r.urlValues⟩) := by
      simp [handleJsRequests, hpost, hpath, hhandle]
    have hexchange : exchange js goString handlers history s r = some (goString (response js history
        (handlers.function r (requestJson path r.urlHost (some (params r.query))))) ++
          [newline]) := by
      rw [exchange, hanswer, Option.bind_some, received, jsonParse_marshalRequest, Handlers.function,
        if_neg hget]
      rfl
    refine ⟨_, _, hexchange, property_path _ _ _, property_host _ _ _, fun h => absurd h hget, ?_,
      fun hcopy hwritable => exists_read hcopy hwritable history⟩
    intro _ k
    rw [property_params, Option.bind_some]
    exact property_paramsJson r k

/-- A function that answers when the request has a parameter `id`. -/
def idHandlers : Handlers (Option Bool) where
  onHTTPGet _ := []
  onHTTPPost v :=
    [(.string (Utf16.encode "ok".toList),
      some ((property "params".toList v).bind (property "id".toList)).isSome)]

def idRequest : Request where
  method := "POST".toList
  requestURI := "/p/i?id=7".toList
  path := "/p/i".toList
  host := "localhost:80".toList
  urlHost := []
  query := [("id".toList, "7".toList)]

theorem exchange_reads_idRequest : ∃ v bytes,
    exchange stringifyBool id idHandlers [] soleTables idRequest = some bytes ∧
    (property "params".toList v).bind (property "id".toList) = some (.string (Utf16.encode "7".toList)) := by
  obtain ⟨v, bytes, hexchange, -, -, -, hparams, -⟩ := exchange_reads stringifyBool id idHandlers []
    soleTables idRequest "i".toList 0 rfl rfl (.inr rfl)
  exact ⟨v, bytes, hexchange, hparams rfl "id".toList⟩

end Eventing.HttpExchange
