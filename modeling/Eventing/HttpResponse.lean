import Mathlib.Data.Char
import Mathlib.Data.List.Lex
import Eventing.BucketAlias
import Eventing.JsonBytes
import Eventing.OrderedMap
import Eventing.TimerJson

/-!
# Responses to HTTP requests

A handler answers a request by assignments to properties of `res.body`. `HTTPBodySet`
(`http_response.cc`) enters them in the one map of the worker, as JSON texts, and
`SendHTTPGet` and `SendHTTPPost` (`worker.cc`) return the map as one JSON object. Keys, values
and the response are bytes.
-/
namespace Eventing.HttpResponse
open Decimal JsonText OrderedMap Terminated
open BucketAlias (arrayIndex objectToString objectToString_eq)
open Utf8 (Bytes Valid)
open Utf16 (WellFormed)

variable {V : Type*}

instance byteOrder : LinearOrder UInt8 where
  le_refl a := by simp
  le_trans a b c := by
    simp only [UInt8.le_iff_toNat_le]
    omega
  lt_iff_le_not_ge a b := by
    simp only [UInt8.lt_iff_toNat_lt, UInt8.le_iff_toNat_le]
    omega
  le_antisymm a b := by
    simp only [UInt8.le_iff_toNat_le, ← UInt8.toNat_inj]
    omega
  le_total a b := by
    simp only [UInt8.le_iff_toNat_le]
    omega
  toDecidableLE := inferInstance

inductive Name
  | symbol (id : ℕ)
  | string (s : Utf16.Units)
  deriving DecidableEq

/-- `JSON.stringify`, which gives `undefined` for some values. -/
structure Stringify (V : Type*) where
  text : V → Option Utf16.Units
  valid : ∀ v s, text v = some s → ∃ json, parse (Utf16.decode s) = some json

/-- `res.body[name] = value` -/
abbrev Assignment (V : Type*) := Name × V

def toString (js : Stringify V) (v : V) : Bytes :=
  match js.text v with
  | some s => objectToString s
  | none => Utf8.encode "undefined".toList

/-- The key of the map that a property is. V8 does not call the interceptor for array
indices. -/
def Name.key : Name → Option Bytes
  | .symbol _ => none
  | .string s =>
      match arrayIndex s with
      | some _ => none
      | none => some (objectToString s)

abbrev Body := List (Bytes × Bytes)

def hTTPBodySet (js : Stringify V) (body : Body) (a : Assignment V) : Body :=
  match a.1.key with
  | some key => assign key (toString js a.2) body
  | none => body

def assignAll (js : Stringify V) (body : Body) (assignments : List (Assignment V)) : Body :=
  assignments.foldl (hTTPBodySet js) body

def convertMapToJson (body : Body) : Bytes := JsonBytes.writeObject Timer.escape body

/-- What a handler assigns while it runs, to the body of its own response or through a wrapper
of an earlier one. -/
inductive Call (V : Type*)
  | sendHTTPGet (assignments : List (Assignment V))
  | sendHTTPPost (assignments : List (Assignment V))
  | sendUpdate (assignments : List (Assignment V))

/-- `http_body.clear()` -/
def clear (_ : Body) : Body := []

/-- `SendHTTPGet` and `SendHTTPPost`: the map is cleared, the handler runs, and the map is
converted. -/
def sendHTTP (js : Stringify V) (body : Body) (assignments : List (Assignment V)) : Body × Bytes :=
  let body := assignAll js (clear body) assignments
  (body, convertMapToJson body)

def step (js : Stringify V) (body : Body) : Call V → Body
  | .sendHTTPGet assignments | .sendHTTPPost assignments => (sendHTTP js body assignments).1
  | .sendUpdate assignments => assignAll js body assignments

def response (js : Stringify V) (history : List (Call V)) (assignments : List (Assignment V)) :
    Bytes :=
  (sendHTTP js (history.foldl (step js) []) assignments).2

/-- The response is that of any request with the same values last assigned, after any calls. -/
def Determined (js : Stringify V) (assignments : List (Assignment V)) : Prop :=
  ∀ history history' assignments', latest assignments' = latest assignments →
    response js history assignments = response js history' assignments'

/-- The UTF-8 of one JSON object without duplicate names. -/
def ValidObject (bytes : Bytes) : Prop :=
  ∃ text members, bytes = Utf8.encode text ∧ parse text = some (.object members) ∧
    (members.map Prod.fst).Nodup

/-- The assignments that the interceptor sees, by key. -/
def keyed (assignments : List (Assignment V)) : List (Bytes × V) :=
  assignments.filterMap fun a => a.1.key.map fun key => (key, a.2)

section
variable {js : Stringify V} {assignments : List (Assignment V)} {n n' : Name} {v v' : V} {k : Bytes}

lemma keyed_concat (a : Assignment V) : keyed (assignments ++ [a]) =
    keyed assignments ++ (a.1.key.map fun key => (key, a.2)).toList := by
  rw [keyed, List.filterMap_append, List.filterMap_cons, List.filterMap_nil]
  cases a.1.key <;> rfl

lemma assignAll_eq (js : Stringify V) (assignments : List (Assignment V)) :
    assignAll js [] assignments = ofList ((keyed assignments).map fun e => (e.1, toString js e.2)) := by
  induction assignments using List.reverseRecOn with
  | nil => rfl
  | append_singleton assignments a ih =>
    rw [assignAll] at ih ⊢
    rw [List.foldl_append, ih, List.foldl_cons, List.foldl_nil, keyed_concat, hTTPBodySet]
    cases hk : a.1.key with
    | none => simp
    | some key => simp [ofList_concat]

lemma response_eq (js : Stringify V) (history : List (Call V))
    (assignments : List (Assignment V)) : response js history assignments =
      convertMapToJson (ofList ((keyed assignments).map fun e => (e.1, toString js e.2))) := by
  rw [← assignAll_eq]
  rfl

lemma latest_keyed_concat {a : Assignment V} (h : a.1.key = some k) :
    latest (keyed (assignments ++ [a])) =
      Function.update (latest (keyed assignments)) k (some a.2) := by
  rw [keyed_concat, h]
  exact latest_concat (keyed assignments) (k, a.2)

lemma keyed_concat_of_none {a : Assignment V} (h : a.1.key = none) :
    keyed (assignments ++ [a]) = keyed assignments := by
  rw [keyed_concat, h]
  exact List.append_nil _

lemma exists_of_latest_keyed (h : latest (keyed assignments) k = some v) :
    ∃ n, latest assignments n = some v ∧ n.key = some k := by
  induction assignments using List.reverseRecOn with
  | nil => contradiction
  | append_singleton assignments a ih =>
    rw [latest_concat]
    have other {n : Name} (hn : latest assignments n = some v) (hkey : n.key = some k)
        (hne : a.1.key ≠ some k) :
        ∃ n, Function.update (latest assignments) a.1 (some a.2) n = some v ∧ n.key = some k := by
      have hna : n ≠ a.1 := fun he => hne (he ▸ hkey)
      exact ⟨n, by rwa [Function.update_of_ne hna], hkey⟩
    cases hk : a.1.key with
    | none =>
      rw [keyed_concat_of_none hk] at h
      obtain ⟨n, hn, hkey⟩ := ih h
      exact other hn hkey (by simp [hk])
    | some key =>
      rw [latest_keyed_concat hk] at h
      by_cases hkk : k = key
      · subst hkk
        rw [Function.update_self] at h
        exact ⟨a.1, by rw [Function.update_self, h], hk⟩
      · rw [Function.update_of_ne hkk] at h
        obtain ⟨n, hn, hkey⟩ := ih h
        exact other hn hkey (by simpa [hk] using Ne.symm hkk)

lemma latest_keyed_of_latest (h : latest assignments n = some v) (hn : n.key = some k) :
    ∃ v', latest (keyed assignments) k = some v' := by
  induction assignments using List.reverseRecOn with
  | nil => contradiction
  | append_singleton assignments a ih =>
    rw [latest_concat] at h
    by_cases hne : n = a.1
    · subst hne
      exact ⟨a.2, by rw [latest_keyed_concat hn, Function.update_self]⟩
    · rw [Function.update_of_ne hne] at h
      obtain ⟨v', hv'⟩ := ih h
      cases hk : a.1.key with
      | none => exact ⟨v', by rw [keyed_concat_of_none hk, hv']⟩
      | some key =>
        rw [latest_keyed_concat hk]
        by_cases hkk : k = key
        · subst hkk
          exact ⟨a.2, Function.update_self _ _ _⟩
        · exact ⟨v', by rw [Function.update_of_ne hkk, hv']⟩

def KeysAgree (js : Stringify V) (assignments : List (Assignment V)) : Prop :=
  ∀ n n' v v' k, latest assignments n = some v → latest assignments n' = some v' →
    n.key = some k → n'.key = some k → toString js v = toString js v'

lemma KeysAgree.latest_text_iff (h : KeysAgree js assignments) (t : Bytes) :
    (latest (keyed assignments) k).map (toString js) = some t ↔
      ∃ n v, latest assignments n = some v ∧ n.key = some k ∧ toString js v = t := by
  constructor
  · intro ht
    obtain ⟨v, hv, ht⟩ := Option.map_eq_some_iff.mp ht
    obtain ⟨n, hn, hkey⟩ := exists_of_latest_keyed hv
    exact ⟨n, v, hn, hkey, ht⟩
  · rintro ⟨n, v, hn, hkey, rfl⟩
    obtain ⟨v', hv'⟩ := latest_keyed_of_latest hn hkey
    obtain ⟨n', hn', hkey'⟩ := exists_of_latest_keyed hv'
    rw [hv', Option.map_some, h n' n v' v k hn' hn hkey' hkey]

lemma KeysAgree.of_latest_eq {assignments' : List (Assignment V)} (h : KeysAgree js assignments)
    (heq : latest assignments' = latest assignments) : KeysAgree js assignments' := by
  rw [KeysAgree, heq]
  exact h

lemma KeysAgree.determined (h : KeysAgree js assignments) : Determined js assignments := by
  intro history history' assignments' heq
  rw [response_eq, response_eq]
  apply congrArg convertMapToJson
  apply ofList_eq_iff.mpr
  funext k
  rw [latest_map, latest_map]
  apply Option.ext
  intro t
  have h' := h.of_latest_eq heq
  rw [h.latest_text_iff, h'.latest_text_iff, heq]

lemma convertMapToJson_assign_inj {body : Body} {t t' : Bytes}
    (h : convertMapToJson (assign k t body) = convertMapToJson (assign k t' body)) : t = t' := by
  obtain ⟨front, back, hsplit⟩ := assign_split k body
  obtain ⟨before, after, hwrite⟩ :=
    ObjectText.object_split JsonBytes.marks (JsonBytes.escapeByte Timer.escape) front back k
  rw [convertMapToJson, convertMapToJson, JsonBytes.writeObject, hsplit, hsplit, hwrite, hwrite] at h
  exact List.append_cancel_right (List.append_cancel_left h)

lemma latest_append_pair (hn : latest assignments n = some v) (hn' : latest assignments n' = some v') :
    latest (assignments ++ [(n, v)] ++ [(n', v')]) = latest assignments := by
  rw [latest_concat, latest_concat]
  have hv : Function.update (latest assignments) n (some v) = latest assignments := by
    rw [← hn, Function.update_eq_self]
  rw [hv, ← hn', Function.update_eq_self]

lemma assignAll_append (hn : n.key = some k) : assignAll js [] (assignments ++ [(n, v)]) =
    assign k (toString js v) (assignAll js [] assignments) := by
  rw [assignAll_eq, assignAll_eq, keyed_concat, hn, Option.map_some, Option.toList_some,
    List.map_append, List.map_singleton, ofList_concat]

lemma keysAgree_of_determined (h : Determined js assignments) : KeysAgree js assignments := by
  intro n n' v v' k hn hn' hkey hkey'
  have hresponse := (h [] [] _ (latest_append_pair hn' hn)).symm.trans
    (h [] [] _ (latest_append_pair hn hn'))
  have hconvert : convertMapToJson (assignAll js [] (assignments ++ [(n', v')] ++ [(n, v)])) =
      convertMapToJson (assignAll js [] (assignments ++ [(n, v)] ++ [(n', v')])) := hresponse
  rw [assignAll_append hkey, assignAll_append hkey', assignAll_append hkey',
    assignAll_append hkey, assign_assign, assign_assign] at hconvert
  exact convertMapToJson_assign_inj hconvert

/-- A response depends on the values last assigned by its own request exactly when names of one
key have one text. -/
theorem determined_iff : Determined js assignments ↔ KeysAgree js assignments :=
  ⟨keysAgree_of_determined, KeysAgree.determined⟩

/-- The truth values and `undefined`. -/
def stringifyBool : Stringify (Option Bool) where
  text
    | some true => some (Utf16.encode "true".toList)
    | some false => some (Utf16.encode "false".toList)
    | none => none
  valid
    | some true, _, h => ⟨.bool true, by rw [← Option.some.inj h, Utf16.decode_encode]; rfl⟩
    | some false, _, h => ⟨.bool false, by rw [← Option.some.inj h, Utf16.decode_encode]; rfl⟩
    | none, _, h => nomatch h

/-- Two properties whose names are the same up to a NUL. -/
theorem nul_not_determined : ¬ Determined stringifyBool
    [(.string (Utf16.encode ['a', '\x00', 'b']), some true),
      (.string (Utf16.encode ['a', '\x00', 'c']), some false)] := by
  intro h
  have hswap := h [] [] [(.string (Utf16.encode ['a', '\x00', 'c']), some false),
    (.string (Utf16.encode ['a', '\x00', 'b']), some true)]
    (Function.update_comm (by decide) _ _ _)
  exact absurd hswap (by decide)

lemma escapes_escape : Escapes Timer.escape := by
  intro c members s stack
  have char_of {d : Char} (h : c.toNat = d.toNat) : d = c := (Char.toNat_inj.mp h).symm
  unfold Timer.escape
  split_ifs with hq
  · rcases hq with rfl | rfl <;> exact run_backslash (by decide) rfl
  · rw [not_or] at hq
    split
    · rename_i hc
      rw [← char_of (d := '\x08') hc]
      exact run_backslash (by decide) rfl
    · rename_i hc
      rw [← char_of (d := '\t') hc]
      exact run_backslash (by decide) rfl
    · rename_i hc
      rw [← char_of (d := '\n') hc]
      exact run_backslash (by decide) rfl
    · rename_i hc
      rw [← char_of (d := '\x0c') hc]
      exact run_backslash (by decide) rfl
    · rename_i hc
      rw [← char_of (d := '\r') hc]
      exact run_backslash (by decide) rfl
    · split_ifs with hlow
      · exact run_hex_char (w := 0) (x := 0) rfl rfl (hexValue_hexDigit (by omega))
          (hexValue_hexDigit (by omega)) (by omega) (by omega)
      · exact run_plain hq.1 hq.2 (by omega)

lemma ascii_hexDigit : ∀ n < 16, (Timer.hexDigit n).toNat < 128 := by decide

lemma ascii_escape : JsonBytes.Ascii Timer.escape where
  low c hc := by
    have hfixed (d : Char) (hd : d.toNat < 128) :
        ['\\', d] ≠ [] ∧ ∀ e ∈ ['\\', d], e.toNat < 128 := by simpa using hd
    unfold Timer.escape
    split_ifs with hq
    · exact hfixed c hc
    · split
      · exact hfixed 'b' (by decide)
      · exact hfixed 't' (by decide)
      · exact hfixed 'n' (by decide)
      · exact hfixed 'f' (by decide)
      · exact hfixed 'r' (by decide)
      · split_ifs with hlow
        · have hhigh := ascii_hexDigit (c.toNat / 16) (by omega)
          have hrest := ascii_hexDigit (c.toNat % 16) (by omega)
          simpa using ⟨hhigh, hrest⟩
        · simpa using hc
  high c hc := by
    have hne {d : Char} (hd : d.toNat < 128) : c ≠ d := by
      rintro rfl
      omega
    rw [Timer.escape, if_neg (not_or.mpr ⟨hne (by decide), hne (by decide)⟩)]
    split
    any_goals omega
    exact if_neg (by omega)

/-- The names that are assigned have no lone surrogate up to a NUL, and no value that is last
under its key lacks a JSON text, or has one with a lone surrogate. -/
structure Writable (js : Stringify V) (assignments : List (Assignment V)) : Prop where
  names : ∀ s v, latest assignments (.string s) = some v → arrayIndex s = none → WellFormed (cut 0 s)
  values : ∀ k v, latest (keyed assignments) k = some v → ∃ s, js.text v = some s ∧ WellFormed s

lemma toString_of_text {s : Utf16.Units} (h : js.text v = some s) : toString js v = Wtf8.encode s := by
  obtain ⟨json, hjson⟩ := js.valid v s h
  have hzero : 0 ∉ s := fun hmem => nul_notMem_of_parse hjson (Utf16.nul_mem_decode hmem)
  rw [toString, h]
  exact (objectToString_eq s).trans (congrArg Wtf8.encode (cut_of_notMem hzero))

lemma toString_cases (h : Valid (toString js v)) :
    (∃ s text json, js.text v = some s ∧ WellFormed s ∧ toString js v = Utf8.encode text ∧
        parse text = some json) ∨
      js.text v = none ∧ toString js v = Utf8.encode "undefined".toList := by
  cases hs : js.text v with
  | none => exact .inr ⟨rfl, by rw [toString, hs]⟩
  | some s =>
    obtain ⟨text, htext⟩ := h
    obtain ⟨json, hjson⟩ := js.valid v s hs
    have hunits : s = Utf16.encode text := by
      rw [toString_of_text hs] at htext
      exact Wtf8.encode_eq_iff.mp htext
    refine .inl ⟨s, text, json, rfl, ⟨text, hunits⟩, htext, ?_⟩
    rwa [hunits, Utf16.decode_encode] at hjson

lemma mem_assignAll_iff {t : Bytes} : (k, t) ∈ assignAll js [] assignments ↔
    ∃ v, latest (keyed assignments) k = some v ∧ toString js v = t := by
  rw [assignAll_eq, ← Option.map_eq_some_iff, ← latest_map, ← get_ofList]
  exact ⟨(sorted_ofList _).get_of_mem, mem_of_get⟩

lemma key_eq_some : n.key = some k ↔ ∃ s, n = .string s ∧ arrayIndex s = none ∧ objectToString s = k := by
  cases n with
  | symbol id => simp [Name.key]
  | string s => cases h : arrayIndex s <;> simp [Name.key, h]

lemma valid_objectToString_iff (s : Utf16.Units) : Valid (objectToString s) ↔ WellFormed (cut 0 s) := by
  rw [objectToString_eq]
  exact Wtf8.wellFormed_iff.symm

lemma valid_names_iff : (∀ e ∈ assignAll js [] assignments, Valid e.1) ↔
    ∀ s v, latest assignments (.string s) = some v → arrayIndex s = none → WellFormed (cut 0 s) := by
  constructor
  · intro h s v hs hindex
    have hkey : (Name.string s).key = some (objectToString s) := key_eq_some.mpr ⟨s, rfl, hindex, rfl⟩
    obtain ⟨v', hv'⟩ := latest_keyed_of_latest hs hkey
    exact (valid_objectToString_iff s).mp (h (_, toString js v') (mem_assignAll_iff.mpr ⟨v', hv', rfl⟩))
  · rintro h ⟨k, t⟩ he
    obtain ⟨v, hv, -⟩ := mem_assignAll_iff.mp he
    obtain ⟨n, hn, hkey⟩ := exists_of_latest_keyed hv
    obtain ⟨s, rfl, hindex, rfl⟩ := key_eq_some.mp hkey
    exact (valid_objectToString_iff s).mpr (h s v hn hindex)

lemma exists_texts {body : Body} (h : ∀ e ∈ body, Valid e.1 ∧ Valid e.2) :
    ∃ m : List (Text × Text), body = m.map fun p => (Utf8.encode p.1, Utf8.encode p.2) := by
  induction body with
  | nil => exact ⟨[], rfl⟩
  | cons e body ih =>
    obtain ⟨m, hm⟩ := ih fun e he => h e (List.mem_cons_of_mem _ he)
    obtain ⟨⟨name, hname⟩, text, htext⟩ := h e List.mem_cons_self
    exact ⟨(name, text) :: m, by rw [List.map_cons, ← hname, ← htext, hm]⟩

lemma exists_readMembers {m : List (Text × Text)} (h : ∀ p ∈ m, ∃ json, parse p.2 = some json) :
    ∃ members, readMembers m = some members := by
  induction m with
  | nil => exact ⟨[], rfl⟩
  | cons p m ih =>
    obtain ⟨json, hjson⟩ := h p List.mem_cons_self
    obtain ⟨members, hmembers⟩ := ih fun p hp => h p (List.mem_cons_of_mem _ hp)
    rw [readMembers] at hmembers
    exact ⟨(Utf16.encode p.1, json) :: members, by simp [readMembers, hjson, hmembers]⟩

lemma names_of_readMembers {m : List (Text × Text)} {members : Members}
    (h : readMembers m = some members) : members.map Prod.fst = m.map fun p => Utf16.encode p.1 := by
  induction m generalizing members with
  | nil =>
    obtain rfl := Option.some.inj h
    rfl
  | cons p m ih =>
    obtain ⟨v, rest, -, hrest, rfl⟩ := readMembers_cons h
    rw [List.map_cons, List.map_cons, ih hrest]

lemma nodup_names {m : List (Text × Text)}
    (hm : Sorted (m.map fun p => (Utf8.encode p.1, Utf8.encode p.2))) {members : Members}
    (h : readMembers m = some members) : (members.map Prod.fst).Nodup := by
  rw [names_of_readMembers h]
  apply List.Pairwise.map _ _ (List.pairwise_map.mp hm)
  intro p q hlt heq
  exact hlt.ne (congrArg Utf8.encode (Utf16.encode_injective heq))

lemma Writable.exists_texts (h : Writable js assignments) :
    ∃ m : List (Text × Text), assignAll js [] assignments =
        m.map (fun p => (Utf8.encode p.1, Utf8.encode p.2)) ∧
      ∀ p ∈ m, ∃ json, parse p.2 = some json := by
  have hvalue {v : V} {s : Utf16.Units} (hs : js.text v = some s) (hw : WellFormed s) :
      Valid (toString js v) := by
    rw [toString_of_text hs]
    exact Wtf8.wellFormed_iff.mp hw
  have hvalid : ∀ e ∈ assignAll js [] assignments, Valid e.1 ∧ Valid e.2 := by
    rintro ⟨k, t⟩ he
    obtain ⟨v, hv, rfl⟩ := mem_assignAll_iff.mp he
    obtain ⟨s, hs, hw⟩ := h.values k v hv
    exact ⟨valid_names_iff.mpr h.names _ he, hvalue hs hw⟩
  obtain ⟨m, hm⟩ := HttpResponse.exists_texts hvalid
  refine ⟨m, hm, fun p hp => ?_⟩
  have he : (Utf8.encode p.1, Utf8.encode p.2) ∈ assignAll js [] assignments := by
    rw [hm]
    exact List.mem_map.mpr ⟨p, hp, rfl⟩
  obtain ⟨v, hv, ht⟩ := mem_assignAll_iff.mp he
  obtain ⟨s, hs, hw⟩ := h.values _ v hv
  rcases toString_cases (hvalue hs hw) with ⟨-, text, json, -, -, htext, hjson⟩ | ⟨hnone, -⟩
  · rw [Utf8.encode_injective (ht.symm.trans htext)]
    exact ⟨json, hjson⟩
  · rw [hs] at hnone
    contradiction

lemma response_eq_encode {m : List (Text × Text)}
    (hm : assignAll js [] assignments = m.map fun p => (Utf8.encode p.1, Utf8.encode p.2))
    (history : List (Call V)) :
    response js history assignments = Utf8.encode (writeObject Timer.escape m) := by
  rw [ascii_escape.encode_writeObject, ← hm, response_eq, ← assignAll_eq]
  rfl

lemma Writable.validObject (h : Writable js assignments) (history : List (Call V)) :
    ValidObject (response js history assignments) := by
  obtain ⟨m, hm, hvalues⟩ := h.exists_texts
  obtain ⟨members, hmembers⟩ := exists_readMembers hvalues
  have hsorted : Sorted (assignAll js [] assignments) := by
    rw [assignAll_eq]
    exact sorted_ofList _
  exact ⟨writeObject Timer.escape m, members, response_eq_encode hm history,
    parse_writeObject escapes_escape hmembers, nodup_names (hm ▸ hsorted) hmembers⟩

lemma stuck_undefined : Stuck "undefined".toList :=
  ⟨'u', "ndefined".toList, by decide, by decide, by decide⟩

/-- A response that is a text is read only when all of its values are JSON. -/
lemma writable_of_validObject {history : List (Call V)}
    (h : ValidObject (response js history assignments)) : Writable js assignments := by
  obtain ⟨text, members, htext, hparse, -⟩ := h
  have hwrite : response js history assignments =
      JsonBytes.writeObject Timer.escape (assignAll js [] assignments) :=
    rfl
  have hvalid : ∀ e ∈ assignAll js [] assignments, Valid e.1 ∧ Valid e.2 :=
    (ascii_escape.valid_writeObject _).mp ⟨text, hwrite ▸ htext⟩
  refine ⟨valid_names_iff.mp fun e he => (hvalid e he).1, fun k v hv => ?_⟩
  have hmem : (k, toString js v) ∈ assignAll js [] assignments := mem_assignAll_iff.mpr ⟨v, hv, rfl⟩
  rcases toString_cases (hvalid _ hmem).2 with ⟨s, -, -, hs, hw, -⟩ | ⟨-, hundefined⟩
  · exact ⟨s, hs, hw⟩
  exfalso
  obtain ⟨m, hm⟩ := HttpResponse.exists_texts hvalid
  have hobject : text = writeObject Timer.escape m :=
    Utf8.encode_injective (htext.symm.trans (response_eq_encode hm history))
  have hnone : parse (writeObject Timer.escape m) = none := by
    apply parse_writeObject_eq_none escapes_escape
    · intro p hp
      have he : (Utf8.encode p.1, Utf8.encode p.2) ∈ assignAll js [] assignments := by
        rw [hm]
        exact List.mem_map.mpr ⟨p, hp, rfl⟩
      obtain ⟨w, -, hw⟩ := mem_assignAll_iff.mp he
      have hvalue : Valid (toString js w) := ⟨p.2, hw⟩
      rcases toString_cases hvalue with
        ⟨-, text, json, -, -, ht, hjson⟩ | ⟨-, ht⟩
      · rw [Utf8.encode_injective (hw.symm.trans ht)]
        exact .inl ⟨json, hjson⟩
      · rw [Utf8.encode_injective (hw.symm.trans ht)]
        exact .inr stuck_undefined
    · rw [hm] at hmem
      obtain ⟨p, hp, he⟩ := List.mem_map.mp hmem
      refine ⟨p, hp, ?_⟩
      rw [Utf8.encode_injective ((congrArg Prod.snd he).trans hundefined)]
      exact stuck_undefined
  rw [hobject, hnone] at hparse
  contradiction

/-- A response is the UTF-8 of one JSON object exactly when no name has a lone surrogate, and
every value that is last under its key has a JSON text without one. -/
theorem validObject_iff (history : List (Call V)) :
    ValidObject (response js history assignments) ↔ Writable js assignments :=
  ⟨writable_of_validObject, fun h => h.validObject history⟩

theorem undefined_not_validObject : ¬ ValidObject
    (response stringifyBool [] [(.string (Utf16.encode ['a']), none)]) := by
  rintro ⟨text, members, htext, hparse, -⟩
  have hbytes : response stringifyBool [] [(.string (Utf16.encode ['a']), none)] =
      Utf8.encode "\x7b\"a\":undefined\x7d".toList := by decide
  rw [← Utf8.encode_injective (hbytes.symm.trans htext)] at hparse
  have hnone : parse "\x7b\"a\":undefined\x7d".toList = none := rfl
  rw [hnone] at hparse
  contradiction

end

end Eventing.HttpResponse
