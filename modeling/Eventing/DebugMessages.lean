import Eventing.Debugger
import Eventing.JsonText

/-!
# What counts as a response to the debugger

A response of V8 to a command is a JSON object with the type, the command and the success of the
response. The handlers of the debugger (`worker.cc`) look for texts in a message before they
parse it.
-/
namespace Eventing.DebugMessages
open Debugger JsonText

/-- What the handlers use of RapidJSON: whether it parses a message, and the integers that
`setBreakpointResult` reads, where they are there. -/
structure RapidJson where
  parses : Text → Bool
  line : Text → Option ℤ
  column : Text → Option ℤ

def parseObject (message : Text) : Option Members :=
  match parse message with
  | some (.object members) => some members
  | _ => none

def RapidJson.json (r : RapidJson) : Json where
  parses := r.parses
  isObject message := (parseObject message).isSome
  line := r.line
  column := r.column

def commandName : Kind → Text
  | .cont => "continue".toList
  | .evaluate => "evaluate".toList
  | .setBreakpoint => "setbreakpoint".toList
  | .clearBreakpoint => "clearbreakpoint".toList
  | .listBreakpoints => "listbreakpoints".toList

/-- The value of a member, the last one where there are several. -/
def member (name : Text) (members : Members) : Option Value :=
  (members.reverse.find? fun m => m.1 = Utf16.encode name).map Prod.snd

def stringValue (t : Text) : Value := .string (Utf16.encode t)

def Names (k : Kind) (members : Members) : Prop :=
  member "command".toList members = some (stringValue (commandName k))

def Succeeds (members : Members) : Prop :=
  member "type".toList members = some (stringValue "response".toList) ∧
    member "success".toList members = some (.bool true)

/-- A response that reports the success of a command. -/
def IsResponse (k : Kind) (message : Text) : Prop :=
  ∃ members, parseObject message = some members ∧ Names k members ∧ Succeeds members

def isString (t : Text) : Option Value → Bool
  | some (.string s) => s = Utf16.encode t
  | _ => false

def isTrue : Option Value → Bool
  | some (.bool b) => b
  | _ => false

lemma isString_iff {t : Text} {v : Option Value} : isString t v = true ↔ v = some (stringValue t) := by
  rw [isString.eq_def]
  split <;> simp_all [stringValue]

lemma isTrue_iff {v : Option Value} : isTrue v = true ↔ v = some (.bool true) := by
  rw [isTrue.eq_def]
  split <;> simp_all

instance (k : Kind) (members : Members) : Decidable (Names k members) :=
  decidable_of_iff (isString (commandName k) (member "command".toList members) = true) isString_iff

instance (members : Members) : Decidable (Succeeds members) :=
  decidable_of_iff (isString "response".toList (member "type".toList members) = true ∧
    isTrue (member "success".toList members) = true) (and_congr isString_iff isTrue_iff)

instance (k : Kind) (message : Text) : Decidable (IsResponse k message) :=
  match h : parseObject message with
  | some members => decidable_of_iff (Names k members ∧ Succeeds members) (by simp [IsResponse, h])
  | none => isFalse (by simp [IsResponse, h])

/-- `data_ready` is set for the message exactly when it is a response to the command, and the
handler comes to its end either way. -/
structure Classifies (r : RapidJson) (k : Kind) (message : Text) : Prop where
  response : IsResponse k message → ∃ text, handle r.json k message = .stored text true
  other : ¬ IsResponse k message → ∃ text, handle r.json k message = .stored text false

def commandText (k : Kind) : Text :=
  "\"command\":\"".toList ++ (commandName k ++ ['"'])

def typeText : Text := "\"type\":\"".toList

def failureText : Kind → Option Text
  | .cont => none
  | .evaluate => some "\"text\":\"".toList
  | .setBreakpoint => some typeText
  | .clearBreakpoint | .listBreakpoints => some "\"message\":\"Error".toList

/-- The position of a breakpoint is read without a failing assertion, and its text with the
zero behind it has room in `buf`. -/
def Positioned (r : RapidJson) : Kind → Text → Prop
  | .setBreakpoint, message =>
      ∃ text, breakpointText r.json message = some text ∧ text.length < bufSize
  | _, _ => True

/-- How a message has to be spelled: where RapidJSON parses it as an object, the texts say what
the members say. A command that is there without its text, and a text that is there without its
command, are told apart from a success by the other members and by the text of the failure. -/
def Spelled (r : RapidJson) (k : Kind) (message : Text) : Prop :=
  match parseObject message, r.parses message, failureText k with
  | some members, true, some failure =>
      if commandText k <:+: message then
        if failure <:+: message then Names k members → ¬ Succeeds members
        else Names k members ∧ Succeeds members ∧ Positioned r k message
      else Names k members → ¬ Succeeds members
  -- `continueResult` looks for its command only to pass over the message.
  | some members, true, none =>
      if commandText k <:+: message then Names k members → ¬ Succeeds members
      else Names k members ∧ Succeeds members
  | some members, false, _ => Names k members → ¬ Succeeds members
  -- The assertion fails on a value of another kind.
  | none, true, some failure => commandText k <:+: message → failure <:+: message
  | none, true, none => commandText k <:+: message
  | none, false, _ => True

/-- A message that names the command as its response, spelled as V8 does it. -/
structure FromV8 (k : Kind) (message : Text) (members : Members) : Prop where
  parsed : parseObject message = some members
  names : Names k members
  command : commandText k <:+: message
  type : typeText <:+: message

/-- What tells a failed response of V8 from a successful one. -/
def Told (k : Kind) (message : Text) (members : Members) : Prop :=
  match failureText k with
  | none => ¬ Succeeds members
  | some failure => failure <:+: message ↔ ¬ Succeeds members

def Admitted (k : Kind) (message : Text) : Prop :=
  match failureText k with
  | none => ¬ commandText k <:+: message
  | some failure => commandText k <:+: message ∧ ¬ failure <:+: message

section
variable {r : RapidJson} {k : Kind} {message : Text}

lemma commandText_eq (k : Kind) : commandText k = match k with
    | .cont => "\"command\":\"continue\"".toList
    | .evaluate => "\"command\":\"evaluate\"".toList
    | .setBreakpoint => "\"command\":\"setbreakpoint\"".toList
    | .clearBreakpoint => "\"command\":\"clearbreakpoint\"".toList
    | .listBreakpoints => "\"command\":\"listbreakpoints\"".toList := by
  cases k <;> decide

/-- What a handler does with an object. -/
def storeResult (json : Json) : Kind → Text → Outcome
  | .setBreakpoint => storeBreakpoint json
  | _ => storeMessage

lemma responseResult_admitted {json : Json} {command failure : Text} {result : Text → Outcome}
    (h : command <:+: message ∧ ¬ failure <:+: message) :
    responseResult json command failure result message = parseResult json result message := by
  rw [responseResult, if_neg (not_not.mpr h.1), if_neg h.2]

lemma responseResult_not_admitted {json : Json} {command failure : Text} {result : Text → Outcome}
    (h : ¬ (command <:+: message ∧ ¬ failure <:+: message)) :
    responseResult json command failure result message = .stored message false := by
  rw [responseResult, ite_not]
  split_ifs with hc hf
  · rfl
  · exact absurd ⟨hc, hf⟩ h
  · rfl

/-- The handlers are one filter with different texts. -/
lemma handle_admitted (json : Json) (h : Admitted k message) :
    handle json k message = parseResult json (storeResult json k) message := by
  rw [Admitted, commandText_eq] at h
  cases k with
  | cont => exact if_neg h
  | evaluate => exact responseResult_admitted h
  | setBreakpoint => exact responseResult_admitted h
  | clearBreakpoint => exact responseResult_admitted h
  | listBreakpoints => exact responseResult_admitted h

lemma handle_not_admitted (json : Json) (h : ¬ Admitted k message) :
    handle json k message = .stored message false := by
  rw [Admitted, commandText_eq] at h
  cases k with
  | cont => exact if_pos (not_not.mp h)
  | evaluate => exact responseResult_not_admitted h
  | setBreakpoint => exact responseResult_not_admitted h
  | clearBreakpoint => exact responseResult_not_admitted h
  | listBreakpoints => exact responseResult_not_admitted h

lemma classifies_of_stored (h : handle r.json k message = .stored message false) :
    Classifies r k message ↔ ¬ IsResponse k message := by
  constructor
  · intro hc hr
    obtain ⟨text, ht⟩ := hc.response hr
    rw [h] at ht
    injection ht
    contradiction
  · intro hr
    exact ⟨fun h => absurd h hr, fun _ => ⟨message, h⟩⟩

lemma storeResult_eq : (Positioned r k message →
      ∃ text, storeResult r.json k message = .stored text true) ∧
    (¬ Positioned r k message → ∀ text ready, storeResult r.json k message ≠ .stored text ready) := by
  cases k with
  | setBreakpoint =>
    have hstore : storeResult r.json .setBreakpoint message = storeBreakpoint r.json message := rfl
    rw [hstore, storeBreakpoint, Positioned]
    cases breakpointText r.json message with
    | none => simp
    | some text =>
      by_cases hlt : text.length < bufSize
      · simp [hlt]
      · simp [hlt]
  | _ => exact ⟨fun _ => ⟨message, rfl⟩, fun h => absurd trivial h⟩

lemma classifies_of_object {members : Members} (hadmitted : Admitted k message)
    (hparses : r.parses message = true) (h : parseObject message = some members) :
    Classifies r k message ↔ IsResponse k message ∧ Positioned r k message := by
  have hhandle : handle r.json k message = storeResult r.json k message := by
    rw [handle_admitted r.json hadmitted, parseResult]
    simp [RapidJson.json, hparses, h]
  have hother : ¬ ∃ text, handle r.json k message = .stored text false := by
    rintro ⟨text, ht⟩
    rw [hhandle] at ht
    by_cases hp : Positioned r k message
    · obtain ⟨text', ht'⟩ := storeResult_eq.1 hp
      rw [ht'] at ht
      injection ht
      contradiction
    · exact storeResult_eq.2 hp text false ht
  constructor
  · intro hc
    have hr : IsResponse k message := by
      by_contra hr
      exact hother (hc.other hr)
    obtain ⟨text, ht⟩ := hc.response hr
    refine ⟨hr, ?_⟩
    by_contra hp
    exact storeResult_eq.2 hp text true (hhandle ▸ ht)
  · rintro ⟨hr, hp⟩
    exact ⟨fun _ => hhandle ▸ storeResult_eq.1 hp, fun h => absurd hr h⟩

lemma not_classifies_of_value (hadmitted : Admitted k message) (hparses : r.parses message = true)
    (h : parseObject message = none) : ¬ Classifies r k message := by
  have hhandle : handle r.json k message = .aborted := by
    rw [handle_admitted r.json hadmitted, parseResult]
    simp [RapidJson.json, hparses, h]
  intro hc
  by_cases hr : IsResponse k message
  · obtain ⟨text, ht⟩ := hc.response hr
    rw [hhandle] at ht
    contradiction
  · obtain ⟨text, ht⟩ := hc.other hr
    rw [hhandle] at ht
    contradiction

lemma classifies_of_not_parses (hparses : r.parses message = false) :
    Classifies r k message ↔ ¬ IsResponse k message := by
  refine classifies_of_stored ?_
  by_cases hadmitted : Admitted k message
  · rw [handle_admitted r.json hadmitted, parseResult]
    simp [RapidJson.json, hparses]
  · exact handle_not_admitted r.json hadmitted

lemma isResponse_iff {members : Members} (h : parseObject message = some members) :
    IsResponse k message ↔ Names k members ∧ Succeeds members := by
  simp [IsResponse, h]

lemma not_isResponse (h : parseObject message = none) : ¬ IsResponse k message := by
  simp [IsResponse, h]

lemma admitted_none (hf : failureText k = none) : Admitted k message ↔ ¬ commandText k <:+: message := by
  rw [Admitted, hf]

lemma admitted_some {failure : Text} (hf : failureText k = some failure) :
    Admitted k message ↔ commandText k <:+: message ∧ ¬ failure <:+: message := by
  rw [Admitted, hf]

lemma positioned_of_none (hf : failureText k = none) : Positioned r k message := by
  cases k with
  | cont => trivial
  | _ => contradiction

/-- Among the messages that are parsed, the one that is passed over has to be no response, and
the one that is not has to be one. -/
lemma spelled_iff (hparses : r.parses message = true) : Spelled r k message ↔
    (Admitted k message → IsResponse k message ∧ Positioned r k message) ∧
      (¬ Admitted k message → ¬ IsResponse k message) := by
  rw [Spelled, hparses]
  cases h : parseObject message with
  | none =>
    have hr := not_isResponse (k := k) h
    cases hf : failureText k with
    | none => simp [admitted_none hf, hr]
    | some failure => simp [admitted_some hf, hr]
  | some members =>
    have hr := isResponse_iff (k := k) h
    cases hf : failureText k with
    | none =>
      have hp : Positioned r k message := positioned_of_none hf
      by_cases hc : commandText k <:+: message <;> simp [admitted_none hf, hr, hp, hc]
    | some failure =>
      by_cases hc : commandText k <:+: message <;> by_cases hfm : failure <:+: message <;>
        simp [admitted_some hf, hr, hc, hfm, and_assoc]

lemma classifies_iff_spelled : Classifies r k message ↔ Spelled r k message := by
  cases hparses : r.parses message with
  | false =>
    rw [classifies_of_not_parses hparses, Spelled, hparses]
    cases h : parseObject message with
    | none => simp [not_isResponse h]
    | some members => simp [isResponse_iff h]
  | true =>
    rw [spelled_iff hparses]
    by_cases hadmitted : Admitted k message
    · have himp : (Admitted k message → IsResponse k message ∧ Positioned r k message) ↔
          IsResponse k message ∧ Positioned r k message := forall_prop_of_true hadmitted
      cases h : parseObject message with
      | none =>
        refine iff_of_false (not_classifies_of_value hadmitted hparses h) fun hs => ?_
        exact not_isResponse h (hs.1 hadmitted).1
      | some members =>
        rw [classifies_of_object hadmitted hparses h, himp]
        exact (and_iff_left fun hn => absurd hadmitted hn).symm
    · rw [classifies_of_stored (handle_not_admitted r.json hadmitted)]
      exact ⟨fun hr => ⟨fun ha => absurd ha hadmitted, fun _ => hr⟩, fun hs => hs.2 hadmitted⟩

/-- The handler of `setbreakpoint` takes the type of a message for a failure, so it never comes
to the position. -/
lemma FromV8.positioned {members : Members} (h : FromV8 k message members) {failure : Text}
    (hf : failureText k = some failure) (hmessage : ¬ failure <:+: message) :
    Positioned r k message := by
  cases k with
  | setBreakpoint =>
    obtain rfl := Option.some.inj hf
    exact absurd h.type hmessage
  | _ => trivial

lemma FromV8.spelled_iff {members : Members} (h : FromV8 k message members)
    (hparses : r.parses message = true) : Spelled r k message ↔ Told k message members := by
  rw [Spelled, Told, h.parsed, hparses]
  cases hf : failureText k with
  | none => simp [h.command, h.names]
  | some failure =>
    by_cases hmessage : failure <:+: message
    · simp [h.command, h.names, hmessage]
    · simp [h.command, h.names, hmessage, h.positioned hf hmessage]

lemma admitted_of_classifies (h : Classifies r k message) (hr : IsResponse k message) :
    Admitted k message := by
  by_contra hadmitted
  exact (classifies_of_stored (handle_not_admitted r.json hadmitted)).mp h hr

/-- The handler of `continue` passes over the responses that name their command as V8 does. -/
lemma not_classifies_continue (h : IsResponse .cont message)
    (hcommand : commandText .cont <:+: message) : ¬ Classifies r .cont message :=
  fun hc => admitted_of_classifies hc h hcommand

/-- The handler of `setbreakpoint` takes every message that names its type for a failure. -/
lemma not_classifies_setBreakpoint (h : IsResponse .setBreakpoint message)
    (htype : typeText <:+: message) : ¬ Classifies r .setBreakpoint message :=
  fun hc => (admitted_of_classifies hc h).2 htype

end

/-- A parser that takes every JSON text, and finds no position. -/
def jsonParser : RapidJson := ⟨fun message => (parse message).isSome, fun _ => none, fun _ => none⟩

/-- A response to `setbreakpoint` without a body that is not taken for a failure. -/
example : handle jsonParser.json .setBreakpoint
    "\x7b\"type\" : \"response\",\"command\":\"setbreakpoint\",\"success\":true\x7d".toList =
      .aborted := by decide +kernel

def response (k : Kind) : Text :=
  "\x7b\"seq\":1,\"request_seq\":2,".toList ++ (typeText ++ ("response\",".toList ++
    (commandText k ++ ",\"success\":true,\"running\":true\x7d".toList)))

def breakEvent : Text := "\x7b\"seq\":3,\"type\":\"event\",\"event\":\"break\"\x7d".toList

lemma typeText_infix_response (k : Kind) : typeText <:+: response k := List.infix_append' _ _ _

lemma commandText_infix_response (k : Kind) : commandText k <:+: response k :=
  (List.infix_append' _ _ _).trans
    ((List.suffix_append _ _).isInfix.trans (List.suffix_append _ _).isInfix)

end Eventing.DebugMessages
