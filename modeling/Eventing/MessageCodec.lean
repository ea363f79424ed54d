import Mathlib.Tactic.IntervalCases
import Eventing.Decimal
import Eventing.JsonText
import Eventing.Utf8

/-!
# Messages between Go and C++

`EncodeMessage` and `DecodeMessage` (`communication_protocol.go`) keep a message as a JSON
object of three strings. A Go string is a sequence of bytes; `json.Marshal` and
`json.Unmarshal` are modelled as documented.
-/
namespace Eventing.MessageCodec
open JsonText Utf8

structure Message where
  commandType : Bytes
  extraMetadata : Bytes
  rawMessage : Bytes
  deriving DecidableEq

def Message.empty : Message := ⟨[], [], []⟩

inductive Field
  | commandType
  | extraMetadata
  | rawMessage
  deriving DecidableEq

def Field.name : Field → Text
  | .commandType => "CommandType".toList
  | .extraMetadata => "ExtraMetadata".toList
  | .rawMessage => "RawMessage".toList

def Message.set (m : Message) (f : Field) (b : Bytes) : Message :=
  match f with
  | .commandType => { m with commandType := b }
  | .extraMetadata => { m with extraMetadata := b }
  | .rawMessage => { m with rawMessage := b }

def hexDigit : ℕ → Char := Decimal.hexDigit .lower

def escape (c : Char) : Text :=
  if c = '"' ∨ c = '\\' then ['\\', c]
  else if c = '\n' then ['\\', 'n']
  else if c = '\r' then ['\\', 'r']
  else if c = '\t' then ['\\', 't']
  else if c.toNat < 32 ∨ c = '<' ∨ c = '>' ∨ c = '&' then
    ['\\', 'u', '0', '0', hexDigit (c.toNat / 16), hexDigit (c.toNat % 16)]
  else if c = '\u2028' ∨ c = '\u2029' then ['\\', 'u', '2', '0', '2', hexDigit (c.toNat % 16)]
  else [c]

/-- With fuel for every byte. A byte that starts no character is written as an escape. -/
def escapeFuel : ℕ → Bytes → Text
  | 0, _ => []
  | _ + 1, [] => []
  | n + 1, u :: b =>
      match firstChar (u :: b) with
      | some c => escape c ++ escapeFuel n ((u :: b).drop c.utf8Size)
      | none => ['\\', 'u', 'f', 'f', 'f', 'd'] ++ escapeFuel n b

def marshalString (b : Bytes) : Text := '"' :: (escapeFuel b.length b ++ ['"'])

def marshal (m : Message) : Text :=
  writeObject escape [(Field.commandType.name, marshalString m.commandType),
    (Field.extraMetadata.name, marshalString m.extraMetadata),
    (Field.rawMessage.name, marshalString m.rawMessage)]

def encodeMessage (commandType extraMetadata rawMessage : Bytes) : Bytes :=
  encode (marshal ⟨commandType, extraMetadata, rawMessage⟩)

/-- Letters without their case; two other characters count as `s` and `k`. -/
def foldCase (c : Char) : Char :=
  if c = '\u017f' then 's' else if c = '\u212a' then 'k' else c.toLower

def Field.ofName (name : Text) : Option Field :=
  [Field.commandType, .extraMetadata, .rawMessage].find? fun f =>
    f.name.map foldCase = name.map foldCase

/-- A member of an object. `null` sets nothing, and other values that are no strings are
errors. -/
def setMember (m : Message) (member : Utf16.Units × Value) : Option Message :=
  match Field.ofName (Utf16.decode member.1) with
  | none => some m
  | some f =>
      match member.2 with
      | .string s => some (m.set f (encode (Utf16.decode s)))
      | .null => some m
      | _ => none

def unmarshal : Value → Option Message
  | .null => some .empty
  | .object members => members.foldlM setMember .empty
  | _ => none

/-- `DecodeMessage`, with no result where `log.Fatal` ends the program. -/
def decodeMessage (resp : Bytes) : Option Message := (parse (decode resp)).bind unmarshal

def ValidUtf8 (b : Bytes) : Prop := Valid b

lemma escapes_escape : Escapes escape := by
  intro c members s stack
  unfold escape
  split_ifs with hq hn hr ht hlow hsep
  · rcases hq with rfl | rfl <;> exact run_backslash (by decide) rfl
  · subst hn
    exact run_backslash (by decide) rfl
  · subst hr
    exact run_backslash (by decide) rfl
  · subst ht
    exact run_backslash (by decide) rfl
  · have hc : c.toNat < 64 := by
      rcases hlow with h | rfl | rfl | rfl
      · omega
      all_goals decide
    exact run_hex_char (w := 0) (x := 0) rfl rfl (hexValue_hexDigit (by omega))
      (hexValue_hexDigit (by omega)) (by omega) (by omega)
  · have hc : c.toNat = 0x2028 ∨ c.toNat = 0x2029 := by
      rcases hsep with rfl | rfl
      · exact .inl rfl
      · exact .inr rfl
    exact run_hex_char (w := 2) (x := 0) (y := 2) rfl rfl rfl (hexValue_hexDigit (by omega))
      (by omega) (by omega)
  · simp only [not_or] at hq hlow
    exact run_plain hq.1 hq.2 (by omega)

lemma run_escapeFuel {members : Option Members} {s : Utf16.Units} {stack : List Frame} (n : ℕ)
    (b : Bytes) : run ⟨.string members s .plain, stack⟩ (escapeFuel n b) =
      some ⟨.string members (s ++ Utf16.encode (decodeFuel n b)) .plain, stack⟩ := by
  induction n generalizing b s with
  | zero => simp [escapeFuel, decodeFuel, Utf16.encode]
  | succ n ih =>
    cases b with
    | nil => simp [escapeFuel, decodeFuel, Utf16.encode]
    | cons u b =>
      simp only [escapeFuel, decodeFuel]
      cases firstChar (u :: b) with
      | some c =>
        simp only
        rw [run_append, escapes_escape c, Option.bind_some, ih]
        simp [Utf16.encode]
      | none =>
        simp only
        have hhex : run ⟨.string members s .plain, stack⟩ ['\\', 'u', 'f', 'f', 'f', 'd'] =
            some ⟨.string members (s ++ Utf16.encodeChar replacement) .plain, stack⟩ :=
          run_hex_char (w := 15) (x := 15) (y := 15) (z := 13) rfl rfl rfl rfl rfl (by decide)
        rw [run_append, hhex, Option.bind_some, ih]
        simp [Utf16.encode]

lemma parse_marshalString (b : Bytes) :
    parse (marshalString b) = some (.string (Utf16.encode (decode b))) := by
  have hopen : step ⟨.value, []⟩ '"' = some ⟨.string none [] .plain, []⟩ := rfl
  rw [parse, marshalString, run_cons, hopen, Option.bind_some, run_append, run_escapeFuel]
  rfl

lemma parse_marshal (m : Message) : parse (marshal m) =
    some (.object [(Utf16.encode Field.commandType.name,
        .string (Utf16.encode (decode m.commandType))),
      (Utf16.encode Field.extraMetadata.name, .string (Utf16.encode (decode m.extraMetadata))),
      (Utf16.encode Field.rawMessage.name, .string (Utf16.encode (decode m.rawMessage)))]) := by
  apply parse_writeObject escapes_escape
  simp [readMembers, parse_marshalString]

lemma setMember_field (m : Message) (f : Field) (t : Text) :
    setMember m (Utf16.encode f.name, .string (Utf16.encode t)) = some (m.set f (encode t)) := by
  have hf : Field.ofName f.name = some f := by cases f <;> decide
  simp [setMember, hf]

/-- What comes back is each string with its invalid bytes replaced. -/
lemma decodeMessage_encodeMessage (c e r : Bytes) : decodeMessage (encodeMessage c e r) =
    some ⟨encode (decode c), encode (decode e), encode (decode r)⟩ := by
  rw [decodeMessage, encodeMessage, decode_encode, parse_marshal, Option.bind_some, unmarshal]
  simp only [List.foldlM_cons, List.foldlM_nil, setMember_field]
  rfl

lemma encode_decode_iff (b : Bytes) : encode (decode b) = b ↔ ValidUtf8 b := by
  constructor
  · intro h
    exact ⟨decode b, h.symm⟩
  · rintro ⟨t, rfl⟩
    rw [decode_encode]

/-- A message comes back exactly when its strings are valid UTF-8. -/
theorem decodeMessage_eq_iff (c e r : Bytes) :
    decodeMessage (encodeMessage c e r) = some ⟨c, e, r⟩ ↔
      ValidUtf8 c ∧ ValidUtf8 e ∧ ValidUtf8 r := by
  rw [decodeMessage_encodeMessage, Option.some.injEq, Message.mk.injEq, encode_decode_iff,
    encode_decode_iff, encode_decode_iff]

end Eventing.MessageCodec
