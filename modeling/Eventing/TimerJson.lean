import Mathlib.Tactic.IntervalCases
import Eventing.Decimal
import Eventing.Terminated

/-!
# Timer blobs

`RegisterCallback` (`worker.cc`) keeps a timer as a JSON object of three strings,
written and read back by an external library. What the code relies on is a
`Json`; `compactJson` is one, without blanks and with the escapes of that library.
-/
namespace Eventing.Timer

structure Blob where
  callbackFunc : Text
  docId : Text
  startTimestamp : Text
  deriving DecidableEq

/-- What a `char` pointer to the text stands for. -/
def cString (s : Text) : Text := Terminated.cut '\x00' s

lemma nul_notMem_cString (s : Text) : '\x00' ∉ cString s := Terminated.notMem_cut _ s

lemma cString_of_notMem {s : Text} (h : '\x00' ∉ s) : cString s = s := Terminated.cut_of_notMem h

def Blob.NulFree (b : Blob) : Prop :=
  '\x00' ∉ b.callbackFunc ∧ '\x00' ∉ b.docId ∧ '\x00' ∉ b.startTimestamp

/-- What `SendTimerCallback` makes of a stored text: it returns on a parse error,
and an assertion fails on a value that is not a timer blob. -/
inductive Parsed
  | error
  | other
  | timer (b : Blob)
  deriving DecidableEq

structure Json where
  write : Blob → Text
  parse : Text → Parsed
  parse_write : ∀ b, b.NulFree → parse (write b) = .timer b
  parse_empty : parse [] = .error

def hexDigit : ℕ → Char := Decimal.hexDigit .upper

def escape (c : Char) : Text :=
  if c = '"' ∨ c = '\\' then ['\\', c]
  else match c.toNat with
    | 8 => ['\\', 'b']
    | 9 => ['\\', 't']
    | 10 => ['\\', 'n']
    | 12 => ['\\', 'f']
    | 13 => ['\\', 'r']
    | n => if n < 32 then ['\\', 'u', '0', '0', hexDigit (n / 16), hexDigit (n % 16)] else [c]

/-- A string and its closing quote; the opening one is part of `compactJson.write`. -/
def writeString (s : Text) : Text := s.flatMap escape ++ ['"']

def hexValue (c : Char) : ℕ := if c.toNat < 58 then c.toNat - 48 else c.toNat - 55

def unescape (c : Char) : Char :=
  match c with
  | 'b' => Char.ofNat 8
  | 't' => Char.ofNat 9
  | 'n' => Char.ofNat 10
  | 'f' => Char.ofNat 12
  | 'r' => Char.ofNat 13
  | c => c

def readString : Text → Option (Text × Text)
  | [] => none
  | '"' :: rest => some ([], rest)
  | '\\' :: 'u' :: _ :: _ :: a :: b :: rest =>
      (readString rest).map fun p => (Char.ofNat (16 * hexValue a + hexValue b) :: p.1, p.2)
  | '\\' :: c :: rest => (readString rest).map fun p => (unescape c :: p.1, p.2)
  | c :: rest => (readString rest).map fun p => (c :: p.1, p.2)

lemma readString_escape (c : Char) (rest : Text) :
    readString (escape c ++ rest) = (readString rest).map fun p => (c :: p.1, p.2) := by
  by_cases hq : c = '"' ∨ c = '\\'
  · rcases hq with rfl | rfl <;> simp [escape, readString, unescape]
  by_cases hc : c.toNat < 32
  · have hcn : c = Char.ofNat c.toNat := (Char.ofNat_toNat c).symm
    generalize c.toNat = n at hc hcn
    subst hcn
    interval_cases n <;> rfl
  · have hesc : escape c = [c] := by
      unfold escape
      rw [if_neg hq]
      split <;> first | omega | rw [if_neg hc]
    rw [not_or] at hq
    rw [hesc, List.singleton_append, readString.eq_def]
    split <;> simp_all

@[simp] lemma readString_writeString (s rest : Text) :
    readString (writeString s ++ rest) = some (s, rest) := by
  unfold writeString
  induction s with
  | nil => simp [readString]
  | cons c cs ih =>
    rw [List.flatMap_cons, List.append_assoc, List.append_assoc, readString_escape,
      ← List.append_assoc, ih]
    rfl

def expect (literal : Text) (s : Text) : Option Text :=
  if literal.isPrefixOf s then some (s.drop literal.length) else none

@[simp] lemma expect_append (literal rest : Text) :
    expect literal (literal ++ rest) = some rest := by
  simp [expect]

def openFunc : Text := "\x7b\"callback_func\":\"".toList
def openDocId : Text := ",\"doc_id\":\"".toList
def openTimestamp : Text := ",\"start_timestamp\":\"".toList
def close : Text := "\x7d".toList

def readBlob (s : Text) : Option Blob := do
  let s ← expect openFunc s
  let (callbackFunc, s) ← readString s
  let s ← expect openDocId s
  let (docId, s) ← readString s
  let s ← expect openTimestamp s
  let (startTimestamp, s) ← readString s
  if s = close then some ⟨callbackFunc, docId, startTimestamp⟩ else none

/-- The blobs as the library writes them. Every other text counts as an error. -/
def compactJson : Json where
  write b := openFunc ++ (writeString b.callbackFunc ++ (openDocId ++ (writeString b.docId ++
    (openTimestamp ++ (writeString b.startTimestamp ++ close)))))
  parse s := (readBlob s).elim .error .timer
  parse_write b _ := by simp [readBlob]
  parse_empty := by decide

end Eventing.Timer
