import Eventing.Debugger
import Eventing.SendUpdate
import Eventing.Utf16

/-!
# The text of a command to the debugger

`v8DebugHandler` (`http_handlers.go`), which serves port 6062, reads the body of a request into a
buffer and calls the method of the worker for the command (`worker.go`). The requests of the
debugger copy the text into 1000 units for V8 (`AsciiToUtf16`, `worker.cc`).
-/
namespace Eventing.DebugCommand
open Debugger SendUpdate Utf8
open Utf16 (Units)

variable {ω : Type*}

/-- The commands whose methods send something to V8. -/
def kind (command : Text) : Option Kind :=
  if command = "continue".toList then some .cont
  else if command = "evaluate".toList then some .evaluate
  else if command = "setbreakpoint".toList then some .setBreakpoint
  else if command = "clearbreakpoint".toList then some .clearBreakpoint
  else if command = "listbreakpoints".toList then some .listBreakpoints
  else none

/-- `p` after `r.Body.Read(p)`, which reads so many bytes. -/
def readBody (body : Bytes) (read : ℕ) : Bytes :=
  body.take read ++ List.replicate (body.length - read) 0

def kBufferSize : ℕ := 1000

/-- The units that are sent. Where they and the zero behind them do not fit into the buffer, the
copy runs over its end, and nothing is said of what happens then. -/
def asciiToUtf16 (inputBuffer : Bytes) : Option Units :=
  let units := (cString inputBuffer).map fun u => UInt16.ofNat u.toNat
  if units.length < kBufferSize then some units else none

/-- What becomes of a request: it is answered by `Application missing`, or with an empty text,
or by what a request of the debugger with these units returns. -/
inductive Outcome (ω : Type*)
  | missing
  | empty
  | request (w : ω) (k : Kind) (units : Option Units)
  deriving DecidableEq

def v8DebugHandler (workerTable : Text → Option ω) (command appName : Text) (body : Bytes)
    (read : ℕ) : Outcome ω :=
  match workerTable appName with
  | none => .missing
  | some w =>
      match kind command with
      -- The methods for `lookup`, `backtrace`, `frame` and `source` return an empty text.
      | none => .empty
      | some k => .request w k (asciiToUtf16 (readBody body read))

def Ascii (t : Text) : Prop := ∀ c ∈ t, c.toNat < 128

instance (t : Text) : Decidable (Ascii t) := inferInstanceAs (Decidable (∀ c ∈ t, _))

section Char
variable {c : Char}

lemma utf8EncodeChar_of_ascii (h : c.toNat < 128) :
    String.utf8EncodeChar c = [UInt8.ofNat c.toNat] := by
  rw [String.utf8EncodeChar]
  exact if_pos (Nat.le_of_lt_succ h)

lemma encodeChar_of_ascii (h : c.toNat < 128) : Utf16.encodeChar c = [UInt16.ofNat c.toNat] :=
  if_pos (Nat.lt_trans h (by decide))

/-- A character has at least as many bytes as units, and more when it is not ASCII. -/
lemma length_encodeChar_lt (h : ¬ c.toNat < 128) :
    (Utf16.encodeChar c).length < (String.utf8EncodeChar c).length := by
  rw [String.length_utf8EncodeChar, Char.utf8Size, Utf16.encodeChar]
  simp only [UInt32.le_iff_toNat_le]
  change _ < if c.toNat ≤ 127 then 1 else if c.toNat ≤ 2047 then 2
    else if c.toNat ≤ 65535 then 3 else 4
  split_ifs <;> simp <;> omega

end Char

section Text
variable {t : Text}

lemma length_encode_le (t : Text) : (Utf16.encode t).length ≤ (encode t).length := by
  induction t with
  | nil => rfl
  | cons c t ih =>
    simp only [Utf16.encode, encode, List.flatMap_cons, List.length_append] at ih ⊢
    by_cases hc : c.toNat < 128
    · rw [encodeChar_of_ascii hc, utf8EncodeChar_of_ascii hc]
      simpa using ih
    · have hlt := length_encodeChar_lt hc
      omega

lemma ascii_of_length_eq (h : (Utf16.encode t).length = (encode t).length) : Ascii t := by
  induction t with
  | nil => exact fun c hc => absurd hc List.not_mem_nil
  | cons c t ih =>
    have hle := length_encode_le t
    simp only [Utf16.encode, encode, List.flatMap_cons, List.length_append] at h hle ih
    by_cases hc : c.toNat < 128
    · rw [encodeChar_of_ascii hc, utf8EncodeChar_of_ascii hc] at h
      exact List.forall_mem_cons.mpr ⟨hc, ih (by simpa using h)⟩
    · have hlt := length_encodeChar_lt hc
      omega

lemma map_encode_of_ascii (h : Ascii t) :
    (encode t).map (fun u => UInt16.ofNat u.toNat) = Utf16.encode t := by
  induction t with
  | nil => rfl
  | cons c t ih =>
    obtain ⟨hc, ht⟩ := List.forall_mem_cons.mp h
    have hrest := ih ht
    simp only [Utf16.encode, encode, List.flatMap_cons, List.map_append] at hrest ⊢
    rw [encodeChar_of_ascii hc, utf8EncodeChar_of_ascii hc, hrest, List.map_singleton,
      UInt8.toNat_ofNat_of_lt' (Nat.lt_trans hc (by decide))]

lemma length_encode_of_ascii (h : Ascii t) : (encode t).length = t.length := by
  induction t with
  | nil => rfl
  | cons c t ih =>
    obtain ⟨hc, ht⟩ := List.forall_mem_cons.mp h
    have hrest := ih ht
    simp only [encode, List.flatMap_cons, List.length_append] at hrest ⊢
    rw [utf8EncodeChar_of_ascii hc, hrest, List.length_singleton, List.length_cons, Nat.add_comm]

lemma zero_mem_encode (h : '\x00' ∈ t) : 0 ∈ Utf16.encode t :=
  List.mem_flatMap.mpr ⟨'\x00', h, by decide⟩

lemma zero_notMem_cString (b : Bytes) : 0 ∉ (cString b).map fun u => UInt16.ofNat u.toNat := by
  intro h
  obtain ⟨u, hu, hzero⟩ := List.mem_map.mp h
  have hne : u ≠ 0 := by simpa using List.mem_takeWhile_imp hu
  have hu0 : u.toNat = 0 := by
    have h0 : (UInt16.ofNat u.toNat).toNat = 0 := congrArg UInt16.toNat hzero
    rwa [UInt16.toNat_ofNat_of_lt' (Nat.lt_trans u.toNat_lt (by decide))] at h0
  exact hne (UInt8.toNat_inj.mp hu0)

end Text

lemma length_cString_readBody (body : Bytes) {read : ℕ} (hread : read ≤ body.length) :
    (cString (readBody body read)).length ≤ read := by
  rw [readBody, cString, Terminated.cut, List.takeWhile_append]
  split_ifs with hall
  · cases hrest : body.length - read <;> simp [List.replicate_succ, hread]
  · calc _ ≤ (body.take read).length := (List.takeWhile_prefix _).length_le
      _ = read := List.length_take_of_le hread

lemma readBody_length (body : Bytes) : readBody body body.length = body := by
  simp [readBody]

lemma request_inj {w : ω} {k : Kind} {u v : Option Units} :
    Outcome.request w k u = .request w k v ↔ u = v := by
  simp

lemma asciiToUtf16_eq_some_iff {b : Bytes} {units : Units} :
    asciiToUtf16 b = some units ↔
      (cString b).map (fun u => UInt16.ofNat u.toNat) = units ∧ units.length < kBufferSize := by
  simp only [asciiToUtf16, Option.ite_none_right_eq_some, Option.some_inj]
  constructor
  · rintro ⟨hlt, rfl⟩
    exact ⟨rfl, hlt⟩
  · rintro ⟨rfl, hlt⟩
    exact ⟨hlt, rfl⟩

/-- The text of a request for a command reaches V8 as it is and within the buffer, exactly when all
of it has been read, it is ASCII without a NUL, and shorter than the buffer. -/
theorem sent_iff (workerTable : Text → Option ω) {command appName t : Text} {w : ω} {k : Kind}
    {read : ℕ} (hw : workerTable appName = some w) (hk : kind command = some k)
    (hread : read ≤ (encode t).length) (h : read = (encode t).length ∨ Ascii t) :
    v8DebugHandler workerTable command appName (encode t) read =
        .request w k (some (Utf16.encode t)) ↔
      read = (encode t).length ∧ Ascii t ∧ '\x00' ∉ t ∧ t.length < kBufferSize := by
  simp only [v8DebugHandler, hw, hk, request_inj, asciiToUtf16_eq_some_iff]
  constructor
  · rintro ⟨hunits, hlt⟩
    have hnul : '\x00' ∉ t := fun hmem => zero_notMem_cString _ (hunits ▸ zero_mem_encode hmem)
    have hle : (Utf16.encode t).length ≤ read := by
      rw [← hunits, List.length_map]
      exact length_cString_readBody _ hread
    have hascii : Ascii t := by
      rcases h with rfl | hascii
      · rw [readBody_length, cString_encode hnul] at hunits
        exact ascii_of_length_eq (by rw [← hunits, List.length_map])
      · exact hascii
    rw [← map_encode_of_ascii hascii, List.length_map] at hle hlt
    exact ⟨hread.antisymm hle, hascii, hnul, length_encode_of_ascii hascii ▸ hlt⟩
  · rintro ⟨rfl, hascii, hnul, hlt⟩
    rw [readBody_length, cString_encode hnul, ← map_encode_of_ascii hascii, List.length_map,
      length_encode_of_ascii hascii]
    exact ⟨rfl, hlt⟩

/-- The command `evaluate` of the one worker, with the text `x`. -/
theorem sent_iff_evaluate :
    v8DebugHandler (fun _ => some ()) "evaluate".toList [] (encode ['x']) 1 =
      .request () .evaluate (some (Utf16.encode ['x'])) :=
  (sent_iff (t := ['x']) (k := .evaluate) (fun _ => some ()) rfl rfl (by decide)
    (.inl (by decide))).mpr ⟨by decide, by simp [Ascii], by simp, by decide⟩

-- Of `é`, its two bytes are sent, a unit each.
example : v8DebugHandler (fun _ => some ()) "evaluate".toList [] (encode ['é']) 2 =
    .request () .evaluate (some [0xc3, 0xa9]) := by
  decide

end Eventing.DebugCommand
