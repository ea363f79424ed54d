import Eventing.Delimited
import Eventing.Utf8

/-!
# The lines of a local connection

`DoWork` (`local_tcp_server.go`, `tcp/main.go`) answers each line of a connection with the line
in upper case. It reads a line with a new `bufio.Reader`, which takes up to a buffer of bytes
from the connection at a time. What a client sends comes in chunks; a read gets what is left of
the first one, as far as there is room.
-/
namespace Eventing.LineReader
open Delimited Utf8

abbrev newline : UInt8 := 10

def bufferSize : ℕ := 4096

/-- `conn.Read`, with no result when the connection is closed. -/
def read (room : ℕ) : List Bytes → Option (Bytes × List Bytes)
  | [] => none
  | [] :: chunks => read room chunks
  | (u :: c) :: chunks =>
      if (u :: c).length ≤ room then some (u :: c, chunks)
      else some ((u :: c).take room, (u :: c).drop room :: chunks)

/-- A line, what its reader has read behind it, and the chunks that are left. -/
structure Line where
  text : Bytes
  behind : Bytes
  chunks : List Bytes
  deriving DecidableEq

/-- `ReadString('\n')`, with fuel for every byte. `line` is what has been read so far and
`buffered` how much of it is in the buffer, where a full one is set aside. -/
def readStringFuel : ℕ → Bytes → ℕ → List Bytes → Line
  | 0, line, _, chunks => ⟨line, [], chunks⟩
  | n + 1, line, buffered, chunks =>
      match read (bufferSize - buffered) chunks with
      | none => ⟨line, [], []⟩
      | some (part, chunks) =>
          if newline ∈ part then
            ⟨line ++ firstLine newline part, afterLine newline part, chunks⟩
          else
            let buffered := buffered + part.length
            readStringFuel n (line ++ part) (if buffered = bufferSize then 0 else buffered) chunks

def readString (chunks : List Bytes) : Line :=
  readStringFuel (chunks.flatten.length + 1) [] 0 chunks

/-- What `DoWork` reads up to an empty message, with fuel for every byte. -/
def linesReadFuel : ℕ → List Bytes → List Line
  | 0, _ => []
  | n + 1, chunks =>
      let r := readString chunks
      if r.text = [] then [] else r :: linesReadFuel n r.chunks

def linesRead (chunks : List Bytes) : List Line :=
  linesReadFuel (chunks.flatten.length + 1) chunks

def greeting : Bytes := encode "hello from server".toList

/-- What `DoWork` writes, where `toUpper` is `strings.ToUpper`. -/
def doWork (toUpper : Bytes → Bytes) (chunks : List Bytes) : List Bytes :=
  (greeting :: (linesRead chunks).map Line.text).map toUpper

/-- The greeting is followed by all lines of the stream in upper case. -/
def Answered (toUpper : Bytes → Bytes) (chunks : List Bytes) : Prop :=
  doWork toUpper chunks = (greeting :: lines newline chunks.flatten).map toUpper

instance (toUpper : Bytes → Bytes) (chunks : List Bytes) : Decidable (Answered toUpper chunks) :=
  inferInstanceAs (Decidable (_ = _))

/-- What the reads of a connection deliver, with fuel for every byte. Behind a newline there is
a new reader, with an empty buffer. -/
def readsFuel : ℕ → ℕ → List Bytes → List Bytes
  | 0, _, _ => []
  | n + 1, buffered, chunks =>
      match read (bufferSize - buffered) chunks with
      | none => []
      | some (part, chunks) =>
          let buffered := buffered + part.length
          part :: readsFuel n
            (if newline ∈ part ∨ buffered = bufferSize then 0 else buffered) chunks

def reads (chunks : List Bytes) : List Bytes := readsFuel (chunks.flatten.length + 1) 0 chunks

/-- There is nothing behind the newline of a read, or it is the start of a line that goes on
in later reads and is the same without it in upper case. -/
def Harmless (toUpper : Bytes → Bytes) (behind later : Bytes) : Prop :=
  behind = [] ∨ newline ∉ behind ∧ later ≠ [] ∧
    toUpper (behind ++ firstLine newline later) = toUpper (firstLine newline later)

/-- Every read is harmless with what is delivered after it. -/
def AllHarmless (toUpper : Bytes → Bytes) (parts : List Bytes) : Prop :=
  ∀ part back, part :: back <:+ parts → Harmless toUpper (afterLine newline part) back.flatten

section
variable {room buffered n : ℕ} {part line : Bytes} {chunks rest : List Bytes}
  {toUpper : Bytes → Bytes}

lemma read_eq_none (h : read room chunks = none) : chunks.flatten = [] := by
  induction chunks with
  | nil => rfl
  | cons c chunks ih =>
    cases c with
    | nil => exact ih h
    | cons u c =>
      rw [read] at h
      split_ifs at h

lemma read_eq_some (hroom : 0 < room) (h : read room chunks = some (part, rest)) :
    chunks.flatten = part ++ rest.flatten ∧ part ≠ [] ∧ part.length ≤ room := by
  induction chunks with
  | nil => contradiction
  | cons c chunks ih =>
    cases c with
    | nil => exact ih h
    | cons u c =>
      rw [read] at h
      split_ifs at h with hlen
      · obtain ⟨rfl, rfl⟩ := Prod.mk.inj (Option.some.inj h)
        exact ⟨rfl, List.cons_ne_nil u c, hlen⟩
      · obtain ⟨rfl, rfl⟩ := Prod.mk.inj (Option.some.inj h)
        refine ⟨?_, ?_, List.length_take_le _ _⟩
        · rw [List.flatten_cons, List.flatten_cons, ← List.append_assoc, List.take_append_drop]
        · simp
          omega

lemma length_lt_of_read (hroom : 0 < room) (h : read room chunks = some (part, rest)) :
    rest.flatten.length < chunks.flatten.length := by
  obtain ⟨hstream, hpart, -⟩ := read_eq_some hroom h
  have hpos := List.length_pos_of_ne_nil hpart
  rw [hstream, List.length_append]
  omega

/-- A reader gets the first line of the stream, whatever it is cut into. -/
lemma readStringFuel_spec (line : Bytes) (hb : buffered < bufferSize)
    (hn : chunks.flatten.length < n) :
    (readStringFuel n line buffered chunks).text = line ++ firstLine newline chunks.flatten ∧
      afterLine newline chunks.flatten = (readStringFuel n line buffered chunks).behind ++
        (readStringFuel n line buffered chunks).chunks.flatten := by
  induction n generalizing line buffered chunks with
  | zero => omega
  | succ n ih =>
    rw [readStringFuel]
    cases hread : read (bufferSize - buffered) chunks with
    | none =>
      rw [read_eq_none hread]
      simp [firstLine, afterLine]
    | some p =>
      obtain ⟨part, rest⟩ := p
      obtain ⟨hstream, -, hlen⟩ := read_eq_some (by omega) hread
      have hlt := length_lt_of_read (by omega) hread
      simp only
      split_ifs with hmem hfull
      · rw [hstream, firstLine_append_of_mem hmem, afterLine_append_of_mem hmem]
        exact ⟨rfl, rfl⟩
      all_goals
        rw [hstream, firstLine_append hmem, afterLine_append hmem, ← List.append_assoc]
        exact ih _ (by first | decide | omega) (by omega)

lemma readString_text (chunks : List Bytes) :
    (readString chunks).text = firstLine newline chunks.flatten :=
  (readStringFuel_spec [] (by decide) (Nat.lt_succ_self _)).1

lemma afterLine_eq (chunks : List Bytes) : afterLine newline chunks.flatten =
    (readString chunks).behind ++ (readString chunks).chunks.flatten :=
  (readStringFuel_spec [] (by decide) (Nat.lt_succ_self _)).2

lemma firstLine_ne_nil {text : Bytes} (h : text ≠ []) : firstLine newline text ≠ [] := by
  obtain ⟨u, text, rfl⟩ := List.exists_cons_of_ne_nil h
  rw [firstLine]
  split_ifs <;> simp

lemma linesReadFuel_of_nil (h : chunks.flatten = []) (n : ℕ) : linesReadFuel n chunks = [] := by
  cases n with
  | zero => rfl
  | succ n =>
    have htext : (readString chunks).text = [] := by
      rw [readString_text, h]
      rfl
    rw [linesReadFuel, htext]
    rfl

lemma linesReadFuel_succ (h : chunks.flatten ≠ []) (n : ℕ) : linesReadFuel (n + 1) chunks =
    readString chunks :: linesReadFuel n (readString chunks).chunks := by
  have htext : (readString chunks).text ≠ [] := by
    rw [readString_text]
    exact firstLine_ne_nil h
  rw [linesReadFuel, if_neg htext]

lemma length_rest_lt (h : chunks.flatten ≠ []) :
    (readString chunks).chunks.flatten.length < chunks.flatten.length := by
  have hsplit := firstLine_append_afterLine newline chunks.flatten
  have hpos := List.length_pos_of_ne_nil (firstLine_ne_nil h)
  have hlen := congrArg List.length hsplit
  rw [afterLine_eq, List.length_append, List.length_append] at hlen
  omega

lemma length_linesReadFuel_le (n : ℕ) (chunks : List Bytes) :
    (linesReadFuel n chunks).length ≤ (lines newline chunks.flatten).length := by
  induction n generalizing chunks with
  | zero => exact Nat.zero_le _
  | succ n ih =>
    by_cases h : chunks.flatten = []
    · rw [linesReadFuel_of_nil h]
      exact Nat.zero_le _
    · have hrest := ih (readString chunks).chunks
      have hlines : (lines newline (readString chunks).chunks.flatten).length ≤
          (lines newline ((readString chunks).behind ++ (readString chunks).chunks.flatten)).length :=
        length_lines_append (readString chunks).behind
      rw [linesReadFuel_succ h, lines_of_ne_nil h, afterLine_eq, List.length_cons, List.length_cons]
      omega

/-- A reader that has read behind its line has lost the start of the next one, or whole
lines. -/
lemma harmless_iff (toUpper : Bytes → Bytes) {behind : Bytes} {chunks : List Bytes} {n : ℕ}
    (hn : chunks.flatten.length < n) {rest : Prop}
    (ih : (linesReadFuel n chunks).map (fun r => toUpper r.text) =
      (lines newline chunks.flatten).map toUpper ↔ rest) :
    (linesReadFuel n chunks).map (fun r => toUpper r.text) =
        (lines newline (behind ++ chunks.flatten)).map toUpper ↔
      Harmless toUpper behind chunks.flatten ∧ rest := by
  by_cases hbehind : behind = []
  · rw [hbehind, List.nil_append, ih]
    simp [Harmless]
  by_cases hmem : newline ∈ behind
  · -- A whole line is lost.
    have hle := length_linesReadFuel_le n chunks
    have hlt : (lines newline chunks.flatten).length <
        (lines newline (behind ++ chunks.flatten)).length := length_lines_lt_append hmem
    constructor
    · intro h
      have hlen := congrArg List.length h
      rw [List.length_map, List.length_map] at hlen
      omega
    · rintro ⟨hharmless, -⟩
      exact absurd hmem (hharmless.resolve_left hbehind).1
  rw [lines_append hmem hbehind]
  by_cases hrest : chunks.flatten = []
  · rw [linesReadFuel_of_nil hrest]
    simp [Harmless, hbehind, hrest]
  · obtain ⟨n, rfl⟩ : ∃ k, n = k + 1 := ⟨n - 1, by omega⟩
    rw [lines_of_ne_nil hrest, linesReadFuel_succ hrest] at ih
    rw [linesReadFuel_succ hrest]
    simp only [List.map_cons, List.cons.injEq, readString_text, true_and] at ih ⊢
    rw [ih]
    apply and_congr_left'
    constructor
    · exact fun h => .inr ⟨hmem, hrest, h.symm⟩
    · exact fun h => (h.resolve_left hbehind).2.2.symm

lemma buffered_lt {b : ℕ} (hb : b ≤ bufferSize) (part : Bytes) :
    (if newline ∈ part ∨ b = bufferSize then 0 else b) < bufferSize := by
  split_ifs with h
  · decide
  · rw [not_or] at h
    omega

lemma flatten_readsFuel (hb : buffered < bufferSize) (hn : chunks.flatten.length < n) :
    (readsFuel n buffered chunks).flatten = chunks.flatten := by
  induction n generalizing buffered chunks with
  | zero => omega
  | succ n ih =>
    rw [readsFuel]
    cases hread : read (bufferSize - buffered) chunks with
    | none => exact (read_eq_none hread).symm
    | some p =>
      obtain ⟨part, rest⟩ := p
      obtain ⟨hstream, -, hlen⟩ := read_eq_some (by omega) hread
      have hlt := length_lt_of_read (by omega) hread
      simp only
      rw [List.flatten_cons, ih (buffered_lt (by omega) part) (by omega), hstream]

lemma readsFuel_eq {m : ℕ} (hb : buffered < bufferSize) (hn : chunks.flatten.length < n)
    (hm : chunks.flatten.length < m) : readsFuel n buffered chunks = readsFuel m buffered chunks := by
  induction n generalizing m buffered chunks with
  | zero => omega
  | succ n ih =>
    obtain ⟨m, rfl⟩ : ∃ k, m = k + 1 := ⟨m - 1, by omega⟩
    rw [readsFuel, readsFuel]
    cases hread : read (bufferSize - buffered) chunks with
    | none => rfl
    | some p =>
      obtain ⟨part, rest⟩ := p
      obtain ⟨-, -, hlen⟩ := read_eq_some (by omega) hread
      have hlt := length_lt_of_read (by omega) hread
      simp only
      rw [ih (m := m) (buffered_lt (by omega) part) (by omega) (by omega)]

lemma allHarmless_cons {parts : List Bytes} : AllHarmless toUpper (part :: parts) ↔
    Harmless toUpper (afterLine newline part) parts.flatten ∧ AllHarmless toUpper parts := by
  constructor
  · intro h
    exact ⟨h part parts List.suffix_rfl, fun p back hs => h p back (hs.trans (List.suffix_cons part parts))⟩
  · rintro ⟨hpart, hparts⟩ p back hs
    rcases List.suffix_cons_iff.mp hs with heq | hs
    · obtain ⟨rfl, rfl⟩ := List.cons.inj heq
      exact hpart
    · exact hparts p back hs

lemma allHarmless_nil : AllHarmless toUpper [] := by
  intro part back hs
  simp at hs

lemma length_readStringFuel_le (line : Bytes) (hb : buffered < bufferSize)
    (hn : chunks.flatten.length < n) :
    (readStringFuel n line buffered chunks).chunks.flatten.length ≤ chunks.flatten.length := by
  have hafter := (readStringFuel_spec line hb hn).2
  have hsplit := congrArg List.length (firstLine_append_afterLine newline chunks.flatten)
  rw [hafter, List.length_append, List.length_append] at hsplit
  omega

/-- Of the reads of one reader only the last can deliver anything behind a newline. -/
lemma allHarmless_readsFuel (hb : buffered < bufferSize) (hn : chunks.flatten.length < n) :
    AllHarmless toUpper (readsFuel n buffered chunks) ↔
      Harmless toUpper (readStringFuel n line buffered chunks).behind
          (readStringFuel n line buffered chunks).chunks.flatten ∧
        AllHarmless toUpper (readsFuel n 0 (readStringFuel n line buffered chunks).chunks) := by
  induction n generalizing line buffered chunks with
  | zero => omega
  | succ n ih =>
    cases hread : read (bufferSize - buffered) chunks with
    | none =>
      have hreads : readsFuel (n + 1) buffered chunks = [] := by rw [readsFuel, hread]
      rw [hreads, readStringFuel, hread]
      exact iff_of_true allHarmless_nil ⟨.inl rfl, allHarmless_nil⟩
    | some p =>
      obtain ⟨part, rest⟩ := p
      obtain ⟨-, -, hlen⟩ := read_eq_some (by omega) hread
      have hlt := length_lt_of_read (by omega) hread
      by_cases hmem : newline ∈ part
      · have hreads : readsFuel (n + 1) buffered chunks = part :: readsFuel n 0 rest := by
          rw [readsFuel, hread]
          simp [hmem]
        have hstring : readStringFuel (n + 1) line buffered chunks =
            ⟨line ++ firstLine newline part, afterLine newline part, rest⟩ := by
          rw [readStringFuel, hread]
          simp [hmem]
        have hfuel : readsFuel (n + 1) 0 rest = readsFuel n 0 rest :=
          readsFuel_eq (by decide) (by omega) (by omega)
        rw [hreads, hstring, hfuel, allHarmless_cons, flatten_readsFuel (by decide) (by omega)]
      · have hreads : readsFuel (n + 1) buffered chunks = part :: readsFuel n
            (if buffered + part.length = bufferSize then 0 else buffered + part.length) rest := by
          rw [readsFuel, hread]
          simp [hmem]
        have hstring : readStringFuel (n + 1) line buffered chunks = readStringFuel n (line ++ part)
            (if buffered + part.length = bufferSize then 0 else buffered + part.length) rest := by
          rw [readStringFuel, hread]
          simp [hmem]
        have hroom : (if buffered + part.length = bufferSize then 0 else buffered + part.length) <
            bufferSize := by
          have h := buffered_lt (by omega : buffered + part.length ≤ bufferSize) part
          simpa [hmem] using h
        generalize (if buffered + part.length = bufferSize then 0 else buffered + part.length) = b
          at hreads hstring hroom
        have hle := length_readStringFuel_le (line ++ part) hroom (by omega : rest.flatten.length < n)
        have hfuel : readsFuel (n + 1) 0 (readStringFuel n (line ++ part) b rest).chunks =
            readsFuel n 0 (readStringFuel n (line ++ part) b rest).chunks :=
          readsFuel_eq (by decide) (by omega) (by omega)
        rw [hreads, hstring, hfuel, allHarmless_cons, afterLine_of_notMem hmem, ih hroom (by omega)]
        exact and_iff_right (.inl rfl)

lemma allHarmless_reads (chunks : List Bytes) : AllHarmless toUpper (reads chunks) ↔
    Harmless toUpper (readString chunks).behind (readString chunks).chunks.flatten ∧
      AllHarmless toUpper (reads (readString chunks).chunks) := by
  have hle : (readString chunks).chunks.flatten.length ≤ chunks.flatten.length :=
    length_readStringFuel_le [] (by decide) (Nat.lt_succ_self _)
  have hfuel : reads (readString chunks).chunks =
      readsFuel (chunks.flatten.length + 1) 0 (readString chunks).chunks :=
    readsFuel_eq (by decide) (Nat.lt_succ_self _) (by omega)
  rw [hfuel]
  exact allHarmless_readsFuel (by decide) (Nat.lt_succ_self _)

lemma reads_of_nil (h : chunks.flatten = []) : reads chunks = [] := by
  rw [reads, readsFuel]
  cases hread : read (bufferSize - 0) chunks with
  | none => rfl
  | some p =>
    obtain ⟨hstream, hpart, -⟩ := read_eq_some (by decide) hread
    rw [h] at hstream
    exact absurd (List.append_eq_nil_iff.mp hstream.symm).1 hpart

lemma linesReadFuel_iff (toUpper : Bytes → Bytes) (n : ℕ) (chunks : List Bytes)
    (hn : chunks.flatten.length < n) :
    (linesReadFuel n chunks).map (fun r => toUpper r.text) =
        (lines newline chunks.flatten).map toUpper ↔ AllHarmless toUpper (reads chunks) := by
  induction n generalizing chunks with
  | zero => omega
  | succ n ih =>
    by_cases h : chunks.flatten = []
    · rw [linesReadFuel_of_nil h, h, reads_of_nil h]
      exact iff_of_true rfl allHarmless_nil
    · have hlt := length_rest_lt h
      rw [linesReadFuel_succ h, lines_of_ne_nil h, afterLine_eq, allHarmless_reads,
        ← harmless_iff toUpper (by omega) (ih (readString chunks).chunks (by omega))]
      simp [readString_text]

/-- All lines of a stream are answered exactly when what a read delivers behind a newline is
always harmless. -/
theorem answered_iff (toUpper : Bytes → Bytes) (chunks : List Bytes) :
    Answered toUpper chunks ↔ AllHarmless toUpper (reads chunks) := by
  rw [← linesReadFuel_iff toUpper _ chunks (Nat.lt_succ_self _), Answered, doWork,
    List.map_cons, List.map_cons, List.cons_inj_right, List.map_map]
  rfl

/-- Two ways to cut a stream, neither of which loses anything, get the same answer. -/
lemma doWork_eq {chunks' : List Bytes} (h : Answered toUpper chunks) (h' : Answered toUpper chunks')
    (heq : chunks.flatten = chunks'.flatten) : doWork toUpper chunks = doWork toUpper chunks' := by
  rw [h, h', heq]

end

/-- `strings.ToUpper` on ASCII. -/
def asciiUpper (s : Bytes) : Bytes := s.map fun u => if 97 ≤ u ∧ u ≤ 122 then u - 32 else u

/-- Of two lines in one chunk the second is lost; each in its own chunk, both are answered. -/
theorem one_chunk_not_answered : ¬ Answered asciiUpper [[97, 10, 98, 10]] ∧
    doWork asciiUpper [[97, 10, 98, 10]] ≠ doWork asciiUpper [[97, 10], [98, 10]] := by
  decide

end Eventing.LineReader
