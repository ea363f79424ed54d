import Mathlib.Tactic.IntervalCases
import Eventing.Decimal
import Eventing.ObjectText
import Eventing.Utf16

/-!
# JSON texts

A reader of JSON as a machine with a stack, one character at a time. What is read so far is
the state, so a text is read piece by piece. A string is the sequence of its 16-bit units, and
a number is kept as its text.
-/
namespace Eventing.JsonText
open Utf16 (Units)

inductive Value
  | null
  | bool (b : Bool)
  | number (text : List Char)
  | string (s : Units)
  | array (items : List Value)
  | object (members : List (Units × Value))

abbrev Members := List (Units × Value)

/-- Where a number stands: behind a minus, a leading zero, another digit, the point, a digit
behind the point, the `e`, its sign, and a digit of the exponent. -/
inductive Phase
  | minus
  | zero
  | int
  | point
  | frac
  | e
  | sign
  | exp
  deriving DecidableEq

def isDigit (c : Char) : Bool := '0' ≤ c && c ≤ '9'

def Phase.next (p : Phase) (c : Char) : Option Phase :=
  match p with
  | .minus => if c = '0' then some .zero else if isDigit c then some .int else none
  | .zero => if c = '.' then some .point else if c = 'e' ∨ c = 'E' then some .e else none
  | .int => if isDigit c then some .int else if c = '.' then some .point
      else if c = 'e' ∨ c = 'E' then some .e else none
  | .point => if isDigit c then some .frac else none
  | .frac => if isDigit c then some .frac else if c = 'e' ∨ c = 'E' then some .e else none
  | .e => if c = '+' ∨ c = '-' then some .sign else if isDigit c then some .exp else none
  | .sign | .exp => if isDigit c then some .exp else none

def Phase.ends : Phase → Bool
  | .zero | .int | .frac | .exp => true
  | .minus | .point | .e | .sign => false

/-- Where a string stands: at a character, behind a backslash, and behind `\u` and some
digits. -/
inductive Escape
  | plain
  | backslash
  | hex (digits : List ℕ)
  deriving DecidableEq

def hexValue (c : Char) : Option ℕ :=
  if isDigit c then some (c.toNat - 48)
  else if 'a' ≤ c ∧ c ≤ 'f' then some (c.toNat - 87)
  else if 'A' ≤ c ∧ c ≤ 'F' then some (c.toNat - 55)
  else none

lemma hexValue_hexDigit {letters : Decimal.Letters} {n : ℕ} (h : n < 16) :
    hexValue (Decimal.hexDigit letters n) = some n := by
  cases letters <;> interval_cases n <;> rfl

def unescape (c : Char) : Option Char :=
  match c with
  | '"' | '\\' | '/' => some c
  | 'b' => some '\x08'
  | 'f' => some '\x0c'
  | 'n' => some '\n'
  | 'r' => some '\r'
  | 't' => some '\t'
  | _ => none

inductive Word
  | true
  | false
  | null
  deriving DecidableEq

def Word.text : Word → List Char
  | .true => ['t', 'r', 'u', 'e']
  | .false => ['f', 'a', 'l', 's', 'e']
  | .null => ['n', 'u', 'l', 'l']

def Word.value : Word → Value
  | .true => .bool Bool.true
  | .false => .bool Bool.false
  | .null => .null

inductive Frame
  | array (items : List Value)
  | object (members : Members) (name : Units)

/-- `name` and `colon` stand before and behind the name of a member; a string is a name when
it comes with the members before it. A word comes with the number of its characters so far. -/
inductive Mode
  | value
  | firstItem
  | name (members : Members) (first : Bool)
  | colon (members : Members) (name : Units)
  | string (members : Option Members) (s : Units) (escape : Escape)
  | word (w : Word) (i : ℕ)
  | number (p : Phase) (text : List Char)
  | done (v : Value)

structure State where
  mode : Mode
  stack : List Frame

def isSpace (c : Char) : Bool := c = ' ' || c = '\t' || c = '\n' || c = '\r'

/-- The state with further frames under its own. -/
def State.inside (state : State) (base : List Frame) : State := ⟨state.mode, state.stack ++ base⟩

def opening (c : Char) : Option State :=
  if c = '"' then some ⟨.string none [] .plain, []⟩
  else if c = '\x7b' then some ⟨.name [] true, []⟩
  else if c = '[' then some ⟨.firstItem, [.array []]⟩
  else if c = 't' then some ⟨.word .true 1, []⟩
  else if c = 'f' then some ⟨.word .false 1, []⟩
  else if c = 'n' then some ⟨.word .null 1, []⟩
  else if c = '-' then some ⟨.number .minus [c], []⟩
  else if c = '0' then some ⟨.number .zero [c], []⟩
  else if isDigit c then some ⟨.number .int [c], []⟩
  else none

def begin (stack : List Frame) (c : Char) : Option State := (opening c).map (·.inside stack)

def afterValue (v : Value) (stack : List Frame) (c : Char) : Option State :=
  if isSpace c then some ⟨.done v, stack⟩
  else match stack with
    | [] => none
    | .array items :: stack =>
        if c = ',' then some ⟨.value, .array (items ++ [v]) :: stack⟩
        else if c = ']' then some ⟨.done (.array (items ++ [v])), stack⟩
        else none
    | .object members name :: stack =>
        if c = ',' then some ⟨.name (members ++ [(name, v)]) false, stack⟩
        else if c = '\x7d' then some ⟨.done (.object (members ++ [(name, v)])), stack⟩
        else none

def closeString (members : Option Members) (s : Units) : Mode :=
  match members with
  | some members => .colon members s
  | none => .done (.string s)

def stepString (members : Option Members) (s : Units) (escape : Escape) (c : Char) : Option Mode :=
  match escape with
  | .plain =>
      if c = '"' then some (closeString members s)
      else if c = '\\' then some (.string members s .backslash)
      else if c.toNat < 32 then none
      else some (.string members (s ++ Utf16.encodeChar c) .plain)
  | .backslash =>
      if c = 'u' then some (.string members s (.hex []))
      else (unescape c).map fun c => .string members (s ++ Utf16.encodeChar c) .plain
  | .hex digits =>
      (hexValue c).map fun d =>
        match digits with
        | [x, y, z] =>
            .string members (s ++ [UInt16.ofNat (((x * 16 + y) * 16 + z) * 16 + d)]) .plain
        | _ => .string members s (.hex (digits ++ [d]))

def step (state : State) (c : Char) : Option State :=
  match state.mode with
  | .value => if isSpace c then some state else begin state.stack c
  | .firstItem =>
      if isSpace c then some state
      else if c = ']' then
        match state.stack with
        | .array items :: stack => some ⟨.done (.array items), stack⟩
        | _ => none
      else begin state.stack c
  | .name members first =>
      if isSpace c then some state
      else if c = '"' then some ⟨.string (some members) [] .plain, state.stack⟩
      else if c = '\x7d' ∧ first then some ⟨.done (.object members), state.stack⟩
      else none
  | .colon members name =>
      if isSpace c then some state
      else if c = ':' then some ⟨.value, .object members name :: state.stack⟩
      else none
  | .string members s escape =>
      (stepString members s escape c).map fun mode => ⟨mode, state.stack⟩
  | .word w i =>
      if w.text[i]? = some c then
        if i + 1 = w.text.length then some ⟨.done w.value, state.stack⟩
        else some ⟨.word w (i + 1), state.stack⟩
      else none
  | .number p text =>
      match p.next c with
      | some p => some ⟨.number p (text ++ [c]), state.stack⟩
      | none => if p.ends then afterValue (.number text) state.stack c else none
  | .done v => afterValue v state.stack c

def run (state : State) (text : List Char) : Option State := text.foldlM step state

def Mode.result : Mode → Option Value
  | .done v => some v
  | .number p text => if p.ends then some (.number text) else none
  | _ => none

def parse (text : List Char) : Option Value := do
  let state ← run ⟨.value, []⟩ text
  if state.stack.isEmpty then state.mode.result else none

variable {state state' : State} {text : List Char} {c : Char} {v : Value} {base : List Frame}

@[simp] lemma run_nil : run state [] = some state := rfl

@[simp] lemma run_cons : run state (c :: text) = (step state c).bind (run · text) := rfl

lemma run_append (text' : List Char) :
    run state (text ++ text') = (run state text).bind (run · text') :=
  List.foldlM_append

lemma State.inside_inside (stack : List Frame) :
    (state.inside stack).inside base = state.inside (stack ++ base) := by
  simp [State.inside]

lemma begin_inside {stack : List Frame} (h : begin stack c = some state) :
    begin (stack ++ base) c = some (state.inside base) := by
  obtain ⟨first, hfirst, rfl⟩ := Option.map_eq_some_iff.mp h
  rw [begin, hfirst, Option.map_some, State.inside_inside]

lemma afterValue_inside {stack : List Frame} (h : afterValue v stack c = some state) :
    afterValue v (stack ++ base) c = some (state.inside base) := by
  simp only [afterValue] at h ⊢
  by_cases hspace : isSpace c
  · rw [if_pos hspace] at h ⊢
    exact Option.some.inj h ▸ rfl
  · rw [if_neg hspace] at h ⊢
    cases stack with
    | nil => contradiction
    | cons frame stack =>
      cases frame with
      | array items =>
        simp only [List.cons_append] at h ⊢
        split_ifs at h ⊢ <;> exact Option.some.inj h ▸ rfl
      | object members name =>
        simp only [List.cons_append] at h ⊢
        split_ifs at h ⊢ <;> exact Option.some.inj h ▸ rfl

/-- What is read under a stack is read the same with more frames below it. -/
lemma step_inside (h : step state c = some state') :
    step (state.inside base) c = some (state'.inside base) := by
  obtain ⟨mode, stack⟩ := state
  simp only [step, State.inside] at h ⊢
  cases mode with
  | value =>
    simp only at h ⊢
    split_ifs at h ⊢
    · exact Option.some.inj h ▸ rfl
    · exact begin_inside h
  | firstItem =>
    simp only at h ⊢
    split_ifs at h ⊢
    · exact Option.some.inj h ▸ rfl
    · cases stack with
      | nil => contradiction
      | cons frame stack =>
        cases frame with
        | array items => exact Option.some.inj h ▸ rfl
        | object members name => contradiction
    · exact begin_inside h
  | name members first =>
    simp only at h ⊢
    split_ifs at h ⊢ <;> exact Option.some.inj h ▸ rfl
  | colon members name =>
    simp only at h ⊢
    split_ifs at h ⊢ <;> exact Option.some.inj h ▸ rfl
  | string members s escape =>
    obtain ⟨mode, hmode, rfl⟩ := Option.map_eq_some_iff.mp h
    simp only [hmode, Option.map_some]
  | word w i =>
    simp only at h ⊢
    split_ifs at h ⊢ <;> exact Option.some.inj h ▸ rfl
  | number p text =>
    simp only at h ⊢
    cases hp : p.next c with
    | some p =>
      simp only [hp] at h ⊢
      exact Option.some.inj h ▸ rfl
    | none =>
      simp only [hp] at h ⊢
      split_ifs at h ⊢
      exact afterValue_inside h
  | done v => exact afterValue_inside h

lemma run_inside (h : run state text = some state') :
    run (state.inside base) text = some (state'.inside base) := by
  induction text generalizing state with
  | nil =>
    obtain rfl := Option.some.inj h
    rfl
  | cons c text ih =>
    obtain ⟨next, hnext, h⟩ := Option.bind_eq_some_iff.mp h
    rw [run_cons, step_inside hnext]
    exact ih h

/-- A JSON text is read as a value wherever one is expected. -/
lemma run_of_parse (h : parse text = some v) :
    ∃ mode, (∀ base, run ⟨.value, base⟩ text = some ⟨mode, base⟩) ∧ mode.result = some v := by
  obtain ⟨⟨mode, stack⟩, hrun, h⟩ := Option.bind_eq_some_iff.mp h
  cases stack with
  | nil => exact ⟨mode, fun _ => run_inside hrun, h⟩
  | cons frame stack => contradiction

/-- The characters that end a value inside of another. -/
def Closes (c : Char) : Prop := c = ',' ∨ c = ']' ∨ c = '\x7d'

lemma Phase.next_of_closes (h : Closes c) (p : Phase) : p.next c = none := by
  rcases h with rfl | rfl | rfl <;> cases p <;> rfl

lemma step_of_result {mode : Mode} {stack : List Frame} (h : mode.result = some v)
    (hc : Closes c) : step ⟨mode, stack⟩ c = afterValue v stack c := by
  cases mode with
  | done w => rw [← Option.some.inj h]; rfl
  | number p text =>
    simp only [Mode.result] at h
    split_ifs at h with hp
    simp only [step, Phase.next_of_closes hc, hp, if_true, ← Option.some.inj h]
  | _ => contradiction

theorem run_value_closed (h : parse text = some v) (hc : Closes c) (rest : List Char) :
    run ⟨.value, base⟩ (text ++ c :: rest) = (afterValue v base c).bind (run · rest) := by
  obtain ⟨mode, hrun, hresult⟩ := run_of_parse h
  rw [run_append, hrun base, Option.bind_some, run_cons, step_of_result hresult hc]

section
variable {members : Option Members} {s : Units}

/-- A way to write the characters of a string. -/
def Escapes (escape : Char → List Char) : Prop :=
  ∀ c members s stack, run ⟨.string members s .plain, stack⟩ (escape c) =
    some ⟨.string members (s ++ Utf16.encodeChar c) .plain, stack⟩

lemma run_escapes {escape : Char → List Char} (h : Escapes escape) (t : List Char) :
    run ⟨.string members s .plain, base⟩ (t.flatMap escape) =
      some ⟨.string members (s ++ Utf16.encode t) .plain, base⟩ := by
  induction t generalizing s with
  | nil => simp [Utf16.encode]
  | cons c t ih =>
    rw [List.flatMap_cons, run_append, h c, Option.bind_some, ih]
    simp [Utf16.encode]

theorem run_quoted {escape : Char → List Char} (h : Escapes escape) (t rest : List Char) :
    run ⟨.string members [] .plain, base⟩ (t.flatMap escape ++ '"' :: rest) =
      run ⟨closeString members (Utf16.encode t), base⟩ rest := by
  rw [run_append, run_escapes h, Option.bind_some]
  rfl

lemma run_plain (hq : c ≠ '"') (hb : c ≠ '\\') (hc : 32 ≤ c.toNat) :
    run ⟨.string members s .plain, base⟩ [c] =
      some ⟨.string members (s ++ Utf16.encodeChar c) .plain, base⟩ := by
  have hlt : ¬ c.toNat < 32 := by omega
  simp [step, stepString, hq, hb, hlt]

lemma run_backslash {d : Char} (hu : c ≠ 'u') (h : unescape c = some d) :
    run ⟨.string members s .plain, base⟩ ['\\', c] =
      some ⟨.string members (s ++ Utf16.encodeChar d) .plain, base⟩ := by
  simp [step, stepString, hu, h]

lemma run_hex {a b c d : Char} {w x y z : ℕ} (ha : hexValue a = some w) (hb : hexValue b = some x)
    (hc : hexValue c = some y) (hd : hexValue d = some z) :
    run ⟨.string members s .plain, base⟩ ['\\', 'u', a, b, c, d] =
      some ⟨.string members (s ++ [UInt16.ofNat (((w * 16 + x) * 16 + y) * 16 + z)]) .plain,
        base⟩ := by
  simp [step, stepString, ha, hb, hc, hd]

lemma run_hex_char {a b d e : Char} {w x y z : ℕ} (ha : hexValue a = some w)
    (hb : hexValue b = some x) (hd : hexValue d = some y) (he : hexValue e = some z)
    (hc : ((w * 16 + x) * 16 + y) * 16 + z = c.toNat) (hlt : c.toNat < 0x10000) :
    run ⟨.string members s .plain, base⟩ ['\\', 'u', a, b, d, e] =
      some ⟨.string members (s ++ Utf16.encodeChar c) .plain, base⟩ := by
  rw [run_hex ha hb hd he, hc, Utf16.encodeChar, if_pos hlt]

end

section
variable {escape : Char → List Char} {members : Members} {first : Bool}

def marks : ObjectText.Marks Char := ⟨'\x7b', '\x7d', '"', ':', ','⟩

def writeMember : (Char → List Char) → List Char × List Char → List Char := ObjectText.member marks

def writeMembers : (Char → List Char) → List (List Char × List Char) → List Char :=
  ObjectText.members marks

def writeObject : (Char → List Char) → List (List Char × List Char) → List Char :=
  ObjectText.object marks

lemma writeMembers_singleton (escape : Char → List Char) (p : List Char × List Char) :
    writeMembers escape [p] = writeMember escape p := rfl

lemma writeMembers_cons_cons (escape : Char → List Char) (p q : List Char × List Char)
    (ps : List (List Char × List Char)) : writeMembers escape (p :: q :: ps) =
      writeMember escape p ++ ',' :: writeMembers escape (q :: ps) := rfl

lemma writeObject_eq (escape : Char → List Char) (ps : List (List Char × List Char)) :
    writeObject escape ps = '\x7b' :: (writeMembers escape ps ++ ['\x7d']) := rfl

def readMembers (ps : List (List Char × List Char)) : Option Members :=
  ps.mapM fun p => (parse p.2).map fun v => (Utf16.encode p.1, v)

lemma readMembers_cons {p : List Char × List Char} {ps : List (List Char × List Char)}
    {ms : Members} (h : readMembers (p :: ps) = some ms) :
    ∃ v rest, parse p.2 = some v ∧ readMembers ps = some rest ∧
      ms = (Utf16.encode p.1, v) :: rest := by
  rw [readMembers, List.mapM_cons] at h
  obtain ⟨m, hm, h⟩ := Option.bind_eq_some_iff.mp h
  obtain ⟨rest, hrest, h⟩ := Option.bind_eq_some_iff.mp h
  obtain ⟨v, hv, rfl⟩ := Option.map_eq_some_iff.mp hm
  exact ⟨v, rest, hv, hrest, (Option.some.inj h).symm⟩

lemma run_writeMember (h : Escapes escape) (p : List Char × List Char) (rest : List Char) :
    run ⟨.name members first, base⟩ (writeMember escape p ++ rest) =
      run ⟨.value, .object members (Utf16.encode p.1) :: base⟩ (p.2 ++ rest) := by
  have hmember : writeMember escape p ++ rest =
      '"' :: (p.1.flatMap escape ++ '"' :: (':' :: (p.2 ++ rest))) := by
    simp [writeMember, ObjectText.member, marks]
  rw [hmember]
  exact run_quoted h p.1 (':' :: (p.2 ++ rest))

lemma run_writeMembers (h : Escapes escape) {ps : List (List Char × List Char)} {ms : Members}
    (hne : ps ≠ []) (hms : readMembers ps = some ms) :
    run ⟨.name members first, base⟩ (writeMembers escape ps ++ ['\x7d']) =
      some ⟨.done (.object (members ++ ms)), base⟩ := by
  induction ps generalizing members first ms with
  | nil => contradiction
  | cons p ps ih =>
    obtain ⟨v, rest, hv, hrest, rfl⟩ := readMembers_cons hms
    cases ps with
    | nil =>
      obtain rfl := Option.some.inj hrest
      rw [writeMembers_singleton, run_writeMember h, run_value_closed hv (.inr (.inr rfl))]
      rfl
    | cons q ps =>
      rw [writeMembers_cons_cons, List.append_assoc, run_writeMember h, List.cons_append,
        run_value_closed hv (.inl rfl)]
      have hmembers : members ++ (Utf16.encode p.1, v) :: rest =
          members ++ [(Utf16.encode p.1, v)] ++ rest := by simp
      rw [hmembers]
      exact ih (List.cons_ne_nil q ps) hrest

theorem parse_writeObject (h : Escapes escape) {ps : List (List Char × List Char)} {ms : Members}
    (hms : readMembers ps = some ms) : parse (writeObject escape ps) = some (.object ms) := by
  cases ps with
  | nil =>
    obtain rfl := Option.some.inj hms
    rfl
  | cons p ps =>
    have hrun : run ⟨.name [] true, []⟩ (writeMembers escape (p :: ps) ++ ['\x7d']) =
        some ⟨.done (.object ([] ++ ms)), []⟩ := run_writeMembers h (List.cons_ne_nil p ps) hms
    have hopen : step ⟨.value, []⟩ '\x7b' = some ⟨.name [] true, []⟩ := rfl
    rw [parse, writeObject_eq, run_cons, hopen, Option.bind_some, hrun]
    rfl

/-- A text whose first character starts no value. -/
def Stuck (text : List Char) : Prop :=
  ∃ c rest, text = c :: rest ∧ isSpace c = false ∧ opening c = none

lemma run_stuck (h : Stuck text) (rest : List Char) : run ⟨.value, base⟩ (text ++ rest) = none := by
  obtain ⟨c, text, rfl, hspace, hopening⟩ := h
  simp [step, hspace, begin, hopening]

lemma run_writeMembers_stuck (h : Escapes escape) {ps : List (List Char × List Char)}
    (hall : ∀ p ∈ ps, (∃ v, parse p.2 = some v) ∨ Stuck p.2) (hstuck : ∃ p ∈ ps, Stuck p.2)
    (rest : List Char) :
    run ⟨.name members first, base⟩ (writeMembers escape ps ++ '\x7d' :: rest) = none := by
  induction ps generalizing members first with
  | nil =>
    obtain ⟨p, hp, -⟩ := hstuck
    contradiction
  | cons p ps ih =>
    cases ps with
    | nil =>
      obtain ⟨q, hq, hstuck⟩ := hstuck
      rw [List.mem_singleton.mp hq] at hstuck
      rw [writeMembers_singleton, run_writeMember h, run_stuck hstuck]
    | cons q ps =>
      rw [writeMembers_cons_cons, List.append_assoc, run_writeMember h, List.cons_append]
      rcases hall p List.mem_cons_self with ⟨v, hv⟩ | hp
      · have hrest : ∃ p ∈ q :: ps, Stuck p.2 := by
          obtain ⟨r, hr, hstuck⟩ := hstuck
          rcases List.mem_cons.mp hr with rfl | hr
          · obtain ⟨c, text, ht, hspace, hopening⟩ := hstuck
            rw [ht, parse, run_cons] at hv
            simp [step, hspace, begin, hopening] at hv
          · exact ⟨r, hr, hstuck⟩
        rw [run_value_closed hv (.inl rfl)]
        exact ih (fun r hr => hall r (List.mem_cons_of_mem p hr)) hrest
      · exact run_stuck hp _

/-- An object in which a value is missing is no JSON text. -/
theorem parse_writeObject_eq_none (h : Escapes escape) {ps : List (List Char × List Char)}
    (hall : ∀ p ∈ ps, (∃ v, parse p.2 = some v) ∨ Stuck p.2) (hstuck : ∃ p ∈ ps, Stuck p.2) :
    parse (writeObject escape ps) = none := by
  have hopen : step ⟨.value, []⟩ '\x7b' = some ⟨.name [] true, []⟩ := rfl
  rw [parse, writeObject_eq, run_cons, hopen, Option.bind_some, run_writeMembers_stuck h hall hstuck]
  rfl

end

lemma step_nul : step state '\x00' = none := by
  have hafter (v : Value) (stack : List Frame) : afterValue v stack '\x00' = none := by
    cases stack with
    | nil => rfl
    | cons frame stack => cases frame <;> rfl
  obtain ⟨mode, stack⟩ := state
  cases mode with
  | name members first => cases first <;> rfl
  | string members s escape => cases escape <;> rfl
  | word w i =>
    have hne : w.text[i]? ≠ some '\x00' := by
      intro h
      have hmem := List.mem_of_getElem? h
      cases w <;> exact absurd hmem (by decide)
    exact if_neg hne
  | number p text =>
    have hnumber := hafter (.number text) stack
    cases p <;> first | rfl | exact hnumber
  | done v => exact hafter v stack
  | _ => rfl

theorem nul_notMem_of_parse (h : parse text = some v) : '\x00' ∉ text := by
  intro hmem
  obtain ⟨front, back, rfl⟩ := List.append_of_mem hmem
  obtain ⟨state, hrun, -⟩ := Option.bind_eq_some_iff.mp h
  rw [run_append] at hrun
  obtain ⟨state', -, hrun⟩ := Option.bind_eq_some_iff.mp hrun
  rw [run_cons, step_nul] at hrun
  contradiction

end Eventing.JsonText
