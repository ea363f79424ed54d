import Eventing.Decimal

/-!
# Template literals

A JavaScript template literal as its literal parts with the texts of the substitutions
between them, and a reader of such literals. Escapes and carriage returns, and substitutions
that have brackets, quotes or slashes of their own, are not read.
-/
namespace Eventing.TemplateLiteral

/-- The part in front of the first substitution, and each substitution with the part behind
it. -/
structure Literal where
  first : Text
  rest : List (Text × Text)
  deriving DecidableEq

def opening : Text := ['$', '\x7b']
def closing : Char := '\x7d'
def backtick : Char := '\x60'

def Literal.text (l : Literal) : Text :=
  l.first ++ l.rest.flatMap fun p => opening ++ (p.1 ++ closing :: p.2)

def Literal.fill (l : Literal) (value : Text → Text) : Text :=
  l.first ++ l.rest.flatMap fun p => value p.1 ++ p.2

/-- A literal part: no backtick, no escape, no carriage return, and no substitution begins
in it. -/
def PlainPart (s : Text) : Prop :=
  (∀ c ∈ s, c ≠ backtick ∧ c ≠ '\\' ∧ c ≠ '\r') ∧ ¬ opening <:+: s

def bracket (c : Char) : Bool := c ∈ ['\x7b', '\x7d', '\x60', '"', '\'', '/', '\\']

structure Literal.Plain (l : Literal) : Prop where
  first : PlainPart l.first
  parts : ∀ p ∈ l.rest, PlainPart p.2
  substitutions : ∀ p ∈ l.rest, ∀ c ∈ p.1, bracket c = false

/-- In a literal part, between the two characters that open a substitution, and in a
substitution, with what was read of it. -/
inductive Mode
  | part (read : Text)
  | dollar
  | substitution (read : Text)

/-- The literal parts, the substitutions, and the text behind the closing backtick. -/
structure Reading where
  strings : List Text
  substitutions : List Text
  rest : Text
  deriving DecidableEq

def read (strings substitutions : List Text) : Mode → Text → Option Reading
  | _, [] => none
  | .part cur, c :: text =>
      if c = backtick then some ⟨strings ++ [cur], substitutions, text⟩
      else if c = '\\' ∨ c = '\r' then none
      else if c = '$' ∧ text.head? = some '\x7b' then
        read (strings ++ [cur]) substitutions .dollar text
      else read strings substitutions (.part (cur ++ [c])) text
  | .dollar, _ :: text => read strings substitutions (.substitution []) text
  | .substitution cur, c :: text =>
      if c = closing then read strings (substitutions ++ [cur]) (.part []) text
      else if bracket c then none
      else read strings substitutions (.substitution (cur ++ [c])) text

def readLiteral (text : Text) : Option Reading := read [] [] (.part []) text

variable {strings substitutions : List Text} {cur s text rest : Text} {l : Literal}

def Follows (text : Text) : Prop := text.head? = some '$' ∨ text.head? = some backtick

lemma PlainPart.tail {c : Char} (h : PlainPart (c :: s)) : PlainPart s :=
  ⟨fun d hd => h.1 d (List.mem_cons_of_mem c hd),
    fun hi => h.2 (hi.trans (List.suffix_cons c s).isInfix)⟩

lemma PlainPart.head?_ne {c : Char} (h : PlainPart (c :: s)) (hf : Follows text) :
    ¬ (c = '$' ∧ (s ++ text).head? = some '\x7b') := by
  rintro ⟨rfl, hhead⟩
  cases s with
  | nil =>
    rw [List.nil_append] at hhead
    rcases hf with hf | hf
    · rw [hf] at hhead
      exact absurd hhead (by decide)
    · rw [hf] at hhead
      exact absurd hhead (by decide)
  | cons d s =>
    rw [List.cons_append, List.head?_cons, Option.some.injEq] at hhead
    subst hhead
    exact h.2 (List.prefix_append opening s).isInfix

lemma read_part (h : PlainPart s) (hf : Follows text) :
    read strings substitutions (.part cur) (s ++ text) =
      read strings substitutions (.part (cur ++ s)) text := by
  induction s generalizing cur with
  | nil => rw [List.nil_append, List.append_nil]
  | cons c s ih =>
    obtain ⟨hb, he, hr⟩ := h.1 c List.mem_cons_self
    rw [List.cons_append, read, if_neg hb, if_neg (not_or.mpr ⟨he, hr⟩), if_neg (h.head?_ne hf),
      ih h.tail, List.append_assoc]
    rfl

lemma read_opening : read strings substitutions (.part cur) (opening ++ text) =
    read (strings ++ [cur]) substitutions (.substitution []) text := by
  have hb : '$' ≠ backtick := by decide
  have he : ¬ ('$' = '\\' ∨ '$' = '\r') := by decide
  rw [opening, List.cons_append, read, if_neg hb, if_neg he, if_pos ⟨rfl, rfl⟩]
  rfl

lemma read_substitution (h : ∀ c ∈ s, bracket c = false) :
    read strings substitutions (.substitution cur) (s ++ closing :: text) =
      read strings (substitutions ++ [cur ++ s]) (.part []) text := by
  induction s generalizing cur with
  | nil => rw [List.nil_append, read, if_pos rfl, List.append_nil]
  | cons c s ih =>
    have hc : bracket c = false := h c List.mem_cons_self
    have hne : c ≠ closing := by
      rintro rfl
      exact absurd hc (by decide)
    rw [List.cons_append, read, if_neg hne, if_neg (by simp [hc]),
      ih fun d hd => h d (List.mem_cons_of_mem c hd), List.append_assoc]
    rfl

lemma follows_rest (ps : List (Text × Text)) (after : Text) :
    Follows ((ps.flatMap fun p => opening ++ (p.1 ++ closing :: p.2)) ++ backtick :: after) := by
  cases ps with
  | nil => exact .inr rfl
  | cons p ps => exact .inl rfl

lemma read_rest {ps : List (Text × Text)} (hparts : ∀ p ∈ ps, PlainPart p.2)
    (hsubs : ∀ p ∈ ps, ∀ c ∈ p.1, bracket c = false) (after : Text) :
    read strings substitutions (.part cur)
        ((ps.flatMap fun p => opening ++ (p.1 ++ closing :: p.2)) ++ backtick :: after) =
      some ⟨strings ++ cur :: ps.map Prod.snd, substitutions ++ ps.map Prod.fst, after⟩ := by
  induction ps generalizing strings substitutions cur with
  | nil => simp [read]
  | cons p ps ih =>
    have hp := hparts p List.mem_cons_self
    have hs := hsubs p List.mem_cons_self
    rw [List.flatMap_cons, List.append_assoc, List.append_assoc, read_opening, List.append_assoc,
      List.cons_append, read_substitution hs, read_part hp (follows_rest ps after),
      ih (fun q hq => hparts q (List.mem_cons_of_mem p hq))
        fun q hq => hsubs q (List.mem_cons_of_mem p hq)]
    simp

theorem readLiteral_text (h : l.Plain) (after : Text) :
    readLiteral (l.text ++ backtick :: after) =
      some ⟨l.first :: l.rest.map Prod.snd, l.rest.map Prod.fst, after⟩ := by
  rw [readLiteral, Literal.text, List.append_assoc, read_part h.first (follows_rest l.rest after),
    read_rest h.parts h.substitutions]
  rfl

end Eventing.TemplateLiteral
