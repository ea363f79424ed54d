import Eventing.Delimited
import Eventing.SendUpdate

/-!
# Mail requests as text

`PostMail` (`worker.cc`) prints the four strings of a mail into one body, and `sendMail`
(`http_handlers.go`) cuts the body at `&` and each piece at `=`. Neither side escapes.
-/
namespace Eventing.MailCodec
open Delimited SendUpdate Utf8

variable {α : Type*} [DecidableEq α] {amp eq : α}

structure MailRequest (α : Type*) where
  appName : List α
  mailTo : List α
  subject : List α
  body : List α
  deriving DecidableEq

def MailRequest.fields (m : MailRequest α) : List (List α) :=
  [m.appName, m.mailTo, m.subject, m.body]

/-- `strings.Split(fields[i], "=")[1]`, when both indices are in range. -/
def fieldValue (eq : α) (fields : List (List α)) (i : ℕ) : Option (List α) := do
  let field ← fields[i]?
  (field.splitOn eq)[1]?

/-- What `sendMail` takes from a body over any alphabet. -/
def parse (amp eq : α) (text : List α) : Option (MailRequest α) := do
  let fields := text.splitOn amp
  let appName ← fieldValue eq fields 0
  let mailTo ← fieldValue eq fields 1
  let subject ← fieldValue eq fields 2
  let body ← fieldValue eq fields 3
  return ⟨appName, mailTo, subject, body⟩

def appNameOf (amp eq : α) (text : List α) : Option (List α) := fieldValue eq (text.splitOn amp) 0

def beforeSeparator (amp eq : α) (name : List α) : List α :=
  (name.takeWhile (· ≠ amp)).takeWhile (· ≠ eq)

def field (eq : α) (label value : List α) : List α := label ++ eq :: value

/-- `label=value` four times, with `&` between. -/
def print (amp eq : α) (label₀ label₁ label₂ label₃ : List α) (m : MailRequest α) : List α :=
  field eq label₀ m.appName ++ amp :: (field eq label₁ m.mailTo ++ amp ::
    (field eq label₂ m.subject ++ amp :: field eq label₃ m.body))

section
variable {label value : List α} {fields : List (List α)} {i : ℕ}

lemma splitOn_field (h : eq ∉ label) :
    (field eq label value).splitOn eq = label :: value.splitOn eq :=
  List.splitOn_append_cons_self_of_not_mem h value

lemma fieldValue_of_getElem? (hi : fields[i]? = some (field eq label value)) (h : eq ∉ label)
    (hv : eq ∉ value) : fieldValue eq fields i = some value := by
  rw [fieldValue, hi, Option.bind_eq_bind, Option.bind_some, splitOn_field h,
    List.splitOn_eq_singleton hv]
  rfl

lemma notMem_of_fieldValue {text : List α} (h : fieldValue eq (text.splitOn amp) i = some value) :
    amp ∉ value ∧ eq ∉ value := by
  obtain ⟨piece, hpiece, hvalue⟩ := Option.bind_eq_some_iff.mp h
  have hamp : amp ∉ piece := sep_notMem_of_mem_splitOn (List.mem_of_getElem? hpiece)
  have hmem : value ∈ piece.splitOn eq := List.mem_of_getElem? hvalue
  exact ⟨fun ha => hamp (subset_of_mem_splitOn hmem ha), sep_notMem_of_mem_splitOn hmem⟩

lemma parse_eq_some_iff {text : List α} {m : MailRequest α} : parse amp eq text = some m ↔
    fieldValue eq (text.splitOn amp) 0 = some m.appName ∧
      fieldValue eq (text.splitOn amp) 1 = some m.mailTo ∧
      fieldValue eq (text.splitOn amp) 2 = some m.subject ∧
      fieldValue eq (text.splitOn amp) 3 = some m.body := by
  constructor
  · intro h
    obtain ⟨a, ha, h⟩ := Option.bind_eq_some_iff.mp h
    obtain ⟨t, ht, h⟩ := Option.bind_eq_some_iff.mp h
    obtain ⟨s, hs, h⟩ := Option.bind_eq_some_iff.mp h
    obtain ⟨b, hb, h⟩ := Option.bind_eq_some_iff.mp h
    obtain rfl := Option.some.inj h
    exact ⟨ha, ht, hs, hb⟩
  · rintro ⟨ha, ht, hs, hb⟩
    simp only [parse, ha, ht, hs, hb]
    rfl

lemma notMem_of_parse {text : List α} {m : MailRequest α} (h : parse amp eq text = some m) :
    ∀ x ∈ m.fields, amp ∉ x ∧ eq ∉ x := by
  obtain ⟨ha, ht, hs, hb⟩ := parse_eq_some_iff.mp h
  intro x hx
  simp only [MailRequest.fields, List.mem_cons, List.not_mem_nil, or_false] at hx
  rcases hx with rfl | rfl | rfl | rfl
  · exact notMem_of_fieldValue ha
  · exact notMem_of_fieldValue ht
  · exact notMem_of_fieldValue hs
  · exact notMem_of_fieldValue hb

lemma appName_of_parse {text : List α} {m : MailRequest α} (h : parse amp eq text = some m) :
    appNameOf amp eq text = some m.appName :=
  (parse_eq_some_iff.mp h).1

end

/-- The labels have no separator in them. -/
structure Labels (amp eq : α) (label₀ label₁ label₂ label₃ : List α) : Prop where
  amp_ne_eq : amp ≠ eq
  amp_notMem : ∀ label ∈ [label₀, label₁, label₂, label₃], amp ∉ label
  eq_notMem : ∀ label ∈ [label₀, label₁, label₂, label₃], eq ∉ label

section
variable {label₀ label₁ label₂ label₃ : List α} {m : MailRequest α}

omit [DecidableEq α] in
lemma amp_notMem_field {label value : List α} (hne : amp ≠ eq) (hl : amp ∉ label)
    (hv : amp ∉ value) : amp ∉ field eq label value := by
  simp [field, hl, hne, hv]

lemma Labels.splitOn_print (h : Labels amp eq label₀ label₁ label₂ label₃)
    (hm : ∀ x ∈ m.fields, amp ∉ x) :
    (print amp eq label₀ label₁ label₂ label₃ m).splitOn amp =
      [field eq label₀ m.appName, field eq label₁ m.mailTo, field eq label₂ m.subject,
        field eq label₃ m.body] := by
  have h₀ := amp_notMem_field h.amp_ne_eq (h.amp_notMem label₀ (by simp))
    (hm m.appName (by simp [MailRequest.fields]))
  have h₁ := amp_notMem_field h.amp_ne_eq (h.amp_notMem label₁ (by simp))
    (hm m.mailTo (by simp [MailRequest.fields]))
  have h₂ := amp_notMem_field h.amp_ne_eq (h.amp_notMem label₂ (by simp))
    (hm m.subject (by simp [MailRequest.fields]))
  have h₃ := amp_notMem_field h.amp_ne_eq (h.amp_notMem label₃ (by simp))
    (hm m.body (by simp [MailRequest.fields]))
  rw [print, List.splitOn_append_cons_self_of_not_mem h₀,
    List.splitOn_append_cons_self_of_not_mem h₁, List.splitOn_append_cons_self_of_not_mem h₂,
    List.splitOn_eq_singleton h₃]

/-- A mail is read back exactly when no string of it has a separator. -/
theorem Labels.parse_print_iff (h : Labels amp eq label₀ label₁ label₂ label₃) :
    parse amp eq (print amp eq label₀ label₁ label₂ label₃ m) = some m ↔
      ∀ x ∈ m.fields, amp ∉ x ∧ eq ∉ x := by
  constructor
  · exact notMem_of_parse
  · intro hm
    have value_of {fields : List (List α)} {i : ℕ} {label value : List α}
        (hi : fields[i]? = some (field eq label value))
        (hl : label ∈ [label₀, label₁, label₂, label₃]) (hv : value ∈ m.fields) :
        fieldValue eq fields i = some value :=
      fieldValue_of_getElem? hi (h.eq_notMem label hl) (hm value hv).2
    rw [parse_eq_some_iff, h.splitOn_print fun x hx => (hm x hx).1]
    refine ⟨value_of rfl ?_ ?_, value_of rfl ?_ ?_, value_of rfl ?_ ?_, value_of rfl ?_ ?_⟩
    all_goals simp [MailRequest.fields]

lemma takeWhile_field {label value : List α} (hne : amp ≠ eq) (hl : amp ∉ label) :
    (field eq label value).takeWhile (· ≠ amp) = field eq label (value.takeWhile (· ≠ amp)) := by
  have hlabel : ∀ c ∈ label, decide (c ≠ amp) = true := by
    intro c hc
    exact decide_eq_true fun he => hl (he ▸ hc)
  rw [field, List.takeWhile_append_of_pos hlabel]
  simp [field, hne.symm]

/-- The app name that is read is what stands in the name before a separator, whatever the
other strings are. -/
lemma Labels.appNameOf_print (h : Labels amp eq label₀ label₁ label₂ label₃) :
    appNameOf amp eq (print amp eq label₀ label₁ label₂ label₃ m) =
      some (beforeSeparator amp eq m.appName) := by
  have hamp := h.amp_notMem label₀ (by simp)
  have heq := h.eq_notMem label₀ (by simp)
  -- The first piece ends at a separator in the name or at the one behind it.
  have hfirst : ((print amp eq label₀ label₁ label₂ label₃ m).splitOn amp)[0]? =
      some (field eq label₀ (m.appName.takeWhile (· ≠ amp))) := by
    obtain ⟨rest, hrest⟩ := splitOn_eq_cons amp (field eq label₀ m.appName)
    rw [print, List.splitOn_append_cons_self, hrest, takeWhile_field h.amp_ne_eq hamp]
    rfl
  obtain ⟨rest, hrest⟩ := splitOn_eq_cons eq (m.appName.takeWhile (· ≠ amp))
  rw [appNameOf, fieldValue, hfirst, Option.bind_eq_bind, Option.bind_some, splitOn_field heq,
    hrest]
  rfl

end

abbrev ampersand : UInt8 := 38

abbrev equals : UInt8 := 61

/-- The arguments as `%s` prints them. -/
def MailRequest.cStrings (m : MailRequest UInt8) : MailRequest UInt8 :=
  ⟨cString m.appName, cString m.mailTo, cString m.subject, cString m.body⟩

def bufSize : ℕ := 1000

/-- The body that `PostMail` posts, where text and closing NUL fit the buffer. -/
def postMail (m : MailRequest UInt8) : Option Bytes :=
  let text := print ampersand equals (encode "app_name".toList) (encode "to".toList)
    (encode "subject".toList) (encode "body".toList) m.cStrings
  if text.length < bufSize then some text else none

/-- `sendMail` up to its section, with no result where it panics. -/
def sendMail (body : Bytes) : Option (MailRequest UInt8) := parse ampersand equals body

lemma labels : Labels ampersand equals (encode "app_name".toList) (encode "to".toList)
    (encode "subject".toList) (encode "body".toList) where
  amp_ne_eq := by decide
  amp_notMem := by decide
  eq_notMem := by decide

lemma cStrings_eq_self {m : MailRequest UInt8} (h : ∀ x ∈ m.fields, 0 ∉ x) : m.cStrings = m := by
  have h₀ := cString_of_notMem (h m.appName (by simp [MailRequest.fields]))
  have h₁ := cString_of_notMem (h m.mailTo (by simp [MailRequest.fields]))
  have h₂ := cString_of_notMem (h m.subject (by simp [MailRequest.fields]))
  have h₃ := cString_of_notMem (h m.body (by simp [MailRequest.fields]))
  rw [MailRequest.cStrings, h₀, h₁, h₂, h₃]

/-- `sendMail` gets back the mail that is posted exactly when none of its strings has a
separator. The app name that it takes, which it does before an index can be out of range,
depends on the app name alone. -/
theorem sendMail_postMail (m : MailRequest UInt8) (text : Bytes)
    (hnul : ∀ x ∈ m.fields, 0 ∉ x) (htext : postMail m = some text) :
    (sendMail text = some m ↔ ∀ x ∈ m.fields, ampersand ∉ x ∧ equals ∉ x) ∧
      appNameOf ampersand equals text = some (beforeSeparator ampersand equals m.appName) ∧
      ∀ m', sendMail text = some m' → m'.appName = beforeSeparator ampersand equals m.appName := by
  rw [postMail, cStrings_eq_self hnul] at htext
  obtain ⟨-, htext⟩ := Option.ite_none_right_eq_some.mp htext
  obtain rfl := Option.some.inj htext
  have happ := labels.appNameOf_print (m := m)
  refine ⟨labels.parse_print_iff, happ, ?_⟩
  intro m' hm'
  rw [appName_of_parse hm'] at happ
  exact Option.some.inj happ

theorem sendMail_postMail_separator :
    sendMail (encode "app_name=a&to=b&subject=c&body=d&e".toList) ≠
      some ⟨[97], [98], [99], [100, 38, 101]⟩ := by
  intro h
  have hiff := (sendMail_postMail ⟨[97], [98], [99], [100, 38, 101]⟩
    (encode "app_name=a&to=b&subject=c&body=d&e".toList) (by decide) (by decide)).1
  exact absurd (hiff.mp h) (by decide)

end Eventing.MailCodec
