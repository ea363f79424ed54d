import Mathlib.Logic.Function.Basic
import Eventing.DeployLock
import Eventing.MailCodec

/-!
# The channels for mails

`sendMail` (`http_handlers.go`) looks the channel of an application up under `tableLock` and
sends on it without the lock. `storeAppSetup` closes the channel and deletes the entry under
the lock; for each name that it gets, `main` (`eventing.go`) calls `setUpMailServer`
(`mail_handler.go`), which enters a new channel when the application has mail settings, and
starts `processMails`. Sections of other goroutines under the lock are left out.
-/
namespace Eventing.MailChannels
open Transition
open DeployLock (setupCapacity)

structure SmtpFields where
  mailTo : Text
  subject : Text
  body : Text
  deriving DecidableEq

/-- The four settings that `getMailSettings` returns, which are also the entries of
`appMailSettings`. -/
structure MailSettings where
  smtpServer : Text
  smtpPort : Text
  senderMailID : Text
  password : Text
  deriving DecidableEq

def MailSettings.Complete (m : MailSettings) : Prop :=
  m.smtpServer ≠ [] ∧ m.smtpPort ≠ [] ∧ m.senderMailID ≠ [] ∧ m.password ≠ []

instance (m : MailSettings) : Decidable m.Complete :=
  inferInstanceAs (Decidable (_ ∧ _ ∧ _ ∧ _))

def parseBody (body : Text) : Option (Text × SmtpFields) :=
  (MailCodec.parse '&' '=' body).map fun m => (m.appName, ⟨m.mailTo, m.subject, m.body⟩)

/-- The arguments of a call of `smtp.SendMail`. -/
structure Mail where
  serverPort : Text
  senderMailID : Text
  password : Text
  smtpServer : Text
  mailTo : Text
  msg : Text
  deriving DecidableEq

def mail (m : MailSettings) (f : SmtpFields) : Mail where
  serverPort := m.smtpServer ++ ':' :: m.smtpPort
  senderMailID := m.senderMailID
  password := m.password
  smtpServer := m.smtpServer
  mailTo := f.mailTo
  msg := "From: ".toList ++ m.senderMailID ++ "\nTo: ".toList ++ f.mailTo ++
    "\nSubject: ".toList ++ f.subject ++ "\n\n".toList ++ f.body

/-- `sendMail`: before its section, at the send, and at its end. A body with too few fields
makes it panic, and so does a send on a closed channel. -/
inductive Request
  | idle
  | malformed
  | lookUp (appName : Text) (fields : SmtpFields)
  | send (mailChan : Option ℕ) (fields : SmtpFields)
  | answered
  | panicked
  deriving DecidableEq

/-- `storeAppSetup`: before its section, at the send to `main` with the lock held, and at
its end. -/
inductive Store
  | idle
  | lock (appName : Text)
  | sendSetup (appName : Text)
  | done
  deriving DecidableEq

/-- `main` while it sends the names of `files`, in its `select`, and in `setUpMailServer`
before the settings are read and before its section. -/
inductive Main
  | filling (files : List Text)
  | selecting
  | reading (appName : Text)
  | installing (appName : Text) (mailChan : ℕ) (settings : MailSettings)
  deriving DecidableEq

/-- `processMails`: before its section, at its receive, in `smtp.SendMail`, and at its end. -/
inductive Loop
  | lookUp (appName : Text)
  | receive (mailChan : Option ℕ) (settings : MailSettings)
  | sending (mailChan : ℕ) (settings : MailSettings) (fields : SmtpFields)
  | returned
  deriving DecidableEq

/-- Channels are numbered in the order in which they are made. -/
structure State (ι : Type*) where
  request : ι → Request
  store : ι → Store
  main : Main
  loops : List Loop
  /-- The mail settings in the files of applications that have some. -/
  files : Text → Option MailSettings
  appSetup : List Text
  appMailChanMapping : Text → Option ℕ
  appMailSettings : Text → Option MailSettings
  made : ℕ
  buffer : ℕ → List SmtpFields
  closed : ℕ → Bool
  /-- Whether a `storeAppSetup` holds `tableLock`. -/
  locked : Bool
  /-- The calls of `smtp.SendMail`, whose errors are only logged. -/
  sent : List Mail

variable {ι : Type*}

def State.initial (files : Text → Option MailSettings) (names : List Text) : State ι where
  request _ := .idle
  store _ := .idle
  main := .filling names
  loops := []
  files := files
  appSetup := []
  appMailChanMapping _ := none
  appMailSettings _ := none
  made := 0
  buffer _ := []
  closed _ := false
  locked := false
  sent := []

inductive Action (ι : Type*)
  | sendMail (i : ι) (body : Text)
  | lookUp (i : ι)
  | send (i : ι)
  | writeFile (i : ι) (appName : Text) (settings : Option MailSettings)
  | closeMail (i : ι)
  | sendSetup (i : ι)
  | fill
  | receiveSetup
  | readSettings
  | install
  | startLoop (k : ℕ)
  | receiveMail (k : ℕ)
  | smtpSendMail (k : ℕ)

def mailCapacity : ℕ := 10000

/-- What a missing entry of `appMailSettings` reads as. -/
def noSettings : MailSettings := ⟨[], [], [], []⟩

section
variable [DecidableEq ι]

def State.setRequest (s : State ι) (i : ι) (r : Request) : State ι :=
  { s with request := Function.update s.request i r }

def State.setStore (s : State ι) (i : ι) (p : Store) : State ι :=
  { s with store := Function.update s.store i p }

def step (s : State ι) : Action ι → Option (State ι)
  | .sendMail i body =>
      match s.request i, parseBody body with
      | .idle, some (appName, fields) => some (s.setRequest i (.lookUp appName fields))
      | .idle, none => some (s.setRequest i .malformed)
      | _, _ => none
  | .lookUp i =>
      match s.request i, s.locked with
      | .lookUp appName fields, false =>
          some (s.setRequest i (.send (s.appMailChanMapping appName) fields))
      | _, _ => none
  | .send i =>
      -- A send on a nil channel waits for ever, one on a full channel for a receiver.
      match s.request i with
      | .send (some c) fields =>
          if s.closed c then some (s.setRequest i .panicked)
          else if (s.buffer c).length < mailCapacity then
            some { s.setRequest i .answered with
              buffer := Function.update s.buffer c (s.buffer c ++ [fields]) }
          else none
      | _ => none
  | .writeFile i appName settings =>
      match s.store i with
      | .idle => some { s.setStore i (.lock appName) with
          files := Function.update s.files appName settings }
      | _ => none
  | .closeMail i =>
      match s.store i, s.locked with
      | .lock appName, false =>
          match s.appMailChanMapping appName with
          | some c => some { s.setStore i (.sendSetup appName) with
              locked := true
              closed := Function.update s.closed c true
              appMailChanMapping := Function.update s.appMailChanMapping appName none }
          | none => some { s.setStore i (.sendSetup appName) with locked := true }
      | _, _ => none
  | .sendSetup i =>
      match s.store i with
      | .sendSetup appName =>
          if s.appSetup.length < setupCapacity then
            some { s.setStore i .done with
              locked := false
              appSetup := s.appSetup ++ [appName] }
          else none
      | _ => none
  | .fill =>
      match s.main with
      | .filling [] => some { s with main := .selecting }
      | .filling (file :: files) =>
          if s.appSetup.length < setupCapacity then
            some { s with main := .filling files, appSetup := s.appSetup ++ [file] }
          else none
      | _ => none
  | .receiveSetup =>
      match s.main, s.appSetup with
      | .selecting, appName :: rest => some { s with main := .reading appName, appSetup := rest }
      | _, _ => none
  | .readSettings =>
      match s.main with
      | .reading appName =>
          match (s.files appName).filter (fun m => decide m.Complete) with
          | some m => some { s with main := .installing appName s.made m, made := s.made + 1 }
          | none => some { s with
              main := .selecting
              made := s.made + 1
              loops := s.loops ++ [.lookUp appName] }
      | _ => none
  | .install =>
      match s.main, s.locked with
      | .installing appName c m, false => some { s with
          main := .selecting
          appMailChanMapping := Function.update s.appMailChanMapping appName (some c)
          appMailSettings := Function.update s.appMailSettings appName (some m)
          loops := s.loops ++ [.lookUp appName] }
      | _, _ => none
  | .startLoop k =>
      match s.loops[k]?, s.locked with
      | some (.lookUp appName), false =>
          let m := (s.appMailSettings appName).getD noSettings
          some { s with loops := s.loops.set k (.receive (s.appMailChanMapping appName) m) }
      | _, _ => none
  | .receiveMail k =>
      match s.loops[k]? with
      | some (.receive (some c) m) =>
          match s.buffer c with
          | fields :: rest => some { s with
              buffer := Function.update s.buffer c rest
              loops := s.loops.set k (.sending c m fields) }
          | [] => if s.closed c then some { s with loops := s.loops.set k .returned } else none
      | _ => none
  | .smtpSendMail k =>
      match s.loops[k]? with
      | some (.sending c m fields) => some { s with
          loops := s.loops.set k (.receive (some c) m)
          sent := s.sent ++ [mail m fields] }
      | _ => none

inductive Stepped (s : State ι) : Action ι → State ι → Prop
  | sendMail {i : ι} {body appName : Text} {fields : SmtpFields} (pc : s.request i = .idle)
      (parsed : parseBody body = some (appName, fields)) :
      Stepped s (.sendMail i body) (s.setRequest i (.lookUp appName fields))
  | malformed {i : ι} {body : Text} (pc : s.request i = .idle) (parsed : parseBody body = none) :
      Stepped s (.sendMail i body) (s.setRequest i .malformed)
  | lookUp {i : ι} {appName : Text} {fields : SmtpFields} (pc : s.request i = .lookUp appName fields)
      (free : s.locked = false) :
      Stepped s (.lookUp i) (s.setRequest i (.send (s.appMailChanMapping appName) fields))
  | panic {i : ι} {c : ℕ} {fields : SmtpFields} (pc : s.request i = .send (some c) fields)
      (closed : s.closed c = true) : Stepped s (.send i) (s.setRequest i .panicked)
  | send {i : ι} {c : ℕ} {fields : SmtpFields} (pc : s.request i = .send (some c) fields)
      (closed : s.closed c = false) (room : (s.buffer c).length < mailCapacity) :
      Stepped s (.send i) { s.setRequest i .answered with
        buffer := Function.update s.buffer c (s.buffer c ++ [fields]) }
  | writeFile {i : ι} {appName : Text} {settings : Option MailSettings} (pc : s.store i = .idle) :
      Stepped s (.writeFile i appName settings) { s.setStore i (.lock appName) with
        files := Function.update s.files appName settings }
  | closeMail {i : ι} {appName : Text} {c : ℕ} (pc : s.store i = .lock appName)
      (free : s.locked = false) (entry : s.appMailChanMapping appName = some c) :
      Stepped s (.closeMail i) { s.setStore i (.sendSetup appName) with
        locked := true
        closed := Function.update s.closed c true
        appMailChanMapping := Function.update s.appMailChanMapping appName none }
  | noMail {i : ι} {appName : Text} (pc : s.store i = .lock appName) (free : s.locked = false)
      (entry : s.appMailChanMapping appName = none) :
      Stepped s (.closeMail i) { s.setStore i (.sendSetup appName) with locked := true }
  | sendSetup {i : ι} {appName : Text} (pc : s.store i = .sendSetup appName)
      (room : s.appSetup.length < setupCapacity) :
      Stepped s (.sendSetup i) { s.setStore i .done with
        locked := false
        appSetup := s.appSetup ++ [appName] }
  | filled (pc : s.main = .filling []) : Stepped s .fill { s with main := .selecting }
  | fill {file : Text} {files : List Text} (pc : s.main = .filling (file :: files))
      (room : s.appSetup.length < setupCapacity) :
      Stepped s .fill { s with main := .filling files, appSetup := s.appSetup ++ [file] }
  | receiveSetup {appName : Text} {rest : List Text} (pc : s.main = .selecting)
      (names : s.appSetup = appName :: rest) :
      Stepped s .receiveSetup { s with main := .reading appName, appSetup := rest }
  | readSettings {appName : Text} {m : MailSettings} (pc : s.main = .reading appName)
      (settings : (s.files appName).filter (fun m => decide m.Complete) = some m) :
      Stepped s .readSettings
        { s with main := .installing appName s.made m, made := s.made + 1 }
  | noSettings {appName : Text} (pc : s.main = .reading appName)
      (settings : (s.files appName).filter (fun m => decide m.Complete) = none) :
      Stepped s .readSettings { s with
        main := .selecting
        made := s.made + 1
        loops := s.loops ++ [.lookUp appName] }
  | install {appName : Text} {c : ℕ} {m : MailSettings} (pc : s.main = .installing appName c m)
      (free : s.locked = false) :
      Stepped s .install { s with
        main := .selecting
        appMailChanMapping := Function.update s.appMailChanMapping appName (some c)
        appMailSettings := Function.update s.appMailSettings appName (some m)
        loops := s.loops ++ [.lookUp appName] }
  | startLoop {k : ℕ} {appName : Text} (pc : s.loops[k]? = some (.lookUp appName))
      (free : s.locked = false) :
      Stepped s (.startLoop k) { s with
        loops := s.loops.set k (.receive (s.appMailChanMapping appName)
          ((s.appMailSettings appName).getD MailChannels.noSettings)) }
  | receiveMail {k c : ℕ} {m : MailSettings} {fields : SmtpFields} {rest : List SmtpFields}
      (pc : s.loops[k]? = some (.receive (some c) m)) (mails : s.buffer c = fields :: rest) :
      Stepped s (.receiveMail k) { s with
        buffer := Function.update s.buffer c rest
        loops := s.loops.set k (.sending c m fields) }
  | returned {k c : ℕ} {m : MailSettings} (pc : s.loops[k]? = some (.receive (some c) m))
      (mails : s.buffer c = []) (closed : s.closed c = true) :
      Stepped s (.receiveMail k) { s with loops := s.loops.set k .returned }
  | smtpSendMail {k c : ℕ} {m : MailSettings} {fields : SmtpFields}
      (pc : s.loops[k]? = some (.sending c m fields)) :
      Stepped s (.smtpSendMail k) { s with
        loops := s.loops.set k (.receive (some c) m)
        sent := s.sent ++ [mail m fields] }

lemma step_stepped {s t : State ι} {a : Action ι} (h : step s a = some t) : Stepped s a t := by
  cases a <;> simp only [step] at h
  case sendMail i body =>
    split at h
    · cases h
      exact .sendMail ‹_› ‹_›
    · cases h
      exact .malformed ‹_› ‹_›
    · contradiction
  case lookUp i =>
    split at h
    · cases h
      exact .lookUp ‹_› ‹_›
    · contradiction
  case send i =>
    split at h
    · split_ifs at h with hc hr
      · cases h
        exact .panic ‹_› hc
      · cases h
        exact .send ‹_› (Bool.not_eq_true _ ▸ hc) hr
    · contradiction
  case writeFile i appName settings =>
    split at h
    · cases h
      exact .writeFile ‹_›
    · contradiction
  case closeMail i =>
    split at h
    · split at h
      · cases h
        exact .closeMail ‹_› ‹_› ‹_›
      · cases h
        exact .noMail ‹_› ‹_› ‹_›
    · contradiction
  case sendSetup i =>
    split at h
    · split_ifs at h with hr
      cases h
      exact .sendSetup ‹_› hr
    · contradiction
  case fill =>
    split at h
    · cases h
      exact .filled ‹_›
    · split_ifs at h with hr
      cases h
      exact .fill ‹_› hr
    · contradiction
  case receiveSetup =>
    split at h
    · cases h
      exact .receiveSetup ‹_› ‹_›
    · contradiction
  case readSettings =>
    split at h
    · split at h
      · cases h
        exact .readSettings ‹_› ‹_›
      · cases h
        exact .noSettings ‹_› ‹_›
    · contradiction
  case install =>
    split at h
    · cases h
      exact .install ‹_› ‹_›
    · contradiction
  case startLoop k =>
    split at h
    · cases h
      exact .startLoop ‹_› ‹_›
    · contradiction
  case receiveMail k =>
    split at h
    · split at h
      · cases h
        exact .receiveMail ‹_› ‹_›
      · split_ifs at h with hc
        cases h
        exact .returned ‹_› ‹_› hc
    · contradiction
  case smtpSendMail k =>
    split at h
    · cases h
      exact .smtpSendMail ‹_›
    · contradiction

end

/-- The entries are open channels, each of one application, and so is the channel that
`setUpMailServer` is about to enter. -/
structure Tables (s : State ι) : Prop where
  entry_open : ∀ n c, s.appMailChanMapping n = some c → s.closed c = false
  entry_made : ∀ n c, s.appMailChanMapping n = some c → c < s.made
  entry_unique : ∀ n n' c, s.appMailChanMapping n = some c → s.appMailChanMapping n' = some c → n = n'
  closed_made : ∀ c, s.closed c = true → c < s.made
  installing : ∀ n c m, s.main = .installing n c m →
    c < s.made ∧ s.closed c = false ∧ ∀ n', s.appMailChanMapping n' ≠ some c

lemma Tables.initial (files : Text → Option MailSettings) (names : List Text) :
    Tables (State.initial files names : State ι) where
  entry_open := nofun
  entry_made := nofun
  entry_unique := nofun
  closed_made := nofun
  installing := nofun

lemma Tables.congr {s t : State ι} (hT : Tables s)
    (hentry : t.appMailChanMapping = s.appMailChanMapping) (hclosed : t.closed = s.closed)
    (hmade : s.made ≤ t.made)
    (hmain : ∀ n c m, t.main = .installing n c m → s.main = .installing n c m) : Tables t where
  entry_open := by
    rw [hentry, hclosed]
    exact hT.entry_open
  entry_made n c h := by
    rw [hentry] at h
    exact Nat.lt_of_lt_of_le (hT.entry_made n c h) hmade
  entry_unique := by
    rw [hentry]
    exact hT.entry_unique
  closed_made c h := by
    rw [hclosed] at h
    exact Nat.lt_of_lt_of_le (hT.closed_made c h) hmade
  installing n c m h := by
    obtain ⟨h₁, h₂, h₃⟩ := hT.installing n c m (hmain n c m h)
    rw [hentry, hclosed]
    exact ⟨Nat.lt_of_lt_of_le h₁ hmade, h₂, h₃⟩

lemma Tables.closeMail {s t : State ι} {n : Text} {c : ℕ} (hT : Tables s)
    (entry : s.appMailChanMapping n = some c)
    (hentry : t.appMailChanMapping = Function.update s.appMailChanMapping n none)
    (hclosed : t.closed = Function.update s.closed c true) (hmade : t.made = s.made)
    (hmain : t.main = s.main) : Tables t := by
  have hother : ∀ n' c', t.appMailChanMapping n' = some c' →
      n' ≠ n ∧ s.appMailChanMapping n' = some c' := by
    intro n' c' h
    rw [hentry, Function.update_apply] at h
    split_ifs at h with hn
    exact ⟨hn, h⟩
  constructor
  · intro n' c' h
    obtain ⟨hn, h⟩ := hother n' c' h
    have hc : c' ≠ c := by
      intro hc
      exact hn (hT.entry_unique n' n c (hc ▸ h) entry)
    rw [hclosed, Function.update_of_ne hc]
    exact hT.entry_open n' c' h
  · intro n' c' h
    rw [hmade]
    exact hT.entry_made n' c' (hother n' c' h).2
  · intro n' n'' c' h h'
    exact hT.entry_unique n' n'' c' (hother n' c' h).2 (hother n'' c' h').2
  · intro c' h
    rw [hmade]
    rw [hclosed, Function.update_apply] at h
    split_ifs at h with hc
    · exact hc ▸ hT.entry_made n c entry
    · exact hT.closed_made c' h
  · intro n' c' m h
    rw [hmain] at h
    obtain ⟨h₁, h₂, h₃⟩ := hT.installing n' c' m h
    have hc : c' ≠ c := by
      intro hc
      exact h₃ n (hc ▸ entry)
    refine ⟨hmade ▸ h₁, ?_, ?_⟩
    · rw [hclosed, Function.update_of_ne hc]
      exact h₂
    · intro n'' hn
      exact h₃ n'' (hother n'' c' hn).2

lemma Tables.install {s t : State ι} {n : Text} {c : ℕ} {m : MailSettings} (hT : Tables s)
    (pc : s.main = .installing n c m)
    (hentry : t.appMailChanMapping = Function.update s.appMailChanMapping n (some c))
    (hclosed : t.closed = s.closed) (hmade : t.made = s.made) (hmain : t.main = .selecting) :
    Tables t := by
  obtain ⟨hlt, hopen, hnew⟩ := hT.installing n c m pc
  have hcases : ∀ n' c', t.appMailChanMapping n' = some c' →
      n' = n ∧ c' = c ∨ s.appMailChanMapping n' = some c' := by
    intro n' c' h
    rw [hentry, Function.update_apply] at h
    split_ifs at h with hn
    · exact .inl ⟨hn, (Option.some.inj h).symm⟩
    · exact .inr h
  constructor
  · intro n' c' h
    rw [hclosed]
    rcases hcases n' c' h with ⟨-, rfl⟩ | h
    · exact hopen
    · exact hT.entry_open n' c' h
  · intro n' c' h
    rw [hmade]
    rcases hcases n' c' h with ⟨-, rfl⟩ | h
    · exact hlt
    · exact hT.entry_made n' c' h
  · intro n' n'' c' h h'
    rcases hcases n' c' h with ⟨rfl, rfl⟩ | h <;> rcases hcases n'' _ h' with ⟨rfl, hc⟩ | h'
    · rfl
    · exact absurd h' (hnew n'')
    · exact absurd (hc ▸ h) (hnew n')
    · exact hT.entry_unique n' n'' c' h h'
  · rw [hclosed, hmade]
    exact hT.closed_made
  · intro n' c' m' h
    rw [hmain] at h
    contradiction

lemma Tables.readSettings {s t : State ι} {n : Text} {m : MailSettings} (hT : Tables s)
    (hentry : t.appMailChanMapping = s.appMailChanMapping) (hclosed : t.closed = s.closed)
    (hmade : t.made = s.made + 1) (hmain : t.main = .installing n s.made m) : Tables t := by
  constructor
  · rw [hentry, hclosed]
    exact hT.entry_open
  · intro n' c h
    rw [hentry] at h
    have := hT.entry_made n' c h
    omega
  · rw [hentry]
    exact hT.entry_unique
  · intro c h
    rw [hclosed] at h
    have := hT.closed_made c h
    omega
  · intro n' c m' h
    rw [hmain] at h
    obtain ⟨rfl, rfl, rfl⟩ := Main.installing.inj h
    rw [hentry, hclosed]
    refine ⟨by omega, ?_, ?_⟩
    · by_contra hc
      exact absurd (hT.closed_made _ (Bool.not_eq_false _ ▸ hc)) (Nat.lt_irrefl _)
    · intro n'' hn
      exact absurd (hT.entry_made n'' _ hn) (Nat.lt_irrefl _)

/-- The channel of a send is neither nil nor closed. -/
def Request.Live (closed : ℕ → Bool) : Request → Prop
  | .send (some c) _ => closed c = false
  | .send none _ | .panicked => False
  | .idle | .malformed | .lookUp _ _ | .answered => True

instance (closed : ℕ → Bool) : (r : Request) → Decidable (r.Live closed)
  | .send (some c) _ => inferInstanceAs (Decidable (closed c = false))
  | .send none _ | .panicked => inferInstanceAs (Decidable False)
  | .idle | .malformed | .lookUp _ _ | .answered => inferInstanceAs (Decidable True)

def SendsLive (s : State ι) : Prop := ∀ i, (s.request i).Live s.closed

instance {n : ℕ} (s : State (Fin n)) : Decidable (SendsLive s) :=
  inferInstanceAs (Decidable (∀ i, (s.request i).Live s.closed))

/-- A request finds a channel for its application, and a channel is closed when no request
is about to send on it. -/
def Served (s : State ι) : Action ι → Prop
  | .lookUp i => ∀ n fields, s.request i = .lookUp n fields → s.appMailChanMapping n ≠ none
  | .closeMail i => ∀ n c, s.store i = .lock n → s.appMailChanMapping n = some c →
      ∀ j fields, s.request j ≠ .send (some c) fields
  | _ => True

lemma sendsLive_lookUp {s : State ι} {i : ι} {n : Text} {fields : SmtpFields} (hT : Tables s)
    (pc : s.request i = .lookUp n fields) :
    (Request.send (s.appMailChanMapping n) fields).Live s.closed ↔ Served s (.lookUp i) := by
  cases hentry : s.appMailChanMapping n with
  | none =>
    refine iff_of_false id ?_
    intro hserved
    exact hserved n fields pc hentry
  | some c =>
    refine iff_of_true (hT.entry_open n c hentry) ?_
    intro n' fields' pc'
    obtain ⟨rfl, rfl⟩ := Request.lookUp.inj (pc.symm.trans pc')
    rw [hentry]
    exact Option.some_ne_none c

lemma sendsLive_closeMail {s t : State ι} {i : ι} {n : Text} {c : ℕ} (hl : SendsLive s)
    (pc : s.store i = .lock n) (entry : s.appMailChanMapping n = some c)
    (hrequest : t.request = s.request) (hclosed : t.closed = Function.update s.closed c true) :
    SendsLive t ↔ Served s (.closeMail i) := by
  constructor
  · intro h n' c' pc' entry' j fields hj
    obtain rfl := Store.lock.inj (pc.symm.trans pc')
    obtain rfl := Option.some.inj (entry.symm.trans entry')
    have hlive := h j
    rw [hrequest, hj, hclosed] at hlive
    simp [Request.Live] at hlive
  · intro hserved j
    have hlive := hl j
    rw [hrequest, hclosed]
    cases hj : s.request j with
    | send mailChan fields =>
      rw [hj] at hlive
      cases mailChan with
      | none => exact hlive
      | some c' =>
        have hc : c' ≠ c := by
          rintro rfl
          exact hserved n c' pc entry j fields hj
        show Function.update s.closed c true c' = false
        rw [Function.update_of_ne hc]
        exact hlive
    | panicked =>
      rw [hj] at hlive
      exact hlive
    | idle | malformed | lookUp | answered => trivial

section
variable [DecidableEq ι]

lemma Tables.step {s t : State ι} {a : Action ι} (hT : Tables s) (h : step s a = some t) :
    Tables t := by
  cases step_stepped h with
  | sendMail | malformed | lookUp | panic | send | writeFile | noMail | sendSetup | startLoop
  | receiveMail | returned | smtpSendMail => exact hT.congr rfl rfl (Nat.le_refl _) fun _ _ _ h => h
  | filled | fill | receiveSetup => exact hT.congr rfl rfl (Nat.le_refl _) nofun
  | noSettings => exact hT.congr rfl rfl (Nat.le_succ _) nofun
  | closeMail _ _ entry => exact hT.closeMail entry rfl rfl rfl rfl
  | readSettings => exact hT.readSettings rfl rfl rfl rfl
  | install pc => exact hT.install pc rfl rfl rfl rfl

lemma sendsLive_setRequest {s : State ι} (hl : SendsLive s) (i : ι) (r : Request) :
    SendsLive (s.setRequest i r) ↔ r.Live s.closed := by
  constructor
  · intro h
    have hi : (Function.update s.request i r i).Live s.closed := h i
    rwa [Function.update_self] at hi
  · intro hr j
    show (Function.update s.request i r j).Live s.closed
    rw [Function.update_apply]
    split_ifs
    · exact hr
    · exact hl j

lemma sendsLive_iff {s t : State ι} {a : Action ι} (hT : Tables s) (hl : SendsLive s)
    (h : step s a = some t) : SendsLive t ↔ Served s a := by
  cases step_stepped h with
  | sendMail | malformed => exact sendsLive_setRequest hl _ _
  | lookUp pc => exact (sendsLive_setRequest hl _ _).trans (sendsLive_lookUp hT pc)
  | @panic i c fields pc closed =>
    have hlive := hl i
    rw [pc] at hlive
    exact absurd (closed.symm.trans hlive) Bool.noConfusion
  | send => exact sendsLive_setRequest hl _ .answered
  | closeMail pc _ entry => exact sendsLive_closeMail hl pc entry rfl rfl
  | noMail pc _ entry =>
    refine iff_of_true hl ?_
    intro n c pc' entry'
    obtain rfl := Store.lock.inj (pc.symm.trans pc')
    rw [entry] at entry'
    contradiction
  | writeFile | sendSetup | filled | fill | receiveSetup | readSettings | noSettings | install
  | startLoop | receiveMail | returned | smtpSendMail => exact iff_of_true hl trivial

/-- A request is never at a send on a nil or a closed channel exactly when each one is
served. -/
theorem sendsLive_along_iff (files : Text → Option MailSettings) (names : List Text)
    (as : List (Action ι)) :
    Along step (fun _ _ t => SendsLive t) (.initial files names) as ↔
      Along step (fun s a _ => Served s a) (.initial files names) as := by
  refine along_iff (I := fun s => Tables s ∧ SendsLive s) ⟨.initial files names, ?_⟩ ?_ ?_ as
  · intro i
    trivial
  · intro s a t hI h
    exact sendsLive_iff hI.1 hI.2 h
  · intro s a t hI h hl
    exact ⟨hI.1.step h, hl⟩

/-- A request without a channel is never answered. -/
theorem nil_send_stays {s : State ι} {i : ι} {fields : SmtpFields}
    (hs : s.request i = .send none fields) : Stays step (fun s => s.request i) s := by
  refine stays_of_step (I := fun s => s.request i = .send none fields) hs ?_
  intro s a t hi h
  suffices ht : t.request i = s.request i from ⟨ht.trans hi, ht⟩
  cases step_stepped h with
  | sendMail pc | malformed pc | lookUp pc | panic pc | send pc =>
    refine Function.update_of_ne ?_ _ _
    rintro rfl
    cases hi.symm.trans pc
  | closeMail | noMail | writeFile | sendSetup | filled | fill | receiveSetup | readSettings
  | noSettings | install | startLoop | receiveMail | returned | smtpSendMail => rfl

end

def testBody : Text := "app_name=test_app&to=a&subject=b&body=c".toList

def testSettings : MailSettings := ⟨['h'], ['2', '5'], ['s'], ['p']⟩

/-- `main` has set up an application without mail settings when the request comes; or the
application has some and is deployed again between the section and the send. -/
theorem not_sendsLive_along :
    ¬ Along step (fun _ _ t => SendsLive t)
      (.initial (fun _ => none) ["test_app".toList] : State (Fin 1))
      [.fill, .fill, .receiveSetup, .readSettings, .sendMail 0 testBody, .lookUp 0] ∧
    ¬ Along step (fun _ _ t => SendsLive t)
      (.initial (fun _ => some testSettings) ["test_app".toList] : State (Fin 1))
      [.fill, .fill, .receiveSetup, .readSettings, .install, .sendMail 0 testBody, .lookUp 0,
        .writeFile 0 "test_app".toList (some testSettings), .closeMail 0] := by
  constructor <;> decide

end Eventing.MailChannels
