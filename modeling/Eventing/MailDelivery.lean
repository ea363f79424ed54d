import Eventing.MailChannels

/-!
# What becomes of the mails

`sendMail` sends the fields of a mail on the channel that it has looked up, and `processMails`
receives them and then calls `smtp.SendMail` (`http_handlers.go`), while applications are stored
and set up again. A journal of a run says which mails the channels have taken, and which loop
has received and sent them.
-/
namespace Eventing.MailDelivery
open MailChannels Transition

variable {ι : Type*}

/-- A channel is made, for the settings that it is entered with or for none; it takes the fields
of a mail; a loop receives them from it; and the loop sends a mail. -/
inductive Event
  | made (settings : Option MailSettings)
  | taken (c : ℕ) (fields : SmtpFields)
  | received (k c : ℕ) (fields : SmtpFields)
  | sent (k : ℕ) (mail : Mail)
  deriving DecidableEq

def events (s : State ι) : Action ι → List Event
  | .readSettings =>
      match s.main with
      | .reading appName => [.made ((s.files appName).filter fun m => decide m.Complete)]
      | _ => []
  | .send i =>
      match s.request i with
      | .send (some c) fields => if s.closed c then [] else [.taken c fields]
      | _ => []
  | .receiveMail k =>
      match s.loops[k]? with
      | some (.receive (some c) _) => ((s.buffer c).head?.map fun fields => Event.received k c fields).toList
      | _ => []
  | .smtpSendMail k =>
      match s.loops[k]? with
      | some (.sending _ m fields) => [.sent k (mail m fields)]
      | _ => []
  | _ => []

def Event.settings : Event → Option (Option MailSettings)
  | .made m => some m
  | .taken _ _ | .received _ _ _ | .sent _ _ => none

def Event.takenOf (c : ℕ) : Event → Option SmtpFields
  | .taken c' fields => if c' = c then some fields else none
  | .made _ | .received _ _ _ | .sent _ _ => none

def Event.receivedOf (c : ℕ) : Event → Option SmtpFields
  | .received _ c' fields => if c' = c then some fields else none
  | .made _ | .taken _ _ | .sent _ _ => none

def Event.receivedBy (k : ℕ) : Event → Option (ℕ × SmtpFields)
  | .received k' c fields => if k' = k then some (c, fields) else none
  | .made _ | .taken _ _ | .sent _ _ => none

def Event.sentBy (k : ℕ) : Event → Option Mail
  | .sent k' mail => if k' = k then some mail else none
  | .made _ | .taken _ _ | .received _ _ _ => none

def Event.mail : Event → Option Mail
  | .sent _ mail => some mail
  | .made _ | .taken _ _ | .received _ _ _ => none

def settings (journal : List Event) : List (Option MailSettings) := journal.filterMap Event.settings

def takenOf (c : ℕ) (journal : List Event) : List SmtpFields := journal.filterMap (Event.takenOf c)

def receivedOf (c : ℕ) (journal : List Event) : List SmtpFields :=
  journal.filterMap (Event.receivedOf c)

def receivedBy (k : ℕ) (journal : List Event) : List (ℕ × SmtpFields) :=
  journal.filterMap (Event.receivedBy k)

def sentBy (k : ℕ) (journal : List Event) : List Mail := journal.filterMap (Event.sentBy k)

def sent (journal : List Event) : List Mail := journal.filterMap Event.mail

/-- The channel is made for these settings. -/
def MadeFor (journal : List Event) (c : ℕ) (m : MailSettings) : Prop :=
  (settings journal)[c]? = some (some m)

def mailOf (journal : List Event) (p : ℕ × SmtpFields) : Option Mail :=
  ((settings journal)[p.1]?.join).map fun m => mail m p.2

/-- The channel of a loop, with its settings. -/
def channel : Loop → Option (ℕ × MailSettings)
  | .receive mailChan m => mailChan.map fun c => (c, m)
  | .sending c m _ => some (c, m)
  | .lookUp _ | .returned => none

/-- What a loop has received and not sent yet. -/
def inHand : Loop → List Mail
  | .sending _ m fields => [mail m fields]
  | .lookUp _ | .receive _ _ | .returned => []

def hand (loops : List Loop) (k : ℕ) : List Mail := (loops[k]?.map inHand).getD []

/-- Wherever a channel is, it is with its settings; what it has taken is what was received from
it and what it holds; and what a loop has received is what it has sent and has in hand. -/
structure Account (s : State ι) (journal : List Event) : Prop where
  made : s.made = (settings journal).length
  main : ∀ n c m, s.main = .installing n c m → MadeFor journal c m
  entries : ∀ n c, s.appMailChanMapping n = some c →
    ∃ m, s.appMailSettings n = some m ∧ MadeFor journal c m
  loops : ∀ l ∈ s.loops, ∀ p ∈ channel l, MadeFor journal p.1 p.2
  balance : ∀ c, receivedOf c journal ++ s.buffer c = takenOf c journal
  hands : ∀ k, (sentBy k journal ++ hand s.loops k).map some =
    (receivedBy k journal).map (mailOf journal)
  sent : s.sent = sent journal

lemma Account.initial (files : Text → Option MailSettings) (names : List Text) :
    Account (.initial files names : State ι) [] where
  made := rfl
  main _ _ _ h := by contradiction
  entries _ _ h := by contradiction
  loops _ h := by contradiction
  balance _ := rfl
  hands _ := rfl
  sent := rfl

lemma filterMap_concat {α β : Type*} (f : α → Option β) (l : List α) (x : α) :
    (l ++ [x]).filterMap f = l.filterMap f ++ (f x).toList := by
  rw [List.filterMap_append]
  cases h : f x <;> simp [h]

section Journal
variable {journal : List Event} {e : Event}

lemma settings_concat : settings (journal ++ [e]) = settings journal ++ e.settings.toList :=
  filterMap_concat _ _ _

@[simp] lemma takenOf_concat (c : ℕ) :
    takenOf c (journal ++ [e]) = takenOf c journal ++ (e.takenOf c).toList := filterMap_concat _ _ _

@[simp] lemma receivedOf_concat (c : ℕ) :
    receivedOf c (journal ++ [e]) = receivedOf c journal ++ (e.receivedOf c).toList :=
  filterMap_concat _ _ _

@[simp] lemma receivedBy_concat (k : ℕ) :
    receivedBy k (journal ++ [e]) = receivedBy k journal ++ (e.receivedBy k).toList :=
  filterMap_concat _ _ _

@[simp] lemma sentBy_concat (k : ℕ) :
    sentBy k (journal ++ [e]) = sentBy k journal ++ (e.sentBy k).toList := filterMap_concat _ _ _

@[simp] lemma sent_concat : sent (journal ++ [e]) = sent journal ++ e.mail.toList :=
  filterMap_concat _ _ _

end Journal

section Hands
variable {loops : List Loop} {k j : ℕ} {l l' : Loop}

lemma hand_of_getElem? (h : loops[k]? = some l) : hand loops k = inHand l := by
  rw [hand, h]
  rfl

lemma hand_set (h : loops[k]? = some l) :
    hand (loops.set k l') j = if j = k then inHand l' else hand loops j := by
  have hlt : k < loops.length := (List.getElem?_eq_some_iff.mp h).1
  by_cases hj : j = k
  · subst hj
    rw [if_pos rfl, hand, List.getElem?_set_self hlt]
    rfl
  · rw [if_neg hj, hand, List.getElem?_set_ne (Ne.symm hj), hand]

lemma hand_set_of_inHand (h : loops[k]? = some l) (heq : inHand l' = inHand l) :
    hand (loops.set k l') j = hand loops j := by
  rw [hand_set h]
  split_ifs with hj
  · rw [heq, hj, hand_of_getElem? h]
  · rfl

lemma hand_append_lookUp (loops : List Loop) (n : Text) (k : ℕ) :
    hand (loops ++ [.lookUp n]) k = hand loops k := by
  rw [hand, hand]
  rcases Nat.lt_trichotomy k loops.length with hk | hk | hk
  · rw [List.getElem?_append_left hk]
  · subst hk
    rw [List.getElem?_concat_length, List.getElem?_eq_none (Nat.le_refl _)]
    rfl
  · have hlt : (loops ++ [Loop.lookUp n]).length ≤ k := by
      rw [List.length_append, List.length_singleton]
      omega
    rw [List.getElem?_eq_none hlt, List.getElem?_eq_none (Nat.le_of_lt hk)]

lemma channel_of_mem_set (h : loops[k]? = some l) (heq : ∀ p ∈ channel l', p ∈ channel l) :
    ∀ x ∈ loops.set k l', ∀ p ∈ channel x, ∃ y ∈ loops, p ∈ channel y := by
  intro x hx p hp
  rcases List.mem_or_eq_of_mem_set hx with hx | rfl
  · exact ⟨x, hx, hp⟩
  · exact ⟨l, List.mem_of_getElem? h, heq p hp⟩

end Hands

section
variable {s t : State ι} {journal : List Event} {c : ℕ}

lemma mailOf_of_madeFor {m : MailSettings} (h : MadeFor journal c m) (fields : SmtpFields) :
    mailOf journal (c, fields) = some (mail m fields) := by
  rw [mailOf, h]
  rfl

lemma Account.congr (h : Account s journal) (hmade : t.made = s.made)
    (hmain : ∀ n c m, t.main = .installing n c m → s.main = .installing n c m)
    (hentries : ∀ n c, t.appMailChanMapping n = some c → s.appMailChanMapping n = some c)
    (hsettings : t.appMailSettings = s.appMailSettings)
    (hloops : ∀ x ∈ t.loops, ∀ p ∈ channel x, ∃ y ∈ s.loops, p ∈ channel y)
    (hhands : ∀ k, hand t.loops k = hand s.loops k)
    (hbuffer : t.buffer = s.buffer) (hsent : t.sent = s.sent) : Account t journal where
  made := hmade.trans h.made
  main n c m hm := h.main n c m (hmain n c m hm)
  entries n c hc := by
    rw [hsettings]
    exact h.entries n c (hentries n c hc)
  loops x hx p hp := by
    obtain ⟨y, hy, hp⟩ := hloops x hx p hp
    exact h.loops y hy p hp
  balance c := by
    rw [hbuffer]
    exact h.balance c
  hands k := by
    rw [hhands]
    exact h.hands k
  sent := hsent.trans h.sent

lemma Account.event (h : Account s journal) {e : Event} (he : e.settings = none)
    (hmade : t.made = s.made) (hmain : t.main = s.main)
    (hentries : t.appMailChanMapping = s.appMailChanMapping)
    (hsettings : t.appMailSettings = s.appMailSettings)
    (hloops : ∀ x ∈ t.loops, ∀ p ∈ channel x, ∃ y ∈ s.loops, p ∈ channel y)
    (hbalance : ∀ c, receivedOf c (journal ++ [e]) ++ t.buffer c = takenOf c (journal ++ [e]))
    (hhands : ∀ k, (sentBy k (journal ++ [e]) ++ hand t.loops k).map some =
      (receivedBy k (journal ++ [e])).map (mailOf journal))
    (hsent : t.sent = MailDelivery.sent (journal ++ [e])) : Account t (journal ++ [e]) := by
  have hset : settings (journal ++ [e]) = settings journal := by
    simp [settings_concat, he]
  have hmails : mailOf (journal ++ [e]) = mailOf journal := by
    funext p
    rw [mailOf, mailOf, hset]
  have hsame {c : ℕ} {m : MailSettings} : MadeFor (journal ++ [e]) c m ↔ MadeFor journal c m := by
    rw [MadeFor, MadeFor, hset]
  refine ⟨?_, ?_, ?_, ?_, hbalance, ?_, hsent⟩
  · rw [hset, hmade, h.made]
  · intro n c m hc
    exact hsame.mpr (h.main n c m (hmain ▸ hc))
  · intro n c hc
    obtain ⟨m, hm, hc⟩ := h.entries n c (hentries ▸ hc)
    exact ⟨m, hsettings ▸ hm, hsame.mpr hc⟩
  · intro x hx p hp
    obtain ⟨y, hy, hp⟩ := hloops x hx p hp
    exact hsame.mpr (h.loops y hy p hp)
  · intro k
    rw [hmails]
    exact hhands k

lemma Account.make (h : Account s journal) (m : Option MailSettings) (hmade : t.made = s.made + 1)
    (hmain : ∀ n c m', t.main = .installing n c m' → c = s.made ∧ m = some m')
    (hentries : t.appMailChanMapping = s.appMailChanMapping)
    (hsettings : t.appMailSettings = s.appMailSettings)
    (hloops : ∀ x ∈ t.loops, ∀ p ∈ channel x, ∃ y ∈ s.loops, p ∈ channel y)
    (hhands : ∀ k, hand t.loops k = hand s.loops k)
    (hbuffer : t.buffer = s.buffer) (hsent : t.sent = s.sent) : Account t (journal ++ [.made m]) := by
  have hset : settings (journal ++ [.made m]) = settings journal ++ [m] := by
    simp [settings_concat, Event.settings]
  have htaken (c : ℕ) : takenOf c (journal ++ [.made m]) = takenOf c journal := by
    simp [Event.takenOf]
  have hreceived (c : ℕ) : receivedOf c (journal ++ [.made m]) = receivedOf c journal := by
    simp [Event.receivedOf]
  have hby (k : ℕ) : receivedBy k (journal ++ [.made m]) = receivedBy k journal := by
    simp [Event.receivedBy]
  have hsentBy (k : ℕ) : sentBy k (journal ++ [.made m]) = sentBy k journal := by
    simp [Event.sentBy]
  have hkeep {c : ℕ} {m' : MailSettings} (hc : MadeFor journal c m') :
      MadeFor (journal ++ [.made m]) c m' := by
    rw [MadeFor, hset, List.getElem?_append_left (List.getElem?_eq_some_iff.mp hc).1]
    exact hc
  -- What was received is of a channel that was made before.
  have hmails {p : ℕ × SmtpFields} (hp : mailOf journal p ≠ none) :
      mailOf (journal ++ [.made m]) p = mailOf journal p := by
    cases hc : (settings journal)[p.1]? with
    | none => simp [mailOf, hc] at hp
    | some o =>
      rw [mailOf, mailOf, hset, List.getElem?_append_left (List.getElem?_eq_some_iff.mp hc).1]
  refine ⟨?_, ?_, ?_, ?_, ?_, ?_, ?_⟩
  · rw [hset, List.length_append, hmade, h.made]
    rfl
  · intro n c m' hc
    obtain ⟨rfl, rfl⟩ := hmain n c m' hc
    rw [MadeFor, hset, h.made]
    simp
  · intro n c hc
    obtain ⟨m', hm', hc'⟩ := h.entries n c (hentries ▸ hc)
    exact ⟨m', hsettings ▸ hm', hkeep hc'⟩
  · intro x hx p hp
    obtain ⟨y, hy, hp⟩ := hloops x hx p hp
    exact hkeep (h.loops y hy p hp)
  · intro c
    rw [htaken, hreceived, hbuffer]
    exact h.balance c
  · intro k
    rw [hby, hsentBy, hhands, h.hands k]
    refine List.map_congr_left fun p hp => (hmails ?_).symm
    have hsome : mailOf journal p ∈ (sentBy k journal ++ hand s.loops k).map some := by
      rw [h.hands k]
      exact List.mem_map_of_mem hp
    obtain ⟨mail, -, hmail⟩ := List.mem_map.mp hsome
    rw [← hmail]
    exact Option.some_ne_none mail
  · rw [hsent, h.sent]
    simp [Event.mail]

variable [DecidableEq ι] {a : Action ι}

omit [DecidableEq ι] in
lemma Account.nothing (h : Account t journal) (he : events s a = []) :
    Account t (journal ++ events s a) := by
  rwa [he, List.append_nil]

lemma Account.setRequest (h : Account s journal) (i : ι) (r : Request) :
    Account (s.setRequest i r) journal :=
  h.congr rfl (fun _ _ _ h => h) (fun _ _ h => h) rfl (fun x hx _ hp => ⟨x, hx, hp⟩) (fun _ => rfl)
    rfl rfl

lemma Account.send (h : Account s journal) (i : ι) (c : ℕ) (fields : SmtpFields) :
    Account { s.setRequest i .answered with
      buffer := Function.update s.buffer c (s.buffer c ++ [fields]) } (journal ++ [.taken c fields]) := by
  refine h.event rfl rfl rfl rfl rfl (fun x hx _ hp => ⟨x, hx, hp⟩) ?_ ?_ ?_
  · intro c'
    have hbalance := h.balance c'
    rw [receivedOf_concat, takenOf_concat, ← hbalance]
    by_cases hc : c' = c
    · simp [hc, Event.receivedOf, Event.takenOf]
    · simp [hc, Ne.symm hc, Event.receivedOf, Event.takenOf]
  · intro k
    simpa [State.setRequest, Event.sentBy, Event.receivedBy] using h.hands k
  · simpa [State.setRequest, Event.mail] using h.sent

omit [DecidableEq ι] in
lemma Account.receiveMail (h : Account s journal) {k : ℕ} {m : MailSettings} {fields : SmtpFields}
    {rest : List SmtpFields} (pc : s.loops[k]? = some (.receive (some c) m))
    (mails : s.buffer c = fields :: rest) :
    Account { s with
      buffer := Function.update s.buffer c rest
      loops := s.loops.set k (.sending c m fields) } (journal ++ [.received k c fields]) := by
  have hm : MadeFor journal c m := h.loops _ (List.mem_of_getElem? pc) (c, m) rfl
  refine h.event rfl rfl rfl rfl rfl (channel_of_mem_set pc fun _ hp => hp) ?_ ?_ ?_
  · intro c'
    have hbalance := h.balance c'
    rw [receivedOf_concat, takenOf_concat, ← hbalance]
    by_cases hc : c' = c
    · simp [hc, mails, Event.receivedOf, Event.takenOf]
    · simp [hc, Ne.symm hc, Event.receivedOf, Event.takenOf]
  · intro j
    have hhands := h.hands j
    rw [sentBy_concat, receivedBy_concat, hand_set pc]
    by_cases hj : j = k
    · subst hj
      rw [hand_of_getElem? pc] at hhands
      simp only [inHand, List.append_nil] at hhands
      simp [Event.sentBy, Event.receivedBy, inHand, mailOf_of_madeFor hm, hhands]
    · simpa [hj, Ne.symm hj, Event.sentBy, Event.receivedBy] using hhands
  · simpa [Event.mail] using h.sent

omit [DecidableEq ι] in
lemma Account.smtpSendMail (h : Account s journal) {k : ℕ} {m : MailSettings} {fields : SmtpFields}
    (pc : s.loops[k]? = some (.sending c m fields)) :
    Account { s with
      loops := s.loops.set k (.receive (some c) m)
      sent := s.sent ++ [mail m fields] } (journal ++ [.sent k (mail m fields)]) := by
  refine h.event rfl rfl rfl rfl rfl (channel_of_mem_set pc fun _ hp => hp) ?_ ?_ ?_
  · intro c'
    simpa [Event.receivedOf, Event.takenOf] using h.balance c'
  · intro j
    have hhands := h.hands j
    rw [sentBy_concat, receivedBy_concat, hand_set pc]
    by_cases hj : j = k
    · subst hj
      rw [hand_of_getElem? pc] at hhands
      simpa [Event.sentBy, Event.receivedBy, inHand] using hhands
    · simpa [hj, Ne.symm hj, Event.sentBy, Event.receivedBy] using hhands
  · simp [Event.mail, h.sent]

omit [DecidableEq ι] in
lemma Account.install (h : Account s journal) {n : Text} {m : MailSettings}
    (pc : s.main = .installing n c m) :
    Account { s with
      main := .selecting
      appMailChanMapping := Function.update s.appMailChanMapping n (some c)
      appMailSettings := Function.update s.appMailSettings n (some m)
      loops := s.loops ++ [.lookUp n] } journal where
  made := h.made
  main _ _ _ h := by contradiction
  entries n' c' hc := by
    simp only [Function.update_apply] at hc ⊢
    split_ifs at hc ⊢
    · obtain rfl := Option.some.inj hc
      exact ⟨m, rfl, h.main n c m pc⟩
    · exact h.entries n' c' hc
  loops x hx p hp := by
    rcases List.mem_append.mp hx with hx | hx
    · exact h.loops x hx p hp
    · rw [List.mem_singleton.mp hx] at hp
      contradiction
  balance := h.balance
  hands k := by
    rw [hand_append_lookUp]
    exact h.hands k
  sent := h.sent

omit [DecidableEq ι] in
lemma Account.startLoop (h : Account s journal) {k : ℕ} {n : Text}
    (pc : s.loops[k]? = some (.lookUp n)) :
    Account { s with
      loops := s.loops.set k (.receive (s.appMailChanMapping n)
        ((s.appMailSettings n).getD MailChannels.noSettings)) } journal where
  made := h.made
  main := h.main
  entries := h.entries
  loops x hx p hp := by
    rcases List.mem_or_eq_of_mem_set hx with hx | rfl
    · exact h.loops x hx p hp
    · obtain ⟨c, hc, rfl⟩ := Option.map_eq_some_iff.mp hp
      obtain ⟨m, hm, hmade⟩ := h.entries n c hc
      rwa [hm]
  balance := h.balance
  hands j := by
    have hhand : hand (s.loops.set k (.receive (s.appMailChanMapping n)
        ((s.appMailSettings n).getD MailChannels.noSettings))) j = hand s.loops j :=
      hand_set_of_inHand pc rfl
    rw [hhand]
    exact h.hands j
  sent := h.sent

lemma Account.step (h : Account s journal) (hs : step s a = some t) :
    Account t (journal ++ events s a) := by
  have hloops : ∀ x ∈ s.loops, ∀ p ∈ channel x, ∃ y ∈ s.loops, p ∈ channel y :=
    fun x hx _ hp => ⟨x, hx, hp⟩
  have hstarted (n : Text) : ∀ x ∈ s.loops ++ [.lookUp n], ∀ p ∈ channel x,
      ∃ y ∈ s.loops, p ∈ channel y := by
    intro x hx p hp
    rcases List.mem_append.mp hx with hx | hx
    · exact ⟨x, hx, hp⟩
    · rw [List.mem_singleton.mp hx] at hp
      contradiction
  cases step_stepped hs with
  | sendMail pc parsed => exact Account.nothing (h.setRequest _ _) rfl
  | malformed pc parsed => exact Account.nothing (h.setRequest _ _) rfl
  | panic pc closed =>
    exact Account.nothing (h.setRequest _ _) (by simp [events, pc, closed])
  | lookUp pc free => exact Account.nothing (h.setRequest _ _) rfl
  | @send i c fields pc closed room =>
    have he : events s (.send i) = [.taken c fields] := by simp [events, pc, closed]
    rw [he]
    exact h.send i c fields
  | writeFile | noMail | sendSetup =>
    exact Account.nothing (h.congr rfl (fun _ _ _ h => h) (fun _ _ h => h) rfl hloops (fun _ => rfl)
      rfl rfl) rfl
  | @closeMail i n c pc free entry =>
    refine Account.nothing (h.congr rfl (fun _ _ _ h => h) ?_ rfl hloops (fun _ => rfl)
      rfl rfl) rfl
    intro n' c' hc
    simp only [Function.update_apply] at hc
    split_ifs at hc
    exact hc
  | filled | fill | receiveSetup =>
    exact Account.nothing (h.congr rfl (fun _ _ _ h => by contradiction) (fun _ _ h => h) rfl hloops
      (fun _ => rfl) rfl rfl) rfl
  | @readSettings n m pc hm =>
    have he : events s .readSettings = [.made (some m)] := by simp only [events, pc, hm]
    rw [he]
    refine h.make (some m) rfl ?_ rfl rfl hloops (fun _ => rfl) rfl rfl
    intro n' c' m' hc
    cases hc
    exact ⟨rfl, rfl⟩
  | @noSettings n pc hm =>
    have he : events s .readSettings = [.made none] := by simp only [events, pc, hm]
    rw [he]
    exact h.make none rfl (fun _ _ _ h => by contradiction) rfl rfl (hstarted n)
      (hand_append_lookUp s.loops n) rfl rfl
  | @install n c m pc free => exact Account.nothing (h.install pc) rfl
  | @startLoop k n pc free => exact Account.nothing (h.startLoop pc) rfl
  | @receiveMail k c m fields rest pc mails =>
    have he : events s (.receiveMail k) = [.received k c fields] := by simp [events, pc, mails]
    rw [he]
    exact h.receiveMail pc mails
  | @returned k c m pc mails closed =>
    exact Account.nothing (h.congr rfl (fun _ _ _ h => h) (fun _ _ h => h) rfl
      (channel_of_mem_set pc nofun) (fun _ => hand_set_of_inHand pc rfl) rfl rfl)
      (by simp [events, pc, mails])
  | @smtpSendMail k c m fields pc =>
    have he : events s (.smtpSendMail k) = [.sent k (mail m fields)] := by simp [events, pc]
    rw [he]
    exact h.smtpSendMail pc

lemma account_collect {files : Text → Option MailSettings} {names : List Text}
    {as : List (Action ι)}
    (h : exec step (fun _ _ => True) (.initial files names) as = some t) :
    Account t (collect step events (.initial files names) as) := by
  have hrun := reach_journaled (f := events) [] h
  rw [List.nil_append] at hrun
  refine hrun.invariant (I := fun p => Account p.1 p.2) (.initial files names) ?_
  rintro p a q hp - hq
  obtain ⟨u, hu, rfl⟩ := Option.map_eq_some_iff.mp hq
  exact hp.step hu

/-- Every mail that a channel takes is received by a loop, once and in the order in which they
were taken, or the channel still holds it; and a loop sends what it has received, once and in this
order, with the settings that the channel was made for, or has it in hand. -/
theorem mails_delivered (files : Text → Option MailSettings) (names : List Text)
    (as : List (Action ι))
    (h : exec step (fun _ _ => True) (.initial files names) as = some t) :
    (∀ c, receivedOf c (collect step events (.initial files names) as) ++ t.buffer c =
        takenOf c (collect step events (.initial files names) as)) ∧
      (∀ k, (sentBy k (collect step events (.initial files names) as) ++ hand t.loops k).map some =
        (receivedBy k (collect step events (.initial files names) as)).map
          (mailOf (collect step events (.initial files names) as))) ∧
      t.sent = sent (collect step events (.initial files names) as) :=
  have hA := account_collect h
  ⟨hA.balance, hA.hands, hA.sent⟩

end

/-- The channel of `test_app` takes a mail before the application is deployed again, without
settings for mails, and delivers it afterwards. -/
def redeployedRun : List (Action (Fin 1)) :=
  [.fill, .fill, .receiveSetup, .readSettings, .install, .startLoop 0, .sendMail 0 testBody,
    .lookUp 0, .send 0, .writeFile 0 "test_app".toList none, .closeMail 0, .sendSetup 0,
    .receiveSetup, .readSettings, .receiveMail 0, .smtpSendMail 0]

theorem mails_delivered_redeployedRun : ∃ t,
    exec step (fun _ _ => True) (.initial (fun _ => some testSettings) ["test_app".toList])
        redeployedRun = some t ∧
      t.sent = [mail testSettings ⟨['a'], ['b'], ['c']⟩] ∧ t.made = 2 ∧
      t.sent = sent (collect step events
        (.initial (fun _ => some testSettings) ["test_app".toList]) redeployedRun) := by
  have hsent : (exec step (fun _ _ => True)
      (.initial (fun _ => some testSettings) ["test_app".toList]) redeployedRun).any
      (fun t => t.sent = [mail testSettings ⟨['a'], ['b'], ['c']⟩] ∧ t.made = 2) = true := by decide
  obtain ⟨t, ht, hmails⟩ := (Option.any_eq_true _ _).mp hsent
  obtain ⟨hmail, hmade⟩ := of_decide_eq_true hmails
  exact ⟨t, ht, hmail, hmade, (mails_delivered _ _ redeployedRun ht).2.2⟩

end Eventing.MailDelivery
