import Mathlib.Algebra.Order.BigOperators.Group.Finset
import Mathlib.Tactic.Common
import Eventing.MailDelivery

/-!
# The loops of the channels for mails

`processMails` (`http_handlers.go`) looks its channel up by the name of the application when it
starts. When the channel of an application is closed or another one entered before the loop of
the first one has started, nobody receives from that one. In which runs every channel has a
loop, and that these deliver all mails.
-/
namespace Eventing.MailLoops
open MailChannels MailDelivery Transition

variable {ι : Type*} {s t : State ι} {c : ℕ}

def source : Loop → Option ℕ
  | .receive mailChan _ => mailChan
  | .sending c _ _ => some c
  | .lookUp _ | .returned => none

def target : Request → Option ℕ
  | .send mailChan _ => mailChan
  | .idle | .malformed | .lookUp _ _ | .answered | .panicked => none

/-- The application whose entry a `storeAppSetup` is about to take away. -/
def closing : Store → Option Text
  | .lock appName => some appName
  | .idle | .sendSetup _ | .done => none

/-- The application that `main` is about to enter a channel for. -/
def entering : Main → Option Text
  | .installing appName _ _ => some appName
  | .filling _ | .selecting | .reading _ => none

def Received (s : State ι) (c : ℕ) : Prop := ∃ l ∈ s.loops, source l = some c

lemma receive_or_sending_of_source {l : Loop} (h : source l = some c) :
    (∃ m, l = .receive (some c) m) ∨ ∃ m fields, l = .sending c m fields := by
  cases l with
  | receive mailChan m =>
    obtain rfl : mailChan = some c := h
    exact .inl ⟨m, rfl⟩
  | sending c' m fields =>
    obtain rfl := Option.some.inj h
    exact .inr ⟨m, fields, rfl⟩
  | lookUp | returned => contradiction

def Entered (s : State ι) (c : ℕ) : Prop := ∃ n, s.appMailChanMapping n = some c

/-- The channel holds no mail, and no request is about to send on it. -/
def Spent (s : State ι) (c : ℕ) : Prop :=
  s.buffer c = [] ∧ (s.closed c = true ∨ ∀ i, target (s.request i) ≠ some c)

/-- A loop receives from the channel or is about to look it up, or it holds nothing and will
take nothing. -/
def Attended (s : State ι) (c : ℕ) : Prop :=
  Received s c ∨ (∃ n, s.appMailChanMapping n = some c ∧ .lookUp n ∈ s.loops) ∨
    ¬ Entered s c ∧ Spent s c

/-- What takes the entry of a channel away, by closing the channel or by entering another one,
finds a loop that receives from it, or nothing to be received. -/
def HandedOver (s : State ι) : Action ι → Prop
  | .closeMail i => ∀ n ∈ closing (s.store i), ∀ c ∈ s.appMailChanMapping n,
      Received s c ∨ s.buffer c = []
  | .install => ∀ n ∈ entering s.main, ∀ c ∈ s.appMailChanMapping n, Received s c ∨ Spent s c
  | .sendMail _ _ | .lookUp _ | .send _ | .writeFile _ _ _ | .sendSetup _ | .fill | .receiveSetup
  | .readSettings | .startLoop _ | .receiveMail _ | .smtpSendMail _ => True

lemma Attended.congr (h : Attended s c) (hentries : t.appMailChanMapping = s.appMailChanMapping)
    (hloops : t.loops = s.loops) (hspent : ¬ Entered s c → Spent s c → Spent t c) :
    Attended t c := by
  simp only [Attended, Received, Entered, hentries, hloops] at h ⊢
  rcases h with h | h | ⟨hnone, hs⟩
  · exact .inl h
  · exact .inr (.inl h)
  · exact .inr (.inr ⟨hnone, hspent hnone hs⟩)

lemma Received.mono (h : Received s c) (hloops : ∀ l ∈ s.loops, l ∈ t.loops) : Received t c := by
  obtain ⟨l, hl, hc⟩ := h
  exact ⟨l, hloops _ hl, hc⟩

lemma Attended.mono (h : Attended s c) (hentries : t.appMailChanMapping = s.appMailChanMapping)
    (hloops : ∀ l ∈ s.loops, l ∈ t.loops) (hspent : Spent s c → Spent t c) : Attended t c := by
  rcases h with h | ⟨n, hn, hl⟩ | ⟨hnone, hs⟩
  · exact .inl (h.mono hloops)
  · exact .inr (.inl ⟨n, hentries ▸ hn, hloops _ hl⟩)
  · refine .inr (.inr ⟨?_, hspent hs⟩)
    rwa [Entered, hentries]

/-- The section of `storeAppSetup` takes the entry of one channel away and closes it. -/
lemma attended_closeMail_iff (hT : Tables s) (ha : ∀ c, Attended s c) {n : Text}
    (entry : s.appMailChanMapping n = some c)
    (hentries : t.appMailChanMapping = Function.update s.appMailChanMapping n none)
    (hclosed : t.closed = Function.update s.closed c true) (hbuffer : t.buffer = s.buffer)
    (hloops : t.loops = s.loops) (hrequests : t.request = s.request) :
    (∀ c, Attended t c) ↔ Received s c ∨ s.buffer c = [] := by
  have hsame {c' : ℕ} : Received t c' ↔ Received s c' := by simp only [Received, hloops]
  have hother {n' : Text} {c' : ℕ} (h : t.appMailChanMapping n' = some c') :
      n' ≠ n ∧ s.appMailChanMapping n' = some c' := by
    rw [hentries, Function.update_apply] at h
    split_ifs at h with hn
    exact ⟨hn, h⟩
  have hgone : ¬ Entered t c := by
    rintro ⟨n', hn'⟩
    obtain ⟨hne, hn'⟩ := hother hn'
    exact hne (hT.entry_unique n' n c hn' entry)
  constructor
  · intro h
    rcases h c with h | ⟨n', hn', -⟩ | ⟨-, hs⟩
    · exact .inl (hsame.mp h)
    · exact absurd ⟨n', hn'⟩ hgone
    · exact .inr (hbuffer ▸ hs.1)
  · intro h c'
    by_cases hc : c' = c
    · subst hc
      rcases h with h | h
      · exact .inl (hsame.mpr h)
      · refine .inr (.inr ⟨hgone, ?_, .inl ?_⟩)
        · rw [hbuffer, h]
        · rw [hclosed, Function.update_self]
    · rcases ha c' with h' | ⟨n', hn', hl⟩ | ⟨hnone, hs⟩
      · exact .inl (hsame.mpr h')
      · have hne : n' ≠ n := by
          rintro rfl
          exact hc (Option.some.inj (hn'.symm.trans entry))
        refine .inr (.inl ⟨n', ?_, hloops ▸ hl⟩)
        rw [hentries, Function.update_of_ne hne, hn']
      · refine .inr (.inr ⟨?_, hbuffer ▸ hs.1, ?_⟩)
        · rintro ⟨n', hn'⟩
          exact hnone ⟨n', (hother hn').2⟩
        · rw [hclosed, Function.update_of_ne hc, hrequests]
          exact hs.2

/-- `setUpMailServer` enters a new channel, whose loop is about to start. -/
lemma attended_install_iff (hT : Tables s) (ha : ∀ c, Attended s c) {n : Text} {m : MailSettings}
    (pc : s.main = .installing n c m)
    (hentries : t.appMailChanMapping = Function.update s.appMailChanMapping n (some c))
    (hclosed : t.closed = s.closed) (hbuffer : t.buffer = s.buffer)
    (hloops : t.loops = s.loops ++ [.lookUp n]) (hrequests : t.request = s.request) :
    (∀ c, Attended t c) ↔
      ∀ c', s.appMailChanMapping n = some c' → Received s c' ∨ Spent s c' := by
  have hspent {c' : ℕ} : Spent t c' ↔ Spent s c' := by simp only [Spent, hbuffer, hclosed, hrequests]
  have hreceived {c' : ℕ} : Received t c' ↔ Received s c' := by simp [Received, hloops, source]
  have hother {n' : Text} {c' : ℕ} (hc : c' ≠ c) :
      t.appMailChanMapping n' = some c' ↔ n' ≠ n ∧ s.appMailChanMapping n' = some c' := by
    rw [hentries, Function.update_apply]
    split_ifs with hn
    · simpa [hn] using Ne.symm hc
    · simp [hn]
  have hnew {n' : Text} : s.appMailChanMapping n' ≠ some c := (hT.installing n c m pc).2.2 n'
  constructor
  · intro h c' hc'
    have hne : c' ≠ c := by
      rintro rfl
      exact hnew hc'
    rcases h c' with h | ⟨n', hn', -⟩ | ⟨-, hs⟩
    · exact .inl (hreceived.mp h)
    · obtain ⟨hn, hn'⟩ := (hother hne).mp hn'
      exact absurd (hT.entry_unique n' n c' hn' hc') hn
    · exact .inr (hspent.mp hs)
  · intro h c'
    by_cases hc : c' = c
    · subst hc
      refine .inr (.inl ⟨n, ?_, by simp [hloops]⟩)
      rw [hentries, Function.update_self]
    · have hout (hn : s.appMailChanMapping n = some c') : ¬ Entered t c' := by
        rintro ⟨n', hn'⟩
        obtain ⟨hne, hn'⟩ := (hother hc).mp hn'
        exact hne (hT.entry_unique n' n c' hn' hn)
      rcases ha c' with h' | ⟨n', hn', hl⟩ | ⟨hnone, hs⟩
      · exact .inl (hreceived.mpr h')
      · by_cases hn : n' = n
        · subst hn
          rcases h c' hn' with h' | hs
          · exact .inl (hreceived.mpr h')
          · exact .inr (.inr ⟨hout hn', hspent.mpr hs⟩)
        · exact .inr (.inl ⟨n', (hother hc).mpr ⟨hn, hn'⟩, by simp [hloops, hl]⟩)
      · refine .inr (.inr ⟨?_, hspent.mpr hs⟩)
        rintro ⟨n', hn'⟩
        exact hnone ⟨n', ((hother hc).mp hn').2⟩

lemma mem_set_of_ne {α : Type*} {l : List α} {k : ℕ} {x y z : α} (hk : l[k]? = some x)
    (hy : y ∈ l) (hne : y ≠ x) : y ∈ l.set k z := by
  obtain ⟨j, hj⟩ := List.mem_iff_getElem?.mp hy
  have hjk : k ≠ j := by
    rintro rfl
    exact hne (Option.some.inj (hj.symm.trans hk))
  exact List.mem_iff_getElem?.mpr ⟨j, by rw [List.getElem?_set_ne hjk, hj]⟩

lemma attended_startLoop (ha : ∀ c, Attended s c) {k : ℕ} {n : Text} {m : MailSettings}
    (pc : s.loops[k]? = some (.lookUp n)) (hentries : t.appMailChanMapping = s.appMailChanMapping)
    (hloops : t.loops = s.loops.set k (.receive (s.appMailChanMapping n) m))
    (hspent : ∀ c, Spent s c → Spent t c) : ∀ c, Attended t c := by
  have hlt : k < s.loops.length := (List.getElem?_eq_some_iff.mp pc).1
  have hkeep {l : Loop} (hl : l ∈ s.loops) (hne : l ≠ .lookUp n) : l ∈ t.loops :=
    hloops ▸ mem_set_of_ne pc hl hne
  intro c
  rcases ha c with ⟨l, hl, hlc⟩ | ⟨n', hn', hl⟩ | ⟨hnone, hs⟩
  · refine .inl ⟨l, hkeep hl ?_, hlc⟩
    rintro rfl
    contradiction
  · by_cases hn : n' = n
    · subst hn
      refine .inl ⟨.receive (s.appMailChanMapping n') m, ?_, hn'⟩
      rw [hloops]
      exact List.mem_set hlt _
    · exact .inr (.inl ⟨n', hentries ▸ hn', hkeep hl (by simpa using hn)⟩)
  · refine .inr (.inr ⟨?_, hspent c hs⟩)
    rwa [Entered, hentries]

lemma attended_continued (ha : ∀ c, Attended s c) {k : ℕ} {l l' : Loop}
    (pc : s.loops[k]? = some l) (hloops : t.loops = s.loops.set k l') (hsource : source l' = source l)
    (hlookUp : ∀ n, l ≠ .lookUp n) (hentries : t.appMailChanMapping = s.appMailChanMapping)
    (hspent : ∀ c, Spent s c → Spent t c) : ∀ c, Attended t c := by
  have hlt : k < s.loops.length := (List.getElem?_eq_some_iff.mp pc).1
  intro c
  rcases ha c with ⟨x, hx, hxc⟩ | ⟨n, hn, hl⟩ | ⟨hnone, hs⟩
  · by_cases hxl : x = l
    · refine .inl ⟨l', ?_, hsource.trans (hxl ▸ hxc)⟩
      rw [hloops]
      exact List.mem_set hlt _
    · exact .inl ⟨x, hloops ▸ mem_set_of_ne pc hx hxl, hxc⟩
  · exact .inr (.inl ⟨n, hentries ▸ hn, hloops ▸ mem_set_of_ne pc hl (hlookUp n).symm⟩)
  · refine .inr (.inr ⟨?_, hspent c hs⟩)
    rwa [Entered, hentries]

lemma attended_returned (hT : Tables s) (ha : ∀ c, Attended s c) {k : ℕ} {m : MailSettings}
    (pc : s.loops[k]? = some (.receive (some c) m)) (mails : s.buffer c = [])
    (closed : s.closed c = true) (hentries : t.appMailChanMapping = s.appMailChanMapping)
    (hloops : t.loops = s.loops.set k .returned) (hspent : ∀ c, Spent s c → Spent t c) :
    ∀ c, Attended t c := by
  have hkeep {l : Loop} (hl : l ∈ s.loops) (hne : l ≠ .receive (some c) m) : l ∈ t.loops :=
    hloops ▸ mem_set_of_ne pc hl hne
  intro c'
  by_cases hc : c' = c
  · subst hc
    refine .inr (.inr ⟨?_, hspent c' ⟨mails, .inl closed⟩⟩)
    rintro ⟨n, hn⟩
    rw [hentries] at hn
    exact absurd ((hT.entry_open n c' hn).symm.trans closed) Bool.noConfusion
  · rcases ha c' with ⟨l, hl, hlc⟩ | ⟨n, hn, hl⟩ | ⟨hnone, hs⟩
    · refine .inl ⟨l, hkeep hl ?_, hlc⟩
      rintro rfl
      exact hc (Option.some.inj hlc).symm
    · exact .inr (.inl ⟨n, hentries ▸ hn, hkeep hl (by simp)⟩)
    · refine .inr (.inr ⟨?_, hspent c' hs⟩)
      rwa [Entered, hentries]

section
variable [DecidableEq ι] {a : Action ι}

lemma Spent.setRequest (h : Spent s c) {i : ι} {r : Request}
    (hr : target r ≠ some c) : Spent (s.setRequest i r) c := by
  refine ⟨h.1, h.2.imp_right fun hnone j => ?_⟩
  simp only [State.setRequest, Function.update_apply]
  split_ifs
  · exact hr
  · exact hnone j

lemma attended_iff (hT : Tables s) (ha : ∀ c, Attended s c) (h : step s a = some t) :
    (∀ c, Attended t c) ↔ HandedOver s a := by
  cases step_stepped h with
  | sendMail | malformed | panic =>
    exact iff_of_true (fun c => (ha c).congr rfl rfl fun _ hs => hs.setRequest nofun) trivial
  | @lookUp i n fields pc free =>
    refine iff_of_true (fun c => (ha c).congr rfl rfl fun hnone hs => hs.setRequest ?_) trivial
    intro hn
    exact hnone ⟨n, hn⟩
  | @send i c fields pc closed room =>
    refine iff_of_true (fun c' => (ha c').congr rfl rfl fun _ hs => ?_) trivial
    have hne : c' ≠ c := by
      rintro rfl
      rcases hs.2 with hcl | hnone
      · exact absurd (closed.symm.trans hcl) Bool.noConfusion
      · exact hnone i (by rw [pc]; rfl)
    obtain ⟨hb, hrest⟩ := hs.setRequest (i := i) (r := .answered) nofun
    exact ⟨(Function.update_of_ne hne _ _).trans hb, hrest⟩
  | @noMail i n pc free entry =>
    refine iff_of_true (fun c => (ha c).congr rfl rfl fun _ hs => hs) ?_
    intro n' hn c hc
    rw [pc] at hn
    obtain rfl := Option.some.inj hn
    exact absurd (entry.symm.trans hc) nofun
  | writeFile | sendSetup | filled | fill | receiveSetup | readSettings =>
    exact iff_of_true (fun c => (ha c).congr rfl rfl fun _ hs => hs) trivial
  | noSettings =>
    refine iff_of_true (fun c => (ha c).mono rfl (fun l hl => ?_) id) trivial
    exact List.mem_append_left _ hl
  | @closeMail i n c pc free entry =>
    constructor
    · intro h n' hn c' hc
      rw [pc] at hn
      obtain rfl := Option.some.inj hn
      obtain rfl := Option.some.inj (entry.symm.trans hc)
      refine (attended_closeMail_iff hT ha entry ?_ ?_ ?_ ?_ ?_).mp h <;> rfl
    · intro h
      have hn : n ∈ closing (s.store i) := by
        rw [pc]
        rfl
      refine (attended_closeMail_iff hT ha entry ?_ ?_ ?_ ?_ ?_).mpr (h n hn c entry) <;> rfl
  | @install n c m pc free =>
    constructor
    · intro h n' hn c' hc
      rw [pc] at hn
      obtain rfl := Option.some.inj hn
      refine (attended_install_iff hT ha pc ?_ ?_ ?_ ?_ ?_).mp h c' hc <;> rfl
    · intro h
      have hn : n ∈ entering s.main := by
        rw [pc]
        rfl
      refine (attended_install_iff hT ha pc ?_ ?_ ?_ ?_ ?_).mpr (h n hn) <;> rfl
  | startLoop pc free => exact iff_of_true (attended_startLoop ha pc rfl rfl fun _ hs => hs) trivial
  | @receiveMail k c m fields rest pc mails =>
    refine iff_of_true (attended_continued ha pc rfl rfl (by simp) rfl fun c' hs => ?_) trivial
    have hne : c' ≠ c := by
      rintro rfl
      exact absurd (hs.1.symm.trans mails) (by simp)
    exact ⟨(Function.update_of_ne hne _ _).trans hs.1, hs.2⟩
  | smtpSendMail pc =>
    exact iff_of_true (attended_continued ha pc rfl rfl (by simp) rfl fun _ hs => hs) trivial
  | returned pc mails closed =>
    exact iff_of_true (attended_returned hT ha pc mails closed rfl rfl fun _ hs => hs) trivial

omit [DecidableEq ι] in
lemma attended_initial (files : Text → Option MailSettings) (names : List Text) (c : ℕ) :
    Attended (.initial files names : State ι) c :=
  .inr (.inr ⟨by rintro ⟨n, hn⟩; contradiction, rfl, .inr nofun⟩)

/-- In a run every channel is attended exactly when each one is handed over. -/
theorem attended_along_iff (files : Text → Option MailSettings) (names : List Text)
    (as : List (Action ι)) :
    Along step (fun _ _ t => ∀ c, Attended t c) (.initial files names) as ↔
      Along step (fun s a _ => HandedOver s a) (.initial files names) as := by
  refine along_iff (I := fun s => Tables s ∧ ∀ c, Attended s c)
    ⟨.initial files names, attended_initial files names⟩ ?_ ?_ as
  · intro s a t hI h
    exact attended_iff hI.1 hI.2 h
  · intro s a t hI h ha
    exact ⟨hI.1.step h, ha⟩

/-! ## Delivering what is held -/

def Delivers (_ : State ι) : Action ι → Prop
  | .startLoop _ | .receiveMail _ | .smtpSendMail _ => True
  | .sendMail _ _ | .lookUp _ | .send _ | .writeFile _ _ _ | .closeMail _ | .sendSetup _ | .fill
  | .receiveSetup | .readSettings | .install => False

instance (s : State ι) : (a : Action ι) → Decidable (Delivers s a)
  | .startLoop _ | .receiveMail _ | .smtpSendMail _ => inferInstanceAs (Decidable True)
  | .sendMail _ _ | .lookUp _ | .send _ | .writeFile _ _ _ | .closeMail _ | .sendSetup _ | .fill
  | .receiveSetup | .readSettings | .install => inferInstanceAs (Decidable False)

end

def loopWork : Loop → ℕ
  | .lookUp _ | .sending _ _ _ => 2
  | .receive _ _ => 1
  | .returned => 0

def work (s : State ι) : ℕ :=
  (s.loops.map loopWork).sum + 2 * ∑ c ∈ Finset.range s.made, (s.buffer c).length

lemma sum_map_set {α : Type*} (f : α → ℕ) {l : List α} {k : ℕ} {x y : α} (hk : l[k]? = some x) :
    ((l.set k y).map f).sum + f x = (l.map f).sum + f y := by
  induction l generalizing k with
  | nil => simp at hk
  | cons z l ih =>
    cases k with
    | zero =>
      obtain rfl := Option.some.inj hk
      simp only [List.set_cons_zero, List.map_cons, List.sum_cons]
      omega
    | succ k =>
      have hrest := ih (k := k) (by simpa using hk)
      simp only [List.set_cons_succ, List.map_cons, List.sum_cons]
      omega

section
variable [DecidableEq ι] {a : Action ι}

lemma work_lt (hmade : ∀ c m, .receive (some c) m ∈ s.loops → c < s.made) (hok : Delivers s a)
    (h : step s a = some t) : work t < work s := by
  cases step_stepped h with
  | sendMail | malformed | lookUp | panic | send | writeFile | closeMail | noMail | sendSetup
  | filled | fill | receiveSetup | readSettings | noSettings | install => exact hok.elim
  | @startLoop k n pc free =>
    have hsum := sum_map_set loopWork (y := .receive (s.appMailChanMapping n)
      ((s.appMailSettings n).getD noSettings)) pc
    simp only [loopWork, work] at hsum ⊢
    omega
  | @receiveMail k c m fields rest pc mails =>
    have hwork := sum_map_set loopWork (y := .sending c m fields) pc
    have hc : c ∈ Finset.range s.made :=
      Finset.mem_range.mpr (hmade c m (List.mem_of_getElem? pc))
    have hlt : ∑ d ∈ Finset.range s.made, (Function.update s.buffer c rest d).length <
        ∑ d ∈ Finset.range s.made, (s.buffer d).length := by
      refine Finset.sum_lt_sum ?_ ⟨c, hc, by simp [mails]⟩
      intro d _
      by_cases hd : d = c
      · simp [hd, mails]
      · simp [hd]
    simp only [loopWork, work] at hwork ⊢
    omega
  | @returned k c m pc mails closed =>
    have hsum := sum_map_set loopWork (y := .returned) pc
    simp only [loopWork, work] at hsum ⊢
    omega
  | @smtpSendMail k c m fields pc =>
    have hsum := sum_map_set loopWork (y := .receive (some c) m) pc
    simp only [loopWork, work] at hsum ⊢
    omega

lemma hand_of_stuck (hstuck : ∀ a, Delivers s a → step s a = none) (k : ℕ) : hand s.loops k = [] := by
  cases hk : s.loops[k]? with
  | none => simp [hand, hk]
  | some l =>
    rw [hand_of_getElem? hk]
    cases l with
    | sending c m fields => exact absurd (hstuck (.smtpSendMail k) trivial) (by simp [step, hk])
    | lookUp | receive | returned => rfl

/-- When no loop has a step left and the lock is free, nothing is held. -/
lemma empty_of_stuck (ha : ∀ c, Attended s c) (free : s.locked = false)
    (hstuck : ∀ a, Delivers s a → step s a = none) (c : ℕ) : s.buffer c = [] := by
  rcases ha c with ⟨l, hl, hlc⟩ | ⟨n, hn, hl⟩ | ⟨-, hs⟩
  · obtain ⟨k, hk⟩ := List.mem_iff_getElem?.mp hl
    rcases receive_or_sending_of_source hlc with ⟨m, rfl⟩ | ⟨m, fields, rfl⟩
    · cases hb : s.buffer c with
      | nil => rfl
      | cons fields rest => exact absurd (hstuck (.receiveMail k) trivial) (by simp [step, hk, hb])
    · exact absurd (hstuck (.smtpSendMail k) trivial) (by simp [step, hk])
  · obtain ⟨k, hk⟩ := List.mem_iff_getElem?.mp hl
    exact absurd (hstuck (.startLoop k) trivial) (by simp [step, hk, free])
  · exact hs.1

/-- What holds while only the loops take steps, with the journal of all steps. -/
structure Delivering (before : List Event) (p : State ι × List Event) : Prop where
  account : Account p.1 p.2
  tables : Tables p.1
  attended : ∀ c, Attended p.1 c
  free : p.1.locked = false
  taken : ∀ c, takenOf c p.2 = takenOf c before

omit [DecidableEq ι] in
lemma takenOf_events (hok : Delivers s a) (journal : List Event) (c : ℕ) :
    takenOf c (journal ++ events s a) = takenOf c journal := by
  cases a with
  | startLoop k => simp [events]
  | receiveMail k =>
    simp only [events]
    split
    · cases (s.buffer _).head? with
      | none => simp
      | some fields => simp [Event.takenOf]
    · simp
  | smtpSendMail k =>
    simp only [events]
    split <;> simp [Event.takenOf]
  | _ => exact hok.elim

lemma Delivering.step {before journal : List Event} (h : Delivering before (s, journal))
    (hok : Delivers s a) (hs : step s a = some t) :
    Delivering before (t, journal ++ events s a) where
  account := h.account.step hs
  tables := h.tables.step hs
  attended := by
    refine (attended_iff h.tables h.attended hs).mpr ?_
    cases a with
    | startLoop | receiveMail | smtpSendMail => trivial
    | _ => exact hok.elim
  free := by
    cases step_stepped hs with
    | startLoop | receiveMail | returned | smtpSendMail => exact h.free
    | _ => exact hok.elim
  taken c := (takenOf_events hok journal c).trans (h.taken c)

lemma Delivering.allSent {before : List Event} {p : State ι × List Event}
    (h : Delivering before p) (hstuck : ∀ a, Delivers p.1 a → MailChannels.step p.1 a = none) :
    (∀ c, receivedOf c p.2 = takenOf c before) ∧
      (∀ k, (sentBy k p.2).map some = (receivedBy k p.2).map (mailOf p.2)) ∧ p.1.sent = sent p.2 := by
  refine ⟨fun c => ?_, fun k => ?_, h.account.sent⟩
  · have hbalance := h.account.balance c
    rwa [empty_of_stuck h.attended h.free hstuck c, List.append_nil, h.taken c] at hbalance
  · have hhands := h.account.hands k
    rwa [hand_of_stuck hstuck k, List.append_nil] at hhands

lemma work_down (h : ∃ journal, Account s journal) (hok : Delivers s a) (hs : step s a = some t) :
    (∃ journal, Account t journal) ∧ work t < work s := by
  obtain ⟨journal, h⟩ := h
  refine ⟨⟨_, h.step hs⟩, work_lt (fun c m hm => ?_) hok hs⟩
  rw [h.made]
  exact (List.getElem?_eq_some_iff.mp (h.loops _ hm (c, m) rfl)).1

/-- When each channel is handed over, the loops can always send all that the channels have
taken, and they do so in whatever order they take their steps. -/
theorem all_delivered (files : Text → Option MailSettings) (names : List Text)
    (as : List (Action ι)) (h : exec step (fun _ _ => True) (.initial files names) as = some s)
    (hover : Along step (fun s a _ => HandedOver s a) (.initial files names) as)
    (free : s.locked = false) :
    (∀ bs t, exec step Delivers s bs = some t → bs.length ≤ work s ∧
      ((∀ a, Delivers t a → step t a = none) →
        let before := collect step events (.initial files names) as
        let journal := before ++ collect step events s bs
        (∀ c, receivedOf c journal = takenOf c before) ∧
          (∀ k, (sentBy k journal).map some = (receivedBy k journal).map (mailOf journal)) ∧
          t.sent = sent journal)) ∧
      ∃ bs t, exec step Delivers s bs = some t ∧ ∀ a, Delivers t a → step t a = none := by
  have hA := account_collect h
  generalize collect step events (.initial files names) as = before at hA ⊢
  obtain ⟨hT, ha⟩ := hover.invariant (I := fun s => Tables s ∧ ∀ c, Attended s c) h
    ⟨.initial files names, attended_initial files names⟩
    fun s a t hI hp hs => ⟨hI.1.step hs, (attended_iff hI.1 hI.2 hs).mpr hp⟩
  constructor
  · intro bs t ht
    have hlen := exec_length_le (I := fun u => ∃ journal, Account u journal) (f := work)
      ⟨before, hA⟩ (fun _ _ _ => work_down) ht
    refine ⟨Nat.le_trans (Nat.le_add_right _ _) hlen, fun hstuck => ?_⟩
    have hD : Delivering before (t, before ++ collect step events s bs) := by
      refine (reach_journaled (f := events) before ht).invariant (I := Delivering before)
        ⟨hA, hT, ha, free, fun _ => rfl⟩ ?_
      rintro p a q hp hok hq
      obtain ⟨u, hu, rfl⟩ := Option.map_eq_some_iff.mp hq
      exact hp.step hok hu
    exact hD.allSent hstuck
  · exact exists_exec_stuck (I := fun u => ∃ journal, Account u journal) (f := work)
      ⟨before, hA⟩ fun _ _ _ => work_down

end

section
variable {n : ℕ}

instance (s : State (Fin n)) (c : ℕ) : Decidable (Spent s c) :=
  inferInstanceAs
    (Decidable (s.buffer c = [] ∧ (s.closed c = true ∨ ∀ i, target (s.request i) ≠ some c)))

instance (s : State ι) (c : ℕ) : Decidable (Received s c) :=
  inferInstanceAs (Decidable (∃ l ∈ s.loops, source l = some c))

instance (s : State (Fin n)) : (a : Action (Fin n)) → Decidable (HandedOver s a)
  | .closeMail i => inferInstanceAs
      (Decidable (∀ n ∈ closing (s.store i), ∀ c ∈ s.appMailChanMapping n, _ ∨ _))
  | .install => inferInstanceAs
      (Decidable (∀ n ∈ entering s.main, ∀ c ∈ s.appMailChanMapping n, _ ∨ _))
  | .sendMail _ _ | .lookUp _ | .send _ | .writeFile _ _ _ | .sendSetup _ | .fill | .receiveSetup
  | .readSettings | .startLoop _ | .receiveMail _ | .smtpSendMail _ => inferInstanceAs (Decidable True)

end

/-- The loop of `test_app` has not started when the application is deployed again, so the mail in
its channel is lost. -/
example : ¬ Along step (fun s a _ => HandedOver s a)
    (.initial (fun _ => some testSettings) ["test_app".toList] : State (Fin 1))
    [.fill, .fill, .receiveSetup, .readSettings, .install, .sendMail 0 testBody, .lookUp 0,
      .send 0, .writeFile 0 "test_app".toList none, .closeMail 0] := by decide

def heldRun : List (Action (Fin 1)) := redeployedRun.dropLast.dropLast

/-- The loop of `test_app` has started when the application is deployed again, with a mail in
its channel. -/
theorem all_delivered_redeployedRun : ∃ s bs t,
    exec step (fun _ _ => True) (.initial (fun _ => some testSettings) ["test_app".toList])
        heldRun = some s ∧ s.buffer 0 ≠ [] ∧
      exec step Delivers s bs = some t ∧ bs.length ≤ work s ∧
      receivedOf 0 (collect step events
        (.initial (fun _ => some testSettings) ["test_app".toList]) heldRun ++
          collect step events s bs) =
        takenOf 0 (collect step events
          (.initial (fun _ => some testSettings) ["test_app".toList]) heldRun) := by
  have hend : (exec step (fun _ _ => True)
      (.initial (fun _ => some testSettings) ["test_app".toList]) heldRun).any
      (fun s => s.buffer 0 ≠ [] ∧ s.locked = false) = true := by decide
  obtain ⟨s, hs, hp⟩ := (Option.any_eq_true _ _).mp hend
  obtain ⟨hheld, hfree⟩ := of_decide_eq_true hp
  have hover : Along step (fun s a _ => HandedOver s a)
      (.initial (fun _ => some testSettings) ["test_app".toList]) heldRun := by decide
  have hall := all_delivered _ _ heldRun hs hover hfree
  obtain ⟨bs, t, ht, hstuck⟩ := hall.2
  exact ⟨s, bs, t, hs, hheld, ht, (hall.1 bs t ht).1, ((hall.1 bs t ht).2 hstuck).1 0⟩

end Eventing.MailLoops
