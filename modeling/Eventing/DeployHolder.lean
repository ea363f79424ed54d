import Mathlib.Tactic.Common
import Eventing.DeployLock

/-!
# The lock, the requests and the channels in every run

The goroutine that holds `tableLock` is the only one at a send; a request that has
not started `setUpEventingApp` has a deployment that has done nothing yet; and the
channels in `appDoneChans` are empty until the worker that holds the lock signals them.
-/
namespace Eventing.DeployLock

variable {ι App : Type*}

/-- The sends that are made under `tableLock`, with the channel. -/
inductive Send (ι : Type*)
  | quit (handle : ι)
  | appSetup
  | nilSetup
  | dcpStreamClose (chans : Option ι)
  | timerEventClose (chans : ι)

def Request.send : Request ι → Option (Send ι)
  | .sendQuit h => some (.quit h)
  | .sendSetup _ => some .appSetup
  | .sendNil => some .nilSetup
  | .pending | .done => none

def Phase.send : Phase ι → Option (Send ι)
  | .sendStream c => some (.dcpStreamClose c)
  | .sendTimer c => some (.timerEventClose c)
  | .undeployed | .connecting | .installed | .loaded | .starting | .looping | .selecting
  | .handling | .quitting | .stopped => none

def State.sendOf (s : State ι App) : Goroutine ι → Option (Send ι)
  | .storeAppSetup i => (s.request i).send
  | .runWorker i => (s.phase i).send

variable {app : ι → App} {s t : State ι App} {a : Action ι} {g : Goroutine ι} {m : Send ι}

lemma sendOf_request {i : ι} {r : Request ι} (h : s.request i = r) :
    s.sendOf (.storeAppSetup i) = r.send := congrArg Request.send h

lemma sendOf_worker {i : ι} {p : Phase ι} (h : s.phase i = p) :
    s.sendOf (.runWorker i) = p.send := congrArg Phase.send h

/-! ## A request whose `setUpEventingApp` has not started -/

def Request.unstarted : Request ι → Bool
  | .sendQuit _ | .sendSetup false => true
  | .pending | .sendSetup true | .sendNil | .done => false

structure Requests (s : State ι App) : Prop where
  undeployed : ∀ i, (s.request i).unstarted = true → s.phase i = .undeployed
  booting : s.main = .booting → ∀ i, s.request i = .pending

lemma requests_initial : Requests (State.initial : State ι App) :=
  ⟨fun _ _ => rfl, fun _ _ => rfl⟩

lemma Requests.keep (h : Requests s) (hreq : t.request = s.request) (hph : t.phase = s.phase)
    (hmain : t.main = .booting → s.main = .booting) : Requests t := by
  constructor
  · rw [hreq, hph]
    exact h.undeployed
  · rw [hreq]
    exact fun hm => h.booting (hmain hm)

/-! ## The lock is held by the goroutine that is at a send -/

def Holder (s : State ι App) : Prop := ∀ g m, s.sendOf g = some m → s.tableLock = some g

lemma holder_initial : Holder (State.initial : State ι App) := by
  intro g m h
  cases g <;> simp [State.initial, State.sendOf, Request.send, Phase.send] at h

lemma Holder.keep (h : Holder s) (hlock : t.tableLock = s.tableLock)
    (hsend : ∀ g, t.sendOf g = s.sendOf g) : Holder t := by
  intro g m hm
  rw [hsend g] at hm
  rw [hlock]
  exact h g m hm

theorem Holder.advance (h : Holder s) (hlock : t.tableLock = s.tableLock)
    (hg : s.sendOf g = some m) (hsend : ∀ k, k ≠ g → t.sendOf k = s.sendOf k) : Holder t := by
  intro k m' hm
  rw [hlock]
  by_cases hk : k = g
  · rw [hk]
    exact h g m hg
  · rw [hsend k hk] at hm
    exact h k m' hm

theorem Holder.lock (h : Holder s) (hfree : s.tableLock = none) (hlock : t.tableLock = some g)
    (hsend : ∀ k, k ≠ g → t.sendOf k = s.sendOf k) : Holder t := by
  intro k m hm
  by_cases hk : k = g
  · rw [hk, hlock]
  · rw [hsend k hk] at hm
    have := h k m hm
    rw [hfree] at this
    cases this

theorem Holder.unlock (h : Holder s) (hlock : s.tableLock = some g) (hg : t.sendOf g = none)
    (hsend : ∀ k, k ≠ g → t.sendOf k = s.sendOf k) : Holder t := by
  intro k m hm
  by_cases hk : k = g
  · rw [hk, hg] at hm
    cases hm
  · rw [hsend k hk] at hm
    have := h k m hm
    rw [hlock] at this
    exact absurd (Option.some.inj this).symm hk

/-! ## The channels in `appDoneChans` have room -/

/-- The channels have been entered in `appDoneChans`. -/
def Phase.entered : Phase ι → Bool
  | .undeployed | .connecting => false
  | .installed | .loaded | .starting | .looping | .selecting | .handling | .quitting
  | .sendStream _ | .sendTimer _ | .stopped => true

/-- The channels that a worker is about to signal. -/
def Phase.chans : Phase ι → Option ι
  | .sendStream c => c
  | .sendTimer c => some c
  | .undeployed | .connecting | .installed | .loaded | .starting | .looping | .selecting
  | .handling | .quitting | .stopped => none

/-- Channels are in the table from `installChans` until they have been signalled, once. -/
structure Chans (app : ι → App) (s : State ι App) : Prop where
  fresh : ∀ c, (s.phase c).entered = false →
    s.dcpStreamClose c = .empty ∧ s.timerEventClose c = .empty
  table : ∀ a c, s.appDoneChans a = some c → app c = a ∧ (s.phase c).entered = true
  stream : ∀ a c, s.appDoneChans a = some c →
    s.dcpStreamClose c = .empty ∨ ∃ i, s.phase i = .sendTimer c
  timer : ∀ a c, s.appDoneChans a = some c → s.timerEventClose c = .empty
  signals : ∀ i c, (s.phase i).chans = some c → s.appDoneChans (app i) = some c

lemma chans_initial : Chans app (State.initial : State ι App) := by
  constructor <;> simp [State.initial, Phase.chans]

lemma Holder.locked_of_chans (h : Holder s) {i c : ι} (hc : (s.phase i).chans = some c) :
    s.tableLock = some (.runWorker i) := by
  cases hp : s.phase i with
  | sendStream c' => exact h _ (.dcpStreamClose c') (sendOf_worker hp)
  | sendTimer c' => exact h _ (.timerEventClose c') (sendOf_worker hp)
  | _ => simp [hp, Phase.chans] at hc

lemma Holder.chans_unique (h : Holder s) {i j c d : ι} (hi : (s.phase i).chans = some c)
    (hj : (s.phase j).chans = some d) : i = j := by
  have he := (h.locked_of_chans hi).symm.trans (h.locked_of_chans hj)
  simpa using he

lemma Holder.not_chans_of_free (h : Holder s) (hf : s.tableLock = none) {i c : ι} :
    (s.phase i).chans ≠ some c := by
  intro hc
  have := h.locked_of_chans hc
  rw [hf] at this
  cases this

/-- The channel that a worker has found in the table is empty. -/
theorem Chans.stream_empty (hc : Chans app s) (hs : Holder s) {i c : ι}
    (hp : s.phase i = .sendStream (some c)) : s.dcpStreamClose c = .empty := by
  have hi : (s.phase i).chans = some c := by rw [hp]; rfl
  obtain he | ⟨j, hj⟩ := hc.stream _ c (hc.signals i c hi)
  · exact he
  · have hji := hs.chans_unique (i := j) (by rw [hj]; rfl) hi
    rw [hji, hp] at hj
    cases hj

theorem Chans.receive (h : Chans app s) (hphase : t.phase = s.phase)
    (hdone : t.appDoneChans = s.appDoneChans)
    (hstream : ∀ c, s.dcpStreamClose c = .empty → t.dcpStreamClose c = .empty)
    (htimer : ∀ c, s.timerEventClose c = .empty → t.timerEventClose c = .empty) :
    Chans app t := by
  constructor
  case fresh =>
    intro c hc
    rw [hphase] at hc
    obtain ⟨hs, ht⟩ := h.fresh c hc
    exact ⟨hstream c hs, htimer c ht⟩
  case table => rw [hphase, hdone]; exact h.table
  case stream =>
    intro b c hc
    rw [hdone] at hc
    rw [hphase]
    exact (h.stream b c hc).imp_left (hstream c)
  case timer =>
    intro b c hc
    rw [hdone] at hc
    exact htimer c (h.timer b c hc)
  case signals => rw [hphase, hdone]; exact h.signals

section
variable [DecidableEq ι]

theorem Requests.move (h : Requests s) {i : ι} {p : Phase ι}
    (hi : (s.request i).unstarted = false) (hreq : t.request = s.request)
    (hph : t.phase = Function.update s.phase i p) (hmain : t.main = s.main) : Requests t := by
  constructor
  · intro j hj
    rw [hreq] at hj
    have hne : j ≠ i := by
      intro he
      rw [he, hi] at hj
      cases hj
    rw [hph, Function.update_of_ne hne]
    exact h.undeployed j hj
  · rw [hreq, hmain]
    exact h.booting

theorem Requests.request (h : Requests s) {i : ι} {r : Request ι}
    (hmain : t.main ≠ .booting) (hph : ∀ j, j ≠ i → t.phase j = s.phase j)
    (hreq : t.request = Function.update s.request i r)
    (hi : r.unstarted = true → t.phase i = .undeployed) : Requests t := by
  constructor
  · intro j hj
    rw [hreq] at hj
    by_cases hne : j = i
    · subst hne
      rw [Function.update_self] at hj
      exact hi hj
    · rw [Function.update_of_ne hne] at hj
      rw [hph j hne]
      exact h.undeployed j hj
  · exact fun hm => absurd hm hmain

lemma read_update {β : Type*} {f : Phase ι → β} {phase : ι → Phase ι} {i : ι} {p : Phase ι}
    (hp : f p = f (phase i)) (j : ι) : f (Function.update phase i p j) = f (phase j) := by
  by_cases hj : j = i
  · subst hj
    rw [Function.update_self, hp]
  · rw [Function.update_of_ne hj]

lemma sendOf_phase {i : ι} {p : Phase ι} (hr : t.request = s.request)
    (hph : t.phase = Function.update s.phase i p) (hp : p.send = (s.phase i).send)
    (g : Goroutine ι) : t.sendOf g = s.sendOf g := by
  cases g with
  | storeAppSetup j => simp only [State.sendOf, hr]
  | runWorker j => simp only [State.sendOf, hph, read_update hp]

lemma sendOf_phase_of_ne {i : ι} {p : Phase ι} (hr : t.request = s.request)
    (hph : t.phase = Function.update s.phase i p) (g : Goroutine ι) (hg : g ≠ .runWorker i) :
    t.sendOf g = s.sendOf g := by
  cases g with
  | storeAppSetup j => simp only [State.sendOf, hr]
  | runWorker j =>
    have hj : j ≠ i := fun h => hg (by rw [h])
    simp only [State.sendOf, hph, Function.update_of_ne hj]

lemma sendOf_request_of_ne {i : ι} {r : Request ι}
    (hph : ∀ j, (t.phase j).send = (s.phase j).send)
    (hr : t.request = Function.update s.request i r) (g : Goroutine ι)
    (hg : g ≠ .storeAppSetup i) : t.sendOf g = s.sendOf g := by
  cases g with
  | runWorker j => simp only [State.sendOf, hph]
  | storeAppSetup j =>
    have hj : j ≠ i := fun h => hg (by rw [h])
    simp only [State.sendOf, hr, Function.update_of_ne hj]

theorem Chans.move (h : Chans app s) {i : ι} {p : Phase ι}
    (hentered : (s.phase i).entered = true → p.entered = true) (hp : p.chans = none)
    (htimed : ∀ c, s.phase i ≠ .sendTimer c)
    (hphase : t.phase = Function.update s.phase i p)
    (hdone : t.appDoneChans = s.appDoneChans) (hstream : t.dcpStreamClose = s.dcpStreamClose)
    (htimer : t.timerEventClose = s.timerEventClose) : Chans app t := by
  have entered : ∀ c, (s.phase c).entered = true → (t.phase c).entered = true := by
    intro c hc
    rw [hphase]
    by_cases he : c = i
    · subst he
      rw [Function.update_self]
      exact hentered hc
    · rwa [Function.update_of_ne he]
  constructor
  case fresh =>
    intro c hc
    rw [hstream, htimer]
    refine h.fresh c ?_
    by_contra hne
    rw [entered c (by simpa using hne)] at hc
    cases hc
  case table =>
    intro b c hc
    rw [hdone] at hc
    obtain ⟨ha, he⟩ := h.table b c hc
    exact ⟨ha, entered c he⟩
  case stream =>
    intro b c hc
    rw [hdone] at hc
    rw [hstream, hphase]
    obtain hs | ⟨j, hj⟩ := h.stream b c hc
    · exact .inl hs
    · have hne : j ≠ i := fun he => htimed c (he ▸ hj)
      exact .inr ⟨j, by rw [Function.update_of_ne hne]; exact hj⟩
  case timer => rw [hdone, htimer]; exact h.timer
  case signals =>
    intro j c hj
    rw [hphase] at hj
    rw [hdone]
    by_cases he : j = i
    · subst he
      rw [Function.update_self, hp] at hj
      cases hj
    · rw [Function.update_of_ne he] at hj
      exact h.signals j c hj

theorem Chans.signalStream (h : Chans app s) (hs : Holder s) {i c : ι}
    (hp : s.phase i = .sendStream (some c)) : Chans app { s.setPhase i (.sendTimer c) with
      dcpStreamClose := Function.update s.dcpStreamClose c .full } := by
  have hi : (s.phase i).chans = some c := by rw [hp]; rfl
  have hc := h.signals i c hi
  have hne : ∀ d, (s.phase d).entered = false → d ≠ c := by
    rintro d hd rfl
    rw [(h.table _ d hc).2] at hd
    cases hd
  have entered : ∀ d, (Function.update s.phase i (.sendTimer c) d).entered =
      (s.phase d).entered := read_update (by rw [hp]; rfl)
  constructor
  case fresh =>
    intro d hd
    have hd' := (entered d).symm.trans hd
    simp only [Function.update_of_ne (hne d hd')]
    exact h.fresh d hd'
  case table =>
    intro b d hd
    obtain ⟨ha, he⟩ := h.table b d hd
    exact ⟨ha, (entered d).trans he⟩
  case stream =>
    intro b d hd
    by_cases hdc : d = c
    · subst hdc
      exact .inr ⟨i, Function.update_self ..⟩
    · obtain hs' | ⟨j, hj⟩ := h.stream b d hd
      · exact .inl (by simpa only [Function.update_of_ne hdc] using hs')
      · -- Another worker at its second send would hold the lock as well.
        have hji := hs.chans_unique (i := j) (by rw [hj]; rfl) hi
        rw [hji, hp] at hj
        cases hj
  case timer => exact h.timer
  case signals =>
    intro j d hj
    by_cases hji : j = i
    · subst hji
      simp only [State.setPhase, Function.update_self, Phase.chans, Option.some.injEq] at hj
      exact hj ▸ hc
    · simp only [State.setPhase, Function.update_of_ne hji] at hj
      exact h.signals j d hj

theorem Chans.lock (h : Chans app s) {i : ι} (hp : s.phase i = .quitting) :
    Chans app { s.setPhase i (.sendStream (s.appDoneChans (app i))) with
      tableLock := some (.runWorker i) } := by
  have entered : ∀ d, (Function.update s.phase i (.sendStream (s.appDoneChans (app i))) d).entered =
      (s.phase d).entered := read_update (by rw [hp]; rfl)
  constructor
  case fresh => exact fun d hd => h.fresh d ((entered d).symm.trans hd)
  case table =>
    intro b d hd
    obtain ⟨ha, he⟩ := h.table b d hd
    exact ⟨ha, (entered d).trans he⟩
  case stream =>
    intro b d hd
    obtain hs | ⟨j, hj⟩ := h.stream b d hd
    · exact .inl hs
    · have hji : j ≠ i := by
        rintro rfl
        rw [hp] at hj
        cases hj
      exact .inr ⟨j, (Function.update_of_ne hji _ _).trans hj⟩
  case timer => exact h.timer
  case signals =>
    intro j d hj
    by_cases hji : j = i
    · subst hji
      simpa only [State.setPhase, Function.update_self, Phase.chans] using hj
    · simp only [State.setPhase, Function.update_of_ne hji] at hj
      exact h.signals j d hj

variable [DecidableEq App]

theorem Chans.install (h : Chans app s) (hs : Holder s) {i : ι} (hp : s.phase i = .connecting)
    (hf : s.tableLock = none) : Chans app { s.setPhase i .installed with
      appDoneChans := Function.update s.appDoneChans (app i) (some i) } := by
  obtain ⟨hstream, htimer⟩ := h.fresh i (by rw [hp]; rfl)
  have hfresh : ∀ c, c ≠ i → Function.update s.phase i .installed c = s.phase c :=
    fun c hc => Function.update_of_ne hc _ _
  have entry : ∀ b c, Function.update s.appDoneChans (app i) (some i) b = some c →
      (b = app i ∧ c = i) ∨ (b ≠ app i ∧ s.appDoneChans b = some c ∧ c ≠ i) := by
    intro b c hc
    by_cases hb : b = app i
    · subst hb
      rw [Function.update_self] at hc
      exact .inl ⟨rfl, (Option.some.inj hc).symm⟩
    · rw [Function.update_of_ne hb] at hc
      refine .inr ⟨hb, hc, ?_⟩
      rintro rfl
      exact hb (h.table b c hc).1.symm
  constructor
  case fresh =>
    intro c hc
    by_cases he : c = i
    · subst he
      exact ⟨hstream, htimer⟩
    · exact h.fresh c (by rwa [← hfresh c he])
  case table =>
    intro b c hc
    obtain ⟨rfl, rfl⟩ | ⟨-, hc, hne⟩ := entry b c hc
    · exact ⟨rfl, by simp [State.setPhase, Phase.entered]⟩
    · obtain ⟨ha, he⟩ := h.table b c hc
      exact ⟨ha, by simpa [State.setPhase, hne] using he⟩
  case stream =>
    intro b c hc
    obtain ⟨rfl, rfl⟩ | ⟨-, hc, -⟩ := entry b c hc
    · exact .inl hstream
    · obtain hs' | ⟨j, hj⟩ := h.stream b c hc
      · exact .inl hs'
      · exact absurd (by rw [hj]; rfl) (hs.not_chans_of_free hf (i := j) (c := c))
  case timer =>
    intro b c hc
    obtain ⟨rfl, rfl⟩ | ⟨-, hc, -⟩ := entry b c hc
    · exact htimer
    · exact h.timer b c hc
  case signals =>
    intro j c hj
    by_cases he : j = i
    · subst he
      simp [State.setPhase, Phase.chans] at hj
    · refine absurd ?_ (hs.not_chans_of_free hf (i := j) (c := c))
      rwa [← hfresh j he]

theorem Chans.signalTimer (h : Chans app s) (hs : Holder s) {i c : ι}
    (hp : s.phase i = .sendTimer c) : Chans app { s.setPhase i .stopped with
      timerEventClose := Function.update s.timerEventClose c .full
      appDoneChans := Function.update s.appDoneChans (app i) none
      tableLock := none } := by
  have hi : (s.phase i).chans = some c := by rw [hp]; rfl
  have hc := h.signals i c hi
  have entry : ∀ b d, Function.update s.appDoneChans (app i) none b = some d →
      s.appDoneChans b = some d ∧ d ≠ c := by
    intro b d hd
    have hb : b ≠ app i := by
      rintro rfl
      rw [Function.update_self] at hd
      cases hd
    rw [Function.update_of_ne hb] at hd
    refine ⟨hd, ?_⟩
    rintro rfl
    exact hb ((h.table b d hd).1.symm.trans (h.table _ d hc).1)
  have entered : ∀ d, (Function.update s.phase i .stopped d).entered = (s.phase d).entered :=
    read_update (by rw [hp]; rfl)
  constructor
  case fresh =>
    intro d hd
    have hd' := (entered d).symm.trans hd
    have hdc : d ≠ c := by
      rintro rfl
      rw [(h.table _ d hc).2] at hd'
      cases hd'
    simp only [Function.update_of_ne hdc]
    exact h.fresh d hd'
  case table =>
    intro b d hd
    obtain ⟨ha, he⟩ := h.table b d (entry b d hd).1
    exact ⟨ha, (entered d).trans he⟩
  case stream =>
    intro b d hd
    obtain ⟨hd, hdc⟩ := entry b d hd
    obtain hs' | ⟨j, hj⟩ := h.stream b d hd
    · exact .inl hs'
    · have hji := hs.chans_unique (i := j) (by rw [hj]; rfl) hi
      rw [hji, hp] at hj
      cases hj
      exact absurd rfl hdc
  case timer =>
    intro b d hd
    obtain ⟨hd, hdc⟩ := entry b d hd
    simpa only [Function.update_of_ne hdc] using h.timer b d hd
  case signals =>
    intro j d hj
    by_cases hji : j = i
    · subst hji
      simp [State.setPhase, Phase.chans] at hj
    · simp only [State.setPhase, Function.update_of_ne hji] at hj
      exact absurd (hs.chans_unique hj hi) hji

/-! ## One step -/

theorem Stepped.requests (h : Stepped app s a t)
    (hs : Requests s) : Requests t := by
  have started : ∀ {i}, s.phase i ≠ .undeployed → (s.request i).unstarted = false := by
    intro i hi
    by_contra hu
    exact hi (hs.undeployed i (by simpa using hu))
  have served : ∀ {i}, s.request i ≠ .pending → s.main ≠ .booting := by
    intro i hi hm
    exact hi (hs.booting hm i)
  cases h with
  | boot hm =>
    refine hs.move ?_ rfl rfl rfl
    rw [hs.booting hm]
    rfl
  | closeStream | closeTimer => exact hs.keep rfl rfl id
  | setUpMailServer => exact hs.keep rfl rfl (by simp)
  | serve => exact hs.keep rfl rfl (by simp)
  | makeSetup => exact hs.keep rfl rfl (by simp)
  | fill => exact hs.keep rfl rfl (by simp)
  | startLoop => exact hs.keep rfl rfl (by simp)
  | @receiveSetup mail => exact hs.keep rfl rfl (by cases mail <;> simp)
  | installChans hp | loadApp hp | startWorker hp | enterLoop hp | enterSelect hp
  | receiveEvent hp | handled hp | tick hp | receiveQuit hp | lockQuit hp | sendStream hp
  | sendClosed hp | sendTimer hp =>
    exact hs.move (started (by rw [hp]; simp)) rfl rfl rfl
  | crash hp =>
    refine hs.move (started ?_) rfl rfl rfl
    rcases hp with hp | hp <;> rw [hp] <;> simp
  | redeploy _ hp _ hm => exact hs.request hm (fun _ _ => rfl) rfl fun _ => hp
  | deploy _ _ _ hm =>
    refine hs.request hm (fun j hj => ?_) rfl (by simp [Request.unstarted])
    simp [State.setPhase, hj]
  | @sendQuit i h hq =>
    have hp := hs.undeployed i (by rw [hq]; rfl)
    exact hs.request (served (by rw [hq]; simp)) (fun _ _ => rfl) rfl fun _ => hp
  | @sendNil i started hq =>
    exact hs.request (served (by rw [hq]; simp)) (fun _ _ => rfl) rfl (by simp [Request.unstarted])
  | @sendSetup i started n hq =>
    refine hs.request (served (by rw [hq]; simp)) (fun j hj => ?_) rfl
      (by simp [Request.unstarted])
    simp [State.setPhase, hj]

theorem Stepped.holder (h : Stepped app s a t) (hr : Requests s) (hs : Holder s) : Holder t := by
  cases h with
  | serve | makeSetup | fill | startLoop | receiveSetup | setUpMailServer | closeStream
  | closeTimer => exact hs.keep rfl fun g => by cases g <;> rfl
  | boot _ hp => exact hs.keep rfl (sendOf_phase rfl rfl (by rw [hp]; rfl))
  | installChans hp | loadApp hp | startWorker hp | enterLoop hp | enterSelect hp
  | receiveEvent hp | handled hp | tick hp | receiveQuit hp =>
    exact hs.keep rfl (sendOf_phase rfl rfl (by rw [hp]; rfl))
  | crash hp =>
    refine hs.keep rfl (sendOf_phase rfl rfl ?_)
    rcases hp with hp | hp <;> rw [hp] <;> rfl
  | redeploy _ _ hf => exact hs.lock hf rfl (sendOf_request_of_ne (fun _ => rfl) rfl)
  | deploy _ hp hf =>
    exact hs.lock hf rfl (sendOf_request_of_ne (read_update (by simp [hp, Phase.send])) rfl)
  | @sendQuit i h hq =>
    exact hs.advance (g := .storeAppSetup i) rfl (sendOf_request hq)
      (sendOf_request_of_ne (fun _ => rfl) rfl)
  | @sendNil i _ hq =>
    exact hs.advance (g := .storeAppSetup i) rfl (sendOf_request hq)
      (sendOf_request_of_ne (fun _ => rfl) rfl)
  | @sendSetup i started n hq =>
    have hl : s.tableLock = some (.storeAppSetup i) :=
      hs _ .appSetup (sendOf_request hq)
    refine hs.unlock hl ?_ (sendOf_request_of_ne (read_update ?_) rfl)
    · simp [State.sendOf, State.setPhase, State.setRequest, Request.send]
    · cases started with
      | true => rfl
      | false => simp [hr.undeployed i (by rw [hq]; rfl), Phase.send]
  | lockQuit _ hf => exact hs.lock hf rfl (sendOf_phase_of_ne rfl rfl)
  | @sendStream i c hp =>
    exact hs.advance (g := .runWorker i) rfl (sendOf_worker hp)
      (sendOf_phase_of_ne rfl rfl)
  | @sendClosed i c hp =>
    exact hs.advance (g := .runWorker i) rfl (sendOf_worker hp)
      (sendOf_phase_of_ne rfl rfl)
  | @sendTimer i c hp =>
    have hl : s.tableLock = some (.runWorker i) :=
      hs _ (.timerEventClose c) (sendOf_worker hp)
    refine hs.unlock hl ?_ (sendOf_phase_of_ne rfl rfl)
    simp [State.sendOf, State.setPhase, Phase.send]

theorem Stepped.chans (h : Stepped app s a t) (hr : Requests s) (hs : Holder s)
    (hc : Chans app s) : Chans app t := by
  cases h with
  | serve | makeSetup | fill | startLoop | receiveSetup | setUpMailServer | redeploy | sendQuit
  | sendNil => exact hc.receive rfl rfl (fun _ => id) fun _ => id
  | boot _ hp => exact hc.move (by simp [hp, Phase.entered]) rfl (by simp [hp]) rfl rfl rfl rfl
  | deploy _ hp => exact hc.move (by simp [hp, Phase.entered]) rfl (by simp [hp]) rfl rfl rfl rfl
  | @sendSetup i started n hq =>
    cases started with
    | true =>
      refine hc.receive ?_ rfl (fun _ => id) fun _ => id
      simp [State.setPhase]
    | false =>
      have hp := hr.undeployed i (by rw [hq]; rfl)
      exact hc.move (by simp [hp, Phase.entered]) rfl (by simp [hp]) rfl rfl rfl rfl
  | installChans hp hf => exact hc.install hs hp hf
  | loadApp hp | startWorker hp | enterLoop hp | enterSelect hp | receiveEvent hp | handled hp
  | tick hp | receiveQuit hp | sendClosed hp =>
    exact hc.move (by simp [Phase.entered]) rfl (by simp [hp]) rfl rfl rfl rfl
  | crash hp =>
    refine hc.move (by simp [Phase.entered]) rfl ?_ rfl rfl rfl rfl
    rcases hp with hp | hp <;> simp [hp]
  | lockQuit hp => exact hc.lock hp
  | sendStream hp => exact hc.signalStream hs hp
  | sendTimer hp => exact hc.signalTimer hs hp
  | @closeStream c hf =>
    refine hc.receive rfl rfl (fun d hd => ?_) fun _ => id
    have hdc : d ≠ c := by
      rintro rfl
      rw [hf] at hd
      cases hd
    simpa only [Function.update_of_ne hdc] using hd
  | @closeTimer c hf =>
    refine hc.receive rfl rfl (fun _ => id) fun d hd => ?_
    by_cases hdc : d = c
    · subst hdc
      exact Function.update_self ..
    · simpa only [Function.update_of_ne hdc] using hd

end

end Eventing.DeployLock
