import Mathlib.Tactic.Common
import Eventing.DeployHolder

/-!
# Sends that hold `tableLock` for ever

A send under the lock completes when its channel has room, or when the receiver gets
to it without the lock. The worker receives `Quit` only in its `select`, which it
enters through a section under the lock, and `main` receives the next name only after
`setUpMailServer`. A worker that finds no entry in `appDoneChans` sends on a nil
channel. The channels of an entry, on the other hand, always have room.
-/
namespace Eventing.DeployLock
open Transition

variable {ι App : Type*}

/-- The goroutine that holds the lock, with the send it is at. -/
def State.held (s : State ι App) : Option (Goroutine ι × Send ι) :=
  s.tableLock.bind fun g => (s.sendOf g).map fun m => (g, m)

/-- A goroutine holds the lock at a send and is there in every continuation. -/
def BlockedForever [DecidableEq ι] [DecidableEq App] (app : ι → App) (s : State ι App) : Prop :=
  s.held ≠ none ∧ Stays (step app) State.held s

/-- `main` cannot receive the next name without the lock, or with no room for the
names it still has to send. -/
def Main.away : Main → Bool
  | .locking | .filling (_ + 1) => true
  | .booting | .serving | .filling 0 | .selecting => false

def State.MainWaits (s : State ι App) : Prop :=
  s.appSetup = some setupCapacity ∧ s.main.away = true

/-- A request takes the lock only if the `Quit` channel of the worker in the table has
room or that worker is in its `select`; that worker does not leave the `select` in
another way before it has received what is in the channel; a request gets to its send
to `main` only when `appSetup` is made and has room or `main` can receive; and a
worker acts upon `Quit` only while there is an entry in `appDoneChans`. -/
def Proceeds (app : ι → App) (s : State ι App) : Action ι → Prop
  | .storeAppSetup i =>
      match s.workerTable (app i) with
      | some h => s.quit h = true → s.phase h = .selecting
      | none => ¬ s.MainWaits
  | .receiveEvent h | .tick h | .crash h =>
      ∀ g, s.held = some (g, .quit h) → s.quit h = false
  | .sendQuit _ => ¬ s.MainWaits
  | .fill =>
      ∀ g files, s.held = some (g, .appSetup) → s.main = .filling (files + 2) →
        s.appSetup ≠ some (setupCapacity - 1)
  | .sendSetup _ => s.appSetup ≠ none
  | .lockQuit i => s.appDoneChans (app i) ≠ none
  | _ => True

/-- Neither the channel nor its receiver can move. -/
def State.Hopeless (s : State ι App) : Send ι → Prop
  | .quit h => s.quit h = true ∧ s.phase h ≠ .selecting
  | .appSetup => s.MainWaits
  | .nilSetup => True
  | .dcpStreamClose c => c = none
  | .timerEventClose _ => False

def Blocked (s : State ι App) : Prop := ∃ g m, s.held = some (g, m) ∧ s.Hopeless m

variable {app : ι → App} {s t : State ι App} {a : Action ι} {g : Goroutine ι} {m : Send ι}

/-! ## What holds in every run -/

/-- `appSetup` is nil until `main` makes it, and never over its capacity. -/
structure Names (s : State ι App) : Prop where
  unmade : s.appSetup = none ↔ s.main = .booting ∨ s.main = .serving
  room : ∀ n, s.appSetup = some n → n ≤ setupCapacity

structure Inv (app : ι → App) (s : State ι App) : Prop where
  requests : Requests s
  holder : Holder s
  chans : Chans app s
  names : Names s

lemma names_initial : Names (State.initial : State ι App) :=
  ⟨by simp [State.initial], by simp [State.initial]⟩

lemma inv_initial : Inv app (State.initial : State ι App) :=
  ⟨requests_initial, holder_initial, chans_initial, names_initial⟩

lemma Names.keep (h : Names s) (hnames : t.appSetup = s.appSetup) (hmain : t.main = s.main) :
    Names t := by
  constructor
  · rw [hnames, hmain]
    exact h.unmade
  · rw [hnames]
    exact h.room

lemma Names.made (h : Names s) {n : ℕ} (hnames : s.appSetup = some n) :
    ¬ (s.main = .booting ∨ s.main = .serving) := by
  intro hm
  rw [h.unmade.mpr hm] at hnames
  cases hnames

theorem Names.hold {n : ℕ} (hnames : t.appSetup = some n) (hroom : n ≤ setupCapacity)
    (hmain : ¬ (t.main = .booting ∨ t.main = .serving)) : Names t := by
  constructor
  · rw [hnames]
    exact ⟨nofun, fun h => absurd h hmain⟩
  · intro k hk
    rw [hnames] at hk
    exact Option.some.inj hk ▸ hroom

lemma held_eq_some : s.held = some (g, m) ↔ s.tableLock = some g ∧ s.sendOf g = some m := by
  simp only [State.held, Option.bind_eq_some_iff, Option.map_eq_some_iff, Prod.mk.injEq]
  constructor
  · rintro ⟨g', hl, m', hm, rfl, rfl⟩
    exact ⟨hl, hm⟩
  · rintro ⟨hl, hm⟩
    exact ⟨g, hl, m, hm, rfl, rfl⟩

lemma held_of_free (h : s.tableLock = none) : s.held = none := by
  simp [State.held, h]

lemma held_congr (hlock : t.tableLock = s.tableLock) (hsend : ∀ g, t.sendOf g = s.sendOf g) :
    t.held = s.held := by
  unfold State.held
  rw [hlock]
  congr
  funext g
  rw [hsend g]

lemma Holder.held (h : Holder s) (hm : s.sendOf g = some m) : s.held = some (g, m) :=
  held_eq_some.mpr ⟨h g m hm, hm⟩

lemma State.Hopeless.mono (hm : s.Hopeless m)
    (hquit : ∀ h, s.quit h = true → s.phase h ≠ .selecting →
      t.quit h = true ∧ t.phase h ≠ .selecting)
    (hwait : s.MainWaits → t.MainWaits) : t.Hopeless m := by
  cases m with
  | quit h => exact hquit h hm.1 hm.2
  | appSetup => exact hwait hm
  | nilSetup => trivial
  | dcpStreamClose c => exact hm
  | timerEventClose c => exact hm

lemma State.Hopeless.main (hm : s.Hopeless m) (hwait : ¬ s.MainWaits)
    (hphase : t.phase = s.phase) (hquit : t.quit = s.quit) : t.Hopeless m := by
  refine hm.mono (fun h hq hs => ?_) (fun hw => absurd hw hwait)
  rw [hquit, hphase]
  exact ⟨hq, hs⟩

lemma not_blocked_of_free (h : t.tableLock = none) : ¬ Blocked t := by
  rintro ⟨g, m, hh, -⟩
  rw [held_of_free h] at hh
  cases hh

lemma not_blocked_of_mono (hb : ¬ Blocked s) (hh : t.held = s.held)
    (hm : ∀ m, t.Hopeless m → s.Hopeless m) : ¬ Blocked t := by
  rintro ⟨g, m, hg, ht⟩
  exact hb ⟨g, m, hh ▸ hg, hm m ht⟩

lemma blocked_iff_of_held (hh : t.held = some (g, m)) : Blocked t ↔ t.Hopeless m := by
  constructor
  · rintro ⟨g', m', hg, hm⟩
    obtain ⟨-, rfl⟩ : g = g' ∧ m = m' := by simpa [hh] using hg
    exact hm
  · exact fun hm => ⟨g, m, hh, hm⟩

theorem not_blocked_fill_iff (hb : ¬ Blocked s) {files n : ℕ}
    (hmain : s.main = .filling (files + 1)) (hn : s.appSetup = some n) :
    ¬ Blocked { s with main := .filling files, appSetup := some (n + 1) } ↔
      ∀ g files, s.held = some (g, .appSetup) → s.main = .filling (files + 2) →
        s.appSetup ≠ some (setupCapacity - 1) := by
  constructor
  · intro h g files' hg hmain' hfull
    refine h ⟨g, .appSetup, hg, ?_⟩
    obtain rfl : files = files' + 1 := by simpa [hmain] using hmain'
    obtain rfl : n = setupCapacity - 1 := by simpa [hn] using hfull
    exact ⟨rfl, rfl⟩
  · rintro h ⟨g, m, hg, hm⟩
    cases m with
    | appSetup =>
      obtain ⟨hfull, haway⟩ := hm
      cases files with
      | zero => cases haway
      | succ files =>
        refine h g files hg hmain (hn.trans ?_)
        have : n + 1 = setupCapacity := by simpa using hfull
        rw [← this]
        rfl
    | quit | nilSetup | dcpStreamClose | timerEventClose => exact hb ⟨g, _, hg, hm⟩

variable [DecidableEq ι]

lemma State.Hopeless.phase {i : ι} {p : Phase ι} (hm : s.Hopeless m) (hp : p ≠ .selecting)
    (hphase : t.phase = Function.update s.phase i p) (hquit : t.quit = s.quit)
    (hnames : t.appSetup = s.appSetup) (hmain : t.main = s.main) : t.Hopeless m := by
  refine hm.mono (fun h hq hs => ?_) (fun hw => ?_)
  · rw [hquit, hphase]
    by_cases hi : h = i
    · subst hi
      exact ⟨hq, by rwa [Function.update_self]⟩
    · exact ⟨hq, by rwa [Function.update_of_ne hi]⟩
  · unfold State.MainWaits
    rwa [hnames, hmain]

lemma not_blocked_phase (hb : ¬ Blocked s) {i : ι} {p : Phase ι} (hi : s.phase i ≠ .selecting)
    (hp : p.send = (s.phase i).send) : ¬ Blocked (s.setPhase i p) := by
  refine not_blocked_of_mono hb (held_congr rfl (sendOf_phase rfl rfl hp)) fun m hm => ?_
  exact hm.phase (i := i) hi (by simp [State.setPhase]) rfl rfl rfl

theorem not_blocked_leave_iff (hb : ¬ Blocked s) {i : ι} {p : Phase ι} (hp : p ≠ .selecting)
    (hsend : p.send = (s.phase i).send) :
    ¬ Blocked (s.setPhase i p) ↔ ∀ g, s.held = some (g, .quit i) → s.quit i = false := by
  have hheld : (s.setPhase i p).held = s.held := held_congr rfl (sendOf_phase rfl rfl hsend)
  constructor
  · intro h g hg
    by_contra hq
    refine h ⟨g, .quit i, hheld.trans hg, Bool.of_not_eq_false hq, ?_⟩
    simpa [State.setPhase] using hp
  · rintro h ⟨g, m, hg, hm⟩
    rw [hheld] at hg
    refine hb ⟨g, m, hg, ?_⟩
    cases m with
    | quit k =>
      by_cases hk : k = i
      · subst hk
        have := hm.1.symm.trans (h g hg)
        cases this
      · exact ⟨hm.1, by simpa [State.setPhase, hk] using hm.2⟩
    | appSetup | nilSetup | dcpStreamClose | timerEventClose => exact hm

variable [DecidableEq App]

theorem Stepped.names (h : Stepped app s a t) (hs : Names s) : Names t := by
  cases h with
  | serve hm =>
    have hn := hs.unmade.mpr (.inl hm)
    exact ⟨by simp [hn], hs.room⟩
  | makeSetup => exact .hold rfl (Nat.zero_le _) (by simp)
  | fill hm hn hr => exact .hold rfl hr (by simp)
  | startLoop hm =>
    have hn : s.appSetup ≠ none := by simp [hs.unmade, hm]
    exact ⟨by simp [hn], hs.room⟩
  | @receiveSetup mail n hm hn =>
    have hr := hs.room _ hn
    exact .hold rfl (by omega) (by cases mail <;> simp)
  | setUpMailServer hm =>
    have hn : s.appSetup ≠ none := by simp [hs.unmade, hm]
    exact ⟨by simp [hn], hs.room⟩
  | sendSetup _ hn hr => exact .hold rfl hr (hs.made hn)
  | boot | redeploy | deploy | sendQuit | sendNil | installChans | loadApp | startWorker
  | enterLoop | enterSelect | receiveEvent | handled | tick | crash | receiveQuit | lockQuit
  | sendStream | sendClosed | sendTimer | closeStream | closeTimer => exact hs.keep rfl rfl

theorem Stepped.inv (h : Stepped app s a t) (hs : Inv app s) : Inv app t :=
  ⟨h.requests hs.requests, h.holder hs.requests hs.holder,
    h.chans hs.requests hs.holder hs.chans, h.names hs.names⟩

/-! ## A hopeless send stays hopeless -/

theorem Stepped.hopeless (h : Stepped app s a t) (hs : Holder s) (hh : s.held = some (g, m))
    (hm : s.Hopeless m) : t.held = s.held ∧ t.Hopeless m := by
  have hl := (held_eq_some.mp hh).1
  -- The send that a step makes is the one of the goroutine that holds the lock.
  have same : ∀ {k m'}, s.sendOf k = some m' → m = m' := by
    intro k m' hk
    have he := hh.symm.trans (hs.held hk)
    simp only [Option.some.injEq, Prod.mk.injEq] at he
    exact he.2
  cases h with
  | setUpMailServer _ hf => rw [hf] at hl; cases hl
  | redeploy _ _ hf => rw [hf] at hl; cases hl
  | deploy _ _ hf => rw [hf] at hl; cases hl
  | installChans _ hf | loadApp _ hf | enterLoop _ hf | enterSelect _ hf | lockQuit _ hf =>
    rw [hf] at hl; cases hl
  | boot _ hp =>
    exact ⟨held_congr rfl (sendOf_phase rfl rfl (by rw [hp]; rfl)),
      hm.phase (by simp) rfl rfl rfl rfl⟩
  | startWorker hp | receiveEvent hp | handled hp | tick hp =>
    exact ⟨held_congr rfl (sendOf_phase rfl rfl (by rw [hp]; rfl)),
      hm.phase (by simp) rfl rfl rfl rfl⟩
  | crash hp =>
    refine ⟨held_congr rfl (sendOf_phase rfl rfl ?_), hm.phase (by simp) rfl rfl rfl rfl⟩
    rcases hp with hp | hp <;> rw [hp] <;> rfl
  | @receiveQuit i hp =>
    refine ⟨held_congr rfl (sendOf_phase rfl rfl (by rw [hp]; rfl)), ?_⟩
    refine hm.mono (fun h hq hsel => ?_) id
    have hi : h ≠ i := fun he => hsel (he ▸ hp)
    simp only [State.setPhase, Function.update_of_ne hi]
    exact ⟨hq, hsel⟩
  | serve hp => exact ⟨rfl, hm.main (by simp [State.MainWaits, hp, Main.away]) rfl rfl⟩
  | makeSetup hp =>
    exact ⟨rfl, hm.main (by simp [State.MainWaits, hp, Main.away]) rfl rfl⟩
  | fill hp hn hr =>
    exact ⟨rfl, hm.main (by simp [State.MainWaits, hn, Nat.ne_of_lt hr]) rfl rfl⟩
  | startLoop hp =>
    exact ⟨rfl, hm.main (by simp [State.MainWaits, hp, Main.away]) rfl rfl⟩
  | receiveSetup hp =>
    exact ⟨rfl, hm.main (by simp [State.MainWaits, hp, Main.away]) rfl rfl⟩
  | @sendQuit i h hq hr =>
    obtain rfl := same (k := .storeAppSetup i) (sendOf_request hq)
    rw [hm.1] at hr
    cases hr
  | @sendNil i _ hq hn =>
    obtain rfl := same (k := .storeAppSetup i) (sendOf_request hq)
    have := hm.1
    rw [hn] at this
    cases this
  | @sendSetup i _ n hq hn hr =>
    obtain rfl := same (k := .storeAppSetup i) (sendOf_request hq)
    have := hm.1
    rw [hn, Option.some.injEq] at this
    omega
  | @sendStream i c hp =>
    obtain rfl := same (k := .runWorker i) (sendOf_worker hp)
    cases hm
  | @sendClosed i c hp =>
    obtain rfl := same (k := .runWorker i) (sendOf_worker hp)
    cases hm
  | @sendTimer i c hp =>
    obtain rfl := same (k := .runWorker i) (sendOf_worker hp)
    cases hm
  | closeStream | closeTimer => exact ⟨rfl, hm.mono (fun _ hq hp => ⟨hq, hp⟩) id⟩

theorem Blocked.forever (hi : Inv app s) (h : Blocked s) : BlockedForever app s := by
  obtain ⟨g, m, hh, hm⟩ := h
  refine ⟨by simp [hh], ?_⟩
  refine stays_of_step (I := fun u => Inv app u ∧ u.held = some (g, m) ∧ u.Hopeless m)
    ⟨hi, hh, hm⟩ ?_
  intro u a v hu hs
  have hst := step_stepped hs
  obtain ⟨he, hm⟩ := hst.hopeless hu.1.holder hu.2.1 hu.2.2
  exact ⟨⟨hst.inv hu.1, he.trans hu.2.1, hm⟩, he⟩

/-! ## A send that is not hopeless completes -/

/-- The goroutine that holds the lock can still get on. -/
def GetsOn (app : ι → App) (s : State ι App) : Prop :=
  ∃ t, Reachable (step app) s t ∧ t.held ≠ s.held

lemma Stepped.getsOn (h : Stepped app s a t) (ht : t.held ≠ s.held) : GetsOn app s :=
  ⟨t, .one trivial h.step, ht⟩

lemma GetsOn.after (ht : GetsOn app t) (h : Stepped app s a t) (he : t.held = s.held) :
    GetsOn app s := by
  obtain ⟨u, hu, hne⟩ := ht
  exact ⟨u, (Reach.one trivial h.step).trans hu, he ▸ hne⟩

lemma getsOn_quit_of_room (hs : Holder s) {i h : ι} (hr : s.request i = .sendQuit h)
    (hq : s.quit h = false) : GetsOn app s := by
  have hh := hs.held (g := .storeAppSetup i) (m := .quit h) (sendOf_request hr)
  refine (Stepped.sendQuit hr hq).getsOn ?_
  rw [hh]
  simp [State.held, State.sendOf, State.setRequest, Request.send, (held_eq_some.mp hh).1]

theorem getsOn_quit (hs : Inv app s) {i h : ι} (hr : s.request i = .sendQuit h)
    (hm : ¬ s.Hopeless (.quit h)) : GetsOn app s := by
  cases hq : s.quit h with
  | false => exact getsOn_quit_of_room hs.holder hr hq
  | true =>
    -- The worker is in its `select` and makes room.
    have hp : s.phase h = .selecting := by
      by_contra hp
      exact hm ⟨hq, hp⟩
    have hrec : Stepped app s (.receiveQuit h) _ := .receiveQuit hp hq
    refine GetsOn.after ?_ hrec (held_congr rfl (sendOf_phase rfl rfl (by rw [hp]; rfl)))
    exact getsOn_quit_of_room (hrec.inv hs).holder hr (Function.update_self ..)

lemma getsOn_setup_of_room (hs : Holder s) {i : ι} {started : Bool} {n : ℕ}
    (hr : s.request i = .sendSetup started) (hn : s.appSetup = some n) (hroom : n < setupCapacity) :
    GetsOn app s := by
  have hh := hs.held (g := .storeAppSetup i) (m := .appSetup) (sendOf_request hr)
  refine (Stepped.sendSetup hr hn hroom).getsOn ?_
  rw [hh]
  simp [State.held]

lemma getsOn_setup_of_select (hs : Inv app s) {i : ι} {started : Bool}
    (hr : s.request i = .sendSetup started) (hmain : s.main = .selecting) : GetsOn app s := by
  cases hn : s.appSetup with
  | none => simp [hs.names.unmade, hmain] at hn
  | some n =>
    by_cases hroom : n < setupCapacity
    · exact getsOn_setup_of_room hs.holder hr hn hroom
    · obtain _ | n := n
      · exact absurd (by decide) hroom
      · have hrec : Stepped app s (.receiveSetup false) _ := .receiveSetup hmain hn
        have hle := hs.names.room _ hn
        exact GetsOn.after (getsOn_setup_of_room (hrec.inv hs).holder hr rfl hle) hrec rfl

lemma getsOn_setup_of_away (hs : Inv app s) {i : ι} {started : Bool}
    (hr : s.request i = .sendSetup started) (haway : s.main.away = true) (hm : ¬ s.MainWaits) :
    GetsOn app s := by
  cases hn : s.appSetup with
  | none => obtain h | h := hs.names.unmade.mp hn <;> simp [h, Main.away] at haway
  | some n =>
    have hne : n ≠ setupCapacity := by
      rintro rfl
      exact hm ⟨hn, haway⟩
    have hle := hs.names.room n hn
    exact getsOn_setup_of_room hs.holder hr hn (by omega)

theorem getsOn_setup (hs : Inv app s) {i : ι} {started : Bool}
    (hr : s.request i = .sendSetup started) (hm : ¬ s.MainWaits) : GetsOn app s := by
  cases hmain : s.main with
  | booting =>
    rw [hs.requests.booting hmain i] at hr
    cases hr
  | serving =>
    have hmake : Stepped app s (.makeSetup 0) _ := .makeSetup hmain
    exact GetsOn.after (getsOn_setup_of_room (hmake.inv hs).holder hr rfl (by decide)) hmake rfl
  | filling files =>
    cases files with
    | zero =>
      have hstart : Stepped app s .startLoop _ := .startLoop hmain
      exact GetsOn.after (getsOn_setup_of_select (hstart.inv hs) hr rfl) hstart rfl
    | succ files => exact getsOn_setup_of_away hs hr (by rw [hmain]; rfl) hm
  | selecting => exact getsOn_setup_of_select hs hr hmain
  | locking => exact getsOn_setup_of_away hs hr (by rw [hmain]; rfl) hm

theorem getsOn_stream (hs : Inv app s) {i c : ι} (hp : s.phase i = .sendStream (some c)) :
    GetsOn app s := by
  have hh := hs.holder.held (g := .runWorker i) (m := .dcpStreamClose (some c))
    (sendOf_worker hp)
  refine (Stepped.sendStream hp (hs.chans.stream_empty hs.holder hp)).getsOn ?_
  rw [hh]
  simp [State.held, State.sendOf, State.setPhase, Phase.send, (held_eq_some.mp hh).1]

theorem getsOn_timer (hs : Inv app s) {i c : ι} (hp : s.phase i = .sendTimer c) :
    GetsOn app s := by
  have hh := hs.holder.held (g := .runWorker i) (m := .timerEventClose c)
    (sendOf_worker hp)
  have he := hs.chans.timer _ c (hs.chans.signals i c (by rw [hp]; rfl))
  refine (Stepped.sendTimer hp he).getsOn ?_
  rw [hh]
  simp [State.held]

theorem getsOn_of_not_hopeless (hs : Inv app s) (hh : s.held = some (g, m))
    (hm : ¬ s.Hopeless m) : GetsOn app s := by
  have hg := (held_eq_some.mp hh).2
  cases g with
  | storeAppSetup i =>
    cases hr : s.request i with
    | pending | done => simp [State.sendOf, hr, Request.send] at hg
    | sendQuit h =>
      obtain rfl : Send.quit h = m := by simpa [State.sendOf, hr, Request.send] using hg
      exact getsOn_quit hs hr hm
    | sendSetup started =>
      obtain rfl : Send.appSetup = m := by simpa [State.sendOf, hr, Request.send] using hg
      exact getsOn_setup hs hr hm
    | sendNil =>
      obtain rfl : Send.nilSetup = m := by simpa [State.sendOf, hr, Request.send] using hg
      exact absurd trivial hm
  | runWorker i =>
    cases hp : s.phase i with
    | sendStream c =>
      obtain rfl : Send.dcpStreamClose c = m := by simpa [State.sendOf, hp, Phase.send] using hg
      obtain ⟨c, rfl⟩ := Option.ne_none_iff_exists'.mp hm
      exact getsOn_stream hs hp
    | sendTimer c => exact getsOn_timer hs hp
    | undeployed | connecting | installed | loaded | starting | looping | selecting | handling
    | quitting | stopped => simp [State.sendOf, hp, Phase.send] at hg

/-- A goroutine is blocked for ever exactly if its send is hopeless. -/
theorem blockedForever_iff (hs : Inv app s) : BlockedForever app s ↔ Blocked s := by
  refine ⟨?_, Blocked.forever hs⟩
  intro h
  obtain ⟨hne, hstay⟩ := h
  obtain ⟨⟨g, m⟩, hh⟩ := Option.ne_none_iff_exists'.mp hne
  by_contra hb
  obtain ⟨t, ht, hmove⟩ := getsOn_of_not_hopeless hs hh fun hm => hb ⟨g, m, hh, hm⟩
  exact hmove (hstay t ht)

/-! ## Which steps block -/

theorem Stepped.not_blocked_iff (h : Stepped app s a t) (hs : Inv app s) (hb : ¬ Blocked s) :
    ¬ Blocked t ↔ Proceeds app s a := by
  cases h with
  | boot _ hp =>
    exact iff_of_true (not_blocked_phase hb (by simp [hp]) (by rw [hp]; rfl)) trivial
  | startWorker hp | handled hp =>
    exact iff_of_true (not_blocked_phase hb (by simp [hp]) (by rw [hp]; rfl)) trivial
  | receiveEvent hp | tick hp => exact not_blocked_leave_iff hb (by simp) (by rw [hp]; rfl)
  | crash hp =>
    refine not_blocked_leave_iff hb (by simp) ?_
    rcases hp with hp | hp <;> rw [hp] <;> rfl
  | fill hm hn => exact not_blocked_fill_iff hb hm hn
  | installChans _ hf | loadApp _ hf | enterLoop _ hf | enterSelect _ hf | setUpMailServer _ hf =>
    exact iff_of_true (not_blocked_of_free hf) trivial
  | sendTimer => exact iff_of_true (not_blocked_of_free rfl) trivial
  | sendSetup _ hn => exact iff_of_true (not_blocked_of_free rfl) (by simp [Proceeds, hn])
  | closeStream | closeTimer => exact iff_of_true (not_blocked_of_mono hb rfl fun _ => id) trivial
  | serve | startLoop =>
    refine iff_of_true (not_blocked_of_mono hb rfl fun m hm => ?_) trivial
    exact hm.main (by simp [State.MainWaits, Main.away]) rfl rfl
  | makeSetup =>
    refine iff_of_true (not_blocked_of_mono hb rfl fun m hm => ?_) trivial
    exact hm.main (by simp [State.MainWaits, setupCapacity]) rfl rfl
  | receiveSetup _ hn =>
    have hle := hs.names.room _ hn
    refine iff_of_true (not_blocked_of_mono hb rfl fun m hm => ?_) trivial
    exact hm.main (by simp [State.MainWaits, Nat.ne_of_lt hle]) rfl rfl
  | @redeploy i h _ _ _ _ hw =>
    rw [blocked_iff_of_held (g := .storeAppSetup i) (m := .quit h)
      (by simp [State.held, State.sendOf, State.setRequest, Request.send])]
    simp [State.Hopeless, Proceeds, hw, State.setRequest]
  | @deploy i _ _ _ _ hw =>
    rw [blocked_iff_of_held (g := .storeAppSetup i) (m := .appSetup)
      (by simp [State.held, State.sendOf, State.setRequest, Request.send])]
    simp only [Proceeds, hw]
    rfl
  | @sendQuit i h hr =>
    have hl := hs.holder (.storeAppSetup i) (.quit h) (sendOf_request hr)
    rw [blocked_iff_of_held (g := .storeAppSetup i) (m := .appSetup)
      (by simp [State.held, State.sendOf, State.setRequest, Request.send, hl])]
    rfl
  | @sendNil i _ hr hn =>
    have hl := hs.holder (.storeAppSetup i) .appSetup (sendOf_request hr)
    rw [blocked_iff_of_held (g := .storeAppSetup i) (m := .nilSetup)
      (by simp [State.held, State.sendOf, State.setRequest, Request.send, hl])]
    simp [State.Hopeless, Proceeds, hn]
  | @receiveQuit i hp =>
    refine iff_of_true (not_blocked_of_mono hb
      (held_congr rfl (sendOf_phase rfl rfl (by rw [hp]; rfl))) fun m hm => ?_) trivial
    refine hm.mono (fun h hq hsel => ?_) id
    have hi : h ≠ i := by
      rintro rfl
      simp at hq
    simpa [State.setPhase, Function.update_of_ne hi] using And.intro hq hsel
  | @lockQuit i hp =>
    rw [blocked_iff_of_held (g := .runWorker i) (m := .dcpStreamClose (s.appDoneChans (app i)))
      (by simp [State.held, State.sendOf, State.setPhase, Phase.send])]
    rfl
  | @sendStream i c hp =>
    have hl := hs.holder (.runWorker i) (.dcpStreamClose (some c))
      (sendOf_worker hp)
    rw [blocked_iff_of_held (g := .runWorker i) (m := .timerEventClose c)
      (by simp [State.held, State.sendOf, State.setPhase, Phase.send, hl])]
    exact iff_of_true id trivial
  | sendClosed hp hc =>
    rw [hs.chans.stream_empty hs.holder hp] at hc
    cases hc

/-- No step of a run leaves a goroutine blocked for ever with the lock exactly if every
step meets the condition in the state before it. -/
theorem unblocked_along_iff (app : ι → App) (as : List (Action ι)) :
    Along (step app) (fun _ _ t => ¬ BlockedForever app t) State.initial as ↔
      Along (step app) (fun s a _ => Proceeds app s a) State.initial as := by
  refine along_iff (I := fun s => Inv app s ∧ ¬ Blocked s)
    ⟨inv_initial, not_blocked_of_free rfl⟩ ?_ ?_ as
  · intro s a t hs ht
    have hst := step_stepped ht
    rw [blockedForever_iff (hst.inv hs.1)]
    exact hst.not_blocked_iff hs.1 hs.2
  · intro s a t hs ht hb
    have hst := step_stepped ht
    rw [blockedForever_iff (hst.inv hs.1)] at hb
    exact ⟨hst.inv hs.1, hb⟩

lemma inv_of_reachable (h : Reachable (step app) State.initial s) : Inv app s :=
  h.invariant inv_initial fun _ _ _ hs _ ht => (step_stepped ht).inv hs

/-- `main` sets up one application and gets to its `select`, and the worker to its own. -/
def bootRun : List (Action (Fin 3)) :=
  [.boot 0, .installChans 0, .loadApp 0, .startWorker 0, .enterLoop 0, .enterSelect 0,
    .serve, .makeSetup 1, .fill, .startLoop]

/-- Two requests while the worker is busy. -/
def busyWorkerRun : List (Action (Fin 3)) :=
  bootRun ++ [.receiveEvent 0, .storeAppSetup 1, .sendQuit 1, .sendSetup 1, .storeAppSetup 2]

/-- The first worker takes the channels of the second one down, which then finds none. -/
def lateQuitRun : List (Action (Fin 3)) :=
  bootRun ++ [.storeAppSetup 1, .sendQuit 1, .sendSetup 1, .installChans 1, .receiveQuit 0,
    .lockQuit 0, .sendStream 0, .sendTimer 0, .loadApp 1, .startWorker 1, .enterLoop 1,
    .enterSelect 1, .storeAppSetup 2, .sendQuit 2, .sendSetup 2, .receiveQuit 1, .lockQuit 1]

theorem blockedForever_busyWorker_lateQuit :
    (∃ s : State (Fin 3) Unit,
      exec (step fun _ => ()) (fun _ _ => True) .initial busyWorkerRun = some s ∧
        BlockedForever (fun _ => ()) s) ∧
    ∃ s : State (Fin 3) Unit,
      exec (step fun _ => ()) (fun _ _ => True) .initial lateQuitRun = some s ∧
        BlockedForever (fun _ => ()) s := by
  constructor
  · obtain ⟨s, he, hr, hp⟩ := exec_of_any (step fun _ => ()) (fun _ _ => True)
      (.initial : State (Fin 3) Unit) busyWorkerRun
      (fun s => s.tableLock = some (.storeAppSetup 2) ∧ s.request 2 = .sendQuit 0 ∧
        s.quit 0 = true ∧ s.phase 0 = .handling) (by decide)
    obtain ⟨hl, hq, hfull, hbusy⟩ := of_decide_eq_true hp
    refine ⟨s, he, Blocked.forever (inv_of_reachable hr) ⟨.storeAppSetup 2, .quit 0, ?_, hfull, ?_⟩⟩
    · exact held_eq_some.mpr ⟨hl, sendOf_request hq⟩
    · simp [hbusy]
  · obtain ⟨s, he, hr, hp⟩ := exec_of_any (step fun _ => ()) (fun _ _ => True)
      (.initial : State (Fin 3) Unit) lateQuitRun
      (fun s => s.tableLock = some (.runWorker 1) ∧ s.phase 1 = .sendStream none) (by decide)
    obtain ⟨hl, hs⟩ := of_decide_eq_true hp
    refine ⟨s, he, Blocked.forever (inv_of_reachable hr)
      ⟨.runWorker 1, .dcpStreamClose none, ?_, rfl⟩⟩
    exact held_eq_some.mpr ⟨hl, sendOf_worker hs⟩

end Eventing.DeployLock
