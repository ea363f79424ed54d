import Mathlib.Tactic.Common
import Eventing.DeployHolder

/-!
# Sections under `tableLock` as single steps

Every run with the sends under the lock as steps of their own is a run of
`Deploy.step`, which takes each section as one step: this is what justifies the sections of
`Deploy`, and what holds of its runs holds of the runs here. A request counts from its send of
`Quit`, or from the lock if there is nobody to tell, and a worker's `Quit` section from
the lock, since both of its sends have room. Workers that fail on the closed `rch` do so
in both after their stream has been closed.
-/
namespace Eventing.DeployLock
open Transition

variable {ι App : Type*}

def Phase.sectioned (r : Request ι) : Phase ι → Deploy.Phase
  | .undeployed =>
      match r with
      | .pending | .sendQuit _ => .undeployed
      | .sendSetup _ | .sendNil | .done => .connecting
  | .connecting => .connecting
  | .installed => .installed
  | .loaded => .referring []
  | .starting | .looping | .selecting | .handling => .running
  | .quitting => .quitting
  | .sendStream none => .stuck
  | .sendStream (some _) | .sendTimer _ | .stopped => .stopped

/-- What a worker is about to signal has been signalled in the other model. -/
structure Signalled (app : ι → App) (s : State ι App) (d : Deploy.State ι App) : Prop where
  locked : d.locked = true → ∃ i, s.phase i = .sendStream none
  entry : ∀ a, (∀ i, app i = a → (s.phase i).chans = none) → d.appDoneChans a = s.appDoneChans a
  taken : ∀ i c, (s.phase i).chans = some c → d.appDoneChans (app i) = none
  stream : ∀ c, (∀ i, s.phase i ≠ .sendStream (some c)) → d.dcpStreamClose c = s.dcpStreamClose c
  streamed : ∀ i c, s.phase i = .sendStream (some c) → d.dcpStreamClose c = .full
  timer : ∀ c, (∀ i, (s.phase i).chans ≠ some c) → d.timerEventClose c = s.timerEventClose c
  timed : ∀ i c, (s.phase i).chans = some c → d.timerEventClose c = .full

structure Refines (app : ι → App) (s : State ι App) (d : Deploy.State ι App) : Prop where
  phase : ∀ i, d.phase i = (s.phase i).sectioned (s.request i)
  workerTable : d.workerTable = s.workerTable
  quit : d.quit = s.quit
  signalled : Signalled app s d

def Asks (app : ι → App) (s : State ι App) : Prop :=
  ∀ i h, s.request i = .sendQuit h → s.workerTable (app i) = some h

def CrashAfterClose (s : State ι App) : Action ι → Prop
  | .crash i => s.dcpStreamClose i = .closed
  | _ => True

variable {app : ι → App} {s t : State ι App} {a : Action ι} {d d' : Deploy.State ι App}

lemma chans_of_send {p : Phase ι} (h : p.send = none) : p.chans = none := by
  cases p <;> simp_all [Phase.send, Phase.chans]

lemma sectioned_sendSetup (p : Phase ι) (started : Bool) :
    p.sectioned (.sendSetup started) = p.sectioned .done := by
  cases p <;> rfl

lemma sectioned_sendNil (p : Phase ι) : p.sectioned .sendNil = p.sectioned .done := by
  cases p <;> rfl

lemma refines_initial : Refines app (State.initial : State ι App) .initial := by
  refine ⟨fun _ => rfl, rfl, rfl, ?_⟩
  constructor <;> simp [State.initial, Deploy.State.initial, Phase.chans]

theorem Signalled.congr (h : Signalled app s d)
    (hphase : ∀ i, t.phase i = s.phase i ∨ (t.phase i).send = none ∧ (s.phase i).send = none)
    (hdone : t.appDoneChans = s.appDoneChans) (hstream : t.dcpStreamClose = s.dcpStreamClose)
    (htimer : t.timerEventClose = s.timerEventClose) (hlocked : d'.locked = d.locked)
    (hdone' : d'.appDoneChans = d.appDoneChans) (hstream' : d'.dcpStreamClose = d.dcpStreamClose)
    (htimer' : d'.timerEventClose = d.timerEventClose) : Signalled app t d' := by
  have hchans : ∀ i, (t.phase i).chans = (s.phase i).chans := by
    intro i
    obtain he | ⟨ht, hs⟩ := hphase i
    · rw [he]
    · rw [chans_of_send ht, chans_of_send hs]
  have hsend : ∀ i c, t.phase i = .sendStream c ↔ s.phase i = .sendStream c := by
    intro i c
    obtain he | ⟨ht, hs⟩ := hphase i
    · rw [he]
    · constructor
      · intro h
        rw [h] at ht
        cases ht
      · intro h
        rw [h] at hs
        cases hs
  constructor
  · rw [hlocked]
    intro hl
    obtain ⟨i, hi⟩ := h.locked hl
    exact ⟨i, (hsend i none).mpr hi⟩
  · simp only [hchans, hdone, hdone']
    exact h.entry
  · simp only [hchans, hdone']
    exact h.taken
  · simp only [ne_eq, hsend, hstream, hstream']
    exact h.stream
  · simp only [hsend, hstream']
    exact h.streamed
  · simp only [hchans, htimer, htimer']
    exact h.timer
  · simp only [hchans, htimer']
    exact h.timed

lemma Signalled.of_quiet (hnone : ∀ j, (t.phase j).chans = none)
    (hlocked : d.locked = true → ∃ i, t.phase i = .sendStream none)
    (hdone : d.appDoneChans = t.appDoneChans) (hstream : d.dcpStreamClose = t.dcpStreamClose)
    (htimer : d.timerEventClose = t.timerEventClose) : Signalled app t d where
  locked := hlocked
  entry a _ := by rw [hdone]
  taken j c hj := by
    rw [hnone j] at hj
    cases hj
  stream c _ := by rw [hstream]
  streamed j c hj := by
    have := hnone j
    rw [hj] at this
    cases this
  timer c _ := by rw [htimer]
  timed j c hj := by
    rw [hnone j] at hj
    cases hj

lemma Signalled.unlocked (h : Signalled app s d) (hs : Holder s)
    (hl : ∀ i, s.tableLock ≠ some (.runWorker i)) : d.locked = false := by
  by_contra hd
  obtain ⟨i, hi⟩ := h.locked (by simpa using hd)
  exact hl i (hs _ _ (sendOf_worker hi))

lemma Signalled.quiet (h : Signalled app s d) (hs : Holder s) (hf : s.tableLock = none) :
    (∀ j, (s.phase j).chans = none) ∧ d.locked = false ∧ d.appDoneChans = s.appDoneChans ∧
      d.dcpStreamClose = s.dcpStreamClose ∧ d.timerEventClose = s.timerEventClose := by
  have hnone : ∀ j c, (s.phase j).chans ≠ some c := fun j c => hs.not_chans_of_free hf
  refine ⟨fun j => Option.eq_none_iff_forall_ne_some.mpr (hnone j), ?_, ?_, ?_, ?_⟩
  · exact h.unlocked hs (by simp [hf])
  · funext a
    exact h.entry a fun j _ => Option.eq_none_iff_forall_ne_some.mpr (hnone j)
  · funext c
    refine h.stream c fun j hj => hnone j c ?_
    rw [hj]
    rfl
  · funext c
    exact h.timer c fun j => hnone j c

theorem Refines.stutter (h : Refines app s d)
    (hphase : ∀ i, (t.phase i).sectioned (t.request i) = (s.phase i).sectioned (s.request i))
    (hworker : t.workerTable = s.workerTable) (hquit : t.quit = s.quit)
    (hsig : Signalled app t d) : Refines app t d where
  phase i := (h.phase i).trans (hphase i).symm
  workerTable := h.workerTable.trans hworker.symm
  quit := h.quit.trans hquit.symm
  signalled := hsig

section
variable [DecidableEq ι]

lemma Refines.phase_update (h : Refines app s d) {i : ι} {p : Phase ι} {q : Deploy.Phase}
    (hphase : t.phase = Function.update s.phase i p)
    (hreq : ∀ j, j ≠ i → t.request j = s.request j)
    (hd : d'.phase = Function.update d.phase i q) (hq : q = p.sectioned (t.request i)) (j : ι) :
    d'.phase j = (t.phase j).sectioned (t.request j) := by
  rw [hd, hphase]
  by_cases hj : j = i
  · subst hj
    rw [Function.update_self, Function.update_self, hq]
  · rw [Function.update_of_ne hj, Function.update_of_ne hj, hreq j hj]
    exact h.phase j

lemma sectioned_update {request : ι → Request ι} {phase : ι → Phase ι} {i : ι} {p : Phase ι}
    (hp : p.sectioned (request i) = (phase i).sectioned (request i)) (j : ι) :
    (Function.update phase i p j).sectioned (request j) = (phase j).sectioned (request j) := by
  by_cases hj : j = i
  · subst hj
    rw [Function.update_self, hp]
  · rw [Function.update_of_ne hj]

lemma quiet_update {phase : ι → Phase ι} {i : ι} {p : Phase ι} (hp : p.send = none)
    (hi : (phase i).send = none) (j : ι) : Function.update phase i p j = phase j ∨
      (Function.update phase i p j).send = none ∧ (phase j).send = none := by
  by_cases hj : j = i
  · subst hj
    rw [Function.update_self]
    exact .inr ⟨hp, hi⟩
  · rw [Function.update_of_ne hj]
    exact .inl rfl

theorem Signalled.lock [DecidableEq App] (h : Signalled app s d) (hs : Holder s)
    (hf : s.tableLock = none) {i c : ι}
    (hphase : t.phase = Function.update s.phase i (.sendStream (some c)))
    (hdone : t.appDoneChans = s.appDoneChans) (hstream : t.dcpStreamClose = s.dcpStreamClose)
    (htimer : t.timerEventClose = s.timerEventClose) (hlocked' : d'.locked = false)
    (hdone' : d'.appDoneChans = Function.update d.appDoneChans (app i) none)
    (hstream' : d'.dcpStreamClose = Function.update d.dcpStreamClose c .full)
    (htimer' : d'.timerEventClose = Function.update d.timerEventClose c .full) :
    Signalled app t d' := by
  obtain ⟨hnone, -, hd, hst, htm⟩ := h.quiet hs hf
  have hself : (t.phase i).chans = some c := by
    rw [hphase, Function.update_self]
    rfl
  have hother : ∀ j, j ≠ i → t.phase j = s.phase j := by
    intro j hj
    rw [hphase, Function.update_of_ne hj]
  have honly : ∀ j e, (t.phase j).chans = some e → j = i ∧ e = c := by
    intro j e he
    by_cases hj : j = i
    · subst hj
      exact ⟨rfl, Option.some.inj (he.symm.trans hself)⟩
    · rw [hother j hj, hnone j] at he
      cases he
  constructor
  case locked => simp [hlocked']
  case entry =>
    intro b hb
    have hne : b ≠ app i := by
      rintro rfl
      rw [hb i rfl] at hself
      cases hself
    rw [hdone', Function.update_of_ne hne, hdone, hd]
  case taken =>
    intro j e he
    rw [(honly j e he).1, hdone', Function.update_self]
  case stream =>
    intro e he
    have hne : e ≠ c := by
      rintro rfl
      exact he i (by rw [hphase, Function.update_self])
    rw [hstream', Function.update_of_ne hne, hstream, hst]
  case streamed =>
    intro j e he
    rw [(honly j e (by rw [he]; rfl)).2, hstream', Function.update_self]
  case timer =>
    intro e he
    have hne : e ≠ c := by
      rintro rfl
      exact he i hself
    rw [htimer', Function.update_of_ne hne, htimer, htm]
  case timed =>
    intro j e he
    rw [(honly j e he).2, htimer', Function.update_self]

/-- The first of the two sends, which the other model has made with the second. -/
theorem Signalled.sendStream (h : Signalled app s d) (hs : Holder s) {i c : ι}
    (hp : s.phase i = .sendStream (some c))
    (hphase : t.phase = Function.update s.phase i (.sendTimer c))
    (hdone : t.appDoneChans = s.appDoneChans)
    (hstream : t.dcpStreamClose = Function.update s.dcpStreamClose c .full)
    (htimer : t.timerEventClose = s.timerEventClose) : Signalled app t d := by
  have hi : (s.phase i).chans = some c := by rw [hp]; rfl
  have hchans : ∀ j, (t.phase j).chans = (s.phase j).chans := by
    rw [hphase]
    exact read_update (by rw [hp]; rfl)
  have hlock := hs.locked_of_chans hi
  have halone : ∀ j e, s.phase j = .sendStream e → j = i := by
    intro j e hj
    have he := hlock.symm.trans (hs _ _ (sendOf_worker hj))
    simpa [eq_comm] using he
  constructor
  case locked =>
    intro hl
    obtain ⟨j, hj⟩ := h.locked hl
    rw [halone j none hj, hp] at hj
    cases hj
  case entry => simpa only [hchans, hdone] using h.entry
  case taken => simpa only [hchans] using h.taken
  case stream =>
    intro e he
    rw [hstream]
    by_cases hec : e = c
    · subst hec
      rw [Function.update_self]
      exact h.streamed i e hp
    · rw [Function.update_of_ne hec]
      refine h.stream e fun j hj => hec ?_
      rw [halone j (some e) hj, hp] at hj
      cases hj
      rfl
  case streamed =>
    intro j e he
    rw [hphase] at he
    by_cases hj : j = i
    · subst hj
      simp at he
    · rw [Function.update_of_ne hj] at he
      exact absurd (halone j _ he) hj
  case timer => simpa only [hchans, htimer] using h.timer
  case timed => simpa only [hchans] using h.timed

theorem Signalled.sendTimer [DecidableEq App] (h : Signalled app s d) (hs : Holder s) {i c : ι}
    (hp : s.phase i = .sendTimer c) (hphase : t.phase = Function.update s.phase i .stopped)
    (hdone : t.appDoneChans = Function.update s.appDoneChans (app i) none)
    (hstream : t.dcpStreamClose = s.dcpStreamClose)
    (htimer : t.timerEventClose = Function.update s.timerEventClose c .full) :
    Signalled app t d := by
  have hi : (s.phase i).chans = some c := by rw [hp]; rfl
  have hlock := hs.locked_of_chans hi
  have halone : ∀ j m, (s.phase j).send = some m → j = i := by
    intro j m hj
    have he := hlock.symm.trans (hs (.runWorker j) m hj)
    simpa [eq_comm] using he
  have hnot : ∀ j e, s.phase j ≠ .sendStream e := by
    intro j e hj
    rw [halone j _ (by rw [hj]; rfl), hp] at hj
    cases hj
  have hothers : ∀ j, j ≠ i → (s.phase j).chans = none := by
    intro j hj
    by_contra hne
    obtain ⟨e, he⟩ := Option.ne_none_iff_exists'.mp hne
    exact hj (hs.chans_unique he hi)
  refine .of_quiet ?_ ?_ ?_ ?_ ?_
  · intro j
    rw [hphase]
    by_cases hj : j = i
    · subst hj
      rw [Function.update_self]
      rfl
    · rw [Function.update_of_ne hj]
      exact hothers j hj
  · intro hl
    obtain ⟨j, hj⟩ := h.locked hl
    exact absurd hj (hnot j none)
  · funext b
    rw [hdone]
    by_cases hb : b = app i
    · subst hb
      rw [Function.update_self]
      exact h.taken i c hi
    · rw [Function.update_of_ne hb]
      refine h.entry b fun j hj => hothers j ?_
      rintro rfl
      exact hb hj.symm
  · funext e
    rw [hstream]
    exact h.stream e fun j => hnot j (some e)
  · funext e
    rw [htimer]
    by_cases he : e = c
    · subst he
      rw [Function.update_self]
      exact h.timed i e hi
    · rw [Function.update_of_ne he]
      refine h.timer e fun j hj => he ?_
      rw [hs.chans_unique hj hi, hi] at hj
      exact (Option.some.inj hj).symm

lemma Refines.request (h : Refines app s d) {i : ι} {r : Request ι} {p : Phase ι}
    (hreq : t.request = Function.update s.request i r)
    (hphase : t.phase = Function.update s.phase i p)
    (hsec : p.sectioned r = (s.phase i).sectioned (s.request i))
    (hp : p = s.phase i ∨ p.send = none ∧ (s.phase i).send = none)
    (hworker : t.workerTable = s.workerTable) (hquit : t.quit = s.quit)
    (hdone : t.appDoneChans = s.appDoneChans) (hstream : t.dcpStreamClose = s.dcpStreamClose)
    (htimer : t.timerEventClose = s.timerEventClose) : Refines app t d := by
  refine h.stutter (fun j => ?_) hworker hquit ?_
  · rw [hreq, hphase]
    by_cases hj : j = i
    · subst hj
      rw [Function.update_self, Function.update_self, hsec]
    · rw [Function.update_of_ne hj, Function.update_of_ne hj]
  · refine h.signalled.congr (fun j => ?_) hdone hstream htimer rfl rfl rfl rfl
    rw [hphase]
    by_cases hj : j = i
    · subst hj
      rwa [Function.update_self]
    · rw [Function.update_of_ne hj]
      exact .inl rfl

lemma Refines.within (h : Refines app s d) {i : ι} {p : Phase ι}
    (hphase : t.phase = Function.update s.phase i p) (hreq : t.request = s.request)
    (hsec : p.sectioned (s.request i) = (s.phase i).sectioned (s.request i)) (hp : p.send = none)
    (hi : (s.phase i).send = none) (hworker : t.workerTable = s.workerTable)
    (hquit : t.quit = s.quit) (hdone : t.appDoneChans = s.appDoneChans)
    (hstream : t.dcpStreamClose = s.dcpStreamClose)
    (htimer : t.timerEventClose = s.timerEventClose) : Refines app t d := by
  refine h.stutter (fun j => ?_) hworker hquit ?_
  · rw [hphase, hreq]
    exact sectioned_update hsec j
  · refine h.signalled.congr (fun j => ?_) hdone hstream htimer rfl rfl rfl rfl
    rw [hphase]
    exact quiet_update hp hi j

lemma Refines.together (h : Refines app s d) {i : ι} {p : Phase ι} {q : Deploy.Phase}
    (hphase : t.phase = Function.update s.phase i p)
    (hreq : ∀ j, j ≠ i → t.request j = s.request j)
    (hd : d'.phase = Function.update d.phase i q) (hq : q = p.sectioned (t.request i))
    (hp : p.send = none) (hi : (s.phase i).send = none)
    (hworker : d'.workerTable = t.workerTable) (hquit : d'.quit = t.quit)
    (hdone : t.appDoneChans = s.appDoneChans) (hstream : t.dcpStreamClose = s.dcpStreamClose)
    (htimer : t.timerEventClose = s.timerEventClose) (hlocked' : d'.locked = d.locked)
    (hdone' : d'.appDoneChans = d.appDoneChans) (hstream' : d'.dcpStreamClose = d.dcpStreamClose)
    (htimer' : d'.timerEventClose = d.timerEventClose) : Refines app t d' := by
  refine ⟨h.phase_update hphase hreq hd hq, hworker, hquit, ?_⟩
  refine h.signalled.congr (fun j => ?_) hdone hstream htimer hlocked' hdone' hstream' htimer'
  rw [hphase]
  exact quiet_update hp hi j

variable [DecidableEq App]

/-- The whole `Quit` section of the other model, at the lock of this one. -/
theorem Refines.lockQuit (hd : Refines app s d) (hs : Holder s) (hc : Chans app s) {i : ι}
    (hp : s.phase i = .quitting) (hf : s.tableLock = none) :
    ∃ v, Reachable (Deploy.step app fun _ => []) d v ∧
      Refines app { s.setPhase i (.sendStream (s.appDoneChans (app i))) with
        tableLock := some (.runWorker i) } v := by
  obtain ⟨hnone, hl, hdn, hst, htm⟩ := hd.signalled.quiet hs hf
  have hd' : d.phase i = .quitting := by
    rw [hd.phase, hp]
    rfl
  cases hch : s.appDoneChans (app i) with
  | none =>
    have hstep : Deploy.step app (fun _ => []) d (.tearDown i) =
        some { (d.forget i).setPhase i .stuck with locked := true } := by
      simp [Deploy.step, hd', hl, hdn, hch]
    refine ⟨_, .one trivial hstep, hd.phase_update rfl (fun _ _ => rfl) rfl rfl, hd.workerTable,
      hd.quit, .of_quiet (fun j => ?_) (fun _ => ⟨i, Function.update_self ..⟩) hdn hst htm⟩
    exact (read_update (by rw [hp]; rfl) j).trans (hnone j)
  | some c =>
    have hstream : d.dcpStreamClose c = .empty := by
      rw [hst]
      obtain he | ⟨j, hj⟩ := hc.stream _ c hch
      · exact he
      · have := hnone j
        rw [hj] at this
        cases this
    have htimer : d.timerEventClose c = .empty := by
      rw [htm]
      exact hc.timer _ c hch
    have hstep : Deploy.step app (fun _ => []) d (.tearDown i) =
        some { (d.forget i).setPhase i .stopped with
          dcpStreamClose := Function.update d.dcpStreamClose c .full
          timerEventClose := Function.update d.timerEventClose c .full
          appDoneChans := Function.update d.appDoneChans (app i) none
          log := d.log ++ [.tornDown i c] } := by
      simp [Deploy.step, hd', hl, hdn, hch, hstream, htimer]
    exact ⟨_, .one trivial hstep, hd.phase_update rfl (fun _ _ => rfl) rfl rfl, hd.workerTable,
      hd.quit, hd.signalled.lock hs hf rfl rfl rfl rfl hl rfl rfl rfl⟩

theorem Stepped.refines (h : Stepped app s a t) (hr : Requests s) (hs : Holder s)
    (hc : Chans app s) (hask : Asks app s) (hok : CrashAfterClose s a) (hd : Refines app s d) :
    ∃ v, Reachable (Deploy.step app fun _ => []) d v ∧ Refines app t v := by
  cases h with
  | serve | makeSetup | fill | startLoop | receiveSetup | setUpMailServer =>
    exact ⟨d, .refl, hd.stutter (fun _ => rfl) rfl rfl
      (hd.signalled.congr (fun _ => .inl rfl) rfl rfl rfl rfl rfl rfl rfl)⟩
  | enterLoop hp | enterSelect hp | receiveEvent hp | handled hp | tick hp =>
    exact ⟨d, .refl, hd.within rfl rfl (by rw [hp]; rfl) rfl (by rw [hp]; rfl) rfl rfl rfl rfl rfl⟩
  | @boot i hm hp =>
    have hd' : d.phase i = .undeployed := by
      rw [hd.phase, hp, hr.booting hm i]
      rfl
    have hstep : Deploy.step app (fun _ => []) d (.boot i) = some (d.setPhase i .connecting) := by
      simp [Deploy.step, hd']
    exact ⟨_, .one trivial hstep, hd.together rfl (fun _ _ => rfl) rfl rfl rfl (by rw [hp]; rfl)
      hd.workerTable hd.quit rfl rfl rfl rfl rfl rfl rfl⟩
  | @redeploy i h hq hp =>
    refine ⟨d, .refl, hd.request (p := s.phase i) rfl (Function.update_eq_self ..).symm ?_
      (.inl rfl) rfl rfl rfl rfl rfl⟩
    rw [hp, hq]
    rfl
  | @sendNil i started hq =>
    refine ⟨d, .refl, hd.request (p := s.phase i) rfl (Function.update_eq_self ..).symm ?_
      (.inl rfl) rfl rfl rfl rfl rfl⟩
    rw [hq, sectioned_sendNil, sectioned_sendSetup]
  | @sendSetup i started n hq =>
    refine ⟨d, .refl, hd.request rfl rfl ?_ ?_ rfl rfl rfl rfl rfl⟩
    · cases started with
      | true =>
        rw [hq, sectioned_sendSetup]
        rfl
      | false =>
        rw [hq, hr.undeployed i (by rw [hq]; rfl)]
        rfl
    · cases started with
      | true => exact .inl rfl
      | false => exact .inr ⟨rfl, by rw [hr.undeployed i (by rw [hq]; rfl)]; rfl⟩
  | @deploy i hq hp hf _ hw =>
    obtain ⟨-, hl, -⟩ := hd.signalled.quiet hs hf
    have hd' : d.phase i = .undeployed := by
      rw [hd.phase, hp, hq]
      rfl
    have hstep : Deploy.step app (fun _ => []) d (.storeAppSetup i) =
        some (d.setPhase i .connecting) := by
      simp [Deploy.step, hd', hl, hd.workerTable, hw]
    refine ⟨_, .one trivial hstep, hd.together rfl (fun j hj => ?_) rfl rfl rfl (by rw [hp]; rfl)
      hd.workerTable hd.quit rfl rfl rfl rfl rfl rfl rfl⟩
    exact Function.update_of_ne hj _ _
  | @sendQuit i h hq hroom =>
    have hp := hr.undeployed i (by rw [hq]; rfl)
    have hl : d.locked = false := by
      refine hd.signalled.unlocked hs fun j hj => ?_
      rw [hs _ _ (sendOf_request hq)] at hj
      cases hj
    have hd' : d.phase i = .undeployed := by
      rw [hd.phase, hp, hq]
      rfl
    have hstep : Deploy.step app (fun _ => []) d (.storeAppSetup i) =
        some { d.setPhase i .connecting with quit := Function.update d.quit h true } := by
      simp [Deploy.step, hd', hl, hd.workerTable, hask i h hq, hd.quit, hroom]
    refine ⟨_, .one trivial hstep, hd.together (p := .undeployed) ?_ (fun j hj => ?_) rfl ?_ rfl
      (by rw [hp]; rfl) hd.workerTable ?_ rfl rfl rfl rfl rfl rfl rfl⟩
    · rw [← hp]
      exact (Function.update_eq_self ..).symm
    · exact Function.update_of_ne hj _ _
    · simp [State.setRequest, Phase.sectioned]
    · exact congrArg (Function.update · h true) hd.quit
  | @installChans i hp hf =>
    obtain ⟨hnone, hl, hdn, hst, htm⟩ := hd.signalled.quiet hs hf
    have hd' : d.phase i = .connecting := by
      rw [hd.phase, hp]
      rfl
    have hstep : Deploy.step app (fun _ => []) d (.installChans i) =
        some { d.setPhase i .installed with
          appDoneChans := Function.update d.appDoneChans (app i) (some i)
          log := d.log ++ [.installed i] } := by
      simp [Deploy.step, hd', hl]
    refine ⟨_, .one trivial hstep, hd.phase_update rfl (fun _ _ => rfl) rfl rfl, hd.workerTable,
      hd.quit, ?_⟩
    refine .of_quiet (fun j => ?_) (fun h => ?_) ?_ hst htm
    · exact (read_update (by rw [hp]; rfl) j).trans (hnone j)
    · rw [show d.locked = true from h] at hl
      cases hl
    · exact congrArg (Function.update · (app i) (some i)) hdn
  | @loadApp i hp hf =>
    obtain ⟨-, hl, -⟩ := hd.signalled.quiet hs hf
    have hd' : d.phase i = .installed := by
      rw [hd.phase, hp]
      rfl
    have hstep : Deploy.step app (fun _ => []) d (.loadApp i) =
        some { d.setPhase i (.referring []) with
          workerTable := Function.update d.workerTable (app i) (some i) } := by
      simp [Deploy.step, hd', hl]
    exact ⟨_, .one trivial hstep, hd.together rfl (fun _ _ => rfl) rfl rfl rfl (by rw [hp]; rfl)
      (congrArg (Function.update · (app i) (some i)) hd.workerTable) hd.quit rfl rfl rfl rfl rfl rfl
      rfl⟩
  | @startWorker i hp =>
    have hd' : d.phase i = .referring [] := by
      rw [hd.phase, hp]
      rfl
    have hstep : Deploy.step app (fun _ => []) d (.startWorker i) =
        some (d.setPhase i .running) := by
      simp [Deploy.step, hd']
    exact ⟨_, .one trivial hstep, hd.together rfl (fun _ _ => rfl) rfl rfl rfl (by rw [hp]; rfl)
      hd.workerTable hd.quit rfl rfl rfl rfl rfl rfl rfl⟩
  | @crash i hp =>
    have hrun : d.phase i = .running ∧ (s.phase i).send = none := by
      rw [hd.phase]
      rcases hp with hp | hp <;> rw [hp] <;> exact ⟨rfl, rfl⟩
    have hclosed : d.dcpStreamClose i = .closed := by
      rw [hd.signalled.stream i, hok]
      intro j hj
      have := hc.stream_empty hs hj
      rw [hok] at this
      cases this
    have hstep : Deploy.step app (fun _ => []) d (.crash i) = some (d.setPhase i .stopped) := by
      simp [Deploy.step, hrun.1, hclosed]
    exact ⟨_, .one trivial hstep, hd.together rfl (fun _ _ => rfl) rfl rfl rfl hrun.2
      hd.workerTable hd.quit rfl rfl rfl rfl rfl rfl rfl⟩
  | @receiveQuit i hp hq =>
    have hd' : d.phase i = .running := by
      rw [hd.phase, hp]
      rfl
    have hstep : Deploy.step app (fun _ => []) d (.receiveQuit i) =
        some { d.setPhase i .quitting with quit := Function.update d.quit i false } := by
      simp [Deploy.step, hd', hd.quit, hq]
    exact ⟨_, .one trivial hstep, hd.together rfl (fun _ _ => rfl) rfl rfl rfl (by rw [hp]; rfl)
      hd.workerTable (congrArg (Function.update · i false) hd.quit) rfl rfl rfl rfl rfl rfl rfl⟩
  | @sendStream i c hp =>
    exact ⟨d, .refl, hd.stutter (sectioned_update (by rw [hp]; rfl)) rfl rfl
      (hd.signalled.sendStream hs hp rfl rfl rfl rfl)⟩
  | sendClosed hp hcl =>
    rw [hc.stream_empty hs hp] at hcl
    cases hcl
  | @sendTimer i c hp =>
    exact ⟨d, .refl, hd.stutter (sectioned_update (by rw [hp]; rfl)) rfl rfl
      (hd.signalled.sendTimer hs hp rfl rfl rfl rfl)⟩
  | @lockQuit i hp hf => exact hd.lockQuit hs hc hp hf
  | @closeStream c hfull =>
    have hfree : ∀ j, s.phase j ≠ .sendStream (some c) := by
      intro j hj
      have := hc.stream_empty hs hj
      rw [hfull] at this
      cases this
    have hd' := (hd.signalled.stream c hfree).trans hfull
    have hstep : Deploy.step app (fun _ => []) d (.closeStream c) =
        some { d with dcpStreamClose := Function.update d.dcpStreamClose c .closed } := by
      simp [Deploy.step, hd']
    have h := hd.signalled
    refine ⟨_, .one trivial hstep, hd.phase, hd.workerTable, hd.quit, h.locked, h.entry, h.taken,
      fun e he => ?_, fun j e he => ?_, h.timer, h.timed⟩
    · by_cases hec : e = c
      · subst hec
        simp
      · simpa only [Function.update_of_ne hec] using h.stream e he
    · have hec : e ≠ c := by
        rintro rfl
        exact hfree j he
      simpa only [Function.update_of_ne hec] using h.streamed j e he
  | @closeTimer c hfull =>
    have hfree : ∀ j, (s.phase j).chans ≠ some c := by
      intro j hj
      have := hc.timer _ c (hc.signals j c hj)
      rw [hfull] at this
      cases this
    have hd' := (hd.signalled.timer c hfree).trans hfull
    have hstep : Deploy.step app (fun _ => []) d (.closeTimer c) =
        some { d with timerEventClose := Function.update d.timerEventClose c .empty } := by
      simp [Deploy.step, hd']
    have h := hd.signalled
    refine ⟨_, .one trivial hstep, hd.phase, hd.workerTable, hd.quit, h.locked, h.entry, h.taken,
      h.stream, h.streamed, fun e he => ?_, fun j e he => ?_⟩
    · by_cases hec : e = c
      · subst hec
        simp
      · simpa only [Function.update_of_ne hec] using h.timer e he
    · have hec : e ≠ c := by
        rintro rfl
        exact hfree j he
      simpa only [Function.update_of_ne hec] using h.timed j e he

theorem Stepped.asks (h : Stepped app s a t) (hs : Holder s) (ha : Asks app s) : Asks app t := by
  -- What a request that is not at its first send gets to is not that send either.
  have other : ∀ {i : ι} {r : Request ι}, (∀ k, r ≠ .sendQuit k) →
      ∀ j k, Function.update s.request i r j = .sendQuit k → s.workerTable (app j) = some k := by
    intro i r hr j k hj
    by_cases hji : j = i
    · subst hji
      rw [Function.update_self] at hj
      exact absurd hj (hr k)
    · rw [Function.update_of_ne hji] at hj
      exact ha j k hj
  cases h with
  | @redeploy i h _ _ _ _ hw =>
    intro j k hj
    by_cases hji : j = i
    · subst hji
      obtain rfl : h = k := by simpa [State.setRequest] using hj
      exact hw
    · exact ha j k (by simpa [State.setRequest, hji] using hj)
  | deploy | sendQuit | sendNil | sendSetup => exact other (by simp)
  | loadApp _ hf =>
    intro j k hj
    have hl := hs (.storeAppSetup j) (.quit k) (sendOf_request hj)
    rw [hf] at hl
    cases hl
  | boot | serve | makeSetup | fill | startLoop | receiveSetup | setUpMailServer | installChans
  | startWorker | enterLoop | enterSelect | receiveEvent | handled | tick | crash | receiveQuit
  | lockQuit | sendStream | sendClosed | sendTimer | closeStream | closeTimer => exact ha

/-- In every run in which workers fail only after their stream was closed, the state is
that of a run of `Deploy.step`. -/
theorem reach_refines (h : Reach (step app) CrashAfterClose State.initial s) :
    ∃ d, Reachable (Deploy.step app fun _ => []) .initial d ∧ Refines app s d := by
  refine h.simulated refines_initial ?_
  intro s a t d hp hd hok hst
  have hinv : Requests s ∧ Holder s ∧ Chans app s ∧ Asks app s := by
    refine hp.invariant (I := fun s => Requests s ∧ Holder s ∧ Chans app s ∧ Asks app s)
      ⟨requests_initial, holder_initial, chans_initial, fun _ _ h => by cases h⟩ ?_
    intro s a t hi _ hs
    obtain ⟨hr, hh, hc, ha⟩ := hi
    have h := step_stepped hs
    exact ⟨h.requests hr, h.holder hr hh, h.chans hr hh hc, h.asks hh ha⟩
  obtain ⟨hr, hh, hc, ha⟩ := hinv
  exact (step_stepped hst).refines hr hh hc ha hok hd

end

end Eventing.DeployLock
