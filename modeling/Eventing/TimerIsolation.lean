import Mathlib.Data.Fintype.Basic
import Eventing.TimerLists

/-!
# Timers of several applications in one bucket

Neither the list of a second nor a blob names the application that a timer belongs
to, and the loop of every application polls every second. Timers stay apart as
long as each loop reads only lists of its own application, no application
extends a list that the loop of another one is about to delete, and none registers a
document on which another one still has a timer.
-/
namespace Eventing.Timer
open KvStore Timestamp Delimited Transition

variable {App ρ ℓ : Type*}

/-- Every timer that a loop invoked or deleted is one of its application. -/
def Isolated (app : ℓ → App) (spec : ρ → Registration App) (s : State ρ ℓ) : Prop :=
  (∀ l t key b writers, .called l t key b writers ∈ s.log → ∀ r ∈ writers,
    (spec r).app = app l) ∧
  ∀ l key writers, .deleted l key writers ∈ s.log → ∀ r ∈ writers, (spec r).app = app l

section
variable [DecidableEq ρ]

/-- The registration is in the list to which it was appended. -/
def State.Listing (s : State ρ ℓ) (r : ρ) : Prop := ∃ t ∈ appendSeconds r s.log, r ∈ s.marker t

/-- An application has a timer on a document: a blob, a registration that is
listed or in progress, or a tick that is still to delete the blob. -/
inductive Claims (app : ℓ → App) (spec : ρ → Registration App) (s : State ρ ℓ) (d : Text) :
    App → Prop
  | blob {r : ρ} (stored : r ∈ (bucketGet s.kv d).writers) : Claims app spec s d (spec r).app
  | timer {r : ρ} (doc : (spec r).docId = d) (active : (s.reg r).due ≠ none ∨ s.Listing r) :
      Claims app spec s d (spec r).app
  | tick {l : ℓ} (purge : d ∈ (s.loop l).toPurge) : Claims app spec s d (app l)

/-- A loop reads a list of its own application; an id is appended to a list that no
loop of another application is about to delete; a blob is stored for a document on
which no other application has a timer. -/
def KeptApart (app : ℓ → App) (spec : ρ → Registration App) (s : State ρ ℓ) : Action ρ ℓ → Prop
  | .poll l now => ∀ r ∈ s.marker (newISO8601 now), (spec r).app = app l
  | .appendId r => ∀ l, (s.loop l).polling ≠ none → (s.loop l).polling = (s.reg r).due →
      app l = (spec r).app
  | .setBlob r _ => atoi (spec r).startTs ≠ 0 →
      ∀ A, Claims app spec s (spec r).docId A → A = (spec r).app
  | _ => True

instance (s : State ρ ℓ) (r : ρ) : Decidable (s.Listing r) :=
  inferInstanceAs (Decidable (∃ t ∈ appendSeconds r s.log, r ∈ s.marker t))

lemma claims_only_iff {app : ℓ → App} {spec : ρ → Registration App} {s : State ρ ℓ} {d : Text}
    {A : App} : (∀ B, Claims app spec s d B → B = A) ↔
      (∀ r ∈ (bucketGet s.kv d).writers, (spec r).app = A) ∧
      (∀ r, (spec r).docId = d → ((s.reg r).due ≠ none ∨ s.Listing r) → (spec r).app = A) ∧
      ∀ l, d ∈ (s.loop l).toPurge → app l = A := by
  constructor
  · intro h
    exact ⟨fun r hr => h _ (.blob hr), fun r hd ha => h _ (.timer hd ha),
      fun l hl => h _ (.tick hl)⟩
  · rintro ⟨h1, h2, h3⟩ B hB
    cases hB with
    | blob hr => exact h1 _ hr
    | timer hd ha => exact h2 _ hd ha
    | tick hl => exact h3 _ hl

instance [Fintype ρ] [Fintype ℓ] [DecidableEq App] (app : ℓ → App)
    (spec : ρ → Registration App) (s : State ρ ℓ) : DecidablePred (KeptApart app spec s)
  | .poll l now => inferInstanceAs (Decidable
      (∀ r ∈ s.marker (newISO8601 now), (spec r).app = app l))
  | .appendId r => inferInstanceAs (Decidable (∀ l, (s.loop l).polling ≠ none →
      (s.loop l).polling = (s.reg r).due → app l = (spec r).app))
  | .setBlob r _ =>
      have : Decidable (∀ A, Claims app spec s (spec r).docId A → A = (spec r).app) :=
        decidable_of_iff' _ claims_only_iff
      inferInstanceAs (Decidable (atoi (spec r).startTs ≠ 0 →
        ∀ A, Claims app spec s (spec r).docId A → A = (spec r).app))
  | .getMarker _ _ | .addMarker _ | .fire _ | .leave _ | .deleteMarker _ | .deleteKey _
  | .close _ => isTrue trivial

variable {app : ℓ → App} {json : Json} {spec : ρ → Registration App}
  {kv₀ : Store Text (Doc ρ)} {s t : State ρ ℓ} {a : Action ρ ℓ}

/-- No two applications have a timer on one document. -/
structure Apart (app : ℓ → App) (spec : ρ → Registration App) (s : State ρ ℓ) : Prop where
  sole : ∀ d, (∀ u, d ≠ iso8601 u) → d ≠ [] →
    ∀ A B, Claims app spec s d A → Claims app spec s d B → A = B
  window : ∀ l T, (s.loop l).polling = some T → ∀ r ∈ s.marker T, (spec r).app = app l
  keyed : ∀ d, (∀ u, d ≠ iso8601 u) → ∀ r ∈ (bucketGet s.kv d).writers, (spec r).docId = d
  logged : ∀ T, ∀ r ∈ s.marker T, r ∈ appendedTo T s.log

lemma apart_initial (h₀ : ∀ d, (bucketGet kv₀ d).writers = []) :
    Apart app spec (State.initial kv₀) := by
  constructor
  case sole =>
    intro d _ _ A B hA
    cases hA with
    | blob hr => simp [State.initial, h₀] at hr
    | timer _ ha =>
      rcases ha with ha | ⟨t, ht, -⟩
      · simp [State.initial, RegPc.due] at ha
      · simp [State.initial, appendSeconds] at ht
    | tick hl => simp [State.initial, LoopPc.toPurge] at hl
  case window => simp [State.initial, LoopPc.polling]
  case keyed => simp [State.initial, h₀]
  case logged => simp [State.initial, State.marker, h₀]

lemma Apart.listing (h : Apart app spec s) {T : Second} {r : ρ} (hr : r ∈ s.marker T) :
    s.Listing r :=
  ⟨T, mem_appendSeconds.mpr (h.logged T r hr), hr⟩

variable [DecidableEq ℓ]

theorem due_step (hs : Stepped json spec s a t) {r : ρ} (h : (t.reg r).due ≠ none) :
    (s.reg r).due ≠ none ∨ ∃ now, a = .setBlob r now ∧ atoi (spec r).startTs ≠ 0 := by
  cases hs with
  | @skip r' now hpc _ | @appendId r' u hpc =>
    by_cases he : r = r'
    · simp [he, RegPc.due] at h
    · exact .inl (by simpa [he] using h)
  | @setBlob r' now u hpc hz _ =>
    by_cases he : r = r'
    · exact .inr ⟨now, by rw [he], he ▸ hz⟩
    · exact .inl (by simpa [he] using h)
  | @found r' _ u _ hpc _ | @missing r' _ u hpc | @addMarker r' u hpc =>
    by_cases he : r = r'
    · exact .inl (by simp [he, hpc, RegPc.due])
    · exact .inl (by simpa [he] using h)
  | poll _ _ _ | fireEnd _ | fireError _ _ | fireAbort _ _ | fireCall _ _ | leave _
  | deleteMarker _ | deleteKey _ | purged _ | close _ => exact .inl h

section Step
variable (hp : ∀ r, PlainId (spec r).docId) (hl : Listed spec s) (h : Apart app spec s)
include hp hl h

lemma active_step (hs : Stepped json spec s a t) {r : ρ}
    (hr : (t.reg r).due ≠ none ∨ t.Listing r) : ((s.reg r).due ≠ none ∨ s.Listing r) ∨
      ∃ now, a = .setBlob r now ∧ atoi (spec r).startTs ≠ 0 := by
  rcases hr with hr | ⟨T, -, hr⟩
  · exact (due_step hs hr).imp .inl id
  · rcases marker_step hp hl hs hr with hr | ⟨-, hpc, -⟩
    · exact .inl (.inr (h.listing hr))
    · exact .inl (.inl (by simp [hpc, RegPc.due]))

/-- A new claim is made when a blob is stored: a tick takes over the claims of the
timers in its list. -/
theorem claims_step (hok : KeptApart app spec s a) (hs : Stepped json spec s a t) {d : Text}
    {A : App} (hd : ∀ u, d ≠ iso8601 u) (hne : d ≠ []) (hA : Claims app spec t d A) :
    Claims app spec s d A ∨ ∃ r now, a = .setBlob r now ∧ atoi (spec r).startTs ≠ 0 ∧
      (spec r).docId = d ∧ A = (spec r).app := by
  cases hA with
  | @blob r hr =>
    rcases doc_step hd hs with hdoc | ⟨r', now, rfl, hz, hd', hdoc⟩ | ⟨l, -, -, hdoc⟩
    · exact .inl (.blob (hdoc ▸ hr))
    · rw [hdoc, List.mem_singleton] at hr
      exact .inr ⟨r', now, rfl, hz, hd', by rw [hr]⟩
    · simp [hdoc, Doc.blank] at hr
  | @timer r hdoc hr =>
    rcases active_step hp hl h hs hr with hr | ⟨now, rfl, hz⟩
    · exact .inl (.timer hdoc hr)
    · exact .inr ⟨r, now, rfl, hz, hdoc, rfl⟩
  | @tick l hpurge =>
    rcases toPurge_step hs l with hsub | ⟨now, rfl, heq⟩
    · exact .inl (.tick (hsub hpurge))
    · rw [heq, (hl.bucketGet _).splitOn hp, List.mem_append, List.mem_map,
        List.mem_singleton] at hpurge
      rcases hpurge with ⟨r, hr, rfl⟩ | hnil
      · have happ : (spec r).app = app l := hok r hr
        rw [← happ]
        exact .inl (.timer rfl (.inr (h.listing hr)))
      · exact absurd hnil hne

lemma apart_step (hok : KeptApart app spec s a) (hs : Stepped json spec s a t) :
    Apart app spec t := by
  constructor
  case sole =>
    intro d hd hne A B hA hB
    rcases claims_step hp hl h hok hs hd hne hA with hA | ⟨r, now, rfl, hz, rfl, rfl⟩
    · rcases claims_step hp hl h hok hs hd hne hB with hB | ⟨r, now, rfl, hz, rfl, rfl⟩
      · exact h.sole d hd hne A B hA hB
      · exact hok hz A hA
    · rcases claims_step hp hl h hok hs hd hne hB with hB | ⟨r', now', he, -, -, rfl⟩
      · exact (hok hz B hB).symm
      · cases he
        rfl
  case window =>
    intro l T hT r hr
    rcases polling_step hs hT with hT | ⟨now, rfl, rfl⟩
    · rcases marker_step hp hl hs hr with hr | ⟨rfl, hpc, -⟩
      · exact h.window l T hT r hr
      · exact (hok l (by simp [hT]) (by simp [hT, hpc, RegPc.due])).symm
    · rcases marker_step hp hl hs hr with hr | ⟨he, -, -⟩
      · exact hok r hr
      · cases he
  case keyed =>
    intro d hd r hr
    rcases doc_step hd hs with hdoc | ⟨r', now, rfl, hz, hd', hdoc⟩ | ⟨l, -, -, hdoc⟩
    · exact h.keyed d hd r (hdoc ▸ hr)
    · rw [hdoc, List.mem_singleton] at hr
      rw [hr, hd']
    · simp [hdoc, Doc.blank] at hr
  case logged =>
    intro T r hr
    rcases marker_step hp hl hs hr with hr | ⟨-, -, hr⟩
    · exact appendedTo_step hs (h.logged T r hr)
    · exact hr

omit [DecidableEq ℓ] hp hl in
theorem own_blob (hne : ∀ r, (spec r).docId ≠ []) {l : ℓ} {key : Text}
    (hkey : key ∈ (s.loop l).toPurge) (hd : ∀ u, key ≠ iso8601 u) {r : ρ}
    (hr : r ∈ (bucketGet s.kv key).writers) : (spec r).app = app l := by
  have hdoc := h.keyed key hd r hr
  exact h.sole key hd (hdoc ▸ hne r) _ _ (.blob hr) (.tick hkey)

lemma isolated_step (hne : ∀ r, (spec r).docId ≠ []) (hi : Isolated app spec s)
    (hs : Stepped json spec s a t) : Isolated app spec t := by
  have called : ∀ {l u key b writers} {loop : ℓ → LoopPc ρ},
      (∀ r ∈ writers, (spec r).app = app l) →
      Isolated app spec { s with loop := loop, log := s.log ++ [.called l u key b writers] } := by
    intro l u key b writers loop hw
    refine ⟨?_, ?_⟩
    · intro l' u' key' b' writers' he
      simp only [List.mem_append, List.mem_singleton, Event.called.injEq] at he
      rcases he with he | ⟨rfl, rfl, rfl, rfl, rfl⟩
      · exact hi.1 l' u' key' b' writers' he
      · exact hw
    · intro l' key' writers' he
      exact hi.2 l' key' writers' (by simpa using he)
  have deleted : ∀ {l key writers} {kv : Store Text (Doc ρ)} {loop : ℓ → LoopPc ρ},
      (∀ r ∈ writers, (spec r).app = app l) →
      Isolated app spec { s with
        kv := kv, loop := loop, log := s.log ++ [.deleted l key writers] } := by
    intro l key writers kv loop hw
    refine ⟨?_, ?_⟩
    · intro l' u' key' b' writers' he
      exact hi.1 l' u' key' b' writers' (by simpa using he)
    · intro l' key' writers' he
      simp only [List.mem_append, List.mem_singleton, Event.deleted.injEq] at he
      rcases he with he | ⟨rfl, rfl, rfl⟩
      · exact hi.2 l' key' writers' he
      · exact hw
  cases hs with
  | skip _ _ | setBlob _ _ _ | found _ _ | missing _ | addMarker _ | fireEnd _ | fireError _ _
  | fireAbort _ _ | leave _ | purged _ | close _ => exact hi
  | appendId _ | poll _ _ _ =>
    exact ⟨fun l u key b writers he => hi.1 l u key b writers (by simpa using he),
      fun l key writers he => hi.2 l key writers (by simpa using he)⟩
  | @fireCall l u value key keys b hpc _ =>
    obtain ⟨hlist, hsuf⟩ := hl.pc hpc
    have hmem := hsuf.subset (List.mem_cons_self (a := key) (l := keys))
    obtain ⟨r, -, hr⟩ := List.mem_map.mp hmem
    have hpurge : key ∈ (s.loop l).toPurge := by
      simp only [hpc, LoopPc.toPurge, hlist.splitOn hp, List.mem_append]
      exact .inl hmem
    exact called fun r' hr' => own_blob h hne hpurge (fun v => hr ▸ (hp r).notKey v) hr'
  | @deleteMarker l u value hpc =>
    exact deleted fun r hr => h.window l u (by rw [hpc]; rfl) r hr
  | @deleteKey l key keys hpc =>
    exact deleted fun r hr => own_blob h hne (by simp [hpc, LoopPc.toPurge])
      (fun v he => hl.purge_ne hp hpc v he.symm) hr

end Step

end

/-- Any set of applications, any number of loops for each, over one bucket without
lists and without blobs of the applications. -/
theorem isolated_of_keptApart [DecidableEq ρ] [DecidableEq ℓ] (json : Json) (app : ℓ → App)
    (spec : ρ → Registration App) (hp : ∀ r, PlainId (spec r).docId)
    (hne : ∀ r, (spec r).docId ≠ []) {kv₀ : Store Text (Doc ρ)}
    (h₀ : ∀ t, get kv₀ (iso8601 t) = none) (hw : ∀ d, (bucketGet kv₀ d).writers = [])
    {s : State ρ ℓ}
    (h : Reach (step json spec) (KeptApart app spec) (.initial kv₀) s) : Isolated app spec s := by
  have hinv : Listed spec s ∧ Apart app spec s ∧ Isolated app spec s := by
    refine h.invariant (I := fun s => Listed spec s ∧ Apart app spec s ∧ Isolated app spec s)
      ⟨listed_initial h₀, apart_initial hw, by simp [Isolated, State.initial]⟩ ?_
    rintro s a t ⟨hl, ha, hi⟩ hok hs
    have hst := step_stepped hs
    exact ⟨listed_step hp hl hst, apart_step hp hl ha hok hst,
      isolated_step hp hl ha hne hi hst⟩
  exact hinv.2.2

/-- One timer of the application `true`; each application has one loop. -/
def loneRegistration (_ : Unit) : Registration Bool :=
  ⟨true, "onExpiry".toList, "a".toList, "1".toList⟩

def registerLone : List (Action Unit Bool) :=
  [.setBlob () 6, .getMarker () true, .addMarker (), .appendId ()]

/-- The loop of the application has deleted the list before the other one polls. -/
def ownLoopFirstRun : List (Action Unit Bool) :=
  registerLone ++ [.poll true 9, .fire true, .leave true, .fire true, .deleteMarker true,
    .deleteKey true, .deleteKey true, .poll false 9, .fire false, .deleteMarker false,
    .deleteKey false]

theorem isolated_ownLoopFirstRun :
    ∃ s : State Unit Bool,
      exec (step compactJson loneRegistration) (KeptApart id loneRegistration) (.initial empty)
        ownLoopFirstRun = some s ∧
      (∃ e ∈ s.log, e matches .called true _ _ _ [()]) ∧ Isolated id loneRegistration s := by
  obtain ⟨s, he, hr, hp⟩ := exec_of_any (step compactJson loneRegistration)
    (KeptApart id loneRegistration) (.initial empty : State Unit Bool) ownLoopFirstRun
    (fun s => ∃ e ∈ s.log, e matches .called true _ _ _ [()]) (by decide)
  have hplain : ∀ r, PlainId (loneRegistration r).docId := by
    intro r
    apply PlainId.of_notMem <;> revert r <;> decide
  exact ⟨s, he, of_decide_eq_true hp,
    isolated_of_keptApart _ _ _ hplain (by decide) (fun _ => rfl) (fun _ => rfl) hr⟩

/-- The loop of the other application polls first. -/
theorem not_isolated_otherLoopFirst :
    ∃ s : State Unit Bool,
      exec (step compactJson loneRegistration) (fun _ _ => True) (.initial empty)
        (registerLone ++ [.poll false 9, .fire false]) = some s ∧
      ¬ Isolated id loneRegistration s := by
  obtain ⟨s, he, -, hp⟩ := exec_of_any (step compactJson loneRegistration) (fun _ _ => True)
    (.initial empty : State Unit Bool) (registerLone ++ [.poll false 9, .fire false])
    (fun s => .called false (newISO8601 9) "a".toList ((loneRegistration ()).blob (newISO8601 9))
      [()] ∈ s.log) (by decide)
  refine ⟨s, he, fun h => ?_⟩
  have happ := h.1 _ _ _ _ _ (of_decide_eq_true hp) () (by simp)
  cases happ

end Eventing.Timer
