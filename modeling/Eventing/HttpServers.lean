import Mathlib.Data.List.Nodup
import Eventing.HttpTables

/-!
# The registry of HTTP servers

`storeAppSetup` closes the listeners that `appHTTPservers` holds for the application, so a
server that the map has lost stays open. When the map holds every open server, over all
sequences of operations.
-/
namespace Eventing.HttpTables
open Transition

variable {s t : Tables} {op : Operation} {a b : Text} {cs : List HttpConfig}

def Tables.openServers (s : Tables) (appName : Text) : List ℕ :=
  (s.started.filter fun x => x.1 = appName ∧ x.2 ∉ s.closed).map Prod.snd

def Operation.app : Operation → Option Text
  | .loadApp appName _ | .performAppHTTPSetup appName _ | .storeAppSetup appName => some appName
  | .quit _ => none

/-- After the operation the registry holds the open servers, for the other applications
nothing changed, and a redeployed application has no open server. -/
def Registered (s : Tables) (op : Operation) (t : Tables) : Prop :=
  (∀ b, (t.appHTTPservers b).getD [] = t.openServers b) ∧
    (∀ b, op.app ≠ some b → t.appHTTPservers b = s.appHTTPservers b) ∧
    match op with
    | .storeAppSetup appName => t.openServers appName = []
    | _ => True

/-- An application without an entry starts servers only while no application has one. -/
def MapKept (s : Tables) : Operation → Prop
  | .performAppHTTPSetup appName cs =>
      cs = [] ∨ s.appHTTPservers appName ≠ none ∨ ∀ b, s.appHTTPservers b = none
  | _ => True

structure Complete (s : Tables) : Prop where
  servers : ∀ b, (s.appHTTPservers b).getD [] = s.openServers b
  numbered : s.started.map Prod.snd = List.range s.started.length
  closed_lt : ∀ n ∈ s.closed, n < s.started.length

lemma Complete.initial : Complete .initial :=
  ⟨fun _ => rfl, rfl, fun n hn => by simp [Tables.initial] at hn⟩

lemma Complete.mem_unique (h : Complete s) {x y : Text × ℕ} (hx : x ∈ s.started)
    (hy : y ∈ s.started) (hxy : x.2 = y.2) : x = y := by
  have hnodup : (s.started.map Prod.snd).Nodup := h.numbered ▸ List.nodup_range
  exact List.inj_on_of_nodup_map hnodup hx hy hxy

lemma Complete.openServers_startServer (h : Complete s) : (s.startServer a).openServers b =
    s.openServers b ++ if b = a then [s.started.length] else [] := by
  have hnew : s.started.length ∉ s.closed := fun hm => Nat.lt_irrefl _ (h.closed_lt _ hm)
  have hone : ([(a, s.started.length)].filter fun x => decide (x.1 = b ∧ x.2 ∉ s.closed)).map
      Prod.snd = if b = a then [s.started.length] else [] := by
    by_cases hb : b = a
    · simp [hb, hnew]
    · simp [hb, Ne.symm hb]
  simp only [Tables.openServers, Tables.startServer, List.filter_append, List.map_append]
  exact congrArg (List.append _) hone

lemma startServer_of_ne (ha : s.appHTTPservers a ≠ none) (hb : b ≠ a) :
    (s.startServer a).appHTTPservers b = s.appHTTPservers b := by
  obtain ⟨servers, hs⟩ := Option.ne_none_iff_exists'.mp ha
  simp [Tables.startServer, hs, hb]

lemma startServer_of_none (ha : s.appHTTPservers a = none) (hb : b ≠ a) :
    (s.startServer a).appHTTPservers b = none := by
  simp [Tables.startServer, ha, hb]

lemma startServer_self : (s.startServer a).appHTTPservers a =
    some ((s.appHTTPservers a).getD [] ++ [s.started.length]) := by
  cases h : s.appHTTPservers a <;> simp [Tables.startServer, h]

lemma Complete.startServer (h : Complete s)
    (ha : s.appHTTPservers a ≠ none ∨ ∀ b, s.appHTTPservers b = none) :
    Complete (s.startServer a) := by
  refine ⟨fun b => ?_, ?_, fun n hn => ?_⟩
  · rw [h.openServers_startServer]
    by_cases hb : b = a
    · subst hb
      rw [startServer_self, Option.getD_some, h.servers, if_pos rfl]
    · rw [if_neg hb, List.append_nil, ← h.servers]
      rcases ha with ha | ha
      · rw [startServer_of_ne ha hb]
      · rw [startServer_of_none (ha a) hb, ha b]
  · simp [Tables.startServer, h.numbered, List.range_succ]
  · have := h.closed_lt n hn
    simp only [Tables.startServer, List.length_append, List.length_singleton]
    omega

lemma Complete.enterPrefix {path : Text} (h : Complete s) : Complete (s.enterPrefix a path) :=
  ⟨h.servers, h.numbered, h.closed_lt⟩

lemma performAppHTTPSetup_cons {c : HttpConfig}
    (hs : s.performAppHTTPSetup a (c :: cs) = some t) :
    ∃ path, ((s.startServer a).enterPrefix a path).performAppHTTPSetup a cs = some t := by
  rw [Tables.performAppHTTPSetup] at hs
  cases hc : c.path with
  | none => simp [hc] at hs
  | some path =>
    rw [hc] at hs
    exact ⟨path, hs⟩

lemma startServer_ne_none : (s.startServer a).appHTTPservers a ≠ none := by simp [startServer_self]

/-- Once the application has an entry, its further servers are appended to it. -/
lemma performAppHTTPSetup_of_ne (ha : s.appHTTPservers a ≠ none)
    (hs : s.performAppHTTPSetup a cs = some t) (hb : b ≠ a) :
    t.appHTTPservers b = s.appHTTPservers b := by
  induction cs generalizing s with
  | nil =>
    simp only [Tables.performAppHTTPSetup, Option.some.injEq] at hs
    rw [hs]
  | cons c cs ih =>
    obtain ⟨path, hs⟩ := performAppHTTPSetup_cons hs
    calc t.appHTTPservers b
        = ((s.startServer a).enterPrefix a path).appHTTPservers b := ih startServer_ne_none hs
      _ = s.appHTTPservers b := startServer_of_ne ha hb

/-- The first server decides what becomes of the other applications' entries. -/
lemma performAppHTTPSetup_cons_of_ne {c : HttpConfig}
    (hs : s.performAppHTTPSetup a (c :: cs) = some t) (hb : b ≠ a) :
    t.appHTTPservers b = (s.startServer a).appHTTPservers b := by
  obtain ⟨path, hs⟩ := performAppHTTPSetup_cons hs
  exact performAppHTTPSetup_of_ne (s := (s.startServer a).enterPrefix a path) startServer_ne_none hs hb

lemma Complete.performAppHTTPSetup (h : Complete s)
    (ha : s.appHTTPservers a ≠ none ∨ ∀ b, s.appHTTPservers b = none)
    (hs : s.performAppHTTPSetup a cs = some t) : Complete t := by
  induction cs generalizing s with
  | nil =>
    simp only [Tables.performAppHTTPSetup, Option.some.injEq] at hs
    exact hs ▸ h
  | cons c cs ih =>
    obtain ⟨path, hs⟩ := performAppHTTPSetup_cons hs
    exact ih (h.startServer ha).enterPrefix (.inl startServer_ne_none) hs

lemma Complete.openServers_storeAppSetup (h : Complete s) :
    (s.storeAppSetup a).openServers b = if b = a then [] else s.openServers b := by
  have hclosed : (s.storeAppSetup a).closed = s.closed ++ s.openServers a := by
    rw [Tables.storeAppSetup, h.servers a]
  by_cases hb : b = a
  · subst hb
    rw [if_pos rfl, Tables.openServers, List.map_eq_nil_iff, List.filter_eq_nil_iff]
    intro x hx hopen
    rw [decide_eq_true_eq, hclosed, List.mem_append, not_or] at hopen
    refine hopen.2.2 (List.mem_map_of_mem (List.mem_filter.mpr ⟨hx, ?_⟩))
    exact decide_eq_true ⟨hopen.1, hopen.2.1⟩
  · rw [if_neg hb, Tables.openServers, Tables.openServers]
    congr 1
    apply List.filter_congr
    intro x hx
    -- A server of `b` is none of those that are closed for `a`.
    have hother : x.1 = b → x.2 ∉ s.openServers a := by
      intro hxb hm
      obtain ⟨y, hy, hyx⟩ := List.mem_map.mp hm
      obtain ⟨hys, hopen⟩ := List.mem_filter.mp hy
      rw [h.mem_unique hys hx hyx, decide_eq_true_eq] at hopen
      exact hb (hxb.symm.trans hopen.1)
    rw [hclosed, decide_eq_decide, List.mem_append, not_or]
    constructor
    · exact fun hx' => ⟨hx'.1, hx'.2.1⟩
    · exact fun hx' => ⟨hx'.1, hx'.2, hother hx'.1⟩

lemma Complete.storeAppSetup (h : Complete s) : Complete (s.storeAppSetup a) := by
  refine ⟨fun b => ?_, h.numbered, fun n hn => ?_⟩
  · rw [h.openServers_storeAppSetup]
    by_cases hb : b = a
    · simp [Tables.storeAppSetup, hb]
    · simp [Tables.storeAppSetup, hb, h.servers]
  · rcases List.mem_append.mp hn with hn | hn
    · exact h.closed_lt n hn
    · rw [h.servers, Tables.openServers] at hn
      have hm : n ∈ s.started.map Prod.snd := by
        obtain ⟨x, hx, rfl⟩ := List.mem_map.mp hn
        exact List.mem_map_of_mem (List.mem_filter.mp hx).1
      rw [h.numbered] at hm
      exact List.mem_range.mp hm

theorem Complete.step (h : Complete s) (hok : MapKept s op) (hs : step s op = some t) :
    Complete t ∧ Registered s op t := by
  cases op with
  | loadApp a cs =>
    rw [HttpTables.step, Option.some.injEq] at hs
    subst hs
    exact ⟨⟨h.servers, h.numbered, h.closed_lt⟩, h.servers, fun _ _ => rfl, trivial⟩
  | performAppHTTPSetup a cs =>
    cases cs with
    | nil =>
      simp only [HttpTables.step, Tables.performAppHTTPSetup, Option.some.injEq] at hs
      subst hs
      exact ⟨h, h.servers, fun _ _ => rfl, trivial⟩
    | cons c cs =>
      have hkept := hok.resolve_left (List.cons_ne_nil c cs)
      have ht := h.performAppHTTPSetup hkept hs
      refine ⟨ht, ht.servers, fun b hb => ?_, trivial⟩
      have hne : b ≠ a := fun he => hb (by rw [he]; rfl)
      rw [performAppHTTPSetup_cons_of_ne hs hne]
      rcases hkept with hkept | hkept
      · exact startServer_of_ne hkept hne
      · rw [startServer_of_none (hkept a) hne, hkept b]
  | storeAppSetup a =>
    rw [HttpTables.step, Option.some.injEq] at hs
    subst hs
    have ht := h.storeAppSetup (a := a)
    refine ⟨ht, ht.servers, fun b hb => ?_, ?_⟩
    · have hne : b ≠ a := fun he => hb (by rw [he]; rfl)
      simp [Tables.storeAppSetup, hne]
    · exact h.openServers_storeAppSetup.trans (if_pos rfl)
  | quit w =>
    rw [HttpTables.step, Option.some.injEq] at hs
    subst hs
    exact ⟨⟨h.servers, h.numbered, h.closed_lt⟩, h.servers, fun _ _ => rfl, trivial⟩

/-- Where the condition fails, an entry of another application is lost. -/
theorem mapKept_of_registered (hs : step s op = some t) (hr : Registered s op t) :
    MapKept s op := by
  cases op with
  | performAppHTTPSetup a cs =>
    cases cs with
    | nil => exact .inl rfl
    | cons c cs =>
      right
      by_contra hno
      rw [not_or, not_not, not_forall] at hno
      obtain ⟨ha, b, hb⟩ := hno
      have hne : b ≠ a := fun he => hb (he ▸ ha)
      have hkept : t.appHTTPservers b = s.appHTTPservers b :=
        hr.2.1 b fun he => hne (Option.some.inj he).symm
      rw [performAppHTTPSetup_cons_of_ne hs hne, startServer_of_none ha hne] at hkept
      exact hb hkept.symm
  | loadApp _ _ | storeAppSetup _ | quit _ => trivial

/-- Over every sequence of operations, the registry holds the open servers of every
application exactly when no map with entries is replaced. -/
theorem registered_along_iff (ops : List Operation) :
    Along step Registered .initial ops ↔ Along step (fun s op _ => MapKept s op) .initial ops := by
  refine along_iff Complete.initial (fun s op t h hs => ?_) (fun s op t h hs hr => ?_) ops
  · exact ⟨mapKept_of_registered hs, fun hok => (h.step hok hs).2⟩
  · exact (h.step (mapKept_of_registered hs hr) hs).1

/-- The second application's first server makes a new map, and the first application's
server is open and not in it. -/
theorem not_registered_twoApps : ¬ Along step Registered .initial
    [.performAppHTTPSetup ['a'] [⟨['8'], ['/', 'a', '/']⟩],
      .performAppHTTPSetup ['b'] [⟨['9'], ['/', 'b', '/']⟩]] := by
  intro h
  have hlost := ((h _ rfl).2 _ rfl).1.1 ['a']
  exact absurd hlost (by decide)

end Eventing.HttpTables
