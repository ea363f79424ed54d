import Mathlib.Data.List.Perm.Subperm
import Eventing.TimerLists

/-!
# At most one callback for each append

One loop, any number of registrations. A tick works through what it read while
registrations keep appending to the list, and then deletes the list as it is by
that time. For each second, the calls made, the ids that the tick still has to
fire and the ids appended since it read the list are together at most the appends.
-/
namespace Eventing.Timer
open KvStore Timestamp Delimited Transition

variable {App ρ ℓ : Type*}

def callbacksOf (d : Text) (log : List (Event ρ ℓ)) : List Second :=
  log.filterMap fun
    | .called _ t key _ _ => if key = d then some t else none
    | _ => none

def appendsOf (spec : ρ → Registration App) (d : Text) (log : List (Event ρ ℓ)) : List Second :=
  log.filterMap fun
    | .appended r t success => if (spec r).docId = d ∧ success then some t else none
    | _ => none

/-- The ids in the list of `T` that no tick has read. -/
def LoopPc.unread (T : Second) (marker : List ρ) : LoopPc ρ → List ρ
  | .firing t value _ | .inCallback t value _ | .fired t value =>
      if t = T then marker.drop value.writers.length else marker
  | .select | .purging _ | .closed => marker
  | .aborted => []

/-- The ids that the tick of `T` is still to fire. -/
def LoopPc.due (T : Second) : LoopPc ρ → List Text
  | .firing t _ keys | .inCallback t _ keys => if t = T then keys else []
  | .fired _ _ | .select | .purging _ | .closed | .aborted => []

/-- The list of the second being polled has not become shorter. -/
def LoopPc.Grown (T : Second) (marker : List ρ) : LoopPc ρ → Prop
  | .firing t value _ | .inCallback t value _ | .fired t value =>
      t = T → value.writers.length ≤ marker.length
  | .select | .purging _ | .closed | .aborted => True

structure Budget (spec : ρ → Registration App) (d : Text) (T : Second) (s : State ρ Unit) :
    Prop where
  grown : (s.loop ()).Grown T (s.marker T)
  calls : (callbacksOf d s.log).count T + ((s.loop ()).due T).count d +
    ((s.loop ()).unread T (s.marker T)).countP (fun r => (spec r).docId = d) ≤
      (appendsOf spec d s.log).count T

variable {json : Json} {spec : ρ → Registration App} {d : Text} {T : Second}

section Log
variable {log log' : List (Event ρ ℓ)} {l : ℓ} {r : ρ} {u : Second} {success : Bool} {key : Text}
  {b : Blob} {writers : List ρ}

@[simp] lemma callbacksOf_append :
    callbacksOf d (log ++ log') = callbacksOf d log ++ callbacksOf d log' :=
  List.filterMap_append

@[simp] lemma appendsOf_append :
    appendsOf spec d (log ++ log') = appendsOf spec d log ++ appendsOf spec d log' :=
  List.filterMap_append

@[simp] lemma callbacksOf_called :
    callbacksOf d [.called l u key b writers] = if key = d then [u] else [] := by
  by_cases h : key = d <;> simp [callbacksOf, h]

@[simp] lemma appendsOf_appended :
    appendsOf spec d [(.appended r u success : Event ρ ℓ)] =
      if (spec r).docId = d ∧ success then [u] else [] := by
  by_cases h : (spec r).docId = d ∧ success <;> simp [appendsOf, h]

end Log

lemma LoopPc.grown_concat {pc : LoopPc ρ} {marker : List ρ} (h : pc.Grown T marker) (r : ρ) :
    pc.Grown T (marker ++ [r]) := by
  cases pc <;> simp only [LoopPc.Grown, List.length_append, List.length_singleton] at *
  all_goals
    intro ht
    have := h ht
    omega

lemma LoopPc.unread_concat {pc : LoopPc ρ} {marker : List ρ} (h : pc.Grown T marker) (r : ρ)
    (p : ρ → Bool) :
    (pc.unread T (marker ++ [r])).countP p ≤ (pc.unread T marker).countP p + [r].countP p := by
  cases pc <;> simp only [LoopPc.Grown, LoopPc.unread] at *
  case aborted => simp
  case select | purging _ | closed => rw [List.countP_append]
  case firing t value _ | inCallback t value _ | fired t value =>
    split_ifs with ht
    · rw [List.drop_append_of_le_length (h ht), List.countP_append]
    · rw [List.countP_append]

lemma budget_initial {kv₀ : Store Text (Doc ρ)} (h : get kv₀ (iso8601 T) = none) :
    Budget spec d T (State.initial kv₀ : State ρ Unit) := by
  constructor <;> simp [State.initial, State.marker, bucketGet, getOr, h, Doc.blank, LoopPc.Grown,
    LoopPc.due, LoopPc.unread, callbacksOf, appendsOf]

variable {s t : State ρ Unit} {a : Action ρ Unit}

theorem Budget.keep (h : Budget spec d T s) (hloop : t.loop = s.loop)
    (hm : t.marker T = s.marker T) (hc : callbacksOf d t.log = callbacksOf d s.log)
    (ha : (appendsOf spec d t.log).count T = (appendsOf spec d s.log).count T) :
    Budget spec d T t := by
  refine ⟨?_, ?_⟩
  · rw [hloop, hm]
    exact h.grown
  · rw [hloop, hm, hc, ha]
    exact h.calls

lemma budget_appendId [DecidableEq ρ] (h : Budget spec d T s) {r : ρ} {u : Second} :
    Budget spec d T { s with
      kv := append s.kv (iso8601 u) ⟨(spec r).docId ++ [';'], [r]⟩
      reg := Function.update s.reg r .returned
      log := s.log ++ [.appended r u (get s.kv (iso8601 u)).isSome] } := by
  by_cases hu : u = T
  · subst hu
    cases hm : get s.kv (iso8601 u) with
    | none =>
      refine h.keep rfl ?_ (by simp [callbacksOf]) (by simp)
      simp [State.marker, bucketGet, getOr, hm]
    | some doc =>
      have hmk : s.marker u = doc.writers := by simp [State.marker, bucketGet, getOr, hm]
      have hg := h.grown
      have hc := h.calls
      have hu := LoopPc.unread_concat hg r fun r => (spec r).docId = d
      rw [hmk] at hg hc hu
      refine ⟨?_, ?_⟩
      · simpa [State.marker, bucketGet, getOr, hm] using LoopPc.grown_concat hg r
      · have hone : [r].countP (fun r => (spec r).docId = d) =
            (if (spec r).docId = d then [u] else []).count u := by
          by_cases hd : (spec r).docId = d <;> simp [hd]
        have hlog : callbacksOf d (s.log ++ [.appended r u true]) = callbacksOf d s.log := by
          simp [callbacksOf]
        simp only [State.marker, bucketGet, getOr, hm, get_append_self, Option.map_some,
          Option.getD_some, Doc.append_writers, Option.isSome_some, appendsOf_append,
          appendsOf_appended, and_true, List.count_append, hlog]
        omega
  · have hne : iso8601 T ≠ iso8601 u := fun he => hu (iso8601_injective he).symm
    refine h.keep rfl ?_ (by simp [callbacksOf]) ?_
    · simp [State.marker, bucketGet_append_of_ne hne]
    · by_cases hd : (spec r).docId = d ∧ (get s.kv (iso8601 u)).isSome <;> simp [hd, hu]

theorem Budget.turn (h : Budget spec d T s) {pc : LoopPc ρ} {kv : Store Text (Doc ρ)}
    {log : List (Event ρ Unit)} (hm : (bucketGet kv (iso8601 T)).writers = s.marker T)
    (hg : pc.Grown T (s.marker T))
    (hc : (callbacksOf d log).count T + (pc.due T).count d +
        (pc.unread T (s.marker T)).countP (fun r => (spec r).docId = d) ≤
      (callbacksOf d s.log).count T + ((s.loop ()).due T).count d +
        ((s.loop ()).unread T (s.marker T)).countP (fun r => (spec r).docId = d))
    (ha : appendsOf spec d log = appendsOf spec d s.log) :
    Budget spec d T { s with kv := kv, loop := Function.update s.loop () pc, log := log } := by
  have hc' := h.calls
  refine ⟨?_, ?_⟩
  · simpa [State.marker, hm] using hg
  · simp only [State.marker, hm, Function.update_self, ha]
    exact hc.trans hc'

/-- The tick takes over the ids in the list. -/
theorem budget_poll (hp : ∀ r, PlainId (spec r).docId) (hl : Listed spec s)
    (h : Budget spec d T s) {u : Second} {value : Doc ρ} (hpc : s.loop () = .select)
    (hv : value = bucketGet s.kv (iso8601 u)) :
    Budget spec d T { s with
      loop := Function.update s.loop () (.firing u value (splitKeys value.text))
      log := s.log ++ [.polled () u] } := by
  have hlog : callbacksOf d (s.log ++ [.polled () u]) = callbacksOf d s.log := by
    simp [callbacksOf]
  have happ : appendsOf spec d (s.log ++ [.polled () u]) = appendsOf spec d s.log := by
    simp [appendsOf]
  by_cases hu : u = T
  · subst hu
    have hw : value.writers = s.marker u := by rw [hv]; rfl
    have hlist : value.Lists spec := hv ▸ hl.bucketGet u
    refine h.turn rfl (fun _ => by rw [hw]) ?_ happ
    have hcount : ((s.marker u).map fun r => (spec r).docId).count d =
        (s.marker u).countP fun r => (spec r).docId = d := by
      rw [List.count, List.countP_map]
      apply List.countP_congr
      simp
    simp [hpc, hlog, LoopPc.due, LoopPc.unread, hlist.splitKeys hp, hw, hcount]
  · refine h.turn rfl (fun he => absurd he hu) ?_ happ
    simp [hpc, hlog, LoopPc.due, LoopPc.unread, hu]

theorem budget_fireCall (h : Budget spec d T s) {u : Second} {value : Doc ρ} {key : Text}
    {keys : List Text} {b : Blob} {writers : List ρ}
    (hpc : s.loop () = .firing u value (key :: keys)) :
    Budget spec d T { s with
      loop := Function.update s.loop () (.inCallback u value keys)
      log := s.log ++ [.called () u key b writers] } := by
  have hg := h.grown
  rw [hpc] at hg
  refine h.turn rfl hg ?_ (by simp [appendsOf])
  by_cases hu : u = T
  · by_cases hk : key = d <;> simp [hpc, LoopPc.due, LoopPc.unread, hu, hk]
    omega
  · by_cases hk : key = d <;> simp [hpc, LoopPc.due, LoopPc.unread, hu, hk]

/-- The ids appended since the list was read go with it. -/
theorem budget_deleteMarker (h : Budget spec d T s) {u : Second} {value : Doc ρ}
    {writers : List ρ} (hpc : s.loop () = .fired u value) :
    Budget spec d T { s with
      kv := delete s.kv (iso8601 u)
      loop := Function.update s.loop () (.purging (value.text.splitOn ';'))
      log := s.log ++ [.deleted () (iso8601 u) writers] } := by
  by_cases hu : u = T
  · subst hu
    have hc := h.calls
    refine ⟨by simp [LoopPc.Grown], ?_⟩
    simp only [State.marker, bucketGet_delete_self, Doc.blank, Function.update_self, LoopPc.due,
      LoopPc.unread, callbacksOf_append, appendsOf_append, List.count_append, List.count_nil,
      List.countP_nil]
    simp only [callbacksOf, appendsOf, List.filterMap_cons_none, List.filterMap_nil,
      List.count_nil] at *
    omega
  · have hne : iso8601 T ≠ iso8601 u := fun he => hu (iso8601_injective he).symm
    refine h.turn (by rw [bucketGet_delete_of_ne hne]; rfl) trivial ?_ (by simp [appendsOf])
    simp [hpc, LoopPc.due, LoopPc.unread, hu, callbacksOf]

lemma budget_step [DecidableEq ρ] (hp : ∀ r, PlainId (spec r).docId) (hl : Listed spec s)
    (h : Budget spec d T s) (hs : Stepped json spec s a t) : Budget spec d T t := by
  have hg := h.grown
  cases hs with
  | skip _ _ => exact h.keep rfl rfl rfl rfl
  | @setBlob r _ _ _ _ _ =>
    refine h.keep rfl ?_ rfl rfl
    simp [State.marker, bucketGet_set_of_ne (Ne.symm ((hp r).notKey T))]
  | found _ _ => exact h.keep rfl rfl rfl rfl
  | missing _ => exact h.keep rfl rfl rfl rfl
  | addMarker _ => exact h.keep rfl (by simp [State.marker]) rfl rfl
  | appendId _ => exact budget_appendId h
  | poll hpc _ hv => exact budget_poll hp hl h hpc hv
  | fireEnd hpc | fireError hpc _ =>
    rw [hpc] at hg
    refine h.turn rfl hg ?_ rfl
    simp [hpc, LoopPc.due, LoopPc.unread]
  | fireAbort hpc _ =>
    refine h.turn rfl trivial ?_ rfl
    simp [LoopPc.due, LoopPc.unread]
    omega
  | fireCall hpc _ => exact budget_fireCall h hpc
  | leave hpc =>
    rw [hpc] at hg
    refine h.turn rfl hg ?_ rfl
    simp [hpc, LoopPc.due, LoopPc.unread]
  | deleteMarker hpc => exact budget_deleteMarker h hpc
  | deleteKey hpc =>
    refine h.turn (by rw [bucketGet_delete_of_ne (hl.purge_ne hp hpc T)]; rfl) trivial ?_
      (by simp [appendsOf])
    simp [hpc, LoopPc.due, LoopPc.unread, callbacksOf]
  | purged hpc | close hpc =>
    refine h.turn rfl trivial ?_ rfl
    simp [hpc, LoopPc.due, LoopPc.unread]

/-- In every state of every run that starts without lists. -/
theorem callbacks_le_appends [DecidableEq ρ] (json : Json) (spec : ρ → Registration App)
    (hp : ∀ r, PlainId (spec r).docId) {kv₀ : Store Text (Doc ρ)}
    (h₀ : ∀ t, get kv₀ (iso8601 t) = none) {s : State ρ Unit}
    (h : Reachable (step json spec) (.initial kv₀) s) (d : Text) :
    (callbacksOf d s.log).length ≤ (appendsOf spec d s.log).length := by
  have hinv : Listed spec s ∧ ∀ T, Budget spec d T s := by
    refine h.invariant (I := fun s => Listed spec s ∧ ∀ T, Budget spec d T s)
      ⟨listed_initial h₀, fun T => budget_initial (h₀ T)⟩ ?_
    intro s a t hi _ hs
    have hst := step_stepped hs
    exact ⟨listed_step hp hi.1 hst, fun T => budget_step hp hi.1 (hi.2 T) hst⟩
  have hsub : (callbacksOf d s.log).Subperm (appendsOf spec d s.log) := by
    rw [List.subperm_iff_count]
    intro T
    have hc := (hinv.2 T).calls
    omega
  exact hsub.length_le

/-- A callback that registers the same document again, for the second that is being
polled, and is not called again. -/
def registerAgainRun : List (Action Bool Unit) :=
  [.setBlob true 0, .getMarker true true, .addMarker true, .appendId true, .poll () 7, .fire (),
    .setBlob false 0, .getMarker false true, .appendId false, .leave (), .fire (),
    .deleteMarker (), .deleteKey (), .deleteKey (), .deleteKey (), .poll () 7, .fire (),
    .deleteMarker (), .deleteKey (), .deleteKey ()]

def sameRegistration (_ : Bool) : Registration Unit :=
  ⟨(), "onExpiry".toList, "a".toList, "5".toList⟩

theorem callbacks_le_appends_registerAgainRun :
    ∃ s : State Bool Unit,
      exec (step compactJson sameRegistration) (fun _ _ => True) (.initial empty)
        registerAgainRun = some s ∧
      callbacksOf "a".toList s.log = [expiry 0 "5".toList] ∧
      (appendsOf sameRegistration "a".toList s.log).length = 2 ∧
      (callbacksOf "a".toList s.log).length ≤
        (appendsOf sameRegistration "a".toList s.log).length := by
  obtain ⟨s, he, hr, hp⟩ := exec_of_any (step compactJson sameRegistration) (fun _ _ => True)
    (.initial empty : State Bool Unit) registerAgainRun
    (fun s => callbacksOf "a".toList s.log = [expiry 0 "5".toList] ∧
      (appendsOf sameRegistration "a".toList s.log).length = 2) (by decide)
  have hcount := of_decide_eq_true hp
  have hplain : ∀ r, PlainId (sameRegistration r).docId := by
    intro r
    apply PlainId.of_notMem <;> revert r <;> decide
  exact ⟨s, he, hcount.1, hcount.2, callbacks_le_appends _ _ hplain (fun _ => rfl) hr _⟩

end Eventing.Timer
