import Eventing.TimerFires

/-!
# A registration that races with the tick of its second

The tick reads the list of a second, and deletes it some time later without
looking at it again; a registration looks whether the list exists, and appends
some time later without looking at the result. An id that is appended between the
two operations of the tick, or to a list that is gone, is lost. No other order of
the operations loses one.
-/
namespace Eventing.Timer
open KvStore Timestamp Delimited Transition

variable {App ρ ℓ : Type*}

def HasBlob (json : Json) (kv : Store Text (Doc ρ)) (d : Text) : Prop :=
  ∃ b, json.parse (bucketGet kv d).text = .timer b ∧ b.docId = d

def calledKey : Event ρ ℓ → Option Text
  | .called _ _ key _ _ => some key
  | .appended _ _ _ | .polled _ _ | .deleted _ _ _ => none

def calledKeys (log : List (Event ρ ℓ)) : List Text := log.filterMap calledKey

def LoopPc.toFire : LoopPc ρ → List Text
  | .firing _ _ keys | .inCallback _ _ keys => keys
  | .select | .fired _ _ | .purging _ | .aborted | .closed => []

/-- The ids that the tick has fired or is still to fire. -/
def State.taken (s : State ρ Unit) : List Text := calledKeys s.log ++ (s.loop ()).toFire

/-- The parties of the race: registrations for `T` and one tick, which polls `T`. -/
def Racing (spec : ρ → Registration App) (T : Second) (s : State ρ Unit) : Action ρ Unit → Prop
  | .setBlob r now => expiry now (spec r).startTs = T
  | .poll _ now => newISO8601 now = T ∧ T ∉ polledSeconds s.log
  | _ => True

/-- The ids are listable ones, and an id is appended to a list that is there and
that the tick is not about to delete, unless the tick has taken the id already. -/
def AppendInTime (spec : ρ → Registration App) (T : Second) (s : State ρ Unit) :
    Action ρ Unit → Prop
  | .setBlob r _ => ';' ∉ (spec r).docId ∧ (spec r).docId ≠ iso8601 T ∧ (spec r).docId ≠ []
  | .appendId r => ((get s.kv (iso8601 T)).isSome ∧ (s.loop ()).polling ≠ some T) ∨
      (spec r).docId ∈ s.taken
  | _ => True

instance (spec : ρ → Registration App) (T : Second) (s : State ρ Unit) :
    DecidablePred (Racing spec T s)
  | .setBlob r now => inferInstanceAs (Decidable (expiry now (spec r).startTs = T))
  | .poll _ now => inferInstanceAs (Decidable (newISO8601 now = T ∧ T ∉ polledSeconds s.log))
  | .getMarker _ _ | .addMarker _ | .appendId _ | .fire _ | .leave _ | .deleteMarker _
  | .deleteKey _ | .close _ => isTrue trivial

instance (spec : ρ → Registration App) (T : Second) (s : State ρ Unit) :
    DecidablePred (AppendInTime spec T s)
  | .setBlob r _ => inferInstanceAs (Decidable
      (';' ∉ (spec r).docId ∧ (spec r).docId ≠ iso8601 T ∧ (spec r).docId ≠ []))
  | .appendId r => inferInstanceAs (Decidable
      (((get s.kv (iso8601 T)).isSome ∧ (s.loop ()).polling ≠ some T) ∨
        (spec r).docId ∈ s.taken))
  | .poll _ _ | .getMarker _ _ | .addMarker _ | .fire _ | .leave _ | .deleteMarker _
  | .deleteKey _ | .close _ => isTrue trivial

/-- The list of `T` is a list of ids, each with its blob. -/
def ListsBlobs (json : Json) (T : Second) (kv : Store Text (Doc ρ)) : Prop :=
  ∃ items, (bucketGet kv (iso8601 T)).text = terminated ';' items ∧
    ∀ d ∈ items, (';' ∉ d ∧ '\x00' ∉ d) ∧ d ≠ iso8601 T ∧ HasBlob json kv d

/-- After the tick, a completed registration was called or is still stored. -/
def NotLost (json : Json) (spec : ρ → Registration App) (T : Second) (s : State ρ Unit) : Prop :=
  T ∈ polledSeconds s.log → s.loop () = .select → ∀ r ∈ appendedTo T s.log,
    (spec r).docId ∈ calledKeys s.log ∨
    (HasBlob json s.kv (spec r).docId ∧
      (spec r).docId ∈ getlines ';' (bucketGet s.kv (iso8601 T)).text)

def State.items (s : State ρ ℓ) (T : Second) : List Text :=
  getlines ';' (bucketGet s.kv (iso8601 T)).text

structure Race (json : Json) (spec : ρ → Registration App) (T : Second) (s : State ρ Unit) :
    Prop where
  due : ∀ r u, (s.reg r).due = some u → u = T
  polling : ∀ u, (s.loop ()).polling = some u → u = T
  list : (bucketGet s.kv (iso8601 T)).text = terminated ';' (s.items T)
  nulFree : ∀ d ∈ s.items T, '\x00' ∉ d
  plain : ∀ d, d ∈ s.items T ∨ d ∈ s.taken → ';' ∉ d ∧ d ≠ iso8601 T
  early : T ∉ polledSeconds s.log → s.taken = [] ∧ (s.loop ()).toPurge = [] ∧
    ∀ d ∈ s.items T, HasBlob json s.kv d
  ids : ∀ r, ((s.reg r).due ≠ none ∨ r ∈ appendedTo T s.log) →
    (';' ∉ (spec r).docId ∧ (spec r).docId ≠ iso8601 T ∧ (spec r).docId ≠ []) ∧
      (HasBlob json s.kv (spec r).docId ∨ (spec r).docId ∈ s.taken)
  firing : ∀ d ∈ (s.loop ()).toFire, HasBlob json s.kv d
  purging : ∀ d ∈ (s.loop ()).toPurge, d = [] ∨ d ∈ s.taken
  listed : ∀ r ∈ appendedTo T s.log, (spec r).docId ∈ s.taken ∨
    ((s.loop ()).polling = none ∧ (spec r).docId ∈ s.items T)

section Log
variable {log : List (Event ρ ℓ)} {e : Event ρ ℓ}

lemma calledKeys_concat : calledKeys (log ++ [e]) = calledKeys log ++ (calledKey e).toList := by
  rw [calledKeys, List.filterMap_append]
  cases he : calledKey e <;> simp [calledKeys, he]

end Log

variable {json : Json} {spec : ρ → Registration App} {T : Second} {kv kv' : Store Text (Doc ρ)}
  {s t : State ρ Unit} {a : Action ρ Unit}

lemma HasBlob.congr {d : Text} (h : HasBlob json kv d) (hd : bucketGet kv' d = bucketGet kv d) :
    HasBlob json kv' d := by
  unfold HasBlob
  rwa [hd]

lemma hasBlob_set_self (r : ρ) (u : Second) :
    HasBlob json (set kv (spec r).docId ⟨json.write ((spec r).blob u), [r]⟩) (spec r).docId :=
  ⟨(spec r).blob u, by
    rw [bucketGet_set_self]
    exact json.parse_write _ ((spec r).blob_nulFree u), rfl⟩

lemma HasBlob.set {d : Text} (h : HasBlob json kv d) (r : ρ) (u : Second) :
    HasBlob json (set kv (spec r).docId ⟨json.write ((spec r).blob u), [r]⟩) d := by
  by_cases hd : d = (spec r).docId
  · rw [hd]
    exact hasBlob_set_self r u
  · exact h.congr (bucketGet_set_of_ne hd)

lemma race_initial {kv₀ : Store Text (Doc ρ)} (h₀ : ListsBlobs json T kv₀) :
    Race json spec T (State.initial kv₀) := by
  obtain ⟨items, htext, hitems⟩ := h₀
  have hget : (State.initial kv₀ : State ρ Unit).items T = items := by
    simp only [State.items, State.initial, htext]
    exact getlines_terminated fun d hd => (hitems d hd).1.1
  constructor
  case list => rw [hget, ← htext]; rfl
  case nulFree => rw [hget]; exact fun d hd => (hitems d hd).1.2
  case plain =>
    intro d hd
    rw [hget] at hd
    rcases hd with hd | hd
    · exact ⟨(hitems d hd).1.1, (hitems d hd).2.1⟩
    · simp [State.taken, State.initial, calledKeys, LoopPc.toFire] at hd
  case early =>
    intro _
    rw [hget]
    exact ⟨rfl, rfl, fun d hd => (hitems d hd).2.2⟩
  all_goals simp [State.initial, RegPc.due, LoopPc.polling, LoopPc.toFire, LoopPc.toPurge,
    appendedTo]

theorem Race.advance (h : Race json spec T s) (hloop : t.loop = s.loop) (hlog : t.log = s.log)
    (hlist : bucketGet t.kv (iso8601 T) = bucketGet s.kv (iso8601 T))
    (hblob : ∀ d, HasBlob json s.kv d → HasBlob json t.kv d)
    (hdue : ∀ r u, (t.reg r).due = some u → u = T)
    (hids : ∀ r, (t.reg r).due ≠ none → (s.reg r).due ≠ none ∨
      (';' ∉ (spec r).docId ∧ (spec r).docId ≠ iso8601 T ∧ (spec r).docId ≠ []) ∧
        HasBlob json t.kv (spec r).docId) : Race json spec T t := by
  have hitems : t.items T = s.items T := by rw [State.items, hlist]; rfl
  have htaken : t.taken = s.taken := by rw [State.taken, hloop, hlog]; rfl
  have hold : ∀ r, ((s.reg r).due ≠ none ∨ r ∈ appendedTo T s.log) →
      (';' ∉ (spec r).docId ∧ (spec r).docId ≠ iso8601 T ∧ (spec r).docId ≠ []) ∧
        (HasBlob json t.kv (spec r).docId ∨ (spec r).docId ∈ s.taken) :=
    fun r hr => ⟨(h.ids r hr).1, (h.ids r hr).2.imp (hblob _) id⟩
  constructor
  case due => exact hdue
  case polling => rw [hloop]; exact h.polling
  case list => rw [hlist, hitems]; exact h.list
  case nulFree => rw [hitems]; exact h.nulFree
  case plain => rw [hitems, htaken]; exact h.plain
  case early =>
    rw [hlog, htaken, hloop, hitems]
    intro hT
    obtain ⟨h1, h2, h3⟩ := h.early hT
    exact ⟨h1, h2, fun d hd => hblob d (h3 d hd)⟩
  case ids =>
    intro r hr
    rw [hlog] at hr
    rw [htaken]
    rcases hr with hr | hr
    · rcases hids r hr with hr | hr
      · exact hold r (.inl hr)
      · exact ⟨hr.1, .inl hr.2⟩
    · exact hold r (.inr hr)
  case firing =>
    rw [hloop]
    exact fun d hd => hblob d (h.firing d hd)
  case purging => rw [hloop, htaken]; exact h.purging
  case listed => rw [hlog, hloop, htaken, hitems]; exact h.listed

theorem Race.turn (h : Race json spec T s) (hreg : t.reg = s.reg) (hkv : t.kv = s.kv)
    (happ : appendedTo T t.log = appendedTo T s.log)
    (hpolled : polledSeconds t.log = polledSeconds s.log) (htaken : t.taken = s.taken)
    (hpolling : (t.loop ()).polling = (s.loop ()).polling)
    (hfire : (t.loop ()).toFire ⊆ (s.loop ()).toFire)
    (hpurge : (t.loop ()).toPurge = (s.loop ()).toPurge) : Race json spec T t := by
  have hitems : t.items T = s.items T := by rw [State.items, hkv]; rfl
  constructor
  case due => rw [hreg]; exact h.due
  case polling => rw [hpolling]; exact h.polling
  case list => rw [hkv, hitems]; exact h.list
  case nulFree => rw [hitems]; exact h.nulFree
  case plain => rw [hitems, htaken]; exact h.plain
  case early => rw [hpolled, htaken, hpurge, hitems, hkv]; exact h.early
  case ids => rw [hreg, happ, hkv, htaken]; exact h.ids
  case firing =>
    rw [hkv]
    exact fun d hd => h.firing d (hfire hd)
  case purging => rw [hpurge, htaken]; exact h.purging
  case listed => rw [happ, hpolling, htaken, hitems]; exact h.listed

theorem items_append (h : Race json spec T s) {doc : Doc ρ} {r : ρ}
    (hdoc : get s.kv (iso8601 T) = some doc) (hr : ';' ∉ (spec r).docId) :
    (bucketGet (append s.kv (iso8601 T) ⟨(spec r).docId ++ [';'], [r]⟩) (iso8601 T)).text =
        terminated ';' (s.items T ++ [(spec r).docId]) ∧
      getlines ';' (terminated ';' (s.items T ++ [(spec r).docId])) =
        s.items T ++ [(spec r).docId] := by
  have hlist := h.list
  rw [bucketGet_of_get hdoc] at hlist
  constructor
  · simp [bucketGet, getOr, hdoc, hlist, terminated_concat]
  · apply getlines_terminated
    intro d hd
    rcases List.mem_append.mp hd with hd | hd
    · exact (h.plain d (.inl hd)).1
    · rwa [List.mem_singleton.mp hd]

variable [DecidableEq ρ]

lemma due_update_eq {reg : ρ → RegPc} {r r' : ρ} {pc : RegPc} {u : Second}
    (h : ((Function.update reg r pc) r').due = some u) :
    (r' = r ∧ pc.due = some u) ∨ (reg r').due = some u := by
  by_cases he : r' = r
  · subst he
    exact .inl ⟨rfl, by simpa using h⟩
  · exact .inr (by simpa [he] using h)

lemma due_update_ne {reg : ρ → RegPc} {r r' : ρ} {pc : RegPc}
    (h : ((Function.update reg r pc) r').due ≠ none) :
    (r' = r ∧ pc.due ≠ none) ∨ (reg r').due ≠ none := by
  obtain ⟨u, hu⟩ := Option.ne_none_iff_exists'.mp h
  rcases due_update_eq hu with ⟨hr, hpc⟩ | hr
  · exact .inl ⟨hr, by simp [hpc]⟩
  · exact .inr (by simp [hr])

omit [DecidableEq ρ] in
theorem items_appendId (h : Race json spec T s) {r : ρ} (hr : ';' ∉ (spec r).docId)
    (hok : AppendInTime spec T s (.appendId r)) :
    ∃ items,
      (bucketGet (append s.kv (iso8601 T) ⟨(spec r).docId ++ [';'], [r]⟩) (iso8601 T)).text =
        terminated ';' items ∧ getlines ';' (terminated ';' items) = items ∧
      (items = s.items T ++ [(spec r).docId] ∨
        (items = s.items T ∧ (spec r).docId ∈ s.taken)) := by
  cases hm : get s.kv (iso8601 T) with
  | none =>
    have htaken : (spec r).docId ∈ s.taken := by simpa [AppendInTime, hm] using hok
    refine ⟨s.items T, ?_, ?_, .inr ⟨rfl, htaken⟩⟩
    · rw [append_of_absent hm, h.list]
    · rw [← h.list]
      rfl
  | some doc =>
    obtain ⟨htext, hitems⟩ := items_append h hm hr
    exact ⟨_, htext, hitems, .inl rfl⟩

lemma race_appendId (h : Race json spec T s) {r : ρ} (hpc : s.reg r = .appendId T)
    (hok : AppendInTime spec T s (.appendId r)) {success : Bool} :
    Race json spec T { s with
      kv := append s.kv (iso8601 T) ⟨(spec r).docId ++ [';'], [r]⟩
      reg := Function.update s.reg r .returned
      log := s.log ++ [.appended r T success] } := by
  obtain ⟨hid, hblob⟩ := h.ids r (.inl (by simp [hpc, RegPc.due]))
  have hother : ∀ d, d ≠ iso8601 T → HasBlob json s.kv d →
      HasBlob json (append s.kv (iso8601 T) ⟨(spec r).docId ++ [';'], [r]⟩) d :=
    fun d hd hb => hb.congr (bucketGet_append_of_ne hd)
  have htaken : ∀ kv reg, State.taken ⟨kv, reg, s.loop, s.log ++ [.appended r T success]⟩ =
      s.taken := by
    intro kv reg
    simp [State.taken, calledKeys_concat, calledKey]
  have hmem : ∀ r', r' ∈ appendedTo T (s.log ++ [.appended r T success]) ↔
      r' ∈ appendedTo T s.log ∨ r' = r := by simp
  obtain ⟨items, htext, hget, hitems⟩ := items_appendId h hid.1 hok
  have hitem : ∀ d ∈ items, d ∈ s.items T ∨ d = (spec r).docId := by
    intro d hd
    rcases hitems with rfl | ⟨rfl, -⟩
    · simpa using hd
    · exact .inl hd
  have hsub : ∀ d ∈ s.items T, d ∈ items := by
    intro d hd
    rcases hitems with rfl | ⟨rfl, -⟩
    · exact List.mem_append_left _ hd
    · exact hd
  constructor
  case due =>
    intro r' u hr'
    exact h.due r' u ((due_update_eq hr').resolve_left (by simp [RegPc.due]))
  case polling => exact h.polling
  case list => simp only [State.items, htext, hget]
  case nulFree =>
    intro d hd
    simp only [State.items, htext, hget] at hd
    rcases hitem d hd with hd | rfl
    · exact h.nulFree d hd
    · exact nul_notMem_cString _
  case plain =>
    intro d hd
    simp only [State.items, htext, hget, htaken] at hd
    rcases hd with hd | hd
    · rcases hitem d hd with hd | rfl
      · exact h.plain d (.inl hd)
      · exact ⟨hid.1, hid.2.1⟩
    · exact h.plain d (.inr hd)
  case early =>
    intro hT
    simp only [polledSeconds_concat, pollOf, Option.toList_none, List.append_nil] at hT
    obtain ⟨h1, h2, h3⟩ := h.early hT
    simp only [State.items, htext, hget, htaken]
    refine ⟨h1, h2, fun d hd => ?_⟩
    rcases hitem d hd with hd | rfl
    · exact hother d (h.plain d (.inl hd)).2 (h3 d hd)
    · exact hother _ hid.2.1 (hblob.resolve_right (by simp [h1]))
  case ids =>
    intro r' hr'
    simp only [htaken]
    have hr'' : (s.reg r').due ≠ none ∨ r' ∈ appendedTo T s.log := by
      rcases hr' with hr' | hr'
      · exact .inl ((due_update_ne hr').resolve_left (by simp [RegPc.due]))
      · rcases (hmem r').mp hr' with hr' | rfl
        · exact .inr hr'
        · exact .inl (by simp [hpc, RegPc.due])
    obtain ⟨hid', hb'⟩ := h.ids r' hr''
    exact ⟨hid', hb'.imp (hother _ hid'.2.1) id⟩
  case firing =>
    intro d hd
    exact hother d (h.plain d (.inr (List.mem_append_right _ hd))).2 (h.firing d hd)
  case purging =>
    simp only [htaken]
    exact h.purging
  case listed =>
    intro r' hr'
    simp only [State.items, htext, hget, htaken]
    rcases (hmem r').mp hr' with hr' | rfl
    · exact (h.listed r' hr').imp id fun hl => ⟨hl.1, hsub _ hl.2⟩
    · rcases hok with ⟨hsome, hwin⟩ | htk
      · have hnone : (s.loop ()).polling = none := by
          cases hp : (s.loop ()).polling with
          | none => rfl
          | some u => exact absurd (h.polling u hp ▸ hp) hwin
        rcases hitems with rfl | ⟨-, htk⟩
        · exact .inr ⟨hnone, by simp⟩
        · exact .inl htk
      · exact .inl htk

omit [DecidableEq ρ] in
theorem race_poll (h : Race json spec T s) (hT : T ∉ polledSeconds s.log) {value : Doc ρ}
    (hv : value = bucketGet s.kv (iso8601 T)) :
    Race json spec T { s with
      loop := Function.update s.loop () (.firing T value (splitKeys value.text))
      log := s.log ++ [.polled () T] } := by
  obtain ⟨htaken, -, hblobs⟩ := h.early hT
  have hkeys : splitKeys value.text = s.items T := by
    have hnul := notMem_terminated (by decide : '\x00' ≠ ';') h.nulFree
    rw [← h.list] at hnul
    rw [splitKeys, hv, cString_of_notMem hnul]
    rfl
  have hcalled : calledKeys s.log = [] := (List.append_eq_nil_iff.mp htaken).1
  have htaken' : State.taken ⟨s.kv, s.reg, Function.update s.loop ()
      (.firing T value (s.items T)), s.log ++ [.polled () T]⟩ = s.items T := by
    simp [State.taken, calledKeys_concat, calledKey, hcalled, LoopPc.toFire]
  rw [hkeys]
  constructor
  case due => exact h.due
  case polling => simp [LoopPc.polling]
  case list => exact h.list
  case nulFree => exact h.nulFree
  case plain =>
    rw [htaken']
    exact fun d hd => h.plain d (.inl (hd.elim id id))
  case early =>
    intro hT'
    simp [polledSeconds_concat, pollOf] at hT'
  case ids =>
    intro r hr
    obtain ⟨hid, hb⟩ := h.ids r (hr.imp id (by simp))
    exact ⟨hid, .inl (hb.resolve_right (by simp [htaken]))⟩
  case firing => simpa [LoopPc.toFire] using hblobs
  case purging =>
    have hsplit : value.text.splitOn ';' = s.items T ++ [[]] := by
      rw [hv, h.list]
      exact splitOn_terminated fun d hd => (h.plain d (.inl hd)).1
    rw [htaken']
    intro d hd
    simpa [LoopPc.toPurge, hsplit, or_comm] using hd
  case listed =>
    rw [htaken']
    intro r hr
    exact .inl ((h.listed r (by simpa using hr)).resolve_left (by simp [htaken])).2

omit [DecidableEq ρ] in
lemma race_deleteMarker (h : Race json spec T s) (hT : T ∈ polledSeconds s.log)
    {value : Doc ρ} {writers : List ρ} (hpc : s.loop () = .fired T value) :
    Race json spec T { s with
      kv := delete s.kv (iso8601 T)
      loop := Function.update s.loop () (.purging (value.text.splitOn ';'))
      log := s.log ++ [.deleted () (iso8601 T) writers] } := by
  have hother : ∀ d, d ≠ iso8601 T → HasBlob json s.kv d →
      HasBlob json (delete s.kv (iso8601 T)) d :=
    fun d hd hb => hb.congr (bucketGet_delete_of_ne hd)
  have htaken : State.taken ⟨delete s.kv (iso8601 T), s.reg, Function.update s.loop ()
      (.purging (value.text.splitOn ';')), s.log ++ [.deleted () (iso8601 T) writers]⟩ =
      s.taken := by
    simp [State.taken, calledKeys_concat, calledKey, hpc, LoopPc.toFire]
  have hitems : State.items ⟨delete s.kv (iso8601 T), s.reg, Function.update s.loop ()
      (.purging (value.text.splitOn ';')), s.log ++ [.deleted () (iso8601 T) writers]⟩ T = [] := by
    simp [State.items, Doc.blank, getlines]
  constructor
  case due => exact h.due
  case polling => simp [LoopPc.polling]
  case list => simp [hitems, Doc.blank]
  case nulFree => simp [hitems]
  case plain =>
    rw [hitems, htaken]
    exact fun d hd => h.plain d (.inr (hd.resolve_left (by simp)))
  case early =>
    intro hT'
    simp only [polledSeconds_concat, List.mem_append, not_or] at hT'
    exact absurd hT hT'.1
  case ids =>
    intro r hr
    obtain ⟨hid, hb⟩ := h.ids r (hr.imp id (by simp))
    rw [htaken]
    exact ⟨hid, hb.imp (hother _ hid.2.1) id⟩
  case firing => simp [LoopPc.toFire]
  case purging =>
    have hp := h.purging
    rw [hpc] at hp
    rw [htaken]
    simpa [LoopPc.toPurge] using hp
  case listed =>
    intro r hr
    have hl := h.listed r (by simpa using hr)
    rw [hpc] at hl
    rw [htaken]
    exact .inl (hl.resolve_right (by simp [LoopPc.polling]))

omit [DecidableEq ρ] in
lemma race_deleteKey (h : Race json spec T s) {key : Text} {keys : List Text}
    {writers : List ρ} (hpc : s.loop () = .purging (key :: keys)) :
    Race json spec T { s with
      kv := delete s.kv key
      loop := Function.update s.loop () (.purging keys)
      log := s.log ++ [.deleted () key writers] } := by
  have hkey : key = [] ∨ key ∈ s.taken := h.purging key (by simp [hpc, LoopPc.toPurge])
  have hne : iso8601 T ≠ key := by
    rcases hkey with rfl | hk
    · exact iso8601_ne_nil T
    · exact (h.plain key (.inr hk)).2.symm
  have htaken : State.taken ⟨delete s.kv key, s.reg, Function.update s.loop () (.purging keys),
      s.log ++ [.deleted () key writers]⟩ = s.taken := by
    simp [State.taken, calledKeys_concat, calledKey, hpc, LoopPc.toFire]
  have hitems : State.items ⟨delete s.kv key, s.reg, Function.update s.loop () (.purging keys),
      s.log ++ [.deleted () key writers]⟩ T = s.items T := by
    simp [State.items, bucketGet_delete_of_ne hne]
  constructor
  case due => exact h.due
  case polling => simp [LoopPc.polling]
  case list =>
    rw [hitems, ← h.list]
    simp [bucketGet_delete_of_ne hne]
  case nulFree => rw [hitems]; exact h.nulFree
  case plain =>
    rw [hitems, htaken]
    exact h.plain
  case early =>
    intro hT
    simp only [polledSeconds_concat, List.mem_append, not_or] at hT
    have hpurge := (h.early hT.1).2.1
    simp [hpc, LoopPc.toPurge] at hpurge
  case ids =>
    intro r hr
    obtain ⟨hid, hb⟩ := h.ids r (hr.imp id (by simp))
    rw [htaken]
    refine ⟨hid, ?_⟩
    -- The blob of a registration that was not fired is not among the keys.
    by_cases hd : (spec r).docId = key
    · exact .inr (hd ▸ hkey.resolve_left (hd ▸ hid.2.2))
    · exact hb.imp (·.congr (bucketGet_delete_of_ne hd)) id
  case firing => simp [LoopPc.toFire]
  case purging =>
    rw [htaken]
    intro d hd
    exact h.purging d (by simpa [hpc, LoopPc.toPurge] using .inr hd)
  case listed =>
    intro r hr
    rw [htaken, hitems]
    refine (h.listed r (by simpa using hr)).imp id fun hl => ⟨?_, hl.2⟩
    simp [LoopPc.polling]

lemma race_step (hc : Calendar s) (h : Race json spec T s) (hrace : Racing spec T s a)
    (hok : AppendInTime spec T s a) (hs : Stepped json spec s a t) : Race json spec T t := by
  cases hs with
  | @skip r _ _ _ =>
    refine h.advance rfl rfl rfl (fun _ hd => hd) ?_ ?_
    · intro r' u hr'
      exact h.due r' u ((due_update_eq hr').resolve_left (by simp [RegPc.due]))
    · intro r' hr'
      exact .inl ((due_update_ne hr').resolve_left (by simp [RegPc.due]))
  | @setBlob r now u _ _ hu =>
    obtain rfl : u = T := hu.trans hrace
    refine h.advance rfl rfl (bucketGet_set_of_ne hok.2.1.symm) (fun _ hd => hd.set r u) ?_ ?_
    · intro r' v hr'
      rcases due_update_eq hr' with ⟨-, hv⟩ | hr'
      · simpa [RegPc.due, eq_comm] using hv
      · exact h.due r' v hr'
    · intro r' hr'
      rcases due_update_ne hr' with ⟨rfl, -⟩ | hr'
      · exact .inr ⟨hok, hasBlob_set_self r' u⟩
      · exact .inl hr'
  | @found r _ u _ hpc _ | @missing r _ u hpc | @addMarker r u hpc =>
    have hru : (s.reg r).due = some u := by rw [hpc]; rfl
    refine h.advance rfl rfl (by simp) (fun _ hd => hd.congr (by simp)) ?_ ?_
    · intro r' v hr'
      rcases due_update_eq hr' with ⟨rfl, hv⟩ | hr'
      · exact h.due r' v (hru.trans (by simpa [RegPc.due] using hv))
      · exact h.due r' v hr'
    · intro r' hr'
      rcases due_update_ne hr' with ⟨rfl, -⟩ | hr'
      · exact .inl (by simp [hru])
      · exact .inl hr'
  | @appendId r u hpc =>
    obtain rfl : u = T := h.due r u (by rw [hpc]; rfl)
    exact race_appendId h hpc hok
  | @poll l now u value _ hu hv =>
    obtain rfl : u = T := hu.trans hrace.1
    exact race_poll h hrace.2 hv
  | @fireEnd l u value hpc =>
    refine h.turn rfl rfl rfl rfl ?_ ?_ ?_ ?_ <;>
      simp [State.taken, hpc, LoopPc.toFire, LoopPc.polling, LoopPc.toPurge]
  | @fireError l u value key keys hpc he | @fireAbort l u value key keys hpc he =>
    obtain ⟨b, hb, -⟩ := h.firing key (by simp [hpc, LoopPc.toFire])
    simp [hb] at he
  | @fireCall l u value key keys b hpc _ =>
    refine h.turn rfl rfl (by simp) (by simp [polledSeconds_concat, pollOf]) ?_ ?_ ?_ ?_ <;>
      simp [State.taken, calledKeys_concat, calledKey, hpc, LoopPc.toFire, LoopPc.polling,
        LoopPc.toPurge]
  | @leave l u value keys hpc =>
    refine h.turn rfl rfl rfl rfl ?_ ?_ ?_ ?_ <;>
      simp [State.taken, hpc, LoopPc.toFire, LoopPc.polling, LoopPc.toPurge]
  | @deleteMarker l u value hpc =>
    obtain rfl : u = T := h.polling u (by rw [hpc]; rfl)
    exact race_deleteMarker h (hc.polling u (by rw [hpc]; rfl)) hpc
  | deleteKey hpc => exact race_deleteKey h hpc
  | purged hpc | close hpc =>
    refine h.turn rfl rfl rfl rfl ?_ ?_ ?_ ?_ <;>
      simp [State.taken, hpc, LoopPc.toFire, LoopPc.polling, LoopPc.toPurge]

/-- Any number of registrations for a second, in any order with the steps of its
tick. -/
theorem notLost_of_appendInTime (json : Json) (spec : ρ → Registration App) (T : Second)
    {kv₀ : Store Text (Doc ρ)} (h₀ : ListsBlobs json T kv₀) {s : State ρ Unit}
    (h : Reach (step json spec) (fun s a => Racing spec T s a ∧ AppendInTime spec T s a)
      (.initial kv₀) s) : NotLost json spec T s := by
  have hinv : Calendar s ∧ Race json spec T s := by
    refine h.invariant (I := fun s => Calendar s ∧ Race json spec T s)
      ⟨⟨by simp [State.initial, LoopPc.polling], by simp [State.initial, callsIn]⟩,
        race_initial h₀⟩ ?_
    intro s a t hi hok hs
    have hst := step_stepped hs
    exact ⟨calendar_step hi.1 hst, race_step hi.1 hi.2 hok.1 hok.2 hst⟩
  intro _ hpc r hr
  have htaken : s.taken = calledKeys s.log := by simp [State.taken, hpc, LoopPc.toFire]
  by_cases hd : (spec r).docId ∈ calledKeys s.log
  · exact .inl hd
  · have hids := (hinv.2.ids r (.inr hr)).2
    have hlisted := hinv.2.listed r hr
    rw [htaken] at hids hlisted
    exact .inr ⟨hids.resolve_right hd, (hlisted.resolve_left hd).2⟩

def racingRegistration (_ : Unit) : Registration Unit :=
  expiringIn "5".toList "onExpiry".toList "a".toList

/-- Another document is listed for the same second. -/
def oneListed : Store Text (Doc Unit) :=
  set (set empty (iso8601 (expiry 0 "5".toList)) ⟨"b;".toList, []⟩) "b".toList
    ⟨compactJson.write ⟨"onExpiry".toList, "b".toList, iso8601 (expiry 0 "5".toList)⟩, []⟩

lemma listsBlobs_oneListed : ListsBlobs compactJson (expiry 0 "5".toList) oneListed := by
  refine ⟨["b".toList], by decide, ?_⟩
  intro d hd
  rw [List.mem_singleton.mp hd]
  exact ⟨⟨by decide, by decide⟩, by decide,
    ⟨"onExpiry".toList, "b".toList, iso8601 (expiry 0 "5".toList)⟩, by decide, rfl⟩

/-- The list is created again between the two kinds of deletion. -/
def listAgainRun : List (Action Unit Unit) :=
  [.poll () 7, .setBlob () 0, .fire (), .leave (), .fire (), .deleteMarker (), .getMarker () true,
    .addMarker (), .deleteKey (), .appendId (), .deleteKey (), .deleteKey ()]

theorem notLost_listAgainRun :
    ∃ s : State Unit Unit,
      exec (step compactJson racingRegistration)
        (fun s a => Racing racingRegistration (expiry 0 "5".toList) s a ∧
          AppendInTime racingRegistration (expiry 0 "5".toList) s a)
        (.initial oneListed) listAgainRun = some s ∧
      calledKeys s.log = ["b".toList] ∧ s.loop () = .select ∧
      NotLost compactJson racingRegistration (expiry 0 "5".toList) s := by
  obtain ⟨s, he, hr, hp⟩ := exec_of_any (step compactJson racingRegistration)
    (fun s a => Racing racingRegistration (expiry 0 "5".toList) s a ∧
      AppendInTime racingRegistration (expiry 0 "5".toList) s a)
    (.initial oneListed : State Unit Unit) listAgainRun
    (fun s => calledKeys s.log = ["b".toList] ∧ s.loop () = .select) (by decide)
  obtain ⟨hcalled, hpc⟩ := of_decide_eq_true hp
  exact ⟨s, he, hcalled, hpc, notLost_of_appendInTime _ _ _ listsBlobs_oneListed hr⟩

/-- The tick reads the list that the registration has just added and deletes it
before the append, whose failure nobody sees. -/
def appendTooLateRun : List (Action Unit Unit) :=
  [.setBlob () 0, .getMarker () true, .addMarker (), .poll () 7, .fire (), .deleteMarker (),
    .appendId (), .deleteKey (), .deleteKey ()]

theorem not_notLost_appendTooLateRun :
    ∃ s : State Unit Unit,
      exec (step compactJson racingRegistration)
        (Racing racingRegistration (expiry 0 "5".toList)) (.initial empty) appendTooLateRun =
        some s ∧ ¬ NotLost compactJson racingRegistration (expiry 0 "5".toList) s := by
  obtain ⟨s, he, -, hp⟩ := exec_of_any (step compactJson racingRegistration)
    (Racing racingRegistration (expiry 0 "5".toList)) (.initial empty : State Unit Unit)
    appendTooLateRun
    (fun s => expiry 0 "5".toList ∈ polledSeconds s.log ∧ s.loop () = .select ∧
      () ∈ appendedTo (expiry 0 "5".toList) s.log ∧
      (racingRegistration ()).docId ∉ calledKeys s.log ∧
      (racingRegistration ()).docId ∉
        getlines ';' (bucketGet s.kv (iso8601 (expiry 0 "5".toList))).text) (by decide)
  obtain ⟨hpolled, hpc, hr, hcalled, hlist⟩ := of_decide_eq_true hp
  refine ⟨s, he, fun h => ?_⟩
  rcases h hpolled hpc () hr with hc | ⟨-, hl⟩
  · exact hcalled hc
  · exact hlist hl

end Eventing.Timer
