import Mathlib.Data.List.AList
import Mathlib.Logic.Function.Basic
import Eventing.Decimal
import Eventing.FreshNumber
import Eventing.Transition

/-!
# Ports of the local servers

`setUpLocalTcpServer` (`local_tcp_server.go`) looks for a port above all mapped ones, maps it to
its application and listens on it. Go visits the keys of a map in any order. An `int` has 64
bits.
-/
namespace Eventing.LocalPorts
open FreshNumber Transition

abbrev PortMapping := AList fun _ : Int64 => Text

def initTcpPort : Int64 := 6065

/-- The body of the loop over the mapped ports. -/
def nextPort (nextAvailablePort port : Int64) : Int64 :=
  if port ≥ nextAvailablePort then port + 1 else nextAvailablePort

/-- The loop, which visits the ports in the order given. -/
def nextAvailablePort (m : PortMapping) (order : List Int64) : Int64 :=
  if m.keys.length > 0 then order.foldl nextPort initTcpPort else initTcpPort

inductive Call
  | entered (appName : Text)
  | mapped (appName : Text) (port : Int64)
  | listening (appName : Text) (port : Int64)

def Call.entry : Call → Option (Int64 × Text)
  | .entered _ => none
  | .mapped appName port | .listening appName port => some (port, appName)

/-- `ports` is the list of the ports so far, in the order of the sections. -/
structure State (C : Type*) where
  appLocalPortMapping : PortMapping
  calls : C → Option Call
  exited : Bool
  ports : List Int64

def State.initial {C : Type*} : State C := ⟨∅, fun _ => none, false, []⟩

inductive Action (C : Type*)
  | enter (c : C) (appName : Text)
  | assign (c : C) (order : List Int64)
  | listen (c : C)
  | fail (c : C)

section
variable {C : Type*} [DecidableEq C]

def State.setCall (s : State C) (c : C) (call : Call) : State C :=
  { s with calls := Function.update s.calls c (some call) }

/-- The section with `tableLock`, where the loop visits all mapped ports once. -/
def assign (s : State C) (c : C) (appName : Text) (order : List Int64) : Option (State C) :=
  if order.Perm s.appLocalPortMapping.keys then
    let port := nextAvailablePort s.appLocalPortMapping order
    some { s.setCall c (.mapped appName port) with
      appLocalPortMapping := s.appLocalPortMapping.insert port appName
      ports := s.ports ++ [port] }
  else none

def step (s : State C) (a : Action C) : Option (State C) :=
  if s.exited then none
  else match a with
  | .enter c appName =>
      match s.calls c with
      | none => some (s.setCall c (.entered appName))
      | some _ => none
  | .assign c order =>
      match s.calls c with
      | some (.entered appName) => assign s c appName order
      | _ => none
  | .listen c =>
      match s.calls c with
      | some (.mapped appName port) => some (s.setCall c (.listening appName port))
      | _ => none
  -- `log.Fatal` when there is no listener.
  | .fail c =>
      match s.calls c with
      | some (.mapped _ _) => some { s with exited := true }
      | _ => none

end

variable {C : Type*}

/-- The larger of the first port and one more than the largest mapped one, which is not
mapped. -/
structure Picked (m : PortMapping) (port : Int64) : Prop where
  of_nil : m.keys = [] → port = initTcpPort
  above : ∀ largest ∈ m.keys, (∀ p ∈ m.keys, p ≤ largest) →
    port.toInt = max initTcpPort.toInt (largest.toInt + 1)
  notMem : port ∉ m.keys

/-- The ports are given out from the first one on, and every call keeps the entry that it has
made. -/
structure InSequence (s : State C) : Prop where
  ports : s.ports.map Int64.toInt =
    (List.range s.ports.length).map fun k : ℕ => initTcpPort.toInt + k
  kept : ∀ c call port appName, s.calls c = some call → call.entry = some (port, appName) →
    s.appLocalPortMapping.lookup port = some appName

section
variable {m : PortMapping} {order : List Int64} {next p : Int64} {s t : State C}

lemma toInt_nextPort (hp : p ≠ Int64.maxValue) :
    (nextPort next p).toInt = nextAbove next.toInt [p.toInt] := by
  rw [nextAbove_singleton, Order.succ_eq_add_one, nextPort]
  by_cases h : next ≤ p
  · rw [if_pos h, if_pos (Int64.le_iff_toInt_le.mp h)]
    exact toInt_add_one (toInt_lt_of_ne hp)
  · rw [if_neg h, if_neg (mt Int64.le_iff_toInt_le.mpr h)]

lemma toInt_foldl (h : Int64.maxValue ∉ order) (next : Int64) :
    (order.foldl nextPort next).toInt = nextAbove next.toInt (order.map Int64.toInt) := by
  induction order generalizing next with
  | nil => rfl
  | cons p order ih =>
    rw [List.mem_cons, not_or] at h
    rw [List.foldl_cons, ih h.2, toInt_nextPort (Ne.symm h.1)]
    rfl

lemma toInt_nextAvailablePort (h : order.Perm m.keys) (hmax : Int64.maxValue ∉ m.keys) :
    (nextAvailablePort m order).toInt = nextAbove initTcpPort.toInt (m.keys.map Int64.toInt) := by
  have hperm := nextAbove_perm (h.map Int64.toInt) initTcpPort.toInt
  rw [← hperm, nextAvailablePort]
  split_ifs with hlen
  · exact toInt_foldl (fun hm => hmax (h.mem_iff.mp hm)) initTcpPort
  · have hnil : order = [] := by
      have hlength := h.length_eq
      exact List.length_eq_zero_iff.mp (by omega)
    rw [hnil]
    rfl

lemma nextAvailablePort_perm {order' : List Int64} (h : order.Perm m.keys)
    (h' : order'.Perm m.keys) (hmax : Int64.maxValue ∉ m.keys) :
    nextAvailablePort m order = nextAvailablePort m order' := by
  rw [← Int64.toInt_inj, toInt_nextAvailablePort h hmax, toInt_nextAvailablePort h' hmax]

lemma picked_nextAvailablePort (h : order.Perm m.keys) (hmax : Int64.maxValue ∉ m.keys) :
    Picked m (nextAvailablePort m order) := by
  have hport := toInt_nextAvailablePort h hmax
  constructor
  · intro hnil
    rw [nextAvailablePort, hnil]
    rfl
  · intro largest hmem hle
    have hgreatest : IsGreatest {q | q ∈ m.keys.map Int64.toInt} largest.toInt := by
      refine ⟨List.mem_map_of_mem hmem, ?_⟩
      intro q hq
      obtain ⟨p, hp, rfl⟩ := List.mem_map.mp hq
      exact Int64.le_iff_toInt_le.mp (hle p hp)
    rw [hport, nextAbove_of_isGreatest hgreatest, Order.succ_eq_add_one]
  · intro hmem
    apply nextAbove_notMem initTcpPort.toInt (m.keys.map Int64.toInt)
    rw [← hport]
    exact List.mem_map_of_mem hmem

structure Inv (s : State C) : Prop where
  keys : ∀ p, p ∈ s.appLocalPortMapping.keys ↔ p ∈ s.ports
  inSequence : InSequence s

lemma inv_initial : Inv (State.initial : State C) where
  keys p := by simp [State.initial]
  inSequence :=
    ⟨rfl, fun c call port appName h => by contradiction⟩

lemma InSequence.mem_ports_iff (h : InSequence s) (n : ℤ) : n ∈ s.ports.map Int64.toInt ↔
    initTcpPort.toInt ≤ n ∧ n < initTcpPort.toInt + s.ports.length := by
  rw [h.ports, List.mem_map]
  constructor
  · rintro ⟨k, hk, rfl⟩
    have hlt := List.mem_range.mp hk
    omega
  · intro hn
    exact ⟨(n - initTcpPort.toInt).toNat, List.mem_range.mpr (by omega), by omega⟩

def HasRoom (s : State C) : Prop := initTcpPort.toInt + s.ports.length ≤ 2 ^ 63

lemma InSequence.maxValue_notMem (h : InSequence s)
    (hroom : initTcpPort.toInt + s.ports.length < 2 ^ 63) : Int64.maxValue ∉ s.ports := by
  intro hm
  have hlt := ((h.mem_ports_iff _).mp (List.mem_map_of_mem hm)).2
  rw [Int64.toInt_maxValue] at hlt
  omega

lemma Inv.toInt_nextAvailablePort (h : Inv s) (hroom : initTcpPort.toInt + s.ports.length < 2 ^ 63)
    (hperm : order.Perm s.appLocalPortMapping.keys) :
    (nextAvailablePort s.appLocalPortMapping order).toInt = initTcpPort.toInt + s.ports.length := by
  have hmax : Int64.maxValue ∉ s.appLocalPortMapping.keys :=
    fun hm => h.inSequence.maxValue_notMem hroom ((h.keys _).mp hm)
  rw [LocalPorts.toInt_nextAvailablePort hperm hmax]
  apply nextAbove_range
  intro n
  rw [← h.inSequence.mem_ports_iff, List.mem_map, List.mem_map]
  simp only [h.keys]

lemma Inv.picked (h : Inv s) (hroom : initTcpPort.toInt + s.ports.length < 2 ^ 63)
    (hperm : order.Perm s.appLocalPortMapping.keys) :
    Picked s.appLocalPortMapping (nextAvailablePort s.appLocalPortMapping order) :=
  picked_nextAvailablePort hperm
    fun hm => h.inSequence.maxValue_notMem hroom ((h.keys _).mp hm)

end

section
variable [DecidableEq C] {order : List Int64} {s t : State C} {a : Action C} {c : C}
  {appName : Text} {port : Int64}

inductive Stepped (s : State C) : State C → Prop
  | enter {c : C} {appName : Text} (fresh : s.calls c = none) :
      Stepped s (s.setCall c (.entered appName))
  | assign {c : C} {appName : Text} {order : List Int64}
      (pc : s.calls c = some (.entered appName)) (perm : order.Perm s.appLocalPortMapping.keys) :
      Stepped s { s.setCall c (.mapped appName (nextAvailablePort s.appLocalPortMapping order)) with
        appLocalPortMapping := s.appLocalPortMapping.insert
          (nextAvailablePort s.appLocalPortMapping order) appName
        ports := s.ports ++ [nextAvailablePort s.appLocalPortMapping order] }
  | listen {c : C} {appName : Text} {port : Int64} (pc : s.calls c = some (.mapped appName port)) :
      Stepped s (s.setCall c (.listening appName port))
  | fail : Stepped s { s with exited := true }

lemma step_stepped (h : step s a = some t) : Stepped s t := by
  unfold step at h
  split_ifs at h
  cases a with
  | enter c appName =>
    cases hc : s.calls c with
    | none => exact Option.some.inj (by simpa [hc] using h) ▸ .enter hc
    | some call => simp [hc] at h
  | assign c order =>
    simp only at h
    split at h
    · rename_i appName hc
      obtain ⟨hperm, h⟩ := Option.ite_none_right_eq_some.mp h
      exact Option.some.inj h ▸ .assign hc hperm
    · contradiction
  | listen c =>
    simp only at h
    split at h
    · rename_i appName port hc
      exact Option.some.inj h ▸ .listen hc
    · contradiction
  | fail c =>
    simp only at h
    split at h
    · exact Option.some.inj h ▸ .fail
    · contradiction

lemma Stepped.length_le (h : Stepped s t) : s.ports.length ≤ t.ports.length := by
  cases h with
  | enter | listen | fail => exact Nat.le_refl _
  | assign => simp

lemma State.setCall_calls (s : State C) (c c' : C) (call : Call) :
    (s.setCall c call).calls c' = if c' = c then some call else s.calls c' :=
  Function.update_apply _ _ _ _

lemma InSequence.setCall (h : InSequence s) {call : Call}
    (hentry : ∀ e, call.entry = some e → ∃ old, s.calls c = some old ∧ old.entry = some e) :
    InSequence (s.setCall c call) where
  ports := h.ports
  kept c' call' port appName hcall he := by
    rw [State.setCall_calls] at hcall
    split_ifs at hcall with hc
    · obtain rfl := Option.some.inj hcall
      obtain ⟨old, hold, hentry⟩ := hentry _ he
      exact h.kept c old port appName hold hentry
    · exact h.kept c' call' port appName hcall he

lemma lookup_insert_of_notMem {m : PortMapping} {port' : Int64} {appName' : Text}
    (hport : port ∉ m.keys) (h : m.lookup port' = some appName') :
    (m.insert port appName).lookup port' = some appName' := by
  have hne : port' ≠ port := by
    rintro rfl
    exact hport (AList.lookup_isSome.mp (by simp [h]))
  rw [AList.lookup_insert_ne hne, h]

lemma Inv.assign (h : Inv s) (hroom : initTcpPort.toInt + s.ports.length < 2 ^ 63)
    (hperm : order.Perm s.appLocalPortMapping.keys)
    (hport : port = nextAvailablePort s.appLocalPortMapping order) :
    Inv { s.setCall c (.mapped appName port) with
      appLocalPortMapping := s.appLocalPortMapping.insert port appName
      ports := s.ports ++ [port] } := by
  have hnext := h.toInt_nextAvailablePort hroom hperm
  have hnotMem : port ∉ s.appLocalPortMapping.keys := hport ▸ (h.picked hroom hperm).notMem
  rw [← hport] at hnext
  constructor
  · intro p
    have hkeys : p ∈ (s.appLocalPortMapping.insert port appName).keys ↔
        p = port ∨ p ∈ s.appLocalPortMapping.keys := AList.mem_insert _
    rw [hkeys, h.keys, List.mem_append, List.mem_singleton]
    exact or_comm
  · constructor
    · rw [List.map_append, h.inSequence.ports, List.length_append, List.length_singleton,
        List.range_succ, List.map_append]
      simp [hnext]
    · intro c' call' port' appName' hcall he
      change (s.setCall c (.mapped appName port)).calls c' = some call' at hcall
      rw [State.setCall_calls] at hcall
      split_ifs at hcall with hc
      · obtain rfl := Option.some.inj hcall
        obtain ⟨rfl, rfl⟩ := Prod.mk.inj (Option.some.inj he)
        exact AList.lookup_insert _
      · apply lookup_insert_of_notMem hnotMem
        exact h.inSequence.kept c' call' port' appName' hcall he

lemma Stepped.inv (hs : Stepped s t) (h : Inv s) (hroom : HasRoom t) : Inv t := by
  cases hs with
  | enter fresh =>
    refine ⟨h.keys, h.inSequence.setCall ?_⟩
    intro e he
    contradiction
  | assign pc perm =>
    refine h.assign ?_ perm rfl
    rw [HasRoom, List.length_append, List.length_singleton] at hroom
    omega
  | listen pc =>
    refine ⟨h.keys, h.inSequence.setCall ?_⟩
    intro e he
    exact ⟨_, pc, he⟩
  | fail => exact ⟨h.keys, h.inSequence.ports, h.inSequence.kept⟩

lemma HasRoom.of_stepped (hs : Stepped s t) (hroom : HasRoom t) : HasRoom s := by
  have hle := hs.length_le
  rw [HasRoom] at hroom ⊢
  omega

lemma inv_of_reachable (hs : Reachable step .initial s) (hroom : HasRoom s) : Inv s := by
  refine hs.invariant (I := fun s => HasRoom s → Inv s) (fun _ => inv_initial) ?_ hroom
  intro s a t ih _ hs hroom
  have hstep := step_stepped hs
  exact hstep.inv (ih (.of_stepped hstep hroom)) hroom

lemma Stepped.lookup (hs : Stepped s t) (h : Inv s) (hroom : HasRoom t)
    (hp : s.appLocalPortMapping.lookup port = some appName) :
    t.appLocalPortMapping.lookup port = some appName := by
  cases hs with
  | enter | listen | fail => exact hp
  | assign pc perm =>
    rw [HasRoom, List.length_append, List.length_singleton] at hroom
    exact lookup_insert_of_notMem (h.picked (by omega) perm).notMem hp

lemma lookup_of_reach (hs : Reachable step .initial s) (ht : Reachable step s t)
    (hroom : HasRoom t) (hp : s.appLocalPortMapping.lookup port = some appName) :
    t.appLocalPortMapping.lookup port = some appName := by
  induction ht with
  | refl => exact hp
  | tail prior _ taken ih =>
    have hstep := step_stepped taken
    have hroom' := HasRoom.of_stepped hstep hroom
    exact hstep.lookup (inv_of_reachable (hs.trans prior) hroom') hroom (ih hroom')

/-- Whatever the order of the loop, it picks a port that is not mapped, the larger of the first
one and one more than the largest mapped one, where no port is the largest `int`. So the ports
that calls get are the first one and those behind it, each once, while there are any, and no
entry is overwritten. -/
theorem ports_in_sequence (C : Type*) [DecidableEq C] :
    (∀ (m : PortMapping) (order order' : List Int64), order.Perm m.keys → order'.Perm m.keys →
        Int64.maxValue ∉ m.keys → Picked m (nextAvailablePort m order) ∧
          nextAvailablePort m order = nextAvailablePort m order') ∧
      (∀ s : State C, Reachable step .initial s → HasRoom s → InSequence s) ∧
      ∀ s t : State C, Reachable step .initial s → Reachable step s t → HasRoom t →
        ∀ port appName, s.appLocalPortMapping.lookup port = some appName →
          t.appLocalPortMapping.lookup port = some appName := by
  refine ⟨?_, fun s hs hroom => (inv_of_reachable hs hroom).inSequence, ?_⟩
  · intro m order order' h h' hmax
    exact ⟨picked_nextAvailablePort h hmax, nextAvailablePort_perm h h' hmax⟩
  · exact fun s t hs ht hroom port appName hp => lookup_of_reach hs ht hroom hp

end

def twoPorts (port port' : Int64) : PortMapping := (AList.singleton port ['a']).insert port' ['b']

/-- Two ports in either order, and two calls of which the later one has its section first. -/
theorem ports_in_sequence_twoCalls :
    (Picked (twoPorts 6065 7000) (nextAvailablePort (twoPorts 6065 7000) [6065, 7000]) ∧
        nextAvailablePort (twoPorts 6065 7000) [6065, 7000] =
          nextAvailablePort (twoPorts 6065 7000) [7000, 6065]) ∧
      ∃ s : State Bool, InSequence s ∧ s.ports = [6065, 6066] := by
  obtain ⟨s, -, hs, hports⟩ := exec_of_any (step (C := Bool)) (fun _ _ => True) .initial
    [.enter false ['a'], .enter true ['b'], .assign true [], .assign false [6065]]
    (fun s => decide (s.ports = [6065, 6066])) (by decide)
  have hports := of_decide_eq_true hports
  refine ⟨(ports_in_sequence Bool).1 _ _ _ (by decide) (by decide) (by decide), s,
    (ports_in_sequence Bool).2.1 s hs ?_, hports⟩
  rw [HasRoom, hports]
  decide

/-- Behind the largest `int` comes the smallest one, and with another port the order decides. -/
theorem not_picked_largest :
    ¬ Picked (AList.singleton Int64.maxValue ['a'])
        (nextAvailablePort (AList.singleton Int64.maxValue ['a']) [Int64.maxValue]) ∧
      nextAvailablePort (twoPorts 7000 Int64.maxValue) [7000, Int64.maxValue] ≠
        nextAvailablePort (twoPorts 7000 Int64.maxValue) [Int64.maxValue, 7000] := by
  refine ⟨fun h => ?_, by decide⟩
  have habove := h.above Int64.maxValue (by decide)
    (List.forall_mem_singleton.mpr (Int64.le_refl Int64.maxValue))
  exact absurd habove (by decide)

end Eventing.LocalPorts
