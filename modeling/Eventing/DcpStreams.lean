import Eventing.Backoff
import Eventing.Decimal
import Mathlib.Data.List.Dedup

/-!
# The streams of a bucket

`startBucket` (`dcp_client.go`) waits for the bucket, for the failover logs of its vbuckets and
for a feed, each in a loop with growing pauses, and `startDcp` requests the streams of the feed,
once. The cluster is a parameter; times are in seconds.
-/
namespace Eventing.DcpStreams
open Backoff

variable {C D : Type*}

abbrev FailoverLog := List (UInt64 × UInt64)

def maxSleep : ℕ := 8

def listOfVbnos (maxVbno : ℕ) : List UInt16 := (List.range maxVbno).map UInt16.ofNat

structure StreamRequest where
  vbno : UInt16
  opaqueNo : UInt16
  flags : UInt32
  vbuuid : UInt64
  start : UInt64
  stop : UInt64
  snapStart : UInt64
  snapEnd : UInt64
  deriving DecidableEq

/-- What is called of the cluster: `ConnectBucket`; `GetFailoverLogs`, at once or after a
`Refresh`; `StartDcpFeedOver`; and `DcpRequestStream`, which may fail. -/
structure Cluster (C D : Type*) where
  connectBucket (endpoint bucket : Text) : Service C
  getFailoverLogs (b : C) (vbnos : List UInt16) : Service (List (UInt16 × FailoverLog))
  refreshedLogs (b : C) (vbnos : List UInt16) : Service (List (UInt16 × FailoverLog))
  startDcpFeedOver (b : C) : Service D
  dcpRequestStream (feed : D) (request : StreamRequest) : Bool

/-- The request for a bucket number; an empty log is indexed at `-1`. -/
def streamRequest (entry : UInt16 × FailoverLog) : Option StreamRequest :=
  entry.2.getLast?.map fun x =>
    { vbno := entry.1, opaqueNo := entry.1, flags := 0, vbuuid := x.1
      start := 0, stop := 0xFFFFFFFFFFFFFFFF, snapStart := 0, snapEnd := 0 }

/-- What becomes of the requests: these streams are open, or the program has ended. -/
inductive Outcome
  | streaming (streams : List StreamRequest)
  | ended

def Outcome.opened (r : StreamRequest) : Outcome → Outcome
  | .streaming streams => .streaming (r :: streams)
  | .ended => .ended

/-- The requests, in the order in which the map of the logs is visited. `mf` calls
`logging.Fatalf` for one that fails, which returns or ends the program. -/
def startDcp (fatalfReturns : Bool) (request : StreamRequest → Bool) :
    List (UInt16 × FailoverLog) → Outcome
  | [] => .streaming []
  | entry :: flogs =>
      match streamRequest entry with
      | none => .ended
      | some r =>
          if request r then (startDcp fatalfReturns request flogs).opened r
          else if fatalfReturns then startDcp fatalfReturns request flogs
          else .ended

/-- `startBucket`, up to the end of the requests of `startDcp`, which take no time here. -/
def startBucket (fatalfReturns : Bool) (cluster : Cluster C D) (maxVbno : ℕ)
    (endpoint bucketn : Text) : Timed Outcome :=
  let connect := cluster.connectBucket endpoint bucketn
  let vbnos := listOfVbnos maxVbno
  andThen (retry connect connect maxSleep) fun b =>
    andThen (retry (cluster.getFailoverLogs b vbnos) (cluster.refreshedLogs b vbnos) maxSleep)
      fun flogs =>
        andThen (retry (cluster.startDcpFeedOver b) (cluster.startDcpFeedOver b) maxSleep)
          fun feed _ now =>
            some (startDcp fatalfReturns (cluster.dcpRequestStream feed) flogs, now)

structure Logs (vbnos : List UInt16) (flogs : List (UInt16 × FailoverLog)) : Prop where
  nodup : (flogs.map Prod.fst).Nodup
  mem_iff : ∀ v, v ∈ flogs.map Prod.fst ↔ v ∈ vbnos
  nonempty : ∀ entry ∈ flogs, entry.2 ≠ []

/-- No call takes longer than `d`, the logs are as they should be, and from `T` on no call fails
that reaches for the cluster anew. -/
structure Cluster.Up (cluster : Cluster C D) (T d : ℕ) : Prop where
  connectBucket (endpoint bucket : Text) :
    Prompt d (fun _ => True) (cluster.connectBucket endpoint bucket) ∧
      UpFrom T (cluster.connectBucket endpoint bucket)
  getFailoverLogs (b : C) (vbnos : List UInt16) :
    Prompt d (Logs vbnos) (cluster.getFailoverLogs b vbnos)
  refreshedLogs (b : C) (vbnos : List UInt16) :
    Prompt d (Logs vbnos) (cluster.refreshedLogs b vbnos) ∧
      UpFrom T (cluster.refreshedLogs b vbnos)
  startDcpFeedOver (b : C) :
    Prompt d (fun _ => True) (cluster.startDcpFeedOver b) ∧ UpFrom T (cluster.startDcpFeedOver b)

/-- Every bucket number below `maxVbno` has one stream, from its first change on. -/
structure Opened (maxVbno : ℕ) (requests : List StreamRequest) : Prop where
  nodup : (requests.map StreamRequest.vbno).Nodup
  mem_iff : ∀ v : UInt16, v ∈ requests.map StreamRequest.vbno ↔ v.toNat < maxVbno
  whole : ∀ r ∈ requests, r.start = 0 ∧ r.stop.toNat = 2 ^ 64 - 1

section Streams
variable {flogs : List (UInt16 × FailoverLog)} {maxVbno : ℕ} {fatalfReturns : Bool}

/-- Numbers from 2¹⁶ on stand for others again. -/
lemma mem_listOfVbnos (v : UInt16) : v ∈ listOfVbnos maxVbno ↔ v.toNat < maxVbno := by
  simp only [listOfVbnos, List.mem_map, List.mem_range]
  constructor
  · rintro ⟨n, hn, rfl⟩
    exact (UInt16.toNat_ofNat' ▸ Nat.mod_le _ _ : (UInt16.ofNat n).toNat ≤ n).trans_lt hn
  · intro hv
    exact ⟨v.toNat, hv, UInt16.ofNat_toNat⟩

lemma exists_streamRequest {entry : UInt16 × FailoverLog} (h : entry.2 ≠ []) :
    ∃ r, streamRequest entry = some r ∧ r.vbno = entry.1 ∧
      r.start = 0 ∧ r.stop.toNat = 2 ^ 64 - 1 := by
  rw [streamRequest, List.getLast?_eq_some_getLast h, Option.map_some]
  exact ⟨_, rfl, rfl, rfl, rfl⟩

/-- The streams of the requests that do not fail, unless the program ends at one that does. -/
def outcome (fatalfReturns : Bool) (request : StreamRequest → Bool)
    (requests : List StreamRequest) : Outcome :=
  if fatalfReturns ∨ ∀ r ∈ requests, request r = true then .streaming (requests.filter request)
  else .ended

lemma startDcp_cons {request : StreamRequest → Bool} {entry : UInt16 × FailoverLog}
    {r : StreamRequest} {requests : List StreamRequest} (hr : streamRequest entry = some r)
    (hrest : startDcp fatalfReturns request flogs = outcome fatalfReturns request requests) :
    startDcp fatalfReturns request (entry :: flogs) =
      outcome fatalfReturns request (r :: requests) := by
  rw [startDcp, hr, hrest]
  simp only [outcome, List.forall_mem_cons]
  by_cases hone : request r = true
  · simp only [hone, if_true, true_and, List.filter_cons_of_pos hone]
    split_ifs <;> rfl
  · cases fatalfReturns with
    | true => simp only [if_neg hone, if_true, true_or, List.filter_cons_of_neg hone]
    | false => simp only [hone, Bool.false_eq_true, false_and, or_self, if_false]

lemma exists_requests (h : ∀ entry ∈ flogs, entry.2 ≠ []) :
    ∃ requests : List StreamRequest, requests.map StreamRequest.vbno = flogs.map Prod.fst ∧
      (∀ r ∈ requests, r.start = 0 ∧ r.stop.toNat = 2 ^ 64 - 1) ∧
      ∀ request, startDcp fatalfReturns request flogs = outcome fatalfReturns request requests := by
  induction flogs with
  | nil => exact ⟨[], rfl, by simp, fun _ => (if_pos (.inr (by simp))).symm⟩
  | cons entry flogs ih =>
    obtain ⟨hne, hrest⟩ := List.forall_mem_cons.mp h
    obtain ⟨requests, hmap, hwhole, hstart⟩ := ih hrest
    obtain ⟨r, hone, hvbno, hr⟩ := exists_streamRequest hne
    refine ⟨r :: requests, ?_, List.forall_mem_cons.mpr ⟨hr, hwhole⟩, ?_⟩
    · rw [List.map_cons, List.map_cons, hmap, hvbno]
    · intro request
      exact startDcp_cons hone (hstart request)

lemma Logs.opened (h : Logs (listOfVbnos maxVbno) flogs) :
    ∃ requests, Opened maxVbno requests ∧
      ∀ request, startDcp fatalfReturns request flogs = outcome fatalfReturns request requests := by
  obtain ⟨requests, hmap, hwhole, hstart⟩ := exists_requests h.nonempty
  refine ⟨requests, ⟨?_, ?_, hwhole⟩, hstart⟩
  · rw [hmap]
    exact h.nodup
  · intro v
    rw [hmap, h.mem_iff, mem_listOfVbnos]

end Streams

section Times
variable {cluster : Cluster C D} {T d fuel : ℕ}

def oneLoop (d : ℕ) : ℕ := 1 + 2 * d

lemma doneBy_loop {β : Type*} {p : β → Prop} {first service : Service β} (hfirst : Prompt d p first)
    (hd : Prompt d p service) (hup : UpFrom T service) :
    DoneBy T 7 (oneLoop d) p (retry first service maxSleep) :=
  doneBy_retry (k := 3) hfirst hd hup

lemma Cluster.Up.startBucket (h : cluster.Up T d) (fatalfReturns : Bool) (maxVbno : ℕ)
    (endpoint bucketn : Text) :
    DoneBy T 7 (3 * oneLoop d)
      (fun x => ∃ feed requests, Opened maxVbno requests ∧
        x = outcome fatalfReturns (cluster.dcpRequestStream feed) requests)
      (startBucket fatalfReturns cluster maxVbno endpoint bucketn) := by
  have hconnect := h.connectBucket endpoint bucketn
  have hthree : 3 * oneLoop d = oneLoop d + (oneLoop d + (oneLoop d + 0)) := by omega
  rw [hthree]
  unfold DcpStreams.startBucket
  refine (doneBy_loop hconnect.1 hconnect.1 hconnect.2).andThen fun b _ => ?_
  have hlogs := h.refreshedLogs b (listOfVbnos maxVbno)
  refine (doneBy_loop (h.getFailoverLogs b _) hlogs.1 hlogs.2).andThen fun flogs hflogs => ?_
  have hfeed := h.startDcpFeedOver b
  refine (doneBy_loop hfeed.1 hfeed.1 hfeed.2).andThen fun feed _ => ?_
  obtain ⟨requests, hopened, hstart⟩ := hflogs.opened
  exact doneBy_pure ⟨feed, requests, hopened, hstart _⟩

/-- With a cluster that is up from `T` on, `startBucket` gets to the requests for the streams of
all bucket numbers, within a bound in which the last pause of the outage counts once for its three
loops. The streams whose request fails are not asked for again. -/
theorem startBucket_opens (h : cluster.Up T d) (fatalfReturns : Bool) (maxVbno now : ℕ)
    (endpoint bucketn : Text) (hfuel : T < fuel) :
    ∃ feed requests opened, Opened maxVbno requests ∧
      startBucket fatalfReturns cluster maxVbno endpoint bucketn fuel now =
        some (if fatalfReturns = true ∨ ∀ r ∈ requests, cluster.dcpRequestStream feed r = true then
          .streaming (requests.filter (cluster.dcpRequestStream feed)) else .ended, opened) ∧
      now ≤ opened ∧ opened ≤ deadline T 7 (3 * oneLoop d) now := by
  obtain ⟨x, opened, hx, ⟨feed, requests, hopened, rfl⟩, hle, hbound⟩ :=
    h.startBucket fatalfReturns maxVbno endpoint bucketn fuel now hfuel
  exact ⟨feed, requests, opened, hopened, hx, hle, hbound⟩

end Times

def upCluster : Cluster Unit Unit where
  connectBucket _ _ _ := (some (), 0)
  getFailoverLogs _ vbnos _ := (some (vbnos.dedup.map fun v => (v, [(1, 0)])), 0)
  refreshedLogs _ vbnos _ := (some (vbnos.dedup.map fun v => (v, [(1, 0)])), 0)
  startDcpFeedOver _ _ := (some (), 0)
  dcpRequestStream _ _ := true

lemma logs_dedup (vbnos : List UInt16) :
    Logs vbnos (vbnos.dedup.map fun v => (v, [((1 : UInt64), (0 : UInt64))])) where
  nodup := by simpa [Function.comp_def] using List.nodup_dedup vbnos
  mem_iff v := by simp [Function.comp_def]
  nonempty entry h := by
    obtain ⟨v, -, rfl⟩ := List.mem_map.mp h
    simp

lemma up_upCluster : upCluster.Up 0 0 where
  connectBucket _ _ := ⟨⟨fun _ => le_rfl, fun _ _ _ => trivial⟩, fun _ _ => rfl⟩
  getFailoverLogs _ vbnos := ⟨fun _ => le_rfl, fun _ _ h => Option.some.inj h ▸ logs_dedup vbnos⟩
  refreshedLogs _ vbnos :=
    ⟨⟨fun _ => le_rfl, fun _ _ h => Option.some.inj h ▸ logs_dedup vbnos⟩, fun _ _ => rfl⟩
  startDcpFeedOver _ := ⟨⟨fun _ => le_rfl, fun _ _ _ => trivial⟩, fun _ _ => rfl⟩

theorem startBucket_opens_upCluster : ∃ requests opened,
    startBucket true upCluster 1024 [] [] 1 0 = some (.streaming requests, opened) ∧
      Opened 1024 requests ∧ opened ≤ 3 := by
  obtain ⟨feed, requests, opened, hopened, hstart, -, hbound⟩ :=
    startBucket_opens up_upCluster true 1024 0 [] [] Nat.one_pos
  have hfilter : requests.filter (upCluster.dcpRequestStream feed) = requests :=
    List.filter_eq_self.mpr fun _ _ => rfl
  rw [if_pos (.inl rfl), hfilter] at hstart
  exact ⟨requests, opened, hstart, hopened, hbound⟩

end Eventing.DcpStreams
