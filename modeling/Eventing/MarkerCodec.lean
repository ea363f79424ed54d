import Eventing.Delimited
import Eventing.KvStore
import Eventing.Terminated
import Eventing.Utf8

/-!
# The list of a second and its two readers

`RegisterCallback` (`worker.cc`) builds the list of the timers of a second by appending
every document id with a delimiter. `SendTimerCallback` reads the list as a C string with
`getline`, `processTimerEvent` (`proccess_timer_callbacks.go`) with `strings.Split`. Strings
are bytes here, as they are in both languages.
-/
namespace Eventing.MarkerCodec
open KvStore Delimited Terminated Utf8

section Split
variable {α : Type*} [DecidableEq α] {delim : α} {ss item rest : List α}

/-- `getline`: a stream that is used up fails, any other gives what stands before the
delimiter, which is taken off and dropped. -/
def getline (delim : α) (ss : List α) : Option (List α × List α) :=
  if ss = [] then none
  else some (ss.takeWhile (· ≠ delim), (ss.dropWhile (· ≠ delim)).tail)

lemma length_lt_of_getline (h : getline delim ss = some (item, rest)) :
    rest.length < ss.length := by
  unfold getline at h
  split_ifs at h with hss
  simp only [Option.some.injEq, Prod.mk.injEq] at h
  have hpos : 0 < ss.length := List.length_pos_iff.mpr hss
  have hle := (List.dropWhile_suffix (l := ss) (· ≠ delim)).length_le
  rw [← h.2, List.length_tail]
  omega

def split (s : List α) (delim : α) : List (List α) :=
  match _h : getline delim s with
  | none => []
  | some (item, rest) => item :: split rest delim
termination_by s.length
decreasing_by exact length_lt_of_getline _h

lemma split_eq_getlines (s : List α) : split s delim = getlines delim s := by
  induction hn : s.length using Nat.strong_induction_on generalizing s with
  | _ n ih =>
    subst hn
    rw [split]
    split
    next h =>
      have hs : s = [] := by simpa [getline] using h
      rw [hs, getlines]
    next item rest h =>
      rw [ih _ (length_lt_of_getline h) rest rfl]
      unfold getline at h
      split_ifs at h with hs
      simp only [Option.some.injEq, Prod.mk.injEq] at h
      rw [getlines_of_ne_nil hs, h.1, h.2]

end Split

def semicolon : UInt8 := ';'.toUInt8

/-- What `RegisterCallback` does to the list of a second: it adds an empty one where it
finds none, and appends the id with the delimiter. -/
def registerId (timestamp : Bytes) (kv : Store Bytes Bytes) (docId : Bytes) : Store Bytes Bytes :=
  append (add kv timestamp []) timestamp (docId ++ [semicolon])

def bucketGet (kv : Store Bytes Bytes) (docId : Bytes) : Bytes := getOr [] kv docId

/-- The keys that `SendTimerCallback` goes through. It is given a `char` pointer. -/
def callbackKeys (value : Bytes) : List Bytes := split (cut 0 value) semicolon

/-- The keys that `processTimerEvent` deletes after the callbacks, one after the other. -/
def purgedKeys (value : Bytes) : List Bytes := value.splitOn semicolon

lemma bucketGet_registerId (timestamp docId : Bytes) (kv : Store Bytes Bytes) :
    bucketGet (registerId timestamp kv docId) timestamp =
      bucketGet kv timestamp ++ (docId ++ [semicolon]) :=
  getOr_append_add

lemma bucketGet_registered (timestamp : Bytes) (ids : List Bytes) (kv : Store Bytes Bytes) :
    bucketGet (ids.foldl (registerId timestamp) kv) timestamp =
      bucketGet kv timestamp ++ terminated semicolon ids := by
  induction ids generalizing kv with
  | nil => simp
  | cons id ids ih =>
    rw [List.foldl_cons, ih, bucketGet_registerId, terminated_cons]
    simp

lemma callbackKeys_of_notMem {s : Bytes} (h : 0 ∉ s) : callbackKeys s = split s semicolon := by
  rw [callbackKeys, cut_of_notMem h]

/-- `strings.Split` finds what `split` finds, and the empty string behind a last delimiter
or in an empty string. -/
lemma splitOn_eq_split (s : Bytes) : s.splitOn semicolon =
    split s semicolon ++ if s = [] ∨ s.getLast? = some semicolon then [[]] else [] := by
  rw [split_eq_getlines, splitOn_eq_getlines]

/-- The list that registrations build is read back exactly when no id contains the
delimiter. On every string the two readers differ by one empty string at most, so that a
tick deletes the keys that were called, and at most the empty key. -/
theorem marker_readers_agree :
    (∀ (kv : Store Bytes Bytes) (timestamp : Bytes) (ids : List Bytes),
      get kv timestamp = none → (∀ id ∈ ids, 0 ∉ id) →
      let m := bucketGet (ids.foldl (registerId timestamp) kv) timestamp
      m = ids.flatMap (· ++ [semicolon]) ∧ callbackKeys m = split m semicolon ∧
        (split m semicolon = ids ↔ ∀ id ∈ ids, semicolon ∉ id)) ∧
    (∀ s : Bytes, s.splitOn semicolon =
      if s = [] ∨ s.getLast? = some semicolon then split s semicolon ++ [[]]
      else split s semicolon) ∧
    (∀ s : Bytes, 0 ∉ s →
      purgedKeys s = callbackKeys s ∨ purgedKeys s = callbackKeys s ++ [[]]) := by
  refine ⟨?_, ?_, ?_⟩
  · intro kv timestamp ids hkv hnul
    have hm : bucketGet (ids.foldl (registerId timestamp) kv) timestamp =
        terminated semicolon ids := by
      rw [bucketGet_registered]
      simp [bucketGet, getOr, hkv]
    rw [hm]
    refine ⟨rfl, callbackKeys_of_notMem (notMem_terminated (by decide) hnul), ?_⟩
    rw [split_eq_getlines]
    exact getlines_terminated_iff
  · intro s
    rw [splitOn_eq_split]
    split_ifs
    · rfl
    · exact List.append_nil _
  · intro s hs
    rw [purgedKeys, callbackKeys_of_notMem hs, splitOn_eq_split]
    split_ifs
    · exact .inr rfl
    · exact .inl (List.append_nil _)

/-- Two ids, one of them empty, registered for a second that has no list. -/
theorem marker_readers_agree_two :
    split (bucketGet ([[97], []].foldl (registerId [84]) empty) [84]) semicolon = [[97], []] ∧
      purgedKeys [97, semicolon] = callbackKeys [97, semicolon] ++ [[]] := by
  have h := marker_readers_agree
  refine ⟨(h.1 empty [84] [[97], []] rfl (by decide)).2.2.mpr (by decide), ?_⟩
  rcases h.2.2 [97, semicolon] (by decide) with hp | hp
  · rw [callbackKeys_of_notMem (by decide), split_eq_getlines] at hp
    exact absurd hp (by decide)
  · exact hp

end Eventing.MarkerCodec
