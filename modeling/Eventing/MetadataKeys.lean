import Eventing.CasMarker
import Eventing.Timer

/-!
# The keys of the metadata bucket

Four components keep records in the metadata bucket, under keys that each of them
formats on its own: the CAS markers of `BucketSet` (`bucket.cc`), the timer blobs and the
timestamp lists of `RegisterCallback` (`worker.cc`), and the static assets of
`storeAppSetup` (`http_handlers.go`). Which pairs of records have different keys, and are left
alone by what is stored and deleted for the other one.
-/
namespace Eventing.MetadataKeys
open CasMarker Decimal Delimited KvStore Timer Timestamp

inductive Record
  | casMarker (cas : Cas)
  | timerBlob (docId : Text)
  | timestampMarker (t : Second)
  | staticAsset (appName name : Text)
  deriving DecidableEq

/-- `fmt.Sprintf("%s_%s", appName, name)` -/
def assetCBKey (appName name : Text) : Text := appName ++ '_' :: name

def storeKey (host : Host) : Record → Text
  | .casMarker cas => casKey host cas
  | .timerBlob docId => cString docId
  | .timestampMarker t => iso8601 t
  | .staticAsset appName name => assetCBKey appName name

/-- The text by which a timer is in the list of its second. -/
def entry (docId : Text) : Text := cString docId ++ [';']

/-- The keys that `handleDcpEvent`, `processTimerEvent` and `storeAppSetup` delete for a record. -/
def purgeKeys : Record → List Text
  | .casMarker cas => [casValue cas]
  | .timerBlob docId => (entry docId).splitOn ';'
  | .timestampMarker t => [iso8601 t]
  | .staticAsset appName name => [assetCBKey appName name]

abbrev Bucket := Store Text Text

/-- No operation succeeds for the empty key. -/
def fetch (s : Bucket) (key : Text) : Option Text := if key = [] then none else get s key

/-- The documents that `SendTimerCallback` fetches, up to the first one that is no timer blob. -/
def sendTimerCallback (json : Json) (s : Bucket) : List Text → List (Option Text)
  | [] => []
  | key :: keys =>
      fetch s key ::
        match json.parse ((fetch s key).getD []) with
        | .timer _ => sendTimerCallback json s keys
        | .error | .other => []

/-- `splits[3]` of `handleStaticAssets`, when the request URI goes on with the name behind its
third slash. -/
def requestedName (name : Text) : Text := name.takeWhile (· ≠ '/')

/-- What `handleDcpEvent`, `SendTimerCallback`, `processTimerEvent` and `handleStaticAssets`
read for a record, for a timer from its entry in a list. -/
def read (json : Json) (s : Bucket) : Record → List (Option Text)
  | .casMarker cas => [fetch s (casValue cas)]
  | .timerBlob docId => sendTimerCallback json s (splitKeys (entry docId))
  | .timestampMarker t => [fetch s (iso8601 t)]
  | .staticAsset appName name => [fetch s (assetCBKey appName (requestedName name))]

/-- Different records have different keys, and to store or purge the first leaves what is read
for the second. -/
def KeptApart (json : Json) (host : Host) (r r' : Record) : Prop :=
  (storeKey host r = storeKey host r' → r = r') ∧
    (r ≠ r' → ∀ (s : Bucket) (v : Text),
      read json (set s (storeKey host r) v) r' = read json s r' ∧
        read json ((purgeKeys r).foldl delete s) r' = read json s r')

/-- What stands between the semicolons of a document id, up to a NUL. -/
def ids (docId : Text) : List Text := (cString docId).splitOn ';'

/-- The first empty id ends the callbacks. -/
def calledIds (docId : Text) : List Text := (ids docId).takeWhile (· ≠ [])

/-- Two assets are the same, or one application's name goes on, after the other's and an
underscore, with a part of the other's asset. -/
def Alike (a n a' n' : Text) : Prop := (a = a' ∧ n = n') ∨
  ∃ m, (a' = a ++ '_' :: m ∧ n = m ++ '_' :: n') ∨ (a = a' ++ '_' :: m ∧ n' = m ++ '_' :: n)

/-- No id of a document id is spelled like the other record's numeral, time or asset, or like an
id of another one, and neither is the document id itself; and two assets are not alike, also when
the second is requested. -/
def Apart : Record → Record → Prop
  | .timerBlob d, .timerBlob d' =>
      d ≠ d' → cString d ≠ cString d' ∧ ∀ id ∈ ids d, id ∉ calledIds d'
  | .timerBlob d, .casMarker cas => decimal cas.toNat ∉ ids d
  | .casMarker cas, .timerBlob d => decimal cas.toNat ∉ calledIds d
  | .timerBlob d, .timestampMarker t => iso8601 t ∉ ids d
  | .timestampMarker t, .timerBlob d => iso8601 t ∉ calledIds d
  | .timerBlob d, .staticAsset a n => cString d ≠ assetCBKey a n ∧
      cString d ≠ assetCBKey a (requestedName n) ∧ assetCBKey a (requestedName n) ∉ ids d
  | .staticAsset a n, .timerBlob d => cString d ≠ assetCBKey a n ∧ assetCBKey a n ∉ calledIds d
  | .staticAsset a n, .staticAsset a' n' =>
      (a = a' ∧ n = n') ∨ (¬ Alike a n a' n' ∧ ¬ Alike a n a' (requestedName n'))
  | _, _ => True

section Characters
variable {cas : Cas} {t : Second} {a n a' n' : Text}

lemma notMem_casValue {c : Char} (h : c.isDigit = false) : c ∉ casValue cas := by
  intro hc
  have hd := Nat.isDigit_of_mem_toDigits (by decide) (by decide) hc
  rw [hd] at h
  contradiction

lemma underscore_notMem_iso8601 : '_' ∉ iso8601 t := by
  have h : ∀ width n, '_' ∉ padded width n := fun _ _ => notMem_padded (by decide)
  simp [iso8601, strftime, h]

lemma underscore_mem_assetCBKey : '_' ∈ assetCBKey a n := by simp [assetCBKey]

lemma casValue_ne_iso8601 : casValue cas ≠ iso8601 t := by
  intro h
  have hT : 'T' ∈ casValue cas := h ▸ dateMark_mem_iso8601 t
  exact notMem_casValue (by decide) hT

lemma casValue_ne_assetCBKey : casValue cas ≠ assetCBKey a n := by
  intro h
  have hu : '_' ∈ casValue cas := h ▸ underscore_mem_assetCBKey
  exact notMem_casValue (by decide) hu

lemma iso8601_ne_assetCBKey : iso8601 t ≠ assetCBKey a n := by
  intro h
  exact underscore_notMem_iso8601 (h ▸ underscore_mem_assetCBKey)

lemma assetCBKey_eq_iff : assetCBKey a n = assetCBKey a' n' ↔ Alike a n a' n' := by
  constructor
  · intro h
    rcases List.append_eq_append_iff.mp h with ⟨m, hm, hn⟩ | ⟨m, hm, hn⟩
    · cases m with
      | nil => exact .inl ⟨by simpa using hm.symm, (List.cons.inj hn).2⟩
      | cons c m =>
        rw [List.cons_append, List.cons.injEq] at hn
        exact .inr ⟨m, .inl ⟨by rw [hm, ← hn.1], hn.2⟩⟩
    · cases m with
      | nil => exact .inl ⟨by simpa using hm, (List.cons.inj hn).2.symm⟩
      | cons c m =>
        rw [List.cons_append, List.cons.injEq] at hn
        exact .inr ⟨m, .inr ⟨by rw [hm, ← hn.1], hn.2⟩⟩
  · rintro (⟨rfl, rfl⟩ | ⟨m, ⟨rfl, rfl⟩ | ⟨rfl, rfl⟩⟩)
    · rfl
    · simp [assetCBKey]
    · simp [assetCBKey]

lemma assetCBKey_ne_nil : assetCBKey a n ≠ [] := by simp [assetCBKey]

lemma iso8601_ne_nil : iso8601 t ≠ [] := List.ne_nil_of_mem (dateMark_mem_iso8601 t)

lemma casValue_ne_nil : casValue cas ≠ [] := Nat.toDigits_ne_nil

lemma semicolon_notMem_iso8601 : ';' ∉ iso8601 t := by
  have h : ∀ width n, ';' ∉ padded width n := fun _ _ => notMem_padded (by decide)
  simp [iso8601, strftime, h]

end Characters

section Ids
variable {d : Text} {key : Text}

lemma splitKeys_entry (d : Text) : splitKeys (entry d) = ids d := by
  have hnul : '\x00' ∉ entry d := by
    simp [entry, nul_notMem_cString d]
  rw [splitKeys, cString_of_notMem hnul, entry, getlines_concat, ids]

lemma purgeKeys_timerBlob (d : Text) : purgeKeys (.timerBlob d) = ids d ++ [[]] :=
  splitOn_concat ';' (cString d)

lemma mem_calledIds (h : key ∈ calledIds d) : key ∈ ids d ∧ key ≠ [] := by
  have hne := List.mem_takeWhile_imp h
  exact ⟨(List.takeWhile_subset _) h, by simpa using hne⟩

lemma calledIds_of_cString (h : cString d = key) (hkey : ';' ∉ key) (hne : key ≠ []) :
    key ∈ calledIds d := by
  rw [calledIds, ids, h, List.splitOn_eq_singleton hkey]
  simp [hne]

lemma mem_ids_of_cString (h : cString d = key) (hkey : ';' ∉ key) (hne : key ≠ []) : key ∈ ids d :=
  (mem_calledIds (calledIds_of_cString h hkey hne)).1

end Ids

/-- The keys that are looked up for a record. -/
def lookedUp : Record → List Text
  | .casMarker cas => [casValue cas]
  | .timerBlob docId => calledIds docId
  | .timestampMarker t => [iso8601 t]
  | .staticAsset appName name => [assetCBKey appName (requestedName name)]

def everywhere (doc : Text) : Bucket := fun _ => some doc

section Reads
variable {json : Json} {s t : Bucket} {key : Text} {r r' : Record} {keys : List Text}

lemma ne_nil_of_mem_lookedUp (h : key ∈ lookedUp r) : key ≠ [] := by
  cases r with
  | casMarker cas => exact List.mem_singleton.mp h ▸ casValue_ne_nil
  | timerBlob d => exact (mem_calledIds h).2
  | timestampMarker t => exact List.mem_singleton.mp h ▸ iso8601_ne_nil
  | staticAsset a n => exact List.mem_singleton.mp h ▸ assetCBKey_ne_nil

lemma sendTimerCallback_congr (h : ∀ key ∈ keys.takeWhile (· ≠ []), fetch s key = fetch t key) :
    sendTimerCallback json s keys = sendTimerCallback json t keys := by
  induction keys with
  | nil => rfl
  | cons key keys ih =>
    by_cases hkey : key = []
    · subst hkey
      simp [sendTimerCallback, fetch, json.parse_empty]
    · have hwhile : (key :: keys).takeWhile (· ≠ []) = key :: keys.takeWhile (· ≠ []) := by simp [hkey]
      rw [hwhile] at h
      rw [sendTimerCallback, sendTimerCallback, h key List.mem_cons_self,
        ih fun key hk => h key (List.mem_cons_of_mem _ hk)]

lemma read_congr (h : ∀ key ∈ lookedUp r, fetch s key = fetch t key) :
    read json s r = read json t r := by
  cases r with
  | timerBlob d =>
    rw [read, read, splitKeys_entry]
    exact sendTimerCallback_congr h
  | _ => exact congrArg (fun doc => [doc]) (h _ (List.mem_singleton.mpr rfl))

lemma sendTimerCallback_everywhere {doc : Text} {b : Blob} (hdoc : json.parse doc = .timer b)
    (h : sendTimerCallback json s keys = sendTimerCallback json (everywhere doc) keys) :
    ∀ key ∈ keys.takeWhile (· ≠ []), fetch s key = some doc := by
  induction keys with
  | nil => simp
  | cons key keys ih =>
    by_cases hkey : key = []
    · simp [hkey]
    · have hfetch : fetch (everywhere doc) key = some doc := if_neg hkey
      rw [sendTimerCallback, sendTimerCallback, hfetch, List.cons.injEq] at h
      obtain ⟨hs, hrest⟩ := h
      simp only [hs, Option.getD_some, hdoc] at hrest
      have hwhile : (key :: keys).takeWhile (· ≠ []) = key :: keys.takeWhile (· ≠ []) := by simp [hkey]
      rw [hwhile, List.forall_mem_cons]
      exact ⟨hs, ih hrest⟩

lemma read_everywhere {doc : Text} {b : Blob} (hdoc : json.parse doc = .timer b)
    (h : read json s r = read json (everywhere doc) r) : ∀ key ∈ lookedUp r, fetch s key = some doc := by
  have hsingle {key : Text} (hne : key ≠ []) (h : [fetch s key] = [fetch (everywhere doc) key]) :
      ∀ key' ∈ [key], fetch s key' = some doc := by
    intro key' hkey'
    rw [List.mem_singleton.mp hkey', (List.cons.inj h).1]
    exact if_neg hne
  cases r with
  | casMarker cas => exact hsingle casValue_ne_nil h
  | timerBlob d =>
    rw [read, read, splitKeys_entry] at h
    exact sendTimerCallback_everywhere hdoc h
  | timestampMarker t => exact hsingle iso8601_ne_nil h
  | staticAsset a n => exact hsingle assetCBKey_ne_nil h

lemma get_foldl_delete (keys : List Text) (key : Text) :
    get (keys.foldl delete s) key = if key ∈ keys then none else get s key := by
  induction keys generalizing s with
  | nil => simp
  | cons k keys ih =>
    rw [List.foldl_cons, ih]
    by_cases hmem : key ∈ keys
    · simp [hmem]
    · by_cases hk : key = k
      · simp [hk]
      · simp [hmem, hk]

/-- What is stored and purged for a record is not looked up for another one. -/
def Untouched (host : Host) (r r' : Record) : Prop :=
  storeKey host r ∉ lookedUp r' ∧ ∀ key ∈ purgeKeys r, key ∉ lookedUp r'

lemma untouched_iff (json : Json) (host : Host) (r r' : Record) : Untouched host r r' ↔
    ∀ (s : Bucket) (v : Text), read json (set s (storeKey host r) v) r' = read json s r' ∧
      read json ((purgeKeys r).foldl delete s) r' = read json s r' := by
  constructor
  · rintro ⟨hstore, hpurge⟩ s v
    constructor
    · apply read_congr
      intro key hkey
      have hne : key ≠ storeKey host r := fun he => hstore (he ▸ hkey)
      rw [fetch, fetch, get_set_of_ne hne]
    · apply read_congr
      intro key hkey
      have hnot : key ∉ purgeKeys r := fun hmem => hpurge key hmem hkey
      rw [fetch, fetch, get_foldl_delete, if_neg hnot]
  · intro h
    -- A bucket in which everything is a timer blob shows every change.
    have hdoc : json.parse (json.write ⟨[], [], []⟩) = .timer ⟨[], [], []⟩ :=
      json.parse_write _ ⟨List.not_mem_nil, List.not_mem_nil, List.not_mem_nil⟩
    constructor
    · intro hmem
      have hread := read_everywhere hdoc
        (h (everywhere (json.write ⟨[], [], []⟩)) ('x' :: json.write ⟨[], [], []⟩)).1 _ hmem
      rw [fetch, if_neg (ne_nil_of_mem_lookedUp hmem), get_set_self, Option.some.injEq] at hread
      exact List.cons_ne_self _ _ hread
    · intro key hkey hmem
      have hread := read_everywhere hdoc
        (h (everywhere (json.write ⟨[], [], []⟩)) []).2 key hmem
      rw [fetch, if_neg (ne_nil_of_mem_lookedUp hmem), get_foldl_delete, if_pos hkey] at hread
      contradiction

end Reads

section Pairs
variable {host : Host} {cas cas' : Cas} {t t' : Second} {a n a' n' d d' : Text}

lemma storeKey_casMarker (host : Host) (cas : Cas) : storeKey host (.casMarker cas) = casValue cas :=
  casKey_eq_casValue host cas

lemma untouched_single {r r' : Record} {key : Text} (hstore : storeKey host r = key)
    (hpurge : purgeKeys r = [key]) : Untouched host r r' ↔ key ∉ lookedUp r' := by
  simp [Untouched, hstore, hpurge]

lemma untouched_timerBlob (r' : Record) : Untouched host (.timerBlob d) r' ↔
    cString d ∉ lookedUp r' ∧ ∀ id ∈ ids d, id ∉ lookedUp r' := by
  have hnil : [] ∉ lookedUp r' := fun h => ne_nil_of_mem_lookedUp h rfl
  rw [Untouched, purgeKeys_timerBlob, List.forall_mem_append, List.forall_mem_singleton,
    and_iff_left hnil]
  rfl

lemma cString_notMem_calledIds (h : ∀ id ∈ ids d, id ∉ calledIds d') : cString d ∉ calledIds d' := by
  intro hmem
  have hsep : ';' ∉ cString d := sep_notMem_of_mem_splitOn (mem_calledIds hmem).1
  exact h _ (mem_ids_of_cString rfl hsep (mem_calledIds hmem).2) hmem

lemma keptApart_iff_of_ne {json : Json} {r r' : Record} (hne : r ≠ r') : KeptApart json host r r' ↔
    storeKey host r ≠ storeKey host r' ∧ Untouched host r r' := by
  rw [KeptApart, untouched_iff json]
  exact and_congr ⟨fun h he => hne (h he), fun h he => absurd he h⟩ (forall_prop_of_true hne)

lemma keptApart_self (json : Json) (host : Host) (r : Record) : KeptApart json host r r :=
  ⟨fun _ => rfl, fun h => absurd rfl h⟩

lemma timerBlob_apart {r' : Record} {key : Text} (hkey : storeKey host r' = key)
    (hlooked : lookedUp r' = [key]) (hsep : ';' ∉ key) (hne : key ≠ []) :
    (storeKey host (.timerBlob d) ≠ storeKey host r' ∧ Untouched host (.timerBlob d) r') ↔
      key ∉ ids d := by
  rw [untouched_timerBlob, hkey, hlooked]
  simp only [List.mem_singleton]
  constructor
  · rintro ⟨-, -, hids⟩ hmem
    exact hids key hmem rfl
  · intro hmem
    have hstring : cString d ≠ key := fun he => hmem (mem_ids_of_cString he hsep hne)
    exact ⟨hstring, hstring, fun id hid he => hmem (he ▸ hid)⟩

lemma apart_timerBlob {r : Record} {key : Text} (hstore : storeKey host r = key)
    (hpurge : purgeKeys r = [key]) (hsep : ';' ∉ key) (hne : key ≠ []) :
    (storeKey host r ≠ storeKey host (.timerBlob d) ∧ Untouched host r (.timerBlob d)) ↔
      key ∉ calledIds d := by
  rw [untouched_single hstore hpurge, hstore]
  constructor
  · exact And.right
  · exact fun h => ⟨fun he => h (calledIds_of_cString he.symm hsep hne), h⟩

lemma keptApart_of_keys (json : Json) {r r' : Record} {key key' looked : Text}
    (hstore : storeKey host r = key) (hpurge : purgeKeys r = [key]) (hstore' : storeKey host r' = key')
    (hlooked : lookedUp r' = [looked]) (hkey : key ≠ key') (hread : key ≠ looked) :
    KeptApart json host r r' := by
  by_cases he : r = r'
  · exact he ▸ keptApart_self json host r
  · rw [keptApart_iff_of_ne he, untouched_single hstore hpurge, hstore, hstore', hlooked]
    exact ⟨hkey, by simpa using hread⟩

/-- Records of one kind whose parameter can be read off their key. -/
lemma keptApart_of_injective (json : Json) {α : Type*} {record : α → Record} {key : α → Text}
    (hstore : ∀ x, storeKey host (record x) = key x) (hpurge : ∀ x, purgeKeys (record x) = [key x])
    (hlooked : ∀ x, lookedUp (record x) = [key x]) (hkey : Function.Injective key) (x y : α) :
    KeptApart json host (record x) (record y) := by
  by_cases he : x = y
  · exact he ▸ keptApart_self json host _
  · have hne : key x ≠ key y := hkey.ne he
    exact keptApart_of_keys json (hstore x) (hpurge x) (hstore y) (hlooked y) hne hne

lemma keptApart_assets (json : Json) : KeptApart json host (.staticAsset a n) (.staticAsset a' n') ↔
    Apart (.staticAsset a n) (.staticAsset a' n') := by
  by_cases he : a = a' ∧ n = n'
  · obtain ⟨rfl, rfl⟩ := he
    exact iff_of_true (keptApart_self json host _) (.inl ⟨rfl, rfl⟩)
  · have hne : Record.staticAsset a n ≠ .staticAsset a' n' := by simpa using he
    have hkey : storeKey host (.staticAsset a n) ≠ storeKey host (.staticAsset a' n') ↔
        ¬ Alike a n a' n' := not_congr assetCBKey_eq_iff
    have hlooked : assetCBKey a n ∉ lookedUp (.staticAsset a' n') ↔
        ¬ Alike a n a' (requestedName n') := by
      rw [lookedUp, List.mem_singleton, assetCBKey_eq_iff]
    have hstore : storeKey host (.staticAsset a n) = assetCBKey a n := rfl
    rw [keptApart_iff_of_ne hne, untouched_single hstore rfl, hkey, hlooked]
    exact (or_iff_right he).symm

lemma keptApart_timerBlobs (json : Json) : KeptApart json host (.timerBlob d) (.timerBlob d') ↔
    Apart (.timerBlob d) (.timerBlob d') := by
  by_cases he : d = d'
  · subst he
    exact iff_of_true (keptApart_self json host _) fun h => absurd rfl h
  · have hne : Record.timerBlob d ≠ .timerBlob d' := by simpa using he
    rw [keptApart_iff_of_ne hne, untouched_timerBlob, Apart, forall_prop_of_true he]
    exact and_congr_right fun _ => ⟨And.right, fun h => ⟨cString_notMem_calledIds h, h⟩⟩

end Pairs

end Eventing.MetadataKeys
