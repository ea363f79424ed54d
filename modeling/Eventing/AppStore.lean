import Eventing.AppFile
import Eventing.AssetEdits

/-!
# The apps directory

`storeAppSetup` (`http_handlers.go`) writes the file of an application from the payload of a
request, and `fetchAppSetup` answers with the applications of all files. The directory is a map
from files to applications, whatever requests come; the workers read their deployment in its
files.
-/
namespace Eventing.AppStore
open GoJson JsonText OrderedMap AppFile AssetEdits GoSlice
open RapidJson (Reader)

variable {F : Type} {δ : Type*}

/-- `asset["operation"].(string)` -/
def operation : Interface F → Option Operation
  | .string s =>
      if s = "delete".toList then some .delete
      else if s = "add".toList then some .add
      else some (.other s)
  | _ => none

def readOperation (m : GoMap F) : Option (Option Operation) :=
  match get "operation".toList m with
  | none => some none
  | some x => (operation x).map some

/-- The keys of an entry that the loop reads. Its name has to be a string, and its operation
as well where it has one. -/
def readEntry (m : GoMap F) : Option (Asset Unit) := do
  let name ← asString (index m "name")
  let op ← readOperation m
  return ⟨name, op, asString (index m "content"), none, ()⟩

/-- The entry after the loop has been through it. -/
def writeEntry (m : GoMap F) (a : Asset Unit) : GoMap F :=
  match a.mimeType with
  | some mimeType =>
      erase "content".toList (erase "operation".toList (assign "mimeType".toList (.string mimeType) m))
  | none => m

def entries (app : Application F) : List (Option (GoMap F)) := app.assets.getD []

def writtenEntry (app : Application F) (e : Edit Unit) (r : ℕ) : Option (GoMap F) :=
  (entries app)[r]?.join.map fun m => ((e.maps r).map (writeEntry m)).getD m

def writtenAssets (app : Application F) (e : Edit Unit) : Option (List (Option (GoMap F))) :=
  app.assets.map fun _ => (e.cells.take e.assets.len).map (writtenEntry app e)

def initialEdit (spare : ℕ) (app : Application F) : Edit Unit where
  maps r := (entries app)[r]?.join.bind readEntry
  cells := List.range (entries app).length
  assets := ⟨(entries app).length, (entries app).length + spare⟩
  bucket := []

/-- The loop over the assets of the payload: the application that is written and what the
bucket receives. -/
def editAssets (appName : Text) (info : Bool) (spare : ℕ) (app : Application F) :
    Option (Application F × List BucketOp) :=
  (editFrom appName info (entries app).length 0 (initialEdit spare app)).map fun e =>
    ({ app with assets := writtenAssets app e }, e.bucket)

lemma canonical_writeEntry {m : GoMap F} (h : Canonical (.object m)) (a : Asset Unit) :
    Canonical (.object (writeEntry m a)) := by
  obtain ⟨hsorted, hmembers⟩ := h
  rw [writeEntry]
  cases a.mimeType with
  | none => exact ⟨hsorted, hmembers⟩
  | some mimeType =>
    refine ⟨((hsorted.assign _ _).erase _).erase _, canonicalMembers_iff.mpr ?_⟩
    intro p hp
    rcases mem_assign (mem_of_mem_erase (mem_of_mem_erase hp)) with rfl | hp
    · trivial
    · exact canonicalMembers_iff.mp hmembers p hp

theorem valid_editAssets {appName : Text} {info : Bool} {spare : ℕ} {app app' : Application F}
    {ops : List BucketOp} (h : app.Valid)
    (hedit : editAssets appName info spare app = some (app', ops)) : app'.Valid := by
  obtain ⟨e, -, he⟩ := Option.map_eq_some_iff.mp hedit
  obtain rfl := congrArg Prod.fst he
  refine ⟨h.id, h.deploymentConfig, ?_⟩
  intro l hl m hm
  obtain ⟨l₀, hl₀, rfl⟩ := Option.map_eq_some_iff.mp hl
  obtain ⟨r, -, hr⟩ := List.mem_map.mp hm
  obtain ⟨m₀, hm₀, rfl⟩ := Option.map_eq_some_iff.mp hr
  have hmem : some m₀ ∈ l₀ := by
    have hget := Option.join_eq_some_iff.mp hm₀
    rw [entries, hl₀] at hget
    exact List.mem_of_getElem? hget
  have hcanonical := h.assets l₀ hl₀ m₀ hmem
  cases e.maps r with
  | none => exact hcanonical
  | some a => exact canonical_writeEntry hcanonical a

/-- An entry that the loop reads and leaves as it is. -/
def Quiet (x : Option (GoMap F)) : Prop :=
  ∃ m a, x = some m ∧ readEntry m = some a ∧ a.operation ≠ some .delete ∧ a.operation ≠ some .add

lemma mimeType_readEntry {m : GoMap F} {a : Asset Unit} (h : readEntry m = some a) :
    a.mimeType = none := by
  obtain ⟨name, -, h⟩ := Option.bind_eq_some_iff.mp h
  obtain ⟨op, -, h⟩ := Option.bind_eq_some_iff.mp h
  rw [← Option.some.inj h]

lemma editFrom_of_forall {appName : Text} {info : Bool} {e : Edit Unit} {index count : ℕ}
    (hcells : index + count ≤ e.cells.length)
    (h : ∀ r ∈ e.cells, ∃ a, e.maps r = some a ∧ a.operation ≠ some .delete ∧ a.operation ≠ some .add) :
    editFrom appName info count index e = some e := by
  induction count generalizing index with
  | zero => rfl
  | succ count ih =>
    have hlt : index < e.cells.length := by omega
    obtain ⟨a, ha, hdelete, hadd⟩ := h _ (List.getElem_mem hlt)
    have hstep : editAsset appName info e index = some e := by
      rw [editAsset, List.getElem?_eq_getElem hlt, Option.bind_some, ha, Option.bind_some]
      split <;> simp_all
    rw [editFrom, hstep, Option.bind_some, ih (by omega)]

lemma editAssets_quiet {appName : Text} {info : Bool} {spare : ℕ} {app : Application F}
    (h : ∀ x ∈ entries app, Quiet x) : editAssets appName info spare app = some (app, []) := by
  have hentry (r : ℕ) (hr : r < (entries app).length) : ∃ m a, (entries app)[r] = some m ∧
      (initialEdit spare app).maps r = some a ∧ a.mimeType = none ∧
      a.operation ≠ some .delete ∧ a.operation ≠ some .add := by
    obtain ⟨m, a, hm, ha, hop⟩ := h _ (List.getElem_mem hr)
    refine ⟨m, a, hm, ?_, mimeType_readEntry ha, hop⟩
    show (entries app)[r]?.join.bind readEntry = some a
    rw [List.getElem?_eq_getElem hr, Option.join_some, hm, Option.bind_some, ha]
  have hloop : editFrom appName info (entries app).length 0 (initialEdit spare app) =
      some (initialEdit spare app) := by
    apply editFrom_of_forall (by simp [initialEdit])
    intro r hr
    obtain ⟨m, a, -, ha, -, hop⟩ := hentry r (List.mem_range.mp hr)
    exact ⟨a, ha, hop⟩
  have hrange : (List.range (entries app).length).map (writtenEntry app (initialEdit spare app)) =
      entries app := by
    apply List.ext_getElem
    · simp
    · intro r hr hr'
      obtain ⟨m, a, hm, ha, hmime, -⟩ := hentry r hr'
      have hget : (entries app)[r]?.join = some m := by
        rw [List.getElem?_eq_getElem hr', Option.join_some, hm]
      rw [List.getElem_map, List.getElem_range, writtenEntry, hget, ha, hm]
      simp [writeEntry, hmime]
  have hwritten : writtenAssets app (initialEdit spare app) = app.assets := by
    have htake : (initialEdit spare app).cells.take (initialEdit spare app).assets.len =
        List.range (entries app).length := List.take_of_length_le (by simp [initialEdit])
    rw [writtenAssets, htake, hrange, entries]
    cases app.assets <;> rfl
  rw [editAssets, hloop, Option.map_some, hwritten]
  rfl

section Server
variable (floats : Floats F) (writeFile : Text → Option Text)

/-- Why a payload is not stored: it is not an application, or the loop panics. -/
inductive Refusal
  | notUnmarshaled
  | panicked

/-- What the payload of a request makes the file of the application. -/
def accept (appName : Text) (info : Bool) (spare : ℕ) (payload : Text) :
    Except Refusal (Application F) :=
  match unmarshalApp floats payload with
  | none => .error .notUnmarshaled
  | some app =>
      match editAssets appName info spare app with
      | none => .error .panicked
      | some (app', _) => .ok app'

/-- How far a request to store gets: it waits for `tableLock` for ever, or it gets past it and
waits for the lock or at a send once the file is written, or it is answered. -/
inductive Progress
  | waits
  | writes
  | answers
  deriving DecidableEq

/-- A request. Whether the application is set up under a path, and the cells to spare behind
the assets, are part of it. -/
inductive Request
  | store (appName : Text) (info : Bool) (spare : ℕ) (progress : Progress) (payload : Text)
  | fetch

/-- The files of `./apps/`, in the order of their names, as `ReadDir` gives them. -/
abbrev Directory := List (Text × Text)

def storedText : Text := "Stored application config to disk\n".toList

def refusedText (appName : Text) : Text :=
  "Failed to unmarshal payload for appname: ".toList ++ appName ++ ['\n']

/-- `storeAppSetup`, up to the response; a connection that a panic closes has none. The name of an
application need not be that of a file of `./apps/`, and an error of `WriteFile` is ignored. -/
def storeAppSetup (appName : Text) (info : Bool) (spare : ℕ) (progress : Progress) (payload : Text)
    (files : Directory) : Directory × Option Text :=
  match progress, accept floats appName info spare payload with
  | .waits, _ => (files, none)
  | progress, .ok app =>
      ((writeFile appName).elim files fun file => assign file (marshalApp floats app) files,
        if progress = .answers then some storedText else none)
  | _, .error .notUnmarshaled => (files, some (refusedText appName))
  | _, .error .panicked => (files, none)

/-- `fetchAppSetup`, for files that hold applications. -/
def fetchAppSetup (files : Directory) : Option Text :=
  (files.mapM fun f => unmarshalApp floats f.2).map fun respData =>
    writeArray (respData.map (marshalApp floats)) ++ ['\n']

def serve (files : Directory) : Request → Directory × Option Text
  | .store appName info spare progress payload =>
      storeAppSetup floats writeFile appName info spare progress payload files
  | .fetch => (files, fetchAppSetup floats files)

def serveAll : Directory → List Request → Directory × List (Option Text)
  | files, [] => (files, [])
  | files, r :: rs =>
      let (files, response) := serve floats writeFile files r
      let (files, responses) := serveAll files rs
      (files, response :: responses)

end Server

/-- The applications by their files. -/
structure Catalog (F : Type) where
  apps : List (Text × Application F)
  sorted : Sorted apps
  valid : ∀ p ∈ apps, p.2.Valid

def Catalog.empty : Catalog F := ⟨[], List.Pairwise.nil, by simp⟩

def Catalog.store (c : Catalog F) (file : Text) (app : Application F) (h : app.Valid) :
    Catalog F where
  apps := assign file app c.apps
  sorted := c.sorted.assign _ _
  valid p hp := by
    rcases mem_assign hp with rfl | hp
    · exact h
    · exact c.valid p hp

section Refinement
variable (floats : Floats F) (writeFile : Text → Option Text)

lemma valid_accept {appName : Text} {info : Bool} {spare : ℕ} {payload : Text} {app : Application F}
    (h : accept floats appName info spare payload = .ok app) : app.Valid := by
  rw [accept] at h
  split at h
  · contradiction
  · rename_i app₀ happ
    split at h
    · contradiction
    · rename_i app' ops hedit
      obtain rfl := Except.ok.inj h
      exact valid_editAssets (valid_unmarshalApp happ) hedit

inductive Answer (F : Type)
  | stored
  | refused (appName : Text)
  | closed
  | waiting
  | listed (apps : List (Application F))

def Catalog.outcome (c : Catalog F) (appName : Text) :
    Progress → (x : Except Refusal (Application F)) → (∀ app, x = .ok app → app.Valid) →
      Catalog F × Answer F
  | .waits, _, _ => (c, .waiting)
  | progress, .ok app, h =>
      ((writeFile appName).elim c fun file => c.store file app (h app rfl),
        if progress = .answers then .stored else .waiting)
  | _, .error .notUnmarshaled, _ => (c, .refused appName)
  | _, .error .panicked, _ => (c, .closed)

def Catalog.answer (c : Catalog F) : Request → Catalog F × Answer F
  | .store appName info spare progress payload =>
      c.outcome writeFile appName progress (accept floats appName info spare payload)
        fun _ h => valid_accept floats h
  | .fetch => (c, .listed (c.apps.map Prod.snd))

def Catalog.answerAll : Catalog F → List Request → Catalog F × List (Answer F)
  | c, [] => (c, [])
  | c, r :: rs =>
      let (c, answer) := c.answer floats writeFile r
      let (c, answers) := c.answerAll rs
      (c, answer :: answers)

def Catalog.files (c : Catalog F) : Directory := c.apps.map fun p => (p.1, marshalApp floats p.2)

def readApps (response : Text) : Option (List (Application F)) :=
  match parse response with
  | some (.array items) => items.mapM (ofJson floats)
  | _ => none

def Answer.Given : Answer F → Option Text → Prop
  | .stored, response => response = some storedText
  | .refused appName, response => response = some (refusedText appName)
  | .closed, response | .waiting, response => response = none
  | .listed apps, response => ∃ text, response = some text ∧ readApps floats text = some apps

variable {floats : Floats F} {writeFile : Text → Option Text}

lemma ofJson_appMembers {app : Application F} (h : app.Valid) :
    ofJson floats (.object (appMembers floats app)) = some app := by
  have hread : unmarshalApp floats (marshalApp floats app) = some app := unmarshalApp_marshalApp h
  rwa [unmarshalApp, parse_marshalApp, Option.bind_some] at hread

lemma mapM_marshalApp (apps : List (Application F)) :
    (apps.map (marshalApp floats)).mapM parse =
      some (apps.map fun app => .object (appMembers floats app)) := by
  induction apps with
  | nil => rfl
  | cons app apps ih =>
    rw [List.map_cons, List.mapM_cons, parse_marshalApp, ih]
    rfl

lemma mapM_ofJson {apps : List (Application F)} (h : ∀ app ∈ apps, app.Valid) :
    (apps.map fun app => Value.object (appMembers floats app)).mapM (ofJson floats) = some apps := by
  induction apps with
  | nil => rfl
  | cons app apps ih =>
    rw [List.map_cons, List.mapM_cons, ofJson_appMembers (h app List.mem_cons_self),
      ih fun a ha => h a (List.mem_cons_of_mem app ha)]
    rfl

theorem readApps_writeArray {apps : List (Application F)} (h : ∀ app ∈ apps, app.Valid) :
    readApps floats (writeArray (apps.map (marshalApp floats)) ++ ['\n']) = some apps := by
  rw [readApps, parse_concat_newline (parse_writeArray (mapM_marshalApp apps))]
  exact mapM_ofJson h

lemma Catalog.mapM_files (c : Catalog F) :
    (c.files floats).mapM (fun f => unmarshalApp floats f.2) = some (c.apps.map Prod.snd) := by
  have hmapM (apps : List (Text × Application F)) (h : ∀ p ∈ apps, p.2.Valid) :
      (apps.map fun p => (p.1, marshalApp floats p.2)).mapM (fun f => unmarshalApp floats f.2) =
        some (apps.map Prod.snd) := by
    induction apps with
    | nil => rfl
    | cons p apps ih =>
      rw [List.map_cons, List.mapM_cons, unmarshalApp_marshalApp (h p List.mem_cons_self),
        ih fun q hq => h q (List.mem_cons_of_mem p hq)]
      rfl
  exact hmapM c.apps c.valid

lemma Catalog.files_store (c : Catalog F) (file : Text) {app : Application F} (h : app.Valid) :
    (c.store file app h).files floats = assign file (marshalApp floats app) (c.files floats) :=
  map_assign (marshalApp floats) file app c.apps

lemma serve_files (c : Catalog F) (r : Request) :
    (serve floats writeFile (c.files floats) r).1 = (c.answer floats writeFile r).1.files floats ∧
      (c.answer floats writeFile r).2.Given floats (serve floats writeFile (c.files floats) r).2 := by
  cases r with
  | store appName info spare progress payload =>
    simp only [serve, storeAppSetup, Catalog.answer]
    generalize_proofs h
    generalize accept floats appName info spare payload = x at h
    match progress, x with
    | .waits, _ => exact ⟨rfl, rfl⟩
    | .writes, .ok app | .answers, .ok app =>
      refine ⟨?_, rfl⟩
      show (writeFile appName).elim _ _ = ((writeFile appName).elim c _).files floats
      cases writeFile appName with
      | none => rfl
      | some file => exact (c.files_store file (h app rfl)).symm
    | .writes, .error .notUnmarshaled | .answers, .error .notUnmarshaled => exact ⟨rfl, rfl⟩
    | .writes, .error .panicked | .answers, .error .panicked => exact ⟨rfl, rfl⟩
  | fetch =>
    refine ⟨rfl, _, ?_, readApps_writeArray ?_⟩
    · rw [serve, fetchAppSetup, c.mapM_files, Option.map_some]
    · intro app happ
      obtain ⟨p, hp, rfl⟩ := List.mem_map.mp happ
      exact c.valid p hp

/-- Whatever requests come, the files are those of the applications. -/
lemma files_serveAll (floats : Floats F) (writeFile : Text → Option Text) (c : Catalog F)
    (rs : List Request) :
    (serveAll floats writeFile (c.files floats) rs).1 =
      (c.answerAll floats writeFile rs).1.files floats := by
  induction rs generalizing c with
  | nil => rfl
  | cons r rs ih =>
    have hrest := ih (c.answer floats writeFile r).1
    rw [← (serve_files c r).1] at hrest
    exact hrest

/-- Each response says what became of its request, as if the applications themselves were
kept by their files: the ones that are fetched are read from it in the order of these. -/
theorem responses_given (floats : Floats F) (writeFile : Text → Option Text) (c : Catalog F)
    (rs : List Request) :
    List.Forall₂ (Answer.Given floats) (c.answerAll floats writeFile rs).2
      (serveAll floats writeFile (c.files floats) rs).2 := by
  induction rs generalizing c with
  | nil => exact .nil
  | cons r rs ih =>
    obtain ⟨hfiles, hgiven⟩ : (serve floats writeFile (c.files floats) r).1 =
        (c.answer floats writeFile r).1.files floats ∧
      (c.answer floats writeFile r).2.Given floats (serve floats writeFile (c.files floats) r).2 :=
      serve_files c r
    have hrest := ih (c.answer floats writeFile r).1
    rw [← hfiles] at hrest
    exact .cons hgiven hrest

def accepted (floats : Floats F) (writeFile : Text → Option Text) :
    Request → Option (Text × Application F)
  | .store appName info spare progress payload =>
      match progress, accept floats appName info spare payload with
      | .waits, _ | _, .error _ => none
      | _, .ok app => (writeFile appName).map fun file => (file, app)
  | .fetch => none

lemma valid_accepted {r : Request} {p : Text × Application F}
    (h : accepted floats writeFile r = some p) : p.2.Valid := by
  cases r with
  | store appName info spare progress payload =>
    have hvalid (app : Application F) (hok : accept floats appName info spare payload = .ok app) :
        app.Valid := valid_accept floats hok
    simp only [accepted] at h
    generalize accept floats appName info spare payload = x at h hvalid
    match progress, x with
    | .waits, _ => contradiction
    | .writes, .error _ | .answers, .error _ => contradiction
    | .writes, .ok app | .answers, .ok app =>
      obtain ⟨file, -, rfl⟩ := Option.map_eq_some_iff.mp h
      exact hvalid app rfl
  | fetch => contradiction

lemma apps_answer (c : Catalog F) (r : Request) :
    (c.answer floats writeFile r).1.apps =
      (accepted floats writeFile r).elim c.apps fun e => assign e.1 e.2 c.apps := by
  cases r with
  | store appName info spare progress payload =>
    simp only [Catalog.answer, accepted]
    generalize_proofs h
    generalize accept floats appName info spare payload = x at h
    match progress, x with
    | .waits, _ => rfl
    | .writes, .ok app | .answers, .ok app =>
      show ((writeFile appName).elim c _).apps = ((writeFile appName).map _).elim _ _
      cases writeFile appName with
      | none => rfl
      | some file => rfl
    | .writes, .error _ | .answers, .error _ => rename_i e; cases e <;> rfl
  | fetch => rfl

lemma apps_answerAll (c : Catalog F) (rs : List Request) :
    (c.answerAll floats writeFile rs).1.apps =
      (rs.filterMap (accepted floats writeFile)).foldl (fun m e => assign e.1 e.2 m) c.apps := by
  induction rs generalizing c with
  | nil => rfl
  | cons r rs ih =>
    have hstep : (c.answerAll floats writeFile (r :: rs)).1 =
        ((c.answer floats writeFile r).1.answerAll floats writeFile rs).1 := rfl
    rw [hstep, ih, apps_answer, List.filterMap_cons]
    cases accepted floats writeFile r <;> rfl

lemma get_files (c : Catalog F) (file : Text) :
    get file (c.files floats) = (get file c.apps).map (marshalApp floats) :=
  get_map (marshalApp floats) file c.apps

/-- Where the C++ side reads a deployment, `getSource` reads its buckets. -/
lemma getSource_of_declared {app : Application F} {d : Deployment}
    (h : declared app.deploymentConfig = some d) :
    getSource app = some (d.config.sourceBucket, d.metadataBucket, localEndpoint) := by
  obtain ⟨config, hconfig, h⟩ := Option.bind_eq_some_iff.mp h
  obtain ⟨buckets, -, h⟩ := Option.bind_eq_some_iff.mp h
  obtain ⟨queues, -, h⟩ := Option.bind_eq_some_iff.mp h
  obtain ⟨metadataBucket, hworkspace, h⟩ := Option.bind_eq_some_iff.mp h
  obtain ⟨sourceBucket, hsource, h⟩ := Option.bind_eq_some_iff.mp h
  obtain ⟨workspace, hworkspace, hmetadata⟩ := Option.bind_eq_some_iff.mp hworkspace
  obtain ⟨source, hsource, hbucket⟩ := Option.bind_eq_some_iff.mp hsource
  obtain rfl := Option.some.inj h
  simp [getSource, hconfig, hworkspace, hsource, hmetadata, hbucket]

/-- After any requests, a file of `./apps/` is there when an application was accepted into it, and
both sides read in it what the last such request was: the Go side the application, the C++ side
the deployment that its config declares, with the buckets that `getSource` has. -/
theorem readers_agree (floats : Floats F) (writeFile : Text → Option Text) {reader : Reader δ}
    (hreader : ReadsMarshaled floats reader) (rs : List Request) (file : Text) :
    match latest (rs.filterMap (accepted floats writeFile)) file with
    | none => get file (serveAll floats writeFile [] rs).1 = none
    | some app => ∃ content, get file (serveAll floats writeFile [] rs).1 = some content ∧
        unmarshalApp floats content = some app ∧
        parseDeployment reader content = (declared app.deploymentConfig).map Deployment.cStrings ∧
        ∀ d, parseDeployment reader content = some d → ∃ srcBucket metaBucket,
          getSource app = some (srcBucket, metaBucket, localEndpoint) ∧
          d.config.sourceBucket = Timer.cString srcBucket ∧ d.metadataBucket = Timer.cString metaBucket := by
  have hget : get file (serveAll floats writeFile [] rs).1 =
      (latest (rs.filterMap (accepted floats writeFile)) file).map (marshalApp floats) := by
    have happs := @apps_answerAll _ floats writeFile .empty rs
    have hfiles := files_serveAll floats writeFile .empty rs
    rw [← get_ofList, ofList, ← show Catalog.empty.apps = [] from rfl, ← happs, ← get_files, ← hfiles]
    rfl
  have hvalid (app : Application F)
      (h : latest (rs.filterMap (accepted floats writeFile)) file = some app) : app.Valid := by
    rw [← get_ofList] at h
    obtain ⟨r, -, hr⟩ := List.mem_filterMap.mp (mem_of_mem_ofList (mem_of_get h))
    exact valid_accepted hr
  rw [hget]
  cases happ : latest (rs.filterMap (accepted floats writeFile)) file with
  | none => rfl
  | some app =>
    have hparse := parseDeployment_marshalApp floats hreader (hvalid app happ)
    refine ⟨_, rfl, unmarshalApp_marshalApp (hvalid app happ), hparse, ?_⟩
    intro d hd
    rw [hparse] at hd
    obtain ⟨d₀, hdeclared, rfl⟩ := Option.map_eq_some_iff.mp hd
    exact ⟨_, _, getSource_of_declared hdeclared, rfl, rfl⟩

/-- Numbers as the integers that can stand for them. -/
def integers : Floats ℕ where
  format := Decimal.decimal
  read text := if Decimal.decimal (Nat.ofDigitChars 10 text 0) = text then
    some (Nat.ofDigitChars 10 text 0) else none
  parse_format := parse_decimal
  read_format n := by simp [Decimal.decimal]

def iconApp : Application ℕ := { Application.empty with
  name := ['a']
  assets := some [some [("name".toList, .string ['i'])]] }

lemma valid_iconApp : iconApp.Valid where
  id := Nat.two_pow_pos 64
  deploymentConfig := trivial
  assets l hl m hm := by
    obtain rfl := Option.some.inj hl
    obtain rfl := Option.some.inj (List.mem_singleton.mp hm)
    exact ⟨List.pairwise_singleton _ _, trivial, trivial⟩

lemma quiet_iconApp : ∀ x ∈ entries iconApp, Quiet x := by
  intro x hx
  obtain rfl := List.mem_singleton.mp hx
  exact ⟨_, _, rfl, rfl, by simp, by simp⟩

/-- A name without a slash is that of its file. -/
def flatNames (appName : Text) : Option Text := if '/' ∈ appName then none else some appName

def storeIcon (appName : Text) : Request :=
  .store appName true 0 .answers (marshalApp integers iconApp)

lemma accept_icon (appName : Text) :
    accept integers appName true 0 (marshalApp integers iconApp) = .ok iconApp := by
  have hread : unmarshalApp integers (marshalApp integers iconApp) = some iconApp :=
    unmarshalApp_marshalApp valid_iconApp
  simp only [accept, hread, editAssets_quiet quiet_iconApp]

/-- The second request is answered as well, and its application has no file. -/
def iconRequests : List Request := [storeIcon ['a'], storeIcon ['a', '/', 'b']]

lemma accepted_iconRequests :
    iconRequests.filterMap (accepted integers flatNames) = [(['a'], iconApp)] := by
  have hone : accepted integers flatNames (storeIcon ['a']) = some (['a'], iconApp) := by
    simp only [storeIcon, accepted, accept_icon]
    rfl
  have hother : accepted integers flatNames (storeIcon ['a', '/', 'b']) = none := by
    simp only [storeIcon, accepted, accept_icon]
    rfl
  rw [iconRequests, List.filterMap_cons, hone, List.filterMap_cons, hother, List.filterMap_nil]

theorem readers_agree_iconRequests : ∃ content,
    get ['a'] (serveAll integers flatNames [] iconRequests).1 = some content ∧
      unmarshalApp integers content = some iconApp ∧
      parseDeployment RapidJson.values content = none := by
  have h := readers_agree integers flatNames (readsMarshaled_values integers) iconRequests ['a']
  have hlatest : latest [((['a'] : Text), iconApp)] ['a'] = some iconApp := rfl
  rw [accepted_iconRequests, hlatest] at h
  obtain ⟨content, hget, hread, hparse, -⟩ := h
  exact ⟨content, hget, hread, hparse⟩

lemma Catalog.sorted_files (c : Catalog F) : Sorted (c.files floats) :=
  c.sorted.map _ fun _ _ h => h

/-- An application that was fetched can be stored again: where no entry of its assets asks for
anything, no payload that it is read from changes a file, however far the request gets. -/
theorem redeploy_unchanged (floats : Floats F) (writeFile : Text → Option Text) (rs : List Request)
    (appName file : Text) (info : Bool) (spare : ℕ) (progress : Progress) (payload content : Text)
    (app : Application F) (hname : writeFile appName = some file)
    (hfile : get file (serveAll floats writeFile [] rs).1 = some content)
    (hcontent : unmarshalApp floats content = some app)
    (hpayload : unmarshalApp floats payload = some app) (hquiet : ∀ x ∈ entries app, Quiet x) :
    serve floats writeFile (serveAll floats writeFile [] rs).1
        (.store appName info spare progress payload) =
      ((serveAll floats writeFile [] rs).1, if progress = .answers then some storedText else none) := by
  have haccept : accept floats appName info spare payload = .ok app := by
    simp only [accept, hpayload, editAssets_quiet hquiet]
  obtain ⟨c, hc⟩ : ∃ c : Catalog F, (serveAll floats writeFile [] rs).1 = c.files floats :=
    ⟨_, files_serveAll floats writeFile .empty rs⟩
  rw [hc] at hfile ⊢
  have hcontent_eq : content = marshalApp floats app := by
    rw [get_files] at hfile
    obtain ⟨app', happ', rfl⟩ := Option.map_eq_some_iff.mp hfile
    have hvalid : app'.Valid := c.valid _ (mem_of_get happ')
    rw [unmarshalApp_marshalApp hvalid] at hcontent
    rw [Option.some.inj hcontent]
  rw [hcontent_eq] at hfile
  have hassign : assign file (marshalApp floats app) (c.files floats) = c.files floats :=
    c.sorted_files.assign_of_get hfile
  cases progress with
  | waits => rfl
  | writes | answers => simp only [serve, storeAppSetup, haccept, hname, Option.elim_some, hassign]

theorem redeploy_unchanged_iconApp :
    serve integers flatNames (serveAll integers flatNames [] iconRequests).1 (storeIcon ['a']) =
      ((serveAll integers flatNames [] iconRequests).1, some storedText) := by
  have hread : unmarshalApp integers (marshalApp integers iconApp) = some iconApp :=
    unmarshalApp_marshalApp valid_iconApp
  have hfile : get ['a'] (serveAll integers flatNames [] iconRequests).1 =
      some (marshalApp integers iconApp) := by
    have happs := @apps_answerAll _ integers flatNames .empty iconRequests
    have hfiles := files_serveAll integers flatNames .empty iconRequests
    rw [accepted_iconRequests] at happs
    have hall : (serveAll integers flatNames [] iconRequests).1 =
        ((Catalog.empty : Catalog ℕ).answerAll integers flatNames iconRequests).1.files integers := hfiles
    rw [hall, get_files, happs]
    rfl
  exact redeploy_unchanged integers flatNames iconRequests ['a'] ['a'] true 0 .answers
    (marshalApp integers iconApp) (marshalApp integers iconApp) iconApp rfl hfile hread hread
    quiet_iconApp

end Refinement

end Eventing.AppStore
