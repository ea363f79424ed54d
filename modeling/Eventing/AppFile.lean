import Eventing.Components
import Eventing.GoJson
import Eventing.RapidJson
import Eventing.TimerJson

/-!
# The file of an application

`storeAppSetup` (`http_handlers.go`) keeps an application as a JSON file. `getSource`
(`eventing.go`) unmarshals the file again, and `ParseDeployment` (`parse_deployment.cc`) reads it
with RapidJSON; each takes the part of the deployment config that it needs. A panic and a failed
assertion are `none`.
-/
namespace Eventing.AppFile
open GoJson JsonText OrderedMap
open MessageCodec (escape escapes_escape foldCase)
open Timer (cString cString_of_notMem)
open Components (BucketEntry QueueEntry Config)
open RapidJson (Reader Regular RegularItems RegularMembers getString)

variable {F : Type} {δ : Type*}

structure Application (F : Type) where
  name : Text
  id : ℕ
  deploymentStatus : Bool
  expand : Bool
  deploymentConfig : Interface F
  appHandlers : Text
  assets : Option (List (Option (GoMap F)))

def Application.empty : Application F := ⟨[], 0, false, false, .null, [], none⟩

inductive Field
  | name
  | id
  | deploy
  | expand
  | depcfg
  | handlers
  | assets
  deriving DecidableEq

def Field.tag : Field → Text
  | .name => "name".toList
  | .id => "id".toList
  | .deploy => "deploy".toList
  | .expand => "expand".toList
  | .depcfg => "depcfg".toList
  | .handlers => "handlers".toList
  | .assets => "assets".toList

/-- The field that a member of an object is for. -/
def Field.ofName (name : Text) : Option Field :=
  [Field.name, .id, .deploy, .expand, .depcfg, .handlers, .assets].find? fun f =>
    f.tag.map foldCase = name.map foldCase

def readUint (text : Text) : Option ℕ :=
  let n := Nat.ofDigitChars 10 text 0
  if Decimal.decimal n = text ∧ n < 2 ^ 64 then some n else none

section Codec
variable (floats : Floats F)

def readAsset : Value → Option (Option (GoMap F))
  | .null => some none
  | .object members => (unmarshalMembers floats members).map fun ms => some (ofList ms)
  | _ => none

/-- A field is set to a value. `null` sets a field only where it is a value of its type, and
other values of a wrong type are errors. -/
def setField (app : Application F) : Field → Value → Option (Application F)
  | .name, .string s => some { app with name := Utf16.decode s }
  | .id, .number text => (readUint text).map fun n => { app with id := n }
  | .deploy, .bool b => some { app with deploymentStatus := b }
  | .expand, .bool b => some { app with expand := b }
  | .depcfg, v => (unmarshal floats v).map fun x => { app with deploymentConfig := x }
  | .handlers, .string s => some { app with appHandlers := Utf16.decode s }
  | .assets, .array items => (items.mapM (readAsset floats)).map fun l => { app with assets := some l }
  | .assets, .null => some { app with assets := none }
  | _, .null => some app
  | _, _ => none

def setMember (app : Application F) (member : Utf16.Units × Value) : Option (Application F) :=
  match Field.ofName (Utf16.decode member.1) with
  | none => some app
  | some f => setField floats app f member.2

/-- `json.Unmarshal` of a JSON value into an `application`. -/
def ofJson : Value → Option (Application F)
  | .null => some .empty
  | .object members => members.foldlM (setMember floats) .empty
  | _ => none

def unmarshalApp (content : Text) : Option (Application F) := (parse content).bind (ofJson floats)

def marshalBool (b : Bool) : Text := if b then Word.true.text else Word.false.text

def marshalAsset : Option (GoMap F) → Text
  | none => Word.null.text
  | some m => marshal floats (.object m)

def marshalAssets : Option (List (Option (GoMap F))) → Text
  | none => Word.null.text
  | some l => writeArray (l.map (marshalAsset floats))

/-- `json.Marshal` of an `application`. -/
def marshalApp (app : Application F) : Text :=
  writeObject escape [(Field.name.tag, quote escape app.name),
    (Field.id.tag, Decimal.decimal app.id), (Field.deploy.tag, marshalBool app.deploymentStatus),
    (Field.expand.tag, marshalBool app.expand), (Field.depcfg.tag, marshal floats app.deploymentConfig),
    (Field.handlers.tag, quote escape app.appHandlers), (Field.assets.tag, marshalAssets floats app.assets)]

end Codec

/-- The id is a `uint64`, and the maps are in the order of their keys. -/
structure Application.Valid (app : Application F) : Prop where
  id : app.id < 2 ^ 64
  deploymentConfig : Canonical app.deploymentConfig
  assets : ∀ l, app.assets = some l → ∀ m, some m ∈ l → Canonical (.object m)

section Read

/-- `x.(map[string]interface{})` -/
def asObject : Interface F → Option (GoMap F)
  | .object m => some m
  | _ => none

def asArray : Interface F → Option (List (Interface F))
  | .array items => some items
  | _ => none

def asString : Interface F → Option Text
  | .string s => some s
  | _ => none

/-- `m[key]`, which is nil where there is none. -/
def index (m : GoMap F) (key : String) : Interface F := (get key.toList m).getD .null

def localEndpoint : Text := "localhost".toList

/-- `getSource`, from the application in the file: the source bucket, the metadata bucket and
the endpoint. -/
def getSource (app : Application F) : Option (Text × Text × Text) := do
  let config ← asObject app.deploymentConfig
  let workspace ← asObject (index config "workspace")
  let source ← asObject (index config "source")
  let srcBucket ← asString (index source "source_bucket")
  let metaBucket ← asString (index workspace "metadata_bucket")
  return (srcBucket, metaBucket, localEndpoint)

end Read

structure Deployment where
  config : Config
  metadataBucket : Text

def cutBucket (b : BucketEntry) : BucketEntry := ⟨cString b.bucketName, cString b.bucketAlias⟩

def cutQueue (q : QueueEntry) : QueueEntry :=
  ⟨cString q.provider, cString q.queueName, cString q.endpoint, cString q.queueAlias⟩

/-- A deployment whose strings are cut at their first NUL. -/
def Deployment.cStrings (d : Deployment) : Deployment where
  config := ⟨d.config.buckets.map cutBucket, d.config.queues.map cutQueue, cString d.config.sourceBucket⟩
  metadataBucket := cString d.metadataBucket

section Deployment
variable (reader : Reader δ)

def parseArray {β : Type} (f : δ → Option β) (v : δ) : Option (List β) :=
  (reader.getArray v).bind fun items => items.mapM f

def parseMember (key : Text) (v : δ) : Option Text :=
  if reader.isObject v then (reader.find key v).bind reader.getString else none

def parseBucket (v : δ) : Option BucketEntry := do
  let bucketName ← (reader.find "bucket_name".toList v).bind reader.getString
  let bucketAlias ← (reader.find "alias".toList v).bind reader.getString
  return ⟨bucketName, bucketAlias⟩

def parseQueue (v : δ) : Option QueueEntry := do
  let provider ← (reader.find "provider".toList v).bind reader.getString
  let queueName ← (reader.find "queue_name".toList v).bind reader.getString
  let endpoint ← (reader.find "endpoint".toList v).bind reader.getString
  let queueAlias ← (reader.find "alias".toList v).bind reader.getString
  return ⟨provider, queueName, endpoint, queueAlias⟩

def parseDoc (doc : δ) : Option Deployment :=
  (reader.find "depcfg".toList doc).bind fun depcfg => do
    let buckets ← (reader.find "buckets".toList depcfg).bind (parseArray reader (parseBucket reader))
    let queues ← (reader.find "queue".toList depcfg).bind (parseArray reader (parseQueue reader))
    let metadataBucket ←
      (reader.find "workspace".toList depcfg).bind (parseMember reader "metadata_bucket".toList)
    let sourceBucket ←
      (reader.find "source".toList depcfg).bind (parseMember reader "source_bucket".toList)
    return ⟨⟨buckets, queues, sourceBucket⟩, metadataBucket⟩

/-- `ParseDeployment`, up to the maps that it keeps the entries in (`Components`). -/
def parseDeployment (content : Text) : Option Deployment :=
  (reader.parse (cString content)).bind (parseDoc reader)

end Deployment

section Declared

def declaredBucket (x : Interface F) : Option BucketEntry := do
  let m ← asObject x
  let bucketName ← asString (index m "bucket_name")
  let bucketAlias ← asString (index m "alias")
  return ⟨bucketName, bucketAlias⟩

def declaredQueue (x : Interface F) : Option QueueEntry := do
  let m ← asObject x
  let provider ← asString (index m "provider")
  let queueName ← asString (index m "queue_name")
  let endpoint ← asString (index m "endpoint")
  let queueAlias ← asString (index m "alias")
  return ⟨provider, queueName, endpoint, queueAlias⟩

/-- The deployment that a deployment config declares. -/
def declared (x : Interface F) : Option Deployment :=
  (asObject x).bind fun config => do
    let buckets ← (asArray (index config "buckets")).bind fun items => items.mapM declaredBucket
    let queues ← (asArray (index config "queue")).bind fun items => items.mapM declaredQueue
    let metadataBucket ←
      (asObject (index config "workspace")).bind fun m => asString (index m "metadata_bucket")
    let sourceBucket ←
      (asObject (index config "source")).bind fun m => asString (index m "source_bucket")
    return ⟨⟨buckets, queues, sourceBucket⟩, metadataBucket⟩

end Declared

section Write
variable {floats : Floats F}

def assetJson (floats : Floats F) : Option (GoMap F) → Value
  | none => .null
  | some m => toJson floats (.object m)

def assetsJson (floats : Floats F) : Option (List (Option (GoMap F))) → Value
  | none => .null
  | some l => .array (l.map (assetJson floats))

def appMembers (floats : Floats F) (app : Application F) : Members :=
  [(Utf16.encode Field.name.tag, .string (Utf16.encode app.name)),
    (Utf16.encode Field.id.tag, .number (Decimal.decimal app.id)),
    (Utf16.encode Field.deploy.tag, .bool app.deploymentStatus),
    (Utf16.encode Field.expand.tag, .bool app.expand),
    (Utf16.encode Field.depcfg.tag, toJson floats app.deploymentConfig),
    (Utf16.encode Field.handlers.tag, .string (Utf16.encode app.appHandlers)),
    (Utf16.encode Field.assets.tag, assetsJson floats app.assets)]

lemma parse_marshalBool (b : Bool) : parse (marshalBool b) = some (.bool b) := by
  cases b <;> rfl

lemma parse_marshalAsset (a : Option (GoMap F)) :
    parse (marshalAsset floats a) = some (assetJson floats a) := by
  cases a with
  | none => rfl
  | some m => exact parse_marshal floats _

lemma parse_marshalAssets (a : Option (List (Option (GoMap F)))) :
    parse (marshalAssets floats a) = some (assetsJson floats a) := by
  cases a with
  | none => rfl
  | some l =>
    apply parse_writeArray
    induction l with
    | nil => rfl
    | cons a l ih =>
      rw [List.map_cons, List.mapM_cons, parse_marshalAsset, ih]
      rfl

theorem parse_marshalApp (app : Application F) :
    parse (marshalApp floats app) = some (.object (appMembers floats app)) := by
  apply parse_writeObject escapes_escape
  simp only [readMembers, List.mapM_cons, List.mapM_nil, parse_quote escapes_escape, parse_decimal,
    parse_marshalBool, parse_marshal, parse_marshalAssets]
  rfl

lemma readUint_decimal {n : ℕ} (h : n < 2 ^ 64) : readUint (Decimal.decimal n) = some n := by
  have hn : Nat.ofDigitChars 10 (Decimal.decimal n) 0 = n := by simp [Decimal.decimal]
  simp only [readUint, hn]
  exact if_pos ⟨trivial, h⟩

lemma readAsset_assetJson {a : Option (GoMap F)} (h : ∀ m, a = some m → Canonical (.object m)) :
    readAsset floats (assetJson floats a) = some a := by
  cases a with
  | none => rfl
  | some m =>
    obtain ⟨hsorted, hmembers⟩ := h m rfl
    rw [assetJson, toJson, readAsset, unmarshalMembers_toMembers floats m hmembers, Option.map_some,
      hsorted.ofList_eq]

lemma readAssets_assetsJson (floats : Floats F) {l : List (Option (GoMap F))}
    (h : ∀ m, some m ∈ l → Canonical (.object m)) :
    (l.map (assetJson floats)).mapM (readAsset floats) = some l := by
  induction l with
  | nil => rfl
  | cons a l ih =>
    have ha : readAsset floats (assetJson floats a) = some a :=
      readAsset_assetJson fun m hm => h m (hm ▸ List.mem_cons_self)
    rw [List.map_cons, List.mapM_cons, ha, ih fun m hm => h m (List.mem_cons_of_mem a hm)]
    rfl

lemma setMember_tag (app : Application F) (f : Field) (v : Value) :
    setMember floats app (Utf16.encode f.tag, v) = setField floats app f v := by
  have hf : Field.ofName f.tag = some f := by cases f <;> decide
  simp [setMember, hf]

/-- An application is read again as it was written. -/
theorem unmarshalApp_marshalApp {app : Application F} (h : app.Valid) :
    unmarshalApp floats (marshalApp floats app) = some app := by
  have hdepcfg := unmarshal_toJson floats app.deploymentConfig h.deploymentConfig
  have hassets : setField floats { app with assets := none } .assets (assetsJson floats app.assets) =
      some app := by
    obtain ⟨name, id, deploy, expand, depcfg, handlers, assets⟩ := app
    cases assets with
    | none => rfl
    | some l =>
      rw [assetsJson, setField, readAssets_assetsJson floats fun m hm => h.assets l rfl m hm,
        Option.map_some]
  have hothers : ((appMembers floats app).take 6).foldlM (setMember floats) .empty =
      some { app with assets := none } := by
    simp only [appMembers, List.take_succ_cons, List.take_zero, List.foldlM_cons, List.foldlM_nil,
      setMember_tag, setField, readUint_decimal h.id, hdepcfg, Option.map_some, Utf16.decode_encode]
    rfl
  have hsplit : appMembers floats app = (appMembers floats app).take 6 ++
      [(Utf16.encode Field.assets.tag, assetsJson floats app.assets)] := rfl
  rw [unmarshalApp, parse_marshalApp, Option.bind_some, ofJson, hsplit, List.foldlM_append, hothers,
    Option.bind_eq_bind, Option.bind_some, List.foldlM_cons, setMember_tag, hassets]
  rfl

end Write

section Valid
variable {floats : Floats F} {app app' : Application F} {v : Value}

lemma valid_empty : (.empty : Application F).Valid where
  id := Nat.two_pow_pos 64
  deploymentConfig := trivial
  assets _ h := by contradiction

lemma canonical_readAsset {m : GoMap F} (h : readAsset floats v = some (some m)) :
    Canonical (.object m) := by
  cases v with
  | object members =>
    obtain ⟨ms, hms, hm⟩ := Option.map_eq_some_iff.mp h
    obtain rfl := Option.some.inj hm
    have hread : unmarshal floats (.object members) = some (.object (ofList ms)) := by
      rw [unmarshal, hms, Option.map_some]
    exact canonical_unmarshal _ _ hread
  | null => simp [readAsset] at h
  | _ => contradiction

lemma canonical_readAssets {items : List Value} {l : List (Option (GoMap F))}
    (h : items.mapM (readAsset floats) = some l) : ∀ m, some m ∈ l → Canonical (.object m) := by
  induction items generalizing l with
  | nil =>
    obtain rfl := Option.some.inj h
    intro m hm
    contradiction
  | cons v items ih =>
    rw [List.mapM_cons] at h
    obtain ⟨a, ha, h⟩ := Option.bind_eq_some_iff.mp h
    obtain ⟨as, has, h⟩ := Option.bind_eq_some_iff.mp h
    obtain rfl := Option.some.inj h
    intro m hm
    rcases List.mem_cons.mp hm with rfl | hm
    · exact canonical_readAsset ha
    · exact ih has m hm

lemma Application.Valid.readUint {text : Text} {n : ℕ} (h : readUint text = some n) : n < 2 ^ 64 := by
  simp only [AppFile.readUint] at h
  split_ifs at h with hn
  rw [← Option.some.inj h]
  exact hn.2

lemma Application.Valid.setField (h : app.Valid) {f : Field}
    (hset : setField floats app f v = some app') : app'.Valid := by
  cases f with
  | id =>
    cases v with
    | number text =>
      obtain ⟨n, hn, rfl⟩ := Option.map_eq_some_iff.mp hset
      exact ⟨readUint hn, h.deploymentConfig, h.assets⟩
    | null => exact Option.some.inj hset ▸ h
    | _ => contradiction
  | depcfg =>
    obtain ⟨x, hx, rfl⟩ := Option.map_eq_some_iff.mp hset
    exact ⟨h.id, canonical_unmarshal v x hx, h.assets⟩
  | assets =>
    cases v with
    | array items =>
      obtain ⟨l, hl, rfl⟩ := Option.map_eq_some_iff.mp hset
      refine ⟨h.id, h.deploymentConfig, ?_⟩
      intro l' hl'
      obtain rfl := Option.some.inj hl'
      exact canonical_readAssets hl
    | null =>
      obtain rfl := Option.some.inj hset
      exact ⟨h.id, h.deploymentConfig, fun l hl => by contradiction⟩
    | _ => contradiction
  | name | handlers =>
    cases v with
    | string s =>
      obtain rfl := Option.some.inj hset
      exact ⟨h.id, h.deploymentConfig, h.assets⟩
    | null => exact Option.some.inj hset ▸ h
    | _ => contradiction
  | deploy | expand =>
    cases v with
    | bool b =>
      obtain rfl := Option.some.inj hset
      exact ⟨h.id, h.deploymentConfig, h.assets⟩
    | null => exact Option.some.inj hset ▸ h
    | _ => contradiction

/-- Whatever is read is an application that can be written. -/
theorem valid_unmarshalApp {content : Text} (h : unmarshalApp floats content = some app) :
    app.Valid := by
  obtain ⟨v, -, h⟩ := Option.bind_eq_some_iff.mp h
  cases v with
  | null =>
    obtain rfl := Option.some.inj h
    exact valid_empty
  | object members =>
    have hfold (ms : Members) (app₀ : Application F) (h₀ : app₀.Valid)
        (h : ms.foldlM (setMember floats) app₀ = some app) : app.Valid := by
      induction ms generalizing app₀ with
      | nil =>
        obtain rfl := Option.some.inj h
        exact h₀
      | cons m ms ih =>
        obtain ⟨app₁, h₁, h⟩ := Option.bind_eq_some_iff.mp h
        refine ih app₁ ?_ h
        simp only [setMember] at h₁
        cases hf : Field.ofName (Utf16.decode m.1) with
        | none =>
          rw [hf] at h₁
          exact Option.some.inj h₁ ▸ h₀
        | some f =>
          rw [hf] at h₁
          exact h₀.setField h₁
    exact hfold members _ valid_empty h
  | _ => contradiction

end Valid

section Regular
variable {floats : Floats F} {numeral : Text → Prop}

mutual

lemma regular_toJson (h : ∀ x, numeral (floats.format x)) :
    ∀ g : Interface F, Regular numeral (toJson floats g)
  | .null | .bool _ => trivial
  | .number x => h x
  | .string s => ⟨s, rfl⟩
  | .array items => regularItems_toItems h items
  | .object members => regularMembers_toMembers h members

lemma regularItems_toItems (h : ∀ x, numeral (floats.format x)) :
    ∀ items : List (Interface F), RegularItems numeral (toItems floats items)
  | [] => trivial
  | v :: vs => ⟨regular_toJson h v, regularItems_toItems h vs⟩

lemma regularMembers_toMembers (h : ∀ x, numeral (floats.format x)) :
    ∀ ms : List (Text × Interface F), RegularMembers numeral (toMembers floats ms)
  | [] => trivial
  | p :: ps => ⟨⟨p.1, rfl⟩, regular_toJson h p.2, regularMembers_toMembers h ps⟩

end

lemma regular_assetsJson (h : ∀ x, numeral (floats.format x)) (a : Option (List (Option (GoMap F)))) :
    Regular numeral (assetsJson floats a) := by
  cases a with
  | none => trivial
  | some l =>
    show RegularItems numeral (l.map (assetJson floats))
    induction l with
    | nil => trivial
    | cons a l ih =>
      cases a with
      | none => exact ⟨trivial, ih⟩
      | some m => exact ⟨regular_toJson h (.object m), ih⟩

lemma regular_appMembers (h : ∀ x, numeral (floats.format x))
    (hid : ∀ n < 2 ^ 64, numeral (Decimal.decimal n)) {app : Application F} (hvalid : app.Valid) :
    Regular numeral (.object (appMembers floats app)) :=
  ⟨⟨_, rfl⟩, ⟨_, rfl⟩, ⟨_, rfl⟩, hid _ hvalid.id, ⟨_, rfl⟩, trivial, ⟨_, rfl⟩, trivial, ⟨_, rfl⟩,
    regular_toJson h _, ⟨_, rfl⟩, ⟨_, rfl⟩, ⟨_, rfl⟩, regular_assetsJson h _, trivial⟩

end Regular

/-- The documents of the reader stand for JSON values, and it reads all numbers that are written. -/
def ReadsMarshaled (floats : Floats F) (reader : Reader δ) : Prop :=
  ∃ value numeral, reader.StandsFor value numeral ∧ (∀ n < 2 ^ 64, numeral (Decimal.decimal n)) ∧
    ∀ x, numeral (floats.format x)

lemma readsMarshaled_values (floats : Floats F) : ReadsMarshaled floats RapidJson.values :=
  ⟨id, fun _ => True, RapidJson.standsFor_values _, fun _ _ => trivial, fun _ => trivial⟩

section Documents
variable {reader : Reader δ} {value : δ → Value} {numeral : Text → Prop}

lemma parseMember_value (h : reader.StandsFor value numeral) (key : Text) (d : δ) :
    parseMember reader key d = parseMember RapidJson.values key (value d) := by
  simp only [parseMember, h.isObject, h.find_bind h.getString]
  rfl

lemma parseArray_value (h : reader.StandsFor value numeral) {β : Type} {f : δ → Option β}
    {g : Value → Option β} (hfg : ∀ d, f d = g (value d)) (d : δ) :
    parseArray reader f d = parseArray RapidJson.values g (value d) := by
  show (reader.getArray d).bind _ = (RapidJson.getArray (value d)).bind _
  rw [← h.getArray d]
  cases reader.getArray d with
  | none => rfl
  | some ds => exact RapidJson.mapM_value hfg ds

lemma parseBucket_value (h : reader.StandsFor value numeral) (d : δ) :
    parseBucket reader d = parseBucket RapidJson.values (value d) := by
  simp only [parseBucket, h.find_bind h.getString]
  rfl

lemma parseQueue_value (h : reader.StandsFor value numeral) (d : δ) :
    parseQueue reader d = parseQueue RapidJson.values (value d) := by
  simp only [parseQueue, h.find_bind h.getString]
  rfl

lemma parseDoc_value (h : reader.StandsFor value numeral) (d : δ) :
    parseDoc reader d = parseDoc RapidJson.values (value d) := by
  refine h.find_bind (fun depcfg => ?_) _ d
  simp only [h.find_bind (parseArray_value h (parseBucket_value h)),
    h.find_bind (parseArray_value h (parseQueue_value h)), h.find_bind (parseMember_value h _)]
  rfl

end Documents

section Agreement
variable (floats : Floats F)

lemma toItems_eq (l : List (Interface F)) : toItems floats l = l.map (toJson floats) := by
  induction l with
  | nil => rfl
  | cons x l ih => rw [toItems, ih, List.map_cons]

lemma find_toJson (m : GoMap F) (key : String) :
    RapidJson.find key.toList (toJson floats (.object m)) =
      (get key.toList m).map (toJson floats) := by
  induction m with
  | nil => rfl
  | cons p m ih =>
    have hkey : (Utf16.encode p.1 = Utf16.encode key.toList) ↔ p.1 = key.toList :=
      Utf16.encode_injective.eq_iff
    rw [toJson, RapidJson.find] at ih ⊢
    rw [toMembers, List.find?_cons, get_cons]
    by_cases h : p.1 = key.toList
    · simp [h]
    · simp only [hkey, h, decide_false, if_false]
      exact ih

/-- Reading a member comes to the same as reading the entry, where the two agree on values and
there is nothing to be read of `null`. -/
lemma find_bind {β : Type} {f : Value → Option β} {g : Interface F → Option β}
    (hfg : ∀ x, f (toJson floats x) = g x) (hnull : g .null = none) (m : GoMap F) (key : String) :
    (RapidJson.find key.toList (toJson floats (.object m))).bind f = g (index m key) := by
  rw [find_toJson, index]
  cases get key.toList m with
  | none => exact hnull.symm
  | some x => exact hfg x

lemma getString_toJson (x : Interface F) : getString (toJson floats x) = (asString x).map cString := by
  cases x with
  | string s => rw [toJson, getString, Utf16.decode_encode, asString, Option.map_some, cString]
  | _ => rfl

lemma bind_getString (m : GoMap F) (key : String) :
    (RapidJson.find key.toList (toJson floats (.object m))).bind getString =
      (asString (index m key)).map cString :=
  find_bind floats (getString_toJson floats) rfl m key

lemma mapM_toJson {β : Type} {f : Value → Option β} {g : Interface F → Option β} {cut : β → β}
    (h : ∀ x, f (toJson floats x) = (g x).map cut) (l : List (Interface F)) :
    (l.map (toJson floats)).mapM f = (l.mapM g).map (List.map cut) := by
  induction l with
  | nil => rfl
  | cons x l ih =>
    rw [List.map_cons, List.mapM_cons, List.mapM_cons, h, ih]
    cases g x <;> cases l.mapM g <;> rfl

lemma parseArray_toJson {β : Type} {f : Value → Option β} {g : Interface F → Option β} {cut : β → β}
    (h : ∀ x, f (toJson floats x) = (g x).map cut) (x : Interface F) :
    parseArray RapidJson.values f (toJson floats x) =
      ((asArray x).bind fun items => items.mapM g).map (List.map cut) := by
  cases x with
  | array items =>
    show (toItems floats items).mapM f = _
    rw [toItems_eq, mapM_toJson floats h]
    rfl
  | _ => rfl

lemma parseMember_toJson (key : String) (x : Interface F) :
    parseMember RapidJson.values key.toList (toJson floats x) =
      ((asObject x).bind fun m => asString (index m key)).map cString := by
  cases x with
  | object m => exact bind_getString floats m key
  | _ => rfl

lemma parseBucket_toJson (x : Interface F) :
    parseBucket RapidJson.values (toJson floats x) = (declaredBucket x).map cutBucket := by
  cases x with
  | object m =>
    have hname := bind_getString floats m "bucket_name"
    have halias := bind_getString floats m "alias"
    simp only [parseBucket, RapidJson.values_find, RapidJson.values_getString, hname, halias, declaredBucket,
      asObject, Option.bind_eq_bind, Option.bind_some]
    cases asString (index m "bucket_name") <;> cases asString (index m "alias") <;> rfl
  | _ => rfl

lemma parseQueue_toJson (x : Interface F) :
    parseQueue RapidJson.values (toJson floats x) = (declaredQueue x).map cutQueue := by
  cases x with
  | object m =>
    have hprovider := bind_getString floats m "provider"
    have hname := bind_getString floats m "queue_name"
    have hendpoint := bind_getString floats m "endpoint"
    have halias := bind_getString floats m "alias"
    simp only [parseQueue, RapidJson.values_find, RapidJson.values_getString, hprovider, hname, hendpoint,
      halias, declaredQueue, asObject, Option.bind_eq_bind, Option.bind_some]
    cases asString (index m "provider") <;> cases asString (index m "queue_name") <;>
      cases asString (index m "endpoint") <;> cases asString (index m "alias") <;> rfl
  | _ => rfl

lemma parseDoc_appMembers (app : Application F) :
    parseDoc RapidJson.values (.object (appMembers floats app)) =
      (declared app.deploymentConfig).map Deployment.cStrings := by
  have hdepcfg : RapidJson.find "depcfg".toList (.object (appMembers floats app)) =
      some (toJson floats app.deploymentConfig) := by
    simp only [RapidJson.find, appMembers, List.find?_cons, Utf16.encode_injective.eq_iff]
    rfl
  rw [parseDoc, RapidJson.values_find, hdepcfg, Option.bind_some, declared]
  cases app.deploymentConfig with
  | object m =>
    have hbuckets := find_bind floats (parseArray_toJson floats (parseBucket_toJson floats)) rfl m "buckets"
    have hqueues := find_bind floats (parseArray_toJson floats (parseQueue_toJson floats)) rfl m "queue"
    have hworkspace := find_bind floats (parseMember_toJson floats "metadata_bucket") rfl m "workspace"
    have hsource := find_bind floats (parseMember_toJson floats "source_bucket") rfl m "source"
    have hobject : asObject (.object m) = some m := rfl
    simp only [hbuckets, hqueues, hworkspace, hsource, hobject, Option.bind_eq_bind, Option.bind_some]
    cases (asArray (index m "buckets")).bind fun items => items.mapM declaredBucket <;>
      cases (asArray (index m "queue")).bind fun items => items.mapM declaredQueue <;>
        cases (asObject (index m "workspace")).bind fun m => asString (index m "metadata_bucket") <;>
          cases (asObject (index m "source")).bind fun m => asString (index m "source_bucket") <;> rfl
  | _ => rfl

/-- The C++ side reads the deployment that the config of an application declares, with its
strings cut at their first NUL. -/
theorem parseDeployment_marshalApp {reader : Reader δ} (hreader : ReadsMarshaled floats reader)
    {app : Application F} (hvalid : app.Valid) :
    parseDeployment reader (marshalApp floats app) =
      (declared app.deploymentConfig).map Deployment.cStrings := by
  obtain ⟨value, numeral, h, hid, hfloats⟩ := hreader
  have hcontent : cString (marshalApp floats app) = marshalApp floats app :=
    cString_of_notMem (nul_notMem_of_parse (parse_marshalApp app))
  obtain ⟨doc, hdoc, hvalue⟩ :=
    h.parse _ _ (parse_marshalApp app) (regular_appMembers hfloats hid hvalid)
  rw [parseDeployment, hcontent, hdoc, Option.bind_some, parseDoc_value h, hvalue, parseDoc_appMembers]

end Agreement

end Eventing.AppFile
