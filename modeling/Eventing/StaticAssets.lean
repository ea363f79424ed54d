import Eventing.AssetEdits
import Eventing.Base64
import Eventing.Utf8

/-!
# Static assets over HTTP

An asset comes as a data URL, as `readAsDataURL` (`event.js`) gives it. `storeAppSetup`
stores it under a key with its name, and `handleStaticAssets` (`http_handlers.go`) takes the
name out of the request line, where it is percent-encoded.
-/
namespace Eventing.StaticAssets
open AssetEdits KvStore MetadataKeys Utf8

def base64Param : Text := ";base64".toList

lemma base64Param_ne_nil : base64Param ≠ [] := by decide

/-- `data:<mime>;base64,<content>` -/
def readAsDataURL (mime : Text) (content : Bytes) : Text :=
  "data".toList ++ ':' :: (mime ++ (base64Param ++ ',' :: Base64.encode content))

/-- The entry that `saveAsset` adds to the payload. -/
def saveAsset (name mime : Text) (content : Bytes) : Asset Unit :=
  ⟨name, some .add, some (readAsDataURL mime content), none, ()⟩

def runOp (bucket : Store Text StaticAsset) : BucketOp → Store Text StaticAsset
  | .delete key => KvStore.delete bucket key
  | .setRaw key blob => set bucket key blob

inductive Method
  | get
  | other
  deriving DecidableEq

/-- The header `Content-Type`, if it is set, and the body. -/
structure Response where
  contentType : Option Text
  body : Bytes
  deriving DecidableEq

def notSupported : Bytes := encode "Operation not supported for static assets\n".toList

def fetchFailed : Bytes := encode "Failed to fetch asset\n".toList

/-- `handleStaticAssets`, where `apps` gives the name of the application set up under a
path. An index that is out of range and a path of no application panic. -/
def handleStaticAssets (apps : Text → Option Text) (bucket : Store Text StaticAsset)
    (method : Method) (requestURI : Text) : Option Response :=
  match method with
  | .other => some ⟨none, notSupported⟩
  | .get =>
      match requestURI.splitOn '/' with
      | _ :: path :: _ :: assetName :: _ =>
          (apps path).map fun appName =>
            match KvStore.get bucket (assetCBKey appName assetName) with
            | none => ⟨none, fetchFailed⟩
            | some sAsset => ⟨some sAsset.mimeType, Base64.decode sAsset.content⟩
      | _ => none

def assetURI (path encodedName : Text) : Text :=
  '/' :: (path ++ '/' :: ("static_assets".toList ++ '/' :: encodedName))

/-- Whatever is in the bucket, an asset that is stored is served with its type and content. -/
def RoundTrips (percentEncode : Text → Text) (appName path name mime : Text) (content : Bytes) :
    Prop :=
  ∀ (apps : Text → Option Text) (bucket : Store Text StaticAsset) (spare : ℕ),
    apps path = some appName →
    ∃ persisted ops, storeAssets appName true spare [saveAsset name mime content] =
        some (persisted, ops) ∧
      handleStaticAssets apps (ops.foldl runOp bucket) .get
        (assetURI path (percentEncode name)) = some ⟨some mime, content⟩

/-- The type that is cut out of a data URL goes on with the parameter `base64`. -/
lemma dataURL_readAsDataURL {mime : Text} (hcomma : ',' ∉ mime) (hcolon : ':' ∉ mime)
    (content : Bytes) : dataURL (readAsDataURL mime content) =
      some ⟨mime ++ base64Param, Base64.encode content⟩ := by
  have hhead : ',' ∉ "data".toList ++ ':' :: (mime ++ base64Param) := by
    simp only [List.mem_append, List.mem_cons, not_or]
    exact ⟨by decide, by decide, hcomma, by decide⟩
  have hmime : ':' ∉ mime ++ base64Param := by
    simp only [List.mem_append, not_or]
    exact ⟨hcolon, by decide⟩
  have hsplit : (readAsDataURL mime content).splitOn ',' =
      ["data".toList ++ ':' :: (mime ++ base64Param), Base64.encode content] := by
    have hassoc : readAsDataURL mime content =
        ("data".toList ++ ':' :: (mime ++ base64Param)) ++ ',' :: Base64.encode content := by
      simp only [readAsDataURL, List.append_assoc, List.cons_append]
    rw [hassoc, List.splitOn_append_cons_self_of_not_mem hhead,
      List.splitOn_eq_singleton (Base64.comma_notMem_encode content)]
  have hdata : ':' ∉ "data".toList := by decide
  simp only [dataURL, hsplit, List.splitOn_append_cons_self_of_not_mem hdata,
    List.splitOn_eq_singleton hmime]

lemma storeAssets_saveAsset (appName name : Text) {mime : Text} (hcomma : ',' ∉ mime)
    (hcolon : ':' ∉ mime) (content : Bytes) (spare : ℕ) :
    ∃ persisted, storeAssets appName true spare [saveAsset name mime content] =
      some (persisted, [.setRaw (assetCBKey appName name)
        ⟨mime ++ base64Param, Base64.encode content⟩]) := by
  simp [storeAssets, editFrom, editAsset, Edit.initial, saveAsset,
    dataURL_readAsDataURL hcomma hcolon, Edit.result]

/-- A name that no browser changes and that has no slash is found, and its content is served,
with a type that is not its own. -/
theorem handleStaticAssets_saveAsset {apps : Text → Option Text} {appName path name mime : Text}
    (hcomma : ',' ∉ mime) (hcolon : ':' ∉ mime) (hpath : '/' ∉ path) (hname : '/' ∉ name)
    (happ : apps path = some appName) (content : Bytes) (bucket : Store Text StaticAsset)
    (spare : ℕ) :
    ∃ persisted ops, storeAssets appName true spare [saveAsset name mime content] =
        some (persisted, ops) ∧
      handleStaticAssets apps (ops.foldl runOp bucket) .get (assetURI path name) =
        some ⟨some (mime ++ base64Param), content⟩ := by
  obtain ⟨persisted, hs⟩ := storeAssets_saveAsset appName name hcomma hcolon content spare
  have hsplit : (assetURI path name).splitOn '/' =
      [[], path, "static_assets".toList, name] := by
    have hdir : '/' ∉ "static_assets".toList := by decide
    rw [assetURI, List.splitOn_cons_eq_if_modifyHead, if_pos (by decide),
      List.splitOn_append_cons_self_of_not_mem hpath,
      List.splitOn_append_cons_self_of_not_mem hdir, List.splitOn_eq_singleton hname]
  refine ⟨persisted, _, hs, ?_⟩
  simp [handleStaticAssets, hsplit, happ, runOp, Base64.decode_encode]

/-- No asset is served with its own type: the one that is stored is longer. -/
theorem not_roundTrips (percentEncode : Text → Text) (appName path name mime : Text)
    (content : Bytes) (hcomma : ',' ∉ mime) (hcolon : ':' ∉ mime) :
    ¬ RoundTrips percentEncode appName path name mime content := by
  intro h
  obtain ⟨persisted, ops, hs, hget⟩ := h (fun _ => some appName) KvStore.empty 0 rfl
  obtain ⟨persisted', hs'⟩ := storeAssets_saveAsset appName name hcomma hcolon content 0
  rw [hs'] at hs
  cases hs
  -- What the request finds is the stored asset or nothing.
  simp only [handleStaticAssets, List.foldl_cons, List.foldl_nil, runOp] at hget
  split at hget
  · next path' _ assetName _ _ =>
    simp only [Option.map_some, Option.some.injEq] at hget
    by_cases hkey : assetCBKey appName assetName = assetCBKey appName name
    · simp [hkey, base64Param_ne_nil] at hget
    · simp [hkey] at hget
  · contradiction

/-- An empty picture. -/
theorem not_roundTrips_png :
    ¬ RoundTrips id ['a'] ['p'] "i.png".toList "image/png".toList [] :=
  not_roundTrips id ['a'] ['p'] "i.png".toList "image/png".toList [] (by decide) (by decide)

/-- A style sheet, whose name a browser leaves as it is, comes back as `text/css;base64`. -/
theorem css_not_served :
    ¬ RoundTrips id ['a'] ['p'] "s.css".toList "text/css".toList [97] := by
  intro h
  obtain ⟨persisted, ops, hs, hget⟩ := h (fun _ => some ['a']) KvStore.empty 0 rfl
  have hrun : storeAssets ['a'] true 0 [saveAsset "s.css".toList "text/css".toList [97]] =
      some ([⟨"s.css".toList, none, none, some "text/css;base64".toList, ()⟩],
        [.setRaw "a_s.css".toList ⟨"text/css;base64".toList, "YQ==".toList⟩]) := by
    decide
  rw [hrun] at hs
  cases hs
  revert hget
  decide

end Eventing.StaticAssets
