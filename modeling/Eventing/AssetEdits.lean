import Mathlib.Logic.Function.Basic
import Eventing.GoSlice
import Eventing.MetadataKeys

/-!
# The assets of an application

`storeAppSetup` (`http_handlers.go`) goes through the assets of a payload: it deletes or
stores the ones that ask for it, and takes the deleted ones out of the list that it goes
through. The entries are maps, which the cells of the slice refer to; a panic is `none`.
-/
namespace Eventing.AssetEdits
open GoSlice MetadataKeys

variable {β : Type*}

inductive Operation
  | delete
  | add
  | other (text : Text)
  deriving DecidableEq

/-- An entry of `app.Assets`: the keys that the code reads or writes, and the other ones. -/
structure Asset (β : Type*) where
  name : Text
  operation : Option Operation
  content : Option Text
  mimeType : Option Text
  fields : β
  deriving DecidableEq

structure StaticAsset where
  mimeType : Text
  content : Text
  deriving DecidableEq

inductive BucketOp
  | delete (key : Text)
  | setRaw (key : Text) (blob : StaticAsset)
  deriving DecidableEq

/-- What is cut out of a content: it has to have a colon before a comma. -/
def dataURL (content : Text) : Option StaticAsset :=
  match content.splitOn ',' with
  | head :: body :: _ =>
      match head.splitOn ':' with
      | _ :: mimeType :: _ => some ⟨mimeType, body⟩
      | _ => none
  | _ => none

def Asset.added (a : Asset β) (blob : StaticAsset) : Asset β :=
  { a with operation := none, content := none, mimeType := some blob.mimeType }

/-- The state of the loop: the maps of the payload, the cells of the array, the slice
`app.Assets` and what the bucket has received. -/
structure Edit (β : Type*) where
  maps : ℕ → Option (Asset β)
  cells : List ℕ
  assets : Slice
  bucket : List BucketOp

/-- One iteration. Without an application set up under a path, `info` is nil. -/
def editAsset (appName : Text) (info : Bool) (e : Edit β) (index : ℕ) : Option (Edit β) :=
  (e.cells[index]?).bind fun r => (e.maps r).bind fun asset =>
    match asset.operation with
    | some .delete =>
        if info then
          let bucket := e.bucket ++ [.delete (assetCBKey appName asset.name)]
          if 1 < e.assets.len then
            (e.assets.remove e.cells index).map fun p =>
              { e with cells := p.1, assets := p.2, bucket := bucket }
          else (e.assets.upTo 0).map fun s => { e with assets := s, bucket := bucket }
        else none
    | some .add =>
        (asset.content.bind dataURL).bind fun blob =>
          if info then some { e with
            maps := Function.update e.maps r (some (asset.added blob))
            bucket := e.bucket ++ [.setRaw (assetCBKey appName asset.name) blob] }
          else none
    | some (.other _) | none => some e

def editFrom (appName : Text) (info : Bool) : ℕ → ℕ → Edit β → Option (Edit β)
  | 0, _, e => some e
  | count + 1, index, e =>
      (editAsset appName info e index).bind (editFrom appName info count (index + 1))

def Edit.persisted (e : Edit β) : List (Asset β) :=
  (e.cells.take e.assets.len).filterMap e.maps

def Edit.result (e : Edit β) : List (Asset β) × List BucketOp := (e.persisted, e.bucket)

/-- What the payload is decoded into, with cells to spare. -/
def Edit.initial (spare : ℕ) (assets : List (Asset β)) : Edit β where
  maps r := assets[r]?
  cells := List.range assets.length
  assets := ⟨assets.length, assets.length + spare⟩
  bucket := []

/-- The loop over `assetList`, whose length stays what it was: the entries that are
persisted and what the bucket receives. -/
def storeAssets (appName : Text) (info : Bool) (spare : ℕ) (assets : List (Asset β)) :
    Option (List (Asset β) × List BucketOp) :=
  (editFrom appName info assets.length 0 (.initial spare assets)).map Edit.result

/-- An entry that is read and not deleted, and what the bucket receives. -/
def Asset.visited (appName : Text) (a : Asset β) : Option (Asset β × List BucketOp) :=
  match a.operation with
  | some .add => (a.content.bind dataURL).map fun blob =>
      (a.added blob, [.setRaw (assetCBKey appName a.name) blob])
  | some .delete | some (.other _) | none => some (a, [])

def Asset.deletion (appName : Text) (a : Asset β) : BucketOp :=
  .delete (assetCBKey appName a.name)

/-- The loop on the entries themselves, when `kept` stands before the index and `k` entries
have been taken out. The entry behind a deleted one is passed over, except for the last one,
which is left behind in `k` cells and is read from all of them. -/
def edited (appName : Text) :
    List (Asset β) → ℕ → List (Asset β) → Option (List (Asset β) × List BucketOp)
  | kept, _, [] => some (kept, [])
  | kept, k, [x] =>
      if x.operation = some .delete then
        if k = 0 then some (kept, [x.deletion appName])
        else if 1 < kept.length then none
        else some ([], List.replicate (k + 1) (x.deletion appName))
      else (x.visited appName).map fun p => (kept ++ [p.1], p.2)
  | kept, k, [x, y] =>
      if x.operation = some .delete then
        if y.operation = some .delete then
          if 1 < kept.length + 1 then none
          else some ([], x.deletion appName :: List.replicate (k + 1) (y.deletion appName))
        else (y.visited appName).map fun p => (kept ++ [p.1], x.deletion appName :: p.2)
      else (x.visited appName).bind fun p =>
        (edited appName (kept ++ [p.1]) k [y]).map fun q => (q.1, p.2 ++ q.2)
  | kept, k, x :: y :: z :: rest =>
      if x.operation = some .delete then
        (edited appName (kept ++ [y]) (k + 1) (z :: rest)).map fun q =>
          (q.1, x.deletion appName :: q.2)
      else (x.visited appName).bind fun p =>
        (edited appName (kept ++ [p.1]) k (y :: z :: rest)).map fun q => (q.1, p.2 ++ q.2)

end Eventing.AssetEdits
