import Forge.Registry.Metadata
import Forge.Registry.Storage
import Forge.Theory.Transition

/-! # The registry server

`registry/main.py` behind its authentication. A publish is a handler that advances one step at a time,
so any number of them interleave, and the process may be killed between two steps or while a blob file
is written. Rows are inserted atomically.
-/
namespace Forge.Registry
open Forge.Python Forge.Theory
set_option autoImplicit false

structure HTTPException where
  statusCode : Nat
  detail : String
  deriving DecidableEq

/-- An answer, an `HTTPException`, or an exception that no handler catches. -/
inductive Answer (α : Type) where
  | ok (body : α)
  | raised (exc : HTTPException)
  | internalServerError

/-- The status of an answer whose route declares the given one for success. -/
def Answer.statusCode {α : Type} (success : Nat) : Answer α → Nat
  | .ok _ => success
  | .raised exc => exc.statusCode
  | .internalServerError => 500

structure Store where
  artifacts : ArtifactTable
  blobs : Blobs

/-! ## Publishing -/

structure Request where
  name : String
  version : String
  file : Bytes
  checksum : String
  deps : String
  publisher : String
  deriving DecidableEq

def Request.coordinate (request : Request) : String × String := (request.name, request.version)

structure Published where
  name : String
  version : String
  sha256 : String
  size : Nat

/-- Where a publish stands: before its existence check, after the check, after the body is read, after
the checksum is verified, after the blob is stored, after the row is committed. -/
inductive Handler where
  | received
  | checked
  | read (data : Bytes)
  | verified (data : Bytes)
  | stored (data : Bytes) (sha : String)
  | committed (data : Bytes) (sha : String)
  | answered (answer : Answer Published)
  | cut (last : Handler)

def depList (json : JsonModule) (deps : String) : Json :=
  match json.loads deps with
  | .error _ => .arr []
  | .ok value => value

def publishArtifact (json : JsonModule) (now : String) (request : Request) (store : Store) :
    Handler → Option (Store × Handler)
  | .received =>
    let name := request.name
    let version := request.version
    if !isValidSemver version then
      some (store, .answered (.raised ⟨400, "Invalid semver version: " ++ version⟩))
    else
      match getArtifact json store.artifacts name version with
      | .error _ => some (store, .answered .internalServerError)
      | .ok (some _) =>
        some (store, .answered (.raised ⟨409, name ++ "@" ++ version ++ " already exists (immutable)"⟩))
      | .ok none => some (store, .checked)
  | .checked => some (store, .read request.file)
  | .read data =>
    if verifyChecksum data request.checksum then some (store, .verified data)
    else
      some (store, .answered (.raised ⟨400, "Checksum mismatch: declared=" ++ request.checksum ++
        ", actual=sha256:" ++ sha256 data⟩))
  | .verified data =>
    let (blobs, sha) := storeBlob store.blobs data
    some ({ store with blobs }, .stored data sha)
  | .stored data sha =>
    match insertArtifact json now store.artifacts request.name request.version sha data.length
      request.publisher (depList json request.deps) with
    | .error exc => some (store, .answered (.raised ⟨409, exc.message⟩))
    | .ok artifacts => some ({ store with artifacts }, .committed data sha)
  | .committed data sha =>
    some (store, .answered (.ok ⟨request.name, request.version, sha, data.length⟩))
  | .answered _ => none
  | .cut _ => none

/-! ## Reading -/

def notFound (name version : String) : HTTPException := ⟨404, name ++ "@" ++ version ++ " not found"⟩

def artifactMeta (json : JsonModule) (store : Store) (name version : String) : Answer Artifact :=
  match getArtifact json store.artifacts name version with
  | .error _ => .internalServerError
  | .ok none => .raised (notFound name version)
  | .ok (some artifact) => .ok artifact

/-- The body and the header `X-Artifact-SHA256`. -/
structure Download where
  content : Bytes
  sha256 : String

def downloadArtifact (json : JsonModule) (store : Store) (name version : String) : Answer Download :=
  match getArtifact json store.artifacts name version with
  | .error _ => .internalServerError
  | .ok none => .raised (notFound name version)
  | .ok (some artifact) =>
    match getBlob store.blobs artifact.sha256 with
    | none => .raised ⟨404, "Blob not found"⟩
    | some data =>
      if data = [] then .raised ⟨404, "Blob not found"⟩ else .ok ⟨data, artifact.sha256⟩

def listArtifactVersions (store : Store) (name : String) : Answer (List String) :=
  match listVersions store.artifacts name with
  | .error _ => .internalServerError
  | .ok entries => .ok (entries.map VersionEntry.version)

/-! ## Runs of the server -/

structure Server where
  store : Store
  requests : List (Request × Handler)

def Server.initial : Server := ⟨⟨.empty, .empty⟩, []⟩

/-- `killWriting i n` kills the process when the blob file of publish `i` has got `n` bytes. -/
inductive Event where
  | arrive (request : Request)
  | advance (i : Nat) (now : String)
  | read (name version : String)
  | kill
  | killWriting (i n : Nat)

def Handler.kill : Handler → Handler
  | .answered answer => .answered answer
  | .cut handler => .cut handler
  | handler => .cut handler

def Server.killed (server : Server) : Server :=
  { server with requests := server.requests.map fun p => (p.1, p.2.kill) }

def Server.tornBlob (server : Server) (i n : Nat) : Option Blobs :=
  match server.requests[i]? with
  | some (_, .verified data) =>
    let path := blobPath (sha256 data)
    if path ∈ server.store.blobs.keys then none
    else some (server.store.blobs.set path (data.take n))
  | _ => none

def Server.next (json : JsonModule) (server : Server) : Event → Option Server
  | .arrive request => some { server with requests := server.requests ++ [(request, .received)] }
  | .advance i now =>
    match server.requests[i]? with
    | none => none
    | some (request, handler) =>
      (publishArtifact json now request server.store handler).map fun r =>
        ⟨r.1, server.requests.set i (request, r.2)⟩
  | .read _ _ => some server
  | .kill => some server.killed
  | .killWriting i n =>
    (server.tornBlob i n).map fun blobs => { server.killed with store := { server.store with blobs } }

def Server.Step (json : JsonModule) : Server → Event → Server → Prop := stepsOf (Server.next json)

end Forge.Registry
