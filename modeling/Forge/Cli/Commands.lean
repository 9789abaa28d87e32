import Forge.Engine.Execution
import Forge.Python.JsonText
import Forge.Python.Lines
import Forge.Registry.HttpClient
import Forge.Registry.Service

/-! # The commands

`cli/forge.py`. A command prints lines and exits. The lines of a response that comes in parts are those of the
library that sends the requests. What Python prints for an exception that no command catches is left out. No
response has a lone surrogate in it, so what a command does with one is left out as well.
-/
namespace Forge.Cli
open Forge.Python Forge.Registry
set_option autoImplicit false

structure Outcome where
  stdout : List String := []
  stderr : List String := []
  exitCode : Nat := 0
  deriving DecidableEq

/-- A response. `json` is what `resp.json()` returns, `none` for an exception. -/
structure Reply where
  statusCode : Nat
  parts : List String
  json : Option Json

def Reply.text (reply : Reply) : String := joined reply.parts

def Reply.refused (reply : Reply) : Outcome :=
  { stderr := ["Error " ++ toString reply.statusCode ++ ": " ++ reply.text], exitCode := 1 }

/-! ## Credentials -/

structure Credentials where
  url : String
  token : String
  registryUrl : Option String := none

/-- The text of the file after `_save_credentials`. -/
def saveCredentials (url token : String) : String :=
  dumps .default (.obj [("url", .str (rstripChars url ['/'])), ("token", .str token)])

/-- The credentials in a loaded file, as far as the commands look at them; `none` is a `KeyError`, or a value that is
no string. -/
def credentialsOf? : Json → Option Credentials
  | .obj members =>
    match members.lookup "url", members.lookup "token", members.lookup "registry_url" with
    | some (.str url), some (.str token), none => some ⟨url, token, none⟩
    | some (.str url), some (.str token), some (.str registryUrl) => some ⟨url, token, some registryUrl⟩
    | _, _, _ => none
  | _ => none

/-- `_load_credentials`; `none` where the command exits or raises. -/
def loadCredentials (floats : FloatRepr) (file : Option String) : Option Credentials :=
  file.bind fun text =>
    match floats.loads text with
    | .ok creds => credentialsOf? creds
    | .error _ => none

def Credentials.headers (creds : Credentials) : String := "Bearer " ++ creds.token

/-- `creds.get("registry_url") or creds["url"].replace(":8000", ":8001")`. -/
def Credentials.registry (creds : Credentials) : String :=
  match creds.registryUrl with
  | none => replace creds.url ":8000" ":8001"
  | some registryUrl => if registryUrl = "" then replace creds.url ":8000" ":8001" else registryUrl

def login (url : String) : Outcome := { stdout := ["Logged in to " ++ rstripChars url ['/']] }

/-! ## Logs -/

section
variable (floats : FloatRepr) (repr : Json → String) (iterLines : List String → List String)

/-- `format(value)`: a string as it is, and the text that `repr` gives for other values. -/
def formatted (repr : Json → String) : Json → String
  | .str s => s
  | value => repr value

def echoEvent (repr : Json → String) (members : List (String × Json)) : String :=
  let get key := ((members.lookup key).map (formatted repr)).getD ""
  "[" ++ get "ts" ++ "] [" ++ get "job" ++ "] " ++ get "line"

/-- The loop of `logs` over the lines of the response, and whether it gets to its end. -/
def printLines : List String → List String × Bool
  | [] => ([], true)
  | line :: lines =>
    if line = "" || !startsWith line "data: " then printLines lines
    else
      match floats.loads (dropPrefixChars line 6) with
      | .ok (.obj members) =>
        let (printed, ended) := printLines lines
        (echoEvent repr members :: printed, ended)
      | _ => ([], false)

/-- Both branches of `logs` do the same with the response. -/
def logs (reply : Reply) : Outcome :=
  if reply.statusCode ≠ 200 then reply.refused
  else
    let (printed, ended) := printLines floats repr (iterLines reply.parts)
    { stdout := printed, exitCode := if ended then 0 else 1 }

/-! ## Runs -/

def runIdOf? : Option Json → Option String
  | some (.obj members) => (members.lookup "run_id").map (formatted repr)
  | _ => none

/-- The test of `status` after the logs; an exception on the way has the same exit code. -/
def hasSucceeded : Option Json → Bool
  | some (.obj members) =>
    match members.lookup "status" with
    | some (.str status) => status = "succeeded"
    | _ => false
  | _ => false

/-- `run`, with the responses to the submission, for the logs and for the status. -/
def run (follow : Bool) (submitted streamed status : Reply) : Outcome :=
  if submitted.statusCode ≠ 200 then submitted.refused
  else
    match runIdOf? repr submitted.json with
    | none => { exitCode := 1 }
    | some runId =>
      if follow then
        let tail := logs floats repr iterLines streamed
        if tail.exitCode ≠ 0 then { tail with stdout := runId :: tail.stdout }
        else { tail with stdout := runId :: tail.stdout, exitCode := if hasSucceeded status.json then 0 else 1 }
      else { stdout := [runId] }

end

/-! ## Packages -/

/-- The request that `publish` sends. The name and the version are pasted into the path of a URL: `none` where they
do not arrive as they are, because the URL ends before them or leads elsewhere. -/
def publishForm (name version deps : String) (data : Bytes) : Option Form :=
  if isSegment name && isSegment version then
    some { name, version, file := data, checksum := "sha256:" ++ sha256 data, deps }
  else none

/-- `dumpsIndented` is `json.dumps` with `indent=2`. -/
def publish (dumpsIndented : Json → String) (reply : Reply) : Outcome :=
  if reply.statusCode ≠ 200 && reply.statusCode ≠ 201 then reply.refused
  else
    match reply.json with
    | some body => { stdout := [dumpsIndented body] }
    | none => { exitCode := 1 }

def listPkg (repr : Json → String) (reply : Reply) : Outcome :=
  if reply.statusCode = 404 then { stdout := ["No versions found."] }
  else if reply.statusCode ≠ 200 then reply.refused
  else
    match reply.json with
    | some (.obj members) =>
      match members.lookup "versions" with
      | none => {}
      | some (.arr versions) => { stdout := versions.map (formatted repr) }
      | some _ => { exitCode := 1 }
    | _ => { exitCode := 1 }

end Forge.Cli
