import Forge.Python.Dict
import Forge.Python.Sorting
import Forge.Registry.Constraint

/-! # The dependency resolver

`DependencyResolver.resolve` with its recursive depth-first search. The dictionaries and the two
stacks that `resolve_name` mutates are one explicit state, and an exception carries the state it
was raised in. The recursion of `resolve_name` is bounded by `fuel`; `resolve` supplies one unit
for every package of the registry and one more.
-/
namespace Forge.Registry
open Forge.Python
set_option autoImplicit false

/-- One entry of a dependency list, `Dict[str, str]` with the keys `name` and `version`. -/
abbrev DepEntry := Dict String String

structure PackageMeta where
  name : String
  version : String
  sha256 : String
  size : Nat
  deps : List DepEntry
  publishedAt : String := ""

structure Requirement where
  name : String
  constraint : String
  constraintSet : ConstraintSet
  via : Option String := none
  deriving DecidableEq

structure ResolvedPackage where
  name : String
  version : String
  sha256 : String
  deps : List DepEntry

/-- What a registry client raises: `transportError` stands for the failures of the HTTP request, and
`typeError` for the `TypeError` or `AttributeError` at metadata whose types are not the declared ones. -/
inductive RegistryError
  | packageNotFoundError (message : String)
  | valueError (error : ValueError)
  | typeError (message : String)
  | transportError (message : String)
  deriving DecidableEq

inductive Exc
  | cycleError (cycle : List String)
  | conflictError (name : String) (reqs : List Requirement) (available : List String)
  | packageNotFoundError (message : String)
  | valueError (error : ValueError)
  | keyError (key : String)
  | typeError (message : String)
  | transportError (message : String)
  | outOfFuel
  deriving DecidableEq

def RegistryError.toExc : RegistryError → Exc
  | .packageNotFoundError message => .packageNotFoundError message
  | .valueError error => .valueError error
  | .typeError message => .typeError message
  | .transportError message => .transportError message

/-! ## Error messages -/

def boundText (bounds : String × String) : String :=
  let bound := if bounds.1 = "" then "" else ">=" ++ bounds.1
  if bounds.2 = "" then bound else strip (bound ++ " <" ++ bounds.2)

def viaText (r : Requirement) : String := r.via.getD "None"

def conflictLine (name : String) (r : Requirement) : String :=
  "  - via " ++ viaText r ++ ": requires " ++ name ++ "@" ++ r.constraint ++ " (" ++
    boundText ((expandConstraint r.constraint).toOption.getD ("", "")) ++ ")"

def Exc.message : Exc → String
  | .cycleError [] => "dependency cycle detected: "
  | .cycleError (first :: rest) =>
    "dependency cycle detected: " ++ " → ".intercalate (first :: rest ++ [first])
  | .conflictError name reqs available =>
    "version conflict for '" ++ name ++ "': no single version satisfies all constraints.\n" ++
      "\n".intercalate (reqs.map (conflictLine name)) ++ "\n  available versions: [" ++
      ", ".intercalate (available.take 10) ++ (if 10 < available.length then ", ..." else "") ++ "]"
  | .packageNotFoundError message => message
  | .valueError error => error.message
  | .keyError key => "'" ++ key ++ "'"
  | .typeError message => message
  | .transportError message => message
  | .outOfFuel => ""

def DepEntry.getItem (d : DepEntry) (key : String) : Except Exc String :=
  match d.get? key with
  | some value => .ok value
  | none => .error (.keyError key)

/-! ## Registries -/

/-- A registry client at one moment. Only finitely many names have published versions. -/
structure RegistryClient where
  listVersions : String → Except RegistryError (List String)
  getMetadata : String → String → Except RegistryError PackageMeta
  packages : List String
  listVersions_of_notMem : ∀ name, name ∉ packages → listVersions name = .ok []

def sortVersions (reverse : Bool) (versions : List String) : Except ValueError (List String) :=
  if reverse then sortedByKey versionKey (· ≥ ·) versions
  else sortedByKey versionKey (· ≤ ·) versions

/-- `InMemoryRegistry`: versions by name, and the metadata of each version. -/
def InMemoryRegistry.client (packages : Dict String (Dict String PackageMeta)) : RegistryClient where
  listVersions name :=
    match packages.get? name with
    | none => .ok []
    | some versions => (sortVersions false versions.keys).mapError .valueError
  getMetadata name version :=
    match (packages.get? name).bind fun versions => versions.get? version with
    | none => .error (.packageNotFoundError ("package not found: " ++ name ++ "@" ++ version))
    | some pkg => .ok pkg
  packages := packages.keys
  listVersions_of_notMem name h := by rw [Dict.get?_eq_none_iff.mpr h]

/-! ## Version selection -/

def satisfiesAll (reqs : List Requirement) (parsed : SemVer) : Bool :=
  reqs.all fun r => r.constraintSet.satisfies parsed

/-- The test of the candidate loop; a version that does not parse is passed over. -/
def isCandidate (reqs : List Requirement) (ver : String) : Bool :=
  match SemVer.parse ver with
  | .error _ => false
  | .ok parsed => satisfiesAll reqs parsed

/-- `_raise_conflict`. The bounds of every constraint are expanded before the error is built. -/
def raiseConflict (name : String) (reqs : List Requirement) (available : List String) : Exc :=
  match withKeys (fun r => expandConstraint r.constraint) reqs with
  | .error error => .valueError error
  | .ok _ => .conflictError name reqs available

def noVersionsMessage (name : String) (reqs : List Requirement) : String :=
  "no published versions for '" ++ name ++ "' satisfying [" ++
    ", ".intercalate (reqs.map fun r => "'" ++ r.constraint ++ "' (via " ++ viaText r ++ ")") ++ "]"

def selectVersion (registry : RegistryClient) (name : String) (reqs : List Requirement) :
    Except Exc String :=
  match registry.listVersions name with
  | .error e => .error e.toExc
  | .ok [] => .error (.packageNotFoundError (noVersionsMessage name reqs))
  | .ok available =>
    match available.filter (isCandidate reqs) with
    | [] => .error (raiseConflict name reqs available)
    | candidates =>
      match sortVersions true candidates with
      | .error e => .error (.valueError e)
      | .ok [] => .error (raiseConflict name reqs available)
      | .ok (best :: _) => .ok best

/-! ## The search -/

/-- `selected` records, for every call of `resolve_name` that got so far, its local `version`. -/
structure ResolverState where
  requirements : Dict String (List Requirement)
  resolved : Dict String ResolvedPackage
  visiting : List String
  pathStack : List String
  selected : List (String × String)

abbrev Raised := Exc × ResolverState

namespace ResolverState

def init (requirements : Dict String (List Requirement)) : ResolverState :=
  ⟨requirements, Dict.empty, [], [], []⟩

def reqs (st : ResolverState) (name : String) : List Requirement := st.requirements.getD name []

end ResolverState

def addRequirement (requirements : Dict String (List Requirement)) (req : Requirement) :
    Dict String (List Requirement) :=
  requirements.set req.name (requirements.getD req.name [] ++ [req])

namespace ResolverState

def add (st : ResolverState) (req : Requirement) : ResolverState :=
  { st with requirements := addRequirement st.requirements req }

def enter (st : ResolverState) (name : String) : ResolverState :=
  { st with visiting := name :: st.visiting, pathStack := st.pathStack ++ [name] }

/-- The `finally` clause. -/
def leave (st : ResolverState) (name : String) : ResolverState :=
  { st with pathStack := st.pathStack.dropLast, visiting := st.visiting.filter (· ≠ name) }

def select (st : ResolverState) (name version : String) : ResolverState :=
  { st with selected := st.selected ++ [(name, version)] }

def resolve (st : ResolverState) (pkg : ResolvedPackage) : ResolverState :=
  { st with resolved := st.resolved.set pkg.name pkg }

end ResolverState

def leaving (name : String) : Except Raised ResolverState → Except Raised ResolverState
  | .ok st => .ok (st.leave name)
  | .error (e, st) => .error (e, st.leave name)

/-- The requirement that a dependency entry stands for. -/
def requirementOf (dep : DepEntry) (via : String) : Except Exc Requirement := do
  let name ← DepEntry.getItem dep "name"
  let constraint ← DepEntry.getItem dep "version"
  let constraintSet ← (ConstraintSet.fromString constraint).mapError .valueError
  .ok ⟨name, constraint, constraintSet, some via⟩

/-- The loop over the dependencies of a selected version. -/
def resolveDeps (resolveName : String → ResolverState → Except Raised ResolverState) (via : String) :
    List DepEntry → ResolverState → Except Raised ResolverState
  | [], st => .ok st
  | dep :: rest, st =>
    match requirementOf dep via with
    | .error e => .error (e, st)
    | .ok req =>
      match resolveName req.name (st.add req) with
      | .error raised => .error raised
      | .ok st => resolveDeps resolveName via rest st

def sortDeps (deps : List DepEntry) : Except Exc (List DepEntry) :=
  sortedByKey (fun dep => DepEntry.getItem dep "name") (· ≤ ·) deps

/-- The body of the `try` block. -/
def visit (registry : RegistryClient)
    (resolveName : String → ResolverState → Except Raised ResolverState) (name : String)
    (st : ResolverState) : Except Raised ResolverState :=
  if st.reqs name = [] then
    .error (.packageNotFoundError ("package '" ++ name ++ "' is required but has no constraints"), st)
  else
    match selectVersion registry name (st.reqs name) with
    | .error e => .error (e, st)
    | .ok version =>
      let st := st.select name version
      match registry.getMetadata name version with
      | .error e => .error (e.toExc, st)
      | .ok pkg =>
        match sortDeps pkg.deps with
        | .error e => .error (e, st)
        | .ok deps =>
          match resolveDeps resolveName (name ++ "@" ++ version) deps st with
          | .error raised => .error raised
          | .ok st => .ok (st.resolve ⟨name, version, pkg.sha256, pkg.deps⟩)

/-- A name that is already resolved: its version is checked again, never selected again. -/
def recheck (registry : RegistryClient) (name : String) (pkg : ResolvedPackage)
    (st : ResolverState) : Except Raised ResolverState :=
  if st.reqs name = [] then .ok st
  else
    match SemVer.parse pkg.version with
    | .error error => .error (.valueError error, st)
    | .ok selected =>
      if satisfiesAll (st.reqs name) selected then .ok st
      else
        match registry.listVersions name with
        | .error e => .error (e.toExc, st)
        | .ok available => .error (raiseConflict name (st.reqs name) available, st)

def resolveName (registry : RegistryClient) :
    Nat → String → ResolverState → Except Raised ResolverState
  | 0, _, st => .error (.outOfFuel, st)
  | fuel + 1, name, st =>
    if name ∈ st.visiting then
      .error (.cycleError (st.pathStack.drop (st.pathStack.idxOf name)), st)
    else
      match st.resolved.get? name with
      | some pkg => recheck registry name pkg st
      | none => leaving name (visit registry (resolveName registry fuel) name (st.enter name))

/-- The loop over the sorted names that had requirements when it started. -/
def resolveRoots (registry : RegistryClient) (fuel : Nat) :
    List String → ResolverState → Except Raised ResolverState
  | [], st => .ok st
  | name :: rest, st =>
    if name ∈ st.resolved.keys then resolveRoots registry fuel rest st
    else
      match resolveName registry fuel name st with
      | .error raised => .error raised
      | .ok st => resolveRoots registry fuel rest st

def sortNames (names : List String) : List String := names.insertionSort (· ≤ ·)

def resolveGraph (registry : RegistryClient) (fuel : Nat)
    (requirements : Dict String (List Requirement)) : Except Raised ResolverState :=
  resolveRoots registry fuel (sortNames requirements.keys) (ResolverState.init requirements)

/-! ## Lockfiles -/

structure LockedPackage where
  name : String
  version : String
  sha256 : String
  deriving DecidableEq, Repr

structure Lockfile where
  packages : List LockedPackage
  deriving DecidableEq, Repr

def buildLockfile (resolved : Dict String ResolvedPackage) : Lockfile :=
  ⟨(sortNames resolved.keys).filterMap fun name =>
    (resolved.get? name).map fun pkg => ⟨pkg.name, pkg.version, pkg.sha256⟩⟩

/-- The requirements of the pipeline itself, in the order of the sorted dependencies. -/
def addRootDeps : List DepEntry → Dict String (List Requirement) →
    Except Raised (Dict String (List Requirement))
  | [], requirements => .ok requirements
  | dep :: rest, requirements =>
    match requirementOf dep "pipeline" with
    | .error e => .error (e, .init requirements)
    | .ok req => addRootDeps rest (addRequirement requirements req)

def rootRequirements (rootDeps : List DepEntry) : Except Raised (Dict String (List Requirement)) :=
  match sortDeps rootDeps with
  | .error e => .error (e, .init .empty)
  | .ok deps => addRootDeps deps .empty

/-- `resolve` up to the lockfile, with the final state of the search. -/
def search (registry : RegistryClient) (rootDeps : List DepEntry) : Except Raised ResolverState :=
  match rootRequirements rootDeps with
  | .error raised => .error raised
  | .ok requirements => resolveGraph registry (registry.packages.length + 1) requirements

def resolve (registry : RegistryClient) (rootDeps : List DepEntry) : Except Raised Lockfile :=
  (search registry rootDeps).map fun st => buildLockfile st.resolved

/-! ## A registry for examples -/

def entryOf (name constraint : String) : DepEntry :=
  Dict.ofList [("name", name), ("version", constraint)]

def published (name version sha256 : String) (deps : List DepEntry) : String × PackageMeta :=
  (version, ⟨name, version, sha256, 100, deps, ""⟩)

def httpRegistry : RegistryClient :=
  InMemoryRegistry.client (Dict.ofList
    [("lib-core", Dict.ofList
        [published "lib-core" "1.0.0" "sha-core-1" [], published "lib-core" "1.1.0" "sha-core-2" []]),
      ("lib-http", Dict.ofList
        [published "lib-http" "1.0.0" "sha-http" [entryOf "lib-core" "^1.0.0"]])])

def httpLockfile : Lockfile :=
  ⟨[⟨"lib-core", "1.1.0", "sha-core-2"⟩, ⟨"lib-http", "1.0.0", "sha-http"⟩]⟩

theorem resolve_httpRegistry :
    resolve httpRegistry [entryOf "lib-http" "1.0.0"] = .ok httpLockfile := by rfl

end Forge.Registry
