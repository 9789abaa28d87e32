import Forge.Python.JsonSort
import Forge.Engine.Launch

/-! # The text of a lockfile

The resolver's text, the file of a run and what the command line prints hold one JSON value, and
`lockfile_as_deps_dict` gets the same packages from it as from the lockfile itself.
-/
namespace Forge.Registry
open Forge.Python
set_option autoImplicit false

/-- The dictionary that `_build_lockfile` makes of a package. -/
def LockedPackage.toJson (pkg : LockedPackage) : Json :=
  .obj [("name", .str pkg.name), ("version", .str pkg.version), ("sha256", .str pkg.sha256)]

def Lockfile.toJson (lockfile : Lockfile) : Json :=
  .obj [("packages", .arr (lockfile.packages.map LockedPackage.toJson))]

def serializeLockfile (lockfile : Lockfile) : String := dumpsSorted .compact lockfile.toJson ++ "\n"

/-- What the engine writes into `lockfile.json`. -/
def Lockfile.fileText (lockfile : Lockfile) : String := dumpsSorted .compact lockfile.toJson

/-- What `forge resolve` prints. -/
def Lockfile.printed (lockfile : Lockfile) : String :=
  String.ofList ((serializeLockfile lockfile).toList.rdropWhile (· == '\n')) ++ "\n"

def resolveToJson (registry : RegistryClient) (rootDeps : List DepEntry) : Except Raised String :=
  (resolve registry rootDeps).map serializeLockfile

/-- A package of a lockfile that was read back; `none` is a `KeyError`, or a value that is no string. -/
def packageOf? : Json → Option LockedPackage
  | .obj members =>
    match members.lookup "name", members.lookup "version", members.lookup "sha256" with
    | some (.str name), some (.str version), some (.str sha256) => some ⟨name, version, sha256⟩
    | _, _, _ => none
  | _ => none

def lockfileOf? : Json → Option Lockfile
  | .obj members =>
    match members.lookup "packages" with
    | none => some ⟨[]⟩
    | some (.arr items) => (items.mapM packageOf?).map Lockfile.mk
    | some _ => none
  | _ => none

/-! ## The text -/

/-- The members of a package, in the order of their keys. -/
def LockedPackage.sorted (pkg : LockedPackage) : Json :=
  .obj [("name", .str pkg.name), ("sha256", .str pkg.sha256), ("version", .str pkg.version)]

theorem LockedPackage.sortKeys_toJson (pkg : LockedPackage) : sortKeys pkg.toJson = pkg.sorted := by
  have hSha : ¬ ("version" : String) ≤ "sha256" := by decide
  have hFirst : ("name" : String) ≤ "sha256" := by decide
  simp [toJson, sorted, sortKeys, sortKeysMembers, insertMembers, hSha, hFirst]

theorem Lockfile.sortKeys_toJson (lockfile : Lockfile) :
    sortKeys lockfile.toJson = .obj [("packages", .arr (lockfile.packages.map LockedPackage.sorted))] := by
  have hItems : ∀ packages : List LockedPackage,
      sortKeysItems (packages.map LockedPackage.toJson) = packages.map LockedPackage.sorted := by
    intro packages
    induction packages with
    | nil => rfl
    | cons pkg packages ih => rw [List.map_cons, sortKeysItems, ih, pkg.sortKeys_toJson, List.map_cons]
  rw [toJson, sortKeys, sortKeysMembers, sortKeysMembers, sortKeys, hItems]
  rfl

theorem Lockfile.canonical {repr : String → String} (lockfile : Lockfile) : Canonical repr lockfile.toJson := by
  refine ⟨by simp, ?_, trivial⟩
  rw [Canonical, canonicalItems_iff]
  intro item hItem
  obtain ⟨pkg, -, rfl⟩ := List.mem_map.mp hItem
  exact ⟨by simp, trivial, trivial, trivial, trivial⟩

theorem LockedPackage.packageOf?_sorted (pkg : LockedPackage) : packageOf? pkg.sorted = some pkg := rfl

theorem Lockfile.lockfileOf?_sorted (lockfile : Lockfile) : lockfileOf? (sortKeys lockfile.toJson) = some lockfile := by
  have hItems : ∀ packages : List LockedPackage,
      (packages.map LockedPackage.sorted).mapM packageOf? = some packages := by
    intro packages
    induction packages with
    | nil => rfl
    | cons pkg packages ih => simp [ih, pkg.packageOf?_sorted]
  rw [lockfile.sortKeys_toJson]
  change ((lockfile.packages.map LockedPackage.sorted).mapM packageOf?).map Lockfile.mk = some lockfile
  rw [hItems]
  rfl

/-- Both texts hold one value, the lockfile with its keys sorted. -/
theorem Lockfile.loads_text (floats : FloatRepr) (lockfile : Lockfile) :
    floats.loads lockfile.fileText = .ok (sortKeys lockfile.toJson) ∧
    floats.loads (serializeLockfile lockfile) = .ok (sortKeys lockfile.toJson) := by
  have hFile := loads_dumpsSorted floats .compact lockfile.canonical (List.forall_mem_nil _)
  have hSpace : ∀ c ∈ ['\n'], isJsonSpace c = true := by simp [isJsonSpace]
  refine ⟨?_, loads_dumpsSorted floats .compact lockfile.canonical hSpace⟩
  rwa [String.ofList_nil, String.append_empty] at hFile

theorem serializeLockfile_injective : Function.Injective serializeLockfile := by
  intro lockfile lockfile' hText
  have hLoads := (lockfile.loads_text zeroFloats).2
  rw [hText, (lockfile'.loads_text zeroFloats).2] at hLoads
  have hRead := lockfile.lockfileOf?_sorted
  rw [← Except.ok.inj hLoads, lockfile'.lockfileOf?_sorted] at hRead
  exact (Option.some.inj hRead).symm

theorem LockedPackage.isPrintable_encode (pkg : LockedPackage) :
    ∀ c ∈ encode .compact pkg.sorted, isPrintable c = true := by
  have hQuoted := isPrintable_quoted
  intro c hc
  simp only [sorted, encode, encodeMembers, Separators.key, Separators.item, List.mem_cons, List.mem_append,
    List.not_mem_nil, or_false] at hc
  rcases hc with rfl | (hc | rfl) | hc | rfl | (hc | rfl) | hc | rfl | (hc | rfl) | hc | rfl
  all_goals first | exact hQuoted _ _ hc | decide

theorem isPrintable_encodeItems {items : List Json}
    (hItems : ∀ item ∈ items, ∀ c ∈ encode .compact item, isPrintable c = true) :
    ∀ c ∈ encodeItems .compact items, isPrintable c = true := by
  induction items with
  | nil => simp [encodeItems, isPrintable]
  | cons item items ih =>
    rw [List.forall_mem_cons] at hItems
    rw [encodeItems, List.forall_mem_append, List.forall_mem_append]
    exact ⟨by simp [Separators.item, isPrintable], hItems.1, ih hItems.2⟩

theorem Lockfile.isPrintable_fileText (lockfile : Lockfile) :
    ∀ c ∈ lockfile.fileText.toList, isPrintable c = true := by
  have hItems : ∀ item ∈ lockfile.packages.map LockedPackage.sorted,
      ∀ c ∈ encode .compact item, isPrintable c = true := by
    intro item hItem
    obtain ⟨pkg, -, rfl⟩ := List.mem_map.mp hItem
    exact pkg.isPrintable_encode
  have hArray : ∀ c ∈ encode .compact (.arr (lockfile.packages.map LockedPackage.sorted)), isPrintable c = true := by
    cases hPackages : lockfile.packages.map LockedPackage.sorted with
    | nil => simp [encode, isPrintable]
    | cons item items =>
      rw [hPackages, List.forall_mem_cons] at hItems
      rw [encode, List.forall_mem_cons, List.forall_mem_append]
      exact ⟨by decide, hItems.1, isPrintable_encodeItems hItems.2⟩
  rw [fileText, dumpsSorted, dumps, String.toList_ofList, lockfile.sortKeys_toJson, encode, encodeMembers,
    List.forall_mem_cons, List.forall_mem_append, List.forall_mem_append, List.forall_mem_append]
  exact ⟨by decide, ⟨isPrintable_quoted _, by simp [Separators.key, isPrintable]⟩, hArray, by simp [isPrintable]⟩

theorem Lockfile.printed_eq (lockfile : Lockfile) : lockfile.printed = serializeLockfile lockfile := by
  have hText : (serializeLockfile lockfile).toList = lockfile.fileText.toList ++ ['\n'] := by
    simp [serializeLockfile, fileText]
  have hLast : lockfile.fileText.toList.rdropWhile (· == '\n') = lockfile.fileText.toList := by
    rw [List.rdropWhile_eq_self_iff]
    intro hNonempty hNewline
    have hPrintable := lockfile.isPrintable_fileText _ (List.getLast_mem hNonempty)
    rw [beq_iff_eq.mp hNewline] at hPrintable
    exact absurd hPrintable (by decide)
  rw [printed, hText, List.rdropWhile_concat_pos _ _ _ rfl, hLast, String.ofList_toList, serializeLockfile, fileText]

theorem resolveToJson_ok_iff {registry : RegistryClient} {rootDeps : List DepEntry} {lockfile : Lockfile} :
    resolveToJson registry rootDeps = .ok (serializeLockfile lockfile) ↔ resolve registry rootDeps = .ok lockfile := by
  unfold resolveToJson
  cases resolve registry rootDeps with
  | error raised => simp [Except.map]
  | ok locked => simp [Except.map, serializeLockfile_injective.eq_iff]

end Forge.Registry

namespace Forge.Engine
open Forge.Python Forge.Registry Forge.Theory

/-! ## The lockfile of a run -/

/-- The resolver's text for the pipeline, which `forge resolve` prints as well, is one printable line. The
file of the run holds this line. Read back, both are the dictionary that the jobs pull by. No other
lockfile has this text. -/
theorem lockfile_text {host : Host} {registry : RegistryClient} {pipeline : PipelineConfig} {events : List Event}
    {s : Execution} {lockfile : Lockfile} (floats : FloatRepr)
    (hRun : Run (Execution.Step host registry pipeline) .initial events s)
    (hLockfile : s.run.lockfile = some lockfile) :
    resolveToJson registry pipeline.dependencies = .ok lockfile.printed ∧
    lockfile.printed = lockfile.fileText ++ "\n" ∧ (∀ c ∈ lockfile.fileText.toList, isPrintable c = true) ∧
    (∃ value, floats.loads lockfile.fileText = .ok value ∧ floats.loads lockfile.printed = .ok value ∧
      (lockfileOf? value).map (fun locked => depsOf (some locked)) =
        some (lockfile.packages.map fun pkg => (pkg.name, ⟨pkg.version, pkg.sha256⟩))) ∧
    ∀ registry' rootDeps', resolveToJson registry' rootDeps' = .ok lockfile.printed ↔
      resolve registry' rootDeps' = .ok lockfile := by
  have hResolves := lockfile_resolves hRun hLockfile
  have hRead : (lockfileOf? (sortKeys lockfile.toJson)).map (fun locked => depsOf (some locked)) =
      some (lockfile.packages.map fun pkg => (pkg.name, ⟨pkg.version, pkg.sha256⟩)) := by
    rw [lockfile.lockfileOf?_sorted, Option.map_some, depsOf_eq hResolves]
  rw [lockfile.printed_eq]
  refine ⟨resolveToJson_ok_iff.mpr hResolves, rfl, lockfile.isPrintable_fileText,
    ⟨_, (lockfile.loads_text floats).1, (lockfile.loads_text floats).2, hRead⟩, ?_⟩
  exact fun registry' rootDeps' => resolveToJson_ok_iff

def httpPipeline : PipelineConfig :=
  { releasePipeline [] with dependencies := [entryOf "lib-http" "1.0.0"] }

theorem lockfile_text_http : resolveToJson httpRegistry httpPipeline.dependencies = .ok httpLockfile.printed ∧
    ∃ value, zeroFloats.loads httpLockfile.printed = .ok value := by
  have hRun : ∃ s, Run (Execution.Step exampleHost httpRegistry httpPipeline) .initial [.resolve] s ∧
      s.run.lockfile = some httpLockfile := ⟨_, run_stepsOf_iff.mpr rfl, rfl⟩
  obtain ⟨s, hRun, hLockfile⟩ := hRun
  obtain ⟨hText, -, -, ⟨value, -, hPrinted, -⟩, -⟩ := lockfile_text zeroFloats hRun hLockfile
  exact ⟨hText, value, hPrinted⟩

end Forge.Engine
