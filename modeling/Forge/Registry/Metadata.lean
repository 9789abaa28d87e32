import Forge.Python.Json
import Forge.Python.Sorting
import Forge.Registry.SemVer

/-! # The artifact table

`registry/metadata.py`. The constraint `UNIQUE(name, version)` is carried by the table, and the column
`published_at` is filled with the time of the insertion.
-/
namespace Forge.Registry
open Forge.Python
set_option autoImplicit false

structure Row where
  name : String
  version : String
  sha256 : String
  size : Nat
  publisher : String
  deps : String
  publishedAt : String
  deriving DecidableEq

def Row.coordinate (row : Row) : String × String := (row.name, row.version)

structure ArtifactTable where
  rows : List Row
  unique : (rows.map Row.coordinate).Nodup

namespace ArtifactTable

def empty : ArtifactTable := ⟨[], List.nodup_nil⟩

def coordinates (table : ArtifactTable) : List (String × String) := table.rows.map Row.coordinate

theorem unique_append {table : ArtifactTable} {row : Row}
    (h : row.coordinate ∉ table.coordinates) : ((table.rows ++ [row]).map Row.coordinate).Nodup := by
  rw [List.map_append]
  exact List.Nodup.append table.unique (List.nodup_singleton _) (List.disjoint_singleton.mpr h)

/-- `INSERT`; `none` is `sqlite3.IntegrityError`. -/
def insert? (table : ArtifactTable) (row : Row) : Option ArtifactTable :=
  if h : row.coordinate ∈ table.coordinates then none
  else some ⟨table.rows ++ [row], unique_append h⟩

def select (table : ArtifactTable) (name version : String) : Option Row :=
  table.rows.find? fun row => row.coordinate = (name, version)

end ArtifactTable

def insertArtifact (json : JsonModule) (now : String) (table : ArtifactTable)
    (name version sha : String) (size : Nat) (publisher : String) (deps : Json) :
    Except ValueError ArtifactTable :=
  let deps := json.dumps (if deps.truthy then deps else .arr [])
  match table.insert? ⟨name, version, sha, size, publisher, deps, now⟩ with
  | none => .error ⟨"CONFLICT: " ++ name ++ "@" ++ version ++ " already exists"⟩
  | some table => .ok table

structure Artifact where
  name : String
  version : String
  sha256 : String
  size : Nat
  publisher : String
  deps : Json
  publishedAt : String

def Row.toArtifact (row : Row) (deps : Json) : Artifact :=
  ⟨row.name, row.version, row.sha256, row.size, row.publisher, deps, row.publishedAt⟩

def getArtifact (json : JsonModule) (table : ArtifactTable) (name version : String) :
    Except JSONDecodeError (Option Artifact) :=
  match table.select name version with
  | none => .ok none
  | some row => (json.loads row.deps).map fun deps => some (row.toArtifact deps)

structure VersionEntry where
  version : String
  sha256 : String
  size : Nat
  publishedAt : String

def listVersions (table : ArtifactTable) (name : String) : Except ValueError (List VersionEntry) :=
  let rows := table.rows.filter fun row => row.name = name
  let entries := rows.map fun row => VersionEntry.mk row.version row.sha256 row.size row.publishedAt
  sortedByKey (fun entry => versionKey entry.version) (· ≤ ·) entries

/-! ## What the queries see -/

section
variable {table : ArtifactTable} {name : String} {entries : List VersionEntry}

theorem listVersions_perm (h : listVersions table name = .ok entries) :
    (entries.map VersionEntry.version).Perm
      ((table.rows.filter fun row => row.name = name).map Row.version) := by
  have hPerm := (sortedByKey_perm h).map VersionEntry.version
  rwa [List.map_map] at hPerm

theorem listVersions_of_keys (h : ∀ row ∈ table.rows, row.name = name → ∃ k, versionKey row.version = .ok k) :
    ∃ entries, listVersions table name = .ok entries := by
  apply sortedByKey_of_ok
  intro entry hEntry
  obtain ⟨row, hRow, rfl⟩ := List.mem_map.mp hEntry
  obtain ⟨hRow, hName⟩ := List.mem_filter.mp hRow
  exact h row hRow (by simpa using hName)

end

namespace ArtifactTable

theorem select_eq_some_iff {table : ArtifactTable} {name version : String} {row : Row} :
    table.select name version = some row ↔ row ∈ table.rows ∧ row.coordinate = (name, version) := by
  constructor
  · intro h
    exact ⟨List.mem_of_find?_eq_some h, by simpa using List.find?_some h⟩
  · rintro ⟨hMem, hCoordinate⟩
    cases hSelect : table.select name version with
    | none =>
      have := List.find?_eq_none.mp hSelect row hMem
      simp [hCoordinate] at this
    | some row' =>
      have hMem' := List.mem_of_find?_eq_some hSelect
      have hCoordinate' : row'.coordinate = (name, version) := by simpa using List.find?_some hSelect
      rw [List.inj_on_of_nodup_map table.unique hMem' hMem (hCoordinate'.trans hCoordinate.symm)]

theorem select_eq_none_iff {table : ArtifactTable} {name version : String} :
    table.select name version = none ↔ (name, version) ∉ table.coordinates := by
  simp [select, coordinates, List.find?_eq_none]

theorem mem_coordinates_iff {table : ArtifactTable} {name version : String} :
    (name, version) ∈ table.coordinates ↔ ∃ row, table.select name version = some row := by
  rw [← not_iff_not, ← select_eq_none_iff, Option.eq_none_iff_forall_ne_some]
  exact not_exists.symm

theorem insert?_eq_some {table table' : ArtifactTable} {row : Row} (h : table.insert? row = some table') :
    row.coordinate ∉ table.coordinates ∧ table'.rows = table.rows ++ [row] := by
  unfold insert? at h
  split at h
  · cases h
  · rename_i hAbsent
    cases h
    exact ⟨hAbsent, rfl⟩

theorem insert?_eq_none_iff {table : ArtifactTable} {row : Row} :
    table.insert? row = none ↔ row.coordinate ∈ table.coordinates := by
  unfold insert?
  split <;> simp_all

end ArtifactTable

/-- An insertion adds one row under a new coordinate, or finds the coordinate taken. -/
theorem insertArtifact_cases (json : JsonModule) (now : String) (table : ArtifactTable)
    (name version sha : String) (size : Nat) (publisher : String) (deps : Json) :
    (∃ table' value, insertArtifact json now table name version sha size publisher deps = .ok table' ∧
      (name, version) ∉ table.coordinates ∧
      table'.rows = table.rows ++ [⟨name, version, sha, size, publisher, json.dumps value, now⟩]) ∨
    ((name, version) ∈ table.coordinates ∧
      insertArtifact json now table name version sha size publisher deps =
        .error ⟨"CONFLICT: " ++ name ++ "@" ++ version ++ " already exists"⟩) := by
  cases h : table.insert? ⟨name, version, sha, size, publisher,
      json.dumps (if deps.truthy then deps else .arr []), now⟩ with
  | none =>
    right
    exact ⟨ArtifactTable.insert?_eq_none_iff.mp h, by rw [insertArtifact, h]⟩
  | some table' =>
    left
    obtain ⟨hAbsent, hRows⟩ := ArtifactTable.insert?_eq_some h
    exact ⟨table', _, by rw [insertArtifact, h], hAbsent, hRows⟩

end Forge.Registry
