import Forge.Registry.Server
import Forge.Registry.ResolutionErrors
import Forge.Registry.ValidVersion

/-! # The registry as the resolver sees it

`HttpRegistryClient` on the answers of the registry, for a store that does not change meanwhile. The
transport returns them unchanged; what a name or version reaches that is no path segment of its own in the
URL is left to a parameter.
-/
namespace Forge.Registry
open Forge.Python
set_option autoImplicit false

/-! ## Paths -/

def isDelimiter (c : Char) : Bool := c == '/' || c == '?' || c == '#' || c == '%'

/-- A text that is one segment in the path of a URL, and arrives as it is. -/
def isSegment (text : String) : Bool :=
  text != "" && text != "." && text != ".." && text.toList.all fun c => !isDelimiter c

theorem isDelimiter_of_class {p : Char → Bool} {c : Char}
    (hClass : p '/' = false ∧ p '?' = false ∧ p '#' = false ∧ p '%' = false) (hc : p c = true) :
    isDelimiter c = false := by
  have hNe : ∀ d, p d = false → c ≠ d := by
    rintro d hd rfl
    exact absurd (hd.symm.trans hc) Bool.false_ne_true
  simp [isDelimiter, hNe _ hClass.1, hNe _ hClass.2.1, hNe _ hClass.2.2.1, hNe _ hClass.2.2.2]

/-- What an anchored pattern reads is a segment, if the pattern reads no delimiters and no dots alone. -/
theorem isSegment_of_match {r : Regex} (hOver : r.Over fun c => isDelimiter c = false)
    (hWords : r.matchAnchored "" = false ∧ r.matchAnchored "." = false ∧ r.matchAnchored ".." = false)
    {text : String} (h : r.matchAnchored text = true) : isSegment text = true := by
  have hNe : ∀ word, r.matchAnchored word = false → text ≠ word := by
    rintro word hWord rfl
    exact absurd (hWord.symm.trans h) Bool.false_ne_true
  simp only [isSegment, bne_iff_ne, hNe _ hWords.1, hNe _ hWords.2.1, hNe _ hWords.2.2, Bool.and_eq_true,
    ne_eq, not_false_eq_true, and_self, true_and, List.all_eq_true]
  intro c hc
  rcases hOver.of_matchAnchored h c hc with hChar | rfl
  · rw [hChar]
    rfl
  · decide

theorem isSegment_of_valid {version : String} (h : isValidSemver version = true) : isSegment version = true :=
  isSegment_of_match (semverPattern_over.mono fun _ hc => isDelimiter_of_class (by decide) hc) (by decide) h

/-! ## Reading answers -/

/-- The key of an entry with its text; `none` where it is present and no string. -/
def textAt (members : List (String × Json)) (key : String) : Option (List (String × String)) :=
  match members.lookup key with
  | none => some []
  | some (.str text) => some [(key, text)]
  | some _ => none

/-- An entry of `deps`, with the two members that the resolver looks at. -/
def readEntry : Json → Option DepEntry
  | .obj members =>
    match textAt members "name", textAt members "version" with
    | some name, some version => some (Dict.ofList (name ++ version))
    | _, _ => none
  | _ => none

def readEntries : List Json → Option (List DepEntry)
  | [] => some []
  | item :: items =>
    match readEntry item, readEntries items with
    | some dep, some deps => some (dep :: deps)
    | _, _ => none

/-- `deps` with the types that `PackageMeta` declares. -/
def readDeps : Json → Option (List DepEntry)
  | .arr items => readEntries items
  | _ => none

/-- `raise_for_status`. -/
def httpError (statusCode : Nat) : RegistryError := .transportError (toString statusCode ++ " Error")

namespace HttpRegistryClient

def listVersions (store : Store) (name : String) : Except RegistryError (List String) :=
  match listArtifactVersions store name with
  | .ok versions => (sortVersions false versions).mapError .valueError
  | .raised exc => if exc.statusCode = 404 then .ok [] else .error (httpError exc.statusCode)
  | .internalServerError => .error (httpError 500)

/-- The text of a `TypeError` depends on the value and is left out. -/
def getMetadata (json : JsonModule) (store : Store) (name version : String) :
    Except RegistryError PackageMeta :=
  match artifactMeta json store name version with
  | .ok artifact =>
    if isRenderable artifact.deps then
      match readDeps artifact.deps with
      | none => .error (.typeError "")
      | some deps =>
        .ok ⟨artifact.name, artifact.version, artifact.sha256, artifact.size, deps, artifact.publishedAt⟩
    else .error (httpError 500)
  | .raised exc =>
    if exc.statusCode = 404 then
      .error (.packageNotFoundError ("package not found: " ++ name ++ "@" ++ version))
    else .error (httpError exc.statusCode)
  | .internalServerError => .error (httpError 500)

theorem listVersions_of_notMem {store : Store} {name : String}
    (h : name ∉ store.artifacts.rows.map Row.name) : listVersions store name = .ok [] := by
  have hNone : (store.artifacts.rows.filter fun row => row.name = name) = [] := by
    rw [List.filter_eq_nil_iff]
    intro row hRow hName
    exact h (List.mem_map.mpr ⟨row, hRow, by simpa using hName⟩)
  rw [listVersions, listArtifactVersions, Registry.listVersions, hNone]
  rfl

def client (json : JsonModule) (elsewhere : RegistryClient) (store : Store) : RegistryClient where
  listVersions name := if isSegment name then listVersions store name else elsewhere.listVersions name
  getMetadata name version :=
    if isSegment name && isSegment version then getMetadata json store name version
    else elsewhere.getMetadata name version
  packages := store.artifacts.rows.map Row.name ++ elsewhere.packages
  listVersions_of_notMem name h := by
    rw [List.mem_append, not_or] at h
    split
    · exact listVersions_of_notMem h.1
    · exact elsewhere.listVersions_of_notMem name h.2

end HttpRegistryClient

/-! ## Stores whose answers can be used -/

/-- An object with a name that is a path segment, and a version that is read as a constraint. -/
def isUsableEntry : Json → Bool
  | .obj members =>
    match members.lookup "name", members.lookup "version" with
    | some (.str name), some (.str constraint) =>
      isSegment name && (ConstraintSet.fromString constraint).toOption.isSome
    | _, _ => false
  | _ => false

/-- A list of usable entries that an answer can be rendered with. -/
def isUsable : Json → Bool
  | .arr items => isRenderable (.arr items) && items.all isUsableEntry
  | _ => false

structure Row.Usable (json : JsonModule) (row : Row) : Prop where
  version : isValidSemver row.version = true
  deps : ∃ deps, json.loads row.deps = .ok deps ∧ isUsable deps = true

def Segment (name : String) : Prop := isSegment name = true

theorem readEntry_of_usable {item : Json} (h : isUsableEntry item = true) :
    ∃ dep, readEntry item = some dep ∧ Usable Segment dep := by
  unfold isUsableEntry at h
  split at h
  · rename_i members
    split at h
    · rename_i name constraint hName hConstraint
      obtain ⟨hSegment, hOption⟩ := Bool.and_eq_true_iff.mp h
      have hNames : DepEntry.Names (entryOf name constraint) name constraint := ⟨rfl, rfl⟩
      obtain ⟨constraintSet, hSet⟩ :
          ∃ constraintSet, ConstraintSet.fromString constraint = .ok constraintSet := by
        cases hSet : ConstraintSet.fromString constraint with
        | error e => simp [hSet, Except.toOption] at hOption
        | ok constraintSet => exact ⟨constraintSet, rfl⟩
      refine ⟨entryOf name constraint, ?_, ⟨name, constraint, constraintSet, hNames, hSet⟩, ?_⟩
      · rw [readEntry, textAt, textAt, hName, hConstraint]
        rfl
      · intro name' constraint' hNames'
        rw [← (hNames.unique hNames').1]
        exact hSegment
    · cases h
  · cases h

theorem readEntries_of_usable {items : List Json} (h : ∀ item ∈ items, isUsableEntry item = true) :
    ∃ deps, readEntries items = some deps ∧ ∀ dep ∈ deps, Usable Segment dep := by
  induction items with
  | nil => exact ⟨[], rfl, by simp⟩
  | cons item items ih =>
    obtain ⟨hItem, hItems⟩ := List.forall_mem_cons.mp h
    obtain ⟨dep, hRead, hDep⟩ := readEntry_of_usable hItem
    obtain ⟨deps, hReads, hDeps⟩ := ih hItems
    exact ⟨dep :: deps, by rw [readEntries, hRead, hReads], List.forall_mem_cons.mpr ⟨hDep, hDeps⟩⟩

theorem readDeps_of_usable {deps : Json} (h : isUsable deps = true) : isRenderable deps = true ∧
    ∃ entries, readDeps deps = some entries ∧ ∀ dep ∈ entries, Usable Segment dep := by
  unfold isUsable at h
  split at h
  · obtain ⟨hRenderable, hItems⟩ := Bool.and_eq_true_iff.mp h
    exact ⟨hRenderable, readEntries_of_usable (List.all_eq_true.mp hItems)⟩
  · cases h

section
variable {json : JsonModule} {store : Store} {name version : String}

theorem HttpRegistryClient.client_listVersions {elsewhere : RegistryClient} (hName : Segment name) :
    (client json elsewhere store).listVersions name = listVersions store name :=
  if_pos hName

theorem HttpRegistryClient.client_getMetadata {elsewhere : RegistryClient} (hName : Segment name)
    (hVersion : Segment version) :
    (client json elsewhere store).getMetadata name version = getMetadata json store name version :=
  if_pos (Bool.and_eq_true_iff.mpr ⟨hName, hVersion⟩)

/-- The versions that the registry lists for a name are those of its rows. -/
theorem HttpRegistryClient.listVersions_ok (h : ∀ row ∈ store.artifacts.rows, isValidSemver row.version = true)
    (name : String) : ∃ versions, listVersions store name = .ok versions ∧
      ∀ version ∈ versions, (name, version) ∈ store.artifacts.coordinates := by
  obtain ⟨entries, hEntries⟩ : ∃ entries, Registry.listVersions store.artifacts name = .ok entries :=
    listVersions_of_keys fun row hRow _ => versionKey_of_valid (h row hRow)
  have hOrigin : ∀ version ∈ entries.map VersionEntry.version,
      ∃ row ∈ store.artifacts.rows, row.name = name ∧ row.version = version := by
    intro version hVersion
    obtain ⟨row, hRow, rfl⟩ := List.mem_map.mp ((listVersions_perm hEntries).mem_iff.mp hVersion)
    obtain ⟨hRow, hName⟩ := List.mem_filter.mp hRow
    exact ⟨row, hRow, by simpa using hName, rfl⟩
  obtain ⟨versions, hVersions⟩ : ∃ versions,
      sortVersions false (entries.map VersionEntry.version) = .ok versions := by
    rw [sortVersions, if_neg Bool.false_ne_true]
    apply sortedByKey_of_ok
    intro version hVersion
    obtain ⟨row, hRow, -, rfl⟩ := hOrigin version hVersion
    exact versionKey_of_valid (h row hRow)
  refine ⟨versions, ?_, ?_⟩
  · rw [listVersions, listArtifactVersions, hEntries]
    simp only [hVersions, Except.mapError]
  · intro version hVersion
    rw [sortVersions, if_neg Bool.false_ne_true] at hVersions
    obtain ⟨row, hRow, rfl, rfl⟩ := hOrigin version ((sortedByKey_perm hVersions).mem_iff.mp hVersion)
    exact List.mem_map.mpr ⟨row, hRow, rfl⟩

theorem HttpRegistryClient.getMetadata_ok (h : ∀ row ∈ store.artifacts.rows, row.Usable json)
    (hMem : (name, version) ∈ store.artifacts.coordinates) :
    ∃ pkg, getMetadata json store name version = .ok pkg ∧ ∀ dep ∈ pkg.deps, Usable Segment dep := by
  obtain ⟨row, hSelect⟩ := ArtifactTable.mem_coordinates_iff.mp hMem
  obtain ⟨deps, hLoads, hDeps⟩ := (h row (ArtifactTable.select_eq_some_iff.mp hSelect).1).deps
  obtain ⟨hRenderable, entries, hEntries, hUsable⟩ := readDeps_of_usable hDeps
  refine ⟨⟨row.name, row.version, row.sha256, row.size, entries, row.publishedAt⟩, ?_, hUsable⟩
  simp only [getMetadata, artifactMeta, getArtifact, hSelect, hLoads, Except.map, Row.toArtifact, hRenderable,
    if_true, hEntries]

/-- The resolver gets an answer to whatever it asks about such a store. -/
theorem HttpRegistryClient.answers (elsewhere : RegistryClient)
    (h : ∀ row ∈ store.artifacts.rows, row.Usable json) : Answers (client json elsewhere store) Segment where
  lists name hName := by
    obtain ⟨versions, hVersions, -⟩ := listVersions_ok (fun row hRow => (h row hRow).version) name
    exact ⟨versions, (client_listVersions hName).trans hVersions⟩
  metadata name version hName hListed := by
    obtain ⟨available, hList, hMem⟩ := hListed
    obtain ⟨versions, hVersions, hRows⟩ := listVersions_ok (fun row hRow => (h row hRow).version) name
    cases hList.symm.trans ((client_listVersions hName).trans hVersions)
    obtain ⟨pkg, hPkg, hDeps⟩ := getMetadata_ok h (hRows version hMem)
    obtain ⟨row, hRow, hCoordinate⟩ := List.mem_map.mp (hRows version hMem)
    have hVersion : Segment version := by
      cases hCoordinate
      exact isSegment_of_valid (h row hRow).version
    exact ⟨pkg, (client_getMetadata hName hVersion).trans hPkg, hDeps⟩

end

end Forge.Registry
