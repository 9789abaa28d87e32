import Forge.Registry.PublishEffects
import Forge.Registry.PublishedDeps

/-! # The registry as the resolver sees it, while it grows

During a resolution the registry goes on taking publishes. Each answer comes from the store at the time of its
request, and the metadata of a version from no earlier one than the list that it is in.
-/
namespace Forge.Registry
open Forge.Python Forge.Theory
set_option autoImplicit false

/-- The store at a time: those of the past in their order, and then the current one. -/
def storeAt (past : List Store) (current : Store) (time : Nat) : Store := past[time]?.getD current

/-- `HttpRegistryClient` on a growing store: the versions of a name are listed at the given time, and the
metadata of one of them is read after the given delay. -/
def HttpRegistryClient.during (json : JsonModule) (elsewhere : RegistryClient) (past : List Store)
    (current : Store) (listed : String → Nat) (delay : String → String → Nat) : RegistryClient where
  listVersions name :=
    if isSegment name then listVersions (storeAt past current (listed name)) name
    else elsewhere.listVersions name
  getMetadata name version :=
    if isSegment name && isSegment version then
      getMetadata json (storeAt past current (listed name + delay name version)) name version
    else elsewhere.getMetadata name version
  packages := (past ++ [current]).flatMap (fun store => store.artifacts.rows.map Row.name) ++ elsewhere.packages
  listVersions_of_notMem name h := by
    rw [List.mem_append, not_or] at h
    split
    · apply listVersions_of_notMem
      refine fun hName => h.1 (List.mem_flatMap.mpr ⟨_, ?_, hName⟩)
      cases hTime : past[listed name]? with
      | none => simp [storeAt, hTime]
      | some store => simp [storeAt, hTime, List.mem_of_getElem? hTime]
    · exact elsewhere.listVersions_of_notMem name h.2

section
variable {json : JsonModule} {elsewhere registry : RegistryClient} {past stores stores' : List Store}
  {current : Store}

theorem storeAt_mem (past : List Store) (current : Store) (time : Nat) :
    storeAt past current time ∈ past ++ [current] := by
  cases hTime : past[time]? with
  | none => simp [storeAt, hTime]
  | some store => simp [storeAt, hTime, List.mem_of_getElem? hTime]

theorem storeAt_grows (hGrows : (past ++ [current]).Pairwise Store.Grows) (time delay : Nat) :
    (storeAt past current time).Grows (storeAt past current (time + delay)) := by
  rw [List.pairwise_append] at hGrows
  cases hTime : past[time]? with
  | none =>
    have hLength := List.getElem?_eq_none_iff.mp hTime
    have hLater : past[time + delay]? = none := List.getElem?_eq_none_iff.mpr (by omega)
    rw [storeAt, storeAt, hTime, hLater]
    exact .refl current
  | some store =>
    have hStore := List.mem_of_getElem? hTime
    cases hLater : past[time + delay]? with
    | none =>
      rw [storeAt, storeAt, hTime, hLater]
      exact hGrows.2.2 store hStore current List.mem_cons_self
    | some later =>
      rw [storeAt, storeAt, hTime, hLater]
      obtain ⟨hFirst, rfl⟩ := List.getElem?_eq_some_iff.mp hTime
      obtain ⟨hSecond, rfl⟩ := List.getElem?_eq_some_iff.mp hLater
      rcases Nat.eq_zero_or_pos delay with rfl | hDelay
      · exact .refl _
      · exact List.pairwise_iff_getElem.mp hGrows.1 _ _ hFirst hSecond (by omega)

/-- What a resolver may rely on whose requests are answered by these stores. -/
def Views (json : JsonModule) (stores : List Store) (registry : RegistryClient) : Prop :=
  ∀ name, Segment name → ∃ store ∈ stores,
    registry.listVersions name = HttpRegistryClient.listVersions store name ∧
    ∀ version, Segment version → ∃ later ∈ stores, store.Grows later ∧
      registry.getMetadata name version = HttpRegistryClient.getMetadata json later name version

theorem Views.mono (h : Views json stores registry) (hStores : stores ⊆ stores') :
    Views json stores' registry := by
  intro name hName
  obtain ⟨store, hStore, hList, hMetadata⟩ := h name hName
  refine ⟨store, hStores hStore, hList, fun version hVersion => ?_⟩
  obtain ⟨later, hLater, hGrows, hGet⟩ := hMetadata version hVersion
  exact ⟨later, hStores hLater, hGrows, hGet⟩

theorem HttpRegistryClient.views_during (hGrows : (past ++ [current]).Pairwise Store.Grows)
    (listed : String → Nat) (delay : String → String → Nat) :
    Views json (past ++ [current]) (during json elsewhere past current listed delay) := by
  intro name hName
  refine ⟨_, storeAt_mem past current (listed name), if_pos hName, fun version hVersion => ?_⟩
  exact ⟨_, storeAt_mem past current (listed name + delay name version), storeAt_grows hGrows _ _,
    if_pos (Bool.and_eq_true_iff.mpr ⟨hName, hVersion⟩)⟩

/-! ## What such a resolution relies on -/

/-- The package is a row of the store, with its hash. -/
def Store.Locks (store : Store) (pkg : LockedPackage) : Prop :=
  ∃ row ∈ store.artifacts.rows, row.coordinate = (pkg.name, pkg.version) ∧ row.sha256 = pkg.sha256

theorem Store.Locks.grows {store later : Store} {pkg : LockedPackage} (h : store.Locks pkg)
    (hGrows : store.Grows later) : later.Locks pkg := by
  obtain ⟨row, hRow, hLocked⟩ := h
  exact ⟨row, hGrows.rows row hRow, hLocked⟩

theorem HttpRegistryClient.getMetadata_row {store : Store} {name version : String} {pkg : PackageMeta}
    (h : getMetadata json store name version = .ok pkg) : store.Locks ⟨name, version, pkg.sha256⟩ := by
  unfold getMetadata artifactMeta at h
  cases hGet : getArtifact json store.artifacts name version with
  | error e => simp [hGet] at h
  | ok found =>
    cases found with
    | none =>
      simp only [hGet] at h
      split at h <;> cases h
    | some artifact =>
      obtain ⟨row, deps, hSelect, -, rfl⟩ := getArtifact_some hGet
      simp only [hGet] at h
      split at h
      · split at h
        · cases h
        · cases h
          obtain ⟨hRow, hCoordinate⟩ := ArtifactTable.select_eq_some_iff.mp hSelect
          exact ⟨row, hRow, hCoordinate, rfl⟩
      · cases h

/-- Every locked package whose name is a path segment is a row of a store that was asked. -/
theorem Views.locks (h : Views json stores registry)
    (hValid : ∀ store ∈ stores, ∀ row ∈ store.artifacts.rows, isValidSemver row.version = true)
    {rootDeps : List DepEntry} {lockfile : Lockfile} (hResolve : resolve registry rootDeps = .ok lockfile)
    {pkg : LockedPackage} (hPkg : pkg ∈ lockfile.packages) (hName : Segment pkg.name) :
    Segment pkg.version ∧ ∃ store ∈ stores, store.Locks pkg := by
  obtain ⟨roots, st, hFinal, rfl⟩ := resolve_ok hResolve
  obtain ⟨resolved, hResolved, hLocked⟩ := hFinal.mem_packages.mp hPkg
  obtain ⟨hSame, hSelected, found, hMeta, hSha⟩ := hFinal.inv.resolvedMeta _ _ hResolved
  rw [hSame] at hLocked
  obtain ⟨store, hStore, hList, hMetadata⟩ := h pkg.name hName
  -- the version was listed, so it is valid, and its metadata was read from a store that has it
  obtain ⟨reqs, -, hBest⟩ := hFinal.inv.best _ _ hSelected
  obtain ⟨available, hAvailable, hMem, -⟩ := hBest.greatest
  obtain ⟨versions, hVersions, hRows⟩ := HttpRegistryClient.listVersions_ok (hValid store hStore) pkg.name
  cases (hList.symm.trans hAvailable).symm.trans hVersions
  obtain ⟨row, hRow, hCoordinate⟩ := List.mem_map.mp (hRows _ hMem)
  have hListed : row.version = resolved.version := congrArg Prod.snd hCoordinate
  have hVersion : Segment resolved.version := hListed ▸ isSegment_of_valid (hValid store hStore row hRow)
  obtain ⟨later, hLater, -, hGet⟩ := hMetadata _ hVersion
  have hFound := HttpRegistryClient.getMetadata_row (hGet.symm.trans hMeta)
  rw [hSha, ← hLocked] at hFound
  exact ⟨hLocked ▸ hVersion, later, hLater, hFound⟩

/-- Usable rows let the resolver read whatever it asks for, however the registry grows meanwhile. -/
theorem Views.answers (h : Views json stores registry)
    (hUsable : ∀ store ∈ stores, ∀ row ∈ store.artifacts.rows, row.Usable json) : Answers registry Segment where
  lists name hName := by
    obtain ⟨store, hStore, hList, -⟩ := h name hName
    obtain ⟨versions, hVersions, -⟩ :=
      HttpRegistryClient.listVersions_ok (fun row hRow => (hUsable store hStore row hRow).version) name
    exact ⟨versions, hList.trans hVersions⟩
  metadata name version hName hListed := by
    obtain ⟨store, hStore, hList, hMetadata⟩ := h name hName
    obtain ⟨available, hAvailable, hMem⟩ := hListed
    obtain ⟨versions, hVersions, hRows⟩ :=
      HttpRegistryClient.listVersions_ok (fun row hRow => (hUsable store hStore row hRow).version) name
    cases (hList.symm.trans hAvailable).symm.trans hVersions
    obtain ⟨row, hRow, hCoordinate⟩ := List.mem_map.mp (hRows _ hMem)
    have hVersion : Segment version := by
      cases hCoordinate
      exact isSegment_of_valid (hUsable store hStore row hRow).version
    obtain ⟨later, hLater, hGrows, hGet⟩ := hMetadata version hVersion
    obtain ⟨pkg, hPkg, hDeps⟩ :=
      HttpRegistryClient.getMetadata_ok (hUsable later hLater) (hGrows.coordinates (hRows _ hMem))
    exact ⟨pkg, hGet.trans hPkg, hDeps⟩

end

end Forge.Registry
