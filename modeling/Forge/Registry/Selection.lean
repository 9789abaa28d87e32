import Forge.Registry.ResolverErrors

/-! # What is selected, and what is readable

`_select_version` returns the best candidate whenever there is one, and a dependency entry is readable
when `_resolve_graph` makes a requirement of it.
-/
namespace Forge.Registry
open Forge.Python
set_option autoImplicit false

variable {registry : RegistryClient}

theorem Best.unique {n v w : String} {reqs : List Requirement} (hv : Best registry n v reqs)
    (hw : Best registry n w reqs) : v = w := by
  obtain ⟨available, hList, hMemV, k, hk, hMaxV⟩ := hv.greatest
  obtain ⟨available', hList', hMemW, k', hk', hMaxW⟩ := hw.greatest
  cases hList.symm.trans hList'
  obtain ⟨kw, hkw, hLe⟩ := hMaxV w hMemW hw.candidate
  obtain ⟨kv, hkv, hGe⟩ := hMaxW v hMemV hv.candidate
  cases hk'.symm.trans hkw
  cases hk.symm.trans hkv
  obtain ⟨parsed, hParsed, -⟩ := isCandidate_iff.mp hv.candidate
  obtain ⟨parsed', hParsed', -⟩ := isCandidate_iff.mp hw.candidate
  cases hk.symm.trans (versionKey_of_parse hParsed)
  cases hk'.symm.trans (versionKey_of_parse hParsed')
  exact SemVer.key_injective (le_antisymm hGe hLe)

theorem candidate_key {reqs : List Requirement} {ver : String} (h : isCandidate reqs ver = true) :
    ∃ k, versionKey ver = .ok k := by
  obtain ⟨parsed, hParsed, -⟩ := isCandidate_iff.mp h
  exact ⟨_, versionKey_of_parse hParsed⟩

/-- Some candidate suffices for a version to be selected. -/
theorem selectVersion_of_candidate {n v : String} {reqs : List Requirement} {available : List String}
    (hList : registry.listVersions n = .ok available) (hMem : v ∈ available)
    (hCandidate : isCandidate reqs v = true) : ∃ w, selectVersion registry n reqs = .ok w := by
  have hFilter : v ∈ available.filter (isCandidate reqs) := List.mem_filter.mpr ⟨hMem, hCandidate⟩
  have hKeys : ∀ ver ∈ available.filter (isCandidate reqs), ∃ k, versionKey ver = .ok k :=
    fun ver hVer => candidate_key (List.mem_filter.mp hVer).2
  obtain ⟨sorted, hSorted⟩ : ∃ sorted, sortedByKey versionKey (fun a b => a ≥ b)
      (available.filter (isCandidate reqs)) = .ok sorted := sortedByKey_of_ok hKeys
  unfold selectVersion
  rw [hList]
  cases available with
  | nil => cases hMem
  | cons first rest =>
    dsimp only
    split
    · rename_i hNone
      rw [hNone] at hFilter
      cases hFilter
    · rw [sortVersions, if_pos rfl, hSorted]
      cases sorted with
      | nil =>
        have hEmpty := (sortedByKey_perm hSorted).mem_iff.mpr hFilter
        cases hEmpty
      | cons best tail => exact ⟨best, rfl⟩

theorem selectVersion_eq_ok_iff {n v : String} {reqs : List Requirement} :
    selectVersion registry n reqs = .ok v ↔ Best registry n v reqs := by
  constructor
  · exact selectVersion_ok
  · intro hBest
    obtain ⟨available, hList, hMem, -⟩ := hBest.greatest
    obtain ⟨w, hw⟩ := selectVersion_of_candidate hList hMem hBest.candidate
    rw [hw, hBest.unique (selectVersion_ok hw)]

/-! ## Readable entries -/

def Readable (dep : DepEntry) : Prop :=
  ∃ name constraint constraintSet, DepEntry.Names dep name constraint ∧
    ConstraintSet.fromString constraint = .ok constraintSet

theorem getItem_of_get? {dep : DepEntry} {key value : String} (h : dep.get? key = some value) :
    DepEntry.getItem dep key = .ok value := by
  rw [DepEntry.getItem, h]

theorem readable_iff (dep : DepEntry) (via : String) :
    Readable dep ↔ ∃ req, requirementOf dep via = .ok req := by
  constructor
  · rintro ⟨name, constraint, constraintSet, ⟨hName, hConstraint⟩, hSet⟩
    refine ⟨⟨name, constraint, constraintSet, some via⟩, ?_⟩
    simp only [requirementOf, getItem_of_get? hName, getItem_of_get? hConstraint, hSet, bind,
      Except.bind, Except.mapError]
  · rintro ⟨req, hReq⟩
    obtain ⟨hNames, hSet⟩ := requirementOf_ok hReq
    exact ⟨req.name, req.constraint, req.constraintSet, hNames, hSet⟩

theorem sortDeps_of_readable {deps : List DepEntry} (h : ∀ dep ∈ deps, Readable dep) :
    ∃ sorted, sortDeps deps = .ok sorted := by
  apply sortedByKey_of_ok
  intro dep hDep
  obtain ⟨name, _, _, ⟨hName, -⟩, -⟩ := h dep hDep
  exact ⟨name, getItem_of_get? hName⟩

theorem addRootDeps_of_readable {deps : List DepEntry} (h : ∀ dep ∈ deps, Readable dep)
    (acc : Dict String (List Requirement)) : ∃ roots, addRootDeps deps acc = .ok roots := by
  induction deps generalizing acc with
  | nil => exact ⟨acc, rfl⟩
  | cons dep rest ih =>
    obtain ⟨req, hReq⟩ := (readable_iff dep "pipeline").mp (h dep List.mem_cons_self)
    rw [addRootDeps, hReq]
    exact ih (fun d hd => h d (List.mem_cons_of_mem dep hd)) _

theorem rootRequirements_of_readable {rootDeps : List DepEntry} (h : ∀ dep ∈ rootDeps, Readable dep) :
    ∃ roots, rootRequirements rootDeps = .ok roots := by
  obtain ⟨sorted, hSorted⟩ := sortDeps_of_readable h
  rw [rootRequirements, hSorted]
  exact addRootDeps_of_readable (fun dep hDep => h dep ((sortDeps_ok hSorted).mem_iff.mp hDep)) _

/-- The metadata of the resolved packages consist of readable entries. -/
def ReadableDeps (registry : RegistryClient) (st : ResolverState) : Prop :=
  ∀ n pkg, st.resolved.get? n = some pkg → ∃ m, registry.getMetadata n pkg.version = .ok m ∧
    ∀ dep ∈ m.deps, Readable dep

theorem Runs.deps_readable {name version : String} {rest : List DepEntry} {st st' : ResolverState}
    (h : Runs registry (.deps name version rest) st st') : ∀ dep ∈ rest, Readable dep := by
  induction rest generalizing st with
  | nil => simp
  | cons dep rest ih =>
    cases h with
    | cons hReq hName hRest =>
      intro d hd
      cases List.mem_cons.mp hd with
      | inl hSame => exact hSame ▸ (readable_iff dep _).mpr ⟨_, hReq⟩
      | inr hLater => exact ih hRest d hLater

theorem Runs.readableDeps {c : Call} {st st' : ResolverState} (h : Runs registry c st st')
    (hBefore : ReadableDeps registry st) : ReadableDeps registry st' := by
  induction h with
  | recheck => exact hBefore
  | visit hOpens hDeps ih =>
    intro n pkg hPkg
    rw [closed_resolved, Dict.get?_set] at hPkg
    split at hPkg
    · rename_i hSame
      cases hPkg
      subst hSame
      refine ⟨_, hOpens.meta_eq, fun dep hDep => ?_⟩
      exact hDeps.deps_readable dep ((sortDeps_ok hOpens.deps_eq).mem_iff.mpr hDep)
    · exact ih hBefore n pkg hPkg
  | nil => exact hBefore
  | cons _ _ _ ihName ihRest => exact ihRest (ihName hBefore)
  | rootsNil => exact hBefore
  | rootsSkip _ _ ih => exact ih hBefore
  | rootsCons _ _ _ ihName ihRest => exact ihRest (ihName hBefore)

theorem search_readableDeps {rootDeps : List DepEntry} {st : ResolverState}
    (h : search registry rootDeps = .ok st) : ReadableDeps registry st := by
  unfold search at h
  split at h
  · cases h
  · rename_i roots hRoots
    refine (resolveRoots_runs _ _ _ h).readableDeps ?_
    intro n pkg hPkg
    cases hPkg

end Forge.Registry
