import Forge.Registry.ResolverCalls
import Forge.Registry.Selection

/-! # Publishing elsewhere

A search that returns asks the registry only about the packages that it locks. So it is also a search of
any registry that gives the same answers about them, and versions that are smaller than the locked ones
do not change an answer.
-/
namespace Forge.Registry
open Forge.Python
set_option autoImplicit false

variable {registry registry' : RegistryClient} {fuel fuel' : Nat} {c : Call} {st st' : ResolverState}

/-! ## Runs are computed -/

/-- The outcome of a call with the given fuel. -/
def outcome (registry : RegistryClient) (fuel : Nat) (st : ResolverState) :
    Call → Except Raised ResolverState
  | .name name => resolveName registry fuel name st
  | .deps name version rest => resolveDeps (resolveName registry fuel) (viaOf name version) rest st
  | .roots names => resolveRoots registry fuel names st

theorem outcome_succ (h : outcome registry fuel st c = .ok st') :
    outcome registry (fuel + 1) st c = .ok st' := by
  have hSettled : Settled (outcome registry fuel st c) := by
    intro s hCut
    cases h.symm.trans hCut
  cases c with
  | name name => exact (resolveName_succ fuel name st hSettled).trans h
  | deps name version rest =>
    exact (resolveDeps_congr (resolveName_succ fuel) _ rest st hSettled).trans h
  | roots names => exact (resolveRoots_succ fuel names st hSettled).trans h

theorem outcome_mono (h : outcome registry fuel st c = .ok st') (hLe : fuel ≤ fuel') :
    outcome registry fuel' st c = .ok st' := by
  induction hLe with
  | refl => exact h
  | step _ ih => exact outcome_succ ih

theorem outcome_visit {name version : String} {pkg : PackageMeta} {deps : List DepEntry}
    (hOpens : Opens registry st name version pkg deps)
    (h : outcome registry fuel (st.opened name version) (.deps name version deps) = .ok st') :
    outcome registry (fuel + 1) st (.name name) =
      .ok (st'.closed ⟨name, version, pkg.sha256, pkg.deps⟩) := by
  have hReqs : (st.enter name).reqs name ≠ [] := hOpens.required
  have hSelect : selectVersion registry name ((st.enter name).reqs name) = .ok version :=
    hOpens.version_eq
  have hRun : resolveDeps (resolveName registry fuel) (name ++ "@" ++ version) deps
      ((st.enter name).select name version) = .ok st' := h
  simp only [outcome, resolveName, if_neg hOpens.notVisiting, hOpens.unresolved, visit, if_neg hReqs,
    hSelect, hOpens.meta_eq, hOpens.deps_eq, hRun]
  rfl

theorem Runs.computed (h : Runs registry c st st') : ∃ fuel, outcome registry fuel st c = .ok st' := by
  induction h with
  | recheck hVisiting hResolved hRecheck =>
    refine ⟨1, ?_⟩
    simp only [outcome, resolveName, if_neg hVisiting, hResolved, hRecheck]
  | visit hOpens _ ih =>
    obtain ⟨fuel, hDeps⟩ := ih
    exact ⟨fuel + 1, outcome_visit hOpens hDeps⟩
  | nil => exact ⟨0, rfl⟩
  | cons hReq _ _ ihName ihRest =>
    obtain ⟨fuel, hName⟩ := ihName
    obtain ⟨fuel', hRest⟩ := ihRest
    have hName' := outcome_mono hName (Nat.le_max_left fuel fuel')
    have hRest' := outcome_mono hRest (Nat.le_max_right fuel fuel')
    simp only [outcome] at hName' hRest'
    exact ⟨max fuel fuel', by simp only [outcome, resolveDeps, hReq, hName', hRest']⟩
  | rootsNil => exact ⟨0, rfl⟩
  | rootsSkip hResolved _ ih =>
    obtain ⟨fuel, hRest⟩ := ih
    simp only [outcome] at hRest
    exact ⟨fuel, by simp only [outcome, resolveRoots, if_pos hResolved, hRest]⟩
  | rootsCons hUnresolved _ _ ihName ihRest =>
    obtain ⟨fuel, hName⟩ := ihName
    obtain ⟨fuel', hRest⟩ := ihRest
    have hName' := outcome_mono hName (Nat.le_max_left fuel fuel')
    have hRest' := outcome_mono hRest (Nat.le_max_right fuel fuel')
    simp only [outcome] at hName' hRest'
    exact ⟨max fuel fuel', by simp only [outcome, resolveRoots, if_neg hUnresolved, hName', hRest']⟩

/-- A run over the root names is the one that the search computes. -/
theorem Runs.resolveGraph_eq {requirements : Dict String (List Requirement)}
    (h : Runs registry (.roots (sortNames requirements.keys)) (.init requirements) st) :
    resolveGraph registry (registry.packages.length + 1) requirements = .ok st := by
  obtain ⟨fuel, hRun⟩ := h.computed
  rw [← resolveGraph_fuel registry fuel requirements]
  exact outcome_mono hRun (Nat.le_add_left _ _)

/-! ## Runs of two registries -/

/-- About the versions selected so far, the registries give the same answers. -/
structure AgreeOn (registry registry' : RegistryClient) (selected : List (String × String)) : Prop where
  select : ∀ n v, (n, v) ∈ selected → ∀ reqs, selectVersion registry n reqs = .ok v →
    selectVersion registry' n reqs = .ok v
  metadata : ∀ n v, (n, v) ∈ selected → registry'.getMetadata n v = registry.getMetadata n v

theorem AgreeOn.mono {selected selected' : List (String × String)}
    (h : AgreeOn registry registry' selected') (hSubset : selected ⊆ selected') :
    AgreeOn registry registry' selected :=
  ⟨fun n v hMem => h.select n v (hSubset hMem), fun n v hMem => h.metadata n v (hSubset hMem)⟩

theorem recheck_transfer {name : String} {pkg : ResolvedPackage}
    (h : recheck registry name pkg st = .ok st) : recheck registry' name pkg st = .ok st := by
  obtain ⟨-, hReqs⟩ := recheck_ok h
  unfold recheck
  split
  · rfl
  · rename_i hNonempty
    obtain ⟨parsed, hParsed, hAll⟩ := hReqs.resolve_left hNonempty
    simp only [hParsed, hAll, if_true]

theorem Runs.transfer (h : Runs registry c st st') (hAgree : AgreeOn registry registry' st'.selected) :
    Runs registry' c st st' := by
  induction h with
  | recheck hVisiting hResolved hRecheck =>
    exact .recheck hVisiting hResolved (recheck_transfer hRecheck)
  | @visit st st₁ name version pkg deps hOpens hDeps ih =>
    have hSelected : (name, version) ∈ st₁.selected :=
      hDeps.extends.selected_subset (List.mem_append_right _ List.mem_cons_self)
    refine .visit ⟨hOpens.notVisiting, hOpens.unresolved, hOpens.required, ?_, ?_, hOpens.deps_eq⟩
      (ih hAgree)
    · exact hAgree.select name version hSelected _ hOpens.version_eq
    · exact (hAgree.metadata name version hSelected).trans hOpens.meta_eq
  | nil => exact .nil
  | cons hReq _ hRest ihName ihRest =>
    exact .cons hReq (ihName (hAgree.mono hRest.extends.selected_subset)) (ihRest hAgree)
  | rootsNil => exact .rootsNil
  | rootsSkip hResolved _ ih => exact .rootsSkip hResolved (ih hAgree)
  | rootsCons hUnresolved _ hRest ihName ihRest =>
    exact .rootsCons hUnresolved (ihName (hAgree.mono hRest.extends.selected_subset)) (ihRest hAgree)

/-! ## Versions published elsewhere -/

/-- `registry'` has what `registry` has, as it was; what is new belongs to a package that the lockfile does
not lock, or is smaller than the version that it locks. -/
structure PublishedElsewhere (lock : Lockfile) (registry registry' : RegistryClient) : Prop where
  lists : ∀ n available, registry.listVersions n = .ok available →
    ∃ available', registry'.listVersions n = .ok available' ∧ available ⊆ available'
  metadata : ∀ n v, Listed registry n v → registry'.getMetadata n v = registry.getMetadata n v
  smaller : ∀ n v, Listed registry' n v → ¬ Listed registry n v → ∀ w, lock.Locks n w →
    ∃ k k', versionKey v = .ok k ∧ versionKey w = .ok k' ∧ k < k'

theorem PublishedElsewhere.best {lock : Lockfile} (h : PublishedElsewhere lock registry registry')
    {n v : String} (hLocks : lock.Locks n v) {reqs : List Requirement} (hBest : Best registry n v reqs) :
    Best registry' n v reqs := by
  obtain ⟨available, hList, hMem, k, hKey, hMax⟩ := hBest.greatest
  obtain ⟨available', hList', hSubset⟩ := h.lists n available hList
  refine ⟨hBest.candidate, available', hList', hSubset hMem, k, hKey, ?_⟩
  intro w hw hCandidate
  by_cases hOld : w ∈ available
  · exact hMax w hOld hCandidate
  · have hNew : ¬ Listed registry n w := by
      rintro ⟨listed, hListed, hMem⟩
      cases hList.symm.trans hListed
      exact hOld hMem
    obtain ⟨kw, k', hkw, hk', hLess⟩ := h.smaller n w ⟨available', hList', hw⟩ hNew v hLocks
    cases hKey.symm.trans hk'
    exact ⟨kw, hkw, hLess.le⟩

theorem resolve_publishedElsewhere (registry registry' : RegistryClient) (rootDeps : List DepEntry)
    (lock : Lockfile) (h : resolve registry rootDeps = .ok lock)
    (hElsewhere : PublishedElsewhere lock registry registry') :
    resolve registry' rootDeps = .ok lock := by
  unfold resolve at h
  cases hSearch : search registry rootDeps with
  | error raised => simp [hSearch, Except.map] at h
  | ok st =>
    rw [hSearch] at h
    cases h
    obtain ⟨roots₀, hFinal⟩ := search_final hSearch
    have hLocks : ∀ n v, (n, v) ∈ st.selected → (buildLockfile st.resolved).Locks n v := by
      intro n v hSelected
      rw [hFinal.locks_eq]
      exact hFinal.chosen_iff.mpr hSelected
    have hAgree : AgreeOn registry registry' st.selected := by
      constructor
      · intro n v hSelected reqs hSelect
        exact selectVersion_eq_ok_iff.mpr
          (hElsewhere.best (hLocks n v hSelected) (selectVersion_ok hSelect))
      · intro n v hSelected
        exact hElsewhere.metadata n v
          (hFinal.isSolution.admissible n v (hFinal.chosen_iff.mpr hSelected)).1
    unfold search at hSearch
    cases hRoots : rootRequirements rootDeps with
    | error raised => simp [hRoots] at hSearch
    | ok roots =>
      simp only [hRoots] at hSearch
      have hRun := (resolveRoots_runs _ _ _ hSearch).transfer hAgree
      simp only [resolve, search, hRoots, hRun.resolveGraph_eq]
      rfl

/-- `httpRegistry` after three more publishes: `lib-core` 1.0.5, and the package `tool` twice. -/
def grownRegistry : RegistryClient :=
  InMemoryRegistry.client (Dict.ofList
    [("lib-core", Dict.ofList
        [published "lib-core" "1.0.0" "sha-core-1" [], published "lib-core" "1.1.0" "sha-core-2" [],
          published "lib-core" "1.0.5" "sha-core-3" []]),
      ("lib-http", Dict.ofList
        [published "lib-http" "1.0.0" "sha-http" [entryOf "lib-core" "^1.0.0"]]),
      ("tool", Dict.ofList [published "tool" "1.0.0" "sha-1" [], published "tool" "2.0.0" "sha-2" []])])

theorem publishedElsewhere_grown : PublishedElsewhere httpLockfile httpRegistry grownRegistry := by
  constructor
  · intro n available hList
    by_cases hn : n ∈ ["lib-core", "lib-http", "tool"]
    · simp only [List.mem_cons, List.not_mem_nil, or_false] at hn
      rcases hn with rfl | rfl | rfl <;> cases hList <;> exact ⟨_, rfl, by decide⟩
    · have hOld : n ∉ httpRegistry.packages := fun hMem =>
        hn (List.mem_of_mem_take (i := 2) hMem)
      rw [httpRegistry.listVersions_of_notMem n hOld] at hList
      cases hList
      exact ⟨[], grownRegistry.listVersions_of_notMem n hn, List.Subset.refl _⟩
  · rintro n v ⟨available, hList, hMem⟩
    by_cases hn : n ∈ ["lib-core", "lib-http"]
    · simp only [List.mem_cons, List.not_mem_nil, or_false] at hn
      rcases hn with rfl | rfl
      · cases hList
        have hv : v ∈ ["1.0.0", "1.1.0"] := hMem
        simp only [List.mem_cons, List.not_mem_nil, or_false] at hv
        rcases hv with rfl | rfl <;> rfl
      · cases hList
        have hv : v ∈ ["1.0.0"] := hMem
        cases List.mem_singleton.mp hv
        rfl
    · rw [httpRegistry.listVersions_of_notMem n hn] at hList
      cases hList
      cases hMem
  · rintro n v ⟨available, hList, hMem⟩ hNew w ⟨locked, hLocked, rfl, rfl⟩
    have hCases : locked ∈ httpLockfile.packages := hLocked
    simp only [httpLockfile, List.mem_cons, List.not_mem_nil, or_false] at hCases
    rcases hCases with rfl | rfl
    · cases hList
      have hv : v ∈ ["1.0.0", "1.0.5", "1.1.0"] := hMem
      simp only [List.mem_cons, List.not_mem_nil, or_false] at hv
      rcases hv with rfl | rfl | rfl
      · exact absurd ⟨_, rfl, by decide⟩ hNew
      · exact ⟨_, _, rfl, rfl, by decide⟩
      · exact absurd ⟨_, rfl, by decide⟩ hNew
    · cases hList
      have hv : v ∈ ["1.0.0"] := hMem
      cases List.mem_singleton.mp hv
      exact absurd ⟨_, rfl, by decide⟩ hNew

theorem resolve_publishedElsewhere_grown :
    resolve grownRegistry [entryOf "lib-http" "1.0.0"] = .ok httpLockfile :=
  resolve_publishedElsewhere httpRegistry grownRegistry _ _ resolve_httpRegistry publishedElsewhere_grown

end Forge.Registry
