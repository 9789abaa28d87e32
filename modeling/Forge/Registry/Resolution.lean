import Forge.Registry.Lockfile

/-! # The lockfile that the resolver returns

A search that returns ends with an empty stack, so every requirement it recorded comes from the
pipeline or from a locked version, and every such requirement was recorded. The lockfile is then a
solution of the dependency problem, made of greatest choices, and its dependencies are acyclic.
-/
namespace Forge.Registry
open Forge.Python Forge.Theory Relation
set_option autoImplicit false

def chosen (st : ResolverState) (n v : String) : Prop :=
  ∃ pkg, st.resolved.get? n = some pkg ∧ pkg.version = v

/-- The state in which a search has returned. -/
structure Final (registry : RegistryClient) (rootDeps : List DepEntry)
    (roots : Dict String (List Requirement)) (st : ResolverState) : Prop where
  rootsOf : RootsOf rootDeps roots
  inv : Inv registry roots st
  satisfied : ∀ n, SatisfiedAt st n
  pathStack_eq : st.pathStack = []
  rooted : ∀ n ∈ roots.keys, n ∈ st.resolved.keys

theorem mem_sortNames {names : List String} {n : String} : n ∈ sortNames names ↔ n ∈ names :=
  (List.perm_insertionSort _ names).mem_iff

theorem search_final {registry : RegistryClient} {rootDeps : List DepEntry} {st : ResolverState}
    (h : search registry rootDeps = .ok st) : ∃ roots, Final registry rootDeps roots st := by
  unfold search at h
  split at h
  · cases h
  · rename_i roots hRoots
    have hRootsOf := rootRequirements_ok hRoots
    have hRun := resolveRoots_runs _ _ _ h
    have hInit : Inv registry roots (.init roots) := .init hRootsOf
    have hCall : CallOk registry roots (.roots (sortNames roots.keys)) (.init roots) :=
      ⟨rfl, fun _ hn => mem_sortNames.mp hn⟩
    refine ⟨roots, hRootsOf, hRun.inv hInit hCall, hRun.satisfied hInit hCall ?_,
      hRun.extends.pathStack_eq, fun n hn => hRun.done n (mem_sortNames.mpr hn)⟩
    intro m _ pkg hPkg
    cases hPkg

section
variable {registry : RegistryClient} {rootDeps : List DepEntry}
  {roots : Dict String (List Requirement)} {st : ResolverState}

theorem Final.chosen_iff (h : Final registry rootDeps roots st) {n v : String} :
    chosen st n v ↔ (n, v) ∈ st.selected := by
  constructor
  · rintro ⟨pkg, hPkg, rfl⟩
    exact (h.inv.resolvedMeta n pkg hPkg).2.1
  · intro hv
    have hKeys : n ∈ st.resolved.keys := by
      have hn := (h.inv.selected_iff n).mp (List.mem_map.mpr ⟨(n, v), hv, rfl⟩)
      rw [h.pathStack_eq] at hn
      exact hn.resolve_left List.not_mem_nil
    obtain ⟨pkg, hPkg⟩ := Dict.mem_keys_iff.mp hKeys
    have hPair := (h.inv.resolvedMeta n pkg hPkg).2.1
    exact ⟨pkg, hPkg, congrArg Prod.snd (List.inj_on_of_nodup_map h.inv.selectedNodup hPair hv rfl)⟩

theorem Final.required_iff (h : Final registry rootDeps roots st) {n c : String} :
    (problemOf registry rootDeps).Required (chosen st) n c ↔ Recorded st n c := by
  constructor
  · rintro (⟨dep, hDep, hNames⟩ | ⟨p, v, ⟨pkg, hPkg, rfl⟩, hLists⟩)
    · obtain ⟨n', c', hNames', r, hr, hrc⟩ := h.rootsOf.complete dep hDep
      obtain ⟨rfl, rfl⟩ := hNames.unique hNames'
      exact ⟨r, h.inv.rooted n hr, hrc⟩
    · exact (h.inv.closed p pkg hPkg n c hLists).1
  · rintro ⟨r, hr, rfl⟩
    rcases h.inv.provenance n r hr with hRoot | ⟨p, v, hv, hLists⟩
    · exact .inl (h.rootsOf.sound n r hRoot).1
    · exact .inr ⟨p, v, h.chosen_iff.mpr hv, hLists⟩

theorem Final.satisfies (h : Final registry rootDeps roots st) {n : String} {v c : String}
    {reqs : List Requirement} (hReqs : reqs ⊆ st.reqs n) (hv : isCandidate reqs v = true)
    {r : Requirement} (hr : r ∈ reqs) (hrc : r.constraint = c) : Satisfies v c := by
  obtain ⟨parsed, hParsed, hAll⟩ := isCandidate_iff.mp hv
  exact ⟨parsed, r.constraintSet, hParsed, hrc ▸ h.inv.wellFormed n r (hReqs hr),
    List.all_eq_true.mp hAll r hr⟩

theorem Final.isCandidate_of_satisfies (h : Final registry rootDeps roots st) {n v : String}
    {reqs : List Requirement} (hReqs : reqs ⊆ st.reqs n) (hParse : ∃ parsed, SemVer.parse v = .ok parsed)
    (hv : ∀ r ∈ reqs, Satisfies v r.constraint) : isCandidate reqs v = true := by
  obtain ⟨parsed, hParsed⟩ := hParse
  refine isCandidate_iff.mpr ⟨parsed, hParsed, List.all_eq_true.mpr fun r hr => ?_⟩
  obtain ⟨parsed', cs, hParsed', hSet, hSat⟩ := hv r hr
  cases hParsed.symm.trans hParsed'
  cases (h.inv.wellFormed n r (hReqs hr)).symm.trans hSet
  exact hSat

theorem Final.isSolution (h : Final registry rootDeps roots st) :
    (problemOf registry rootDeps).IsSolution (chosen st) where
  functional n v w := by
    rintro ⟨pkg, hPkg, rfl⟩ ⟨pkg', hPkg', rfl⟩
    cases hPkg.symm.trans hPkg'
    rfl
  admissible n v := by
    rintro ⟨pkg, hPkg, rfl⟩
    obtain ⟨reqs, -, hBest⟩ := h.inv.best n _ (h.inv.resolvedMeta n pkg hPkg).2.1
    obtain ⟨available, hList, hMem, -⟩ := hBest.greatest
    refine ⟨⟨available, hList, hMem⟩, fun c hc => ?_⟩
    obtain ⟨r, hr, hrc⟩ := h.required_iff.mp hc
    exact h.satisfies (List.Subset.refl _) (h.satisfied n pkg hPkg) hr hrc
  closed n c hc := by
    have hKeys : n ∈ st.resolved.keys := by
      rcases hc with ⟨dep, hDep, hNames⟩ | ⟨p, v, ⟨pkg, hPkg, rfl⟩, hLists⟩
      · obtain ⟨n', c', hNames', r, hr, -⟩ := h.rootsOf.complete dep hDep
        obtain ⟨rfl, -⟩ := hNames.unique hNames'
        exact h.rooted n ((h.rootsOf.keys n).mpr (List.ne_nil_of_mem hr))
      · exact (h.inv.closed p pkg hPkg n c hLists).2.1
    obtain ⟨pkg, hPkg⟩ := Dict.mem_keys_iff.mp hKeys
    exact ⟨pkg.version, pkg, hPkg, rfl⟩
  supported n v := by
    intro hv
    have hn : n ∈ st.selected.map Prod.fst := List.mem_map.mpr ⟨(n, v), h.chosen_iff.mp hv, rfl⟩
    obtain ⟨root, hRoot, hPath⟩ := h.inv.reachable n hn
    obtain ⟨r, hr⟩ := List.exists_mem_of_ne_nil _ ((h.rootsOf.keys root).mp hRoot)
    refine ⟨root, r.constraint, (h.rootsOf.sound root r hr).1, hPath.lift id ?_⟩
    rintro p q ⟨v, c, hv, hc⟩
    exact ⟨v, c, h.chosen_iff.mpr hv, hc⟩

/-- Requirements recorded after the selection are only checked, yet the choice stays greatest. -/
theorem Final.isGreatestChoice (h : Final registry rootDeps roots st) :
    (problemOf registry rootDeps).IsGreatestChoice (chosen st) sortKey := by
  refine .of_known h.isSolution fun n v hv => ?_
  obtain ⟨reqs, hSub, hBest⟩ := h.inv.best n v (h.chosen_iff.mp hv)
  refine ⟨fun c => ∃ r ∈ reqs, r.constraint = c, ?_, ?_⟩
  · rintro c ⟨r, hr, hrc⟩
    exact h.required_iff.mpr ⟨r, hSub hr, hrc⟩
  · rintro w ⟨available, hList, hw⟩ hHolds
    obtain ⟨available', hList', -, k, hKey, hMax⟩ := hBest.greatest
    cases hList.symm.trans hList'
    rw [sortKey_of_ok hKey]
    cases hw' : versionKey w with
    | error e =>
      rw [sortKey, hw']
      exact bot_le
    | ok kw =>
      have hParse : ∃ parsed, SemVer.parse w = .ok parsed := (versionKey_ok hw').imp fun _ h => h.1
      have hCandidate := h.isCandidate_of_satisfies hSub hParse fun r hr => hHolds _ ⟨r, hr, rfl⟩
      obtain ⟨k', hKey', hLe⟩ := hMax w hw hCandidate
      rw [sortKey_of_ok hKey']
      exact WithBot.coe_le_coe.mpr hLe

theorem Final.acyclic (h : Final registry rootDeps roots st) :
    Acyclic ((problemOf registry rootDeps).Edge (chosen st)) := by
  refine .of_rank (fun n => st.resolved.keys.idxOf n) ?_
  rintro p q ⟨v, c, ⟨pkg, hPkg, rfl⟩, hLists⟩
  exact (h.inv.closed p pkg hPkg q c hLists).2.2

end

/-! ## Lockfiles -/

def Lockfile.Locks (lock : Lockfile) (n v : String) : Prop :=
  ∃ pkg ∈ lock.packages, pkg.name = n ∧ pkg.version = v

/-- The locked version of `p` lists `q` in its metadata. -/
def Lockfile.Edge (lock : Lockfile) (registry : RegistryClient) (p q : String) : Prop :=
  ∃ v c, lock.Locks p v ∧ Lists registry p v q c

structure Lockfile.IsConsistent (lock : Lockfile) (registry : RegistryClient)
    (rootDeps : List DepEntry) : Prop where
  roots : ∀ dep ∈ rootDeps, ∃ n c, DepEntry.Names dep n c ∧ ∃ v, lock.Locks n v ∧ Satisfies v c
  closed : ∀ p v, lock.Locks p v → ∀ q c, Lists registry p v q c →
    ∃ w, lock.Locks q w ∧ Satisfies w c
  reachable : ∀ n v, lock.Locks n v → ∃ dep ∈ rootDeps, ∃ root c, DepEntry.Names dep root c ∧
    ReflTransGen (lock.Edge registry) root n
  checksums : ∀ pkg ∈ lock.packages, ∃ m,
    registry.getMetadata pkg.name pkg.version = .ok m ∧ m.sha256 = pkg.sha256
  increasing : (lock.packages.map LockedPackage.name).Pairwise (· < ·)

theorem resolve_ok {registry : RegistryClient} {rootDeps : List DepEntry} {lock : Lockfile}
    (h : resolve registry rootDeps = .ok lock) :
    ∃ roots st, Final registry rootDeps roots st ∧ lock = buildLockfile st.resolved := by
  unfold resolve at h
  cases hs : search registry rootDeps with
  | error raised => simp [hs, Except.map] at h
  | ok st =>
    rw [hs] at h
    cases h
    obtain ⟨roots, hFinal⟩ := search_final hs
    exact ⟨roots, st, hFinal, rfl⟩

section
variable {registry : RegistryClient} {rootDeps : List DepEntry}
  {roots : Dict String (List Requirement)} {st : ResolverState}

theorem Final.mem_packages (h : Final registry rootDeps roots st) {locked : LockedPackage} :
    locked ∈ (buildLockfile st.resolved).packages ↔ ∃ pkg, st.resolved.get? locked.name = some pkg ∧
      locked = ⟨pkg.name, pkg.version, pkg.sha256⟩ := by
  simp only [buildLockfile, List.mem_filterMap, mem_sortNames, Option.map_eq_some_iff]
  constructor
  · rintro ⟨n, -, pkg, hPkg, rfl⟩
    have hName := (h.inv.resolvedMeta n pkg hPkg).1
    exact ⟨pkg, hName ▸ hPkg, rfl⟩
  · rintro ⟨pkg, hPkg, he⟩
    exact ⟨locked.name, Dict.mem_keys_of_get? hPkg, pkg, hPkg, he.symm⟩

theorem Final.locks_eq (h : Final registry rootDeps roots st) :
    (buildLockfile st.resolved).Locks = chosen st := by
  funext n v
  refine propext ⟨?_, ?_⟩
  · rintro ⟨locked, hMem, rfl, rfl⟩
    obtain ⟨pkg, hPkg, he⟩ := h.mem_packages.mp hMem
    exact ⟨pkg, hPkg, by rw [he]⟩
  · rintro ⟨pkg, hPkg, rfl⟩
    have hName := (h.inv.resolvedMeta n pkg hPkg).1
    exact ⟨⟨pkg.name, pkg.version, pkg.sha256⟩,
      h.mem_packages.mpr ⟨pkg, hName ▸ hPkg, rfl⟩, hName, rfl⟩

theorem Final.names_eq (h : Final registry rootDeps roots st) :
    (buildLockfile st.resolved).packages.map LockedPackage.name = sortNames st.resolved.keys := by
  rw [buildLockfile, List.map_filterMap]
  have hSome : ∀ n ∈ sortNames st.resolved.keys,
      ((st.resolved.get? n).map fun pkg => (⟨pkg.name, pkg.version, pkg.sha256⟩ : LockedPackage)).map
        LockedPackage.name = some n := by
    intro n hn
    obtain ⟨pkg, hPkg⟩ := Dict.mem_keys_iff.mp (mem_sortNames.mp hn)
    rw [hPkg]
    exact congrArg some (h.inv.resolvedMeta n pkg hPkg).1
  exact (List.filterMap_congr hSome).trans List.filterMap_some

theorem sortNames_pairwise {names : List String} (h : names.Nodup) :
    (sortNames names).Pairwise (· < ·) := by
  have hSorted : (sortNames names).Pairwise (· ≤ ·) := List.pairwise_insertionSort _ names
  have hNodup : (sortNames names).Nodup := (List.perm_insertionSort _ names).nodup_iff.mpr h
  exact (hSorted.and hNodup).imp fun h => lt_of_le_of_ne h.1 h.2

theorem sortNames_congr {names names' : List String} (hNodup : names.Nodup) (hNodup' : names'.Nodup)
    (h : ∀ n, n ∈ names ↔ n ∈ names') : sortNames names = sortNames names' := by
  have hPerm : names.Perm names' := (List.perm_ext_iff_of_nodup hNodup hNodup').mpr h
  have hSorted : (sortNames names).Perm (sortNames names') :=
    (List.perm_insertionSort _ names).trans (hPerm.trans (List.perm_insertionSort _ names').symm)
  exact hSorted.eq_of_pairwise' (r := (· ≤ ·)) (List.pairwise_insertionSort _ _)
    (List.pairwise_insertionSort _ _)

end

theorem resolve_isConsistent (registry : RegistryClient) (rootDeps : List DepEntry)
    (lock : Lockfile) (h : resolve registry rootDeps = .ok lock) :
    lock.IsConsistent registry rootDeps := by
  obtain ⟨roots, st, hFinal, rfl⟩ := resolve_ok h
  have hSolution := hFinal.isSolution
  rw [← hFinal.locks_eq] at hSolution
  refine ⟨?_, ?_, ?_, ?_, ?_⟩
  · intro dep hDep
    obtain ⟨n, c, hNames, -⟩ := hFinal.rootsOf.complete dep hDep
    exact ⟨n, c, hNames, hSolution.satisfied (.inl ⟨dep, hDep, hNames⟩)⟩
  · intro p v hv q c hc
    exact hSolution.satisfied (.inr ⟨p, v, hv, hc⟩)
  · intro n v hv
    obtain ⟨root, c, ⟨dep, hDep, hNames⟩, hPath⟩ := hSolution.supported n v hv
    exact ⟨dep, hDep, root, c, hNames, hPath⟩
  · intro locked hMem
    obtain ⟨pkg, hPkg, he⟩ := hFinal.mem_packages.mp hMem
    obtain ⟨hName, -, m, hMeta, hSha⟩ := hFinal.inv.resolvedMeta _ pkg hPkg
    rw [he] at hName hMeta ⊢
    exact ⟨m, hMeta, hSha⟩
  · rw [hFinal.names_eq]
    exact sortNames_pairwise st.resolved.nodup

theorem httpLockfile_isConsistent :
    httpLockfile.IsConsistent httpRegistry [entryOf "lib-http" "1.0.0"] :=
  resolve_isConsistent _ _ _ resolve_httpRegistry

/-- The versions listed for `n` that satisfy all requirements on `n` under a lockfile. -/
def Lockfile.Admissible (lock : Lockfile) (registry : RegistryClient) (rootDeps : List DepEntry)
    (n v : String) : Prop :=
  Listed registry n v ∧
    (∀ dep ∈ rootDeps, ∀ c, DepEntry.Names dep n c → Satisfies v c) ∧
    ∀ p w, lock.Locks p w → ∀ c, Lists registry p w n c → Satisfies v c

theorem Lockfile.admissible_iff {lock : Lockfile} {registry : RegistryClient}
    {rootDeps : List DepEntry} {n v : String} : lock.Admissible registry rootDeps n v ↔
      (problemOf registry rootDeps).Admissible lock.Locks n v := by
  constructor
  · rintro ⟨hListed, hRoots, hDeps⟩
    refine ⟨hListed, ?_⟩
    rintro c (⟨dep, hDep, hNames⟩ | ⟨p, w, hw, hc⟩)
    · exact hRoots dep hDep c hNames
    · exact hDeps p w hw c hc
  · rintro ⟨hListed, hAll⟩
    exact ⟨hListed, fun dep hDep c hNames => hAll c (.inl ⟨dep, hDep, hNames⟩),
      fun p w hw c hc => hAll c (.inr ⟨p, w, hw, hc⟩)⟩

theorem resolve_greatest (registry : RegistryClient) (rootDeps : List DepEntry) (lock : Lockfile)
    (h : resolve registry rootDeps = .ok lock) (n v : String) (hv : lock.Locks n v) :
    lock.Admissible registry rootDeps n v ∧ ∃ k, versionKey v = .ok k ∧
      ∀ w, lock.Admissible registry rootDeps n w → ∃ k', versionKey w = .ok k' ∧ k' ≤ k := by
  obtain ⟨roots, st, hFinal, rfl⟩ := resolve_ok h
  have hSolution := hFinal.isSolution
  have hGreatest := hFinal.isGreatestChoice
  rw [← hFinal.locks_eq] at hSolution hGreatest
  obtain ⟨c, hc⟩ := hSolution.exists_required hv
  have hKey : ∀ w, (buildLockfile st.resolved).Admissible registry rootDeps n w →
      ∃ k, versionKey w = .ok k := by
    intro w hw
    obtain ⟨parsed, _, hParsed, -⟩ := (Lockfile.admissible_iff.mp hw).2 c hc
    exact ⟨_, versionKey_of_parse hParsed⟩
  have hAdmissible := Lockfile.admissible_iff.mpr (hSolution.admissible n v hv)
  obtain ⟨k, hk⟩ := hKey v hAdmissible
  refine ⟨hAdmissible, k, hk, fun w hw => ?_⟩
  obtain ⟨k', hk'⟩ := hKey w hw
  have hLe := (hGreatest n v hv).2 ⟨w, Lockfile.admissible_iff.mp hw, rfl⟩
  rw [sortKey_of_ok hk, sortKey_of_ok hk'] at hLe
  exact ⟨k', hk', WithBot.coe_le_coe.mp hLe⟩

theorem httpLockfile_greatest :
    httpLockfile.Admissible httpRegistry [entryOf "lib-http" "1.0.0"] "lib-core" "1.1.0" ∧
      ∃ k, versionKey "1.1.0" = .ok k ∧
        ∀ w, httpLockfile.Admissible httpRegistry [entryOf "lib-http" "1.0.0"] "lib-core" w →
          ∃ k', versionKey w = .ok k' ∧ k' ≤ k :=
  resolve_greatest _ _ _ resolve_httpRegistry "lib-core" "1.1.0"
    ⟨⟨"lib-core", "1.1.0", "sha-core-2"⟩, List.mem_cons_self, rfl, rfl⟩

end Forge.Registry
