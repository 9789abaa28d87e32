import Forge.Registry.Guide
import Forge.Registry.Pin

/-! # Lockfiles are fixed points

A pin admits only versions of equal precedence. They satisfy every constraint that the locked version
does, so the locked version, which is the greatest choice, is the greatest of them as well.
-/
namespace Forge.Registry
open Forge.Python Forge.Theory
set_option autoImplicit false

/-- The dependencies of a pipeline that pins every package of the lockfile to its locked version. -/
def Lockfile.pins (lock : Lockfile) : List DepEntry :=
  lock.packages.map fun pkg => entryOf pkg.name pkg.version

/-- All versions that the registry lists are valid semver strings. -/
def ListsValid (registry : RegistryClient) : Prop :=
  ∀ n v, Listed registry n v → isValidSemver v = true

theorem names_entryOf {n v n' c : String} : DepEntry.Names (entryOf n v) n' c ↔ n' = n ∧ c = v := by
  have hName : (entryOf n v).get? "name" = some n := rfl
  have hVersion : (entryOf n v).get? "version" = some v := rfl
  rw [DepEntry.Names, hName, hVersion]
  simp [eq_comm]

/-! ## Equal lockfiles -/

section
variable {registry : RegistryClient} {rootDeps rootDeps' : List DepEntry}
  {roots roots' : Dict String (List Requirement)} {st st' : ResolverState}

theorem buildLockfile_congr (h : Final registry rootDeps roots st)
    (h' : Final registry rootDeps' roots' st') (hChosen : ∀ n v, chosen st n v ↔ chosen st' n v) :
    buildLockfile st.resolved = buildLockfile st'.resolved := by
  have hKeys : ∀ n, n ∈ st.resolved.keys ↔ n ∈ st'.resolved.keys := by
    intro n
    have hMem : ∀ s : ResolverState, n ∈ s.resolved.keys ↔ ∃ v, chosen s n v := by
      intro s
      rw [Dict.mem_keys_iff]
      constructor
      · rintro ⟨pkg, hPkg⟩
        exact ⟨_, pkg, hPkg, rfl⟩
      · rintro ⟨v, pkg, hPkg, -⟩
        exact ⟨pkg, hPkg⟩
    rw [hMem st, hMem st']
    exact exists_congr fun v => hChosen n v
  have hNames : sortNames st.resolved.keys = sortNames st'.resolved.keys :=
    sortNames_congr st.resolved.nodup st'.resolved.nodup hKeys
  unfold buildLockfile
  rw [hNames]
  congr 1
  apply List.filterMap_congr
  intro n hn
  obtain ⟨pkg', hPkg'⟩ := Dict.mem_keys_iff.mp (mem_sortNames.mp hn)
  obtain ⟨pkg, hPkg, hVersion⟩ := (hChosen n _).mpr ⟨pkg', hPkg', rfl⟩
  obtain ⟨hName, -, m, hMeta, hSha⟩ := h.inv.resolvedMeta n pkg hPkg
  obtain ⟨hName', -, m', hMeta', hSha'⟩ := h'.inv.resolvedMeta n pkg' hPkg'
  rw [hVersion] at hMeta
  cases hMeta.symm.trans hMeta'
  rw [hPkg, hPkg', Option.map_some, Option.map_some, hName, hName', hVersion, ← hSha, ← hSha']

/-! ## The guide of a locked pipeline -/

theorem Final.mem_pins (h : Final registry rootDeps roots st) {dep : DepEntry} :
    dep ∈ (buildLockfile st.resolved).pins ↔ ∃ n v, chosen st n v ∧ dep = entryOf n v := by
  rw [Lockfile.pins, List.mem_map]
  constructor
  · rintro ⟨locked, hMem, rfl⟩
    obtain ⟨pkg, hPkg, hLocked⟩ := h.mem_packages.mp hMem
    exact ⟨locked.name, locked.version, ⟨pkg, hPkg, by rw [hLocked]⟩, rfl⟩
  · rintro ⟨n, v, hChosen, rfl⟩
    rw [← h.locks_eq] at hChosen
    obtain ⟨locked, hMem, rfl, rfl⟩ := hChosen
    exact ⟨locked, hMem, rfl⟩

theorem Final.parse_chosen (h : Final registry rootDeps roots st) {n v : String}
    (hChosen : chosen st n v) : ∃ parsed, SemVer.parse v = .ok parsed := by
  obtain ⟨pkg, hPkg, rfl⟩ := hChosen
  obtain ⟨parsed, hParsed, -⟩ := isCandidate_iff.mp (h.satisfied n pkg hPkg)
  exact ⟨parsed, hParsed⟩

theorem Final.listed_chosen (h : Final registry rootDeps roots st) {n v : String}
    (hChosen : chosen st n v) : Listed registry n v :=
  (h.isSolution.admissible n v hChosen).1

theorem Satisfies.of_precedence {v w c : String} {parsed parsed' : SemVer} (h : Satisfies v c)
    (hv : SemVer.parse v = .ok parsed) (hw : SemVer.parse w = .ok parsed')
    (hSame : parsed'.precedence = parsed.precedence) : Satisfies w c := by
  obtain ⟨parsed₀, cs, hParsed₀, hSet, hSat⟩ := h
  cases hv.symm.trans hParsed₀
  exact ⟨parsed', cs, hw, hSet, by rw [cs.satisfies_congr hSame]; exact hSat⟩

/-- Versions of the same precedence as the locked one are not greater than it. -/
theorem Final.key_le (h : Final registry rootDeps roots st) {n v w : String} (hChosen : chosen st n v)
    {parsed parsed' : SemVer} (hv : SemVer.parse v = .ok parsed) (hw : SemVer.parse w = .ok parsed')
    (hSame : parsed'.precedence = parsed.precedence) (hListed : Listed registry n w) :
    parsed'.key w ≤ parsed.key v := by
  have hAdmissible : (problemOf registry rootDeps).Admissible (chosen st) n w := by
    refine ⟨hListed, fun c hc => ?_⟩
    exact Satisfies.of_precedence ((h.isSolution.admissible n v hChosen).2 c hc) hv hw hSame
  have hLe := (h.isGreatestChoice n v hChosen).2 ⟨w, hAdmissible, rfl⟩
  rw [sortKey_of_ok (versionKey_of_parse hv), sortKey_of_ok (versionKey_of_parse hw)] at hLe
  exact WithBot.coe_le_coe.mp hLe

theorem Final.readable_pins (h : Final registry rootDeps roots st) (hValid : ListsValid registry)
    {n v : String} (hChosen : chosen st n v) : Readable (entryOf n v) := by
  obtain ⟨parsed, hParsed⟩ := h.parse_chosen hChosen
  exact ⟨n, v, _, names_entryOf.mpr ⟨rfl, rfl⟩,
    fromString_bare (hValid n v (h.listed_chosen hChosen)) hParsed⟩

theorem Final.guide (h : Final registry rootDeps roots st) (hReadable : ReadableDeps registry st)
    (hValid : ListsValid registry) {deps : List DepEntry} (hRoots : RootsOf deps roots')
    (hPins : ∀ dep, dep ∈ deps ↔ ∃ n v, chosen st n v ∧ dep = entryOf n v) :
    Guide registry roots' (chosen st) := by
  have hRoot : ∀ n, ∀ r ∈ roots'.getD n [], chosen st n r.constraint := by
    intro n r hr
    obtain ⟨⟨dep, hDep, hNames⟩, -⟩ := hRoots.sound n r hr
    obtain ⟨n', v', hChosen, rfl⟩ := (hPins dep).mp hDep
    obtain ⟨rfl, hVersion⟩ := names_entryOf.mp hNames
    exact hVersion ▸ hChosen
  have hPinned : ∀ n v, chosen st n v → ∃ r ∈ roots'.getD n [], r.constraint = v := by
    intro n v hChosen
    obtain ⟨n', c, hNames, hr⟩ := hRoots.complete _ ((hPins _).mpr ⟨n, v, hChosen, rfl⟩)
    obtain ⟨rfl, rfl⟩ := names_entryOf.mp hNames
    exact hr
  constructor
  · intro n hn
    obtain ⟨r, hr⟩ := List.exists_mem_of_ne_nil _ ((hRoots.keys n).mp hn)
    exact ⟨_, hRoot n r hr⟩
  · intro n v hChosen
    obtain ⟨r, hr, -⟩ := hPinned n v hChosen
    exact List.ne_nil_of_mem hr
  · intro p v q c hChosen hLists
    exact h.isSolution.closed q c (.inr ⟨p, v, hChosen, hLists⟩)
  · exact h.acyclic
  · intro n v reqs hChosen hArises
    obtain ⟨parsed, hParsed⟩ := h.parse_chosen hChosen
    obtain ⟨available, hList, hMem⟩ := h.listed_chosen hChosen
    have hBare := fromString_bare (hValid n v ⟨available, hList, hMem⟩) hParsed
    have hSatisfies : ∀ r ∈ reqs, Satisfies v r.constraint := by
      intro r hr
      cases hArises.provenance r hr with
      | inl hOwn =>
        rw [h.isSolution.functional n _ v (hRoot n r hOwn) hChosen]
        exact ⟨parsed, _, hParsed, hBare, satisfies_eq_iff.mpr rfl⟩
      | inr hDep =>
        obtain ⟨p, w, hOther, hLists⟩ := hDep
        exact (h.isSolution.admissible n v hChosen).2 _ (.inr ⟨p, w, hOther, hLists⟩)
    refine selectVersion_eq_ok_iff.mpr ⟨?_, available, hList, hMem, _, versionKey_of_parse hParsed, ?_⟩
    · refine isCandidate_iff.mpr ⟨parsed, hParsed, List.all_eq_true.mpr fun r hr => ?_⟩
      obtain ⟨parsed', cs, hParsed', hSet, hSat⟩ := hSatisfies r hr
      cases hParsed.symm.trans hParsed'
      cases (hArises.wellFormed r hr).symm.trans hSet
      exact hSat
    · intro w hw hCandidate
      obtain ⟨parsed', hParsed', hAll⟩ := isCandidate_iff.mp hCandidate
      obtain ⟨r, hr, hPin⟩ := hPinned n v hChosen
      have hIn := hArises.rooted hr
      have hSet := hArises.wellFormed r hIn
      rw [hPin, hBare] at hSet
      have hSat := List.all_eq_true.mp hAll r hIn
      rw [← Except.ok.inj hSet, satisfies_eq_iff] at hSat
      exact ⟨_, versionKey_of_parse hParsed',
        h.key_le hChosen hParsed hParsed' hSat ⟨available, hList, hw⟩⟩
  · rintro n v ⟨pkg, hPkg, rfl⟩
    exact hReadable n pkg hPkg

end

/-- The pins may stand in any order. -/
theorem resolve_pins (registry : RegistryClient) (hValid : ListsValid registry)
    (rootDeps : List DepEntry) (lock : Lockfile) (h : resolve registry rootDeps = .ok lock)
    (deps : List DepEntry) (hDeps : deps.Perm lock.pins) : resolve registry deps = .ok lock := by
  unfold resolve at h
  cases hSearch : search registry rootDeps with
  | error raised => simp [hSearch, Except.map] at h
  | ok st =>
    rw [hSearch] at h
    cases h
    obtain ⟨roots, hFinal⟩ := search_final hSearch
    have hPins : ∀ dep, dep ∈ deps ↔ ∃ n v, chosen st n v ∧ dep = entryOf n v :=
      fun dep => hDeps.mem_iff.trans hFinal.mem_pins
    have hReadable : ∀ dep ∈ deps, Readable dep := by
      intro dep hDep
      obtain ⟨n, v, hChosen, rfl⟩ := (hPins dep).mp hDep
      exact hFinal.readable_pins hValid hChosen
    obtain ⟨roots', hRoots⟩ := rootRequirements_of_readable hReadable
    have hRootsOf := rootRequirements_ok hRoots
    have hGuide := hFinal.guide (search_readableDeps hSearch) hValid hRootsOf hPins
    obtain ⟨st', hSearch', hFollows⟩ := hGuide.search hRoots
    obtain ⟨roots'', hFinal'⟩ := search_final hSearch'
    have hChosen : ∀ n v, chosen st' n v ↔ chosen st n v := by
      intro n v
      constructor
      · intro hv
        exact hFollows n v (hFinal'.chosen_iff.mp hv)
      · intro hv
        obtain ⟨c, hc⟩ : ∃ c, (problemOf registry deps).Required (chosen st') n c :=
          ⟨v, .inl ⟨_, (hPins _).mpr ⟨n, v, hv, rfl⟩, names_entryOf.mpr ⟨rfl, rfl⟩⟩⟩
        obtain ⟨w, hw⟩ := hFinal'.isSolution.closed n c hc
        cases hFinal.isSolution.functional n v w hv (hFollows n w (hFinal'.chosen_iff.mp hw))
        exact hw
    rw [resolve, hSearch']
    exact congrArg Except.ok (buildLockfile_congr hFinal' hFinal hChosen)

/-- `lib` has three versions that differ in build metadata only. -/
def variantRegistry : RegistryClient :=
  InMemoryRegistry.client (Dict.ofList
    [("app", Dict.ofList [published "app" "1.0.0" "sha-app" [entryOf "lib" "^1.0.0"]]),
      ("lib", Dict.ofList
        [published "lib" "1.0.0" "sha-lib" [], published "lib" "1.0.0+b.10" "sha-lib-10" [],
          published "lib" "1.0.0+b.2" "sha-lib-2" []])])

def variantLockfile : Lockfile := ⟨[⟨"app", "1.0.0", "sha-app"⟩, ⟨"lib", "1.0.0+b.2", "sha-lib-2"⟩]⟩

theorem listsValid_variantRegistry : ListsValid variantRegistry := by
  rintro n v ⟨available, hList, hMem⟩
  by_cases hn : n ∈ ["app", "lib"]
  · have hAll : ∀ n ∈ ["app", "lib"], ∀ v ∈ (variantRegistry.listVersions n).toOption.getD [],
        isValidSemver v = true := by decide +kernel
    apply hAll n hn v
    rw [hList]
    exact hMem
  · rw [variantRegistry.listVersions_of_notMem n hn] at hList
    cases hList
    cases hMem

theorem resolve_pins_variant : resolve variantRegistry [entryOf "app" "1.0.0"] = .ok variantLockfile ∧
    resolve variantRegistry [entryOf "app" "1.0.0", entryOf "lib" "1.0.0+b.2"] = .ok variantLockfile := by
  have hFirst : resolve variantRegistry [entryOf "app" "1.0.0"] = .ok variantLockfile := by rfl
  exact ⟨hFirst, resolve_pins _ listsValid_variantRegistry _ _ hFirst _ (.refl _)⟩

end Forge.Registry
