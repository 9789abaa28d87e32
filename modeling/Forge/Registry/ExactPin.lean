import Forge.Registry.FixedPoint

/-! # Exact pins and build metadata

A bare version is an equality of precedences. Among the published versions that satisfy it the greatest
sort key is selected, and the version string, build metadata included, is the last part of that key.
-/
namespace Forge.Registry
open Forge.Python Forge.Theory
set_option autoImplicit false

/-- The lockfile has the artifact `n@v` and no other version of `n`. -/
structure Lockfile.LocksExactly (lock : Lockfile) (registry : RegistryClient) (n v : String) : Prop where
  artifact : ∃ m, registry.getMetadata n v = .ok m ∧ ⟨n, v, m.sha256⟩ ∈ lock.packages
  version_eq : ∀ pkg ∈ lock.packages, pkg.name = n → pkg.version = v

/-- `w` has the precedence of `v` and sorts above it. -/
def Shadows (w v : String) : Prop :=
  ∃ parsed parsed', SemVer.parse v = .ok parsed ∧ SemVer.parse w = .ok parsed' ∧
    compareVersions parsed' parsed = 0 ∧ parsed.key v < parsed'.key w

section
variable {registry : RegistryClient} {rootDeps : List DepEntry}
  {roots : Dict String (List Requirement)} {st : ResolverState} {n v : String}

theorem Final.locksExactly_iff (h : Final registry rootDeps roots st) :
    (buildLockfile st.resolved).LocksExactly registry n v ↔ chosen st n v := by
  rw [← h.locks_eq]
  constructor
  · rintro ⟨⟨m, -, hMem⟩, -⟩
    exact ⟨_, hMem, rfl, rfl⟩
  · intro hLocks
    constructor
    · rw [h.locks_eq] at hLocks
      obtain ⟨pkg, hPkg, rfl⟩ := hLocks
      obtain ⟨hName, -, m, hMeta, hSha⟩ := h.inv.resolvedMeta n pkg hPkg
      refine ⟨m, hMeta, h.mem_packages.mpr ⟨pkg, hPkg, ?_⟩⟩
      rw [hName, hSha]
    · intro pkg hMem hName
      rw [h.locks_eq] at hLocks
      have hOther : (buildLockfile st.resolved).Locks n pkg.version := ⟨pkg, hMem, hName, rfl⟩
      rw [h.locks_eq] at hOther
      exact h.isSolution.functional n _ v hOther hLocks

theorem Final.not_shadowed (h : Final registry rootDeps roots st) (hChosen : chosen st n v) :
    ¬ ∃ w, Listed registry n w ∧ Shadows w v := by
  rintro ⟨w, hListed, parsed, parsed', hv, hw, hSame, hLt⟩
  have hLe := h.key_le hChosen hv hw (compareVersions_eq_zero_iff.mp hSame) hListed
  exact absurd hLt (not_lt.mpr hLe)

/-- A pin admits the pinned version itself and the versions of its precedence. -/
theorem Final.chosen_pin (h : Final registry rootDeps roots st) (hValid : isValidSemver v = true)
    {dep : DepEntry} (hDep : dep ∈ rootDeps) (hNames : DepEntry.Names dep n v) :
    ∃ w parsed parsed', chosen st n w ∧ SemVer.parse v = .ok parsed ∧ SemVer.parse w = .ok parsed' ∧
      parsed'.precedence = parsed.precedence := by
  have hRequired : (problemOf registry rootDeps).Required (chosen st) n v := .inl ⟨dep, hDep, hNames⟩
  obtain ⟨w, hChosen⟩ := h.isSolution.closed n v hRequired
  obtain ⟨parsed', cs, hw, hSet, hSat⟩ := (h.isSolution.admissible n w hChosen).2 v hRequired
  obtain ⟨parsed, hv, rfl⟩ := fromString_valid_ok hValid hSet
  exact ⟨w, parsed, parsed', hChosen, hv, hw, satisfies_eq_iff.mp hSat⟩

end

theorem resolve_locksExactly_iff (registry : RegistryClient) (n v : String) (hListed : Listed registry n v)
    (hValid : isValidSemver v = true) (rootDeps : List DepEntry)
    (hPin : ∃ dep ∈ rootDeps, DepEntry.Names dep n v) (lock : Lockfile)
    (h : resolve registry rootDeps = .ok lock) :
    lock.LocksExactly registry n v ↔ ¬ ∃ w, Listed registry n w ∧ Shadows w v := by
  obtain ⟨roots, st, hFinal, rfl⟩ := resolve_ok h
  obtain ⟨dep, hDep, hNames⟩ := hPin
  rw [hFinal.locksExactly_iff]
  constructor
  · exact hFinal.not_shadowed
  · intro hUnshadowed
    obtain ⟨w, parsed, parsed', hChosen, hv, hw, hSame⟩ := hFinal.chosen_pin hValid hDep hNames
    have hLe := hFinal.key_le hChosen hw hv hSame.symm hListed
    rcases lt_or_eq_of_le hLe with hLt | hEq
    · refine (hUnshadowed ⟨w, hFinal.listed_chosen hChosen, parsed, parsed', hv, hw, ?_, hLt⟩).elim
      exact compareVersions_eq_zero_iff.mpr hSame
    · exact SemVer.key_injective hEq ▸ hChosen

def pinnedVariant : Lockfile := ⟨[⟨"lib", "1.0.0+b.2", "sha-lib-2"⟩]⟩

theorem listed_variant {v : String} (h : v ∈ ["1.0.0", "1.0.0+b.10", "1.0.0+b.2"]) :
    Listed variantRegistry "lib" v :=
  ⟨_, rfl, h⟩

/-- The greatest of the variants is locked when it is the pinned one. -/
theorem pinnedVariant_locksExactly_iff :
    pinnedVariant.LocksExactly variantRegistry "lib" "1.0.0+b.2" ↔
      ¬ ∃ w, Listed variantRegistry "lib" w ∧ Shadows w "1.0.0+b.2" := by
  refine resolve_locksExactly_iff _ _ _ (listed_variant (by decide)) (by decide +kernel)
    [entryOf "lib" "1.0.0+b.2"] ?_ _ rfl
  exact ⟨_, List.mem_cons_self, names_entryOf.mpr ⟨rfl, rfl⟩⟩

/-- It is locked as well when a smaller variant is pinned. -/
theorem not_locksExactly_variant : Listed variantRegistry "lib" "1.0.0" ∧ isValidSemver "1.0.0" = true ∧
    resolve variantRegistry [entryOf "lib" "1.0.0"] = .ok pinnedVariant ∧
    ¬ pinnedVariant.LocksExactly variantRegistry "lib" "1.0.0" := by
  refine ⟨listed_variant (by decide), by decide +kernel, by rfl, fun h => ?_⟩
  have hVersion := h.version_eq _ List.mem_cons_self rfl
  exact absurd hVersion (by decide)

end Forge.Registry
