import Forge.Registry.ResolverErrors

/-! # The resolver needs no more fuel than it has

The names on the path of the search are distinct, and all but the last have published versions. So no path
is longer than the list of packages, and the bound on the recursion is never met.
-/
namespace Forge.Registry
open Forge.Python
set_option autoImplicit false

variable {registry : RegistryClient} {fuel : Nat} {st st' : ResolverState}

theorem Exc.Plain.ne_outOfFuel {e : Exc} (h : e.Plain) : e ≠ .outOfFuel := by
  rintro rfl
  exact h

theorem Raises.ne_outOfFuel {c : Call} {e : Exc} (h : Raises registry c st e st') : e ≠ .outOfFuel := by
  cases h with
  | cycle hVisiting => exact Exc.noConfusion
  | recheck hVisiting hResolved hRecheck =>
    rcases recheck_raises hRecheck with hPlain | ⟨available, -, -, rfl⟩
    · exact hPlain.ne_outOfFuel
    · exact Exc.noConfusion
  | unconstrained hUnresolved hReqs => exact Exc.noConfusion
  | select hUnresolved hSelect =>
    rcases selectVersion_error hSelect with hPlain | ⟨available, -, -, rfl⟩
    · exact hPlain.ne_outOfFuel
    · exact Exc.noConfusion
  | metadata hUnresolved hSelect hMeta => exact (RegistryError.toExc_plain _).ne_outOfFuel
  | sort hUnresolved hSelect hMeta hDeps => exact (sortDeps_error hDeps).ne_outOfFuel
  | requirement hReq => exact (requirementOf_error hReq).ne_outOfFuel

theorem mem_packages_of_selectVersion {name version : String} {reqs : List Requirement}
    (h : selectVersion registry name reqs = .ok version) : name ∈ registry.packages := by
  by_contra hAbsent
  simp [selectVersion, registry.listVersions_of_notMem name hAbsent] at h

/-- Whether the fuel suffices for every path that goes on from the one being visited. -/
structure Fits (registry : RegistryClient) (fuel : Nat) (st : ResolverState) : Prop where
  nodup : st.visiting.Nodup
  subset : st.visiting ⊆ registry.packages
  room : registry.packages.length < fuel + st.visiting.length

theorem Fits.of_visiting_eq (h : Fits registry fuel st) (hVisiting : st'.visiting = st.visiting) :
    Fits registry fuel st' :=
  ⟨hVisiting ▸ h.nodup, hVisiting ▸ h.subset, hVisiting ▸ h.room⟩

theorem Fits.pos (h : Fits registry fuel st) : 0 < fuel := by
  have hLength := (h.nodup.subperm h.subset).length_le
  have hRoom := h.room
  omega

theorem Fits.opened {name version : String} {pkg : PackageMeta} {deps : List DepEntry}
    (h : Fits registry (fuel + 1) st) (hOpens : Opens registry st name version pkg deps) :
    Fits registry fuel (st.opened name version) where
  nodup := List.nodup_cons.mpr ⟨hOpens.notVisiting, h.nodup⟩
  subset := List.cons_subset.mpr ⟨mem_packages_of_selectVersion hOpens.version_eq, h.subset⟩
  room := by
    have hRoom := h.room
    simp only [opened_visiting, List.length_cons]
    omega

theorem resolveDeps_ne_outOfFuel {name version : String}
    (hName : ∀ name st s, Fits registry fuel st → resolveName registry fuel name st ≠ .error (.outOfFuel, s))
    (deps : List DepEntry) (st s : ResolverState) (hFits : Fits registry fuel st) :
    resolveDeps (resolveName registry fuel) (viaOf name version) deps st ≠ .error (.outOfFuel, s) := by
  induction deps generalizing st with
  | nil =>
    intro h
    cases h
  | cons dep rest ih =>
    intro h
    rw [resolveDeps] at h
    split at h
    · rename_i hReq
      cases h
      exact (requirementOf_error hReq).ne_outOfFuel rfl
    · rename_i req hReq
      have hAdded : Fits registry fuel (st.add req) := hFits.of_visiting_eq rfl
      split at h
      · rename_i hRaised
        cases h
        exact hName req.name (st.add req) s hAdded hRaised
      · rename_i st₁ hOk
        exact ih st₁ (hAdded.of_visiting_eq (resolveName_runs _ _ _ _ hOk).extends.visiting_eq) h

theorem resolveName_ne_outOfFuel (fuel : Nat) (name : String) (st s : ResolverState)
    (hFits : Fits registry fuel st) : resolveName registry fuel name st ≠ .error (.outOfFuel, s) := by
  induction fuel generalizing name st s with
  | zero => exact absurd hFits.pos (Nat.lt_irrefl 0)
  | succ fuel ih =>
    intro h
    rw [resolveName] at h
    split at h
    · cases h
    · rename_i hVisiting
      split at h
      · rename_i pkg hResolved
        cases recheck_error h
        exact (Raises.recheck hVisiting hResolved h).ne_outOfFuel rfl
      · rename_i hNone
        cases hVisit : visit registry (resolveName registry fuel) name (st.enter name) with
        | ok st₂ =>
          rw [hVisit] at h
          cases h
        | error raised =>
          obtain ⟨e, st₂⟩ := raised
          rw [hVisit] at h
          cases h
          rcases visit_error hVisiting hNone hVisit with hRaises | ⟨version, pkg, deps, hOpens, hRun⟩
          · exact hRaises.ne_outOfFuel rfl
          · exact resolveDeps_ne_outOfFuel ih deps _ _ (hFits.opened hOpens) hRun

theorem resolveRoots_ne_outOfFuel (names : List String) (st s : ResolverState)
    (hFits : Fits registry fuel st) : resolveRoots registry fuel names st ≠ .error (.outOfFuel, s) := by
  induction names generalizing st with
  | nil =>
    intro h
    cases h
  | cons name rest ih =>
    intro h
    rw [resolveRoots] at h
    split at h
    · exact ih st hFits h
    · split at h
      · rename_i hRaised
        cases h
        exact resolveName_ne_outOfFuel fuel name st s hFits hRaised
      · rename_i st₁ hOk
        exact ih st₁ (hFits.of_visiting_eq (resolveName_runs _ _ _ _ hOk).extends.visiting_eq) h

/-- `resolve` returns a lockfile or raises an exception of the source. -/
theorem resolve_ne_outOfFuel (registry : RegistryClient) (rootDeps : List DepEntry)
    (s : ResolverState) : resolve registry rootDeps ≠ .error (.outOfFuel, s) := by
  intro h
  unfold resolve search at h
  cases hRoots : rootRequirements rootDeps with
  | error raised =>
    rw [hRoots] at h
    cases h
    exact (rootRequirements_error hRoots).ne_outOfFuel rfl
  | ok roots =>
    rw [hRoots] at h
    have hFits : Fits registry (registry.packages.length + 1) (.init roots) :=
      ⟨List.nodup_nil, List.nil_subset _, Nat.lt_succ_self _⟩
    cases hGraph : resolveGraph registry (registry.packages.length + 1) roots with
    | ok st => simp [hGraph, Except.map] at h
    | error raised =>
      simp only [hGraph, Except.map, Except.error.injEq] at h
      subst h
      exact resolveRoots_ne_outOfFuel _ _ s hFits hGraph

end Forge.Registry
