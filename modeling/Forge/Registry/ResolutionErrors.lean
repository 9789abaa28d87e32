import Forge.Registry.Selection
import Forge.Registry.ResolverTermination

/-! # Which exceptions leave the resolver

In a registry that answers whatever is asked about the names it leads to, with dependency entries that
can be read, the search raises the three exceptions that `resolve` documents and no others.
-/
namespace Forge.Registry
open Forge.Python Relation
set_option autoImplicit false

/-- `isinstance(exc, ResolutionError)`. -/
def Exc.isResolutionError : Exc → Bool
  | .cycleError _ => true
  | .conflictError _ _ _ => true
  | .packageNotFoundError _ => true
  | _ => false

/-- An entry that can be read and names one of the `Known` packages. -/
def Usable (Known : String → Prop) (dep : DepEntry) : Prop :=
  Readable dep ∧ ∀ name constraint, DepEntry.Names dep name constraint → Known name

/-- Every request about a name of `Known` is answered, and the answers lead to such names only. -/
structure Answers (registry : RegistryClient) (Known : String → Prop) : Prop where
  lists : ∀ name, Known name → ∃ versions, registry.listVersions name = .ok versions
  metadata : ∀ name version, Known name → Listed registry name version →
    ∃ pkg, registry.getMetadata name version = .ok pkg ∧ ∀ dep ∈ pkg.deps, Usable Known dep

/-! ## Steps of the search -/

theorem raiseConflict_of_accepted {name : String} {reqs : List Requirement} (available : List String)
    (h : ∀ r ∈ reqs, ConstraintSet.fromString r.constraint = .ok r.constraintSet) :
    raiseConflict name reqs available = .conflictError name reqs available := by
  have hKeys : ∀ r ∈ reqs, ∃ bounds, expandConstraint r.constraint = .ok bounds := by
    intro r hr
    rw [expandConstraint, h r hr]
    exact ⟨_, rfl⟩
  obtain ⟨pairs, hPairs⟩ := withKeys_of_ok hKeys
  rw [raiseConflict, hPairs]

section
variable {registry : RegistryClient} {Known : String → Prop} {name : String}
  {reqs : List Requirement} {e : Exc}

theorem Answers.selectVersion_error (h : Answers registry Known) (hName : Known name)
    (hReqs : ∀ r ∈ reqs, ConstraintSet.fromString r.constraint = .ok r.constraintSet)
    (hSelect : selectVersion registry name reqs = .error e) : e.isResolutionError = true := by
  obtain ⟨available, hList⟩ := h.lists name hName
  have hKeys : ∀ ver ∈ available.filter (isCandidate reqs), ∃ k, versionKey ver = .ok k :=
    fun ver hVer => candidate_key (List.mem_filter.mp hVer).2
  obtain ⟨sorted, hSorted⟩ :
      ∃ sorted, sortVersions true (available.filter (isCandidate reqs)) = .ok sorted := by
    rw [sortVersions, if_pos rfl]
    exact sortedByKey_of_ok hKeys
  unfold selectVersion at hSelect
  rw [hList] at hSelect
  cases available with
  | nil =>
    cases hSelect
    rfl
  | cons first rest =>
    dsimp only at hSelect
    split at hSelect
    · cases hSelect
      rw [raiseConflict_of_accepted _ hReqs]
      rfl
    · rw [hSorted] at hSelect
      cases sorted with
      | nil =>
        cases hSelect
        rw [raiseConflict_of_accepted _ hReqs]
        rfl
      | cons best tail => cases hSelect

theorem Answers.recheck_error (h : Answers registry Known) (hName : Known name) {pkg : ResolvedPackage}
    {st st' : ResolverState}
    (hReqs : ∀ r ∈ st.reqs name, ConstraintSet.fromString r.constraint = .ok r.constraintSet)
    (hParse : ∃ parsed, SemVer.parse pkg.version = .ok parsed)
    (hRecheck : recheck registry name pkg st = .error (e, st')) : e.isResolutionError = true := by
  obtain ⟨available, hList⟩ := h.lists name hName
  obtain ⟨parsed, hParsed⟩ := hParse
  unfold recheck at hRecheck
  rw [hParsed, hList] at hRecheck
  split at hRecheck
  · cases hRecheck
  · dsimp only at hRecheck
    split at hRecheck
    · cases hRecheck
    · cases hRecheck
      rw [raiseConflict_of_accepted _ hReqs]
      rfl

end

/-! ## Whole searches -/

section
variable {registry : RegistryClient} {Known : String → Prop} {roots : Dict String (List Requirement)}
  {st : ResolverState}

theorem Inv.listed (h : Inv registry roots st) {name version : String}
    (hSelected : (name, version) ∈ st.selected) : Listed registry name version := by
  obtain ⟨reqs, -, hBest⟩ := h.best name version hSelected
  obtain ⟨available, hList, hMem, -⟩ := hBest.greatest
  exact ⟨available, hList, hMem⟩

theorem Inv.parses (h : Inv registry roots st) {name version : String}
    (hSelected : (name, version) ∈ st.selected) : ∃ parsed, SemVer.parse version = .ok parsed := by
  obtain ⟨reqs, -, hBest⟩ := h.best name version hSelected
  obtain ⟨parsed, hParsed, -⟩ := isCandidate_iff.mp hBest.candidate
  exact ⟨parsed, hParsed⟩

theorem Answers.edge (h : Answers registry Known) (hInv : Inv registry roots st) {p q : String}
    (hKnown : Known p) (hEdge : SelectedEdge registry st p q) : Known q := by
  obtain ⟨version, constraint, hSelected, pkg, hMeta, dep, hDep, hNames⟩ := hEdge
  obtain ⟨pkg', hMeta', hDeps⟩ := h.metadata p version hKnown (hInv.listed hSelected)
  cases hMeta.symm.trans hMeta'
  exact (hDeps dep hDep).2 q constraint hNames

/-- The search selects versions of known names only. -/
theorem Answers.known_selected (h : Answers registry Known) (hInv : Inv registry roots st)
    (hRoots : ∀ name ∈ roots.keys, Known name) {name : String}
    (hSelected : name ∈ st.selected.map Prod.fst) : Known name := by
  obtain ⟨root, hRoot, hPath⟩ := hInv.reachable name hSelected
  clear hSelected
  induction hPath with
  | refl => exact hRoots root hRoot
  | tail _ hEdge ih => exact h.edge hInv ih hEdge

theorem Answers.known_call (h : Answers registry Known) (hInv : Inv registry roots st)
    (hRoots : ∀ name ∈ roots.keys, Known name) {name : String}
    (hCall : CallOk registry roots (.name name) st) : Known name := by
  rcases hCall with ⟨-, hRoot⟩ | ⟨p, hLast, hEdge⟩
  · exact hRoots name hRoot
  · have hStack : p ∈ st.selected.map Prod.fst :=
      (hInv.selected_iff p).mpr (.inl (List.mem_of_getLast? hLast))
    exact h.edge hInv (h.known_selected hInv hRoots hStack) hEdge

theorem Raises.isResolutionError {c : Call} {e : Exc} {s : ResolverState} (hRaises : Raises registry c st e s)
    (h : Answers registry Known) (hInv : Inv registry roots st) (hCall : CallOk registry roots c st)
    (hRoots : ∀ name ∈ roots.keys, Known name) : e.isResolutionError = true := by
  cases hRaises with
  | cycle hVisiting => rfl
  | @recheck _ name pkg _ hVisiting hResolved hRecheck =>
    obtain ⟨-, hSelected, -⟩ := hInv.resolvedMeta name pkg hResolved
    exact h.recheck_error (h.known_call hInv hRoots hCall) (hInv.wellFormed name) (hInv.parses hSelected)
      hRecheck
  | unconstrained hUnresolved hReqs => rfl
  | @select _ name _ hUnresolved hSelect =>
    exact h.selectVersion_error (h.known_call hInv hRoots hCall) (hInv.wellFormed name) hSelect
  | @metadata _ name version _ hUnresolved hSelect hMeta =>
    obtain ⟨available, hList, hMem, -⟩ := (selectVersion_ok hSelect).greatest
    obtain ⟨pkg, hPkg, -⟩ := h.metadata name version (h.known_call hInv hRoots hCall) ⟨available, hList, hMem⟩
    cases hMeta.symm.trans hPkg
  | @sort _ name version pkg _ hUnresolved hSelect hMeta hDeps =>
    obtain ⟨available, hList, hMem, -⟩ := (selectVersion_ok hSelect).greatest
    obtain ⟨pkg', hPkg, hUsable⟩ :=
      h.metadata name version (h.known_call hInv hRoots hCall) ⟨available, hList, hMem⟩
    cases hMeta.symm.trans hPkg
    obtain ⟨sorted, hSorted⟩ := sortDeps_of_readable fun dep hDep => (hUsable dep hDep).1
    cases hDeps.symm.trans hSorted
  | @requirement _ name version dep rest _ hReq =>
    obtain ⟨hLast, hSelected, pkg, hMeta, hSub⟩ := hCall
    have hKnown : Known name :=
      h.known_selected hInv hRoots (List.mem_map.mpr ⟨(name, version), hSelected, rfl⟩)
    obtain ⟨pkg', hPkg, hUsable⟩ := h.metadata name version hKnown (hInv.listed hSelected)
    cases hMeta.symm.trans hPkg
    obtain ⟨req, hOk⟩ := (readable_iff dep _).mp (hUsable dep (hSub List.mem_cons_self)).1
    cases hReq.symm.trans hOk

end

theorem Answers.resolve_error {registry : RegistryClient} {Known : String → Prop}
    (h : Answers registry Known) {rootDeps : List DepEntry} (hDeps : ∀ dep ∈ rootDeps, Usable Known dep)
    {e : Exc} {st : ResolverState} (hResolve : resolve registry rootDeps = .error (e, st)) :
    e.isResolutionError = true := by
  have hFuel : e ≠ .outOfFuel := by
    rintro rfl
    exact resolve_ne_outOfFuel registry rootDeps st hResolve
  obtain ⟨roots, hRoots⟩ := rootRequirements_of_readable fun dep hDep => (hDeps dep hDep).1
  have hRootsOf := rootRequirements_ok hRoots
  have hKnown : ∀ name ∈ roots.keys, Known name := by
    intro name hName
    obtain ⟨r, hr⟩ := List.exists_mem_of_ne_nil _ ((hRootsOf.keys name).mp hName)
    obtain ⟨⟨dep, hDep, hNames⟩, -⟩ := hRootsOf.sound name r hr
    exact (hDeps dep hDep).2 name r.constraint hNames
  unfold resolve search at hResolve
  rw [hRoots] at hResolve
  cases hGraph : resolveGraph registry (registry.packages.length + 1) roots with
  | ok st' => simp [hGraph, Except.map] at hResolve
  | error raised =>
    simp only [hGraph, Except.map, Except.error.injEq] at hResolve
    subst hResolve
    rcases resolveGraph_fails hRootsOf hGraph with hOut | ⟨c, st', s₀, hInv, hCall, hRaises, -⟩
    · exact absurd hOut hFuel
    · exact hRaises.isResolutionError h hInv hCall hKnown

end Forge.Registry
