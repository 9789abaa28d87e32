import Forge.Registry.Resolution

/-! # Cycle and conflict verdicts

A `CycleError` shows a cycle among selected versions, and a lockfile has none. A `ConflictError` is
raised where no listed version satisfies the requirements, or where the resolved one does not.
-/
namespace Forge.Registry
open Forge.Python Forge.Theory Relation
set_option autoImplicit false

/-- Neither of the two verdicts, nor the model's own lack of fuel. -/
def Exc.Plain : Exc → Prop
  | .cycleError _ | .conflictError _ _ _ | .outOfFuel => False
  | _ => True

theorem RegistryError.toExc_plain (e : RegistryError) : e.toExc.Plain := by
  cases e <;> trivial

theorem getItem_error {dep : DepEntry} {key : String} {e : Exc}
    (h : DepEntry.getItem dep key = .error e) : e.Plain := by
  unfold DepEntry.getItem at h
  split at h
  · cases h
  · cases h
    trivial

theorem requirementOf_error {dep : DepEntry} {via : String} {e : Exc}
    (h : requirementOf dep via = .error e) : e.Plain := by
  unfold requirementOf at h
  cases hName : DepEntry.getItem dep "name" with
  | error e' =>
    simp only [hName, bind, Except.bind, Except.error.injEq] at h
    exact h ▸ getItem_error hName
  | ok name =>
    cases hVersion : DepEntry.getItem dep "version" with
    | error e' =>
      simp only [hName, hVersion, bind, Except.bind, Except.error.injEq] at h
      exact h ▸ getItem_error hVersion
    | ok constraint =>
      cases hSet : ConstraintSet.fromString constraint with
      | error e' =>
        simp only [hName, hVersion, hSet, bind, Except.bind, Except.mapError,
          Except.error.injEq] at h
        exact h ▸ trivial
      | ok constraintSet => simp [hName, hVersion, hSet, bind, Except.bind, Except.mapError] at h

theorem sortDeps_error {deps : List DepEntry} {e : Exc} (h : sortDeps deps = .error e) : e.Plain := by
  have hKeys : ∀ (items : List DepEntry),
      withKeys (fun dep => DepEntry.getItem dep "name") items = .error e → e.Plain := by
    intro items hItems
    induction items with
    | nil => cases hItems
    | cons dep rest ih =>
      rw [withKeys] at hItems
      split at hItems
      · rename_i hDep
        cases hItems
        exact getItem_error hDep
      · rename_i hRest
        cases hItems
        exact ih hRest
      · cases hItems
  unfold sortDeps sortedByKey at h
  cases hPairs : withKeys (fun dep => DepEntry.getItem dep "name") deps with
  | error e' =>
    rw [hPairs] at h
    cases h
    exact hKeys deps hPairs
  | ok pairs =>
    rw [hPairs] at h
    cases h

theorem rootRequirements_error {rootDeps : List DepEntry} {e : Exc} {st : ResolverState}
    (h : rootRequirements rootDeps = .error (e, st)) : e.Plain := by
  have hDeps : ∀ (deps : List DepEntry) (acc : Dict String (List Requirement)),
      addRootDeps deps acc = .error (e, st) → e.Plain := by
    intro deps
    induction deps with
    | nil =>
      intro acc hAdd
      cases hAdd
    | cons dep rest ih =>
      intro acc hAdd
      rw [addRootDeps] at hAdd
      split at hAdd
      · rename_i hReq
        cases hAdd
        exact requirementOf_error hReq
      · exact ih _ hAdd
  unfold rootRequirements at h
  split at h
  · rename_i hSort
    cases h
    exact sortDeps_error hSort
  · exact hDeps _ _ h

theorem raiseConflict_cases (name : String) (reqs : List Requirement) (available : List String) :
    raiseConflict name reqs available = .conflictError name reqs available ∨
      (raiseConflict name reqs available).Plain := by
  unfold raiseConflict
  split
  · exact .inr trivial
  · exact .inl rfl

theorem selectVersion_error {registry : RegistryClient} {name : String} {reqs : List Requirement}
    {e : Exc} (h : selectVersion registry name reqs = .error e) : e.Plain ∨
      ∃ available, registry.listVersions name = .ok available ∧
        (∀ v ∈ available, isCandidate reqs v = false) ∧ e = .conflictError name reqs available := by
  unfold selectVersion at h
  split at h
  · cases h
    exact .inl (RegistryError.toExc_plain _)
  · cases h
    exact .inl trivial
  · rename_i available _ hList
    split at h
    · rename_i hFilter
      cases h
      rcases raiseConflict_cases name reqs available with he | hPlain
      · refine .inr ⟨available, hList, ?_, he⟩
        intro v hv
        exact Bool.eq_false_iff.mpr (List.filter_eq_nil_iff.mp hFilter v hv)
      · exact .inl hPlain
    · rename_i candidates hCandidates
      split at h
      · cases h
        exact .inl trivial
      · rename_i hSort
        have hPerm : List.Perm [] (available.filter (isCandidate reqs)) := by
          rw [sortVersions, if_pos rfl] at hSort
          exact sortedByKey_perm hSort
        exact (hCandidates (List.nil_perm.mp hPerm)).elim
      · cases h

theorem recheck_raises {registry : RegistryClient} {name : String} {pkg : ResolvedPackage}
    {st st' : ResolverState} {e : Exc} (h : recheck registry name pkg st = .error (e, st')) : e.Plain ∨
      ∃ available, registry.listVersions name = .ok available ∧
        isCandidate (st.reqs name) pkg.version = false ∧
        e = .conflictError name (st.reqs name) available := by
  unfold recheck at h
  split at h
  · cases h
  · split at h
    · cases h
      exact .inl trivial
    · rename_i parsed hParsed
      split at h
      · cases h
      · rename_i hAll
        split at h
        · cases h
          exact .inl (RegistryError.toExc_plain _)
        · rename_i available hList
          cases h
          rcases raiseConflict_cases name (st.reqs name) available with he | hPlain
          · refine .inr ⟨available, hList, ?_, he⟩
            rw [isCandidate, hParsed]
            exact Bool.eq_false_iff.mpr hAll
          · exact .inl hPlain

/-! ## The two verdicts -/

/-- Where control was when an exception left the search, and what it knew there. -/
theorem resolveGraph_fails {registry : RegistryClient} {rootDeps : List DepEntry}
    {roots : Dict String (List Requirement)} {fuel : Nat} {e : Exc} {st : ResolverState}
    (hRoots : RootsOf rootDeps roots) (h : resolveGraph registry fuel roots = .error (e, st)) :
    e = .outOfFuel ∨ ∃ c st' s₀, Inv registry roots st' ∧ CallOk registry roots c st' ∧
      Raises registry c st' e s₀ ∧ SameRecords s₀ st := by
  rcases resolveRoots_fails _ _ _ _ h with hFuel | ⟨c, st', s₀, hEnters, hRaises, hSame⟩
  · exact .inl hFuel
  · obtain ⟨hInv, hCall⟩ := hEnters.inv (.init hRoots) ⟨rfl, fun _ hn => mem_sortNames.mp hn⟩
    exact .inr ⟨c, st', s₀, hInv, hCall, hRaises, hSame⟩

theorem resolve_fails {registry : RegistryClient} {rootDeps : List DepEntry} {e : Exc}
    {st : ResolverState} (h : resolve registry rootDeps = .error (e, st)) :
    e.Plain ∨ e = .outOfFuel ∨ ∃ roots c st' s₀, Inv registry roots st' ∧
      CallOk registry roots c st' ∧ Raises registry c st' e s₀ ∧ SameRecords s₀ st := by
  unfold resolve search at h
  cases hRoots : rootRequirements rootDeps with
  | error raised =>
    rw [hRoots] at h
    cases h
    exact .inl (rootRequirements_error hRoots)
  | ok roots =>
    rw [hRoots] at h
    cases hGraph : resolveGraph registry (registry.packages.length + 1) roots with
    | ok st' => simp [hGraph, Except.map] at h
    | error raised =>
      simp only [hGraph, Except.map, Except.error.injEq] at h
      subst h
      exact .inr ((resolveGraph_fails (rootRequirements_ok hRoots) hGraph).imp_right fun hFails =>
        ⟨roots, hFails⟩)

theorem Raises.cycle_inv {registry : RegistryClient} {c : Call} {st s₀ : ResolverState}
    {cycle : List String} (h : Raises registry c st (.cycleError cycle) s₀) :
    ∃ name, c = .name name ∧ name ∈ st.visiting ∧ s₀ = st ∧
      cycle = st.pathStack.drop (st.pathStack.idxOf name) := by
  generalize he : Exc.cycleError cycle = e at h
  cases h with
  | cycle hVisiting =>
    cases he
    exact ⟨_, rfl, hVisiting, rfl, rfl⟩
  | recheck _ _ hRecheck =>
    subst he
    rcases recheck_raises hRecheck with hPlain | ⟨_, _, _, he⟩
    · exact hPlain.elim
    · cases he
  | unconstrained => cases he
  | select _ hSelect =>
    subst he
    rcases selectVersion_error hSelect with hPlain | ⟨_, _, _, he⟩
    · exact hPlain.elim
    · cases he
  | @metadata _ _ _ e _ _ _ => cases e <;> cases he
  | sort _ _ _ hDeps => exact (he ▸ sortDeps_error hDeps : Exc.Plain (.cycleError cycle)).elim
  | requirement hReq => exact (he ▸ requirementOf_error hReq : Exc.Plain (.cycleError cycle)).elim

/-- Both directions of the verdict. The edges of a reported cycle belong to the versions selected
in this run, one a name; those of a lockfile to its locked versions. -/
theorem resolve_cycle_exact (registry : RegistryClient) (rootDeps : List DepEntry) :
    (∀ cycle st, resolve registry rootDeps = .error (.cycleError cycle, st) → cycle ≠ [] ∧
      IsCycle (SelectedEdge registry st) cycle ∧ (st.selected.map Prod.fst).Nodup) ∧
    ∀ lock, resolve registry rootDeps = .ok lock → Acyclic (lock.Edge registry) := by
  constructor
  · intro cycle st h
    rcases resolve_fails h with hPlain | hFuel | ⟨roots, c, st', s₀, hInv, hCall, hRaises, hSame⟩
    · exact hPlain.elim
    · cases hFuel
    · obtain ⟨name, rfl, hVisiting, rfl, rfl⟩ := hRaises.cycle_inv
      have hStack := (hInv.visiting_iff name).mp hVisiting
      have hCycle : IsCycle (SelectedEdge registry s₀) (s₀.pathStack.drop (s₀.pathStack.idxOf name)) := by
        rcases hCall with ⟨hEmpty, -⟩ | ⟨p, hLast, hEdge⟩
        · rw [hEmpty] at hStack
          exact (List.not_mem_nil hStack).elim
        · exact .of_chain hInv.stackNodup hInv.chain hStack hLast hEdge
      have hEdges : SelectedEdge registry st = SelectedEdge registry s₀ := by
        unfold SelectedEdge
        rw [hSame.selected_eq]
      rw [hEdges, hSame.selected_eq]
      exact ⟨hCycle.ne_nil, hCycle, hInv.selectedNodup⟩
  · intro lock h
    obtain ⟨roots, st, hFinal, rfl⟩ := resolve_ok h
    have hAcyclic := hFinal.acyclic
    rw [← hFinal.locks_eq] at hAcyclic
    exact hAcyclic

def cycleRegistry : RegistryClient :=
  InMemoryRegistry.client (Dict.ofList
    [("pkg-a", Dict.ofList [published "pkg-a" "1.0.0" "sha-a" [entryOf "pkg-b" "1.0.0"]]),
      ("pkg-b", Dict.ofList [published "pkg-b" "1.0.0" "sha-b" [entryOf "pkg-a" "1.0.0"]])])

theorem resolve_cycle_exact_cycleRegistry :
    (∃ st, IsCycle (SelectedEdge cycleRegistry st) ["pkg-a", "pkg-b"]) ∧
      Acyclic (httpLockfile.Edge httpRegistry) := by
  have hRaised : ∃ st, resolve cycleRegistry [entryOf "pkg-a" "1.0.0"] =
      .error (.cycleError ["pkg-a", "pkg-b"], st) := ⟨_, rfl⟩
  obtain ⟨st, h⟩ := hRaised
  exact ⟨⟨st, ((resolve_cycle_exact cycleRegistry [entryOf "pkg-a" "1.0.0"]).1 _ st h).2.1⟩,
    (resolve_cycle_exact httpRegistry [entryOf "lib-http" "1.0.0"]).2 _ resolve_httpRegistry⟩

end Forge.Registry
