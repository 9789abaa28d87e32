import Forge.Registry.ResolverTrace

/-! # What the calls of the resolver keep and achieve

Specifications of the pure functions, the projections of the three operations on the state
(recording a requirement, opening a package, closing it), and for every call what it leaves
unchanged and what holds when it has returned.
-/
namespace Forge.Registry
open Forge.Python Relation
set_option autoImplicit false

def DepEntry.Names (dep : DepEntry) (name constraint : String) : Prop :=
  dep.get? "name" = some name ∧ dep.get? "version" = some constraint

/-- The metadata of `p@v` has the entry `(q, c)`. -/
def Lists (registry : RegistryClient) (p v q c : String) : Prop :=
  ∃ pkg, registry.getMetadata p v = .ok pkg ∧ ∃ dep ∈ pkg.deps, DepEntry.Names dep q c

def SelectedEdge (registry : RegistryClient) (st : ResolverState) (p q : String) : Prop :=
  ∃ v c, (p, v) ∈ st.selected ∧ Lists registry p v q c

/-- `v` is listed for `n`, satisfies `reqs`, and no listed version that does has a larger key. -/
structure Best (registry : RegistryClient) (n v : String) (reqs : List Requirement) : Prop where
  candidate : isCandidate reqs v = true
  greatest : ∃ available, registry.listVersions n = .ok available ∧ v ∈ available ∧
    ∃ k, versionKey v = .ok k ∧ ∀ ver ∈ available, isCandidate reqs ver = true →
      ∃ k', versionKey ver = .ok k' ∧ k' ≤ k

/-! ## Specifications of the pure functions -/

theorem getItem_ok {dep : DepEntry} {key value : String} (h : DepEntry.getItem dep key = .ok value) :
    dep.get? key = some value := by
  unfold DepEntry.getItem at h
  split at h
  · rename_i hSome
    cases h
    exact hSome
  · cases h

theorem requirementOf_ok {dep : DepEntry} {via : String} {req : Requirement}
    (h : requirementOf dep via = .ok req) : DepEntry.Names dep req.name req.constraint ∧
      ConstraintSet.fromString req.constraint = .ok req.constraintSet := by
  unfold requirementOf at h
  cases hName : DepEntry.getItem dep "name" with
  | error e => simp [hName, bind, Except.bind] at h
  | ok name =>
    cases hVersion : DepEntry.getItem dep "version" with
    | error e => simp [hName, hVersion, bind, Except.bind] at h
    | ok constraint =>
      cases hSet : ConstraintSet.fromString constraint with
      | error e => simp [hName, hVersion, hSet, bind, Except.bind, Except.mapError] at h
      | ok constraintSet =>
        simp only [hName, hVersion, hSet, bind, Except.bind, Except.mapError, Except.ok.injEq] at h
        subst h
        exact ⟨⟨getItem_ok hName, getItem_ok hVersion⟩, hSet⟩

theorem isCandidate_iff {reqs : List Requirement} {ver : String} : isCandidate reqs ver = true ↔
    ∃ parsed, SemVer.parse ver = .ok parsed ∧ satisfiesAll reqs parsed = true := by
  unfold isCandidate
  cases SemVer.parse ver <;> simp

theorem isCandidate_subset {reqs reqs' : List Requirement} {ver : String} (hSub : reqs ⊆ reqs')
    (h : isCandidate reqs' ver = true) : isCandidate reqs ver = true := by
  obtain ⟨parsed, hParsed, hAll⟩ := isCandidate_iff.mp h
  refine isCandidate_iff.mpr ⟨parsed, hParsed, ?_⟩
  simp only [satisfiesAll, List.all_eq_true] at hAll ⊢
  exact fun r hr => hAll r (hSub hr)

theorem selectVersion_ok {registry : RegistryClient} {name version : String}
    {reqs : List Requirement} (h : selectVersion registry name reqs = .ok version) :
    Best registry name version reqs := by
  unfold selectVersion at h
  split at h
  · cases h
  · cases h
  · rename_i available _ hList
    split at h
    · cases h
    · split at h
      · cases h
      · cases h
      · rename_i best tail hSort
        cases h
        rw [sortVersions, if_pos rfl] at hSort
        obtain ⟨hMem, k, hKey, hMax⟩ := sortedByKey_head hSort
        obtain ⟨hAvailable, hCandidate⟩ := List.mem_filter.mp hMem
        refine ⟨hCandidate, available, hList, hAvailable, k, hKey, ?_⟩
        intro ver hVer hCand
        exact hMax ver (List.mem_filter.mpr ⟨hVer, hCand⟩)

theorem sortDeps_ok {deps sorted : List DepEntry} (h : sortDeps deps = .ok sorted) :
    sorted.Perm deps :=
  sortedByKey_perm h

/-! ## Projections of the state operations -/

section
variable (st : ResolverState) (req : Requirement) (n name version : String) (pkg : ResolvedPackage)

@[simp] theorem add_resolved : (st.add req).resolved = st.resolved := rfl
@[simp] theorem add_visiting : (st.add req).visiting = st.visiting := rfl
@[simp] theorem add_pathStack : (st.add req).pathStack = st.pathStack := rfl
@[simp] theorem add_selected : (st.add req).selected = st.selected := rfl
@[simp] theorem opened_reqs : (st.opened name version).reqs n = st.reqs n := rfl
@[simp] theorem opened_resolved : (st.opened name version).resolved = st.resolved := rfl
@[simp] theorem opened_visiting : (st.opened name version).visiting = name :: st.visiting := rfl
@[simp] theorem opened_pathStack : (st.opened name version).pathStack = st.pathStack ++ [name] := rfl
@[simp] theorem opened_selected :
    (st.opened name version).selected = st.selected ++ [(name, version)] := rfl
@[simp] theorem closed_reqs : (st.closed pkg).reqs n = st.reqs n := rfl
@[simp] theorem closed_resolved : (st.closed pkg).resolved = st.resolved.set pkg.name pkg := rfl
@[simp] theorem closed_visiting :
    (st.closed pkg).visiting = st.visiting.filter (· ≠ pkg.name) := rfl
@[simp] theorem closed_pathStack : (st.closed pkg).pathStack = st.pathStack.dropLast := rfl
@[simp] theorem closed_selected : (st.closed pkg).selected = st.selected := rfl

@[simp] theorem add_reqs :
    (st.add req).reqs n = if n = req.name then st.reqs n ++ [req] else st.reqs n := by
  unfold ResolverState.add ResolverState.reqs addRequirement
  rw [Dict.getD_set]
  split
  · rename_i h
    rw [h]
  · rfl

theorem reqs_subset_add : st.reqs n ⊆ (st.add req).reqs n := by
  rw [add_reqs]
  split
  · exact List.subset_append_left _ _
  · exact List.Subset.refl _

end

/-! ## What a call keeps -/

structure Extends (st st' : ResolverState) : Prop where
  pathStack_eq : st'.pathStack = st.pathStack
  visiting_eq : st'.visiting = st.visiting
  reqs_subset : ∀ n, st.reqs n ⊆ st'.reqs n
  reqs_visiting : ∀ n ∈ st.visiting, st'.reqs n = st.reqs n
  selected_subset : st.selected ⊆ st'.selected
  resolved_get : ∀ n pkg, st.resolved.get? n = some pkg → st'.resolved.get? n = some pkg
  resolved_visiting : ∀ n ∈ st.visiting, st'.resolved.get? n = st.resolved.get? n

theorem Extends.refl (st : ResolverState) : Extends st st where
  pathStack_eq := rfl
  visiting_eq := rfl
  reqs_subset _ := List.Subset.refl _
  reqs_visiting _ _ := rfl
  selected_subset := List.Subset.refl _
  resolved_get _ _ h := h
  resolved_visiting _ _ := rfl

theorem Extends.trans {st st' st'' : ResolverState} (h : Extends st st') (h' : Extends st' st'') :
    Extends st st'' where
  pathStack_eq := h'.pathStack_eq.trans h.pathStack_eq
  visiting_eq := h'.visiting_eq.trans h.visiting_eq
  reqs_subset n := List.Subset.trans (h.reqs_subset n) (h'.reqs_subset n)
  reqs_visiting n hn := (h'.reqs_visiting n (h.visiting_eq ▸ hn)).trans (h.reqs_visiting n hn)
  selected_subset := List.Subset.trans h.selected_subset h'.selected_subset
  resolved_get n pkg hn := h'.resolved_get n pkg (h.resolved_get n pkg hn)
  resolved_visiting n hn :=
    (h'.resolved_visiting n (h.visiting_eq ▸ hn)).trans (h.resolved_visiting n hn)

theorem Extends.resolved_mem {st st' : ResolverState} (h : Extends st st') {n : String}
    (hn : n ∈ st.resolved.keys) : n ∈ st'.resolved.keys := by
  obtain ⟨pkg, hPkg⟩ := Dict.mem_keys_iff.mp hn
  exact Dict.mem_keys_of_get? (h.resolved_get n pkg hPkg)

theorem Extends.add {st : ResolverState} {req : Requirement} (h : req.name ∉ st.visiting) :
    Extends st (st.add req) where
  pathStack_eq := rfl
  visiting_eq := rfl
  reqs_subset n := reqs_subset_add st req n
  reqs_visiting n hn := by
    rw [add_reqs, if_neg]
    rintro rfl
    exact h hn
  selected_subset := List.Subset.refl _
  resolved_get _ _ hn := hn
  resolved_visiting _ _ := rfl

theorem Extends.closed {st st' : ResolverState} {pkg : ResolvedPackage}
    (hVisiting : pkg.name ∉ st.visiting) (hNone : st.resolved.get? pkg.name = none)
    (h : Extends (st.opened pkg.name pkg.version) st') : Extends st (st'.closed pkg) where
  pathStack_eq := by
    rw [closed_pathStack, h.pathStack_eq, opened_pathStack, List.dropLast_concat]
  visiting_eq := by
    rw [closed_visiting, h.visiting_eq, opened_visiting, List.filter_cons_of_neg (by simp)]
    refine List.filter_eq_self.mpr fun n hn => ?_
    have hNe : n ≠ pkg.name := fun he => hVisiting (he ▸ hn)
    simpa using hNe
  reqs_subset n := h.reqs_subset n
  reqs_visiting n hn := h.reqs_visiting n (List.mem_cons_of_mem _ hn)
  selected_subset := by
    intro x hx
    exact h.selected_subset (List.mem_append_left _ hx)
  resolved_get n old hn := by
    have hNe : n ≠ pkg.name := by
      rintro rfl
      rw [hNone] at hn
      cases hn
    rw [closed_resolved, Dict.get?_set, if_neg hNe]
    exact h.resolved_get n old hn
  resolved_visiting n hn := by
    have hNe : n ≠ pkg.name := fun he => hVisiting (he ▸ hn)
    rw [closed_resolved, Dict.get?_set, if_neg hNe]
    exact h.resolved_visiting n (List.mem_cons_of_mem _ hn)

theorem Runs.notVisiting {registry : RegistryClient} {st st' : ResolverState} {name : String}
    (h : Runs registry (.name name) st st') : name ∉ st.visiting := by
  cases h with
  | recheck hVisiting _ _ => exact hVisiting
  | visit hOpens _ => exact hOpens.notVisiting

theorem Extends.addThen {registry : RegistryClient} {st st' : ResolverState} {req : Requirement}
    (hName : Runs registry (.name req.name) (st.add req) st') (h : Extends (st.add req) st') :
    Extends st st' :=
  Extends.trans (.add hName.notVisiting) h

theorem Runs.extends {registry : RegistryClient} {c : Call} {st st' : ResolverState}
    (h : Runs registry c st st') : Extends st st' := by
  induction h with
  | recheck => exact .refl _
  | visit hOpens _ ih => exact .closed hOpens.notVisiting hOpens.unresolved ih
  | nil => exact .refl _
  | cons _ hName _ ihName ihRest => exact (Extends.addThen hName ihName).trans ihRest
  | rootsNil => exact .refl _
  | rootsSkip _ _ ih => exact ih
  | rootsCons _ _ _ ihName ihRest => exact ihName.trans ihRest

/-! ## What a call achieves -/

def Recorded (st : ResolverState) (q c : String) : Prop := ∃ r ∈ st.reqs q, r.constraint = c

def Done : Call → ResolverState → Prop
  | .name n, st => n ∈ st.resolved.keys
  | .deps _ _ rest, st => ∀ dep ∈ rest, ∀ q c, DepEntry.Names dep q c →
      q ∈ st.resolved.keys ∧ Recorded st q c
  | .roots names, st => ∀ n ∈ names, n ∈ st.resolved.keys

theorem DepEntry.Names.unique {dep : DepEntry} {q c q' c' : String} (h : Names dep q c)
    (h' : Names dep q' c') : q = q' ∧ c = c' :=
  ⟨Option.some.inj (h.1.symm.trans h'.1), Option.some.inj (h.2.symm.trans h'.2)⟩

theorem Recorded.mono {st st' : ResolverState} (h : Extends st st') {q c : String}
    (hr : Recorded st q c) : Recorded st' q c := by
  obtain ⟨r, hr, rfl⟩ := hr
  exact ⟨r, h.reqs_subset q hr, rfl⟩

theorem Runs.done {registry : RegistryClient} {c : Call} {st st' : ResolverState}
    (h : Runs registry c st st') : Done c st' := by
  induction h with
  | recheck _ hResolved _ => exact Dict.mem_keys_of_get? hResolved
  | visit _ _ _ => exact Dict.mem_keys_set.mpr (.inl rfl)
  | nil => exact fun _ h => (List.not_mem_nil h).elim
  | @cons st st₁ st₂ name version dep rest req hReq hName hRest ihName ihRest =>
    intro d hd q c hq
    rcases List.mem_cons.mp hd with rfl | hd
    · obtain ⟨rfl, rfl⟩ := hq.unique (requirementOf_ok hReq).1
      have hRecorded : Recorded (st.add req) req.name req.constraint :=
        ⟨req, by rw [add_reqs, if_pos rfl]; exact List.mem_append_right _ List.mem_cons_self, rfl⟩
      exact ⟨hRest.extends.resolved_mem ihName,
        (hRecorded.mono hName.extends).mono hRest.extends⟩
    · exact ihRest d hd q c hq
  | rootsNil => exact fun _ h => (List.not_mem_nil h).elim
  | rootsSkip hResolved hRest ih =>
    intro n hn
    rcases List.mem_cons.mp hn with rfl | hn
    · exact hRest.extends.resolved_mem hResolved
    · exact ih n hn
  | rootsCons _ _ hRest ihName ihRest =>
    intro n hn
    rcases List.mem_cons.mp hn with rfl | hn
    · exact hRest.extends.resolved_mem ihName
    · exact ihRest n hn

end Forge.Registry
