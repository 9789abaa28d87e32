import Forge.Registry.ResolverCalls
import Forge.Registry.Selection

/-! # The order of lists does not matter

Two searches whose requirement lists are permutations of each other, in registries whose version lists
are, go the same way step by step: the same selections, the same stack, and errors of the same class.
-/
namespace Forge.Registry
open Forge.Python
set_option autoImplicit false

/-! ## Outcomes of the same kind -/

/-- The class of an exception, with the path of a cycle. -/
inductive ExcKind
  | cycle (path : List String)
  | conflict
  | packageNotFound
  | value
  | key
  | type
  | transport
  | fuel
  deriving DecidableEq

def Exc.kind : Exc → ExcKind
  | .cycleError path => .cycle path
  | .conflictError _ _ _ => .conflict
  | .packageNotFoundError _ => .packageNotFound
  | .valueError _ => .value
  | .keyError _ => .key
  | .typeError _ => .type
  | .transportError _ => .transport
  | .outOfFuel => .fuel

/-- Both results are values that `R` relates, or both are errors that `E` relates. -/
inductive Alike {ε α : Type} (E : ε → ε → Prop) (R : α → α → Prop) : Except ε α → Except ε α → Prop
  | ok {a b : α} (h : R a b) : Alike E R (.ok a) (.ok b)
  | error {e e' : ε} (h : E e e') : Alike E R (.error e) (.error e')

def SameKind (e e' : Exc) : Prop := e.kind = e'.kind

def SameRaise (raised raised' : Raised) : Prop := SameKind raised.1 raised'.1

/-- The second registry lists the versions in any order and is otherwise the same. -/
structure Reordered (registry registry' : RegistryClient) : Prop where
  lists : ∀ n, Alike (· = ·) List.Perm (registry.listVersions n) (registry'.listVersions n)
  metadata : ∀ n v, registry'.getMetadata n v = registry.getMetadata n v

variable {registry registry' : RegistryClient} {reqs reqs' : List Requirement} {n : String}

/-! ## Selecting and rechecking -/

theorem satisfiesAll_perm (h : reqs.Perm reqs') (parsed : SemVer) :
    satisfiesAll reqs parsed = satisfiesAll reqs' parsed := by
  rw [satisfiesAll, satisfiesAll, Bool.eq_iff_iff, List.all_eq_true, List.all_eq_true]
  exact forall_congr' fun r => by rw [h.mem_iff]

theorem isCandidate_perm (h : reqs.Perm reqs') (ver : String) :
    isCandidate reqs ver = isCandidate reqs' ver := by
  unfold isCandidate
  cases SemVer.parse ver with
  | error e => rfl
  | ok parsed => exact satisfiesAll_perm h parsed

theorem withKeys_error_iff {α κ ε : Type} {key : α → Except ε κ} {items : List α} :
    (∃ e, withKeys key items = .error e) ↔ ∃ a ∈ items, ∃ e, key a = .error e := by
  constructor
  · rintro ⟨e, hError⟩
    by_contra hNone
    have hOk : ∀ a ∈ items, ∃ k, key a = .ok k := by
      intro a ha
      cases hKey : key a with
      | ok k => exact ⟨k, rfl⟩
      | error e => exact absurd ⟨a, ha, e, hKey⟩ hNone
    obtain ⟨pairs, hPairs⟩ := withKeys_of_ok hOk
    cases hPairs.symm.trans hError
  · rintro ⟨a, ha, e, hKey⟩
    cases hItems : withKeys key items with
    | error e => exact ⟨e, rfl⟩
    | ok pairs =>
      obtain ⟨hSnd, hKeys⟩ := withKeys_ok hItems
      rw [← hSnd] at ha
      obtain ⟨p, hp, rfl⟩ := List.mem_map.mp ha
      cases (hKeys p hp).symm.trans hKey

theorem raiseConflict_perm (h : reqs.Perm reqs') (name : String) (available available' : List String) :
    SameKind (raiseConflict name reqs available) (raiseConflict name reqs' available') := by
  have hIff : (∃ e, withKeys (fun r => expandConstraint r.constraint) reqs = .error e) ↔
      ∃ e, withKeys (fun r => expandConstraint r.constraint) reqs' = .error e := by
    rw [withKeys_error_iff, withKeys_error_iff]
    exact exists_congr fun r => by rw [h.mem_iff]
  unfold raiseConflict
  cases hKeys : withKeys (fun r => expandConstraint r.constraint) reqs with
  | error e =>
    obtain ⟨e', hKeys'⟩ := hIff.mp ⟨e, hKeys⟩
    rw [hKeys']
    rfl
  | ok pairs =>
    cases hKeys' : withKeys (fun r => expandConstraint r.constraint) reqs' with
    | ok pairs' => rfl
    | error e' =>
      obtain ⟨e, hError⟩ := hIff.mpr ⟨e', hKeys'⟩
      cases hKeys.symm.trans hError

theorem Best.reordered (hReordered : Reordered registry registry') (hReqs : reqs.Perm reqs') {v : String}
    (h : Best registry n v reqs) : Best registry' n v reqs' := by
  obtain ⟨available, hList, hMem, k, hKey, hMax⟩ := h.greatest
  have hLists := hReordered.lists n
  rw [hList] at hLists
  cases hList' : registry'.listVersions n with
  | error e =>
    rw [hList'] at hLists
    cases hLists
  | ok available' =>
    rw [hList'] at hLists
    cases hLists with
    | ok hPerm =>
      refine ⟨isCandidate_perm hReqs v ▸ h.candidate, available', hList', hPerm.mem_iff.mp hMem, k, hKey, ?_⟩
      intro ver hVer hCandidate
      exact hMax ver (hPerm.mem_iff.mpr hVer) (by rw [isCandidate_perm hReqs]; exact hCandidate)

theorem selectVersion_no_candidate {available : List String} (hList : registry.listVersions n = .ok available)
    (hNonempty : available ≠ []) (hNone : ∀ v ∈ available, isCandidate reqs v = false) :
    selectVersion registry n reqs = .error (raiseConflict n reqs available) := by
  have hFilter : available.filter (isCandidate reqs) = [] :=
    List.filter_eq_nil_iff.mpr fun v hv => Bool.eq_false_iff.mp (hNone v hv)
  unfold selectVersion
  rw [hList]
  cases available with
  | nil => exact absurd rfl hNonempty
  | cons first rest =>
    dsimp only
    rw [hFilter]

theorem selectVersion_alike (hReordered : Reordered registry registry') (hReqs : reqs.Perm reqs') (n : String) :
    Alike SameKind (· = ·) (selectVersion registry n reqs) (selectVersion registry' n reqs') := by
  have hLists := hReordered.lists n
  cases hList : registry.listVersions n with
  | error e =>
    cases hList' : registry'.listVersions n with
    | ok available' =>
      rw [hList, hList'] at hLists
      cases hLists
    | error e' =>
      rw [hList, hList'] at hLists
      cases hLists with
      | error hSame =>
        rw [selectVersion, selectVersion, hList, hList', hSame]
        exact .error rfl
  | ok available =>
    cases hList' : registry'.listVersions n with
    | error e' =>
      rw [hList, hList'] at hLists
      cases hLists
    | ok available' =>
      rw [hList, hList'] at hLists
      cases hLists with
      | ok hPerm =>
        by_cases hSome : ∃ v ∈ available, isCandidate reqs v = true
        · obtain ⟨v, hv, hCandidate⟩ := hSome
          obtain ⟨w, hw⟩ := selectVersion_of_candidate hList hv hCandidate
          have hBest := (selectVersion_ok hw).reordered hReordered hReqs
          rw [hw, selectVersion_eq_ok_iff.mpr hBest]
          exact .ok rfl
        · have hNone : ∀ v ∈ available, isCandidate reqs v = false := by
            intro v hv
            exact Bool.eq_false_iff.mpr fun hTrue => hSome ⟨v, hv, hTrue⟩
          have hNone' : ∀ v ∈ available', isCandidate reqs' v = false := by
            intro v hv
            rw [← isCandidate_perm hReqs]
            exact hNone v (hPerm.mem_iff.mpr hv)
          by_cases hEmpty : available = []
          · subst hEmpty
            cases hPerm.nil_eq
            rw [selectVersion, selectVersion, hList, hList']
            exact .error rfl
          · have hEmpty' : available' ≠ [] := by
              rintro rfl
              exact hEmpty hPerm.eq_nil
            rw [selectVersion_no_candidate hList hEmpty hNone,
              selectVersion_no_candidate hList' hEmpty' hNone']
            exact .error (raiseConflict_perm hReqs n available available')

/-! ## Twin states -/

/-- Equal but for the order of the requirements on a name. -/
structure Twin (st st' : ResolverState) : Prop where
  reqs : ∀ n, (st.reqs n).Perm (st'.reqs n)
  resolved : st'.resolved = st.resolved
  visiting : st'.visiting = st.visiting
  pathStack : st'.pathStack = st.pathStack

variable {st st' : ResolverState}

theorem Twin.add (h : Twin st st') (req : Requirement) : Twin (st.add req) (st'.add req) := by
  refine ⟨fun n => ?_, h.resolved, h.visiting, h.pathStack⟩
  rw [add_reqs, add_reqs]
  split
  · exact (h.reqs n).append_right [req]
  · exact h.reqs n

theorem Twin.enter (h : Twin st st') (name : String) : Twin (st.enter name) (st'.enter name) :=
  ⟨h.reqs, h.resolved, congrArg (name :: ·) h.visiting, congrArg (· ++ [name]) h.pathStack⟩

theorem Twin.select (h : Twin st st') (name version : String) :
    Twin (st.select name version) (st'.select name version) :=
  ⟨h.reqs, h.resolved, h.visiting, h.pathStack⟩

theorem Twin.resolve (h : Twin st st') (pkg : ResolvedPackage) : Twin (st.resolve pkg) (st'.resolve pkg) :=
  ⟨h.reqs, congrArg (fun d => Dict.set d pkg.name pkg) h.resolved, h.visiting, h.pathStack⟩

theorem Twin.leave (h : Twin st st') (name : String) : Twin (st.leave name) (st'.leave name) :=
  ⟨h.reqs, h.resolved, congrArg (List.filter (· ≠ name)) h.visiting,
    congrArg List.dropLast h.pathStack⟩

theorem Twin.reqs_eq_nil_iff (h : Twin st st') (n : String) : st.reqs n = [] ↔ st'.reqs n = [] := by
  rw [← List.length_eq_zero_iff, (h.reqs n).length_eq, List.length_eq_zero_iff]

/-- Both calls return twins, or raise exceptions of the same class. -/
def Parallel (outcome outcome' : Except Raised ResolverState) : Prop :=
  Alike SameRaise Twin outcome outcome'

theorem Parallel.leaving {outcome outcome' : Except Raised ResolverState} (h : Parallel outcome outcome')
    (name : String) : Parallel (leaving name outcome) (leaving name outcome') := by
  cases h with
  | ok hTwin => exact .ok (hTwin.leave name)
  | error hSame => exact .error hSame

/-! ## The calls -/

theorem recheck_parallel (hReordered : Reordered registry registry') (hTwin : Twin st st') (name : String)
    (pkg : ResolvedPackage) :
    Parallel (recheck registry name pkg st) (recheck registry' name pkg st') := by
  unfold recheck
  by_cases hEmpty : st.reqs name = []
  · rw [if_pos hEmpty, if_pos ((hTwin.reqs_eq_nil_iff name).mp hEmpty)]
    exact .ok hTwin
  · rw [if_neg hEmpty, if_neg fun h => hEmpty ((hTwin.reqs_eq_nil_iff name).mpr h)]
    cases SemVer.parse pkg.version with
    | error error => exact .error rfl
    | ok selected =>
      dsimp only
      rw [satisfiesAll_perm (hTwin.reqs name)]
      split
      · exact .ok hTwin
      · have hLists := hReordered.lists name
        generalize registry.listVersions name = listed, registry'.listVersions name = listed' at hLists ⊢
        cases hLists with
        | error hSame =>
          subst hSame
          exact .error rfl
        | ok _ => exact .error (raiseConflict_perm (hTwin.reqs name) name _ _)

/-- The calls of `resolve_name` with one amount of fuel go in parallel. -/
def ParallelSearch (search search' : String → ResolverState → Except Raised ResolverState) : Prop :=
  ∀ name st st', Twin st st' → Parallel (search name st) (search' name st')

variable {search search' : String → ResolverState → Except Raised ResolverState}

theorem resolveDeps_parallel (hSearch : ParallelSearch search search') (via : String)
    (deps : List DepEntry) (hTwin : Twin st st') :
    Parallel (resolveDeps search via deps st) (resolveDeps search' via deps st') := by
  induction deps generalizing st st' with
  | nil => exact .ok hTwin
  | cons dep rest ih =>
    rw [resolveDeps, resolveDeps]
    cases requirementOf dep via with
    | error e => exact .error rfl
    | ok req =>
      have hName := hSearch req.name _ _ (hTwin.add req)
      dsimp only
      generalize search req.name (st.add req) = result, search' req.name (st'.add req) = result'
        at hName ⊢
      cases hName with
      | error hSame => exact .error hSame
      | ok hTwin₁ => exact ih hTwin₁

theorem visit_parallel (hReordered : Reordered registry registry') (hSearch : ParallelSearch search search')
    (name : String) (hTwin : Twin st st') :
    Parallel (visit registry search name st) (visit registry' search' name st') := by
  unfold visit
  by_cases hEmpty : st.reqs name = []
  · rw [if_pos hEmpty, if_pos ((hTwin.reqs_eq_nil_iff name).mp hEmpty)]
    exact .error rfl
  · rw [if_neg hEmpty, if_neg fun h => hEmpty ((hTwin.reqs_eq_nil_iff name).mpr h)]
    have hSelect := selectVersion_alike hReordered (hTwin.reqs name) name
    generalize selectVersion registry name (st.reqs name) = selected,
      selectVersion registry' name (st'.reqs name) = selected' at hSelect ⊢
    cases hSelect with
    | error hSame => exact .error hSame
    | @ok version _ hVersion =>
      subst hVersion
      dsimp only
      rw [hReordered.metadata name version]
      cases registry.getMetadata name version with
      | error e => exact .error rfl
      | ok pkg =>
        dsimp only
        cases sortDeps pkg.deps with
        | error e => exact .error rfl
        | ok deps =>
          have hDeps := resolveDeps_parallel hSearch (name ++ "@" ++ version) deps
            (hTwin.select name version)
          dsimp only
          generalize resolveDeps search (name ++ "@" ++ version) deps (st.select name version) = result,
            resolveDeps search' (name ++ "@" ++ version) deps (st'.select name version) = result'
            at hDeps ⊢
          cases hDeps with
          | error hSame => exact .error hSame
          | ok hTwin₁ => exact .ok (hTwin₁.resolve _)

theorem resolveName_parallel (hReordered : Reordered registry registry') (fuel : Nat) :
    ParallelSearch (resolveName registry fuel) (resolveName registry' fuel) := by
  induction fuel with
  | zero => exact fun _ _ _ _ => .error rfl
  | succ fuel ih =>
    intro name st st' hTwin
    rw [resolveName, resolveName, hTwin.visiting, hTwin.resolved, hTwin.pathStack]
    split
    · exact .error rfl
    · cases st.resolved.get? name with
      | some pkg => exact recheck_parallel hReordered hTwin name pkg
      | none => exact (visit_parallel hReordered ih name (hTwin.enter name)).leaving name

theorem resolveRoots_parallel (hReordered : Reordered registry registry') (fuel : Nat)
    (names : List String) (hTwin : Twin st st') :
    Parallel (resolveRoots registry fuel names st) (resolveRoots registry' fuel names st') := by
  induction names generalizing st st' with
  | nil => exact .ok hTwin
  | cons name rest ih =>
    rw [resolveRoots, resolveRoots, hTwin.resolved]
    split
    · exact ih hTwin
    · have hName := resolveName_parallel hReordered fuel name _ _ hTwin
      generalize resolveName registry fuel name st = result,
        resolveName registry' fuel name st' = result' at hName ⊢
      cases hName with
      | error hSame => exact .error hSame
      | ok hTwin₁ => exact ih hTwin₁

/-! ## The dependencies of the pipeline -/

/-- The entries have the keys `name` and `version`, as in every pipeline that the parser returns. -/
def PipelineDeps (rootDeps : List DepEntry) : Prop :=
  ∀ dep ∈ rootDeps, ∃ name constraint, DepEntry.Names dep name constraint

def requirementsOn (deps : List DepEntry) (n : String) : List Requirement :=
  deps.filterMap fun dep => (requirementOf dep "pipeline").toOption.filter fun req => req.name = n

theorem addRootDeps_getD {deps : List DepEntry} {acc roots : Dict String (List Requirement)}
    (h : addRootDeps deps acc = .ok roots) (n : String) :
    roots.getD n [] = acc.getD n [] ++ requirementsOn deps n := by
  induction deps generalizing acc with
  | nil =>
    cases h
    rw [requirementsOn, List.filterMap_nil, List.append_nil]
  | cons dep rest ih =>
    rw [addRootDeps] at h
    split at h
    · cases h
    · rename_i req hReq
      rw [ih h, addRequirement_getD, requirementsOn, requirementsOn, List.filterMap_cons, hReq]
      split
      · rename_i hSame
        simp [Except.toOption, Option.filter, hSame]
      · rename_i hOther
        simp [Except.toOption, Option.filter, Ne.symm hOther]

theorem addRootDeps_error {deps : List DepEntry} (hDeps : PipelineDeps deps)
    {acc : Dict String (List Requirement)} {raised : Raised} (h : addRootDeps deps acc = .error raised) :
    raised.1.kind = .value ∧ ∃ dep ∈ deps, ¬ Readable dep := by
  induction deps generalizing acc with
  | nil => cases h
  | cons dep rest ih =>
    rw [addRootDeps] at h
    split at h
    · rename_i e hReq
      cases h
      obtain ⟨name, constraint, hName, hConstraint⟩ := hDeps dep List.mem_cons_self
      refine ⟨?_, dep, List.mem_cons_self, ?_⟩
      · cases hSet : ConstraintSet.fromString constraint with
        | error error =>
          simp only [requirementOf, getItem_of_get? hName, getItem_of_get? hConstraint, hSet, bind,
            Except.bind, Except.mapError, Except.error.injEq] at hReq
          rw [← hReq]
          rfl
        | ok constraintSet =>
          simp [requirementOf, getItem_of_get? hName, getItem_of_get? hConstraint, hSet, bind,
            Except.bind, Except.mapError] at hReq
      · intro hReadable
        obtain ⟨req, hOk⟩ := (readable_iff dep "pipeline").mp hReadable
        cases hOk.symm.trans hReq
    · obtain ⟨hKind, d, hd, hUnreadable⟩ := ih (fun d hd => hDeps d (List.mem_cons_of_mem dep hd)) h
      exact ⟨hKind, d, List.mem_cons_of_mem dep hd, hUnreadable⟩

theorem rootRequirements_error_iff {rootDeps : List DepEntry} (hDeps : PipelineDeps rootDeps)
    {raised : Raised} (h : rootRequirements rootDeps = .error raised) :
    raised.1.kind = .value ∧ ∃ dep ∈ rootDeps, ¬ Readable dep := by
  unfold rootRequirements at h
  obtain ⟨sorted, hSort⟩ : ∃ sorted, sortDeps rootDeps = .ok sorted := by
    apply sortedByKey_of_ok
    intro dep hDep
    obtain ⟨name, _, hName, -⟩ := hDeps dep hDep
    exact ⟨name, getItem_of_get? hName⟩
  have hPerm := sortDeps_ok hSort
  rw [hSort] at h
  obtain ⟨hKind, dep, hDep, hUnreadable⟩ :=
    addRootDeps_error (fun d hd => hDeps d (hPerm.mem_iff.mp hd)) h
  exact ⟨hKind, dep, hPerm.mem_iff.mp hDep, hUnreadable⟩

theorem readable_of_rootRequirements {rootDeps : List DepEntry}
    {roots : Dict String (List Requirement)} (h : rootRequirements rootDeps = .ok roots) :
    ∀ dep ∈ rootDeps, Readable dep := by
  intro dep hDep
  have hRoots := rootRequirements_ok h
  obtain ⟨n, c, hNames, r, hr, rfl⟩ := hRoots.complete dep hDep
  exact ⟨n, r.constraint, r.constraintSet, hNames, (hRoots.sound n r hr).2⟩

theorem rootRequirements_getD {rootDeps : List DepEntry} {roots : Dict String (List Requirement)}
    (h : rootRequirements rootDeps = .ok roots) (n : String) :
    (roots.getD n []).Perm (requirementsOn rootDeps n) := by
  unfold rootRequirements at h
  split at h
  · cases h
  · rename_i deps hSort
    have hGet := addRootDeps_getD h n
    rw [hGet, show Dict.getD Dict.empty n [] = ([] : List Requirement) from rfl, List.nil_append]
    exact (sortDeps_ok hSort).filterMap _

theorem rootRequirements_twin {rootDeps rootDeps' : List DepEntry} (hPerm : rootDeps.Perm rootDeps')
    {roots roots' : Dict String (List Requirement)} (h : rootRequirements rootDeps = .ok roots)
    (h' : rootRequirements rootDeps' = .ok roots') :
    Twin (.init roots) (.init roots') ∧ sortNames roots.keys = sortNames roots'.keys := by
  have hReqs : ∀ n, (roots.getD n []).Perm (roots'.getD n []) := fun n =>
    (rootRequirements_getD h n).trans
      ((hPerm.filterMap _).trans (rootRequirements_getD h' n).symm)
  refine ⟨⟨hReqs, rfl, rfl, rfl⟩, sortNames_congr roots.nodup roots'.nodup fun n => ?_⟩
  have hNil : roots.getD n [] = [] ↔ roots'.getD n [] = [] := by
    rw [← List.length_eq_zero_iff, (hReqs n).length_eq, List.length_eq_zero_iff]
  exact ((rootRequirements_ok h).keys n).trans (hNil.not.trans ((rootRequirements_ok h').keys n).symm)

/-! ## The resolver -/

theorem resolveGraph_parallel (hReordered : Reordered registry registry')
    {roots roots' : Dict String (List Requirement)} (hTwin : Twin (.init roots) (.init roots'))
    (hNames : sortNames roots.keys = sortNames roots'.keys) :
    Parallel (resolveGraph registry (registry.packages.length + 1) roots)
      (resolveGraph registry' (registry'.packages.length + 1) roots') := by
  -- both searches with the same fuel, which neither of them runs out of
  rw [← resolveGraph_fuel registry registry'.packages.length roots,
    ← resolveGraph_fuel registry' registry.packages.length roots']
  have hFuel : registry'.packages.length + 1 + registry.packages.length =
      registry.packages.length + 1 + registry'.packages.length := by omega
  rw [hFuel, resolveGraph, resolveGraph, ← hNames]
  exact resolveRoots_parallel hReordered _ _ hTwin

theorem resolve_permuted (registry registry' : RegistryClient) (hReordered : Reordered registry registry')
    (rootDeps rootDeps' : List DepEntry) (hDeps : PipelineDeps rootDeps)
    (hPerm : rootDeps.Perm rootDeps') :
    Alike SameRaise (· = ·) (resolve registry rootDeps) (resolve registry' rootDeps') := by
  have hDeps' : PipelineDeps rootDeps' := fun dep hDep => hDeps dep (hPerm.mem_iff.mpr hDep)
  unfold resolve search
  cases hRoots : rootRequirements rootDeps with
  | error raised =>
    obtain ⟨hKind, dep, hDep, hUnreadable⟩ := rootRequirements_error_iff hDeps hRoots
    cases hRoots' : rootRequirements rootDeps' with
    | error raised' => exact .error (hKind.trans (rootRequirements_error_iff hDeps' hRoots').1.symm)
    | ok roots' =>
      exact absurd (readable_of_rootRequirements hRoots' dep (hPerm.mem_iff.mp hDep)) hUnreadable
  | ok roots =>
    cases hRoots' : rootRequirements rootDeps' with
    | error raised' =>
      obtain ⟨-, dep, hDep, hUnreadable⟩ := rootRequirements_error_iff hDeps' hRoots'
      exact absurd (readable_of_rootRequirements hRoots dep (hPerm.mem_iff.mpr hDep)) hUnreadable
    | ok roots' =>
      obtain ⟨hTwin, hNames⟩ := rootRequirements_twin hPerm hRoots hRoots'
      have hGraph := resolveGraph_parallel hReordered hTwin hNames
      dsimp only
      generalize resolveGraph registry (registry.packages.length + 1) roots = result,
        resolveGraph registry' (registry'.packages.length + 1) roots' = result' at hGraph ⊢
      cases hGraph with
      | error hSame => exact .error hSame
      | ok hTwin => exact .ok (congrArg buildLockfile hTwin.resolved.symm)

/-- `lib-core` is required twice, and the registry lists its versions downwards. -/
def reversedRegistry : RegistryClient where
  listVersions n := (httpRegistry.listVersions n).map List.reverse
  getMetadata := httpRegistry.getMetadata
  packages := httpRegistry.packages
  listVersions_of_notMem n hn := by rw [httpRegistry.listVersions_of_notMem n hn]; rfl

theorem resolve_permuted_reversed : Alike SameRaise (· = ·)
    (resolve httpRegistry
      [entryOf "lib-core" "^1.0.0", entryOf "lib-http" "1.0.0", entryOf "lib-core" "<1.1.0"])
    (resolve reversedRegistry
      [entryOf "lib-core" "<1.1.0", entryOf "lib-core" "^1.0.0", entryOf "lib-http" "1.0.0"]) := by
  refine resolve_permuted httpRegistry reversedRegistry ⟨?_, fun _ _ => rfl⟩ _ _ ?_ ?_
  · intro n
    show Alike _ _ (httpRegistry.listVersions n) ((httpRegistry.listVersions n).map List.reverse)
    cases httpRegistry.listVersions n with
    | error e => exact .error rfl
    | ok available => exact .ok (List.reverse_perm available).symm
  · simp only [PipelineDeps, List.mem_cons, List.not_mem_nil, or_false]
    rintro dep (rfl | rfl | rfl) <;> exact ⟨_, _, rfl, rfl⟩
  · show ([entryOf "lib-core" "^1.0.0", entryOf "lib-http" "1.0.0"] ++
      [entryOf "lib-core" "<1.1.0"]).Perm ([entryOf "lib-core" "<1.1.0"] ++
        [entryOf "lib-core" "^1.0.0", entryOf "lib-http" "1.0.0"])
    exact List.perm_append_comm

end Forge.Registry
