import Forge.Registry.ResolverTermination

/-! # The calls of `_select_version`

The names that a call passes to `_select_version`, in their order: a log beside the run that follows its
control flow. No name of the log was resolved or being visited when the call began, and a call that
returns leaves every one of them resolved, so no name is logged twice.
-/
namespace Forge.Registry
open Forge.Python
set_option autoImplicit false

def depsSelects (resolveName : String → ResolverState → Except Raised ResolverState)
    (selects : String → ResolverState → List String) (via : String) :
    List DepEntry → ResolverState → List String
  | [], _ => []
  | dep :: rest, st =>
    match requirementOf dep via with
    | .error _ => []
    | .ok req =>
      selects req.name (st.add req) ++
        match resolveName req.name (st.add req) with
        | .error _ => []
        | .ok st => depsSelects resolveName selects via rest st

def visitSelects (registry : RegistryClient)
    (resolveName : String → ResolverState → Except Raised ResolverState)
    (selects : String → ResolverState → List String) (name : String) (st : ResolverState) :
    List String :=
  if st.reqs name = [] then []
  else
    name ::
      match selectVersion registry name (st.reqs name) with
      | .error _ => []
      | .ok version =>
        match registry.getMetadata name version with
        | .error _ => []
        | .ok pkg =>
          match sortDeps pkg.deps with
          | .error _ => []
          | .ok deps =>
            depsSelects resolveName selects (name ++ "@" ++ version) deps (st.select name version)

def nameSelects (registry : RegistryClient) : Nat → String → ResolverState → List String
  | 0, _, _ => []
  | fuel + 1, name, st =>
    if name ∈ st.visiting then []
    else
      match st.resolved.get? name with
      | some _ => []
      | none => visitSelects registry (resolveName registry fuel) (nameSelects registry fuel) name
          (st.enter name)

def rootsSelects (registry : RegistryClient) (fuel : Nat) : List String → ResolverState → List String
  | [], _ => []
  | name :: rest, st =>
    if name ∈ st.resolved.keys then rootsSelects registry fuel rest st
    else
      nameSelects registry fuel name st ++
        match resolveName registry fuel name st with
        | .error _ => []
        | .ok st => rootsSelects registry fuel rest st

/-- Every name that `resolve` passes to `_select_version`, whether it returns or raises. -/
def selectCalls (registry : RegistryClient) (rootDeps : List DepEntry) : List String :=
  match rootRequirements rootDeps with
  | .error _ => []
  | .ok requirements =>
    rootsSelects registry (registry.packages.length + 1) (sortNames requirements.keys)
      (.init requirements)

variable {registry : RegistryClient}

/-! ## No name is selected twice -/

/-- What a log of a call satisfies, given the state before the call and its outcome. -/
structure Logs (st : ResolverState) (outcome : Except Raised ResolverState) (log : List String) :
    Prop where
  nodup : log.Nodup
  notVisiting : ∀ name ∈ log, name ∉ st.visiting
  unresolved : ∀ name ∈ log, name ∉ st.resolved.keys
  resolved : ∀ st', outcome = .ok st' → ∀ name ∈ log, name ∈ st'.resolved.keys
  recorded : ∀ st', outcome = .ok st' →
    st'.selected.map Prod.fst = st.selected.map Prod.fst ++ log

theorem Logs.nil_error (st : ResolverState) (raised : Raised) : Logs st (.error raised) [] :=
  ⟨List.nodup_nil, by simp, by simp, by simp, by simp⟩

theorem Logs.nil_ok (st : ResolverState) : Logs st (.ok st) [] :=
  ⟨List.nodup_nil, by simp, by simp, by simp, by simp⟩

theorem Logs.append {st st₁ : ResolverState} {outcome : Except Raised ResolverState}
    {log log' : List String} (h : Logs st (.ok st₁) log) (h' : Logs st₁ outcome log')
    (hExtends : Extends st st₁) (hKept : ∀ st', outcome = .ok st' → Extends st₁ st') :
    Logs st outcome (log ++ log') := by
  refine ⟨?_, ?_, ?_, ?_, ?_⟩
  · refine h.nodup.append h'.nodup fun name hFirst hSecond => ?_
    exact h'.unresolved name hSecond (h.resolved st₁ rfl name hFirst)
  · intro name hName
    cases List.mem_append.mp hName with
    | inl hFirst => exact h.notVisiting name hFirst
    | inr hSecond => exact hExtends.visiting_eq ▸ h'.notVisiting name hSecond
  · intro name hName
    cases List.mem_append.mp hName with
    | inl hFirst => exact h.unresolved name hFirst
    | inr hSecond => exact fun hMem => h'.unresolved name hSecond (hExtends.resolved_mem hMem)
  · intro st' hOutcome name hName
    cases List.mem_append.mp hName with
    | inl hFirst => exact (hKept st' hOutcome).resolved_mem (h.resolved st₁ rfl name hFirst)
    | inr hSecond => exact h'.resolved st' hOutcome name hSecond
  · intro st' hOutcome
    rw [h'.recorded st' hOutcome, h.recorded st₁ rfl, List.append_assoc]

theorem Logs.of_add {st : ResolverState} {req : Requirement} {outcome : Except Raised ResolverState}
    {log : List String} (h : Logs (st.add req) outcome log) : Logs st outcome log :=
  ⟨h.nodup, h.notVisiting, h.unresolved, h.resolved, h.recorded⟩

theorem depsSelects_logs {fuel : Nat}
    (hName : ∀ name st, Logs st (resolveName registry fuel name st) (nameSelects registry fuel name st))
    (name version : String) (deps : List DepEntry) (st : ResolverState) :
    Logs st (resolveDeps (resolveName registry fuel) (viaOf name version) deps st)
      (depsSelects (resolveName registry fuel) (nameSelects registry fuel) (viaOf name version)
        deps st) := by
  induction deps generalizing st with
  | nil => exact .nil_ok st
  | cons dep rest ih =>
    rw [resolveDeps, depsSelects]
    cases hReq : requirementOf dep (viaOf name version) with
    | error e => exact .nil_error _ _
    | ok req =>
      have hFirst := (hName req.name (st.add req)).of_add
      dsimp only
      cases hOutcome : resolveName registry fuel req.name (st.add req) with
      | error raised =>
        rw [hOutcome] at hFirst
        simpa using hFirst
      | ok st₁ =>
        have hRun := resolveName_runs _ _ _ _ hOutcome
        rw [hOutcome] at hFirst
        refine hFirst.append (ih st₁) (.addThen hRun hRun.extends) fun st' hRest => ?_
        exact (resolveDeps_runs (resolveName_runs fuel) name version rest st₁ st' hRest).extends

/-- The log of a package, from that of the loop over its dependencies. -/
theorem Logs.close {st : ResolverState} (pkg : ResolvedPackage) {version : String}
    {outcome : Except Raised ResolverState} {log : List String} (hVisiting : pkg.name ∉ st.visiting)
    (hNone : st.resolved.get? pkg.name = none) :
    Logs (st.opened pkg.name version) outcome log → Logs st
      (leaving pkg.name (match outcome with
        | .error raised => .error raised
        | .ok st => .ok (st.resolve pkg)))
      (pkg.name :: log) := by
  intro h
  have hFresh : ∀ other ∈ log, other ≠ pkg.name := by
    rintro other hOther rfl
    exact h.notVisiting _ hOther List.mem_cons_self
  refine ⟨List.nodup_cons.mpr ⟨fun hMem => hFresh _ hMem rfl, h.nodup⟩, ?_, ?_, ?_, ?_⟩
  · intro other hOther
    cases List.mem_cons.mp hOther with
    | inl hSame => exact hSame ▸ hVisiting
    | inr hDep => exact fun hMem => h.notVisiting other hDep (List.mem_cons_of_mem _ hMem)
  · intro other hOther
    cases List.mem_cons.mp hOther with
    | inl hSame => exact hSame ▸ Dict.get?_eq_none_iff.mp hNone
    | inr hDep => exact h.unresolved other hDep
  · intro st' hOk other hOther
    cases outcome with
    | error raised => cases hOk
    | ok st₁ =>
      cases hOk
      apply Dict.mem_keys_set.mpr
      cases List.mem_cons.mp hOther with
      | inl hSame => exact .inl hSame
      | inr hDep => exact .inr (h.resolved st₁ rfl other hDep)
  · intro st' hOk
    cases outcome with
    | error raised => cases hOk
    | ok st₁ =>
      cases hOk
      have hRecorded := h.recorded st₁ rfl
      rw [opened_selected, List.map_append, List.append_assoc] at hRecorded
      exact hRecorded

theorem visitSelects_logs {fuel : Nat}
    (hName : ∀ name st, Logs st (resolveName registry fuel name st) (nameSelects registry fuel name st))
    (name : String) (st : ResolverState) (hVisiting : name ∉ st.visiting)
    (hNone : st.resolved.get? name = none) :
    Logs st (leaving name (visit registry (resolveName registry fuel) name (st.enter name)))
      (visitSelects registry (resolveName registry fuel) (nameSelects registry fuel) name
        (st.enter name)) := by
  have hSingle : ∀ raised, Logs st (.error raised) [name] := fun raised =>
    ⟨List.nodup_singleton name, by simpa using hVisiting, by simpa using Dict.get?_eq_none_iff.mp hNone,
      by simp, by simp⟩
  unfold visit visitSelects
  split
  · exact .nil_error _ _
  · cases hSelect : selectVersion registry name ((st.enter name).reqs name) with
    | error e => exact hSingle _
    | ok version =>
      dsimp only
      cases hMeta : registry.getMetadata name version with
      | error e => exact hSingle _
      | ok pkg =>
        dsimp only
        cases hSort : sortDeps pkg.deps with
        | error e => exact hSingle _
        | ok deps =>
          dsimp only
          exact Logs.close ⟨name, version, pkg.sha256, pkg.deps⟩ hVisiting hNone
            (depsSelects_logs hName name version deps (st.opened name version))

theorem recheck_logs (name : String) (pkg : ResolvedPackage) (st : ResolverState) :
    Logs st (recheck registry name pkg st) [] := by
  cases hRecheck : recheck registry name pkg st with
  | error raised => exact .nil_error _ _
  | ok st' =>
    obtain ⟨rfl, -⟩ := recheck_ok hRecheck
    exact .nil_ok _

theorem nameSelects_logs (fuel : Nat) (name : String) (st : ResolverState) :
    Logs st (resolveName registry fuel name st) (nameSelects registry fuel name st) := by
  induction fuel generalizing name st with
  | zero => exact .nil_error _ _
  | succ fuel ih =>
    rw [resolveName, nameSelects]
    split
    · exact .nil_error _ _
    · rename_i hVisiting
      cases hResolved : st.resolved.get? name with
      | some pkg => exact recheck_logs name pkg st
      | none => exact visitSelects_logs ih name st hVisiting hResolved

theorem rootsSelects_logs (fuel : Nat) (names : List String) (st : ResolverState) :
    Logs st (resolveRoots registry fuel names st) (rootsSelects registry fuel names st) := by
  induction names generalizing st with
  | nil => exact .nil_ok st
  | cons name rest ih =>
    rw [resolveRoots, rootsSelects]
    split
    · exact ih st
    · have hFirst : Logs st (resolveName registry fuel name st) (nameSelects registry fuel name st) :=
        nameSelects_logs fuel name st
      cases hOutcome : resolveName registry fuel name st with
      | error raised =>
        rw [hOutcome] at hFirst
        simpa using hFirst
      | ok st₁ =>
        rw [hOutcome] at hFirst
        refine hFirst.append (ih st₁) (resolveName_runs _ _ _ _ hOutcome).extends fun st' hRest => ?_
        exact (resolveRoots_runs rest st₁ st' hRest).extends

theorem selectCalls_nodup (rootDeps : List DepEntry) : (selectCalls registry rootDeps).Nodup := by
  unfold selectCalls
  split
  · exact List.nodup_nil
  · exact (rootsSelects_logs _ _ _).nodup

/-! ## More fuel changes nothing -/

/-- The outcome is one of the source's: the recursion was not cut off. -/
def Settled {α : Type} (outcome : Except Raised α) : Prop := ∀ s, outcome ≠ .error (.outOfFuel, s)

theorem resolveDeps_congr {search search' : String → ResolverState → Except Raised ResolverState}
    (hSearch : ∀ name st, Settled (search name st) → search' name st = search name st) (via : String)
    (deps : List DepEntry) (st : ResolverState) (h : Settled (resolveDeps search via deps st)) :
    resolveDeps search' via deps st = resolveDeps search via deps st := by
  induction deps generalizing st with
  | nil => rfl
  | cons dep rest ih =>
    rw [resolveDeps] at h
    rw [resolveDeps, resolveDeps]
    cases hReq : requirementOf dep via with
    | error e => rfl
    | ok req =>
      simp only [hReq] at h
      dsimp only
      cases hOutcome : search req.name (st.add req) with
      | error raised =>
        simp only [hOutcome] at h
        rw [hSearch _ _ (hOutcome ▸ h), hOutcome]
      | ok st₁ =>
        simp only [hOutcome] at h
        rw [hSearch _ _ (hOutcome ▸ fun s hs => by cases hs), hOutcome]
        exact ih st₁ h

theorem visit_congr {search search' : String → ResolverState → Except Raised ResolverState}
    (hSearch : ∀ name st, Settled (search name st) → search' name st = search name st) (name : String)
    (st : ResolverState) (h : Settled (visit registry search name st)) :
    visit registry search' name st = visit registry search name st := by
  unfold visit at h ⊢
  split
  · rfl
  · rename_i hReqs
    rw [if_neg hReqs] at h
    cases hSelect : selectVersion registry name (st.reqs name) with
    | error e => rfl
    | ok version =>
      simp only [hSelect] at h
      dsimp only
      cases hMeta : registry.getMetadata name version with
      | error e => rfl
      | ok pkg =>
        simp only [hMeta] at h
        dsimp only
        cases hSort : sortDeps pkg.deps with
        | error e => rfl
        | ok deps =>
          simp only [hSort] at h
          dsimp only
          rw [resolveDeps_congr hSearch]
          intro s hCut
          rw [hCut] at h
          exact h s rfl

theorem resolveName_succ (fuel : Nat) (name : String) (st : ResolverState)
    (h : Settled (resolveName registry fuel name st)) :
    resolveName registry (fuel + 1) name st = resolveName registry fuel name st := by
  induction fuel generalizing name st with
  | zero => exact absurd rfl (h st)
  | succ fuel ih =>
    rw [resolveName] at h
    rw [resolveName, resolveName]
    split
    · rfl
    · rename_i hVisiting
      rw [if_neg hVisiting] at h
      cases hResolved : st.resolved.get? name with
      | some pkg => rfl
      | none =>
        simp only [hResolved] at h
        dsimp only
        rw [visit_congr ih]
        intro s hCut
        rw [hCut] at h
        exact h _ rfl

theorem resolveRoots_succ (fuel : Nat) (names : List String) (st : ResolverState)
    (h : Settled (resolveRoots registry fuel names st)) :
    resolveRoots registry (fuel + 1) names st = resolveRoots registry fuel names st := by
  induction names generalizing st with
  | nil => rfl
  | cons name rest ih =>
    rw [resolveRoots] at h
    rw [resolveRoots, resolveRoots]
    split
    · rename_i hResolved
      rw [if_pos hResolved] at h
      exact ih st h
    · rename_i hUnresolved
      rw [if_neg hUnresolved] at h
      have hName : Settled (resolveName registry fuel name st) := by
        intro s hCut
        rw [hCut] at h
        exact h s rfl
      rw [resolveName_succ fuel name st hName]
      cases hOutcome : resolveName registry fuel name st with
      | error raised => rfl
      | ok st₁ =>
        simp only [hOutcome] at h
        exact ih st₁ h

theorem resolveGraph_settled (registry : RegistryClient) (extra : Nat)
    (requirements : Dict String (List Requirement)) :
    Settled (resolveGraph registry (registry.packages.length + 1 + extra) requirements) :=
  fun s => resolveRoots_ne_outOfFuel _ _ s
    ⟨List.nodup_nil, List.nil_subset _, by simp [ResolverState.init]; omega⟩

theorem resolveGraph_fuel (registry : RegistryClient) (extra : Nat)
    (requirements : Dict String (List Requirement)) :
    resolveGraph registry (registry.packages.length + 1 + extra) requirements =
      resolveGraph registry (registry.packages.length + 1) requirements := by
  induction extra with
  | zero => rfl
  | succ extra ih =>
    rw [← ih]
    exact resolveRoots_succ _ _ _ (resolveGraph_settled registry extra requirements)

/-- The recursion of `resolve_name` ends on every registry: the search never meets the bound of the model,
and a larger bound gives the same outcome. On the way no name is passed twice to `_select_version`. -/
theorem resolve_terminates (registry : RegistryClient) (rootDeps : List DepEntry) :
    Settled (resolve registry rootDeps) ∧
      (∀ extra requirements,
        resolveGraph registry (registry.packages.length + 1 + extra) requirements =
          resolveGraph registry (registry.packages.length + 1) requirements) ∧
      (selectCalls registry rootDeps).Nodup :=
  ⟨resolve_ne_outOfFuel registry rootDeps, resolveGraph_fuel registry, selectCalls_nodup rootDeps⟩

/-- In a run that returns, the log is that of the selected versions. -/
theorem selectCalls_eq {rootDeps : List DepEntry} {st : ResolverState}
    (h : search registry rootDeps = .ok st) :
    selectCalls registry rootDeps = st.selected.map Prod.fst := by
  unfold search at h
  unfold selectCalls
  cases hRoots : rootRequirements rootDeps with
  | error raised => simp [hRoots] at h
  | ok requirements =>
    simp only [hRoots] at h
    exact ((rootsSelects_logs _ _ _).recorded st h).symm

/-- `a` and `b` need each other, and `b` is required twice. -/
def tangledRegistry : RegistryClient :=
  InMemoryRegistry.client (Dict.ofList
    [("a", Dict.ofList [published "a" "1.0.0" "sha-a" [entryOf "b" "^1.0.0"]]),
      ("b", Dict.ofList [published "b" "1.0.0" "sha-b" [entryOf "a" "^1.0.0"]])])

example : selectCalls tangledRegistry [entryOf "a" "^1.0.0", entryOf "b" "^1.0.0"] = ["a", "b"] := by
  rfl

end Forge.Registry
