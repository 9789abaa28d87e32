import Mathlib.Logic.Relation
import Forge.Registry.Resolver

/-! # What a run of the resolver can do

`Runs` lists the ways a call of `resolve_name`, of the loop over dependencies or of the loop over
the root names can return, and `Enters` the calls that control reaches on the way. The fuel of the function does not occur in
either; every outcome of the function other than running out of fuel is one of theirs.
-/
namespace Forge.Registry
open Forge.Python
set_option autoImplicit false

inductive Call
  | name (name : String)
  | deps (name version : String) (rest : List DepEntry)
  | roots (rest : List String)

def viaOf (name version : String) : String := name ++ "@" ++ version

/-- The state in which the loop over the dependencies of `name` starts. -/
def ResolverState.opened (st : ResolverState) (name version : String) : ResolverState :=
  (st.enter name).select name version

/-- The state after the loop over the dependencies of `pkg` has ended in `st`. -/
def ResolverState.closed (st : ResolverState) (pkg : ResolvedPackage) : ResolverState :=
  (st.resolve pkg).leave pkg.name

/-- A visit of `name` that finds a version, its metadata and its dependencies in order. -/
structure Opens (registry : RegistryClient) (st : ResolverState) (name version : String)
    (pkg : PackageMeta) (deps : List DepEntry) : Prop where
  notVisiting : name ∉ st.visiting
  unresolved : st.resolved.get? name = none
  required : st.reqs name ≠ []
  version_eq : selectVersion registry name (st.reqs name) = .ok version
  meta_eq : registry.getMetadata name version = .ok pkg
  deps_eq : sortDeps pkg.deps = .ok deps

inductive Runs (registry : RegistryClient) : Call → ResolverState → ResolverState → Prop
  | recheck {st : ResolverState} {name : String} {pkg : ResolvedPackage}
      (hVisiting : name ∉ st.visiting) (hResolved : st.resolved.get? name = some pkg)
      (hRecheck : recheck registry name pkg st = .ok st) : Runs registry (.name name) st st
  | visit {st st' : ResolverState} {name version : String} {pkg : PackageMeta}
      {deps : List DepEntry} (hOpens : Opens registry st name version pkg deps)
      (hDeps : Runs registry (.deps name version deps) (st.opened name version) st') :
      Runs registry (.name name) st (st'.closed ⟨name, version, pkg.sha256, pkg.deps⟩)
  | nil {st : ResolverState} {name version : String} : Runs registry (.deps name version []) st st
  | cons {st st' st'' : ResolverState} {name version : String} {dep : DepEntry}
      {rest : List DepEntry} {req : Requirement}
      (hReq : requirementOf dep (viaOf name version) = .ok req)
      (hName : Runs registry (.name req.name) (st.add req) st')
      (hRest : Runs registry (.deps name version rest) st' st'') :
      Runs registry (.deps name version (dep :: rest)) st st''
  | rootsNil {st : ResolverState} : Runs registry (.roots []) st st
  | rootsSkip {st st' : ResolverState} {name : String} {rest : List String}
      (hResolved : name ∈ st.resolved.keys) (hRest : Runs registry (.roots rest) st st') :
      Runs registry (.roots (name :: rest)) st st'
  | rootsCons {st st' st'' : ResolverState} {name : String} {rest : List String}
      (hUnresolved : name ∉ st.resolved.keys) (hName : Runs registry (.name name) st st')
      (hRest : Runs registry (.roots rest) st' st'') : Runs registry (.roots (name :: rest)) st st''

inductive Enters (registry : RegistryClient) :
    Call → ResolverState → Call → ResolverState → Prop
  | here {c : Call} {st : ResolverState} : Enters registry c st c st
  | visit {st st' : ResolverState} {name version : String} {pkg : PackageMeta}
      {deps : List DepEntry} {c : Call} (hOpens : Opens registry st name version pkg deps)
      (hDeps : Enters registry (.deps name version deps) (st.opened name version) c st') :
      Enters registry (.name name) st c st'
  | name {st st' : ResolverState} {name version : String} {dep : DepEntry}
      {rest : List DepEntry} {req : Requirement} {c : Call}
      (hReq : requirementOf dep (viaOf name version) = .ok req)
      (hName : Enters registry (.name req.name) (st.add req) c st') :
      Enters registry (.deps name version (dep :: rest)) st c st'
  | rest {st st' st'' : ResolverState} {name version : String} {dep : DepEntry}
      {rest : List DepEntry} {req : Requirement} {c : Call}
      (hReq : requirementOf dep (viaOf name version) = .ok req)
      (hName : Runs registry (.name req.name) (st.add req) st')
      (hRest : Enters registry (.deps name version rest) st' c st'') :
      Enters registry (.deps name version (dep :: rest)) st c st''
  | rootsSkip {st st' : ResolverState} {name : String} {rest : List String} {c : Call}
      (hResolved : name ∈ st.resolved.keys) (hRest : Enters registry (.roots rest) st c st') :
      Enters registry (.roots (name :: rest)) st c st'
  | rootsName {st st' : ResolverState} {name : String} {rest : List String} {c : Call}
      (hUnresolved : name ∉ st.resolved.keys) (hName : Enters registry (.name name) st c st') :
      Enters registry (.roots (name :: rest)) st c st'
  | rootsRest {st st' st'' : ResolverState} {name : String} {rest : List String} {c : Call}
      (hUnresolved : name ∉ st.resolved.keys) (hName : Runs registry (.name name) st st')
      (hRest : Enters registry (.roots rest) st' c st'') :
      Enters registry (.roots (name :: rest)) st c st''

/-- The exceptions that a call raises itself, with the state in which it raises them. -/
inductive Raises (registry : RegistryClient) : Call → ResolverState → Exc → ResolverState → Prop
  | cycle {st : ResolverState} {name : String} (hVisiting : name ∈ st.visiting) :
      Raises registry (.name name) st (.cycleError (st.pathStack.drop (st.pathStack.idxOf name))) st
  | recheck {st : ResolverState} {name : String} {pkg : ResolvedPackage} {e : Exc}
      (hVisiting : name ∉ st.visiting) (hResolved : st.resolved.get? name = some pkg)
      (hRecheck : recheck registry name pkg st = .error (e, st)) :
      Raises registry (.name name) st e st
  | unconstrained {st : ResolverState} {name : String}
      (hUnresolved : st.resolved.get? name = none) (hReqs : st.reqs name = []) :
      Raises registry (.name name) st
        (.packageNotFoundError ("package '" ++ name ++ "' is required but has no constraints"))
        (st.enter name)
  | select {st : ResolverState} {name : String} {e : Exc}
      (hUnresolved : st.resolved.get? name = none)
      (hSelect : selectVersion registry name (st.reqs name) = .error e) :
      Raises registry (.name name) st e (st.enter name)
  | metadata {st : ResolverState} {name version : String} {e : RegistryError}
      (hUnresolved : st.resolved.get? name = none)
      (hSelect : selectVersion registry name (st.reqs name) = .ok version)
      (hMeta : registry.getMetadata name version = .error e) :
      Raises registry (.name name) st e.toExc (st.opened name version)
  | sort {st : ResolverState} {name version : String} {pkg : PackageMeta} {e : Exc}
      (hUnresolved : st.resolved.get? name = none)
      (hSelect : selectVersion registry name (st.reqs name) = .ok version)
      (hMeta : registry.getMetadata name version = .ok pkg) (hDeps : sortDeps pkg.deps = .error e) :
      Raises registry (.name name) st e (st.opened name version)
  | requirement {st : ResolverState} {name version : String} {dep : DepEntry}
      {rest : List DepEntry} {e : Exc} (hReq : requirementOf dep (viaOf name version) = .error e) :
      Raises registry (.deps name version (dep :: rest)) st e st

/-- What the `finally` clauses leave alone between the raise and the end of the run. -/
structure SameRecords (st st' : ResolverState) : Prop where
  requirements_eq : st'.requirements = st.requirements
  resolved_eq : st'.resolved = st.resolved
  selected_eq : st'.selected = st.selected

theorem SameRecords.refl (st : ResolverState) : SameRecords st st := ⟨rfl, rfl, rfl⟩

theorem SameRecords.leave {st st' : ResolverState} (h : SameRecords st st') (name : String) :
    SameRecords st (st'.leave name) :=
  ⟨h.requirements_eq, h.resolved_eq, h.selected_eq⟩

/-- Control reaches a call that raises `e`, and the records are those of the moment of the raise. -/
def Fails (registry : RegistryClient) (c : Call) (st : ResolverState) (e : Exc)
    (s : ResolverState) : Prop :=
  ∃ c' st' s₀, Enters registry c st c' st' ∧ Raises registry c' st' e s₀ ∧ SameRecords s₀ s

theorem recheck_ok {registry : RegistryClient} {name : String} {pkg : ResolvedPackage}
    {st st' : ResolverState} (h : recheck registry name pkg st = .ok st') :
    st' = st ∧ (st.reqs name = [] ∨
      ∃ parsed, SemVer.parse pkg.version = .ok parsed ∧ satisfiesAll (st.reqs name) parsed = true) := by
  unfold recheck at h
  split at h
  · rename_i hEmpty
    cases h
    exact ⟨rfl, .inl hEmpty⟩
  · split at h
    · cases h
    · rename_i parsed hParsed
      split at h
      · rename_i hAll
        cases h
        exact ⟨rfl, .inr ⟨parsed, hParsed, hAll⟩⟩
      · split at h <;> cases h

theorem recheck_error {registry : RegistryClient} {name : String} {pkg : ResolvedPackage}
    {st st' : ResolverState} {e : Exc} (h : recheck registry name pkg st = .error (e, st')) :
    st' = st := by
  unfold recheck at h
  split at h
  · cases h
  · split at h
    · cases h; rfl
    · split at h
      · cases h
      · split at h <;> cases h <;> rfl

/-- One call of the body of the `try` block, in terms of the loop it runs. -/
theorem visit_ok {registry : RegistryClient}
    {rec : String → ResolverState → Except Raised ResolverState} {name : String}
    {st st' : ResolverState} (hVisiting : name ∉ st.visiting) (hNone : st.resolved.get? name = none)
    (h : visit registry rec name (st.enter name) = .ok st') :
    ∃ version pkg deps st₁, Opens registry st name version pkg deps ∧
      resolveDeps rec (viaOf name version) deps (st.opened name version) = .ok st₁ ∧
      st' = st₁.resolve ⟨name, version, pkg.sha256, pkg.deps⟩ := by
  unfold visit at h
  split at h
  · cases h
  · rename_i hReqs
    split at h
    · cases h
    · rename_i version hVersion
      simp only at h
      split at h
      · cases h
      · rename_i pkg hMeta
        split at h
        · cases h
        · rename_i deps hDeps
          split at h
          · cases h
          · rename_i st₁ hRun
            cases h
            exact ⟨version, pkg, deps, st₁, ⟨hVisiting, hNone, hReqs, hVersion, hMeta, hDeps⟩, hRun, rfl⟩

theorem visit_error {registry : RegistryClient}
    {rec : String → ResolverState → Except Raised ResolverState} {name : String}
    {st s : ResolverState} {e : Exc} (hVisiting : name ∉ st.visiting)
    (hNone : st.resolved.get? name = none) (h : visit registry rec name (st.enter name) = .error (e, s)) :
    Raises registry (.name name) st e s ∨
    ∃ version pkg deps, Opens registry st name version pkg deps ∧
      resolveDeps rec (viaOf name version) deps (st.opened name version) = .error (e, s) := by
  unfold visit at h
  split at h
  · rename_i hReqs
    cases h
    exact .inl (.unconstrained hNone hReqs)
  · rename_i hReqs
    split at h
    · rename_i hVersion
      cases h
      exact .inl (.select hNone hVersion)
    · rename_i version hVersion
      simp only at h
      split at h
      · rename_i hMeta
        cases h
        exact .inl (.metadata hNone hVersion hMeta)
      · rename_i pkg hMeta
        split at h
        · rename_i hDeps
          cases h
          exact .inl (.sort hNone hVersion hMeta hDeps)
        · rename_i deps hDeps
          split at h
          · rename_i hRun
            cases h
            exact .inr ⟨version, pkg, deps, ⟨hVisiting, hNone, hReqs, hVersion, hMeta, hDeps⟩, hRun⟩
          · cases h

theorem resolveDeps_runs {registry : RegistryClient}
    {rec : String → ResolverState → Except Raised ResolverState}
    (hRec : ∀ name st st', rec name st = .ok st' → Runs registry (.name name) st st')
    (name version : String) (deps : List DepEntry) (st st' : ResolverState)
    (h : resolveDeps rec (viaOf name version) deps st = .ok st') :
    Runs registry (.deps name version deps) st st' := by
  induction deps generalizing st with
  | nil =>
    cases h
    exact .nil
  | cons dep rest ih =>
    rw [resolveDeps] at h
    split at h
    · cases h
    · rename_i req hReq
      split at h
      · cases h
      · rename_i st₁ hName
        exact .cons hReq (hRec _ _ _ hName) (ih st₁ h)

theorem resolveName_runs {registry : RegistryClient} (fuel : Nat) (name : String)
    (st st' : ResolverState) (h : resolveName registry fuel name st = .ok st') :
    Runs registry (.name name) st st' := by
  induction fuel generalizing name st st' with
  | zero => cases h
  | succ fuel ih =>
    rw [resolveName] at h
    split at h
    · cases h
    · rename_i hVisiting
      split at h
      · rename_i pkg hResolved
        obtain ⟨rfl, -⟩ := recheck_ok h
        exact .recheck hVisiting hResolved h
      · rename_i hNone
        cases hVisit : visit registry (resolveName registry fuel) name (st.enter name) with
        | error raised =>
          rw [hVisit] at h
          cases h
        | ok st₂ =>
          rw [hVisit] at h
          cases h
          obtain ⟨version, pkg, deps, st₁, hOpens, hRun, rfl⟩ := visit_ok hVisiting hNone hVisit
          exact .visit hOpens (resolveDeps_runs ih name version deps _ st₁ hRun)

theorem resolveDeps_fails {registry : RegistryClient} {fuel : Nat}
    (hRec : ∀ name st e s, resolveName registry fuel name st = .error (e, s) →
      e = .outOfFuel ∨ Fails registry (.name name) st e s)
    (name version : String) (deps : List DepEntry) (st s : ResolverState) (e : Exc)
    (h : resolveDeps (resolveName registry fuel) (viaOf name version) deps st = .error (e, s)) :
    e = .outOfFuel ∨ Fails registry (.deps name version deps) st e s := by
  induction deps generalizing st with
  | nil => cases h
  | cons dep rest ih =>
    rw [resolveDeps] at h
    split at h
    · rename_i hReq
      cases h
      exact .inr ⟨_, _, _, .here, .requirement hReq, .refl _⟩
    · rename_i req hReq
      split at h
      · rename_i raised hName
        cases h
        rcases hRec _ _ _ _ hName with hFuel | ⟨c, st', s₀, hEnters, hRaises, hSame⟩
        · exact .inl hFuel
        · exact .inr ⟨c, st', s₀, .name hReq hEnters, hRaises, hSame⟩
      · rename_i st₁ hName
        rcases ih st₁ h with hFuel | ⟨c, st', s₀, hEnters, hRaises, hSame⟩
        · exact .inl hFuel
        · exact .inr ⟨c, st', s₀, .rest hReq (resolveName_runs _ _ _ _ hName) hEnters, hRaises, hSame⟩

theorem resolveName_fails {registry : RegistryClient} (fuel : Nat) (name : String)
    (st : ResolverState) (e : Exc) (s : ResolverState)
    (h : resolveName registry fuel name st = .error (e, s)) :
    e = .outOfFuel ∨ Fails registry (.name name) st e s := by
  induction fuel generalizing name st e s with
  | zero =>
    cases h
    exact .inl rfl
  | succ fuel ih =>
    rw [resolveName] at h
    split at h
    · rename_i hVisiting
      cases h
      exact .inr ⟨_, _, _, .here, .cycle hVisiting, .refl _⟩
    · rename_i hVisiting
      split at h
      · rename_i pkg hResolved
        cases recheck_error h
        exact .inr ⟨_, _, _, .here, .recheck hVisiting hResolved h, .refl _⟩
      · rename_i hNone
        cases hVisit : visit registry (resolveName registry fuel) name (st.enter name) with
        | ok st₂ =>
          rw [hVisit] at h
          cases h
        | error raised =>
          rw [hVisit] at h
          cases h
          rcases visit_error hVisiting hNone hVisit with hRaises | ⟨version, pkg, deps, hOpens, hRun⟩
          · exact .inr ⟨_, _, _, .here, hRaises, (SameRecords.refl _).leave name⟩
          · rcases resolveDeps_fails ih name version deps _ _ _ hRun with
              hFuel | ⟨c, st', s₀, hEnters, hRaises, hSame⟩
            · exact .inl hFuel
            · exact .inr ⟨c, st', s₀, .visit hOpens hEnters, hRaises, hSame.leave name⟩

theorem resolveRoots_runs {registry : RegistryClient} {fuel : Nat} (names : List String)
    (st st' : ResolverState) (h : resolveRoots registry fuel names st = .ok st') :
    Runs registry (.roots names) st st' := by
  induction names generalizing st with
  | nil =>
    cases h
    exact .rootsNil
  | cons name rest ih =>
    rw [resolveRoots] at h
    split at h
    · rename_i hResolved
      exact .rootsSkip hResolved (ih st h)
    · rename_i hUnresolved
      split at h
      · cases h
      · rename_i st₁ hName
        exact .rootsCons hUnresolved (resolveName_runs _ _ _ _ hName) (ih st₁ h)

theorem resolveRoots_fails {registry : RegistryClient} {fuel : Nat} (names : List String)
    (st s : ResolverState) (e : Exc) (h : resolveRoots registry fuel names st = .error (e, s)) :
    e = .outOfFuel ∨ Fails registry (.roots names) st e s := by
  induction names generalizing st with
  | nil => cases h
  | cons name rest ih =>
    rw [resolveRoots] at h
    split at h
    · rename_i hResolved
      rcases ih st h with hFuel | ⟨c, st', s₀, hEnters, hRaises, hSame⟩
      · exact .inl hFuel
      · exact .inr ⟨c, st', s₀, .rootsSkip hResolved hEnters, hRaises, hSame⟩
    · rename_i hUnresolved
      split at h
      · rename_i raised hName
        cases h
        rcases resolveName_fails _ _ _ _ _ hName with
          hFuel | ⟨c, st', s₀, hEnters, hRaises, hSame⟩
        · exact .inl hFuel
        · exact .inr ⟨c, st', s₀, .rootsName hUnresolved hEnters, hRaises, hSame⟩
      · rename_i st₁ hName
        rcases ih st₁ h with hFuel | ⟨c, st', s₀, hEnters, hRaises, hSame⟩
        · exact .inl hFuel
        · exact .inr ⟨c, st', s₀, .rootsRest hUnresolved (resolveName_runs _ _ _ _ hName) hEnters,
            hRaises, hSame⟩

end Forge.Registry
