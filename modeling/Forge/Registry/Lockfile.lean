import Mathlib.Order.WithBot
import Forge.Registry.ResolverInvariant
import Forge.Theory.DependencySolution

/-! # Lockfiles as solutions of a dependency problem

The registry and the pipeline's dependencies pose a `DependencyProblem`; the resolved packages of a
search that returns are a solution of it, and every locked version is the greatest choice.
-/
namespace Forge.Registry
open Forge.Python Forge.Theory Relation
set_option autoImplicit false

def Satisfies (version constraint : String) : Prop :=
  ∃ parsed cs, SemVer.parse version = .ok parsed ∧ ConstraintSet.fromString constraint = .ok cs ∧
    cs.satisfies parsed = true

def Listed (registry : RegistryClient) (n v : String) : Prop :=
  ∃ available, registry.listVersions n = .ok available ∧ v ∈ available

def problemOf (registry : RegistryClient) (rootDeps : List DepEntry) :
    DependencyProblem String String String where
  root n c := ∃ dep ∈ rootDeps, DepEntry.Names dep n c
  requires := Lists registry
  available := Listed registry
  holds c v := Satisfies v c

/-- Versions that do not parse are below all others. -/
def sortKey (version : String) : WithBot VersionKey :=
  match versionKey version with
  | .ok k => k
  | .error _ => ⊥

theorem sortKey_of_ok {version : String} {k : VersionKey} (h : versionKey version = .ok k) :
    sortKey version = k := by
  rw [sortKey, h]

/-! ## The requirements of the pipeline -/

structure RootsOf (rootDeps : List DepEntry) (roots : Dict String (List Requirement)) : Prop where
  sound : ∀ n, ∀ r ∈ roots.getD n [], (∃ dep ∈ rootDeps, DepEntry.Names dep n r.constraint) ∧
    ConstraintSet.fromString r.constraint = .ok r.constraintSet
  complete : ∀ dep ∈ rootDeps, ∃ n c, DepEntry.Names dep n c ∧ ∃ r ∈ roots.getD n [], r.constraint = c
  keys : ∀ n, n ∈ roots.keys ↔ roots.getD n [] ≠ []

theorem addRequirement_getD (requirements : Dict String (List Requirement)) (req : Requirement)
    (n : String) : (addRequirement requirements req).getD n [] =
      if n = req.name then requirements.getD n [] ++ [req] else requirements.getD n [] := by
  rw [addRequirement, Dict.getD_set]
  split
  · rename_i h
    rw [h]
  · rfl

theorem RootsOf.empty : RootsOf [] .empty where
  sound _ _ h := (List.not_mem_nil h).elim
  complete _ h := (List.not_mem_nil h).elim
  keys n := by simp [Dict.getD]

theorem RootsOf.add {deps : List DepEntry} {roots : Dict String (List Requirement)}
    (h : RootsOf deps roots) {dep : DepEntry} {via : String} {req : Requirement}
    (hReq : requirementOf dep via = .ok req) : RootsOf (deps ++ [dep]) (addRequirement roots req) where
  sound n r hr := by
    obtain ⟨hNames, hSet⟩ := requirementOf_ok hReq
    rw [addRequirement_getD] at hr
    have hOld : r ∈ roots.getD n [] → (∃ d ∈ deps ++ [dep], DepEntry.Names d n r.constraint) ∧
        ConstraintSet.fromString r.constraint = .ok r.constraintSet := by
      intro hr
      obtain ⟨⟨d, hd, hn⟩, hs⟩ := h.sound n r hr
      exact ⟨⟨d, List.mem_append_left _ hd, hn⟩, hs⟩
    split at hr
    · rename_i hn
      rcases List.mem_append.mp hr with hr | hr
      · exact hOld hr
      · cases List.mem_singleton.mp hr
        exact ⟨⟨dep, List.mem_append_right _ List.mem_cons_self, hn ▸ hNames⟩, hSet⟩
    · exact hOld hr
  complete d hd := by
    rcases List.mem_append.mp hd with hd | hd
    · obtain ⟨n, c, hNames, r, hr, hrc⟩ := h.complete d hd
      refine ⟨n, c, hNames, r, ?_, hrc⟩
      rw [addRequirement_getD]
      split
      · exact List.mem_append_left _ hr
      · exact hr
    · cases List.mem_singleton.mp hd
      refine ⟨req.name, req.constraint, (requirementOf_ok hReq).1, req, ?_, rfl⟩
      rw [addRequirement_getD, if_pos rfl]
      exact List.mem_append_right _ List.mem_cons_self
  keys n := by
    rw [addRequirement_getD, addRequirement, Dict.mem_keys_set, h.keys n]
    split
    · rename_i hn
      simp [hn]
    · rename_i hn
      simp [hn]

theorem addRootDeps_ok {deps rest : List DepEntry} {acc roots : Dict String (List Requirement)}
    (hAcc : RootsOf deps acc) (h : addRootDeps rest acc = .ok roots) : RootsOf (deps ++ rest) roots := by
  induction rest generalizing deps acc with
  | nil =>
    cases h
    rw [List.append_nil]
    exact hAcc
  | cons dep rest ih =>
    rw [addRootDeps] at h
    split at h
    · cases h
    · rename_i req hReq
      rw [← List.singleton_append, ← List.append_assoc]
      exact ih (hAcc.add hReq) h

theorem rootRequirements_ok {rootDeps : List DepEntry} {roots : Dict String (List Requirement)}
    (h : rootRequirements rootDeps = .ok roots) : RootsOf rootDeps roots := by
  unfold rootRequirements at h
  split at h
  · cases h
  · rename_i deps hSort
    have hPerm := sortDeps_ok hSort
    have hRoots := addRootDeps_ok .empty h
    rw [List.nil_append] at hRoots
    refine ⟨?_, fun dep hd => hRoots.complete dep (hPerm.mem_iff.mpr hd), hRoots.keys⟩
    intro n r hr
    obtain ⟨⟨dep, hd, hn⟩, hs⟩ := hRoots.sound n r hr
    exact ⟨⟨dep, hPerm.mem_iff.mp hd, hn⟩, hs⟩

theorem Inv.init {registry : RegistryClient} {rootDeps : List DepEntry}
    {roots : Dict String (List Requirement)} (h : RootsOf rootDeps roots) :
    Inv registry roots (.init roots) where
  stackNodup := List.nodup_nil
  visiting_iff _ := Iff.rfl
  selectedNodup := List.nodup_nil
  selected_iff _ := by simp [ResolverState.init]
  chain := .nil
  reachable _ hn := (List.not_mem_nil hn).elim
  wellFormed n r hr := (h.sound n r hr).2
  provenance _ _ hr := .inl hr
  rooted _ := List.Subset.refl _
  best _ _ hv := (List.not_mem_nil hv).elim
  resolvedMeta n pkg hn := by cases hn
  closed n pkg hn := by cases hn

/-! ## Satisfied requirements

Between calls every resolved version satisfies all requirements on its name. The one exception is
the name whose latest requirement has just been recorded, and the call that follows looks at it.
-/

def SatisfiedAt (st : ResolverState) (n : String) : Prop :=
  ∀ pkg, st.resolved.get? n = some pkg → isCandidate (st.reqs n) pkg.version = true

def Pending : Call → String → Prop
  | .name n, m => m = n
  | _, _ => False

theorem Inv.candidate_of_recheck {registry : RegistryClient} {roots : Dict String (List Requirement)}
    {st st' : ResolverState} (hInv : Inv registry roots st) {name : String} {pkg : ResolvedPackage}
    (hResolved : st.resolved.get? name = some pkg) (hRecheck : recheck registry name pkg st = .ok st') :
    isCandidate (st.reqs name) pkg.version = true := by
  rcases (recheck_ok hRecheck).2 with hEmpty | ⟨parsed, hParsed, hAll⟩
  · obtain ⟨reqs, hSub, hBest⟩ := hInv.best name _ (hInv.resolvedMeta name pkg hResolved).2.1
    rw [hEmpty] at hSub ⊢
    exact isCandidate_subset (List.nil_subset reqs) hBest.candidate
  · exact isCandidate_iff.mpr ⟨parsed, hParsed, hAll⟩

theorem SatisfiedAt.add {st : ResolverState} {m : String} (h : SatisfiedAt st m) {req : Requirement}
    (hm : m ≠ req.name) : SatisfiedAt (st.add req) m := by
  intro old hOld
  rw [add_reqs, if_neg hm]
  exact h old hOld

theorem Opens.satisfied {registry : RegistryClient} {st : ResolverState} {name version : String}
    {pkg : PackageMeta} {deps : List DepEntry} (hOpens : Opens registry st name version pkg deps)
    (h : ∀ m, ¬ Pending (.name name) m → SatisfiedAt st m) (m : String) :
    SatisfiedAt (st.opened name version) m := by
  intro old hOld
  by_cases hm : m = name
  · subst hm
    cases hOpens.unresolved.symm.trans hOld
  · exact h m hm old hOld

theorem Runs.satisfied {registry : RegistryClient} {roots : Dict String (List Requirement)}
    {c : Call} {st st' : ResolverState} (hRun : Runs registry c st st') (hInv : Inv registry roots st)
    (hCall : CallOk registry roots c st) (h : ∀ m, ¬ Pending c m → SatisfiedAt st m) :
    ∀ m, SatisfiedAt st' m := by
  induction hRun with
  | @recheck st name pkg hVisiting hResolved hRecheck =>
    intro m
    by_cases hm : m = name
    · subst hm
      intro old hOld
      cases hResolved.symm.trans hOld
      exact hInv.candidate_of_recheck hResolved hRecheck
    · exact h m hm
  | @visit st st₁ name version pkg deps hOpens hDeps ih =>
    have hInner := ih (hInv.opened hOpens hCall) (.opened hOpens) fun m _ => hOpens.satisfied h m
    intro m old hOld
    rw [closed_resolved, Dict.get?_set] at hOld
    split at hOld
    · rename_i hm
      cases hOld
      cases hm
      rw [closed_reqs, hDeps.extends.reqs_visiting name List.mem_cons_self]
      exact (selectVersion_ok hOpens.version_eq).candidate
    · exact hInner m old hOld
  | nil => exact fun m => h m id
  | @cons st st₁ st₂ name version dep rest req hReq hName hRest ihName ihRest =>
    obtain ⟨hAdd, hCallName⟩ := hInv.addDep hCall hReq
    have hNamed : ∀ m, SatisfiedAt st₁ m :=
      ihName hAdd hCallName fun m hm => SatisfiedAt.add (h m id) hm
    exact ihRest (hName.inv hAdd hCallName) (hCall.extends (.addThen hName hName.extends))
      fun m _ => hNamed m
  | rootsNil => exact fun m => h m id
  | rootsSkip _ _ ih => exact ih hInv (hCall.rootRest (.refl _)) fun m _ => h m id
  | rootsCons _ hName _ ihName ihRest =>
    have hNamed := ihName hInv hCall.root fun m _ => h m id
    exact ihRest (hName.inv hInv hCall.root) (hCall.rootRest hName.extends) fun m _ => hNamed m

end Forge.Registry
