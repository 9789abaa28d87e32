import Forge.Registry.ResolutionErrors
import Forge.Theory.Transition

/-! # The walk along first choices

Where a depth-first search over a registry gets to, as a flat sequence of places: the constraints met
so far, the version taken at the first meeting of each package, and the links still ahead. The walk
has no calls, no state of a resolver and no outcome. Each place has at most one next place; a run of the
resolver moves along the walk, and the walk stops where the resolver raises.
-/
namespace Forge.Registry
open Forge.Python Forge.Theory Relation
set_option autoImplicit false

/-- What is ahead, with the packages on the path to it: a package to be met, or a dependency entry to
be read. -/
inductive Link
  | package (path : List String) (name : String)
  | entry (path : List String) (via : String) (dep : DepEntry)

structure Walk where
  met : String → List Requirement
  taken : List (String × String)
  ahead : List Link

namespace Walk

/-- The pipeline's constraints are met, and its packages are ahead in alphabetical order. -/
def start (roots : Dict String (List Requirement)) : Walk :=
  ⟨fun name => roots.getD name [], [], (sortNames roots.keys).map (.package [])⟩

inductive Step (registry : RegistryClient) : Walk → Walk → Prop
  | read {met : String → List Requirement} {taken : List (String × String)} {ahead : List Link}
      {path : List String} {via : String} {dep : DepEntry} {req : Requirement}
      (hReq : requirementOf dep via = .ok req) :
      Step registry ⟨met, taken, .entry path via dep :: ahead⟩
        ⟨fun name => if name = req.name then met name ++ [req] else met name, taken,
          .package path req.name :: ahead⟩
  | take {met : String → List Requirement} {taken : List (String × String)} {ahead : List Link}
      {path : List String} {name version : String} {pkg : PackageMeta} {deps : List DepEntry}
      (hFirst : name ∉ taken.map Prod.fst) (hMet : met name ≠ [])
      (hVersion : selectVersion registry name (met name) = .ok version)
      (hMeta : registry.getMetadata name version = .ok pkg) (hDeps : sortDeps pkg.deps = .ok deps) :
      Step registry ⟨met, taken, .package path name :: ahead⟩
        ⟨met, taken ++ [(name, version)],
          deps.map (.entry (path ++ [name]) (viaOf name version)) ++ ahead⟩
  | pass {met : String → List Requirement} {taken : List (String × String)} {ahead : List Link}
      {path : List String} {name version : String} (hTaken : (name, version) ∈ taken)
      (hPath : name ∉ path) (hHolds : isCandidate (met name) version = true) :
      Step registry ⟨met, taken, .package path name :: ahead⟩ ⟨met, taken, ahead⟩

def Reaches (registry : RegistryClient) : Walk → Walk → Prop := ReflTransGen (Step registry)

def Stops (registry : RegistryClient) (p : Walk) : Prop := ∀ q, ¬ Step registry p q

variable {registry : RegistryClient}

/-- The version taken at the first meeting fails a constraint met since. -/
theorem stops_of_fails {met : String → List Requirement} {taken : List (String × String)}
    {ahead : List Link} {path : List String} {name version : String}
    (hNodup : (taken.map Prod.fst).Nodup) (hTaken : (name, version) ∈ taken)
    (hFails : isCandidate (met name) version = false) :
    Stops registry ⟨met, taken, .package path name :: ahead⟩ := by
  intro q h
  cases h with
  | take hFirst => exact hFirst (List.mem_map_of_mem hTaken)
  | pass hTaken' _ hHolds =>
    cases List.inj_on_of_nodup_map hNodup hTaken hTaken' rfl
    rw [hFails] at hHolds
    cases hHolds

end Walk

/-! ## The resolver moves along the walk -/

/-- What a call has ahead of it when the packages of `path` are open. -/
def Call.links (path : List String) : Call → List Link
  | .name n => [.package path n]
  | .deps n version rest => rest.map (.entry path (viaOf n version))
  | .roots names => names.map (.package path)

def ResolverState.walk (st : ResolverState) (ahead : List Link) : Walk := ⟨st.reqs, st.selected, ahead⟩

variable {registry : RegistryClient} {roots : Dict String (List Requirement)}
  {st st' : ResolverState} {c c' : Call}

theorem add_walk (st : ResolverState) (req : Requirement) (ahead : List Link) :
    (st.add req).walk ahead =
      ⟨fun name => if name = req.name then st.reqs name ++ [req] else st.reqs name, st.selected,
        ahead⟩ := by
  have hReqs : (st.add req).reqs = fun name =>
      if name = req.name then st.reqs name ++ [req] else st.reqs name := funext (add_reqs st req)
  exact congrArg (fun met => (⟨met, st.selected, ahead⟩ : Walk)) hReqs

theorem Inv.pass (hInv : Inv registry roots st) {name : String} {pkg : ResolvedPackage}
    (hVisiting : name ∉ st.visiting) (hResolved : st.resolved.get? name = some pkg)
    (hHolds : isCandidate (st.reqs name) pkg.version = true) (ahead : List Link) :
    Walk.Step registry (st.walk (.package st.pathStack name :: ahead)) (st.walk ahead) :=
  .pass (hInv.resolvedMeta name pkg hResolved).2.1
    (fun hPath => hVisiting ((hInv.visiting_iff name).mpr hPath)) hHolds

theorem Inv.take (hInv : Inv registry roots st) {name version : String} {pkg : PackageMeta}
    {deps : List DepEntry} (hOpens : Opens registry st name version pkg deps) (ahead : List Link) :
    Walk.Step registry (st.walk (.package st.pathStack name :: ahead))
      ((st.opened name version).walk
        ((Call.deps name version deps).links (st.opened name version).pathStack ++ ahead)) := by
  refine .take ?_ hOpens.required hOpens.version_eq hOpens.meta_eq hOpens.deps_eq
  rw [hInv.selected_iff, ← hInv.visiting_iff]
  exact not_or.mpr ⟨hOpens.notVisiting, Dict.get?_eq_none_iff.mp hOpens.unresolved⟩

theorem walk_read {name version : String} {dep : DepEntry} {req : Requirement}
    (hReq : requirementOf dep (viaOf name version) = .ok req) (path : List String) (ahead : List Link) :
    Walk.Step registry (st.walk (.entry path (viaOf name version) dep :: ahead))
      ((st.add req).walk (.package path req.name :: ahead)) := by
  rw [add_walk]
  exact .read hReq

/-- The names between calls satisfy what is recorded, so a root that was resolved is passed. -/
theorem Inv.pass_root (hInv : Inv registry roots st) {name : String} {rest : List String}
    (hCall : CallOk registry roots (.roots (name :: rest)) st) (hResolved : name ∈ st.resolved.keys)
    (hSat : ∀ m, SatisfiedAt st m) (ahead : List Link) :
    Walk.Step registry (st.walk (.package st.pathStack name :: ahead)) (st.walk ahead) := by
  obtain ⟨pkg, hPkg⟩ : ∃ pkg, st.resolved.get? name = some pkg := by
    by_contra hNone
    exact Dict.get?_eq_none_iff.mp (Option.eq_none_iff_forall_ne_some.mpr fun pkg h => hNone ⟨pkg, h⟩)
      hResolved
  refine hInv.pass ?_ hPkg (hSat name pkg hPkg) ahead
  rw [hInv.visiting_iff, hCall.1]
  exact List.not_mem_nil

theorem Runs.walks (hRun : Runs registry c st st') (hInv : Inv registry roots st)
    (hCall : CallOk registry roots c st) (hSat : ∀ m, ¬ Pending c m → SatisfiedAt st m)
    (ahead : List Link) :
    Walk.Reaches registry (st.walk (c.links st.pathStack ++ ahead)) (st'.walk ahead) := by
  induction hRun generalizing ahead with
  | recheck hVisiting hResolved hRecheck =>
    exact .single (hInv.pass hVisiting hResolved (hInv.candidate_of_recheck hResolved hRecheck) ahead)
  | visit hOpens hDeps ih =>
    have hInner := ih (hInv.opened hOpens hCall) (.opened hOpens) (fun m _ => hOpens.satisfied hSat m) ahead
    exact .head (hInv.take hOpens ahead) hInner
  | nil => exact .refl
  | @cons st st₁ st₂ name version dep rest req hReq hName hRest ihName ihRest =>
    obtain ⟨hAdd, hCallName⟩ := hInv.addDep hCall hReq
    have hExtends : Extends st st₁ := .addThen hName hName.extends
    have hPending : ∀ m, ¬ Pending (.name req.name) m → SatisfiedAt (st.add req) m :=
      fun m hm => SatisfiedAt.add (hSat m id) hm
    have hNamed := ihName hAdd hCallName hPending ((Call.deps name version rest).links st.pathStack ++ ahead)
    have hRested := ihRest (hName.inv hAdd hCallName) (hCall.extends hExtends)
      (fun m _ => hName.satisfied hAdd hCallName hPending m) ahead
    rw [hExtends.pathStack_eq] at hRested
    exact (ReflTransGen.head (walk_read hReq _ _) hNamed).trans hRested
  | rootsNil => exact .refl
  | rootsSkip hResolved hRest ih =>
    have hRested := ih hInv (hCall.rootRest (.refl _)) (fun m _ => hSat m id) ahead
    exact .head (hInv.pass_root hCall hResolved (fun m => hSat m id) _) hRested
  | @rootsCons st st₁ st₂ name rest hUnresolved hName hRest ihName ihRest =>
    have hNamed := ihName hInv hCall.root (fun m _ => hSat m id)
      ((Call.roots rest).links st.pathStack ++ ahead)
    have hRested := ihRest (hName.inv hInv hCall.root) (hCall.rootRest hName.extends)
      (fun m _ => hName.satisfied hInv hCall.root (fun m _ => hSat m id) m) ahead
    rw [hName.extends.pathStack_eq] at hRested
    exact hNamed.trans hRested

theorem Enters.walks (hEnters : Enters registry c st c' st') (hInv : Inv registry roots st)
    (hCall : CallOk registry roots c st) (hSat : ∀ m, ¬ Pending c m → SatisfiedAt st m)
    (ahead : List Link) : ∃ ahead', Walk.Reaches registry (st.walk (c.links st.pathStack ++ ahead))
      (st'.walk (c'.links st'.pathStack ++ ahead')) := by
  induction hEnters generalizing ahead with
  | here => exact ⟨ahead, .refl⟩
  | visit hOpens hDeps ih =>
    obtain ⟨ahead', hInner⟩ :=
      ih (hInv.opened hOpens hCall) (.opened hOpens) (fun m _ => hOpens.satisfied hSat m) ahead
    exact ⟨ahead', .head (hInv.take hOpens ahead) hInner⟩
  | @name st st₁ name version dep rest req c hReq hName ih =>
    obtain ⟨hAdd, hCallName⟩ := hInv.addDep hCall hReq
    obtain ⟨ahead', hNamed⟩ := ih hAdd hCallName (fun m hm => SatisfiedAt.add (hSat m id) hm)
      ((Call.deps name version rest).links st.pathStack ++ ahead)
    exact ⟨ahead', .head (walk_read hReq _ _) hNamed⟩
  | @rest st st₁ st₂ name version dep rest req c hReq hName hRest ih =>
    obtain ⟨hAdd, hCallName⟩ := hInv.addDep hCall hReq
    have hExtends : Extends st st₁ := .addThen hName hName.extends
    have hPending : ∀ m, ¬ Pending (.name req.name) m → SatisfiedAt (st.add req) m :=
      fun m hm => SatisfiedAt.add (hSat m id) hm
    have hNamed := hName.walks hAdd hCallName hPending ((Call.deps name version rest).links st.pathStack ++ ahead)
    obtain ⟨ahead', hRested⟩ := ih (hName.inv hAdd hCallName) (hCall.extends hExtends)
      (fun m _ => hName.satisfied hAdd hCallName hPending m) ahead
    rw [hExtends.pathStack_eq] at hRested
    exact ⟨ahead', (ReflTransGen.head (walk_read hReq _ _) hNamed).trans hRested⟩
  | rootsSkip hResolved hRest ih =>
    obtain ⟨ahead', hRested⟩ := ih hInv (hCall.rootRest (.refl _)) (fun m _ => hSat m id) ahead
    exact ⟨ahead', .head (hInv.pass_root hCall hResolved (fun m => hSat m id) _) hRested⟩
  | @rootsName st st₁ name rest c hUnresolved hName ih =>
    exact ih hInv hCall.root (fun m _ => hSat m id) ((Call.roots rest).links st.pathStack ++ ahead)
  | @rootsRest st st₁ st₂ name rest c hUnresolved hName hRest ih =>
    have hNamed := hName.walks hInv hCall.root (fun m _ => hSat m id)
      ((Call.roots rest).links st.pathStack ++ ahead)
    obtain ⟨ahead', hRested⟩ := ih (hName.inv hInv hCall.root) (hCall.rootRest hName.extends)
      (fun m _ => hName.satisfied hInv hCall.root (fun m _ => hSat m id) m) ahead
    rw [hName.extends.pathStack_eq] at hRested
    exact ⟨ahead', hNamed.trans hRested⟩

/-! ## Where the resolver raises, the walk stops -/

theorem Inv.unresolved_untaken (hInv : Inv registry roots st) {name version : String}
    (hUnresolved : st.resolved.get? name = none) (hTaken : (name, version) ∈ st.selected) :
    name ∈ st.pathStack := by
  cases (hInv.selected_iff name).mp (List.mem_map_of_mem hTaken) with
  | inl hStack => exact hStack
  | inr hKeys => exact absurd hKeys (Dict.get?_eq_none_iff.mp hUnresolved)

theorem Inv.recheck_fails (hInv : Inv registry roots st) {name : String} {pkg : ResolvedPackage}
    {e : Exc} (hResolved : st.resolved.get? name = some pkg)
    (hRecheck : recheck registry name pkg st = .error (e, st')) :
    isCandidate (st.reqs name) pkg.version = false ∧
      ∃ available, registry.listVersions name = .ok available ∧
        e = .conflictError name (st.reqs name) available := by
  obtain ⟨-, hSelected, -⟩ := hInv.resolvedMeta name pkg hResolved
  obtain ⟨parsed, hParsed⟩ := hInv.parses hSelected
  obtain ⟨available, hList, -⟩ := hInv.listed hSelected
  unfold recheck at hRecheck
  rw [hParsed, hList] at hRecheck
  split at hRecheck
  · cases hRecheck
  · dsimp only at hRecheck
    split at hRecheck
    · cases hRecheck
    · rename_i hAll
      cases hRecheck
      refine ⟨?_, available, hList, raiseConflict_of_accepted available (hInv.wellFormed name)⟩
      rw [isCandidate, hParsed]
      exact Bool.eq_false_iff.mpr hAll

theorem Raises.stops {e : Exc} {s : ResolverState} (hRaises : Raises registry c st e s)
    (hInv : Inv registry roots st) (ahead : List Link) :
    Walk.Stops registry (st.walk (c.links st.pathStack ++ ahead)) := by
  cases hRaises with
  | @cycle _ name hVisiting =>
    have hStack := (hInv.visiting_iff name).mp hVisiting
    intro q h
    cases h with
    | take hFirst => exact hFirst ((hInv.selected_iff name).mpr (.inl hStack))
    | pass _ hPath => exact hPath hStack
  | @recheck _ name pkg _ hVisiting hResolved hRecheck =>
    exact Walk.stops_of_fails hInv.selectedNodup (hInv.resolvedMeta name pkg hResolved).2.1
      (hInv.recheck_fails hResolved hRecheck).1
  | unconstrained hUnresolved hReqs =>
    intro q h
    cases h with
    | take _ hMet => exact hMet hReqs
    | pass hTaken hPath => exact hPath (hInv.unresolved_untaken hUnresolved hTaken)
  | select hUnresolved hSelect =>
    intro q h
    cases h with
    | take _ _ hVersion => cases hSelect.symm.trans hVersion
    | pass hTaken hPath => exact hPath (hInv.unresolved_untaken hUnresolved hTaken)
  | metadata hUnresolved hSelect hMeta =>
    intro q h
    cases h with
    | take _ _ hVersion hMeta' =>
      cases hSelect.symm.trans hVersion
      cases hMeta.symm.trans hMeta'
    | pass hTaken hPath => exact hPath (hInv.unresolved_untaken hUnresolved hTaken)
  | sort hUnresolved hSelect hMeta hDeps =>
    intro q h
    cases h with
    | take _ _ hVersion hMeta' hDeps' =>
      cases hSelect.symm.trans hVersion
      cases hMeta.symm.trans hMeta'
      cases hDeps.symm.trans hDeps'
    | pass hTaken hPath => exact hPath (hInv.unresolved_untaken hUnresolved hTaken)
  | requirement hReq =>
    intro q h
    cases h with
    | read hReq' => cases hReq.symm.trans hReq'

end Forge.Registry
