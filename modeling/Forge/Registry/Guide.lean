import Forge.Registry.Selection
import Forge.Registry.ResolverCalls

/-! # Searches whose outcome is known beforehand

A guide is an acyclic choice of versions that contains the roots and is closed under their metadata, and
from which no selection can stray. A search with a guide raises nothing and follows it.
-/
namespace Forge.Registry
open Forge.Python Forge.Theory Relation
set_option autoImplicit false

/-- Requirements on `n` that a search may have recorded while it follows the choice. -/
structure Arises (registry : RegistryClient) (roots : Dict String (List Requirement))
    (chosen : String → String → Prop) (n : String) (reqs : List Requirement) : Prop where
  wellFormed : ∀ r ∈ reqs, ConstraintSet.fromString r.constraint = .ok r.constraintSet
  provenance : ∀ r ∈ reqs, r ∈ roots.getD n [] ∨ ∃ p v, chosen p v ∧ Lists registry p v n r.constraint
  rooted : roots.getD n [] ⊆ reqs

structure Guide (registry : RegistryClient) (roots : Dict String (List Requirement))
    (chosen : String → String → Prop) : Prop where
  covers : ∀ n ∈ roots.keys, ∃ v, chosen n v
  required : ∀ n v, chosen n v → roots.getD n [] ≠ []
  closed : ∀ p v q c, chosen p v → Lists registry p v q c → ∃ w, chosen q w
  acyclic : Acyclic fun p q => ∃ v c, chosen p v ∧ Lists registry p v q c
  selects : ∀ n v reqs, chosen n v → Arises registry roots chosen n reqs →
    selectVersion registry n reqs = .ok v
  readable : ∀ n v, chosen n v → ∃ m, registry.getMetadata n v = .ok m ∧ ∀ dep ∈ m.deps, Readable dep

/-- The search has strayed nowhere. -/
def Follows (chosen : String → String → Prop) (st : ResolverState) : Prop :=
  ∀ n v, (n, v) ∈ st.selected → chosen n v

variable {registry : RegistryClient} {roots : Dict String (List Requirement)}
  {chosen : String → String → Prop} {st st' : ResolverState} {c c' : Call}

theorem Guide.called (hGuide : Guide registry roots chosen) (hFollows : Follows chosen st) {n : String}
    (hCall : CallOk registry roots (.name n) st) : ∃ v, chosen n v := by
  cases hCall with
  | inl hRoot => exact hGuide.covers n hRoot.2
  | inr hEdge =>
    obtain ⟨p, -, v, c, hSelected, hLists⟩ := hEdge
    exact hGuide.closed p v n c (hFollows p v hSelected) hLists

theorem Follows.arises (hFollows : Follows chosen st) (hInv : Inv registry roots st) (n : String) :
    Arises registry roots chosen n (st.reqs n) := by
  refine ⟨hInv.wellFormed n, ?_, hInv.rooted n⟩
  intro r hr
  cases hInv.provenance n r hr with
  | inl hRoot => exact .inl hRoot
  | inr hDep =>
    obtain ⟨p, v, hSelected, hLists⟩ := hDep
    exact .inr ⟨p, v, hFollows p v hSelected, hLists⟩

theorem Guide.selected_eq (hGuide : Guide registry roots chosen) (hFollows : Follows chosen st)
    (hInv : Inv registry roots st) {n version : String} (hCall : CallOk registry roots (.name n) st)
    (hSelect : selectVersion registry n (st.reqs n) = .ok version) : chosen n version := by
  obtain ⟨v, hv⟩ := hGuide.called hFollows hCall
  cases (hGuide.selects n v _ hv (hFollows.arises hInv n)).symm.trans hSelect
  exact hv

theorem Guide.opened (hGuide : Guide registry roots chosen) (hFollows : Follows chosen st)
    (hInv : Inv registry roots st) {name version : String} {pkg : PackageMeta} {deps : List DepEntry}
    (hCall : CallOk registry roots (.name name) st)
    (hOpens : Opens registry st name version pkg deps) : Follows chosen (st.opened name version) := by
  intro n v hSelected
  rw [opened_selected] at hSelected
  cases List.mem_append.mp hSelected with
  | inl hOld => exact hFollows n v hOld
  | inr hNew =>
    cases List.mem_singleton.mp hNew
    exact hGuide.selected_eq hFollows hInv hCall hOpens.version_eq

theorem Guide.runs (hGuide : Guide registry roots chosen) (hRun : Runs registry c st st')
    (hInv : Inv registry roots st) (hCall : CallOk registry roots c st)
    (hFollows : Follows chosen st) : Follows chosen st' := by
  induction hRun with
  | recheck => exact hFollows
  | visit hOpens _ ih =>
    exact ih (hInv.opened hOpens hCall) (.opened hOpens) (hGuide.opened hFollows hInv hCall hOpens)
  | nil => exact hFollows
  | cons hReq hName _ ihName ihRest =>
    obtain ⟨hAdd, hCallName⟩ := hInv.addDep hCall hReq
    exact ihRest (hName.inv hAdd hCallName) (hCall.extends (.addThen hName hName.extends))
      (ihName hAdd hCallName hFollows)
  | rootsNil => exact hFollows
  | rootsSkip _ _ ih => exact ih hInv (hCall.rootRest (.refl _)) hFollows
  | rootsCons _ hName _ ihName ihRest =>
    exact ihRest (hName.inv hInv hCall.root) (hCall.rootRest hName.extends)
      (ihName hInv hCall.root hFollows)

theorem Guide.enters (hGuide : Guide registry roots chosen) (hEnters : Enters registry c st c' st')
    (hInv : Inv registry roots st) (hCall : CallOk registry roots c st)
    (hFollows : Follows chosen st) : Follows chosen st' := by
  induction hEnters with
  | here => exact hFollows
  | visit hOpens _ ih =>
    exact ih (hInv.opened hOpens hCall) (.opened hOpens) (hGuide.opened hFollows hInv hCall hOpens)
  | name hReq _ ih =>
    obtain ⟨hAdd, hCallName⟩ := hInv.addDep hCall hReq
    exact ih hAdd hCallName hFollows
  | rest hReq hName _ ih =>
    obtain ⟨hAdd, hCallName⟩ := hInv.addDep hCall hReq
    exact ih (hName.inv hAdd hCallName) (hCall.extends (.addThen hName hName.extends))
      (hGuide.runs hName hAdd hCallName hFollows)
  | rootsSkip _ _ ih => exact ih hInv (hCall.rootRest (.refl _)) hFollows
  | rootsName _ _ ih => exact ih hInv hCall.root hFollows
  | rootsRest _ hName _ ih =>
    exact ih (hName.inv hInv hCall.root) (hCall.rootRest hName.extends)
      (hGuide.runs hName hInv hCall.root hFollows)

/-! ## Nothing is raised -/

theorem Guide.notVisiting (hGuide : Guide registry roots chosen) (hFollows : Follows chosen st)
    (hInv : Inv registry roots st) {n : String} (hCall : CallOk registry roots (.name n) st) :
    n ∉ st.visiting := by
  rw [hInv.visiting_iff]
  intro hMem
  cases hCall with
  | inl hRoot =>
    rw [hRoot.1] at hMem
    cases hMem
  | inr hEdge =>
    obtain ⟨p, hLast, hEdge⟩ := hEdge
    have hCycle := IsCycle.of_chain hInv.stackNodup hInv.chain hMem hLast hEdge
    apply hCycle.not_acyclic
    intro a hReach
    apply hGuide.acyclic a
    refine hReach.lift id ?_
    rintro p q ⟨v, c, hSelected, hLists⟩
    exact ⟨v, c, hFollows p v hSelected, hLists⟩

theorem Guide.recheck_ok (hGuide : Guide registry roots chosen) (hFollows : Follows chosen st)
    (hInv : Inv registry roots st) {n : String} {pkg : ResolvedPackage}
    (hResolved : st.resolved.get? n = some pkg) : recheck registry n pkg st = .ok st := by
  have hChosen := hFollows n _ (hInv.resolvedMeta n pkg hResolved).2.1
  have hBest := selectVersion_ok (hGuide.selects n _ _ hChosen (hFollows.arises hInv n))
  obtain ⟨parsed, hParsed, hAll⟩ := isCandidate_iff.mp hBest.candidate
  unfold recheck
  split
  · rfl
  · simp only [hParsed, hAll, if_true]

theorem Guide.not_raises (hGuide : Guide registry roots chosen) (hFollows : Follows chosen st)
    (hInv : Inv registry roots st) (hCall : CallOk registry roots c st) {e : Exc} {s : ResolverState} :
    ¬ Raises registry c st e s := by
  have hSelects : ∀ n, CallOk registry roots (.name n) st → ∃ v m,
      selectVersion registry n (st.reqs n) = .ok v ∧ registry.getMetadata n v = .ok m ∧
        ∀ dep ∈ m.deps, Readable dep := by
    intro n hCall
    obtain ⟨v, hv⟩ := hGuide.called hFollows hCall
    obtain ⟨m, hMeta, hReadable⟩ := hGuide.readable n v hv
    exact ⟨v, m, hGuide.selects n v _ hv (hFollows.arises hInv n), hMeta, hReadable⟩
  intro hRaises
  cases hRaises with
  | cycle hVisiting => exact hGuide.notVisiting hFollows hInv hCall hVisiting
  | recheck hVisiting hResolved hRecheck => cases (hGuide.recheck_ok hFollows hInv hResolved).symm.trans hRecheck
  | unconstrained _ hReqs =>
    rename_i name _
    obtain ⟨v, hv⟩ := hGuide.called hFollows hCall
    have hRooted := hInv.rooted name
    rw [hReqs] at hRooted
    exact hGuide.required name v hv (List.subset_nil.mp hRooted)
  | select _ hSelect =>
    obtain ⟨v, m, hOk, -⟩ := hSelects _ hCall
    cases hOk.symm.trans hSelect
  | metadata _ hSelect hMeta =>
    obtain ⟨v, m, hOk, hOkMeta, -⟩ := hSelects _ hCall
    cases hOk.symm.trans hSelect
    cases hOkMeta.symm.trans hMeta
  | sort _ hSelect hMeta hDeps =>
    obtain ⟨v, m, hOk, hOkMeta, hReadable⟩ := hSelects _ hCall
    cases hOk.symm.trans hSelect
    cases hOkMeta.symm.trans hMeta
    obtain ⟨sorted, hSorted⟩ := sortDeps_of_readable hReadable
    cases hSorted.symm.trans hDeps
  | requirement hReq =>
    obtain ⟨-, hSelected, pkg, hMeta, hSubset⟩ := hCall
    obtain ⟨m, hOkMeta, hReadable⟩ := hGuide.readable _ _ (hFollows _ _ hSelected)
    cases hOkMeta.symm.trans hMeta
    obtain ⟨req, hOk⟩ := (readable_iff _ _).mp (hReadable _ (hSubset List.mem_cons_self))
    cases hOk.symm.trans hReq

theorem Guide.search {rootDeps : List DepEntry} (hRoots : rootRequirements rootDeps = .ok roots)
    (hGuide : Guide registry roots chosen) :
    ∃ st, search registry rootDeps = .ok st ∧ Follows chosen st := by
  have hInit : Inv registry roots (.init roots) := .init (rootRequirements_ok hRoots)
  have hCall : CallOk registry roots (.roots (sortNames roots.keys)) (.init roots) :=
    ⟨rfl, fun _ hn => mem_sortNames.mp hn⟩
  have hStart : Follows chosen (.init roots) := by
    intro n v hSelected
    cases hSelected
  cases hGraph : resolveGraph registry (registry.packages.length + 1) roots with
  | ok st =>
    refine ⟨st, by rw [Forge.Registry.search, hRoots]; exact hGraph, ?_⟩
    exact hGuide.runs (resolveRoots_runs _ _ _ hGraph) hInit hCall hStart
  | error raised =>
    obtain ⟨e, s⟩ := raised
    exfalso
    cases resolveRoots_fails _ _ _ _ hGraph with
    | inl hFuel =>
      subst hFuel
      exact resolveGraph_settled registry 0 roots s hGraph
    | inr hFails =>
      obtain ⟨c, st, s₀, hEnters, hRaises, -⟩ := hFails
      obtain ⟨hInv, hCallOk⟩ := hEnters.inv hInit hCall
      exact hGuide.not_raises (hGuide.enters hEnters hInit hCall hStart) hInv hCallOk hRaises

end Forge.Registry
