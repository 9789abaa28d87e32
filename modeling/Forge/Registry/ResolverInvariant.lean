import Mathlib.Data.List.Chain
import Forge.Registry.ResolverFrame

/-! # The invariant of the resolver's search

Requirements, selected versions, resolved packages and the path stack stay aligned through nested
calls. It is kept by recording a requirement of a selected version, by opening a package and by
closing it, hence by every call, and it holds wherever control reaches.
-/
namespace Forge.Registry
open Forge.Python Relation
set_option autoImplicit false

structure Inv (registry : RegistryClient) (roots : Dict String (List Requirement))
    (st : ResolverState) : Prop where
  stackNodup : st.pathStack.Nodup
  visiting_iff : ∀ n, n ∈ st.visiting ↔ n ∈ st.pathStack
  selectedNodup : (st.selected.map Prod.fst).Nodup
  selected_iff : ∀ n, n ∈ st.selected.map Prod.fst ↔ n ∈ st.pathStack ∨ n ∈ st.resolved.keys
  chain : st.pathStack.IsChain (SelectedEdge registry st)
  reachable : ∀ n ∈ st.selected.map Prod.fst, ∃ root ∈ roots.keys,
    ReflTransGen (SelectedEdge registry st) root n
  wellFormed : ∀ n, ∀ r ∈ st.reqs n, ConstraintSet.fromString r.constraint = .ok r.constraintSet
  provenance : ∀ n, ∀ r ∈ st.reqs n, r ∈ roots.getD n [] ∨
    ∃ p v, (p, v) ∈ st.selected ∧ Lists registry p v n r.constraint
  rooted : ∀ n, roots.getD n [] ⊆ st.reqs n
  best : ∀ n v, (n, v) ∈ st.selected → ∃ reqs, reqs ⊆ st.reqs n ∧ Best registry n v reqs
  resolvedMeta : ∀ n pkg, st.resolved.get? n = some pkg → pkg.name = n ∧
    (n, pkg.version) ∈ st.selected ∧
    ∃ m, registry.getMetadata n pkg.version = .ok m ∧ m.sha256 = pkg.sha256
  closed : ∀ n pkg, st.resolved.get? n = some pkg → ∀ q c, Lists registry n pkg.version q c →
    Recorded st q c ∧ q ∈ st.resolved.keys ∧
      st.resolved.keys.idxOf q < st.resolved.keys.idxOf n

/-- What a call may rely on besides the invariant. -/
def CallOk (registry : RegistryClient) (roots : Dict String (List Requirement)) :
    Call → ResolverState → Prop
  | .name n, st => (st.pathStack = [] ∧ n ∈ roots.keys) ∨
      ∃ p, st.pathStack.getLast? = some p ∧ SelectedEdge registry st p n
  | .deps name version rest, st => st.pathStack.getLast? = some name ∧
      (name, version) ∈ st.selected ∧
      ∃ pkg, registry.getMetadata name version = .ok pkg ∧ rest ⊆ pkg.deps
  | .roots names, st => st.pathStack = [] ∧ names ⊆ roots.keys

theorem SelectedEdge.mono {registry : RegistryClient} {st st' : ResolverState} {p q : String}
    (hSub : st.selected ⊆ st'.selected) (h : SelectedEdge registry st p q) :
    SelectedEdge registry st' p q := by
  obtain ⟨v, c, hv, hc⟩ := h
  exact ⟨v, c, hSub hv, hc⟩

section
variable {registry : RegistryClient} {roots : Dict String (List Requirement)} {st : ResolverState}

theorem Inv.add (h : Inv registry roots st) {req : Requirement}
    (hSet : ConstraintSet.fromString req.constraint = .ok req.constraintSet)
    (hFrom : ∃ p v, (p, v) ∈ st.selected ∧ Lists registry p v req.name req.constraint) :
    Inv registry roots (st.add req) where
  stackNodup := h.stackNodup
  visiting_iff := h.visiting_iff
  selectedNodup := h.selectedNodup
  selected_iff := h.selected_iff
  chain := h.chain
  reachable := h.reachable
  wellFormed n r hr := by
    rw [add_reqs] at hr
    split at hr
    · rcases List.mem_append.mp hr with hr | hr
      · exact h.wellFormed n r hr
      · cases List.mem_singleton.mp hr
        exact hSet
    · exact h.wellFormed n r hr
  provenance n r hr := by
    rw [add_reqs] at hr
    split at hr
    · rename_i hn
      rcases List.mem_append.mp hr with hr | hr
      · exact h.provenance n r hr
      · cases List.mem_singleton.mp hr
        exact .inr (hn ▸ hFrom)
    · exact h.provenance n r hr
  rooted n := List.Subset.trans (h.rooted n) (reqs_subset_add st req n)
  best n v hv := by
    obtain ⟨reqs, hSub, hBest⟩ := h.best n v hv
    exact ⟨reqs, List.Subset.trans hSub (reqs_subset_add st req n), hBest⟩
  resolvedMeta := h.resolvedMeta
  closed n pkg hn q c hc := by
    obtain ⟨⟨r, hr, hrc⟩, hIdx⟩ := h.closed n pkg hn q c hc
    exact ⟨⟨r, reqs_subset_add st req q hr, hrc⟩, hIdx⟩

theorem Inv.opened (h : Inv registry roots st) {name version : String} {pkg : PackageMeta}
    {deps : List DepEntry} (hOpens : Opens registry st name version pkg deps)
    (hCall : CallOk registry roots (.name name) st) : Inv registry roots (st.opened name version) := by
  have hStack : name ∉ st.pathStack := fun hn => hOpens.notVisiting ((h.visiting_iff name).mpr hn)
  have hKeys : name ∉ st.resolved.keys := Dict.get?_eq_none_iff.mp hOpens.unresolved
  have hSelected : name ∉ st.selected.map Prod.fst := by
    rw [h.selected_iff]
    exact not_or.mpr ⟨hStack, hKeys⟩
  have hSub : st.selected ⊆ (st.opened name version).selected := List.subset_append_left _ _
  have hMono : ∀ p q, SelectedEdge registry st p q →
      SelectedEdge registry (st.opened name version) p q := fun p q => .mono hSub
  refine
    { stackNodup := ?_, visiting_iff := ?_, selectedNodup := ?_, selected_iff := ?_, chain := ?_,
      reachable := ?_, wellFormed := h.wellFormed, provenance := ?_, rooted := h.rooted, best := ?_,
      resolvedMeta := ?_, closed := h.closed }
  · rw [opened_pathStack]
    exact h.stackNodup.append (List.nodup_singleton name) (by simpa using hStack)
  · intro n
    rw [opened_visiting, opened_pathStack, List.mem_cons, List.mem_append, List.mem_singleton,
      h.visiting_iff n]
    exact or_comm
  · rw [opened_selected, List.map_append]
    exact h.selectedNodup.append (List.nodup_singleton name) (by simpa using hSelected)
  · intro n
    simp only [opened_selected, opened_pathStack, opened_resolved, List.map_append, List.map_cons,
      List.map_nil, List.mem_append, h.selected_iff n, List.mem_singleton]
    exact or_right_comm
  · rw [opened_pathStack, List.isChain_append]
    refine ⟨h.chain.imp hMono, List.isChain_singleton name, ?_⟩
    intro p hp q hq
    cases Option.some.inj hq
    rcases hCall with ⟨hEmpty, -⟩ | ⟨p', hLast, hEdge⟩
    · rw [hEmpty] at hp
      cases hp
    · cases hLast.symm.trans hp
      exact hMono _ _ hEdge
  · intro n hn
    rw [opened_selected, List.map_append, List.mem_append] at hn
    rcases hn with hn | hn
    · obtain ⟨root, hRoot, hPath⟩ := h.reachable n hn
      exact ⟨root, hRoot, hPath.lift id hMono⟩
    · cases List.mem_singleton.mp hn
      rcases hCall with ⟨-, hRoot⟩ | ⟨p, hLast, hEdge⟩
      · exact ⟨name, hRoot, .refl⟩
      · have hp : p ∈ st.selected.map Prod.fst :=
          (h.selected_iff p).mpr (.inl (List.mem_of_getLast? hLast))
        obtain ⟨root, hRoot, hPath⟩ := h.reachable p hp
        exact ⟨root, hRoot, (hPath.lift id hMono).tail (hMono _ _ hEdge)⟩
  · intro n r hr
    rcases h.provenance n r hr with hr | ⟨p, v, hv, hc⟩
    · exact .inl hr
    · exact .inr ⟨p, v, hSub hv, hc⟩
  · intro n v hv
    rcases List.mem_append.mp hv with hv | hv
    · exact h.best n v hv
    · cases List.mem_singleton.mp hv
      exact ⟨st.reqs name, List.Subset.refl _, selectVersion_ok hOpens.version_eq⟩
  · intro n old hn
    obtain ⟨hName, hv, hMeta⟩ := h.resolvedMeta n old hn
    exact ⟨hName, hSub hv, hMeta⟩

theorem Inv.close (h : Inv registry roots st) {name version : String} {pkg : PackageMeta}
    {deps : List DepEntry} (hLast : st.pathStack.getLast? = some name)
    (hNone : name ∉ st.resolved.keys) (hSelected : (name, version) ∈ st.selected)
    (hMeta : registry.getMetadata name version = .ok pkg) (hPerm : deps.Perm pkg.deps)
    (hDone : Done (.deps name version deps) st) :
    Inv registry roots (st.closed ⟨name, version, pkg.sha256, pkg.deps⟩) := by
  obtain ⟨init, hStack⟩ := List.getLast?_eq_some_iff.mp hLast
  have hNodup := h.stackNodup
  rw [hStack] at hNodup
  have hInit : name ∉ init := by
    have hDisjoint := (List.nodup_append.mp hNodup).2.2
    exact fun hn => hDisjoint name hn name List.mem_cons_self rfl
  have hKeys := Dict.keys_set_of_notMem (⟨name, version, pkg.sha256, pkg.deps⟩ : ResolvedPackage) hNone
  refine
    { stackNodup := ?_, visiting_iff := ?_, selectedNodup := h.selectedNodup, selected_iff := ?_,
      chain := ?_, reachable := h.reachable, wellFormed := h.wellFormed,
      provenance := h.provenance, rooted := h.rooted, best := h.best, resolvedMeta := ?_,
      closed := ?_ }
  · rw [closed_pathStack, hStack, List.dropLast_concat]
    exact (List.nodup_append.mp hNodup).1
  · intro n
    rw [closed_visiting, closed_pathStack, hStack, List.dropLast_concat, List.mem_filter,
      h.visiting_iff, hStack, List.mem_append, List.mem_singleton, decide_eq_true_eq]
    constructor
    · rintro ⟨hn | hn, hNe⟩
      · exact hn
      · exact (hNe hn).elim
    · intro hn
      refine ⟨.inl hn, ?_⟩
      rintro rfl
      exact hInit hn
  · intro n
    rw [closed_selected, h.selected_iff, closed_pathStack, hStack, List.dropLast_concat,
      closed_resolved, Dict.mem_keys_set, List.mem_append, List.mem_singleton, or_assoc]
  · rw [closed_pathStack, hStack, List.dropLast_concat]
    exact (hStack ▸ h.chain).left_of_append
  · intro n old hn
    rw [closed_resolved, Dict.get?_set] at hn
    split at hn
    · rename_i he
      cases hn
      exact ⟨he.symm, he ▸ hSelected, pkg, he ▸ hMeta, rfl⟩
    · exact h.resolvedMeta n old hn
  · intro n old hn q c hc
    rw [closed_resolved, Dict.get?_set] at hn
    rw [closed_resolved, hKeys]
    split at hn
    · rename_i he
      cases hn
      subst he
      obtain ⟨pkg', hMeta', dep, hDep, hEntry⟩ := hc
      cases hMeta.symm.trans hMeta'
      obtain ⟨hq, hRecorded⟩ := hDone dep (hPerm.mem_iff.mpr hDep) q c hEntry
      refine ⟨hRecorded, List.mem_append_left _ hq, ?_⟩
      rw [List.idxOf_append_of_mem hq, List.idxOf_append_of_notMem hNone]
      exact Nat.lt_of_lt_of_le (List.idxOf_lt_length_of_mem hq) (Nat.le_add_right _ _)
    · obtain ⟨hRecorded, hq, hIdx⟩ := h.closed n old hn q c hc
      refine ⟨hRecorded, List.mem_append_left _ hq, ?_⟩
      rw [List.idxOf_append_of_mem hq, List.idxOf_append_of_mem (Dict.mem_keys_of_get? hn)]
      exact hIdx

/-! ## Calls -/

theorem CallOk.extends {st' : ResolverState} {name version : String} {dep : DepEntry}
    {rest : List DepEntry} (hCall : CallOk registry roots (.deps name version (dep :: rest)) st)
    (h : Extends st st') : CallOk registry roots (.deps name version rest) st' := by
  obtain ⟨hLast, hSelected, pkg, hMeta, hSub⟩ := hCall
  exact ⟨h.pathStack_eq ▸ hLast, h.selected_subset hSelected, pkg, hMeta,
    fun d hd => hSub (List.mem_cons_of_mem _ hd)⟩

theorem CallOk.opened {name version : String} {pkg : PackageMeta} {deps : List DepEntry}
    (hOpens : Opens registry st name version pkg deps) :
    CallOk registry roots (.deps name version deps) (st.opened name version) :=
  ⟨List.getLast?_concat, List.mem_append_right _ List.mem_cons_self, pkg, hOpens.meta_eq,
    (sortDeps_ok hOpens.deps_eq).subset⟩

/-- Recording the requirement of an entry and calling `resolve_name` for it. -/
theorem CallOk.lists {name version : String} {dep : DepEntry} {rest : List DepEntry}
    {req : Requirement} (hCall : CallOk registry roots (.deps name version (dep :: rest)) st)
    (hReq : requirementOf dep (viaOf name version) = .ok req) :
    Lists registry name version req.name req.constraint := by
  obtain ⟨-, -, pkg, hMeta, hSub⟩ := hCall
  exact ⟨pkg, hMeta, dep, hSub List.mem_cons_self, (requirementOf_ok hReq).1⟩

theorem Inv.addDep (h : Inv registry roots st) {name version : String} {dep : DepEntry}
    {rest : List DepEntry} {req : Requirement}
    (hCall : CallOk registry roots (.deps name version (dep :: rest)) st)
    (hReq : requirementOf dep (viaOf name version) = .ok req) :
    Inv registry roots (st.add req) ∧ CallOk registry roots (.name req.name) (st.add req) := by
  have hLists := hCall.lists hReq
  obtain ⟨hLast, hSelected, -⟩ := hCall
  exact ⟨h.add (requirementOf_ok hReq).2 ⟨name, version, hSelected, hLists⟩,
    .inr ⟨name, hLast, version, req.constraint, hSelected, hLists⟩⟩

theorem CallOk.root {name : String} {rest : List String}
    (hCall : CallOk registry roots (.roots (name :: rest)) st) :
    CallOk registry roots (.name name) st :=
  .inl ⟨hCall.1, hCall.2 List.mem_cons_self⟩

theorem CallOk.rootRest {st' : ResolverState} {name : String} {rest : List String}
    (hCall : CallOk registry roots (.roots (name :: rest)) st) (h : Extends st st') :
    CallOk registry roots (.roots rest) st' :=
  ⟨h.pathStack_eq.trans hCall.1, fun _ hn => hCall.2 (List.mem_cons_of_mem _ hn)⟩

theorem Runs.inv {c : Call} {st st' : ResolverState} (hRun : Runs registry c st st')
    (h : Inv registry roots st) (hCall : CallOk registry roots c st) : Inv registry roots st' := by
  induction hRun with
  | recheck => exact h
  | @visit st st₁ name version pkg deps hOpens hDeps ih =>
    have hExtends := hDeps.extends
    have hOpened := h.opened hOpens hCall
    refine (ih hOpened (.opened hOpens)).close ?_ ?_ ?_ hOpens.meta_eq (sortDeps_ok hOpens.deps_eq)
      hDeps.done
    · rw [hExtends.pathStack_eq]
      exact List.getLast?_concat
    · refine Dict.get?_eq_none_iff.mp ?_
      rw [hExtends.resolved_visiting name List.mem_cons_self]
      exact hOpens.unresolved
    · exact hExtends.selected_subset (List.mem_append_right _ List.mem_cons_self)
  | nil => exact h
  | @cons st st₁ st₂ name version dep rest req hReq hName hRest ihName ihRest =>
    obtain ⟨hAdd, hCallName⟩ := h.addDep hCall hReq
    have hExtends : Extends st st₁ := .addThen hName hName.extends
    exact ihRest (ihName hAdd hCallName) (hCall.extends hExtends)
  | rootsNil => exact h
  | rootsSkip _ _ ih => exact ih h (hCall.rootRest (.refl _))
  | rootsCons _ hName _ ihName ihRest =>
    exact ihRest (ihName h hCall.root) (hCall.rootRest hName.extends)

theorem Enters.inv {c c' : Call} {st st' : ResolverState} (hEnters : Enters registry c st c' st')
    (h : Inv registry roots st) (hCall : CallOk registry roots c st) :
    Inv registry roots st' ∧ CallOk registry roots c' st' := by
  induction hEnters with
  | here => exact ⟨h, hCall⟩
  | visit hOpens _ ih => exact ih (h.opened hOpens hCall) (.opened hOpens)
  | name hReq _ ih =>
    obtain ⟨hAdd, hCallName⟩ := h.addDep hCall hReq
    exact ih hAdd hCallName
  | @rest st st₁ st₂ name version dep rest req c hReq hName hRest ih =>
    obtain ⟨hAdd, hCallName⟩ := h.addDep hCall hReq
    have hExtends : Extends st st₁ := .addThen hName hName.extends
    exact ih (hName.inv hAdd hCallName) (hCall.extends hExtends)
  | rootsSkip _ _ ih => exact ih h (hCall.rootRest (.refl _))
  | rootsName _ _ ih => exact ih h hCall.root
  | rootsRest _ hName _ ih => exact ih (hName.inv h hCall.root) (hCall.rootRest hName.extends)

end

end Forge.Registry
