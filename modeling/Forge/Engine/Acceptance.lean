import Forge.Engine.Memory
import Forge.Engine.NodeFits

/-! # Acceptance

The parser accepts exactly the valid pipelines. A text is in addition held against its nodes, which have to
fit the data at the places where the parser looks for them.
-/
namespace Forge.Engine.PipelineParser
open Forge.Python Forge.Registry Forge.Theory
set_option autoImplicit false

/-! ## Jobs -/

/-- The pairs over which the parser goes to find a key in the node of a job. -/
def Node.pairs : Node → List (Node × Node)
  | .mapping _ value _ => value
  | _ => []

/-- The steps of a job, as far as they are a list. -/
def stepItems (job : Value) : List Value :=
  match job.asDict? with
  | some data => (getItem data "steps").asList?.getD []
  | none => []

/-- Where the node of a job is no mapping it must be empty, for the parser goes over it as well. -/
structure JobFits (entry : Key × Value) (node : Node) : Prop where
  keys : MappingFits jobKeys node
  pairs : jobPairs node = .ok node.pairs
  resources : ∀ resources ∈ firstNode? "resources" node.pairs, MappingFits resourceKeys resources
  steps : SequenceFits (fun _ => MappingFits stepKeys) (stepItems entry.2) (firstNode? "steps" node.pairs)

theorem jobPairs_ok {node : Node} {pairs : List (Node × Node)} (h : jobPairs node = .ok pairs) :
    pairs = node.pairs := by
  cases node with
  | scalar startLine value tagged =>
    rw [jobPairs] at h
    split at h
    · cases h
      rfl
    · cases h
  | sequence startLine value tagged =>
    cases value with
    | nil =>
      cases h
      rfl
    | cons node nodes => cases h
  | mapping startLine value tagged =>
    cases h
    rfl

theorem MappingFits.pairs {allowed : List String} {node : Node} (h : MappingFits allowed node) :
    KeysWithin allowed node.pairs := by
  cases node with
  | mapping startLine value tagged => exact h ⟨startLine, value, tagged⟩ rfl
  | scalar startLine value tagged => exact fun _ hMem => absurd hMem List.not_mem_nil
  | sequence startLine value tagged => exact fun _ hMem => absurd hMem List.not_mem_nil

theorem jobValue_ok_iff {jobNode : Option Node} (h : ∀ node ∈ jobNode, MappingFits jobKeys node) {name : String}
    {value : Option Node} : jobValue jobNode name = .ok value ↔
      (∀ node ∈ jobNode, jobPairs node = .ok node.pairs) ∧
        value = jobNode.bind fun node => firstNode? name node.pairs := by
  cases jobNode with
  | none => simp [jobValue, eq_comm]
  | some node =>
    have hFirst := firstValue_eq (h node rfl).pairs name
    simp only [jobValue, bind_eq_ok_iff, Option.mem_some_iff, forall_eq', Option.bind_some]
    constructor
    · rintro ⟨pairs, hPairs, hValue⟩
      cases jobPairs_ok hPairs
      exact ⟨hPairs, ok_eq_ok_iff.mp (hFirst.symm.trans hValue)⟩
    · rintro ⟨hPairs, rfl⟩
      exact ⟨node.pairs, hPairs, hFirst⟩

theorem parseResources_ok_iff {value : Value} {jobNode : Option Node}
    (h : ∀ node ∈ jobNode, MappingFits jobKeys node) {jobName : String} {line : Nat} {resources : Resources} :
    parseResources value jobNode jobName line = .ok resources ↔
      (∀ node ∈ jobNode, jobPairs node = .ok node.pairs ∧
        ∀ found ∈ firstNode? "resources" node.pairs, MappingFits resourceKeys found) ∧
      Described DescribesResources value resources ∧ ValidResources resources := by
  unfold parseResources
  simp only [bind_eq_ok_iff, exists_unit_iff, expectDict_ok_iff, jobValue_ok_iff h, checkMapping_ok_iff,
    validateCpu_ok_iff, expectStr_ok_iff, validateMemory_ok_iff, ok_eq_ok_iff]
  constructor
  · rintro ⟨data, hData, _, ⟨hPairs, rfl⟩, ⟨hFits, hKeys⟩, cpu, ⟨hCpu, hPositive⟩, memory, ⟨hMemory, -⟩, hUnits, rfl⟩
    refine ⟨fun node hNode => ⟨hPairs node hNode, fun found hFound => hFits found ?_⟩,
      ⟨data, hData, hKeys, hCpu, hMemory⟩, ⟨hPositive, hUnits⟩⟩
    exact Option.mem_bind_iff.mpr ⟨node, hNode, hFound⟩
  · rintro ⟨hFits, ⟨data, hData, hRaw⟩, hValid⟩
    refine ⟨data, hData, _, ⟨fun node hNode => (hFits node hNode).1, rfl⟩, ⟨?_, hRaw.keys⟩, resources.cpu,
      ⟨hRaw.cpu, hValid.cpu⟩, resources.memory, ⟨hRaw.memory, trivial⟩, hValid.memory, rfl⟩
    intro found hFound
    obtain ⟨node, hNode, hFound⟩ := Option.mem_bind_iff.mp hFound
    exact (hFits node hNode).2 found hFound

theorem parseSteps_ok_iff {value : Value} {jobNode : Option Node} (h : ∀ node ∈ jobNode, MappingFits jobKeys node)
    {jobName : String} {line : Nat} {steps : List PipelineStep} :
    parseSteps value jobNode jobName line = .ok steps ↔
      (∀ node ∈ jobNode, jobPairs node = .ok node.pairs ∧
        SequenceFits (fun _ => MappingFits stepKeys) (value.asList?.getD []) (firstNode? "steps" node.pairs)) ∧
      ∃ raws, DescribesItems DescribesStep value raws ∧ raws ≠ [] ∧ (∀ raw ∈ raws, ValidStep raw) ∧
        (raws.map PipelineStep.name).Nodup ∧ steps = raws.map normaliseStep := by
  unfold parseSteps
  split
  · rename_i item items
    simp only [bind_eq_ok_iff, jobValue_ok_iff h, parseStepItems_ok_iff, sequenceNodes_run_iff, Value.asList?,
      Option.getD_some]
    constructor
    · rintro ⟨_, ⟨hPairs, rfl⟩, hFits, raws, hReads, hValid, hNodup, -, rfl⟩
      refine ⟨fun node hNode => ⟨hPairs node hNode, fun found hFound => hFits found ?_⟩, raws, ⟨_, rfl, hReads⟩, ?_,
        hValid, hNodup, rfl⟩
      · exact Option.mem_bind_iff.mpr ⟨node, hNode, hFound⟩
      · rintro rfl
        cases hReads
    · rintro ⟨hFits, raws, ⟨_, hItems, hReads⟩, -, hValid, hNodup, rfl⟩
      cases hItems
      refine ⟨_, ⟨fun node hNode => (hFits node hNode).1, rfl⟩, ?_, raws, hReads, hValid, hNodup, by simp, rfl⟩
      intro found hFound
      obtain ⟨node, hNode, hFound⟩ := Option.mem_bind_iff.mp hFound
      exact (hFits node hNode).2 found hFound
  · rename_i hList
    refine ⟨fun hFail => absurd hFail fail_ne_ok, ?_⟩
    rintro ⟨-, raws, ⟨items, rfl, hReads⟩, hNonempty, -⟩
    cases hReads with
    | nil => exact absurd rfl hNonempty
    | cons hItem hItems => exact absurd rfl (hList _ _)

theorem describesNeeds_iff {items : List Value} {needs : List String} :
    List.Forall₂ (fun need text => need = Value.str text) items needs ↔ items = needs.map .str := by
  rw [← List.forall₂_map_right_iff (R := Eq), List.forall₂_eq_eq_eq]

theorem parseNeed_ok_iff {jobName : String} {line : Nat} (need : Value) (text : String) :
    parseNeed jobName line need = .ok text ↔ ∃ raw, need = .str raw ∧ isNonEmpty raw = true ∧ text = strip raw := by
  unfold parseNeed
  simp only [bind_eq_ok_iff, expectStr_ok_iff, ok_eq_ok_iff, and_assoc]

theorem parseNeeds_ok_iff {job : Dict Key Value} {jobName : String} {line : Nat} {needs : List String} :
    parseNeeds job jobName line = .ok needs ↔ ∃ raws, DescribesNeeds (job.get? (.str "needs")) raws ∧
      (∀ need ∈ raws, isNonEmpty need = true) ∧ needs = raws.map strip := by
  unfold parseNeeds
  generalize job.get? (.str "needs") = value
  split
  · simp [DescribesNeeds]
  · rw [mapM_eq_ok_iff parseNeed_ok_iff]
    simp only [describesNeeds_iff, DescribesNeeds, Value.list.injEq]
  · rename_i hList
    refine ⟨fun hFail => absurd hFail fail_ne_ok, ?_⟩
    rintro ⟨raws, hRaws, -⟩
    exact absurd hRaws (hList _)

def normaliseEntry (job : String × PipelineJob) : String × PipelineJob := (job.1, normaliseJob job.2)

theorem expectJobName_ok_iff {key : Key} {line : Nat} {name : String} :
    expectJobName key line = .ok name ↔ key = .str name ∧ isNonEmpty name = true := by
  unfold expectJobName
  cases key with
  | str s =>
    simp only [Key.str.injEq, ite_ok_fail_iff]
    exact ⟨fun ⟨hEq, hName⟩ => ⟨hEq.symm, hEq ▸ hName⟩, fun ⟨hEq, hName⟩ => ⟨hEq.symm, hEq ▸ hName⟩⟩
  | none => simp
  | number x => simp
  | other id => simp

theorem stepItems_eq {value : Value} {data : Dict Key Value} (h : value.asDict? = some data) :
    stepItems value = (getItem data "steps").asList?.getD [] := by
  rw [stepItems, h]

theorem parseJob_ok_iff {line : Nat} (item : Key × Value) (node : Option Node) (job : String × PipelineJob) :
    parseJob line item node = .ok job ↔ (∀ n ∈ node, JobFits item n) ∧
      ∃ raw, DescribesEntry item raw ∧ ValidEntry raw ∧ job = normaliseEntry raw := by
  unfold parseJob
  simp only [bind_eq_ok_iff, exists_unit_iff, expectJobName_ok_iff, expectDict_ok_iff, checkMapping_ok_iff,
    expectStr_ok_iff, validateImageRef_ok_iff, parseNeeds_ok_iff, ok_eq_ok_iff]
  constructor
  · rintro ⟨name, ⟨hName, hNameValid⟩, data, hData, ⟨hFits, hKeys⟩, runtime, ⟨hRuntime, -⟩, hImage, resources,
      hResources, steps, hSteps, _, ⟨needs, hNeeds, hNeedsValid, rfl⟩, rfl⟩
    rw [parseResources_ok_iff hFits] at hResources
    rw [parseSteps_ok_iff hFits, ← stepItems_eq hData] at hSteps
    obtain ⟨hResourcesFit, hResources, hResourcesValid⟩ := hResources
    obtain ⟨hStepsFit, steps, hSteps, hNonempty, hStepsValid, hDistinct, rfl⟩ := hSteps
    refine ⟨fun n hn => ⟨hFits n hn, (hResourcesFit n hn).1, (hResourcesFit n hn).2, (hStepsFit n hn).2⟩,
      (name, ⟨runtime, resources, steps, needs⟩), ⟨hName, data, hData, ⟨hKeys, hRuntime, hResources, hSteps, hNeeds⟩⟩,
      ⟨hNameValid, ⟨hImage, hResourcesValid, hNonempty, hStepsValid, hDistinct, hNeedsValid⟩⟩, rfl⟩
  · rintro ⟨hFits, ⟨name, raw⟩, ⟨hName, data, hData, hRaw⟩, ⟨hNameValid, hValid⟩, rfl⟩
    have hKeysFit : ∀ n ∈ node, MappingFits jobKeys n := fun n hn => (hFits n hn).keys
    refine ⟨name, ⟨hName, hNameValid⟩, data, hData, ⟨hKeysFit, hRaw.keys⟩, raw.runtime, ⟨hRaw.runtime, trivial⟩,
      hValid.runtime, raw.resources, ?_, raw.steps.map normaliseStep, ?_, raw.needs.map strip,
      ⟨raw.needs, hRaw.needs, hValid.needs, rfl⟩, rfl⟩
    · rw [parseResources_ok_iff hKeysFit]
      exact ⟨fun n hn => ⟨(hFits n hn).pairs, (hFits n hn).resources⟩, hRaw.resources, hValid.resources⟩
    · rw [parseSteps_ok_iff hKeysFit, ← stepItems_eq hData]
      exact ⟨fun n hn => ⟨(hFits n hn).pairs, (hFits n hn).steps⟩, raw.steps, hRaw.steps, hValid.nonempty,
        hValid.steps, hValid.distinct, rfl⟩

theorem checkNeed_ok_iff {jobs : Dict String PipelineJob} {line : Nat} {jobName need : String} :
    checkNeed jobs line jobName need = .ok () ↔ need ∈ jobs.keys ∧ need ≠ jobName := by
  unfold checkNeed
  simp only [ite_fail_ok_iff, not_not, and_true]

theorem checkNeeds_ok_iff {jobs : Dict String PipelineJob} {line : Nat} : checkNeeds jobs line = .ok () ↔
    ∀ job ∈ jobs.entries, ∀ need ∈ job.2.needs, need ∈ jobs.keys ∧ need ≠ job.1 := by
  unfold checkNeeds
  simp only [forM_eq_ok_iff, checkNeed_ok_iff]

theorem checkNeeds_normalise {jobs : Dict String PipelineJob} {line : Nat} :
    checkNeeds (jobs.mapValues normaliseJob) line = .ok () ↔
      ∀ job ∈ jobs.entries, ∀ need ∈ job.2.needs, strip need ∈ jobs.keys ∧ strip need ≠ job.1 := by
  rw [checkNeeds_ok_iff, Dict.keys_mapValues]
  simp only [Dict.mapValues, List.forall_mem_map, normaliseJob]

/-- The jobs of the parsed entries; their names differ as the keys of the document do. -/
theorem describesJobs_iff {data : Dict Key Value} {jobs : Dict String PipelineJob} :
    (∃ raws, List.Forall₂ DescribesEntry data.entries raws ∧ (∀ raw ∈ raws, ValidEntry raw) ∧
        jobs = Dict.ofList (raws.map normaliseEntry)) ↔
      ∃ raw, DescribesJobs data raw ∧ (∀ job ∈ raw.entries, ValidEntry job) ∧ jobs = raw.mapValues normaliseJob := by
  have hNodup : ∀ {raws : List (String × PipelineJob)}, List.Forall₂ DescribesEntry data.entries raws →
      (raws.map Prod.fst).Nodup := by
    intro raws hRaws
    have hKeys : data.keys = (raws.map Prod.fst).map Key.str := by
      rw [Dict.keys, List.map_map]
      exact map_eq_map_of_forall₂ (fun _ _ hEntry => hEntry.1) hRaws
    exact List.Nodup.of_map Key.str (hKeys ▸ data.nodup)
  have hJobs : ∀ raw : Dict String PipelineJob,
      Dict.ofList (raw.entries.map normaliseEntry) = raw.mapValues normaliseJob := by
    intro raw
    apply Dict.ext_entries
    exact Dict.entries_ofList (raw.mapValues normaliseJob).nodup
  constructor
  · rintro ⟨raws, hRaws, hValid, rfl⟩
    exact ⟨⟨raws, hNodup hRaws⟩, hRaws, hValid, hJobs ⟨raws, hNodup hRaws⟩⟩
  · rintro ⟨raw, hRaw, hValid, rfl⟩
    exact ⟨raw.entries, hRaw, hValid, (hJobs raw).symm⟩

/-- The node found for the jobs is a mapping, and the jobs fit its nodes in their order. -/
def JobsFit (data : Dict Key Value) (found : Option Node) : Prop :=
  ∀ node ∈ found, ∃ jobs, node.asMapping? = some jobs ∧ ItemsFit JobFits data.entries (jobs.value.map Prod.snd)

theorem jobNodes_run_iff {root : Option MappingNode} (h : ∀ node ∈ root, KeysWithin topLevelKeys node.value)
    {data : Dict Key Value} {p : Prop} :
    (∃ nodes, jobNodes root = .ok nodes ∧ ItemsFit JobFits data.entries nodes ∧ p) ↔
      (∀ node ∈ root, JobsFit data (firstNode? "jobs" node.value)) ∧ p := by
  cases root with
  | none => simp [jobNodes, itemsFit_nil]
  | some root =>
    simp only [jobNodes, firstValue_eq (h root rfl), bind_eq_ok_iff, Except.ok.injEq, exists_eq_left',
      Option.mem_some_iff, forall_eq', JobsFit]
    cases firstNode? "jobs" root.value with
    | none => simp [itemsFit_nil]
    | some node =>
      simp only [bind_eq_ok_iff, expectMapping_ok_iff, ok_eq_ok_iff, Option.mem_some_iff, forall_eq']
      constructor
      · rintro ⟨_, ⟨jobs, hJobs, rfl⟩, hFits, hp⟩
        exact ⟨⟨jobs, hJobs, hFits⟩, hp⟩
      · rintro ⟨⟨jobs, hJobs, hFits⟩, hp⟩
        exact ⟨_, ⟨jobs, hJobs, rfl⟩, hFits, hp⟩

theorem parseJobs_ok_iff {value : Value} {root : Option MappingNode}
    (h : ∀ node ∈ root, KeysWithin topLevelKeys node.value) {line : Nat} {jobs : Dict String PipelineJob} :
    parseJobs value root line = .ok jobs ↔
      (∀ node ∈ root, ∀ data, value.asDict? = some data → JobsFit data (firstNode? "jobs" node.value)) ∧
      ∃ raw, Described DescribesJobs value raw ∧ ValidJobs raw ∧ jobs = raw.mapValues normaliseJob := by
  unfold parseJobs
  simp only [bind_eq_ok_iff, exists_unit_iff, expectDict_ok_iff, ite_fail_ok_iff, forItems_ok_iff parseJob_ok_iff,
    ok_eq_ok_iff]
  constructor
  · rintro ⟨data, hData, hNonempty, nodes, hNodes, _, ⟨hFits, raws, hRaws, hValid, rfl⟩, hNeeds, rfl⟩
    obtain ⟨raw, hRaw, hEntries, hJobs⟩ := describesJobs_iff.mp ⟨raws, hRaws, hValid, rfl⟩
    rw [hJobs, checkNeeds_normalise] at hNeeds
    refine ⟨fun node hNode other hOther => ?_, raw, ⟨data, hData, hRaw⟩, ⟨?_, hEntries,
      fun job hJob need hNeed => (hNeeds job hJob need hNeed).1,
      fun job hJob need hNeed => (hNeeds job hJob need hNeed).2⟩, hJobs⟩
    · cases hData.symm.trans hOther
      exact ((jobNodes_run_iff h (p := True)).mp ⟨nodes, hNodes, hFits, trivial⟩).1 node hNode
    · intro hEmpty
      rw [DescribesJobs, hEmpty, List.forall₂_nil_right_iff] at hRaw
      exact hNonempty hRaw
  · rintro ⟨hFits, raw, ⟨data, hData, hRaw⟩, hValid, rfl⟩
    obtain ⟨raws, hRaws, hEntries, hJobs⟩ := describesJobs_iff.mpr ⟨raw, hRaw, hValid.entries, rfl⟩
    obtain ⟨nodes, hNodes, hNodesFit, -⟩ := (jobNodes_run_iff h (p := True)).mpr
      ⟨fun node hNode => hFits node hNode data hData, trivial⟩
    refine ⟨data, hData, ?_, nodes, hNodes, _, ⟨hNodesFit, raws, hRaws, hEntries, rfl⟩, ?_, hJobs⟩
    · intro hEmpty
      rw [DescribesJobs, hEmpty, List.forall₂_nil_left_iff] at hRaw
      exact hValid.nonempty hRaw
    · rw [← hJobs, checkNeeds_normalise]
      exact fun job hJob need hNeed => ⟨hValid.known job hJob need hNeed, hValid.others job hJob need hNeed⟩

/-! ## The document -/

theorem itemNodes_eq {root : Option MappingNode} (h : ∀ node ∈ root, KeysWithin topLevelKeys node.value)
    (name : String) : itemNodes root name =
      sequenceNodes (root.bind fun node => firstNode? name node.value) [name] := by
  cases root with
  | none => rfl
  | some root =>
    rw [itemNodes, firstValue_eq (h root rfl)]
    rfl

section
variable {α : Type} {allowed : List String} {describes : Dict Key Value → α → Prop} {Valid : α → Prop}
  {normalise : α → α}

theorem parseItems_ok_iff {parse : Value → Option Node → Except Exc α} (hParse : ∀ item node x,
      parse item node = .ok x ↔ (∀ n ∈ node, MappingFits allowed n) ∧
        ∃ raw, Described describes item raw ∧ Valid raw ∧ x = normalise raw)
    {root : Option MappingNode} (h : ∀ node ∈ root, KeysWithin topLevelKeys node.value) {name : String}
    {value : Value} {line : Nat} {xs : List α} : parseItems name parse value root line = .ok xs ↔
      (∀ node ∈ root, ∀ items, value = .list items →
        SequenceFits (fun _ => MappingFits allowed) items (firstNode? name node.value)) ∧
      ∃ raws, DescribesOptional describes value raws ∧ (∀ raw ∈ raws, Valid raw) ∧ xs = raws.map normalise := by
  unfold parseItems
  split
  · rw [ok_eq_ok_iff]
    constructor
    · rintro rfl
      exact ⟨nofun, [], .inl ⟨rfl, rfl⟩, by simp⟩
    · rintro ⟨-, raws, ⟨-, rfl⟩ | ⟨items, hItems, -⟩, -, rfl⟩
      · rfl
      · cases hItems
  · rename_i items
    have hBind : SequenceFits (fun _ => MappingFits allowed) items
          (root.bind fun node => firstNode? name node.value) ↔
        ∀ node ∈ root, SequenceFits (fun _ => MappingFits allowed) items (firstNode? name node.value) := by
      cases root with
      | none => simp [SequenceFits]
      | some root => simp
    rw [itemNodes_eq h, bind_eq_ok_iff]
    simp only [forItems_ok_iff hParse, sequenceNodes_run_iff, hBind, Value.list.injEq, forall_eq']
    refine and_congr_right fun _ => exists_congr fun raws => and_congr_left fun _ => ?_
    simp [DescribesOptional, DescribesItems]
  · rename_i hNone hList
    refine ⟨fun hFail => absurd hFail fail_ne_ok, ?_⟩
    rintro ⟨-, raws, ⟨rfl, -⟩ | ⟨items, rfl, -⟩, -⟩
    · exact absurd rfl hNone
    · exact absurd rfl (hList items)

end

theorem validateArtifactPaths_ok_iff {artifacts : List PipelineArtifact} {jobs : Dict String PipelineJob} :
    validateArtifactPaths artifacts jobs = .ok () ↔ ∀ artifact ∈ artifacts, isProduced jobs artifact.path = true := by
  unfold validateArtifactPaths
  simp only [forM_eq_ok_iff, ite_ok_fail_iff, true_and]

/-- The commands of the steps are not normalised. -/
theorem collectStepOutputHints_normalise (steps : List PipelineStep) :
    collectStepOutputHints (steps.map normaliseStep) = collectStepOutputHints steps := by
  rw [collectStepOutputHints, List.flatMap_map]
  rfl

theorem normalizedHints_normalise (jobs : Dict String PipelineJob) :
    normalizedHints (jobs.mapValues normaliseJob) = normalizedHints jobs := by
  have hHints : ∀ job, collectStepOutputHints (normaliseJob job).steps = collectStepOutputHints job.steps :=
    fun job => collectStepOutputHints_normalise job.steps
  simp only [normalizedHints, Dict.values_mapValues, List.flatMap_map, hHints]

theorem isProduced_normalise (jobs : Dict String PipelineJob) (path : String) :
    isProduced (jobs.mapValues normaliseJob) path = isProduced jobs path := by
  rw [isProduced, isProduced, normalizedHints_normalise, Dict.values_mapValues, List.any_map]
  simp only [Function.comp_def, normaliseJob, normaliseStep, List.any_map]

/-- The nodes of the root fit the data at the places where the parser looks for them. -/
structure RootFits (data : Dict Key Value) (root : MappingNode) : Prop where
  keys : KeysWithin topLevelKeys root.value
  dependencies : ∀ items, data.getD (.str "dependencies") (.list []) = .list items →
    SequenceFits (fun _ => MappingFits depKeys) items (firstNode? "dependencies" root.value)
  jobs : ∀ jobs, (getItem data "jobs").asDict? = some jobs → JobsFit jobs (firstNode? "jobs" root.value)
  artifacts : ∀ items, data.getD (.str "artifacts") (.list []) = .list items →
    SequenceFits (fun _ => MappingFits artifactKeys) items (firstNode? "artifacts" root.value)

theorem mappingFits_root {root : Option MappingNode} :
    (∀ node ∈ root.map MappingNode.node, MappingFits topLevelKeys node) ↔
      ∀ node ∈ root, KeysWithin topLevelKeys node.value := by
  cases root with
  | none => simp
  | some root => simp [MappingFits, MappingNode.node, Node.asMapping?]

theorem validateRootDict_ok_iff {document : Value} {root : Option MappingNode} {line : Nat} {pipeline : Pipeline} :
    validateRootDict document root line = .ok pipeline ↔ ∃ data, document.asDict? = some data ∧
      (∀ node ∈ root, RootFits data node) ∧ ∃ raw, Describes data raw ∧ raw.Valid ∧ pipeline = raw.normalise := by
  unfold validateRootDict parseDependencies parseArtifacts
  simp only [bind_eq_ok_iff, exists_unit_iff, expectDict_ok_iff, checkMapping_ok_iff, mappingFits_root,
    expectStr_ok_iff, validateArtifactPaths_ok_iff, ok_eq_ok_iff]
  refine exists_congr fun data => and_congr_right fun _ => ?_
  constructor
  · rintro ⟨⟨hWithin, hKeys⟩, name, ⟨hName, hNameValid⟩, version, ⟨hVersion, hVersionValid⟩, _, hDeps, _, hJobs, _,
      hArtifacts, hProduced, rfl⟩
    rw [parseItems_ok_iff (fun _ _ _ => parseDependency_ok_iff) hWithin] at hDeps
    rw [parseJobs_ok_iff hWithin] at hJobs
    rw [parseItems_ok_iff (fun _ _ _ => parseArtifact_ok_iff) hWithin] at hArtifacts
    obtain ⟨hDepsFit, dependencies, hDeps, hDepsValid, rfl⟩ := hDeps
    obtain ⟨hJobsFit, jobs, hJobs, hJobsValid, rfl⟩ := hJobs
    obtain ⟨hArtifactsFit, artifacts, hArtifacts, hArtifactsValid, rfl⟩ := hArtifacts
    simp only [List.forall_mem_map, isProduced_normalise] at hProduced
    exact ⟨fun node hNode => ⟨hWithin node hNode, hDepsFit node hNode, hJobsFit node hNode, hArtifactsFit node hNode⟩,
      ⟨name, version, dependencies, jobs, artifacts⟩, ⟨hKeys, hName, hVersion, hDeps, hJobs, hArtifacts⟩,
      ⟨hNameValid, hVersionValid, hDepsValid, hJobsValid, hArtifactsValid, hProduced⟩, rfl⟩
  · rintro ⟨hFits, raw, hRaw, hValid, rfl⟩
    have hWithin : ∀ node ∈ root, KeysWithin topLevelKeys node.value := fun node hNode => (hFits node hNode).keys
    refine ⟨⟨hWithin, hRaw.keys⟩, raw.name, ⟨hRaw.name, hValid.name⟩, raw.version, ⟨hRaw.version, hValid.version⟩,
      raw.dependencies.map normaliseDependency, ?_, raw.jobs.mapValues normaliseJob, ?_,
      raw.artifacts.map normaliseArtifact, ?_, ?_, rfl⟩
    · rw [parseItems_ok_iff (fun _ _ _ => parseDependency_ok_iff) hWithin]
      exact ⟨fun node hNode => (hFits node hNode).dependencies, raw.dependencies, hRaw.dependencies,
        hValid.dependencies, rfl⟩
    · rw [parseJobs_ok_iff hWithin]
      exact ⟨fun node hNode => (hFits node hNode).jobs, raw.jobs, hRaw.jobs, hValid.jobs, rfl⟩
    · rw [parseItems_ok_iff (fun _ _ _ => parseArtifact_ok_iff) hWithin]
      exact ⟨fun node hNode => (hFits node hNode).artifacts, raw.artifacts, hRaw.artifacts, hValid.artifacts, rfl⟩
    · simp only [List.forall_mem_map, isProduced_normalise]
      exact hValid.produced

/-! ## Sources -/

def textDocument? (compose : YamlModule) (source : String) : Option (Dict Key Value) :=
  match compose source with
  | .ok (some root) =>
    match root.construct with
    | .ok document => document.asDict?
    | .error _ => none
  | _ => none

/-- The dictionary that is validated. -/
def Source.document? (compose : YamlModule) : Source → Option (Dict Key Value)
  | .text source => textDocument? compose source
  | .bytes bs => (String.fromUTF8? bs).bind (textDocument? compose)
  | .dict assignments => some (Dict.ofList assignments)

section
variable {compose : YamlModule} {d : Value}

theorem parse_dict_ok_iff {assignments : List (Key × Value)} :
    parseAndValidate compose (.dict assignments) = .ok d ↔
      ∃ raw, Describes (Dict.ofList assignments) raw ∧ raw.Valid ∧ d = raw.normalise.toDict := by
  simp only [parseAndValidate, bind_eq_ok_iff, validateRootDict_ok_iff, ok_eq_ok_iff]
  constructor
  · rintro ⟨_, ⟨_, hData, -, raw, hRaw, hValid, rfl⟩, rfl⟩
    cases hData
    exact ⟨raw, hRaw, hValid, rfl⟩
  · rintro ⟨raw, hRaw, hValid, rfl⟩
    exact ⟨_, ⟨_, rfl, nofun, raw, hRaw, hValid, rfl⟩, rfl⟩

theorem parseText_ok_iff {source : String} : parseText compose source = .ok d ↔
    ∃ node root document data, compose source = .ok (some node) ∧ node.asMapping? = some root ∧
      node.construct = .ok document ∧ document.asDict? = some data ∧ RootFits data root ∧
        ∃ raw, Describes data raw ∧ raw.Valid ∧ d = raw.normalise.toDict := by
  unfold parseText
  split
  · rename_i exc hCompose
    simp [hCompose]
  · rename_i hCompose
    simp [hCompose]
  · rename_i node hCompose
    split
    · rename_i hMapping
      simp [hCompose, hMapping]
    · rename_i root hMapping
      simp only [bind_eq_ok_iff, validateRootDict_ok_iff, ok_eq_ok_iff, Option.mem_some_iff, forall_eq']
      constructor
      · rintro ⟨document, hDocument, _, ⟨data, hData, hFits, raw, hRaw, hValid, rfl⟩, rfl⟩
        exact ⟨node, root, document, data, hCompose, hMapping, hDocument, hData, hFits, raw, hRaw, hValid, rfl⟩
      · rintro ⟨_, _, document, data, hCompose', hMapping', hDocument, hData, hFits, raw, hRaw, hValid, rfl⟩
        cases hCompose.symm.trans hCompose'
        cases hMapping.symm.trans hMapping'
        exact ⟨document, hDocument, _, ⟨data, hData, hFits, raw, hRaw, hValid, rfl⟩, rfl⟩

/-- Whatever the source, an answer is the normal form of the valid pipeline that its document describes. -/
theorem exists_of_parse_ok {source : Source} (h : parseAndValidate compose source = .ok d) :
    ∃ data raw, source.document? compose = some data ∧ Describes data raw ∧ raw.Valid ∧
      d = raw.normalise.toDict := by
  have hText : ∀ {text : String}, parseText compose text = .ok d → ∃ data raw,
      textDocument? compose text = some data ∧ Describes data raw ∧ raw.Valid ∧ d = raw.normalise.toDict := by
    intro text hText
    obtain ⟨node, root, document, data, hCompose, -, hDocument, hData, -, raw, hRaw, hValid, rfl⟩ :=
      parseText_ok_iff.mp hText
    exact ⟨data, raw, by simp [textDocument?, hCompose, hDocument, hData], hRaw, hValid, rfl⟩
  cases source with
  | text source => exact hText h
  | bytes bs =>
    rw [parseAndValidate] at h
    split at h
    · cases h
    · rename_i text hDecode
      obtain ⟨data, raw, hDocument, hRaw⟩ := hText h
      exact ⟨data, raw, by simp [Source.document?, hDecode, hDocument], hRaw⟩
  | dict assignments =>
    obtain ⟨raw, hRaw⟩ := parse_dict_ok_iff.mp h
    exact ⟨Dict.ofList assignments, raw, rfl, hRaw⟩

end

end Forge.Engine.PipelineParser
