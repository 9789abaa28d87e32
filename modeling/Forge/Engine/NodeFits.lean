import Forge.Engine.PipelineSchema

/-! # Nodes that fit

What the checks of nodes, of values and of single items come to: the nodes fit the data, the data describes an
item, and the item is valid.
-/
namespace Forge.Engine.PipelineParser
open Forge.Python Forge.Registry Forge.Theory
set_option autoImplicit false

/-! ## Mappings -/

/-- All keys are scalars with the text of an allowed key. -/
def KeysWithin (allowed : List String) (pairs : List (Node × Node)) : Prop :=
  ∀ pair ∈ pairs, ∃ key ∈ allowed, pair.1.asScalar? = some key

def MappingFits (allowed : List String) (node : Node) : Prop :=
  ∀ mapping, node.asMapping? = some mapping → KeysWithin allowed mapping.value

def firstNode? (name : String) (pairs : List (Node × Node)) : Option Node :=
  (pairs.find? fun pair => pair.1.asScalar? = some name).map Prod.snd

section
variable {allowed required : List String} {context : FString} {pairs : List (Node × Node)}

theorem expectScalar_ok_iff {node : Node} {s : String} :
    expectScalar node context = .ok s ↔ node.asScalar? = some s :=
  expect_ok_iff

theorem checkUnknownKeys_ok_iff : checkUnknownKeys allowed context pairs = .ok () ↔ KeysWithin allowed pairs := by
  induction pairs with
  | nil => simp [checkUnknownKeys, KeysWithin]
  | cons pair pairs ih =>
    obtain ⟨keyNode, value⟩ := pair
    rw [checkUnknownKeys, bind_eq_ok_iff, KeysWithin, List.forall_mem_cons]
    simp only [expectScalar_ok_iff]
    constructor
    · rintro ⟨key, hKey, h⟩
      split at h
      · rename_i hAllowed
        exact ⟨⟨key, hAllowed, hKey⟩, ih.mp h⟩
      · cases h
    · rintro ⟨⟨key, hAllowed, hKey⟩, h⟩
      exact ⟨key, hKey, by rw [if_pos hAllowed]; exact ih.mpr h⟩

theorem keyLines_ok (h : KeysWithin allowed pairs) (lines : Dict String Nat) :
    ∃ result, keyLines context pairs lines = .ok result := by
  induction pairs generalizing lines with
  | nil => exact ⟨lines, rfl⟩
  | cons pair pairs ih =>
    obtain ⟨keyNode, value⟩ := pair
    rw [KeysWithin, List.forall_mem_cons] at h
    obtain ⟨⟨key, -, hKey⟩, hRest⟩ := h
    obtain ⟨result, hResult⟩ := ih hRest (lines.set key keyNode.line)
    refine ⟨result, ?_⟩
    rw [keyLines, bind_eq_ok_iff]
    exact ⟨key, expectScalar_ok_iff.mpr hKey, hResult⟩

theorem find_missing_iff {data : Dict Key Value} : (required.find? fun key => Key.str key ∉ data.keys) = none ↔
    ∀ key ∈ required, Key.str key ∈ data.keys := by
  simp [List.find?_eq_none]

theorem requireKeys_ok {data : Dict Key Value} {node : MappingNode} (h : KeysWithin allowed node.value)
    (hRequired : ∀ key ∈ required, Key.str key ∈ data.keys) : requireKeys data node required context = .ok () := by
  obtain ⟨lines, hLines⟩ := keyLines_ok h .empty
  rw [requireKeys, bind_eq_ok_iff]
  refine ⟨lines, hLines, ?_⟩
  rw [find_missing_iff.mpr hRequired]

theorem checkKeys_ok_iff {data : Dict Key Value} {line : Nat} :
    checkKeys data allowed required context line = .ok () ↔ HasKeys data allowed required := by
  rw [checkKeys, HasKeys, ← find_missing_iff]
  cases hMissing : required.find? fun key => Key.str key ∉ data.keys with
  | some key => simp
  | none =>
    have hKnown : (data.keys.find? fun key => key ∉ allowed.map Key.str) = none ↔
        ∀ key ∈ data.keys, key ∈ allowed.map Key.str := by
      simp [List.find?_eq_none]
    rw [← hKnown]
    cases data.keys.find? fun key => key ∉ allowed.map Key.str with
    | some key => simp
    | none => simp

theorem checkMapping_ok_iff {node : Option Node} {data : Dict Key Value} {nodeContext : FString} {line : Nat} :
    checkMapping node data allowed required nodeContext context line = .ok () ↔
      (∀ n ∈ node, MappingFits allowed n) ∧ HasKeys data allowed required := by
  rw [checkMapping, bind_eq_ok_iff]
  constructor
  · rintro ⟨_, hNode, hKeys⟩
    refine ⟨?_, checkKeys_ok_iff.mp hKeys⟩
    rintro n rfl mapping hMapping
    rw [checkNode, Option.bind_some, hMapping] at hNode
    obtain ⟨_, hUnknown, -⟩ := bind_eq_ok_iff.mp hNode
    exact checkUnknownKeys_ok_iff.mp hUnknown
  · rintro ⟨hFits, hKeys⟩
    refine ⟨(), ?_, checkKeys_ok_iff.mpr hKeys⟩
    rw [checkNode]
    split
    · rfl
    · rename_i mapping hMapping
      obtain ⟨n, hNode, hMapping⟩ := Option.bind_eq_some_iff.mp hMapping
      have hWithin := hFits n hNode mapping hMapping
      exact bind_eq_ok_iff.mpr ⟨(), checkUnknownKeys_ok_iff.mpr hWithin, requireKeys_ok hWithin hKeys.1⟩

theorem firstValue_eq (h : KeysWithin allowed pairs) (name : String) :
    firstValue name pairs = .ok (firstNode? name pairs) := by
  induction pairs with
  | nil => rfl
  | cons pair pairs ih =>
    obtain ⟨keyNode, value⟩ := pair
    rw [KeysWithin, List.forall_mem_cons] at h
    obtain ⟨⟨key, -, hKey⟩, hRest⟩ := h
    have hValue := ih hRest
    rw [firstNode?] at hValue
    rw [firstValue, expectScalar_ok_iff.mpr hKey, firstNode?, List.find?_cons, hKey]
    by_cases hName : key = name
    · simp [hName, bind, Except.bind]
    · simpa [hName, bind, Except.bind] using hValue

end

theorem expectSequence_ok_iff {node : Node} {context : FString} {nodes : List Node} :
    expectSequence node context = .ok nodes ↔ node.asSequence? = some nodes :=
  expect_ok_iff

theorem expectMapping_ok_iff {node : Node} {context : FString} {mapping : MappingNode} :
    expectMapping node context = .ok mapping ↔ node.asMapping? = some mapping :=
  expect_ok_iff

/-! ## Values -/

theorem ite_fail_ok_iff {α : Type} {p : Prop} [Decidable p] {message : FString} {line : Option Nat}
    {next : Except Exc α} {x : α} : (if p then fail message line else next) = .ok x ↔ ¬p ∧ next = .ok x := by
  split
  · rename_i hp
    exact ⟨fun h => absurd h fail_ne_ok, fun h => absurd hp h.1⟩
  · rename_i hp
    exact ⟨fun h => ⟨hp, h⟩, fun h => h.2⟩

theorem ite_ok_fail_iff {α : Type} {p : Prop} [Decidable p] {message : FString} {line : Option Nat} {x y : α} :
    (if p then Except.ok x else fail message line) = .ok y ↔ y = x ∧ p := by
  split
  · rename_i hp
    rw [ok_eq_ok_iff]
    exact ⟨fun h => ⟨h, hp⟩, fun h => h.1⟩
  · rename_i hp
    exact ⟨fun h => absurd h fail_ne_ok, fun h => absurd h.2 hp⟩

theorem expectDict_ok_iff {value : Value} {message : FString} {line : Nat} {data : Dict Key Value} :
    expectDict value message line = .ok data ↔ value.asDict? = some data :=
  expect_ok_iff

theorem expectStr_ok_iff {value : Value} {check : String → Bool} {message : FString} {line : Nat} {s : String} :
    expectStr value check message line = .ok s ↔ value = .str s ∧ check s = true := by
  have hText : ∀ text, value.asStr? = some text ↔ value = .str text := by
    cases value <;> simp [Value.asStr?]
  unfold expectStr
  rw [← hText]
  cases value.asStr? with
  | none => simp
  | some text =>
    simp only [Option.some.injEq, ite_ok_fail_iff]
    exact ⟨fun ⟨hEq, hCheck⟩ => ⟨hEq.symm, hEq ▸ hCheck⟩, fun ⟨hEq, hCheck⟩ => ⟨hEq.symm, hEq ▸ hCheck⟩⟩

theorem validateRelativePath_ok_iff {path : String} {line : Option Nat} :
    validateRelativePath path line = .ok () ↔ ValidPath path := by
  unfold validateRelativePath
  split
  · rename_i hEmpty
    exact ⟨fun h => absurd h fail_ne_ok, fun h => absurd hEmpty h.nonempty⟩
  · rename_i hNonempty
    split
    · rename_i hAbsolute
      refine ⟨fun h => absurd h fail_ne_ok, fun h => ?_⟩
      rw [h.relative, h.drive] at hAbsolute
      cases hAbsolute
    · rename_i hRelative
      split
      · rename_i hParent
        exact ⟨fun h => absurd h fail_ne_ok, fun h => absurd hParent h.parent⟩
      · rename_i hParent
        rw [Bool.or_eq_true, not_or, Bool.not_eq_true, Bool.not_eq_true] at hRelative
        exact ⟨fun _ => ⟨hNonempty, hRelative.1, hRelative.2, hParent⟩, fun _ => rfl⟩

theorem validateImageRef_ok_iff {image : String} {line : Option Nat} : validateImageRef image line = .ok () ↔
    image ≠ "" ∧ imageRefPattern.matchAnchored image = true := by
  unfold validateImageRef
  split
  · rename_i hInvalid
    refine ⟨fun h => absurd h fail_ne_ok, fun h => ?_⟩
    simp [h.1, h.2] at hInvalid
  · rename_i hValid
    simp only [Bool.or_eq_true, decide_eq_true_eq, Bool.not_eq_eq_eq_not, Bool.not_true, not_or,
      Bool.not_eq_false] at hValid
    exact ⟨fun _ => hValid, fun _ => rfl⟩

theorem validateCpu_ok_iff {cpu : Value} {line : Option Nat} {x : PyFloat} :
    validateCpu cpu line = .ok x ↔ cpu.toFloat = .ok x ∧ x.nonpos = false := by
  unfold validateCpu
  cases cpu.toFloat with
  | error e => cases e <;> simp
  | ok value =>
    cases hSign : value.nonpos with
    | true =>
      simp only [hSign, if_true, fail_ne_ok, Except.ok.injEq, false_iff, not_and]
      rintro rfl
      simp [hSign]
    | false =>
      simp only [hSign, Bool.false_eq_true, if_false, Except.ok.injEq]
      exact ⟨fun h => ⟨h, h ▸ hSign⟩, fun h => h.1⟩

/-! ## Items -/

/-- The items that have a node at their index fit it. -/
def ItemsFit {β : Type} (Fits : β → Node → Prop) (items : List β) (nodes : List Node) : Prop :=
  ∀ pair ∈ items.zip nodes, Fits pair.1 pair.2

section
variable {α β γ : Type} {Fits : β → Node → Prop}

theorem itemsFit_nil (items : List β) : ItemsFit Fits items [] := by
  rw [ItemsFit, List.zip_nil_right]
  exact fun _ h => absurd h List.not_mem_nil

theorem itemsFit_cons {item : β} {items : List β} {nodes : List Node} : ItemsFit Fits (item :: items) nodes ↔
    (∀ n ∈ nodes.head?, Fits item n) ∧ ItemsFit Fits items nodes.tail := by
  cases nodes with
  | nil => simp [itemsFit_nil]
  | cons node nodes => simp [ItemsFit]

theorem forItems_ok_iff {parse : β → Option Node → Except Exc α} {Reads : β → γ → Prop} {Valid : γ → Prop}
    {normalise : γ → α} (h : ∀ item node x, parse item node = .ok x ↔
      (∀ n ∈ node, Fits item n) ∧ ∃ raw, Reads item raw ∧ Valid raw ∧ x = normalise raw)
    {items : List β} {nodes : List Node} {xs : List α} : forItems parse items nodes = .ok xs ↔
      ItemsFit Fits items nodes ∧
        ∃ raws, List.Forall₂ Reads items raws ∧ (∀ raw ∈ raws, Valid raw) ∧ xs = raws.map normalise := by
  induction items generalizing nodes xs with
  | nil =>
    rw [readings_nil, forItems, ok_eq_ok_iff]
    exact ⟨fun hEq => ⟨fun _ hMem => absurd hMem List.not_mem_nil, hEq⟩, fun hEq => hEq.2⟩
  | cons item items ih =>
    rw [readings_cons, forItems, itemsFit_cons]
    simp only [bind_eq_ok_iff, h, ih, ok_eq_ok_iff]
    constructor
    · rintro ⟨x, ⟨hFirst, hRaw⟩, rest, ⟨hRest, hRaws⟩, rfl⟩
      exact ⟨⟨hFirst, hRest⟩, x, rest, hRaw, hRaws, rfl⟩
    · rintro ⟨⟨hFirst, hRest⟩, x, rest, hRaw, hRaws, rfl⟩
      exact ⟨x, ⟨hFirst, hRaw⟩, rest, ⟨hRest, hRaws⟩, rfl⟩

end

/-- A sequence that has been looked up is one, and its items fit. -/
def SequenceFits {β : Type} (Fits : β → Node → Prop) (items : List β) (found : Option Node) : Prop :=
  ∀ node ∈ found, ∃ nodes, node.asSequence? = some nodes ∧ ItemsFit Fits items nodes

theorem sequenceNodes_run_iff {β : Type} {Fits : β → Node → Prop} {items : List β} {found : Option Node}
    {context : FString} {p : Prop} :
    (∃ nodes, sequenceNodes found context = .ok nodes ∧ ItemsFit Fits items nodes ∧ p) ↔
      SequenceFits Fits items found ∧ p := by
  cases found with
  | none =>
    simp only [sequenceNodes, ok_eq_ok_iff, exists_eq_left, SequenceFits]
    exact ⟨fun h => ⟨fun _ hMem => (Option.not_mem_none _ hMem).elim, h.2⟩, fun h => ⟨itemsFit_nil items, h.2⟩⟩
  | some node =>
    simp only [sequenceNodes, expectSequence_ok_iff, SequenceFits, Option.mem_some_iff, forall_eq']
    exact ⟨fun ⟨nodes, hNodes, hFits, hp⟩ => ⟨⟨nodes, hNodes, hFits⟩, hp⟩,
      fun ⟨⟨nodes, hNodes, hFits⟩, hp⟩ => ⟨nodes, hNodes, hFits, hp⟩⟩

theorem parseDependency_ok_iff {line : Nat} {item : Value} {node : Option Node} {dep : PipelineDependency} :
    parseDependency line item node = .ok dep ↔ (∀ n ∈ node, MappingFits depKeys n) ∧
      ∃ raw, Described DescribesDependency item raw ∧ ValidDependency raw ∧ dep = normaliseDependency raw := by
  unfold parseDependency
  simp only [bind_eq_ok_iff, exists_unit_iff, expectDict_ok_iff, checkMapping_ok_iff, expectStr_ok_iff, ok_eq_ok_iff]
  constructor
  · rintro ⟨data, hData, ⟨hFits, hKeys⟩, name, ⟨hName, hNameValid⟩, version, ⟨hVersion, hVersionValid⟩, rfl⟩
    exact ⟨hFits, ⟨name, version⟩, ⟨data, hData, hKeys, hName, hVersion⟩, ⟨hNameValid, hVersionValid⟩, rfl⟩
  · rintro ⟨hFits, raw, ⟨data, hData, hRaw⟩, hValid, rfl⟩
    exact ⟨data, hData, ⟨hFits, hRaw.keys⟩, raw.name, ⟨hRaw.name, hValid.name⟩, raw.version,
      ⟨hRaw.version, hValid.version⟩, rfl⟩

theorem parseArtifact_ok_iff {line : Nat} {item : Value} {node : Option Node} {artifact : PipelineArtifact} :
    parseArtifact line item node = .ok artifact ↔ (∀ n ∈ node, MappingFits artifactKeys n) ∧
      ∃ raw, Described DescribesArtifact item raw ∧ ValidArtifact raw ∧ artifact = normaliseArtifact raw := by
  unfold parseArtifact
  simp only [bind_eq_ok_iff, exists_unit_iff, expectDict_ok_iff, checkMapping_ok_iff, expectStr_ok_iff,
    validateRelativePath_ok_iff, ok_eq_ok_iff]
  constructor
  · rintro ⟨data, hData, ⟨hFits, hKeys⟩, name, ⟨hName, hNameValid⟩, version, ⟨hVersion, hVersionValid⟩, path,
      ⟨hPath, -⟩, hPathValid, rfl⟩
    exact ⟨hFits, ⟨name, version, path⟩, ⟨data, hData, hKeys, hName, hVersion, hPath⟩,
      ⟨hNameValid, hVersionValid, hPathValid⟩, rfl⟩
  · rintro ⟨hFits, raw, ⟨data, hData, hRaw⟩, hValid, rfl⟩
    exact ⟨data, hData, ⟨hFits, hRaw.keys⟩, raw.name, ⟨hRaw.name, hValid.name⟩, raw.version,
      ⟨hRaw.version, hValid.version⟩, raw.path, ⟨hRaw.path, trivial⟩, hValid.path, rfl⟩

/-! ## Steps -/

theorem parseStep_ok_iff {jobName : String} {line : Nat} {stepNames : List String} {item : Value}
    {node : Option Node} {step : PipelineStep} : parseStep jobName line stepNames item node = .ok step ↔
      (∀ n ∈ node, MappingFits stepKeys n) ∧ Described DescribesStep item step ∧ ValidStep step ∧
        step.name ∉ stepNames := by
  unfold parseStep
  simp only [bind_eq_ok_iff, exists_unit_iff, expectDict_ok_iff, checkMapping_ok_iff, expectStr_ok_iff,
    ite_fail_ok_iff, ok_eq_ok_iff]
  constructor
  · rintro ⟨data, hData, ⟨hFits, hKeys⟩, name, ⟨hName, hNameValid⟩, hFresh, run, ⟨hRun, hRunValid⟩, rfl⟩
    exact ⟨hFits, ⟨data, hData, hKeys, hName, hRun⟩, ⟨hNameValid, hRunValid⟩, hFresh⟩
  · rintro ⟨hFits, ⟨data, hData, hRaw⟩, hValid, hFresh⟩
    exact ⟨data, hData, ⟨hFits, hRaw.keys⟩, step.name, ⟨hRaw.name, hValid.name⟩, hFresh, step.run,
      ⟨hRaw.run, hValid.run⟩, rfl⟩

theorem parseStepItems_ok_iff {jobName : String} {line : Nat} {stepNames : List String} {items : List Value}
    {nodes : List Node} {steps : List PipelineStep} :
    parseStepItems jobName line stepNames items nodes = .ok steps ↔
      ItemsFit (fun _ => MappingFits stepKeys) items nodes ∧
        ∃ raws, List.Forall₂ (Described DescribesStep) items raws ∧ (∀ raw ∈ raws, ValidStep raw) ∧
          (raws.map PipelineStep.name).Nodup ∧ (∀ raw ∈ raws, raw.name ∉ stepNames) ∧
          steps = raws.map normaliseStep := by
  induction items generalizing stepNames nodes steps with
  | nil =>
    rw [parseStepItems, ok_eq_ok_iff]
    constructor
    · rintro rfl
      exact ⟨fun _ h => absurd h List.not_mem_nil, [], by simp⟩
    · rintro ⟨-, raws, hReads, -, -, -, rfl⟩
      rw [List.forall₂_nil_left_iff.mp hReads, List.map_nil]
  | cons item items ih =>
    rw [parseStepItems, itemsFit_cons]
    simp only [bind_eq_ok_iff, parseStep_ok_iff, ih, ok_eq_ok_iff]
    constructor
    · rintro ⟨raw, ⟨hFits, hRaw, hValid, hFresh⟩, _, ⟨hRestFits, raws, hRaws, hValids, hNodup, hFreshRest, rfl⟩, rfl⟩
      refine ⟨⟨hFits, hRestFits⟩, raw :: raws, .cons hRaw hRaws, List.forall_mem_cons.mpr ⟨hValid, hValids⟩, ?_,
        List.forall_mem_cons.mpr ⟨hFresh, fun r hr hMem => hFreshRest r hr (List.mem_cons_of_mem _ hMem)⟩, rfl⟩
      rw [List.map_cons, List.nodup_cons, List.mem_map]
      refine ⟨?_, hNodup⟩
      rintro ⟨other, hOther, hName⟩
      exact hFreshRest other hOther (hName ▸ List.mem_cons_self)
    · rintro ⟨⟨hFits, hRestFits⟩, _, hReads, hValids, hNodup, hFresh, rfl⟩
      obtain ⟨raw, raws, hRaw, hRaws, rfl⟩ := List.forall₂_cons_left_iff.mp hReads
      rw [List.forall_mem_cons] at hValids hFresh
      rw [List.map_cons, List.nodup_cons, List.mem_map] at hNodup
      refine ⟨raw, ⟨hFits, hRaw, hValids.1, hFresh.1⟩, _, ⟨hRestFits, raws, hRaws, hValids.2, hNodup.2, ?_, rfl⟩, rfl⟩
      intro other hOther hMem
      rcases List.mem_cons.mp hMem with hName | hMem
      · exact hNodup.1 ⟨other, hOther, hName⟩
      · exact hFresh.2 other hOther hMem

end Forge.Engine.PipelineParser
