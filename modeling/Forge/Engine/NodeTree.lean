import Forge.Engine.Acceptance

/-! # Texts and the dictionaries that they stand for

A text is accepted when its dictionary is and its nodes fit. Nodes and data are paired by the first key with a
text and by the index, so they fit in every document that repeats no key; a repeated key may pair a value with
the node of another one.
-/
namespace Forge.Engine.PipelineParser
open Forge.Python Forge.Registry Forge.Theory
set_option autoImplicit false

/-! ## Plain documents -/

mutual

/-- Keys are untagged texts that differ, and only untagged nodes give lists and dictionaries. -/
def Node.Plain : Node → Prop
  | .scalar _ _ tagged => ∀ value, tagged = some (.ok value) → value.asList? = none ∧ value.asDict? = none
  | .sequence _ value tagged => tagged = none ∧ PlainItems value
  | .mapping _ value tagged => tagged = none ∧ (value.map fun pair => pair.1.asScalar?).Nodup ∧ PlainPairs value

def PlainItems : List Node → Prop
  | [] => True
  | node :: nodes => node.Plain ∧ PlainItems nodes

def PlainPairs : List (Node × Node) → Prop
  | [] => True
  | (keyNode, valueNode) :: pairs =>
    (∃ startLine key, keyNode = .scalar startLine key none) ∧ valueNode.Plain ∧ PlainPairs pairs

end

/-- A plain node and the value that the loader makes of it. -/
def Makes (node : Node) (value : Value) : Prop := node.Plain ∧ node.construct = .ok value

def MakesEntry (pair : Node × Node) (entry : Key × Value) : Prop :=
  ∃ key, pair.1.asScalar? = some key ∧ entry.1 = .str key ∧ Makes pair.2 entry.2

theorem makes_items {nodes : List Node} {items : List Value} (h : PlainItems nodes)
    (hConstruct : Node.constructItems nodes = .ok items) : List.Forall₂ Makes nodes items := by
  induction nodes generalizing items with
  | nil =>
    cases hConstruct
    exact .nil
  | cons node nodes ih =>
    simp only [Node.constructItems, bind_eq_ok_iff, ok_eq_ok_iff] at hConstruct
    obtain ⟨item, hItem, rest, hRest, rfl⟩ := hConstruct
    exact .cons ⟨h.1, hItem⟩ (ih h.2 hRest)

theorem makes_entries {pairs : List (Node × Node)} {entries : List (Key × Value)} (h : PlainPairs pairs)
    (hConstruct : Node.constructPairs pairs = .ok entries) : List.Forall₂ MakesEntry pairs entries := by
  induction pairs generalizing entries with
  | nil =>
    cases hConstruct
    exact .nil
  | cons pair pairs ih =>
    obtain ⟨keyNode, valueNode⟩ := pair
    obtain ⟨⟨startLine, key, rfl⟩, hValue, hPairs⟩ := h
    simp only [Node.constructPairs, Node.construct, bind_eq_ok_iff, ok_eq_ok_iff, exists_eq_left, Value.asKey?]
      at hConstruct
    obtain ⟨value, hMade, rest, hRest, rfl⟩ := hConstruct
    exact .cons ⟨key, rfl, rfl, hValue, hMade⟩ (ih hPairs hRest)

theorem Makes.list {node : Node} {items : List Value} (h : Makes node (.list items)) :
    ∃ nodes, node.asSequence? = some nodes ∧ List.Forall₂ Makes nodes items := by
  obtain ⟨hPlain, hConstruct⟩ := h
  cases node with
  | scalar startLine value tagged =>
    cases tagged with
    | none => cases hConstruct
    | some result =>
      have hResult : some result = some (.ok (.list items)) := congrArg some hConstruct
      cases (hPlain _ hResult).1
  | sequence startLine value tagged =>
    obtain ⟨rfl, hItems⟩ := hPlain
    simp only [Node.construct, bind_eq_ok_iff, ok_eq_ok_iff, Value.list.injEq] at hConstruct
    obtain ⟨_, hMade, rfl⟩ := hConstruct
    exact ⟨value, rfl, makes_items hItems hMade⟩
  | mapping startLine value tagged =>
    obtain ⟨rfl, -⟩ := hPlain
    simp only [Node.construct, bind_eq_ok_iff, ok_eq_ok_iff] at hConstruct
    obtain ⟨_, -, hEq⟩ := hConstruct
    cases hEq

def keyText? : Key → Option String
  | .str s => some s
  | _ => none

/-- The entries of a dictionary come in the order of the pairs of its node. -/
theorem Makes.dict {node : Node} {value : Value} {data : Dict Key Value} (h : Makes node value)
    (hData : value.asDict? = some data) :
    ∃ mapping, node.asMapping? = some mapping ∧ List.Forall₂ MakesEntry mapping.value data.entries := by
  obtain ⟨hPlain, hConstruct⟩ := h
  cases node with
  | scalar startLine text tagged =>
    cases tagged with
    | none =>
      cases hConstruct
      cases hData
    | some result =>
      have hResult : some result = some (.ok value) := congrArg some hConstruct
      cases (hPlain _ hResult).2.symm.trans hData
  | sequence startLine nodes tagged =>
    obtain ⟨rfl, -⟩ := hPlain
    simp only [Node.construct, bind_eq_ok_iff, ok_eq_ok_iff] at hConstruct
    obtain ⟨_, -, rfl⟩ := hConstruct
    cases hData
  | mapping startLine pairs tagged =>
    obtain ⟨rfl, hNodup, hPairs⟩ := hPlain
    simp only [Node.construct, bind_eq_ok_iff, ok_eq_ok_iff] at hConstruct
    obtain ⟨assignments, hMade, rfl⟩ := hConstruct
    cases hData
    have hEntries := makes_entries hPairs hMade
    have hKeys : (pairs.map fun pair => pair.1.asScalar?) = (assignments.map Prod.fst).map keyText? := by
      rw [List.map_map]
      refine map_eq_map_of_forall₂ ?_ hEntries
      rintro pair entry ⟨key, hKey, hEntry, -⟩
      rw [hKey, Function.comp_apply, hEntry, keyText?]
    refine ⟨⟨startLine, pairs, none⟩, rfl, ?_⟩
    rw [Dict.entries_ofList (List.Nodup.of_map keyText? (hKeys ▸ hNodup))]
    exact hEntries

section
variable {pairs : List (Node × Node)} {data : Dict Key Value} {allowed required : List String}

theorem keysWithin_of_makes (h : List.Forall₂ MakesEntry pairs data.entries) (hKeys : HasKeys data allowed required) :
    KeysWithin allowed pairs := by
  intro pair hPair
  obtain ⟨entry, hEntry, key, hKey, hText, -⟩ := exists_of_mem_forall₂ h hPair
  have hAllowed := hKeys.2 entry.1 (List.mem_map_of_mem hEntry)
  rw [hText] at hAllowed
  obtain ⟨_, hMem, hEq⟩ := List.mem_map.mp hAllowed
  cases hEq
  exact ⟨key, hMem, hKey⟩

theorem makes_of_firstNode? (h : List.Forall₂ MakesEntry pairs data.entries) {name : String} {node : Node}
    (hFound : firstNode? name pairs = some node) : ∃ value, data.get? (.str name) = some value ∧ Makes node value := by
  obtain ⟨pair, hPair, rfl⟩ := Option.map_eq_some_iff.mp hFound
  have hName := List.find?_some hPair
  obtain ⟨entry, hEntry, key, hKey, hText, hMakes⟩ := exists_of_mem_forall₂ h (List.mem_of_find?_eq_some hPair)
  rw [hKey, decide_eq_true_eq, Option.some.injEq] at hName
  subst hName
  exact ⟨entry.2, Dict.get?_eq_some_iff.mpr (hText ▸ hEntry), hMakes⟩

theorem Makes.getItem (h : List.Forall₂ MakesEntry pairs data.entries) {name : String} {node : Node}
    (hFound : firstNode? name pairs = some node) : Makes node (getItem data name) := by
  obtain ⟨value, hValue, hMakes⟩ := makes_of_firstNode? h hFound
  rw [PipelineParser.getItem, Dict.getD, hValue]
  exact hMakes

end

theorem Makes.mappingFits {node : Node} {value : Value} {data : Dict Key Value} {allowed required : List String}
    (h : Makes node value) (hData : value.asDict? = some data) (hKeys : HasKeys data allowed required) :
    MappingFits allowed node := by
  intro mapping hMapping
  obtain ⟨_, hMapping', hEntries⟩ := h.dict hData
  cases hMapping.symm.trans hMapping'
  exact keysWithin_of_makes hEntries hKeys

/-- The items of a list fit the nodes that they are made of. -/
theorem sequenceFits_of_makes {found : Option Node} {items : List Value} {α : Type}
    {describes : Dict Key Value → α → Prop} {xs : List α} {allowed required : List String}
    (h : ∀ node ∈ found, Makes node (.list items)) (hItems : List.Forall₂ (Described describes) items xs)
    (hKeys : ∀ data x, describes data x → HasKeys data allowed required) :
    SequenceFits (fun _ => MappingFits allowed) items found := by
  intro node hNode
  obtain ⟨nodes, hNodes, hMakes⟩ := (h node hNode).list
  refine ⟨nodes, hNodes, fun pair hPair => ?_⟩
  obtain ⟨x, -, data, hData, hDescribes⟩ := exists_of_mem_forall₂ hItems (List.of_mem_zip hPair).1
  have hMade : Makes pair.2 pair.1 := List.forall₂_zip hMakes.flip hPair
  exact hMade.mappingFits hData (hKeys data x hDescribes)

theorem asMapping?_eq {node : Node} {mapping : MappingNode} (h : node.asMapping? = some mapping) :
    node = mapping.node := by
  cases node with
  | mapping startLine value tagged =>
    cases h
    rfl
  | scalar startLine value tagged => cases h
  | sequence startLine value tagged => cases h

theorem Makes.jobFits {node : Node} {entry : Key × Value} {job : PipelineJob} (h : Makes node entry.2)
    (hJob : Described DescribesJob entry.2 job) : JobFits entry node := by
  obtain ⟨data, hData, hJob⟩ := hJob
  have hKeys := h.mappingFits hData hJob.keys
  obtain ⟨mapping, hMapping, hEntries⟩ := h.dict hData
  cases asMapping?_eq hMapping
  refine ⟨hKeys, rfl, fun resources hFound => ?_, ?_⟩
  · obtain ⟨inner, hInner, hResources⟩ := hJob.resources
    exact (Makes.getItem hEntries hFound).mappingFits hInner hResources.keys
  · obtain ⟨items, hItems, hSteps⟩ := hJob.steps
    rw [stepItems_eq hData, hItems]
    refine sequenceFits_of_makes (fun steps hFound => ?_) hSteps fun _ _ hStep => hStep.keys
    exact hItems ▸ Makes.getItem hEntries hFound

theorem optionalItems_fit {pairs : List (Node × Node)} {data : Dict Key Value} {name : String} {α : Type}
    {describes : Dict Key Value → α → Prop} {xs : List α} {allowed required : List String} {items : List Value}
    (h : List.Forall₂ MakesEntry pairs data.entries)
    (hDescribes : DescribesOptional describes (data.getD (.str name) (.list [])) xs)
    (hItems : data.getD (.str name) (.list []) = .list items)
    (hKeys : ∀ data x, describes data x → HasKeys data allowed required) :
    SequenceFits (fun _ => MappingFits allowed) items (firstNode? name pairs) := by
  obtain ⟨hNone, -⟩ | ⟨_, hItems', hRead⟩ := hDescribes
  · cases hNone.symm.trans hItems
  · cases hItems.symm.trans hItems'
    refine sequenceFits_of_makes (fun node hFound => ?_) hRead hKeys
    obtain ⟨value, hValue, hMakes⟩ := makes_of_firstNode? h hFound
    rw [Dict.getD, hValue] at hItems
    exact hItems ▸ hMakes

/-- The nodes of a plain document fit its data. -/
theorem rootFits_of_plain {root : MappingNode} {value : Value} {data : Dict Key Value} {raw : Pipeline}
    (h : Makes root.node value) (hData : value.asDict? = some data) (hRaw : Describes data raw) :
    RootFits data root := by
  obtain ⟨_, hMapping, hEntries⟩ := h.dict hData
  cases hMapping
  refine ⟨keysWithin_of_makes hEntries hRaw.keys, fun items hItems => ?_, fun jobs hJobs => ?_, fun items hItems => ?_⟩
  · exact optionalItems_fit hEntries hRaw.dependencies hItems fun _ _ hDep => hDep.keys
  · obtain ⟨_, hJobs', hRead⟩ := hRaw.jobs
    cases hJobs.symm.trans hJobs'
    intro node hFound
    obtain ⟨mapping, hMapping, hJobEntries⟩ := (Makes.getItem hEntries hFound).dict hJobs
    refine ⟨mapping, hMapping, fun pair hPair => ?_⟩
    obtain ⟨job, -, -, hJob⟩ := exists_of_mem_forall₂ hRead (List.of_mem_zip hPair).1
    have hMakes : List.Forall₂ (fun entry valueNode => Makes valueNode entry.2) jobs.entries
        (mapping.value.map Prod.snd) := by
      rw [List.forall₂_map_right_iff]
      exact hJobEntries.flip.imp fun entry pair ⟨_, _, _, hMakes⟩ => hMakes
    exact (List.forall₂_zip hMakes hPair).jobFits hJob
  · exact optionalItems_fit hEntries hRaw.artifacts hItems fun _ _ hArtifact => hArtifact.keys

/-! ## Texts and dictionaries -/

section
variable {compose : YamlModule} {source : String} {root : MappingNode} {assignments : List (Key × Value)}

theorem parse_text_ok_iff (hCompose : compose source = .ok (some root.node))
    (hConstruct : root.node.construct = .ok (.dict assignments)) {d : Value} :
    parseAndValidate compose (.text source) = .ok d ↔
      RootFits (Dict.ofList assignments) root ∧ parseAndValidate compose (.dict assignments) = .ok d := by
  rw [parse_dict_ok_iff, parseAndValidate, parseText_ok_iff]
  constructor
  · rintro ⟨node, mapping, document, data, hNode, hMapping, hDocument, hData, hFits, hRaw⟩
    cases hCompose.symm.trans hNode
    cases hMapping
    cases hConstruct.symm.trans hDocument
    cases hData
    exact ⟨hFits, hRaw⟩
  · rintro ⟨hFits, hRaw⟩
    exact ⟨root.node, root, .dict assignments, Dict.ofList assignments, hCompose, rfl, hConstruct, rfl, hFits, hRaw⟩

/-- A text and its dictionary are answered alike if and only if the document is not valid anyway or its nodes fit
its data. -/
theorem parse_text_agrees_iff (hCompose : compose source = .ok (some root.node))
    (hConstruct : root.node.construct = .ok (.dict assignments)) :
    (∀ d, parseAndValidate compose (.text source) = .ok d ↔
        parseAndValidate compose (.dict assignments) = .ok d) ↔
      ((∃ raw, Describes (Dict.ofList assignments) raw ∧ raw.Valid) → RootFits (Dict.ofList assignments) root) := by
  constructor
  · rintro hAgree ⟨raw, hRaw, hValid⟩
    have hDict : parseAndValidate compose (.dict assignments) = .ok raw.normalise.toDict :=
      parse_dict_ok_iff.mpr ⟨raw, hRaw, hValid, rfl⟩
    exact ((parse_text_ok_iff hCompose hConstruct).mp ((hAgree _).mpr hDict)).1
  · intro hFits d
    rw [parse_text_ok_iff hCompose hConstruct]
    refine ⟨fun h => h.2, fun h => ⟨?_, h⟩⟩
    obtain ⟨raw, hRaw, hValid, -⟩ := parse_dict_ok_iff.mp h
    exact hFits ⟨raw, hRaw, hValid⟩

theorem parse_text_of_plain (hPlain : root.node.Plain) (hCompose : compose source = .ok (some root.node))
    (hConstruct : root.node.construct = .ok (.dict assignments)) {d : Value} :
    parseAndValidate compose (.text source) = .ok d ↔ parseAndValidate compose (.dict assignments) = .ok d := by
  rw [parse_text_ok_iff hCompose hConstruct]
  refine ⟨fun h => h.2, fun h => ⟨?_, h⟩⟩
  obtain ⟨raw, hRaw, -⟩ := parse_dict_ok_iff.mp h
  exact rootFits_of_plain ⟨hPlain, hConstruct⟩ rfl hRaw

end

def textNode (line : Nat) (text : String) : Node := .scalar line text none

/-- The mapping of a valid job that starts at a line. -/
def jobNode (line : Nat) : Node :=
  .mapping line [(textNode line "runtime", textNode line "python:3.12"),
    (textNode (line + 1) "resources",
      .mapping (line + 2) [(textNode (line + 2) "cpu", .scalar (line + 2) "1" (some (.ok (.int 1)))),
        (textNode (line + 3) "memory", textNode (line + 3) "512Mi")] none),
    (textNode (line + 4) "steps",
      .sequence (line + 5) [.mapping (line + 5) [(textNode (line + 5) "name", textNode (line + 5) "test"),
        (textNode (line + 6) "run", textNode (line + 6) "make test")] none] none)] none

def rootNode (jobs : List (Node × Node)) : MappingNode where
  startLine := 0
  value := [(textNode 0 "name", textNode 0 "demo"), (textNode 1 "version", textNode 1 "1.0.0"),
    (textNode 2 "jobs", .mapping 3 jobs none)]
  tagged := none

def loads (root : MappingNode) : YamlModule := fun _ => .ok (some root.node)

def jobText : String :=
  "    runtime: python:3.12\n    resources:\n      cpu: 1\n      memory: 512Mi\n" ++
    "    steps:\n      - name: test\n        run: make test\n"

def plainText : String := "name: demo\nversion: 1.0.0\njobs:\n  test:\n" ++ jobText

def repeatedText : String := "name: demo\nversion: 1.0.0\njobs:\n  test:\n    image: python\n  test:\n" ++ jobText

def plainRoot : MappingNode := rootNode [(textNode 3 "test", jobNode 4)]

/-- The job is written twice, and only the second time as a job. -/
def repeatedRoot : MappingNode :=
  rootNode [(textNode 3 "test", .mapping 4 [(textNode 4 "image", textNode 4 "python")] none),
    (textNode 5 "test", jobNode 6)]

theorem plain_plainRoot : plainRoot.node.Plain := by
  simp [plainRoot, rootNode, jobNode, textNode, MappingNode.node, Node.Plain, PlainPairs, PlainItems,
    Node.asScalar?, Value.asList?, Value.asDict?]

theorem parse_text_agrees_plain : ∃ assignments d, plainRoot.node.construct = .ok (.dict assignments) ∧
    parseAndValidate (loads plainRoot) (.dict assignments) = .ok d ∧
      parseAndValidate (loads plainRoot) (.text plainText) = .ok d := by
  have hCompose : loads plainRoot plainText = .ok (some plainRoot.node) := rfl
  have hAgree := (parse_text_agrees_iff hCompose rfl).mpr
    fun ⟨raw, hRaw, _⟩ => rootFits_of_plain ⟨plain_plainRoot, rfl⟩ rfl hRaw
  have hOk : (parseAndValidate (loads plainRoot) (.text plainText)).isOk = true := by decide +kernel
  obtain ⟨d, hText⟩ := exists_of_isOk hOk
  exact ⟨_, d, rfl, (hAgree d).mp hText, hText⟩

theorem not_parse_text_agrees : ∃ assignments, repeatedRoot.node.construct = .ok (.dict assignments) ∧
    (∃ d, parseAndValidate (loads repeatedRoot) (.dict assignments) = .ok d) ∧
      ∀ e, parseAndValidate (loads repeatedRoot) (.text repeatedText) ≠ .ok e :=
  ⟨_, rfl, exists_of_isOk (by decide +kernel), ne_ok_of_isOk (by decide +kernel)⟩

end Forge.Engine.PipelineParser
