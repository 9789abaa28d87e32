import Forge.Engine.FieldChecks

/-! # YAML nodes

The nodes that `yaml.compose` makes of a text, the data that `SafeLoader` makes of them, and the checks of
`engine/parser.py` that look at both. The tree is that which the loader leaves, with the merge keys replaced,
and an alias is the node that it stands for; recursive documents are left out. A `frozenset` is gone through
in the order in which it is written: the order of Python is unspecified, and only the choice among several
missing fields depends on it.
-/
namespace Forge.Engine.PipelineParser
open Forge.Python Forge.Registry
set_option autoImplicit false

/-- A node with the line where it starts, counted from 0. The loader makes a text of a scalar, a list of a
sequence and a dictionary of a mapping, unless the tag of the node asks for something else. -/
inductive Node where
  | scalar (startLine : Nat) (value : String) (tagged : Option (Except Exc Value))
  | sequence (startLine : Nat) (value : List Node) (tagged : Option (Except Exc Value))
  | mapping (startLine : Nat) (value : List (Node × Node)) (tagged : Option (Except Exc Value))

structure MappingNode where
  startLine : Nat
  value : List (Node × Node)
  tagged : Option (Except Exc Value)

def MappingNode.node (node : MappingNode) : Node := .mapping node.startLine node.value node.tagged

namespace Node

def line : Node → Nat
  | .scalar startLine _ _ => startLine + 1
  | .sequence startLine _ _ => startLine + 1
  | .mapping startLine _ _ => startLine + 1

def asScalar? : Node → Option String
  | .scalar _ value _ => some value
  | _ => none

def asSequence? : Node → Option (List Node)
  | .sequence _ value _ => some value
  | _ => none

def asMapping? : Node → Option MappingNode
  | .mapping startLine value tagged => some ⟨startLine, value, tagged⟩
  | _ => none

/-! ## Construction -/

mutual

/-- `construct_document`; which of several failing nodes is reported first is left open. -/
def construct : Node → Except Exc Value
  | .scalar _ value none => .ok (.str value)
  | .scalar _ _ (some result) => result
  | .sequence _ value none => do
    let items ← constructItems value
    .ok (.list items)
  | .sequence _ _ (some result) => result
  | .mapping _ value none => do
    let assignments ← constructPairs value
    .ok (.dict assignments)
  | .mapping _ _ (some result) => result

def constructItems : List Node → Except Exc (List Value)
  | [] => .ok []
  | node :: nodes => do
    let item ← construct node
    let items ← constructItems nodes
    .ok (item :: items)

/-- A key that is not hashable is an error of the loader. -/
def constructPairs : List (Node × Node) → Except Exc (List (Key × Value))
  | [] => .ok []
  | (keyNode, valueNode) :: pairs => do
    let object ← construct keyNode
    match object.asKey? with
    | none => .error .yamlError
    | some key =>
      let value ← construct valueNode
      let assignments ← constructPairs pairs
      .ok ((key, value) :: assignments)

end

end Node

/-! ## Checks -/

def expect {α : Type} (found : Option α) (message : FString) (line : Nat) : Except Exc α :=
  match found with
  | some x => .ok x
  | none => fail message (some line)

theorem expect_ok_iff {α : Type} {found : Option α} {message : FString} {line : Nat} {x : α} :
    expect found message line = .ok x ↔ found = some x := by
  unfold expect
  cases found with
  | none => simp
  | some y => simp

def expectMapping (node : Node) (context : FString) : Except Exc MappingNode :=
  expect node.asMapping? (context ++ ([" must be a mapping"] : FString)) node.line

def expectSequence (node : Node) (context : FString) : Except Exc (List Node) :=
  expect node.asSequence? (context ++ ([" must be a sequence"] : FString)) node.line

/-- `_scalar_value` of `_expect_scalar`. -/
def expectScalar (node : Node) (context : FString) : Except Exc String :=
  expect node.asScalar? (context ++ ([" must be a scalar value"] : FString)) node.line

def unknownField (key : Piece) (context : FString) : FString :=
  (["unknown field '", key, "' in "] : FString) ++ context

def missingField (key : String) (context : FString) : FString :=
  (["missing required field '", key, "' in "] : FString) ++ context

def checkUnknownKeys (allowed : List String) (context : FString) : List (Node × Node) → Except Exc Unit
  | [] => .ok ()
  | (keyNode, _) :: pairs => do
    let key ← expectScalar keyNode (context ++ ([" key"] : FString))
    if key ∈ allowed then checkUnknownKeys allowed context pairs
    else fail (unknownField key context) (some keyNode.line)

def keyLines (context : FString) : List (Node × Node) → Dict String Nat → Except Exc (Dict String Nat)
  | [], lines => .ok lines
  | (keyNode, _) :: pairs, lines => do
    let key ← expectScalar keyNode (context ++ ([" key"] : FString))
    keyLines context pairs (lines.set key keyNode.line)

def requireKeys (data : Dict Key Value) (node : MappingNode) (required : List String) (context : FString) :
    Except Exc Unit := do
  let lines ← keyLines context node.value .empty
  match required.find? fun key => Key.str key ∉ data.keys with
  | some key => fail (missingField key context) (some (lines.getD key node.node.line))
  | none => .ok ()

/-- The two checks of a mapping node; there are none where the node is missing or no mapping. -/
def checkNode (node : Option Node) (data : Dict Key Value) (allowed required : List String)
    (context : FString) : Except Exc Unit :=
  match node.bind Node.asMapping? with
  | none => .ok ()
  | some node => do
    checkUnknownKeys allowed context node.value
    requireKeys data node required context

/-- The loop over the required keys and the loop over the keys of the data. -/
def checkKeys (data : Dict Key Value) (allowed required : List String) (context : FString) (line : Nat) :
    Except Exc Unit :=
  match required.find? fun key => Key.str key ∉ data.keys with
  | some key => fail (missingField key context) (some line)
  | none =>
    match data.keys.find? fun key => key ∉ allowed.map Key.str with
    | some key => fail (unknownField key context) (some line)
    | none => .ok ()

/-! ## Lookup -/

/-- The value node of the first key with this text. -/
def firstValue (name : String) : List (Node × Node) → Except Exc (Option Node)
  | [] => .ok none
  | (keyNode, value) :: pairs => do
    let key ← expectScalar keyNode ["key"]
    if key = name then .ok (some value) else firstValue name pairs

/-- `for kn, vn in job_node.value`: the characters of a scalar and the items of a sequence are no pairs. -/
def jobPairs : Node → Except Exc (List (Node × Node))
  | .mapping _ value _ => .ok value
  | .sequence _ [] _ => .ok []
  | .sequence _ (_ :: _) _ => .error .typeError
  | .scalar _ value _ => if value = "" then .ok [] else .error .valueError

def jobValue (jobNode : Option Node) (name : String) : Except Exc (Option Node) :=
  match jobNode with
  | none => .ok none
  | some jobNode => do
    let pairs ← jobPairs jobNode
    firstValue name pairs

/-- The nodes of a sequence that has been looked up. -/
def sequenceNodes (found : Option Node) (context : FString) : Except Exc (List Node) :=
  match found with
  | none => .ok []
  | some node => expectSequence node context

def lineOf (node : Option Node) (defaultLine : Nat) : Nat :=
  match node with
  | some node => node.line
  | none => defaultLine

end Forge.Engine.PipelineParser
