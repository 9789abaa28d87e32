import Forge.Engine.Pipeline
import Forge.Registry.Pin

/-! # The dependencies of a pipeline

What `engine/parser.py` demands of the names and of the version constraints of `dependencies`.
-/
namespace Forge.Engine
open Forge.Python Forge.Registry
set_option autoImplicit false

/-! ## Patterns -/

def isAsciiAlnum (c : Char) : Bool := isAsciiLetter c || isAsciiDigit c

def isPackageNameChar (c : Char) : Bool := isAsciiAlnum c || c == '.' || c == '_' || c == '-'

/-- `[a-zA-Z0-9][a-zA-Z0-9._\-]*` -/
def packageNamePattern : Regex := .seq (.chars isAsciiAlnum) (.star (.chars isPackageNameChar))

/-- `SEMVER_VERSION_PATTERN` is the pattern of the registry. -/
def isValidSemverVersion (version : String) : Bool := semverPattern.matchAnchored version

/-- The pattern of a version after an optional `^` or `~`. -/
def constraintPattern : Regex := .seq (.opt (.alt (.char '^') (.char '~'))) semverPattern

/-! ## Constraints -/

/-- The loop of `_parse_comparator_tokens`; the tokens and the operators are those of the resolver. -/
def comparatorTokens : List String → Option (List (Op × String))
  | [] => some []
  | token :: rest =>
    match standaloneOp token, rest with
    | some _, [] => none
    | some op, version :: rest =>
      if isValidSemverVersion version then (comparatorTokens rest).map fun parsed => (op, version) :: parsed
      else none
    | none, rest =>
      match matchComparatorOp token with
      | none => none
      | some (op, version) =>
        if isValidSemverVersion version then (comparatorTokens rest).map fun parsed => (op, version) :: parsed
        else none

/-- `_parse_comparator_tokens`: a constraint without tokens is invalid as well. -/
def parseComparatorTokens (constraint : String) : Option (List (Op × String)) :=
  match comparatorTokens (splitWhitespace constraint) with
  | some [] => none
  | parsed => parsed

def isValidSemverConstraint (text : String) : Bool :=
  let constraint := strip text
  if text = "" || constraint = "" then false
  else if [Op.ge, .le, .gt, .lt, .ne, .eq].any fun op => contains constraint op.text then
    (parseComparatorTokens constraint).isSome
  else if startsWith constraint "^" || startsWith constraint "~" then
    constraintPattern.matchAnchored constraint
  else isValidSemverVersion constraint

/-! ## Dependencies -/

structure PipelineDependency where
  name : String
  version : String
  deriving DecidableEq

def PipelineDependency.toDict (dep : PipelineDependency) : DepEntry := entryOf dep.name dep.version

end Forge.Engine
