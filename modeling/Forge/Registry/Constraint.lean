import Forge.Registry.SemVer

/-! # Version constraints

`Comparator`, `ConstraintSet.from_string` and the bounds of `^` and `~`. A comparator's operator is
one of the six the parser produces, so the unknown operator of `Comparator.satisfies` cannot occur.
-/
namespace Forge.Registry
open Forge.Python
set_option autoImplicit false

inductive Op
  | ge | le | ne | gt | lt | eq
  deriving DecidableEq, Repr

def Op.text : Op → String
  | .ge => ">="
  | .le => "<="
  | .ne => "!="
  | .gt => ">"
  | .lt => "<"
  | .eq => "="

structure Comparator where
  op : Op
  version : SemVer
  deriving DecidableEq, Repr

def Comparator.satisfies (c : Comparator) (candidate : SemVer) : Bool :=
  let cmp := compareVersions candidate c.version
  match c.op with
  | .ge => 0 ≤ cmp
  | .le => cmp ≤ 0
  | .gt => 0 < cmp
  | .lt => cmp < 0
  | .eq => cmp == 0
  | .ne => cmp != 0

structure ConstraintSet where
  comparators : List Comparator
  deriving DecidableEq, Repr

def ConstraintSet.satisfies (cs : ConstraintSet) (candidate : SemVer) : Bool :=
  cs.comparators.all fun c => c.satisfies candidate

def caretUpperBound (base : SemVer) : SemVer :=
  if 0 < base.major then ⟨base.major + 1, 0, 0, [], []⟩
  else if 0 < base.minor then ⟨0, base.minor + 1, 0, [], []⟩
  else ⟨0, 0, base.patch + 1, [], []⟩

def tildeUpperBound (base : SemVer) : SemVer :=
  if 0 < base.major then ⟨base.major, base.minor + 1, 0, [], []⟩
  else if 0 < base.minor then ⟨0, base.minor + 1, 0, [], []⟩
  else ⟨0, 0, base.patch + 1, [], []⟩

/-- `_COMPARATOR_OP.match`: the alternatives in the order of the pattern, each with something left
to read. A token holds no whitespace, so `.` reads every character of it. -/
def matchComparatorOp (token : String) : Option (Op × String) :=
  [Op.ge, .le, .ne, .gt, .lt, .eq].findSome? fun op =>
    let rest := dropPrefixChars token op.text.length
    if startsWith token op.text && rest != "" then some (op, rest) else none

/-- The operators that may stand alone, their version being the next token. -/
def standaloneOp (token : String) : Option Op :=
  [Op.ge, .le, .gt, .lt, .ne].find? fun op => op.text == token

def parseComparatorTokens (constraint : String) : List String → Except ValueError (List Comparator)
  | [] => .ok []
  | token :: rest =>
    match standaloneOp token, rest with
    | some _, [] => .error ⟨"incomplete comparator range: " ++ constraint⟩
    | some op, version :: rest => do
      let version ← SemVer.parse version
      let comparators ← parseComparatorTokens constraint rest
      .ok (⟨op, version⟩ :: comparators)
    | none, rest =>
      match matchComparatorOp token with
      | none => .error ⟨"invalid comparator token: " ++ token⟩
      | some (op, version) => do
        let version ← SemVer.parse version
        let comparators ← parseComparatorTokens constraint rest
        .ok (⟨op, version⟩ :: comparators)

def parseComparatorRange (constraint : String) : Except ValueError (List Comparator) :=
  parseComparatorTokens constraint (splitWhitespace constraint)

def ConstraintSet.fromString (text : String) : Except ValueError ConstraintSet :=
  let constraint := strip text
  if constraint = "" then .error ⟨"empty constraint"⟩
  else if startsWith constraint "^" then
    (SemVer.parse (dropPrefixChars constraint 1)).map fun base =>
      ⟨[⟨.ge, base⟩, ⟨.lt, caretUpperBound base⟩]⟩
  else if startsWith constraint "~" then
    (SemVer.parse (dropPrefixChars constraint 1)).map fun base =>
      ⟨[⟨.ge, base⟩, ⟨.lt, tildeUpperBound base⟩]⟩
  else if [Op.ge, .le, .gt, .lt, .ne].any fun op => contains constraint op.text then
    (parseComparatorRange constraint).map fun comparators => ⟨comparators⟩
  else
    (SemVer.parse constraint).map fun exact => ⟨[⟨.eq, exact⟩]⟩

/-- The last `>=` and the last `<` bound, for error messages only. -/
def expandConstraint (constraint : String) : Except ValueError (String × String) :=
  (ConstraintSet.fromString constraint).map fun cs =>
    cs.comparators.foldl (fun bounds c =>
      match c.op with
      | .ge => (c.version.str, bounds.2)
      | .lt => (bounds.1, c.version.str)
      | _ => bounds) ("", "")

example : (expandConstraint ">= 1.0.0 <2.0.0").toOption = some ("1.0.0", "2.0.0") := by decide

end Forge.Registry
