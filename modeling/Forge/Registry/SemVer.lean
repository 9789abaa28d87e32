import Mathlib.Data.Prod.Lex
import Mathlib.Data.Int.ConditionallyCompleteOrder
import Mathlib.Data.List.Lex
import Mathlib.Order.ConditionallyCompleteLattice.Basic
import Forge.Python.Text
import Forge.Python.Regex

/-! # Hand-rolled semver parsing and ordering

`SemVer.parse`, the precedence order `compareVersions` and the sort key `versionKey` of
`registry/resolver.py`, and the coordinate check `isValidSemver` of `registry/metadata.py`.
`int` is the exact conversion; the interpreter's limit on the number of digits is left out, as
are its limits on memory and on recursion.
-/
namespace Forge.Registry
open Forge.Python
set_option autoImplicit false

/-! ## Patterns -/

def digitClass : Regex := .chars isDecimal

def isNonZeroDigit (c : Char) : Bool := 49 ≤ c.toNat && c.toNat ≤ 57

def isAsciiDigit (c : Char) : Bool := 48 ≤ c.toNat && c.toNat ≤ 57

def isAsciiLetter (c : Char) : Bool :=
  (65 ≤ c.toNat && c.toNat ≤ 90) || (97 ≤ c.toNat && c.toNat ≤ 122)

def isLetterOrHyphen (c : Char) : Bool := isAsciiLetter c || c == '-'

def isIdentChar (c : Char) : Bool := isAsciiDigit c || isLetterOrHyphen c

/-- `0|[1-9]\d*` -/
def numericPattern : Regex :=
  .alt (.char '0') (.seq (.chars isNonZeroDigit) (.star digitClass))

/-- `0|[1-9]\d*|\d*[a-zA-Z-][0-9a-zA-Z-]*` -/
def prereleaseIdentPattern : Regex :=
  .alt numericPattern
    (.seq (.star digitClass) (.seq (.chars isLetterOrHyphen) (.star (.chars isIdentChar))))

def dotted (ident : Regex) : Regex := .seq ident (.star (.seq (.char '.') ident))

def prereleasePattern : Regex := dotted prereleaseIdentPattern

/-- `[0-9a-zA-Z-]+` -/
def buildIdentPattern : Regex := .seq (.chars isIdentChar) (.star (.chars isIdentChar))

def semverPattern : Regex :=
  .seq numericPattern (.seq (.char '.') (.seq numericPattern (.seq (.char '.') (.seq numericPattern
    (.seq (.opt (.seq (.char '-') prereleasePattern))
      (.opt (.seq (.char '+') (dotted buildIdentPattern))))))))

def isValidSemver (version : String) : Bool := semverPattern.matchAnchored version

/-! ## Versions -/

structure SemVer where
  major : Int
  minor : Int
  patch : Int
  prerelease : List String := []
  build : List String := []
  deriving DecidableEq, Repr

def parseIdents (part : String) : List String := if part = "" then [] else splitOn part '.'

def checkPrerelease : List String → Except ValueError Unit
  | [] => .ok ()
  | ident :: rest =>
    if prereleasePattern.matchAnchored ident then checkPrerelease rest
    else .error ⟨"invalid prerelease identifier: " ++ ident⟩

def parseCore (version prereleasePart buildPart : String) : Except ValueError SemVer :=
  match splitOn version '.' with
  | [a, b, c] =>
    match int? a, int? b, int? c with
    | some major, some minor, some patch =>
      (checkPrerelease (parseIdents prereleasePart)).map fun _ =>
        ⟨major, minor, patch, parseIdents prereleasePart, parseIdents buildPart⟩
    | _, _, _ => .error ⟨"invalid semver numeric parts: " ++ version⟩
  | _ => .error ⟨"invalid semver: " ++ version⟩

def SemVer.parse (text : String) : Except ValueError SemVer :=
  let version := strip text
  if startsWith version "^" || startsWith version "~" then
    .error ⟨"not a bare version: " ++ version⟩
  else
    let (version, buildPart) := splitOnce version '+'
    let (version, prereleasePart) := splitOnce version '-'
    parseCore version prereleasePart buildPart

/-- `str(version)` -/
def SemVer.str (v : SemVer) : String :=
  let base := toString v.major ++ "." ++ toString v.minor ++ "." ++ toString v.patch
  let base := if v.prerelease = [] then base else base ++ "-" ++ ".".intercalate v.prerelease
  if v.build = [] then base else base ++ "+" ++ ".".intercalate v.build

example : (SemVer.parse " 1.2.3-rc.1+b ").toOption = some ⟨1, 2, 3, ["rc", "1"], ["b"]⟩ := by decide

/-! ## Order -/

/-- `(a > b) - (a < b)` -/
def sign {α : Type} [LT α] [DecidableLT α] (a b : α) : Int :=
  (if b < a then 1 else 0) - (if a < b then 1 else 0)

def compareIdentifiers (a b : String) : Int :=
  match isDigit a, isDigit b with
  | true, true => sign (digitsValue a) (digitsValue b)
  | true, false => -1
  | false, true => 1
  | false, false => sign a b

/-- The loop over the prerelease positions, the shorter list being the smaller one. -/
def comparePrerelease : List String → List String → Int
  | [], [] => 0
  | [], _ :: _ => -1
  | _ :: _, [] => 1
  | a :: as, b :: bs =>
    let cmp := compareIdentifiers a b
    if cmp ≠ 0 then cmp else comparePrerelease as bs

/-- Build metadata is ignored. -/
def compareVersions (a b : SemVer) : Int :=
  if a.major ≠ b.major then sign a.major b.major
  else if a.minor ≠ b.minor then sign a.minor b.minor
  else if a.patch ≠ b.patch then sign a.patch b.patch
  else
    match a.prerelease, b.prerelease with
    | [], [] => 0
    | [], _ :: _ => 1
    | _ :: _, [] => -1
    | as, bs => comparePrerelease as bs

/-- Tuples compare lexicographically, as does the tuple of prerelease identifiers inside. -/
abbrev VersionKey := Int ×ₗ Int ×ₗ Int ×ₗ List String ×ₗ String

def SemVer.key (v : SemVer) (version : String) : VersionKey :=
  toLex (v.major, toLex (v.minor, toLex (v.patch, toLex (v.prerelease, version))))

def versionKey (version : String) : Except ValueError VersionKey :=
  (SemVer.parse version).map fun v => v.key version

theorem SemVer.key_injective {v w : SemVer} {s t : String} (h : v.key s = w.key t) : s = t := by
  have h := congrArg (fun k : VersionKey => (ofLex (ofLex (ofLex (ofLex k).2).2).2).2) h
  exact h

theorem versionKey_of_parse {ver : String} {parsed : SemVer} (h : SemVer.parse ver = .ok parsed) :
    versionKey ver = .ok (parsed.key ver) := by
  rw [versionKey, h]
  rfl

theorem versionKey_ok {ver : String} {k : VersionKey} (h : versionKey ver = .ok k) :
    ∃ parsed, SemVer.parse ver = .ok parsed ∧ k = parsed.key ver := by
  cases hParse : SemVer.parse ver with
  | error e => simp [versionKey, hParse, Except.map] at h
  | ok parsed =>
    rw [versionKey_of_parse hParse] at h
    cases h
    exact ⟨parsed, rfl, rfl⟩

end Forge.Registry
