import Forge.Registry.Precedence
import Forge.Registry.Resolution
import Forge.Registry.ValidVersion

/-! # Exact pins

A version that the registry accepts is, as a constraint, a single equality, which the versions of equal
precedence satisfy and no others.
-/
namespace Forge.Registry
open Forge.Python Forge.Theory
set_option autoImplicit false

/-! ## Bare versions as constraints -/

theorem SemVer.parse_strip (text : String) : SemVer.parse (strip text) = SemVer.parse text := by
  rw [SemVer.parse, SemVer.parse, strip_strip]

theorem fromString_valid {version : String} (hValid : isValidSemver version = true)
    (hNonempty : strip version ≠ "") : ConstraintSet.fromString version =
      (SemVer.parse version).map fun exact => ⟨[⟨.eq, exact⟩]⟩ := by
  have hAbsent : ∀ c, isVersionChar c = false → c ≠ '\n' → c ∉ (strip version).toList := by
    intro c hc hNewline hMem
    cases isVersionChar_of_valid hValid c (mem_of_mem_strip hMem) with
    | inl hChar => exact absurd (hc.symm.trans hChar) Bool.false_ne_true
    | inr hSame => exact hNewline hSame
  have hLess := hAbsent '<' (by decide) (by decide)
  have hGreater := hAbsent '>' (by decide) (by decide)
  have hBang := hAbsent '!' (by decide) (by decide)
  have hCaret : startsWith (strip version) "^" = false :=
    startsWith_eq_false "^" (by decide) (hAbsent '^' (by decide) (by decide))
  have hTilde : startsWith (strip version) "~" = false :=
    startsWith_eq_false "~" (by decide) (hAbsent '~' (by decide) (by decide))
  have hOps : ([Op.ge, .le, .gt, .lt, .ne].any fun op => contains (strip version) op.text) = false := by
    simp only [List.any_cons, List.any_nil, Op.text, contains_eq_false ">=" (by decide) hGreater,
      contains_eq_false "<=" (by decide) hLess, contains_eq_false ">" (by decide) hGreater,
      contains_eq_false "<" (by decide) hLess, contains_eq_false "!=" (by decide) hBang,
      Bool.or_false]
  simp only [ConstraintSet.fromString, if_neg hNonempty, hCaret, hTilde, hOps, SemVer.parse_strip,
    Bool.false_eq_true, if_false]

theorem fromString_bare {version : String} {parsed : SemVer} (hValid : isValidSemver version = true)
    (hParse : SemVer.parse version = .ok parsed) :
    ConstraintSet.fromString version = .ok ⟨[⟨.eq, parsed⟩]⟩ := by
  have hNonempty : strip version ≠ "" := by
    intro hEmpty
    rw [← SemVer.parse_strip, hEmpty] at hParse
    cases hParse
  rw [fromString_valid hValid hNonempty, hParse]
  rfl

/-- A valid version that is accepted as a constraint parses, and the constraint is an equality. -/
theorem fromString_valid_ok {version : String} {cs : ConstraintSet} (hValid : isValidSemver version = true)
    (h : ConstraintSet.fromString version = .ok cs) :
    ∃ parsed, SemVer.parse version = .ok parsed ∧ cs = ⟨[⟨.eq, parsed⟩]⟩ := by
  have hNonempty : strip version ≠ "" := by
    intro hEmpty
    simp [ConstraintSet.fromString, hEmpty] at h
  rw [fromString_valid hValid hNonempty] at h
  cases hParse : SemVer.parse version with
  | error e => simp [hParse, Except.map] at h
  | ok parsed =>
    rw [hParse] at h
    cases h
    exact ⟨parsed, rfl, rfl⟩

theorem satisfies_eq_iff {exact candidate : SemVer} :
    (ConstraintSet.mk [⟨.eq, exact⟩]).satisfies candidate = true ↔
      candidate.precedence = exact.precedence := by
  simp [ConstraintSet.satisfies, Comparator.satisfies, compareVersions_eq_zero_iff]

end Forge.Registry
