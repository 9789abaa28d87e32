import Forge.Registry.Constraint

/-! # Versions of equal precedence

`compareVersions` looks at a version through its precedence alone: the three numbers, and every
prerelease identifier as a number or a text. Versions of equal precedence satisfy the same constraints.
-/
namespace Forge.Registry
open Forge.Python
set_option autoImplicit false

abbrev Precedence := Int × Int × Int × List (Nat ⊕ String)

def identClass (ident : String) : Nat ⊕ String :=
  if isDigit ident then .inl (digitsValue ident) else .inr ident

def SemVer.precedence (v : SemVer) : Precedence :=
  (v.major, v.minor, v.patch, v.prerelease.map identClass)

theorem sign_eq_zero_iff {α : Type} [LinearOrder α] {a b : α} : sign a b = 0 ↔ a = b := by
  unfold sign
  rcases lt_trichotomy a b with h | rfl | h
  · simp [h, h.ne, h.not_gt]
  · simp
  · simp [h, h.ne', h.not_gt]

def compareClasses : Nat ⊕ String → Nat ⊕ String → Int
  | .inl a, .inl b => sign a b
  | .inl _, .inr _ => -1
  | .inr _, .inl _ => 1
  | .inr a, .inr b => sign a b

theorem compareIdentifiers_eq (a b : String) :
    compareIdentifiers a b = compareClasses (identClass a) (identClass b) := by
  unfold compareIdentifiers identClass
  cases isDigit a <;> cases isDigit b <;> rfl

theorem compareClasses_eq_zero_iff {a b : Nat ⊕ String} : compareClasses a b = 0 ↔ a = b := by
  cases a <;> cases b <;> simp [compareClasses, sign_eq_zero_iff]

theorem comparePrerelease_eq_zero_iff {as bs : List String} :
    comparePrerelease as bs = 0 ↔ as.map identClass = bs.map identClass := by
  induction as generalizing bs with
  | nil => cases bs <;> simp [comparePrerelease]
  | cons a as ih =>
    cases bs with
    | nil => simp [comparePrerelease]
    | cons b bs =>
      simp only [comparePrerelease, compareIdentifiers_eq, List.map_cons, List.cons.injEq]
      by_cases hSame : compareClasses (identClass a) (identClass b) = 0
      · rw [if_neg (not_not.mpr hSame), ih, compareClasses_eq_zero_iff.mp hSame]
        simp
      · rw [if_pos hSame]
        have hNe : identClass a ≠ identClass b := fun h => hSame (compareClasses_eq_zero_iff.mpr h)
        simp [hSame, hNe]

theorem comparePrerelease_congr {as as' : List String} (h : as.map identClass = as'.map identClass)
    (bs : List String) : comparePrerelease as bs = comparePrerelease as' bs := by
  induction as generalizing as' bs with
  | nil => rw [List.map_eq_nil_iff.mp h.symm]
  | cons a as ih =>
    cases as' with
    | nil => simp at h
    | cons a' as' =>
      rw [List.map_cons, List.map_cons, List.cons.injEq] at h
      cases bs with
      | nil => rfl
      | cons b bs => simp only [comparePrerelease, compareIdentifiers_eq, h.1, ih h.2 bs]

/-- The last step of `compareVersions`: a version without prerelease is above those with one. -/
def compareSuffixes (as bs : List String) : Int :=
  match as, bs with
  | [], [] => 0
  | [], _ :: _ => 1
  | _ :: _, [] => -1
  | as, bs => comparePrerelease as bs

theorem compareSuffixes_eq_zero_iff {as bs : List String} :
    compareSuffixes as bs = 0 ↔ as.map identClass = bs.map identClass := by
  cases as <;> cases bs <;> simp [compareSuffixes, comparePrerelease_eq_zero_iff]

theorem compareSuffixes_congr {as as' : List String} (h : as.map identClass = as'.map identClass)
    (bs : List String) : compareSuffixes as bs = compareSuffixes as' bs := by
  cases as with
  | nil => rw [List.map_eq_nil_iff.mp h.symm]
  | cons a as =>
    cases as' with
    | nil => simp at h
    | cons a' as' =>
      cases bs with
      | nil => rfl
      | cons b bs => exact comparePrerelease_congr h (b :: bs)

theorem compareVersions_eq (v w : SemVer) : compareVersions v w =
    if v.major ≠ w.major then sign v.major w.major
    else if v.minor ≠ w.minor then sign v.minor w.minor
    else if v.patch ≠ w.patch then sign v.patch w.patch
    else compareSuffixes v.prerelease w.prerelease := rfl

theorem compareVersions_eq_zero_iff {v w : SemVer} :
    compareVersions v w = 0 ↔ v.precedence = w.precedence := by
  rw [compareVersions_eq]
  simp only [SemVer.precedence, Prod.mk.injEq]
  split
  · simp_all [sign_eq_zero_iff]
  · split
    · simp_all [sign_eq_zero_iff]
    · split
      · simp_all [sign_eq_zero_iff]
      · simp_all [compareSuffixes_eq_zero_iff]

theorem compareVersions_congr {v v' : SemVer} (h : v.precedence = v'.precedence) (w : SemVer) :
    compareVersions v w = compareVersions v' w := by
  simp only [SemVer.precedence, Prod.mk.injEq] at h
  obtain ⟨hMajor, hMinor, hPatch, hPrerelease⟩ := h
  rw [compareVersions_eq, compareVersions_eq, hMajor, hMinor, hPatch, compareSuffixes_congr hPrerelease]

theorem Comparator.satisfies_congr {v v' : SemVer} (h : v.precedence = v'.precedence)
    (c : Comparator) : c.satisfies v = c.satisfies v' := by
  rw [Comparator.satisfies, Comparator.satisfies, compareVersions_congr h]

theorem ConstraintSet.satisfies_congr {v v' : SemVer} (h : v.precedence = v'.precedence)
    (cs : ConstraintSet) : cs.satisfies v = cs.satisfies v' := by
  unfold ConstraintSet.satisfies
  congr 1
  funext c
  exact c.satisfies_congr h

end Forge.Registry
