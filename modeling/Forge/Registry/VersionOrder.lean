import Mathlib.Data.List.Forall2
import Mathlib.Data.Sum.Order
import Mathlib.Order.WithBot
import Forge.Registry.Precedence
import Forge.Registry.ValidVersion

/-! # The order behind `compare_versions`

A version has a rank in a linear order: its three numbers, then its prerelease identifiers, numbers before
texts, with the release on top. `compareVersions` is the sign of the comparison of two ranks.
-/
namespace Forge.Registry
open Forge.Python
set_option autoImplicit false

/-! ## Signs of comparisons -/

section
variable {α β : Type}

theorem sign_congr [LT α] [DecidableLT α] [LT β] [DecidableLT β] {a b : α} {c d : β}
    (hLess : a < b ↔ c < d) (hGreater : b < a ↔ d < c) : sign a b = sign c d := by
  unfold sign
  simp only [hLess, hGreater]

theorem sign_swap [LT α] [DecidableLT α] (a b : α) : sign b a = -sign a b := by
  unfold sign
  omega

variable [LinearOrder α] [LinearOrder β]

theorem sign_neg_iff {a b : α} : sign a b < 0 ↔ a < b := by
  unfold sign
  rcases lt_trichotomy a b with h | rfl | h
  · simp [h, h.not_gt]
  · simp
  · simp [h, h.not_gt]

theorem sign_nonpos_iff {a b : α} : sign a b ≤ 0 ↔ a ≤ b := by
  rw [← not_lt, ← not_lt, ← sign_neg_iff (a := b), sign_swap a b]
  omega

theorem sign_toLex [DecidableLT α] [DecidableLT β] [DecidableLT (α ×ₗ β)] (a b : α) (c d : β) :
    sign (toLex (a, c)) (toLex (b, d)) = if a ≠ b then sign a b else sign c d := by
  split
  · rename_i hNe
    apply sign_congr
    · simp [Prod.Lex.toLex_lt_toLex, hNe]
    · simp [Prod.Lex.toLex_lt_toLex, Ne.symm hNe]
  · rename_i hSame
    rw [not_not] at hSame
    apply sign_congr
    · simp [Prod.Lex.toLex_lt_toLex, hSame]
    · simp [Prod.Lex.toLex_lt_toLex, hSame]

theorem sign_cons (a b : α) (as bs : List α) :
    sign (a :: as) (b :: bs) = if a ≠ b then sign a b else sign as bs := by
  split
  · rename_i hNe
    apply sign_congr
    · simp [List.cons_lt_cons_iff, hNe]
    · simp [List.cons_lt_cons_iff, Ne.symm hNe]
  · rename_i hSame
    rw [not_not] at hSame
    apply sign_congr
    · simp [hSame]
    · simp [hSame]

end

/-! ## Ranks -/

/-- A number is below every text. -/
abbrev IdentRank := ℕ ⊕ₗ String

def identRank (ident : String) : IdentRank := toLex (identClass ident)

/-- A version without prerelease is above those with one. -/
abbrev Rank := ℤ ×ₗ ℤ ×ₗ ℤ ×ₗ WithTop (List IdentRank)

def suffixRank (prerelease : List String) : WithTop (List IdentRank) :=
  if prerelease = [] then ⊤ else ↑(prerelease.map identRank)

def SemVer.rank (v : SemVer) : Rank :=
  toLex (v.major, toLex (v.minor, toLex (v.patch, suffixRank v.prerelease)))

theorem compareIdentifiers_eq_sign (a b : String) :
    compareIdentifiers a b = sign (identRank a) (identRank b) := by
  rw [compareIdentifiers_eq, identRank, identRank]
  cases identClass a with
  | inl m =>
    cases identClass b with
    | inl n => exact sign_congr Sum.Lex.inl_lt_inl_iff.symm Sum.Lex.inl_lt_inl_iff.symm
    | inr t => simp [compareClasses, sign]
  | inr s =>
    cases identClass b with
    | inl n => simp [compareClasses, sign]
    | inr t => exact sign_congr Sum.Lex.inr_lt_inr_iff.symm Sum.Lex.inr_lt_inr_iff.symm

theorem comparePrerelease_eq_sign (as bs : List String) :
    comparePrerelease as bs = sign (as.map identRank) (bs.map identRank) := by
  induction as generalizing bs with
  | nil =>
    cases bs with
    | nil => rfl
    | cons b bs => simp [comparePrerelease, sign]
  | cons a as ih =>
    cases bs with
    | nil => simp [comparePrerelease, sign]
    | cons b bs =>
      simp only [comparePrerelease, compareIdentifiers_eq_sign, List.map_cons, ih, ne_eq, sign_eq_zero_iff]
      exact (sign_cons _ _ _ _).symm

theorem compareSuffixes_eq_sign (as bs : List String) :
    compareSuffixes as bs = sign (suffixRank as) (suffixRank bs) := by
  cases as with
  | nil =>
    cases bs with
    | nil => simp [compareSuffixes, suffixRank, sign]
    | cons b bs => simp [compareSuffixes, suffixRank, sign]
  | cons a as =>
    cases bs with
    | nil => simp [compareSuffixes, suffixRank, sign]
    | cons b bs =>
      rw [suffixRank, suffixRank, if_neg (List.cons_ne_nil a as), if_neg (List.cons_ne_nil b bs)]
      exact (comparePrerelease_eq_sign _ _).trans
        (sign_congr WithTop.coe_lt_coe.symm WithTop.coe_lt_coe.symm)

theorem compareVersions_eq_sign (v w : SemVer) : compareVersions v w = sign v.rank w.rank := by
  simp only [compareVersions_eq, SemVer.rank, sign_toLex, compareSuffixes_eq_sign]

/-! ## Laws -/

theorem compareVersions_swap (v w : SemVer) : compareVersions v w = -compareVersions w v := by
  rw [compareVersions_eq_sign v w, compareVersions_eq_sign w v]
  exact sign_swap w.rank v.rank

theorem compareVersions_nonpos_iff {v w : SemVer} : compareVersions v w ≤ 0 ↔ v.rank ≤ w.rank := by
  rw [compareVersions_eq_sign, sign_nonpos_iff]

theorem compareVersions_neg_iff {v w : SemVer} : compareVersions v w < 0 ↔ v.rank < w.rank := by
  rw [compareVersions_eq_sign, sign_neg_iff]

theorem compareVersions_trans {u v w : SemVer} (huv : compareVersions u v ≤ 0)
    (hvw : compareVersions v w ≤ 0) : compareVersions u w ≤ 0 := by
  rw [compareVersions_nonpos_iff] at huv hvw ⊢
  exact huv.trans hvw

/-- Numeric identifiers of the same value, and other identifiers of the same text. -/
def SameIdentifier (a b : String) : Prop :=
  if isDigit a ∧ isDigit b then digitsValue a = digitsValue b else a = b

theorem identClass_eq_iff {a b : String} : identClass a = identClass b ↔ SameIdentifier a b := by
  unfold identClass SameIdentifier
  cases ha : isDigit a with
  | true =>
    cases hb : isDigit b with
    | true => simp
    | false =>
      have hNe : a ≠ b := by
        rintro rfl
        cases ha.symm.trans hb
      simp [hNe]
  | false =>
    cases hb : isDigit b with
    | true =>
      have hNe : a ≠ b := by
        rintro rfl
        cases ha.symm.trans hb
      simp [hNe]
    | false => simp

theorem map_identClass_eq_iff {as bs : List String} :
    as.map identClass = bs.map identClass ↔ List.Forall₂ SameIdentifier as bs := by
  rw [← List.forall₂_eq_eq_eq, List.forall₂_map_left_iff, List.forall₂_map_right_iff]
  simp only [identClass_eq_iff]

theorem compareVersions_eq_zero_iff_parts {v w : SemVer} : compareVersions v w = 0 ↔
    v.major = w.major ∧ v.minor = w.minor ∧ v.patch = w.patch ∧
      List.Forall₂ SameIdentifier v.prerelease w.prerelease := by
  rw [compareVersions_eq_zero_iff, SemVer.precedence, SemVer.precedence, Prod.mk.injEq, Prod.mk.injEq,
    Prod.mk.injEq, map_identClass_eq_iff]

/-- Comparators of the same operator with versions of the same precedence. -/
def Comparator.Alike (c d : Comparator) : Prop := c.op = d.op ∧ compareVersions c.version d.version = 0

theorem Comparator.Alike.satisfies_eq {c d : Comparator} (h : c.Alike d) (v : SemVer) :
    c.satisfies v = d.satisfies v := by
  have hCompare : compareVersions v c.version = compareVersions v d.version := by
    rw [compareVersions_swap v c.version, compareVersions_swap v d.version,
      compareVersions_congr (compareVersions_eq_zero_iff.mp h.2)]
  rw [Comparator.satisfies, Comparator.satisfies, hCompare, h.1]

theorem ConstraintSet.satisfies_alike {cs ds : ConstraintSet}
    (h : List.Forall₂ Comparator.Alike cs.comparators ds.comparators) (v : SemVer) :
    cs.satisfies v = ds.satisfies v := by
  unfold ConstraintSet.satisfies
  generalize cs.comparators = cs at h
  generalize ds.comparators = ds at h
  induction h with
  | nil => rfl
  | cons hHead _ ih =>
    simp only [List.all_cons, hHead.satisfies_eq v]
    exact congrArg _ ih

/-! ## Numeric identifiers -/

theorem checkPrerelease_ok {idents : List String} (h : checkPrerelease idents = .ok ()) :
    ∀ ident ∈ idents, prereleasePattern.matchAnchored ident = true := by
  induction idents with
  | nil => simp
  | cons ident rest ih =>
    rw [checkPrerelease] at h
    split at h
    · rename_i hIdent
      exact List.forall_mem_cons.mpr ⟨hIdent, ih h⟩
    · cases h

theorem parseCore_ok {version prereleasePart buildPart : String} {v : SemVer}
    (h : parseCore version prereleasePart buildPart = .ok v) : checkPrerelease v.prerelease = .ok () := by
  unfold parseCore at h
  split at h
  · split at h
    · cases hCheck : checkPrerelease (parseIdents prereleasePart) with
      | error e =>
        rw [hCheck] at h
        cases h
      | ok checked =>
        rw [hCheck, Except.map, Except.ok.injEq] at h
        rw [← h]
        exact hCheck
    · cases h
  · cases h

theorem prerelease_of_parse {text : String} {v : SemVer} (h : SemVer.parse text = .ok v) :
    ∀ ident ∈ v.prerelease, prereleasePattern.matchAnchored ident = true := by
  unfold SemVer.parse at h
  dsimp only at h
  split at h
  · cases h
  · exact checkPrerelease_ok (parseCore_ok h)

theorem isDecimal_of_partChar {c : Char} (hPart : isPartChar c = true) (hDigit : isDigitChar c = true) :
    isDecimal c = true := by
  rw [isPartChar, Bool.or_eq_true] at hPart
  rcases hPart with hDecimal | hIdent
  · exact hDecimal
  · have hSmall : c.toNat ≤ 122 := (isIdentChar_bounds hIdent).2
    have hAll : ∀ n ≤ 122, isDigitChar (Char.ofNat n) = true → isDecimal (Char.ofNat n) = true := by
      decide +kernel
    have hHere := hAll c.toNat hSmall
    rw [Char.ofNat_toNat] at hHere
    exact hHere hDigit

theorem isDecimal_of_versionChar {c : Char} (h : isVersionChar c = true ∨ c = '\n')
    (hDigit : isDigitChar c = true) : isDecimal c = true := by
  simp only [isVersionChar, Bool.or_eq_true, beq_iff_eq] at h
  rcases h with (((hDecimal | hIdent) | rfl) | rfl) | rfl
  · exact hDecimal
  · exact isDecimal_of_partChar (by simp [isPartChar, hIdent]) hDigit
  · cases hDigit
  · cases hDigit
  · cases hDigit

/-- What `compare_versions` takes for numbers, `int` reads. -/
theorem int?_of_parse {text : String} {v : SemVer} (h : SemVer.parse text = .ok v) {ident : String}
    (hMem : ident ∈ v.prerelease) (hDigit : isDigit ident = true) :
    int? ident = some (digitsValue ident : Int) := by
  have hChars := (dotted_over prereleaseIdentPattern_over).of_matchAnchored (prerelease_of_parse h ident hMem)
  simp only [isDigit, Bool.and_eq_true, Bool.not_eq_true', List.isEmpty_eq_false_iff, List.all_eq_true] at hDigit
  have hRead := int?_digits (fun c hc => isDecimal_of_versionChar (hChars c hc) (hDigit.2 c hc)) hDigit.1
  rwa [String.ofList_toList] at hRead

/-- The laws of `compare_versions`, for the parsed versions, whose numeric identifiers are numbers. -/
theorem compareVersions_totalPreorder :
    (∀ text v, SemVer.parse text = .ok v → ∀ ident ∈ v.prerelease, isDigit ident = true →
      int? ident = some (digitsValue ident : Int)) ∧
    (∀ v w, compareVersions v w = -compareVersions w v) ∧
    (∀ u v w, compareVersions u v ≤ 0 → compareVersions v w ≤ 0 → compareVersions u w ≤ 0) ∧
    (∀ v w, compareVersions v w = 0 ↔ v.major = w.major ∧ v.minor = w.minor ∧ v.patch = w.patch ∧
      List.Forall₂ SameIdentifier v.prerelease w.prerelease) ∧
    (∀ v w, compareVersions v w = 0 → ∀ cs : ConstraintSet, cs.satisfies v = cs.satisfies w) ∧
    ∀ cs ds : ConstraintSet, List.Forall₂ Comparator.Alike cs.comparators ds.comparators →
      ∀ v, cs.satisfies v = ds.satisfies v := by
  refine ⟨?_, compareVersions_swap, ?_, ?_, ?_, ?_⟩
  · exact fun _ _ hParse _ => int?_of_parse hParse
  · exact fun _ _ _ => compareVersions_trans
  · exact fun _ _ => compareVersions_eq_zero_iff_parts
  · exact fun _ _ hSame cs => cs.satisfies_congr (compareVersions_eq_zero_iff.mp hSame)
  · exact fun _ _ => ConstraintSet.satisfies_alike

end Forge.Registry
