import Forge.Registry.VersionOrder

/-! # What the ranges `^` and `~` admit

Both ranges are half open: from the base to an upper bound, which is excluded. The prereleases of the upper
bound are below it, and above the base.
-/
namespace Forge.Registry
open Forge.Python
set_option autoImplicit false

/-! ## Numbers of a parsed version -/

structure SemVer.Nonneg (v : SemVer) : Prop where
  major : 0 ≤ v.major
  minor : 0 ≤ v.minor
  patch : 0 ≤ v.patch

theorem int?_nonneg {text : String} {n : Int} (hHyphen : '-' ∉ text.toList) (h : int? text = some n) :
    0 ≤ n := by
  have hStripped : '-' ∉ stripBy isNumberSpace text.toList := fun hMem => hHyphen (mem_of_mem_stripBy hMem)
  have hCast : ∀ ds, ((digits? ds).bind fun m => some (m : Int)) = some n → 0 ≤ n := by
    intro ds hDigits
    obtain ⟨m, -, hm⟩ := Option.bind_eq_some_iff.mp hDigits
    cases hm
    exact Int.natCast_nonneg m
  unfold int? at h
  split at h
  · rename_i ds hEq
    rw [hEq] at hStripped
    exact absurd List.mem_cons_self hStripped
  · exact hCast _ (by simpa using h)
  · exact hCast _ (by simpa using h)

theorem parseCore_nonneg {version prereleasePart buildPart : String} {v : SemVer}
    (hHyphen : '-' ∉ version.toList) (h : parseCore version prereleasePart buildPart = .ok v) : v.Nonneg := by
  have hParts : ∀ part ∈ splitOn version '.', '-' ∉ part.toList :=
    fun part hPart hMem => hHyphen (mem_of_mem_splitOn hPart hMem)
  unfold parseCore at h
  split at h
  · rename_i a b c hSplit
    rw [hSplit] at hParts
    simp only [List.forall_mem_cons] at hParts
    split at h
    · rename_i major minor patch hMajor hMinor hPatch
      cases hCheck : checkPrerelease (parseIdents prereleasePart) with
      | error e =>
        rw [hCheck] at h
        cases h
      | ok checked =>
        rw [hCheck, Except.map, Except.ok.injEq] at h
        rw [← h]
        exact ⟨int?_nonneg hParts.1 hMajor, int?_nonneg hParts.2.1 hMinor, int?_nonneg hParts.2.2.1 hPatch⟩
    · cases h
  · cases h

theorem nonneg_of_parse {text : String} {v : SemVer} (h : SemVer.parse text = .ok v) : v.Nonneg := by
  unfold SemVer.parse at h
  dsimp only at h
  split at h
  · cases h
  · refine parseCore_nonneg ?_ h
    intro hMem
    simp only [splitOnce, String.toList_ofList] at hMem
    have hNot := List.mem_takeWhile_imp hMem
    simp at hNot

/-! ## Bounds -/

/-- The comparison of the three numbers, first to last. -/
def CoreLt (v w : SemVer) : Prop :=
  v.major < w.major ∨ v.major = w.major ∧
    (v.minor < w.minor ∨ v.minor = w.minor ∧ v.patch < w.patch)

def SameCore (v w : SemVer) : Prop := v.major = w.major ∧ v.minor = w.minor ∧ v.patch = w.patch

theorem rank_lt_iff {v w : SemVer} : v.rank < w.rank ↔
    CoreLt v w ∨ SameCore v w ∧ suffixRank v.prerelease < suffixRank w.prerelease := by
  simp only [SemVer.rank, Prod.Lex.toLex_lt_toLex, CoreLt, SameCore]
  tauto

theorem suffixRank_lt_top {prerelease : List String} :
    suffixRank prerelease < suffixRank [] ↔ prerelease ≠ [] := by
  cases prerelease with
  | nil => simp
  | cons ident rest => simp [suffixRank]

theorem lt_release_iff {v w : SemVer} (hRelease : w.prerelease = []) :
    compareVersions v w < 0 ↔ CoreLt v w ∨ SameCore v w ∧ v.prerelease ≠ [] := by
  rw [compareVersions_neg_iff, rank_lt_iff, hRelease, suffixRank_lt_top]

theorem not_coreLt_of_ge {v w : SemVer} (h : 0 ≤ compareVersions v w) : ¬ CoreLt v w := by
  intro hLess
  have hNeg := compareVersions_neg_iff.mpr (rank_lt_iff.mpr (.inl hLess))
  omega

/-! ## The two ranges -/

/-- The same numbers up to and including the left-most one of the base that is not zero. -/
def AgreesUpToNonZero (base v : SemVer) : Prop :=
  if 0 < base.major then v.major = base.major
  else if 0 < base.minor then v.major = base.major ∧ v.minor = base.minor
  else SameCore v base

def IsPrereleaseOf (v w : SemVer) : Prop := SameCore v w ∧ v.prerelease ≠ []

def caretRange (base : SemVer) : ConstraintSet := ⟨[⟨.ge, base⟩, ⟨.lt, caretUpperBound base⟩]⟩

def tildeRange (base : SemVer) : ConstraintSet := ⟨[⟨.ge, base⟩, ⟨.lt, tildeUpperBound base⟩]⟩

theorem caretUpperBound_prerelease (base : SemVer) : (caretUpperBound base).prerelease = [] := by
  unfold caretUpperBound
  split
  · rfl
  · split <;> rfl

theorem tildeUpperBound_prerelease (base : SemVer) : (tildeUpperBound base).prerelease = [] := by
  unfold tildeUpperBound
  split
  · rfl
  · split <;> rfl

theorem satisfies_caretRange {base v : SemVer} : (caretRange base).satisfies v = true ↔
    0 ≤ compareVersions v base ∧ compareVersions v (caretUpperBound base) < 0 := by
  simp [caretRange, ConstraintSet.satisfies, Comparator.satisfies]

theorem satisfies_tildeRange {base v : SemVer} : (tildeRange base).satisfies v = true ↔
    0 ≤ compareVersions v base ∧ compareVersions v (tildeUpperBound base) < 0 := by
  simp [tildeRange, ConstraintSet.satisfies, Comparator.satisfies]

theorem caretRange_iff {base v : SemVer} (hBase : base.Nonneg) (hv : v.Nonneg) :
    (caretRange base).satisfies v = true ↔ 0 ≤ compareVersions v base ∧
      (AgreesUpToNonZero base v ∨ IsPrereleaseOf v (caretUpperBound base)) := by
  rw [satisfies_caretRange, lt_release_iff (caretUpperBound_prerelease base)]
  apply and_congr_right
  intro hGe
  apply or_congr_left
  have hNotLess := not_coreLt_of_ge hGe
  obtain ⟨hMajor, hMinor, hPatch⟩ := hBase
  obtain ⟨hMajor', hMinor', hPatch'⟩ := hv
  unfold CoreLt at hNotLess
  unfold CoreLt AgreesUpToNonZero SameCore caretUpperBound
  split
  · simp only
    omega
  · split
    · simp only
      omega
    · simp only
      omega

theorem tildeRange_sound {base v : SemVer} (hBase : base.Nonneg) (hv : v.Nonneg)
    (h : (tildeRange base).satisfies v = true) : (v.major = base.major ∧ v.minor = base.minor) ∨
      IsPrereleaseOf v ⟨base.major, base.minor + 1, 0, [], []⟩ := by
  rw [satisfies_tildeRange, lt_release_iff (tildeUpperBound_prerelease base)] at h
  obtain ⟨hGe, hLess⟩ := h
  have hNotLess := not_coreLt_of_ge hGe
  obtain ⟨hMajor, hMinor, hPatch⟩ := hBase
  obtain ⟨hMajor', hMinor', hPatch'⟩ := hv
  unfold CoreLt at hNotLess
  unfold CoreLt SameCore tildeUpperBound at hLess
  unfold IsPrereleaseOf SameCore
  split at hLess
  · simp only at hLess
    rcases hLess with hLess | ⟨hCore, hPrerelease⟩
    · exact .inl (by omega)
    · exact .inr ⟨hCore, hPrerelease⟩
  · split at hLess
    · simp only at hLess
      rcases hLess with hLess | ⟨hCore, hPrerelease⟩
      · exact .inl (by omega)
      · refine .inr ⟨?_, hPrerelease⟩
        simp only
        omega
    · simp only at hLess
      exact .inl (by omega)

/-! ## The constraints -/

theorem SemVer.parse_congr {text text' : String} (h : strip text = strip text') :
    SemVer.parse text = SemVer.parse text' := by
  rw [SemVer.parse, SemVer.parse, h]

theorem parse_after_sign {sign : Char} (hSign : isSpace sign = false) (text : String) :
    SemVer.parse (dropPrefixChars (strip (String.ofList (sign :: text.toList))) 1) = SemVer.parse text := by
  apply SemVer.parse_congr
  rw [strip, strip, strip, dropPrefixChars, String.toList_ofList, String.toList_ofList, String.toList_ofList,
    stripChars_cons hSign, List.drop_one, List.tail_cons, stripChars_rdropWhile]

theorem startsWith_strip_signed {sign : Char} (hSign : isSpace sign = false) (text : String) {pre : String}
    (hPre : pre.toList = [sign]) : startsWith (strip (pre ++ text)) pre = true := by
  rw [startsWith, strip, String.toList_append, hPre, String.toList_ofList, List.singleton_append,
    stripChars_cons hSign]
  simp

/-- A bare version after a sign, as a range. -/
theorem fromString_signed {text : String} {base : SemVer} (h : SemVer.parse text = .ok base) :
    ConstraintSet.fromString ("^" ++ text) = .ok (caretRange base) ∧
      ConstraintSet.fromString ("~" ++ text) = .ok (tildeRange base) := by
  have hParse : ∀ {sign : Char} {pre : String}, isSpace sign = false → pre.toList = [sign] →
      SemVer.parse (dropPrefixChars (strip (pre ++ text)) 1) = .ok base := by
    intro sign pre hSign hPre
    have hText : pre ++ text = String.ofList (sign :: text.toList) := by
      apply String.toList_injective
      rw [String.toList_append, hPre, String.toList_ofList, List.singleton_append]
    rw [hText, parse_after_sign hSign, h]
  have hNonempty : ∀ {pre : String} {text : String}, startsWith text pre = true → pre.toList ≠ [] → text ≠ "" := by
    rintro pre _ hStart hPre rfl
    exact hPre (List.prefix_nil.mp (List.isPrefixOf_iff_prefix.mp hStart))
  have hCaretChars : "^".toList = ['^'] := by decide
  have hTildeChars : "~".toList = ['~'] := by decide
  constructor
  · have hStart := startsWith_strip_signed (by decide) text hCaretChars
    rw [ConstraintSet.fromString, if_neg (hNonempty hStart (by decide)), if_pos hStart,
      hParse (by decide) hCaretChars]
    rfl
  · have hStart := startsWith_strip_signed (by decide) text hTildeChars
    have hNotCaret : startsWith (strip ("~" ++ text)) "^" = false := by
      rw [Bool.eq_false_iff]
      intro hCaret
      obtain ⟨cs, hText⟩ := (startsWith_iff hTildeChars).mp hStart
      obtain ⟨ds, hText'⟩ := (startsWith_iff hCaretChars).mp hCaret
      cases hText.symm.trans hText'
    rw [ConstraintSet.fromString, if_neg (hNonempty hStart (by decide)), if_neg (by simp [hNotCaret]),
      if_pos hStart, hParse (by decide) hTildeChars]
    rfl

/-- What the two ranges over a bare version admit. -/
theorem ranges_admit {text : String} {base : SemVer} (h : SemVer.parse text = .ok base) :
    ∃ caret tilde, ConstraintSet.fromString ("^" ++ text) = .ok caret ∧
      ConstraintSet.fromString ("~" ++ text) = .ok tilde ∧
      ∀ candidate v, SemVer.parse candidate = .ok v →
        (caret.satisfies v = true ↔ 0 ≤ compareVersions v base ∧
          (AgreesUpToNonZero base v ∨ IsPrereleaseOf v (caretUpperBound base))) ∧
        (tilde.satisfies v = true → (v.major = base.major ∧ v.minor = base.minor) ∨
          IsPrereleaseOf v ⟨base.major, base.minor + 1, 0, [], []⟩) := by
  obtain ⟨hCaret, hTilde⟩ := fromString_signed h
  refine ⟨caretRange base, tildeRange base, hCaret, hTilde, ?_⟩
  intro candidate v hParse
  exact ⟨caretRange_iff (nonneg_of_parse h) (nonneg_of_parse hParse),
    tildeRange_sound (nonneg_of_parse h) (nonneg_of_parse hParse)⟩

theorem ranges_admit_rc : ∃ caret, ConstraintSet.fromString "^1.2.3" = .ok caret ∧
    (caret.satisfies ⟨2, 0, 0, ["rc", "1"], []⟩ = true ↔
      0 ≤ compareVersions ⟨2, 0, 0, ["rc", "1"], []⟩ ⟨1, 2, 3, [], []⟩ ∧
        (AgreesUpToNonZero ⟨1, 2, 3, [], []⟩ ⟨2, 0, 0, ["rc", "1"], []⟩ ∨
          IsPrereleaseOf ⟨2, 0, 0, ["rc", "1"], []⟩ (caretUpperBound ⟨1, 2, 3, [], []⟩))) := by
  have hBase : SemVer.parse "1.2.3" = .ok ⟨1, 2, 3, [], []⟩ := by decide
  have hCandidate : SemVer.parse "2.0.0-rc.1" = .ok ⟨2, 0, 0, ["rc", "1"], []⟩ := by decide
  obtain ⟨caret, tilde, hCaret, -, hAdmits⟩ := ranges_admit hBase
  exact ⟨caret, hCaret, (hAdmits "2.0.0-rc.1" _ hCandidate).1⟩

/-- A prerelease of the next major version is in the caret range, one of the next minor version in the tilde
range. -/
theorem prerelease_in_ranges :
    (ConstraintSet.fromString "^1.2.3" = .ok (caretRange ⟨1, 2, 3, [], []⟩) ∧
      SemVer.parse "2.0.0-rc.1" = .ok ⟨2, 0, 0, ["rc", "1"], []⟩ ∧
      (caretRange ⟨1, 2, 3, [], []⟩).satisfies ⟨2, 0, 0, ["rc", "1"], []⟩ = true ∧
      ¬ AgreesUpToNonZero ⟨1, 2, 3, [], []⟩ ⟨2, 0, 0, ["rc", "1"], []⟩) ∧
    (ConstraintSet.fromString "~1.2.3" = .ok (tildeRange ⟨1, 2, 3, [], []⟩) ∧
      SemVer.parse "1.3.0-rc.1" = .ok ⟨1, 3, 0, ["rc", "1"], []⟩ ∧
      (tildeRange ⟨1, 2, 3, [], []⟩).satisfies ⟨1, 3, 0, ["rc", "1"], []⟩ = true ∧
      (SemVer.mk 1 3 0 ["rc", "1"] []).minor ≠ (SemVer.mk 1 2 3 [] []).minor) := by
  have hCaret : ConstraintSet.fromString "^1.2.3" = .ok (caretRange ⟨1, 2, 3, [], []⟩) := by decide
  have hTilde : ConstraintSet.fromString "~1.2.3" = .ok (tildeRange ⟨1, 2, 3, [], []⟩) := by decide
  have hDiffers : ¬ AgreesUpToNonZero ⟨1, 2, 3, [], []⟩ ⟨2, 0, 0, ["rc", "1"], []⟩ := by
    simp [AgreesUpToNonZero]
  exact ⟨⟨hCaret, by decide, by decide, hDiffers⟩, hTilde, by decide, by decide, by decide⟩

end Forge.Registry
