import Forge.Registry.Metadata
import Forge.Registry.Ranges
import Forge.Registry.Selection

/-! # The sort key against precedence

`version_key` compares the prerelease identifiers as texts, `compare_versions` by their ranks. The two
orders agree on two versions when the texts decide at their first difference what the ranks decide at
theirs.
-/
namespace Forge.Registry
open Forge.Python
set_option autoImplicit false

/-! ## Lists of identifiers -/

/-- The first identifiers of different rank are ordered as the texts are; `verdict` is what the texts of
the identifiers before have decided. -/
def alignedFrom (verdict : Int) : List String → List String → Prop
  | [], [] => True
  | [], _ :: _ => verdict ≤ 0
  | _ :: _, [] => 0 ≤ verdict
  | a :: as, b :: bs =>
    let verdict := if verdict = 0 then sign a b else verdict
    if identRank a = identRank b then alignedFrom verdict as bs
    else (identRank a < identRank b ↔ verdict < 0)

/-- Versions of the same numbers: both or neither have prereleases, and these are aligned. -/
def SemVer.Aligned (v w : SemVer) : Prop :=
  SameCore v w → (v.prerelease = [] ↔ w.prerelease = []) ∧ alignedFrom 0 v.prerelease w.prerelease

section
variable {verdict : Int} {a b : String} {as bs : List String}

theorem verdict_neg_iff : (if verdict = 0 then sign a b else verdict) < 0 ∨
    (if verdict = 0 then sign a b else verdict) = 0 ∧ as < bs ↔
      verdict < 0 ∨ verdict = 0 ∧ a :: as < b :: bs := by
  rw [List.cons_lt_cons_iff]
  split
  · rename_i hZero
    simp [hZero, sign_neg_iff, sign_eq_zero_iff]
  · rename_i hDecided
    simp [hDecided]

theorem verdict_pos_iff : 0 < (if verdict = 0 then sign a b else verdict) ∨
    (if verdict = 0 then sign a b else verdict) = 0 ∧ bs < as ↔
      0 < verdict ∨ verdict = 0 ∧ b :: bs < a :: as := by
  rw [List.cons_lt_cons_iff]
  split
  · rename_i hZero
    have hPos : 0 < sign a b ↔ b < a := by
      rw [← sign_neg_iff (a := b), sign_swap a b]
      omega
    simp [hZero, hPos, sign_eq_zero_iff, eq_comm (a := b)]
  · rename_i hDecided
    simp [hDecided]

theorem verdict_ne_zero (verdict : Int) (hNe : a ≠ b) : (if verdict = 0 then sign a b else verdict) ≠ 0 := by
  split
  · rwa [Ne, sign_eq_zero_iff]
  · assumption

end

theorem alignedFrom_iff {verdict : Int} {as bs : List String} : alignedFrom verdict as bs ↔
    (as.map identRank < bs.map identRank → verdict < 0 ∨ verdict = 0 ∧ as < bs) ∧
      (bs.map identRank < as.map identRank → 0 < verdict ∨ verdict = 0 ∧ bs < as) := by
  induction as generalizing verdict bs with
  | nil =>
    cases bs with
    | nil => simp [alignedFrom]
    | cons b bs =>
      simp [alignedFrom]
      omega
  | cons a as ih =>
    cases bs with
    | nil =>
      simp [alignedFrom]
      omega
    | cons b bs =>
      rw [alignedFrom, ← verdict_neg_iff, ← verdict_pos_iff]
      by_cases hRank : identRank a = identRank b
      · simp only [List.map_cons, List.cons_lt_cons_iff, hRank, lt_irrefl, true_and, false_or]
        exact ih
      · -- the ranks differ here, so do the texts, and the tails do not matter
        have hText : a ≠ b := fun h => hRank (congrArg identRank h)
        have hDecided := verdict_ne_zero verdict hText
        simp only [List.map_cons, List.cons_lt_cons_iff, hRank, Ne.symm hRank, hDecided,
          false_and, or_false]
        generalize (if verdict = 0 then sign a b else verdict) = verdict' at hDecided ⊢
        rcases lt_or_gt_of_ne hRank with hLess | hGreater
        · simp [hLess, hLess.not_gt]
        · simp [hGreater, hGreater.not_gt]
          omega

/-! ## Pairs of versions -/

theorem SemVer.key_lt_iff {v w : SemVer} {s t : String} : v.key s < w.key t ↔ CoreLt v w ∨
    SameCore v w ∧ (v.prerelease < w.prerelease ∨ v.prerelease = w.prerelease ∧ s < t) := by
  simp only [SemVer.key, Prod.Lex.toLex_lt_toLex, CoreLt, SameCore]
  tauto

theorem suffixRank_cons_lt {a b : String} {as bs : List String} :
    suffixRank (a :: as) < suffixRank (b :: bs) ↔
      (a :: as).map identRank < (b :: bs).map identRank := by
  rw [suffixRank, suffixRank, if_neg (List.cons_ne_nil a as), if_neg (List.cons_ne_nil b bs)]
  exact WithTop.coe_lt_coe

theorem not_sameCore_of_coreLt {v w : SemVer} (h : CoreLt v w) : ¬ SameCore v w := by
  unfold CoreLt SameCore at *
  omega

theorem SameCore.symm {v w : SemVer} (h : SameCore v w) : SameCore w v := by
  obtain ⟨hMajor, hMinor, hPatch⟩ := h
  exact ⟨hMajor.symm, hMinor.symm, hPatch.symm⟩

/-- With the same numbers, the keys follow precedence in both directions when the prereleases are aligned. -/
theorem suffixes_iff {as bs : List String} {s t : String} :
    ((as = [] ↔ bs = []) ∧ alignedFrom 0 as bs) ↔
      (suffixRank as < suffixRank bs → as < bs ∨ as = bs ∧ s < t) ∧
      (suffixRank bs < suffixRank as → bs < as ∨ bs = as ∧ t < s) := by
  cases as with
  | nil =>
    cases bs with
    | nil => simp [alignedFrom]
    | cons b bs => simp [suffixRank]
  | cons a as =>
    cases bs with
    | nil => simp [suffixRank]
    | cons b bs =>
      rw [suffixRank_cons_lt, suffixRank_cons_lt, alignedFrom_iff]
      have hLess : (a :: as).map identRank < (b :: bs).map identRank → a :: as ≠ b :: bs := by
        rintro hLess hSame
        rw [hSame] at hLess
        exact lt_irrefl _ hLess
      have hGreater : (b :: bs).map identRank < (a :: as).map identRank → b :: bs ≠ a :: as := by
        rintro hGreater hSame
        rw [hSame] at hGreater
        exact lt_irrefl _ hGreater
      generalize (a :: as).map identRank = ranks at hLess hGreater ⊢
      generalize (b :: bs).map identRank = ranks' at hLess hGreater ⊢
      simp only [lt_irrefl, false_or, true_and, List.cons_ne_nil]
      constructor
      · rintro ⟨hLt, hGt⟩
        exact ⟨fun h => .inl (hLt h), fun h => .inl (hGt h)⟩
      · rintro ⟨hLt, hGt⟩
        exact ⟨fun h => (hLt h).resolve_right fun hSame => hLess h hSame.1,
          fun h => (hGt h).resolve_right fun hSame => hGreater h hSame.1⟩

theorem SemVer.aligned_iff {v w : SemVer} (s t : String) : v.Aligned w ↔
    (compareVersions v w < 0 → v.key s < w.key t) ∧ (compareVersions w v < 0 → w.key t < v.key s) := by
  rw [compareVersions_neg_iff, compareVersions_neg_iff, rank_lt_iff, rank_lt_iff, SemVer.key_lt_iff,
    SemVer.key_lt_iff, SemVer.Aligned]
  by_cases hCore : SameCore v w
  · have hNotLess : ¬ CoreLt v w := fun h => not_sameCore_of_coreLt h hCore
    have hNotGreater : ¬ CoreLt w v := fun h => not_sameCore_of_coreLt h hCore.symm
    simp only [hCore, hCore.symm, hNotLess, hNotGreater, true_imp_iff, true_and, false_or]
    exact suffixes_iff
  · have hCore' : ¬ SameCore w v := fun h => hCore h.symm
    simp only [hCore, hCore', false_imp_iff, false_and, or_false, true_iff]
    exact ⟨id, id⟩

/-! ## What is sorted by the key -/

/-- `u` is not above `v` in precedence. -/
def NotAbove (u v : String) : Prop :=
  ∃ p q, SemVer.parse u = .ok p ∧ SemVer.parse v = .ok q ∧ compareVersions p q ≤ 0

/-- The keys of the versions follow precedence, and so do the listing of a table with these versions and
the choice among them. -/
structure FollowsPrecedence (versions : List String) : Prop where
  keys : ∀ u ∈ versions, ∀ v ∈ versions, ∃ p q ku kv, SemVer.parse u = .ok p ∧ SemVer.parse v = .ok q ∧
    versionKey u = .ok ku ∧ versionKey v = .ok kv ∧ (compareVersions p q < 0 → ku < kv)
  listed : ∀ (table : ArtifactTable) (name : String),
    ((table.rows.filter fun row => row.name = name).map Row.version).Perm versions →
    ∃ entries, listVersions table name = .ok entries ∧
      (entries.map VersionEntry.version).Perm versions ∧
      entries.Pairwise fun e f => NotAbove e.version f.version
  selected : ∀ (registry : RegistryClient) (name : String) (reqs : List Requirement)
    (available : List String) (best : String), registry.listVersions name = .ok available →
    available.Perm versions → selectVersion registry name reqs = .ok best →
    ∀ ver ∈ available, isCandidate reqs ver = true → NotAbove ver best

def AllAligned (versions : List String) : Prop :=
  ∀ u ∈ versions, ∀ v ∈ versions, ∀ p q, SemVer.parse u = .ok p → SemVer.parse v = .ok q → p.Aligned q

section
variable {versions : List String}

theorem AllAligned.notAbove (h : AllAligned versions) {u v : String} (hu : u ∈ versions) (hv : v ∈ versions)
    {ku kv : VersionKey} (hku : versionKey u = .ok ku) (hkv : versionKey v = .ok kv) (hLe : ku ≤ kv) :
    NotAbove u v := by
  obtain ⟨p, hp, rfl⟩ := versionKey_ok hku
  obtain ⟨q, hq, rfl⟩ := versionKey_ok hkv
  refine ⟨p, q, hp, hq, ?_⟩
  have hBelow := ((SemVer.aligned_iff u v).mp (h u hu v hv p q hp hq)).2
  rw [compareVersions_swap]
  by_contra hAbove
  exact absurd (hBelow (by omega)) hLe.not_gt

theorem AllAligned.listed (h : AllAligned versions) (hValid : ∀ ver ∈ versions, isValidSemver ver = true)
    {table : ArtifactTable} {name : String}
    (hRows : ((table.rows.filter fun row => row.name = name).map Row.version).Perm versions) :
    ∃ entries, listVersions table name = .ok entries ∧
      (entries.map VersionEntry.version).Perm versions ∧
      entries.Pairwise fun e f => NotAbove e.version f.version := by
  obtain ⟨entries, hEntries⟩ : ∃ entries, listVersions table name = .ok entries := by
    refine listVersions_of_keys fun row hRow hName => versionKey_of_valid (hValid _ ?_)
    exact hRows.mem_iff.mp (List.mem_map.mpr ⟨row, List.mem_filter.mpr ⟨hRow, by simpa using hName⟩, rfl⟩)
  have hPerm := (listVersions_perm hEntries).trans hRows
  refine ⟨entries, hEntries, hPerm, ?_⟩
  refine (sortedByKey_pairwise hEntries).imp_of_mem fun {e f} he hf => ?_
  rintro ⟨ke, kf, hke, hkf, hLe⟩
  exact h.notAbove (hPerm.mem_iff.mp (List.mem_map_of_mem he)) (hPerm.mem_iff.mp (List.mem_map_of_mem hf))
    hke hkf hLe

theorem AllAligned.selected (h : AllAligned versions) {registry : RegistryClient} {name best : String}
    {reqs : List Requirement} {available : List String} (hList : registry.listVersions name = .ok available)
    (hPerm : available.Perm versions) (hBest : selectVersion registry name reqs = .ok best) :
    ∀ ver ∈ available, isCandidate reqs ver = true → NotAbove ver best := by
  obtain ⟨available', hList', hMem, k, hk, hMax⟩ := (selectVersion_ok hBest).greatest
  cases hList.symm.trans hList'
  intro ver hVer hCandidate
  obtain ⟨k', hk', hLe⟩ := hMax ver hVer hCandidate
  exact h.notAbove (hPerm.mem_iff.mp hVer) (hPerm.mem_iff.mp hMem) hk' hk hLe

theorem followsPrecedence_iff (hValid : ∀ ver ∈ versions, isValidSemver ver = true) :
    FollowsPrecedence versions ↔ AllAligned versions := by
  constructor
  · intro hFollows u hu v hv p q hp hq
    rw [SemVer.aligned_iff u v]
    obtain ⟨p', q', ku, kv, hp', hq', hku, hkv, hLess⟩ := hFollows.keys u hu v hv
    obtain ⟨q'', p'', kv', ku', hq'', hp'', hkv', hku', hGreater⟩ := hFollows.keys v hv u hu
    cases hp.symm.trans hp'
    cases hp.symm.trans hp''
    cases hq.symm.trans hq'
    cases hq.symm.trans hq''
    cases hku'.symm.trans (versionKey_of_parse hp)
    cases hkv'.symm.trans (versionKey_of_parse hq)
    cases hku.symm.trans hku'
    cases hkv.symm.trans hkv'
    exact ⟨hLess, hGreater⟩
  · intro hAligned
    refine ⟨?_, fun _ _ hRows => hAligned.listed hValid hRows, ?_⟩
    · intro u hu v hv
      obtain ⟨s, -, hs⟩ := parse_of_valid (hValid u hu)
      obtain ⟨t, -, ht⟩ := parse_of_valid (hValid v hv)
      refine ⟨_, _, _, _, hs, ht, versionKey_of_parse hs, versionKey_of_parse ht, ?_⟩
      exact ((SemVer.aligned_iff u v).mp (hAligned u hu v hv _ _ hs ht)).1
    · exact fun _ _ _ _ _ hList hPerm hBest => hAligned.selected hList hPerm hBest

end

theorem followsPrecedence_candidates : (∀ ver ∈ ["1.0.0-rc.1", "1.0.0-rc.2"], isValidSemver ver = true) ∧
    (FollowsPrecedence ["1.0.0-rc.1", "1.0.0-rc.2"] ↔ AllAligned ["1.0.0-rc.1", "1.0.0-rc.2"]) := by
  have hValid : ∀ ver ∈ ["1.0.0-rc.1", "1.0.0-rc.2"], isValidSemver ver = true := by decide
  exact ⟨hValid, followsPrecedence_iff hValid⟩

/-- The key of a release is below those of its own prereleases. -/
theorem not_followsPrecedence_release : isValidSemver "1.0.0-rc.1" = true ∧ isValidSemver "1.0.0" = true ∧
    (∃ p q ku kv, SemVer.parse "1.0.0-rc.1" = .ok p ∧ SemVer.parse "1.0.0" = .ok q ∧ compareVersions p q < 0 ∧
      versionKey "1.0.0-rc.1" = .ok ku ∧ versionKey "1.0.0" = .ok kv ∧ kv < ku) ∧
    ¬ FollowsPrecedence ["1.0.0-rc.1", "1.0.0"] := by
  have hCandidate : SemVer.parse "1.0.0-rc.1" = .ok ⟨1, 0, 0, ["rc", "1"], []⟩ := by decide
  have hRelease : SemVer.parse "1.0.0" = .ok ⟨1, 0, 0, [], []⟩ := by decide
  have hBelow : (⟨1, 0, 0, [], []⟩ : SemVer).key "1.0.0" <
      (⟨1, 0, 0, ["rc", "1"], []⟩ : SemVer).key "1.0.0-rc.1" := by decide
  refine ⟨by decide, by decide, ⟨_, _, _, _, hCandidate, hRelease, by decide,
    versionKey_of_parse hCandidate, versionKey_of_parse hRelease, hBelow⟩, fun h => ?_⟩
  obtain ⟨p, q, ku, kv, hp, hq, hku, hkv, hLess⟩ :=
    h.keys "1.0.0-rc.1" (by decide) "1.0.0" (by decide)
  cases hp.symm.trans hCandidate
  cases hq.symm.trans hRelease
  cases hku.symm.trans (versionKey_of_parse hCandidate)
  cases hkv.symm.trans (versionKey_of_parse hRelease)
  exact lt_asymm (hLess (by decide)) hBelow

end Forge.Registry
