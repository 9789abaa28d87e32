import Forge.Registry.SemVer

/-! # Versions that the registry accepts

A version of the pattern `SEMVER_PATTERN` consists of three numbers and two lists of identifiers, up to the
newline that the pattern leaves unread. `SemVer.parse` finds exactly these parts.
-/
namespace Forge.Registry
open Forge.Python
set_option autoImplicit false

/-! ## The characters of a version -/

/-- The characters of numbers and identifiers. -/
def isPartChar (c : Char) : Bool := isDecimal c || isIdentChar c

def isVersionChar (c : Char) : Bool := isDecimal c || isIdentChar c || c == '.' || c == '+'

/-- The patterns of a version read version characters only. -/
def OfVersionChars (r : Regex) : Prop := r.Over fun c => isVersionChar c = true

theorem isVersionChar_of_part {c : Char} (h : isPartChar c = true) : isVersionChar c = true := by
  rw [isPartChar] at h
  simp [isVersionChar, h]

theorem isDecimal_of_nonZero {c : Char} (h : isNonZeroDigit c = true) : isDecimal c = true := by
  simp only [isNonZeroDigit, Bool.and_eq_true, decide_eq_true_eq] at h
  exact isDecimal_iff.mpr ⟨48, by decide, by omega, by omega⟩

theorem isIdentChar_bounds {c : Char} (h : isIdentChar c = true) : 45 ≤ c.toNat ∧ c.toNat ≤ 122 := by
  simp only [isIdentChar, isLetterOrHyphen, isAsciiLetter, isAsciiDigit, Bool.or_eq_true,
    Bool.and_eq_true, decide_eq_true_eq, beq_iff_eq] at h
  rcases h with h | h | rfl
  · omega
  · omega
  · decide

theorem isSpace_of_isIdentChar {c : Char} (h : isIdentChar c = true) : isSpace c = false := by
  have hBounds := isIdentChar_bounds h
  simp only [isSpace, Bool.or_eq_false_iff, Bool.and_eq_false_iff, decide_eq_false_iff_not, beq_eq_false_iff_ne]
  omega

theorem isSpace_of_isVersionChar {c : Char} (h : isVersionChar c = true) : isSpace c = false := by
  simp only [isVersionChar, Bool.or_eq_true, beq_iff_eq] at h
  rcases h with ((h | h) | rfl) | rfl
  · exact isSpace_of_isDecimal h
  · exact isSpace_of_isIdentChar h
  · decide
  · decide

theorem char_over {c : Char} (h : isVersionChar c = true) : OfVersionChars (.char c) := by
  intro d hd
  rwa [beq_iff_eq.mp hd]

theorem numericPattern_over : numericPattern.Over fun c => isDecimal c = true := by
  refine ⟨?_, fun c hc => isDecimal_of_nonZero hc, fun c hc => hc⟩
  intro c hc
  rw [beq_iff_eq.mp hc]
  decide

theorem prereleaseIdentPattern_over : prereleaseIdentPattern.Over fun c => isPartChar c = true := by
  have hDecimal : ∀ c, isDecimal c = true → isPartChar c = true := fun c hc => by simp [isPartChar, hc]
  refine ⟨numericPattern_over.mono hDecimal, hDecimal, ?_, ?_⟩
  · intro c hc
    simp [isPartChar, isIdentChar, hc]
  · intro c hc
    simp [isPartChar, hc]

theorem buildIdentPattern_over : buildIdentPattern.Over fun c => isPartChar c = true := by
  have hIdent : ∀ c, isIdentChar c = true → isPartChar c = true := fun c hc => by simp [isPartChar, hc]
  exact ⟨hIdent, hIdent⟩

theorem dotted_over {ident : Regex} (h : ident.Over fun c => isPartChar c = true) :
    OfVersionChars (dotted ident) := by
  have hVersion := h.mono fun c => isVersionChar_of_part
  exact ⟨hVersion, char_over (by decide), hVersion⟩

theorem semverPattern_over : OfVersionChars semverPattern := by
  have hNumeric : OfVersionChars numericPattern :=
    numericPattern_over.mono fun c hc => by simp [isVersionChar, hc]
  exact ⟨hNumeric, char_over (by decide), hNumeric, char_over (by decide), hNumeric,
    ⟨trivial, char_over (by decide), dotted_over prereleaseIdentPattern_over⟩,
    ⟨trivial, char_over (by decide), dotted_over buildIdentPattern_over⟩⟩

theorem isVersionChar_of_valid {version : String} (h : isValidSemver version = true) :
    ∀ c ∈ version.toList, isVersionChar c = true ∨ c = '\n' :=
  Regex.Over.of_matchAnchored semverPattern_over h

/-! ## The parts of a version -/

/-- A text of the pattern `SEMVER_PATTERN`, by its parts. -/
structure VersionText where
  major : List Char
  minor : List Char
  patch : List Char
  prerelease : List (List Char)
  build : List (List Char)
  major_numeric : numericPattern.accepts major = true
  minor_numeric : numericPattern.accepts minor = true
  patch_numeric : numericPattern.accepts patch = true
  prerelease_idents : ∀ ident ∈ prerelease, prereleaseIdentPattern.accepts ident = true
  build_idents : ∀ ident ∈ build, buildIdentPattern.accepts ident = true

/-- The identifiers of a part after the character that opens it, and nothing where there are none. -/
def partText (opening : Char) (idents : List (List Char)) : List Char :=
  if idents = [] then [] else opening :: ['.'].intercalate idents

namespace VersionText

def core (v : VersionText) : List Char := v.major ++ '.' :: (v.minor ++ '.' :: v.patch)

def text (v : VersionText) : List Char :=
  v.core ++ partText '-' v.prerelease ++ partText '+' v.build

def semVer (v : VersionText) : SemVer :=
  ⟨digitsValue (String.ofList v.major), digitsValue (String.ofList v.minor),
    digitsValue (String.ofList v.patch), v.prerelease.map String.ofList, v.build.map String.ofList⟩

end VersionText

theorem accepts_dotted {ident : Regex} {cs : List Char} (h : (dotted ident).accepts cs = true) :
    ∃ idents, idents ≠ [] ∧ (∀ part ∈ idents, ident.accepts part = true) ∧
      cs = ['.'].intercalate idents := by
  obtain ⟨first, post, rfl, hFirst, hPost⟩ := Regex.accepts_seq.mp h
  obtain ⟨parts, hParts, rfl⟩ := Regex.accepts_star hPost
  have hRest : ∃ rest : List (List Char), (∀ part ∈ rest, ident.accepts part = true) ∧
      parts = rest.map ('.' :: ·) := by
    clear h hPost
    induction parts with
    | nil => exact ⟨[], by simp, rfl⟩
    | cons part parts ih =>
      obtain ⟨hPart, hOthers⟩ := List.forall_mem_cons.mp hParts
      obtain ⟨rest, hRest, rfl⟩ := ih hOthers
      obtain ⟨pre, body, rfl, hDot, hBody⟩ := Regex.accepts_seq.mp hPart
      cases Regex.accepts_char.mp hDot
      exact ⟨body :: rest, List.forall_mem_cons.mpr ⟨hBody, hRest⟩, rfl⟩
  obtain ⟨rest, hIdents, rfl⟩ := hRest
  exact ⟨first :: rest, List.cons_ne_nil _ _, List.forall_mem_cons.mpr ⟨hFirst, hIdents⟩,
    (intercalate_cons '.' first rest).symm⟩

/-- An optional part of a version, with the character that opens it. -/
theorem accepts_part {opening : Char} {ident : Regex} {cs : List Char}
    (h : (Regex.opt (.seq (.char opening) (dotted ident))).accepts cs = true) :
    ∃ idents, (∀ part ∈ idents, ident.accepts part = true) ∧ cs = partText opening idents := by
  rcases Regex.accepts_opt.mp h with rfl | h
  · exact ⟨[], by simp, rfl⟩
  · obtain ⟨pre, body, rfl, hOpening, hBody⟩ := Regex.accepts_seq.mp h
    obtain ⟨idents, hNonempty, hIdents, rfl⟩ := accepts_dotted hBody
    cases Regex.accepts_char.mp hOpening
    exact ⟨idents, hIdents, by rw [partText, if_neg hNonempty]; rfl⟩

theorem exists_versionText {cs : List Char} (h : semverPattern.accepts cs = true) :
    ∃ v : VersionText, cs = v.text := by
  obtain ⟨major, rest, rfl, hMajor, h⟩ := Regex.accepts_seq.mp h
  obtain ⟨dot, rest, rfl, hDot, h⟩ := Regex.accepts_seq.mp h
  obtain ⟨minor, rest, rfl, hMinor, h⟩ := Regex.accepts_seq.mp h
  obtain ⟨dot', rest, rfl, hDot', h⟩ := Regex.accepts_seq.mp h
  obtain ⟨patch, rest, rfl, hPatch, h⟩ := Regex.accepts_seq.mp h
  obtain ⟨pre, build, rfl, hPre, hBuild⟩ := Regex.accepts_seq.mp h
  obtain ⟨prerelease, hPrerelease, rfl⟩ := accepts_part hPre
  obtain ⟨idents, hIdents, rfl⟩ := accepts_part hBuild
  cases Regex.accepts_char.mp hDot
  cases Regex.accepts_char.mp hDot'
  refine ⟨⟨major, minor, patch, prerelease, idents, hMajor, hMinor, hPatch, hPrerelease, hIdents⟩, ?_⟩
  simp [VersionText.text, VersionText.core]

/-! ## Parsing a valid version -/

theorem notMem_numeric {cs : List Char} (h : numericPattern.accepts cs = true) {c : Char}
    (hc : isDecimal c = false) : c ∉ cs := by
  intro hMem
  exact absurd (hc.symm.trans (numericPattern_over.of_accepts h c hMem)) Bool.false_ne_true

theorem notMem_ident {ident : Regex} (hOver : ident.Over fun c => isPartChar c = true)
    {cs : List Char} (h : ident.accepts cs = true) {c : Char} (hc : isPartChar c = false) : c ∉ cs := by
  intro hMem
  exact absurd (hc.symm.trans (hOver.of_accepts h c hMem)) Bool.false_ne_true

theorem int?_numeric {cs : List Char} (h : numericPattern.accepts cs = true) :
    int? (String.ofList cs) = some (digitsValue (String.ofList cs) : Int) := by
  apply int?_digits (numericPattern_over.of_accepts h)
  rintro rfl
  cases h

theorem notMem_partText {opening c : Char} {idents : List (List Char)}
    (h : ∀ ident ∈ idents, c ∉ ident) (hDot : c ≠ '.') (hOpening : c ≠ opening) :
    c ∉ partText opening idents := by
  unfold partText
  split
  · exact List.not_mem_nil
  · rename_i hNonempty
    obtain ⟨first, rest, rfl⟩ := List.exists_cons_of_ne_nil hNonempty
    obtain ⟨hFirst, hRest⟩ := List.forall_mem_cons.mp h
    rw [intercalate_cons, List.mem_cons, List.mem_append, List.mem_flatten]
    rintro (hc | hc | ⟨part, hPart, hc⟩)
    · exact hOpening hc
    · exact hFirst hc
    · obtain ⟨ident, hIdent, rfl⟩ := List.mem_map.mp hPart
      cases List.mem_cons.mp hc with
      | inl hSame => exact hDot hSame
      | inr hc => exact hRest ident hIdent hc

theorem splitOnce_part {cs : List Char} {opening : Char} (h : opening ∉ cs) (idents : List (List Char)) :
    splitOnce (String.ofList (cs ++ partText opening idents)) opening =
      (String.ofList cs, String.ofList (['.'].intercalate idents)) := by
  unfold partText
  split
  · rename_i hEmpty
    rw [List.append_nil, splitOnce_of_notMem (by rwa [String.toList_ofList]), hEmpty]
    rfl
  · exact splitOnce_append h _

theorem parseIdents_intercalate {idents : List (List Char)}
    (h : ∀ ident ∈ idents, '.' ∉ ident ∧ ident ≠ []) :
    parseIdents (String.ofList (['.'].intercalate idents)) = idents.map String.ofList := by
  cases idents with
  | nil => rfl
  | cons first rest =>
    have hText : String.ofList (['.'].intercalate (first :: rest)) ≠ "" := by
      intro hEmpty
      have hList := congrArg String.toList hEmpty
      rw [String.toList_ofList, intercalate_cons] at hList
      exact (h first List.mem_cons_self).2 (List.append_eq_nil_iff.mp hList).1
    rw [parseIdents, if_neg hText, splitOn, String.toList_ofList,
      List.splitOn_intercalate '.' (fun ident hIdent => (h ident hIdent).1) (List.cons_ne_nil _ _)]

theorem checkPrerelease_idents {idents : List (List Char)}
    (h : ∀ ident ∈ idents, prereleaseIdentPattern.accepts ident = true) :
    checkPrerelease (idents.map String.ofList) = .ok () := by
  induction idents with
  | nil => rfl
  | cons ident rest ih =>
    obtain ⟨hIdent, hRest⟩ := List.forall_mem_cons.mp h
    have hMatch : prereleasePattern.matchAnchored (String.ofList ident) = true := by
      refine Regex.matchAnchored_iff.mpr ⟨ident, [], by simp, ?_, .inl rfl⟩
      exact Regex.accepts_seq.mpr ⟨ident, [], (List.append_nil _).symm, hIdent, rfl⟩
    rw [List.map_cons, checkPrerelease, if_pos hMatch]
    exact ih hRest

namespace VersionText
variable (v : VersionText)

theorem prerelease_parts : ∀ ident ∈ v.prerelease, ∀ c, isPartChar c = false → c ∉ ident :=
  fun ident hIdent _ => notMem_ident prereleaseIdentPattern_over (v.prerelease_idents ident hIdent)

theorem build_parts : ∀ ident ∈ v.build, ∀ c, isPartChar c = false → c ∉ ident :=
  fun ident hIdent _ => notMem_ident buildIdentPattern_over (v.build_idents ident hIdent)

theorem core_eq : v.core = ['.'].intercalate [v.major, v.minor, v.patch] := by
  simp [core]

theorem notMem_core {c : Char} (hc : isDecimal c = false) (hDot : c ≠ '.') : c ∉ v.core := by
  simp only [core, List.mem_append, List.mem_cons, not_or]
  exact ⟨notMem_numeric v.major_numeric hc, hDot, notMem_numeric v.minor_numeric hc, hDot,
    notMem_numeric v.patch_numeric hc⟩

theorem splitOn_core : splitOn (String.ofList v.core) '.' =
    [String.ofList v.major, String.ofList v.minor, String.ofList v.patch] := by
  have hParts : ∀ part ∈ [v.major, v.minor, v.patch], '.' ∉ part := by
    simp only [List.forall_mem_cons]
    exact ⟨notMem_numeric v.major_numeric (by decide), notMem_numeric v.minor_numeric (by decide),
      notMem_numeric v.patch_numeric (by decide), by simp⟩
  rw [splitOn, String.toList_ofList, core_eq, List.splitOn_intercalate '.' hParts (by simp)]
  rfl

theorem parseCore_core : parseCore (String.ofList v.core) (String.ofList (['.'].intercalate v.prerelease))
    (String.ofList (['.'].intercalate v.build)) = .ok v.semVer := by
  have hPrerelease : parseIdents (String.ofList (['.'].intercalate v.prerelease)) =
      v.prerelease.map String.ofList := by
    apply parseIdents_intercalate
    intro ident hIdent
    refine ⟨v.prerelease_parts ident hIdent '.' (by decide), ?_⟩
    rintro rfl
    cases v.prerelease_idents [] hIdent
  have hBuild : parseIdents (String.ofList (['.'].intercalate v.build)) = v.build.map String.ofList := by
    apply parseIdents_intercalate
    intro ident hIdent
    refine ⟨v.build_parts ident hIdent '.' (by decide), ?_⟩
    rintro rfl
    cases v.build_idents [] hIdent
  simp only [parseCore, splitOn_core, int?_numeric v.major_numeric, int?_numeric v.minor_numeric,
    int?_numeric v.patch_numeric, hPrerelease, hBuild, checkPrerelease_idents v.prerelease_idents]
  rfl

end VersionText

/-- At most a final newline is stripped from a valid version. -/
theorem strip_of_valid {version : String} (h : isValidSemver version = true) :
    ∃ body tail, version.toList = body ++ tail ∧ (tail = [] ∨ tail = ['\n']) ∧
      semverPattern.accepts body = true ∧ strip version = String.ofList body := by
  obtain ⟨body, tail, hText, hBody, hTail⟩ := Regex.matchAnchored_iff.mp h
  have hChars := semverPattern_over.of_accepts hBody
  have hSpaces : ∀ c ∈ tail, isSpace c = true := by
    rcases hTail with rfl | rfl
    · simp
    · simp [isSpace]
  refine ⟨body, tail, hText, hTail, hBody, ?_⟩
  rw [strip, hText, stripChars_append (fun c hc => isSpace_of_isVersionChar (hChars c hc)) hSpaces]

theorem isValidSemver_strip {version : String} (h : isValidSemver version = true) :
    isValidSemver (strip version) = true := by
  obtain ⟨body, -, -, -, hBody, hStrip⟩ := strip_of_valid h
  refine Regex.matchAnchored_iff.mpr ⟨body, [], ?_, hBody, .inl rfl⟩
  rw [hStrip, String.toList_ofList, List.append_nil]

/-- A valid version is parsed into its parts. -/
theorem parse_of_valid {version : String} (h : isValidSemver version = true) :
    ∃ v : VersionText, strip version = String.ofList v.text ∧ SemVer.parse version = .ok v.semVer := by
  obtain ⟨body, -, -, -, hBody, hStrip⟩ := strip_of_valid h
  obtain ⟨v, rfl⟩ := exists_versionText hBody
  have hChars := semverPattern_over.of_accepts hBody
  have hAbsent : ∀ c, isVersionChar c = false → c ∉ (String.ofList v.text).toList := by
    intro c hc hMem
    rw [String.toList_ofList] at hMem
    exact absurd (hc.symm.trans (hChars c hMem)) Bool.false_ne_true
  have hPlus : '+' ∉ v.core ++ partText '-' v.prerelease := by
    rw [List.mem_append, not_or]
    exact ⟨v.notMem_core (by decide) (by decide), notMem_partText
      (fun ident hIdent => v.prerelease_parts ident hIdent '+' (by decide)) (by decide) (by decide)⟩
  have hCaret : startsWith (String.ofList v.text) "^" = false :=
    startsWith_eq_false "^" (by decide) (hAbsent '^' (by decide))
  have hTilde : startsWith (String.ofList v.text) "~" = false :=
    startsWith_eq_false "~" (by decide) (hAbsent '~' (by decide))
  have hBuild : splitOnce (String.ofList v.text) '+' =
      (String.ofList (v.core ++ partText '-' v.prerelease), String.ofList (['.'].intercalate v.build)) :=
    splitOnce_part hPlus v.build
  have hCore : '-' ∉ v.core := v.notMem_core (by decide) (by decide)
  have hPrerelease := splitOnce_part hCore v.prerelease
  refine ⟨v, hStrip, ?_⟩
  simp only [SemVer.parse, hStrip, hCaret, hTilde, Bool.or_self, Bool.false_eq_true, if_false, hBuild,
    hPrerelease, v.parseCore_core]

theorem versionKey_of_valid {version : String} (h : isValidSemver version = true) :
    ∃ k, versionKey version = .ok k := by
  obtain ⟨v, -, hParse⟩ := parse_of_valid h
  exact ⟨v.semVer.key version, versionKey_of_parse hParse⟩

end Forge.Registry
