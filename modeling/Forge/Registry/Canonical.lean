import Forge.Registry.ValidVersion

/-! # Versions that are printed as they were written

`SemVer.parse` drops the newline that the pattern leaves unread and replaces every decimal digit of the three
numbers by its ASCII form. What is left of a version without these is the version itself.
-/
namespace Forge.Registry
open Forge.Python
set_option autoImplicit false

/-! ## Printing numbers -/

def digitsAfter (acc : Nat) (cs : List Char) : Nat :=
  cs.foldl (fun acc c => acc * 10 + (decimalValue? c).getD 0) acc

theorem decimalValue?_ascii {c : Char} (h : isAsciiDigit c = true) :
    decimalValue? c = some (c.toNat - 48) ∧ Nat.digitChar (c.toNat - 48) = c := by
  simp only [isAsciiDigit, Bool.and_eq_true, decide_eq_true_eq] at h
  have hAll : ∀ k < 10, decimalValue? (Char.ofNat (48 + k)) = some k ∧
      Nat.digitChar k = Char.ofNat (48 + k) := by decide
  have hChar : c = Char.ofNat (48 + (c.toNat - 48)) := by
    rw [Nat.add_sub_cancel' h.1, Char.ofNat_toNat]
  have hHere := hAll (c.toNat - 48) (by omega)
  rw [← hChar] at hHere
  exact hHere

theorem toDigits_append_digits {cs : List Char} (h : ∀ c ∈ cs, isAsciiDigit c = true) {acc : Nat}
    (hPos : 0 < acc) : Nat.toDigits 10 acc ++ cs = Nat.toDigits 10 (digitsAfter acc cs) := by
  induction cs generalizing acc with
  | nil => simp [digitsAfter]
  | cons c cs ih =>
    obtain ⟨hc, hRest⟩ := List.forall_mem_cons.mp h
    obtain ⟨hValue, hDigit⟩ := decimalValue?_ascii hc
    have hSmall : c.toNat - 48 < 10 := by
      simp only [isAsciiDigit, Bool.and_eq_true, decide_eq_true_eq] at hc
      omega
    have hStep := Nat.toDigits_append_toDigits (by decide : 1 < 10) hPos hSmall
    rw [Nat.toDigits_of_lt_base hSmall, hDigit] at hStep
    rw [List.append_cons, hStep, ih hRest (by omega), digitsAfter, digitsAfter, List.foldl_cons, hValue,
      Option.getD_some, Nat.mul_comm]

theorem accepts_numericPattern {cs : List Char} (h : numericPattern.accepts cs = true) :
    cs = ['0'] ∨ ∃ c rest, cs = c :: rest ∧ isNonZeroDigit c = true := by
  rcases Regex.accepts_alt.mp h with hZero | hOther
  · exact .inl (Regex.accepts_char.mp hZero)
  · obtain ⟨pre, post, rfl, hPre, -⟩ := Regex.accepts_seq.mp hOther
    obtain ⟨c, rfl, hc⟩ := Regex.accepts_chars.mp hPre
    exact .inr ⟨c, post, rfl, hc⟩

theorem repr_digitsValue {cs : List Char} (h : numericPattern.accepts cs = true)
    (hAscii : ∀ c ∈ cs, isAsciiDigit c = true) : Nat.toDigits 10 (digitsValue (String.ofList cs)) = cs := by
  have hValue : digitsValue (String.ofList cs) = digitsAfter 0 cs := by
    rw [digitsValue, String.toList_ofList]
    rfl
  rw [hValue]
  rcases accepts_numericPattern h with rfl | ⟨c, rest, rfl, hNonZero⟩
  · rfl
  · obtain ⟨hc, hRest⟩ := List.forall_mem_cons.mp hAscii
    obtain ⟨hDecimal, hDigit⟩ := decimalValue?_ascii hc
    simp only [isNonZeroDigit, Bool.and_eq_true, decide_eq_true_eq] at hNonZero
    have hFirst : Nat.toDigits 10 (c.toNat - 48) = [c] := by
      rw [Nat.toDigits_of_lt_base (by omega), hDigit]
    have hStart : digitsAfter 0 (c :: rest) = digitsAfter (c.toNat - 48) rest := by
      rw [digitsAfter, digitsAfter, List.foldl_cons, hDecimal, Option.getD_some, Nat.zero_mul, Nat.zero_add]
    have hAll := toDigits_append_digits hRest (by omega : 0 < c.toNat - 48)
    rw [hStart, ← hAll, hFirst, List.singleton_append]

/-! ## Printing versions -/

/-- No newline at the end, and no digit of the three numbers beyond ASCII. -/
def IsCanonical (version : String) : Prop :=
  version.toList.getLast? ≠ some '\n' ∧
    ∀ c ∈ version.toList.takeWhile fun c => c != '-' && c != '+', c.toNat < 128

theorem toList_natCast (n : ℕ) : (toString (n : Int)).toList = Nat.toDigits 10 n := by
  rw [← Nat.toList_repr]
  rfl

namespace VersionText
variable (v : VersionText)

/-- The three numbers as `str` prints them. -/
def printedCore : List Char :=
  Nat.toDigits 10 (digitsValue (String.ofList v.major)) ++ '.' ::
    (Nat.toDigits 10 (digitsValue (String.ofList v.minor)) ++ '.' ::
      Nat.toDigits 10 (digitsValue (String.ofList v.patch)))

theorem toList_intercalate_dot (idents : List (List Char)) :
    (".".intercalate (idents.map String.ofList)).toList = ['.'].intercalate idents := by
  rw [String.toList_intercalate]
  simp [List.map_map, Function.comp_def]

theorem toList_partText (base : String) (opening : Char) (idents : List (List Char)) (sep : String)
    (hSep : sep.toList = [opening]) :
    (if idents.map String.ofList = [] then base
      else base ++ sep ++ ".".intercalate (idents.map String.ofList)).toList =
      base.toList ++ partText opening idents := by
  unfold partText
  cases idents with
  | nil => simp
  | cons first rest =>
    rw [if_neg (by simp), if_neg (by simp), String.toList_append, String.toList_append, hSep,
      toList_intercalate_dot, List.append_assoc, List.singleton_append]

theorem str_semVer :
    v.semVer.str.toList = v.printedCore ++ partText '-' v.prerelease ++ partText '+' v.build := by
  have hBase : (toString v.semVer.major ++ "." ++ toString v.semVer.minor ++ "." ++
      toString v.semVer.patch).toList = v.printedCore := by
    simp only [semVer, String.toList_append, toList_natCast, printedCore, List.append_assoc]
    rfl
  simp only [SemVer.str]
  rw [show v.semVer.build = v.build.map String.ofList from rfl,
    show v.semVer.prerelease = v.prerelease.map String.ofList from rfl,
    toList_partText _ '+' v.build "+" (by decide), toList_partText _ '-' v.prerelease "-" (by decide), hBase]

theorem printedCore_of_ascii (h : ∀ c ∈ v.core, c.toNat < 128) : v.printedCore = v.core := by
  have hAscii : ∀ cs, numericPattern.accepts cs = true → (∀ c ∈ cs, c.toNat < 128) →
      ∀ c ∈ cs, isAsciiDigit c = true := by
    intro cs hNumeric hSmall c hc
    obtain ⟨z, hz, hLow, hHigh⟩ := isDecimal_iff.mp (numericPattern_over.of_accepts hNumeric c hc)
    have hZeros : ∀ z ∈ decimalZeros, z < 128 → z = 48 := by decide
    have hHere := hSmall c hc
    have hZero := hZeros z hz (by omega)
    simp only [isAsciiDigit, Bool.and_eq_true, decide_eq_true_eq]
    omega
  simp only [core, List.mem_append, List.mem_cons] at h
  rw [printedCore, core, repr_digitsValue v.major_numeric (hAscii _ v.major_numeric fun c hc => h c (by simp [hc])),
    repr_digitsValue v.minor_numeric (hAscii _ v.minor_numeric fun c hc => h c (by simp [hc])),
    repr_digitsValue v.patch_numeric (hAscii _ v.patch_numeric fun c hc => h c (by simp [hc]))]

theorem mem_printedCore {c : Char} (h : c ∈ v.printedCore) : c = '.' ∨ c.isDigit = true := by
  have hDigits : ∀ n, c ∈ Nat.toDigits 10 n → c.isDigit = true :=
    fun n hc => Nat.isDigit_of_mem_toDigits (by decide) (by decide) hc
  simp only [printedCore, List.mem_append, List.mem_cons] at h
  rcases h with hc | hDot | hc | hDot | hc
  · exact .inr (hDigits _ hc)
  · exact .inl hDot
  · exact .inr (hDigits _ hc)
  · exact .inl hDot
  · exact .inr (hDigits _ hc)

theorem printedCore_ascii {c : Char} (h : c ∈ v.printedCore) : c.toNat < 128 := by
  rcases v.mem_printedCore h with rfl | hDigit
  · decide
  · simp only [Char.isDigit, Bool.and_eq_true, decide_eq_true_eq] at hDigit
    have hHigh : c.toNat ≤ 57 := hDigit.2
    omega

/-- What stands before the prerelease and build parts, up to the newline that is left unread. -/
theorem takeWhile_text {tail : List Char} (hTail : tail = [] ∨ tail = ['\n']) :
    ∃ rest, (v.text ++ tail).takeWhile (fun c => c != '-' && c != '+') = v.core ++ rest ∧
      (rest = [] ∨ rest = ['\n']) := by
  have hCore : ∀ c ∈ v.core, (c != '-' && c != '+') = true := by
    intro c hc
    rw [Bool.and_eq_true, bne_iff_ne, bne_iff_ne]
    constructor
    · rintro rfl
      exact v.notMem_core (by decide) (by decide) hc
    · rintro rfl
      exact v.notMem_core (by decide) (by decide) hc
  rw [text, List.append_assoc, List.append_assoc, List.takeWhile_append_of_pos hCore]
  refine ⟨_, rfl, ?_⟩
  cases hPrerelease : v.prerelease with
  | cons first others => exact .inl (by simp [partText])
  | nil =>
    cases hBuild : v.build with
    | cons first others => exact .inl (by simp [partText])
    | nil =>
      rcases hTail with rfl | rfl
      · exact .inl (by simp [partText])
      · exact .inr (by simp [partText])

theorem newline_notMem_str : '\n' ∉ v.semVer.str.toList := by
  rw [str_semVer, List.mem_append, List.mem_append, not_or, not_or]
  refine ⟨⟨?_, ?_⟩, ?_⟩
  · intro hMem
    rcases v.mem_printedCore hMem with hDot | hDigit
    · cases hDot
    · cases hDigit
  · exact notMem_partText (fun ident hIdent => v.prerelease_parts ident hIdent '\n' (by decide)) (by decide)
      (by decide)
  · exact notMem_partText (fun ident hIdent => v.build_parts ident hIdent '\n' (by decide)) (by decide)
      (by decide)

theorem str_eq_iff {version : String} {tail : List Char} (hText : version.toList = v.text ++ tail)
    (hTail : tail = [] ∨ tail = ['\n']) : v.semVer.str = version ↔ IsCanonical version := by
  obtain ⟨rest, hTake, hRest⟩ := v.takeWhile_text hTail
  rw [IsCanonical, hText, hTake]
  constructor
  · rintro rfl
    have hNone : tail = [] := by
      rcases hTail with hNone | rfl
      · exact hNone
      · exact absurd (hText ▸ List.mem_append_right _ List.mem_cons_self) v.newline_notMem_str
    rw [hNone, List.append_nil] at hText ⊢
    have hCore : v.printedCore = v.core := by
      rw [str_semVer, text] at hText
      exact List.append_cancel_right (List.append_cancel_right hText)
    constructor
    · intro hLast
      exact v.newline_notMem_str (hText ▸ List.mem_of_getLast? hLast)
    · intro c hc
      rw [← hCore, List.mem_append] at hc
      rcases hc with hc | hc
      · exact v.printedCore_ascii hc
      · rcases hRest with rfl | rfl
        · cases hc
        · cases List.mem_singleton.mp hc
          decide
  · rintro ⟨hLast, hAscii⟩
    have hNone : tail = [] := by
      rcases hTail with hNone | rfl
      · exact hNone
      · exact absurd List.getLast?_concat hLast
    have hCore := v.printedCore_of_ascii fun c hc => hAscii c (List.mem_append_left _ hc)
    apply String.toList_injective
    rw [hText, hNone, List.append_nil, str_semVer, hCore]
    rfl

end VersionText

theorem exists_text_of_valid {version : String} (h : isValidSemver version = true) :
    ∃ (v : VersionText) (tail : List Char), version.toList = v.text ++ tail ∧ (tail = [] ∨ tail = ['\n']) ∧
      SemVer.parse version = .ok v.semVer := by
  obtain ⟨v, hParts, hParse⟩ := parse_of_valid h
  obtain ⟨body, tail, hText, hTail, -, hStrip⟩ := strip_of_valid h
  refine ⟨v, tail, ?_, hTail, hParse⟩
  rw [hText, String.ofList_inj.mp (hStrip.symm.trans hParts)]

theorem parse_str_of_valid {version : String} (h : isValidSemver version = true) :
    ∃ v, SemVer.parse version = .ok v ∧ (v.str = version ↔ IsCanonical version) := by
  obtain ⟨v, tail, hText, hTail, hParse⟩ := exists_text_of_valid h
  exact ⟨v.semVer, hParse, v.str_eq_iff hText hTail⟩

/-- Every admitted version is parsed. It is printed as it was written if and only if it is canonical, and the
canonical versions of a package are parsed into different versions. -/
theorem parse_str_iff {version : String} (h : isValidSemver version = true) :
    (∃ v, SemVer.parse version = .ok v ∧ (v.str = version ↔ IsCanonical version)) ∧
    ∀ version', isValidSemver version' = true → IsCanonical version → IsCanonical version' →
      SemVer.parse version = SemVer.parse version' → version = version' := by
  refine ⟨parse_str_of_valid h, ?_⟩
  intro version' hValid' hCanonical hCanonical' hSame
  obtain ⟨v, hParse, hIff⟩ := parse_str_of_valid h
  obtain ⟨v', hParse', hIff'⟩ := parse_str_of_valid hValid'
  rw [hParse, hParse', Except.ok.injEq] at hSame
  rw [← hIff.mpr hCanonical, ← hIff'.mpr hCanonical', hSame]

theorem parse_str_candidate : isValidSemver "1.0.0-rc.1+b.7" = true ∧ ∃ v,
    SemVer.parse "1.0.0-rc.1+b.7" = .ok v ∧ v.str = "1.0.0-rc.1+b.7" := by
  have hValid : isValidSemver "1.0.0-rc.1+b.7" = true := by decide
  have hAscii : (("1.0.0-rc.1+b.7".toList.takeWhile fun c => c != '-' && c != '+').all fun c => c.toNat < 128) =
      true := by decide
  have hCanonical : IsCanonical "1.0.0-rc.1+b.7" :=
    ⟨by decide, fun c hc => of_decide_eq_true (List.all_eq_true.mp hAscii c hc)⟩
  obtain ⟨⟨v, hParse, hIff⟩, -⟩ := parse_str_iff hValid
  exact ⟨hValid, v, hParse, hIff.mpr hCanonical⟩

theorem not_printed_newline : isValidSemver "1.0.0\n" = true ∧ isValidSemver "1.0.0" = true ∧
    (∀ v, SemVer.parse "1.0.0\n" = .ok v → v.str ≠ "1.0.0\n") ∧
    SemVer.parse "1.0.0\n" = SemVer.parse "1.0.0" := by
  have hParse : SemVer.parse "1.0.0\n" = .ok ⟨1, 0, 0, [], []⟩ := by decide
  have hParse' : SemVer.parse "1.0.0" = .ok ⟨1, 0, 0, [], []⟩ := by decide
  refine ⟨by decide, by decide, ?_, hParse.trans hParse'.symm⟩
  intro v h
  cases hParse.symm.trans h
  decide

end Forge.Registry
