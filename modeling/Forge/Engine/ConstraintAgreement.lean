import Forge.Engine.Parser

/-! # Two parsers of constraints

`is_valid_semver_constraint` of the pipeline parser and `ConstraintSet.from_string` of the resolver. They
recognise the same comparators in every accepted constraint, except in those made of `=` alone, which the
resolver takes for bare versions.
-/
namespace Forge.Engine
open Forge.Python Forge.Registry
set_option autoImplicit false

/-! ## The resolver's reading of a constraint -/

/-- A comparator of the resolver that stands for a pair of the parser. -/
def Reads (comparator : Comparator) (pair : Op × String) : Prop :=
  comparator.op = pair.1 ∧ SemVer.parse pair.2 = .ok comparator.version

theorem parseComparatorTokens_reads (constraint : String) {tokens : List String}
    {parsed : List (Op × String)} (h : comparatorTokens tokens = some parsed) :
    ∃ comparators, Registry.parseComparatorTokens constraint tokens = .ok comparators ∧
      List.Forall₂ Reads comparators parsed := by
  induction tokens using comparatorTokens.induct generalizing parsed with
  | case1 =>
    cases h
    exact ⟨[], rfl, .nil⟩
  | case2 token op hOp =>
    rw [comparatorTokens.eq_def] at h
    simp only [hOp] at h
    cases h
  | case3 token op version rest hOp hValid ih =>
    rw [comparatorTokens.eq_def] at h
    simp only [hOp, if_pos hValid] at h
    obtain ⟨others, hOthers, rfl⟩ := Option.map_eq_some_iff.mp h
    obtain ⟨comparators, hRest, hReads⟩ := ih hOthers
    obtain ⟨v, -, hParse⟩ := parse_of_valid hValid
    refine ⟨⟨op, v.semVer⟩ :: comparators, ?_, .cons ⟨rfl, hParse⟩ hReads⟩
    rw [Registry.parseComparatorTokens.eq_def]
    simp only [hOp, hParse, hRest, bind, Except.bind]
  | case4 token op version rest hOp hValid =>
    rw [comparatorTokens.eq_def] at h
    simp only [hOp, if_neg hValid] at h
    cases h
  | case5 token rest hOp hMatch =>
    rw [comparatorTokens.eq_def] at h
    simp only [hOp, hMatch] at h
    cases h
  | case6 token rest hOp op version hMatch hValid ih =>
    rw [comparatorTokens.eq_def] at h
    simp only [hOp, hMatch, if_pos hValid] at h
    obtain ⟨others, hOthers, rfl⟩ := Option.map_eq_some_iff.mp h
    obtain ⟨comparators, hRest, hReads⟩ := ih hOthers
    obtain ⟨v, -, hParse⟩ := parse_of_valid hValid
    refine ⟨⟨op, v.semVer⟩ :: comparators, ?_, .cons ⟨rfl, hParse⟩ hReads⟩
    rw [Registry.parseComparatorTokens.eq_def]
    simp only [hOp, hMatch, hParse, hRest, bind, Except.bind]
  | case7 token rest hOp op version hMatch hValid =>
    rw [comparatorTokens.eq_def] at h
    simp only [hOp, hMatch, if_neg hValid] at h
    cases h

/-! ## Constraints that both parsers accept -/

theorem isPrefix_of_splitOnP {p : Char → Bool} {cs part : List Char} {parts : List (List Char)}
    (h : cs.splitOnP p = part :: parts) : part <+: cs := by
  induction cs generalizing part parts with
  | nil =>
    rw [List.splitOnP_nil, List.cons.injEq] at h
    rw [← h.1]
  | cons c cs ih =>
    rw [List.splitOnP_cons_eq_if_modifyHead] at h
    split at h
    · rw [List.cons.injEq] at h
      rw [← h.1]
      exact List.nil_prefix
    · obtain ⟨part', parts', hParts⟩ := List.exists_cons_of_ne_nil (List.splitOnP_ne_nil p cs)
      rw [hParts, List.modifyHead_cons, List.cons.injEq] at h
      rw [← h.1]
      exact (List.prefix_cons_inj c).mpr (ih hParts)

theorem splitWhitespace_cons {text : String} {c : Char} {cs : List Char} (h : text.toList = c :: cs)
    (hc : isSpace c = false) : ∃ part rest, splitWhitespace text = String.ofList (c :: part) :: rest ∧
      c :: part <+: text.toList := by
  obtain ⟨part, parts, hParts⟩ := List.exists_cons_of_ne_nil (List.splitOnP_ne_nil isSpace cs)
  refine ⟨part, (parts.filter fun part => !part.isEmpty).map String.ofList, ?_, ?_⟩
  · rw [splitWhitespace, h, List.splitOnP_cons_eq_if_modifyHead, if_neg (by simp [hc]), hParts]
    rfl
  · rw [h]
    exact (List.prefix_cons_inj c).mpr (isPrefix_of_splitOnP hParts)

/-- The first token of a sequence of comparators opens with an operator. -/
theorem startsWith_op {token : String} {rest : List String} {parsed : List (Op × String)}
    (h : comparatorTokens (token :: rest) = some parsed) : ∃ op : Op, startsWith token op.text = true := by
  rw [comparatorTokens.eq_def] at h
  cases hAlone : standaloneOp token with
  | some op =>
    have hText : op.text = token := by simpa using List.find?_some hAlone
    exact ⟨op, by rw [startsWith, hText, List.isPrefixOf_iff_prefix]⟩
  | none =>
    cases hMatch : matchComparatorOp token with
    | none =>
      simp only [hAlone, hMatch] at h
      cases h
    | some matched =>
      obtain ⟨op, -, hOp⟩ := List.exists_of_findSome?_eq_some hMatch
      dsimp only at hOp
      split at hOp
      · rename_i hStart
        exact ⟨op, (Bool.and_eq_true_iff.mp hStart).1⟩
      · cases hOp

theorem startsWith_op_of_tokens {text : String} {c : Char} {cs : List Char} {parsed : List (Op × String)}
    (hText : text.toList = c :: cs) (hc : isSpace c = false)
    (h : comparatorTokens (splitWhitespace text) = some parsed) :
    ∃ op : Op, startsWith text op.text = true := by
  obtain ⟨part, rest, hSplit, hPrefix⟩ := splitWhitespace_cons hText hc
  rw [hSplit] at h
  obtain ⟨op, hOp⟩ := startsWith_op h
  refine ⟨op, ?_⟩
  rw [startsWith, List.isPrefixOf_iff_prefix] at hOp ⊢
  rw [String.toList_ofList] at hOp
  exact hOp.trans hPrefix

/-- A sequence of comparators does not open with a sign of its own. -/
theorem startsWith_of_tokens {text pre : String} {parsed : List (Op × String)} {c : Char}
    (hPre : pre.toList = [c]) (hc : isSpace c = false) (hOps : ∀ op : Op, op.text.toList.head? ≠ some c)
    (h : comparatorTokens (splitWhitespace text) = some parsed) : startsWith text pre = false := by
  rw [Bool.eq_false_iff]
  intro hStart
  obtain ⟨cs, hText⟩ := (startsWith_iff hPre).mp hStart
  obtain ⟨op, hOp⟩ := startsWith_op_of_tokens hText hc h
  rw [startsWith, hText, List.isPrefixOf_iff_prefix] at hOp
  cases hOpText : op.text.toList with
  | nil => cases op <;> cases hOpText
  | cons d ds =>
    rw [hOpText, List.cons_prefix_cons] at hOp
    apply hOps op
    rw [hOpText, hOp.1]
    rfl

theorem valid_of_constraintPattern {text pre : String} {c : Char}
    (h : constraintPattern.matchAnchored text = true) (hPre : pre.toList = [c])
    (hc : isVersionChar c = false) (hStart : startsWith text pre = true) :
    isValidSemver (dropPrefixChars text 1) = true := by
  obtain ⟨cs, hText⟩ := (startsWith_iff hPre).mp hStart
  obtain ⟨body, tail, hBody, hAccepts, hTail⟩ := Regex.matchAnchored_iff.mp h
  obtain ⟨sign, version, rfl, hSign, hVersion⟩ := Regex.accepts_seq.mp hAccepts
  refine Regex.matchAnchored_iff.mpr ⟨version, tail, ?_, hVersion, hTail⟩
  have hOne : sign = [] ∨ ∃ d, sign = [d] := by
    rcases Regex.accepts_opt.mp hSign with hEmpty | hSign
    · exact .inl hEmpty
    · rcases Regex.accepts_alt.mp hSign with hSign | hSign
      · exact .inr ⟨_, Regex.accepts_char.mp hSign⟩
      · exact .inr ⟨_, Regex.accepts_char.mp hSign⟩
  rcases hOne with rfl | ⟨d, rfl⟩
  · cases version with
    | nil => cases hVersion
    | cons d ds =>
      rw [hText] at hBody
      cases hBody
      have hChar := semverPattern_over.of_accepts hVersion c List.mem_cons_self
      exact absurd (hc.symm.trans hChar) Bool.false_ne_true
  · rw [dropPrefixChars, hBody, String.toList_ofList]
    rfl

/-- A constraint of the parser whose comparators are all equalities. -/
def isEqualityOnly (text : String) : Bool :=
  contains (strip text) Op.eq.text &&
    !([Op.ge, .le, .gt, .lt, .ne].any fun op => contains (strip text) op.text)

theorem fromString_strip (text : String) :
    ConstraintSet.fromString (strip text) = ConstraintSet.fromString text := by
  rw [ConstraintSet.fromString, ConstraintSet.fromString, strip_strip]

theorem fromString_of_tokens {text : String} {parsed : List (Op × String)}
    (h : comparatorTokens (splitWhitespace (strip text)) = some parsed) (hNonempty : strip text ≠ "")
    (hOps : ([Op.ge, .le, .gt, .lt, .ne].any fun op => contains (strip text) op.text) = true) :
    ∃ cs, ConstraintSet.fromString text = .ok cs ∧ List.Forall₂ Reads cs.comparators parsed := by
  obtain ⟨comparators, hParse, hReads⟩ := parseComparatorTokens_reads (strip text) h
  have hCaret : startsWith (strip text) "^" = false :=
    startsWith_of_tokens (by decide : "^".toList = ['^']) (by decide) (by intro op; cases op <;> decide) h
  have hTilde : startsWith (strip text) "~" = false :=
    startsWith_of_tokens (by decide : "~".toList = ['~']) (by decide) (by intro op; cases op <;> decide) h
  refine ⟨⟨comparators⟩, ?_, hReads⟩
  simp only [ConstraintSet.fromString, if_neg hNonempty, hCaret, hTilde, hOps, Bool.false_eq_true, if_false,
    if_true, parseComparatorRange, hParse, Except.map]

/-- The comparators that the pipeline parser has recognised in an accepted constraint. -/
def Recognised (text : String) (comparators : List Comparator) : Prop :=
  let constraint := strip text
  if [Op.ge, .le, .gt, .lt, .ne, .eq].any fun op => contains constraint op.text then
    ∃ parsed, parseComparatorTokens constraint = some parsed ∧ List.Forall₂ Reads comparators parsed
  else if startsWith constraint "^" then
    ∃ base, SemVer.parse (dropPrefixChars constraint 1) = .ok base ∧
      comparators = [⟨.ge, base⟩, ⟨.lt, caretUpperBound base⟩]
  else if startsWith constraint "~" then
    ∃ base, SemVer.parse (dropPrefixChars constraint 1) = .ok base ∧
      comparators = [⟨.ge, base⟩, ⟨.lt, tildeUpperBound base⟩]
  else ∃ exact, SemVer.parse constraint = .ok exact ∧ comparators = [⟨.eq, exact⟩]

theorem tokens_of_parse {constraint : String} {parsed : List (Op × String)}
    (h : parseComparatorTokens constraint = some parsed) :
    comparatorTokens (splitWhitespace constraint) = some parsed := by
  unfold parseComparatorTokens at h
  split at h
  · cases h
  · exact h

theorem fromString_recognised {text : String} (h : isValidSemverConstraint text = true)
    (hOther : isEqualityOnly text = false) :
    ∃ cs, ConstraintSet.fromString text = .ok cs ∧ Recognised text cs.comparators := by
  unfold isValidSemverConstraint at h
  dsimp only at h
  split at h
  · cases h
  · rename_i hEmpty
    have hNonempty : strip text ≠ "" := fun hStrip => hEmpty (by simp [hStrip])
    unfold Recognised
    split at h
    · rename_i hAny
      simp only [if_pos hAny]
      have hOps : ([Op.ge, .le, .gt, .lt, .ne].any fun op => contains (strip text) op.text) = true := by
        rw [isEqualityOnly, Bool.and_eq_false_iff, Bool.not_eq_false'] at hOther
        rcases hOther with hEq | hOps
        · simpa [hEq] using hAny
        · exact hOps
      obtain ⟨parsed, hParsed⟩ := Option.isSome_iff_exists.mp h
      obtain ⟨cs, hSet, hReads⟩ := fromString_of_tokens (tokens_of_parse hParsed) hNonempty hOps
      exact ⟨cs, hSet, parsed, hParsed, hReads⟩
    · rename_i hNone
      simp only [if_neg hNone]
      have hOps : ([Op.ge, .le, .gt, .lt, .ne].any fun op => contains (strip text) op.text) = false := by
        rw [Bool.not_eq_true, List.any_eq_false] at hNone
        rw [List.any_eq_false]
        exact fun op hOp => hNone op (List.mem_append_left [Op.eq] hOp)
      cases hCaret : startsWith (strip text) "^" with
      | true =>
        rw [hCaret, Bool.true_or, if_pos rfl] at h
        have hVersion := valid_of_constraintPattern h (by decide : "^".toList = ['^']) (by decide) hCaret
        obtain ⟨v, -, hParse⟩ := parse_of_valid hVersion
        refine ⟨⟨[⟨.ge, v.semVer⟩, ⟨.lt, caretUpperBound v.semVer⟩]⟩, ?_, ?_⟩
        · simp only [ConstraintSet.fromString, if_neg hNonempty, hCaret, if_true, hParse, Except.map]
        · exact ⟨v.semVer, hParse, rfl⟩
      | false =>
        cases hTilde : startsWith (strip text) "~" with
        | true =>
          rw [hCaret, hTilde, Bool.false_or, if_pos rfl] at h
          have hVersion := valid_of_constraintPattern h (by decide : "~".toList = ['~']) (by decide) hTilde
          obtain ⟨v, -, hParse⟩ := parse_of_valid hVersion
          refine ⟨⟨[⟨.ge, v.semVer⟩, ⟨.lt, tildeUpperBound v.semVer⟩]⟩, ?_, ?_⟩
          · simp only [ConstraintSet.fromString, if_neg hNonempty, hCaret, hTilde, Bool.false_eq_true, if_false,
              if_true, hParse, Except.map]
          · exact ⟨v.semVer, hParse, rfl⟩
        | false =>
          rw [hCaret, hTilde, Bool.or_false, if_neg Bool.false_ne_true] at h
          have hVersion : isValidSemver (strip text) = true := h
          obtain ⟨v, -, hParse⟩ := parse_of_valid hVersion
          refine ⟨⟨[⟨.eq, v.semVer⟩]⟩, ?_, v.semVer, hParse, rfl⟩
          simp only [ConstraintSet.fromString, if_neg hNonempty, hCaret, hTilde, hOps, Bool.false_eq_true,
            if_false, hParse, Except.map]

theorem fromString_of_valid {text : String} (h : isValidSemverConstraint text = true)
    (hOther : isEqualityOnly text = false) : ∃ cs, ConstraintSet.fromString text = .ok cs :=
  (fromString_recognised h hOther).imp fun _ h => h.1

/-! ## Constraints made of `=` alone -/

theorem int?_eq_none {c : Char} {cs : List Char} (hSpace : isNumberSpace c = false) (hMinus : c ≠ '-')
    (hPlus : c ≠ '+') (hDigit : decimalValue? c = none) : int? (String.ofList (c :: cs)) = none := by
  rw [int?, String.toList_ofList, stripBy_cons hSpace]
  simp [hMinus, hPlus, digits?, hDigit]

theorem splitOn_cons {text : String} {sep c : Char} {cs : List Char} (h : text.toList = c :: cs)
    (hc : c ≠ sep) : ∃ part parts, splitOn text sep = String.ofList (c :: part) :: parts := by
  obtain ⟨part, parts, hParts⟩ := List.exists_cons_of_ne_nil (List.splitOnP_ne_nil (· == sep) cs)
  refine ⟨part, parts.map String.ofList, ?_⟩
  rw [splitOn, h, List.splitOn, List.splitOnP_cons_eq_if_modifyHead, if_neg (by simp [hc]), hParts]
  rfl

theorem splitOnce_cons {text : String} {sep c : Char} {cs : List Char} (h : text.toList = c :: cs)
    (hc : c ≠ sep) : ∃ part, (splitOnce text sep).1.toList = c :: part := by
  refine ⟨cs.takeWhile (· != sep), ?_⟩
  rw [splitOnce, h, String.toList_ofList, List.takeWhile_cons_of_pos (by simpa using hc)]

theorem parseCore_equality {version : String} {cs : List Char} (h : version.toList = '=' :: cs)
    (prereleasePart buildPart : String) : ∃ e, parseCore version prereleasePart buildPart = .error e := by
  obtain ⟨part, parts, hParts⟩ := splitOn_cons h (by decide : '=' ≠ '.')
  have hMajor : int? (String.ofList ('=' :: part)) = none :=
    int?_eq_none (by decide) (by decide) (by decide) (by decide)
  unfold parseCore
  split
  · rename_i a b c hSplit
    rw [hParts, List.cons.injEq] at hSplit
    rw [← hSplit.1, hMajor]
    exact ⟨_, rfl⟩
  · exact ⟨_, rfl⟩

theorem parse_equality {text : String} {cs : List Char} (h : text.toList = '=' :: cs) :
    ∃ e, SemVer.parse text = .error e := by
  have hStrip : (strip text).toList = '=' :: cs.rdropWhile isSpace := by
    rw [strip, String.toList_ofList, h, stripChars_cons (by decide)]
  obtain ⟨_, hCut⟩ := splitOnce_cons hStrip (by decide : '=' ≠ '+')
  obtain ⟨_, hCore⟩ := splitOnce_cons hCut (by decide : '=' ≠ '-')
  unfold SemVer.parse
  dsimp only
  split
  · exact ⟨_, rfl⟩
  · exact parseCore_equality hCore _ _

theorem isSpace_head_strip {text : String} {c : Char} {cs : List Char} (h : (strip text).toList = c :: cs) :
    isSpace c = false := by
  rw [strip, String.toList_ofList] at h
  have hSelf := dropWhile_stripChars text.toList
  rw [h, List.dropWhile_cons] at hSelf
  split at hSelf
  · have hLength := congrArg List.length hSelf
    have hShorter := (List.dropWhile_suffix (l := cs) isSpace).length_le
    simp only [List.length_cons] at hLength
    omega
  · rename_i hSpace
    simpa using hSpace

/-- The resolver reads a constraint made of `=` alone as a bare version, whose first number is none. -/
theorem fromString_equalityOnly {text : String} (h : isValidSemverConstraint text = true)
    (hOnly : isEqualityOnly text = true) : ∃ e, ConstraintSet.fromString text = .error e := by
  obtain ⟨hEq, hOthers⟩ := Bool.and_eq_true_iff.mp hOnly
  rw [Bool.not_eq_true'] at hOthers
  have hAny : ([Op.ge, .le, .gt, .lt, .ne, .eq].any fun op => contains (strip text) op.text) = true :=
    List.any_eq_true.mpr ⟨.eq, by simp, hEq⟩
  have hNonempty : strip text ≠ "" := by
    intro hEmpty
    rw [hEmpty] at hEq
    exact absurd hEq (by decide)
  obtain ⟨c, cs, hText⟩ : ∃ c cs, (strip text).toList = c :: cs := by
    apply List.exists_cons_of_ne_nil
    rwa [Ne, String.toList_eq_nil_iff]
  unfold isValidSemverConstraint at h
  dsimp only at h
  split at h
  · cases h
  · obtain ⟨parsed, hParsed⟩ := Option.isSome_iff_exists.mp h
    obtain ⟨op, hOp⟩ := startsWith_op_of_tokens hText (isSpace_head_strip hText) (tokens_of_parse hParsed)
    -- the operator of the first token occurs in the constraint, so it is `=`
    have hContains : contains (strip text) op.text = true := by
      rw [startsWith, List.isPrefixOf_iff_prefix] at hOp
      simpa [contains] using hOp.isInfix
    have hCases : op ∈ [Op.ge, .le, .gt, .lt, .ne] ∨ op = .eq := by cases op <;> simp
    have hSame : op = .eq := hCases.resolve_left fun hMem => List.any_eq_false.mp hOthers op hMem hContains
    rw [hSame, startsWith, hText, List.isPrefixOf_iff_prefix] at hOp
    obtain ⟨rfl, -⟩ := List.cons_prefix_cons.mp hOp
    have hCaret : startsWith (strip text) "^" = false := by
      rw [startsWith, hText]
      rfl
    have hTilde : startsWith (strip text) "~" = false := by
      rw [startsWith, hText]
      rfl
    obtain ⟨e, hParse⟩ := parse_equality hText
    refine ⟨e, ?_⟩
    simp only [ConstraintSet.fromString, if_neg hNonempty, hCaret, hTilde, hOthers, Bool.false_eq_true, if_false,
      hParse, Except.map]

/-- The resolver reads an accepted constraint as the parser does, unless it is made of `=` alone. -/
theorem fromString_recognised_iff {text : String} (h : isValidSemverConstraint text = true) :
    (∃ cs, ConstraintSet.fromString text = .ok cs ∧ Recognised text cs.comparators) ↔
      isEqualityOnly text = false := by
  constructor
  · rintro ⟨cs, hSet, -⟩
    rw [← Bool.not_eq_true]
    intro hOnly
    obtain ⟨e, hError⟩ := fromString_equalityOnly h hOnly
    cases hSet.symm.trans hError
  · exact fromString_recognised h

theorem fromString_recognised_range : isValidSemverConstraint " >= 1.0.0-rc.1 <2.0.0+b !=1.5.0 " = true ∧
    ((∃ cs, ConstraintSet.fromString " >= 1.0.0-rc.1 <2.0.0+b !=1.5.0 " = .ok cs ∧
      Recognised " >= 1.0.0-rc.1 <2.0.0+b !=1.5.0 " cs.comparators) ↔
        isEqualityOnly " >= 1.0.0-rc.1 <2.0.0+b !=1.5.0 " = false) := by
  have hValid : isValidSemverConstraint " >= 1.0.0-rc.1 <2.0.0+b !=1.5.0 " = true := by decide +kernel
  exact ⟨hValid, fromString_recognised_iff hValid⟩

theorem not_recognised_equality : isValidSemverConstraint "=1.0.0" = true ∧
    parseComparatorTokens "=1.0.0" = some [(.eq, "1.0.0")] ∧
    ConstraintSet.fromString "=1.0.0" = .error ⟨"invalid semver numeric parts: =1.0.0"⟩ := by
  decide +kernel

end Forge.Engine
