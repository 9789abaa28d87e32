import Forge.Engine.FieldChecks

/-! # Amounts of memory

The pipeline parser checks an amount by its pattern, and the job runner reads it with a table of suffixes.
The arithmetic is exact where the runner computes with floats.
-/
namespace Forge.Engine
open Forge.Python Forge.Registry Forge.Engine.PipelineParser
set_option autoImplicit false

def memoryUnits : List (String × Nat) :=
  [("Ki", 1024), ("Mi", 1024 ^ 2), ("Gi", 1024 ^ 3), ("K", 1000), ("M", 1000 ^ 2), ("G", 1000 ^ 3)]

/-- `DockerJobRunner._parse_memory` -/
def parseMemory (memoryStr : String) : Except NumberError Int :=
  match memoryUnits.find? fun unit => endsWith memoryStr unit.1 with
  | some (unit, multiplier) =>
    match floatText? (dropSuffixChars memoryStr unit.toList.length) with
    | none => .error .valueError
    | some number => (number.times multiplier).toInt
  | none =>
    match int? memoryStr with
    | none => .error .valueError
    | some n => .ok n

/-! ## Texts of amounts -/

/-- An amount in its parts; one without a unit has the empty suffix and the multiplier 1. -/
structure MemoryText where
  whole : List Char
  fraction : List Char
  unit : String × Nat
  whole_nonempty : whole ≠ []
  whole_digits : ∀ c ∈ whole, isDecimal c = true
  fraction_digits : ∀ c ∈ fraction, isDecimal c = true
  unit_known : unit = ("", 1) ∨ unit ∈ memoryUnits

namespace MemoryText

def text (m : MemoryText) : List Char := m.whole ++ fractionText m.fraction ++ m.unit.1.toList

/-- The integer part of the number times the multiplier of its unit. -/
def amount (m : MemoryText) : Int := ⌊decimalNumber m.whole m.fraction * m.unit.2⌋

end MemoryText

theorem digits_of_accepts {cs : List Char} (h : digitsPattern.accepts cs = true) :
    cs ≠ [] ∧ ∀ c ∈ cs, isDecimal c = true := by
  have hOver : digitsPattern.Over fun c => isDecimal c = true := ⟨fun _ hc => hc, fun _ hc => hc⟩
  refine ⟨?_, hOver.of_accepts h⟩
  rintro rfl
  cases h

theorem unit_of_accepts {cs : List Char} (h : memoryUnitPattern.accepts cs = true) :
    ∃ unit ∈ memoryUnits, cs = unit.1.toList := by
  have hTwo : ∀ {a b : Char}, (Regex.seq (.char a) (.char b)).accepts cs = true → cs = [a, b] := by
    intro a b hSeq
    obtain ⟨pre, post, rfl, ha, hb⟩ := Regex.accepts_seq.mp hSeq
    rw [Regex.accepts_char.mp ha, Regex.accepts_char.mp hb]
    rfl
  rcases Regex.accepts_alt.mp h with h | h
  · exact ⟨("Ki", 1024), by decide, (hTwo h).trans (by decide)⟩
  rcases Regex.accepts_alt.mp h with h | h
  · exact ⟨("Mi", 1024 ^ 2), by decide, (hTwo h).trans (by decide)⟩
  rcases Regex.accepts_alt.mp h with h | h
  · exact ⟨("Gi", 1024 ^ 3), by decide, (hTwo h).trans (by decide)⟩
  rcases Regex.accepts_alt.mp h with h | h
  · exact ⟨("K", 1000), by decide, (Regex.accepts_char.mp h).trans (by decide)⟩
  rcases Regex.accepts_alt.mp h with h | h
  · exact ⟨("M", 1000 ^ 2), by decide, (Regex.accepts_char.mp h).trans (by decide)⟩
  · exact ⟨("G", 1000 ^ 3), by decide, (Regex.accepts_char.mp h).trans (by decide)⟩

theorem validateMemory_ok_iff {memory : String} {line : Option Nat} :
    validateMemory memory line = .ok () ↔ memoryPattern.matchAnchored memory = true := by
  unfold validateMemory
  cases memoryPattern.matchAnchored memory <;> simp [fail]

theorem exists_memoryText {memory : String} (h : memoryPattern.matchAnchored memory = true) :
    ∃ (m : MemoryText) (tail : List Char), memory.toList = m.text ++ tail ∧ (tail = [] ∨ tail = ['\n']) := by
  obtain ⟨body, tail, hText, hBody, hTail⟩ := Regex.matchAnchored_iff.mp h
  obtain ⟨whole, rest, rfl, hWhole, hRest⟩ := Regex.accepts_seq.mp hBody
  obtain ⟨pointed, suffix, rfl, hPointed, hSuffix⟩ := Regex.accepts_seq.mp hRest
  obtain ⟨hNonempty, hDigits⟩ := digits_of_accepts hWhole
  obtain ⟨fraction, hFraction, rfl⟩ : ∃ fraction : List Char, (∀ c ∈ fraction, isDecimal c = true) ∧
      pointed = fractionText fraction := by
    rcases Regex.accepts_opt.mp hPointed with rfl | hPointed
    · exact ⟨[], by simp, rfl⟩
    · obtain ⟨point, fraction, rfl, hPoint, hFraction⟩ := Regex.accepts_seq.mp hPointed
      obtain ⟨hSome, hFraction⟩ := digits_of_accepts hFraction
      refine ⟨fraction, hFraction, ?_⟩
      rw [Regex.accepts_char.mp hPoint, fractionText, if_neg hSome]
      rfl
  obtain ⟨unit, hUnit, rfl⟩ : ∃ unit : String × Nat, (unit = ("", 1) ∨ unit ∈ memoryUnits) ∧
      suffix = unit.1.toList := by
    rcases Regex.accepts_opt.mp hSuffix with rfl | hSuffix
    · exact ⟨("", 1), .inl rfl, rfl⟩
    · obtain ⟨unit, hUnit, hText⟩ := unit_of_accepts hSuffix
      exact ⟨unit, .inr hUnit, hText⟩
  refine ⟨⟨whole, fraction, unit, hNonempty, hDigits, hFraction, hUnit⟩, tail, ?_, hTail⟩
  simp [hText, MemoryText.text]

/-! ## Reading an amount -/

/-- The amounts that the runner can read: those that end with a unit, and whole numbers. -/
def isReadableMemory (memory : String) : Bool :=
  memoryUnits.any (fun unit => endsWith memory unit.1) ||
    memory.toList.all fun c => isDecimal c || c == '\n'

/-- No unit ends as another one does. -/
theorem find_unit {memory : String} {number : List Char} {unit : String × Nat} (hUnit : unit ∈ memoryUnits)
    (hText : memory.toList = number ++ unit.1.toList) :
    memoryUnits.find? (fun unit => endsWith memory unit.1) = some unit := by
  have hEnds : ∀ suf : String,
      endsWith memory suf = suf.toList.reverse.isPrefixOf (unit.1.toList.reverse ++ number.reverse) := by
    intro suf
    rw [endsWith, List.isSuffixOf, hText, List.reverse_append]
  simp only [hEnds]
  simp only [memoryUnits, List.mem_cons, List.not_mem_nil, or_false] at hUnit
  rcases hUnit with rfl | rfl | rfl | rfl | rfl | rfl <;> rfl

theorem find_no_unit {memory : String} {init : List Char} {c : Char} (hText : memory.toList = init ++ [c])
    (hc : isDecimal c = true ∨ c = '\n') :
    memoryUnits.find? (fun unit => endsWith memory unit.1) = none := by
  have hAll : ∀ unit ∈ memoryUnits, ∃ last, unit.1.toList.getLast? = some last ∧ isDecimal last = false ∧
      last ≠ '\n' := by
    intro unit hUnit
    simp only [memoryUnits, List.mem_cons, List.not_mem_nil, or_false] at hUnit
    rcases hUnit with rfl | rfl | rfl | rfl | rfl | rfl <;> exact ⟨_, rfl, by decide, by decide⟩
  rw [List.find?_eq_none]
  intro unit hUnit hEnds
  obtain ⟨last, hLast, hDecimal, hNewline⟩ := hAll unit hUnit
  obtain ⟨pre, hPre⟩ := List.isSuffixOf_iff_suffix.mp hEnds
  have hSame : last = c := by
    have hEnd := congrArg List.getLast? hPre
    rw [hText, List.getLast?_concat, List.getLast?_append, hLast] at hEnd
    simpa using hEnd
  rw [hSame] at hDecimal hNewline
  rcases hc with hc | hc
  · cases hDecimal.symm.trans hc
  · exact hNewline hc

section
variable {memory : String} {m : MemoryText} {tail : List Char}

theorem MemoryText.amount_nonneg (m : MemoryText) :
    0 ≤ decimalNumber m.whole m.fraction * (m.unit.2 : ℚ) := by
  unfold decimalNumber
  positivity

theorem parseMemory_unit (hUnit : m.unit ∈ memoryUnits) (hText : memory.toList = m.text) :
    parseMemory memory = .ok m.amount := by
  have hNumber : dropSuffixChars memory m.unit.1.toList.length =
      String.ofList (m.whole ++ fractionText m.fraction) := by
    rw [dropSuffixChars, hText, MemoryText.text, List.length_append, Nat.add_sub_cancel, List.take_left]
  unfold parseMemory
  rw [find_unit hUnit hText]
  dsimp only
  rw [hNumber, floatText?_digits m.whole_digits m.whole_nonempty m.fraction_digits]
  simp only [PyFloat.times, PyFloat.toInt, MemoryText.amount, if_neg m.amount_nonneg.not_gt]

theorem parseMemory_whole (hUnit : m.unit = ("", 1)) (hFraction : m.fraction = [])
    (hText : memory.toList = m.text ++ tail) (hTail : tail = [] ∨ tail = ['\n'])
    (hNone : memoryUnits.find? (fun unit => endsWith memory unit.1) = none) :
    parseMemory memory = .ok m.amount := by
  have hChars : memory.toList = m.whole ++ tail := by
    rw [hText, MemoryText.text, hFraction, hUnit]
    simp [fractionText]
  have hSpaces : ∀ c ∈ tail, isNumberSpace c = true := by
    rcases hTail with rfl | rfl
    · simp
    · rw [List.forall_mem_singleton]
      decide
  have hRead := int?_digits_spaces m.whole_digits m.whole_nonempty hSpaces
  rw [← hChars, String.ofList_toList] at hRead
  have hAmount : m.amount = digitsValue (String.ofList m.whole) := by
    rw [MemoryText.amount, hUnit, hFraction, decimalNumber]
    simp [digitsValue]
  simp only [parseMemory, hNone, hRead, hAmount]

/-- A text without a unit at its end that holds something besides digits cannot be read. -/
theorem parseMemory_other {c : Char} (hc : c ∈ memory.toList)
    (hOther : isDecimal c = false ∧ c ≠ '_' ∧ c ≠ '-' ∧ c ≠ '+' ∧ isNumberSpace c = false)
    (hNone : memoryUnits.find? (fun unit => endsWith memory unit.1) = none) :
    parseMemory memory = .error .valueError ∧ isReadableMemory memory = false := by
  constructor
  · have hRead : int? memory = none := by
      rw [Option.eq_none_iff_forall_ne_some]
      intro n hn
      have hChars := int?_chars hn hc
      simp [hOther] at hChars
    simp only [parseMemory, hNone, hRead]
  · have hNewline : c ≠ '\n' := by
      rintro rfl
      exact absurd hOther.2.2.2.2 (by decide)
    have hAny : memoryUnits.any (fun unit => endsWith memory unit.1) = false := by
      rw [List.any_eq_false]
      exact List.find?_eq_none.mp hNone
    have hAll : (memory.toList.all fun c => isDecimal c || c == '\n') = false := by
      rw [List.all_eq_false]
      exact ⟨c, hc, by simp [hOther.1, hNewline]⟩
    rw [isReadableMemory, hAny, hAll, Bool.or_self]

theorem ends_without_unit (hText : memory.toList = m.text ++ tail) (hTail : tail = [] ∨ tail = ['\n'])
    (h : m.unit = ("", 1) ∨ tail = ['\n']) :
    memoryUnits.find? (fun unit => endsWith memory unit.1) = none := by
  by_cases hNewline : tail = ['\n']
  · rw [hNewline] at hText
    exact find_no_unit hText (.inr rfl)
  · have hEmpty := hTail.resolve_right hNewline
    have hUnit := h.resolve_right hNewline
    rw [hEmpty, List.append_nil, MemoryText.text, hUnit] at hText
    -- the last digit of the fraction, or of the whole number without one
    rcases List.eq_nil_or_concat m.fraction with hFraction | ⟨init, c, hFraction⟩
    · obtain ⟨init, c, hWhole⟩ := (List.eq_nil_or_concat m.whole).resolve_left m.whole_nonempty
      have hEnd : memory.toList = init ++ [c] := by simp [hText, hFraction, hWhole, fractionText]
      exact find_no_unit hEnd (.inl (m.whole_digits c (by simp [hWhole])))
    · have hEnd : memory.toList = (m.whole ++ '.' :: init) ++ [c] := by simp [hText, hFraction, fractionText]
      exact find_no_unit hEnd (.inl (m.fraction_digits c (by simp [hFraction])))

end

/-- Of the amounts that the parser accepts, the runner reads those that end with a unit and the whole numbers. -/
theorem parseMemory_iff {memory : String} {line : Option Nat} (h : validateMemory memory line = .ok ()) :
    ∃ (m : MemoryText) (tail : List Char), memory.toList = m.text ++ tail ∧ (tail = [] ∨ tail = ['\n']) ∧
      (parseMemory memory = .ok m.amount ↔ isReadableMemory memory = true) := by
  obtain ⟨m, tail, hText, hTail⟩ := exists_memoryText (validateMemory_ok_iff.mp h)
  refine ⟨m, tail, hText, hTail, ?_⟩
  rcases m.unit_known with hUnit | hUnit
  · have hNone := ends_without_unit hText hTail (.inl hUnit)
    by_cases hFraction : m.fraction = []
    · have hReadable : isReadableMemory memory = true := by
        rw [isReadableMemory, Bool.or_eq_true, List.all_eq_true]
        refine .inr fun c hc => ?_
        rw [hText, MemoryText.text, hFraction, hUnit] at hc
        rcases hTail with rfl | rfl
        · simp [m.whole_digits c (by simpa [fractionText] using hc)]
        · rcases List.mem_append.mp hc with hc | hc
          · simp [m.whole_digits c (by simpa [fractionText] using hc)]
          · simp [List.mem_singleton.mp hc]
      exact iff_of_true (parseMemory_whole hUnit hFraction hText hTail hNone) hReadable
    · have hPoint : '.' ∈ memory.toList := by simp [hText, MemoryText.text, fractionText, hFraction]
      obtain ⟨hError, hUnreadable⟩ := parseMemory_other hPoint (by decide) hNone
      rw [hError, hUnreadable]
      simp
  · rcases hTail with rfl | rfl
    · rw [List.append_nil] at hText
      have hAny : memoryUnits.any (fun unit => endsWith memory unit.1) = true := by
        have hFound := find_unit hUnit hText
        refine List.any_eq_true.mpr ⟨m.unit, hUnit, ?_⟩
        exact List.find?_some (p := fun unit : String × Nat => endsWith memory unit.1) hFound
      refine iff_of_true (parseMemory_unit hUnit hText) ?_
      rw [isReadableMemory, hAny, Bool.true_or]
    · have hNone := ends_without_unit hText (.inr rfl) (.inr rfl)
      obtain ⟨c, hc, hOther⟩ : ∃ c ∈ m.unit.1.toList, isDecimal c = false ∧ c ≠ '_' ∧ c ≠ '-' ∧ c ≠ '+' ∧
          isNumberSpace c = false := by
        have hAny : (m.unit.1.toList.any fun c => !isDecimal c && c != '_' && c != '-' && c != '+' &&
            !isNumberSpace c) = true := by
          simp only [memoryUnits, List.mem_cons, List.not_mem_nil, or_false] at hUnit
          rcases hUnit with hUnit | hUnit | hUnit | hUnit | hUnit | hUnit <;> rw [hUnit] <;> decide
        obtain ⟨c, hc, hOther⟩ := List.any_eq_true.mp hAny
        exact ⟨c, hc, by simpa [and_assoc] using hOther⟩
      have hMem : c ∈ memory.toList := by simp [hText, MemoryText.text, hc]
      obtain ⟨hError, hUnreadable⟩ := parseMemory_other hMem hOther hNone
      rw [hError, hUnreadable]
      simp

theorem parseMemory_fraction : ∃ (m : MemoryText) (tail : List Char), "1.5Gi".toList = m.text ++ tail ∧
    (tail = [] ∨ tail = ['\n']) ∧ (parseMemory "1.5Gi" = .ok m.amount ↔ isReadableMemory "1.5Gi" = true) := by
  have hValid : validateMemory "1.5Gi" none = .ok () := validateMemory_ok_iff.mpr (by decide +kernel)
  exact parseMemory_iff hValid

/-- A fraction without a unit, and a newline behind a unit. -/
theorem not_parsed_fraction : validateMemory "1.5" none = .ok () ∧ parseMemory "1.5" = .error .valueError ∧
    validateMemory "512Mi\n" none = .ok () ∧ parseMemory "512Mi\n" = .error .valueError := by
  refine ⟨validateMemory_ok_iff.mpr (by decide +kernel), ?_, validateMemory_ok_iff.mpr (by decide +kernel), ?_⟩
  · decide +kernel
  · decide +kernel

end Forge.Engine
