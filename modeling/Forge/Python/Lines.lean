import Forge.Python.Text

/-! # Lines of a text

`str.splitlines(keepends=True)`, and the translation of line ends in files that are opened as text.
-/
namespace Forge.Python
set_option autoImplicit false

/-- The characters at which `splitlines` ends a line. -/
def isLineBreak (c : Char) : Bool :=
  let n := c.toNat
  (10 ≤ n && n ≤ 13) || (28 ≤ n && n ≤ 30) || n == 133 || n == 8232 || n == 8233

def splitLinesChars : List Char → List (List Char)
  | [] => []
  | '\r' :: '\n' :: cs => ['\r', '\n'] :: splitLinesChars cs
  | c :: cs =>
    if isLineBreak c then [c] :: splitLinesChars cs
    else
      match splitLinesChars cs with
      | [] => [[c]]
      | line :: lines => (c :: line) :: lines

/-- `s.splitlines(keepends=True)`. -/
def splitLinesKeepends (s : String) : List String := (splitLinesChars s.toList).map String.ofList

/-- What `read` returns for the characters of a file in text mode. -/
def universalNewlines : List Char → List Char
  | [] => []
  | '\r' :: '\n' :: cs => '\n' :: universalNewlines cs
  | c :: cs => (if c = '\r' then '\n' else c) :: universalNewlines cs

example : splitLinesKeepends "a\nb\r\n\nc" = ["a\n", "b\r\n", "\n", "c"] := by decide

theorem universalNewlines_eq_self {cs : List Char} (h : '\r' ∉ cs) : universalNewlines cs = cs := by
  induction cs with
  | nil => rfl
  | cons c cs ih =>
    rw [List.mem_cons, not_or] at h
    have hNe : c ≠ '\r' := Ne.symm h.1
    rw [universalNewlines, if_neg hNe, ih h.2]
    rintro rest rfl
    exact absurd rfl hNe

theorem splitLinesChars_cons {c : Char} (h : isLineBreak c = false) (cs : List Char) :
    splitLinesChars (c :: cs) =
      match splitLinesChars cs with
      | [] => [[c]]
      | line :: lines => (c :: line) :: lines := by
  rw [splitLinesChars, if_neg (by simp [h])]
  rintro rest rfl
  cases h

theorem splitLinesChars_line {body : List Char} (h : ∀ c ∈ body, isLineBreak c = false) (cs : List Char) :
    splitLinesChars (body ++ '\n' :: cs) = (body ++ ['\n']) :: splitLinesChars cs := by
  induction body with
  | nil => rfl
  | cons c body ih =>
    rw [List.forall_mem_cons] at h
    rw [List.cons_append, splitLinesChars_cons h.1, ih h.2]
    rfl

theorem splitLinesChars_crlf (cs : List Char) :
    splitLinesChars ('\r' :: '\n' :: cs) = ['\r', '\n'] :: splitLinesChars cs := rfl

theorem splitLinesChars_break {c : Char} {cs : List Char} (h : isLineBreak c = true)
    (hCr : ¬(c = '\r' ∧ cs.head? = some '\n')) : splitLinesChars (c :: cs) = [c] :: splitLinesChars cs := by
  rw [splitLinesChars, if_pos h]
  rintro rest rfl rfl
  exact hCr ⟨rfl, rfl⟩

theorem splitLinesChars_newline (cs : List Char) : splitLinesChars ('\n' :: cs) = ['\n'] :: splitLinesChars cs := rfl

theorem splitLinesChars_ne_nil {cs : List Char} (h : cs ≠ []) : splitLinesChars cs ≠ [] := by
  unfold splitLinesChars
  split
  · exact absurd rfl h
  · exact List.cons_ne_nil _ _
  · split
    · exact List.cons_ne_nil _ _
    · split
      · exact List.cons_ne_nil _ _
      · exact List.cons_ne_nil _ _

/-! ## Lines without their ends -/

/-- The lines of `s.splitlines()`. -/
def lineBodies (cs : List Char) : List (List Char) :=
  (splitLinesChars cs).map fun line => line.takeWhile fun c => !isLineBreak c

def splitLines (s : String) : List String := (lineBodies s.toList).map String.ofList

/-- The text `a` ends where a line of the text `a ++ b` ends. -/
def LineEnd (a b : List Char) : Prop :=
  a = [] ∨ b = [] ∨ (∃ c ∈ a.getLast?, isLineBreak c = true) ∧ ¬(a.getLast? = some '\r' ∧ b.head? = some '\n')

/-- The number of lines and of their characters. -/
def lineWeight : List (List Char) → Nat
  | [] => 0
  | line :: lines => line.length + 1 + lineWeight lines

theorem lineWeight_append (lines lines' : List (List Char)) :
    lineWeight (lines ++ lines') = lineWeight lines + lineWeight lines' := by
  induction lines with
  | nil => exact (Nat.zero_add _).symm
  | cons line lines ih =>
    rw [List.cons_append, lineWeight, lineWeight, ih]
    exact (Nat.add_assoc _ _ _).symm

theorem lineBodies_break {c : Char} {cs : List Char} (h : isLineBreak c = true)
    (hCr : ¬(c = '\r' ∧ cs.head? = some '\n')) : lineBodies (c :: cs) = [] :: lineBodies cs := by
  rw [lineBodies, splitLinesChars_break h hCr, List.map_cons, List.takeWhile_cons_of_neg (by simp [h])]
  rfl

/-- A character that ends no line goes to the front of the first line. -/
theorem lineBodies_char {c : Char} {cs : List Char} (h : isLineBreak c = false) (hCs : cs ≠ []) :
    ∃ line lines, lineBodies cs = line :: lines ∧ lineBodies (c :: cs) = (c :: line) :: lines := by
  obtain ⟨line, lines, hLines⟩ := List.exists_cons_of_ne_nil (splitLinesChars_ne_nil hCs)
  refine ⟨line.takeWhile fun c => !isLineBreak c, lines.map fun line => line.takeWhile fun c => !isLineBreak c, ?_, ?_⟩
  · rw [lineBodies, hLines, List.map_cons]
  · rw [lineBodies, splitLinesChars_cons h, hLines, List.map_cons, List.takeWhile_cons_of_pos (by simp [h])]

theorem lineBodies_single {c : Char} (h : isLineBreak c = false) : lineBodies [c] = [[c]] := by
  rw [lineBodies, splitLinesChars_cons h]
  simp [splitLinesChars, h]

theorem lineWeight_char {c : Char} {cs : List Char} (h : isLineBreak c = false) (hCs : cs ≠ []) :
    lineWeight (lineBodies (c :: cs)) = lineWeight (lineBodies cs) + 1 := by
  obtain ⟨line, lines, hLines, hMore⟩ := lineBodies_char h hCs
  rw [hLines, hMore]
  simp only [lineWeight, List.length_cons]
  omega

theorem lineWeight_break {c : Char} {cs : List Char} (h : isLineBreak c = true)
    (hCr : ¬(c = '\r' ∧ cs.head? = some '\n')) :
    lineWeight (lineBodies (c :: cs)) = lineWeight (lineBodies cs) + 1 := by
  rw [lineBodies_break h hCr]
  simp only [lineWeight, List.length_nil]
  omega

/-! ## Two texts and their concatenation -/

theorem lineEnd_cons {c : Char} {a b : List Char} (ha : a ≠ []) : LineEnd (c :: a) b ↔ LineEnd a b := by
  obtain ⟨d, rest, rfl⟩ := List.exists_cons_of_ne_nil ha
  simp only [LineEnd, List.getLast?_cons_cons, reduceCtorEq]

theorem head?_append_of_ne_nil {a : List Char} (ha : a ≠ []) (b : List Char) : (a ++ b).head? = a.head? := by
  obtain ⟨d, rest, rfl⟩ := List.exists_cons_of_ne_nil ha
  rfl

theorem splitLinesChars_append {a b : List Char} (h : LineEnd a b) :
    splitLinesChars (a ++ b) = splitLinesChars a ++ splitLinesChars b := by
  induction a with
  | nil => rfl
  | cons c a ih =>
    by_cases ha : a = []
    · subst ha
      rcases h with hEmpty | rfl | ⟨hBreak, hCr⟩
      · cases hEmpty
      · rw [List.append_nil]
        exact (List.append_nil _).symm
      · have hBreak : isLineBreak c = true := by simpa using hBreak
        have hCr : ¬(c = '\r' ∧ b.head? = some '\n') := by simpa using hCr
        rw [List.singleton_append, splitLinesChars_break hBreak hCr, splitLinesChars_break hBreak (by simp)]
        rfl
    · have ih := ih ((lineEnd_cons ha).mp h)
      have hHead := head?_append_of_ne_nil ha b
      rw [List.cons_append]
      by_cases hBreak : isLineBreak c = true
      · by_cases hCr : c = '\r' ∧ a.head? = some '\n'
        · obtain ⟨rest, rfl⟩ := List.head?_eq_some_iff.mp hCr.2
          rw [hCr.1, splitLinesChars_crlf, List.cons_append, splitLinesChars_crlf]
          rw [List.cons_append, splitLinesChars_newline, splitLinesChars_newline, List.cons_append] at ih
          rw [(List.cons.inj ih).2]
          rfl
        · rw [splitLinesChars_break hBreak hCr, splitLinesChars_break hBreak (hHead ▸ hCr), ih]
          rfl
      · have hChar : isLineBreak c = false := by simpa using hBreak
        obtain ⟨line, lines, hLines⟩ := List.exists_cons_of_ne_nil (splitLinesChars_ne_nil ha)
        rw [splitLinesChars_cons hChar, ih, splitLinesChars_cons hChar, hLines]
        rfl

/-- The lines `last` and `first` at a cut are one line of the whole. -/
def LineCut (last first : List Char) : Prop :=
  ∃ body, (∀ c ∈ body, isLineBreak c = false) ∧ (last = body ∨ last = body ++ ['\r'] ∧ first = ['\n'])

theorem LineCut.cons {c : Char} {last first : List Char} (hc : isLineBreak c = false) (h : LineCut last first) :
    LineCut (c :: last) first := by
  obtain ⟨body, hBody, hLast⟩ := h
  refine ⟨c :: body, List.forall_mem_cons.mpr ⟨hc, hBody⟩, ?_⟩
  rcases hLast with rfl | ⟨rfl, hFirst⟩
  · exact .inl rfl
  · exact .inr ⟨rfl, hFirst⟩

theorem LineCut.ne_newline {first : List Char} (h : LineCut ['\n'] first) : False := by
  obtain ⟨body, hBody, rfl | ⟨hLast, -⟩⟩ := h
  · exact absurd (hBody '\n' (by simp)) (by decide)
  · have hEnd := congrArg List.getLast? hLast
    simp at hEnd

/-- The last line of `a` goes on in `b`. -/
def Merges (a b : List Char) : Prop := ∃ front last first back,
  splitLinesChars a = front ++ [last] ∧ splitLinesChars b = first :: back ∧
    splitLinesChars (a ++ b) = front ++ (last ++ first) :: back ∧ LineCut last first

theorem merges_single {c : Char} {b : List Char} (h : ¬LineEnd [c] b) : Merges [c] b := by
  have hb : b ≠ [] := fun hb => h (.inr (.inl hb))
  cases hBreak : isLineBreak c with
  | false =>
    obtain ⟨first, back, hLines⟩ := List.exists_cons_of_ne_nil (splitLinesChars_ne_nil hb)
    refine ⟨[], [c], first, back, splitLinesChars_cons hBreak [], hLines, ?_, [c], by simpa using hBreak, .inl rfl⟩
    rw [List.singleton_append, splitLinesChars_cons hBreak, hLines]
    rfl
  | true =>
    have hCr : c = '\r' ∧ b.head? = some '\n' := by
      by_contra hCr
      exact h (.inr (.inr ⟨by simpa using hBreak, by simpa using hCr⟩))
    obtain ⟨rest, rfl⟩ := List.head?_eq_some_iff.mp hCr.2
    rw [hCr.1]
    exact ⟨[], ['\r'], ['\n'], splitLinesChars rest, rfl, splitLinesChars_newline rest, splitLinesChars_crlf rest,
      [], nofun, .inr ⟨rfl, rfl⟩⟩

theorem Merges.cons {a b : List Char} (ha : a ≠ []) (h : Merges a b) (c : Char) : Merges (c :: a) b := by
  obtain ⟨front, last, first, back, hFront, hBack, hWhole, hCut⟩ := h
  have hHead := head?_append_of_ne_nil ha b
  rw [Merges, List.cons_append]
  cases hBreak : isLineBreak c with
  | false =>
    rw [splitLinesChars_cons hBreak, splitLinesChars_cons hBreak, hFront, hWhole]
    cases front with
    | nil => exact ⟨[], c :: last, first, back, rfl, hBack, rfl, hCut.cons hBreak⟩
    | cons line front => exact ⟨(c :: line) :: front, last, first, back, rfl, hBack, rfl, hCut⟩
  | true =>
    by_cases hCr : c = '\r' ∧ a.head? = some '\n'
    · obtain ⟨rest, rfl⟩ := List.head?_eq_some_iff.mp hCr.2
      rw [splitLinesChars_newline] at hFront
      rw [List.cons_append, splitLinesChars_newline] at hWhole
      rw [hCr.1, splitLinesChars_crlf, List.cons_append, splitLinesChars_crlf]
      cases front with
      | nil =>
        -- The line end before the cut is complete.
        rw [← (List.cons.inj hFront).1] at hCut
        exact hCut.ne_newline.elim
      | cons line front =>
        rw [(List.cons.inj hFront).2, (List.cons.inj hWhole).2]
        exact ⟨['\r', '\n'] :: front, last, first, back, rfl, hBack, rfl, hCut⟩
    · rw [splitLinesChars_break hBreak hCr, splitLinesChars_break hBreak (hHead ▸ hCr), hFront, hWhole]
      exact ⟨[c] :: front, last, first, back, rfl, hBack, rfl, hCut⟩

theorem merges_of_not_lineEnd {a b : List Char} (h : ¬LineEnd a b) : Merges a b := by
  induction a with
  | nil => exact absurd (.inl rfl) h
  | cons c a ih =>
    by_cases ha : a = []
    · subst ha
      exact merges_single h
    · exact (ih fun hEnd => h ((lineEnd_cons ha).mpr hEnd)).cons ha c

theorem lineBodies_append {a b : List Char} (h : LineEnd a b) :
    lineBodies (a ++ b) = lineBodies a ++ lineBodies b := by
  rw [lineBodies, splitLinesChars_append h, List.map_append]
  rfl

theorem LineCut.length_body {last first : List Char} (h : LineCut last first) :
    ((last ++ first).takeWhile fun c => !isLineBreak c).length =
      (last.takeWhile fun c => !isLineBreak c).length + (first.takeWhile fun c => !isLineBreak c).length := by
  obtain ⟨body, hBody, hLast⟩ := h
  have hAll : ∀ c ∈ body, (!isLineBreak c) = true := fun c hc => by rw [hBody c hc]; rfl
  have hCr : isLineBreak '\r' = true := by decide
  rcases hLast with rfl | ⟨rfl, rfl⟩
  · rw [List.takeWhile_append_of_pos hAll, List.length_append, List.takeWhile_eq_self_iff.mpr hAll]
  · rw [List.append_assoc, List.takeWhile_append_of_pos hAll, List.takeWhile_append_of_pos hAll]
    rfl

/-- A cut anywhere else makes one line more. -/
theorem lineWeight_of_not_lineEnd {a b : List Char} (h : ¬LineEnd a b) :
    lineWeight (lineBodies (a ++ b)) + 1 = lineWeight (lineBodies a) + lineWeight (lineBodies b) := by
  obtain ⟨front, last, first, back, hFront, hBack, hWhole, hCut⟩ := merges_of_not_lineEnd h
  have hLength := hCut.length_body
  simp only [lineBodies, hFront, hBack, hWhole, List.map_append, List.map_cons, List.map_nil,
    lineWeight_append, lineWeight]
  omega

theorem lineWeight_append_le (a b : List Char) :
    lineWeight (lineBodies (a ++ b)) ≤ lineWeight (lineBodies a) + lineWeight (lineBodies b) := by
  by_cases h : LineEnd a b
  · rw [lineBodies_append h, lineWeight_append]
  · have := lineWeight_of_not_lineEnd h
    omega

/-! ## Lines that are not blank -/

/-- The lines, stripped, without those of which nothing is left. -/
def lineContents (lines : List (List Char)) : List (List Char) := (lines.map stripChars).filter (· ≠ [])

theorem lineContents_append (lines lines' : List (List Char)) :
    lineContents (lines ++ lines') = lineContents lines ++ lineContents lines' := by
  rw [lineContents, List.map_append, List.filter_append]
  rfl

theorem lineContents_cons (line : List Char) (lines : List (List Char)) :
    lineContents (line :: lines) = lineContents [line] ++ lineContents lines :=
  lineContents_append [line] lines

theorem lineContents_of_ne_nil {line : List Char} (h : stripChars line ≠ []) :
    lineContents [line] = [stripChars line] := List.filter_cons_of_pos (by simpa using h)

theorem lineContents_of_eq_nil {line : List Char} (h : stripChars line = []) : lineContents [line] = [] :=
  List.filter_cons_of_neg (by simpa using h)

theorem stripChars_eq_nil {cs : List Char} : stripChars cs = [] ↔ ∀ c ∈ cs, isSpace c = true := by
  constructor
  · intro hNone c hc
    rcases mem_stripBy_or (p := isSpace) hc with hLeft | hSpace
    · rw [← stripChars, hNone] at hLeft
      cases hLeft
    · exact hSpace
  · intro hSpaces
    exact stripChars_append_spaces hSpaces []

theorem lineContents_merge (last first : List Char) :
    (lineContents [last ++ first]).length ≤ (lineContents [last]).length + (lineContents [first]).length := by
  by_cases hWhole : stripChars (last ++ first) = []
  · rw [lineContents_of_eq_nil hWhole]
    exact Nat.zero_le _
  · rw [lineContents_of_ne_nil hWhole]
    by_cases hLast : stripChars last = []
    · have hFirst : stripChars first ≠ [] := by
        intro hFirst
        rw [stripChars_eq_nil] at hLast hFirst
        exact hWhole (stripChars_eq_nil.mpr (List.forall_mem_append.mpr ⟨hLast, hFirst⟩))
      rw [lineContents_of_ne_nil hFirst]
      exact Nat.le_add_left _ _
    · rw [lineContents_of_ne_nil hLast]
      exact Nat.le_add_right _ _

/-- A cut makes no line less. -/
theorem lineContents_splitLines_append_le (a b : List Char) :
    (lineContents (splitLinesChars (a ++ b))).length ≤
      (lineContents (splitLinesChars a)).length + (lineContents (splitLinesChars b)).length := by
  by_cases h : LineEnd a b
  · rw [splitLinesChars_append h, lineContents_append, List.length_append]
  · obtain ⟨front, last, first, back, hFront, hBack, hWhole, -⟩ := merges_of_not_lineEnd h
    have hMerge := lineContents_merge last first
    rw [hFront, hBack, hWhole, lineContents_append, lineContents_append, lineContents_cons, lineContents_cons first,
      List.length_append, List.length_append, List.length_append, List.length_append]
    omega

theorem lineContents_newline (cs : List Char) :
    lineContents (splitLinesChars ('\n' :: cs)) = lineContents (splitLinesChars cs) := by
  rw [splitLinesChars_newline, lineContents_cons]
  rfl

theorem lineContents_append_newline (cs : List Char) :
    lineContents (splitLinesChars (cs ++ ['\n'])) = lineContents (splitLinesChars cs) := by
  by_cases h : LineEnd cs ['\n']
  · rw [splitLinesChars_append h, lineContents_append]
    exact List.append_nil _
  · obtain ⟨front, last, first, back, hFront, hBack, hWhole, -⟩ := merges_of_not_lineEnd h
    obtain ⟨rfl, rfl⟩ := List.cons.inj (hBack.symm.trans (splitLinesChars_newline []))
    have hStrip : stripChars (last ++ ['\n']) = stripChars last :=
      stripChars_append_spaces (by simp [isSpace]) last
    rw [hWhole, hFront, lineContents_append, lineContents_append, lineContents, lineContents]
    congr 2
    rw [List.map_cons, hStrip]
    rfl

end Forge.Python
