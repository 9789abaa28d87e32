import Mathlib.Data.List.DropRight
import Mathlib.Data.List.Infix
import Mathlib.Data.String.Basic

/-! # Python strings

The operations of `str` that programs use on short texts: character classes, `strip`, `split`,
`in`, `startswith` and `int`. Character classes follow Unicode 15.0, so a decimal digit is any
character of category Nd and not only an ASCII one.
-/
namespace Forge.Python
set_option autoImplicit false

/-- Code points of the digit zero in every run of ten decimal digits. -/
def decimalZeros : List Nat :=
  [48, 1632, 1776, 1984, 2406, 2534, 2662, 2790, 2918, 3046, 3174, 3302, 3430, 3558, 3664, 3792,
    3872, 4160, 4240, 6112, 6160, 6470, 6608, 6784, 6800, 6992, 7088, 7232, 7248, 42528, 43216,
    43264, 43472, 43504, 43600, 44016, 65296, 66720, 68912, 69734, 69872, 69942, 70096, 70384,
    70736, 70864, 71248, 71360, 71472, 71904, 72016, 72784, 73040, 73120, 73552, 92768, 92864,
    93008, 120782, 120792, 120802, 120812, 120822, 123200, 123632, 124144, 125264, 130032]

/-- Runs of characters that `str.isdigit` accepts although they are not decimal. -/
def otherDigits : List (Nat × Nat) :=
  [(178, 179), (185, 185), (4969, 4977), (6618, 6618), (8304, 8304), (8308, 8313), (8320, 8329),
    (9312, 9320), (9332, 9340), (9352, 9360), (9450, 9450), (9461, 9469), (9471, 9471),
    (10102, 10110), (10112, 10120), (10122, 10130), (68160, 68163), (69216, 69224),
    (69714, 69722), (127232, 127242)]

def decimalValue? (c : Char) : Option Nat :=
  (decimalZeros.find? fun z => z ≤ c.toNat && c.toNat < z + 10).map fun z => c.toNat - z

def isDecimal (c : Char) : Bool := (decimalValue? c).isSome

def isDigitChar (c : Char) : Bool :=
  isDecimal c || otherDigits.any fun run => run.1 ≤ c.toNat && c.toNat ≤ run.2

/-- `str.isspace` for one character; `strip` and `split` without argument use the same class. -/
def isSpace (c : Char) : Bool :=
  let n := c.toNat
  (9 ≤ n && n ≤ 13) || (28 ≤ n && n ≤ 32) || n == 133 || n == 160 || n == 5760 ||
    (8192 ≤ n && n ≤ 8202) || n == 8232 || n == 8233 || n == 8239 || n == 8287 || n == 12288

def stripBy (p : Char → Bool) (cs : List Char) : List Char :=
  ((cs.dropWhile p).reverse.dropWhile p).reverse

def stripChars (cs : List Char) : List Char := stripBy isSpace cs

def strip (s : String) : String := String.ofList (stripChars s.toList)

/-- `s.lstrip(chars)`. -/
def lstripChars (s : String) (chars : List Char) : String :=
  String.ofList (s.toList.dropWhile fun c => c ∈ chars)

/-- `s.rstrip(chars)`. -/
def rstripChars (s : String) (chars : List Char) : String :=
  String.ofList (s.toList.rdropWhile fun c => c ∈ chars)

def startsWith (s pre : String) : Bool := pre.toList.isPrefixOf s.toList

/-- The operator `in` between two strings. -/
def contains (s sub : String) : Bool := decide (sub.toList <:+: s.toList)

/-- `s.split(sep)` for a separator of one character. -/
def splitOn (s : String) (sep : Char) : List String := (s.toList.splitOn sep).map String.ofList

/-- `s.split()`. -/
def splitWhitespace (s : String) : List String :=
  ((s.toList.splitOnP isSpace).filter fun part => !part.isEmpty).map String.ofList

/-- `s.split(sep, 1)` where `sep` occurs in `s`, and `(s, "")` where it does not. -/
def splitOnce (s : String) (sep : Char) : String × String :=
  (String.ofList (s.toList.takeWhile (· != sep)),
    String.ofList ((s.toList.dropWhile (· != sep)).drop 1))

def endsWith (s suf : String) : Bool := suf.toList.isSuffixOf s.toList

/-- `s[:-n]` for a positive `n`. -/
def dropSuffixChars (s : String) (n : Nat) : String := String.ofList (s.toList.take (s.toList.length - n))

def dropPrefixChars (s : String) (n : Nat) : String := String.ofList (s.toList.drop n)

/-- `s.replace(pat, "")`: `skip` counts the characters left of the occurrence being deleted. -/
def removeAllFrom (pat : List Char) : Nat → List Char → List Char
  | _, [] => []
  | skip + 1, _ :: cs => removeAllFrom pat skip cs
  | 0, c :: cs =>
    if pat.isPrefixOf (c :: cs) then removeAllFrom pat (pat.length - 1) cs
    else c :: removeAllFrom pat 0 cs

def removeAll (s pat : String) : String := String.ofList (removeAllFrom pat.toList 0 s.toList)

/-- `s.replace(pat, rep)` for a `pat` that is not empty, with the same `skip`. -/
def replaceFrom (pat rep : List Char) : Nat → List Char → List Char
  | _, [] => []
  | skip + 1, _ :: cs => replaceFrom pat rep skip cs
  | 0, c :: cs =>
    if pat.isPrefixOf (c :: cs) then rep ++ replaceFrom pat rep (pat.length - 1) cs
    else c :: replaceFrom pat rep 0 cs

def replace (s pat rep : String) : String := String.ofList (replaceFrom pat.toList rep.toList 0 s.toList)

/-- `"".join(parts)`. -/
def joined (parts : List String) : String := String.ofList (parts.flatMap String.toList)

def isDigit (s : String) : Bool := !s.toList.isEmpty && s.toList.all isDigitChar

def digitsFrom (acc : Nat) : List Char → Option Nat
  | [] => some acc
  | '_' :: c :: cs => (decimalValue? c).bind fun d => digitsFrom (acc * 10 + d) cs
  | c :: cs => (decimalValue? c).bind fun d => digitsFrom (acc * 10 + d) cs

def digits? : List Char → Option Nat
  | [] => none
  | c :: cs => (decimalValue? c).bind fun d => digitsFrom d cs

/-- What `int` and `float` skip at both ends; they keep the four ASCII separators that `strip` drops. -/
def isNumberSpace (c : Char) : Bool := isSpace c && !(28 ≤ c.toNat && c.toNat ≤ 31)

/-- `int(s)`, with `none` for the `ValueError`. -/
def int? (s : String) : Option Int :=
  match stripBy isNumberSpace s.toList with
  | '-' :: ds => (digits? ds).map fun n => -(n : Int)
  | '+' :: ds => (digits? ds).map fun n => (n : Int)
  | ds => (digits? ds).map fun n => (n : Int)

/-- Value of a string of decimal digits; on such strings it is what `int` returns. -/
def digitsValue (s : String) : Nat :=
  s.toList.foldl (fun acc c => acc * 10 + (decimalValue? c).getD 0) 0

structure ValueError where
  message : String
  deriving DecidableEq, Repr

/-! ## Stripped texts -/

theorem stripBy_eq (p : Char → Bool) (cs : List Char) : stripBy p cs = (cs.dropWhile p).rdropWhile p := rfl

theorem stripBy_isPrefix (p : Char → Bool) (cs : List Char) : stripBy p cs <+: cs.dropWhile p :=
  List.rdropWhile_prefix _ _

theorem mem_of_mem_stripBy {p : Char → Bool} {cs : List Char} {c : Char} (h : c ∈ stripBy p cs) : c ∈ cs :=
  (List.dropWhile_suffix _).subset ((stripBy_isPrefix p cs).subset h)

theorem mem_stripBy_or {p : Char → Bool} {cs : List Char} {c : Char} (h : c ∈ cs) :
    c ∈ stripBy p cs ∨ p c = true := by
  rw [← List.takeWhile_append_dropWhile (p := p) (l := cs), List.mem_append] at h
  rcases h with hBefore | hAfter
  · exact .inr (List.mem_takeWhile_imp hBefore)
  · rw [← List.rdropWhile_append_rtakeWhile (p := p) (l := cs.dropWhile p), List.mem_append] at hAfter
    rcases hAfter with hKept | hBehind
    · exact .inl hKept
    · exact .inr (List.mem_rtakeWhile_imp hBehind)

/-- What is stripped is dropped from a text that has none of it. -/
theorem stripBy_append {p : Char → Bool} {cs tail : List Char} (h : ∀ c ∈ cs, p c = false)
    (hTail : ∀ c ∈ tail, p c = true) : stripBy p (cs ++ tail) = cs := by
  have hSelf : ∀ ds : List Char, (∀ d ∈ ds, p d = false) → ds.dropWhile p = ds := by
    intro ds hd
    rw [List.dropWhile_eq_self_iff]
    intro hPos
    rw [hd _ (List.getElem_mem hPos)]
    exact Bool.false_ne_true
  have hReversed : ∀ c ∈ tail.reverse, p c = true := fun c hc => hTail c (List.mem_reverse.mp hc)
  cases cs with
  | nil => rw [List.nil_append, stripBy, List.dropWhile_eq_nil_iff.mpr hTail]; rfl
  | cons c cs =>
    rw [stripBy, List.cons_append, List.dropWhile_cons_of_neg (by rw [h c List.mem_cons_self]; decide),
      ← List.cons_append, List.reverse_append, List.dropWhile_append_of_pos hReversed,
      hSelf _ fun d hd => h d (List.mem_reverse.mp hd), List.reverse_reverse]

/-- A text keeps its first character when that is not stripped. -/
theorem stripBy_cons {p : Char → Bool} {c : Char} (hc : p c = false) (cs : List Char) :
    stripBy p (c :: cs) = c :: cs.rdropWhile p := by
  have hSingle : [c].dropWhile p = [c] := List.dropWhile_cons_of_neg (by simp [hc])
  rw [stripBy_eq, List.dropWhile_cons_of_neg (by simp [hc]), List.rdropWhile, List.reverse_cons,
    List.dropWhile_append, hSingle, List.rdropWhile]
  split
  · rename_i hEmpty
    rw [List.isEmpty_iff.mp hEmpty]
    rfl
  · rw [List.reverse_append, List.reverse_singleton, List.singleton_append]

theorem stripChars_eq (cs : List Char) :
    stripChars cs = (cs.dropWhile isSpace).rdropWhile isSpace := rfl

theorem stripChars_isPrefix (cs : List Char) : stripChars cs <+: cs.dropWhile isSpace :=
  stripBy_isPrefix isSpace cs

theorem dropWhile_stripChars (cs : List Char) : (stripChars cs).dropWhile isSpace = stripChars cs := by
  obtain ⟨tail, hTail⟩ := stripChars_isPrefix cs
  rw [List.dropWhile_eq_self_iff]
  intro hPos hSpace
  have hNonempty : 0 < (cs.dropWhile isSpace).length := by
    rw [← hTail, List.length_append]
    omega
  apply List.dropWhile_get_zero_not isSpace cs hNonempty
  have hHead : (cs.dropWhile isSpace).get ⟨0, hNonempty⟩ = (stripChars cs)[0] := by
    simp only [List.get_eq_getElem, ← hTail, List.getElem_append_left hPos]
  rw [hHead]
  exact hSpace

@[simp] theorem strip_strip (s : String) : strip (strip s) = strip s := by
  unfold strip
  rw [String.toList_ofList]
  congr 1
  rw [stripChars_eq, dropWhile_stripChars, stripChars_eq, List.rdropWhile_idempotent]

theorem mem_of_mem_strip {s : String} {c : Char} (h : c ∈ (strip s).toList) : c ∈ s.toList := by
  rw [strip, String.toList_ofList] at h
  exact mem_of_mem_stripBy h

/-- Surrounding whitespace is dropped from a text that has none itself. -/
theorem stripChars_append {cs tail : List Char} (h : ∀ c ∈ cs, isSpace c = false)
    (hTail : ∀ c ∈ tail, isSpace c = true) : stripChars (cs ++ tail) = cs :=
  stripBy_append h hTail

theorem stripChars_cons {c : Char} (hc : isSpace c = false) (cs : List Char) :
    stripChars (c :: cs) = c :: cs.rdropWhile isSpace :=
  stripBy_cons hc cs

theorem stripChars_append_spaces {tail : List Char} (hTail : ∀ c ∈ tail, isSpace c = true) (cs : List Char) :
    stripChars (cs ++ tail) = stripChars cs := by
  have hReversed : ∀ c ∈ tail.reverse, isSpace c = true := fun c hc => hTail c (List.mem_reverse.mp hc)
  rw [stripChars, stripChars, stripBy, stripBy, List.dropWhile_append]
  split
  · rename_i hEmpty
    rw [List.isEmpty_iff.mp hEmpty, List.dropWhile_eq_nil_iff.mpr hTail]
  · rw [List.reverse_append, List.dropWhile_append_of_pos hReversed]

theorem stripChars_rdropWhile (cs : List Char) : stripChars (cs.rdropWhile isSpace) = stripChars cs := by
  have hSpaces : ∀ c ∈ cs.rtakeWhile isSpace, isSpace c = true := fun c hc => List.mem_rtakeWhile_imp hc
  have hSplit := stripChars_append_spaces hSpaces (cs.rdropWhile isSpace)
  rw [List.rdropWhile_append_rtakeWhile] at hSplit
  exact hSplit.symm

/-! ## Texts without a character -/

/-- Nothing is deleted from a text without the first character of the pattern. -/
theorem removeAllFrom_of_notMem {pat cs : List Char} {h : Char} (hHead : pat.head? = some h) (hNot : h ∉ cs) :
    removeAllFrom pat 0 cs = cs := by
  induction cs with
  | nil => rfl
  | cons c cs ih =>
    rw [List.mem_cons, not_or] at hNot
    have hPrefix : pat.isPrefixOf (c :: cs) = false := by
      cases pat with
      | nil => cases hHead
      | cons d pat =>
        cases hHead
        simp [List.isPrefixOf, hNot.1]
    rw [removeAllFrom, hPrefix, if_neg Bool.false_ne_true, ih hNot.2]

theorem contains_eq_false {text : String} (sub : String) {c : Char} (hc : c ∈ sub.toList)
    (h : c ∉ text.toList) : contains text sub = false := by
  rw [contains, decide_eq_false_iff_not]
  exact fun hInfix => h (hInfix.subset hc)

theorem startsWith_eq_false {text : String} (pre : String) {c : Char} (hc : c ∈ pre.toList)
    (h : c ∉ text.toList) : startsWith text pre = false := by
  rw [startsWith, Bool.eq_false_iff]
  intro hPrefix
  exact h ((List.isPrefixOf_iff_prefix.mp hPrefix).subset hc)

theorem startsWith_iff {text pre : String} {c : Char} (hPre : pre.toList = [c]) :
    startsWith text pre = true ↔ ∃ cs, text.toList = c :: cs := by
  rw [startsWith, hPre, List.isPrefixOf_iff_prefix]
  constructor
  · rintro ⟨cs, hText⟩
    exact ⟨cs, hText.symm⟩
  · rintro ⟨cs, hText⟩
    exact ⟨cs, hText.symm⟩

theorem splitOnce_of_notMem {text : String} {sep : Char} (h : sep ∉ text.toList) :
    splitOnce text sep = (text, "") := by
  have hAll : ∀ c ∈ text.toList, (c != sep) = true := by
    intro c hc
    rw [bne_iff_ne]
    rintro rfl
    exact h hc
  rw [splitOnce, List.takeWhile_eq_self_iff.mpr hAll, List.dropWhile_eq_nil_iff.mpr hAll,
    String.ofList_toList]
  rfl

theorem splitOnce_append {a : List Char} {sep : Char} (h : sep ∉ a) (b : List Char) :
    splitOnce (String.ofList (a ++ sep :: b)) sep = (String.ofList a, String.ofList b) := by
  have hAll : ∀ c ∈ a, (c != sep) = true := by
    intro c hc
    rw [bne_iff_ne]
    rintro rfl
    exact h hc
  rw [splitOnce, String.toList_ofList, List.takeWhile_append_of_pos hAll, List.dropWhile_append_of_pos hAll,
    List.takeWhile_cons_of_neg (by simp), List.dropWhile_cons_of_neg (by simp), List.append_nil]
  rfl

/-! ## Separators -/

theorem intercalate_cons (sep : Char) (first : List Char) (rest : List (List Char)) :
    [sep].intercalate (first :: rest) = first ++ (rest.map (sep :: ·)).flatten := by
  induction rest generalizing first with
  | nil => simp [List.intercalate]
  | cons second rest ih => simp [List.intercalate_cons_cons, ih]

theorem mem_intercalate {sep c : Char} {parts : List (List Char)} {part : List Char} (hPart : part ∈ parts)
    (hc : c ∈ part) : c ∈ [sep].intercalate parts := by
  cases parts with
  | nil => cases hPart
  | cons first rest =>
    rw [intercalate_cons, List.mem_append]
    cases List.mem_cons.mp hPart with
    | inl hFirst => exact .inl (hFirst ▸ hc)
    | inr hRest =>
      exact .inr (List.mem_flatten.mpr ⟨sep :: part, List.mem_map_of_mem hRest, List.mem_cons_of_mem sep hc⟩)

theorem mem_of_mem_splitOn {s part : String} {sep c : Char} (hPart : part ∈ splitOn s sep)
    (hc : c ∈ part.toList) : c ∈ s.toList := by
  obtain ⟨cs, hCs, rfl⟩ := List.mem_map.mp hPart
  rw [String.toList_ofList] at hc
  have hText : [sep].intercalate (s.toList.splitOn sep) = s.toList := List.intercalate_splitOn sep
  rw [← hText]
  exact mem_intercalate hCs hc

/-! ## Decimal digits -/

theorem isDecimal_iff {c : Char} :
    isDecimal c = true ↔ ∃ z ∈ decimalZeros, z ≤ c.toNat ∧ c.toNat < z + 10 := by
  simp [isDecimal, decimalValue?, List.find?_isSome]

/-- What can be checked of every decimal digit. -/
theorem of_isDecimal {P : Char → Prop} {c : Char} (h : isDecimal c = true)
    (hAll : ∀ z ∈ decimalZeros, ∀ k < 10, P (Char.ofNat (z + k))) : P c := by
  obtain ⟨z, hz, hLow, hHigh⟩ := isDecimal_iff.mp h
  have hChar : c = Char.ofNat (z + (c.toNat - z)) := by
    rw [Nat.add_sub_cancel' hLow, Char.ofNat_toNat]
  rw [hChar]
  exact hAll z hz _ (by omega)

theorem isSpace_of_isDecimal {c : Char} (h : isDecimal c = true) : isSpace c = false :=
  of_isDecimal h (P := fun c => isSpace c = false) (by decide +kernel)

theorem digitsFrom_eq {cs : List Char} (h : ∀ c ∈ cs, isDecimal c = true) (acc : Nat) :
    digitsFrom acc cs = some (cs.foldl (fun acc c => acc * 10 + (decimalValue? c).getD 0) acc) := by
  induction cs generalizing acc with
  | nil => rfl
  | cons c cs ih =>
    have hc := h c List.mem_cons_self
    obtain ⟨d, hd⟩ := Option.isSome_iff_exists.mp hc
    have hUnderscore : c ≠ '_' := by
      rintro rfl
      cases hc
    rw [digitsFrom, hd, Option.bind_some, ih fun e he => h e (List.mem_cons_of_mem c he)]
    · simp [hd]
    · rintro e rest rfl
      exact fun _ => hUnderscore rfl

theorem isNumberSpace_of_isDecimal {c : Char} (h : isDecimal c = true) : isNumberSpace c = false := by
  rw [isNumberSpace, isSpace_of_isDecimal h, Bool.false_and]

/-- `int` of decimal digits, with space behind them. -/
theorem int?_digits_spaces {cs tail : List Char} (h : ∀ c ∈ cs, isDecimal c = true) (hNonempty : cs ≠ [])
    (hTail : ∀ c ∈ tail, isNumberSpace c = true) :
    int? (String.ofList (cs ++ tail)) = some (digitsValue (String.ofList cs) : Int) := by
  have hStrip : stripBy isNumberSpace (cs ++ tail) = cs :=
    stripBy_append (fun c hc => isNumberSpace_of_isDecimal (h c hc)) hTail
  rw [int?, digitsValue, String.toList_ofList, String.toList_ofList, hStrip]
  cases cs with
  | nil => exact absurd rfl hNonempty
  | cons c cs =>
    have hc := h c List.mem_cons_self
    obtain ⟨d, hd⟩ := Option.isSome_iff_exists.mp hc
    have hDigits : digits? (c :: cs) =
        some ((c :: cs).foldl (fun acc c => acc * 10 + (decimalValue? c).getD 0) 0) := by
      rw [digits?, hd, Option.bind_some, digitsFrom_eq fun e he => h e (List.mem_cons_of_mem c he)]
      simp [hd]
    split
    · rename_i hEq
      cases hEq
      cases hc
    · rename_i hEq
      cases hEq
      cases hc
    · rw [hDigits]
      rfl

theorem int?_digits {cs : List Char} (h : ∀ c ∈ cs, isDecimal c = true) (hNonempty : cs ≠ []) :
    int? (String.ofList cs) = some (digitsValue (String.ofList cs) : Int) := by
  have hSpaces : ∀ c ∈ ([] : List Char), isNumberSpace c = true := by simp
  simpa using int?_digits_spaces h hNonempty hSpaces

theorem digitsFrom_chars {acc n : Nat} {cs : List Char} (h : digitsFrom acc cs = some n) :
    ∀ c ∈ cs, isDecimal c = true ∨ c = '_' := by
  induction acc, cs using digitsFrom.induct with
  | case1 acc => simp
  | case2 acc c cs ih =>
    rw [digitsFrom] at h
    obtain ⟨d, hd, hRest⟩ := Option.bind_eq_some_iff.mp h
    have hc : isDecimal c = true := by rw [isDecimal, hd]; rfl
    exact List.forall_mem_cons.mpr ⟨.inr rfl, List.forall_mem_cons.mpr ⟨.inl hc, ih d hRest⟩⟩
  | case3 acc c cs hOther ih =>
    rw [digitsFrom] at h
    · obtain ⟨d, hd, hRest⟩ := Option.bind_eq_some_iff.mp h
      have hc : isDecimal c = true := by rw [isDecimal, hd]; rfl
      exact List.forall_mem_cons.mpr ⟨.inl hc, ih d hRest⟩
    · exact hOther

theorem digits?_chars {n : Nat} {cs : List Char} (h : digits? cs = some n) :
    ∀ c ∈ cs, isDecimal c = true ∨ c = '_' := by
  cases cs with
  | nil => cases h
  | cons c cs =>
    obtain ⟨d, hd, hRest⟩ := Option.bind_eq_some_iff.mp h
    have hc : isDecimal c = true := by rw [isDecimal, hd]; rfl
    exact List.forall_mem_cons.mpr ⟨.inl hc, digitsFrom_chars hRest⟩

/-- The characters of a text that `int` reads. -/
theorem int?_chars {s : String} {n : Int} (h : int? s = some n) {c : Char} (hc : c ∈ s.toList) :
    isDecimal c = true ∨ c = '_' ∨ c = '-' ∨ c = '+' ∨ isNumberSpace c = true := by
  have hRun : ∀ ds, digits? ds ≠ none → ∀ d ∈ ds, isDecimal d = true ∨ d = '_' := by
    intro ds hDigits
    obtain ⟨m, hm⟩ := Option.ne_none_iff_exists'.mp hDigits
    exact digits?_chars hm
  rcases mem_stripBy_or (p := isNumberSpace) hc with hKept | hSpace
  · unfold int? at h
    split at h
    · rename_i ds hEq
      rw [hEq] at hKept
      rcases List.mem_cons.mp hKept with rfl | hMem
      · simp
      · have := hRun ds (by rintro hNone; simp [hNone] at h) c hMem
        tauto
    · rename_i ds hEq
      rw [hEq] at hKept
      rcases List.mem_cons.mp hKept with rfl | hMem
      · simp
      · have := hRun ds (by rintro hNone; simp [hNone] at h) c hMem
        tauto
    · have := hRun _ (by rintro hNone; simp [hNone] at h) c hKept
      tauto
  · simp [hSpace]

end Forge.Python
