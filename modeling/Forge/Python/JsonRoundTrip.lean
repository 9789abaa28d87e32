import Forge.Python.JsonText

/-! # JSON round trips

What `dumps` writes is printable ASCII, and `loads` reads it back. This is shown for values without lone
surrogates, where no object has a key twice and a float is the `repr` of one. The values that `loads` builds
are such values, if they can be rendered.
-/
namespace Forge.Python
set_option autoImplicit false

/-! ## Strings -/

theorem shortEscapes_scan {c letter : Char} (h : shortEscapes.lookup c = some letter) (rest : List Char) :
    scanEscape (letter :: rest) = some (c.toNat, rest) := by
  have hMem : (c, letter) ∈ shortEscapes := by
    obtain ⟨before, after, hSplit, -⟩ := List.lookup_eq_some_iff.mp h
    simp [hSplit]
  have hAll : ∀ entry ∈ shortEscapes, entry.2 ≠ 'u' ∧ entry.2 ≠ '/' ∧
      shortEscapes.find? (fun other => other.2 = entry.2) = some entry := by decide
  obtain ⟨hUnicode, hSlash, hFind⟩ := hAll _ hMem
  rw [scanEscape, if_neg hUnicode, if_neg hSlash, hFind]
  rfl

theorem hexValue?_digitChar {n : ℕ} (h : n < 16) : hexValue? n.digitChar = some n := by
  have hAll : ∀ n < 16, hexValue? (Nat.digitChar n) = some n := by decide
  exact hAll n h

theorem scanHexUnit_hexUnit {n : ℕ} (h : n < 65536) (rest : List Char) :
    scanHexUnit (hexUnit n ++ rest) = some (n, rest) := by
  have hValue : ((n / 4096 % 16 * 16 + n / 256 % 16) * 16 + n / 16 % 16) * 16 + n % 16 = n := by omega
  simp only [hexUnit, List.cons_append, List.nil_append, scanHexUnit,
    hexValue?_digitChar (Nat.mod_lt _ (by decide : 0 < 16)), hValue]

theorem isSurrogate_toNat (c : Char) : isSurrogate c.toNat = false := by
  have hScalar := c.valid
  simp only [UInt32.isValidChar, Nat.isValidChar] at hScalar
  have hValid : ¬ (55296 ≤ c.toNat ∧ c.toNat ≤ 57343) := by
    change ¬ (55296 ≤ c.val.toNat ∧ c.val.toNat ≤ 57343)
    omega
  simpa [isSurrogate] using hValid

theorem scanUnicode_char {c : Char} (h : c.toNat < 65536) (rest : List Char) :
    scanUnicode (hexUnit c.toNat ++ rest) = some (c.toNat, rest) := by
  have hValid := isSurrogate_toNat c
  simp only [isSurrogate, Bool.and_eq_false_iff, decide_eq_false_iff_not] at hValid
  have hHigh : ¬ (55296 ≤ c.toNat ∧ c.toNat ≤ 56319) := by omega
  rw [scanUnicode, scanHexUnit_hexUnit h]
  simp only [if_neg hHigh]

theorem scanUnicode_pair {c : Char} (h : 65536 ≤ c.toNat) (rest : List Char) :
    scanUnicode (hexUnit (55296 + (c.toNat - 65536) / 1024) ++
      '\\' :: 'u' :: (hexUnit (56320 + (c.toNat - 65536) % 1024) ++ rest)) = some (c.toNat, rest) := by
  have hScalar : c.toNat < 1114112 := by
    have hValid := c.valid
    simp only [UInt32.isValidChar, Nat.isValidChar] at hValid
    change c.val.toNat < 1114112
    omega
  have hHigh : 55296 ≤ 55296 + (c.toNat - 65536) / 1024 ∧ 55296 + (c.toNat - 65536) / 1024 ≤ 56319 := by
    omega
  have hLow : 56320 ≤ 56320 + (c.toNat - 65536) % 1024 ∧ 56320 + (c.toNat - 65536) % 1024 ≤ 57343 := by
    omega
  have hValue : 65536 + (55296 + (c.toNat - 65536) / 1024 - 55296) * 1024 +
      (56320 + (c.toNat - 65536) % 1024 - 56320) = c.toNat := by omega
  rw [scanUnicode, scanHexUnit_hexUnit (by omega)]
  simp only [if_pos hHigh]
  rw [scanHexUnit_hexUnit (by omega)]
  simp only [if_pos hLow, hValue]

theorem scanChars_backslash {fuel n : ℕ} {cs rest : List Char} (h : scanEscape cs = some (n, rest)) :
    scanChars (fuel + 1) ('\\' :: cs) = (scanChars fuel rest).map fun r => (n :: r.1, r.2) := by
  rw [scanChars, if_neg (by decide), if_pos rfl, h]

theorem scanEscape_unicode (cs : List Char) : scanEscape ('u' :: cs) = scanUnicode cs := rfl

theorem scanChars_escapeChar (fuel : ℕ) (c : Char) (rest : List Char) :
    scanChars (fuel + 1) (escapeChar c ++ rest) =
      (scanChars fuel rest).map fun r => (c.toNat :: r.1, r.2) := by
  unfold escapeChar
  split
  · rename_i letter hLetter
    exact scanChars_backslash (shortEscapes_scan hLetter rest)
  · rename_i hNone
    have hPlain : ∀ d, shortEscapes.lookup d = none → d ≠ '"' ∧ d ≠ '\\' := by
      rintro d hd
      constructor
      · rintro rfl
        cases hd
      · rintro rfl
        cases hd
    split
    · rename_i hPrintable
      simp only [isPrintable, Bool.and_eq_true, decide_eq_true_eq] at hPrintable
      have hControl : ¬ c.toNat < 32 := by omega
      rw [List.singleton_append, scanChars, if_neg (hPlain c hNone).1, if_neg (hPlain c hNone).2,
        if_neg hControl]
    · split
      · rename_i hShort
        exact scanChars_backslash ((scanEscape_unicode _).trans (scanUnicode_char hShort rest))
      · rename_i hLong
        rw [List.append_assoc]
        exact scanChars_backslash ((scanEscape_unicode _).trans (scanUnicode_pair (by omega) rest))

theorem scanChars_quoted (cs : List Char) (fuel : ℕ) (hFuel : cs.length < fuel) (rest : List Char) :
    scanChars fuel (cs.flatMap escapeChar ++ '"' :: rest) = some (cs.map Char.toNat, rest) := by
  induction cs generalizing fuel with
  | nil =>
    obtain ⟨fuel, rfl⟩ := Nat.exists_eq_add_one_of_ne_zero (Nat.ne_of_gt hFuel)
    rfl
  | cons c cs ih =>
    obtain ⟨fuel, rfl⟩ := Nat.exists_eq_add_one_of_ne_zero (Nat.ne_of_gt (Nat.zero_lt_of_lt hFuel))
    rw [List.flatMap_cons, List.append_assoc, scanChars_escapeChar, ih fuel (by simpa using hFuel)]
    rfl

theorem escapeChar_ne_nil (c : Char) : 0 < (escapeChar c).length := by
  unfold escapeChar
  split
  · simp
  · split
    · simp
    · split
      · simp [unicodeEscape]
      · simp [unicodeEscape]

theorem length_le_flatMap_escapeChar (cs : List Char) : cs.length ≤ (cs.flatMap escapeChar).length := by
  induction cs with
  | nil => simp
  | cons c cs ih =>
    have hPos := escapeChar_ne_nil c
    rw [List.flatMap_cons, List.length_append, List.length_cons]
    omega

def pointsOf (s : String) : List Nat := s.toList.map Char.toNat

theorem textOf?_pointsOf (s : String) : textOf? (pointsOf s) = some s := by
  have hNone : ¬ (s.toList.map Char.toNat).any isSurrogate = true := by
    simp only [List.any_map, List.any_eq_true, not_exists, not_and]
    intro c _ hSurrogate
    exact Bool.false_ne_true ((isSurrogate_toNat c).symm.trans hSurrogate)
  have hChars : (s.toList.map Char.toNat).map Char.ofNat = s.toList := by
    simp [Function.comp_def]
  rw [textOf?, pointsOf, if_neg hNone, hChars, String.ofList_toList]

theorem withTexts?_pointsOf (members : List (String × Json)) :
    withTexts? (members.map fun entry => (pointsOf entry.1, entry.2)) = some members := by
  induction members with
  | nil => rfl
  | cons entry members ih =>
    simp only [List.map_cons, withTexts?, textOf?_pointsOf, ih]

theorem ofPoints_pointsOf (s : String) : Json.ofPoints (pointsOf s) = .str s := by
  rw [Json.ofPoints, textOf?_pointsOf]

theorem ofMembers_pointsOf {members : List (String × Json)} (h : (members.map Prod.fst).Nodup) :
    Json.ofMembers (members.map fun entry => (pointsOf entry.1, entry.2)) = .obj members := by
  rw [Json.ofMembers, withTexts?_pointsOf]
  simp only [Dict.entries_ofList h]

theorem scanString_quoted (s : String) (rest : List Char) :
    scanString (s.toList.flatMap escapeChar ++ '"' :: rest) = some (pointsOf s, rest) := by
  have hLength := length_le_flatMap_escapeChar s.toList
  rw [scanString, scanChars_quoted s.toList _ (by rw [List.length_append]; omega), pointsOf]

/-! ## Numbers -/

theorem delimited_nil : Delimited [] := by
  intro c hc
  cases hc

theorem delimited_cons {c : Char} (h : c.isDigit = false ∧ c ≠ '.' ∧ c ≠ 'e' ∧ c ≠ 'E') (rest : List Char) :
    Delimited (c :: rest) := by
  intro d hd
  cases hd
  exact h

theorem Delimited.takeWhile {rest : List Char} (h : Delimited rest) : rest.takeWhile Char.isDigit = [] := by
  cases rest with
  | nil => rfl
  | cons c cs => simp [(h c rfl).1]

theorem Delimited.dropWhile {rest : List Char} (h : Delimited rest) :
    rest.dropWhile Char.isDigit = rest := by
  cases rest with
  | nil => rfl
  | cons c cs => simp [(h c rfl).1]

theorem Delimited.scanFraction {rest : List Char} (h : Delimited rest) : scanFraction rest = ([], rest) := by
  unfold Forge.Python.scanFraction
  split
  · exact absurd rfl (h '.' rfl).2.1
  · rfl

theorem Delimited.scanExponent {rest : List Char} (h : Delimited rest) : scanExponent rest = ([], rest) := by
  cases rest with
  | nil => rfl
  | cons c cs =>
    have hLetter : ¬ (c = 'e' ∨ c = 'E') := not_or.mpr (h c rfl).2.2
    simp [Forge.Python.scanExponent, hLetter]

theorem toDigits_head {n : ℕ} (h : 0 < n) : ∃ d ds, Nat.toDigits 10 n = d :: ds ∧ d ≠ '0' := by
  induction n using Nat.strong_induction_on with
  | _ n ih =>
    by_cases hSmall : n < 10
    · rw [Nat.toDigits_of_lt_base hSmall]
      have hAll : ∀ n < 10, 0 < n → Nat.digitChar n ≠ '0' := by decide
      exact ⟨_, _, rfl, hAll n hSmall h⟩
    · rw [Nat.toDigits_of_base_le (by decide) (by omega)]
      obtain ⟨d, ds, hDigits, hNe⟩ := ih (n / 10) (by omega) (by omega)
      exact ⟨d, ds ++ [(n % 10).digitChar], by rw [hDigits]; rfl, hNe⟩

theorem scanDigits_toDigits (n : ℕ) {rest : List Char} (h : Delimited rest) :
    scanDigits (Nat.toDigits 10 n ++ rest) = some (Nat.toDigits 10 n, rest) := by
  rcases Nat.eq_zero_or_pos n with rfl | hPos
  · rfl
  · obtain ⟨d, ds, hDigits, hNe⟩ := toDigits_head hPos
    have hAll : ∀ c ∈ Nat.toDigits 10 n, c.isDigit = true := fun c hc =>
      Nat.isDigit_of_mem_toDigits (by decide) (by decide) hc
    have hTake : (Nat.toDigits 10 n ++ rest).takeWhile Char.isDigit = Nat.toDigits 10 n := by
      rw [List.takeWhile_append_of_pos hAll, h.takeWhile, List.append_nil]
    have hDrop : (Nat.toDigits 10 n ++ rest).dropWhile Char.isDigit = rest := by
      rw [List.dropWhile_append_of_pos hAll, h.dropWhile]
    unfold scanDigits
    split
    · rename_i cs hZero
      rw [hDigits] at hZero
      cases hZero
      exact absurd rfl hNe
    · rw [if_neg (by rw [hTake]; exact Nat.toDigits_ne_nil), hTake, hDrop]

theorem scanUnsigned_toDigits (repr : String → String) (negative : Bool) (n : ℕ) {rest : List Char}
    (h : Delimited rest) : scanUnsigned repr negative (Nat.toDigits 10 n ++ rest) =
      some (.int (if negative then -(n : ℤ) else n), rest) := by
  simp [scanUnsigned, scanDigits_toDigits n h, h.scanFraction, h.scanExponent]

theorem scanAtom_digit (repr : String → String) {d : Char} (h : d.isDigit = true) (cs : List Char) :
    scanAtom repr (d :: cs) = scanUnsigned repr false (d :: cs) := by
  unfold scanAtom
  split
  · rename_i hEq
    cases hEq
    exact absurd h (by decide)
  · rename_i hEq
    cases hEq
    exact absurd h (by decide)
  · rename_i hEq
    cases hEq
    exact absurd h (by decide)
  · rename_i hEq
    cases hEq
    exact absurd h (by decide)
  · rename_i hEq
    cases hEq
    exact absurd h (by decide)
  · rename_i hEq
    cases hEq
    exact absurd h (by decide)
  · rename_i hEq
    cases hEq
    exact absurd h (by decide)
  · rfl

theorem scanAtom_minus (repr : String → String) {d : Char} (h : d.isDigit = true) (cs : List Char) :
    scanAtom repr ('-' :: d :: cs) = scanUnsigned repr true (d :: cs) := by
  have hNot : d ≠ 'I' := by
    rintro rfl
    exact absurd h (by decide)
  simp [scanAtom, hNot]

theorem scanAtom_int (repr : String → String) (n : ℤ) {rest : List Char} (h : Delimited rest) :
    scanAtom repr ((toString n).toList ++ rest) = some (.int n, rest) := by
  have hHead : ∀ m : ℕ, ∃ d ds, Nat.toDigits 10 m = d :: ds ∧ d.isDigit = true := by
    intro m
    obtain ⟨d, ds, hDigits⟩ := List.exists_cons_of_ne_nil (Nat.toDigits_ne_nil (n := m) (b := 10))
    refine ⟨d, ds, hDigits, Nat.isDigit_of_mem_toDigits (b := 10) (n := m) (by decide) (by decide) ?_⟩
    rw [hDigits]
    exact List.mem_cons_self
  cases n with
  | ofNat m =>
    have hText : (toString (Int.ofNat m)).toList = Nat.toDigits 10 m := Nat.toList_repr
    obtain ⟨d, ds, hDigits, hDigit⟩ := hHead m
    have hScan := scanUnsigned_toDigits repr false m h
    rw [hText, hDigits, List.cons_append, scanAtom_digit repr hDigit, ← List.cons_append, ← hDigits, hScan]
    rfl
  | negSucc m =>
    have hText : (toString (Int.negSucc m)).toList = '-' :: Nat.toDigits 10 (m + 1) := by
      change ("-" ++ Nat.repr (m + 1)).toList = _
      rw [String.toList_append, Nat.toList_repr]
      rfl
    obtain ⟨d, ds, hDigits, hDigit⟩ := hHead (m + 1)
    have hScan := scanUnsigned_toDigits repr true (m + 1) h
    rw [hText, hDigits, List.cons_append, List.cons_append, scanAtom_minus repr hDigit, ← List.cons_append,
      ← hDigits, hScan]
    rfl

/-! ## Values -/

mutual
def Canonical (repr : String → String) : Json → Prop
  | .float text => IsFloatText repr text
  | .arr items => CanonicalItems repr items
  | .obj members => (members.map Prod.fst).Nodup ∧ CanonicalMembers repr members
  | .surrogates _ => False
  | .surrogateKeys _ => False
  | _ => True

def CanonicalItems (repr : String → String) : List Json → Prop
  | [] => True
  | item :: items => Canonical repr item ∧ CanonicalItems repr items

def CanonicalMembers (repr : String → String) : List (String × Json) → Prop
  | [] => True
  | (_, value) :: members => Canonical repr value ∧ CanonicalMembers repr members
end

theorem skipSpace_cons {c : Char} (h : isJsonSpace c = false) (cs : List Char) :
    skipSpace (c :: cs) = c :: cs := by
  simp [skipSpace, h]

theorem scanAtom_none (repr : String → String) {c : Char}
    (h : c ∈ [' ', '\t', '\n', '\r', ']', '"', '[', '{']) (cs : List Char) :
    scanAtom repr (c :: cs) = none := by
  simp only [List.mem_cons, List.not_mem_nil, or_false] at h
  rcases h with rfl | rfl | rfl | rfl | rfl | rfl | rfl | rfl <;>
    simp [scanAtom, scanUnsigned, scanDigits]

theorem scanAtom_head {repr : String → String} {cs : List Char} {r : Json × List Char}
    (h : scanAtom repr cs = some r) :
    ∃ d ds, cs = d :: ds ∧ d ∉ [' ', '\t', '\n', '\r', ']', '"', '[', '{'] := by
  cases cs with
  | nil => cases h
  | cons d ds =>
    refine ⟨d, ds, rfl, fun hMem => ?_⟩
    rw [scanAtom_none repr hMem ds] at h
    cases h

/-- What is scanned as an atom, and starts like one. -/
structure IsAtomText (repr : String → String) (value : Json) (text : List Char) : Prop where
  scan : ∀ rest, Delimited rest → scanAtom repr (text ++ rest) = some (value, rest)
  head : ∃ d ds, text = d :: ds ∧ d ∉ [' ', '\t', '\n', '\r', ']', '"', '[', '{']

theorem isAtomText_of_scan {repr : String → String} {value : Json} {text : List Char}
    (h : ∀ rest, Delimited rest → scanAtom repr (text ++ rest) = some (value, rest)) :
    IsAtomText repr value text := by
  have hWhole := h [] delimited_nil
  rw [List.append_nil] at hWhole
  exact ⟨h, scanAtom_head hWhole⟩

theorem isAtomText_int (repr : String → String) (n : ℤ) :
    IsAtomText repr (.int n) (toString n).toList :=
  isAtomText_of_scan fun _ hRest => scanAtom_int repr n hRest

theorem IsFloatText.isAtomText {repr : String → String} {text : String} (h : IsFloatText repr text) :
    IsAtomText repr (.float text) text.toList :=
  isAtomText_of_scan h

/-- A value starts neither with a space nor with the bracket that ends an array. -/
theorem encode_head {repr : String → String} (sep : Separators) {value : Json}
    (h : Canonical repr value) :
    ∃ c cs, encode sep value = c :: cs ∧ isJsonSpace c = false ∧ c ≠ ']' := by
  have hAtom : ∀ {value text}, IsAtomText repr value text →
      ∃ c cs, text = c :: cs ∧ isJsonSpace c = false ∧ c ≠ ']' := by
    intro value text hText
    obtain ⟨d, ds, hEq, hNot⟩ := hText.head
    simp only [List.mem_cons, List.not_mem_nil, or_false, not_or] at hNot
    exact ⟨d, ds, hEq, by simp [isJsonSpace, hNot], hNot.2.2.2.2.1⟩
  cases value with
  | null => exact ⟨_, _, rfl, by decide, by decide⟩
  | bool b =>
    cases b with
    | false => exact ⟨_, _, rfl, by decide, by decide⟩
    | true => exact ⟨_, _, rfl, by decide, by decide⟩
  | int n => exact hAtom (isAtomText_int repr n)
  | float text => exact hAtom (IsFloatText.isAtomText h)
  | str s => exact ⟨_, _, rfl, by decide, by decide⟩
  | arr items =>
    cases items with
    | nil => exact ⟨_, _, rfl, by decide, by decide⟩
    | cons item items => exact ⟨_, _, rfl, by decide, by decide⟩
  | obj members =>
    cases members with
    | nil => exact ⟨_, _, rfl, by decide, by decide⟩
    | cons entry members => exact ⟨_, _, rfl, by decide, by decide⟩
  | surrogates points => exact h.elim
  | surrogateKeys members => exact h.elim

theorem IsAtomText.scanOnce {repr : String → String} {value : Json} {text : List Char}
    (h : IsAtomText repr value text) {rest : List Char} (hRest : Delimited rest) (fuel : ℕ) :
    scanOnce repr (fuel + 1) (text ++ rest) = some (value, rest) := by
  have hScan := h.scan rest hRest
  obtain ⟨d, ds, rfl, hNot⟩ := h.head
  simp only [List.mem_cons, List.not_mem_nil, or_false, not_or] at hNot
  rw [List.cons_append] at hScan ⊢
  rw [Forge.Python.scanOnce, if_neg hNot.2.2.2.2.2.1, if_neg hNot.2.2.2.2.2.2.1,
    if_neg hNot.2.2.2.2.2.2.2, hScan]

/-! ## Whole texts -/

theorem delimited_encodeItems (sep : Separators) (items : List Json) (rest : List Char) :
    Delimited (encodeItems sep items ++ rest) := by
  cases items with
  | nil => exact delimited_cons (by decide) rest
  | cons item items =>
    cases sep with
    | default => exact delimited_cons (by decide) _
    | compact => exact delimited_cons (by decide) _

theorem delimited_encodeMembers (sep : Separators) (members : List (String × Json)) (rest : List Char) :
    Delimited (encodeMembers sep members ++ rest) := by
  cases members with
  | nil => exact delimited_cons (by decide) rest
  | cons entry members =>
    cases sep with
    | default => exact delimited_cons (by decide) _
    | compact => exact delimited_cons (by decide) _

theorem encodeItems_length_pos (sep : Separators) (items : List Json) :
    0 < (encodeItems sep items).length := by
  cases items with
  | nil => exact Nat.one_pos
  | cons item items => cases sep <;> exact Nat.succ_pos _

theorem encodeMembers_length_pos (sep : Separators) (members : List (String × Json)) :
    0 < (encodeMembers sep members).length := by
  cases members with
  | nil => exact Nat.one_pos
  | cons entry members => cases sep <;> exact Nat.succ_pos _

/-- A value after the space that a separator may bring. -/
theorem skipSpace_encode {repr : String → String} (sep : Separators) {value : Json}
    (h : Canonical repr value) (space rest : List Char) (hSpace : ∀ c ∈ space, isJsonSpace c = true) :
    skipSpace (space ++ (encode sep value ++ rest)) = encode sep value ++ rest := by
  obtain ⟨c, cs, hEq, hHead, -⟩ := encode_head sep h
  rw [skipSpace, List.dropWhile_append_of_pos hSpace, hEq, List.cons_append]
  exact skipSpace_cons hHead _

theorem item_eq (sep : Separators) :
    ∃ space, sep.item = ',' :: space ∧ ∀ c ∈ space, isJsonSpace c = true := by
  cases sep with
  | default => exact ⟨[' '], rfl, by simp [isJsonSpace]⟩
  | compact => exact ⟨[], rfl, by simp⟩

theorem key_eq (sep : Separators) :
    ∃ space, sep.key = ':' :: space ∧ ∀ c ∈ space, isJsonSpace c = true := by
  cases sep with
  | default => exact ⟨[' '], rfl, by simp [isJsonSpace]⟩
  | compact => exact ⟨[], rfl, by simp⟩

theorem quoted_append (s : String) (rest : List Char) :
    quoted s ++ rest = '"' :: (s.toList.flatMap escapeChar ++ '"' :: rest) := by
  simp [quoted]

theorem skipSpace_quoted (s : String) (space rest : List Char) (hSpace : ∀ c ∈ space, isJsonSpace c = true) :
    skipSpace (space ++ (quoted s ++ rest)) = quoted s ++ rest := by
  rw [skipSpace, List.dropWhile_append_of_pos hSpace, quoted_append]
  exact skipSpace_cons (by decide) _

theorem encode_length_pos {repr : String → String} (sep : Separators) {value : Json}
    (h : Canonical repr value) : 0 < (encode sep value).length := by
  obtain ⟨c, cs, hEq, -⟩ := encode_head sep h
  rw [hEq]
  exact Nat.succ_pos _

section
variable {repr : String → String} {fuel : ℕ} {item value : Json} {key : List ℕ}
  {cs rest rest' rest'' : List Char}

theorem scanItems_last (hItem : scanOnce repr fuel cs = some (item, rest))
    (hEnd : skipSpace rest = ']' :: rest') : scanItems repr (fuel + 1) cs = some ([item], rest') := by
  simp only [scanItems, hItem, hEnd]

theorem scanItems_more (hItem : scanOnce repr fuel cs = some (item, rest))
    (hComma : skipSpace rest = ',' :: rest') : scanItems repr (fuel + 1) cs =
      (scanItems repr fuel (skipSpace rest')).map fun r => (item :: r.1, r.2) := by
  simp only [scanItems, hItem, hComma]

theorem scanMembers_last (hKey : scanString cs = some (key, rest)) (hColon : skipSpace rest = ':' :: rest')
    (hValue : scanOnce repr fuel (skipSpace rest') = some (value, rest''))
    {end' : List Char} (hEnd : skipSpace rest'' = '}' :: end') :
    scanMembers repr (fuel + 1) ('"' :: cs) = some ([(key, value)], end') := by
  simp only [scanMembers, hKey, hColon, hValue, hEnd]

theorem scanMembers_more (hKey : scanString cs = some (key, rest)) (hColon : skipSpace rest = ':' :: rest')
    (hValue : scanOnce repr fuel (skipSpace rest') = some (value, rest''))
    {next : List Char} (hComma : skipSpace rest'' = ',' :: next) :
    scanMembers repr (fuel + 1) ('"' :: cs) =
      (scanMembers repr fuel (skipSpace next)).map fun r => ((key, value) :: r.1, r.2) := by
  simp only [scanMembers, hKey, hColon, hValue, hComma]

end

variable {repr : String → String} (sep : Separators)

mutual
theorem scanOnce_encode (value : Json) (fuel : ℕ) (rest : List Char) (h : Canonical repr value)
    (hFuel : 2 * (encode sep value).length ≤ fuel) (hRest : Delimited rest) :
    scanOnce repr fuel (encode sep value ++ rest) = some (value, rest) := by
  have hPos := encode_length_pos sep h
  obtain ⟨fuel, rfl⟩ : ∃ n, fuel = n + 1 := ⟨fuel - 1, by omega⟩
  cases value with
  | null => rfl
  | bool b => cases b <;> rfl
  | int n => exact (isAtomText_int repr n).scanOnce hRest fuel
  | float text => exact (IsFloatText.isAtomText h).scanOnce hRest fuel
  | str s =>
    have hScan := scanString_quoted s rest
    simp only [encode, quoted, List.cons_append, List.append_assoc, List.nil_append]
    rw [scanOnce, if_pos rfl, hScan, Option.map_some, ofPoints_pointsOf]
  | arr items =>
    cases items with
    | nil => rfl
    | cons item items =>
      have hItems := scanItems_encode item items fuel rest h.1 h.2 (by
        simp only [encode, List.length_cons, List.length_append] at hFuel
        omega)
      obtain ⟨c, cs, hEq, hHead, hBracket⟩ := encode_head sep h.1
      simp only [encode, List.cons_append, List.append_assoc]
      rw [scanOnce, if_neg (by decide), if_pos rfl]
      rw [hEq, List.cons_append] at hItems ⊢
      rw [skipSpace_cons hHead]
      split
      · rename_i hClash
        cases hClash
        exact absurd rfl hBracket
      · rw [hItems]
        rfl
  | obj members =>
    cases members with
    | nil => rfl
    | cons entry members =>
      obtain ⟨key, value⟩ := entry
      have hMembers := scanMembers_encode key value members fuel rest h.2.1 h.2.2 (by
        simp only [encode, List.length_cons, List.length_append] at hFuel ⊢
        omega)
      simp only [encode, List.cons_append, List.append_assoc]
      rw [scanOnce, if_neg (by decide), if_neg (by decide), if_pos rfl]
      rw [quoted_append] at hMembers ⊢
      rw [skipSpace_cons (by decide)]
      split
      · rename_i hClash
        cases hClash
      · rw [hMembers, Option.map_some, ofMembers_pointsOf h.1]
  | surrogates points => exact h.elim
  | surrogateKeys members => exact h.elim
termination_by fuel

theorem scanItems_encode (item : Json) (items : List Json) (fuel : ℕ) (rest : List Char)
    (h : Canonical repr item) (hItems : CanonicalItems repr items)
    (hFuel : 2 * ((encode sep item).length + (encodeItems sep items).length) ≤ fuel) :
    scanItems repr fuel (encode sep item ++ (encodeItems sep items ++ rest)) =
      some (item :: items, rest) := by
  have hPos := encode_length_pos sep h
  have hEnd := encodeItems_length_pos sep items
  obtain ⟨fuel, rfl⟩ : ∃ n, fuel = n + 1 := ⟨fuel - 1, by omega⟩
  have hScan := scanOnce_encode item fuel (encodeItems sep items ++ rest) h (by omega)
    (delimited_encodeItems sep items rest)
  cases items with
  | nil => exact scanItems_last hScan (skipSpace_cons (by decide) rest)
  | cons next items =>
    obtain ⟨space, hItem, hSpace⟩ := item_eq sep
    have hTail := scanItems_encode next items fuel rest hItems.1 hItems.2 (by
      simp only [encodeItems, hItem, List.length_cons, List.length_append] at hFuel
      omega)
    have hComma : skipSpace (encodeItems sep (next :: items) ++ rest) =
        ',' :: (space ++ (encode sep next ++ (encodeItems sep items ++ rest))) := by
      simp only [encodeItems, hItem, List.cons_append, List.append_assoc]
      exact skipSpace_cons (by decide) _
    rw [scanItems_more hScan hComma, skipSpace_encode sep hItems.1 space _ hSpace, hTail]
    rfl
termination_by fuel

theorem scanMembers_encode (key : String) (value : Json) (members : List (String × Json)) (fuel : ℕ)
    (rest : List Char) (h : Canonical repr value) (hMembers : CanonicalMembers repr members)
    (hFuel : 2 * ((quoted key).length + (encode sep value).length + (encodeMembers sep members).length) ≤
      fuel) :
    scanMembers repr fuel
      (quoted key ++ (sep.key ++ (encode sep value ++ (encodeMembers sep members ++ rest)))) =
      some (((key, value) :: members).map fun entry => (pointsOf entry.1, entry.2), rest) := by
  have hPos := encode_length_pos sep h
  have hEnd := encodeMembers_length_pos sep members
  obtain ⟨fuel, rfl⟩ : ∃ n, fuel = n + 1 := ⟨fuel - 1, by omega⟩
  obtain ⟨keySpace, hKey, hKeySpace⟩ := key_eq sep
  have hScan := scanOnce_encode value fuel (encodeMembers sep members ++ rest) h (by omega)
    (delimited_encodeMembers sep members rest)
  rw [← skipSpace_encode sep h keySpace _ hKeySpace] at hScan
  have hColon : skipSpace (sep.key ++ (encode sep value ++ (encodeMembers sep members ++ rest))) =
      ':' :: (keySpace ++ (encode sep value ++ (encodeMembers sep members ++ rest))) := by
    rw [hKey, List.cons_append]
    exact skipSpace_cons (by decide) _
  rw [quoted_append]
  cases members with
  | nil =>
    exact scanMembers_last (scanString_quoted key _) hColon hScan (skipSpace_cons (by decide) rest)
  | cons next members =>
    obtain ⟨nextKey, nextValue⟩ := next
    obtain ⟨space, hItem, hSpace⟩ := item_eq sep
    have hTail := scanMembers_encode nextKey nextValue members fuel rest hMembers.1 hMembers.2 (by
      simp only [encodeMembers, hItem, List.length_cons, List.length_append] at hFuel
      omega)
    have hComma : skipSpace (encodeMembers sep ((nextKey, nextValue) :: members) ++ rest) =
        ',' :: (space ++ (quoted nextKey ++ (sep.key ++ (encode sep nextValue ++
          (encodeMembers sep members ++ rest))))) := by
      simp only [encodeMembers, hItem, List.cons_append, List.append_assoc]
      exact skipSpace_cons (by decide) _
    rw [scanMembers_more (scanString_quoted key _) hColon hScan hComma,
      skipSpace_quoted nextKey space _ hSpace, hTail]
    rfl
termination_by fuel
end

theorem decode_encode {value : Json} (h : Canonical repr value) :
    decode repr (encode sep value) = some value := by
  have hScan := scanOnce_encode sep value (2 * (encode sep value).length + 2) [] h (by omega) delimited_nil
  have hSkip := skipSpace_encode sep h [] [] (fun _ hc => (List.not_mem_nil hc).elim)
  rw [List.append_nil] at hScan hSkip
  rw [List.nil_append] at hSkip
  rw [decode, hSkip, hScan]
  rfl

/-! ## What is scanned -/

theorem canonicalItems_iff {items : List Json} :
    CanonicalItems repr items ↔ ∀ item ∈ items, Canonical repr item := by
  induction items with
  | nil => simp [CanonicalItems]
  | cons item items ih => simp [CanonicalItems, ih]

theorem canonicalMembers_iff {members : List (String × Json)} :
    CanonicalMembers repr members ↔ ∀ entry ∈ members, Canonical repr entry.2 := by
  induction members with
  | nil => simp [CanonicalMembers]
  | cons entry members ih =>
    obtain ⟨key, value⟩ := entry
    simp [CanonicalMembers, ih]

theorem scanUnsigned_canonical (floats : FloatRepr) {negative : Bool} {cs rest : List Char} {value : Json}
    (h : scanUnsigned floats.repr negative cs = some (value, rest)) : Canonical floats.repr value := by
  unfold scanUnsigned at h
  split at h
  · cases h
  · simp only at h
    split at h
    · cases h
      trivial
    · cases h
      exact floats.isFloatText _

theorem scanAtom_canonical (floats : FloatRepr) {cs rest : List Char} {value : Json}
    (h : scanAtom floats.repr cs = some (value, rest)) : Canonical floats.repr value := by
  unfold scanAtom at h
  split at h
  · cases h
    trivial
  · cases h
    trivial
  · cases h
    trivial
  · cases h
    exact fun _ _ => rfl
  · cases h
    exact fun _ _ => rfl
  · cases h
    exact fun _ _ => rfl
  · exact scanUnsigned_canonical floats h
  · exact scanUnsigned_canonical floats h

theorem withTexts?_members {members : List (List ℕ × Json)} {texts : List (String × Json)}
    (h : withTexts? members = some texts) : texts.map Prod.snd = members.map Prod.snd := by
  induction members generalizing texts with
  | nil =>
    cases h
    rfl
  | cons entry members ih =>
    obtain ⟨key, value⟩ := entry
    rw [withTexts?] at h
    split at h
    · rename_i text others hText hOthers
      cases h
      rw [List.map_cons, List.map_cons, ih hOthers]
    · cases h

theorem ofPoints_canonical {points : List ℕ} (h : isRenderable (Json.ofPoints points) = true) :
    Canonical repr (Json.ofPoints points) := by
  unfold Json.ofPoints at h ⊢
  split at h
  · trivial
  · cases h

theorem ofMembers_canonical {members : List (List ℕ × Json)}
    (hMembers : ∀ entry ∈ members, isRenderable entry.2 = true → Canonical repr entry.2)
    (h : isRenderable (Json.ofMembers members) = true) : Canonical repr (Json.ofMembers members) := by
  unfold Json.ofMembers at h ⊢
  split at h
  · rename_i texts hTexts
    refine ⟨(Dict.ofList texts).nodup, canonicalMembers_iff.mpr fun entry hEntry => ?_⟩
    have hValue : entry.2 ∈ members.map Prod.snd := by
      rw [← withTexts?_members hTexts]
      exact List.mem_map_of_mem (Dict.mem_of_mem_ofList hEntry)
    obtain ⟨member, hMember, hSame⟩ := List.mem_map.mp hValue
    have hRenderable := haveRenderable_iff.mp h entry hEntry
    rw [← hSame] at hRenderable ⊢
    exact hMembers member hMember hRenderable
  · cases h

/-- With each amount of fuel, what the three scanners build is canonical if it can be rendered. -/
theorem scan_canonical (floats : FloatRepr) (fuel : ℕ) :
    (∀ cs value rest, scanOnce floats.repr fuel cs = some (value, rest) →
        isRenderable value = true → Canonical floats.repr value) ∧
      (∀ cs items rest, scanItems floats.repr fuel cs = some (items, rest) →
        ∀ item ∈ items, isRenderable item = true → Canonical floats.repr item) ∧
      ∀ cs members rest, scanMembers floats.repr fuel cs = some (members, rest) →
        ∀ entry ∈ members, isRenderable entry.2 = true → Canonical floats.repr entry.2 := by
  induction fuel with
  | zero =>
    refine ⟨?_, ?_, ?_⟩
    · intro cs value rest h
      cases h
    · intro cs items rest h
      cases h
    · intro cs members rest h
      cases h
  | succ fuel ih =>
    obtain ⟨ihOnce, ihItems, ihMembers⟩ := ih
    refine ⟨?_, ?_, ?_⟩
    · intro cs value rest h hRenderable
      cases cs with
      | nil => cases h
      | cons c cs =>
        rw [scanOnce] at h
        split at h
        · obtain ⟨r, -, hEq⟩ := Option.map_eq_some_iff.mp h
          cases hEq
          exact ofPoints_canonical hRenderable
        · split at h
          · split at h
            · cases h
              trivial
            · obtain ⟨r, hScan, hEq⟩ := Option.map_eq_some_iff.mp h
              cases hEq
              exact canonicalItems_iff.mpr fun item hItem =>
                ihItems _ _ _ hScan item hItem (areRenderable_iff.mp hRenderable item hItem)
          · split at h
            · split at h
              · cases h
                exact ⟨List.nodup_nil, trivial⟩
              · obtain ⟨r, hScan, hEq⟩ := Option.map_eq_some_iff.mp h
                cases hEq
                exact ofMembers_canonical (ihMembers _ _ _ hScan) hRenderable
            · exact scanAtom_canonical floats h
    · intro cs items rest h
      rw [scanItems] at h
      split at h
      · cases h
      · rename_i item rest' hItem
        have hHead := ihOnce _ _ _ hItem
        split at h
        · cases h
          simpa using hHead
        · obtain ⟨r, hScan, hEq⟩ := Option.map_eq_some_iff.mp h
          cases hEq
          exact List.forall_mem_cons.mpr ⟨hHead, ihItems _ _ _ hScan⟩
        · cases h
    · intro cs members rest h
      rw [scanMembers.eq_def] at h
      dsimp only at h
      split at h
      · split at h
        · cases h
        · split at h
          · split at h
            · cases h
            · rename_i value rest' hValue
              have hHead := ihOnce _ _ _ hValue
              split at h
              · cases h
                simpa using hHead
              · obtain ⟨r, hScan, hEq⟩ := Option.map_eq_some_iff.mp h
                cases hEq
                exact List.forall_mem_cons.mpr ⟨hHead, ihMembers _ _ _ hScan⟩
              · cases h
          · cases h
      · cases h

theorem decode_canonical (floats : FloatRepr) {cs : List Char} {value : Json}
    (h : decode floats.repr cs = some value) (hRenderable : isRenderable value = true) :
    Canonical floats.repr value := by
  unfold decode at h
  split at h
  · cases h
  · rename_i value' rest hScan
    split at h
    · cases h
      exact (scan_canonical floats _).1 _ _ _ hScan hRenderable
    · cases h

theorem loads_dumps (floats : FloatRepr) (sep : Separators) {value : Json}
    (h : Canonical floats.repr value) : floats.loads (dumps sep value) = .ok value := by
  simp only [FloatRepr.loads, dumps, String.toList_ofList, decode_encode sep h]

theorem loads_canonical (floats : FloatRepr) {text : String} {value : Json}
    (h : floats.loads text = .ok value) (hRenderable : isRenderable value = true) :
    Canonical floats.repr value := by
  unfold FloatRepr.loads at h
  split at h
  · cases h
  · rename_i hDecode
    cases h
    exact decode_canonical floats hDecode hRenderable

theorem isPrintable_escapeChar (c : Char) : ∀ d ∈ escapeChar c, isPrintable d = true := by
  have hUnit : ∀ n, ∀ d ∈ unicodeEscape n, isPrintable d = true := by
    intro n d hd
    have hDigit : ∀ m < 16, isPrintable (Nat.digitChar m) = true := by decide
    simp only [unicodeEscape, hexUnit, List.mem_cons, List.not_mem_nil, or_false] at hd
    rcases hd with rfl | rfl | rfl | rfl | rfl | rfl
    · decide
    · decide
    · exact hDigit _ (Nat.mod_lt _ (by decide))
    · exact hDigit _ (Nat.mod_lt _ (by decide))
    · exact hDigit _ (Nat.mod_lt _ (by decide))
    · exact hDigit _ (Nat.mod_lt _ (by decide))
  intro d hd
  unfold escapeChar at hd
  split at hd
  · rename_i letter hLetter
    have hAll : ∀ entry ∈ shortEscapes, isPrintable entry.2 = true := by decide
    obtain ⟨before, after, hSplit, -⟩ := List.lookup_eq_some_iff.mp hLetter
    rcases List.mem_pair.mp hd with rfl | rfl
    · decide
    · exact hAll (c, d) (by simp [hSplit])
  · split at hd
    · rename_i hPrintable
      exact List.mem_singleton.mp hd ▸ hPrintable
    · split at hd
      · exact hUnit _ d hd
      · cases List.mem_append.mp hd with
        | inl hHigh => exact hUnit _ d hHigh
        | inr hLow => exact hUnit _ d hLow

theorem isPrintable_quoted (s : String) : ∀ d ∈ quoted s, isPrintable d = true := by
  intro d hd
  simp only [quoted, List.mem_cons, List.mem_append, List.mem_flatMap, List.not_mem_nil, or_false] at hd
  rcases hd with rfl | ⟨c, -, hEscaped⟩ | rfl
  · decide
  · exact isPrintable_escapeChar c d hEscaped
  · decide

/-- Takes every float for zero, which is right for texts without floats. -/
def zeroFloats : FloatRepr where
  repr _ := "0.0"
  isFloatText literal rest hRest := by
    change scanAtom _ ('0' :: '.' :: '0' :: rest) = _
    simp [scanAtom_digit, scanUnsigned, scanDigits, Forge.Python.scanFraction, hRest.takeWhile,
      hRest.dropWhile, hRest.scanExponent]

end Forge.Python
