import Mathlib.Data.Int.Log
import Mathlib.Data.Rat.Floor
import Mathlib.Tactic.FieldSimp
import Mathlib.Tactic.Ring
import Forge.Python.Text

/-! # Floats

Values of `float` as rationals, infinities and NaN, without the sign of zero. A text or an integer is
rounded to the nearest value of binary64, ties to even; `floatText?` is the value of a text before it is
rounded.
-/
namespace Forge.Python
set_option autoImplicit false

inductive PyFloat where
  | finite (value : ℚ)
  | inf (negative : Bool)
  | nan
  deriving DecidableEq

/-- `TypeError`, `ValueError` and `OverflowError` of `float` and `int`, without their texts. -/
inductive NumberError where
  | typeError
  | valueError
  | overflowError
  deriving DecidableEq

/-! ## Reading -/

/-- A text without its underscores, each of which stands between two digits. -/
def withoutUnderscores (afterDigit : Bool) : List Char → Option (List Char)
  | [] => some []
  | '_' :: [] => none
  | '_' :: c :: cs =>
    if afterDigit && isDecimal c then (withoutUnderscores true cs).map (c :: ·) else none
  | c :: cs => (withoutUnderscores (isDecimal c) cs).map (c :: ·)

def digitRun? (ds : List Char) : Option Nat :=
  if ds ≠ [] ∧ ds.all isDecimal then some (digitsValue (String.ofList ds)) else none

def exponent? : List Char → Option Int
  | [] => some 0
  | c :: '-' :: ds => if c = 'e' ∨ c = 'E' then (digitRun? ds).map fun n => -(n : Int) else none
  | c :: '+' :: ds => if c = 'e' ∨ c = 'E' then (digitRun? ds).map fun n => (n : Int) else none
  | c :: ds => if c = 'e' ∨ c = 'E' then (digitRun? ds).map fun n => (n : Int) else none

/-- `digits[.digits][e[sign]digits]` with a digit before or after the point. -/
def decimal? (cs : List Char) : Option ℚ :=
  let whole := cs.takeWhile isDecimal
  let rest := cs.dropWhile isDecimal
  let fraction := if rest.head? == some '.' then rest.tail.takeWhile isDecimal else []
  let rest := if rest.head? == some '.' then rest.tail.dropWhile isDecimal else rest
  if whole ++ fraction == [] then none
  else
    (exponent? rest).map fun exponent : Int =>
      (digitsValue (String.ofList (whole ++ fraction)) : ℚ) * 10 ^ (exponent - fraction.length)

def magnitude? (cs : List Char) : Option PyFloat :=
  let name := String.ofList (cs.map Char.toLower)
  if name == "inf" || name == "infinity" then some (.inf false)
  else if name == "nan" then some .nan
  else (decimal? cs).map .finite

def PyFloat.neg : PyFloat → PyFloat
  | .finite value => .finite (-value)
  | .inf negative => .inf !negative
  | .nan => .nan

/-- The exact value of a text that `float` reads. -/
def floatText? (s : String) : Option PyFloat :=
  match withoutUnderscores false (stripBy isNumberSpace s.toList) with
  | none => none
  | some ('-' :: cs) => (magnitude? cs).map PyFloat.neg
  | some ('+' :: cs) => magnitude? cs
  | some cs => magnitude? cs

/-! ## Rounding -/

def roundHalfEven (x : ℚ) : Int :=
  let below := ⌊x⌋
  let rest := x - below
  if rest < 1 / 2 then below
  else if 1 / 2 < rest then below + 1
  else if below % 2 = 0 then below
  else below + 1

/-- The unit in the last place of a positive number is a power of two with this exponent. -/
def ulpExponent (x : ℚ) : Int := max (Int.log 2 x - 52) (-1074)

def roundDouble (x : ℚ) : PyFloat :=
  if x = 0 then .finite 0
  else
    let exponent := ulpExponent |x|
    let rounded := (roundHalfEven (|x| / 2 ^ exponent) : ℚ) * 2 ^ exponent
    if 2 ^ 1024 ≤ rounded then .inf (x < 0)
    else .finite (if x < 0 then -rounded else rounded)

/-- `float(s)` for a text. -/
def floatOfText (s : String) : Except NumberError PyFloat :=
  match floatText? s with
  | none => .error .valueError
  | some (.finite value) => .ok (roundDouble value)
  | some other => .ok other

/-- `float(n)` for an integer. -/
def floatOfInt (n : Int) : Except NumberError PyFloat :=
  match roundDouble n with
  | .finite value => .ok (.finite value)
  | _ => .error .overflowError

/-! ## Arithmetic -/

/-- `int(x)` -/
def PyFloat.toInt : PyFloat → Except NumberError Int
  | .finite value => .ok (if value < 0 then ⌈value⌉ else ⌊value⌋)
  | .inf _ => .error .overflowError
  | .nan => .error .valueError

/-- `x <= 0` -/
def PyFloat.nonpos : PyFloat → Bool
  | .finite value => value ≤ 0
  | .inf negative => negative
  | .nan => false

/-- The exact product with a positive integer. -/
def PyFloat.times (x : PyFloat) (n : Nat) : PyFloat :=
  match x with
  | .finite value => .finite (value * n)
  | other => other

/-! ## Texts of digits -/

theorem withoutUnderscores_eq {cs : List Char} (h : '_' ∉ cs) (afterDigit : Bool) :
    withoutUnderscores afterDigit cs = some cs := by
  induction cs generalizing afterDigit with
  | nil => rfl
  | cons c cs ih =>
    rw [List.mem_cons, not_or] at h
    rw [withoutUnderscores, ih h.2, Option.map_some]
    · rintro rfl
      exact absurd rfl h.1
    · rintro d ds rfl
      exact absurd rfl h.1

theorem digitsValue_append (a b : List Char) : digitsValue (String.ofList (a ++ b)) =
    digitsValue (String.ofList a) * 10 ^ b.length + digitsValue (String.ofList b) := by
  simp only [digitsValue, String.toList_ofList, List.foldl_append]
  generalize a.foldl (fun acc c => acc * 10 + (decimalValue? c).getD 0) 0 = acc
  induction b using List.reverseRecOn with
  | nil => simp
  | append_singleton b c ih =>
    rw [List.foldl_append, List.foldl_append, List.foldl_cons, List.foldl_nil, ih, List.length_append,
      List.foldl_cons, List.foldl_nil]
    simp [pow_succ]
    ring

theorem takeWhile_isDecimal {ds : List Char} (h : ∀ c ∈ ds, isDecimal c = true) (rest : List Char)
    (hRest : rest.head?.all (fun c => !isDecimal c) = true) :
    (ds ++ rest).takeWhile isDecimal = ds ∧ (ds ++ rest).dropWhile isDecimal = rest := by
  rw [List.takeWhile_append_of_pos h, List.dropWhile_append_of_pos h]
  cases rest with
  | nil => simp
  | cons c cs =>
    have hc : ¬ isDecimal c = true := by simpa using hRest
    rw [List.takeWhile_cons_of_neg hc, List.dropWhile_cons_of_neg hc, List.append_nil]
    exact ⟨rfl, rfl⟩

/-- The number that is written with these digits before and after the point. -/
def decimalNumber (whole fraction : List Char) : ℚ :=
  (digitsValue (String.ofList whole) : ℚ) + (digitsValue (String.ofList fraction) : ℚ) / 10 ^ fraction.length

/-- The fraction of a text, with its point if there is one. -/
def fractionText (fraction : List Char) : List Char := if fraction = [] then [] else '.' :: fraction

section
variable {whole fraction : List Char}

theorem decimal?_digits (hWhole : ∀ c ∈ whole, isDecimal c = true) (hNonempty : whole ≠ [])
    (hFraction : ∀ c ∈ fraction, isDecimal c = true) :
    decimal? (whole ++ fractionText fraction) = some (decimalNumber whole fraction) := by
  have hValue : (digitsValue (String.ofList (whole ++ fraction)) : ℚ) * 10 ^ ((0 : ℤ) - fraction.length) =
      decimalNumber whole fraction := by
    rw [digitsValue_append, zero_sub, zpow_neg, zpow_natCast, decimalNumber]
    push_cast
    field_simp
  unfold decimal? fractionText
  cases fraction with
  | nil =>
    obtain ⟨hTake, hDrop⟩ := takeWhile_isDecimal hWhole [] rfl
    simp only [if_pos, hTake, hDrop]
    rw [List.append_nil] at hValue
    simpa [hNonempty, exponent?] using hValue
  | cons d ds =>
    rw [if_neg (List.cons_ne_nil d ds)]
    obtain ⟨hTake, hDrop⟩ := takeWhile_isDecimal hWhole ('.' :: d :: ds) rfl
    obtain ⟨hTake', hDrop'⟩ := takeWhile_isDecimal hFraction [] rfl
    rw [List.append_nil] at hTake' hDrop'
    simp only [hTake, hDrop, List.head?_cons, List.tail_cons, hTake', hDrop', beq_self_eq_true, if_true,
      exponent?, Option.map_some, hValue]
    rw [if_neg (by simp)]

theorem magnitude?_digits (hWhole : ∀ c ∈ whole, isDecimal c = true) (hNonempty : whole ≠ [])
    (hFraction : ∀ c ∈ fraction, isDecimal c = true) :
    magnitude? (whole ++ fractionText fraction) = some (.finite (decimalNumber whole fraction)) := by
  obtain ⟨c, cs, rfl⟩ := List.exists_cons_of_ne_nil hNonempty
  have hDecimal := hWhole c List.mem_cons_self
  have hSame : c.toLower = c := of_isDecimal hDecimal (P := fun c => c.toLower = c) (by decide +kernel)
  have hLower : isDecimal c.toLower = true := by rw [hSame, hDecimal]
  have hName : ∀ {name : String} {d : Char} {ds : List Char}, name.toList = d :: ds → isDecimal d = false →
      (String.ofList ((c :: cs ++ fractionText fraction).map Char.toLower) == name) = false := by
    intro name d ds hText hd
    rw [beq_eq_false_iff_ne]
    rintro rfl
    rw [String.toList_ofList, List.cons_append, List.map_cons, List.cons.injEq] at hText
    rw [hText.1, hd] at hLower
    cases hLower
  rw [magnitude?, decimal?_digits hWhole hNonempty hFraction]
  simp only [hName (by decide : "inf".toList = ['i', 'n', 'f']) (by decide),
    hName (by decide : "infinity".toList = ['i', 'n', 'f', 'i', 'n', 'i', 't', 'y']) (by decide),
    hName (by decide : "nan".toList = ['n', 'a', 'n']) (by decide), Bool.or_self, Bool.false_eq_true, if_false,
    Option.map_some]

theorem floatText?_digits (hWhole : ∀ c ∈ whole, isDecimal c = true) (hNonempty : whole ≠ [])
    (hFraction : ∀ c ∈ fraction, isDecimal c = true) :
    floatText? (String.ofList (whole ++ fractionText fraction)) =
      some (.finite (decimalNumber whole fraction)) := by
  have hChars : ∀ c ∈ whole ++ fractionText fraction, isDecimal c = true ∨ c = '.' := by
    intro c hc
    unfold fractionText at hc
    split at hc
    · exact .inl (hWhole c (by simpa using hc))
    · simp only [List.mem_append, List.mem_cons] at hc
      rcases hc with hc | rfl | hc
      · exact .inl (hWhole c hc)
      · exact .inr rfl
      · exact .inl (hFraction c hc)
  have hStrip : stripBy isNumberSpace (whole ++ fractionText fraction) = whole ++ fractionText fraction := by
    have hSpaces : ∀ c ∈ ([] : List Char), isNumberSpace c = true := by simp
    have hKept : ∀ c ∈ whole ++ fractionText fraction, isNumberSpace c = false := by
      intro c hc
      rcases hChars c hc with hDecimal | rfl
      · exact isNumberSpace_of_isDecimal hDecimal
      · decide
    simpa using stripBy_append hKept hSpaces
  have hUnderscore : '_' ∉ whole ++ fractionText fraction := by
    intro hMem
    rcases hChars '_' hMem with hDecimal | hPoint
    · cases hDecimal
    · cases hPoint
  have hMagnitude := magnitude?_digits hWhole hNonempty hFraction
  obtain ⟨c, cs, rfl⟩ := List.exists_cons_of_ne_nil hNonempty
  have hc : isDecimal c = true := hWhole c List.mem_cons_self
  rw [floatText?, String.toList_ofList, hStrip, withoutUnderscores_eq hUnderscore]
  split
  · rename_i hEq
    cases hEq
  · rename_i ds hEq
    cases hEq
    cases hc
  · rename_i ds hEq
    cases hEq
    cases hc
  · rename_i ds _ _ hEq
    cases hEq
    exact hMagnitude

end
end Forge.Python
