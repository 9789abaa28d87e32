import Forge.Python.Dict
import Forge.Python.Json

/-! # JSON texts

The encoder of `json.dumps` with `ensure_ascii`, and the scanner of `json.loads`. What a float literal
denotes is left to a parameter, its `repr`. The scanner is bounded by fuel, of which `loads` supplies more
than a text of that length can use.
-/
namespace Forge.Python
set_option autoImplicit false

/-! ## Encoding -/

inductive Separators where
  | default
  | compact

def Separators.item : Separators → List Char
  | .default => [',', ' ']
  | .compact => [',']

def Separators.key : Separators → List Char
  | .default => [':', ' ']
  | .compact => [':']

/-- The characters with an escape of two characters, and the second of the two. -/
def shortEscapes : List (Char × Char) :=
  [('"', '"'), ('\\', '\\'), ('\n', 'n'), ('\r', 'r'), ('\t', 't'), (Char.ofNat 12, 'f'), (Char.ofNat 8, 'b')]

def hexUnit (n : Nat) : List Char :=
  [(n / 4096 % 16).digitChar, (n / 256 % 16).digitChar, (n / 16 % 16).digitChar, (n % 16).digitChar]

def unicodeEscape (n : Nat) : List Char := '\\' :: 'u' :: hexUnit n

def isPrintable (c : Char) : Bool := 32 ≤ c.toNat && c.toNat ≤ 126

def escapeChar (c : Char) : List Char :=
  match shortEscapes.lookup c with
  | some letter => ['\\', letter]
  | none =>
    if isPrintable c then [c]
    else if c.toNat < 65536 then unicodeEscape c.toNat
    else unicodeEscape (55296 + (c.toNat - 65536) / 1024) ++ unicodeEscape (56320 + (c.toNat - 65536) % 1024)

def quoted (s : String) : List Char := '"' :: (s.toList.flatMap escapeChar ++ ['"'])

def isSurrogate (n : Nat) : Bool := 55296 ≤ n && n ≤ 57343

def escapePoint (n : Nat) : List Char := if isSurrogate n then unicodeEscape n else escapeChar (Char.ofNat n)

def quotedPoints (points : List Nat) : List Char := '"' :: (points.flatMap escapePoint ++ ['"'])

mutual
def encode (sep : Separators) : Json → List Char
  | .null => ['n', 'u', 'l', 'l']
  | .bool true => ['t', 'r', 'u', 'e']
  | .bool false => ['f', 'a', 'l', 's', 'e']
  | .int n => (toString n).toList
  | .float repr => repr.toList
  | .str s => quoted s
  | .arr [] => ['[', ']']
  | .arr (item :: items) => '[' :: (encode sep item ++ encodeItems sep items)
  | .obj [] => ['{', '}']
  | .obj ((key, value) :: members) =>
    '{' :: (quoted key ++ sep.key ++ (encode sep value ++ encodeMembers sep members))
  | .surrogates points => quotedPoints points
  | .surrogateKeys [] => ['{', '}']
  | .surrogateKeys ((key, value) :: members) =>
    '{' :: (quotedPoints key ++ sep.key ++ (encode sep value ++ encodePointMembers sep members))

def encodeItems (sep : Separators) : List Json → List Char
  | [] => [']']
  | item :: items => sep.item ++ (encode sep item ++ encodeItems sep items)

def encodeMembers (sep : Separators) : List (String × Json) → List Char
  | [] => ['}']
  | (key, value) :: members =>
    sep.item ++ (quoted key ++ sep.key ++ (encode sep value ++ encodeMembers sep members))

def encodePointMembers (sep : Separators) : List (List Nat × Json) → List Char
  | [] => ['}']
  | (key, value) :: members =>
    sep.item ++ (quotedPoints key ++ sep.key ++ (encode sep value ++ encodePointMembers sep members))
end

def dumps (sep : Separators) (value : Json) : String := String.ofList (encode sep value)

/-! ## Scanning strings -/

def hexValue? (c : Char) : Option Nat :=
  if c.isDigit then some (c.toNat - 48)
  else if 97 ≤ c.toNat ∧ c.toNat ≤ 102 then some (c.toNat - 87)
  else if 65 ≤ c.toNat ∧ c.toNat ≤ 70 then some (c.toNat - 55)
  else none

def scanHexUnit : List Char → Option (Nat × List Char)
  | a :: b :: c :: d :: rest =>
    match hexValue? a, hexValue? b, hexValue? c, hexValue? d with
    | some a, some b, some c, some d => some (((a * 16 + b) * 16 + c) * 16 + d, rest)
    | _, _, _, _ => none
  | _ => none

/-- The escape of a code unit, after its `\u`, joined with the next one if they are a surrogate pair. -/
def scanUnicode (cs : List Char) : Option (Nat × List Char) :=
  match scanHexUnit cs with
  | none => none
  | some (n, rest) =>
    if 55296 ≤ n ∧ n ≤ 56319 then
      match rest with
      | '\\' :: 'u' :: more =>
        match scanHexUnit more with
        | none => none
        | some (m, rest') =>
          if 56320 ≤ m ∧ m ≤ 57343 then
            some (65536 + (n - 55296) * 1024 + (m - 56320), rest')
          else some (n, rest)
      | _ => some (n, rest)
    else some (n, rest)

/-- An escape, after its backslash. -/
def scanEscape : List Char → Option (Nat × List Char)
  | [] => none
  | letter :: cs =>
    if letter = 'u' then scanUnicode cs
    else if letter = '/' then some ('/'.toNat, cs)
    else (shortEscapes.find? fun entry => entry.2 = letter).map fun entry => (entry.1.toNat, cs)

/-- `scanstring` after the opening quote, as code points. -/
def scanChars : Nat → List Char → Option (List Nat × List Char)
  | 0, _ => none
  | _, [] => none
  | fuel + 1, c :: cs =>
    if c = '"' then some ([], cs)
    else if c = '\\' then
      match scanEscape cs with
      | none => none
      | some (d, rest) => (scanChars fuel rest).map fun r => (d :: r.1, r.2)
    else if c.toNat < 32 then none
    else (scanChars fuel cs).map fun r => (c.toNat :: r.1, r.2)

def scanString (cs : List Char) : Option (List Nat × List Char) := scanChars (cs.length + 1) cs

/-- The string with these code points, if none of them is a surrogate. -/
def textOf? (points : List Nat) : Option String :=
  if points.any isSurrogate then none else some (String.ofList (points.map Char.ofNat))

def withTexts? : List (List Nat × Json) → Option (List (String × Json))
  | [] => some []
  | (key, value) :: members =>
    match textOf? key, withTexts? members with
    | some key, some members => some ((key, value) :: members)
    | _, _ => none

def Json.ofPoints (points : List Nat) : Json :=
  match textOf? points with
  | some s => .str s
  | none => .surrogates points

/-- The dictionary of the members, of which the last one with a key counts. -/
def Json.ofMembers (members : List (List Nat × Json)) : Json :=
  match withTexts? members with
  | some members => .obj (Dict.ofList members).entries
  | none => .surrogateKeys (Dict.ofList members).entries

/-! ## Scanning values -/

def isJsonSpace (c : Char) : Bool := c == ' ' || c == '\t' || c == '\n' || c == '\r'

def skipSpace (cs : List Char) : List Char := cs.dropWhile isJsonSpace

/-- `0|[1-9]\d*` -/
def scanDigits : List Char → Option (List Char × List Char)
  | '0' :: cs => some (['0'], cs)
  | cs => if (cs.takeWhile Char.isDigit) = [] then none
      else some (cs.takeWhile Char.isDigit, cs.dropWhile Char.isDigit)

/-- `(\.\d+)?` -/
def scanFraction : List Char → List Char × List Char
  | '.' :: cs =>
    if (cs.takeWhile Char.isDigit) = [] then ([], '.' :: cs)
    else ('.' :: cs.takeWhile Char.isDigit, cs.dropWhile Char.isDigit)
  | cs => ([], cs)

def scanSign : List Char → List Char × List Char
  | '-' :: cs => (['-'], cs)
  | '+' :: cs => (['+'], cs)
  | cs => ([], cs)

/-- `([eE][-+]?\d+)?` -/
def scanExponent : List Char → List Char × List Char
  | [] => ([], [])
  | c :: cs =>
    let (sign, digits) := scanSign cs
    if (c = 'e' ∨ c = 'E') ∧ digits.takeWhile Char.isDigit ≠ [] then
      (c :: sign ++ digits.takeWhile Char.isDigit, digits.dropWhile Char.isDigit)
    else ([], c :: cs)

/-- A number after its sign. -/
def scanUnsigned (repr : String → String) (negative : Bool) (cs : List Char) :
    Option (Json × List Char) :=
  match scanDigits cs with
  | none => none
  | some (digits, rest) =>
    let (fraction, rest) := scanFraction rest
    let (exponent, rest) := scanExponent rest
    if fraction ++ exponent = [] then
      let n : Int := Nat.ofDigitChars 10 digits 0
      some (.int (if negative then -n else n), rest)
    else
      let literal := digits ++ fraction ++ exponent
      some (.float (repr (String.ofList (if negative then '-' :: literal else literal))), rest)

/-- A value that is neither a string nor an array nor an object. -/
def scanAtom (repr : String → String) : List Char → Option (Json × List Char)
  | 'n' :: 'u' :: 'l' :: 'l' :: rest => some (.null, rest)
  | 't' :: 'r' :: 'u' :: 'e' :: rest => some (.bool true, rest)
  | 'f' :: 'a' :: 'l' :: 's' :: 'e' :: rest => some (.bool false, rest)
  | 'N' :: 'a' :: 'N' :: rest => some (.float "NaN", rest)
  | 'I' :: 'n' :: 'f' :: 'i' :: 'n' :: 'i' :: 't' :: 'y' :: rest => some (.float "Infinity", rest)
  | '-' :: 'I' :: 'n' :: 'f' :: 'i' :: 'n' :: 'i' :: 't' :: 'y' :: rest => some (.float "-Infinity", rest)
  | '-' :: cs => scanUnsigned repr true cs
  | cs => scanUnsigned repr false cs

mutual
def scanOnce (repr : String → String) : Nat → List Char → Option (Json × List Char)
  | 0, _ => none
  | _, [] => none
  | fuel + 1, c :: cs =>
    if c = '"' then (scanString cs).map fun r => (Json.ofPoints r.1, r.2)
    else if c = '[' then
      match skipSpace cs with
      | ']' :: rest => some (.arr [], rest)
      | cs => (scanItems repr fuel cs).map fun r => (.arr r.1, r.2)
    else if c = '{' then
      match skipSpace cs with
      | '}' :: rest => some (.obj [], rest)
      | cs => (scanMembers repr fuel cs).map fun r => (Json.ofMembers r.1, r.2)
    else scanAtom repr (c :: cs)

/-- The items of an array from one of them on. -/
def scanItems (repr : String → String) : Nat → List Char → Option (List Json × List Char)
  | 0, _ => none
  | fuel + 1, cs =>
    match scanOnce repr fuel cs with
    | none => none
    | some (item, rest) =>
      match skipSpace rest with
      | ']' :: rest => some ([item], rest)
      | ',' :: rest => (scanItems repr fuel (skipSpace rest)).map fun r => (item :: r.1, r.2)
      | _ => none

/-- The members of an object from one of them on. -/
def scanMembers (repr : String → String) : Nat → List Char → Option (List (List Nat × Json) × List Char)
  | 0, _ => none
  | fuel + 1, cs =>
    match cs with
    | '"' :: cs =>
      match scanString cs with
      | none => none
      | some (key, rest) =>
        match skipSpace rest with
        | ':' :: rest =>
          match scanOnce repr fuel (skipSpace rest) with
          | none => none
          | some (value, rest) =>
            match skipSpace rest with
            | '}' :: rest => some ([(key, value)], rest)
            | ',' :: rest =>
              (scanMembers repr fuel (skipSpace rest)).map fun r => ((key, value) :: r.1, r.2)
            | _ => none
        | _ => none
    | _ => none
end

/-- The value of a whole text; `none` is `JSONDecodeError`. -/
def decode (repr : String → String) (cs : List Char) : Option Json :=
  match scanOnce repr (2 * cs.length + 2) (skipSpace cs) with
  | none => none
  | some (value, rest) => if skipSpace rest = [] then some value else none

/-- What follows a value in a text does not go on with a number. -/
def Delimited (rest : List Char) : Prop :=
  ∀ c ∈ rest.head?, c.isDigit = false ∧ c ≠ '.' ∧ c ≠ 'e' ∧ c ≠ 'E'

/-- The text is scanned as the float that it is the `repr` of. -/
def IsFloatText (repr : String → String) (text : String) : Prop :=
  ∀ rest, Delimited rest → scanAtom repr (text.toList ++ rest) = some (.float text, rest)

/-- The `repr` of a float, as a text that is scanned as the same float. -/
structure FloatRepr where
  repr : String → String
  isFloatText : ∀ literal, IsFloatText repr (repr literal)

/-- `json.loads`. The text of the exception says where the scanner stopped and is left out. -/
def FloatRepr.loads (floats : FloatRepr) (text : String) : Except JSONDecodeError Json :=
  match decode floats.repr text.toList with
  | none => .error ⟨""⟩
  | some value => .ok value

/-- The module `json`, with the separators that `json.dumps` uses by default. -/
def FloatRepr.json (floats : FloatRepr) : JsonModule where
  loads := floats.loads
  dumps := dumps .default

end Forge.Python
