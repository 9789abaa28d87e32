import Mathlib.Data.String.Basic

/-! # JSON values

The values that `json.loads` builds, and the two functions of the module `json` that programs use.
A float is kept as its `repr`. A string of Python may hold lone surrogates, which are no characters: such a
string is kept as its code points, and an object with such a key has the code points of all its keys.
-/
namespace Forge.Python
set_option autoImplicit false

inductive Json where
  | null
  | bool (b : Bool)
  | int (n : Int)
  | float (repr : String)
  | str (s : String)
  | arr (items : List Json)
  | obj (members : List (String × Json))
  | surrogates (points : List Nat)
  | surrogateKeys (members : List (List Nat × Json))

/-- `bool(value)`. -/
def Json.truthy : Json → Bool
  | .null => false
  | .bool b => b
  | .int n => n ≠ 0
  | .float repr => repr ≠ "0.0" && repr ≠ "-0.0"
  | .str s => s ≠ ""
  | .arr items => !items.isEmpty
  | .obj members => !members.isEmpty
  | .surrogates points => !points.isEmpty
  | .surrogateKeys members => !members.isEmpty

mutual
/-- Whether `dumps(value, ensure_ascii=False, allow_nan=False).encode()` returns: there are no bytes for a lone
surrogate, and no text for `NaN` and the infinities. -/
def isRenderable : Json → Bool
  | .float repr => repr != "NaN" && repr != "Infinity" && repr != "-Infinity"
  | .arr items => areRenderable items
  | .obj members => haveRenderable members
  | .surrogates _ => false
  | .surrogateKeys _ => false
  | _ => true

def areRenderable : List Json → Bool
  | [] => true
  | item :: items => isRenderable item && areRenderable items

def haveRenderable : List (String × Json) → Bool
  | [] => true
  | (_, value) :: members => isRenderable value && haveRenderable members
end

theorem areRenderable_iff {items : List Json} :
    areRenderable items = true ↔ ∀ item ∈ items, isRenderable item = true := by
  induction items with
  | nil => simp [areRenderable]
  | cons item items ih => simp [areRenderable, ih]

theorem haveRenderable_iff {members : List (String × Json)} :
    haveRenderable members = true ↔ ∀ entry ∈ members, isRenderable entry.2 = true := by
  induction members with
  | nil => simp [haveRenderable]
  | cons entry members ih =>
    obtain ⟨key, value⟩ := entry
    simp [haveRenderable, ih]

structure JSONDecodeError where
  message : String

structure JsonModule where
  loads : String → Except JSONDecodeError Json
  dumps : Json → String

/-- What `dumps` writes, `loads` reads without an exception. -/
def JsonModule.Readable (json : JsonModule) : Prop :=
  ∀ value, ∃ value', json.loads (json.dumps value) = .ok value'

end Forge.Python
