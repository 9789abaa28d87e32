import Forge.Python.Dict
import Forge.Python.Float

/-! # Python objects

The objects that a loaded document consists of. A dictionary is given by the assignments that build it, so
any list of pairs stands for one. An object of another type is only known by what `float` makes of it.
-/
namespace Forge.Python
set_option autoImplicit false

/-- A key is known up to `==`, so a truth value or an integer is the number that it equals. -/
inductive Key where
  | none
  | number (x : PyFloat)
  | str (s : String)
  | other (id : Nat)
  deriving DecidableEq

inductive Value where
  | none
  | bool (b : Bool)
  | int (n : Int)
  | float (x : PyFloat)
  | str (s : String)
  | list (items : List Value)
  | dict (assignments : List (Key × Value))
  | other (id : Nat) (hashable : Bool) (asFloat : Except NumberError PyFloat)

namespace Value

/-- `float(value)`; a float is not converted again. -/
def toFloat : Value → Except NumberError PyFloat
  | .none => .error .typeError
  | .bool b => .ok (.finite (if b then 1 else 0))
  | .int n => floatOfInt n
  | .float x => .ok x
  | .str s => floatOfText s
  | .list _ => .error .typeError
  | .dict _ => .error .typeError
  | .other _ _ asFloat => asFloat

/-- The key that a value is; lists and dictionaries are not hashable. -/
def asKey? : Value → Option Key
  | .none => some .none
  | .bool b => some (.number (.finite (if b then 1 else 0)))
  | .int n => some (.number (.finite n))
  | .float x => some (.number x)
  | .str s => some (.str s)
  | .list _ => Option.none
  | .dict _ => Option.none
  | .other id hashable _ => if hashable then some (.other id) else Option.none

def asStr? : Value → Option String
  | .str s => some s
  | _ => Option.none

def asList? : Value → Option (List Value)
  | .list items => some items
  | _ => Option.none

def asDict? : Value → Option (Dict Key Value)
  | .dict assignments => some (Dict.ofList assignments)
  | _ => Option.none

end Value

/-- An f-string with its values not yet formatted. -/
inductive Piece where
  | text (s : String)
  | value (v : Value)
  | key (k : Key)

instance : Coe String Piece := ⟨.text⟩
instance : Coe Value Piece := ⟨.value⟩
instance : Coe Key Piece := ⟨.key⟩

abbrev FString := List Piece

end Forge.Python
