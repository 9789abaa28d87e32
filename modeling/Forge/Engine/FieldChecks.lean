import Forge.Engine.Parser
import Forge.Python.Value

/-! # Checks of single fields

The errors of `engine/parser.py` and the checks that it makes of one path, image, amount of memory or number
of processors.
-/
namespace Forge.Engine.PipelineParser
open Forge.Python Forge.Registry
set_option autoImplicit false

structure ParseError where
  message : FString
  line : Option Nat

/-- What `parse_and_validate` raises: its own error, what `float` and the loops over YAML nodes raise, and
what the YAML loader and the decoder raise. -/
inductive Exc where
  | parseError (error : ParseError)
  | overflowError
  | typeError
  | valueError
  | yamlError
  | unicodeDecodeError

def fail {α : Type} (message : FString) (line : Option Nat) : Except Exc α :=
  .error (.parseError ⟨message, line⟩)

@[simp] theorem fail_ne_ok {α : Type} {message : FString} {line : Option Nat} {x : α} :
    fail message line ≠ .ok x := nofun

/-! ## Patterns -/

def isImageRefChar (c : Char) : Bool :=
  isAsciiAlnum c || c == '.' || c == '_' || c == '-' || c == '/' || c == ':' || c == '@'

/-- `[a-zA-Z0-9][a-zA-Z0-9./_:@\-]*` -/
def imageRefPattern : Regex := .seq (.chars isAsciiAlnum) (.star (.chars isImageRefChar))

/-- `\d+` -/
def digitsPattern : Regex := .seq (.chars isDecimal) (.star (.chars isDecimal))

/-- `Ki|Mi|Gi|K|M|G` -/
def memoryUnitPattern : Regex :=
  .alt (.seq (.char 'K') (.char 'i')) (.alt (.seq (.char 'M') (.char 'i')) (.alt (.seq (.char 'G') (.char 'i'))
    (.alt (.char 'K') (.alt (.char 'M') (.char 'G')))))

/-- `\d+(\.\d+)?(Ki|Mi|Gi|K|M|G)?` -/
def memoryPattern : Regex :=
  .seq digitsPattern (.seq (.opt (.seq (.char '.') digitsPattern)) (.opt memoryUnitPattern))

/-! ## Checks -/

/-- `[A-Za-z]:` at the start. -/
def hasDrive (path : String) : Bool :=
  match path.toList with
  | letter :: ':' :: _ => isAsciiLetter letter
  | _ => false

/-- `path.replace("\\", "/").split("/")` -/
def pathParts (path : String) : List String :=
  splitOn (String.ofList (path.toList.map fun c => if c = '\\' then '/' else c)) '/'

def validateRelativePath (path : String) (line : Option Nat) : Except Exc Unit :=
  if path = "" then fail ["artifact path must not be empty"] line
  else if startsWith path "/" || hasDrive path then
    fail ["artifact path must be relative, got '", path, "'"] line
  else if ".." ∈ pathParts path then
    fail ["artifact path must not contain '..', got '", path, "'"] line
  else .ok ()

def validateImageRef (image : String) (line : Option Nat) : Except Exc Unit :=
  if image = "" || !imageRefPattern.matchAnchored image then
    fail ["invalid container image reference '", image, "'"] line
  else .ok ()

def validateMemory (memory : String) (line : Option Nat) : Except Exc Unit :=
  if !memoryPattern.matchAnchored memory then
    fail ["invalid memory value '", memory, "' (expected e.g. 512Mi, 1Gi)"] line
  else .ok ()

/-- An `OverflowError` of `float` is not caught. -/
def validateCpu (cpu : Value) (line : Option Nat) : Except Exc PyFloat :=
  match cpu.toFloat with
  | .error .overflowError => .error .overflowError
  | .error _ => fail ["invalid cpu value '", cpu, "'"] line
  | .ok value => if value.nonpos then fail ["cpu must be positive, got ", cpu] line else .ok value

end Forge.Engine.PipelineParser
