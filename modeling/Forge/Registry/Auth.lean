import Mathlib.Data.List.Nodup
import Forge.Python.Hashlib
import Forge.Python.Utf8

/-! # Bearer tokens

`registry/auth.py`. A token is kept as its hash under the name of its owner, and the table carries the
constraint `UNIQUE` on the names. There is no operation that takes a token back.
-/
namespace Forge.Registry
open Forge.Python
set_option autoImplicit false

structure TokenRow where
  name : String
  tokenHash : String
  deriving DecidableEq

structure TokenTable where
  rows : List TokenRow
  unique : (rows.map TokenRow.name).Nodup

namespace TokenTable

def empty : TokenTable := ⟨[], List.nodup_nil⟩

def names (tokens : TokenTable) : List String := tokens.rows.map TokenRow.name

theorem unique_append {tokens : TokenTable} {row : TokenRow} (h : row.name ∉ tokens.names) :
    ((tokens.rows ++ [row]).map TokenRow.name).Nodup := by
  rw [List.map_append]
  exact List.Nodup.append tokens.unique (List.nodup_singleton _) (List.disjoint_singleton.mpr h)

/-- `INSERT`; `none` is `sqlite3.IntegrityError`. -/
def insert? (tokens : TokenTable) (row : TokenRow) : Option TokenTable :=
  if h : row.name ∈ tokens.names then none else some ⟨tokens.rows ++ [row], unique_append h⟩

end TokenTable

def tokenHash (raw : String) : String := sha256 (encodeUtf8 raw)

/-- `create_token`, where `raw` is what `secrets.token_hex(32)` returns. -/
def createToken (tokens : TokenTable) (name raw : String) : Option (TokenTable × String) :=
  (tokens.insert? ⟨name, tokenHash raw⟩).map fun tokens => (tokens, raw)

/-- The first row in the order of insertion. -/
def verifyToken (tokens : TokenTable) (raw : String) : Option String :=
  (tokens.rows.find? fun row => row.tokenHash = tokenHash raw).map TokenRow.name

def missingHeader : ValueError := ⟨"Missing or invalid Authorization header"⟩

def invalidToken : ValueError := ⟨"Invalid token"⟩

/-- `require_auth`; `none` is `None`. -/
def requireAuth (tokens : TokenTable) (authorization : Option String) : Except ValueError String :=
  match authorization with
  | none => .error missingHeader
  | some authorization =>
    if authorization = "" || !startsWith authorization "Bearer " then .error missingHeader
    else
      match verifyToken tokens (dropPrefixChars authorization 7) with
      | none => .error invalidToken
      | some name => if name = "" then .error invalidToken else .ok name

/-! ## What a token admits -/

section
variable {tokens tokens' : TokenTable} {raw name : String}

theorem createToken_cases (tokens : TokenTable) (name raw : String) :
    (name ∈ tokens.names ∧ createToken tokens name raw = none) ∨
      (name ∉ tokens.names ∧ ∃ tokens', createToken tokens name raw = some (tokens', raw) ∧
        tokens'.rows = tokens.rows ++ [⟨name, tokenHash raw⟩]) := by
  by_cases hName : name ∈ tokens.names
  · exact .inl ⟨hName, by simp [createToken, TokenTable.insert?, hName]⟩
  · refine .inr ⟨hName, ⟨tokens.rows ++ [⟨name, tokenHash raw⟩], TokenTable.unique_append hName⟩, ?_, rfl⟩
    simp only [createToken, TokenTable.insert?, dif_neg hName, Option.map_some]

theorem startsWith_bearer (credentials : String) : startsWith ("Bearer " ++ credentials) "Bearer " = true := by
  simp [startsWith, List.isPrefixOf]

theorem dropPrefixChars_bearer (credentials : String) :
    dropPrefixChars ("Bearer " ++ credentials) 7 = credentials := by
  simp [dropPrefixChars]

/-- The header is taken apart again. -/
theorem requireAuth_bearer (tokens : TokenTable) (credentials : String) :
    requireAuth tokens (some ("Bearer " ++ credentials)) =
      match verifyToken tokens credentials with
      | none => .error invalidToken
      | some name => if name = "" then .error invalidToken else .ok name := by
  rw [requireAuth, startsWith_bearer, dropPrefixChars_bearer]
  simp

theorem requireAuth_ok_iff {credentials : String} :
    requireAuth tokens (some ("Bearer " ++ credentials)) = .ok name ↔
      name ≠ "" ∧ verifyToken tokens credentials = some name := by
  rw [requireAuth_bearer]
  cases hVerify : verifyToken tokens credentials with
  | none => simp
  | some owner =>
    by_cases hOwner : owner = ""
    · subst hOwner
      simp only [if_true, reduceCtorEq, Option.some.injEq, false_iff, not_and]
      exact fun hName hEmpty => hName hEmpty.symm
    · simp only [if_neg hOwner, Except.ok.injEq, Option.some.injEq]
      exact ⟨fun hSame => ⟨hSame ▸ hOwner, hSame⟩, And.right⟩

/-- A later row does not change whose a token is. -/
theorem verifyToken_append {rows : List TokenRow} (hRows : tokens'.rows = tokens.rows ++ rows)
    (h : verifyToken tokens raw = some name) : verifyToken tokens' raw = some name := by
  obtain ⟨row, hFind, rfl⟩ := Option.map_eq_some_iff.mp h
  rw [verifyToken, hRows, List.find?_append, hFind]
  rfl

theorem verifyToken_mem (h : verifyToken tokens raw = some name) :
    ⟨name, tokenHash raw⟩ ∈ tokens.rows := by
  obtain ⟨row, hFind, rfl⟩ := Option.map_eq_some_iff.mp h
  have hHash : row.tokenHash = tokenHash raw := by simpa using List.find?_some hFind
  rw [← hHash]
  exact List.mem_of_find?_eq_some hFind

/-- A token is known as long as some row has its hash. -/
theorem verifyToken_isSome {row : TokenRow} (hRow : row ∈ tokens.rows)
    (hHash : row.tokenHash = tokenHash raw) : ∃ owner, verifyToken tokens raw = some owner := by
  cases hVerify : verifyToken tokens raw with
  | some owner => exact ⟨owner, rfl⟩
  | none =>
    have hNone := List.find?_eq_none.mp (Option.map_eq_none_iff.mp hVerify) row hRow
    simp [hHash] at hNone

end

end Forge.Registry
