import Mathlib.Data.List.Sort
import Mathlib.Data.List.TakeWhile
import Forge.Python.JsonRoundTrip

/-! # JSON texts with sorted keys

`json.dumps(value, sort_keys=True)` writes the value whose dictionaries, at every depth, have their
members in the order of their keys, and `loads` reads this value back.
-/
namespace Forge.Python
set_option autoImplicit false

def insertMembers (members : List (String × Json)) : List (String × Json) :=
  members.insertionSort fun a b => a.1 ≤ b.1

def insertPointMembers (members : List (List Nat × Json)) : List (List Nat × Json) :=
  members.insertionSort fun a b => a.1 ≤ b.1

mutual
def sortKeys : Json → Json
  | .null => .null
  | .bool b => .bool b
  | .int n => .int n
  | .float repr => .float repr
  | .str s => .str s
  | .arr items => .arr (sortKeysItems items)
  | .obj members => .obj (insertMembers (sortKeysMembers members))
  | .surrogates points => .surrogates points
  | .surrogateKeys members => .surrogateKeys (insertPointMembers (sortKeysPointMembers members))

def sortKeysItems : List Json → List Json
  | [] => []
  | item :: items => sortKeys item :: sortKeysItems items

def sortKeysMembers : List (String × Json) → List (String × Json)
  | [] => []
  | (key, value) :: members => (key, sortKeys value) :: sortKeysMembers members

def sortKeysPointMembers : List (List Nat × Json) → List (List Nat × Json)
  | [] => []
  | (key, value) :: members => (key, sortKeys value) :: sortKeysPointMembers members
end

def dumpsSorted (sep : Separators) (value : Json) : String := dumps sep (sortKeys value)

theorem keys_sortKeysMembers (members : List (String × Json)) :
    (sortKeysMembers members).map Prod.fst = members.map Prod.fst := by
  induction members with
  | nil => rfl
  | cons entry members ih =>
    obtain ⟨key, value⟩ := entry
    rw [sortKeysMembers, List.map_cons, List.map_cons, ih]

theorem insertMembers_perm (members : List (String × Json)) : (insertMembers members).Perm members :=
  List.perm_insertionSort _ members

/-! ## The round trip -/

section
variable {repr : String → String}

mutual
theorem Canonical.sortKeys {value : Json} (h : Canonical repr value) : Canonical repr (sortKeys value) := by
  cases value with
  | arr items =>
    rw [Python.sortKeys, Canonical]
    exact CanonicalItems.sortKeys h
  | obj members =>
    rw [Python.sortKeys, Canonical]
    have hPerm := insertMembers_perm (sortKeysMembers members)
    refine ⟨?_, ?_⟩
    · rw [(hPerm.map Prod.fst).nodup_iff, keys_sortKeysMembers]
      exact h.1
    · rw [canonicalMembers_iff]
      intro entry hEntry
      exact canonicalMembers_iff.mp (CanonicalMembers.sortKeys h.2) entry (hPerm.mem_iff.mp hEntry)
  | surrogates points => exact h.elim
  | surrogateKeys members => exact h.elim
  | _ => exact h

theorem CanonicalItems.sortKeys {items : List Json} (h : CanonicalItems repr items) :
    CanonicalItems repr (sortKeysItems items) := by
  cases items with
  | nil => exact h
  | cons item items => exact ⟨Canonical.sortKeys h.1, CanonicalItems.sortKeys h.2⟩

theorem CanonicalMembers.sortKeys {members : List (String × Json)} (h : CanonicalMembers repr members) :
    CanonicalMembers repr (sortKeysMembers members) := by
  cases members with
  | nil => exact h
  | cons entry members =>
    obtain ⟨key, value⟩ := entry
    exact ⟨Canonical.sortKeys h.1, CanonicalMembers.sortKeys h.2⟩
end

theorem decode_encode_space (sep : Separators) {value : Json} (h : Canonical repr value) {space : List Char}
    (hSpace : ∀ c ∈ space, isJsonSpace c = true) : decode repr (encode sep value ++ space) = some value := by
  have hRest : Delimited space := by
    intro c hc
    have hMem := hSpace c (List.mem_of_mem_head? hc)
    simp only [isJsonSpace, Bool.or_eq_true, beq_iff_eq] at hMem
    rcases hMem with ((rfl | rfl) | rfl) | rfl <;> decide
  have hScan := scanOnce_encode sep value (2 * (encode sep value ++ space).length + 2) space h
    (by rw [List.length_append]; omega) hRest
  have hSkip := skipSpace_encode sep h [] space (fun _ hc => (List.not_mem_nil hc).elim)
  rw [List.nil_append] at hSkip
  have hEnd : skipSpace space = [] := List.dropWhile_eq_nil_iff.mpr hSpace
  rw [decode, hSkip, hScan]
  simp only [if_pos hEnd]

end

/-- White space after a text is not looked at. -/
theorem loads_dumpsSorted (floats : FloatRepr) (sep : Separators) {value : Json} {space : List Char}
    (h : Canonical floats.repr value) (hSpace : ∀ c ∈ space, isJsonSpace c = true) :
    floats.loads (dumpsSorted sep value ++ String.ofList space) = .ok (sortKeys value) := by
  rw [FloatRepr.loads, String.toList_append, dumpsSorted, dumps, String.toList_ofList, String.toList_ofList,
    decode_encode_space sep h.sortKeys hSpace]

end Forge.Python
