import Mathlib.Algebra.GroupWithZero.Nat
import Mathlib.Algebra.Order.BigOperators.Group.List
import Mathlib.Algebra.Order.Group.Nat
import Mathlib.Data.List.Basic
import Mathlib.Data.List.Nodup

/-! # Python dictionaries

Association lists in insertion order, with the proof that no key occurs twice. Assigning to an
existing key keeps its position; a new key goes to the end.
-/
namespace Forge.Python
set_option autoImplicit false

structure Dict (α β : Type) where
  entries : List (α × β)
  nodup : (entries.map Prod.fst).Nodup

namespace Dict

section
variable {α β : Type}

def empty : Dict α β := ⟨[], List.nodup_nil⟩

def keys (d : Dict α β) : List α := d.entries.map Prod.fst

def values (d : Dict α β) : List β := d.entries.map Prod.snd

/-- The sum of `f` over the values. -/
def total (f : β → ℕ) (d : Dict α β) : ℕ := (d.values.map f).sum

@[simp] theorem keys_empty : (empty : Dict α β).keys = [] := rfl

@[simp] theorem total_empty (f : β → ℕ) : (empty : Dict α β).total f = 0 := rfl

theorem ext_entries {d e : Dict α β} (h : d.entries = e.entries) : d = e := by
  cases d
  cases e
  cases h
  rfl

/-- `{k: f(v) for k, v in d.items()}` -/
def mapValues {γ : Type} (f : β → γ) (d : Dict α β) : Dict α γ where
  entries := d.entries.map fun e => (e.1, f e.2)
  nodup := by
    rw [List.map_map]
    exact d.nodup

@[simp] theorem keys_mapValues {γ : Type} (f : β → γ) (d : Dict α β) : (d.mapValues f).keys = d.keys :=
  List.map_map

@[simp] theorem values_mapValues {γ : Type} (f : β → γ) (d : Dict α β) :
    (d.mapValues f).values = d.values.map f := by
  simp [values, mapValues]

theorem mem_keys_of_mem {d : Dict α β} {k : α} {v : β} (h : (k, v) ∈ d.entries) : k ∈ d.keys :=
  List.mem_map.mpr ⟨(k, v), h, rfl⟩

end

section
variable {α β : Type} [DecidableEq α]

instance [DecidableEq β] : DecidableEq (Dict α β) := fun a b =>
  decidable_of_iff (a.entries = b.entries) ⟨fun h => by cases a; cases b; cases h; rfl, fun h => h ▸ rfl⟩

def getEntry (k : α) : List (α × β) → Option β
  | [] => none
  | (key, v) :: rest => if key = k then some v else getEntry k rest

def setEntry (k : α) (v : β) : List (α × β) → List (α × β)
  | [] => [(k, v)]
  | (key, old) :: rest => if key = k then (key, v) :: rest else (key, old) :: setEntry k v rest

theorem setEntry_keys (k : α) (v : β) (entries : List (α × β)) :
    (setEntry k v entries).map Prod.fst =
      if k ∈ entries.map Prod.fst then entries.map Prod.fst else entries.map Prod.fst ++ [k] := by
  induction entries with
  | nil => rfl
  | cons head rest ih =>
    obtain ⟨key, old⟩ := head
    by_cases h : key = k
    · subst h
      simp [setEntry]
    · simp only [setEntry, h, if_false, List.map_cons, ih, List.mem_cons, Ne.symm h, false_or]
      split <;> rfl

theorem setEntry_nodup (k : α) (v : β) (entries : List (α × β)) (h : (entries.map Prod.fst).Nodup) :
    ((setEntry k v entries).map Prod.fst).Nodup := by
  rw [setEntry_keys]
  split
  · exact h
  · rename_i hk
    exact h.append (List.nodup_singleton k) (by simpa using hk)

def get? (d : Dict α β) (k : α) : Option β := getEntry k d.entries

theorem getEntry_map {γ : Type} (f : β → γ) (k : α) (entries : List (α × β)) :
    getEntry k (entries.map fun e => (e.1, f e.2)) = (getEntry k entries).map f := by
  induction entries with
  | nil => rfl
  | cons head rest ih =>
    rw [List.map_cons, getEntry, getEntry, ih]
    split <;> rfl

theorem get?_mapValues {γ : Type} (f : β → γ) (d : Dict α β) (k : α) :
    (d.mapValues f).get? k = (d.get? k).map f :=
  getEntry_map f k d.entries

def getD (d : Dict α β) (k : α) (default : β) : β := (d.get? k).getD default

def set (d : Dict α β) (k : α) (v : β) : Dict α β :=
  ⟨setEntry k v d.entries, setEntry_nodup k v d.entries d.nodup⟩

def ofList (entries : List (α × β)) : Dict α β := entries.foldl (fun d e => d.set e.1 e.2) empty

theorem keys_set (d : Dict α β) (k : α) (v : β) :
    (d.set k v).keys = if k ∈ d.keys then d.keys else d.keys ++ [k] :=
  setEntry_keys k v d.entries

theorem keys_set_of_notMem {d : Dict α β} {k : α} (v : β) (h : k ∉ d.keys) :
    (d.set k v).keys = d.keys ++ [k] := by
  rw [keys_set, if_neg h]

theorem setEntry_of_notMem {k : α} (v : β) {entries : List (α × β)} (h : k ∉ entries.map Prod.fst) :
    setEntry k v entries = entries ++ [(k, v)] := by
  induction entries with
  | nil => rfl
  | cons head rest ih =>
    simp only [List.map_cons, List.mem_cons, not_or] at h
    rw [setEntry, if_neg (Ne.symm h.1), ih h.2, List.cons_append]

theorem entries_set_of_notMem {d : Dict α β} {k : α} (v : β) (h : k ∉ d.keys) :
    (d.set k v).entries = d.entries ++ [(k, v)] :=
  setEntry_of_notMem v h

theorem entries_foldl_set (items : List (α × β)) (d : Dict α β)
    (h : (d.keys ++ items.map Prod.fst).Nodup) :
    (items.foldl (fun d e => d.set e.1 e.2) d).entries = d.entries ++ items := by
  induction items generalizing d with
  | nil => simp
  | cons e rest ih =>
    have hFresh : e.1 ∉ d.keys := by
      intro hMem
      exact List.disjoint_of_nodup_append h hMem (by simp)
    have hRest : ((d.set e.1 e.2).keys ++ rest.map Prod.fst).Nodup := by
      rw [keys_set_of_notMem e.2 hFresh]
      simpa using h
    rw [List.foldl_cons, ih _ hRest, entries_set_of_notMem e.2 hFresh]
    simp

theorem entries_ofList {items : List (α × β)} (h : (items.map Prod.fst).Nodup) :
    (ofList items).entries = items :=
  entries_foldl_set items empty h

theorem keys_ofList {items : List (α × β)} (h : (items.map Prod.fst).Nodup) :
    (ofList items).keys = items.map Prod.fst := by
  rw [keys, entries_ofList h]

@[simp] theorem mem_keys_set {d : Dict α β} {k j : α} {v : β} :
    j ∈ (d.set k v).keys ↔ j = k ∨ j ∈ d.keys := by
  rw [keys_set]
  split
  · rename_i h
    exact ⟨Or.inr, fun hj => hj.elim (fun e => e ▸ h) id⟩
  · simp [or_comm]

@[simp] theorem get?_empty (k : α) : (empty : Dict α β).get? k = none := rfl

theorem getEntry_setEntry (k j : α) (v : β) (entries : List (α × β)) :
    getEntry j (setEntry k v entries) = if j = k then some v else getEntry j entries := by
  induction entries with
  | nil =>
    by_cases h : j = k
    · simp [setEntry, getEntry, h]
    · simp [setEntry, getEntry, h, Ne.symm h]
  | cons head rest ih =>
    obtain ⟨key, old⟩ := head
    by_cases hk : key = k
    · by_cases hj : j = k
      · simp [setEntry, getEntry, hk, hj]
      · simp [setEntry, getEntry, hk, hj, Ne.symm hj]
    · simp only [setEntry, hk, if_false, getEntry, ih]
      by_cases hj : j = k
      · subst hj
        simp [hk]
      · simp [hj]

@[simp] theorem get?_set (d : Dict α β) (k j : α) (v : β) :
    (d.set k v).get? j = if j = k then some v else d.get? j :=
  getEntry_setEntry k j v d.entries

@[simp] theorem getD_set (d : Dict α β) (k j : α) (v default : β) :
    (d.set k v).getD j default = if j = k then v else d.getD j default := by
  simp only [getD, get?_set]
  split <;> rfl

theorem getEntry_eq_some_of_mem (entries : List (α × β)) (h : (entries.map Prod.fst).Nodup)
    {k : α} {v : β} (hmem : (k, v) ∈ entries) : getEntry k entries = some v := by
  induction entries with
  | nil => cases hmem
  | cons head rest ih =>
    obtain ⟨key, value⟩ := head
    rw [List.map_cons, List.nodup_cons] at h
    rcases List.mem_cons.mp hmem with heq | hmem
    · cases heq
      simp [getEntry]
    · have hne : key ≠ k := by
        rintro rfl
        exact h.1 (List.mem_map.mpr ⟨_, hmem, rfl⟩)
      simpa [getEntry, hne] using ih h.2 hmem

theorem mem_of_getEntry (entries : List (α × β)) {k : α} {v : β} (h : getEntry k entries = some v) :
    (k, v) ∈ entries := by
  induction entries with
  | nil => cases h
  | cons head rest ih =>
    obtain ⟨key, value⟩ := head
    by_cases hk : key = k
    · subst hk
      simp only [getEntry, if_true, Option.some.injEq] at h
      exact h ▸ List.mem_cons_self
    · simp only [getEntry, hk, if_false] at h
      exact List.mem_cons_of_mem _ (ih h)

theorem get?_eq_some_iff {d : Dict α β} {k : α} {v : β} : d.get? k = some v ↔ (k, v) ∈ d.entries :=
  ⟨mem_of_getEntry d.entries, getEntry_eq_some_of_mem d.entries d.nodup⟩

theorem mem_keys_iff {d : Dict α β} {k : α} : k ∈ d.keys ↔ ∃ v, d.get? k = some v := by
  constructor
  · intro h
    obtain ⟨⟨_, v⟩, hmem, rfl⟩ := List.mem_map.mp h
    exact ⟨v, get?_eq_some_iff.mpr hmem⟩
  · rintro ⟨v, h⟩
    exact mem_keys_of_mem (get?_eq_some_iff.mp h)

theorem get?_eq_none_iff {d : Dict α β} {k : α} : d.get? k = none ↔ k ∉ d.keys := by
  rw [mem_keys_iff, Option.eq_none_iff_forall_ne_some]
  simp

theorem mem_keys_of_get? {d : Dict α β} {k : α} {v : β} (h : d.get? k = some v) : k ∈ d.keys :=
  mem_keys_iff.mpr ⟨v, h⟩

theorem mem_of_mem_foldl_set {items : List (α × β)} {d : Dict α β} {entry : α × β}
    (h : entry ∈ (items.foldl (fun d e => d.set e.1 e.2) d).entries) : entry ∈ items ∨ entry ∈ d.entries := by
  induction items generalizing d with
  | nil => exact .inr h
  | cons e rest ih =>
    rcases ih h with hRest | hSet
    · exact .inl (List.mem_cons_of_mem e hRest)
    · rw [← get?_eq_some_iff, get?_set] at hSet
      split at hSet
      · rename_i hKey
        left
        rw [show entry = e from Prod.ext hKey (Option.some.inj hSet).symm]
        exact List.mem_cons_self
      · exact .inr (get?_eq_some_iff.mp hSet)

theorem mem_of_mem_ofList {items : List (α × β)} {entry : α × β} (h : entry ∈ (ofList items).entries) :
    entry ∈ items := by
  rcases mem_of_mem_foldl_set h with hItem | hEmpty
  · exact hItem
  · cases hEmpty

theorem keys_set_of_get? {d : Dict α β} {k : α} {old : β} (v : β) (h : d.get? k = some old) :
    (d.set k v).keys = d.keys := by
  rw [keys_set, if_pos (mem_keys_of_get? h)]

/-! ## Sums over the values -/

theorem sum_setEntry (f : β → ℕ) {k : α} {old : β} (v : β) (entries : List (α × β))
    (h : getEntry k entries = some old) :
    (((setEntry k v entries).map Prod.snd).map f).sum + f old =
      ((entries.map Prod.snd).map f).sum + f v := by
  induction entries with
  | nil => cases h
  | cons head rest ih =>
    obtain ⟨key, value⟩ := head
    by_cases hk : key = k
    · simp only [getEntry, hk, if_true, Option.some.injEq] at h
      subst h
      simp only [setEntry, hk, if_true, List.map_cons, List.sum_cons]
      omega
    · simp only [getEntry, hk, if_false] at h
      have hRest := ih h
      simp only [setEntry, hk, if_false, List.map_cons, List.sum_cons]
      omega

theorem total_set (f : β → ℕ) {d : Dict α β} {k : α} {old : β} (v : β) (h : d.get? k = some old) :
    (d.set k v).total f + f old = d.total f + f v :=
  sum_setEntry f v d.entries h

theorem total_set_of_notMem (f : β → ℕ) {d : Dict α β} {k : α} (v : β) (h : k ∉ d.keys) :
    (d.set k v).total f = d.total f + f v := by
  rw [total, values, entries_set_of_notMem v h]
  simp [total, values]

theorem total_eq_zero (f : β → ℕ) {d : Dict α β} (h : ∀ k v, d.get? k = some v → f v = 0) :
    d.total f = 0 := by
  apply List.sum_eq_zero
  intro n hn
  obtain ⟨v, hv, rfl⟩ := List.mem_map.mp hn
  obtain ⟨⟨k, v'⟩, hMem, rfl⟩ := List.mem_map.mp hv
  exact h k v' (get?_eq_some_iff.mpr hMem)

end
end Dict
end Forge.Python
