import Mathlib.Data.List.Sort

/-! # Stable sorting by a key

`sorted(items, key=f)`, and `items.sort(key=f, reverse=True)` with the opposite order. All keys are
computed first, so a key that raises makes the whole call raise.
-/
namespace Forge.Python
set_option autoImplicit false

variable {α κ ε : Type}

/-- The list with the key of every item, or the first error of the key function. -/
def withKeys (key : α → Except ε κ) : List α → Except ε (List (κ × α))
  | [] => .ok []
  | a :: rest =>
    match key a, withKeys key rest with
    | .error e, _ => .error e
    | .ok _, .error e => .error e
    | .ok k, .ok pairs => .ok ((k, a) :: pairs)

def sortedByKey (key : α → Except ε κ) (le : κ → κ → Prop) [DecidableRel le] (items : List α) :
    Except ε (List α) :=
  (withKeys key items).map fun pairs =>
    (pairs.insertionSort fun x y => le x.1 y.1).map Prod.snd

theorem withKeys_cons {key : α → Except ε κ} {a : α} {rest : List α} {pairs : List (κ × α)}
    (h : withKeys key (a :: rest) = .ok pairs) :
    ∃ k tail, key a = .ok k ∧ withKeys key rest = .ok tail ∧ pairs = (k, a) :: tail := by
  rw [withKeys] at h
  cases hk : key a with
  | error e => simp [hk] at h
  | ok k =>
    cases hr : withKeys key rest with
    | error e => simp [hk, hr] at h
    | ok tail =>
      rw [hk, hr] at h
      cases h
      exact ⟨k, tail, rfl, rfl, rfl⟩

theorem withKeys_ok {key : α → Except ε κ} {items : List α} {pairs : List (κ × α)}
    (h : withKeys key items = .ok pairs) :
    pairs.map Prod.snd = items ∧ ∀ p ∈ pairs, key p.2 = .ok p.1 := by
  induction items generalizing pairs with
  | nil =>
    cases h
    exact ⟨rfl, by simp⟩
  | cons a rest ih =>
    obtain ⟨k, tail, hk, hr, rfl⟩ := withKeys_cons h
    obtain ⟨hsnd, hkeys⟩ := ih hr
    refine ⟨by rw [List.map_cons, hsnd], ?_⟩
    intro p hp
    rcases List.mem_cons.mp hp with rfl | hp
    · exact hk
    · exact hkeys p hp

theorem withKeys_of_ok {key : α → Except ε κ} {items : List α}
    (h : ∀ a ∈ items, ∃ k, key a = .ok k) : ∃ pairs, withKeys key items = .ok pairs := by
  induction items with
  | nil => exact ⟨[], rfl⟩
  | cons a rest ih =>
    obtain ⟨k, hk⟩ := h a List.mem_cons_self
    obtain ⟨pairs, hPairs⟩ := ih fun b hb => h b (List.mem_cons_of_mem a hb)
    exact ⟨(k, a) :: pairs, by rw [withKeys, hk, hPairs]⟩

section
variable {key : α → Except ε κ} {le : κ → κ → Prop} [DecidableRel le] {items sorted : List α}

theorem sortedByKey_perm (h : sortedByKey key le items = .ok sorted) : sorted.Perm items := by
  cases hp : withKeys key items with
  | error e => simp [sortedByKey, hp, Except.map] at h
  | ok pairs =>
    simp only [sortedByKey, hp, Except.map, Except.ok.injEq] at h
    rw [← h, ← (withKeys_ok hp).1]
    exact (List.perm_insertionSort _ _).map _

theorem sortedByKey_of_ok (h : ∀ a ∈ items, ∃ k, key a = .ok k) :
    ∃ sorted, sortedByKey key le items = .ok sorted := by
  obtain ⟨pairs, hPairs⟩ := withKeys_of_ok h
  exact ⟨_, by rw [sortedByKey, hPairs]; rfl⟩

/-- The result is in the order of the keys. -/
theorem sortedByKey_pairwise [Std.Total le] [IsTrans κ le] (h : sortedByKey key le items = .ok sorted) :
    sorted.Pairwise fun a b => ∃ ka kb, key a = .ok ka ∧ key b = .ok kb ∧ le ka kb := by
  cases hp : withKeys key items with
  | error e => simp [sortedByKey, hp, Except.map] at h
  | ok pairs =>
    have hKeys := (withKeys_ok hp).2
    simp only [sortedByKey, hp, Except.map, Except.ok.injEq] at h
    have hPerm := List.perm_insertionSort (fun x y : κ × α => le x.1 y.1) pairs
    have : Std.Total fun x y : κ × α => le x.1 y.1 := ⟨fun x y => Std.Total.total x.1 y.1⟩
    have : IsTrans (κ × α) fun x y => le x.1 y.1 := ⟨fun _ _ _ => IsTrans.trans _ _ _⟩
    have hSorted := List.pairwise_insertionSort (fun x y : κ × α => le x.1 y.1) pairs
    rw [← h, List.pairwise_map]
    refine hSorted.imp_of_mem fun {x y} hx hy hLe => ?_
    exact ⟨x.1, y.1, hKeys x (hPerm.mem_iff.mp hx), hKeys y (hPerm.mem_iff.mp hy), hLe⟩

theorem sortedByKey_keys (h : sortedByKey key le items = .ok sorted) :
    ∀ a ∈ items, ∃ k, key a = .ok k := by
  cases hp : withKeys key items with
  | error e => simp [sortedByKey, hp, Except.map] at h
  | ok pairs =>
    obtain ⟨hsnd, hkeys⟩ := withKeys_ok hp
    intro a ha
    rw [← hsnd] at ha
    obtain ⟨p, hMem, rfl⟩ := List.mem_map.mp ha
    exact ⟨p.1, hkeys p hMem⟩

/-- The first item of the result has the extreme key. -/
theorem sortedByKey_head [Std.Total le] [IsTrans κ le] {first : α} {rest : List α}
    (h : sortedByKey key le items = .ok (first :: rest)) :
    first ∈ items ∧ ∃ k, key first = .ok k ∧ ∀ a ∈ items, ∃ ka, key a = .ok ka ∧ le k ka := by
  have hPerm := sortedByKey_perm h
  have hFirst : first ∈ items := hPerm.mem_iff.mp List.mem_cons_self
  obtain ⟨k, hk⟩ := sortedByKey_keys h first hFirst
  refine ⟨hFirst, k, hk, fun a ha => ?_⟩
  rcases List.mem_cons.mp (hPerm.mem_iff.mpr ha) with rfl | hRest
  · exact ⟨k, hk, (Std.Total.total k k).elim id id⟩
  · obtain ⟨k', ka, hk', hka, hLe⟩ := List.rel_of_pairwise_cons (sortedByKey_pairwise h) hRest
    cases hk.symm.trans hk'
    exact ⟨ka, hka, hLe⟩

end
end Forge.Python
