import Mathlib.Data.List.Forall2

/-! # Runs of checks

A run in `Except` succeeds when each of its steps does. For a list whose items are read, checked and
normalised one after the other, the readings can be taken first and the checks made on all of them.
-/
namespace Forge.Theory
set_option autoImplicit false

section
variable {ε α β : Type}

theorem bind_eq_ok_iff {x : Except ε α} {f : α → Except ε β} {b : β} :
    (x >>= f) = .ok b ↔ ∃ a, x = .ok a ∧ f a = .ok b := by
  cases x with
  | error e =>
    constructor
    · intro h
      cases h
    · rintro ⟨a, h, -⟩
      cases h
  | ok a =>
    constructor
    · exact fun h => ⟨a, rfl, h⟩
    · rintro ⟨_, h, hNext⟩
      cases h
      exact hNext

theorem exists_unit_iff {p : Unit → Prop} : (∃ u, p u) ↔ p () := ⟨fun ⟨_, h⟩ => h, fun h => ⟨(), h⟩⟩

theorem ok_eq_ok_iff {a b : α} : (Except.ok a : Except ε α) = .ok b ↔ b = a := by
  rw [Except.ok.injEq, eq_comm]

theorem exists_of_isOk {x : Except ε α} (h : x.isOk = true) : ∃ a, x = .ok a := by
  cases x with
  | error e => cases h
  | ok a => exact ⟨a, rfl⟩

theorem ne_ok_of_isOk {x : Except ε α} (h : x.isOk = false) (a : α) : x ≠ .ok a := by
  rintro rfl
  cases h

theorem forM_eq_ok_iff {check : α → Except ε Unit} {items : List α} :
    items.forM check = .ok () ↔ ∀ item ∈ items, check item = .ok () := by
  induction items with
  | nil => exact ⟨fun _ _ h => absurd h List.not_mem_nil, fun _ => rfl⟩
  | cons item items ih =>
    change (check item >>= fun _ => items.forM check) = .ok () ↔ _
    rw [bind_eq_ok_iff, List.forall_mem_cons, ← ih]
    exact ⟨fun ⟨_, hFirst, hRest⟩ => ⟨hFirst, hRest⟩, fun ⟨hFirst, hRest⟩ => ⟨(), hFirst, hRest⟩⟩

end

theorem exists_of_mem_forall₂ {α β : Type} {R : α → β → Prop} {xs : List α} {ys : List β}
    (h : List.Forall₂ R xs ys) {x : α} (hx : x ∈ xs) : ∃ y ∈ ys, R x y := by
  induction h with
  | nil => cases hx
  | cons hHead _ ih =>
    rcases List.mem_cons.mp hx with rfl | hx
    · exact ⟨_, List.mem_cons_self, hHead⟩
    · obtain ⟨y, hy, hR⟩ := ih hx
      exact ⟨y, List.mem_cons_of_mem _ hy, hR⟩

theorem map_eq_map_of_forall₂ {α β γ : Type} {R : α → β → Prop} {f : α → γ} {g : β → γ}
    (hEq : ∀ x y, R x y → f x = g y) {xs : List α} {ys : List β} (h : List.Forall₂ R xs ys) :
    xs.map f = ys.map g := by
  rw [← List.forall₂_eq_eq_eq, List.forall₂_map_left_iff, List.forall₂_map_right_iff]
  exact h.imp fun x y => hEq x y

section
variable {ε α β γ : Type} {Reads : α → γ → Prop} {Valid : γ → Prop} {normalise : γ → β}

theorem readings_cons {item : α} {items : List α} {results : List β} :
    (∃ raws, List.Forall₂ Reads (item :: items) raws ∧ (∀ raw ∈ raws, Valid raw) ∧ results = raws.map normalise) ↔
      ∃ result rest, (∃ raw, Reads item raw ∧ Valid raw ∧ result = normalise raw) ∧
        (∃ raws, List.Forall₂ Reads items raws ∧ (∀ raw ∈ raws, Valid raw) ∧ rest = raws.map normalise) ∧
        results = result :: rest := by
  constructor
  · rintro ⟨raws, hReads, hValid, rfl⟩
    obtain ⟨raw, raws, hFirst, hRest, rfl⟩ := List.forall₂_cons_left_iff.mp hReads
    rw [List.forall_mem_cons] at hValid
    exact ⟨_, _, ⟨raw, hFirst, hValid.1, rfl⟩, ⟨raws, hRest, hValid.2, rfl⟩, rfl⟩
  · rintro ⟨_, _, ⟨raw, hFirst, hValid, rfl⟩, ⟨raws, hRest, hValids, rfl⟩, rfl⟩
    exact ⟨raw :: raws, .cons hFirst hRest, List.forall_mem_cons.mpr ⟨hValid, hValids⟩, rfl⟩

theorem readings_nil {results : List β} :
    (∃ raws, List.Forall₂ Reads [] raws ∧ (∀ raw ∈ raws, Valid raw) ∧ results = raws.map normalise) ↔
      results = [] := by
  constructor
  · rintro ⟨raws, hReads, -, rfl⟩
    rw [List.forall₂_nil_left_iff.mp hReads, List.map_nil]
  · rintro rfl
    exact ⟨[], .nil, fun _ h => absurd h List.not_mem_nil, rfl⟩

theorem mapM_eq_ok_iff {parse : α → Except ε β}
    (h : ∀ item result, parse item = .ok result ↔ ∃ raw, Reads item raw ∧ Valid raw ∧ result = normalise raw)
    {items : List α} {results : List β} : items.mapM parse = .ok results ↔
      ∃ raws, List.Forall₂ Reads items raws ∧ (∀ raw ∈ raws, Valid raw) ∧ results = raws.map normalise := by
  induction items generalizing results with
  | nil =>
    rw [readings_nil]
    exact ok_eq_ok_iff
  | cons item items ih =>
    rw [List.mapM_cons, readings_cons]
    simp only [bind_eq_ok_iff, h, ih, pure, Except.pure, ok_eq_ok_iff]
    exact ⟨fun ⟨result, hFirst, rest, hRest, hEq⟩ => ⟨result, rest, hFirst, hRest, hEq⟩,
      fun ⟨result, rest, hFirst, hRest, hEq⟩ => ⟨result, hFirst, rest, hRest, hEq⟩⟩

end

end Forge.Theory
