import Mathlib.Order.Bounds.Basic
import Forge.Theory.Acyclic

/-! # Dependency problems and their solutions

Names with available versions, constraints imposed by the root and by chosen versions, and the
choices of one version a name that answer them. Nothing here depends on how versions are compared
or searched for.
-/
namespace Forge.Theory
open Relation
set_option autoImplicit false

structure DependencyProblem (N V C : Type*) where
  root : N → C → Prop
  requires : N → V → N → C → Prop
  available : N → V → Prop
  holds : C → V → Prop

namespace DependencyProblem
variable {N V C : Type*} (P : DependencyProblem N V C) (chosen : N → V → Prop)

/-- `q` is required by the chosen version of `p`. -/
def Edge (p q : N) : Prop := ∃ v c, chosen p v ∧ P.requires p v q c

/-- The constraints on a name under a choice of versions. -/
def Required (n : N) (c : C) : Prop := P.root n c ∨ ∃ p v, chosen p v ∧ P.requires p v n c

def Admissible (n : N) (v : V) : Prop := P.available n v ∧ ∀ c, P.Required chosen n c → P.holds c v

/-- One admissible version for every required name, and nothing that the root does not reach. -/
structure IsSolution : Prop where
  functional : ∀ n v w, chosen n v → chosen n w → v = w
  admissible : ∀ n v, chosen n v → P.Admissible chosen n v
  closed : ∀ n c, P.Required chosen n c → ∃ v, chosen n v
  supported : ∀ n v, chosen n v → ∃ r c, P.root r c ∧ ReflTransGen (P.Edge chosen) r n

/-- Every choice is the greatest admissible one. -/
def IsGreatestChoice {K : Type*} [Preorder K] (key : V → K) : Prop :=
  ∀ n v, chosen n v → IsGreatest {k | ∃ w, P.Admissible chosen n w ∧ key w = k} (key v)

variable {P chosen}

theorem IsSolution.satisfied (h : P.IsSolution chosen) {n : N} {c : C}
    (hc : P.Required chosen n c) : ∃ v, chosen n v ∧ P.holds c v := by
  obtain ⟨v, hv⟩ := h.closed n c hc
  exact ⟨v, hv, (h.admissible n v hv).2 c hc⟩

theorem IsSolution.exists_required (h : P.IsSolution chosen) {n : N} {v : V} (hv : chosen n v) :
    ∃ c, P.Required chosen n c := by
  obtain ⟨r, c, hRoot, hPath⟩ := h.supported n v hv
  cases hPath with
  | refl => exact ⟨c, .inl hRoot⟩
  | tail _ hEdge =>
    obtain ⟨v, c, hv, hc⟩ := hEdge
    exact ⟨c, .inr ⟨_, v, hv, hc⟩⟩

/-- A choice made under some of the constraints stays the greatest once the others hold of it. -/
theorem IsGreatestChoice.of_known {K : Type*} [Preorder K] {key : V → K}
    (hSolution : P.IsSolution chosen)
    (h : ∀ n v, chosen n v → ∃ known : C → Prop, (∀ c, known c → P.Required chosen n c) ∧
      ∀ w, P.available n w → (∀ c, known c → P.holds c w) → key w ≤ key v) :
    P.IsGreatestChoice chosen key := by
  intro n v hv
  refine ⟨⟨v, hSolution.admissible n v hv, rfl⟩, ?_⟩
  rintro _ ⟨w, ⟨hAvailable, hHolds⟩, rfl⟩
  obtain ⟨known, hKnown, hMax⟩ := h n v hv
  exact hMax w hAvailable fun c hc => hHolds c (hKnown c hc)

end DependencyProblem
end Forge.Theory
