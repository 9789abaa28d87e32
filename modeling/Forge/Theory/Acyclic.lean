import Mathlib.Logic.Relation
import Mathlib.Order.WellFounded
import Mathlib.Data.List.Chain
import Mathlib.Data.List.Nodup
import Mathlib.Data.Set.Finite.List

/-! # Acyclic relations

A relation without directed cycles, the ranks that exclude cycles, and cycles given as lists.
-/
namespace Forge.Theory
open Relation
set_option autoImplicit false

variable {α : Type*}

def Acyclic (r : α → α → Prop) : Prop := ∀ a, ¬ TransGen r a a

/-- A list of distinct points, each related to the next and the last to the first. -/
structure IsCycle (r : α → α → Prop) (cycle : List α) : Prop where
  nodup : cycle.Nodup
  chain : cycle.IsChain r
  closes : ∃ last first, cycle.getLast? = some last ∧ cycle.head? = some first ∧ r last first

theorem IsCycle.ne_nil {r : α → α → Prop} {cycle : List α} (h : IsCycle r cycle) : cycle ≠ [] := by
  rintro rfl
  obtain ⟨_, _, hLast, -, -⟩ := h.closes
  cases hLast

theorem transGen_rank_lt {r : α → α → Prop} {rank : α → ℕ} (hRank : ∀ a b, r a b → rank b < rank a)
    {a b : α} (h : TransGen r a b) : rank b < rank a := by
  induction h with
  | single hab => exact hRank _ _ hab
  | tail _ hbc ih => exact (hRank _ _ hbc).trans ih

theorem Acyclic.of_rank {r : α → α → Prop} (rank : α → ℕ) (hRank : ∀ a b, r a b → rank b < rank a) :
    Acyclic r :=
  fun _ h => Nat.lt_irrefl _ (transGen_rank_lt hRank h)

/-- In a chain whose last element is related to one of its elements, that element starts a cycle. -/
theorem IsCycle.of_chain [DecidableEq α] {r : α → α → Prop} {path : List α} {a last : α}
    (hNodup : path.Nodup) (hChain : path.IsChain r) (ha : a ∈ path)
    (hLast : path.getLast? = some last) (hr : r last a) : IsCycle r (path.drop (path.idxOf a)) := by
  have hIdx : path.idxOf a < path.length := List.idxOf_lt_length_of_mem ha
  have hGet : path[path.idxOf a] = a := List.getElem_idxOf hIdx
  refine ⟨hNodup.sublist (List.drop_sublist _ _), hChain.drop _, last, a, ?_, ?_, hr⟩
  · rw [List.getLast?_drop, if_neg (by omega), hLast]
  · rw [List.head?_drop, List.getElem?_eq_getElem hIdx, hGet]

theorem IsCycle.not_acyclic {r : α → α → Prop} {cycle : List α} (h : IsCycle r cycle) : ¬ Acyclic r := by
  intro hAcyclic
  obtain ⟨last, first, hLast, hFirst, hr⟩ := h.closes
  have hReach := List.relationReflTransGen_of_exists_isChain cycle h.chain h.ne_nil
  rw [List.getLast_eq_iff_getLast?_eq_some h.ne_nil |>.mpr hLast,
    List.head_eq_iff_head?_eq_some h.ne_nil |>.mpr hFirst] at hReach
  exact hAcyclic last (TransGen.head' hr hReach)

/-! ## Orders that a relation respects -/

/-- Whatever an element of the list is related to stands before it. -/
def Topological (r : α → α → Prop) (order : List α) : Prop :=
  ∀ pre a post, order = pre ++ a :: post → ∀ b, r a b → b ∈ pre

theorem Topological.nil (r : α → α → Prop) : Topological r [] := by
  intro pre a post hSplit
  simp at hSplit

theorem Topological.append {r : α → α → Prop} {order : List α} {a : α} (h : Topological r order)
    (ha : ∀ b, r a b → b ∈ order) : Topological r (order ++ [a]) := by
  intro pre other post hSplit
  rcases List.eq_nil_or_concat post with rfl | ⟨post', last, rfl⟩
  · obtain ⟨rfl, hLast⟩ := List.append_inj' hSplit rfl
    cases hLast
    exact ha
  · rw [List.concat_eq_append, ← List.cons_append, ← List.append_assoc] at hSplit
    exact h pre other post' (List.append_inj' hSplit rfl).1

theorem Topological.mono {r r' : α → α → Prop} {order : List α} (h : Topological r order)
    (hLe : ∀ a b, r' a b → r a b) : Topological r' order :=
  fun pre a post hSplit b hr => h pre a post hSplit b (hLe a b hr)

theorem Topological.idxOf_lt [DecidableEq α] {r : α → α → Prop} {order : List α}
    (h : Topological r order) {a b : α} (ha : a ∈ order) (hr : r a b) :
    order.idxOf b < order.idxOf a := by
  obtain ⟨pre, post, hSplit, hAbsent⟩ := List.eq_append_cons_of_mem ha
  have hb := h pre a post hSplit b hr
  rw [hSplit, List.idxOf_append_of_mem hb, List.idxOf_append_of_notMem hAbsent, List.idxOf_cons_self]
  exact List.idxOf_lt_length_of_mem hb

theorem Topological.acyclic [DecidableEq α] {r : α → α → Prop} {order : List α}
    (h : Topological r order) (hAll : ∀ a b, r a b → a ∈ order) : Acyclic r :=
  Acyclic.of_rank (fun a => order.idxOf a) fun a b hr => h.idxOf_lt (hAll a b hr) hr

/-- Induction along an acyclic relation on a finite domain that the relation does not leave. -/
theorem Acyclic.induction_on {r : α → α → Prop} (h : Acyclic r) {domain : List α}
    (hClosed : ∀ a ∈ domain, ∀ b, r a b → b ∈ domain) {P : α → Prop}
    (hStep : ∀ a ∈ domain, (∀ b, r a b → P b) → P a) : ∀ a ∈ domain, P a := by
  let below (x y : {a // a ∈ domain}) : Prop := TransGen r y.1 x.1
  have : Finite {a // a ∈ domain} := domain.finite_toSet.to_subtype
  have : IsTrans {a // a ∈ domain} below := ⟨fun _ _ _ hxy hyz => hyz.trans hxy⟩
  have : Std.Irrefl below := ⟨fun x => h x.1⟩
  have hWellFounded : WellFounded below := Finite.wellFounded_of_trans_of_irrefl below
  have hAll : ∀ x : {a // a ∈ domain}, P x.1 := by
    intro x
    induction x using hWellFounded.induction with
    | _ x ih =>
      apply hStep x.1 x.2
      intro b hb
      exact ih ⟨b, hClosed x.1 x.2 b hb⟩ (.single hb)
  exact fun a ha => hAll ⟨a, ha⟩

end Forge.Theory
