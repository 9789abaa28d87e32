import Mathlib.Data.List.MinMax
import Forge.Theory.Acyclic

/-! # Depth in a well-founded relation with finitely many successors

The depth of a point is the length of the longest chain below it.
-/
namespace Forge.Theory
open Relation
set_option autoImplicit false

variable {α : Type*}

/-- An acyclic relation whose targets lie in a finite domain is well-founded. -/
theorem Acyclic.wellFounded {r : α → α → Prop} (h : Acyclic r) {domain : List α}
    (hTarget : ∀ a b, r a b → b ∈ domain) : WellFounded fun b a => r a b := by
  have hDomain : ∀ a ∈ domain, Acc (fun b a => r a b) a := by
    apply h.induction_on
    · exact fun a _ b hab => hTarget a b hab
    · exact fun a _ hBelow => .intro a hBelow
  exact ⟨fun a => .intro a fun b hab => hDomain b (hTarget a b hab)⟩

/-- A chain that starts below `a`. -/
def ChainBelow (r : α → α → Prop) (a : α) (chain : List α) : Prop := (a :: chain).IsChain r

/-- `n` is the length of the longest chain below `a`. -/
structure IsLongestChain (r : α → α → Prop) (a : α) (n : ℕ) : Prop where
  exists_chain : ∃ chain, ChainBelow r a chain ∧ chain.length = n
  length_le : ∀ chain, ChainBelow r a chain → chain.length ≤ n

theorem IsLongestChain.unique {r : α → α → Prop} {a : α} {m n : ℕ} (hm : IsLongestChain r a m)
    (hn : IsLongestChain r a n) : m = n := by
  obtain ⟨chain, hChain, hLength⟩ := hm.exists_chain
  obtain ⟨chain', hChain', hLength'⟩ := hn.exists_chain
  have hLe := hn.length_le chain hChain
  have hGe := hm.length_le chain' hChain'
  omega

/-- A rank that falls along a relation bounds the length of its chains. -/
theorem ChainBelow.length_le {r : α → α → Prop} {rank : α → ℕ} (hRank : ∀ a b, r a b → rank b < rank a)
    {a : α} {chain : List α} (h : ChainBelow r a chain) : chain.length ≤ rank a := by
  induction chain generalizing a with
  | nil => exact Nat.zero_le _
  | cons b rest ih =>
    obtain ⟨hab, hRest⟩ := List.isChain_cons_cons.mp h
    have hLength := ih hRest
    have hLess := hRank a b hab
    rw [List.length_cons]
    omega

section
variable {below : α → List α}

def depth (h : WellFounded fun b a => b ∈ below a) : α → ℕ :=
  h.fix fun a ih => ((below a).attach.map fun b => ih b.1 b.2 + 1).foldr max 0

variable (h : WellFounded fun b a => b ∈ below a)

theorem depth_eq (a : α) : depth h a = ((below a).map fun b => depth h b + 1).foldr max 0 := by
  rw [depth, h.fix_eq]
  exact congrArg (List.foldr max 0) (List.attach_map_val (f := fun b => depth h b + 1))

theorem depth_lt {a b : α} (hb : b ∈ below a) : depth h b < depth h a := by
  have hMem : depth h b + 1 ∈ (below a).map fun b => depth h b + 1 :=
    List.mem_map.mpr ⟨b, hb, rfl⟩
  rw [depth_eq h a]
  exact List.le_max_of_le' 0 hMem le_rfl

theorem depth_le {a : α} {n : ℕ} (hBelow : ∀ b ∈ below a, depth h b < n) : depth h a ≤ n := by
  rw [depth_eq h a]
  apply List.max_le_of_forall_le
  intro m hm
  obtain ⟨b, hb, rfl⟩ := List.mem_map.mp hm
  exact hBelow b hb

theorem depth_eq_zero_or (a : α) : depth h a = 0 ∨ ∃ b ∈ below a, depth h a = depth h b + 1 := by
  cases hDepth : depth h a with
  | zero => exact .inl rfl
  | succ n =>
    right
    by_contra hNone
    have hLess : ∀ b ∈ below a, depth h b < n := by
      intro b hb
      have hBelow := depth_lt h hb
      have hNe : depth h b ≠ n := fun hEq => hNone ⟨b, hb, by rw [hEq]⟩
      omega
    have hLe := depth_le h hLess
    omega

theorem exists_chain_depth (a : α) :
    ∃ chain, ChainBelow (fun a b => b ∈ below a) a chain ∧ chain.length = depth h a := by
  induction a using h.induction with
  | _ a ih =>
    rcases depth_eq_zero_or h a with hZero | ⟨b, hb, hDepth⟩
    · exact ⟨[], .singleton a, hZero.symm⟩
    · obtain ⟨chain, hChain, hLength⟩ := ih b hb
      refine ⟨b :: chain, List.isChain_cons_cons.mpr ⟨hb, hChain⟩, ?_⟩
      rw [List.length_cons, hLength, hDepth]

theorem isLongestChain_depth (a : α) : IsLongestChain (fun a b => b ∈ below a) a (depth h a) where
  exists_chain := exists_chain_depth h a
  length_le _ hChain := hChain.length_le fun _ _ hb => depth_lt h hb

/-- No rank that falls along the relation is smaller. -/
theorem depth_le_rank {rank : α → ℕ} (hRank : ∀ a, ∀ b ∈ below a, rank b < rank a) (a : α) :
    depth h a ≤ rank a := by
  obtain ⟨chain, hChain, hLength⟩ := exists_chain_depth h a
  rw [← hLength]
  exact hChain.length_le hRank

end
end Forge.Theory
