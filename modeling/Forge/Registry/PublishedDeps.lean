import Forge.Python.JsonRoundTrip
import Forge.Registry.HttpClient
import Forge.Registry.PublishSafety

/-! # What the registry stores as dependencies

The form field `deps` of a publish is decoded and stored as it comes. Where every inserted one is a list that
the resolver can read, all rows stay usable.
-/
namespace Forge.Registry
open Forge.Python Forge.Theory
set_option autoImplicit false

/-- The dependencies in the row of a publish: `dep_list or []`. -/
def storedDeps (json : JsonModule) (deps : String) : Json :=
  let value := depList json deps
  if value.truthy then value else .arr []

/-- The row that a publish inserts after its blob is stored. -/
def insertedRow (json : JsonModule) (now : String) (request : Request) (data : Bytes) (sha : String) : Row :=
  ⟨request.name, request.version, sha, data.length, request.publisher,
    json.dumps (storedDeps json request.deps), now⟩

theorem loads_storedDeps (floats : FloatRepr) {deps : String}
    (hRenderable : isRenderable (storedDeps floats.json deps) = true) :
    floats.json.loads (floats.json.dumps (storedDeps floats.json deps)) =
      .ok (storedDeps floats.json deps) := by
  have hEmpty : Canonical floats.repr (.arr []) := by simp [Canonical, CanonicalItems]
  apply loads_dumps floats .default
  unfold storedDeps at hRenderable ⊢
  dsimp only at hRenderable ⊢
  split
  · rename_i hTruthy
    rw [if_pos hTruthy] at hRenderable
    unfold depList at hRenderable ⊢
    split
    · exact hEmpty
    · rename_i value hLoads
      rw [hLoads] at hRenderable
      exact loads_canonical floats hLoads hRenderable
  · exact hEmpty

/-- A lone surrogate is stored with its escape, and the registry cannot send it. -/
example : dumps .default (storedDeps zeroFloats.json "[\"\\ud800\"]") = "[\"\\ud800\"]" ∧
    isRenderable (storedDeps zeroFloats.json "[\"\\ud800\"]") = false := by decide +kernel

/-! ## Rows -/

section
variable {json : JsonModule} {now : String} {request : Request} {store store' : Store}
  {handler handler' : Handler}

theorem publishArtifact_rows (h : publishArtifact json now request store handler = some (store', handler')) :
    store'.artifacts.rows = store.artifacts.rows ∨ ∃ data sha, handler = .stored data sha ∧
      store'.artifacts.rows = store.artifacts.rows ++ [insertedRow json now request data sha] := by
  cases publishArtifact_publishes h with
  | inserted data sha artifacts value hAbsent hRows =>
    right
    refine ⟨data, sha, rfl, ?_⟩
    simp only [publishArtifact, insertArtifact] at h
    cases hInsert : store.artifacts.insert? (insertedRow json now request data sha) with
    | none =>
      simp only [insertedRow, storedDeps] at hInsert
      rw [hInsert] at h
      cases congrArg Prod.snd (Option.some.inj h)
    | some table =>
      have hTable := (ArtifactTable.insert?_eq_some hInsert).2
      simp only [insertedRow, storedDeps] at hInsert
      rw [hInsert] at h
      cases h
      exact hTable
  | _ => exact .inl rfl

end

theorem Server.Step.rows {json : JsonModule} {s t : Server} {e : Event} (h : Server.Step json s e t) :
    t.store.artifacts.rows = s.store.artifacts.rows ∨
    ∃ i now request data sha, e = .advance i now ∧ s.At i request (.stored data sha) ∧
      t.store.artifacts.rows = s.store.artifacts.rows ++ [insertedRow json now request data sha] := by
  cases h.moves with
  | advance i now request handler handler' store hAt hPublish =>
    simp only [Server.Step, stepsOf, Server.next] at h
    rw [hAt] at h
    obtain ⟨r, hResult, hServer⟩ := Option.map_eq_some_iff.mp h
    have hStore : r.1 = store := congrArg Server.store hServer
    rcases publishArtifact_rows hResult with hSame | ⟨data, sha, rfl, hRows⟩
    · exact .inl (hStore ▸ hSame)
    · exact .inr ⟨i, now, request, data, sha, rfl, hAt, hStore ▸ hRows⟩
  | _ => exact .inl rfl

/-! ## Runs -/

/-- What the event inserts, if it inserts a row, has dependencies that the resolver can read. -/
def insertsUsable (json : JsonModule) (s : Server) : Event → Bool
  | .advance i _ =>
    match s.requests[i]? with
    | some (request, .stored _ _) => isUsable (storedDeps json request.deps)
    | _ => true
  | _ => true

def InsertsUsable (json : JsonModule) (s : Server) (e : Event) : Prop := insertsUsable json s e = true

instance (json : JsonModule) (s : Server) (e : Event) : Decidable (InsertsUsable json s e) :=
  inferInstanceAs (Decidable (insertsUsable json s e = true))

theorem InsertsUsable.stored {json : JsonModule} {s : Server} {i : Nat} {now : String} {request : Request}
    {data : Bytes} {sha : String} (h : InsertsUsable json s (.advance i now))
    (hAt : s.At i request (.stored data sha)) : isUsable (storedDeps json request.deps) = true := by
  have hRequest : s.requests[i]? = some (request, .stored data sha) := hAt
  simp only [InsertsUsable, insertsUsable, hRequest] at h
  exact h

/-- The version of the request has been checked, and the publish goes on. -/
def Handler.isUnderWay : Handler → Bool
  | .checked => true
  | .read _ => true
  | .verified _ => true
  | .stored _ _ => true
  | .committed _ _ => true
  | _ => false

structure Server.Usable (json : JsonModule) (s : Server) : Prop where
  versions : ∀ i request handler, s.At i request handler → handler.isUnderWay = true →
    isValidSemver request.version = true
  rows : ∀ row ∈ s.store.artifacts.rows, row.Usable json

theorem Publishes.versions {json : JsonModule} {now : String} {request : Request} {store store' : Store}
    {handler handler' : Handler} (h : Publishes json now request store handler store' handler')
    (hBefore : handler.isUnderWay = true → isValidSemver request.version = true)
    (hAfter : handler'.isUnderWay = true) : isValidSemver request.version = true := by
  cases h with
  | checked hVersion => exact hVersion
  | read => exact hBefore rfl
  | verified data hChecksum => exact hBefore rfl
  | stored data => exact hBefore rfl
  | inserted data sha artifacts value hAbsent hRows => exact hBefore rfl
  | _ => cases hAfter

theorem Handler.isUnderWay_kill (handler : Handler) : handler.kill.isUnderWay = false := by
  cases handler <;> rfl

theorem Server.Usable.versions_step {json : JsonModule} {s t : Server} {e : Event} (h : s.Usable json)
    (hMoves : Moves json s e t) {i : Nat} {request : Request} {handler : Handler}
    (hAt : t.At i request handler) (hUnderWay : handler.isUnderWay = true) :
    isValidSemver request.version = true := by
  cases hMoves with
  | arrive new =>
    rcases at_arrive hAt with hOld | ⟨-, -, rfl⟩
    · exact h.versions i request handler hOld hUnderWay
    · cases hUnderWay
  | advance j now moved before after store hBefore hPublish =>
    rcases at_update hAt with ⟨rfl, rfl, rfl⟩ | ⟨-, hOther⟩
    · exact hPublish.versions (h.versions _ _ _ hBefore) hUnderWay
    · exact h.versions i request handler hOther hUnderWay
  | read name version => exact h.versions i request handler hAt hUnderWay
  | kill =>
    obtain ⟨before, -, rfl⟩ := at_killed.mp hAt
    rw [Handler.isUnderWay_kill] at hUnderWay
    cases hUnderWay
  | killWriting j n torn data hTorn hAbsent =>
    obtain ⟨before, -, rfl⟩ := at_killed.mp hAt
    rw [Handler.isUnderWay_kill] at hUnderWay
    cases hUnderWay

theorem Server.Usable.step {floats : FloatRepr} {s t : Server} {e : Event} (h : s.Usable floats.json)
    (hStep : Server.Step floats.json s e t) (hInserts : InsertsUsable floats.json s e) :
    t.Usable floats.json where
  versions i request handler hAt hUnderWay := h.versions_step hStep.moves hAt hUnderWay
  rows := by
    rcases hStep.rows with hSame | ⟨i, now, request, data, sha, rfl, hAt, hRows⟩
    · rw [hSame]
      exact h.rows
    · rw [hRows]
      intro row hRow
      cases List.mem_append.mp hRow with
      | inl hOld => exact h.rows row hOld
      | inr hNew =>
        cases List.mem_singleton.mp hNew
        exact ⟨h.versions i request _ hAt rfl, storedDeps floats.json request.deps,
          loads_storedDeps floats (readDeps_of_usable (hInserts.stored hAt)).1, hInserts.stored hAt⟩

theorem run_usable {floats : FloatRepr} {s : Server} {events : List Event}
    (hRun : Run (restrict (Server.Step floats.json) (InsertsUsable floats.json)) Server.initial events s) :
    s.Usable floats.json := by
  have hInit : Server.initial.Usable floats.json :=
    { versions := by simp [Server.At, Server.initial]
      rows := by simp [Server.initial, ArtifactTable.empty] }
  exact hRun.invariant (fun s e t h hStep => h.step hStep.1 hStep.2) hInit

end Forge.Registry
