import Forge.Registry.ServerInvariant

/-! # Concurrent publishes

Whatever the interleaving, each coordinate is won by at most one publish, every other one that carries
a valid version and a matching checksum is told of the conflict, and a row once read never changes.
-/
namespace Forge.Registry
open Forge.Python Forge.Theory
set_option autoImplicit false

/-- A valid version and a matching checksum. -/
structure Request.Admissible (request : Request) : Prop where
  version : isValidSemver request.version = true
  checksum : verifyChecksum request.file request.checksum = true

def Request.published (request : Request) : Published :=
  ⟨request.name, request.version, sha256 request.file, request.file.length⟩

/-- The row of this publish is committed. -/
def Handler.won : Handler → Bool
  | .committed _ _ => true
  | .answered (.ok _) => true
  | .cut last => last.won
  | _ => false

/-- What a handler knows of its request, and which answers it may have given. -/
def Handler.Sound (table : ArtifactTable) (request : Request) : Handler → Prop
  | .received => True
  | .checked => isValidSemver request.version = true
  | .read data => data = request.file ∧ isValidSemver request.version = true
  | .verified data => data = request.file ∧ request.Admissible
  | .stored data sha => data = request.file ∧ sha = sha256 data ∧ request.Admissible
  | .committed data sha => data = request.file ∧ sha = sha256 data ∧ request.Admissible
  | .answered (.ok body) => body = request.published ∧ request.Admissible
  | .answered (.raised exc) =>
    (exc.statusCode = 400 ∧ ¬ request.Admissible) ∨
      (exc.statusCode = 409 ∧ request.coordinate ∈ table.coordinates)
  | .answered .internalServerError => False
  | .cut last => last.Sound table request

@[simp] theorem won_kill (handler : Handler) : handler.kill.won = handler.won := by
  cases handler <;> rfl

theorem Handler.Sound.kill {table : ArtifactTable} {request : Request} {handler : Handler}
    (h : handler.Sound table request) : handler.kill.Sound table request := by
  cases handler <;> exact h

theorem Handler.Sound.mono {table table' : ArtifactTable} {request : Request} {handler : Handler}
    (hTable : request.coordinate ∈ table.coordinates → request.coordinate ∈ table'.coordinates)
    (h : handler.Sound table request) : handler.Sound table' request := by
  induction handler with
  | cut last ih => exact ih h
  | answered answer =>
    cases answer with
    | raised exc => exact h.imp_right fun hTaken => ⟨hTaken.1, hTable hTaken.2⟩
    | ok body => exact h
    | internalServerError => exact h
  | _ => exact h

/-- A publish that won is admissible, and if it was answered then with its own artifact. -/
theorem Handler.Sound.admissible {table : ArtifactTable} {request : Request} {handler : Handler}
    (h : handler.Sound table request) (hWon : handler.won = true) : request.Admissible := by
  induction handler with
  | committed data sha => exact h.2.2
  | answered answer =>
    cases answer with
    | ok body => exact h.2
    | raised exc => cases hWon
    | internalServerError => cases hWon
  | cut last ih => exact ih h hWon
  | _ => cases hWon

/-! ## Rows as they are read -/

def ArtifactTable.Readable (json : JsonModule) (table : ArtifactTable) : Prop :=
  ∀ row ∈ table.rows, ∃ deps, json.loads row.deps = .ok deps

theorem getArtifact_some {json : JsonModule} {table : ArtifactTable} {name version : String}
    {artifact : Artifact} (h : getArtifact json table name version = .ok (some artifact)) :
    ∃ row deps, table.select name version = some row ∧ json.loads row.deps = .ok deps ∧
      artifact = row.toArtifact deps := by
  unfold getArtifact at h
  cases hSelect : table.select name version with
  | none =>
    rw [hSelect] at h
    cases h
  | some row =>
    rw [hSelect] at h
    cases hDeps : json.loads row.deps with
    | error e =>
      simp only [hDeps] at h
      cases h
    | ok deps =>
      simp only [hDeps] at h
      cases h
      exact ⟨row, deps, rfl, hDeps, rfl⟩

theorem getArtifact_of_select {json : JsonModule} {table : ArtifactTable} {name version : String}
    {row : Row} {deps : Json} (hSelect : table.select name version = some row)
    (hDeps : json.loads row.deps = .ok deps) :
    getArtifact json table name version = .ok (some (row.toArtifact deps)) := by
  simp only [getArtifact, hSelect, hDeps, Except.map]

theorem ArtifactTable.Readable.getArtifact {json : JsonModule} {table : ArtifactTable}
    (h : table.Readable json) (name version : String) (e : JSONDecodeError) :
    getArtifact json table name version ≠ .error e := by
  intro hGet
  cases hSelect : table.select name version with
  | none =>
    rw [Registry.getArtifact, hSelect] at hGet
    cases hGet
  | some row =>
    obtain ⟨deps, hDeps⟩ := h row (ArtifactTable.select_eq_some_iff.mp hSelect).1
    rw [getArtifact_of_select hSelect hDeps] at hGet
    cases hGet

theorem Store.Grows.getArtifact {s t : Store} (h : s.Grows t) {json : JsonModule}
    {name version : String} {artifact : Artifact}
    (hGet : getArtifact json s.artifacts name version = .ok (some artifact)) :
    getArtifact json t.artifacts name version = .ok (some artifact) := by
  obtain ⟨row, deps, hSelect, hDeps, rfl⟩ := getArtifact_some hGet
  exact getArtifact_of_select (h.select hSelect) hDeps

/-! ## The invariant -/

/-- The row that a publish commits, up to its dependencies and its time. -/
structure Row.Records (row : Row) (request : Request) : Prop where
  coordinate : row.coordinate = request.coordinate
  sha256 : row.sha256 = Python.sha256 request.file
  size : row.size = request.file.length
  publisher : row.publisher = request.publisher

structure Server.Inv (json : JsonModule) (s : Server) : Prop where
  readable : s.store.artifacts.Readable json
  sound : ∀ i request handler, s.At i request handler → handler.Sound s.store.artifacts request
  recorded : ∀ i request handler, s.At i request handler → handler.won = true →
    ∃ row ∈ s.store.artifacts.rows, row.Records request
  unique : ∀ i j request request' handler handler', s.At i request handler →
    s.At j request' handler' → handler.won = true → handler'.won = true →
    request.coordinate = request'.coordinate → i = j
  origin : ∀ row ∈ s.store.artifacts.rows, ∃ i request handler,
    s.At i request handler ∧ handler.won = true ∧ row.Records request

theorem Server.inv_initial (json : JsonModule) : Server.initial.Inv json where
  readable := by simp [ArtifactTable.Readable, initial, ArtifactTable.empty]
  sound := by simp [Server.At, initial]
  recorded := by simp [Server.At, initial]
  unique := by simp [Server.At, initial]
  origin := by simp [initial, ArtifactTable.empty]

section Step
variable {json : JsonModule} {now : String} {request : Request} {store store' : Store}
variable {handler handler' : Handler}

theorem Publishes.sound (h : Publishes json now request store handler store' handler')
    (hReadable : store.artifacts.Readable json) (hSound : handler.Sound store.artifacts request) :
    handler'.Sound store'.artifacts request := by
  cases h with
  | invalid hVersion =>
    refine .inl ⟨rfl, fun hAdmissible => ?_⟩
    rw [hAdmissible.version] at hVersion
    cases hVersion
  | unreadable e hGet => exact hReadable.getArtifact _ _ e hGet
  | taken artifact hGet =>
    obtain ⟨row, -, hSelect, -, -⟩ := getArtifact_some hGet
    exact .inr ⟨rfl, ArtifactTable.mem_coordinates_iff.mpr ⟨row, hSelect⟩⟩
  | checked hVersion => exact hVersion
  | read => exact ⟨rfl, hSound⟩
  | mismatch data hChecksum =>
    refine .inl ⟨rfl, fun hAdmissible => ?_⟩
    rw [hSound.1, hAdmissible.checksum] at hChecksum
    cases hChecksum
  | verified data hChecksum =>
    rw [hSound.1] at hChecksum
    exact ⟨hSound.1, hSound.2, hChecksum⟩
  | stored data => exact ⟨hSound.1, rfl, hSound.2⟩
  | conflict data sha hTaken => exact .inr ⟨rfl, hTaken⟩
  | inserted data sha artifacts value hAbsent hRows => exact hSound
  | answered data sha =>
    obtain ⟨rfl, rfl, hAdmissible⟩ := hSound
    exact ⟨rfl, hAdmissible⟩

/-- A step leaves the table and the standing of its publish alone, or it wins the coordinate. -/
theorem Publishes.wins (h : Publishes json now request store handler store' handler')
    (hJson : json.Readable) (hSound : handler.Sound store.artifacts request) :
    (store'.artifacts = store.artifacts ∧ handler'.won = handler.won) ∨
      (handler'.won = true ∧ request.coordinate ∉ store.artifacts.coordinates ∧
        ∃ row deps, row.Records request ∧ json.loads row.deps = .ok deps ∧
          store'.artifacts.rows = store.artifacts.rows ++ [row]) := by
  cases h with
  | inserted data sha artifacts value hAbsent hRows =>
    obtain ⟨rfl, rfl, -⟩ := hSound
    obtain ⟨deps, hDeps⟩ := hJson value
    exact .inr ⟨rfl, hAbsent, _, deps, ⟨rfl, rfl, rfl, rfl⟩, hDeps, hRows⟩
  | _ => exact .inl ⟨rfl, rfl⟩

end Step

theorem Server.Inv.arrive {json : JsonModule} {s : Server} (h : s.Inv json) (request : Request) :
    Server.Inv json { s with requests := s.requests ++ [(request, .received)] } where
  readable := h.readable
  sound i r handler hAt := by
    rcases at_arrive hAt with hOld | ⟨-, rfl, rfl⟩
    · exact h.sound i r handler hOld
    · trivial
  recorded i r handler hAt hWon := by
    rcases at_arrive hAt with hOld | ⟨-, rfl, rfl⟩
    · exact h.recorded i r handler hOld hWon
    · cases hWon
  unique i j r r' handler handler' hAt hAt' hWon hWon' hSame := by
    rcases at_arrive hAt with hOld | ⟨-, rfl, rfl⟩
    · rcases at_arrive hAt' with hOld' | ⟨-, rfl, rfl⟩
      · exact h.unique i j r r' handler handler' hOld hOld' hWon hWon' hSame
      · cases hWon'
    · cases hWon
  origin row hRow := by
    obtain ⟨i, r, handler, hAt, hWon, hRecords⟩ := h.origin row hRow
    exact ⟨i, r, handler, at_arrive_of_at hAt, hWon, hRecords⟩

theorem Server.Inv.killed {json : JsonModule} {s : Server} (h : s.Inv json) (blobs : Blobs) :
    Server.Inv json { s.killed with store := { s.store with blobs } } where
  readable := h.readable
  sound i r handler hAt := by
    obtain ⟨last, hOld, rfl⟩ := at_killed.mp hAt
    exact (h.sound i r last hOld).kill
  recorded i r handler hAt hWon := by
    obtain ⟨last, hOld, rfl⟩ := at_killed.mp hAt
    exact h.recorded i r last hOld (by simpa using hWon)
  unique i j r r' handler handler' hAt hAt' hWon hWon' hSame := by
    obtain ⟨last, hOld, rfl⟩ := at_killed.mp hAt
    obtain ⟨last', hOld', rfl⟩ := at_killed.mp hAt'
    exact h.unique i j r r' last last' hOld hOld' (by simpa using hWon) (by simpa using hWon') hSame
  origin row hRow := by
    obtain ⟨i, r, handler, hAt, hWon, hRecords⟩ := h.origin row hRow
    exact ⟨i, r, handler.kill, at_killed.mpr ⟨handler, hAt, rfl⟩, by simpa using hWon, hRecords⟩

section Advance
variable {json : JsonModule} {s : Server} {i : Nat} {request : Request} {handler handler' : Handler}
variable {store : Store}

theorem Server.Inv.sound_update (h : s.Inv json) (hGrows : s.store.Grows store)
    (hSound : handler'.Sound store.artifacts request) (j : Nat) (r : Request) (last : Handler)
    (hAt : (s.update i request store handler').At j r last) : last.Sound store.artifacts r := by
  rcases at_update hAt with ⟨-, rfl, rfl⟩ | ⟨-, hOld⟩
  · exact hSound
  · exact (h.sound j r last hOld).mono hGrows.coordinates

theorem Server.Inv.quiet (h : s.Inv json) (hAt : s.At i request handler) (hGrows : s.store.Grows store)
    (hTable : store.artifacts = s.store.artifacts) (hSame : handler'.won = handler.won)
    (hSound : handler'.Sound store.artifacts request) :
    (s.update i request store handler').Inv json := by
  -- the publishes that have won are the same as before, at the same places
  have hWinner : ∀ j r last, (s.update i request store handler').At j r last → last.won = true →
      ∃ last', s.At j r last' ∧ last'.won = true := by
    intro j r last hAt' hWon
    rcases at_update hAt' with ⟨rfl, rfl, rfl⟩ | ⟨-, hOld⟩
    · exact ⟨handler, hAt, hSame.symm.trans hWon⟩
    · exact ⟨last, hOld, hWon⟩
  constructor
  · exact hTable ▸ h.readable
  · exact h.sound_update hGrows hSound
  · intro j r last hAt' hWon
    obtain ⟨last', hOld, hWon'⟩ := hWinner j r last hAt' hWon
    obtain ⟨row, hRow, hRecords⟩ := h.recorded j r last' hOld hWon'
    exact ⟨row, hGrows.rows row hRow, hRecords⟩
  · intro j k r r' last last' hAt₁ hAt₂ hWon₁ hWon₂ hCoordinate
    obtain ⟨_, hOld₁, hWon₁⟩ := hWinner j r last hAt₁ hWon₁
    obtain ⟨_, hOld₂, hWon₂⟩ := hWinner k r' last' hAt₂ hWon₂
    exact h.unique j k r r' _ _ hOld₁ hOld₂ hWon₁ hWon₂ hCoordinate
  · intro row hRow
    have hRow : row ∈ s.store.artifacts.rows := hTable ▸ hRow
    obtain ⟨j, r, last, hOld, hWon, hRecords⟩ := h.origin row hRow
    by_cases hIndex : j = i
    · subst hIndex
      cases hOld.symm.trans hAt
      exact ⟨j, request, handler', at_update_self hAt _ _ _, hSame.trans hWon, hRecords⟩
    · exact ⟨j, r, last, at_update_of_ne hOld hIndex _ _ _, hWon, hRecords⟩

theorem Server.Inv.not_won (h : s.Inv json) {j : Nat} {r : Request} {last : Handler}
    (hAbsent : r.coordinate ∉ s.store.artifacts.coordinates) (hAt : s.At j r last) :
    last.won ≠ true := by
  intro hWon
  obtain ⟨row, hRow, hRecords⟩ := h.recorded j r last hAt hWon
  exact hAbsent (hRecords.coordinate ▸ List.mem_map_of_mem hRow)

theorem Server.Inv.win (h : s.Inv json) (hAt : s.At i request handler) (hGrows : s.store.Grows store)
    (hWon : handler'.won = true) (hAbsent : request.coordinate ∉ s.store.artifacts.coordinates)
    {row : Row} {deps : Json} (hRecords : row.Records request) (hDeps : json.loads row.deps = .ok deps)
    (hRows : store.artifacts.rows = s.store.artifacts.rows ++ [row])
    (hSound : handler'.Sound store.artifacts request) :
    (s.update i request store handler').Inv json := by
  have hMem : ∀ row', row' ∈ store.artifacts.rows → row' ∈ s.store.artifacts.rows ∨ row' = row := by
    intro row' hRow'
    simpa [hRows] using hRow'
  constructor
  · intro row' hRow'
    rcases hMem row' hRow' with hOld | rfl
    · exact h.readable row' hOld
    · exact ⟨deps, hDeps⟩
  · exact h.sound_update hGrows hSound
  · intro j r last hAt' hWon'
    rcases at_update hAt' with ⟨-, rfl, rfl⟩ | ⟨-, hOld⟩
    · exact ⟨row, by simp [Server.update, hRows], hRecords⟩
    · obtain ⟨row', hRow', hRecords'⟩ := h.recorded j r last hOld hWon'
      exact ⟨row', hGrows.rows row' hRow', hRecords'⟩
  · intro j k r r' last last' hAt₁ hAt₂ hWon₁ hWon₂ hCoordinate
    rcases at_update hAt₁ with ⟨rfl, rfl, rfl⟩ | ⟨-, hOld₁⟩
    · rcases at_update hAt₂ with ⟨rfl, -, -⟩ | ⟨-, hOld₂⟩
      · rfl
      · exact absurd hWon₂ (h.not_won (hCoordinate ▸ hAbsent) hOld₂)
    · rcases at_update hAt₂ with ⟨rfl, rfl, rfl⟩ | ⟨-, hOld₂⟩
      · exact absurd hWon₁ (h.not_won (hCoordinate ▸ hAbsent) hOld₁)
      · exact h.unique j k r r' last last' hOld₁ hOld₂ hWon₁ hWon₂ hCoordinate
  · intro row' hRow'
    rcases hMem row' hRow' with hOld | rfl
    · obtain ⟨j, r, last, hOld', hWon', hRecords'⟩ := h.origin row' hOld
      by_cases hIndex : j = i
      · subst hIndex
        cases hOld'.symm.trans hAt
        exact absurd hWon' (h.not_won hAbsent hAt)
      · exact ⟨j, r, last, at_update_of_ne hOld' hIndex _ _ _, hWon', hRecords'⟩
    · exact ⟨i, request, handler', at_update_self hAt _ _ _, hWon, hRecords⟩

end Advance

theorem Server.Inv.moves {json : JsonModule} (hJson : json.Readable) {s t : Server} {e : Event}
    (h : s.Inv json) (hMove : Moves json s e t) : t.Inv json := by
  cases hMove with
  | arrive request => exact h.arrive request
  | advance i now request handler handler' store hAt hPublish =>
    have hOld := h.sound i request handler hAt
    have hSound := hPublish.sound h.readable hOld
    rcases hPublish.wins hJson hOld with ⟨hTable, hSame⟩ | ⟨hWon, hAbsent, row, deps, hRow, hDeps, hRows⟩
    · exact h.quiet hAt hPublish.grows hTable hSame hSound
    · exact h.win hAt hPublish.grows hWon hAbsent hRow hDeps hRows hSound
  | read name version => exact h
  | kill => exact h.killed s.store.blobs
  | killWriting i n request data hAt hAbsent => exact h.killed _

theorem run_inv {json : JsonModule} (hJson : json.Readable) {s : Server} {events : List Event}
    (h : Run (Server.Step json) Server.initial events s) : s.Inv json :=
  h.invariant (fun _ _ _ hInv hStep => hInv.moves hJson (Server.Step.moves hStep))
    (Server.inv_initial json)

/-! ## What clients observe -/

def Server.Responds (s : Server) (i : Nat) (request : Request) (status : Nat) : Prop :=
  ∃ answer, s.At i request (.answered answer) ∧ answer.statusCode 201 = status

theorem Moves.answered {json : JsonModule} {s t : Server} {e : Event} (h : Moves json s e t) {i : Nat}
    {request : Request} {answer : Answer Published} (hAt : s.At i request (.answered answer)) :
    t.At i request (.answered answer) := by
  cases h with
  | arrive r => exact at_arrive_of_at hAt
  | advance j now r handler handler' store hOther hPublish =>
    refine at_update_of_ne hAt ?_ _ _ _
    rintro rfl
    cases hAt.symm.trans hOther
    cases hPublish
  | read name version => exact hAt
  | kill => exact at_killed.mpr ⟨_, hAt, rfl⟩
  | killWriting j n r data hOther hAbsent => exact at_killed.mpr ⟨_, hAt, rfl⟩

theorem run_responds {json : JsonModule} {s t : Server} {events : List Event}
    (h : Run (Server.Step json) s events t) {i : Nat} {request : Request} {status : Nat}
    (hResponds : s.Responds i request status) : t.Responds i request status := by
  have hKeeps : ∀ u e v, Server.Responds u i request status → Server.Step json u e v →
      v.Responds i request status := by
    rintro u e v ⟨answer, hAt, hStatus⟩ hStep
    exact ⟨answer, (Server.Step.moves hStep).answered hAt, hStatus⟩
  have hPersists := h.invariant hKeeps
  exact hPersists hResponds

theorem Handler.Sound.responds {table : ArtifactTable} {request : Request} {answer : Answer Published}
    (h : Handler.Sound table request (.answered answer)) (hAdmissible : request.Admissible) :
    answer.statusCode 201 = 201 ∨
      (answer.statusCode 201 = 409 ∧ request.coordinate ∈ table.coordinates) := by
  cases answer with
  | ok body => exact .inl rfl
  | raised exc =>
    rcases h with ⟨-, hNot⟩ | hTaken
    · exact absurd hAdmissible hNot
    · exact .inr hTaken
  | internalServerError => exact h.elim

theorem Handler.Sound.won_of_created {table : ArtifactTable} {request : Request}
    {answer : Answer Published} (h : Handler.Sound table request (.answered answer))
    (hCreated : answer.statusCode 201 = 201) : Handler.won (.answered answer) = true := by
  cases answer with
  | ok body => rfl
  | raised exc =>
    rcases h with ⟨hStatus, -⟩ | ⟨hStatus, -⟩
    · cases hStatus.symm.trans hCreated
    · cases hStatus.symm.trans hCreated
  | internalServerError => exact h.elim

theorem Server.Inv.created_unique {json : JsonModule} {s : Server} (h : s.Inv json) {i j : Nat}
    {r r' : Request} (hi : s.Responds i r 201) (hj : s.Responds j r' 201)
    (hSame : r.coordinate = r'.coordinate) : i = j := by
  obtain ⟨answer, hAt, hCreated⟩ := hi
  obtain ⟨answer', hAt', hCreated'⟩ := hj
  exact h.unique i j r r' _ _ hAt hAt' ((h.sound _ _ _ hAt).won_of_created hCreated)
    ((h.sound _ _ _ hAt').won_of_created hCreated') hSame

/-- The publishes of one coordinate that carry a valid version and a matching checksum. -/
def Server.Contends (s : Server) (name version : String) (i : Nat) (request : Request)
    (handler : Handler) : Prop :=
  s.At i request handler ∧ request.coordinate = (name, version) ∧ request.Admissible

theorem Server.Inv.exists_created {json : JsonModule} {s : Server} (h : s.Inv json)
    {name version : String} (hSome : ∃ i r handler, s.Contends name version i r handler)
    (hDone : ∀ i r handler, s.Contends name version i r handler →
      ∃ answer, handler = .answered answer) :
    ∃ i r handler, s.Contends name version i r handler ∧ s.Responds i r 201 := by
  obtain ⟨i, r, handler, hContends⟩ := hSome
  obtain ⟨answer, rfl⟩ := hDone i r handler hContends
  rcases (h.sound i r _ hContends.1).responds hContends.2.2 with hCreated | ⟨-, hTaken⟩
  · exact ⟨i, r, _, hContends, answer, hContends.1, hCreated⟩
  · -- the coordinate is taken, so the publish that took it is one of them
    obtain ⟨row, hRow, hCoordinate⟩ := List.mem_map.mp hTaken
    obtain ⟨j, r', last, hAt, hWon, hRecords⟩ := h.origin row hRow
    have hWinner : s.Contends name version j r' last :=
      ⟨hAt, (hRecords.coordinate.symm.trans hCoordinate).trans hContends.2.1,
        (h.sound j r' last hAt).admissible hWon⟩
    obtain ⟨answer', rfl⟩ := hDone j r' last hWinner
    refine ⟨j, r', _, hWinner, answer', hAt, ?_⟩
    cases answer' with
    | ok body => rfl
    | raised exc => cases hWon
    | internalServerError => cases hWon

theorem concurrent_publish_safety {json : JsonModule} (hJson : json.Readable) {s t : Server}
    {events events' : List Event} (hRun : Run (Server.Step json) Server.initial events s)
    (hLater : Run (Server.Step json) s events' t) :
    (∀ i j r r', s.Responds i r 201 → t.Responds j r' 201 → r.coordinate = r'.coordinate → i = j) ∧
    (∀ name version, (∃ i r handler, t.Contends name version i r handler) →
      (∀ i r handler, t.Contends name version i r handler → ∃ answer, handler = .answered answer) →
      ∃ i r handler, t.Contends name version i r handler ∧ t.Responds i r 201 ∧
        ∀ j r' handler', t.Contends name version j r' handler' → j ≠ i → t.Responds j r' 409) ∧
    (∀ name version artifact, getArtifact json s.store.artifacts name version = .ok (some artifact) →
      getArtifact json t.store.artifacts name version = .ok (some artifact)) := by
  have hInv := run_inv hJson (hRun.append hLater)
  refine ⟨?_, ?_, ?_⟩
  · intro i j r r' hi hj hSame
    exact hInv.created_unique (run_responds hLater hi) hj hSame
  · intro name version hSome hDone
    obtain ⟨i, r, handler, hContends, hCreated⟩ := hInv.exists_created hSome hDone
    refine ⟨i, r, handler, hContends, hCreated, ?_⟩
    intro j r' handler' hContends' hOther
    obtain ⟨answer, rfl⟩ := hDone j r' handler' hContends'
    rcases (hInv.sound j r' _ hContends'.1).responds hContends'.2.2 with hCreated' | ⟨hConflict, -⟩
    · have hSame := hContends'.2.1.trans hContends.2.1.symm
      exact absurd (hInv.created_unique ⟨answer, hContends'.1, hCreated'⟩ hCreated hSame) hOther
    · exact ⟨answer, hContends'.1, hConflict⟩
  · intro name version artifact hGet
    exact (run_grows hLater).getArtifact hGet

/-- `json` on the text of the default form field `deps`. -/
def emptyDepsJson : JsonModule where
  loads text := if text = "[]" then .ok (.arr []) else .error ⟨"Expecting value"⟩
  dumps _ := "[]"

theorem emptyDepsJson_readable : emptyDepsJson.Readable := fun _ => ⟨.arr [], rfl⟩

def publishOf (name version : String) (file : Bytes) (publisher : String) : Request :=
  ⟨name, version, file, "sha256:" ++ sha256 file, "[]", publisher⟩

/-- Both publishes pass the existence check before either of them inserts its row. -/
def racingPublishes : List Event :=
  [.arrive (publishOf "lib-core" "1.0.0" [1] "ci"), .arrive (publishOf "lib-core" "1.0.0" [2] "dev"),
    .advance 0 "t0", .advance 1 "t0", .advance 1 "t0", .advance 0 "t0", .advance 0 "t0",
    .advance 1 "t0", .advance 1 "t0", .advance 0 "t0", .advance 1 "t1", .advance 0 "t1",
    .read "lib-core" "1.0.0", .advance 1 "t1"]

/-- Every request with the status of its answer, if it has one. -/
def Server.outcomes (s : Server) : List (Request × Option Nat) :=
  s.requests.map fun p =>
    match p.2 with
    | .answered answer => (p.1, some (answer.statusCode 201))
    | _ => (p.1, none)

theorem responds_of_outcomes {s : Server} {i status : Nat} {request : Request}
    (h : s.outcomes[i]? = some (request, some status)) : s.Responds i request status := by
  simp only [Server.outcomes, List.getElem?_map, Option.map_eq_some_iff] at h
  obtain ⟨⟨request', handler⟩, hAt, hStatus⟩ := h
  cases handler with
  | answered answer =>
    cases hStatus
    exact ⟨answer, hAt, rfl⟩
  | _ => cases hStatus

theorem concurrent_publish_safety_racing :
    ∃ t, execute (Server.next emptyDepsJson) Server.initial racingPublishes = some t ∧
      t.outcomes.map Prod.snd = [some 409, some 201] ∧
      ∀ i j r r', t.Responds i r 201 → t.Responds j r' 201 → r.coordinate = r'.coordinate →
        i = j := by
  have hRuns : (execute (Server.next emptyDepsJson) Server.initial racingPublishes).map
      (fun t => t.outcomes.map Prod.snd) = some [some 409, some 201] := by decide +kernel
  obtain ⟨t, hExecute, hOutcomes⟩ := Option.map_eq_some_iff.mp hRuns
  exact ⟨t, hExecute, hOutcomes, (concurrent_publish_safety emptyDepsJson_readable
    (run_stepsOf_iff.mpr hExecute) (.nil t)).1⟩

end Forge.Registry
