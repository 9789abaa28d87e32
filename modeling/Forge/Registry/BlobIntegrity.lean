import Forge.Registry.PublishSafety

/-! # Rows and their blobs

A row refers to a blob by its hash. The reference is sound while no publish reuses a file that a kill
has left incomplete, and without kills a download gives back what was published.
-/
namespace Forge.Registry
open Forge.Python Forge.Theory
set_option autoImplicit false

/-! ## Blobs that rows refer to -/

/-- Every hash in a row, or on its way into a row, has a blob of which `G` holds. -/
structure Server.Backed (G : String → Bytes → Prop) (s : Server) : Prop where
  rows : ∀ row ∈ s.store.artifacts.rows, ∃ content,
    getBlob s.store.blobs row.sha256 = some content ∧ G row.sha256 content
  stored : ∀ i request data sha, s.At i request (.stored data sha) → ∃ content,
    getBlob s.store.blobs sha = some content ∧ G sha content

/-- A publish that finds a file under the hash of its data finds one of which `G` holds. -/
def Server.Finds (G : String → Bytes → Prop) (s : Server) (e : Event) : Prop :=
  ∀ i now request data content, e = .advance i now → s.At i request (.verified data) →
    getBlob s.store.blobs (sha256 data) = some content → G (sha256 data) content

theorem Server.backed_initial (G : String → Bytes → Prop) : Server.initial.Backed G where
  rows := by simp [initial, ArtifactTable.empty]
  stored := by simp [Server.At, initial]

theorem kill_ne_stored (handler : Handler) (data : Bytes) (sha : String) :
    handler.kill ≠ .stored data sha := by
  cases handler <;> simp [Handler.kill]

section Backed
variable {G : String → Bytes → Prop} {s : Server} {json : JsonModule}

theorem Server.Backed.of_grows {rows : List Row} {store : Store} (h : s.Backed G)
    (hGrows : s.store.Grows store) (hRows : ∀ row ∈ rows, row ∈ s.store.artifacts.rows) (row : Row)
    (hRow : row ∈ rows) : ∃ content, getBlob store.blobs row.sha256 = some content ∧
      G row.sha256 content := by
  obtain ⟨content, hGet, hG⟩ := h.rows row (hRows row hRow)
  exact ⟨content, hGrows.blobs _ _ hGet, hG⟩

theorem Server.Backed.killed (h : s.Backed G) {blobs : Blobs}
    (hGrows : s.store.Grows { s.store with blobs }) :
    Server.Backed G { s.killed with store := { s.store with blobs } } where
  rows := h.of_grows hGrows fun _ hRow => hRow
  stored i request data sha hAt := by
    obtain ⟨last, -, hStored⟩ := at_killed.mp hAt
    exact absurd hStored.symm (kill_ne_stored last data sha)

theorem Publishes.backed {now : String} {request : Request} {handler handler' : Handler}
    {store : Store} (h : Publishes json now request s.store handler store handler')
    (hWrite : ∀ data, G (sha256 data) data) (hBacked : s.Backed G) {i : Nat}
    (hAt : s.At i request handler) (hFinds : s.Finds G (.advance i now)) :
    (∀ row ∈ store.artifacts.rows, ∃ content,
      getBlob store.blobs row.sha256 = some content ∧ G row.sha256 content) ∧
    (∀ data sha, handler' = .stored data sha → ∃ content,
      getBlob store.blobs sha = some content ∧ G sha content) := by
  cases h with
  | stored data =>
    refine ⟨hBacked.of_grows (s.store.grows_storeBlob data) fun _ hRow => hRow, ?_⟩
    rintro _ _ ⟨rfl, rfl⟩
    refine ⟨_, by rw [getBlob_storeBlob, if_pos rfl], ?_⟩
    cases hGet : getBlob s.store.blobs (sha256 data) with
    | none => exact hWrite data
    | some content => exact hFinds i now request data content rfl hAt hGet
  | inserted data sha artifacts value hAbsent hRows =>
    refine ⟨?_, fun _ _ hStored => nomatch hStored⟩
    intro row hRow
    rw [hRows] at hRow
    rcases List.mem_append.mp hRow with hOld | hNew
    · exact hBacked.rows row hOld
    · cases List.mem_singleton.mp hNew
      exact hBacked.stored i request data sha hAt
  | _ => exact ⟨hBacked.rows, fun _ _ hStored => nomatch hStored⟩

theorem Server.Backed.moves {t : Server} {e : Event} (h : s.Backed G)
    (hWrite : ∀ data, G (sha256 data) data) (hFinds : s.Finds G e) (hMove : Moves json s e t) :
    t.Backed G := by
  cases hMove with
  | arrive request =>
    refine ⟨h.rows, ?_⟩
    intro i r data sha hAt
    rcases at_arrive hAt with hOld | ⟨-, -, hReceived⟩
    · exact h.stored i r data sha hOld
    · cases hReceived
  | advance i now request handler handler' store hAt hPublish =>
    obtain ⟨hRows, hStored⟩ := hPublish.backed hWrite h hAt hFinds
    refine ⟨hRows, ?_⟩
    intro j r data sha hAt'
    rcases at_update hAt' with ⟨-, -, hSame⟩ | ⟨-, hOld⟩
    · exact hStored data sha hSame.symm
    · obtain ⟨content, hGet, hG⟩ := h.stored j r data sha hOld
      exact ⟨content, hPublish.grows.blobs _ _ hGet, hG⟩
  | read name version => exact h
  | kill => exact h.killed (.refl _)
  | killWriting i n request data hAt hAbsent => exact h.killed (Store.grows_set _ hAbsent)

end Backed

/-! ## Integrity of the committed rows -/

/-- A publish that finds a file under the hash of its data finds the whole data there. -/
def Server.findsComplete (s : Server) : Event → Bool
  | .advance i _ =>
    match s.requests[i]? with
    | some (_, .verified data) =>
      match getBlob s.store.blobs (sha256 data) with
      | none => true
      | some content => content = data
    | _ => true
  | _ => true

def IntactBlob (sha : String) (content : Bytes) : Prop := sha256 content = sha

theorem finds_of_findsComplete {s : Server} {e : Event} (h : s.findsComplete e = true) :
    s.Finds IntactBlob e := by
  rintro i now request data content rfl hAt hGet
  unfold Server.At at hAt
  simp only [Server.findsComplete, hAt, hGet, decide_eq_true_eq] at h
  rw [h]
  rfl

theorem rows_intact {json : JsonModule} {s : Server} {events : List Event}
    (hRun : Run (restrict (Server.Step json) fun s e => s.findsComplete e = true)
      Server.initial events s) :
    ∀ row ∈ s.store.artifacts.rows, ∃ content,
      getBlob s.store.blobs row.sha256 = some content ∧ sha256 content = row.sha256 := by
  have hBacked : s.Backed IntactBlob := by
    refine hRun.invariant ?_ (Server.backed_initial IntactBlob)
    rintro u e v hBacked ⟨hStep, hComplete⟩
    exact hBacked.moves (fun _ => rfl) (finds_of_findsComplete hComplete) (Server.Step.moves hStep)
  exact hBacked.rows

/-- The process is killed when one of two bytes is written, and the same publish is sent again. -/
def tornPublish : List Event :=
  let request := publishOf "lib-core" "1.0.0" [1, 2] "ci"
  [.arrive request, .advance 0 "t0", .advance 0 "t0", .advance 0 "t0", .killWriting 0 1,
    .arrive request, .advance 1 "t1", .advance 1 "t1", .advance 1 "t1", .advance 1 "t1",
    .advance 1 "t1", .advance 1 "t1"]

/-- The hash in every row, beside the content of its blob. -/
def Server.rowBlobs (s : Server) : List (String × Option Bytes) :=
  s.store.artifacts.rows.map fun row => (row.sha256, getBlob s.store.blobs row.sha256)

theorem mem_rowBlobs {s : Server} {sha : String} {blob : Option Bytes} (h : (sha, blob) ∈ s.rowBlobs) :
    ∃ row ∈ s.store.artifacts.rows, row.sha256 = sha ∧ getBlob s.store.blobs sha = blob := by
  obtain ⟨row, hRow, hPair⟩ := List.mem_map.mp h
  cases hPair
  exact ⟨row, hRow, rfl, rfl⟩

theorem rows_not_intact :
    ¬ ∀ json s events, Run (Server.Step json) Server.initial events s →
      ∀ row ∈ s.store.artifacts.rows, ∃ content,
        getBlob s.store.blobs row.sha256 = some content ∧ sha256 content = row.sha256 := by
  intro h
  have hRuns : (execute (Server.next emptyDepsJson) Server.initial tornPublish).map Server.rowBlobs =
      some [(sha256 [1, 2], some [1])] := by decide +kernel
  have hHash : sha256 [1] ≠ sha256 [1, 2] := by decide +kernel
  obtain ⟨s, hExecute, hRows⟩ := Option.map_eq_some_iff.mp hRuns
  obtain ⟨row, hRow, hSha, hBlob⟩ := mem_rowBlobs (hRows ▸ List.mem_singleton.mpr rfl)
  obtain ⟨content, hGet, hIntact⟩ := h _ s _ (run_stepsOf_iff.mpr hExecute) row hRow
  rw [hSha, hBlob] at hGet
  cases hGet
  exact hHash (hIntact.trans hSha)

/-- A kill that loses nothing but the publish, which is then sent again. -/
def killedPublish : List Event :=
  let request := publishOf "lib-core" "1.0.0" [1, 2] "ci"
  [.arrive request, .advance 0 "t0", .advance 0 "t0", .advance 0 "t0", .advance 0 "t0", .kill,
    .arrive request, .advance 1 "t1", .advance 1 "t1", .advance 1 "t1", .advance 1 "t1",
    .advance 1 "t1", .advance 1 "t1"]

theorem rows_intact_killed :
    ∃ s, execute (guarded (Server.next emptyDepsJson) fun s e => s.findsComplete e = true)
        Server.initial killedPublish = some s ∧
      s.rowBlobs = [(sha256 [1, 2], some [1, 2])] ∧
      ∀ row ∈ s.store.artifacts.rows, ∃ content,
        getBlob s.store.blobs row.sha256 = some content ∧ sha256 content = row.sha256 := by
  have hRuns : (execute (guarded (Server.next emptyDepsJson) fun s e => s.findsComplete e = true)
      Server.initial killedPublish).map Server.rowBlobs =
        some [(sha256 [1, 2], some [1, 2])] := by decide +kernel
  obtain ⟨s, hExecute, hRows⟩ := Option.map_eq_some_iff.mp hRuns
  have hRun := (run_stepsOf_iff.mpr hExecute).mono fun _ _ _ => stepsOf_guarded
  exact ⟨s, hExecute, hRows, rows_intact hRun⟩

/-! ## The round trip of an artifact -/

def Event.isKill : Event → Bool
  | .kill => true
  | .killWriting _ _ => true
  | _ => false

/-- Every file is whole: it is the file of a publish, under its own hash. -/
def Server.Whole (s : Server) : Prop :=
  ∀ sha content, getBlob s.store.blobs sha = some content →
    sha256 content = sha ∧ ∃ i request handler, s.At i request handler ∧ request.file = content

/-- No two published files have the same hash. -/
def Server.NoCollision (s : Server) : Prop :=
  ∀ i j r r' handler handler', s.At i r handler → s.At j r' handler' →
    sha256 r.file = sha256 r'.file → r.file = r'.file

theorem Server.Whole.moves {json : JsonModule} {s t : Server} {e : Event} (h : s.Whole)
    (hInv : s.Inv json) (hAlive : e.isKill = false) (hMove : Moves json s e t) : t.Whole := by
  cases hMove with
  | arrive request =>
    intro sha content hGet
    obtain ⟨hSha, i, r, handler, hAt, hFile⟩ := h sha content hGet
    exact ⟨hSha, i, r, handler, at_arrive_of_at hAt, hFile⟩
  | advance i now request handler handler' store hAt hPublish =>
    -- the requests keep their files, whatever becomes of their handlers
    have hKeeps : ∀ j r last, s.At j r last →
        ∃ last', (s.update i request store handler').At j r last' := by
      intro j r last hOld
      by_cases hIndex : j = i
      · subst hIndex
        cases hOld.symm.trans hAt
        exact ⟨handler', at_update_self hAt _ _ _⟩
      · exact ⟨last, at_update_of_ne hOld hIndex _ _ _⟩
    intro sha content hGet
    have hNew : getBlob s.store.blobs sha = some content ∨
        (content = request.file ∧ sha = sha256 request.file) := by
      cases hPublish with
      | stored data =>
        have hData := (hInv.sound i request _ hAt).1
        simp only [Server.update, getBlob_storeBlob] at hGet
        split at hGet
        · rename_i hSha
          cases hBlob : getBlob s.store.blobs sha with
          | none =>
            rw [hBlob] at hGet
            cases hGet
            exact .inr ⟨hData, hData ▸ hSha⟩
          | some old =>
            rw [hBlob] at hGet
            exact .inl hGet
        · exact .inl hGet
      | _ => exact .inl hGet
    rcases hNew with hOld | ⟨rfl, rfl⟩
    · obtain ⟨hSha, j, r, last, hOld, hFile⟩ := h sha content hOld
      obtain ⟨last', hAt'⟩ := hKeeps j r last hOld
      exact ⟨hSha, j, r, last', hAt', hFile⟩
    · exact ⟨rfl, i, request, handler', at_update_self hAt _ _ _, rfl⟩
  | read name version => exact h
  | kill => cases hAlive
  | killWriting i n request data hAt hAbsent => cases hAlive

theorem run_whole {json : JsonModule} (hJson : json.Readable) {s : Server} {events : List Event}
    (hRun : Run (Server.Step json) Server.initial events s)
    (hAlive : ∀ e ∈ events, e.isKill = false) : s.Whole := by
  have hRestricted : Run (restrict (Server.Step json) fun _ e => e.isKill = false)
      Server.initial events s := hRun.restrict_of_forall fun e he _ => hAlive e he
  have hStep : ∀ u e v, Server.Inv json u ∧ u.Whole →
      restrict (Server.Step json) (fun _ e => e.isKill = false) u e v → v.Inv json ∧ v.Whole := by
    rintro u e v ⟨hInv, hWhole⟩ ⟨hStep, hLive⟩
    have hMove := Server.Step.moves hStep
    exact ⟨hInv.moves hJson hMove, hWhole.moves hInv hLive hMove⟩
  have hKeeps := hRestricted.invariant hStep
  exact (hKeeps ⟨Server.inv_initial json, fun sha content hGet => nomatch hGet⟩).2

theorem run_backed {json : JsonModule} {s : Server} {events : List Event}
    (hRun : Run (Server.Step json) Server.initial events s) : s.Backed fun _ _ => True := by
  refine hRun.invariant ?_ (Server.backed_initial _)
  intro u e v hBacked hStep
  exact hBacked.moves (fun _ => trivial) (fun _ _ _ _ _ _ _ _ => trivial) (Server.Step.moves hStep)

theorem download_iff_nonempty {json : JsonModule} (hJson : json.Readable) {s t : Server}
    {events events' : List Event} (hRun : Run (Server.Step json) Server.initial events s)
    (hLater : Run (Server.Step json) s events' t)
    (hAlive : ∀ e ∈ events ++ events', e.isKill = false) (hNoCollision : t.NoCollision) {i : Nat}
    {request : Request} (hCreated : s.Responds i request 201) :
    downloadArtifact json t.store request.name request.version =
        .ok ⟨request.file, sha256 request.file⟩ ↔ request.file ≠ [] := by
  have hWholeRun := hRun.append hLater
  have hInv := run_inv hJson hWholeRun
  obtain ⟨answer, hAt, hStatus⟩ := run_responds hLater hCreated
  have hWon := (hInv.sound i request _ hAt).won_of_created hStatus
  obtain ⟨row, hRow, hRecords⟩ := hInv.recorded i request _ hAt hWon
  obtain ⟨deps, hDeps⟩ := hInv.readable row hRow
  obtain ⟨content, hBlob, -⟩ := (run_backed hWholeRun).rows row hRow
  -- the blob is a published file with the hash of the row, so it is the file of this publish
  have hContent : content = request.file := by
    obtain ⟨hSha, j, r, handler, hOther, rfl⟩ := run_whole hJson hWholeRun hAlive _ _ hBlob
    exact hNoCollision j i r request _ _ hOther hAt (hSha.trans hRecords.sha256)
  have hSelect : t.store.artifacts.select request.name request.version = some row :=
    ArtifactTable.select_eq_some_iff.mpr ⟨hRow, hRecords.coordinate⟩
  rw [hContent, hRecords.sha256] at hBlob
  rw [downloadArtifact, getArtifact_of_select hSelect hDeps]
  simp only [Row.toArtifact, hRecords.sha256, hBlob]
  split
  · rename_i hEmpty
    simp [hEmpty]
  · rename_i hNonempty
    simp [hNonempty]

def publishOnce (file : Bytes) : List Event :=
  .arrive (publishOf "lib-core" "1.0.0" file "ci") :: List.replicate 6 (.advance 0 "t0")

theorem publishOnce_alive (file : Bytes) : ∀ e ∈ publishOnce file, e.isKill = false := by
  intro e he
  rcases List.mem_cons.mp he with rfl | he
  · rfl
  · rw [List.eq_of_mem_replicate he]
    rfl

theorem noCollision_of_outcomes {s : Server} {request : Request} {status : Option Nat}
    (h : s.outcomes = [(request, status)]) : s.NoCollision := by
  have hFile : ∀ i r handler, s.At i r handler → r = request := by
    intro i r handler hAt
    have hMem : r ∈ s.outcomes.map Prod.fst := by
      simp only [Server.outcomes, List.map_map, List.mem_map]
      refine ⟨(r, handler), List.mem_of_getElem? hAt, ?_⟩
      cases handler <;> rfl
    simpa [h] using hMem
  intro i j r r' handler handler' hAt hAt' _
  rw [hFile i r handler hAt, hFile j r' handler' hAt']

theorem download_not_round_trip :
    ¬ ∀ json, JsonModule.Readable json → ∀ s t events events',
      Run (Server.Step json) Server.initial events s → Run (Server.Step json) s events' t →
      (∀ e ∈ events ++ events', e.isKill = false) → t.NoCollision → ∀ i request,
      s.Responds i request 201 → downloadArtifact json t.store request.name request.version =
        .ok ⟨request.file, sha256 request.file⟩ := by
  intro h
  have hRuns : (execute (Server.next emptyDepsJson) Server.initial (publishOnce [])).map
      Server.outcomes = some [(publishOf "lib-core" "1.0.0" [] "ci", some 201)] := by decide +kernel
  obtain ⟨t, hExecute, hOutcomes⟩ := Option.map_eq_some_iff.mp hRuns
  have hRun := run_stepsOf_iff.mpr hExecute
  have hAlive : ∀ e ∈ publishOnce [] ++ [], e.isKill = false := by
    rw [List.append_nil]
    exact publishOnce_alive []
  have hCreated : t.Responds 0 (publishOf "lib-core" "1.0.0" [] "ci") 201 :=
    responds_of_outcomes (by rw [hOutcomes]; rfl)
  have hDownload := h _ emptyDepsJson_readable t t _ [] hRun (.nil t) hAlive
    (noCollision_of_outcomes hOutcomes) 0 _ hCreated
  rw [downloadArtifact] at hDownload
  split at hDownload
  · cases hDownload
  · cases hDownload
  · split at hDownload
    · cases hDownload
    · split at hDownload
      · cases hDownload
      · rename_i hNonempty
        simp only [Answer.ok.injEq, Download.mk.injEq] at hDownload
        exact hNonempty hDownload.1

theorem download_iff_nonempty_once :
    ∃ t, execute (Server.next emptyDepsJson) Server.initial (publishOnce [104, 105]) = some t ∧
      downloadArtifact emptyDepsJson t.store "lib-core" "1.0.0" =
        .ok ⟨[104, 105], sha256 [104, 105]⟩ := by
  have hRuns : (execute (Server.next emptyDepsJson) Server.initial (publishOnce [104, 105])).map
      Server.outcomes = some [(publishOf "lib-core" "1.0.0" [104, 105] "ci", some 201)] := by
    decide +kernel
  obtain ⟨t, hExecute, hOutcomes⟩ := Option.map_eq_some_iff.mp hRuns
  have hCreated : t.Responds 0 (publishOf "lib-core" "1.0.0" [104, 105] "ci") 201 :=
    responds_of_outcomes (by rw [hOutcomes]; rfl)
  have hAlive : ∀ e ∈ publishOnce [104, 105] ++ [], e.isKill = false := by
    rw [List.append_nil]
    exact publishOnce_alive _
  exact ⟨t, hExecute, (download_iff_nonempty emptyDepsJson_readable (run_stepsOf_iff.mpr hExecute)
    (.nil t) hAlive (noCollision_of_outcomes hOutcomes) hCreated).mpr (List.cons_ne_nil _ _)⟩

end Forge.Registry
