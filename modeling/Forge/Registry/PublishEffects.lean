import Forge.Registry.BlobIntegrity
import Forge.Registry.ValidVersion

/-! # What readers see of a publish

A publish that is rejected leaves no trace in the answers of the registry, even where it has stored its blob.
One that is accepted adds its own version and touches no other answer.
-/
namespace Forge.Registry
open Forge.Python Forge.Theory
set_option autoImplicit false

/-! ## Answers of the store -/

/-- The answers about one version of an artifact are the same. -/
structure Store.SameArtifact (json : JsonModule) (s t : Store) (name version : String) : Prop where
  artifact : getArtifact json s.artifacts name version = getArtifact json t.artifacts name version
  download : downloadArtifact json s name version = downloadArtifact json t name version

/-- No reader can tell the two stores apart. -/
structure Store.Unchanged (json : JsonModule) (s t : Store) : Prop where
  artifacts : ∀ name version, s.SameArtifact json t name version
  versions : ∀ name, listVersions s.artifacts name = listVersions t.artifacts name

/-- Only the answers about one version have changed; it is new and listed next to the versions before. -/
structure Store.Adds (json : JsonModule) (name version : String) (s t : Store) : Prop where
  others : ∀ name' version', (name', version') ≠ (name, version) → s.SameArtifact json t name' version'
  otherNames : ∀ name', name' ≠ name → listVersions s.artifacts name' = listVersions t.artifacts name'
  listed : ∃ entries entry entries', listVersions s.artifacts name = .ok entries ∧
    listVersions t.artifacts name = .ok entries' ∧ entry.version = version ∧
    version ∉ entries.map VersionEntry.version ∧ entries'.Perm (entry :: entries)

section
variable {json : JsonModule} {s t u : Store} {name version : String}

theorem Store.SameArtifact.trans (h : s.SameArtifact json t name version)
    (h' : t.SameArtifact json u name version) : s.SameArtifact json u name version :=
  ⟨h.artifact.trans h'.artifact, h.download.trans h'.download⟩

theorem Store.Unchanged.refl (s : Store) : s.Unchanged json s :=
  ⟨fun _ _ => ⟨rfl, rfl⟩, fun _ => rfl⟩

theorem Store.Unchanged.trans (h : s.Unchanged json t) (h' : t.Unchanged json u) : s.Unchanged json u :=
  ⟨fun name version => (h.artifacts name version).trans (h'.artifacts name version),
    fun name => (h.versions name).trans (h'.versions name)⟩

theorem Store.Unchanged.adds (h : s.Unchanged json t) (h' : t.Adds json name version u) :
    s.Adds json name version u where
  others name' version' hOther := (h.artifacts name' version').trans (h'.others name' version' hOther)
  otherNames name' hOther := (h.versions name').trans (h'.otherNames name' hOther)
  listed := by
    obtain ⟨entries, entry, entries', hBefore, hAfter⟩ := h'.listed
    exact ⟨entries, entry, entries', (h.versions name).trans hBefore, hAfter⟩

theorem Store.Adds.unchanged (h : s.Adds json name version t) (h' : t.Unchanged json u) :
    s.Adds json name version u where
  others name' version' hOther := (h.others name' version' hOther).trans (h'.artifacts name' version')
  otherNames name' hOther := (h.otherNames name' hOther).trans (h'.versions name')
  listed := by
    obtain ⟨entries, entry, entries', hBefore, hAfter, hNew⟩ := h.listed
    exact ⟨entries, entry, entries', hBefore, (h'.versions name).symm.trans hAfter, hNew⟩

/-! ## Growth that readers do not see -/

/-- Every row has its blob. -/
def Store.Complete (store : Store) : Prop :=
  ∀ row ∈ store.artifacts.rows, ∃ content, getBlob store.blobs row.sha256 = some content

theorem downloadArtifact_congr (hGet : getArtifact json s.artifacts name version =
      getArtifact json t.artifacts name version)
    (hBlob : ∀ artifact, getArtifact json s.artifacts name version = .ok (some artifact) →
      getBlob s.blobs artifact.sha256 = getBlob t.blobs artifact.sha256) :
    downloadArtifact json s name version = downloadArtifact json t name version := by
  unfold downloadArtifact
  rw [← hGet]
  cases hArtifact : getArtifact json s.artifacts name version with
  | error e => rfl
  | ok found =>
    cases found with
    | none => rfl
    | some artifact => simp only [hBlob artifact hArtifact]

theorem Store.Grows.unchanged (h : s.Grows t) (hComplete : s.Complete) (hTable : t.artifacts = s.artifacts) :
    s.Unchanged json t := by
  have hGet : ∀ name version, Registry.getArtifact json s.artifacts name version =
      Registry.getArtifact json t.artifacts name version := fun _ _ => by rw [hTable]
  refine ⟨fun name version => ⟨hGet name version, ?_⟩, fun _ => by rw [hTable]⟩
  refine downloadArtifact_congr (hGet name version) fun artifact hArtifact => ?_
  obtain ⟨row, deps, hSelect, -, rfl⟩ := getArtifact_some hArtifact
  obtain ⟨content, hContent⟩ := hComplete row (ArtifactTable.select_eq_some_iff.mp hSelect).1
  exact hContent.trans (h.blobs _ _ hContent).symm

/-! ## A new row -/

variable {row : Row}

theorem select_append (hRows : t.artifacts.rows = s.artifacts.rows ++ [row])
    (hOther : (name, version) ≠ row.coordinate) :
    t.artifacts.select name version = s.artifacts.select name version := by
  rw [ArtifactTable.select, ArtifactTable.select, hRows, List.find?_append]
  simp [Ne.symm hOther]

theorem Store.adds_row (hRows : t.artifacts.rows = s.artifacts.rows ++ [row]) (hBlobs : t.blobs = s.blobs)
    (hAbsent : row.coordinate ∉ s.artifacts.coordinates)
    (hValid : ∀ r ∈ t.artifacts.rows, isValidSemver r.version = true) :
    s.Adds json row.name row.version t := by
  constructor
  · intro name' version' hOther
    have hGet : getArtifact json s.artifacts name' version' = getArtifact json t.artifacts name' version' := by
      rw [getArtifact, getArtifact, select_append hRows hOther]
    exact ⟨hGet, downloadArtifact_congr hGet fun _ _ => by rw [hBlobs]⟩
  · intro name' hOther
    rw [listVersions, listVersions, hRows, List.filter_append]
    simp [Ne.symm hOther]
  · obtain ⟨entries, hEntries⟩ : ∃ entries, listVersions s.artifacts row.name = .ok entries := by
      refine listVersions_of_keys fun r hr _ => versionKey_of_valid (hValid r ?_)
      rw [hRows]
      exact List.mem_append_left _ hr
    obtain ⟨entries', hEntries'⟩ : ∃ entries, listVersions t.artifacts row.name = .ok entries :=
      listVersions_of_keys fun r hr _ => versionKey_of_valid (hValid r hr)
    refine ⟨entries, ⟨row.version, row.sha256, row.size, row.publishedAt⟩, entries', hEntries, hEntries', rfl, ?_, ?_⟩
    · intro hListed
      obtain ⟨r, hr, hVersion⟩ := List.mem_map.mp ((listVersions_perm hEntries).mem_iff.mp hListed)
      obtain ⟨hr, hName⟩ := List.mem_filter.mp hr
      apply hAbsent
      rw [Row.coordinate, ← hVersion, ← of_decide_eq_true hName]
      exact List.mem_map_of_mem hr
    · have hBefore := sortedByKey_perm hEntries
      have hAfter := sortedByKey_perm hEntries'
      rw [hRows, List.filter_append, List.map_append] at hAfter
      refine hAfter.trans ((hBefore.symm.append_right _).trans ?_)
      rw [List.filter_singleton, decide_eq_true rfl]
      exact List.perm_append_singleton _ _

end

/-! ## Steps -/

section
variable {json : JsonModule} {s t : Server} {e : Event} {events : List Event}

theorem Server.Backed.complete {G : String → Bytes → Prop} (h : s.Backed G) : s.store.Complete :=
  fun row hRow => (h.rows row hRow).imp fun _ h => h.1

theorem Server.Inv.valid (h : s.Inv json) : ∀ row ∈ s.store.artifacts.rows, isValidSemver row.version = true := by
  intro row hRow
  obtain ⟨i, request, handler, hAt, hWon, hRecords⟩ := h.origin row hRow
  have hSame : row.version = request.version := congrArg Prod.snd hRecords.coordinate
  rw [hSame]
  exact ((h.sound i request handler hAt).admissible hWon).version

/-- What a reachable state satisfies, kills included. -/
structure Server.Sane (json : JsonModule) (s : Server) : Prop where
  inv : s.Inv json
  backed : s.Backed fun _ _ => True

theorem Server.Sane.moves (hJson : json.Readable) (h : s.Sane json) (hMove : Moves json s e t) : t.Sane json where
  inv := h.inv.moves hJson hMove
  backed := h.backed.moves (fun _ => trivial) (fun _ _ _ _ _ _ _ _ => trivial) hMove

theorem Server.Sane.run (hJson : json.Readable) (h : s.Sane json) (hRun : Run (Server.Step json) s events t) :
    t.Sane json :=
  hRun.invariant (fun _ _ _ hSane hStep => hSane.moves hJson (Server.Step.moves hStep)) h

theorem Server.sane_initial (json : JsonModule) : Server.initial.Sane json :=
  ⟨Server.inv_initial json, Server.backed_initial _⟩

/-- A publish keeps its request, and once it has won it has won for good. -/
theorem Moves.keeps (h : Moves json s e t) {i : Nat} {request : Request} {handler : Handler}
    (hAt : s.At i request handler) :
    ∃ handler', t.At i request handler' ∧ (handler.won = true → handler'.won = true) := by
  cases h with
  | arrive r => exact ⟨handler, at_arrive_of_at hAt, id⟩
  | advance j now r last last' store hOther hPublish =>
    by_cases hIndex : i = j
    · subst hIndex
      cases hAt.symm.trans hOther
      refine ⟨last', at_update_self hAt _ _ _, fun hWon => ?_⟩
      cases hPublish with
      | answered data sha => rfl
      | _ => cases hWon
    · exact ⟨handler, at_update_of_ne hAt hIndex _ _ _, id⟩
  | read name version => exact ⟨handler, hAt, id⟩
  | kill => exact ⟨handler.kill, at_killed.mpr ⟨handler, hAt, rfl⟩, by simp⟩
  | killWriting j n r data hOther hAbsent => exact ⟨handler.kill, at_killed.mpr ⟨handler, hAt, rfl⟩, by simp⟩

theorem run_keeps (h : Run (Server.Step json) s events t) {i : Nat} {request : Request} {handler : Handler}
    (hAt : s.At i request handler) :
    ∃ handler', t.At i request handler' ∧ (handler.won = true → handler'.won = true) := by
  induction h generalizing handler with
  | nil s => exact ⟨handler, hAt, id⟩
  | cons head _ ih =>
    obtain ⟨last, hLast, hWon⟩ := (Server.Step.moves head).keeps hAt
    obtain ⟨handler', hAt', hWon'⟩ := ih hLast
    exact ⟨handler', hAt', fun h => hWon' (hWon h)⟩

/-- No publish but `i` advances in this event. -/
def Event.Of (i : Nat) : Event → Prop
  | .advance j _ => j = i
  | _ => True

/-- Readers see nothing of publish `i`, which has not won in between. -/
structure Server.Quiet (json : JsonModule) (i : Nat) (s t : Server) : Prop where
  unchanged : s.store.Unchanged json t.store
  before : ∀ request handler, t.At i request handler → handler.won = true →
    ∃ last, s.At i request last ∧ last.won = true

/-- Publish `i` has won in between, and readers see the version that it adds. -/
structure Server.Wins (json : JsonModule) (i : Nat) (s t : Server) : Prop where
  adds : ∃ request handler, t.At i request handler ∧ handler.won = true ∧
    s.store.Adds json request.name request.version t.store
  before : ∀ request handler, s.At i request handler → handler.won = false

theorem Server.Quiet.refl (i : Nat) (s : Server) : s.Quiet json i s :=
  ⟨.refl _, fun _ handler hAt hWon => ⟨handler, hAt, hWon⟩⟩

theorem Server.Quiet.killed {i : Nat} {blobs : Blobs}
    (h : s.store.Unchanged json { s.store with blobs }) :
    s.Quiet json i { s.killed with store := { s.store with blobs } } := by
  refine ⟨h, fun request handler hAt hWon => ?_⟩
  obtain ⟨last, hLast, rfl⟩ := at_killed.mp hAt
  exact ⟨last, hLast, by simpa using hWon⟩

theorem Server.Quiet.update {i : Nat} {request : Request} {store : Store} {handler handler' : Handler}
    (h : s.store.Unchanged json store) (hAt : s.At i request handler) (hSame : handler'.won = handler.won) :
    s.Quiet json i (s.update i request store handler') := by
  refine ⟨h, fun request' last hLast hWon => ?_⟩
  rcases at_update hLast with ⟨-, rfl, rfl⟩ | ⟨hOther, -⟩
  · exact ⟨handler, hAt, hSame.symm.trans hWon⟩
  · exact absurd rfl hOther

theorem Moves.effect (h : Moves json s e t) (hJson : json.Readable) (hSane : s.Sane json) {i : Nat}
    (hOf : e.Of i) : s.Quiet json i t ∨ s.Wins json i t := by
  have hValid := (hSane.moves hJson h).inv.valid
  have hComplete := hSane.backed.complete
  cases h with
  | arrive request =>
    refine .inl ⟨.refl _, fun r handler hAt hWon => ?_⟩
    rcases at_arrive hAt with hOld | ⟨-, -, rfl⟩
    · exact ⟨handler, hOld, hWon⟩
    · cases hWon
  | advance j now request handler handler' store hAt hPublish =>
    cases hOf
    have hGrows := hPublish.grows
    cases hPublish with
    | inserted data sha artifacts value hAbsent hRows =>
      refine .inr ⟨⟨request, _, at_update_self hAt _ _ _, rfl, ?_⟩, ?_⟩
      · exact Store.adds_row (s := s.store) (t := ⟨artifacts, s.store.blobs⟩) hRows rfl hAbsent hValid
      · intro request' handler' hAt'
        cases hAt.symm.trans hAt'
        rfl
    | _ => exact .inl (.update (hGrows.unchanged hComplete rfl) hAt rfl)
  | read name version => exact .inl (.refl i s)
  | kill => exact .inl (.killed (.refl _))
  | killWriting j n request data hAt hAbsent =>
    exact .inl (.killed ((Store.grows_set _ hAbsent).unchanged hComplete rfl))

theorem Server.Quiet.trans {u : Server} {i : Nat} (h : s.Quiet json i t) (h' : t.Quiet json i u) :
    s.Quiet json i u := by
  refine ⟨h.unchanged.trans h'.unchanged, fun request handler hAt hWon => ?_⟩
  obtain ⟨last, hLast, hWon'⟩ := h'.before request handler hAt hWon
  exact h.before request last hLast hWon'

/-- In a run of one publish readers see nothing, or the one version that it adds. -/
theorem run_effect (hJson : json.Readable) (h : Run (Server.Step json) s events t) (hSane : s.Sane json) {i : Nat}
    (hOf : ∀ e ∈ events, e.Of i) : s.Quiet json i t ∨ s.Wins json i t := by
  induction h with
  | nil s => exact .inl (.refl i s)
  | cons head tail ih =>
    have hMove := Server.Step.moves head
    have hLater := ih (hSane.moves hJson hMove) fun e he => hOf e (List.mem_cons_of_mem _ he)
    rcases hMove.effect hJson hSane (hOf _ List.mem_cons_self) with hQuiet | hWins
    · rcases hLater with hQuiet' | hWins
      · exact .inl (hQuiet.trans hQuiet')
      · obtain ⟨⟨request, handler, hAt, hWon, hAdds⟩, hBefore⟩ := hWins
        refine .inr ⟨⟨request, handler, hAt, hWon, hQuiet.unchanged.adds hAdds⟩, ?_⟩
        intro request' handler' hAt'
        obtain ⟨last, hLast, hKeeps⟩ := hMove.keeps hAt'
        rw [← Bool.not_eq_true]
        intro hEarly
        cases (hBefore _ _ hLast).symm.trans (hKeeps hEarly)
    · obtain ⟨⟨request, handler, hAt, hWon, hAdds⟩, hBefore⟩ := hWins
      refine .inr ⟨?_, hBefore⟩
      rcases hLater with hQuiet | hAgain
      · obtain ⟨handler', hAt', hKeeps⟩ := run_keeps tail hAt
        exact ⟨request, handler', hAt', hKeeps hWon, hAdds.unchanged hQuiet.unchanged⟩
      · cases (hAgain.before _ _ hAt).symm.trans hWon

end

/-! ## Rejected and accepted publishes -/

section
variable {json : JsonModule} {s t u : Server} {earlier own later : List Event} {i : Nat} {request : Request}
variable {answer : Answer Published}

theorem statusCode_of_won (h : Handler.won (.answered answer) = true) : answer.statusCode 201 = 201 := by
  cases answer with
  | ok body => rfl
  | raised exc => cases h
  | internalServerError => cases h

theorem versions_nodup (table : ArtifactTable) (name : String) :
    ((table.rows.filter fun row => row.name = name).map Row.version).Nodup := by
  have hUnique := table.unique.sublist ((List.filter_sublist (p := fun row => row.name = name)).map Row.coordinate)
  refine (List.nodup_map_iff_inj_on hUnique.of_map).mpr fun row hRow row' hRow' hSame => ?_
  have hName := of_decide_eq_true (List.mem_filter.mp hRow).2
  have hName' := of_decide_eq_true (List.mem_filter.mp hRow').2
  exact List.inj_on_of_nodup_map hUnique hRow hRow' (Prod.ext (hName.trans hName'.symm) hSame)

theorem Server.Inv.listed_once (h : s.Inv json) {handler : Handler} (hAt : s.At i request handler)
    (hWon : handler.won = true) : ∃ entries, listVersions s.store.artifacts request.name = .ok entries ∧
      (entries.map VersionEntry.version).count request.version = 1 := by
  obtain ⟨entries, hEntries⟩ : ∃ entries, listVersions s.store.artifacts request.name = .ok entries :=
    listVersions_of_keys fun row hRow _ => versionKey_of_valid (h.valid row hRow)
  refine ⟨entries, hEntries, ?_⟩
  have hPerm := listVersions_perm hEntries
  obtain ⟨row, hRow, hRecords⟩ := h.recorded i request handler hAt hWon
  obtain ⟨hName, hVersion⟩ := Prod.mk.injEq _ _ _ _ ▸ hRecords.coordinate
  refine List.count_eq_one_of_mem (hPerm.nodup_iff.mpr (versions_nodup _ _)) (hPerm.mem_iff.mpr ?_)
  exact List.mem_map.mpr ⟨row, List.mem_filter.mpr ⟨hRow, decide_eq_true hName⟩, hVersion⟩

/-- In any run, the events in which only publish `i` advances change no answer if the publish is rejected in
the end. If it is accepted they add its version in the step that wins and change no other answer. -/
theorem publish_effects (hJson : json.Readable) (hBefore : Run (Server.Step json) Server.initial earlier s)
    (hOwn : Run (Server.Step json) s own t) (hOf : ∀ e ∈ own, e.Of i)
    (hAfter : Run (Server.Step json) t later u) (hAnswered : u.At i request (.answered answer)) :
    (answer.statusCode 201 ≠ 201 → s.store.Unchanged json t.store) ∧
    (answer.statusCode 201 = 201 →
      (s.store.Unchanged json t.store ∨ s.store.Adds json request.name request.version t.store) ∧
      ((∀ handler, s.At i request handler → handler.won = false) →
        (∃ handler, t.At i request handler ∧ handler.won = true) →
        s.store.Adds json request.name request.version t.store) ∧
      ∃ entries, listVersions u.store.artifacts request.name = .ok entries ∧
        (entries.map VersionEntry.version).count request.version = 1) := by
  have hSane := (Server.sane_initial json).run hJson hBefore
  have hAdds : s.Wins json i t → answer.statusCode 201 = 201 ∧
      s.store.Adds json request.name request.version t.store := by
    rintro ⟨⟨request', handler, hAt, hWon, hAdds⟩, -⟩
    obtain ⟨last, hLast, hKeeps⟩ := run_keeps hAfter hAt
    cases hLast.symm.trans hAnswered
    exact ⟨statusCode_of_won (hKeeps hWon), hAdds⟩
  refine ⟨fun hRejected => ?_, fun hAccepted => ⟨?_, ?_, ?_⟩⟩
  · rcases run_effect hJson hOwn hSane hOf with hQuiet | hWins
    · exact hQuiet.unchanged
    · exact absurd (hAdds hWins).1 hRejected
  · rcases run_effect hJson hOwn hSane hOf with hQuiet | hWins
    · exact .inl hQuiet.unchanged
    · exact .inr (hAdds hWins).2
  · rintro hNotYet ⟨handler, hAt, hWon⟩
    rcases run_effect hJson hOwn hSane hOf with hQuiet | hWins
    · obtain ⟨last, hLast, hEarly⟩ := hQuiet.before request handler hAt hWon
      cases (hNotYet last hLast).symm.trans hEarly
    · exact (hAdds hWins).2
  · have hInv := ((hSane.run hJson hOwn).run hJson hAfter).inv
    exact hInv.listed_once hAnswered ((hInv.sound _ _ _ hAnswered).won_of_created hAccepted)

end

/-- The publish that loses the race stores its blob after the winner has stored its own. -/
theorem publish_effects_racing :
    ∃ s t u, execute (Server.next emptyDepsJson) Server.initial (racingPublishes.take 9) = some s ∧
      execute (Server.next emptyDepsJson) s [.advance 0 "t0"] = some t ∧
      execute (Server.next emptyDepsJson) t (racingPublishes.drop 10) = some u ∧
      u.outcomes.map Prod.snd = [some 409, some 201] ∧
      s.store.blobs.keys.length = 1 ∧ t.store.blobs.keys.length = 2 ∧
      s.store.Unchanged emptyDepsJson t.store := by
  have hRuns : ((execute (Server.next emptyDepsJson) Server.initial (racingPublishes.take 9)).bind fun s =>
      (execute (Server.next emptyDepsJson) s [.advance 0 "t0"]).bind fun t =>
        (execute (Server.next emptyDepsJson) t (racingPublishes.drop 10)).map fun u =>
          (u.outcomes, s.store.blobs.keys.length, t.store.blobs.keys.length)) =
      some ([(publishOf "lib-core" "1.0.0" [1] "ci", some 409), (publishOf "lib-core" "1.0.0" [2] "dev", some 201)],
        1, 2) := by decide +kernel
  obtain ⟨s, hBefore, hRuns⟩ := Option.bind_eq_some_iff.mp hRuns
  obtain ⟨t, hOwn, hRuns⟩ := Option.bind_eq_some_iff.mp hRuns
  obtain ⟨u, hAfter, hSeen⟩ := Option.map_eq_some_iff.mp hRuns
  simp only [Prod.mk.injEq] at hSeen
  obtain ⟨hOutcomes, hOne, hTwo⟩ := hSeen
  obtain ⟨answer, hAnswered, hStatus⟩ : u.Responds 0 (publishOf "lib-core" "1.0.0" [1] "ci") 409 :=
    responds_of_outcomes (by rw [hOutcomes]; rfl)
  refine ⟨s, t, u, hBefore, hOwn, hAfter, by rw [hOutcomes]; rfl, hOne, hTwo, ?_⟩
  refine (publish_effects emptyDepsJson_readable (run_stepsOf_iff.mpr hBefore) (run_stepsOf_iff.mpr hOwn) ?_
    (run_stepsOf_iff.mpr hAfter) hAnswered).1 (by rw [hStatus]; decide)
  intro e he
  cases List.mem_singleton.mp he
  rfl

end Forge.Registry
