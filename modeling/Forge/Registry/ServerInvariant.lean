import Forge.Registry.Server

/-! # What a step of the registry server can do

Each step of a publish is inverted once. From this follow the two facts that every later result rests
on: the store only grows, and the rows of the table are exactly the publishes that won.
-/
namespace Forge.Registry
open Forge.Python Forge.Theory
set_option autoImplicit false

/-! ## Inversion -/

/-- The steps of a publish, branch by branch. -/
inductive Publishes (json : JsonModule) (now : String) (request : Request) (store : Store) :
    Handler → Store → Handler → Prop where
  | invalid (hVersion : isValidSemver request.version = false) :
      Publishes json now request store .received store
        (.answered (.raised ⟨400, "Invalid semver version: " ++ request.version⟩))
  | unreadable (e : JSONDecodeError)
      (hGet : getArtifact json store.artifacts request.name request.version = .error e) :
      Publishes json now request store .received store (.answered .internalServerError)
  | taken (artifact : Artifact)
      (hGet : getArtifact json store.artifacts request.name request.version = .ok (some artifact)) :
      Publishes json now request store .received store (.answered (.raised
        ⟨409, request.name ++ "@" ++ request.version ++ " already exists (immutable)"⟩))
  | checked (hVersion : isValidSemver request.version = true) :
      Publishes json now request store .received store .checked
  | read : Publishes json now request store .checked store (.read request.file)
  | mismatch (data : Bytes) (hChecksum : verifyChecksum data request.checksum = false) :
      Publishes json now request store (.read data) store
        (.answered (.raised ⟨400, "Checksum mismatch: declared=" ++ request.checksum ++
          ", actual=sha256:" ++ sha256 data⟩))
  | verified (data : Bytes) (hChecksum : verifyChecksum data request.checksum = true) :
      Publishes json now request store (.read data) store (.verified data)
  | stored (data : Bytes) :
      Publishes json now request store (.verified data)
        { store with blobs := (storeBlob store.blobs data).1 } (.stored data (sha256 data))
  | conflict (data : Bytes) (sha : String) (hTaken : request.coordinate ∈ store.artifacts.coordinates) :
      Publishes json now request store (.stored data sha) store (.answered (.raised
        ⟨409, "CONFLICT: " ++ request.name ++ "@" ++ request.version ++ " already exists"⟩))
  | inserted (data : Bytes) (sha : String) (artifacts : ArtifactTable) (value : Json)
      (hAbsent : request.coordinate ∉ store.artifacts.coordinates)
      (hRows : artifacts.rows = store.artifacts.rows ++ [⟨request.name, request.version, sha,
        data.length, request.publisher, json.dumps value, now⟩]) :
      Publishes json now request store (.stored data sha) { store with artifacts }
        (.committed data sha)
  | answered (data : Bytes) (sha : String) :
      Publishes json now request store (.committed data sha) store
        (.answered (.ok ⟨request.name, request.version, sha, data.length⟩))

theorem publishArtifact_publishes {json : JsonModule} {now : String} {request : Request}
    {store store' : Store} {handler handler' : Handler}
    (h : publishArtifact json now request store handler = some (store', handler')) :
    Publishes json now request store handler store' handler' := by
  cases handler with
  | received =>
    simp only [publishArtifact] at h
    cases hVersion : isValidSemver request.version with
    | false =>
      simp only [hVersion, Bool.not_false, if_true] at h
      cases h
      exact .invalid hVersion
    | true =>
      simp only [hVersion, Bool.not_true, Bool.false_eq_true, if_false] at h
      split at h
      · rename_i e hGet
        cases h
        exact .unreadable e hGet
      · rename_i artifact hGet
        cases h
        exact .taken artifact hGet
      · cases h
        exact .checked hVersion
  | checked =>
    cases h
    exact .read
  | read data =>
    simp only [publishArtifact] at h
    split at h
    · rename_i hChecksum
      cases h
      exact .verified data hChecksum
    · rename_i hChecksum
      cases h
      exact .mismatch data (by simpa using hChecksum)
  | verified data =>
    simp only [publishArtifact, storeBlob_snd] at h
    cases h
    exact .stored data
  | stored data sha =>
    simp only [publishArtifact] at h
    rcases insertArtifact_cases json now store.artifacts request.name request.version sha data.length
      request.publisher (depList json request.deps) with
      ⟨table, value, hInsert, hAbsent, hRows⟩ | ⟨hTaken, hInsert⟩
    · rw [hInsert] at h
      cases h
      exact .inserted data sha table value hAbsent hRows
    · rw [hInsert] at h
      cases h
      exact .conflict data sha hTaken
  | committed data sha =>
    cases h
    exact .answered data sha
  | answered answer => cases h
  | cut last => cases h

def Server.At (server : Server) (i : Nat) (request : Request) (handler : Handler) : Prop :=
  server.requests[i]? = some (request, handler)

def Server.update (server : Server) (i : Nat) (request : Request) (store : Store) (handler : Handler) :
    Server :=
  ⟨store, server.requests.set i (request, handler)⟩

inductive Moves (json : JsonModule) (server : Server) : Event → Server → Prop where
  | arrive (request : Request) : Moves json server (.arrive request)
      { server with requests := server.requests ++ [(request, .received)] }
  | advance (i : Nat) (now : String) (request : Request) (handler handler' : Handler) (store : Store)
      (hAt : server.At i request handler)
      (hPublish : Publishes json now request server.store handler store handler') :
      Moves json server (.advance i now) (server.update i request store handler')
  | read (name version : String) : Moves json server (.read name version) server
  | kill : Moves json server .kill server.killed
  | killWriting (i n : Nat) (request : Request) (data : Bytes)
      (hAt : server.At i request (.verified data))
      (hAbsent : getBlob server.store.blobs (sha256 data) = none) :
      Moves json server (.killWriting i n) { server.killed with store := { server.store with
        blobs := server.store.blobs.set (blobPath (sha256 data)) (data.take n) } }

theorem tornBlob_some {server : Server} {i n : Nat} {blobs : Blobs}
    (h : server.tornBlob i n = some blobs) :
    ∃ request data, server.At i request (.verified data) ∧
      getBlob server.store.blobs (sha256 data) = none ∧
      blobs = server.store.blobs.set (blobPath (sha256 data)) (data.take n) := by
  unfold Server.tornBlob at h
  split at h
  · rename_i request data hAt
    simp only at h
    split at h
    · cases h
    · rename_i hAbsent
      cases h
      exact ⟨request, data, hAt, Dict.get?_eq_none_iff.mpr hAbsent, rfl⟩
  · cases h

theorem Server.Step.moves {json : JsonModule} {s t : Server} {e : Event} (h : Server.Step json s e t) :
    Moves json s e t := by
  rw [Server.Step, stepsOf] at h
  cases e with
  | arrive request =>
    cases h
    exact .arrive request
  | advance i now =>
    simp only [Server.next] at h
    split at h
    · cases h
    · rename_i request handler hAt
      obtain ⟨r, hPublish, rfl⟩ := Option.map_eq_some_iff.mp h
      exact .advance i now request handler r.2 r.1 hAt (publishArtifact_publishes hPublish)
  | read name version =>
    cases h
    exact .read name version
  | kill =>
    cases h
    exact .kill
  | killWriting i n =>
    obtain ⟨blobs, hTorn, rfl⟩ := Option.map_eq_some_iff.mp h
    obtain ⟨request, data, hAt, hAbsent, rfl⟩ := tornBlob_some hTorn
    exact .killWriting i n request data hAt hAbsent

/-! ## The store grows -/

structure Store.Grows (s t : Store) : Prop where
  rows : ∀ row ∈ s.artifacts.rows, row ∈ t.artifacts.rows
  blobs : ∀ sha content, getBlob s.blobs sha = some content → getBlob t.blobs sha = some content

theorem Store.Grows.refl (s : Store) : s.Grows s := ⟨fun _ h => h, fun _ _ h => h⟩

theorem Store.Grows.trans {s t u : Store} (h : s.Grows t) (h' : t.Grows u) : s.Grows u :=
  ⟨fun row hRow => h'.rows row (h.rows row hRow),
    fun sha content hGet => h'.blobs sha content (h.blobs sha content hGet)⟩

theorem Store.Grows.coordinates {s t : Store} (h : s.Grows t) {c : String × String}
    (hMem : c ∈ s.artifacts.coordinates) : c ∈ t.artifacts.coordinates := by
  obtain ⟨row, hRow, rfl⟩ := List.mem_map.mp hMem
  exact List.mem_map_of_mem (h.rows row hRow)

theorem Store.Grows.select {s t : Store} (h : s.Grows t) {name version : String} {row : Row}
    (hSelect : s.artifacts.select name version = some row) :
    t.artifacts.select name version = some row := by
  rw [ArtifactTable.select_eq_some_iff] at hSelect ⊢
  exact ⟨h.rows row hSelect.1, hSelect.2⟩

theorem Store.grows_set {store : Store} {sha : String} (content : Bytes)
    (hAbsent : getBlob store.blobs sha = none) :
    store.Grows { store with blobs := store.blobs.set (blobPath sha) content } := by
  refine ⟨fun _ h => h, ?_⟩
  intro sha' content' hGet
  rw [getBlob_set, if_neg]
  · exact hGet
  · rintro rfl
    rw [hAbsent] at hGet
    cases hGet

theorem Store.grows_storeBlob (store : Store) (data : Bytes) :
    store.Grows { store with blobs := (storeBlob store.blobs data).1 } := by
  refine ⟨fun _ h => h, ?_⟩
  intro sha content hGet
  rw [getBlob_storeBlob, hGet]
  split <;> rfl

theorem Publishes.grows {json : JsonModule} {now : String} {request : Request} {store store' : Store}
    {handler handler' : Handler} (h : Publishes json now request store handler store' handler') :
    store.Grows store' := by
  cases h with
  | stored data => exact store.grows_storeBlob data
  | inserted data sha artifacts value hAbsent hRows =>
    refine ⟨?_, fun _ _ h => h⟩
    intro row hRow
    rw [hRows]
    exact List.mem_append_left _ hRow
  | _ => exact .refl _

theorem Moves.grows {json : JsonModule} {s t : Server} {e : Event} (h : Moves json s e t) :
    s.store.Grows t.store := by
  cases h with
  | advance i now request handler handler' store hAt hPublish => exact hPublish.grows
  | killWriting i n request data hAt hAbsent => exact Store.grows_set _ hAbsent
  | _ => exact .refl _

def Server.Grows (s t : Server) : Prop := s.store.Grows t.store

theorem run_grows {json : JsonModule} {s t : Server} {events : List Event}
    (h : Run (Server.Step json) s events t) : s.Grows t := by
  refine h.relates ?_ ?_ ?_
  · exact fun s => .refl s.store
  · exact fun _ _ _ => .trans
  · exact fun _ _ _ hStep => (Server.Step.moves hStep).grows

/-! ## The requests of the next state -/

theorem at_arrive {s : Server} {request r : Request} {i : Nat} {handler : Handler}
    (h : Server.At { s with requests := s.requests ++ [(request, .received)] } i r handler) :
    s.At i r handler ∨ (i = s.requests.length ∧ r = request ∧ handler = .received) := by
  unfold Server.At at h ⊢
  rw [List.getElem?_append] at h
  split at h
  · exact .inl h
  · rw [List.getElem?_singleton] at h
    split at h
    · cases h
      exact .inr ⟨by omega, rfl, rfl⟩
    · cases h

theorem at_arrive_of_at {s : Server} {request r : Request} {i : Nat} {handler : Handler}
    (h : s.At i r handler) :
    Server.At { s with requests := s.requests ++ [(request, .received)] } i r handler := by
  unfold Server.At at h ⊢
  rw [List.getElem?_append_left (List.getElem?_eq_some_iff.mp h).1, h]

theorem at_update {s : Server} {i j : Nat} {request r : Request} {store : Store}
    {handler h' : Handler} (h : (s.update i request store handler).At j r h') :
    (j = i ∧ r = request ∧ h' = handler) ∨ (j ≠ i ∧ s.At j r h') := by
  unfold Server.At Server.update at h
  rw [List.getElem?_set] at h
  split at h
  · rename_i hIndex
    split at h
    · cases h
      exact .inl ⟨hIndex.symm, rfl, rfl⟩
    · cases h
  · rename_i hIndex
    exact .inr ⟨fun hEq => hIndex hEq.symm, h⟩

theorem at_update_self {s : Server} {i : Nat} {r : Request} {handler : Handler}
    (h : s.At i r handler) (request : Request) (store : Store) (handler' : Handler) :
    (s.update i request store handler').At i request handler' := by
  unfold Server.At Server.update
  exact List.getElem?_set_self (List.getElem?_eq_some_iff.mp h).1

theorem at_update_of_ne {s : Server} {i j : Nat} {r : Request} {handler : Handler}
    (h : s.At j r handler) (hIndex : j ≠ i) (request : Request) (store : Store) (handler' : Handler) :
    (s.update i request store handler').At j r handler := by
  unfold Server.At Server.update
  rw [List.getElem?_set_ne hIndex.symm]
  exact h

theorem at_killed {s : Server} {store : Store} {i : Nat} {r : Request} {handler : Handler} :
    Server.At { s.killed with store } i r handler ↔ ∃ h', s.At i r h' ∧ handler = h'.kill := by
  simp only [Server.At, Server.killed, List.getElem?_map, Option.map_eq_some_iff, Prod.exists,
    Prod.mk.injEq]
  constructor
  · rintro ⟨r', h', hAt, rfl, rfl⟩
    exact ⟨h', hAt, rfl⟩
  · rintro ⟨h', hAt, rfl⟩
    exact ⟨r, h', hAt, rfl, rfl⟩

end Forge.Registry
