import Forge.Cli.Commands
import Forge.Python.JsonRoundTrip
import Forge.Registry.PublishEffects

/-! # Packages from the client

A token that the host has created is stored by `login` and sent by `publish`. What the exit code says about a
publish, the registry agrees with, and so does `ls`.
-/
namespace Forge.Cli
open Forge.Python Forge.Registry Forge.Theory
set_option autoImplicit false

variable {floats : FloatRepr} {repr dumpsIndented : Json → String} {json : JsonModule}

/-! ## Credentials -/

theorem canonical_credentials (url token : String) :
    Canonical floats.repr (.obj [("url", .str url), ("token", .str token)]) := by
  refine ⟨?_, ?_⟩
  · simp
  · simp [CanonicalMembers, Canonical]

theorem loadCredentials_saveCredentials (url token : String) :
    loadCredentials floats (some (saveCredentials url token)) = some ⟨rstripChars url ['/'], token, none⟩ := by
  rw [loadCredentials, Option.bind_some, saveCredentials, loads_dumps floats .default (canonical_credentials ..)]
  rfl

/-! ## Publishing -/

/-- The response that goes with an answer to a publish. -/
structure RepliesTo (answer : Answer Published) (reply : Reply) : Prop where
  statusCode : reply.statusCode = answer.statusCode 201
  json : ∀ body, answer = .ok body → ∃ value, reply.json = some value

/-- The response that goes with an answer to a request for the versions of a package. -/
structure Lists (store : Store) (name : String) (reply : Reply) : Prop where
  statusCode : reply.statusCode = (listArtifactVersions store name).statusCode 200
  json : ∀ versions, listArtifactVersions store name = .ok versions →
    reply.json = some (.obj [("name", .str name), ("versions", .arr (versions.map .str))])

theorem publish_ok {answer : Answer Published} {reply : Reply} (h : RepliesTo answer reply) {body : Published}
    (hAnswer : answer = .ok body) : (publish dumpsIndented reply).exitCode = 0 := by
  obtain ⟨value, hJson⟩ := h.json body hAnswer
  have hStatus : reply.statusCode = 201 := by
    rw [h.statusCode, hAnswer]
    rfl
  simp [publish, hStatus, hJson]

theorem publish_raised {answer : Answer Published} {reply : Reply} (h : RepliesTo answer reply) {exc : HTTPException}
    (hAnswer : answer = .raised exc) (hStatus : exc.statusCode = 400 ∨ exc.statusCode = 409) :
    (publish dumpsIndented reply).exitCode = 1 := by
  have hCode : reply.statusCode = exc.statusCode := by
    rw [h.statusCode, hAnswer]
    rfl
  rcases hStatus with hStatus | hStatus <;> simp [publish, hCode, hStatus, Reply.refused]

theorem listPkg_lists {store : Store} {name : String} {reply : Reply} (h : Lists store name reply)
    {entries : List VersionEntry} (hEntries : listVersions store.artifacts name = .ok entries) :
    listPkg repr reply = { stdout := entries.map VersionEntry.version } := by
  have hAnswer : listArtifactVersions store name = .ok (entries.map VersionEntry.version) := by
    rw [listArtifactVersions, hEntries]
  have hStatus : reply.statusCode = 200 := by
    rw [h.statusCode, hAnswer]
    rfl
  have hPrinted : ((entries.map VersionEntry.version).map Json.str).map (formatted repr) =
      entries.map VersionEntry.version := by
    rw [List.map_map, show formatted repr ∘ Json.str = id from rfl, List.map_id]
  rw [listPkg, hStatus, h.json _ hAnswer]
  exact congrArg (fun lines => Outcome.mk lines [] 0) hPrinted

/-! ## Publishes of a session -/

/-- What the exit code of a publish says, and what `ls` prints then. -/
inductive Told (dumpsIndented repr : Json → String) (s : Server) (i : Nat) (request : Request) (reply : Reply) : Prop
  | published (row : Row) (hExit : (publish dumpsIndented reply).exitCode = 0)
      (hRow : row ∈ s.store.artifacts.rows) (hRecords : row.Records request)
      (hListed : ∀ listed, Lists s.store request.name listed →
        (listPkg repr listed).stdout.count request.version = 1)
  | invalid (hExit : (publish dumpsIndented reply).exitCode = 1) (hVersion : isValidSemver request.version = false)
  | taken (j : Nat) (other : Request) (handler : Handler) (hExit : (publish dumpsIndented reply).exitCode = 1)
      (hOther : j ≠ i) (hAt : s.At j other handler) (hWon : handler.won = true)
      (hSame : other.coordinate = request.coordinate)
      (hListed : ∀ listed, Lists s.store request.name listed →
        (listPkg repr listed).stdout.count request.version = 1)

theorem listed_once {s : Server} (h : s.Inv json) {j : Nat} {request other : Request} {handler : Handler}
    (hAt : s.At j other handler) (hWon : handler.won = true) (hSame : other.coordinate = request.coordinate)
    {listed : Reply} (hLists : Lists s.store request.name listed) :
    (listPkg repr listed).stdout.count request.version = 1 := by
  obtain ⟨hName, hVersion⟩ := Prod.mk.inj hSame
  obtain ⟨entries, hEntries, hCount⟩ := h.listed_once hAt hWon
  rw [hName] at hEntries
  rw [hVersion] at hCount
  rw [listPkg_lists hLists hEntries]
  exact hCount

theorem told_of_answered {s : Server} (h : s.Inv json) {i : Nat} {request : Request} {answer : Answer Published}
    {reply : Reply} (hAt : s.At i request (.answered answer)) (hReply : RepliesTo answer reply)
    (hChecksum : verifyChecksum request.file request.checksum = true) : Told dumpsIndented repr s i request reply := by
  have hSound := h.sound i request _ hAt
  cases answer with
  | ok body =>
    obtain ⟨row, hRow, hRecords⟩ := h.recorded i request _ hAt rfl
    exact .published row (publish_ok hReply rfl) hRow hRecords fun listed hLists => listed_once h hAt rfl rfl hLists
  | raised exc =>
    rcases hSound with ⟨hStatus, hNot⟩ | ⟨hStatus, hTaken⟩
    · refine .invalid (publish_raised hReply rfl (.inl hStatus)) ?_
      exact Bool.eq_false_iff.mpr fun hVersion => hNot ⟨hVersion, hChecksum⟩
    · obtain ⟨row, hRow, hCoordinate⟩ := List.mem_map.mp hTaken
      obtain ⟨j, other, handler, hOther, hWon, hRecords⟩ := h.origin row hRow
      have hSame : other.coordinate = request.coordinate := hRecords.coordinate.symm.trans hCoordinate
      refine .taken j other handler (publish_raised hReply rfl (.inr hStatus)) ?_ hOther hWon hSame
        fun listed hLists => listed_once h hOther hWon hSame hLists
      rintro rfl
      cases (Option.some.inj (hAt.symm.trans hOther))
      cases hWon
  | internalServerError => exact hSound.elim

theorem publishForm_request {name version deps owner : String} {data : Bytes} {form : Form}
    (h : publishForm name version deps data = some form) :
    form.request owner = ⟨name, version, data, "sha256:" ++ sha256 data, deps, owner⟩ := by
  unfold publishForm at h
  split at h
  · cases h
    rfl
  · cases h

/-- Once a token has been created for an owner and stored by `login`, `publish` is let in as that owner, whatever
has happened since. When the publish of a name and a version that are segments of a path is answered, its row is
there and the exit code is 0, or the exit code is 1 and the version is not valid or another publish has won. The
checksum is never the reason. -/
theorem publish_session {events later : List ServiceEvent} {s t u : Service} (hJson : json.Readable)
    (hBefore : Run (Service.Step json) .initial events s)
    (hDistinct : (s.tokens.rows.map TokenRow.tokenHash).Nodup) {owner raw url : String} (hOwner : owner ≠ "")
    (hIssued : Issued events owner raw) {creds : Credentials}
    (hLogin : loadCredentials floats (some (saveCredentials url raw)) = some creds)
    {name version deps : String} {data : Bytes} {form : Form}
    (hForm : publishForm name version deps data = some form)
    (hPublish : Service.Step json s (.publish creds.token form) t)
    (hAfter : Run (Service.Step json) t later u) :
    (∃ handler, u.server.At s.server.requests.length (form.request owner) handler) ∧
    ∀ answer reply, u.server.At s.server.requests.length (form.request owner) (.answered answer) →
      RepliesTo answer reply →
      Told dumpsIndented repr u.server s.server.requests.length (form.request owner) reply := by
  have hToken : creds.token = raw := by
    cases (loadCredentials_saveCredentials url raw).symm.trans hLogin
    rfl
  have hAuth : auth s.tokens creds.token = .ok owner :=
    auth_ok_iff.mpr ⟨hOwner, (run_tokensOf hBefore).verifyToken hDistinct hIssued (by rw [hToken])⟩
  obtain ⟨shown, hServer⟩ := service_server_run (hBefore.append (.cons hPublish hAfter))
  obtain ⟨after, hServed⟩ := service_server_run hAfter
  refine ⟨?_, fun answer reply hAt hReply => told_of_answered (run_inv hJson hServer) hAt hReply ?_⟩
  · have hArrived : t.server.At s.server.requests.length (form.request owner) .received := by
      cases hPublish.moves with
      | refused credentials form exc hRefused => cases hAuth.symm.trans hRefused
      | admitted credentials publisher form hAdmitted =>
        cases hAuth.symm.trans hAdmitted
        simp [Server.At]
    obtain ⟨handler, hAt, -⟩ := run_keeps hServed hArrived
    exact ⟨handler, hAt⟩
  · rw [publishForm_request hForm]
    exact verifyChecksum_declared data

def sessionForm : Form := ⟨"lib-core", "1.0.0", [2], "sha256:" ++ sha256 [2], "[]"⟩

theorem publishForm_session : publishForm "lib-core" "1.0.0" "[]" [2] = some sessionForm :=
  if_pos (by decide)

theorem exists_session : ∃ s t u : Service,
    Run (Service.Step emptyDepsJson) .initial [.createToken "dev" "9b20"] s ∧
    (s.tokens.rows.map TokenRow.tokenHash).Nodup ∧ s.server.requests.length = 0 ∧
    Service.Step emptyDepsJson s (.publish "9b20" sessionForm) t ∧
    Run (Service.Step emptyDepsJson) t (List.replicate 6 (.serve (.advance 0 "t0"))) u ∧
    u.server.outcomes = [(sessionForm.request "dev", some 201)] := by
  have hSome : ((execute (Service.next emptyDepsJson) .initial [.createToken "dev" "9b20"]).any fun s =>
      decide ((s.tokens.rows.map TokenRow.tokenHash).Nodup) && decide (s.server.requests.length = 0) &&
      (Service.next emptyDepsJson s (.publish "9b20" sessionForm)).any fun t =>
        (execute (Service.next emptyDepsJson) t (List.replicate 6 (.serve (.advance 0 "t0")))).any fun u =>
          decide (u.server.outcomes = [(sessionForm.request "dev", some 201)])) = true := by decide +kernel
  obtain ⟨s, hStart, hSession⟩ := (Option.any_eq_true _ _).mp hSome
  simp only [Bool.and_eq_true, decide_eq_true_eq, and_assoc] at hSession
  obtain ⟨hDistinct, hNone, hRest⟩ := hSession
  obtain ⟨t, hPublish, hAfter⟩ := (Option.any_eq_true _ _).mp hRest
  obtain ⟨u, hExecute, hEnd⟩ := (Option.any_eq_true _ _).mp hAfter
  exact ⟨s, t, u, run_stepsOf_iff.mpr hStart, hDistinct, hNone, hPublish, run_stepsOf_iff.mpr hExecute,
    of_decide_eq_true hEnd⟩

theorem publish_session_dev : ∃ u : Service, u.server.outcomes = [(sessionForm.request "dev", some 201)] ∧
    Told (fun _ => "") (fun _ => "") u.server 0 (sessionForm.request "dev") ⟨201, [], some .null⟩ := by
  obtain ⟨s, t, u, hBefore, hDistinct, hNone, hPublish, hAfter, hOutcomes⟩ := exists_session
  have hIssued : Issued [.createToken "dev" "9b20"] "dev" "9b20" := ⟨[], [], rfl, by simp⟩
  have hLogin : loadCredentials zeroFloats (some (saveCredentials "http://localhost:8000/" "9b20")) =
      some ⟨"http://localhost:8000", "9b20", none⟩ := loadCredentials_saveCredentials _ _
  obtain ⟨answer, hAt, hStatus⟩ : u.server.Responds 0 (sessionForm.request "dev") 201 :=
    responds_of_outcomes (by rw [hOutcomes]; rfl)
  have hReply : RepliesTo answer ⟨201, [], some .null⟩ := ⟨hStatus.symm, fun _ _ => ⟨.null, rfl⟩⟩
  rw [← hNone] at hAt ⊢
  exact ⟨u, hOutcomes, (publish_session emptyDepsJson_readable hBefore hDistinct (by decide) hIssued hLogin
    publishForm_session hPublish hAfter).2 answer _ hAt hReply⟩

end Forge.Cli
