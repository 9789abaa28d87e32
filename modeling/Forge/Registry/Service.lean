import Forge.Registry.Auth
import Forge.Registry.PublishSafety

/-! # The registry behind its authentication

A publish reaches its handler with the name of the owner of the bearer token, and not at all without
one. Tokens are created beside the server, in its database.
-/
namespace Forge.Registry
open Forge.Python Forge.Theory
set_option autoImplicit false

/-- `_auth`, which the engine has as well: `credentials` is what `HTTPBearer` finds after the scheme. -/
def auth (tokens : TokenTable) (credentials : String) : Except HTTPException String :=
  match requireAuth tokens (some ("Bearer " ++ credentials)) with
  | .error exc => .error ⟨401, exc.message⟩
  | .ok name => .ok name

/-- What a client sends with a publish. -/
structure Form where
  name : String
  version : String
  file : Bytes
  checksum : String
  deps : String := "[]"

def Form.request (form : Form) (publisher : String) : Request :=
  ⟨form.name, form.version, form.file, form.checksum, form.deps, publisher⟩

structure Service where
  tokens : TokenTable
  server : Server

def Service.initial : Service := ⟨.empty, .initial⟩

inductive ServiceEvent where
  | createToken (name raw : String)
  | publish (credentials : String) (form : Form)
  | serve (event : Event)

def Event.isArrival : Event → Bool
  | .arrive _ => true
  | _ => false

def Service.next (json : JsonModule) (s : Service) : ServiceEvent → Option Service
  | .createToken name raw =>
    match createToken s.tokens name raw with
    | none => some s
    | some (tokens, _) => some { s with tokens }
  | .publish credentials form =>
    match auth s.tokens credentials with
    | .error _ => some s
    | .ok publisher =>
      (s.server.next json (.arrive (form.request publisher))).map fun server => { s with server }
  | .serve event =>
    if event.isArrival then none else (s.server.next json event).map fun server => { s with server }

def Service.Step (json : JsonModule) : Service → ServiceEvent → Service → Prop := stepsOf (Service.next json)

/-! ## Steps -/

theorem auth_ok_iff {tokens : TokenTable} {credentials name : String} :
    auth tokens credentials = .ok name ↔ name ≠ "" ∧ verifyToken tokens credentials = some name := by
  rw [auth, ← requireAuth_ok_iff]
  cases requireAuth tokens (some ("Bearer " ++ credentials)) with
  | error exc => simp
  | ok owner => simp

/-- The steps of the service, branch by branch. -/
inductive ServiceMoves (json : JsonModule) (s : Service) : ServiceEvent → Service → Prop where
  | duplicate (name raw : String) (hName : name ∈ s.tokens.names) :
      ServiceMoves json s (.createToken name raw) s
  | created (name raw : String) (tokens : TokenTable) (hName : name ∉ s.tokens.names)
      (hRows : tokens.rows = s.tokens.rows ++ [⟨name, tokenHash raw⟩]) :
      ServiceMoves json s (.createToken name raw) { s with tokens }
  | refused (credentials : String) (form : Form) (exc : HTTPException)
      (hAuth : auth s.tokens credentials = .error exc) : ServiceMoves json s (.publish credentials form) s
  | admitted (credentials publisher : String) (form : Form) (hAuth : auth s.tokens credentials = .ok publisher) :
      ServiceMoves json s (.publish credentials form) { s with server := { s.server with
        requests := s.server.requests ++ [(form.request publisher, .received)] } }
  | served (event : Event) (server : Server) (hEvent : event.isArrival = false)
      (hStep : Server.Step json s.server event server) : ServiceMoves json s (.serve event) { s with server }

theorem Service.Step.moves {json : JsonModule} {s t : Service} {e : ServiceEvent} (h : Service.Step json s e t) :
    ServiceMoves json s e t := by
  rw [Service.Step, stepsOf] at h
  cases e with
  | createToken name raw =>
    rcases createToken_cases s.tokens name raw with ⟨hName, hCreate⟩ | ⟨hName, tokens, hCreate, hRows⟩
    · rw [Service.next, hCreate] at h
      cases h
      exact .duplicate name raw hName
    · rw [Service.next, hCreate] at h
      cases h
      exact .created name raw tokens hName hRows
  | publish credentials form =>
    rw [Service.next] at h
    cases hAuth : auth s.tokens credentials with
    | error exc =>
      rw [hAuth] at h
      cases h
      exact .refused credentials form exc hAuth
    | ok publisher =>
      rw [hAuth] at h
      cases h
      exact .admitted credentials publisher form hAuth
  | serve event =>
    rw [Service.next] at h
    cases hEvent : event.isArrival with
    | true =>
      rw [hEvent, if_pos rfl] at h
      cases h
    | false =>
      rw [hEvent, if_neg Bool.false_ne_true] at h
      obtain ⟨server, hServer, rfl⟩ := Option.map_eq_some_iff.mp h
      exact .served event server hEvent hServer

/-- The service refines the server without authentication: admitted publishes arrive, others do not. -/
theorem ServiceMoves.server_run {json : JsonModule} {s t : Service} {e : ServiceEvent}
    (h : ServiceMoves json s e t) : ∃ shown, Run (Server.Step json) s.server shown t.server := by
  cases h with
  | duplicate name raw hName => exact ⟨[], .nil _⟩
  | created name raw tokens hName hRows => exact ⟨[], .nil _⟩
  | refused credentials form exc hAuth => exact ⟨[], .nil _⟩
  | admitted credentials publisher form hAuth => exact ⟨[.arrive (form.request publisher)], .single rfl⟩
  | served event server hEvent hStep => exact ⟨[event], .single hStep⟩

theorem service_server_run {json : JsonModule} {s t : Service} {events : List ServiceEvent}
    (h : Run (Service.Step json) s events t) : ∃ shown, Run (Server.Step json) s.server shown t.server :=
  h.simulates fun _ _ _ hStep => hStep.moves.server_run

/-! ## Tokens over a run -/

/-- The token was created in these events: a second one under a name is rejected by the database. -/
def Issued (events : List ServiceEvent) (name raw : String) : Prop :=
  ∃ before after, events = before ++ .createToken name raw :: after ∧ ∀ other, .createToken name other ∉ before

structure TokensOf (events : List ServiceEvent) (tokens : TokenTable) : Prop where
  issued : ∀ row ∈ tokens.rows, ∃ raw, Issued events row.name raw ∧ row.tokenHash = tokenHash raw
  kept : ∀ name raw, Issued events name raw → ⟨name, tokenHash raw⟩ ∈ tokens.rows
  names : ∀ name raw, .createToken name raw ∈ events → name ∈ tokens.names

section
variable {json : JsonModule} {events : List ServiceEvent} {e : ServiceEvent} {s t : Service}
  {tokens : TokenTable} {name raw : String}

theorem Issued.next (h : Issued events name raw) (e : ServiceEvent) : Issued (events ++ [e]) name raw := by
  obtain ⟨before, after, rfl, hFirst⟩ := h
  exact ⟨before, after ++ [e], by simp, hFirst⟩

theorem Issued.mem (h : Issued events name raw) : .createToken name raw ∈ events := by
  obtain ⟨before, after, rfl, -⟩ := h
  simp

theorem issued_next (h : Issued (events ++ [e]) name raw) :
    Issued events name raw ∨ (e = .createToken name raw ∧ ∀ other, .createToken name other ∉ events) := by
  obtain ⟨before, after, hSplit, hFirst⟩ := h
  rcases List.eq_nil_or_concat after with rfl | ⟨front, last, rfl⟩
  · obtain ⟨rfl, hLast⟩ := List.append_inj' hSplit rfl
    cases hLast
    exact .inr ⟨rfl, hFirst⟩
  · rw [List.concat_eq_append, ← List.cons_append, ← List.append_assoc] at hSplit
    obtain ⟨rfl, -⟩ := List.append_inj' hSplit rfl
    exact .inl ⟨before, front, rfl, hFirst⟩

/-- A step that creates no token. -/
theorem TokensOf.quiet (h : TokensOf events tokens) (hQuiet : ∀ name raw, e ≠ .createToken name raw) :
    TokensOf (events ++ [e]) tokens where
  issued row hRow := by
    obtain ⟨raw, hIssued, hHash⟩ := h.issued row hRow
    exact ⟨raw, hIssued.next e, hHash⟩
  kept name raw hIssued := by
    cases issued_next hIssued with
    | inl hOld => exact h.kept name raw hOld
    | inr hNew => exact absurd hNew.1 (hQuiet name raw)
  names name raw hMem := by
    cases List.mem_append.mp hMem with
    | inl hOld => exact h.names name raw hOld
    | inr hNew => exact absurd (List.mem_singleton.mp hNew).symm (hQuiet name raw)

theorem TokensOf.duplicate (h : TokensOf events tokens) (hName : name ∈ tokens.names) (raw : String) :
    TokensOf (events ++ [.createToken name raw]) tokens where
  issued row hRow := by
    obtain ⟨raw, hIssued, hHash⟩ := h.issued row hRow
    exact ⟨raw, hIssued.next _, hHash⟩
  kept other raw' hIssued := by
    cases issued_next hIssued with
    | inl hOld => exact h.kept other raw' hOld
    | inr hNew =>
      obtain ⟨hEvent, hFirst⟩ := hNew
      cases hEvent
      obtain ⟨row, hRow, rfl⟩ := List.mem_map.mp hName
      obtain ⟨old, hOld, -⟩ := h.issued row hRow
      exact absurd hOld.mem (hFirst old)
  names other raw' hMem := by
    cases List.mem_append.mp hMem with
    | inl hOld => exact h.names other raw' hOld
    | inr hNew =>
      cases List.mem_singleton.mp hNew
      exact hName

theorem TokensOf.created {tokens' : TokenTable} (h : TokensOf events tokens) (hName : name ∉ tokens.names)
    (hRows : tokens'.rows = tokens.rows ++ [⟨name, tokenHash raw⟩]) :
    TokensOf (events ++ [.createToken name raw]) tokens' where
  issued row hRow := by
    rw [hRows] at hRow
    cases List.mem_append.mp hRow with
    | inl hOld =>
      obtain ⟨raw', hIssued, hHash⟩ := h.issued row hOld
      exact ⟨raw', hIssued.next _, hHash⟩
    | inr hNew =>
      cases List.mem_singleton.mp hNew
      exact ⟨raw, ⟨events, [], rfl, fun other hMem => hName (h.names name other hMem)⟩, rfl⟩
  kept other raw' hIssued := by
    rw [hRows]
    cases issued_next hIssued with
    | inl hOld => exact List.mem_append_left _ (h.kept other raw' hOld)
    | inr hNew =>
      cases hNew.1
      exact List.mem_append_right _ List.mem_cons_self
  names other raw' hMem := by
    rw [TokenTable.names, hRows, List.map_append]
    cases List.mem_append.mp hMem with
    | inl hOld => exact List.mem_append_left _ (h.names other raw' hOld)
    | inr hNew =>
      cases List.mem_singleton.mp hNew
      exact List.mem_append_right _ List.mem_cons_self

theorem ServiceMoves.tokensOf (h : ServiceMoves json s e t) (hTokens : TokensOf events s.tokens) :
    TokensOf (events ++ [e]) t.tokens := by
  cases h with
  | duplicate name raw hName => exact hTokens.duplicate hName raw
  | created name raw tokens hName hRows => exact hTokens.created hName hRows
  | refused credentials form exc hAuth => exact hTokens.quiet (by simp)
  | admitted credentials publisher form hAuth => exact hTokens.quiet (by simp)
  | served event server hEvent hStep => exact hTokens.quiet (by simp)

theorem tokensOf_empty : TokensOf [] .empty where
  issued row hRow := by cases hRow
  kept name raw hIssued := by cases hIssued.mem
  names name raw hMem := by cases hMem

theorem run_tokensOf (hRun : Run (Service.Step json) .initial events s) : TokensOf events s.tokens := by
  have hKeeps : ∀ before (s : Service) e (t : Service), TokensOf before s.tokens → Service.Step json s e t →
      TokensOf (before ++ [e]) t.tokens := fun _ _ _ _ hTokens hStep => hStep.moves.tokensOf hTokens
  exact hRun.traces hKeeps [] tokensOf_empty

/-- Whoever has the token of one owner is taken for that owner. -/
theorem TokensOf.verifyToken (h : TokensOf events tokens) (hDistinct : (tokens.rows.map TokenRow.tokenHash).Nodup)
    {credentials : String} (hIssued : Issued events name raw) (hHash : tokenHash raw = tokenHash credentials) :
    Registry.verifyToken tokens credentials = some name := by
  have hRow := h.kept name raw hIssued
  obtain ⟨owner, hVerify⟩ := verifyToken_isSome hRow hHash
  have hSame := List.inj_on_of_nodup_map hDistinct (verifyToken_mem hVerify) hRow hHash.symm
  exact hVerify.trans (congrArg some (congrArg TokenRow.name hSame))

/-- A token is accepted, at any time after its creation, under the name it was created for, and nothing
else is, as long as no two tokens have one hash. A token for the empty name is never accepted. -/
theorem auth_iff_issued (hRun : Run (Service.Step json) .initial events s)
    (hDistinct : (s.tokens.rows.map TokenRow.tokenHash).Nodup) (credentials : String) :
    auth s.tokens credentials = .ok name ↔
      name ≠ "" ∧ ∃ raw, Issued events name raw ∧ tokenHash raw = tokenHash credentials := by
  have hTokens := run_tokensOf hRun
  rw [auth_ok_iff]
  constructor
  · rintro ⟨hName, hVerify⟩
    obtain ⟨raw, hIssued, hHash⟩ := hTokens.issued _ (verifyToken_mem hVerify)
    exact ⟨hName, raw, hIssued, hHash.symm⟩
  · rintro ⟨hName, raw, hIssued, hHash⟩
    exact ⟨hName, hTokens.verifyToken hDistinct hIssued hHash⟩

def formOf (version : String) (file : Bytes) : Form := ⟨"lib-core", version, file, "sha256:" ++ sha256 file, "[]"⟩

/-- The second token for `ci` is rejected, and so is the publish with it. -/
def ownedPublish : List ServiceEvent :=
  [.createToken "ci" "4f1c", .createToken "dev" "9b20", .createToken "ci" "77aa",
    .publish "77aa" (formOf "1.0.0" [1]), .publish "9b20" (formOf "1.0.0" [2])] ++
  List.replicate 6 (.serve (.advance 0 "t0"))

theorem exists_ownedPublish : ∃ s, Run (Service.Step emptyDepsJson) .initial ownedPublish s ∧
    (s.tokens.rows.map TokenRow.tokenHash).Nodup ∧ s.server.outcomes.map Prod.snd = [some 201] ∧
    s.server.store.artifacts.rows.map Row.publisher = ["dev"] := by
  have hSome : ((execute (Service.next emptyDepsJson) .initial ownedPublish).any fun s =>
      decide ((s.tokens.rows.map TokenRow.tokenHash).Nodup) &&
      decide (s.server.outcomes.map Prod.snd = [some 201]) &&
      decide (s.server.store.artifacts.rows.map Row.publisher = ["dev"])) = true := by decide +kernel
  obtain ⟨s, hExecute, hEnd⟩ := (Option.any_eq_true _ _).mp hSome
  simp only [Bool.and_eq_true, decide_eq_true_eq, and_assoc] at hEnd
  exact ⟨s, run_stepsOf_iff.mpr hExecute, hEnd⟩

theorem auth_iff_issued_owned : ∃ s, Run (Service.Step emptyDepsJson) .initial ownedPublish s ∧
    (auth s.tokens "9b20" = .ok "dev" ↔ "dev" ≠ "" ∧
      ∃ raw, Issued ownedPublish "dev" raw ∧ tokenHash raw = tokenHash "9b20") ∧
    Issued ownedPublish "dev" "9b20" := by
  obtain ⟨s, hRun, hDistinct, -⟩ := exists_ownedPublish
  exact ⟨s, hRun, auth_iff_issued hRun hDistinct "9b20", [.createToken "ci" "4f1c"], _, rfl, by simp⟩

end

/-! ## Owners of rows -/

/-- The request came with the token of its publisher, which had been created before. -/
def Admitted (events : List ServiceEvent) (request : Request) : Prop :=
  ∃ before credentials form after, events = before ++ .publish credentials form :: after ∧
    request = form.request request.publisher ∧ request.publisher ≠ "" ∧
    ∃ raw, Issued before request.publisher raw ∧ tokenHash raw = tokenHash credentials

section
variable {json : JsonModule} {events : List ServiceEvent} {e : ServiceEvent} {s t : Service}

theorem Admitted.next {request : Request} (h : Admitted events request) (e : ServiceEvent) :
    Admitted (events ++ [e]) request := by
  obtain ⟨before, credentials, form, after, rfl, hRequest⟩ := h
  exact ⟨before, credentials, form, after ++ [e], by simp, hRequest⟩

/-- Only an arrival adds to the requests. -/
theorem Server.Step.requests {s t : Server} {e : Event} (h : Server.Step json s e t)
    (hEvent : e.isArrival = false) : t.requests.map Prod.fst = s.requests.map Prod.fst := by
  cases h.moves with
  | arrive request => cases hEvent
  | advance i now request handler handler' store hAt hPublish =>
    have hIndex : (s.requests.map Prod.fst)[i]? = some request := by
      rw [List.getElem?_map, hAt]
      rfl
    obtain ⟨hLt, hGet⟩ := List.getElem?_eq_some_iff.mp hIndex
    rw [Server.update, List.map_set, ← hGet]
    exact List.set_getElem_self hLt
  | read name version => rfl
  | kill =>
    rw [Server.killed, List.map_map]
    rfl
  | killWriting i n request data hAt hAbsent =>
    rw [Server.killed, List.map_map]
    rfl

theorem ServiceMoves.admitted_step (h : ServiceMoves json s e t) (hTokens : TokensOf events s.tokens)
    (hOld : ∀ request ∈ s.server.requests.map Prod.fst, Admitted events request) :
    ∀ request ∈ t.server.requests.map Prod.fst, Admitted (events ++ [e]) request := by
  cases h with
  | admitted credentials publisher form hAuth =>
    intro request hRequest
    rw [List.map_append] at hRequest
    cases List.mem_append.mp hRequest with
    | inl hBefore => exact (hOld request hBefore).next _
    | inr hNew =>
      cases List.mem_singleton.mp hNew
      obtain ⟨hName, hVerify⟩ := auth_ok_iff.mp hAuth
      obtain ⟨raw, hIssued, hHash⟩ := hTokens.issued _ (verifyToken_mem hVerify)
      exact ⟨events, credentials, form, [], rfl, rfl, hName, raw, hIssued, hHash.symm⟩
  | served event server hEvent hStep =>
    intro request hRequest
    rw [hStep.requests hEvent] at hRequest
    exact (hOld request hRequest).next _
  | _ => exact fun request hRequest => (hOld request hRequest).next _

theorem run_admitted (hRun : Run (Service.Step json) .initial events s) :
    ∀ request ∈ s.server.requests.map Prod.fst, Admitted events request := by
  have hKeeps : ∀ before (s : Service) e (t : Service),
      (TokensOf before s.tokens ∧ ∀ request ∈ s.server.requests.map Prod.fst, Admitted before request) →
      Service.Step json s e t → TokensOf (before ++ [e]) t.tokens ∧
        ∀ request ∈ t.server.requests.map Prod.fst, Admitted (before ++ [e]) request :=
    fun _ _ _ _ hInv hStep =>
      ⟨hStep.moves.tokensOf hInv.1, hStep.moves.admitted_step hInv.1 hInv.2⟩
  exact (hRun.traces hKeeps [] ⟨tokensOf_empty, by simp [Service.initial, Server.initial]⟩).2

/-- Whoever is named as the publisher of a row held a token when the publish arrived. -/
theorem rows_owned (hJson : json.Readable) (hRun : Run (Service.Step json) .initial events s) :
    ∀ row ∈ s.server.store.artifacts.rows, ∃ request, row.Records request ∧ Admitted events request := by
  intro row hRow
  obtain ⟨shown, hServer⟩ := service_server_run hRun
  obtain ⟨i, request, handler, hAt, -, hRecords⟩ := (run_inv hJson hServer).origin row hRow
  refine ⟨request, hRecords, run_admitted hRun request ?_⟩
  exact List.mem_map.mpr ⟨_, List.mem_of_getElem? hAt, rfl⟩

theorem rows_owned_dev : ∃ s, Run (Service.Step emptyDepsJson) .initial ownedPublish s ∧
    s.server.store.artifacts.rows.map Row.publisher = ["dev"] ∧
    ∀ row ∈ s.server.store.artifacts.rows, ∃ request, row.Records request ∧ Admitted ownedPublish request := by
  obtain ⟨s, hRun, -, -, hPublisher⟩ := exists_ownedPublish
  exact ⟨s, hRun, hPublisher, rows_owned emptyDepsJson_readable hRun⟩

end

end Forge.Registry
