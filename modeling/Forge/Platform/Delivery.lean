import Forge.Engine.Entries
import Forge.Platform.Runs

/-! # Requests and answers

A publish request of the engine carries the name of the submitter of its run. While its worker waits, no other
worker waits for the same request, so every answer is delivered to the one that asked.
-/
namespace Forge.Platform
open Forge.Python Forge.Registry Forge.Engine Forge.Theory
set_option autoImplicit false

variable {json : JsonModule} {elsewhere : RegistryClient} {e : SystemEvent} {p q : System} {r r' i : Nat}
  {run run' : SubmittedRun} {job job' : String}

/-- The worker of a job waits for the answer to request `i`. -/
def Sends (p : System) (r : Nat) (job : String) (i : Nat) : Prop :=
  ∃ run, p.runs[r]? = some run ∧ run.posts job = some i

/-- The request of an artifact in the name of the submitter. -/
def SubmittedRun.requestOf (json : JsonModule) (run : SubmittedRun) (artifact : PipelineArtifact) (data : Bytes) :
    Request := (postedForm json run.pipeline artifact data).request run.submitter

structure Delivery (json : JsonModule) (p : System) : Prop where
  token : ∀ (r : Nat) run, p.runs[r]? = some run → auth p.service.tokens run.forgeToken = .ok run.submitter
  sent : ∀ (r : Nat) run job i, p.runs[r]? = some run → run.posts job = some i →
    ∃ artifact data rest published handler,
      run.execution.futures.get? job = some (.posting artifact data rest published) ∧
      p.service.server.At i (run.requestOf json artifact data) handler
  apart : ∀ r r' job job' i, Sends p r job i → Sends p r' job' i → r = r' ∧ job = job'

theorem Delivery.lt_length (h : Delivery json p) (hSends : Sends p r job i) :
    i < p.service.server.requests.length := by
  obtain ⟨run, hRun, hPost⟩ := hSends
  obtain ⟨artifact, data, rest, published, handler, -, hAt⟩ := h.sent r run job i hRun hPost
  exact (List.getElem?_eq_some_iff.mp hAt).1

theorem awaited_eq_some {execution : Execution} {posts : String → Option Nat}
    (h : awaited execution posts job = some i) :
    posts job = some i ∧ ∃ artifact data rest published,
      execution.futures.get? job = some (.posting artifact data rest published) := by
  unfold awaited at h
  split at h
  · rename_i artifact data rest published hWorker
    exact ⟨h, artifact, data, rest, published, hWorker⟩
  · cases h

/-- Only a post adds to the requests on their way, and only its own. -/
theorem SystemMoves.sends (h : SystemMoves json elsewhere p e q) (hSends : Sends q r job i) :
    Sends p r job i ∨ i = p.service.server.requests.length ∧ ∃ text, e = .post r job text := by
  obtain ⟨run', hRun', hPost⟩ := hSends
  cases h with
  | submitted credentials submitter host pipeline hAuth =>
    rw [List.getElem?_append] at hRun'
    split at hRun'
    · exact .inl ⟨run', hRun', hPost⟩
    · rw [List.getElem?_singleton] at hRun'
      split at hRun'
      · cases hRun'
        cases hPost
      · cases hRun'
  | stepped e r₀ run event registry execution hRun hAsks hStep =>
    rcases getElem?_setRun hRun' with ⟨rfl, rfl⟩ | hOld
    · exact .inl ⟨run, hRun, (awaited_eq_some hPost).1⟩
    · exact .inl ⟨run', hOld, hPost⟩
  | posted r₀ run job₀ text publisher artifact data rest published service hRun hPosts hWorker hAuth hStep hService =>
    rcases getElem?_setRun hRun' with ⟨rfl, rfl⟩ | hOld
    · simp only [Function.update_apply] at hPost
      split at hPost
      · rename_i hSame
        subst hSame
        exact .inr ⟨(Option.some.inj hPost).symm, text, rfl⟩
      · exact .inl ⟨run, hRun, hPost⟩
    · exact .inl ⟨run', hOld, hPost⟩
  | restarted => cases hRun'
  | _ => exact .inl ⟨run', hRun', hPost⟩

theorem SystemMoves.apart (h : SystemMoves json elsewhere p e q) (hDelivery : Delivery json p)
    (hSends : Sends q r job i) (hSends' : Sends q r' job' i) : r = r' ∧ job = job' := by
  rcases h.sends hSends with hOld | ⟨hNew, text, hEvent⟩
  · rcases h.sends hSends' with hOld' | ⟨hNew', -⟩
    · exact hDelivery.apart r r' job job' i hOld hOld'
    · have hLength := hDelivery.lt_length hOld
      omega
  · rcases h.sends hSends' with hOld' | ⟨-, text', hEvent'⟩
    · have hLength := hDelivery.lt_length hOld'
      omega
    · cases hEvent.symm.trans hEvent'
      exact ⟨rfl, rfl⟩

/-- The registry keeps the requests that it has. -/
theorem SystemMoves.keeps (h : SystemMoves json elsewhere p e q) {request : Request} {handler : Handler}
    (hAt : p.service.server.At i request handler) : ∃ handler', q.service.server.At i request handler' := by
  obtain ⟨shown, hService⟩ := h.service_run
  obtain ⟨more, hServer⟩ := service_server_run hService
  obtain ⟨handler', hAt', -⟩ := run_keeps hServer hAt
  exact ⟨handler', hAt'⟩

/-- A worker that waits for an answer, before and after a step of its run, waits for the same one. -/
theorem Delivery.same_worker (h : Delivery json p) {event : Engine.Event} {registry : RegistryClient}
    {execution : Execution} {artifact : PipelineArtifact} {data : Bytes} {rest : List PipelineArtifact}
    {published : List PublishedArtifact} (hRun : p.runs[r]? = some run) (hPost : run.posts job = some i)
    (hStep : Execution.Step run.host registry run.pipeline run.execution event execution)
    (hWorker : execution.futures.get? job = some (.posting artifact data rest published)) :
    ∃ handler, p.service.server.At i (run.requestOf json artifact data) handler := by
  obtain ⟨artifact', data', rest', published', handler, hBefore, hAt⟩ := h.sent r run job i hRun hPost
  rcases hStep.moves.posting hWorker with hSame | hWalking
  · cases hBefore.symm.trans hSame
    exact ⟨handler, hAt⟩
  · cases hBefore.symm.trans hWalking

theorem SystemMoves.sent (h : SystemMoves json elsewhere p e q) (hDelivery : Delivery json p)
    (hRun' : q.runs[r]? = some run') (hPost : run'.posts job = some i) :
    ∃ artifact data rest published handler,
      run'.execution.futures.get? job = some (.posting artifact data rest published) ∧
      q.service.server.At i (run'.requestOf json artifact data) handler := by
  have hOld : p.runs[r]? = some run' → ∃ artifact data rest published handler,
      run'.execution.futures.get? job = some (.posting artifact data rest published) ∧
      q.service.server.At i (run'.requestOf json artifact data) handler := by
    intro hKept
    obtain ⟨artifact, data, rest, published, handler, hWorker, hAt⟩ := hDelivery.sent r run' job i hKept hPost
    obtain ⟨handler', hAt'⟩ := h.keeps hAt
    exact ⟨artifact, data, rest, published, handler', hWorker, hAt'⟩
  have hMove := h
  cases h with
  | submitted credentials submitter host pipeline hAuth =>
    rw [List.getElem?_append] at hRun'
    split at hRun'
    · exact hOld hRun'
    · rw [List.getElem?_singleton] at hRun'
      split at hRun'
      · cases hRun'
        cases hPost
      · cases hRun'
  | stepped e r₀ run event registry execution hRun hAsks hStep =>
    rcases getElem?_setRun hRun' with ⟨rfl, rfl⟩ | hKept
    · obtain ⟨hPost, artifact, data, rest, published, hWorker⟩ := awaited_eq_some hPost
      obtain ⟨handler, hAt⟩ := hDelivery.same_worker hRun hPost hStep hWorker
      exact ⟨artifact, data, rest, published, handler, hWorker, hAt⟩
    · exact hOld hKept
  | posted r₀ run job₀ text publisher artifact data rest published service hRun hPosts hWorker hAuth hStep hService =>
    rcases getElem?_setRun hRun' with ⟨rfl, rfl⟩ | hKept
    · simp only [Function.update_apply] at hPost
      split at hPost
      · rename_i hSame
        subst hSame
        cases hPost
        cases (hDelivery.token r run hRun).symm.trans hAuth
        refine ⟨artifact, data, rest, published, .received, hWorker, ?_⟩
        subst hService
        exact List.getElem?_concat_length
      · obtain ⟨artifact', data', rest', published', handler, hWorker', hAt⟩ :=
          hDelivery.sent r run job i hRun hPost
        obtain ⟨handler', hAt'⟩ := hMove.keeps hAt
        exact ⟨artifact', data', rest', published', handler', hWorker', hAt'⟩
    · exact hOld hKept
  | restarted => cases hRun'
  | _ => exact hOld hRun'

theorem SystemMoves.token (h : SystemMoves json elsewhere p e q) (hDelivery : Delivery json p)
    (hRun' : q.runs[r]? = some run') : Registry.auth q.service.tokens run'.forgeToken = .ok run'.submitter := by
  apply h.auth
  cases h.runs hRun' with
  | kept run hRun => exact hDelivery.token r run' hRun
  | submitted host pipeline submitter credentials hAuth => exact hAuth
  | stepped run event registry execution hRun hAsks hStep => exact hDelivery.token r run hRun
  | posted run job i hRun => exact hDelivery.token r run hRun

theorem Reached.delivery (h : Reached json elsewhere p) : Delivery json p := by
  obtain ⟨events, hRun⟩ := h
  have hNone : ∀ (r : Nat) run, System.initial.runs[r]? ≠ some run := by
    intro r run hRun
    rw [show System.initial.runs = [] from rfl, List.getElem?_nil] at hRun
    cases hRun
  have hInitial : Delivery json .initial := by
    refine ⟨fun r run hRun => absurd hRun (hNone r run), fun r run job i hRun => absurd hRun (hNone r run), ?_⟩
    exact fun r r' job job' i ⟨run, hRun, _⟩ => absurd hRun (hNone r run)
  have hKeeps := hRun.invariant fun p e q (hDelivery : Delivery json p) hStep => by
    have hMove : SystemMoves json elsewhere p e q := hStep.moves
    exact Delivery.mk (fun r run => hMove.token hDelivery) (fun r run job i => hMove.sent hDelivery)
      fun r r' job job' i => hMove.apart hDelivery
  exact hKeeps hInitial

end Forge.Platform
