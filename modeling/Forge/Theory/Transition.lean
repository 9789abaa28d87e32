import Mathlib.Logic.Relation

/-! # Runs of labelled transition systems

A run lists the events of its steps. Properties are carried from one step to a whole run: invariants,
relations between the two ends, and invariants that hold only while every step meets a condition.
-/
namespace Forge.Theory
set_option autoImplicit false

variable {σ ε : Type*}

inductive Run (step : σ → ε → σ → Prop) : σ → List ε → σ → Prop where
  | nil (s : σ) : Run step s [] s
  | cons {s t u : σ} {e : ε} {events : List ε} (head : step s e t) (tail : Run step t events u) :
      Run step s (e :: events) u

namespace Run
variable {step step' : σ → ε → σ → Prop} {s t u : σ} {events events' : List ε}

theorem single {e : ε} (h : step s e t) : Run step s [e] t := .cons h (.nil t)

theorem append (h : Run step s events t) (h' : Run step t events' u) :
    Run step s (events ++ events') u := by
  induction h with
  | nil s => exact h'
  | cons head _ ih => exact .cons head (ih h')

theorem mono (hStep : ∀ s e t, step s e t → step' s e t) (h : Run step s events t) :
    Run step' s events t := by
  induction h with
  | nil s => exact .nil s
  | cons head _ ih => exact .cons (hStep _ _ _ head) ih

theorem invariant {Inv : σ → Prop} (hStep : ∀ s e t, Inv s → step s e t → Inv t)
    (h : Run step s events t) (hInv : Inv s) : Inv t := by
  induction h with
  | nil s => exact hInv
  | cons head _ ih => exact ih (hStep _ _ _ hInv head)

/-- Invariants that speak about the events so far as well. -/
theorem traces {Inv : List ε → σ → Prop}
    (hStep : ∀ before s e t, Inv before s → step s e t → Inv (before ++ [e]) t)
    (h : Run step s events t) (before : List ε) (hInv : Inv before s) : Inv (before ++ events) t := by
  induction h generalizing before with
  | nil s => simpa using hInv
  | cons head _ ih => simpa using ih _ (hStep _ _ _ _ hInv head)

/-- Invariants whose step needs that its source is reachable. -/
theorem invariant_reachable {init : σ} {Inv : σ → Prop}
    (hStep : ∀ before s e t, Run step init before s → Inv s → step s e t → Inv t)
    (h : Run step init events u) (hInv : Inv init) : Inv u := by
  have hKeeps := h.traces fun before s e t (hBefore : Run step init before s ∧ Inv s) hHead =>
    And.intro (hBefore.1.append (.single hHead)) (hStep before s e t hBefore.1 hBefore.2 hHead)
  exact (hKeeps [] ⟨.nil _, hInv⟩).2

theorem relates {Rel : σ → σ → Prop} (hRefl : ∀ s, Rel s s)
    (hTrans : ∀ s t u, Rel s t → Rel t u → Rel s u) (hStep : ∀ s e t, step s e t → Rel s t)
    (h : Run step s events t) : Rel s t := by
  induction h with
  | nil s => exact hRefl s
  | cons head _ ih => exact hTrans _ _ _ (hStep _ _ _ head) ih

/-- A system whose steps are runs of another one, seen through `view`. -/
theorem simulates {τ δ : Type*} {abstract : τ → δ → τ → Prop} {view : σ → τ}
    (hStep : ∀ s e t, step s e t → ∃ shown, Run abstract (view s) shown (view t))
    (h : Run step s events t) : ∃ shown, Run abstract (view s) shown (view t) := by
  induction h with
  | nil s => exact ⟨[], .nil _⟩
  | cons head _ ih =>
    obtain ⟨shown, hHead⟩ := hStep _ _ _ head
    obtain ⟨later, hTail⟩ := ih
    exact ⟨shown ++ later, hHead.append hTail⟩

end Run

/-- The steps whose source state and event meet a condition. -/
def restrict (step : σ → ε → σ → Prop) (Ok : σ → ε → Prop) (s : σ) (e : ε) (t : σ) : Prop :=
  step s e t ∧ Ok s e

theorem Run.of_restrict {step : σ → ε → σ → Prop} {Ok : σ → ε → Prop} {s t : σ} {events : List ε}
    (h : Run (restrict step Ok) s events t) : Run step s events t :=
  h.mono fun _ _ _ hStep => hStep.1

theorem Run.restrict_of_forall {step : σ → ε → σ → Prop} {Ok : σ → ε → Prop} {s t : σ}
    {events : List ε} (h : Run step s events t) (hOk : ∀ e ∈ events, ∀ u, Ok u e) :
    Run (restrict step Ok) s events t := by
  induction h with
  | nil s => exact .nil s
  | cons head _ ih =>
    exact .cons ⟨head, hOk _ List.mem_cons_self _⟩ (ih fun e he => hOk e (List.mem_cons_of_mem _ he))

/-- Whether some run from `init` gets to a state with the property. -/
def Visits (step : σ → ε → σ → Prop) (init : σ) (P : σ → Prop) : Prop :=
  ∃ events s, Run step init events s ∧ P s

theorem Visits.next {step : σ → ε → σ → Prop} {init : σ} {P Q : σ → Prop} (h : Visits step init P)
    (hNext : ∀ s, P s → ∃ e t, step s e t ∧ Q t) : Visits step init Q := by
  obtain ⟨events, s, hRun, hHere⟩ := h
  obtain ⟨e, t, hStep, hThere⟩ := hNext s hHere
  exact ⟨events ++ [e], t, hRun.append (.single hStep), hThere⟩

theorem Visits.mono {step step' : σ → ε → σ → Prop} {init : σ} {P : σ → Prop}
    (hStep : ∀ s e t, step s e t → step' s e t) (h : Visits step init P) : Visits step' init P := by
  obtain ⟨events, s, hRun, hHere⟩ := h
  exact ⟨events, s, hRun.mono hStep, hHere⟩

/-- The step relation of a step function that is undefined where an event cannot happen. -/
def stepsOf (next : σ → ε → Option σ) (s : σ) (e : ε) (t : σ) : Prop := next s e = some t

def execute (next : σ → ε → Option σ) : σ → List ε → Option σ
  | s, [] => some s
  | s, e :: events => (next s e).bind fun t => execute next t events

theorem run_stepsOf_iff {next : σ → ε → Option σ} {s t : σ} {events : List ε} :
    Run (stepsOf next) s events t ↔ execute next s events = some t := by
  constructor
  · intro h
    induction h with
    | nil s => rfl
    | cons head _ ih =>
      rw [stepsOf] at head
      rw [execute, head]
      exact ih
  · intro h
    induction events generalizing s with
    | nil =>
      cases h
      exact .nil _
    | cons e rest ih =>
      obtain ⟨u, hHead, hTail⟩ := Option.bind_eq_some_iff.mp h
      exact .cons hHead (ih hTail)

def guarded (next : σ → ε → Option σ) (Ok : σ → ε → Prop) [∀ s e, Decidable (Ok s e)] (s : σ) (e : ε) :
    Option σ :=
  if Ok s e then next s e else none

theorem stepsOf_guarded {next : σ → ε → Option σ} {Ok : σ → ε → Prop} [∀ s e, Decidable (Ok s e)]
    {s t : σ} {e : ε} (h : stepsOf (guarded next Ok) s e t) : restrict (stepsOf next) Ok s e t := by
  unfold stepsOf guarded at h
  split at h
  · rename_i hOk
    exact ⟨h, hOk⟩
  · cases h

end Forge.Theory
