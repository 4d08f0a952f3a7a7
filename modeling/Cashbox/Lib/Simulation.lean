import Cashbox.Lib.Outcome
import Cashbox.Lib.Run

/-!
# Machines that answer

A machine answers every input; one of code may fail on the way. The code's machine simulates
an abstract one when, in related states and on the inputs that are allowed, it does not fail,
gives the same answer and stays related. Then it does so over every run.
-/

namespace Cashbox.Lib

variable {σ τ ι ω ε : Type}

/-- The answers of a run. -/
def answers (step : τ → ι → τ × ω) : τ → List ι → List ω
  | _, [] => []
  | t, i :: is => (step t i).2 :: answers step (step t i).1 is

/-- A run of a machine that may fail, with its answers. -/
def tryRun (step : σ → ι → Outcome ε (σ × ω)) : σ → List ι → Outcome ε (σ × List ω)
  | s, [] => .ok (s, [])
  | s, i :: is => do
    let (s, answer) ← step s i
    let (s, rest) ← tryRun step s is
    return (s, answer :: rest)

/-- **Simulation rule**: step by step the code's machine does what the abstract one does. -/
theorem tryRun_of_simulates {step : σ → ι → Outcome ε (σ × ω)} {spec : τ → ι → τ × ω}
    {R : σ → τ → Prop} {allowed : τ → ι → Prop}
    (hstep : ∀ s t i, R s t → allowed t i →
      ∃ s', step s i = .ok (s', (spec t i).2) ∧ R s' (spec t i).1)
    {s : σ} {t : τ} (h : R s t) {is : List ι}
    (his : Guarded (fun t i => (spec t i).1) allowed t is) :
    ∃ s', tryRun step s is = .ok (s', answers spec t is) ∧
      R s' (run (fun t i => (spec t i).1) t is) := by
  induction is generalizing s t with
  | nil => exact ⟨s, rfl, h⟩
  | cons i is ih =>
    obtain ⟨hi, hrest⟩ := his
    obtain ⟨s₁, hs₁, hrel⟩ := hstep s t i h hi
    obtain ⟨s', hs', hend⟩ := ih hrel hrest
    refine ⟨s', ?_, hend⟩
    simp only [tryRun, hs₁, Outcome.ok_bind, hs', Outcome.pure_eq_ok, answers]

end Cashbox.Lib
