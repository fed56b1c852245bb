import Mathlib.Tactic

/-!
# Runs of a step function

A run feeds a list of calls to a step function, one after the other. `Along` says that each call of
the run was made in a state that allows it; an invariant that allowed steps keep is then kept by
the whole run.
-/

namespace WMonitor

namespace Run

variable {σ ι : Type*} (step : σ → ι → σ)

def run (s : σ) (cs : List ι) : σ := cs.foldl step s

/-- Every call of the run is made in a state that allows it. -/
def Along (P : σ → ι → Prop) : σ → List ι → Prop
  | _, [] => True
  | s, c :: cs => P s c ∧ Along P (step s c) cs

variable {step} {P : σ → ι → Prop} {s : σ} {c : ι} {cs cs' : List ι}

theorem run_append : run step s (cs ++ cs') = run step (run step s cs) cs' :=
  List.foldl_append

theorem along_append : Along step P s (cs ++ cs') ↔
    Along step P s cs ∧ Along step P (run step s cs) cs' := by
  induction cs generalizing s with
  | nil => simp [Along, run]
  | cons c cs ih =>
    simp only [List.cons_append, Along, ih, and_assoc]
    rfl

/-- An invariant that every allowed step keeps holds after every allowed run. -/
theorem inv {I : σ → Prop} (h : ∀ s c, P s c → I s → I (step s c)) (ha : Along step P s cs)
    (hI : I s) : I (run step s cs) := by
  induction cs generalizing s with
  | nil => exact hI
  | cons c cs ih => exact ih ha.2 (h s c ha.1 hI)

end Run

end WMonitor
