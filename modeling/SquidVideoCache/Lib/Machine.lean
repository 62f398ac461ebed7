import Mathlib.Tactic.Common

/-!
# Machines and their runs

A machine has an initial state and a step for each event that is enabled; a step may fail. `Reached` is
relative to a condition on the steps, so that a property of all runs and a property of the runs whose
steps meet a condition are stated alike.
-/

namespace SquidVideoCache.Lib

structure Machine (σ ε φ : Type) where
  init : σ
  enabled : σ → ε → Bool
  step : σ → ε → Except φ σ

variable {σ ε φ : Type}

/-- The states after the events of a list, each of which meets the condition in the state before it. -/
inductive Machine.Reached (M : Machine σ ε φ) (cond : σ → ε → Bool) : List ε → σ → Prop
  | init : M.Reached cond [] M.init
  | next {es : List ε} {s s' : σ} (e : ε) (hs : M.Reached cond es s) (he : M.enabled s e) (hc : cond s e)
      (hstep : M.step s e = .ok s') : M.Reached cond (es ++ [e]) s'

def Machine.run (M : Machine σ ε φ) (cond : σ → ε → Bool) (s : σ) : List ε → Option σ
  | [] => some s
  | e :: es =>
    if M.enabled s e && cond s e then
      match M.step s e with
      | .ok s' => M.run cond s' es
      | .error _ => none
    else none

variable {M : Machine σ ε φ} {cond : σ → ε → Bool} {es fs : List ε} {s s' : σ}

lemma Machine.Reached.run (hs : M.Reached cond es s) (h : M.run cond s fs = some s') : M.Reached cond (es ++ fs) s' := by
  induction fs generalizing es s with
  | nil =>
    cases h
    rwa [List.append_nil]
  | cons e fs ih =>
    unfold Machine.run at h
    split_ifs at h with he
    rw [Bool.and_eq_true] at he
    cases hstep : M.step s e with
    | error f => simp [hstep] at h
    | ok t =>
      rw [hstep] at h
      have hnext := ih (hs.next e he.1 he.2 hstep) h
      rwa [List.append_assoc] at hnext

lemma Machine.exists_reached (M : Machine σ ε φ) (cond : σ → ε → Bool) (es : List ε) (P : σ → Prop) [DecidablePred P]
    (h : (M.run cond M.init es).any (fun s => decide (P s)) = true) : ∃ s, M.Reached cond es s ∧ P s := by
  cases hrun : M.run cond M.init es with
  | none => simp [hrun] at h
  | some s =>
    rw [hrun] at h
    exact ⟨s, Machine.Reached.init.run hrun, by simpa using h⟩

/-- An invariant of the steps holds in every run, and a run is no longer than a measure allows that each
step lowers. -/
theorem Machine.Reached.inv_and_length_le {I : σ → Prop} (μ : σ → ℕ) (hinit : I M.init)
    (hstep : ∀ s e s', I s → M.enabled s e → M.step s e = .ok s' → I s' ∧ μ s' < μ s) (h : M.Reached cond es s) :
    I s ∧ es.length + μ s ≤ μ M.init := by
  induction h with
  | init => exact ⟨hinit, by simp⟩
  | next e _ he _ hs ih =>
    obtain ⟨hI, hlt⟩ := hstep _ e _ ih.1 he hs
    refine ⟨hI, ?_⟩
    rw [List.length_append, List.length_singleton]
    omega

end SquidVideoCache.Lib
