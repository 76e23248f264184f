import Mathlib

/-!
# Machines, runs and invariants

A machine has initial states and a partial step function; the label of a step carries every choice
the step leaves open (which party moves, what the environment answers).  `ReachWhere C` are the
states of the runs whose steps all meet `C`, `Reach` those of all runs.
-/

namespace Transition

universe u v

/-- Initial states and labelled steps. -/
structure Machine (σ : Type u) (ℓ : Type v) where
  init : σ → Prop
  step : σ → ℓ → Option σ

variable {σ : Type u} {ℓ : Type v} {M : Machine σ ℓ}

namespace Machine

/-- The states of the runs whose steps all meet `C`. -/
inductive ReachWhere (M : Machine σ ℓ) (C : σ → ℓ → Prop) : σ → Prop
  | init {s : σ} : M.init s → ReachWhere M C s
  | step {s s' : σ} {a : ℓ} : ReachWhere M C s → C s a → M.step s a = some s' → ReachWhere M C s'

/-- The states of all runs. -/
abbrev Reach (M : Machine σ ℓ) : σ → Prop := M.ReachWhere fun _ _ => True

/-- Run a list of labels. -/
def exec (M : Machine σ ℓ) : σ → List ℓ → Option σ
  | s, [] => some s
  | s, a :: l => (M.step s a).bind fun s' => M.exec s' l

/-- Run a list of labels whose steps all meet `C`. -/
def execWhere (M : Machine σ ℓ) (C : σ → ℓ → Prop) [∀ s a, Decidable (C s a)] :
    σ → List ℓ → Option σ
  | s, [] => some s
  | s, a :: l => if C s a then (M.step s a).bind fun s' => M.execWhere C s' l else none

end Machine

open Machine

/-- **The invariant rule**: what holds at the start, and is kept by every step that meets `C`, holds
in every state of a run whose steps meet `C`. -/
theorem Machine.ReachWhere.invariant {C : σ → ℓ → Prop} {I : σ → Prop} (h0 : ∀ s, M.init s → I s)
    (hstep : ∀ s a s', I s → C s a → M.step s a = some s' → I s') {s : σ}
    (hs : M.ReachWhere C s) : I s := by
  induction hs with
  | init h => exact h0 _ h
  | step _ hc hst ih => exact hstep _ _ _ ih hc hst

theorem Machine.ReachWhere.mono {C D : σ → ℓ → Prop} (h : ∀ s a, C s a → D s a) {s : σ}
    (hs : M.ReachWhere C s) : M.ReachWhere D s := by
  induction hs with
  | init h0 => exact .init h0
  | step _ hc hst ih => exact .step ih (h _ _ hc) hst

theorem Machine.ReachWhere.reach {C : σ → ℓ → Prop} {s : σ} (hs : M.ReachWhere C s) : M.Reach s :=
  hs.mono fun _ _ _ => trivial

theorem Machine.Reach.exec {s s' : σ} {l : List ℓ} (hs : M.Reach s) (h : M.exec s l = some s') :
    M.Reach s' := by
  induction l generalizing s with
  | nil => rw [Machine.exec, Option.some.injEq] at h; exact h ▸ hs
  | cons a l ih =>
    rw [Machine.exec] at h
    obtain ⟨t, ht, h⟩ := Option.bind_eq_some_iff.mp h
    exact ih (.step hs trivial ht) h

theorem Machine.ReachWhere.execWhere {C : σ → ℓ → Prop} [∀ s a, Decidable (C s a)] {s s' : σ}
    {l : List ℓ} (hs : M.ReachWhere C s) (h : M.execWhere C s l = some s') : M.ReachWhere C s' := by
  induction l generalizing s with
  | nil => rw [Machine.execWhere, Option.some.injEq] at h; exact h ▸ hs
  | cons a l ih =>
    rw [Machine.execWhere] at h
    split at h
    · next hc =>
      obtain ⟨t, ht, h⟩ := Option.bind_eq_some_iff.mp h
      exact ih (.step hs hc ht) h
    · cases h

end Transition
