import Mathlib.Logic.Function.Iterate
import VwiiNandTools.Lib.Transition

/-!
# Runs without end

A `Path` is an infinite run from a given state.  Safety along a path is the invariant rule of
`ReachWhere` (`Path.reachWhere`); what must happen along a fair path is shown with a rank
(`Path.eventually`).
-/

namespace Transition

universe u v

variable {σ : Type u} {ℓ : Type v}

/-- An infinite run of the machine from `s`. -/
structure Path (M : Machine σ ℓ) (s : σ) where
  state : ℕ → σ
  label : ℕ → ℓ
  start : state 0 = s
  step : ∀ t, M.step (state t) (label t) = some (state (t + 1))

namespace Path

variable {M : Machine σ ℓ} {s : σ}

/-- From time `t` on, the label occurs again and again. -/
def Fair (p : Path M s) (helpful : ℓ → Prop) : Prop := ∀ t, ∃ u, t ≤ u ∧ helpful (p.label u)

theorem reachWhere {C : σ → ℓ → Prop} (p : Path M s) (hs : M.ReachWhere C s)
    (hC : ∀ t, C (p.state t) (p.label t)) (t : ℕ) : M.ReachWhere C (p.state t) := by
  induction t with
  | zero =>
    rw [p.start]
    exact hs
  | succ t ih => exact .step ih (hC t) (p.step t)

/-- **The progress rule**: while the goal `Q` is not reached every step keeps `P` and does not raise
the rank, and a helpful step lowers it. -/
theorem eventually {P Q : σ → Prop} {helpful : ℓ → Prop} (rank : σ → ℕ) (p : Path M s)
    (hfair : p.Fair helpful)
    (hstep : ∀ t, P (p.state t) → Q (p.state (t + 1)) ∨
      P (p.state (t + 1)) ∧ rank (p.state (t + 1)) ≤ rank (p.state t) ∧
        (helpful (p.label t) → rank (p.state (t + 1)) < rank (p.state t)))
    {t : ℕ} (hP : P (p.state t)) : ∃ u, t ≤ u ∧ Q (p.state u) := by
  generalize hr : rank (p.state t) = r
  induction r using Nat.strong_induction_on generalizing t with
  | _ r ih =>
    have hkeep (d : ℕ) : (∃ u, t ≤ u ∧ Q (p.state u)) ∨
        P (p.state (t + d)) ∧ rank (p.state (t + d)) ≤ r := by
      induction d with
      | zero => exact Or.inr ⟨hP, hr.le⟩
      | succ d ihd =>
        rcases ihd with hgoal | ⟨hPd, hrd⟩
        · exact Or.inl hgoal
        · rcases hstep _ hPd with hQ | ⟨hP', hle, -⟩
          · exact Or.inl ⟨t + d + 1, by omega, hQ⟩
          · exact Or.inr ⟨hP', hle.trans hrd⟩
    obtain ⟨u, htu, hu⟩ := hfair t
    obtain ⟨d, rfl⟩ := Nat.exists_eq_add_of_le htu
    rcases hkeep d with hgoal | ⟨hPd, hrd⟩
    · exact hgoal
    · rcases hstep _ hPd with hQ | ⟨hP', -, hlt⟩
      · exact ⟨t + d + 1, by omega, hQ⟩
      · obtain ⟨w, hw, hQ⟩ := ih _ ((hlt hu).trans_le hrd) hP' rfl
        exact ⟨w, by omega, hQ⟩

/-! ## Building paths -/

theorem exists_forever {a : ℓ} (h : ∀ s, ∃ s', M.step s a = some s') (s : σ) :
    ∃ p : Path M s, ∀ t, p.label t = a := by
  choose f hf using h
  refine ⟨⟨fun t => f^[t] s, fun _ => a, rfl, fun t => ?_⟩, fun _ => rfl⟩
  rw [Function.iterate_succ_apply', hf]

theorem exists_prepend {C : σ → ℓ → Prop} [∀ s a, Decidable (C s a)] {s s' : σ} {l : List ℓ}
    (h : M.execWhere C s l = some s') (p : Path M s') :
    ∃ q : Path M s, (∀ t, q.state (l.length + t) = p.state t) ∧
      (∀ t, q.label (l.length + t) = p.label t) ∧
      ((∀ t, C (p.state t) (p.label t)) → ∀ t, C (q.state t) (q.label t)) := by
  induction l generalizing s with
  | nil =>
    rw [Machine.execWhere, Option.some.injEq] at h
    subst h
    simp only [List.length_nil, Nat.zero_add]
    exact ⟨p, fun _ => rfl, fun _ => rfl, id⟩
  | cons a l ih =>
    rw [Machine.execWhere] at h
    split at h
    · next hc =>
      obtain ⟨t, ht, h⟩ := Option.bind_eq_some_iff.mp h
      obtain ⟨q, hstate, hlabel, hC⟩ := ih h
      refine ⟨⟨fun n => n.casesOn s q.state, fun n => n.casesOn a q.label, rfl, ?_⟩, ?_, ?_, ?_⟩
      · intro n
        cases n with
        | zero => exact ht.trans (congrArg some q.start.symm)
        | succ n => exact q.step n
      · intro n
        rw [List.length_cons, Nat.add_right_comm]
        exact hstate n
      · intro n
        rw [List.length_cons, Nat.add_right_comm]
        exact hlabel n
      · intro hp n
        cases n with
        | zero => exact hc
        | succ n => exact hC hp n
    · cases h

end Path

end Transition
