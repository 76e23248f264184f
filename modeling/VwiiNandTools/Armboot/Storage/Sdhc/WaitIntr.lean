import VwiiNandTools.Armboot.Storage.Sdhc.Intr

/-!
# Waiting for an interrupt

`sdhc_wait_intr_debug` for any mask and any number of polls.  `sdhc_intr` may post bits before any
load of `intr_status`: before the one on entry, and before the two of each poll, the test against zero
and the load of the status value.  `intrAt` is the value the loads see.

The test is on all of `intr_status`, the status value on the masked bits only.  So a bit outside of
the mask ends the wait with nothing in hand; when no poll but the last sees only such bits
(`OnlyWanted`), the wait ends as it should (`waitIntr_notEarly`).
-/

namespace VwiiNandTools.Sdhc

/-! ## The source -/

def errorBits : BitVec 16 := sdhcErrorInterrupt ||| sdhcErrorTimeout

/-- `mask |= SDHC_ERROR_INTERRUPT; mask |= SDHC_ERROR_TIMEOUT;` -/
def fullMask (mask : BitVec 16) : BitVec 16 := mask ||| errorBits

/-- The value of `intr_status` load number `n` sees: 0 is the load on entry, `2 * i + 1` the test of
poll `i` and `2 * i + 2` the load after it. -/
def intrAt (entry : BitVec 16) (post : ℕ → BitVec 16) : ℕ → BitVec 16
  | 0 => entry
  | n + 1 => intrAt entry post n ||| post n

/-- The loop, from poll `i` on: the polls left at its end, and the status value. -/
def waitLoop (intr : ℕ → BitVec 16) (mask : BitVec 16) : ℕ → ℕ → BitVec 16 → ℕ × BitVec 16
  | 0, _, status => (0, status)
  | timo + 1, i, status =>
    if intr (2 * i + 1) ≠ 0#16 then (timo + 1, intr (2 * i + 2) &&& mask)
    else waitLoop intr mask timo (i + 1) status

/-- What is left of the status value after the two error branches. -/
def judged (status : BitVec 16) : BitVec 16 :=
  if isset status sdhcErrorInterrupt then 0#16
  else if isset status sdhcErrorTimeout then 0#16
  else status

/-- The value `sdhc_wait_intr_debug` returns. -/
def waitIntr (intr : ℕ → BitVec 16) (mask : BitVec 16) (timo : ℕ) : BitVec 16 :=
  let r := waitLoop intr (fullMask mask) timo 0 (intr 0 &&& fullMask mask)
  judged (if r.1 = 0 then r.2 ||| sdhcErrorTimeout else r.2)

/-- The number of polls it makes; the one that ends the loop is not counted down. -/
def polls (intr : ℕ → BitVec 16) (mask : BitVec 16) (timo : ℕ) : ℕ :=
  timo - ((waitLoop intr (fullMask mask) timo 0 (intr 0 &&& fullMask mask)).1 - 1)

/-! ## The property -/

/-- An error bit is set. -/
def HasError (x : BitVec 16) : Prop := x &&& errorBits ≠ 0#16

/-- The wait does not give up early. -/
structure NotEarly (intr : ℕ → BitVec 16) (mask : BitVec 16) (timo : ℕ) : Prop where
  zero : waitIntr intr mask timo = 0#16 →
    (∃ n ≤ 2 * timo, HasError (intr n)) ∨ ∀ i < timo, intr (2 * i + 1) &&& mask = 0#16
  contains : ∀ i < timo, (∀ j < i, intr (2 * j + 1) &&& fullMask mask = 0#16) →
    ¬HasError (intr (2 * i + 2)) →
    intr (2 * i + 1) &&& mask &&& waitIntr intr mask timo = intr (2 * i + 1) &&& mask
  outside : polls intr mask timo = polls (fun n => intr n &&& fullMask mask) mask timo

/-- At every poll but the last, a non-zero `intr_status` has a requested bit or an error bit. -/
def OnlyWanted (intr : ℕ → BitVec 16) (mask : BitVec 16) (timo : ℕ) : Prop :=
  ∀ i, i + 1 < timo → intr (2 * i + 1) &&& fullMask mask = 0#16 → intr (2 * i + 1) = 0#16

/-! ## The loop -/

/-- Either every test sees zero, or the loop ends at the first one that does not. -/
theorem waitLoop_cases (intr : ℕ → BitVec 16) (mask : BitVec 16) (timo i : ℕ) (status : BitVec 16) :
    ((∀ j < timo, intr (2 * (i + j) + 1) = 0#16) ∧
        waitLoop intr mask timo i status = (0, status)) ∨
      ∃ p < timo, (∀ j < p, intr (2 * (i + j) + 1) = 0#16) ∧ intr (2 * (i + p) + 1) ≠ 0#16 ∧
        waitLoop intr mask timo i status = (timo - p, intr (2 * (i + p) + 2) &&& mask) := by
  induction timo generalizing i with
  | zero => exact Or.inl ⟨fun j hj => absurd hj (Nat.not_lt_zero j), rfl⟩
  | succ timo ih =>
    by_cases h0 : intr (2 * i + 1) = 0#16
    · have hstep : waitLoop intr mask (timo + 1) i status = waitLoop intr mask timo (i + 1) status := by
        rw [waitLoop, if_neg (not_not.mpr h0)]
      rw [hstep]
      rcases ih (i + 1) with ⟨hz, hr⟩ | ⟨p, hp, hz, hne, hr⟩
      · refine Or.inl ⟨fun j hj => ?_, hr⟩
        cases j with
        | zero => exact h0
        | succ j =>
          rw [show i + (j + 1) = i + 1 + j by omega]
          exact hz j (by omega)
      · rw [show i + 1 + p = i + (p + 1) by omega] at hne hr
        refine Or.inr ⟨p + 1, by omega, fun j hj => ?_, hne, ?_⟩
        · cases j with
          | zero => exact h0
          | succ j =>
            rw [show i + (j + 1) = i + 1 + j by omega]
            exact hz j (by omega)
        · rw [hr, Nat.add_sub_add_right]
    · refine Or.inr ⟨0, by omega, fun j hj => absurd hj (Nat.not_lt_zero j), h0, ?_⟩
      rw [waitLoop, if_pos h0]
      rfl

theorem wait_cases (intr : ℕ → BitVec 16) (mask : BitVec 16) (timo : ℕ) :
    ((∀ j < timo, intr (2 * j + 1) = 0#16) ∧ waitIntr intr mask timo = 0#16 ∧
        polls intr mask timo = timo) ∨
      ∃ p < timo, (∀ j < p, intr (2 * j + 1) = 0#16) ∧ intr (2 * p + 1) ≠ 0#16 ∧
        waitIntr intr mask timo = judged (intr (2 * p + 2) &&& fullMask mask) ∧
        polls intr mask timo = p + 1 := by
  rcases waitLoop_cases intr (fullMask mask) timo 0 (intr 0 &&& fullMask mask) with
    ⟨hz, hr⟩ | ⟨p, hp, hz, hne, hr⟩
  · simp only [Nat.zero_add] at hz
    refine Or.inl ⟨hz, ?_, ?_⟩
    · have hbit : isset (intr 0 &&& fullMask mask ||| sdhcErrorTimeout) sdhcErrorTimeout = true := by
        rw [isset_or]
        exact Bool.or_eq_true_iff.mpr (Or.inr (by decide))
      simp only [waitIntr, hr, if_true, judged, hbit]
      split <;> rfl
    · rw [polls, hr]
      exact Nat.sub_zero timo
  · simp only [Nat.zero_add] at hz hne hr
    refine Or.inr ⟨p, hp, hz, hne, ?_, ?_⟩
    · simp only [waitIntr, hr]
      rw [if_neg (by omega)]
    · rw [polls, hr]
      omega

/-! ## Postings only add bits -/

theorem intrAt_le (entry : BitVec 16) (post : ℕ → BitVec 16) {n m : ℕ} (h : n ≤ m) :
    ∃ d, intrAt entry post m = intrAt entry post n ||| d := by
  induction m, h using Nat.le_induction with
  | base => exact ⟨0#16, (BitVec.or_zero).symm⟩
  | succ m _ ih =>
    obtain ⟨d, hd⟩ := ih
    exact ⟨d ||| post m, by rw [intrAt, hd, BitVec.or_assoc]⟩

theorem intrAt_and_zero {entry : BitVec 16} {post : ℕ → BitVec 16} {n m : ℕ} {f : BitVec 16}
    (h : n ≤ m) (hm : intrAt entry post m &&& f = 0#16) : intrAt entry post n &&& f = 0#16 := by
  obtain ⟨d, hd⟩ := intrAt_le entry post h
  rw [hd, BitVec.and_or_distrib_right, BitVec.or_eq_zero_iff] at hm
  exact hm.1

theorem and_mask_of_fullMask {x mask : BitVec 16} (h : x &&& fullMask mask = 0#16) :
    x &&& mask = 0#16 := by
  rw [fullMask, BitVec.and_or_distrib_left, BitVec.or_eq_zero_iff] at h
  exact h.1

/-- Without an error bit the status value is returned as it is. -/
theorem judged_of_noError {x : BitVec 16} (h : ¬HasError x) (mask : BitVec 16) :
    judged (x &&& mask) = x &&& mask := by
  have hbits : ∀ f : BitVec 16, f &&& errorBits = f → isset (x &&& mask) f = false := by
    intro f hf
    rw [HasError, not_not] at h
    have hzero : x &&& mask &&& f = 0#16 := by
      rw [← hf, BitVec.and_assoc, BitVec.and_comm f, ← BitVec.and_assoc mask,
        BitVec.and_comm mask, BitVec.and_assoc, ← BitVec.and_assoc x, h, BitVec.zero_and]
    simp [isset, hzero]
  rw [judged, if_neg (by rw [hbits _ (by decide)]; decide),
    if_neg (by rw [hbits _ (by decide)]; decide)]

/-- Zero is returned for an error, or for nothing in hand. -/
theorem judged_eq_zero {x mask : BitVec 16} (h : judged (x &&& mask) = 0#16) :
    HasError x ∨ x &&& mask = 0#16 := by
  by_cases he : HasError x
  · exact Or.inl he
  · rw [judged_of_noError he] at h
    exact Or.inr h

section Wait

variable {entry : BitVec 16} {post : ℕ → BitVec 16} {mask : BitVec 16} {timo : ℕ}

/-- With only wanted bits, a poll that ends the loop with nothing in hand is the last one. -/
theorem OnlyWanted.last (h : OnlyWanted (intrAt entry post) mask timo) {p : ℕ} (hp : p < timo)
    (hne : intrAt entry post (2 * p + 1) ≠ 0#16)
    (hz : intrAt entry post (2 * p + 1) &&& fullMask mask = 0#16) : p + 1 = timo := by
  by_contra hlast
  exact hne (h p (by omega) hz)

theorem OnlyWanted.outside (h : OnlyWanted (intrAt entry post) mask timo) :
    polls (intrAt entry post) mask timo =
      polls (fun n => intrAt entry post n &&& fullMask mask) mask timo := by
  rcases wait_cases (intrAt entry post) mask timo with ⟨hz, -, hpolls⟩ | ⟨p, hp, hz, hne, -, hpolls⟩
  all_goals rcases wait_cases (fun n => intrAt entry post n &&& fullMask mask) mask timo with
    ⟨hz', -, hpolls'⟩ | ⟨p', hp', hz', hne', -, hpolls'⟩
  · rw [hpolls, hpolls']
  · exact absurd (by rw [hz p' hp', BitVec.zero_and]) hne'
  · rw [hpolls, hpolls']
    exact h.last hp hne (hz' p hp)
  · rw [hpolls, hpolls']
    rcases lt_trichotomy p p' with hlt | rfl | hlt
    · have := h.last hp hne (hz' p hlt)
      omega
    · rfl
    · exact absurd (by rw [hz p' hlt, BitVec.zero_and]) hne'

theorem OnlyWanted.notEarly (h : OnlyWanted (intrAt entry post) mask timo) :
    NotEarly (intrAt entry post) mask timo := by
  refine ⟨fun hres => ?_, fun i hi hbefore herr => ?_, h.outside⟩
  all_goals rcases wait_cases (intrAt entry post) mask timo with
    ⟨hz, -, -⟩ | ⟨p, hp, hz, hne, hr, -⟩
  · exact Or.inr fun i hi => by rw [hz i hi, BitVec.zero_and]
  · rw [hr] at hres
    rcases judged_eq_zero hres with he | h0
    · exact Or.inl ⟨2 * p + 2, by omega, he⟩
    · have hlast := h.last hp hne (intrAt_and_zero (by omega) h0)
      exact Or.inr fun i hi => and_mask_of_fullMask (intrAt_and_zero (by omega) h0)
  · rw [hz i hi, BitVec.zero_and, BitVec.zero_and]
  · rcases lt_trichotomy p i with hlt | rfl | hlt
    · have := h.last hp hne (hbefore p hlt)
      omega
    · rw [hr, judged_of_noError herr]
      obtain ⟨d, hd⟩ := intrAt_le entry post (show 2 * p + 1 ≤ 2 * p + 2 by omega)
      rw [hd]
      apply BitVec.eq_of_getLsbD_eq
      intro k hk
      simp only [fullMask, BitVec.getLsbD_and, BitVec.getLsbD_or]
      cases (intrAt entry post (2 * p + 1)).getLsbD k <;> cases mask.getLsbD k <;> simp
    · rw [hz i hlt, BitVec.zero_and, BitVec.zero_and]

theorem onlyWanted_of_notEarly (h : NotEarly (intrAt entry post) mask timo) :
    OnlyWanted (intrAt entry post) mask timo := by
  intro i hi hmasked
  by_contra hne
  have hout := h.outside
  -- the masked wait goes on after poll `i`, the real one does not get that far
  rcases wait_cases (intrAt entry post) mask timo with ⟨hz, -, -⟩ | ⟨p, -, hz, -, -, hpolls⟩
  · exact hne (hz i (by omega))
  · have hp : p ≤ i := by
      by_contra hlt
      exact hne (hz i (by omega))
    rcases wait_cases (fun n => intrAt entry post n &&& fullMask mask) mask timo with
      ⟨-, -, hpolls'⟩ | ⟨p', -, -, hne', -, hpolls'⟩
    · omega
    · have hp' : i < p' := by
        by_contra hle
        exact hne' (intrAt_and_zero (by omega) hmasked)
      omega

end Wait

/-- **The wait gives up early exactly on foreign bits**: `sdhc_wait_intr_debug` does what it should
if and only if at every poll but the last a non-zero `intr_status` has a requested bit or an error
bit. -/
theorem waitIntr_notEarly (entry : BitVec 16) (post : ℕ → BitVec 16) (mask : BitVec 16) (timo : ℕ) :
    NotEarly (intrAt entry post) mask timo ↔ OnlyWanted (intrAt entry post) mask timo :=
  ⟨onlyWanted_of_notEarly, OnlyWanted.notEarly⟩

/-- COMMAND_COMPLETE is posted during the second poll. -/
def duringSecondPoll (n : ℕ) : BitVec 16 := if n = 2 then sdhcCommandComplete else 0#16

/-- A card removal left over from an earlier wait ends the wait for COMMAND_COMPLETE at once. -/
theorem waitIntr_leftover :
    waitIntr (intrAt 0x80#16 duringSecondPoll) sdhcCommandComplete 500 = 0#16 ∧
      polls (intrAt 0x80#16 duringSecondPoll) sdhcCommandComplete 500 = 1 ∧
      ¬∀ (entry : BitVec 16) (post : ℕ → BitVec 16) (mask : BitVec 16) (timo : ℕ),
        ¬HasError entry → 0 < timo → NotEarly (intrAt entry post) mask timo := by
  refine ⟨by decide +kernel, by decide +kernel, fun h => ?_⟩
  have hearly := h 0x80#16 duringSecondPoll sdhcCommandComplete 500 (by unfold HasError; decide)
    (by decide)
  have hwanted := (waitIntr_notEarly _ _ _ _).mp hearly 0 (by decide) (by decide)
  exact absurd hwanted (by decide)

end VwiiNandTools.Sdhc
