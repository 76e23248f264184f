import Mathlib

/-!
# A counter that runs free

Successive samples of a `w`-bit counter that never stops and wraps around.  A wait of `T` ticks
compares them with the deadline `start + T`, a sum that wraps too.  The comparison means what it
should as long as counter and deadline have wrapped equally often; `timely_iff` says when
the samples let a loop end in time, and `forall_inWindow_iff` which first samples are safe.
-/

namespace FreeTimer

/-- Samples of a `w`-bit counter: the first one, and the ticks that have gone by since.  From one to
the next there are at most `G`. -/
@[ext] structure Samples (w G : ℕ) where
  start : BitVec w
  elapsed : ℕ → ℕ
  elapsed_zero : elapsed 0 = 0
  le_succ : ∀ k, elapsed k ≤ elapsed (k + 1)
  gap_le : ∀ k, elapsed (k + 1) ≤ elapsed k + G
  runs : ∀ T, ∃ k, T ≤ elapsed k

namespace Samples

variable {w G : ℕ} (s : Samples w G)

/-- What a counter without a width would show. -/
def count (k : ℕ) : ℕ := s.start.toNat + s.elapsed k

def value (k : ℕ) : BitVec w := s.start + BitVec.ofNat w (s.elapsed k)

def deadline (T : ℕ) : BitVec w := s.start + BitVec.ofNat w T

theorem elapsed_mono : Monotone s.elapsed := monotone_nat_of_le_succ s.le_succ

@[simp] theorem value_zero : s.value 0 = s.start := by
  rw [value, s.elapsed_zero, BitVec.add_zero]

theorem toNat_value (k : ℕ) : (s.value k).toNat = s.count k % 2 ^ w := by
  rw [value, count, BitVec.toNat_add, BitVec.toNat_ofNat, Nat.add_mod_mod]

theorem toNat_deadline (T : ℕ) : (s.deadline T).toNat = (s.start.toNat + T) % 2 ^ w := by
  rw [deadline, BitVec.toNat_add, BitVec.toNat_ofNat, Nat.add_mod_mod]

theorem elapsed_succ_lt {T k : ℕ} (hk : s.elapsed k < T) : s.elapsed (k + 1) < T + G := by
  have hgap := s.gap_le k
  omega

theorem exists_crossing {T j : ℕ} (hj : s.elapsed j < T) :
    ∃ k, j ≤ k ∧ s.elapsed k < T ∧ T ≤ s.elapsed (k + 1) := by
  obtain ⟨m, hm⟩ := s.runs T
  have hstep (d : ℕ) : (∃ k, j ≤ k ∧ s.elapsed k < T ∧ T ≤ s.elapsed (k + 1)) ∨
      s.elapsed (j + d) < T := by
    induction d with
    | zero => exact Or.inr hj
    | succ d ih =>
      rcases ih with hfound | hlt
      · exact Or.inl hfound
      · rcases Nat.lt_or_ge (s.elapsed (j + d + 1)) T with hnext | hnext
        · exact Or.inr hnext
        · exact Or.inl ⟨j + d, Nat.le_add_right _ _, hlt, hnext⟩
  rcases hstep m with hfound | hlt
  · exact hfound
  · have hle := s.elapsed_mono (Nat.le_add_left m j)
    omega

theorem exists_last {T : ℕ} (h0 : 0 < T) : ∃ k, s.elapsed k < T ∧ T ≤ s.elapsed (k + 1) := by
  obtain ⟨k, -, hk, hk'⟩ := s.exists_crossing (j := 0) (by rw [s.elapsed_zero]; exact h0)
  exact ⟨k, hk, hk'⟩

/-- A sample every `G` ticks. -/
def steady (start : BitVec w) (hG : 0 < G) : Samples w G where
  start := start
  elapsed k := k * G
  elapsed_zero := Nat.zero_mul G
  le_succ k := Nat.mul_le_mul_right G (Nat.le_succ k)
  gap_le k := le_of_eq (Nat.succ_mul k G)
  runs T := ⟨T, Nat.le_mul_of_pos_right T hG⟩

/-- The samples from the `n`-th on. -/
def drop (n : ℕ) : Samples w G where
  start := s.value n
  elapsed k := s.elapsed (n + k) - s.elapsed n
  elapsed_zero := Nat.sub_self _
  le_succ k := Nat.sub_le_sub_right (s.le_succ (n + k)) _
  gap_le k := by
    have hgap := s.gap_le (n + k)
    have hmono := s.elapsed_mono (Nat.le_add_right n k)
    have hassoc : n + (k + 1) = n + k + 1 := rfl
    rw [hassoc]
    omega
  runs T := by
    obtain ⟨k, hk⟩ := s.runs (s.elapsed n + T)
    have hmono := s.elapsed_mono (Nat.le_add_left k n)
    exact ⟨k, by omega⟩

@[simp] theorem value_drop (n k : ℕ) : (s.drop n).value k = s.value (n + k) := by
  have hmono := s.elapsed_mono (Nat.le_add_right n k)
  have hsplit : s.elapsed (n + k) = s.elapsed n + (s.elapsed (n + k) - s.elapsed n) := by omega
  show s.value n + BitVec.ofNat w (s.elapsed (n + k) - s.elapsed n) = s.value (n + k)
  rw [value, value, BitVec.add_assoc, ← BitVec.ofNat_add, ← hsplit]

@[simp] theorem drop_zero : s.drop 0 = s := by
  apply Samples.ext
  · exact s.value_zero
  · funext k
    show s.elapsed (0 + k) - s.elapsed 0 = s.elapsed k
    rw [s.elapsed_zero, Nat.zero_add, Nat.sub_zero]

/-! ## A deadline that does not wrap -/

section Plain

variable {s} {T k : ℕ} (hT : s.start.toNat + T < 2 ^ w)
include hT

theorem toNat_deadline_of_lt : (s.deadline T).toNat = s.start.toNat + T := by
  rw [toNat_deadline, Nat.mod_eq_of_lt hT]

theorem value_lt_deadline (hk : s.elapsed k < T) : s.value k < s.deadline T := by
  rw [BitVec.lt_def, toNat_deadline_of_lt hT, toNat_value, count, Nat.mod_eq_of_lt (by omega)]
  omega

/-- Between the deadline and the wrap of the counter. -/
theorem deadline_le_value (hk : T ≤ s.elapsed k) (hwrap : s.count k < 2 ^ w) :
    ¬s.value k < s.deadline T := by
  rw [BitVec.lt_def, toNat_deadline_of_lt hT, toNat_value, Nat.mod_eq_of_lt hwrap, count]
  omega

/-- Behind the wrap of the counter a deadline that was missed seems to lie ahead again. -/
theorem value_lt_deadline_of_missed (hwrap : 2 ^ w ≤ s.count k) (hk : s.elapsed k < 2 ^ w + T) :
    s.value k < s.deadline T := by
  have hcount : s.count k = s.start.toNat + s.elapsed k := rfl
  rw [BitVec.lt_def, toNat_deadline_of_lt hT, toNat_value, Nat.mod_eq_sub_mod hwrap,
    Nat.mod_eq_of_lt (by omega)]
  omega

end Plain

/-! ## A deadline that wraps -/

section Wraps

variable {s} {T k : ℕ} (hT : T < 2 ^ w) (hwraps : 2 ^ w ≤ s.start.toNat + T)
include hT hwraps

theorem toNat_deadline_of_wraps : (s.deadline T).toNat = s.start.toNat + T - 2 ^ w := by
  have hstart := s.start.isLt
  rw [toNat_deadline, Nat.mod_eq_sub_mod hwraps, Nat.mod_eq_of_lt (by omega)]

theorem deadline_lt_start : s.deadline T < s.start := by
  rw [BitVec.lt_def, toNat_deadline_of_wraps hT hwraps]
  omega

/-- Before the counter wraps, every sample seems to be past the deadline. -/
theorem deadline_le_value_of_early (hk : s.count k < 2 ^ w) : ¬s.value k < s.deadline T := by
  have hcount : s.count k = s.start.toNat + s.elapsed k := rfl
  rw [BitVec.lt_def, toNat_deadline_of_wraps hT hwraps, toNat_value, Nat.mod_eq_of_lt hk]
  omega

/-- Once both have wrapped the comparison is right. -/
theorem value_lt_deadline_iff (hk : 2 ^ w ≤ s.count k) (hk' : s.count k < 2 * 2 ^ w) :
    s.value k < s.deadline T ↔ s.elapsed k < T := by
  have hcount : s.count k = s.start.toNat + s.elapsed k := rfl
  rw [BitVec.lt_def, toNat_deadline_of_wraps hT hwraps, toNat_value, Nat.mod_eq_sub_mod hk,
    Nat.mod_eq_of_lt (by omega)]
  omega

end Wraps

/-! ## Seeing the deadline -/

/-- A sample falls between the deadline and the wrap of the counter. -/
def InWindow (T : ℕ) : Prop := ∃ k, T ≤ s.elapsed k ∧ s.count k < 2 ^ w

section Window

variable {s} {T : ℕ}

/-- The sample behind the last one before the deadline is before the wrap. -/
theorem InWindow.count_succ_lt (h : s.InWindow T) {k : ℕ} (hk : s.elapsed k < T) :
    s.count (k + 1) < 2 ^ w := by
  obtain ⟨m, hTm, hm⟩ := h
  have hkm : k + 1 ≤ m := by
    by_contra hlt
    have hmono := s.elapsed_mono (show m ≤ k by omega)
    omega
  have hmono := s.elapsed_mono hkm
  rw [count] at hm ⊢
  omega

end Window

/-- Samples without a gap up to just before the time `T`, and then as far apart as they may be. -/
def late (start : BitVec w) (T : ℕ) (hG : 0 < G) : Samples w G where
  start := start
  elapsed k := min k (T - 1) + (k - (T - 1)) * G
  elapsed_zero := by simp
  le_succ k := by
    have hmul := Nat.mul_le_mul_right G (show k - (T - 1) ≤ k + 1 - (T - 1) by omega)
    omega
  gap_le k := by
    rcases Nat.lt_or_ge k (T - 1) with h | h
    · rw [show k + 1 - (T - 1) = 0 by omega, show k - (T - 1) = 0 by omega]
      omega
    · rw [show k + 1 - (T - 1) = k - (T - 1) + 1 by omega, Nat.add_mul, Nat.one_mul]
      omega
  runs t := by
    have hmul := Nat.le_mul_of_pos_right t hG
    exact ⟨T - 1 + t, by rw [Nat.add_sub_cancel_left]; omega⟩

/-- **Which phases are safe**: a wait sees its deadline whatever the samples are exactly when the
deadline is a gap away from the wrap of the counter. -/
theorem forall_inWindow_iff {start : BitVec w} {T : ℕ} (h0 : 0 < T)
    (hT : start.toNat + T < 2 ^ w) :
    (∀ s : Samples w G, s.start = start → s.InWindow T) ↔ start.toNat + T + G ≤ 2 ^ w := by
  constructor
  · intro h
    by_contra hlate
    obtain ⟨k, hk, hwrap⟩ := h (late start T (by omega)) rfl
    have hcount : (late start T (by omega : 0 < G)).count k =
        start.toNat + (min k (T - 1) + (k - (T - 1)) * G) := rfl
    have helapsed : (late start T (by omega : 0 < G)).elapsed k =
        min k (T - 1) + (k - (T - 1)) * G := rfl
    rw [helapsed] at hk
    rw [hcount] at hwrap
    rcases Nat.lt_or_ge (T - 1) k with hlt | hge
    · have hmul := Nat.mul_le_mul_right G (show 1 ≤ k - (T - 1) by omega)
      omega
    · rw [show k - (T - 1) = 0 by omega, Nat.zero_mul] at hk
      omega
  · rintro h s rfl
    obtain ⟨k, hk, hk'⟩ := s.exists_last h0
    have hlt := s.elapsed_succ_lt hk
    exact ⟨k + 1, hk', by rw [count]; omega⟩

/-! ## A loop that waits for its deadline -/

/-- A loop that compares the samples behind the first one with the deadline ends with this one. -/
def StopsAt (T i : ℕ) : Prop :=
  (∀ j, 1 ≤ j → j < i → s.value j < s.deadline T) ∧ 1 ≤ i ∧ ¬s.value i < s.deadline T

/-- The loop never ends too soon, and it ends in time. -/
def Timely (T : ℕ) : Prop :=
  (∀ i, s.StopsAt T i → T ≤ s.elapsed i) ∧ ∃ i, s.StopsAt T i ∧ s.elapsed i ≤ T + 2 * G

section Timely

variable {s} {T : ℕ}

/-- A loop is timely when no sample before the deadline ends it and the first one behind does. -/
theorem timely_of (h0 : 0 < T) (hbefore : ∀ j, 1 ≤ j → s.elapsed j < T → s.value j < s.deadline T)
    (hfirst : ∀ k, s.elapsed k < T → T ≤ s.elapsed (k + 1) → ¬s.value (k + 1) < s.deadline T) :
    s.Timely T := by
  constructor
  · intro i hi
    by_contra hlt
    exact hi.2.2 (hbefore i hi.2.1 (not_le.mp hlt))
  · obtain ⟨k, hk, hk'⟩ := s.exists_last h0
    refine ⟨k + 1, ⟨?_, Nat.le_add_left 1 k, hfirst k hk hk'⟩, ?_⟩
    · intro j hj hjk
      have hmono := s.elapsed_mono (show j ≤ k by omega)
      exact hbefore j hj (by omega)
    · have hlt := s.elapsed_succ_lt hk
      omega

/-- **When a loop is timely**: a deadline that does not wrap must be seen before the counter wraps,
and one that wraps must not be looked at before the counter has. -/
theorem timely_iff (h0 : 0 < T) (hG : T + 2 * G < 2 ^ w) :
    s.Timely T ↔ if s.start.toNat + T < 2 ^ w then s.InWindow T else 2 ^ w ≤ s.count 1 := by
  have hstart := s.start.isLt
  split
  · next hplain =>
    constructor
    · rintro ⟨hsoon, i, hi, hlt⟩
      refine ⟨i, hsoon i hi, ?_⟩
      by_contra hwrap
      exact hi.2.2 (value_lt_deadline_of_missed hplain (not_lt.mp hwrap) (by omega))
    · intro hwindow
      refine timely_of h0 (fun j _ hj => value_lt_deadline hplain hj) ?_
      intro k hk hk'
      exact deadline_le_value hplain hk' (hwindow.count_succ_lt hk)
  · next hwraps =>
    have hT : T < 2 ^ w := by omega
    constructor
    · rintro ⟨hsoon, -⟩
      by_contra hearly
      have hpast := deadline_le_value_of_early hT (not_lt.mp hwraps) (not_le.mp hearly)
      have hT1 := hsoon 1 ⟨fun j hj hj' => absurd hj (not_le.mpr hj'), le_rfl, hpast⟩
      rw [count] at hearly
      omega
    · intro hone
      have hright {j : ℕ} (hj : 1 ≤ j) (hlt : s.elapsed j < T + G) :
          s.value j < s.deadline T ↔ s.elapsed j < T := by
        have hmono := s.elapsed_mono hj
        rw [count] at hone
        exact value_lt_deadline_iff hT (not_lt.mp hwraps) (by rw [count]; omega)
          (by rw [count]; omega)
      refine timely_of h0 ?_ ?_
      · intro j hj hlt
        exact (hright hj (by omega)).mpr hlt
      · intro k hk hk' hlt
        have hsucc := s.elapsed_succ_lt hk
        have hle := (hright (Nat.le_add_left 1 k) hsucc).mp hlt
        omega

end Timely

/-- A first sample that is read twice. -/
def stalled (start : BitVec w) (hG : 0 < G) : Samples w G where
  start := start
  elapsed k := (k - 1) * G
  elapsed_zero := Nat.zero_mul G
  le_succ k := Nat.mul_le_mul_right G (Nat.sub_le_sub_right (Nat.le_succ k) 1)
  gap_le k := by
    rw [← Nat.succ_mul]
    exact Nat.mul_le_mul_right G (by omega)
  runs T := ⟨T + 1, Nat.le_mul_of_pos_right T hG⟩

/-- **Which phases are safe for a loop**: those whose deadline is a gap away from the wrap.  One
that wraps is taken to be over by a sample before the wrap. -/
theorem forall_timely_iff {start : BitVec w} {T : ℕ} (h0 : 0 < T) (hpos : 0 < G)
    (hG : T + 2 * G < 2 ^ w) :
    (∀ s : Samples w G, s.start = start → s.Timely T) ↔ start.toNat + T + G ≤ 2 ^ w := by
  have hstart := start.isLt
  rcases Nat.lt_or_ge (start.toNat + T) (2 ^ w) with hplain | hwraps
  · rw [← forall_inWindow_iff h0 hplain]
    constructor
    · rintro h s rfl
      have htimely := (timely_iff h0 hG).mp (h s rfl)
      rwa [if_pos hplain] at htimely
    · rintro h s rfl
      rw [timely_iff h0 hG, if_pos hplain]
      exact h s rfl
  · constructor
    · intro h
      have htimely := (timely_iff h0 hG).mp (h (stalled start hpos) rfl)
      have hstalled : (stalled start hpos).start = start := rfl
      rw [hstalled, if_neg (not_lt.mpr hwraps)] at htimely
      have hcount : (stalled start hpos).count 1 = start.toNat + (1 - 1) * G := rfl
      rw [hcount, Nat.sub_self, Nat.zero_mul] at htimely
      omega
    · intro h
      omega

end Samples

end FreeTimer
