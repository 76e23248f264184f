import VwiiNandTools.Lib.FreeTimer

/-!
# Busy waiting

`udelay` of `common/utils.c`, one read of `HW_TIMER` at a time.  It has a loop for a deadline that
wraps, which waits until the timer has wrapped as well.

* `udelay_delays_iff`: with a deadline that wraps, `udelay` waits as long as it should whatever
  the samples are.  With one that does not, a sample has to fall between the deadline and the
  wrap of the timer; where none does, the timer is behind the deadline again and `udelay` stays.
* `udelay_phase`: what that means for the value of the timer at the call.
-/

namespace VwiiNandTools.Utils

open FreeTimer

/-! ## `udelay` -/

/-- `ticks`, as the code computes it. -/
def udelayTicks (d : BitVec 32) : BitVec 32 :=
  let ticks := d * 19#32 / 10#32
  if ticks < 2#32 then 2#32 else ticks

/-- The read of `HW_TIMER` that comes next. -/
inductive Udelay
  | entry
  | wrap (now then_ : BitVec 32)
  | reread (then_ : BitVec 32)
  | poll (then_ : BitVec 32)
  | returned
  deriving DecidableEq

/-- `while(now < then)`. -/
def Udelay.test (now then_ : BitVec 32) : Udelay := if now < then_ then .poll then_ else .returned

/-- A read, and what follows up to the next one. -/
def Udelay.step (ticks timer : BitVec 32) : Udelay → Udelay
  | .entry =>
    let now := timer
    let then_ := now + ticks
    if then_ < now then .wrap now then_ else .test now then_
  | .wrap now then_ => if timer ≥ now then .wrap now then_ else .reread then_
  | .reread then_ => .test timer then_
  | .poll then_ => .test timer then_
  | .returned => .returned

/-- A call of `udelay`, before the read that gets `timer n`. -/
def udelay (d : BitVec 32) (timer : ℕ → BitVec 32) : ℕ → Udelay
  | 0 => .entry
  | n + 1 => (udelay d timer n).step (udelayTicks d) (timer n)

/-- What `timer n` is read for lets the call return. -/
def ReturnsAt (d : BitVec 32) (timer : ℕ → BitVec 32) (n : ℕ) : Prop :=
  udelay d timer n ≠ .returned ∧ udelay d timer (n + 1) = .returned

/-! ## What it is for -/

/-- The delay in ticks. -/
def ticks (d : BitVec 32) : ℕ := max 2 (d.toNat * 19 / 10)

/-- The call returns, not before the delay is over, and less than two gaps behind it. -/
def Delays {G : ℕ} (d : BitVec 32) (s : Samples 32 G) : Prop :=
  ∃ n, ReturnsAt d s.value n ∧ ticks d ≤ s.elapsed n ∧ s.elapsed n < ticks d + 2 * G

theorem toNat_udelayTicks {d : BitVec 32} (hd : d.toNat * 19 < 2 ^ 32) :
    (udelayTicks d).toNat = ticks d := by
  have hquot : (d * 19#32 / 10#32).toNat = d.toNat * 19 / 10 := by
    rw [BitVec.toNat_udiv, BitVec.toNat_mul, BitVec.toNat_ofNat, BitVec.toNat_ofNat,
      Nat.mod_eq_of_lt (a := 19) (by decide), Nat.mod_eq_of_lt (a := 10) (by decide),
      Nat.mod_eq_of_lt hd]
  have htwo : (2#32).toNat = 2 := rfl
  simp only [udelayTicks, ticks, BitVec.lt_def, htwo, hquot]
  split
  · next h => rw [htwo, max_eq_left h.le]
  · next h => rw [hquot, max_eq_right (not_lt.mp h)]

theorem ticks_pos (d : BitVec 32) : 0 < ticks d := lt_of_lt_of_le Nat.two_pos (le_max_left _ _)

/-! ## The loops -/

section Loops

variable {d : BitVec 32} {timer : ℕ → BitVec 32} {n m : ℕ}

theorem udelay_succ (d : BitVec 32) (timer : ℕ → BitVec 32) (n : ℕ) :
    udelay d timer (n + 1) = (udelay d timer n).step (udelayTicks d) (timer n) := rfl

/-- A loop goes on as long as the samples keep it. -/
theorem udelay_stays {q : Udelay} (hn : udelay d timer n = q) (hnm : n ≤ m)
    (h : ∀ k, n ≤ k → k < m → q.step (udelayTicks d) (timer k) = q) : udelay d timer m = q := by
  induction m, hnm using Nat.le_induction with
  | base => exact hn
  | succ m hnm ih =>
    have hm := ih fun k hk hkm => h k hk (Nat.lt_succ_of_lt hkm)
    rw [udelay_succ, hm]
    exact h m hnm (Nat.lt_succ_self m)

/-- The last loop goes on as long as the samples are before the deadline. -/
theorem udelay_poll {t : BitVec 32} (hn : udelay d timer n = .poll t) (hnm : n ≤ m)
    (h : ∀ k, n ≤ k → k < m → timer k < t) : udelay d timer m = .poll t :=
  udelay_stays hn hnm fun k hk hkm => if_pos (h k hk hkm)

theorem returnsAt_of_poll {t : BitVec 32} (hn : udelay d timer n = .poll t)
    (h : ¬timer n < t) : ReturnsAt d timer n := by
  constructor
  · rw [hn]
    rintro ⟨⟩
  · rw [udelay_succ, hn]
    exact if_neg h

/-- The first loop goes on as long as the timer has not wrapped. -/
theorem udelay_wrap {now t : BitVec 32} (hn : udelay d timer n = .wrap now t) (hnm : n ≤ m)
    (h : ∀ k, n ≤ k → k < m → now ≤ timer k) : udelay d timer m = .wrap now t :=
  udelay_stays hn hnm fun k hk hkm => if_pos (h k hk hkm)

end Loops

/-! ## The two kinds of deadlines -/

section Deadlines

variable {G : ℕ} {d : BitVec 32} {s : Samples 32 G}

theorem start_add_udelayTicks (hd : d.toNat * 19 < 2 ^ 32) :
    s.start + udelayTicks d = s.deadline (ticks d) := by
  rw [Samples.deadline, ← toNat_udelayTicks hd, BitVec.ofNat_toNat, BitVec.setWidth_eq]

theorem udelay_one (hd : d.toNat * 19 < 2 ^ 32) : udelay d s.value 1 =
    if s.deadline (ticks d) < s.start then .wrap s.start (s.deadline (ticks d))
    else .test s.start (s.deadline (ticks d)) := by
  rw [udelay_succ, s.value_zero, ← start_add_udelayTicks hd]
  rfl

/-- A deadline that does not wrap: the call is in its last loop from the first sample on. -/
theorem udelay_one_of_plain (hd : d.toNat * 19 < 2 ^ 32)
    (hplain : s.start.toNat + ticks d < 2 ^ 32) :
    udelay d s.value 1 = .poll (s.deadline (ticks d)) := by
  have hlt := Samples.value_lt_deadline (k := 0) hplain (by rw [s.elapsed_zero]; exact ticks_pos d)
  rw [s.value_zero] at hlt
  have hnot : ¬s.deadline (ticks d) < s.start := by
    rw [BitVec.lt_def] at hlt ⊢
    omega
  rw [udelay_one hd, if_neg hnot]
  exact if_pos hlt

theorem delays_of_inWindow (hd : d.toNat * 19 < 2 ^ 32)
    (hplain : s.start.toNat + ticks d < 2 ^ 32) (hwindow : s.InWindow (ticks d)) :
    Delays d s := by
  obtain ⟨k, hk, hk'⟩ := s.exists_last (ticks_pos d)
  have hpoll : udelay d s.value (k + 1) = .poll (s.deadline (ticks d)) := by
    refine udelay_poll (udelay_one_of_plain hd hplain) (Nat.le_add_left 1 k) ?_
    intro j _ hj
    have hmono := s.elapsed_mono (show j ≤ k by omega)
    exact Samples.value_lt_deadline hplain (by omega)
  have hpast := Samples.deadline_le_value hplain hk' (hwindow.count_succ_lt hk)
  have hlt := s.elapsed_succ_lt hk
  exact ⟨k + 1, returnsAt_of_poll hpoll hpast, hk', by omega⟩

/-- A wait that misses its deadline does not end in time: before the wrap of the timer its samples
are before the deadline, and behind the wrap they seem to be. -/
theorem inWindow_of_delays (hd : d.toNat * 19 < 2 ^ 32) (hG : ticks d + 2 * G < 2 ^ 32)
    (hplain : s.start.toNat + ticks d < 2 ^ 32) (h : Delays d s) : s.InWindow (ticks d) := by
  obtain ⟨n, ⟨-, hreturned⟩, -, hlt⟩ := h
  by_contra hno
  have hbefore (k : ℕ) (hk : k < n + 1) : s.value k < s.deadline (ticks d) := by
    have hmono := s.elapsed_mono (show k ≤ n by omega)
    rcases Nat.lt_or_ge (s.elapsed k) (ticks d) with hk' | hk'
    · exact Samples.value_lt_deadline hplain hk'
    · have hwrap : 2 ^ 32 ≤ s.count k := not_lt.mp fun hwrap => hno ⟨k, hk', hwrap⟩
      exact Samples.value_lt_deadline_of_missed hplain hwrap (by omega)
  have hpoll := udelay_poll (udelay_one_of_plain hd hplain) (Nat.le_add_left 1 n)
    fun k _ hk => hbefore k hk
  rw [hpoll] at hreturned
  cases hreturned

/-- The first loop is left with a sample behind the wrap of the timer, less than a gap behind. -/
theorem exists_reread (hd : d.toNat * 19 < 2 ^ 32) (hG : ticks d + 2 * G < 2 ^ 32)
    (hwraps : 2 ^ 32 ≤ s.start.toNat + ticks d) :
    ∃ k, udelay d s.value (k + 2) = .reread (s.deadline (ticks d)) ∧
      2 ^ 32 ≤ s.count (k + 1) ∧ s.count (k + 1) < 2 ^ 32 + G := by
  have hstart := s.start.isLt
  have hentry : udelay d s.value 1 = .wrap s.start (s.deadline (ticks d)) := by
    rw [udelay_one hd, if_pos (Samples.deadline_lt_start (by omega) hwraps)]
  obtain ⟨k, hk, hk'⟩ := s.exists_last (T := 2 ^ 32 - s.start.toNat) (by omega)
  have hlt := s.elapsed_succ_lt hk
  have hcount (j : ℕ) : s.count j = s.start.toNat + s.elapsed j := rfl
  refine ⟨k, ?_, by rw [hcount]; omega, by rw [hcount]; omega⟩
  have hloop : udelay d s.value (k + 1) = .wrap s.start (s.deadline (ticks d)) := by
    refine udelay_wrap hentry (Nat.le_add_left 1 k) ?_
    intro j _ hj
    have hmono := s.elapsed_mono (show j ≤ k by omega)
    rw [BitVec.le_def, s.toNat_value, hcount, Nat.mod_eq_of_lt (by omega)]
    omega
  have hwrapped : ¬s.value (k + 1) ≥ s.start := by
    rw [ge_iff_le, BitVec.le_def, s.toNat_value, hcount, Nat.mod_eq_sub_mod (by omega),
      Nat.mod_eq_of_lt (by omega)]
    omega
  rw [udelay_succ, hloop]
  exact if_neg hwrapped

/-- **With a deadline that wraps** the call always returns in time. -/
theorem delays_of_wraps (hd : d.toNat * 19 < 2 ^ 32) (hG : ticks d + 2 * G < 2 ^ 32)
    (hwraps : 2 ^ 32 ≤ s.start.toNat + ticks d) : Delays d s := by
  obtain ⟨k, hreread, hk, hk'⟩ := exists_reread hd hG hwraps
  have hstart := s.start.isLt
  have hcount (j : ℕ) : s.count j = s.start.toNat + s.elapsed j := rfl
  have hgap := s.gap_le (k + 1)
  have hright {j : ℕ} (hj : k + 1 ≤ j) (hlt : s.elapsed j < ticks d + 2 * G) :
      s.value j < s.deadline (ticks d) ↔ s.elapsed j < ticks d := by
    have hmono := s.elapsed_mono hj
    rw [hcount] at hk
    exact Samples.value_lt_deadline_iff (by omega) hwraps (by rw [hcount]; omega)
      (by rw [hcount]; omega)
  have hsecond : s.elapsed (k + 2) < ticks d + 2 * G := by
    have hassoc : s.elapsed (k + 1 + 1) = s.elapsed (k + 2) := rfl
    rw [hcount] at hk'
    omega
  have htest : udelay d s.value (k + 3) = .test (s.value (k + 2)) (s.deadline (ticks d)) := by
    rw [udelay_succ, hreread]
    rfl
  rcases Nat.lt_or_ge (s.elapsed (k + 2)) (ticks d) with hbefore | hpast
  · -- the last loop starts before the deadline
    obtain ⟨m, hkm, hm, hm'⟩ := s.exists_crossing hbefore
    have hlt := s.elapsed_succ_lt hm
    have hpoll : udelay d s.value (k + 3) = .poll (s.deadline (ticks d)) := by
      rw [htest]
      exact if_pos ((hright (by omega) hsecond).mpr hbefore)
    have hloop : udelay d s.value (m + 1) = .poll (s.deadline (ticks d)) := by
      refine udelay_poll hpoll (by omega) ?_
      intro j hj hjm
      have hmono := s.elapsed_mono (show j ≤ m by omega)
      exact (hright (by omega) (by omega)).mpr (by omega)
    have hend : ¬s.value (m + 1) < s.deadline (ticks d) := by
      rw [hright (by omega) (by omega)]
      omega
    exact ⟨m + 1, returnsAt_of_poll hloop hend, hm', by omega⟩
  · -- the sample behind the first loop is behind the deadline already
    refine ⟨k + 2, ⟨?_, ?_⟩, hpast, hsecond⟩
    · rw [hreread]
      rintro ⟨⟩
    · have hend : ¬s.value (k + 2) < s.deadline (ticks d) := by
        rw [hright (by omega) hsecond]
        omega
      rw [htest]
      exact if_neg hend

end Deadlines

/-! ## Results -/

/-- **When `udelay` delays**: exactly when the deadline wraps or a sample falls between the deadline
and the wrap of the timer. -/
theorem udelay_delays_iff {G : ℕ} (d : BitVec 32) (s : Samples 32 G) (hd : d.toNat * 19 < 2 ^ 32)
    (hG : ticks d + 2 * G < 2 ^ 32) :
    Delays d s ↔ 2 ^ 32 ≤ s.start.toNat + ticks d ∨ s.InWindow (ticks d) := by
  constructor
  · intro h
    rcases Nat.lt_or_ge (s.start.toNat + ticks d) (2 ^ 32) with hplain | hwraps
    · exact Or.inr (inWindow_of_delays hd hG hplain h)
    · exact Or.inl hwraps
  · intro h
    rcases Nat.lt_or_ge (s.start.toNat + ticks d) (2 ^ 32) with hplain | hwraps
    · exact delays_of_inWindow hd hplain (h.resolve_left (not_le.mpr hplain))
    · exact delays_of_wraps hd hG hwraps

/-- A second with a sample every 7 ticks, and a timer that wraps meanwhile. -/
theorem udelay_delays_iff_second :
    Delays 1000000#32 (Samples.steady (G := 7) 0xFFFFFFF0#32 (by decide)) ↔
      2 ^ 32 ≤ (0xFFFFFFF0#32).toNat + ticks 1000000#32 ∨
        (Samples.steady (G := 7) 0xFFFFFFF0#32 (by decide)).InWindow (ticks 1000000#32) :=
  udelay_delays_iff 1000000#32 (Samples.steady 0xFFFFFFF0#32 (by decide)) (by decide) (by decide)

/-- A millisecond whose deadline is the last value of the timer, and a sample every 7 ticks. -/
theorem udelay_missed : (1000#32).toNat * 19 < 2 ^ 32 ∧ ticks 1000#32 + 2 * 7 < 2 ^ 32 ∧
    ¬Delays 1000#32 (Samples.steady (G := 7) 0xFFFFF893#32 (by decide)) := by
  refine ⟨by decide, by decide, ?_⟩
  intro h
  obtain ⟨k, hk, hwrap⟩ := inWindow_of_delays (by decide) (by decide) (by decide) h
  have hticks : ticks 1000#32 = 1900 := rfl
  have hstart : (0xFFFFF893#32).toNat = 4294965395 := rfl
  simp only [Samples.count, Samples.steady, hticks, hstart] at hk hwrap
  omega

/-- **Which calls are safe**: those whose deadline wraps, or is a gap away from the wrap. -/
theorem udelay_phase {G : ℕ} (d now : BitVec 32) (hd : d.toNat * 19 < 2 ^ 32)
    (hG : ticks d + 2 * G < 2 ^ 32) : (∀ s : Samples 32 G, s.start = now → Delays d s) ↔
      2 ^ 32 ≤ now.toNat + ticks d ∨ now.toNat + ticks d + G ≤ 2 ^ 32 := by
  rcases Nat.lt_or_ge (now.toNat + ticks d) (2 ^ 32) with hplain | hwraps
  · rw [or_iff_right (not_le.mpr hplain), ← Samples.forall_inWindow_iff (ticks_pos d) hplain]
    constructor
    · rintro h s rfl
      exact inWindow_of_delays hd hG hplain (h s rfl)
    · rintro h s rfl
      exact delays_of_inWindow hd hplain (h s rfl)
  · constructor
    · exact fun _ => Or.inl hwraps
    · rintro - s rfl
      exact delays_of_wraps hd hG hwraps

end VwiiNandTools.Utils
