import VwiiNandTools.Lib.ByteMemory

/-!
# `memcpy`

The byte loop of `common/string.c` (`elfloader/string.c` has the same one).
-/

namespace VwiiNandTools

open ByteMemory

/-- The loop of `memcpy` after `n` bytes. -/
def memcpy (m : Mem) (dst src : ℕ) : ℕ → Mem
  | 0 => m
  | n + 1 => set (memcpy m dst src n) (dst + n) (memcpy m dst src n (src + n))

/-- Between buffers with no byte in common the loop copies what the source held at the start. -/
theorem memcpy_eq_fill {m : Mem} {dst src n : ℕ} (hap : Apart dst n src n) :
    memcpy m dst src n = fill m dst n fun k => m (src + k) := by
  induction n with
  | zero =>
    funext x
    exact (fill_other _ (by omega)).symm
  | succ n ih =>
    have hap' : Apart dst n src n := hap.sub (le_refl _) (by omega) (le_refl _) (by omega)
    have hsrc : memcpy m dst src n (src + n) = m (src + n) := by
      rw [ih hap']
      refine fill_other _ ?_
      rcases hap with h | h <;> omega
    rw [memcpy, hsrc, ih hap']
    funext x
    by_cases hx : x = dst + n
    · subst hx
      rw [set_same, fill_at _ _ _ (Nat.lt_succ_self n)]
    · rw [set_other _ hx]
      by_cases hin : dst ≤ x ∧ x < dst + n
      · rw [fill, fill, if_pos hin, if_pos (by omega)]
      · rw [fill_other _ hin, fill_other _ (by omega)]

end VwiiNandTools
