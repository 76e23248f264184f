import VwiiNandTools.Lib.ByteMemory
import VwiiNandTools.Lib.AddressParity

/-!
# `nand_correct`

The ECC step of `storage/nand.c`.  `nandCorrect` walks the four 512-byte sectors of a page with
three pointers, as the source does; the ECC words lie at `0x30` (stored) and `0x40` (calculated) of
the spare buffer.  What it does to one sector is a function of that sector's two words alone,
`sectorVerdict`, and `nandCorrect_mem` says the whole call is the four verdicts carried out on the
data buffer: nothing else in memory changes.
-/

namespace VwiiNandTools.Nand

open ByteMemory AddressParity

def pageSize : ℕ := 2048
def pageSpareSize : ℕ := 64
def eccBufferAlloc : ℕ := pageSpareSize + 32
def nandMaxPage : ℕ := 0x40000

/-- The result codes of `nand_correct`. -/
inductive NandEcc
  | ok
  | corrected
  | uncorrectable
  deriving DecidableEq, Repr

def NandEcc.code : NandEcc → ℤ
  | .ok => 0
  | .corrected => 1
  | .uncorrectable => -1

/-! ## The source -/

/-- `(syndrome >> 24) | ((syndrome >> 8) & 0xf00)`, as a `u16`. -/
def evenHalf (syndrome : BitVec 32) : BitVec 16 :=
  (syndrome >>> 24 ||| (syndrome >>> 8 &&& 0xf00#32)).setWidth 16

/-- `((syndrome << 8) & 0xf00) | ((syndrome >> 8) & 0x0ff)`, as a `u16`. -/
def oddHalf (syndrome : BitVec 32) : BitVec 16 :=
  ((syndrome <<< 8 &&& 0xf00#32) ||| (syndrome >>> 8 &&& 0x0ff#32)).setWidth 16

/-- The variables of the loop over the sectors, and the memory. -/
structure CorrectLoop where
  dp : ℕ
  eccRead : ℕ
  eccCalc : ℕ
  uncorrectable : ℕ
  corrected : ℕ
  mem : Mem

/-- One pass of the loop, without the three pointer increments. -/
def correctSector (s : CorrectLoop) : CorrectLoop :=
  let syndrome := be32 s.mem s.eccRead ^^^ be32 s.mem s.eccCalc
  -- unformatted pages (all FF) are left alone
  if be32 s.mem s.eccRead ≠ 0xFFFFFFFF#32 ∧ syndrome ≠ 0#32 then
    if (syndrome - 1#32) &&& syndrome = 0#32 then
      { s with corrected := s.corrected + 1 }
    else if evenHalf syndrome ^^^ oddHalf syndrome ≠ 0xfff#16 then
      { s with uncorrectable := s.uncorrectable + 1 }
    else
      let p := s.dp + (oddHalf syndrome >>> 3).toNat
      { s with
        mem := set s.mem p (s.mem p ^^^ (1#8 <<< (oddHalf syndrome &&& 7#16).toNat))
        corrected := s.corrected + 1 }
  else s

/-- The pointer increments at the end of a pass. -/
def nextSector (s : CorrectLoop) : CorrectLoop :=
  { s with dp := s.dp + 0x200, eccRead := s.eccRead + 4, eccCalc := s.eccCalc + 4 }

def correctInit (m : Mem) (data ecc : ℕ) : CorrectLoop :=
  { dp := data, eccRead := ecc + 0x30, eccCalc := ecc + 0x40, uncorrectable := 0, corrected := 0,
    mem := m }

/-- The loop after `n` passes. -/
def correctLoop (m : Mem) (data ecc n : ℕ) : CorrectLoop :=
  (fun s => nextSector (correctSector s))^[n] (correctInit m data ecc)

def correctResult (uncorrectable corrected : ℕ) : NandEcc :=
  if uncorrectable ≠ 0 then .uncorrectable else if corrected ≠ 0 then .corrected else .ok

/-- What `nand_correct` leaves: its result, the two counts it prints, and the memory. -/
structure Corrected where
  result : NandEcc
  uncorrectable : ℕ
  corrected : ℕ
  mem : Mem

def nandCorrect (m : Mem) (data ecc : ℕ) : Corrected :=
  let s := correctLoop m data ecc 4
  { result := correctResult s.uncorrectable s.corrected, uncorrectable := s.uncorrectable,
    corrected := s.corrected, mem := s.mem }

/-! ## One sector -/

/-- What the two ECC words of a sector make `nand_correct` do to it. -/
def sectorVerdict (stored computed : BitVec 32) : Verdict 12 :=
  let syndrome := stored ^^^ computed
  if stored = 0xFFFFFFFF#32 ∨ syndrome = 0#32 then .clean
  else if (syndrome - 1#32) &&& syndrome = 0#32 then .parityBit
  else if evenHalf syndrome ^^^ oddHalf syndrome ≠ 0xfff#16 then .uncorrectable
  else .dataBit ((oddHalf syndrome).setWidth 12)

/-- Whether a verdict counts as corrected. -/
def counted : Verdict 12 → Bool
  | .parityBit | .dataBit _ => true
  | .clean | .uncorrectable => false

def failed : Verdict 12 → Bool
  | .uncorrectable => true
  | .clean | .parityBit | .dataBit _ => false

theorem failed_eq_true {v : Verdict 12} : failed v = true ↔ v = .uncorrectable := by
  cases v <;> simp [failed]

/-- Flip the bit with address `a` of the sector at `dp`. -/
def flipBit (m : Mem) (dp : ℕ) (a : BitVec 12) : Mem :=
  set m (dp + a.toNat / 8) (m (dp + a.toNat / 8) ^^^ (1#8 <<< (a.toNat % 8)))

/-- Carry out a verdict on the sector at `dp`. -/
def applyVerdict (m : Mem) (dp : ℕ) : Verdict 12 → Mem
  | .dataBit a => flipBit m dp a
  | .clean | .parityBit | .uncorrectable => m

theorem oddHalf_lt (s : BitVec 32) : (oddHalf s).toNat < 4096 := by
  have h : oddHalf s = ((oddHalf s).setWidth 12).setWidth 16 := by
    apply BitVec.eq_of_getLsbD_eq
    intro i hi
    simp only [BitVec.getLsbD_setWidth, hi, decide_true, Bool.true_and]
    by_cases h12 : i < 12
    · simp [h12]
    · have : i = 12 ∨ i = 13 ∨ i = 14 ∨ i = 15 := by omega
      rcases this with rfl | rfl | rfl | rfl <;> simp [oddHalf]
  rw [h, BitVec.toNat_setWidth]
  exact lt_of_le_of_lt (Nat.mod_le _ _) ((oddHalf s).setWidth 12).isLt

/-- One pass counts and carries out the verdict on its sector. -/
theorem correctSector_eq (s : CorrectLoop) {v : Verdict 12}
    (hv : sectorVerdict (be32 s.mem s.eccRead) (be32 s.mem s.eccCalc) = v) :
    correctSector s =
      { s with
        mem := applyVerdict s.mem s.dp v
        corrected := s.corrected + (counted v).toNat
        uncorrectable := s.uncorrectable + (failed v).toNat } := by
  subst hv
  generalize hst : be32 s.mem s.eccRead = stored
  generalize hco : be32 s.mem s.eccCalc = computed
  simp only [correctSector, hst, hco]
  by_cases h1 : stored = 0xFFFFFFFF#32 ∨ stored ^^^ computed = 0#32
  · have hv : sectorVerdict stored computed = .clean := if_pos h1
    rw [if_neg (by tauto), hv]
    simp [applyVerdict, counted, failed]
  rw [if_pos (by tauto)]
  by_cases h2 : (stored ^^^ computed) - 1#32 &&& (stored ^^^ computed) = 0#32
  · have hv : sectorVerdict stored computed = .parityBit := by
      rw [sectorVerdict, if_neg h1, if_pos h2]
    rw [if_pos h2, hv]
    simp [applyVerdict, counted, failed]
  by_cases h3 : evenHalf (stored ^^^ computed) ^^^ oddHalf (stored ^^^ computed) ≠ 0xfff#16
  · have hv : sectorVerdict stored computed = .uncorrectable := by
      rw [sectorVerdict, if_neg h1, if_neg h2, if_pos h3]
    rw [if_neg h2, if_pos h3, hv]
    simp [applyVerdict, counted, failed]
  · have hv : sectorVerdict stored computed =
        .dataBit ((oddHalf (stored ^^^ computed)).setWidth 12) := by
      rw [sectorVerdict, if_neg h1, if_neg h2, if_neg h3]
    have h12 : ((oddHalf (stored ^^^ computed)).setWidth 12).toNat =
        (oddHalf (stored ^^^ computed)).toNat := by
      rw [BitVec.toNat_setWidth]; exact Nat.mod_eq_of_lt (oddHalf_lt _)
    have hbyte : (oddHalf (stored ^^^ computed) >>> 3).toNat =
        (oddHalf (stored ^^^ computed)).toNat / 8 := by
      rw [BitVec.toNat_ushiftRight, Nat.shiftRight_eq_div_pow]
    have hbit : (oddHalf (stored ^^^ computed) &&& 7#16).toNat =
        (oddHalf (stored ^^^ computed)).toNat % 8 := by
      rw [BitVec.toNat_and]
      exact Nat.and_two_pow_sub_one_eq_mod _ 3
    rw [if_neg h2, if_neg h3, hv]
    simp [applyVerdict, counted, failed, flipBit, h12, hbyte, hbit]

/-! ## The whole page -/

/-- The verdict on sector `i`, from the ECC words in the spare buffer. -/
def verdictAt (m : Mem) (ecc i : ℕ) : Verdict 12 :=
  sectorVerdict (be32 m (ecc + 0x30 + 4 * i)) (be32 m (ecc + 0x40 + 4 * i))

/-- Byte `j` of a page, with the verdicts of its sectors carried out. -/
def correctedData (v : ℕ → Verdict 12) (d : ℕ → Byte) (j : ℕ) : Byte :=
  match v (j / 512) with
  | .dataBit a => if a.toNat / 8 = j % 512 then d j ^^^ (1#8 <<< (a.toNat % 8)) else d j
  | _ => d j

/-- The number of sectors below `n` with a verdict. -/
def countBelow (p : ℕ → Bool) (n : ℕ) : ℕ := ((List.range n).filter p).length

theorem countBelow_succ (p : ℕ → Bool) (n : ℕ) :
    countBelow p (n + 1) = countBelow p n + (p n).toNat := by
  cases h : p n <;> simp [countBelow, List.range_succ, h]

theorem countBelow_ne_zero {p : ℕ → Bool} {n : ℕ} :
    countBelow p n ≠ 0 ↔ ∃ i < n, p i = true := by
  rw [countBelow, ← Nat.pos_iff_ne_zero, List.length_pos_iff_exists_mem]
  simp

/-- Carrying out the verdict on sector `n` extends the corrected part of the page by it. -/
theorem applyVerdict_fill (m : Mem) (data n : ℕ) (v : ℕ → Verdict 12) :
    applyVerdict (fill m data (512 * n) (correctedData v fun j => m (data + j)))
        (data + 512 * n) (v n) =
      fill m data (512 * (n + 1)) (correctedData v fun j => m (data + j)) := by
  have hin : ∀ x, data ≤ x ∧ x < data + 512 * n →
      fill m data (512 * n) (correctedData v fun j => m (data + j)) x =
        fill m data (512 * (n + 1)) (correctedData v fun j => m (data + j)) x := by
    intro x hx
    rw [fill, fill, if_pos hx, if_pos (by omega)]
  have hold : ∀ x, ¬(data ≤ x ∧ x < data + 512 * n) →
      fill m data (512 * n) (correctedData v fun j => m (data + j)) x = m x :=
    fun x hx => fill_other _ hx
  -- a byte of sector `n`: its index in the page divides to `n`
  have hsec : ∀ x, ¬(data ≤ x ∧ x < data + 512 * n) → data ≤ x ∧ x < data + 512 * (n + 1) →
      (x - data) / 512 = n ∧ (x - data) % 512 = x - (data + 512 * n) := by
    intro x h1 h2
    omega
  funext x
  by_cases hx : data ≤ x ∧ x < data + 512 * n
  · rw [← hin x hx]
    cases hv : v n with
    | dataBit a =>
      rw [applyVerdict, flipBit, set_other _ (by omega)]
    | clean => rfl
    | parityBit => rfl
    | uncorrectable => rfl
  · by_cases hx' : data ≤ x ∧ x < data + 512 * (n + 1)
    · obtain ⟨hdiv, hmod⟩ := hsec x hx hx'
      rw [fill, if_pos hx', correctedData, hdiv, hmod, Nat.add_sub_cancel' hx'.1]
      cases hv : v n with
      | dataBit a =>
        simp only [applyVerdict, flipBit]
        by_cases hp : x = data + 512 * n + a.toNat / 8
        · subst hp
          rw [set_same, hold _ hx, if_pos (by omega)]
        · rw [set_other _ hp, hold _ hx, if_neg (by omega)]
      | clean => exact hold x hx
      | parityBit => exact hold x hx
      | uncorrectable => exact hold x hx
    · rw [fill_other _ hx']
      cases hv : v n with
      | dataBit a =>
        have := a.isLt
        rw [applyVerdict, flipBit, set_other _ (by omega)]
        exact hold x hx
      | clean => exact hold x hx
      | parityBit => exact hold x hx
      | uncorrectable => exact hold x hx

/-- The loop after `n ≤ 4` passes, when the two buffers have no byte in common. -/
theorem correctLoop_eq {m : Mem} {data ecc : ℕ} (hap : Apart data pageSize ecc eccBufferAlloc)
    {n : ℕ} (hn : n ≤ 4) :
    correctLoop m data ecc n =
      { dp := data + 512 * n
        eccRead := ecc + 0x30 + 4 * n
        eccCalc := ecc + 0x40 + 4 * n
        uncorrectable := countBelow (fun i => failed (verdictAt m ecc i)) n
        corrected := countBelow (fun i => counted (verdictAt m ecc i)) n
        mem := fill m data (512 * n) (correctedData (verdictAt m ecc) fun j => m (data + j)) } := by
  induction n with
  | zero =>
    simp only [correctLoop, Function.iterate_zero, id_eq, correctInit, countBelow]
    congr 1
    funext x
    exact (fill_other _ (by omega)).symm
  | succ n ih =>
    have hfr : Same (fill m data (512 * n) (correctedData (verdictAt m ecc) fun j => m (data + j)))
        m ecc eccBufferAlloc :=
      fill_frame _ (hap.sub (le_refl _) (by simp only [pageSize]; omega) (le_refl _) (le_refl _))
    have hword : ∀ a, ecc ≤ a → a + 4 ≤ ecc + eccBufferAlloc →
        be32 (fill m data (512 * n) (correctedData (verdictAt m ecc) fun j => m (data + j))) a =
          be32 m a := fun a h1 h2 => be32_congr (hfr.sub h1 h2)
    have hr := hword (ecc + 0x30 + 4 * n) (by omega)
      (by simp only [eccBufferAlloc, pageSpareSize]; omega)
    have hc := hword (ecc + 0x40 + 4 * n) (by omega)
      (by simp only [eccBufferAlloc, pageSpareSize]; omega)
    have hv : sectorVerdict (be32 (correctLoop m data ecc n).mem (correctLoop m data ecc n).eccRead)
        (be32 (correctLoop m data ecc n).mem (correctLoop m data ecc n).eccCalc) =
          verdictAt m ecc n := by
      simp only [ih (by omega), hr, hc, verdictAt]
    rw [correctLoop, Function.iterate_succ_apply', ← correctLoop, correctSector_eq _ hv,
      ih (by omega)]
    simp only [nextSector, countBelow_succ, applyVerdict_fill, Nat.mul_succ, Nat.add_assoc]

/-- **A call of `nand_correct` is the four verdicts carried out on the data buffer.** -/
theorem nandCorrect_mem {m : Mem} {data ecc : ℕ} (hap : Apart data pageSize ecc eccBufferAlloc) :
    (nandCorrect m data ecc).mem =
      fill m data pageSize (correctedData (verdictAt m ecc) fun j => m (data + j)) := by
  simp only [nandCorrect, correctLoop_eq hap (le_refl 4)]
  rfl

theorem nandCorrect_counts {m : Mem} {data ecc : ℕ} (hap : Apart data pageSize ecc eccBufferAlloc) :
    ((nandCorrect m data ecc).uncorrectable ≠ 0 ↔ ∃ i < 4, failed (verdictAt m ecc i) = true) ∧
    ((nandCorrect m data ecc).corrected ≠ 0 ↔ ∃ i < 4, counted (verdictAt m ecc i) = true) := by
  simp only [nandCorrect, correctLoop_eq hap (le_refl 4), countBelow_ne_zero, and_self]

theorem correctResult_uncorrectable {u c : ℕ} : correctResult u c = .uncorrectable ↔ u ≠ 0 := by
  unfold correctResult
  split
  · simp_all
  · split <;> simp_all

theorem correctResult_corrected {u c : ℕ} : correctResult u c = .corrected ↔ u = 0 ∧ c ≠ 0 := by
  unfold correctResult
  split
  · simp_all
  · split <;> simp_all

theorem nandCorrect_uncorrectable {m : Mem} {data ecc : ℕ}
    (hap : Apart data pageSize ecc eccBufferAlloc) :
    (nandCorrect m data ecc).result = .uncorrectable ↔
      ∃ i < 4, verdictAt m ecc i = .uncorrectable := by
  have h : (nandCorrect m data ecc).result = .uncorrectable ↔
      (nandCorrect m data ecc).uncorrectable ≠ 0 := correctResult_uncorrectable
  simp only [h, (nandCorrect_counts hap).1, failed_eq_true]

theorem nandCorrect_corrected {m : Mem} {data ecc : ℕ}
    (hap : Apart data pageSize ecc eccBufferAlloc) :
    (nandCorrect m data ecc).result = .corrected ↔
      (¬∃ i < 4, verdictAt m ecc i = .uncorrectable) ∧
        ∃ i < 4, counted (verdictAt m ecc i) = true := by
  have h : (nandCorrect m data ecc).result = .corrected ↔
      (nandCorrect m data ecc).uncorrectable = 0 ∧ (nandCorrect m data ecc).corrected ≠ 0 :=
    correctResult_corrected
  rw [h, (nandCorrect_counts hap).2, ← not_ne_iff, (nandCorrect_counts hap).1]
  simp only [failed_eq_true]

end VwiiNandTools.Nand
