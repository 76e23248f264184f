import VwiiNandTools.Armboot.Storage.Nand.Correct

/-!
# `nand_correct` on arbitrary input

What `nand_correct` may do when the two ECC words of a sector have nothing to do with each other, as
they come from flash that nobody has checked.  `nandCorrect_mem` gives the change of a sector as a
function of its verdict (`change_eq`), and the verdict is a function of its two words, so a pass
stays in its sector and flips at most one bit there.
-/

namespace VwiiNandTools.Nand

open ByteMemory AddressParity

def storedWord (m : Mem) (ecc i : ℕ) : BitVec 32 := be32 m (ecc + 0x30 + 4 * i)

def computedWord (m : Mem) (ecc i : ℕ) : BitVec 32 := be32 m (ecc + 0x40 + 4 * i)

/-- The result a page would have for one sector alone. -/
def verdictResult : Verdict 12 → NandEcc
  | .clean => .ok
  | .parityBit | .dataBit _ => .corrected
  | .uncorrectable => .uncorrectable

def NandEcc.severity : NandEcc → ℕ
  | .ok => 0
  | .corrected => 1
  | .uncorrectable => 2

/-- The worse result is the greater one. -/
instance : LE NandEcc := ⟨fun r r' => r.severity ≤ r'.severity⟩

theorem NandEcc.le_iff {r r' : NandEcc} : r ≤ r' ↔ r.severity ≤ r'.severity := Iff.rfl

theorem NandEcc.le_uncorrectable (r : NandEcc) : r ≤ .uncorrectable := by
  rw [le_iff]
  cases r <;> decide

/-- What a call changes in byte `j` of sector `i`. -/
def change (m : Mem) (data ecc i j : ℕ) : Byte :=
  m (data + 512 * i + j) ^^^ (nandCorrect m data ecc).mem (data + 512 * i + j)

/-- The bit with address `a` in byte `j` of its sector. -/
def bitMask (a : BitVec 12) (j : ℕ) : Byte :=
  if a.toNat / 8 = j then 1#8 <<< (a.toNat % 8) else 0#8

/-- What `nand_correct` may do, whatever the two buffers hold. -/
structure Confined (m : Mem) (data ecc : ℕ) : Prop where
  pass : ∀ i < 4, (correctLoop m data ecc (i + 1)).mem = (correctLoop m data ecc i).mem ∨
    ∃ k < 512, ∃ b, (correctLoop m data ecc (i + 1)).mem =
      set (correctLoop m data ecc i).mem (data + 512 * i + k) b
  outside : ∀ x, ¬(data ≤ x ∧ x < data + pageSize) → (nandCorrect m data ecc).mem x = m x
  oneBit : ∀ i < 4, (∀ j < 512, change m data ecc i j = 0#8) ∨
    storedWord m ecc i ≠ 0xFFFFFFFF#32 ∧ ∃ a, ∀ j < 512, change m data ecc i j = bitMask a j
  isolated : ∀ (m' : Mem) (data' ecc' : ℕ), Apart data' pageSize ecc' eccBufferAlloc →
    ∀ i < 4, storedWord m ecc i = storedWord m' ecc' i →
      computedWord m ecc i = computedWord m' ecc' i →
        ∀ j < 512, change m data ecc i j = change m' data' ecc' i j
  spare : Same (nandCorrect m data ecc).mem m ecc eccBufferAlloc
  worst : IsGreatest
    {r | ∃ i < 4, r = verdictResult (sectorVerdict (storedWord m ecc i) (computedWord m ecc i))}
    (nandCorrect m data ecc).result
  reported : (∃ i < 4, storedWord m ecc i ≠ 0xFFFFFFFF#32 ∧
      storedWord m ecc i ^^^ computedWord m ecc i ≠ 0#32) →
    (nandCorrect m data ecc).result = .corrected ∨
      (nandCorrect m data ecc).result = .uncorrectable

/-! ## The change of a sector -/

section Change

variable {m : Mem} {data ecc : ℕ} (hap : Apart data pageSize ecc eccBufferAlloc)
include hap

/-- A pass carries out the verdict on its sector. -/
theorem correctLoop_succ_mem {i : ℕ} (hi : i < 4) :
    (correctLoop m data ecc (i + 1)).mem =
      applyVerdict (correctLoop m data ecc i).mem (data + 512 * i) (verdictAt m ecc i) := by
  rw [correctLoop_eq hap (by omega), correctLoop_eq hap (by omega), applyVerdict_fill]

theorem change_eq {i j : ℕ} (hi : i < 4) (hj : j < 512) :
    change m data ecc i j =
      match verdictAt m ecc i with
      | .dataBit a => bitMask a j
      | _ => 0#8 := by
  have hdiv : (512 * i + j) / 512 = i := by omega
  have hmod : (512 * i + j) % 512 = j := by omega
  rw [change, nandCorrect_mem hap, Nat.add_assoc,
    fill_at _ _ _ (by simp only [pageSize]; omega), correctedData, hdiv, hmod]
  cases verdictAt m ecc i with
  | dataBit a =>
    simp only [bitMask]
    split
    · rw [← BitVec.xor_assoc, BitVec.xor_self, BitVec.zero_xor]
    · exact BitVec.xor_self
  | clean => exact BitVec.xor_self
  | parityBit => exact BitVec.xor_self
  | uncorrectable => exact BitVec.xor_self

end Change

/-- A bit is flipped only under a stored word that is not all ones. -/
theorem sectorVerdict_dataBit {stored computed : BitVec 32} {a : BitVec 12}
    (h : sectorVerdict stored computed = .dataBit a) : stored ≠ 0xFFFFFFFF#32 := by
  intro hff
  rw [sectorVerdict, if_pos (Or.inl hff)] at h
  cases h

/-- Only an exempt sector and a zero syndrome are clean. -/
theorem sectorVerdict_clean {stored computed : BitVec 32} :
    sectorVerdict stored computed = .clean ↔
      stored = 0xFFFFFFFF#32 ∨ stored ^^^ computed = 0#32 := by
  constructor
  · intro hclean
    by_contra h
    rw [sectorVerdict, if_neg h] at hclean
    split_ifs at hclean
  · exact fun h => if_pos h

/-! ## The result -/

section Result

variable {m : Mem} {data ecc : ℕ} (hap : Apart data pageSize ecc eccBufferAlloc)
include hap

theorem nandCorrect_ok : (nandCorrect m data ecc).result = .ok ↔
    ∀ i < 4, verdictAt m ecc i = .clean := by
  have hunc := nandCorrect_uncorrectable (m := m) hap
  have hcor := nandCorrect_corrected (m := m) hap
  constructor
  · intro hok i hi
    rw [hok] at hunc hcor
    cases hv : verdictAt m ecc i with
    | clean => rfl
    | uncorrectable => exact absurd (hunc.mpr ⟨i, hi, hv⟩) (by decide)
    | parityBit =>
      refine absurd (hcor.mpr ⟨fun h => absurd (hunc.mpr h) (by decide), i, hi, ?_⟩) (by decide)
      rw [hv]
      rfl
    | dataBit a =>
      refine absurd (hcor.mpr ⟨fun h => absurd (hunc.mpr h) (by decide), i, hi, ?_⟩) (by decide)
      rw [hv]
      rfl
  · intro hall
    cases hr : (nandCorrect m data ecc).result with
    | ok => rfl
    | uncorrectable =>
      obtain ⟨i, hi, hv⟩ := hunc.mp hr
      rw [hall i hi] at hv
      cases hv
    | corrected =>
      obtain ⟨-, i, hi, hv⟩ := hcor.mp hr
      rw [hall i hi] at hv
      cases hv

theorem nandCorrect_worst : IsGreatest {r | ∃ i < 4, r = verdictResult (verdictAt m ecc i)}
    (nandCorrect m data ecc).result := by
  constructor
  · cases hr : (nandCorrect m data ecc).result with
    | ok => exact ⟨0, by decide, by rw [(nandCorrect_ok hap).mp hr 0 (by decide)]; rfl⟩
    | uncorrectable =>
      obtain ⟨i, hi, hv⟩ := (nandCorrect_uncorrectable hap).mp hr
      exact ⟨i, hi, by rw [hv]; rfl⟩
    | corrected =>
      obtain ⟨-, i, hi, hv⟩ := (nandCorrect_corrected hap).mp hr
      refine ⟨i, hi, ?_⟩
      cases hvi : verdictAt m ecc i with
      | clean => rw [hvi] at hv; cases hv
      | uncorrectable => rw [hvi] at hv; cases hv
      | parityBit => rfl
      | dataBit a => rfl
  · rintro r ⟨i, hi, rfl⟩
    rw [NandEcc.le_iff]
    cases hr : (nandCorrect m data ecc).result with
    | ok =>
      rw [(nandCorrect_ok hap).mp hr i hi]
      exact le_refl _
    | uncorrectable => exact NandEcc.le_uncorrectable _
    | corrected =>
      have hno := ((nandCorrect_corrected hap).mp hr).1
      cases hv : verdictAt m ecc i with
      | clean => decide
      | parityBit => exact le_refl _
      | dataBit a => exact le_refl _
      | uncorrectable => exact absurd ⟨i, hi, hv⟩ hno

end Result

/-- **`nand_correct` is confined**, whatever the page and the ECC words are. -/
theorem nandCorrect_confined (m : Mem) {data ecc : ℕ}
    (hap : Apart data pageSize ecc eccBufferAlloc) : Confined m data ecc where
  pass i hi := by
    rw [correctLoop_succ_mem hap hi]
    cases verdictAt m ecc i with
    | dataBit a =>
      have := a.isLt
      exact Or.inr ⟨a.toNat / 8, by omega, _, rfl⟩
    | clean => exact Or.inl rfl
    | parityBit => exact Or.inl rfl
    | uncorrectable => exact Or.inl rfl
  outside x hx := by
    rw [nandCorrect_mem hap]
    exact fill_other _ hx
  oneBit i hi := by
    cases hv : verdictAt m ecc i with
    | dataBit a =>
      refine Or.inr ⟨sectorVerdict_dataBit hv, a, fun j hj => ?_⟩
      rw [change_eq hap hi hj, hv]
    | clean => exact Or.inl fun j hj => by rw [change_eq hap hi hj, hv]
    | parityBit => exact Or.inl fun j hj => by rw [change_eq hap hi hj, hv]
    | uncorrectable => exact Or.inl fun j hj => by rw [change_eq hap hi hj, hv]
  isolated m' data' ecc' hap' i hi hst hco j hj := by
    have hv : verdictAt m ecc i = verdictAt m' ecc' i := congrArg₂ sectorVerdict hst hco
    rw [change_eq hap hi hj, change_eq hap' hi hj, hv]
  spare := by
    rw [nandCorrect_mem hap]
    exact fill_frame _ hap
  worst := nandCorrect_worst hap
  reported := by
    rintro ⟨i, hi, hff, hsyn⟩
    cases hr : (nandCorrect m data ecc).result with
    | corrected => exact Or.inl rfl
    | uncorrectable => exact Or.inr rfl
    | ok =>
      have hclean := (nandCorrect_ok hap).mp hr i hi
      rcases sectorVerdict_clean.mp hclean with h | h
      · exact absurd h hff
      · exact absurd h hsyn

/-- Two buffers side by side with arbitrary contents. -/
theorem nandCorrect_confined_ramp : Confined (fun x => BitVec.ofNat 8 x) 0 pageSize :=
  nandCorrect_confined _ (Or.inl (by decide))

end VwiiNandTools.Nand
