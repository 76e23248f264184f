import VwiiNandTools.Armboot.Storage.Nand.Correct

/-!
# The parity code of the NAND controller

The controller is not part of the repository.  What `nand_correct` relies on is written here: a
page is 2048 data bytes and 64 spare bytes, the ECC word of a 512-byte sector is the pair of sums of
`AddressParity` at width 12, laid out as the four bytes `even_lo, even_hi, odd_lo, odd_hi`, and a
read leaves the page and the calculated words in the two buffers.

`nandCorrect_secded` is the main result: over this code `nand_correct` repairs every single flipped
bit of a sector, data or parity, and refuses every two.  The bridge is `sectorVerdict_eq_decode`,
which identifies the tests of the source on the byte-swapped syndrome with `AddressParity.decode`.
-/

namespace VwiiNandTools.Nand

open ByteMemory AddressParity

/-! ## ECC words -/

/-- The bytes `even_lo, even_hi, odd_lo, odd_hi`, as the big-endian CPU loads them. -/
def eccWord (e o : BitVec 12) : BitVec 32 :=
  (e &&& 0xff#12).setWidth 32 <<< 24 ||| (e >>> 8).setWidth 32 <<< 16 |||
    (o &&& 0xff#12).setWidth 32 <<< 8 ||| (o >>> 8).setWidth 32

/-- The high nibbles of `even_hi` and `odd_hi`, which the code does not use. -/
def unusedBits (x : BitVec 32) : BitVec 32 := x &&& 0x00f000f0#32

/-- The twelve bits `nand_correct` takes for `even`. -/
def evenOf (x : BitVec 32) : BitVec 12 := (evenHalf x).setWidth 12

/-- The twelve bits `nand_correct` takes for `odd`. -/
def oddOf (x : BitVec 32) : BitVec 12 := (oddHalf x).setWidth 12

theorem getLsbD_eccWord (e o : BitVec 12) {j : ℕ} (hj : j < 32) :
    (eccWord e o).getLsbD j =
      if j < 4 then o.getLsbD (j + 8) else if j < 8 then false else if j < 16 then o.getLsbD (j - 8)
      else if j < 20 then e.getLsbD (j - 8) else if j < 24 then false else e.getLsbD (j - 24) := by
  interval_cases j <;> simp [eccWord]

theorem unusedMask_getLsbD : ∀ j < 32,
    (0x00f000f0#32).getLsbD j = decide (4 ≤ j ∧ j < 8 ∨ 20 ≤ j ∧ j < 24) := by
  decide

theorem getLsbD_evenOf (x : BitVec 32) {i : ℕ} (hi : i < 12) :
    (evenOf x).getLsbD i = if i < 8 then x.getLsbD (24 + i) else x.getLsbD (8 + i) := by
  interval_cases i <;> simp [evenOf, evenHalf]

theorem getLsbD_oddOf (x : BitVec 32) {i : ℕ} (hi : i < 12) :
    (oddOf x).getLsbD i = if i < 8 then x.getLsbD (8 + i) else x.getLsbD (i - 8) := by
  interval_cases i <;> simp [oddOf, oddHalf]

theorem evenOf_xor (x y : BitVec 32) : evenOf (x ^^^ y) = evenOf x ^^^ evenOf y := by
  apply BitVec.eq_of_getLsbD_eq
  intro i hi
  rw [BitVec.getLsbD_xor, getLsbD_evenOf _ hi, getLsbD_evenOf _ hi, getLsbD_evenOf _ hi]
  split <;> exact BitVec.getLsbD_xor

theorem oddOf_xor (x y : BitVec 32) : oddOf (x ^^^ y) = oddOf x ^^^ oddOf y := by
  apply BitVec.eq_of_getLsbD_eq
  intro i hi
  rw [BitVec.getLsbD_xor, getLsbD_oddOf _ hi, getLsbD_oddOf _ hi, getLsbD_oddOf _ hi]
  split <;> exact BitVec.getLsbD_xor

@[simp] theorem evenOf_eccWord (e o : BitVec 12) : evenOf (eccWord e o) = e := by
  apply BitVec.eq_of_getLsbD_eq
  intro i hi
  rw [getLsbD_evenOf _ hi]
  split
  · rw [getLsbD_eccWord _ _ (by omega), if_neg (by omega), if_neg (by omega), if_neg (by omega),
      if_neg (by omega), if_neg (by omega), Nat.add_sub_cancel_left]
  · rw [getLsbD_eccWord _ _ (by omega), if_neg (by omega), if_neg (by omega), if_neg (by omega),
      if_pos (by omega), Nat.add_sub_cancel_left]

@[simp] theorem oddOf_eccWord (e o : BitVec 12) : oddOf (eccWord e o) = o := by
  apply BitVec.eq_of_getLsbD_eq
  intro i hi
  rw [getLsbD_oddOf _ hi]
  split
  · rw [getLsbD_eccWord _ _ (by omega), if_neg (by omega), if_neg (by omega), if_pos (by omega),
      Nat.add_sub_cancel_left]
  · rw [getLsbD_eccWord _ _ (by omega), if_pos (by omega), Nat.sub_add_cancel (by omega)]

@[simp] theorem unusedBits_eccWord (e o : BitVec 12) : unusedBits (eccWord e o) = 0#32 := by
  apply BitVec.eq_of_getLsbD_eq
  intro i hi
  rw [unusedBits, BitVec.getLsbD_and, getLsbD_eccWord e o hi, unusedMask_getLsbD i hi,
    BitVec.getLsbD_zero]
  split_ifs <;> simp <;> omega

theorem unusedBits_xor (x y : BitVec 32) :
    unusedBits (x ^^^ y) = unusedBits x ^^^ unusedBits y := by
  apply BitVec.eq_of_getLsbD_eq
  intro i _
  simp only [unusedBits, BitVec.getLsbD_and, BitVec.getLsbD_xor]
  cases x.getLsbD i <;> cases y.getLsbD i <;> simp

/-- A word is its two sums and its unused bits. -/
theorem eq_eccWord_xor (x : BitVec 32) : x = eccWord (evenOf x) (oddOf x) ^^^ unusedBits x := by
  apply BitVec.eq_of_getLsbD_eq
  intro i hi
  rw [BitVec.getLsbD_xor, getLsbD_eccWord _ _ hi, unusedBits, BitVec.getLsbD_and,
    unusedMask_getLsbD i hi]
  split_ifs with h4 h8 h16 h20 h24
  · rw [getLsbD_oddOf x (by omega), if_neg (by omega), Nat.add_sub_cancel, decide_eq_false (by omega),
      Bool.and_false, Bool.xor_false]
  · rw [decide_eq_true (by omega), Bool.and_true, Bool.false_xor]
  · rw [getLsbD_oddOf x (by omega), if_pos (by omega), Nat.add_sub_cancel' (by omega),
      decide_eq_false (by omega), Bool.and_false, Bool.xor_false]
  · rw [getLsbD_evenOf x (by omega), if_neg (by omega), Nat.add_sub_cancel' (by omega),
      decide_eq_false (by omega), Bool.and_false, Bool.xor_false]
  · rw [decide_eq_true (by omega), Bool.and_true, Bool.false_xor]
  · rw [getLsbD_evenOf x (by omega), if_pos (by omega), Nat.add_sub_cancel' (by omega),
      decide_eq_false (by omega), Bool.and_false, Bool.xor_false]

theorem weight_eccWord (e o : BitVec 12) : weight (eccWord e o) = weight e + weight o := by
  rw [weight_eq_sum, weight_eq_sum, weight_eq_sum,
    Finset.sum_congr rfl fun j hj => by rw [getLsbD_eccWord e o (Finset.mem_range.mp hj)]]
  simp only [Finset.sum_range_succ, Finset.sum_range_zero]
  simp
  omega

/-! ## The tests of the source -/

theorem eccWord_eq_zero {e o : BitVec 12} : eccWord e o = 0#32 ↔ e = 0#12 ∧ o = 0#12 := by
  rw [← weight_eq_zero, weight_eccWord, Nat.add_eq_zero_iff, weight_eq_zero, weight_eq_zero]

theorem setWidth_evenHalf (x : BitVec 32) : (evenOf x).setWidth 16 = evenHalf x := by
  apply BitVec.eq_of_getLsbD_eq
  intro i hi
  interval_cases i <;> simp [evenOf, evenHalf]

theorem setWidth_oddHalf (x : BitVec 32) : (oddOf x).setWidth 16 = oddHalf x := by
  apply BitVec.eq_of_getLsbD_eq
  intro i hi
  interval_cases i <;> simp [oddOf, oddHalf]

/-- `(even ^ odd) != 0xfff` on `u16` is the comparison of the twelve bits with all ones. -/
theorem halves_xor_eq (x : BitVec 32) :
    evenHalf x ^^^ oddHalf x = 0xfff#16 ↔ evenOf x ^^^ oddOf x = BitVec.allOnes 12 := by
  have hw : ∀ a b : BitVec 12, a.setWidth 16 = b.setWidth 16 → a = b := by
    intro a b h
    have := congrArg (BitVec.setWidth 12) h
    simpa using this
  rw [← setWidth_evenHalf, ← setWidth_oddHalf, ← BitVec.setWidth_xor,
    show (0xfff#16) = (BitVec.allOnes 12).setWidth 16 by decide]
  exact ⟨hw _ _, fun h => by rw [h]⟩

/-- **The tests of `nand_correct` decode the address-parity code**, on a syndrome without unused
bits. -/
theorem sectorVerdict_eq_decode {stored computed : BitVec 32} (hf : stored ≠ 0xFFFFFFFF#32)
    (hu : unusedBits (stored ^^^ computed) = 0#32) :
    sectorVerdict stored computed =
      decode (evenOf (stored ^^^ computed)) (oddOf (stored ^^^ computed)) := by
  generalize hx : stored ^^^ computed = x at hu
  have hword : x = eccWord (evenOf x) (oddOf x) := by
    have := eq_eccWord_xor x
    rwa [hu, BitVec.xor_zero] at this
  have hzero : x = 0#32 ↔ evenOf x = 0#12 ∧ oddOf x = 0#12 := by
    rw [← eccWord_eq_zero, ← hword]
  simp only [sectorVerdict, decode, hx, hf, false_or, ne_eq, halves_xor_eq]
  by_cases h0 : x = 0#32
  · rw [if_pos h0, if_pos (hzero.mp h0)]
  rw [if_neg h0, if_neg (fun h => h0 (hzero.mpr h))]
  have hone : x - 1#32 &&& x = 0#32 ↔ weight (evenOf x) + weight (oddOf x) = 1 := by
    rw [sub_one_and_eq_zero h0, ← weight_eccWord, ← hword]
  by_cases h1 : x - 1#32 &&& x = 0#32
  · rw [if_pos h1, if_pos (hone.mp h1)]
  rw [if_neg h1, if_neg (fun h => h1 (hone.mpr h))]
  by_cases h2 : evenOf x ^^^ oddOf x = BitVec.allOnes 12
  · rw [if_neg (not_not.mpr h2), if_pos h2, oddOf]
  · rw [if_pos h2, if_neg h2]

/-! ## Pages -/

/-- The 2048 data bytes and the 64 spare bytes of a page. -/
structure NandPage where
  data : ℕ → Byte
  spare : ℕ → Byte

/-- The data bit with address `a` of sector `i`. -/
def sectorBit (d : ℕ → Byte) (i : ℕ) (a : BitVec 12) : Bool :=
  (d (512 * i + a.toNat / 8)).getLsbD (a.toNat % 8)

/-- The ECC word of sector `i`. -/
def sectorEcc (d : ℕ → Byte) (i : ℕ) : BitVec 32 := eccWord (even (sectorBit d i)) (odd (sectorBit d i))

/-- The ECC word a page stores for sector `i`. -/
def storedEcc (p : NandPage) (i : ℕ) : BitVec 32 := be32 p.spare (0x30 + 4 * i)

/-- Byte `k` of consecutive big-endian words. -/
def wordByte (f : ℕ → BitVec 32) (k : ℕ) : Byte := (f (k / 4) >>> (24 - 8 * (k % 4))).setWidth 8

/-- What a page read leaves in memory: the data, the spare bytes, and after them the sixteen bytes
of the calculated words. -/
def dmaPage (m : Mem) (data ecc : ℕ) (p : NandPage) (computed : ℕ → BitVec 32) : Mem :=
  fill (fill (fill m data pageSize p.data) ecc pageSpareSize p.spare) (ecc + pageSpareSize) 16
    (wordByte computed)

theorem dmaPage_data {m : Mem} {data ecc : ℕ} {p : NandPage} {computed : ℕ → BitVec 32}
    (hap : Apart data pageSize ecc eccBufferAlloc) {k : ℕ} (hk : k < pageSize) :
    dmaPage m data ecc p computed (data + k) = p.data k := by
  simp only [pageSize, eccBufferAlloc, pageSpareSize, Apart] at hap hk
  rw [dmaPage, fill_other _ (by simp only [pageSpareSize]; omega),
    fill_other _ (by simp only [pageSpareSize]; omega), fill_at _ _ _ (by simpa [pageSize] using hk)]

theorem dmaPage_spare {m : Mem} {data ecc : ℕ} {p : NandPage} {computed : ℕ → BitVec 32} {k : ℕ}
    (hk : k < pageSpareSize) : dmaPage m data ecc p computed (ecc + k) = p.spare k := by
  rw [dmaPage, fill_other _ (by omega), fill_at _ _ _ hk]

theorem dmaPage_ecc {m : Mem} {data ecc : ℕ} {p : NandPage} {computed : ℕ → BitVec 32} {k : ℕ}
    (hk : k < 16) : dmaPage m data ecc p computed (ecc + 0x40 + k) = wordByte computed k :=
  fill_at _ _ _ hk

theorem dmaPage_frame {m : Mem} {data ecc : ℕ} {p : NandPage} {computed : ℕ → BitVec 32} {a n : ℕ}
    (hd : Apart data pageSize a n) (he : Apart ecc eccBufferAlloc a n) :
    Same (dmaPage m data ecc p computed) m a n := by
  intro x h1 h2
  simp only [pageSize, eccBufferAlloc, pageSpareSize, Apart] at hd he
  simp only [dmaPage, pageSpareSize, pageSize]
  rw [fill_other _ (by omega), fill_other _ (by omega), fill_other _ (by omega)]

theorem be32_wordByte (m : Mem) (a : ℕ) (f : ℕ → BitVec 32) (i : ℕ)
    (h : ∀ k < 4, m (a + k) = wordByte f (4 * i + k)) : be32 m a = f i := by
  have hb : ∀ k < 4, m (a + k) = (f i >>> (24 - 8 * k)).setWidth 8 := by
    intro k hk
    rw [h k hk, wordByte, show (4 * i + k) / 4 = i by omega, show (4 * i + k) % 4 = k by omega]
  have h0 := hb 0 (by omega)
  rw [Nat.add_zero] at h0
  rw [be32, h0, hb 1 (by omega), hb 2 (by omega), hb 3 (by omega)]
  generalize f i = x
  apply BitVec.eq_of_getLsbD_eq
  intro j hj
  interval_cases j <;> simp

/-- After a read, the words `nand_correct` compares are the stored and the calculated ones. -/
theorem verdictAt_dmaPage {m : Mem} {data ecc : ℕ} {p : NandPage} {computed : ℕ → BitVec 32}
    {i : ℕ} (hi : i < 4) :
    verdictAt (dmaPage m data ecc p computed) ecc i =
      sectorVerdict (storedEcc p i) (computed i) := by
  have hs : be32 (dmaPage m data ecc p computed) (ecc + 0x30 + 4 * i) = storedEcc p i := by
    have hb : ∀ k < 4, dmaPage m data ecc p computed (ecc + 0x30 + 4 * i + k) =
        p.spare (0x30 + 4 * i + k) := by
      intro k hk
      rw [Nat.add_assoc, Nat.add_assoc, ← Nat.add_assoc 0x30]
      exact dmaPage_spare (by simp only [pageSpareSize]; omega)
    have h0 := hb 0 (by omega)
    simp only [Nat.add_zero] at h0
    rw [be32, storedEcc, be32, h0, hb 1 (by omega), hb 2 (by omega), hb 3 (by omega)]
  have hc : be32 (dmaPage m data ecc p computed) (ecc + 0x40 + 4 * i) = computed i :=
    be32_wordByte _ _ _ _ fun k hk => by
      rw [Nat.add_assoc (ecc + 0x40)]
      exact dmaPage_ecc (by omega)
  rw [verdictAt, hs, hc]

/-! ## Data bits after the call -/

theorem getLsbD_one_shiftLeft {n k : ℕ} (hn : n < 8) : (1#8 <<< n).getLsbD k = decide (k = n) := by
  rw [BitVec.getLsbD_shiftLeft]
  by_cases h : k = n
  · subst h; simp [hn]
  · by_cases hk : k < n
    · simp [h, hk]
    · have : k - n ≠ 0 := by omega
      simp [h, hk, BitVec.getLsbD_one, this]

/-- Carrying out the verdicts flips the named bit of each sector and no other. -/
theorem sectorBit_correctedData (v : ℕ → Verdict 12) (d : ℕ → Byte) (i : ℕ) (b : BitVec 12) :
    sectorBit (correctedData v d) i b = (sectorBit d i b ^^ decide (v i = .dataBit b)) := by
  have hb := b.isLt
  have hdiv : (512 * i + b.toNat / 8) / 512 = i := by omega
  have hmod : (512 * i + b.toNat / 8) % 512 = b.toNat / 8 := by omega
  simp only [sectorBit, correctedData, hdiv, hmod]
  cases hv : v i with
  | dataBit a =>
    have hab : a = b ↔ a.toNat / 8 = b.toNat / 8 ∧ a.toNat % 8 = b.toNat % 8 := by
      rw [← BitVec.toNat_inj]; omega
    simp only [Verdict.dataBit.injEq, hab]
    by_cases h : a.toNat / 8 = b.toNat / 8
    · simp only [h, if_true, true_and, BitVec.getLsbD_xor,
        getLsbD_one_shiftLeft (Nat.mod_lt a.toNat (by omega)), eq_comm]
    · simp [h]
  | clean => simp
  | parityBit => simp
  | uncorrectable => simp

theorem byte_eq_of_sectorBit {d d' : ℕ → Byte} {i : ℕ}
    (h : ∀ a, sectorBit d i a = sectorBit d' i a) {k : ℕ} (hk : k < 512) :
    d (512 * i + k) = d' (512 * i + k) := by
  apply BitVec.eq_of_getLsbD_eq
  intro j hj
  have ha : (BitVec.ofNat 12 (8 * k + j)).toNat = 8 * k + j := by
    rw [BitVec.toNat_ofNat]; exact Nat.mod_eq_of_lt (by omega)
  have := h (BitVec.ofNat 12 (8 * k + j))
  simpa only [sectorBit, ha, show (8 * k + j) / 8 = k by omega, show (8 * k + j) % 8 = j by omega]
    using this

end VwiiNandTools.Nand
