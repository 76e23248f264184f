import VwiiNandTools.Armboot.Storage.Nand.Ecc

/-!
# `nand_correct` corrects one flipped bit and detects two

A page whose stored words are the ECC of its sectors is read with some bits flipped, in the data and
in the stored words; the calculated words are those of the data as read.  `flips` counts the flipped
bits of a sector.  By linearity the syndrome is the ECC word of the flipped data bits plus the
flipped stored bits (`syndrome_eq`), so `decode_secded` gives the verdict on each sector
(`verdict_of_flips`), and `nandCorrect_mem` turns the four verdicts into the bytes of the page.
-/

namespace VwiiNandTools.Nand

open ByteMemory AddressParity

/-- The data bits of sector `i` that differ between two pages. -/
def dataFlips (p q : NandPage) (i : ℕ) : Finset (BitVec 12) :=
  Finset.univ.filter fun a => (sectorBit p.data i a ^^ sectorBit q.data i a) = true

/-- The stored ECC bits of sector `i` that differ between two pages. -/
def eccFlips (p q : NandPage) (i : ℕ) : BitVec 32 := storedEcc p i ^^^ storedEcc q i

/-- The number of bits of sector `i`, data and stored ECC, that differ between two pages. -/
def flips (p q : NandPage) (i : ℕ) : ℕ := (dataFlips p q i).card + weight (eccFlips p q i)

/-- Every stored word is the ECC of its sector. -/
def Codeword (p : NandPage) : Prop := ∀ i < 4, storedEcc p i = sectorEcc p.data i

/-- The eight unused bits of every stored word are zero. -/
def UnusedZero (p : NandPage) : Prop := ∀ i < 4, unusedBits (storedEcc p i) = 0#32

theorem Codeword.unusedZero {p : NandPage} (h : Codeword p) : UnusedZero p := by
  intro i hi
  rw [h i hi, sectorEcc, unusedBits_eccWord]

theorem mem_dataFlips {p q : NandPage} {i : ℕ} {a : BitVec 12} :
    a ∈ dataFlips p q i ↔ (sectorBit p.data i a ^^ sectorBit q.data i a) = true := by
  simp [dataFlips]

theorem sectorBit_eq_flips (p q : NandPage) (i : ℕ) :
    sectorBit q.data i = fun a => (sectorBit p.data i a ^^ decide (a ∈ dataFlips p q i)) := by
  funext a
  simp only [mem_dataFlips]
  cases sectorBit p.data i a <;> cases sectorBit q.data i a <;> rfl

section Read

variable {orig read : NandPage}

variable (read) in
/-- The syndrome is the code of the flipped bits alone. -/
theorem syndrome_eq (hcode : Codeword orig) {i : ℕ} (hi : i < 4) :
    evenOf (storedEcc read i ^^^ sectorEcc read.data i) =
        even (fun a => decide (a ∈ dataFlips orig read i)) ^^^ evenOf (eccFlips orig read i) ∧
    oddOf (storedEcc read i ^^^ sectorEcc read.data i) =
        odd (fun a => decide (a ∈ dataFlips orig read i)) ^^^ oddOf (eccFlips orig read i) := by
  have hst : storedEcc read i = sectorEcc orig.data i ^^^ eccFlips orig read i := by
    rw [eccFlips, hcode i hi, ← BitVec.xor_assoc, BitVec.xor_self, BitVec.zero_xor]
  have hcancel : ∀ x y z : BitVec 12, x ^^^ y ^^^ (x ^^^ z) = z ^^^ y := by
    intro x y z
    rw [xor_xor_xor_comm, BitVec.xor_self, BitVec.zero_xor, BitVec.xor_comm]
  rw [hst, sectorEcc, sectorEcc, sectorBit_eq_flips orig read i, even_xor, odd_xor]
  constructor
  · rw [evenOf_xor, evenOf_xor, evenOf_eccWord, evenOf_eccWord, hcancel]
  · rw [oddOf_xor, oddOf_xor, oddOf_eccWord, oddOf_eccWord, hcancel]

theorem unusedBits_syndrome (hu : UnusedZero read) {i : ℕ} (hi : i < 4) :
    unusedBits (storedEcc read i ^^^ sectorEcc read.data i) = 0#32 := by
  rw [unusedBits_xor, hu i hi, sectorEcc, unusedBits_eccWord, BitVec.xor_zero]

/-- A stored word without unused bits is not the all-FF word of an unformatted page. -/
theorem storedEcc_ne_ff (hu : UnusedZero read) {i : ℕ} (hi : i < 4) :
    storedEcc read i ≠ 0xFFFFFFFF#32 := by
  intro h
  have := hu i hi
  rw [h] at this
  exact absurd this (by decide)

theorem flips_eq (hcode : Codeword orig) (hu : UnusedZero read) {i : ℕ} (hi : i < 4) :
    flips orig read i = (dataFlips orig read i).card +
      (weight (evenOf (eccFlips orig read i)) + weight (oddOf (eccFlips orig read i))) := by
  have hun : unusedBits (eccFlips orig read i) = 0#32 := by
    rw [eccFlips, unusedBits_xor, hcode.unusedZero i hi, hu i hi, BitVec.xor_zero]
  have hword := eq_eccWord_xor (eccFlips orig read i)
  rw [hun, BitVec.xor_zero] at hword
  rw [flips, ← weight_eccWord, ← hword]

theorem verdict_of_flips (hcode : Codeword orig) (hu : UnusedZero read) {i : ℕ} (hi : i < 4)
    (hf : flips orig read i ≤ 2) :
    (flips orig read i = 0 → sectorVerdict (storedEcc read i) (sectorEcc read.data i) = .clean) ∧
    (∀ a, flips orig read i = 1 → dataFlips orig read i = {a} →
      sectorVerdict (storedEcc read i) (sectorEcc read.data i) = .dataBit a) ∧
    (flips orig read i = 1 → dataFlips orig read i = ∅ →
      sectorVerdict (storedEcc read i) (sectorEcc read.data i) = .parityBit) ∧
    (flips orig read i = 2 →
      sectorVerdict (storedEcc read i) (sectorEcc read.data i) = .uncorrectable) := by
  have hfe := flips_eq hcode hu hi
  obtain ⟨he, ho⟩ := syndrome_eq read hcode hi
  rw [sectorVerdict_eq_decode (storedEcc_ne_ff hu hi) (unusedBits_syndrome hu hi), he, ho, hfe]
  rw [hfe] at hf
  obtain ⟨h0, hd, hp, h2⟩ := decode_secded (by omega) (dataFlips orig read i) _ _ hf
  refine ⟨h0, fun a h1 ha => hd a ha ?_, fun h1 hD => hp hD ?_, h2⟩
  · rw [ha, Finset.card_singleton] at h1; omega
  · rw [hD, Finset.card_empty] at h1; omega

/-- With at most one flip, carrying out the verdict gives the original bits back. -/
theorem correctedBit_of_flips (hcode : Codeword orig) (hu : UnusedZero read) {i : ℕ} (hi : i < 4)
    (hf : flips orig read i ≤ 1) (b : BitVec 12) :
    (sectorBit read.data i b ^^
      decide (sectorVerdict (storedEcc read i) (sectorEcc read.data i) = .dataBit b)) =
        sectorBit orig.data i b := by
  obtain ⟨h0, hd, hp, -⟩ := verdict_of_flips hcode hu hi (by omega)
  have hcard : (dataFlips orig read i).card ≤ 1 := by
    rw [flips] at hf; omega
  have hbits := congrFun (sectorBit_eq_flips orig read i) b
  rcases Nat.le_one_iff_eq_zero_or_eq_one.mp hcard with hc | hc
  · have hD := Finset.card_eq_zero.mp hc
    have hv : sectorVerdict (storedEcc read i) (sectorEcc read.data i) ≠ .dataBit b := by
      rcases Nat.le_one_iff_eq_zero_or_eq_one.mp hf with hz | hone
      · rw [h0 hz]; exact fun h => nomatch h
      · rw [hp hone hD]; exact fun h => nomatch h
    rw [hbits, hD]
    simp [hv]
  · obtain ⟨a, hD⟩ := Finset.card_eq_one.mp hc
    have hone : flips orig read i = 1 := by
      rw [flips] at hf ⊢; omega
    rw [hbits, hd a hone hD, hD]
    simp [eq_comm]

theorem one_flip_cases {i : ℕ} (h1 : flips orig read i = 1) :
    dataFlips orig read i = ∅ ∨ ∃ a, dataFlips orig read i = {a} := by
  have hcard : (dataFlips orig read i).card = 0 ∨ (dataFlips orig read i).card = 1 := by
    rw [flips] at h1; omega
  exact hcard.imp Finset.card_eq_zero.mp Finset.card_eq_one.mp

theorem verdict_uncorrectable_iff (hcode : Codeword orig) (hu : UnusedZero read) {i : ℕ}
    (hi : i < 4) (hf : flips orig read i ≤ 2) :
    sectorVerdict (storedEcc read i) (sectorEcc read.data i) = .uncorrectable ↔
      flips orig read i = 2 := by
  obtain ⟨h0, hd, hp, h2⟩ := verdict_of_flips hcode hu hi hf
  refine ⟨fun h => ?_, h2⟩
  by_contra hn
  rcases (by omega : flips orig read i = 0 ∨ flips orig read i = 1) with hz | h1
  · rw [h0 hz] at h; exact nomatch h
  · rcases one_flip_cases h1 with hD | ⟨a, hD⟩
    · rw [hp h1 hD] at h; exact nomatch h
    · rw [hd a h1 hD] at h; exact nomatch h

theorem verdict_counted_iff (hcode : Codeword orig) (hu : UnusedZero read) {i : ℕ}
    (hi : i < 4) (hf : flips orig read i ≤ 2) :
    counted (sectorVerdict (storedEcc read i) (sectorEcc read.data i)) = true ↔
      flips orig read i = 1 := by
  obtain ⟨h0, hd, hp, h2⟩ := verdict_of_flips hcode hu hi hf
  constructor
  · intro h
    by_contra hn
    rcases (by omega : flips orig read i = 0 ∨ flips orig read i = 2) with hz | htwo
    · rw [h0 hz] at h; exact nomatch h
    · rw [h2 htwo] at h; exact nomatch h
  · intro h1
    rcases one_flip_cases h1 with hD | ⟨a, hD⟩
    · rw [hp h1 hD]; rfl
    · rw [hd a h1 hD]; rfl

end Read

/-- **`nand_correct` is single-error-correcting and double-error-detecting.**  Every page whose
stored words are its ECC, read with at most two bits flipped in each sector (data or stored ECC, the
unused bits staying zero) and with the calculated words of the data as read: a sector with at most
one flip has its original data after the call, a sector with two has its data as read, and the
result says which occurred. -/
theorem nandCorrect_secded (m : Mem) {data ecc : ℕ} (hap : Apart data pageSize ecc eccBufferAlloc)
    (orig read : NandPage) (hcode : Codeword orig) (hu : UnusedZero read)
    (hf : ∀ i < 4, flips orig read i ≤ 2) :
    let r := nandCorrect (dmaPage m data ecc read (sectorEcc read.data)) data ecc
    (∀ i < 4, flips orig read i ≤ 1 → ∀ k < 512,
      r.mem (data + (512 * i + k)) = orig.data (512 * i + k)) ∧
    (∀ i < 4, flips orig read i = 2 → ∀ k < 512,
      r.mem (data + (512 * i + k)) = read.data (512 * i + k)) ∧
    (r.result = .uncorrectable ↔ ∃ i < 4, flips orig read i = 2) ∧
    (r.result = .corrected ↔ (¬∃ i < 4, flips orig read i = 2) ∧ ∃ i < 4, flips orig read i = 1) := by
  intro r
  have hv : ∀ i < 4, verdictAt (dmaPage m data ecc read (sectorEcc read.data)) ecc i =
      sectorVerdict (storedEcc read i) (sectorEcc read.data i) :=
    fun i hi => verdictAt_dmaPage hi
  -- the page after the call, as a function of the page as read
  have hmem : ∀ j < pageSize, r.mem (data + j) =
      correctedData (verdictAt (dmaPage m data ecc read (sectorEcc read.data)) ecc)
        (fun j => dmaPage m data ecc read (sectorEcc read.data) (data + j)) j := by
    intro j hj
    simp only [r, nandCorrect_mem hap]
    exact fill_at _ _ _ hj
  have hbits : ∀ i < 4, ∀ b, sectorBit (fun j => r.mem (data + j)) i b =
      (sectorBit read.data i b ^^
        decide (sectorVerdict (storedEcc read i) (sectorEcc read.data i) = .dataBit b)) := by
    intro i hi b
    have hb := b.isLt
    have hj : 512 * i + b.toNat / 8 < pageSize := by simp only [pageSize]; omega
    rw [← hv i hi, sectorBit, hmem _ hj, ← sectorBit, sectorBit_correctedData, sectorBit,
      dmaPage_data hap hj, ← sectorBit]
  refine ⟨fun i hi h1 k hk => ?_, fun i hi h2 k hk => ?_, ?_, ?_⟩
  · have hsame : ∀ b, sectorBit (fun j => r.mem (data + j)) i b = sectorBit orig.data i b := by
      intro b
      rw [hbits i hi b, correctedBit_of_flips hcode hu hi h1]
    exact byte_eq_of_sectorBit hsame hk
  · have hsame : ∀ b, sectorBit (fun j => r.mem (data + j)) i b = sectorBit read.data i b := by
      intro b
      rw [hbits i hi b, (verdict_of_flips hcode hu hi (hf i hi)).2.2.2 h2]
      simp
    exact byte_eq_of_sectorBit hsame hk
  · rw [nandCorrect_uncorrectable hap]
    refine exists_congr fun i => and_congr_right fun hi => ?_
    rw [hv i hi, verdict_uncorrectable_iff hcode hu hi (hf i hi)]
  · rw [nandCorrect_corrected hap]
    refine and_congr (not_congr ?_) ?_
    · refine exists_congr fun i => and_congr_right fun hi => ?_
      rw [hv i hi, verdict_uncorrectable_iff hcode hu hi (hf i hi)]
    · refine exists_congr fun i => and_congr_right fun hi => ?_
      rw [hv i hi, verdict_counted_iff hcode hu hi (hf i hi)]

/-- The page of zeros, a codeword. -/
def zeroPage : NandPage := { data := fun _ => 0#8, spare := fun _ => 0#8 }

/-- The page of zeros with bit 5 of its first byte flipped. -/
def oneFlip : NandPage := { zeroPage with data := fun j => if j = 0 then 0x20#8 else 0#8 }

theorem codeword_zeroPage : Codeword zeroPage := by
  intro i _
  have hbits : sectorBit zeroPage.data i = fun _ => false := by
    funext a; simp [sectorBit, zeroPage]
  rw [sectorEcc, hbits, even_false, odd_false]
  simp [storedEcc, be32, zeroPage, eccWord]

theorem flips_oneFlip (i : ℕ) : flips zeroPage oneFlip i = if i = 0 then 1 else 0 := by
  have hecc : eccFlips zeroPage oneFlip i = 0#32 := by
    simp [eccFlips, storedEcc, be32, zeroPage, oneFlip]
  have hdata : dataFlips zeroPage oneFlip i = if i = 0 then {5#12} else ∅ := by
    ext a
    rw [mem_dataFlips]
    by_cases hi : i = 0
    · by_cases ha : a.toNat / 8 = 0
      · have h8 : a.toNat < 8 := by omega
        have ha5 : a = 5#12 ↔ a.toNat = 5 := by rw [← BitVec.toNat_inj]; rfl
        simp only [hi, sectorBit, zeroPage, oneFlip, if_true, Finset.mem_singleton, ha5, ha]
        interval_cases a.toNat <;> decide
      · have hne : a ≠ 5#12 := by rintro rfl; exact ha rfl
        simp [hi, sectorBit, zeroPage, oneFlip, ha, hne]
    · simp [hi, sectorBit, zeroPage, oneFlip]
  rw [flips, hecc, hdata, weight_zero]
  split <;> simp

/-- The one flipped bit of `oneFlip` is put back and reported. -/
theorem nandCorrect_secded_oneFlip :
    let r := nandCorrect (dmaPage (fun _ => 0#8) 0 2048 oneFlip (sectorEcc oneFlip.data)) 0 2048
    r.mem 0 = 0#8 ∧ r.result = .corrected := by
  have hap : Apart 0 pageSize 2048 eccBufferAlloc := Or.inl (by decide)
  have h := nandCorrect_secded (fun _ => 0#8) hap zeroPage oneFlip codeword_zeroPage
    (fun i _ => by simp [storedEcc, be32, oneFlip, zeroPage, unusedBits])
    (fun i _ => by rw [flips_oneFlip]; split <;> omega)
  simp only [flips_oneFlip] at h
  refine ⟨?_, h.2.2.2.mpr ⟨?_, 0, by omega, rfl⟩⟩
  · simpa [zeroPage] using h.1 0 (by omega) (by simp) 0 (by omega)
  · rintro ⟨i, -, hi⟩
    split at hi <;> omega

end VwiiNandTools.Nand
