import VwiiNandTools.Armboot.Dump.Runs

/-!
# The records of a dump as codewords

A record of the image is a page again: 2048 data bytes, then 64 spare bytes with the four ECC words.
The data was corrected in place and the spare copied raw, so the two need not agree.
`sectorEcc_repaired` is the whole relation: after a repaired data bit they agree on the 24 parity
bits, and the unused bits of the stored word are dumped as read; after a flipped bit of the stored
word, which `nand_correct` counts as corrected, that bit is still flipped in the dump.
-/

namespace VwiiNandTools.Dump

open ByteMemory AddressParity Nand

theorem sectorEcc_congr {d d' : ℕ → Byte} {i : ℕ} (h : ∀ k < 512, d (512 * i + k) = d' (512 * i + k)) :
    sectorEcc d i = sectorEcc d' i := by
  have hbits : sectorBit d i = sectorBit d' i := by
    funext a
    have ha := a.isLt
    rw [sectorBit, sectorBit, h _ (by omega)]
  rw [sectorEcc, sectorEcc, hbits]

/-- A sector with verdict `dataBit a`: the syndrome names `a` in both its halves. -/
theorem syndrome_of_dataBit {x y : BitVec 32} {a : BitVec 12} (h : sectorVerdict x y = .dataBit a) :
    evenOf (x ^^^ y) = ~~~a ∧ oddOf (x ^^^ y) = a := by
  simp only [sectorVerdict] at h
  split_ifs at h with h1 h2 h3
  have ha : oddOf (x ^^^ y) = a := Verdict.dataBit.inj h
  refine ⟨?_, ha⟩
  have hx := (halves_xor_eq (x ^^^ y)).mp (not_not.mp h3)
  rw [ha] at hx
  calc evenOf (x ^^^ y) = evenOf (x ^^^ y) ^^^ a ^^^ a := by
        rw [BitVec.xor_assoc, BitVec.xor_self, BitVec.xor_zero]
    _ = ~~~a := by rw [hx, BitVec.allOnes_xor]

/-- **The ECC after the call.**  The ECC word of the data as `nand_correct` leaves it, against the
stored word. -/
theorem sectorEcc_repaired (page : NandPage) (v : ℕ → Verdict 12) {i : ℕ}
    (hv : v i = sectorVerdict (storedEcc page i) (sectorEcc page.data i))
    (hff : storedEcc page i ≠ 0xFFFFFFFF#32) (hok : v i ≠ .uncorrectable) :
    sectorEcc (correctedData v page.data) i ^^^ storedEcc page i =
      if weight (storedEcc page i ^^^ sectorEcc page.data i) = 1 then
        storedEcc page i ^^^ sectorEcc page.data i
      else unusedBits (storedEcc page i) := by
  have hbits : ∀ b, sectorBit (correctedData v page.data) i b =
      (sectorBit page.data i b ^^ decide (v i = .dataBit b)) :=
    sectorBit_correctedData v page.data i
  have hsame : (∀ a, v i ≠ .dataBit a) →
      sectorEcc (correctedData v page.data) i = sectorEcc page.data i := by
    intro hne
    have : sectorBit (correctedData v page.data) i = sectorBit page.data i := by
      funext b
      simp [hbits, hne b]
    rw [sectorEcc, sectorEcc, this]
  cases hc : v i with
  | clean =>
    have hz : storedEcc page i ^^^ sectorEcc page.data i = 0#32 := by
      rw [hc, sectorVerdict] at hv
      split_ifs at hv with h
      exact h.resolve_left hff
    have heq : storedEcc page i = sectorEcc page.data i := BitVec.xor_eq_zero_iff.mp hz
    rw [hsame (by simp [hc]), hz, weight_zero, if_neg (by decide), heq, BitVec.xor_self, sectorEcc,
      unusedBits_eccWord]
  | parityBit =>
    have hone : weight (storedEcc page i ^^^ sectorEcc page.data i) = 1 := by
      rw [hc, sectorVerdict] at hv
      split_ifs at hv with h1 h2
      rw [← sub_one_and_eq_zero fun h => h1 (Or.inr h)]
      exact h2
    rw [hsame (by simp [hc]), if_pos hone, BitVec.xor_comm]
  | dataBit a =>
    obtain ⟨he, ho⟩ := syndrome_of_dataBit (hv.symm.trans hc)
    have hone : weight (storedEcc page i ^^^ sectorEcc page.data i) ≠ 1 := by
      intro h1
      rw [hc, sectorVerdict] at hv
      split_ifs at hv with h2 h3
      exact h3 ((sub_one_and_eq_zero fun h => h2 (Or.inr h)).mpr h1)
    have hflip : sectorBit (correctedData v page.data) i =
        fun b => (sectorBit page.data i b ^^ decide (b = a)) := by
      funext b
      rw [hbits, hc]
      simp [eq_comm]
    -- the parity bits of the repaired data are those of the stored word
    have hev : even (sectorBit page.data i) ^^^ ~~~a = evenOf (storedEcc page i) := by
      rw [← he, evenOf_xor, sectorEcc, evenOf_eccWord, BitVec.xor_comm, BitVec.xor_assoc,
        BitVec.xor_self, BitVec.xor_zero]
    have hod : odd (sectorBit page.data i) ^^^ a = oddOf (storedEcc page i) := by
      rw [← ho, oddOf_xor, sectorEcc, oddOf_eccWord, BitVec.xor_comm, BitVec.xor_assoc,
        BitVec.xor_self, BitVec.xor_zero]
    rw [if_neg hone, sectorEcc, hflip, even_xor, odd_xor, even_single, odd_single, hev, hod]
    have hword := eq_eccWord_xor (storedEcc page i)
    calc eccWord (evenOf (storedEcc page i)) (oddOf (storedEcc page i)) ^^^ storedEcc page i
        = eccWord (evenOf (storedEcc page i)) (oddOf (storedEcc page i)) ^^^
            (eccWord (evenOf (storedEcc page i)) (oddOf (storedEcc page i)) ^^^
              unusedBits (storedEcc page i)) := by rw [← hword]
      _ = unusedBits (storedEcc page i) := by
          rw [← BitVec.xor_assoc, BitVec.xor_self, BitVec.zero_xor]
  | uncorrectable => exact absurd hc hok

/-! ## What a call writes -/

/-- The buffers a call hands to `f_write`, in order. -/
def written (chip : NandChip) (L : DumpBuffers) (r : FatResults) (bank : BitVec 32) (w : World) :
    List (List Byte) :=
  ((dumpSlcRaw chip L r bank w).2.ops.drop w.ops.length).filterMap fun
    | .fWrite _ buff _ => some buff
    | _ => none

/-- Row `k` of a staging buffer. -/
def row (buff : List Byte) (k : ℕ) : List Byte := (buff.drop (k * rowSize)).take rowSize

/-- A record read as a page. -/
def recordPage (rec : List Byte) : NandPage where
  data k := rec.getD k 0#8
  spare k := rec.getD (pageSize + k) 0#8

theorem take_drop_flatMap {α : Type*} (f : ℕ → List α) {m n k : ℕ} (hlen : ∀ i, (f i).length = m)
    (hk : k < n) : (((List.range n).flatMap f).drop (k * m)).take m = f k := by
  obtain ⟨j, rfl⟩ : ∃ j, n = k + (1 + j) := ⟨n - k - 1, by omega⟩
  have hpre : ((List.range k).flatMap f).length = k * m := by
    simp [List.length_flatMap, hlen]
  rw [List.range_add, List.flatMap_append, List.drop_left' hpre, List.range_add, List.map_append,
    List.flatMap_append, List.take_left']
  · simp
  · simp [hlen]

theorem row_chunk (chip : NandChip) (bank : BitVec 32) (i : ℕ) {k : ℕ} (hk : k < pagesPerIteration) :
    row (chunk chip bank i) k = pageRecord chip bank (i * pagesPerIteration + k) :=
  take_drop_flatMap (fun j => pageRecord chip bank (i * pagesPerIteration + j))
    (fun _ => length_pageRecord chip bank _) hk

theorem recordPage_pageRecord (chip : NandChip) (bank : BitVec 32) (p : ℕ) :
    (∀ k < pageSize, (recordPage (pageRecord chip bank p)).data k = correctedPage chip bank p k) ∧
      ∀ k < pageSpareSize, (recordPage (pageRecord chip bank p)).spare k =
        (chip.page bank p).spare k := by
  rw [pageRecord_eq]
  constructor
  · intro k hk
    have hlen : k < ((List.range pageSize).map (correctedPage chip bank p)).length := by simpa using hk
    simp only [recordPage]
    rw [List.getD_append _ _ _ _ hlen, List.getD_eq_getElem _ _ hlen]
    simp
  · intro k hk
    simp [recordPage, hk]

theorem storedEcc_record (chip : NandChip) (bank : BitVec 32) (p : ℕ) {i : ℕ} (hi : i < 4) :
    storedEcc (recordPage (pageRecord chip bank p)) i = storedEcc (chip.page bank p) i := by
  refine be32_congr fun x h1 h2 => (recordPage_pageRecord chip bank p).2 x ?_
  simp only [pageSpareSize]
  omega

theorem sectorEcc_record (chip : NandChip) (bank : BitVec 32) (p : ℕ) {i : ℕ} (hi : i < 4) :
    sectorEcc (recordPage (pageRecord chip bank p)).data i =
      sectorEcc (correctedPage chip bank p) i := by
  refine sectorEcc_congr fun k hk => (recordPage_pageRecord chip bank p).1 _ ?_
  simp only [pageSize]
  omega

section Calls

variable {chip : NandChip} {L : DumpBuffers} {w : World} {bank : BitVec 32} {r : FatResults}

theorem dumpSlcRaw_named {name : String} (hname : bankName bank = some name) :
    dumpSlcRaw chip L r bank w = dumpNamed chip L r bank name w := by
  simp only [dumpSlcRaw, hname]

theorem written_full {name : String} (hs : Selected w.nand) (hname : bankName bank = some name)
    (hopen : r.fOpen = .ok) (hfull : ∀ k < totalIterations, (r.fWrite k).full = true) :
    written chip L r bank w = (List.range totalIterations).map (chunk chip bank) := by
  obtain ⟨-, -, -, -, -, hops⟩ :=
    dumpNamed_full chip L name w hs (bank_ne_zero name hname) hopen hfull
  rw [written, dumpSlcRaw_named hname, hops, List.append_assoc, List.append_assoc, List.drop_left,
    List.filterMap_append, List.filterMap_append, List.filterMap_map]
  simp

variable (bank r) in
/-- A call writes the chunks of its bank, from the first on. -/
theorem written_eq (hw : (dumpMachine chip L).Reach w) :
    ∃ n, written chip L r bank w = (List.range n).map (chunk chip bank) := by
  have hs := Reach.selected hw
  cases hname : bankName bank with
  | none => exact ⟨0, by simp [written, dumpSlcRaw, hname]⟩
  | some name =>
    by_cases hopen : r.fOpen = .ok
    · rcases writes_cases r totalIterations with hfull | ⟨k, hk, hfull, hfail⟩
      · exact ⟨totalIterations, written_full hs hname hopen hfull⟩
      · obtain ⟨-, -, -, -, -, hops⟩ :=
          dumpNamed_writeFails chip L name w hs (bank_ne_zero name hname) hopen hk hfull hfail
        refine ⟨k + 1, ?_⟩
        rw [written, dumpSlcRaw_named hname, hops, List.append_assoc, List.append_assoc,
          List.drop_left, List.filterMap_append, List.filterMap_append, List.filterMap_map,
          List.range_succ]
        simp
    · refine ⟨0, ?_⟩
      rw [written, dumpSlcRaw_named hname]
      simp [dumpNamed, hopen, gecko]

end Calls

/-- **The records as codewords.**  In every record of every call, for a page `nand_correct` did not
give up: where the stored word of a sector is not all FF, the ECC of the dumped data differs from
the dumped word in the one bit in which the stored word differed from the ECC of the data as read,
if it did in just one, and otherwise in the unused bits of the stored word. -/
theorem dump_records {chip : NandChip} {L : DumpBuffers} {w : World}
    (hcode : chip.computed = sectorEcc) (hw : (dumpMachine chip L).Reach w) (bank : BitVec 32)
    (r : FatResults) {n : ℕ} {buff : List Byte} (hn : (written chip L r bank w)[n]? = some buff)
    {k : ℕ} (hk : k < pagesPerIteration) (page : NandPage)
    (hpage : page = chip.page bank (n * pagesPerIteration + k)) (m : Mem)
    (hok : (nandCorrect (dmaPage m L.pageBuf L.eccBuf page (chip.computed page.data)) L.pageBuf
      L.eccBuf).result ≠ .uncorrectable) {i : ℕ} (hi : i < 4)
    (hff : storedEcc page i ≠ 0xFFFFFFFF#32) :
    sectorEcc (recordPage (row buff k)).data i ^^^ storedEcc (recordPage (row buff k)) i =
      if weight (storedEcc page i ^^^ sectorEcc page.data i) = 1 then
        storedEcc page i ^^^ sectorEcc page.data i
      else unusedBits (storedEcc page i) := by
  have hrow : row buff k = pageRecord chip bank (n * pagesPerIteration + k) := by
    obtain ⟨c, hc⟩ := written_eq bank r hw
    rw [hc, List.getElem?_map, Option.map_eq_some_iff] at hn
    obtain ⟨n', hn', rfl⟩ := hn
    obtain rfl : n = n' := by
      rw [List.getElem?_eq_some_iff] at hn'
      obtain ⟨_, h⟩ := hn'
      simpa using h
    exact row_chunk chip bank n hk
  have hv : sectorVerdict (storedEcc page i) (sectorEcc page.data i) ≠ .uncorrectable := by
    intro h
    refine hok ((nandCorrect_uncorrectable L.page_ecc).mpr ⟨i, hi, ?_⟩)
    rw [verdictAt_dmaPage hi, hcode, h]
  rw [hrow, storedEcc_record chip bank _ hi, sectorEcc_record chip bank _ hi, correctedPage, ← hpage,
    hcode]
  exact sectorEcc_repaired page _ rfl hff hv

/-- The page of zeros with one bit of its first stored word flipped. -/
def eccFlip : NandPage where
  data _ := 0#8
  spare k := if k = 0x33 then 1#8 else 0#8

/-- A chip whose pages are all `eccFlip`. -/
def eccFlipChip : NandChip where
  page _ _ := eccFlip
  computed := sectorEcc

theorem storedEcc_eccFlip {i : ℕ} (hi : i < 4) :
    storedEcc eccFlip i = if i = 0 then 1#32 else 0#32 := by
  interval_cases i <;> simp [storedEcc, be32, eccFlip]

theorem sectorEcc_eccFlip {i : ℕ} (hi : i < 4) : sectorEcc eccFlip.data i = 0#32 := by
  rw [show eccFlip.data = zeroPage.data from rfl, ← codeword_zeroPage i hi]
  simp [storedEcc, be32, zeroPage]

theorem nandCorrect_eccFlip (m : Mem) (L : DumpBuffers) :
    (nandCorrect (dmaPage m L.pageBuf L.eccBuf eccFlip (sectorEcc eccFlip.data)) L.pageBuf
      L.eccBuf).result ≠ .uncorrectable := by
  intro h
  obtain ⟨i, hi, hv⟩ := (nandCorrect_uncorrectable L.page_ecc).mp h
  rw [verdictAt_dmaPage hi, storedEcc_eccFlip hi, sectorEcc_eccFlip hi] at hv
  revert hv
  split <;> decide

theorem written_eccFlip : (written eccFlipChip lowBuffers allFull nandBankSlc bootWorld)[0]? =
    some (chunk eccFlipChip nandBankSlc 0) := by
  rw [written_full (fun h => absurd rfl h) rfl rfl fun _ _ => rfl, List.getElem?_map,
    List.getElem?_range (by decide)]
  rfl

/-- In its first record the flipped bit is still there. -/
theorem dump_records_eccFlip :
    sectorEcc (recordPage (row (chunk eccFlipChip nandBankSlc 0) 0)).data 0 ^^^
      storedEcc (recordPage (row (chunk eccFlipChip nandBankSlc 0) 0)) 0 = 1#32 := by
  have h := dump_records (w := bootWorld) rfl (.init rfl) nandBankSlc allFull written_eccFlip
    (k := 0) (by decide) eccFlip rfl (fun _ => 0#8) (nandCorrect_eccFlip _ lowBuffers) (i := 0)
    (by decide)
    (by rw [storedEcc_eccFlip (by decide)]; decide)
  rw [h, storedEcc_eccFlip (by decide), sectorEcc_eccFlip (by decide)]
  decide

/-- A page counted as corrected need not be a codeword in the dump. -/
theorem record_not_codeword :
    ¬∀ (chip : NandChip) (L : DumpBuffers) (w : World), chip.computed = sectorEcc →
      (dumpMachine chip L).Reach w → ∀ (bank : BitVec 32) (r : FatResults) (n : ℕ) (buff : List Byte),
      (written chip L r bank w)[n]? = some buff → ∀ k < pagesPerIteration, ∀ (page : NandPage),
      page = chip.page bank (n * pagesPerIteration + k) →
      (∀ m, (nandCorrect (dmaPage m L.pageBuf L.eccBuf page (chip.computed page.data)) L.pageBuf
        L.eccBuf).result ≠ .uncorrectable) →
      ∀ i < 4, storedEcc page i ≠ 0xFFFFFFFF#32 →
        sectorEcc (recordPage (row buff k)).data i = storedEcc (recordPage (row buff k)) i := by
  intro h
  have h0 := h eccFlipChip lowBuffers bootWorld rfl (.init rfl) nandBankSlc allFull 0 _
    written_eccFlip 0 (by decide) eccFlip rfl (fun m => nandCorrect_eccFlip m lowBuffers) 0
    (by decide) (by rw [storedEcc_eccFlip (by decide)]; decide)
  rw [row_chunk _ _ _ (by decide), storedEcc_record _ _ _ (by decide),
    sectorEcc_record _ _ _ (by decide)] at h0
  have hx := sectorEcc_repaired eccFlip
    (fun i => sectorVerdict (storedEcc eccFlip i) (sectorEcc eccFlip.data i)) (i := 0) rfl
    (by rw [storedEcc_eccFlip (by decide)]; decide)
    (by rw [storedEcc_eccFlip (by decide), sectorEcc_eccFlip (by decide)]; decide)
  have hzero := hx.symm.trans (BitVec.xor_eq_zero_iff.mpr h0)
  rw [storedEcc_eccFlip (by decide), sectorEcc_eccFlip (by decide)] at hzero
  exact absurd hzero (by decide)

end VwiiNandTools.Dump
