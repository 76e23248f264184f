import VwiiNandTools.Armboot.Dump.Slc

/-!
# The dumped image

What a run of `_dump_slc_raw` reads and writes.  One pass of the inner loop fills one row of the
staging buffer (`rowMem_row`) and leaves the rows before it alone (`rowMem_before`), so sixteen
passes make the buffer the records of sixteen pages (`readRows_spec`), whatever the static buffers
held before.  An
iteration of the outer loop then appends exactly these (`progress_succ`), and the first write that
is not full ends the call (`dumpIters_fail`).
-/

namespace VwiiNandTools.Dump

open ByteMemory Nand

/-- The records of the first `n` pages of a bank. -/
def image (chip : NandChip) (bank : BitVec 32) (n : ℕ) : List Byte :=
  (List.range n).flatMap (pageRecord chip bank)

/-- The records of the sixteen pages of iteration `i`. -/
def chunk (chip : NandChip) (bank : BitVec 32) (i : ℕ) : List Byte :=
  (List.range pagesPerIteration).flatMap fun j => pageRecord chip bank (i * pagesPerIteration + j)

theorem image_add (chip : NandChip) (bank : BitVec 32) (n k : ℕ) :
    image chip bank (n + k) =
      image chip bank n ++ (List.range k).flatMap fun j => pageRecord chip bank (n + j) := by
  rw [image, List.range_add, List.flatMap_append, List.flatMap_map, ← image]

/-! ## The inner loop -/

section Rows

variable (chip : NandChip) (L : DumpBuffers)

@[simp] theorem gecko_nand (w : World) (msg : Message) : (gecko w msg).nand = w.nand := rfl
@[simp] theorem gecko_files (w : World) (msg : Message) : (gecko w msg).files = w.files := rfl
@[simp] theorem gecko_ops (w : World) (msg : Message) : (gecko w msg).ops = w.ops := rfl
@[simp] theorem fileContent_gecko (w : World) (msg : Message) (path : String) :
    fileContent (gecko w msg) path = fileContent w path := rfl

/-- The memory after the body of the inner loop. -/
def rowMem (chip : NandChip) (L : DumpBuffers) (bank : BitVec 32) (p page : ℕ) (m : Mem) : Mem :=
  let m := dmaPage m L.pageBuf L.eccBuf (chip.page bank p) (chip.computed (chip.page bank p).data)
  let m := (nandCorrect m L.pageBuf L.eccBuf).mem
  let m := memcpy m (L.fileBuf + page * rowSize) L.pageBuf pageSize
  memcpy m (L.fileBuf + page * rowSize + pageSize) L.eccBuf pageSpareSize

theorem readRow_state (pageBase page : ℕ) (w : World) :
    (readRow chip L pageBase page w).nand =
        { w.nand with
          lastPageRead := pageBase + page
          request := none
          mem := rowMem chip L w.nand.nandBank (pageBase + page) page w.nand.mem
          reads := w.nand.reads ++ [(w.nand.nandBank, pageBase + page)] } ∧
      (readRow chip L pageBase page w).files = w.files ∧
      (readRow chip L pageBase page w).ops = w.ops := by
  rw [readRow]
  split <;> exact ⟨rfl, rfl, rfl⟩

theorem row_le {page : ℕ} (h : page < pagesPerIteration) :
    page * rowSize + rowSize ≤ fileBufSize := by
  rw [fileBufSize, ← Nat.succ_mul]
  exact Nat.mul_le_mul_right _ h

/-- The body of the inner loop leaves the record of its page in its row. -/
theorem rowMem_row (bank : BitVec 32) (p : ℕ) {page : ℕ} (h : page < pagesPerIteration) (m : Mem) :
    bytes (rowMem chip L bank p page m) (L.fileBuf + page * rowSize) rowSize =
      pageRecord chip bank p := by
  have hle := row_le h
  have hrow : rowSize = pageSize + pageSpareSize := rfl
  have hpage : Apart (L.fileBuf + page * rowSize) pageSize L.pageBuf pageSize :=
    L.page_file.symm.sub (by omega) (by omega) (le_refl _) (le_refl _)
  have hspare : Apart (L.fileBuf + page * rowSize + pageSize) pageSpareSize L.eccBuf
      pageSpareSize :=
    L.ecc_file.symm.sub (by omega) (by omega) (le_refl _)
      (by simp only [eccBufferAlloc]; omega)
  simp only [rowMem]
  generalize hm1 : dmaPage m L.pageBuf L.eccBuf (chip.page bank p)
    (chip.computed (chip.page bank p).data) = m1
  generalize hm2 : (nandCorrect m1 L.pageBuf L.eccBuf).mem = m2
  rw [memcpy_eq_fill hspare, memcpy_eq_fill hpage, pageRecord_eq]
  change bytes _ _ (pageSize + pageSpareSize) = _
  rw [bytes_add]
  refine congrArg₂ (· ++ ·) ?_ ?_
  · refine bytes_eq fun j hj => ?_
    rw [fill_other _ (by omega), fill_at _ _ _ hj, ← hm2, ← hm1]
    exact bytes_nandCorrect L.page_ecc hj
  · refine bytes_eq fun j hj => ?_
    have hdest : Same (fill m2 (L.fileBuf + page * rowSize) pageSize fun k => m2 (L.pageBuf + k))
        m2 L.eccBuf pageSpareSize :=
      fill_frame _ (L.ecc_file.symm.sub (by omega) (by omega) (le_refl _)
        (by simp only [eccBufferAlloc]; omega))
    have hkeep : Same m2 m1 L.eccBuf eccBufferAlloc := by
      rw [← hm2, nandCorrect_mem L.page_ecc]
      exact fill_frame _ L.page_ecc
    rw [fill_at _ _ _ hj, hdest _ (by omega) (by omega),
      hkeep _ (by omega) (by simp only [eccBufferAlloc]; omega), ← hm1]
    exact dmaPage_spare hj

/-- The body of the inner loop leaves the rows before its own alone. -/
theorem rowMem_before (bank : BitVec 32) (p : ℕ) {page : ℕ} (h : page < pagesPerIteration)
    (m : Mem) : Same (rowMem chip L bank p page m) m L.fileBuf (page * rowSize) := by
  have hle := row_le h
  have hrow : rowSize = pageSize + pageSpareSize := rfl
  have hpage : Apart (L.fileBuf + page * rowSize) pageSize L.pageBuf pageSize :=
    L.page_file.symm.sub (by omega) (by omega) (le_refl _) (le_refl _)
  have hspare : Apart (L.fileBuf + page * rowSize + pageSize) pageSpareSize L.eccBuf
      pageSpareSize :=
    L.ecc_file.symm.sub (by omega) (by omega) (le_refl _)
      (by simp only [eccBufferAlloc]; omega)
  have hbuf : Apart L.pageBuf pageSize L.fileBuf (page * rowSize) :=
    L.page_file.sub (le_refl _) (le_refl _) (le_refl _) (by omega)
  have hecc : Apart L.eccBuf eccBufferAlloc L.fileBuf (page * rowSize) :=
    L.ecc_file.sub (le_refl _) (le_refl _) (le_refl _) (by omega)
  intro x h1 h2
  simp only [rowMem]
  rw [memcpy_eq_fill hspare, memcpy_eq_fill hpage, fill_other _ (by omega), fill_other _ (by omega),
    nandCorrect_mem L.page_ecc, fill_frame _ hbuf x h1 h2, dmaPage_frame hbuf hecc x h1 h2]

/-- **The inner loop.**  After `n` pages the first `n` rows are the records of those pages. -/
theorem readRows_spec (pageBase : ℕ) (w : World) {n : ℕ} (hn : n ≤ pagesPerIteration) :
    bytes (readRows chip L pageBase w n).nand.mem L.fileBuf (n * rowSize) =
        (List.range n).flatMap (fun j => pageRecord chip w.nand.nandBank (pageBase + j)) ∧
      (readRows chip L pageBase w n).nand.nandBank = w.nand.nandBank ∧
      (readRows chip L pageBase w n).nand.initialized = w.nand.initialized ∧
      (readRows chip L pageBase w n).nand.reads =
        w.nand.reads ++ (List.range n).map (fun j => (w.nand.nandBank, pageBase + j)) ∧
      (readRows chip L pageBase w n).files = w.files ∧
      (readRows chip L pageBase w n).ops = w.ops := by
  induction n with
  | zero => simp [readRows, bytes]
  | succ n ih =>
    obtain ⟨hb, hbank, hini, hreads, hfiles, hops⟩ := ih (by omega)
    obtain ⟨hs, hf, ho⟩ := readRow_state chip L pageBase n
      (readRows chip L pageBase w n)
    simp only [readRows, hs, hf, ho]
    refine ⟨?_, hbank, hini, ?_, hfiles, hops⟩
    · rw [Nat.succ_mul, bytes_add, bytes_congr (rowMem_before _ _ _ _ (by omega) _), hb,
        rowMem_row _ _ _ _ (by omega), hbank, List.range_succ, List.flatMap_append]
      simp
    · rw [hreads, hbank, List.range_succ, List.map_append, List.append_assoc]
      rfl

end Rows

/-! ## The outer loop -/

/-- `w'` is `w` after `n` iterations whose writes were all full. -/
structure Progress (chip : NandChip) (path : String) (w w' : World) (n : ℕ) : Prop where
  nandBank : w'.nand.nandBank = w.nand.nandBank
  initialized : w'.nand.initialized = w.nand.initialized
  reads : w'.nand.reads = w.nand.reads ++
    (List.range (n * pagesPerIteration)).map fun p => (w.nand.nandBank, p)
  content : fileContent w' path =
    fileContent w path ++ image chip w.nand.nandBank (n * pagesPerIteration)
  ops : w'.ops = w.ops ++
    (List.range n).map fun i => .fWrite path (chunk chip w.nand.nandBank i) true

section Iterations

variable (chip : NandChip) (L : DumpBuffers) {r : FatResults} (name path : String)

theorem fileContent_fWrite (res : WriteResult) (w : World) :
    fileContent (fWrite L path res w) path = fileContent w path ++
      if res.full then bytes w.nand.mem L.fileBuf fileBufSize else res.left := by
  simp [fWrite, fileContent, setFile]

/-- The world in which the `f_write` of iteration `i` is made: its buffer holds sixteen records. -/
theorem readRows_iter {w w' : World} {i : ℕ} (h : Progress chip path w w' i) :
    let s := readRows chip L (i * pagesPerIteration) w' pagesPerIteration
    bytes s.nand.mem L.fileBuf fileBufSize = chunk chip w.nand.nandBank i ∧
      s.nand.nandBank = w.nand.nandBank ∧ s.nand.initialized = w.nand.initialized ∧
      s.nand.reads = w.nand.reads ++
        (List.range ((i + 1) * pagesPerIteration)).map (fun p => (w.nand.nandBank, p)) ∧
      s.files = w'.files ∧ s.ops = w'.ops := by
  intro s
  obtain ⟨hb, hbank, hini, hreads, hfiles, hops⟩ :=
    readRows_spec chip L (i * pagesPerIteration) w' (le_refl _)
  refine ⟨?_, hbank.trans h.nandBank, hini.trans h.initialized, ?_, hfiles, hops⟩
  · rw [fileBufSize, hb, h.nandBank, chunk]
  · simp only [s]
    rw [hreads, h.reads, h.nandBank, Nat.succ_mul, List.range_add, List.map_append, List.map_map,
      List.append_assoc]
    rfl

/-- A full write makes one more iteration. -/
theorem progress_succ {w w' : World} {i : ℕ} (h : Progress chip path w w' i)
    (hfull : (r.fWrite i).full = true) :
    (dumpIter chip L r name path i w').1 = none ∧
      Progress chip path w (dumpIter chip L r name path i w').2 (i + 1) := by
  obtain ⟨hb, hbank, hini, hreads, hfiles, hops⟩ := readRows_iter chip L path h
  have hp : Progress chip path w
      (fWrite L path (r.fWrite i)
        (readRows chip L (i * pagesPerIteration) w' pagesPerIteration)) (i + 1) := by
    refine ⟨hbank, hini, hreads, ?_, ?_⟩
    · rw [fileContent_fWrite, if_pos hfull, hb, fileContent, hfiles, ← fileContent, h.content,
        Nat.succ_mul, image_add, List.append_assoc]
      rfl
    · simp only [fWrite, setFile]
      rw [hops, h.ops, hb, hfull, List.range_succ, List.map_append, List.append_assoc]
      rfl
  simp only [dumpIter, hfull, not_true_eq_false, if_false]
  split
  · exact ⟨rfl, ⟨hp.nandBank, hp.initialized, hp.reads, hp.content, hp.ops⟩⟩
  · exact ⟨rfl, hp⟩

/-- **The outer loop while every write is full.** -/
theorem dumpIters_ok (w : World) {n : ℕ} (hfull : ∀ i < n, (r.fWrite i).full = true) :
    (dumpIters chip L r name path w n).1 = none ∧
      Progress chip path w (dumpIters chip L r name path w n).2 n := by
  induction n with
  | zero => exact ⟨rfl, rfl, rfl, by simp [dumpIters], by simp [dumpIters, image], by simp [dumpIters]⟩
  | succ n ih =>
    obtain ⟨hnone, hp⟩ := ih fun i hi => hfull i (by omega)
    have hpair : dumpIters chip L r name path w n =
        (none, (dumpIters chip L r name path w n).2) := by rw [← hnone]
    rw [dumpIters, hpair]
    exact progress_succ chip L name path hp (hfull n (Nat.lt_succ_self n))

/-- **The first write that is not full ends the call**, whatever the later ones would be. -/
theorem dumpIters_fail (w : World) {k n : ℕ} (hk : k < n)
    (hfull : ∀ i < k, (r.fWrite i).full = true) (hfail : (r.fWrite k).full = false) :
    let d := dumpIters chip L r name path w n
    d.1 = some (-4) ∧
      d.2.nand.nandBank = w.nand.nandBank ∧ d.2.nand.initialized = w.nand.initialized ∧
      d.2.nand.reads = w.nand.reads ++
        (List.range ((k + 1) * pagesPerIteration)).map (fun p => (w.nand.nandBank, p)) ∧
      fileContent d.2 path = fileContent w path ++
        image chip w.nand.nandBank (k * pagesPerIteration) ++ (r.fWrite k).left ∧
      d.2.ops = w.ops ++
        (List.range k).map (fun i => .fWrite path (chunk chip w.nand.nandBank i) true) ++
        [.fWrite path (chunk chip w.nand.nandBank k) false, .fClose path] := by
  induction n with
  | zero => omega
  | succ n ih =>
    by_cases hkn : k = n
    · subst hkn
      obtain ⟨hnone, hp⟩ := dumpIters_ok chip L name path w hfull
      have hpair : dumpIters chip L r name path w k =
          (none, (dumpIters chip L r name path w k).2) := by rw [← hnone]
      obtain ⟨hb, hbank, hini, hreads, hfiles, hops⟩ := readRows_iter chip L path hp
      rw [dumpIters, hpair]
      simp only [dumpIter, hfail, Bool.false_eq_true, not_false_eq_true, if_true]
      refine ⟨trivial, hbank, hini, hreads, ?_, ?_⟩
      · change fileContent (fWrite L path (r.fWrite k) _) path = _
        rw [fileContent_fWrite, hfail, fileContent, hfiles, ← fileContent, hp.content]
        rfl
      · change _ ++ _ = _
        simp only [fWrite, setFile]
        rw [hops, hp.ops, hb, hfail, List.append_assoc]
        rfl
    · obtain ⟨h1, h2⟩ := ih (by omega)
      have hpair : dumpIters chip L r name path w n =
          (some (-4), (dumpIters chip L r name path w n).2) := by rw [← h1]
      intro d
      have hd : d = (some (-4), (dumpIters chip L r name path w n).2) := by
        simp only [d]
        rw [dumpIters, hpair]
      rw [hd]
      exact ⟨rfl, h2⟩

end Iterations

end VwiiNandTools.Dump
