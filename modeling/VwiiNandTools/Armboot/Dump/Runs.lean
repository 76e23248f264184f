import VwiiNandTools.Lib.Transition
import VwiiNandTools.Armboot.Dump.Image
import VwiiNandTools.Armboot.Storage.Nand.SecDed

/-!
# Runs of dumps

A run is a sequence of calls of `_dump_slc_raw` from power-on, with any bank and any FatFs results
in each call.  The one thing a call leaves for the next is the bank remembered by `nand.c`; along
every run it is the bank the controller is set to (`Reach.selected`), so the early return of
`nand_initialize` is harmless and each call can be read alone: `dumpNamed_full`,
`dumpNamed_writeFails` and `dumpNamed_openFails` are its three courses.
-/

namespace VwiiNandTools.Dump

open ByteMemory Nand Transition

/-- At power-on `initialized` is 0. -/
def dumpMachine (chip : NandChip) (L : DumpBuffers) : Machine World (BitVec 32 × FatResults) where
  init w := w.nand.initialized = 0#32
  step w c := some (dumpSlcRaw chip L c.2 c.1 w).2

section Calls

variable (chip : NandChip) (L : DumpBuffers) {r : FatResults} {bank : BitVec 32} (name : String)

theorem pages_eq : totalIterations * pagesPerIteration = nandMaxPage := by decide

theorem bankName_isSome : (bankName bank).isSome ↔ bank = nandBankSlc ∨ bank = nandBankSlccmpt := by
  rw [bankName]
  split
  · simp [*]
  · split <;> simp [*]

theorem bank_ne_zero (h : bankName bank = some name) : bank ≠ 0#32 := by
  rintro rfl
  simp [bankName, nandBankSlc, nandBankSlccmpt] at h

@[simp] theorem fOpen_nand (path : String) (w : World) : (fOpen r path w).nand = w.nand := by
  rw [fOpen]; split <;> rfl

theorem fOpen_content (path : String) (w : World) (h : r.fOpen = .ok) :
    fileContent (fOpen r path w) path = [] := by
  simp [fOpen, h, fileContent, setFile]

@[simp] theorem fOpen_ops (path : String) (w : World) :
    (fOpen r path w).ops = w.ops ++ [.fOpen path] := by
  rw [fOpen]; split <;> rfl

/-- The world in which the outer loop starts. -/
def opened (r : FatResults) (bank : BitVec 32) (name : String) (w : World) : World :=
  let w := gecko (fOpen r (rawPath name) w) (.initializing name)
  { w with nand := nandInitialize bank w.nand }

theorem opened_nandBank (w : World) (hs : Selected w.nand) (hb : bank ≠ 0#32) :
    (opened r bank name w).nand.nandBank = bank := by
  refine nandBank_nandInitialize ?_ hb
  simpa using hs

theorem opened_initialized (w : World) : (opened r bank name w).nand.initialized = bank := by
  simp only [opened, nandInitialize]
  split
  · assumption
  · rfl

@[simp] theorem opened_reads (w : World) : (opened r bank name w).nand.reads = w.nand.reads := by
  simp [opened]

@[simp] theorem opened_ops (w : World) :
    (opened r bank name w).ops = w.ops ++ [.fOpen (rawPath name)] := by
  simp [opened]

theorem opened_content (w : World) (h : r.fOpen = .ok) :
    fileContent (opened r bank name w) (rawPath name) = [] :=
  fOpen_content (rawPath name) w h

theorem dumpNamed_openFails (w : World) (h : r.fOpen ≠ .ok) :
    (dumpNamed chip L r bank name w).1 = -3 ∧
      (dumpNamed chip L r bank name w).2.nand = w.nand := by
  simp [dumpNamed, h]

theorem dumpNamed_opened (w : World) (h : r.fOpen = .ok) :
    dumpNamed chip L r bank name w = dumpEnd r (rawPath name)
      (dumpIters chip L r name (rawPath name) (opened r bank name w) totalIterations) := by
  simp only [dumpNamed, opened, h, ne_eq, not_true_eq_false, if_false]

theorem dumpEnd_none (path : String) {d : Option ℤ × World} (h : d.1 = none) :
    (dumpEnd r path d).1 = (if r.fClose = .ok then 0 else -5) ∧
      (dumpEnd r path d).2.nand = d.2.nand ∧
      fileContent (dumpEnd r path d).2 path = fileContent d.2 path ∧
      (dumpEnd r path d).2.ops = d.2.ops ++ [.fClose path] := by
  obtain ⟨_, w⟩ := d
  obtain rfl : _ = none := h
  by_cases hc : r.fClose = .ok
  · simp only [dumpEnd, hc, ne_eq, not_true_eq_false, if_false, if_true]
    exact ⟨trivial, rfl, rfl, rfl⟩
  · simp only [dumpEnd, hc, ne_eq, not_false_eq_true, if_false, if_true]
    exact ⟨trivial, rfl, rfl, rfl⟩

theorem dumpEnd_some (path : String) {d : Option ℤ × World} {ret : ℤ} (h : d.1 = some ret) :
    (dumpEnd r path d).1 = ret ∧ (dumpEnd r path d).2 = d.2 := by
  obtain ⟨_, w⟩ := d
  obtain rfl : _ = some ret := h
  exact ⟨rfl, rfl⟩

/-- Every write is full: the file becomes the image of the bank. -/
theorem dumpNamed_full (w : World) (hs : Selected w.nand) (hb : bank ≠ 0#32)
    (hopen : r.fOpen = .ok) (hfull : ∀ k < totalIterations, (r.fWrite k).full = true) :
    let d := dumpNamed chip L r bank name w
    (d.1 = if r.fClose = .ok then 0 else -5) ∧
      d.2.nand.nandBank = bank ∧ d.2.nand.initialized = bank ∧
      d.2.nand.reads = w.nand.reads ++ (List.range nandMaxPage).map (fun p => (bank, p)) ∧
      fileContent d.2 (rawPath name) = image chip bank nandMaxPage ∧
      d.2.ops = w.ops ++ [.fOpen (rawPath name)] ++
        (List.range totalIterations).map (fun i =>
          .fWrite (rawPath name) (chunk chip bank i) true) ++ [.fClose (rawPath name)] := by
  obtain ⟨hnone, hp⟩ := dumpIters_ok chip L name (rawPath name)
    (opened r bank name w) hfull
  have hbank := opened_nandBank (r := r) name w hs hb
  have hreads := hp.reads
  have hcontent := hp.content
  rw [hbank, opened_reads, pages_eq] at hreads
  rw [hbank, opened_content name w hopen, pages_eq, List.nil_append] at hcontent
  have hops := hp.ops
  rw [hbank, opened_ops] at hops
  obtain ⟨hret, hnand, hfile, hclose⟩ := dumpEnd_none (r := r) (rawPath name) hnone
  rw [dumpNamed_opened chip L name w hopen]
  refine ⟨hret, ?_, ?_, ?_, hfile.trans hcontent, by rw [hclose, hops]⟩
  · rw [hnand]
    exact hp.nandBank.trans hbank
  · rw [hnand]
    exact hp.initialized.trans (opened_initialized name w)
  · rw [hnand]
    exact hreads

/-- The write of iteration `k` is the first that is not full. -/
theorem dumpNamed_writeFails (w : World) (hs : Selected w.nand) (hb : bank ≠ 0#32)
    (hopen : r.fOpen = .ok) {k : ℕ} (hk : k < totalIterations)
    (hfull : ∀ i < k, (r.fWrite i).full = true) (hfail : (r.fWrite k).full = false) :
    let d := dumpNamed chip L r bank name w
    d.1 = -4 ∧
      d.2.nand.nandBank = bank ∧ d.2.nand.initialized = bank ∧
      d.2.nand.reads = w.nand.reads ++
        (List.range ((k + 1) * pagesPerIteration)).map (fun p => (bank, p)) ∧
      fileContent d.2 (rawPath name) =
        image chip bank (k * pagesPerIteration) ++ (r.fWrite k).left ∧
      d.2.ops = w.ops ++ [.fOpen (rawPath name)] ++
        (List.range k).map (fun i => .fWrite (rawPath name) (chunk chip bank i) true) ++
        [.fWrite (rawPath name) (chunk chip bank k) false, .fClose (rawPath name)] := by
  obtain ⟨hret, hnb, hini, hreads, hcontent, hops⟩ := dumpIters_fail chip L name
    (rawPath name) (opened r bank name w) hk hfull hfail
  have hbank := opened_nandBank (r := r) name w hs hb
  rw [hbank] at hnb hreads hcontent hops
  rw [opened_reads] at hreads
  rw [opened_content name w hopen, List.nil_append] at hcontent
  rw [opened_ops] at hops
  obtain ⟨h1, h2⟩ := dumpEnd_some (r := r) (rawPath name) hret
  rw [dumpNamed_opened chip L name w hopen]
  refine ⟨h1, ?_⟩
  rw [h2]
  exact ⟨hnb, hini.trans (opened_initialized name w), hreads, hcontent, hops⟩

theorem writes_cases (r : FatResults) (n : ℕ) : (∀ k < n, (r.fWrite k).full = true) ∨
    ∃ k < n, (∀ i < k, (r.fWrite i).full = true) ∧ (r.fWrite k).full = false := by
  induction n with
  | zero => exact Or.inl fun k hk => absurd hk (Nat.not_lt_zero k)
  | succ n ih =>
    rcases ih with h | ⟨k, hk, h⟩
    · by_cases hn : (r.fWrite n).full = true
      · refine Or.inl fun k hk => ?_
        rcases Nat.lt_succ_iff_lt_or_eq.mp hk with hlt | rfl
        · exact h k hlt
        · exact hn
      · exact Or.inr ⟨n, Nat.lt_succ_self n, h, by simpa using hn⟩
    · exact Or.inr ⟨k, by omega, h⟩

/-- A call keeps the bank register at the remembered bank. -/
theorem selected_dumpSlcRaw {w : World} (hs : Selected w.nand) :
    Selected (dumpSlcRaw chip L r bank w).2.nand := by
  rw [dumpSlcRaw]
  split
  · exact hs
  · next name hname =>
    have hb := bank_ne_zero name hname
    by_cases hopen : r.fOpen = .ok
    · rcases writes_cases r totalIterations with hfull | ⟨k, hk, hfull, hfail⟩
      · obtain ⟨-, h1, h2, -⟩ :=
          dumpNamed_full chip L name w hs hb hopen hfull
        intro _
        rw [h1, h2]
      · obtain ⟨-, h1, h2, -⟩ := dumpNamed_writeFails chip L name w hs hb
          hopen hk hfull hfail
        intro _
        rw [h1, h2]
    · rw [(dumpNamed_openFails chip L name w hopen).2]
      exact hs

end Calls

/-- Along every run the controller is set to the bank `nand.c` remembers. -/
theorem Reach.selected {chip : NandChip} {L : DumpBuffers} {w : World}
    (hw : (dumpMachine chip L).Reach w) : Selected w.nand := by
  refine hw.invariant (I := fun w => Selected w.nand) (fun w h h' => absurd h h') ?_
  rintro w ⟨bank, r⟩ w' hs - hstep
  obtain rfl := Option.some.inj hstep
  exact selected_dumpSlcRaw chip L hs

/-- **The dump.**  In every run, for every call: it succeeds exactly when the bank is known and
FatFs never fails; then the file is the image of the whole bank, each page read once.  The first
write that is not full ends it with -4: nothing is read or written after it.  In all cases only the
requested bank is read. -/
theorem dumpSlcRaw_correct {chip : NandChip} {L : DumpBuffers} {w : World}
    (hw : (dumpMachine chip L).Reach w) (bank : BitVec 32) (r : FatResults) :
    let d := dumpSlcRaw chip L r bank w
    (d.1 = 0 ↔ (bank = nandBankSlc ∨ bank = nandBankSlccmpt) ∧ r.fOpen = .ok ∧ r.fClose = .ok ∧
      ∀ k < totalIterations, (r.fWrite k).fres = .ok ∧ (r.fWrite k).btx = fileBufSize) ∧
    (d.1 = 0 → ∃ name, bankName bank = some name ∧
      fileContent d.2 (rawPath name) = image chip bank nandMaxPage ∧
      d.2.nand.reads = w.nand.reads ++ (List.range nandMaxPage).map fun p => (bank, p)) ∧
    (∀ name k, bankName bank = some name → r.fOpen = .ok → k < totalIterations →
      (∀ i < k, (r.fWrite i).full = true) → (r.fWrite k).full = false →
      d.1 = -4 ∧
      d.2.nand.reads = w.nand.reads ++
        (List.range ((k + 1) * pagesPerIteration)).map (fun p => (bank, p)) ∧
      fileContent d.2 (rawPath name) =
        image chip bank (k * pagesPerIteration) ++ (r.fWrite k).left ∧
      d.2.ops = w.ops ++ [.fOpen (rawPath name)] ++
        (List.range k).map (fun i => .fWrite (rawPath name) (chunk chip bank i) true) ++
        [.fWrite (rawPath name) (chunk chip bank k) false, .fClose (rawPath name)]) ∧
    ∃ n, d.2.nand.reads = w.nand.reads ++ (List.range n).map fun p => (bank, p) := by
  have hs := Reach.selected hw
  intro d
  cases hname : bankName bank with
  | none =>
    have hnot : ¬(bank = nandBankSlc ∨ bank = nandBankSlccmpt) := by
      rw [← bankName_isSome, hname]
      exact Bool.false_ne_true
    have hd : d = (-2, w) := by simp only [d, dumpSlcRaw, hname]
    have hno : d.1 ≠ 0 := by
      rw [hd]
      exact (by decide : (-2 : ℤ) ≠ 0)
    refine ⟨⟨fun h => absurd h hno, fun h => absurd h.1 hnot⟩, fun h => absurd h hno,
      fun name k h => ?_, 0, ?_⟩
    · cases h
    · rw [hd]
      exact (List.append_nil _).symm
  | some name =>
    have hb := bank_ne_zero name hname
    have hbank : bank = nandBankSlc ∨ bank = nandBankSlccmpt := by
      rw [← bankName_isSome, hname]
      rfl
    have hd : d = dumpNamed chip L r bank name w := by simp only [d, dumpSlcRaw, hname]
    rw [hd]
    have hfull_iff : (∀ k < totalIterations, (r.fWrite k).full = true) ↔
        ∀ k < totalIterations, (r.fWrite k).fres = .ok ∧ (r.fWrite k).btx = fileBufSize := by
      simp [WriteResult.full]
    by_cases hopen : r.fOpen = .ok
    · rcases writes_cases r totalIterations with hfull | ⟨k, hk, hfull, hfail⟩
      · obtain ⟨hret, -, -, hreads, hcontent, -⟩ :=
          dumpNamed_full chip L name w hs hb hopen hfull
        refine ⟨?_, fun _ => ⟨name, rfl, hcontent, hreads⟩, ?_, nandMaxPage, hreads⟩
        · rw [hret]
          constructor
          · intro h
            split at h
            · next hclose => exact ⟨hbank, hopen, hclose, hfull_iff.mp hfull⟩
            · exact absurd h (by decide)
          · rintro ⟨-, -, hclose, -⟩
            rw [if_pos hclose]
        · intro _ k _ _ hk _ hfail
          rw [hfull k hk] at hfail
          cases hfail
      · obtain ⟨hret, -, -, hreads, hcontent, hops⟩ :=
          dumpNamed_writeFails chip L name w hs hb hopen hk hfull hfail
        have hno : (dumpNamed chip L r bank name w).1 ≠ 0 := by
          rw [hret]
          decide
        refine ⟨⟨fun h => absurd h hno, ?_⟩, fun h => absurd h hno, ?_, _, hreads⟩
        · rintro ⟨-, -, -, hall⟩
          rw [hfull_iff.mpr hall k hk] at hfail
          cases hfail
        · intro name' k' hname' _ hk' hfull' hfail'
          have hkk : k' = k := by
            rcases Nat.lt_trichotomy k' k with hlt | heq | hgt
            · rw [hfull k' hlt] at hfail'
              cases hfail'
            · exact heq
            · rw [hfull' k hgt] at hfail
              cases hfail
          cases hname'
          rw [hkk]
          exact ⟨hret, hreads, hcontent, hops⟩
    · obtain ⟨hret, hnand⟩ := dumpNamed_openFails chip L name w hopen
      have hno : (dumpNamed chip L r bank name w).1 ≠ 0 := by
        rw [hret]
        decide
      refine ⟨⟨fun h => absurd h hno, fun h => absurd h.2.1 hopen⟩, fun h => absurd h hno,
        fun _ _ _ h => absurd h hopen, 0, ?_⟩
      rw [hnand]
      exact (List.append_nil _).symm

/-- Buffers one after the other from address 0 on. -/
def lowBuffers : DumpBuffers where
  pageBuf := 0
  eccBuf := pageSize
  fileBuf := pageSize + eccBufferAlloc
  page_ecc := Or.inl (by decide)
  page_file := Or.inl (by decide)
  ecc_file := Or.inl (by decide)

def bootWorld : World where
  nand := { mem := fun _ => 0#8, initialized := 0#32, lastPageRead := 0, nandBank := 0#32,
            request := none, reads := [] }
  files _ := none
  ops := []
  console := []

/-- FatFs never fails. -/
def allFull : FatResults where
  fOpen := .ok
  fWrite _ := { fres := .ok, btx := fileBufSize, left := [] }
  fClose := .ok

/-- The first dump after power-on, of a chip of zeros, succeeds. -/
theorem dumpSlcRaw_correct_boot :
    (dumpSlcRaw { page := fun _ _ => zeroPage, computed := fun _ _ => 0#32 } lowBuffers allFull
      nandBankSlc bootWorld).1 = 0 :=
  (dumpSlcRaw_correct (w := bootWorld) (.init rfl) nandBankSlc allFull).1.mpr
    ⟨Or.inl rfl, rfl, rfl, fun _ _ => ⟨rfl, rfl⟩⟩

end VwiiNandTools.Dump
