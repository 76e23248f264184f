import VwiiNandTools.Armboot.Storage.Nand.Ecc

/-!
# Reading pages

The read path of `storage/nand.c` as its callers see it: `nand_initialize` selects a bank,
`nand_read_page` asks for a page and `nand_wait` returns when the page lies in the two buffers (that
it does not return earlier is `Nand/Wait.lean`).  The controller reads from the bank its register
`NAND_BANK` holds at that time; `Selected` says that this is the bank of the last `nand_initialize`,
also when it returned early.
-/

namespace VwiiNandTools.Nand

open ByteMemory

def nandBankSlccmpt : BitVec 32 := 0x00000001#32
def nandBankSlc : BitVec 32 := 0x00000002#32

/-- What the NAND holds, and the words its controller calculates from the data bytes of a page. -/
structure NandChip where
  page : BitVec 32 → ℕ → NandPage
  computed : (ℕ → Byte) → ℕ → BitVec 32

/-- The page asked for by the last `nand_read_page`, and the buffers it goes to. -/
structure ReadRequest where
  pageno : ℕ
  data : ℕ
  ecc : ℕ

/-- The static variables of `nand.c`, the registers it depends on, and memory.  `reads` lists the
pages the controller has read, with the bank. -/
structure NandState where
  mem : Mem
  initialized : BitVec 32
  lastPageRead : ℕ
  nandBank : BitVec 32
  request : Option ReadRequest
  reads : List (BitVec 32 × ℕ)

/-- `nand_reset`, with its two writes to `NAND_BANK`. -/
def nandReset (bank : BitVec 32) (s : NandState) : NandState :=
  { { s with nandBank := 0x00000001#32 } with nandBank := bank }

def nandInitialize (bank : BitVec 32) (s : NandState) : NandState :=
  if s.initialized = bank then s else { nandReset bank s with initialized := bank }

def nandReadPage (pageno data ecc : ℕ) (s : NandState) : NandState :=
  { s with lastPageRead := pageno, request := some ⟨pageno, data, ecc⟩ }

/-- When `nand_wait` returns, the controller has carried out the request. -/
def nandWait (chip : NandChip) (s : NandState) : NandState :=
  match s.request with
  | none => s
  | some r =>
    { s with
      mem := dmaPage s.mem r.data r.ecc (chip.page s.nandBank r.pageno)
        (chip.computed (chip.page s.nandBank r.pageno).data)
      request := none
      reads := s.reads ++ [(s.nandBank, r.pageno)] }

/-- The bank register is the one remembered in `initialized`, once a bank was selected. -/
def Selected (s : NandState) : Prop := s.initialized ≠ 0#32 → s.nandBank = s.initialized

/-- After `nand_initialize` of a bank the controller reads from that bank. -/
theorem nandBank_nandInitialize {s : NandState} {bank : BitVec 32} (h : Selected s)
    (hb : bank ≠ 0#32) : (nandInitialize bank s).nandBank = bank := by
  rw [nandInitialize]
  split
  · next he => rw [h (by rw [he]; exact hb), he]
  · rfl

@[simp] theorem mem_nandInitialize (bank : BitVec 32) (s : NandState) :
    (nandInitialize bank s).mem = s.mem := by
  rw [nandInitialize]; split <;> rfl

@[simp] theorem reads_nandInitialize (bank : BitVec 32) (s : NandState) :
    (nandInitialize bank s).reads = s.reads := by
  rw [nandInitialize]; split <;> rfl

end VwiiNandTools.Nand
