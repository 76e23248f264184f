import VwiiNandTools.Armboot.Common.Memcpy
import VwiiNandTools.Armboot.Storage.Nand.Read

/-!
# `_dump_slc_raw`

The dump loop of `dump.c`: sixteen pages are read, corrected and copied into a staging buffer, and
the buffer is appended to the file, `NAND_MAX_PAGE / 16` times.  FatFs is taken by its results: an
`f_write` that succeeds in full appends the whole buffer, any other one leaves some bytes behind.

`pageRecord` is the 2112 bytes a page has in the image; `pageRecord_eq` takes them from the chip.
-/

namespace VwiiNandTools.Dump

open ByteMemory Nand

def pagesPerIteration : ℕ := 0x10
def totalIterations : ℕ := nandMaxPage / pagesPerIteration

/-- `PAGE_SIZE + PAGE_SPARE_SIZE`. -/
def rowSize : ℕ := pageSize + pageSpareSize

/-- `sizeof(file_buf)`. -/
def fileBufSize : ℕ := pagesPerIteration * rowSize

/-- The addresses of the three static buffers, which share no byte. -/
structure DumpBuffers where
  pageBuf : ℕ
  eccBuf : ℕ
  fileBuf : ℕ
  page_ecc : Apart pageBuf pageSize eccBuf eccBufferAlloc
  page_file : Apart pageBuf pageSize fileBuf fileBufSize
  ecc_file : Apart eccBuf eccBufferAlloc fileBuf fileBufSize

/-! ## FatFs -/

inductive FResult
  | ok
  | diskErr
  | intErr
  | notReady
  | noFile
  | noPath
  | invalidName
  | denied
  | exist
  | invalidObject
  | writeProtected
  | invalidDrive
  | notEnabled
  | noFilesystem
  | mkfsAborted
  | timeout
  deriving DecidableEq, Repr

/-- The outcome of one `f_write`: its result, the byte count it reports, and the bytes it leaves in
the file when it did not write everything. -/
structure WriteResult where
  fres : FResult
  btx : ℕ
  left : List Byte

/-- `fres == FR_OK && btx == sizeof(file_buf)`. -/
def WriteResult.full (r : WriteResult) : Bool := r.fres = .ok && r.btx = fileBufSize

/-- The outcomes FatFs has for one call of `_dump_slc_raw`. -/
structure FatResults where
  fOpen : FResult
  fWrite : ℕ → WriteResult
  fClose : FResult

/-- A FatFs call, in the order of the calls. -/
inductive FileOp
  | fOpen (path : String)
  | fWrite (path : String) (buff : List Byte) (full : Bool)
  | fClose (path : String)
  deriving DecidableEq

/-! ## The source -/

/-- What `_dump_slc_raw` prints. -/
inductive Message
  | failedToOpen (path : String) (fres : FResult)
  | initializing (name : String)
  | eccStats (pageno uncorrectable corrected : ℕ)
  | failedToWrite (path : String) (fres : FResult)
  | pageCompleted (name : String) (pageBase : ℕ)
  | failedToClose (path : String) (fres : FResult)
  | completed

structure World where
  nand : NandState
  files : String → Option (List Byte)
  ops : List FileOp
  console : List Message

def setFile (w : World) (path : String) (content : List Byte) : World :=
  { w with files := fun p => if p = path then some content else w.files p }

def fileContent (w : World) (path : String) : List Byte := (w.files path).getD []

def gecko (w : World) (msg : Message) : World := { w with console := w.console ++ [msg] }

section Source

variable (chip : NandChip) (L : DumpBuffers) (r : FatResults)

/-- The body of the inner loop. -/
def readRow (pageBase page : ℕ) (w : World) : World :=
  let s := nandWait chip (nandReadPage (pageBase + page) L.pageBuf L.eccBuf w.nand)
  let c := nandCorrect s.mem L.pageBuf L.eccBuf
  let row := L.fileBuf + page * rowSize
  let m := memcpy c.mem row L.pageBuf pageSize
  let m := memcpy m (row + pageSize) L.eccBuf pageSpareSize
  let w := { w with nand := { s with mem := m } }
  if c.uncorrectable ≠ 0 ∨ c.corrected ≠ 0 then
    gecko w (.eccStats (pageBase + page) c.uncorrectable c.corrected)
  else w

/-- The inner loop after `n` pages. -/
def readRows (pageBase : ℕ) (w : World) : ℕ → World
  | 0 => w
  | n + 1 => readRow chip L pageBase n (readRows pageBase w n)

/-- `f_write(&file, file_buf, sizeof(file_buf), &btx)` with result `res`. -/
def fWrite (path : String) (res : WriteResult) (w : World) : World :=
  let buff := bytes w.nand.mem L.fileBuf fileBufSize
  let w := setFile w path (fileContent w path ++ if res.full then buff else res.left)
  { w with ops := w.ops ++ [.fWrite path buff res.full] }

def fClose (path : String) (w : World) : World := { w with ops := w.ops ++ [.fClose path] }

/-- The body of the outer loop; a returned value ends the call. -/
def dumpIter (name path : String) (i : ℕ) (w : World) : Option ℤ × World :=
  let pageBase := i * pagesPerIteration
  let w := readRows chip L pageBase w pagesPerIteration
  let w := fWrite L path (r.fWrite i) w
  if ¬(r.fWrite i).full then
    (some (-4), gecko (fClose path w) (.failedToWrite path (r.fWrite i).fres))
  else if i % 0x100 = 0 then (none, gecko w (.pageCompleted name pageBase))
  else (none, w)

/-- The outer loop after `n` iterations. -/
def dumpIters (name path : String) (w : World) : ℕ → Option ℤ × World
  | 0 => (none, w)
  | n + 1 =>
    match dumpIters name path w n with
    | (some ret, w') => (some ret, w')
    | (none, w') => dumpIter chip L r name path n w'

/-- `f_open` with `FA_CREATE_ALWAYS`. -/
def fOpen (path : String) (w : World) : World :=
  let w := { w with ops := w.ops ++ [.fOpen path] }
  if r.fOpen = .ok then setFile w path [] else w

def bankName (bank : BitVec 32) : Option String :=
  if bank = nandBankSlc then some "SLC"
  else if bank = nandBankSlccmpt then some "SLCCMPT"
  else none

/-- `sprintf(path, "%s.RAW", name)`. -/
def rawPath (name : String) : String := name ++ ".RAW"

/-- The end of the call, after the outer loop. -/
def dumpEnd (path : String) : Option ℤ × World → ℤ × World
  | (some ret, w) => (ret, w)
  | (none, w) =>
    let w := fClose path w
    if r.fClose ≠ .ok then (-5, gecko w (.failedToClose path r.fClose))
    else (0, gecko w .completed)

/-- `_dump_slc_raw` after the bank was found to have a name. -/
def dumpNamed (bank : BitVec 32) (name : String) (w : World) : ℤ × World :=
  let path := rawPath name
  let w := fOpen r path w
  if r.fOpen ≠ .ok then (-3, gecko w (.failedToOpen path r.fOpen))
  else
    let w := gecko w (.initializing name)
    let w := { w with nand := nandInitialize bank w.nand }
    dumpEnd r path (dumpIters chip L r name path w totalIterations)

def dumpSlcRaw (bank : BitVec 32) (w : World) : ℤ × World :=
  match bankName bank with
  | none => (-2, w)
  | some name => dumpNamed chip L r bank name w

end Source

/-! ## One page -/

/-- The bytes of a page in the image: the data after `nand_correct`, then the spare bytes as
read. -/
def pageRecord (chip : NandChip) (bank : BitVec 32) (p : ℕ) : List Byte :=
  let page := chip.page bank p
  bytes (nandCorrect (dmaPage (fun _ => 0#8) 0 pageSize page (chip.computed page.data)) 0 pageSize).mem
      0 pageSize ++
    (List.range pageSpareSize).map page.spare

/-- The data bytes of a page after `nand_correct`, wherever the buffers lie. -/
def correctedPage (chip : NandChip) (bank : BitVec 32) (p : ℕ) : ℕ → Byte :=
  let page := chip.page bank p
  correctedData (fun i => sectorVerdict (storedEcc page i) (chip.computed page.data i)) page.data

theorem bytes_nandCorrect {chip : NandChip} {bank : BitVec 32} {p : ℕ} {m : Mem} {data ecc : ℕ}
    (hap : Apart data pageSize ecc eccBufferAlloc) {j : ℕ} (hj : j < pageSize) :
    (nandCorrect (dmaPage m data ecc (chip.page bank p)
      (chip.computed (chip.page bank p).data)) data ecc).mem (data + j) =
        correctedPage chip bank p j := by
  have hi : j / 512 < 4 := by simp only [pageSize] at hj; omega
  rw [nandCorrect_mem hap, fill_at _ _ _ hj]
  simp only [correctedData, correctedPage, verdictAt_dmaPage hi, dmaPage_data hap hj]

theorem pageRecord_eq (chip : NandChip) (bank : BitVec 32) (p : ℕ) :
    pageRecord chip bank p =
      (List.range pageSize).map (correctedPage chip bank p) ++
        (List.range pageSpareSize).map (chip.page bank p).spare := by
  rw [pageRecord, bytes_eq fun j hj => bytes_nandCorrect (Or.inl (by decide)) hj]

@[simp] theorem length_pageRecord (chip : NandChip) (bank : BitVec 32) (p : ℕ) :
    (pageRecord chip bank p).length = rowSize := by
  rw [pageRecord_eq]; simp [rowSize]

end VwiiNandTools.Dump
