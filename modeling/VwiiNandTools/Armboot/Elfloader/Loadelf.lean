import VwiiNandTools.Lib.WordMemory

/-!
# The ELF loader

`loadelf` of `elfloader/stub.c`, with the `memcpy` and `memcmp` of `elfloader/string.c`.  The image
and the places it is loaded to lie in one memory, so the loader reads its next program header from a
memory it has already written to.  `loadSegments_inv` is the invariant of the loop: the image is as
it was, and every other byte is that of the last segment so far that contains it.
-/

namespace VwiiNandTools.Elf

open ByteMemory (Byte)
open WordMemory

/-! ## The source -/

/-- The loop of `memcpy` after `n` bytes. -/
def memcpyLoop (m : Mem32) (dst src : Addr) : ℕ → Mem32
  | 0 => m
  | n + 1 =>
    set (memcpyLoop m dst src n) (dst + BitVec.ofNat 32 n)
      (memcpyLoop m dst src n (src + BitVec.ofNat 32 n))

/-- `memcpy` with its length, a signed `size_t`. -/
def memcpy (m : Mem32) (dst src : Addr) (len : BitVec 32) : Mem32 :=
  memcpyLoop m dst src len.toInt.toNat

/-- `memcmp` of a constant with the memory at `a`. -/
def memcmp (s1 : List Byte) (m : Mem32) (a : Addr) : ℤ :=
  match (List.range s1.length).find? fun i => s1.getD i 0#8 ≠ m (a + BitVec.ofNat 32 i) with
  | some i => (s1.getD i 0#8).toNat - (m (a + BitVec.ofNat 32 i)).toNat
  | none => 0

def elfIdent : List Byte := [0x7f#8, 0x45#8, 0x4c#8, 0x46#8, 0x01#8, 0x02#8, 0x01#8]

def ptLoad : BitVec 32 := 1#32

/-- The size of an `Elf32_Phdr`. -/
def phdrSize : ℕ := 32

section Fields

variable (m : Mem32) (elf : Addr)

def eEntry : BitVec 32 := be32 m (elf + 24#32)
def ePhoff : BitVec 32 := be32 m (elf + 28#32)
def ePhentsize : BitVec 16 := be16 m (elf + 42#32)
def ePhnum : BitVec 16 := be16 m (elf + 44#32)

end Fields

/-- The fields of an `Elf32_Phdr` that the loader reads. -/
structure Phdr where
  type : BitVec 32
  offset : BitVec 32
  paddr : BitVec 32
  filesz : BitVec 32

def readPhdr (m : Mem32) (a : Addr) : Phdr where
  type := be32 m a
  offset := be32 m (a + 4#32)
  paddr := be32 m (a + 12#32)
  filesz := be32 m (a + 16#32)

/-- The memory, and where the headers were that the loop has read. -/
structure LoadState where
  mem : Mem32
  headers : List Addr

/-- One pass of the loop. -/
def loadSegment (elf phdr : Addr) (s : LoadState) : LoadState :=
  let h := readPhdr s.mem phdr
  { mem := if h.type = ptLoad then memcpy s.mem h.paddr (elf + h.offset) h.filesz else s.mem
    headers := s.headers ++ [phdr] }

/-- `while(count--)`. -/
def loadSegments (elf : Addr) : ℕ → Addr → LoadState → LoadState
  | 0, _, s => s
  | count + 1, phdr, s =>
    loadSegments elf count (phdr + BitVec.ofNat 32 phdrSize) (loadSegment elf phdr s)

/-- What `loadelf` leaves: its result, the memory, and the headers it has read. -/
structure Loaded where
  entry : BitVec 32
  mem : Mem32
  headers : List Addr

/-- `loadelf`; the error is the code that `panic` blinks for ever. -/
def loadelf (m : Mem32) (elf : Addr) : Except (BitVec 8) Loaded :=
  if memcmp elfIdent m elf ≠ 0 then .error 0xe3#8
  else if ePhoff m elf = 0#32 then .error 0xe4#8
  else
    let s := loadSegments elf (ePhnum m elf).toNat (elf + ePhoff m elf) { mem := m, headers := [] }
    .ok { entry := eEntry s.mem elf, mem := s.mem, headers := s.headers }

/-! ## Images -/

/-- Program header `i` of the table, which has its own size of an entry. -/
def headerAddr (m : Mem32) (elf : Addr) (i : ℕ) : Addr :=
  elf + ePhoff m elf + BitVec.ofNat 32 ((ePhentsize m elf).toNat * i)

def header (m : Mem32) (elf : Addr) (i : ℕ) : Phdr := readPhdr m (headerAddr m elf i)

/-- Entry `i` of the table is a segment to load, and `x` is one of its bytes. -/
def Covers (m : Mem32) (elf : Addr) (i : ℕ) (x : Addr) : Prop :=
  (header m elf i).type = ptLoad ∧
    InRange (header m elf i).paddr (header m elf i).filesz.toNat x

/-- The byte that entry `i` has for `x`. -/
def segmentByte (m : Mem32) (elf : Addr) (i : ℕ) (x : Addr) : Byte :=
  m (elf + (header m elf i).offset + (x - (header m elf i).paddr))

/-- An image of `len` bytes at `elf`, with the identification the loader checks, entries of 32
bytes, and its table and its segments inside it; no segment is loaded over it. -/
structure Image (m : Mem32) (elf : Addr) (len : ℕ) : Prop where
  ident : ∀ i < 7, m (elf + BitVec.ofNat 32 i) = elfIdent.getD i 0#8
  phoff : ePhoff m elf ≠ 0#32
  phentsize : (ePhentsize m elf).toNat = phdrSize
  ehdr : 52 ≤ len
  table : (ePhoff m elf).toNat + phdrSize * (ePhnum m elf).toNat ≤ len
  segments : ∀ i < (ePhnum m elf).toNat, (header m elf i).type = ptLoad →
    (header m elf i).offset.toNat + (header m elf i).filesz.toNat ≤ len
  filesz : ∀ i < (ePhnum m elf).toNat, (header m elf i).type = ptLoad →
    (header m elf i).filesz.toNat < 2 ^ 31
  apart : ∀ i < (ePhnum m elf).toNat, ∀ x, Covers m elf i x → ¬InRange elf len x

/-- What loading an image is: every byte is that of the last segment that contains it, and the
others are as they were. -/
structure Loads (m : Mem32) (elf : Addr) (r : Loaded) : Prop where
  last : ∀ i < (ePhnum m elf).toNat, ∀ x, Covers m elf i x →
    (∀ j, i < j → j < (ePhnum m elf).toNat → ¬Covers m elf j x) → r.mem x = segmentByte m elf i x
  frame : ∀ x, (∀ i < (ePhnum m elf).toNat, ¬Covers m elf i x) → r.mem x = m x
  headers : r.headers = (List.range (ePhnum m elf).toNat).map (headerAddr m elf)
  entry : r.entry = eEntry m elf

/-! ## Copying -/

theorem memcpyLoop_eq {m : Mem32} {dst src : Addr} {n : ℕ} (hn : n < 2 ^ 32)
    (hap : ∀ k < n, ¬InRange dst n (src + BitVec.ofNat 32 k)) :
    memcpyLoop m dst src n = place m dst n fun k => m (src + BitVec.ofNat 32 k) := by
  suffices h : ∀ k ≤ n, memcpyLoop m dst src k =
      place m dst k fun i => m (src + BitVec.ofNat 32 i) from h n (le_refl n)
  intro k hk
  induction k with
  | zero =>
    funext x
    exact (place_other _ (by rw [InRange]; omega)).symm
  | succ k ih =>
    have hsrc : ¬InRange dst k (src + BitVec.ofNat 32 k) := by
      have := hap k (by omega)
      rw [InRange] at *
      omega
    rw [memcpyLoop, ih (by omega), place_other _ hsrc]
    exact place_succ m dst (fun i => m (src + BitVec.ofNat 32 i)) (by omega)

/-- Below 2 GiB the signed length is the length. -/
theorem memcpy_eq (m : Mem32) {dst src : Addr} {len : BitVec 32} (hlen : len.toNat < 2 ^ 31)
    (hap : ∀ k < len.toNat, ¬InRange dst len.toNat (src + BitVec.ofNat 32 k)) :
    memcpy m dst src len = place m dst len.toNat fun k => m (src + BitVec.ofNat 32 k) := by
  have hint : len.toInt.toNat = len.toNat := by
    rw [BitVec.toInt_eq_toNat_cond]
    omega
  rw [memcpy, hint, memcpyLoop_eq (by omega) hap]

theorem memcmp_eq_zero {s1 : List Byte} {m : Mem32} {a : Addr} :
    memcmp s1 m a = 0 ↔ ∀ i < s1.length, m (a + BitVec.ofNat 32 i) = s1.getD i 0#8 := by
  unfold memcmp
  split
  · rename_i i hi
    have hne := List.find?_some hi
    have hmem := List.mem_range.mp (List.mem_of_find?_eq_some hi)
    rw [decide_eq_true_eq] at hne
    constructor
    · intro hzero
      exact absurd (BitVec.eq_of_toNat_eq (by omega)) hne
    · intro hall
      exact absurd (hall i hmem).symm hne
  · rename_i hnone
    rw [List.find?_eq_none] at hnone
    refine ⟨fun _ i hi => ?_, fun _ => rfl⟩
    have h := hnone i (List.mem_range.mpr hi)
    rw [decide_eq_true_eq, not_not] at h
    exact h.symm

theorem loadelf_ok_iff {m : Mem32} {elf : Addr} :
    (∃ r, loadelf m elf = .ok r) ↔
      (∀ i < 7, m (elf + BitVec.ofNat 32 i) = elfIdent.getD i 0#8) ∧ ePhoff m elf ≠ 0#32 := by
  have hident : memcmp elfIdent m elf = 0 ↔
      ∀ i < 7, m (elf + BitVec.ofNat 32 i) = elfIdent.getD i 0#8 := memcmp_eq_zero
  rw [← hident, loadelf]
  split_ifs with h1 h2
  · simp [h1]
  · simp [h2]
  · simp [not_not.mp h1, h2]

/-! ## The loop -/

section Loop

variable {m : Mem32} {elf : Addr} {len : ℕ} (himg : Image m elf len)

theorem loadSegments_succ (elf : Addr) (n : ℕ) (a : Addr) (s : LoadState) :
    loadSegments elf (n + 1) a s =
      loadSegment elf (a + BitVec.ofNat 32 (phdrSize * n)) (loadSegments elf n a s) := by
  induction n generalizing a s with
  | zero => simp [loadSegments]
  | succ n ih =>
    have hnext : a + BitVec.ofNat 32 phdrSize + BitVec.ofNat 32 (phdrSize * n) =
        a + BitVec.ofNat 32 (phdrSize * (n + 1)) := by
      rw [BitVec.add_assoc, ← BitVec.ofNat_add, Nat.mul_succ, Nat.add_comm]
    rw [loadSegments, ih, hnext]
    rfl

/-- After `n` passes: the image is as it was, and the other bytes are those of the last of the first
`n` entries. -/
structure LoadInv (m : Mem32) (elf : Addr) (len n : ℕ) (s : LoadState) : Prop where
  image : ∀ x, InRange elf len x → s.mem x = m x
  last : ∀ i < n, ∀ x, Covers m elf i x → (∀ j, i < j → j < n → ¬Covers m elf j x) →
    s.mem x = segmentByte m elf i x
  frame : ∀ x, (∀ i < n, ¬Covers m elf i x) → s.mem x = m x
  headers : s.headers = (List.range n).map (headerAddr m elf)

theorem readPhdr_eq {n i : ℕ} {s : LoadState} (hinv : LoadInv m elf len n s)
    (htable : (ePhoff m elf).toNat + phdrSize * (i + 1) ≤ len) :
    readPhdr s.mem (elf + ePhoff m elf + BitVec.ofNat 32 (phdrSize * i)) =
      readPhdr m (elf + ePhoff m elf + BitVec.ofNat 32 (phdrSize * i)) := by
  have hbyte (t : ℕ) (ht : t < phdrSize) :
      s.mem (elf + ePhoff m elf + BitVec.ofNat 32 (phdrSize * i) + BitVec.ofNat 32 t) =
        m (elf + ePhoff m elf + BitVec.ofNat 32 (phdrSize * i) + BitVec.ofNat 32 t) := by
    have haddr : elf + ePhoff m elf + BitVec.ofNat 32 (phdrSize * i) + BitVec.ofNat 32 t =
        elf + BitVec.ofNat 32 ((ePhoff m elf).toNat + phdrSize * i + t) := by
      simp only [BitVec.ofNat_add, BitVec.ofNat_toNat, BitVec.setWidth_eq, BitVec.add_assoc]
    rw [haddr]
    exact hinv.image _ (inRange_add (by rw [Nat.mul_succ] at htable; omega))
  have hword (o : ℕ) (ho : o + 4 ≤ phdrSize) :
      be32 s.mem (elf + ePhoff m elf + BitVec.ofNat 32 (phdrSize * i) + BitVec.ofNat 32 o) =
        be32 m (elf + ePhoff m elf + BitVec.ofNat 32 (phdrSize * i) + BitVec.ofNat 32 o) := by
    refine be32_congr fun k hk => ?_
    rw [BitVec.add_assoc _ (BitVec.ofNat 32 o), ← BitVec.ofNat_add]
    exact hbyte _ (by omega)
  have h0 := hword 0 (by decide)
  have h4 := hword 4 (by decide)
  have h12 := hword 12 (by decide)
  have h16 := hword 16 (by decide)
  rw [BitVec.add_zero] at h0
  rw [readPhdr, readPhdr, h0, h4, h12, h16]

include himg

theorem headerAddr_eq (i : ℕ) :
    headerAddr m elf i = elf + ePhoff m elf + BitVec.ofNat 32 (phdrSize * i) := by
  rw [headerAddr, himg.phentsize]

/-- What one pass preserves. -/
theorem loadSegment_inv {n : ℕ} {s : LoadState} (hn : n < (ePhnum m elf).toNat)
    (hinv : LoadInv m elf len n s) :
    LoadInv m elf len (n + 1) (loadSegment elf (headerAddr m elf n) s) := by
  have htable := himg.table
  have hread : readPhdr s.mem (headerAddr m elf n) = header m elf n := by
    rw [header, headerAddr_eq himg]
    refine readPhdr_eq hinv (le_trans ?_ htable)
    exact Nat.add_le_add_left (Nat.mul_le_mul_left _ hn) _
  -- the memory after the pass, by whether the entry contains the address
  have hmem : (∀ x, Covers m elf n x →
        (loadSegment elf (headerAddr m elf n) s).mem x = segmentByte m elf n x) ∧
      ∀ x, ¬Covers m elf n x → (loadSegment elf (headerAddr m elf n) s).mem x = s.mem x := by
    simp only [loadSegment, hread]
    by_cases htype : (header m elf n).type = ptLoad
    · have hseg := himg.segments n hn htype
      have hsrc (k : ℕ) (hk : k < (header m elf n).filesz.toNat) :
          InRange elf len (elf + (header m elf n).offset + BitVec.ofNat 32 k) := by
        have haddr : elf + (header m elf n).offset + BitVec.ofNat 32 k =
            elf + BitVec.ofNat 32 ((header m elf n).offset.toNat + k) := by
          rw [BitVec.ofNat_add, BitVec.ofNat_toNat, BitVec.setWidth_eq, BitVec.add_assoc]
        rw [haddr]
        exact inRange_add (by omega)
      have hapart (k : ℕ) (hk : k < (header m elf n).filesz.toNat) :
          ¬InRange (header m elf n).paddr (header m elf n).filesz.toNat
            (elf + (header m elf n).offset + BitVec.ofNat 32 k) :=
        fun hin => himg.apart n hn _ ⟨htype, hin⟩ (hsrc k hk)
      have hcopy := memcpy_eq s.mem (himg.filesz n hn htype) hapart
      rw [if_pos htype, hcopy]
      constructor
      · intro x hx
        rw [place, if_pos hx.2, hinv.image _ (hsrc _ hx.2), BitVec.ofNat_toNat, BitVec.setWidth_eq]
        rfl
      · intro x hx
        exact place_other _ fun hin => hx ⟨htype, hin⟩
    · rw [if_neg htype]
      exact ⟨fun x hx => absurd hx.1 htype, fun x _ => rfl⟩
  refine ⟨?_, ?_, ?_, ?_⟩
  · intro x hx
    rw [hmem.2 x fun hc => himg.apart n hn x hc hx]
    exact hinv.image x hx
  · intro i hi x hc hlast
    by_cases hin : i = n
    · subst hin
      exact hmem.1 x hc
    · rw [hmem.2 x (hlast n (by omega) (by omega))]
      exact hinv.last i (by omega) x hc fun j hij hj => hlast j hij (by omega)
  · intro x hx
    rw [hmem.2 x (hx n (by omega))]
    exact hinv.frame x fun i hi => hx i (by omega)
  · rw [loadSegment, List.range_succ, List.map_append, hinv.headers]
    rfl

/-- What the whole loop preserves. -/
theorem loadSegments_inv {n : ℕ} (hn : n ≤ (ePhnum m elf).toNat) :
    LoadInv m elf len n
      (loadSegments elf n (elf + ePhoff m elf) { mem := m, headers := [] }) := by
  induction n with
  | zero => exact ⟨fun _ _ => rfl, fun i hi => absurd hi (by omega), fun _ _ => rfl, rfl⟩
  | succ n ih =>
    rw [loadSegments_succ, ← headerAddr_eq himg]
    exact loadSegment_inv himg (by omega) (ih (by omega))

omit himg in
/-- The memory after the whole loop is the one that loading means. -/
theorem LoadInv.loads {s : LoadState} (hinv : LoadInv m elf len (ePhnum m elf).toNat s) :
    Loads m elf { entry := eEntry m elf, mem := s.mem, headers := s.headers } :=
  ⟨hinv.last, hinv.frame, hinv.headers, rfl⟩

/-- The entry point is read when the segments are loaded, from the image as it was. -/
theorem loadelf_eq :
    let s := loadSegments elf (ePhnum m elf).toNat (elf + ePhoff m elf) { mem := m, headers := [] }
    loadelf m elf = .ok { entry := eEntry m elf, mem := s.mem, headers := s.headers } := by
  intro s
  have hinv := loadSegments_inv himg (le_refl _)
  have hentry : eEntry s.mem elf = eEntry m elf := by
    refine be32_congr fun k hk => ?_
    have haddr : elf + 24#32 + BitVec.ofNat 32 k = elf + BitVec.ofNat 32 (24 + k) := by
      rw [BitVec.ofNat_add, BitVec.add_assoc]
    have hehdr := himg.ehdr
    rw [haddr]
    exact hinv.image _ (inRange_add (by omega))
  have hok : memcmp elfIdent m elf = 0 := memcmp_eq_zero.mpr himg.ident
  rw [loadelf, if_neg (not_not.mpr hok), if_neg himg.phoff, ← hentry]

end Loop

/-- **Loading an image**: `loadelf` returns the entry point, with every byte of memory that of the
last segment to load that contains it, or unchanged. -/
theorem loadelf_loads {m : Mem32} {elf : Addr} {len : ℕ} (himg : Image m elf len) :
    ∃ r, loadelf m elf = .ok r ∧ Loads m elf r :=
  ⟨_, loadelf_eq himg, (loadSegments_inv himg (le_refl _)).loads⟩

/-- An ELF header, a segment of 8 bytes for `0x8000`, a note, and the bytes of the segment. -/
def smallElf : List Byte :=
  [0x7f#8, 0x45#8, 0x4c#8, 0x46#8, 1#8, 2#8, 1#8, 0#8, 0#8, 0#8, 0#8, 0#8, 0#8, 0#8, 0#8, 0#8,
    0#8, 2#8, 0#8, 0x28#8, 0#8, 0#8, 0#8, 1#8, 0#8, 0#8, 0x80#8, 4#8, 0#8, 0#8, 0#8, 0x34#8,
    0#8, 0#8, 0#8, 0#8, 0#8, 0#8, 0#8, 0#8, 0#8, 0x34#8, 0#8, 0x20#8, 0#8, 2#8, 0#8, 0#8,
    0#8, 0#8, 0#8, 0#8,
    0#8, 0#8, 0#8, 1#8, 0#8, 0#8, 0#8, 0x74#8, 0#8, 0#8, 0x80#8, 0#8, 0#8, 0#8, 0x80#8, 0#8,
    0#8, 0#8, 0#8, 8#8, 0#8, 0#8, 0#8, 8#8, 0#8, 0#8, 0#8, 5#8, 0#8, 0#8, 0#8, 4#8,
    0#8, 0#8, 0#8, 4#8, 0#8, 0#8, 0#8, 0x74#8, 0#8, 0#8, 0x10#8, 0#8, 0#8, 0#8, 0x10#8, 0#8,
    0#8, 0#8, 0#8, 8#8, 0#8, 0#8, 0#8, 8#8, 0#8, 0#8, 0#8, 4#8, 0#8, 0#8, 0#8, 4#8,
    0xe3#8, 0xa0#8, 0#8, 1#8, 0xe1#8, 0x2f#8, 0xff#8, 0x1e#8]

def smallMem : Mem32 := place (fun _ => 0#8) 0x1000#32 124 fun k => smallElf.getD k 0#8

theorem smallMem_image : Image smallMem 0x1000#32 124 where
  ident := by decide +kernel
  phoff := by decide +kernel
  phentsize := by decide +kernel
  ehdr := by decide
  table := by decide +kernel
  segments := by decide +kernel
  filesz := by decide +kernel
  apart := by
    have hnum : (ePhnum smallMem 0x1000#32).toNat = 2 := by decide +kernel
    have hpaddr : (header smallMem 0x1000#32 0).paddr = 0x8000#32 := by decide +kernel
    have hfilesz : (header smallMem 0x1000#32 0).filesz = 8#32 := by decide +kernel
    have hnote : (header smallMem 0x1000#32 1).type ≠ ptLoad := by decide +kernel
    intro i hi x hc hin
    rw [hnum] at hi
    interval_cases i
    · have hrange := hc.2
      rw [hpaddr, hfilesz, InRange, BitVec.toNat_sub] at hrange
      rw [InRange, BitVec.toNat_sub] at hin
      simp only [BitVec.toNat_ofNat] at hrange hin
      omega
    · exact hnote hc.1

theorem loadelf_loads_small : ∃ r, loadelf smallMem 0x1000#32 = .ok r ∧ Loads smallMem 0x1000#32 r :=
  loadelf_loads smallMem_image

end VwiiNandTools.Elf
