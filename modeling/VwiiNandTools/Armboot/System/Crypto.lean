import VwiiNandTools.Lib.ByteMemory
import VwiiNandTools.Lib.Cbc
import VwiiNandTools.Armboot.System.Cache

/-!
# The AES driver

`aes_decrypt` of `system/crypto.c`.  The engine is a parameter (`AesEngine`): given the addresses of
two buffers as it sees them, a count of blocks and the block to chain from, it decrypts the blocks.
`aesDecrypt` gives it pieces of at most 128 blocks, all but the first with the keep-IV bit, and
`aesDecrypt_cbc` says that the pieces come to one decryption of the whole buffer.
-/

namespace VwiiNandTools.Crypto

open ByteMemory Cache Cbc

/-! ## Blocks in memory -/

abbrev Block := Fin 16 → Byte

instance : XorOp Block := ⟨fun a b i => a i ^^^ b i⟩

def blockAt (m : Mem) (a : ℕ) : Block := fun i => m (a + i)

/-- The `n` blocks from `a` on. -/
def blocksAt (m : Mem) (a n : ℕ) : List Block := (List.range n).map fun i => blockAt m (a + 16 * i)

/-- Byte `k` of a list of blocks. -/
def blockByte (bs : List Block) (k : ℕ) : Byte :=
  bs.getD (k / 16) 0 ⟨k % 16, Nat.mod_lt _ (by decide)⟩

/-! ## The engine -/

/-- The device at `AES_CMD`: the block cipher, the byte the device finds at a bus address, and a run
over `n` blocks from one bus address to another, which leaves the block to chain the next run
from. -/
structure AesEngine where
  decrypt : Block → Block → Block
  sees : BitVec 32 → ℕ
  run : (key chain : Block) → (src dst : BitVec 32) → (n : ℕ) → Mem → Mem × Block
  run_spec : ∀ key chain src dst n m p q, 1 ≤ n → n ≤ 128 →
    (∀ k < 16 * n, sees (src + BitVec.ofNat 32 k) = p + k) →
    (∀ k < 16 * n, sees (dst + BitVec.ofNat 32 k) = q + k) →
    p = q ∨ Apart p (16 * n) q (16 * n) →
      run key chain src dst n m =
        (fill m q (16 * n) (blockByte (cbcDecrypt (decrypt key) chain (blocksAt m p n))),
          nextChain chain (blocksAt m p n))

/-! ## The source -/

/-- What `aes_decrypt` does beside the writes of `AES_SRC` and `AES_DEST`. -/
inductive AesCall
  | dcFlushrange (start size : BitVec 32)
  | dcInvalidaterange (start size : BitVec 32)
  | ahbFlushTo (dev : AhbDev)
  | ahbFlushFrom (dev : AhbDev)
  | command (src dst : BitVec 32) (word : BitVec 32)

/-- The registers of the engine, the block it processed last, the memory, and what was done. -/
structure AesState where
  key : Block
  iv : Block
  last : Block
  aesSrc : BitVec 32
  aesDest : BitVec 32
  memmirr : BitVec 32
  mem : Mem
  calls : List AesCall

def aesCmdDecrypt : BitVec 16 := 0x9800#16

/-- `dma_addr` of `memory.c`. -/
def dmaAddr (memmirr addr : BitVec 32) : BitVec 32 :=
  if addr >>> 20 = 0xfff#32 ∨ addr >>> 20 = 0x0d4#32 ∨ addr >>> 20 = 0x0dc#32 then
    let addr := if memmirr &&& 0x20#32 ≠ 0#32 then addr ^^^ 0x10000#32 else addr
    addr &&& 0x0001FFFF#32 ||| 0x0d400000#32
  else addr

/-- The count of blocks, less one, in a word for `AES_CMD`. -/
def wordBlocks (word : BitVec 32) : ℕ := (word &&& 0x7f#32).toNat + 1

/-- The keep-IV bit of a word for `AES_CMD`. -/
def wordKeepsIv (word : BitVec 32) : Bool := word &&& 0x1000#32 ≠ 0#32

section Source

variable (engine : AesEngine)

/-- A write of `AES_CMD`, and the loop until the engine is done. -/
def writeCommand (word : BitVec 32) (s : AesState) : AesState :=
  let chain := if wordKeepsIv word then s.last else s.iv
  let (mem, last) := engine.run s.key chain s.aesSrc s.aesDest (wordBlocks word) s.mem
  { s with mem := mem, last := last, calls := s.calls ++ [.command s.aesSrc s.aesDest word] }

def aesCommand (cmd : BitVec 16) (ivKeep : BitVec 8) (blocks : BitVec 32) (s : AesState) :
    AesState :=
  let blocks := if blocks ≠ 0#32 then blocks - 1#32 else blocks
  writeCommand engine (cmd.setWidth 32 <<< 16 |||
    (if ivKeep ≠ 0#8 then 0x1000#32 else 0#32) ||| blocks &&& 0x7f#32) s

/-- `this_blocks`, compared as an `int`. -/
def thisBlocks (blocks : BitVec 32) : BitVec 32 :=
  if (0x80#32).slt blocks then 0x80#32 else blocks

/-- One pass of the loop of `aes_decrypt`. -/
def decryptChunk (src dst blocks : BitVec 32) (keepIv : BitVec 8) (s : AesState) : AesState :=
  let s := { s with
    aesSrc := dmaAddr s.memmirr src
    aesDest := dmaAddr s.memmirr dst
    calls := s.calls ++ [.dcFlushrange src (blocks * 16#32), .dcInvalidaterange dst (blocks * 16#32),
      .ahbFlushTo .aes] }
  let s := aesCommand engine aesCmdDecrypt keepIv (thisBlocks blocks) s
  { s with calls := s.calls ++ [.ahbFlushFrom .aes, .ahbFlushTo .starlet] }

theorem thisBlocks_sub_lt {blocks : BitVec 32} (h : 0#32 < blocks) :
    (blocks - thisBlocks blocks).toNat < blocks.toNat := by
  have hpos : 0 < blocks.toNat := BitVec.lt_def.mp h
  have hlt := blocks.isLt
  unfold thisBlocks
  split
  · rename_i hslt
    rw [BitVec.slt, decide_eq_true_eq, BitVec.toInt_eq_toNat_cond, BitVec.toInt_eq_toNat_cond] at hslt
    rw [BitVec.toNat_sub]
    simp only [BitVec.toNat_ofNat] at *
    omega
  · rw [BitVec.sub_self]
    exact hpos

def aesDecrypt (src dst blocks : BitVec 32) (keepIv : BitVec 8) (s : AesState) : AesState :=
  if 0#32 < blocks then
    aesDecrypt (src + thisBlocks blocks <<< 4) (dst + thisBlocks blocks <<< 4)
      (blocks - thisBlocks blocks) 1#8 (decryptChunk engine src dst blocks keepIv s)
  else s
termination_by blocks.toNat
decreasing_by exact thisBlocks_sub_lt ‹_›

end Source

/-! ## What it is for -/

/-- The block that a call chains its first block from. -/
def firstChain (keepIv : BitVec 8) (s : AesState) : Block := if keepIv ≠ 0#8 then s.last else s.iv

/-- The device finds the bytes of the `n` blocks at `p` where `dma_addr` says. -/
def DmaView (engine : AesEngine) (memmirr p : BitVec 32) (n : ℕ) : Prop :=
  ∀ x k, x + k < 16 * n → k < 2048 →
    engine.sees (dmaAddr memmirr (p + BitVec.ofNat 32 x) + BitVec.ofNat 32 k) = p.toNat + (x + k)

/-- The commands among the calls: `AES_SRC`, `AES_DEST` and the word. -/
def commands (calls : List AesCall) : List (BitVec 32 × BitVec 32 × BitVec 32) :=
  calls.filterMap fun
    | .command src dst word => some (src, dst, word)
    | _ => none

/-- Decryption commands that work on the blocks from `o` up to `e`, each once and in order. -/
def InOrder (memmirr src dst : BitVec 32) (o : ℕ) :
    List (BitVec 32 × BitVec 32 × BitVec 32) → ℕ → Prop
  | [], e => o = e
  | (a, b, word) :: cs, e =>
    a = dmaAddr memmirr (src + BitVec.ofNat 32 (16 * o)) ∧
      b = dmaAddr memmirr (dst + BitVec.ofNat 32 (16 * o)) ∧
      (word >>> 16).setWidth 16 = aesCmdDecrypt ∧ 1 ≤ wordBlocks word ∧ wordBlocks word ≤ 128 ∧
      InOrder memmirr src dst (o + wordBlocks word) cs e

/-- One decryption of the whole buffer. -/
structure DecryptsWhole (engine : AesEngine) (src dst blocks : BitVec 32) (keepIv : BitVec 8)
    (s s' : AesState) : Prop where
  inOrder : ∃ new, s'.calls = s.calls ++ new ∧
    InOrder s.memmirr src dst 0 (commands new) blocks.toNat
  plaintext : blocksAt s'.mem dst.toNat blocks.toNat =
    cbcDecrypt (engine.decrypt s.key) (firstChain keepIv s) (blocksAt s.mem src.toNat blocks.toNat)
  frame : ∀ x, ¬(dst.toNat ≤ x ∧ x < dst.toNat + 16 * blocks.toNat) → s'.mem x = s.mem x
  last : blocks ≠ 0#32 →
    s'.last = nextChain (firstChain keepIv s) (blocksAt s.mem src.toNat blocks.toNat)
  none : blocks = 0#32 → s' = s

/-- The buffers of a call: within 2 GiB and the address space, the same or apart, and where the
device finds them. -/
structure Buffers (engine : AesEngine) (memmirr src dst blocks : BitVec 32) : Prop where
  size : 16 * blocks.toNat ≤ 2 ^ 31
  srcEnd : src.toNat + 16 * blocks.toNat ≤ 2 ^ 32
  dstEnd : dst.toNat + 16 * blocks.toNat ≤ 2 ^ 32
  overlap : src.toNat = dst.toNat ∨ Apart src.toNat (16 * blocks.toNat) dst.toNat (16 * blocks.toNat)
  srcView : DmaView engine memmirr src blocks.toNat
  dstView : DmaView engine memmirr dst blocks.toNat

/-! ## Blocks -/

@[simp] theorem length_blocksAt (m : Mem) (a n : ℕ) : (blocksAt m a n).length = n := by
  simp [blocksAt]

@[simp] theorem getElem_blocksAt (m : Mem) (a n : ℕ) {i : ℕ} (h : i < (blocksAt m a n).length) :
    (blocksAt m a n)[i] = blockAt m (a + 16 * i) := by
  simp [blocksAt]

theorem blocksAt_add (m : Mem) (a n k : ℕ) :
    blocksAt m a (n + k) = blocksAt m a n ++ blocksAt m (a + 16 * n) k := by
  simp only [blocksAt, List.range_add, List.map_append, List.map_map, List.append_cancel_left_eq]
  apply List.map_congr_left
  intro j _
  simp [Nat.mul_add, Nat.add_assoc]

theorem blocksAt_congr {m m' : Mem} {a n : ℕ} (h : Same m m' a (16 * n)) :
    blocksAt m a n = blocksAt m' a n := by
  apply List.map_congr_left
  intro i hi
  have hlt := List.mem_range.mp hi
  funext t
  have ht := t.isLt
  exact h _ (by omega) (by omega)

theorem blocksAt_fill (m : Mem) (q : ℕ) (bs : List Block) :
    blocksAt (fill m q (16 * bs.length) (blockByte bs)) q bs.length = bs := by
  apply List.ext_getElem (length_blocksAt _ _ _)
  intro i hi hi'
  funext t
  have ht := t.isLt
  have hdiv : (16 * i + t) / 16 = i := by omega
  have hmod : (16 * i + t) % 16 = t := by omega
  rw [getElem_blocksAt, blockAt, Nat.add_assoc, fill_at _ _ _ (by omega)]
  simp only [blockByte, hdiv, hmod, List.getD_eq_getElem?_getD, List.getElem?_eq_getElem hi',
    Option.getD_some]

/-! ## One command -/

theorem thisBlocks_toNat {blocks : BitVec 32} (h : blocks.toNat < 2 ^ 31) :
    (thisBlocks blocks).toNat = min 128 blocks.toNat := by
  have hslt : (0x80#32).slt blocks = true ↔ 128 < blocks.toNat := by
    rw [BitVec.slt, decide_eq_true_eq, BitVec.toInt_eq_toNat_cond, BitVec.toInt_eq_toNat_cond]
    simp only [BitVec.toNat_ofNat]
    omega
  unfold thisBlocks
  split
  · rename_i h128
    have := hslt.mp h128
    simp only [BitVec.toNat_ofNat]
    omega
  · rename_i h128
    have hle : ¬128 < blocks.toNat := fun hlt => h128 (hslt.mpr hlt)
    omega

/-- The word that `aes_command` writes for `k + 1` blocks. -/
def commandWord (keep : Bool) (k : BitVec 7) : BitVec 32 :=
  aesCmdDecrypt.setWidth 32 <<< 16 ||| (if keep then 0x1000#32 else 0#32) ||| k.setWidth 32

theorem commandWord_fields : ∀ (keep : Bool) (k : BitVec 7),
    wordBlocks (commandWord keep k) = k.toNat + 1 ∧ wordKeepsIv (commandWord keep k) = keep ∧
      (commandWord keep k >>> 16).setWidth 16 = aesCmdDecrypt := by
  decide +kernel

/-- For 1 to 128 blocks, `aes_command` writes the count less one. -/
theorem aesCommand_eq (engine : AesEngine) (keepIv : BitVec 8) {n : BitVec 32} (hpos : 1 ≤ n.toNat)
    (hle : n.toNat ≤ 128) (s : AesState) : ∃ k : BitVec 7, k.toNat + 1 = n.toNat ∧
      aesCommand engine aesCmdDecrypt keepIv n s =
        writeCommand engine (commandWord (keepIv ≠ 0#8) k) s := by
  have hne : n ≠ 0#32 := by
    rintro rfl
    exact absurd hpos (by decide)
  have hsub : (n - 1#32).toNat = n.toNat - 1 := by
    rw [BitVec.toNat_sub, BitVec.toNat_ofNat]
    omega
  refine ⟨(n - 1#32).setWidth 7, ?_, ?_⟩
  · rw [BitVec.toNat_setWidth, hsub]
    omega
  · have hk : n - 1#32 &&& 0x7f#32 = ((n - 1#32).setWidth 7).setWidth 32 := by
      apply BitVec.eq_of_toNat_eq
      rw [BitVec.toNat_and, BitVec.toNat_setWidth, BitVec.toNat_setWidth]
      refine (Nat.and_two_pow_sub_one_eq_mod _ 7).trans (Nat.mod_eq_of_lt ?_).symm
      exact lt_trans (Nat.mod_lt _ (by decide)) (by decide)
    simp only [aesCommand, if_pos hne, hk, commandWord, decide_eq_true_eq]

/-- What one pass does for the first `n` blocks. -/
structure ChunkDone (engine : AesEngine) (src dst : BitVec 32) (n : ℕ) (keepIv : BitVec 8)
    (s s' : AesState) : Prop where
  mem : s'.mem = fill s.mem dst.toNat (16 * n)
    (blockByte (cbcDecrypt (engine.decrypt s.key) (firstChain keepIv s) (blocksAt s.mem src.toNat n)))
  last : s'.last = nextChain (firstChain keepIv s) (blocksAt s.mem src.toNat n)
  key : s'.key = s.key
  memmirr : s'.memmirr = s.memmirr
  calls : ∃ new word, s'.calls = s.calls ++ new ∧
    commands new = [(dmaAddr s.memmirr src, dmaAddr s.memmirr dst, word)] ∧
    wordBlocks word = n ∧ (word >>> 16).setWidth 16 = aesCmdDecrypt

section Runs

variable {engine : AesEngine} {src dst blocks : BitVec 32}

theorem Buffers.sees_src {memmirr : BitVec 32} (hb : Buffers engine memmirr src dst blocks) {n : ℕ}
    (hn : n ≤ 128) (hle : n ≤ blocks.toNat) :
    ∀ k < 16 * n, engine.sees (dmaAddr memmirr src + BitVec.ofNat 32 k) = src.toNat + k := by
  intro k hk
  have h := hb.srcView 0 k (by omega) (by omega)
  simpa using h

theorem Buffers.sees_dst {memmirr : BitVec 32} (hb : Buffers engine memmirr src dst blocks) {n : ℕ}
    (hn : n ≤ 128) (hle : n ≤ blocks.toNat) :
    ∀ k < 16 * n, engine.sees (dmaAddr memmirr dst + BitVec.ofNat 32 k) = dst.toNat + k := by
  intro k hk
  have h := hb.dstView 0 k (by omega) (by omega)
  simpa using h

theorem Buffers.overlap_take {memmirr : BitVec 32} (hb : Buffers engine memmirr src dst blocks) {n : ℕ}
    (hle : n ≤ blocks.toNat) :
    src.toNat = dst.toNat ∨ Apart src.toNat (16 * n) dst.toNat (16 * n) := by
  rcases hb.overlap with h | h
  · exact Or.inl h
  · exact Or.inr (h.sub (le_refl _) (by omega) (le_refl _) (by omega))

theorem decryptChunk_done {s : AesState} (keepIv : BitVec 8)
    (hb : Buffers engine s.memmirr src dst blocks) (hpos : 0 < blocks.toNat) :
    ChunkDone engine src dst (min 128 blocks.toNat) keepIv s
      (decryptChunk engine src dst blocks keepIv s) := by
  have hsize := hb.size
  have hn : (thisBlocks blocks).toNat = min 128 blocks.toNat := thisBlocks_toNat (by omega)
  have hn1 : 1 ≤ min 128 blocks.toNat := by omega
  have hn128 : min 128 blocks.toNat ≤ 128 := by omega
  have hnle : min 128 blocks.toNat ≤ blocks.toNat := by omega
  obtain ⟨k, hk, hcmd⟩ := aesCommand_eq engine keepIv (n := thisBlocks blocks) (by omega) (by omega)
    { s with
      aesSrc := dmaAddr s.memmirr src
      aesDest := dmaAddr s.memmirr dst
      calls := s.calls ++ [.dcFlushrange src (blocks * 16#32),
        .dcInvalidaterange dst (blocks * 16#32), .ahbFlushTo .aes] }
  obtain ⟨hblocks, hkeep, hop⟩ := commandWord_fields (keepIv ≠ 0#8) k
  rw [hk, hn] at hblocks
  have hrun := engine.run_spec s.key (firstChain keepIv s) (dmaAddr s.memmirr src)
    (dmaAddr s.memmirr dst) _ s.mem src.toNat dst.toNat hn1 hn128 (hb.sees_src hn128 hnle)
    (hb.sees_dst hn128 hnle) (hb.overlap_take hnle)
  have hchain : (if (decide (keepIv ≠ 0#8)) = true then s.last else s.iv) = firstChain keepIv s := by
    simp only [decide_eq_true_eq, firstChain]
  simp only [decryptChunk, hcmd, writeCommand, hblocks, hkeep, hchain, hrun]
  refine ⟨rfl, rfl, rfl, rfl, [.dcFlushrange src (blocks * 16#32),
    .dcInvalidaterange dst (blocks * 16#32), .ahbFlushTo .aes,
    .command (dmaAddr s.memmirr src) (dmaAddr s.memmirr dst) (commandWord (keepIv ≠ 0#8) k),
    .ahbFlushFrom .aes, .ahbFlushTo .starlet], _, ?_, rfl, hblocks, hop⟩
  simp only [List.append_assoc, List.cons_append, List.nil_append]

/-- The commands of the rest of a buffer, seen from its beginning. -/
theorem InOrder.shift {memmirr : BitVec 32} {n o e : ℕ}
    {cs : List (BitVec 32 × BitVec 32 × BitVec 32)}
    (h : InOrder memmirr (src + BitVec.ofNat 32 (16 * n)) (dst + BitVec.ofNat 32 (16 * n)) o cs e) :
    InOrder memmirr src dst (n + o) cs (n + e) := by
  induction cs generalizing o with
  | nil => exact congrArg (n + ·) h
  | cons c cs ih =>
    obtain ⟨hsrc, hdst, hop, hlo, hhi, hrest⟩ := h
    rw [BitVec.add_assoc, ← BitVec.ofNat_add, ← Nat.mul_add] at hsrc hdst
    exact ⟨hsrc, hdst, hop, hlo, hhi, by rw [Nat.add_assoc]; exact ih hrest⟩

theorem DecryptsWhole.of_chunk {keepIv : BitVec 8} {s s' : AesState} (hpos : 0 < blocks.toNat)
    (hle : blocks.toNat ≤ 128) (hc : ChunkDone engine src dst blocks.toNat keepIv s s') :
    DecryptsWhole engine src dst blocks keepIv s s' where
  inOrder := by
    obtain ⟨new, word, hnew, hcmd, hblocks, hop⟩ := hc.calls
    refine ⟨new, hnew, ?_⟩
    rw [hcmd]
    exact ⟨by simp, by simp, hop, by omega, by omega, by rw [InOrder]; omega⟩
  plaintext := by
    have hlen : (cbcDecrypt (engine.decrypt s.key) (firstChain keepIv s)
        (blocksAt s.mem src.toNat blocks.toNat)).length = blocks.toNat := by simp
    have hfill := blocksAt_fill s.mem dst.toNat (cbcDecrypt (engine.decrypt s.key)
      (firstChain keepIv s) (blocksAt s.mem src.toNat blocks.toNat))
    rw [hlen] at hfill
    rw [hc.mem, hfill]
  frame x hx := by
    rw [hc.mem]
    exact fill_other _ hx
  last _ := hc.last
  none h := by
    rw [h] at hpos
    exact absurd hpos (by decide)

theorem DecryptsWhole.cons {keepIv : BitVec 8} {s t s' : AesState} {rest : BitVec 32} {n : ℕ}
    (hb : Buffers engine s.memmirr src dst blocks) (hn : 1 ≤ n) (hn' : n ≤ 128)
    (hsum : n + rest.toNat = blocks.toNat) (hpos : 0 < rest.toNat)
    (hc : ChunkDone engine src dst n keepIv s t)
    (h : DecryptsWhole engine (src + BitVec.ofNat 32 (16 * n)) (dst + BitVec.ofNat 32 (16 * n)) rest
      1#8 t s') :
    DecryptsWhole engine src dst blocks keepIv s s' := by
  have hend := hb.srcEnd
  have hend' := hb.dstEnd
  have hsrc : (src + BitVec.ofNat 32 (16 * n)).toNat = src.toNat + 16 * n := by
    rw [BitVec.toNat_add, BitVec.toNat_ofNat]
    omega
  have hdst : (dst + BitVec.ofNat 32 (16 * n)).toNat = dst.toNat + 16 * n := by
    rw [BitVec.toNat_add, BitVec.toNat_ofNat]
    omega
  obtain ⟨⟨new2, hnew2, horder⟩, hplain, hframe, hlast, -⟩ := h
  rw [hsrc] at hplain hlast
  rw [hdst] at hplain hframe
  rw [hc.memmirr] at horder
  -- the pass has not written to the rest of the source
  have hsame : blocksAt t.mem (src.toNat + 16 * n) rest.toNat =
      blocksAt s.mem (src.toNat + 16 * n) rest.toNat := by
    rw [hc.mem]
    refine blocksAt_congr (fill_frame _ ?_)
    rcases hb.overlap with heq | hap
    · exact Or.inl (by omega)
    · exact (hap.symm.sub (le_refl _) (by omega) (by omega) (by omega))
  have hchain : firstChain 1#8 t = nextChain (firstChain keepIv s) (blocksAt s.mem src.toNat n) := by
    rw [firstChain, if_pos (by decide), hc.last]
  have hsplit : blocksAt s.mem src.toNat blocks.toNat =
      blocksAt s.mem src.toNat n ++ blocksAt s.mem (src.toNat + 16 * n) rest.toNat := by
    rw [← hsum, blocksAt_add]
  have hlen : (cbcDecrypt (engine.decrypt s.key) (firstChain keepIv s)
      (blocksAt s.mem src.toNat n)).length = n := by simp
  have hfirst : blocksAt s'.mem dst.toNat n =
      cbcDecrypt (engine.decrypt s.key) (firstChain keepIv s) (blocksAt s.mem src.toNat n) := by
    have hfill := blocksAt_fill s.mem dst.toNat (cbcDecrypt (engine.decrypt s.key)
      (firstChain keepIv s) (blocksAt s.mem src.toNat n))
    rw [hlen, ← hc.mem] at hfill
    rw [← hfill]
    exact blocksAt_congr fun x h1 h2 => hframe x (by omega)
  refine ⟨?_, ?_, ?_, ?_, ?_⟩
  · obtain ⟨new1, word, hnew1, hcmd1, hblocks, hop⟩ := hc.calls
    refine ⟨new1 ++ new2, by rw [hnew2, hnew1, List.append_assoc], ?_⟩
    have happ : commands (new1 ++ new2) =
        (dmaAddr s.memmirr src, dmaAddr s.memmirr dst, word) :: commands new2 := by
      rw [commands, List.filterMap_append, ← commands, ← commands, hcmd1]
      rfl
    rw [happ, ← hsum]
    exact ⟨by simp, by simp, hop, by omega, by omega, by
      rw [hblocks, Nat.zero_add]
      exact horder.shift⟩
  · rw [hsplit, cbcDecrypt_append, ← hfirst, ← hchain, ← hsame, ← hc.key, ← hplain, ← hsum,
      blocksAt_add]
  · intro x hx
    rw [hframe x (by omega), hc.mem]
    exact fill_other _ (by omega)
  · intro _
    have hne : rest ≠ 0#32 := by
      rintro rfl
      exact absurd hpos (by decide)
    rw [hlast hne, hsplit, nextChain_append, hchain, hsame]
  · rintro rfl
    have hzero : n + rest.toNat = 0 := hsum
    omega

theorem Buffers.drop {memmirr rest : BitVec 32} {n : ℕ}
    (hb : Buffers engine memmirr src dst blocks) (hsum : n + rest.toNat = blocks.toNat)
    (hpos : 0 < rest.toNat) :
    Buffers engine memmirr (src + BitVec.ofNat 32 (16 * n)) (dst + BitVec.ofNat 32 (16 * n)) rest := by
  have hsize := hb.size
  have hend := hb.srcEnd
  have hend' := hb.dstEnd
  have hto (p : BitVec 32) (hp : p.toNat + 16 * blocks.toNat ≤ 2 ^ 32) :
      (p + BitVec.ofNat 32 (16 * n)).toNat = p.toNat + 16 * n := by
    rw [BitVec.toNat_add, BitVec.toNat_ofNat]
    omega
  have hview (p : BitVec 32) (hp : p.toNat + 16 * blocks.toNat ≤ 2 ^ 32)
      (hv : DmaView engine memmirr p blocks.toNat) :
      DmaView engine memmirr (p + BitVec.ofNat 32 (16 * n)) rest.toNat := by
    intro x k hxk hk
    have h := hv (16 * n + x) k (by omega) hk
    rw [BitVec.ofNat_add, ← BitVec.add_assoc] at h
    rw [h, hto p hp]
    omega
  refine ⟨by omega, ?_, ?_, ?_, hview src hend hb.srcView, hview dst hend' hb.dstView⟩
  · rw [hto src hend]
    omega
  · rw [hto dst hend']
    omega
  · rw [hto src hend, hto dst hend']
    rcases hb.overlap with heq | hap
    · exact Or.inl (by omega)
    · exact Or.inr (hap.sub (by omega) (by omega) (by omega) (by omega))

/-- **`aes_decrypt` is one decryption of the whole buffer**, in commands of 1 to 128 blocks that
cover it in order. -/
theorem aesDecrypt_cbc (keepIv : BitVec 8) (s : AesState)
    (hb : Buffers engine s.memmirr src dst blocks) :
    DecryptsWhole engine src dst blocks keepIv s (aesDecrypt engine src dst blocks keepIv s) := by
  fun_induction aesDecrypt engine src dst blocks keepIv s with
  | case1 src dst blocks keepIv s hlt ih =>
    have hpos : 0 < blocks.toNat := BitVec.lt_def.mp hlt
    have hsize := hb.size
    have hc := decryptChunk_done keepIv hb hpos
    have hn : (thisBlocks blocks).toNat = min 128 blocks.toNat := thisBlocks_toNat (by omega)
    have hrest : min 128 blocks.toNat + (blocks - thisBlocks blocks).toNat = blocks.toNat := by
      rw [BitVec.toNat_sub, hn]
      omega
    by_cases hz : blocks - thisBlocks blocks = 0#32
    · rw [hz, BitVec.toNat_ofNat] at hrest
      have hall : min 128 blocks.toNat = blocks.toNat := by omega
      rw [hz, aesDecrypt, if_neg (by decide)]
      rw [hall] at hc
      exact .of_chunk hpos (by omega) hc
    · have hpos' : 0 < (blocks - thisBlocks blocks).toNat :=
        Nat.pos_of_ne_zero fun h => hz (BitVec.eq_of_toNat_eq h)
      have hshift : thisBlocks blocks <<< 4 = BitVec.ofNat 32 (16 * min 128 blocks.toNat) := by
        apply BitVec.eq_of_toNat_eq
        rw [BitVec.toNat_shiftLeft, hn, BitVec.toNat_ofNat, Nat.shiftLeft_eq, Nat.mul_comm]
      rw [hshift] at ih ⊢
      refine .cons hb (by omega) (by omega) hrest hpos' hc (ih ?_)
      rw [hc.memmirr]
      exact hb.drop hrest hpos'
  | case2 src dst blocks keepIv s hle =>
    have hz : blocks = 0#32 := by
      apply BitVec.eq_of_toNat_eq
      have := fun h => hle (BitVec.lt_def.mpr h)
      simpa using this
    subst hz
    refine ⟨⟨[], by simp, rfl⟩, rfl, fun _ _ => rfl, fun h => absurd rfl h, fun _ => rfl⟩

end Runs

/-- An engine that sees the memory as it is, with a block cipher that adds the key. -/
def plainEngine : AesEngine where
  decrypt key c := c ^^^ key
  sees a := a.toNat
  run key chain src dst n m :=
    (fill m dst.toNat (16 * n)
      (blockByte (cbcDecrypt (· ^^^ key) chain (blocksAt m src.toNat n))),
      nextChain chain (blocksAt m src.toNat n))
  run_spec := by
    intro key chain src dst n m p q hn _ hp hq _
    have hp0 := hp 0 (by omega)
    have hq0 := hq 0 (by omega)
    simp only [BitVec.add_zero, Nat.add_zero] at hp0 hq0
    rw [hp0, hq0]

def idleState : AesState where
  key := fun _ => 1#8
  iv := fun _ => 2#8
  last := fun _ => 3#8
  aesSrc := 0#32
  aesDest := 0#32
  memmirr := 0#32
  mem := fun x => BitVec.ofNat 8 x
  calls := []

theorem dmaView_plainEngine {n : ℕ} (hn : n ≤ 300) : DmaView plainEngine 0#32 0x10000000#32 n := by
  intro x k hxk _
  have hx : (0x10000000#32 + BitVec.ofNat 32 x).toNat = 0x10000000 + x := by
    rw [BitVec.toNat_add, BitVec.toNat_ofNat, BitVec.toNat_ofNat]
    omega
  have hshift : (0x10000000#32 + BitVec.ofNat 32 x) >>> 20 = 0x100#32 := by
    apply BitVec.eq_of_toNat_eq
    rw [BitVec.toNat_ushiftRight, hx, Nat.shiftRight_eq_div_pow, BitVec.toNat_ofNat]
    omega
  rw [dmaAddr, if_neg (by rw [hshift]; decide)]
  simp only [plainEngine]
  rw [BitVec.toNat_add, hx, BitVec.toNat_ofNat, BitVec.toNat_ofNat]
  omega

/-- A buffer of 300 blocks that is decrypted in place. -/
theorem aesDecrypt_cbc_inPlace :
    DecryptsWhole plainEngine 0x10000000#32 0x10000000#32 300#32 0#8 idleState
      (aesDecrypt plainEngine 0x10000000#32 0x10000000#32 300#32 0#8 idleState) :=
  aesDecrypt_cbc 0#8 idleState
    ⟨by decide, by decide, by decide, Or.inl rfl, dmaView_plainEngine (by decide),
      dmaView_plainEngine (by decide)⟩

end VwiiNandTools.Crypto
