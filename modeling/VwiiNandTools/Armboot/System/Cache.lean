import Mathlib

/-!
# Cache maintenance

`dc_flushrange` and `dc_invalidaterange` of `system/memory.c` over the loops of `memory_asm.S`.  A
call is the list of operations it performs, line by line.  The loops decrement before they test, so a
count of zero runs `2 ^ 32` times (`dcEntries_eq`), and the count is a signed difference, so it is
right for the ranges below 2 GiB (`rangeCount_toNat`).  `dcRange_exact` says when a call works on the
lines of its range once each and on no other.
-/

namespace VwiiNandTools.Cache

/-! ## The source -/

def linesize : BitVec 32 := 0x20#32

def cachesize : BitVec 32 := 0x4000#32

def alignForward (x align : BitVec 32) : BitVec 32 := (x + align - 1#32) &&& ~~~(align - 1#32)

def alignBackward (x align : BitVec 32) : BitVec 32 := x &&& ~~~(align - 1#32)

inductive AhbDev
  | starlet
  | ahb1
  | nand
  | aes
  | sha1
  | sdhc

/-- What a call does to the cache and the buses. -/
inductive CacheOp
  | irqKill
  | irqRestore
  | invalEntry (addr : BitVec 32)
  | flushEntry (addr : BitVec 32)
  | testClean (line : Option ℕ)
  | drainWriteBuffer
  | ahbFlushFrom (dev : AhbDev)
  | ahbFlushTo (dev : AhbDev)

/-- The loop of `_dc_inval_entries` and `_dc_flush_entries`, with the operation it repeats. -/
def dcEntries (op : BitVec 32 → CacheOp) (r0 r1 : BitVec 32) : List CacheOp :=
  -- `subs` sets the flags that `bne` tests, after the operation
  if r1 - 1#32 = 0#32 then [op r0] else op r0 :: dcEntries op (r0 + 0x20#32) (r1 - 1#32)
termination_by (r1 - 1#32).toNat
decreasing_by
  rename_i h
  have hpos : (r1 - 1#32).toNat ≠ 0 := fun h0 => h (BitVec.eq_of_toNat_eq h0)
  have hlt := (r1 - 1#32).isLt
  generalize r1 - 1#32 = r at hpos hlt
  rw [BitVec.toNat_sub, BitVec.toNat_ofNat]
  omega

def dcInvalEntries : BitVec 32 → BitVec 32 → List CacheOp := dcEntries .invalEntry

def dcFlushEntries : BitVec 32 → BitVec 32 → List CacheOp := dcEntries .flushEntry

/-- The test-and-clean operation of the processor: the dirty line it cleans, of those there are. -/
structure TestClean where
  pick : Finset ℕ → ℕ
  pick_mem : ∀ dirty, dirty ≠ ∅ → pick dirty ∈ dirty

/-- `_dc_flush` with the lines `dirty`. -/
def dcFlush (hw : TestClean) (dirty : Finset ℕ) : List CacheOp :=
  if _h : dirty = ∅ then [.testClean none]
  else .testClean (some (hw.pick dirty)) :: dcFlush hw (dirty.erase (hw.pick dirty))
termination_by dirty.card
decreasing_by exact Finset.card_erase_lt_of_mem (hw.pick_mem dirty _h)

/-- `(end - start) / LINESIZE` with the two aligned pointers. -/
def rangeCount (start size : BitVec 32) : BitVec 32 :=
  (alignForward (start + size) linesize - alignBackward start linesize).sdiv linesize

def dcFlushrange (hw : TestClean) (dirty : Finset ℕ) (start size : BitVec 32) : List CacheOp :=
  [.irqKill] ++
    (if size > cachesize then dcFlush hw dirty
      else dcFlushEntries (alignBackward start linesize) (rangeCount start size)) ++
    [.drainWriteBuffer, .ahbFlushFrom .ahb1, .irqRestore]

def dcInvalidaterange (start size : BitVec 32) : List CacheOp :=
  [.irqKill] ++ dcInvalEntries (alignBackward start linesize) (rangeCount start size) ++
    [.ahbFlushTo .starlet, .irqRestore]

/-! ## What a call is for -/

/-- The line an operation works on. -/
def CacheOp.line : CacheOp → Option ℕ
  | .invalEntry addr | .flushEntry addr => some (addr.toNat / 32)
  | .testClean line => line
  | .irqKill | .irqRestore | .drainWriteBuffer | .ahbFlushFrom _ | .ahbFlushTo _ => none

def lineOps (ops : List CacheOp) : List ℕ := ops.filterMap CacheOp.line

/-- Line `l` meets `[start, start + size)`. -/
def Meets (start size : BitVec 32) (l : ℕ) : Prop :=
  ∃ x, start.toNat ≤ x ∧ x < start.toNat + size.toNat ∧ x / 32 = l

/-- The lines of the range once each, and no other. -/
structure Covers (start size : BitVec 32) (ops : List CacheOp) : Prop where
  once : ∀ l, Meets start size l → (lineOps ops).count l = 1
  only : ∀ l, ¬Meets start size l → (lineOps ops).count l = 0

/-- The dirty lines that none of the operations works on. -/
def dirtyAfter (dirty : Finset ℕ) (ops : List CacheOp) : Finset ℕ :=
  dirty.filter fun l => l ∉ lineOps ops

/-- What `dc_flushrange` is to do. -/
structure FlushExact (hw : TestClean) (dirty : Finset ℕ) (start size : BitVec 32) : Prop where
  small : size.toNat ≤ 0x4000 → Covers start size (dcFlushrange hw dirty start size)
  large : 0x4000 < size.toNat → dirtyAfter dirty (dcFlushrange hw dirty start size) = ∅

/-- The number of lines between the two aligned ends. -/
def alignedLines (start size : BitVec 32) : ℕ := (start.toNat % 32 + size.toNat + 31) / 32

/-! ## The loops -/

/-- The loop runs as often as its count says, and `2 ^ 32` times when it is zero. -/
theorem dcEntries_eq (op : BitVec 32 → CacheOp) (r0 r1 : BitVec 32) :
    dcEntries op r0 r1 =
      (List.range ((r1 - 1#32).toNat + 1)).map fun k => op (r0 + BitVec.ofNat 32 (32 * k)) := by
  fun_induction dcEntries op r0 r1 with
  | case1 r0 r1 h => simp [h]
  | case2 r0 r1 h ih =>
    have hsub : (r1 - 1#32 - 1#32).toNat + 1 = (r1 - 1#32).toNat := by
      have hpos : (r1 - 1#32).toNat ≠ 0 := fun h0 => h (BitVec.eq_of_toNat_eq h0)
      have hlt := (r1 - 1#32).isLt
      generalize r1 - 1#32 = r at hpos hlt
      rw [BitVec.toNat_sub, BitVec.toNat_ofNat]
      omega
    rw [ih, hsub, List.range_succ_eq_map, List.map_cons, List.map_map]
    congr 1
    · simp
    · apply List.map_congr_left
      intro k _
      have hk : 32 * (k + 1) = 32 + 32 * k := by omega
      simp only [Function.comp_apply, hk, BitVec.ofNat_add, BitVec.add_assoc]

theorem alignBackward_toNat (x : BitVec 32) :
    (alignBackward x linesize).toNat = x.toNat / 32 * 32 := by
  have hmask : alignBackward x linesize = x >>> 5 <<< 5 := by
    apply BitVec.eq_of_getLsbD_eq
    intro i hi
    simp only [alignBackward, linesize]
    interval_cases i <;> simp
  have hlt := x.isLt
  rw [hmask, BitVec.toNat_shiftLeft, BitVec.toNat_ushiftRight, Nat.shiftRight_eq_div_pow,
    Nat.shiftLeft_eq]
  omega

section Lines

/-- What stands around the loop of a call works on no line. -/
theorem lineOps_around {before body after : List CacheOp} (hb : lineOps before = [])
    (ha : lineOps after = []) : lineOps (before ++ body ++ after) = lineOps body := by
  rw [lineOps] at hb ha ⊢
  rw [List.filterMap_append, List.filterMap_append, hb, ha, List.nil_append, List.append_nil]
  rfl

variable {start size : BitVec 32}

theorem lineOps_entries {op : BitVec 32 → CacheOp} (hop : ∀ a, (op a).line = some (a.toNat / 32)) :
    lineOps (dcEntries op (alignBackward start linesize) (rangeCount start size)) =
      (List.range ((rangeCount start size - 1#32).toNat + 1)).map fun k =>
        (start.toNat / 32 + k) % 2 ^ 27 := by
  have hs := start.isLt
  rw [lineOps, dcEntries_eq, List.filterMap_map]
  have hline : (CacheOp.line ∘ fun k => op (alignBackward start linesize + BitVec.ofNat 32 (32 * k))) =
      fun k => some ((start.toNat / 32 + k) % 2 ^ 27) := by
    funext k
    rw [Function.comp_apply, hop, BitVec.toNat_add, alignBackward_toNat, BitVec.toNat_ofNat]
    congr 1
    omega
  rw [hline]
  exact congrFun List.filterMap_eq_map _

/-- A line that meets a range which is not empty lies between the aligned ends. -/
theorem meets_iff (hpos : 0 < size.toNat) (l : ℕ) :
    Meets start size l ↔ start.toNat / 32 ≤ l ∧ l < start.toNat / 32 + alignedLines start size := by
  rw [alignedLines]
  constructor
  · rintro ⟨x, h1, h2, rfl⟩
    omega
  · rintro ⟨h1, h2⟩
    by_cases h : l = start.toNat / 32
    · exact ⟨start.toNat, le_refl _, by omega, h.symm⟩
    · exact ⟨32 * l, by omega, by omega, by omega⟩

end Lines

/-! ## The count -/

section Count

variable {start size : BitVec 32} (hrange : start.toNat + size.toNat ≤ 2 ^ 32)
include hrange

/-- The two aligned ends differ by the lines between them, also at the top of memory. -/
theorem aligned_sub_toNat :
    (alignForward (start + size) linesize - alignBackward start linesize).toNat =
      32 * alignedLines start size % 2 ^ 32 := by
  have hfwd : alignForward (start + size) linesize =
      alignBackward (start + size + 31#32) linesize := by
    have h31 : start + size + linesize - 1#32 = start + size + 31#32 := by
      rw [linesize]
      bv_omega
    rw [alignForward, alignBackward, h31]
  have hs := start.isLt
  have hz := size.isLt
  rw [hfwd, BitVec.toNat_sub, alignBackward_toNat, alignBackward_toNat, BitVec.toNat_add,
    BitVec.toNat_add, alignedLines]
  simp only [BitVec.toNat_ofNat]
  omega

theorem alignedLines_le : alignedLines start size ≤ 2 ^ 27 := by
  have hs := start.isLt
  rw [alignedLines]
  omega

/-- The count is the number of lines when they are less than 2 GiB, and otherwise too large by far,
also as the number of iterations it gives. -/
theorem rangeCount_toNat :
    (alignedLines start size < 2 ^ 26 ∧ (rangeCount start size).toNat = alignedLines start size) ∨
      (2 ^ 26 ≤ alignedLines start size ∧
        (rangeCount start size).toNat = (2 ^ 32 - 2 ^ 27 + alignedLines start size) % 2 ^ 32) := by
  have hle := alignedLines_le hrange
  have hsub := aligned_sub_toNat hrange
  have hcount (v : ℤ) (hlo : -2 ^ 31 ≤ v) (hhi : v < 2 ^ 31)
      (hd : (alignForward (start + size) linesize - alignBackward start linesize).toInt = 32 * v) :
      (rangeCount start size).toInt = v := by
    have hlin : linesize.toInt = 32 := rfl
    rw [rangeCount, BitVec.toInt_sdiv, hd, hlin, Int.mul_tdiv_cancel_left v (by decide)]
    exact Int.bmod_eq_of_le (by omega) (by omega)
  rw [BitVec.toInt_eq_toNat_cond, BitVec.toInt_eq_toNat_cond, hsub] at hcount
  have hc := (rangeCount start size).isLt
  by_cases hlt : alignedLines start size < 2 ^ 26
  · have hv := hcount (alignedLines start size) (by omega) (by omega) (by omega)
    refine Or.inl ⟨hlt, ?_⟩
    omega
  · have hv := hcount (alignedLines start size - 2 ^ 27) (by omega) (by omega) (by omega)
    refine Or.inr ⟨by omega, ?_⟩
    omega

theorem covers_entries (op : BitVec 32 → CacheOp) (hop : ∀ a, (op a).line = some (a.toNat / 32))
    {ops : List CacheOp}
    (hops : lineOps ops =
      lineOps (dcEntries op (alignBackward start linesize) (rangeCount start size))) :
    Covers start size ops ↔ 0 < size.toNat ∧ alignedLines start size < 2 ^ 26 := by
  have hle := alignedLines_le hrange
  have hcount := rangeCount_toNat hrange
  have hiter := BitVec.toNat_sub (rangeCount start size) 1#32
  rw [BitVec.toNat_ofNat] at hiter
  have hc := (rangeCount start size).isLt
  have hs := start.isLt
  rw [lineOps_entries hop] at hops
  constructor
  · intro hcov
    by_contra hbad
    by_cases hz : size.toNat = 0
    · -- an empty range meets no line, and the loop works on at least one
      have hno : ¬Meets start size (start.toNat / 32 % 2 ^ 27) := by
        rintro ⟨x, h1, h2, -⟩
        omega
      refine List.count_eq_zero.mp (hcov.only _ hno) ?_
      rw [hops]
      exact List.mem_map.mpr ⟨0, by simp, rfl⟩
    · -- the loop works on more lines than there are
      have hnodup : (lineOps ops).Nodup := by
        rw [List.nodup_iff_count_le_one]
        intro l
        by_cases hl : Meets start size l
        · exact le_of_eq (hcov.once l hl)
        · rw [hcov.only l hl]
          exact Nat.zero_le _
      have hsub : (lineOps ops).toFinset ⊆ Finset.range (2 ^ 27) := by
        intro l hl
        rw [List.mem_toFinset, hops, List.mem_map] at hl
        obtain ⟨k, -, rfl⟩ := hl
        exact Finset.mem_range.mpr (Nat.mod_lt _ (by decide))
      have hcard := Finset.card_le_card hsub
      rw [List.toFinset_card_of_nodup hnodup, Finset.card_range, hops, List.length_map,
        List.length_range] at hcard
      omega
  · rintro ⟨hpos, hlt⟩
    have hlines : lineOps ops =
        (List.range (alignedLines start size)).map (start.toNat / 32 + ·) := by
      have hn : (rangeCount start size - 1#32).toNat + 1 = alignedLines start size := by
        have hne : alignedLines start size ≠ 0 := by
          rw [alignedLines]
          omega
        omega
      rw [hops, hn]
      apply List.map_congr_left
      intro k hk
      have hklt := List.mem_range.mp hk
      rw [alignedLines] at hklt
      exact Nat.mod_eq_of_lt (by omega)
    have hmem (l : ℕ) : l ∈ lineOps ops ↔ Meets start size l := by
      rw [hlines, meets_iff hpos]
      constructor
      · intro hl
        obtain ⟨k, hk, rfl⟩ := List.mem_map.mp hl
        have := List.mem_range.mp hk
        omega
      · rintro ⟨h1, h2⟩
        exact List.mem_map.mpr ⟨l - start.toNat / 32, List.mem_range.mpr (by omega), by omega⟩
    have hnodup : (lineOps ops).Nodup := by
      rw [hlines]
      exact List.nodup_range.map fun a b hab => Nat.add_left_cancel hab
    exact ⟨fun l hl => List.count_eq_one_of_mem hnodup ((hmem l).mpr hl),
      fun l hl => List.count_eq_zero.mpr fun h => hl ((hmem l).mp h)⟩

theorem dcInvalidaterange_covers :
    Covers start size (dcInvalidaterange start size) ↔
      0 < size.toNat ∧ alignedLines start size < 2 ^ 26 := by
  refine covers_entries hrange .invalEntry (fun _ => rfl) ?_
  rw [dcInvalidaterange, lineOps_around rfl rfl]
  rfl

theorem dcFlushrange_covers (hw : TestClean) (dirty : Finset ℕ) (hsmall : size.toNat ≤ 0x4000) :
    Covers start size (dcFlushrange hw dirty start size) ↔ 0 < size.toNat := by
  have hsize : ¬size > cachesize := by
    rw [gt_iff_lt, BitVec.lt_def]
    exact not_lt.mpr hsmall
  have hlines : alignedLines start size < 2 ^ 26 := by
    rw [alignedLines]
    omega
  rw [← and_iff_left (a := 0 < size.toNat) hlines]
  refine covers_entries hrange .flushEntry (fun _ => rfl) ?_
  rw [dcFlushrange, if_neg hsize, lineOps_around rfl rfl]
  rfl

end Count

/-! ## The whole cache -/

theorem mem_lineOps_dcFlush (hw : TestClean) (dirty : Finset ℕ) {l : ℕ} (hl : l ∈ dirty) :
    l ∈ lineOps (dcFlush hw dirty) := by
  fun_induction dcFlush hw dirty with
  | case1 => simp at hl
  | case2 dirty h ih =>
    by_cases hp : l = hw.pick dirty
    · simp [lineOps, CacheOp.line, hp]
    · have := ih (Finset.mem_erase.mpr ⟨hp, hl⟩)
      rw [lineOps] at this ⊢
      simp [CacheOp.line, this]

theorem dcFlushrange_large (hw : TestClean) (dirty : Finset ℕ) {start size : BitVec 32}
    (hlarge : 0x4000 < size.toNat) : dirtyAfter dirty (dcFlushrange hw dirty start size) = ∅ := by
  have hsize : size > cachesize := BitVec.lt_def.mpr hlarge
  rw [dirtyAfter, Finset.filter_eq_empty_iff, dcFlushrange, if_pos hsize, lineOps_around rfl rfl]
  intro l hl
  exact not_not.mpr (mem_lineOps_dcFlush hw dirty hl)

/-- **When the maintenance is exact.**  An invalidation covers its range exactly when the range is
not empty and the aligned range has less than 2 GiB; a flush does what it is to do exactly when its
range is not empty. -/
theorem dcRange_exact (hw : TestClean) (dirty : Finset ℕ) (start size : BitVec 32)
    (hrange : start.toNat + size.toNat ≤ 2 ^ 32) :
    (Covers start size (dcInvalidaterange start size) ↔
        0 < size.toNat ∧ alignedLines start size < 2 ^ 26) ∧
      (FlushExact hw dirty start size ↔ 0 < size.toNat) := by
  refine ⟨dcInvalidaterange_covers hrange, ?_, ?_⟩
  · intro h
    by_contra hzero
    exact hzero ((dcFlushrange_covers hrange hw dirty (by omega)).mp (h.small (by omega)))
  · intro hpos
    exact ⟨fun hsmall => (dcFlushrange_covers hrange hw dirty hsmall).mpr hpos,
      dcFlushrange_large hw dirty⟩

/-- The processor that cleans the lowest dirty line first. -/
def lowestFirst : TestClean where
  pick dirty := if h : dirty.Nonempty then dirty.min' h else 0
  pick_mem dirty h := by
    rw [dif_pos (Finset.nonempty_iff_ne_empty.mpr h)]
    exact Finset.min'_mem _ _

/-- A range that ends at the top of memory. -/
theorem dcRange_exact_top :
    Covers 0xfffffff0#32 16#32 (dcInvalidaterange 0xfffffff0#32 16#32) ∧
      FlushExact lowestFirst ∅ 0xfffffff0#32 16#32 :=
  have h := dcRange_exact lowestFirst ∅ 0xfffffff0#32 16#32 (by decide)
  ⟨h.1.mpr (by decide), h.2.mpr (by decide)⟩

/-- An invalidation of no bytes goes through the whole address space, and more than once. -/
theorem dcInvalidaterange_empty :
    ¬∀ start size : BitVec 32, start.toNat + size.toNat ≤ 2 ^ 32 →
      Covers start size (dcInvalidaterange start size) := by
  intro h
  have hcov := h 0x1000#32 0#32 (by decide)
  rw [dcInvalidaterange_covers (by decide)] at hcov
  exact absurd hcov.1 (by decide)

end VwiiNandTools.Cache
