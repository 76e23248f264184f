import VwiiNandTools.Armboot.Storage.Sdmmc.Discover
import Mathlib.Tactic.IntervalCases

/-!
# The capacity of a card

`card.num_sectors` as `sdmmc_needs_discover` computes it from a CSD, beside the bit fields that
`__bitfield` and the `SD_CSD_*` accessors of `sdmmc.h` extract.  The accessors are exact
(`mmcRspBits_eq`), and the fields that the code puts together by hand are theirs.  The count of
sectors is not exact for every card (`numSectors_exact`): the formats are told apart by TAAC and not
by the version, and the largest product of each format is `2 ^ 32`.
-/

namespace VwiiNandTools.Sdmmc

open ByteMemory

/-! ## The accessors -/

section Accessors

variable (resp : ℕ → Byte)

/-- The loop of `__bitfield`. -/
def bitfieldLoop (dst : BitVec 32) (shift start len : ℕ) : BitVec 32 :=
  if 0 < len then
    let bs := start % 8
    let bc := min (8 - bs) len
    bitfieldLoop (dst ||| (respByte resp (start / 8) >>> bs) <<< shift) (shift + bc) (start + bc)
      (len - bc)
  else dst
termination_by len

def bitfield (start len : ℤ) : BitVec 32 :=
  if start < 0 ∨ len < 0 ∨ 32 < len then 0#32
  else
    let mask := if len % 32 ≠ 0 then 0xffffffff#32 >>> (32 - len % 32).toNat else 0xffffffff#32
    bitfieldLoop resp 0#32 0 start.toNat len.toNat &&& mask

def mmcRspBits (start len : ℤ) : BitVec 32 := bitfield resp (start - 8) len

def sdCsdCsdver : BitVec 32 := mmcRspBits resp 126 2
def sdCsdTaac : BitVec 32 := mmcRspBits resp 112 8
def sdCsdReadBlLen : BitVec 32 := mmcRspBits resp 80 4
def sdCsdCSize : BitVec 32 := mmcRspBits resp 62 12
def sdCsdV2CSize : BitVec 32 := mmcRspBits resp 48 22
def sdCsdCSizeMult : BitVec 32 := mmcRspBits resp 47 3

end Accessors

/-! ## The specification -/

/-- The fields of a CSD that tell its format and its capacity. -/
@[ext]
structure CsdFields where
  version : ℕ
  taac : ℕ
  readBlLen : ℕ
  cSize : ℕ
  v2CSize : ℕ
  cSizeMult : ℕ

/-- The fields as the specification of the card places them. -/
def CsdFields.ofCsd (csd : BitVec 128) : CsdFields where
  version := (csd.extractLsb' 126 2).toNat
  taac := (csd.extractLsb' 112 8).toNat
  readBlLen := (csd.extractLsb' 80 4).toNat
  cSize := (csd.extractLsb' 62 12).toNat
  v2CSize := (csd.extractLsb' 48 22).toNat
  cSizeMult := (csd.extractLsb' 47 3).toNat

/-- The fields as the accessors extract them. -/
def CsdFields.ofResp (resp : ℕ → Byte) : CsdFields where
  version := (sdCsdCsdver resp).toNat
  taac := (sdCsdTaac resp).toNat
  readBlLen := (sdCsdReadBlLen resp).toNat
  cSize := (sdCsdCSize resp).toNat
  v2CSize := (sdCsdV2CSize resp).toNat
  cSizeMult := (sdCsdCSizeMult resp).toNat

/-- The capacity in sectors of 512 bytes. -/
def CsdFields.sectors (f : CsdFields) : ℕ :=
  if f.version = 0 then (f.cSize + 1) * 2 ^ (f.cSizeMult + 2) * 2 ^ f.readBlLen / 512
  else (f.v2CSize + 1) * 1024

/-- The controller delivers `csd` without its CRC byte. -/
def Delivers (resp : ℕ → Byte) (csd : BitVec 128) : Prop :=
  ∀ k < 15, resp k = csd.extractLsb' (8 * k + 8) 8

/-- A CSD of version 1 with a block length the specification has, or of version 2 with the reserved
bits beside its size zero. -/
def WellFormed (csd : BitVec 128) : Prop :=
  (CsdFields.ofCsd csd).version = 0 ∧ 9 ≤ (CsdFields.ofCsd csd).readBlLen ∧
      (CsdFields.ofCsd csd).readBlLen ≤ 11 ∨
    (CsdFields.ofCsd csd).version = 1 ∧ csd.extractLsb' 70 6 = 0#6

/-- The accessors agree with the specification, and the count of sectors is the capacity. -/
structure CapacityExact (csd : BitVec 128) (resp : ℕ → Byte) (numSectors : BitVec 32) : Prop where
  fields : CsdFields.ofResp resp = CsdFields.ofCsd csd
  sectors : numSectors.toNat = (CsdFields.ofResp resp).sectors

/-- The code takes the format that the CSD has and its product is less than `2 ^ 32`, or takes the
other format for a size where both say the same. -/
def CsdFields.Decoded (f : CsdFields) : Prop :=
  f.version = 0 ∧ f.taac ≠ 0x0e ∧ ¬(f.cSize = 4095 ∧ f.cSizeMult = 7 ∧ f.readBlLen = 11) ∨
  f.version = 1 ∧ f.taac = 0x0e ∧ f.v2CSize ≠ 0x3fffff ∨
  f.version = 1 ∧ f.taac ≠ 0x0e ∧ (f.v2CSize + 1) * 2 ^ 17 = 2 ^ (f.cSizeMult + f.readBlLen)

/-! ## The accessors are exact -/

section Bits

variable (resp : ℕ → Byte)

/-- Bit `k` of the response. -/
def respBit (k : ℕ) : Bool := (resp (k / 8)).getLsbD (k % 8)

/-- The loop appends the bits from `start` on at `shift`. -/
theorem bitfieldLoop_getLsbD (dst : BitVec 32) (shift start len : ℕ) (i : ℕ)
    (hlen : shift + len ≤ 32) (hi : i < shift + len) :
    (bitfieldLoop resp dst shift start len).getLsbD i =
      (dst.getLsbD i || decide (shift ≤ i) && respBit resp (start + (i - shift))) := by
  fun_induction bitfieldLoop resp dst shift start len with
  | case1 dst shift start len hpos bs bc ih =>
    rw [ih (by omega) (by omega)]
    have hbyte : ((respByte resp (start / 8) >>> bs) <<< shift).getLsbD i =
        (decide (shift ≤ i) && (resp (start / 8)).getLsbD (bs + (i - shift))) := by
      have h32 : i < 32 := by omega
      by_cases h : shift ≤ i
      · have hlt : bs + (i - shift) < 32 ∨ 8 ≤ bs + (i - shift) := by omega
        simp [respByte, h32, h, Nat.not_lt.mpr h]
        intro hbit
        have := BitVec.lt_of_getLsbD hbit
        omega
      · simp [h, Nat.lt_of_not_le h]
    rw [BitVec.getLsbD_or, hbyte, Bool.or_assoc]
    congr 1
    by_cases h : shift ≤ i
    · by_cases h' : shift + bc ≤ i
      · have hout : (resp (start / 8)).getLsbD (bs + (i - shift)) = false := by
          apply BitVec.getLsbD_of_ge
          omega
        have hpos' : start + bc + (i - (shift + bc)) = start + (i - shift) := by omega
        simp [h, h', hout, hpos']
      · have hdiv : (start + (i - shift)) / 8 = start / 8 := by omega
        have hmod : (start + (i - shift)) % 8 = bs + (i - shift) := by omega
        simp [h, h', respBit, hdiv, hmod]
    · have h' : ¬shift + bc ≤ i := by omega
      simp [h, h']
  | case2 dst shift start len hpos =>
    have h : ¬shift ≤ i := by omega
    simp [h]

theorem bitfieldMask_getLsbD (len i : ℕ) (hlen : len ≤ 32) (hi : i < 32) :
    (if (len : ℤ) % 32 ≠ 0 then 0xffffffff#32 >>> (32 - (len : ℤ) % 32).toNat
      else 0xffffffff#32).getLsbD i = decide (i < len ∨ len = 0) := by
  have hones : (0xffffffff#32) = BitVec.allOnes 32 := rfl
  rw [hones]
  split
  · have hshift : (32 - (len : ℤ) % 32).toNat = 32 - len := by omega
    rw [hshift, BitVec.getLsbD_ushiftRight, BitVec.getLsbD_allOnes]
    exact decide_eq_decide.mpr (by omega)
  · rw [BitVec.getLsbD_allOnes]
    exact decide_eq_decide.mpr (by omega)

theorem bitfield_getLsbD (start len : ℕ) (hlen : len ≤ 32) (i : ℕ) :
    (bitfield resp start len).getLsbD i = (decide (i < len) && respBit resp (start + i)) := by
  have hargs : ¬((start : ℤ) < 0 ∨ (len : ℤ) < 0 ∨ 32 < (len : ℤ)) := by omega
  by_cases h32 : i < 32
  · rw [bitfield, if_neg hargs, BitVec.getLsbD_and, bitfieldMask_getLsbD len i hlen h32,
      Int.toNat_natCast, Int.toNat_natCast]
    by_cases hi : i < len
    · rw [bitfieldLoop_getLsbD resp _ _ _ _ _ (by omega) (by omega)]
      simp [hi]
    · by_cases h0 : len = 0
      · subst h0
        rw [bitfieldLoop]
        simp
      · simp [hi, h0]
  · rw [BitVec.getLsbD_of_ge _ _ (by omega), decide_eq_false (by omega), Bool.false_and]

variable {resp} {csd : BitVec 128}

theorem Delivers.respBit (h : Delivers resp csd) {k : ℕ} (hk : k < 120) :
    Sdmmc.respBit resp k = csd.getLsbD (k + 8) := by
  have hlt : k % 8 < 8 := Nat.mod_lt _ (by decide)
  have hpos : 8 * (k / 8) + 8 + k % 8 = k + 8 := by omega
  rw [Sdmmc.respBit, h (k / 8) (by omega), BitVec.getLsbD_extractLsb', hpos]
  simp [hlt]

/-- **The accessors**: `MMC_RSP_BITS` of a delivered CSD are the bits of the CSD at that place. -/
theorem mmcRspBits_eq (h : Delivers resp csd) (start len : ℕ) (hstart : 8 ≤ start)
    (hend : start + len ≤ 128) (hlen : len ≤ 32) :
    mmcRspBits resp start len = (csd.extractLsb' start len).setWidth 32 := by
  have hsub : (start : ℤ) - 8 = (start - 8 : ℕ) := by omega
  apply BitVec.eq_of_getLsbD_eq
  intro i hi
  rw [mmcRspBits, hsub, bitfield_getLsbD resp _ _ hlen]
  by_cases hlt : i < len
  · have hpos : start - 8 + i + 8 = start + i := by omega
    rw [h.respBit (by omega), hpos]
    simp [hlt, hi]
  · simp [hlt]

theorem ofResp_eq (h : Delivers resp csd) : CsdFields.ofResp resp = CsdFields.ofCsd csd := by
  have hbits (start len : ℕ) (hstart : 8 ≤ start) (hend : start + len ≤ 128) (hlen : len ≤ 32) :
      (mmcRspBits resp start len).toNat = (csd.extractLsb' start len).toNat := by
    rw [mmcRspBits_eq h start len hstart hend hlen, BitVec.toNat_setWidth_of_le hlen]
  ext
  · exact hbits 126 2 (by decide) (by decide) (by decide)
  · exact hbits 112 8 (by decide) (by decide) (by decide)
  · exact hbits 80 4 (by decide) (by decide) (by decide)
  · exact hbits 62 12 (by decide) (by decide) (by decide)
  · exact hbits 48 22 (by decide) (by decide) (by decide)
  · exact hbits 47 3 (by decide) (by decide) (by decide)

end Bits

/-! ## The fields the code puts together -/

section Extract

variable {w : ℕ} (x : BitVec w) {a n k : ℕ}

theorem getLsbD_extract (i : ℕ) (hk : k ≤ 32) :
    ((x.extractLsb' a k).setWidth 32).getLsbD i = (decide (i < k) && x.getLsbD (a + i)) := by
  rw [BitVec.getLsbD_setWidth, BitVec.getLsbD_extractLsb']
  by_cases h : i < k
  · rw [decide_eq_true (show i < 32 by omega), Bool.true_and]
  · rw [decide_eq_false h, Bool.false_and, Bool.and_false]

theorem extract_shiftRight (hn : n ≤ k) (hk : k ≤ 32) :
    (x.extractLsb' a k).setWidth 32 >>> n = (x.extractLsb' (a + n) (k - n)).setWidth 32 := by
  apply BitVec.eq_of_getLsbD_eq
  intro i _
  have hlt : n + i < k ↔ i < k - n := by omega
  rw [BitVec.getLsbD_ushiftRight, getLsbD_extract x _ hk, getLsbD_extract x _ (by omega),
    decide_eq_decide.mpr hlt, Nat.add_assoc]

theorem extract_mask (hn : n ≤ k) (hk : k ≤ 32) :
    (x.extractLsb' a k).setWidth 32 &&& BitVec.ofNat 32 (2 ^ n - 1) =
      (x.extractLsb' a n).setWidth 32 := by
  apply BitVec.eq_of_getLsbD_eq
  intro i hi
  rw [BitVec.getLsbD_and, getLsbD_extract x _ hk, getLsbD_extract x _ (by omega),
    BitVec.getLsbD_ofNat, Nat.testBit_two_pow_sub_one, decide_eq_true hi, Bool.true_and]
  by_cases h : i < n
  · rw [decide_eq_true h, decide_eq_true (show i < k by omega), Bool.and_true]
  · rw [decide_eq_false h, Bool.and_false, Bool.false_and]

theorem extract_append (hk : n + k ≤ 32) :
    (x.extractLsb' (a + n) k).setWidth 32 <<< n ||| (x.extractLsb' a n).setWidth 32 =
      (x.extractLsb' a (n + k)).setWidth 32 := by
  apply BitVec.eq_of_getLsbD_eq
  intro i hi
  rw [BitVec.getLsbD_or, BitVec.getLsbD_shiftLeft, getLsbD_extract x _ (by omega),
    getLsbD_extract x _ (by omega), getLsbD_extract x _ hk, decide_eq_true hi, Bool.true_and]
  by_cases h : i < n
  · rw [decide_eq_true h, decide_eq_true (show i < n + k by omega), Bool.not_true, Bool.false_and,
      Bool.false_or]
  · have hlt : i - n < k ↔ i < n + k := by omega
    rw [decide_eq_false h, Bool.not_false, Bool.true_and, Bool.false_and, Bool.or_false,
      decide_eq_decide.mpr hlt, Nat.add_assoc, Nat.add_sub_cancel' (not_lt.mp h)]

end Extract

section Decode

variable {resp : ℕ → Byte} {csd : BitVec 128} (h : Delivers resp csd)
include h

theorem Delivers.respByte {k : ℕ} (hk : k < 15) :
    Sdmmc.respByte resp k = (csd.extractLsb' (8 * k + 8) 8).setWidth 32 := by
  rw [Sdmmc.respByte, h k hk]

/-- `c_size` in the branch for SDHC: the size and two more bits. -/
theorem decode_v2CSize :
    respByte resp 7 <<< 16 ||| respByte resp 6 <<< 8 ||| respByte resp 5 =
      (csd.extractLsb' 48 24).setWidth 32 := by
  have h5 : respByte resp 5 = (csd.extractLsb' 48 8).setWidth 32 := h.respByte (by decide)
  have h6 : respByte resp 6 = (csd.extractLsb' (48 + 8) 8).setWidth 32 := h.respByte (by decide)
  have h7 : respByte resp 7 = (csd.extractLsb' (48 + 16) 8).setWidth 32 := h.respByte (by decide)
  rw [h5, h6, h7, BitVec.or_assoc, extract_append csd (by decide), extract_append csd (by decide)]

theorem decode_cSize :
    (respByte resp 8 &&& 3#32) <<< 10 ||| respByte resp 7 <<< 2 ||| respByte resp 6 >>> 6 =
      (csd.extractLsb' 62 12).setWidth 32 := by
  have h6 : respByte resp 6 >>> 6 = (csd.extractLsb' 62 2).setWidth 32 := by
    rw [h.respByte (by decide)]
    exact extract_shiftRight csd (by decide) (by decide)
  have h7 : respByte resp 7 = (csd.extractLsb' (62 + 2) 8).setWidth 32 := h.respByte (by decide)
  have h8 : respByte resp 8 &&& 3#32 = (csd.extractLsb' (62 + 10) 2).setWidth 32 := by
    rw [h.respByte (by decide)]
    exact extract_mask csd (n := 2) (by decide) (by decide)
  rw [h6, h7, h8, BitVec.or_assoc, extract_append csd (by decide), extract_append csd (by decide)]

theorem decode_cSizeMult :
    (respByte resp 5 &&& 3#32) <<< 1 ||| respByte resp 4 >>> 7 =
      (csd.extractLsb' 47 3).setWidth 32 := by
  have h4 : respByte resp 4 >>> 7 = (csd.extractLsb' 47 1).setWidth 32 := by
    rw [h.respByte (by decide)]
    exact extract_shiftRight csd (by decide) (by decide)
  have h5 : respByte resp 5 &&& 3#32 = (csd.extractLsb' (47 + 1) 2).setWidth 32 := by
    rw [h.respByte (by decide)]
    exact extract_mask csd (n := 2) (by decide) (by decide)
  rw [h4, h5, extract_append csd (by decide)]

theorem decode_readBlLen :
    respByte resp 9 &&& 0xf#32 = (csd.extractLsb' 80 4).setWidth 32 := by
  rw [h.respByte (by decide)]
  exact extract_mask csd (n := 4) (by decide) (by decide)

theorem decodeCsd_sdhc (htaac : resp 13 = 0x0e#8) :
    (decodeCsd resp).2.toNat = ((csd.extractLsb' 48 24).toNat + 1) * 1024 % 2 ^ 32 := by
  rw [decodeCsd, if_pos htaac]
  simp only [decode_v2CSize h]
  have hlt := (csd.extractLsb' 48 24).isLt
  simp [BitVec.toNat_mul, BitVec.toNat_add]

theorem decodeCsd_plain (htaac : resp 13 ≠ 0x0e#8) :
    (decodeCsd resp).2.toNat =
      ((CsdFields.ofCsd csd).cSize + 1) * 2 ^ ((CsdFields.ofCsd csd).cSizeMult + 2) *
        2 ^ (CsdFields.ofCsd csd).readBlLen % 2 ^ 32 / 512 := by
  rw [decodeCsd, if_neg htaac]
  simp only [decode_cSize h, decode_cSizeMult h, decode_readBlLen h, CsdFields.ofCsd]
  generalize csd.extractLsb' 62 12 = c
  generalize csd.extractLsb' 47 3 = m
  generalize csd.extractLsb' 80 4 = b
  have hc := c.isLt
  have hm := m.isLt
  have hb := b.isLt
  have hfour : 4 * 2 ^ m.toNat = 2 ^ (m.toNat + 2) := by rw [Nat.pow_add, Nat.mul_comm]
  have hm' : m.toNat % 4294967296 = m.toNat := by omega
  have hb' : b.toNat % 4294967296 = b.toNat := by omega
  simp [BitVec.toNat_mul, BitVec.toNat_add, BitVec.toNat_shiftLeft, Nat.shiftLeft_eq, hm', hb', hfour]

end Decode

/-! ## The products -/

section Products

/-- Version 1 in its own branch: only the largest product wraps. -/
theorem product_wraps {c m b : ℕ} (hc : c < 4096) (hm : m < 8) (hb : 9 ≤ b) (hb' : b ≤ 11) :
    (c + 1) * 2 ^ (m + 2) * 2 ^ b % 2 ^ 32 / 512 = (c + 1) * 2 ^ (m + 2) * 2 ^ b / 512 ↔
      ¬(c = 4095 ∧ m = 7 ∧ b = 11) := by
  interval_cases b <;> interval_cases m <;> omega

/-- Version 1 in the branch for SDHC: `u` are the ten bits that both sizes share, `l` the ones below
them, and `t` is the lowest bit of the multiplier. -/
theorem product_sdhc_ne {u w l t b : ℕ} (hu : u < 1024) (hw : w < 4) (hl : l < 2 ^ 14) (ht : t < 2)
    (hb : 9 ≤ b) (hb' : b ≤ 11) :
    (u * 2 ^ 14 + l + 1) * 1024 % 2 ^ 32 ≠
      (w * 1024 + u + 1) * 2 ^ (l % 4 * 2 + t + 2) * 2 ^ b / 512 := by
  intro heq
  have hq : l % 4 < 4 := Nat.mod_lt _ (by decide)
  have hle : (w * 1024 + u + 1) * 2 ^ (l % 4 * 2 + t + 2) * 2 ^ b ≤ 4096 * 2 ^ 9 * 2 ^ 11 := by
    gcongr <;> omega
  have hge : 1 * 2 ^ 2 * 2 ^ 9 ≤ (w * 1024 + u + 1) * 2 ^ (l % 4 * 2 + t + 2) * 2 ^ b := by
    gcongr <;> omega
  -- the capacity is at most `2 ^ 23` sectors, so the bits above it are zero
  have hhigh : u % 256 = 0 := by omega
  have hlow : (l + 1) * 1024 =
      (w * 1024 + u + 1) * 2 ^ (l % 4 * 2 + t + 2) * 2 ^ b / 512 := by omega
  clear hle hge heq
  -- the size plus one is odd, so `l` is too small for the multiplier
  generalize hq' : l % 4 = q at hq hlow
  interval_cases b <;> interval_cases t <;> interval_cases q <;> omega

theorem pow_sectors_eq {l e : ℕ} (he : e < 23) :
    2 ^ (e + 2) % 2 ^ 32 / 512 = (l + 1) * 1024 ↔ (l + 1) * 2 ^ 17 = 2 ^ e := by
  interval_cases e <;> omega

theorem product_plain_eq {u l t b : ℕ} (hl : l < 2 ^ 14) (ht : t < 2) (hb : b < 16) :
    (u + 1) * 2 ^ (l % 4 * 2 + t + 2) * 2 ^ b % 2 ^ 32 / 512 = (u * 2 ^ 14 + l + 1) * 1024 ↔
      (u * 2 ^ 14 + l + 1) * 2 ^ 17 = 2 ^ (l % 4 * 2 + t + b) := by
  have hq : l % 4 < 4 := Nat.mod_lt _ (by decide)
  rcases Nat.eq_zero_or_pos u with rfl | hu
  · -- only the sum of the exponents matters
    have hprod : 2 ^ (l % 4 * 2 + t + 2) * 2 ^ b = 2 ^ (l % 4 * 2 + t + b + 2) := by
      rw [← Nat.pow_add]
      congr 1
      omega
    rw [Nat.zero_add, Nat.one_mul, hprod, Nat.zero_mul, Nat.zero_add]
    exact pow_sectors_eq (by omega)
  · -- the size is too large for the few bits of it that the branch takes
    have hmod := Nat.mod_le ((u + 1) * 2 ^ (l % 4 * 2 + t + 2) * 2 ^ b) (2 ^ 32)
    have hle : (u + 1) * 2 ^ (l % 4 * 2 + t + 2) * 2 ^ b ≤ (u + 1) * 2 ^ 9 * 2 ^ 15 := by
      gcongr <;> omega
    have hpow : 2 ^ (l % 4 * 2 + t + b) ≤ 2 ^ 22 := by
      gcongr <;> omega
    constructor <;> intro heq <;> omega

end Products

/-! ## The stored count -/

section Stored

variable (o : Outcomes) (s : Driver)

theorem discoverCsd_numSectors (hcsd : o.sendCsd.error = 0) :
    (discoverCsd o s).card.numSectors = (decodeCsd o.sendCsd.cResp).2 := by
  simp only [discoverCsd]
  rw [if_neg (not_not.mpr hcsd)]
  have hsel := (sdmmcSelect_frame
    { exec (command mmcSendCsd (s.card.rca.setWidth 32 <<< 16) scfRspR2) s with
      card := { s.card with timeout := (decodeCsd o.sendCsd.cResp).1,
                            numSectors := (decodeCsd o.sendCsd.cResp).2 } } o.select).2.2.2.2
  split
  · rw [outClock_card]
    exact hsel
  · exact hsel

theorem discoverCid_numSectors (hcid : o.allSendCid.error = 0) (hrca : o.sendRca.error = 0)
    (hcsd : o.sendCsd.error = 0) :
    (discoverCid o s).card.numSectors = (decodeCsd o.sendCsd.cResp).2 := by
  simp only [discoverCid]
  rw [if_neg (not_not.mpr hcid), if_neg (not_not.mpr hrca)]
  exact discoverCsd_numSectors o _ hcsd

/-- Once the card is identified and its CSD has come, the count is stored, whatever follows. -/
theorem needsDiscover_numSectors (hdet : o.cardDetect = true) (hid : Identified o s.host.clkbase)
    (hcsd : o.sendCsd.error = 0) :
    (sdmmcNeedsDiscover o s).card.numSectors = (decodeCsd o.sendCsd.cResp).2 := by
  simp only [sdmmcNeedsDiscover, hdet, not_true_eq_false, if_false]
  rw [if_neg (not_not.mpr ((busPower_error o (sdhcHostReset s.host)).mpr hid.power)),
    if_neg (not_not.mpr ((busClock_error o _).mpr (by rw [busPower_clkbase]; exact hid.clock)))]
  simp only [discoverOcr]
  rw [if_neg (not_not.mpr hid.goIdle)]
  obtain ⟨r, hr⟩ := Option.isSome_iff_exists.mp hid.ocr
  generalize exec { command sdSendIfCond 0x1aa#32 scfRspR7 with timeout := 100 } _ = s'
  obtain ⟨hlast, hready⟩ := opCondLoop_ready o s' (ifCondOcr o.ifCond s'.host.ocr) o.ifCond hr
  rw [hlast, if_neg (not_not.mpr hready)]
  exact discoverCid_numSectors o _ hid.cid hid.rca hcsd

end Stored

/-! ## Exact capacity -/

section Exact

variable {resp : ℕ → Byte} {csd : BitVec 128}

/-- The two sizes and the multiplier overlap: `u` are the ten bits both sizes share. -/
theorem CsdFields.overlap (csd : BitVec 128) : ∃ u w l t,
    u < 1024 ∧ w < 4 ∧ l < 2 ^ 14 ∧ t < 2 ∧
      (CsdFields.ofCsd csd).cSize = w * 1024 + u ∧
      (CsdFields.ofCsd csd).cSizeMult = l % 4 * 2 + t ∧
      (csd.extractLsb' 48 24).toNat = u * 2 ^ 14 + l ∧
      (csd.extractLsb' 70 6 = 0#6 → w = 0 ∧ u < 256 ∧
        (CsdFields.ofCsd csd).v2CSize = u * 2 ^ 14 + l) := by
  simp only [CsdFields.ofCsd, BitVec.toNat_eq, BitVec.extractLsb'_toNat, Nat.shiftRight_eq_div_pow]
  generalize csd.toNat = x
  refine ⟨x / 2 ^ 62 % 1024, x / 2 ^ 72 % 4, x / 2 ^ 48 % 2 ^ 14, x / 2 ^ 47 % 2, ?_⟩
  simp only [BitVec.toNat_ofNat]
  refine ⟨?_, ?_, ?_, ?_, ?_, ?_, ?_, fun h => ⟨?_, ?_, ?_⟩⟩ <;> omega

theorem ofCsd_readBlLen_lt (csd : BitVec 128) : (CsdFields.ofCsd csd).readBlLen < 16 :=
  (csd.extractLsb' 80 4).isLt

theorem taac_iff (h : Delivers resp csd) : resp 13 = 0x0e#8 ↔ (CsdFields.ofCsd csd).taac = 0x0e := by
  rw [h 13 (by decide), BitVec.toNat_eq]
  rfl

theorem CsdFields.decoded_sdhc {f : CsdFields} (htaac : f.taac = 0x0e) :
    f.Decoded ↔ f.version = 1 ∧ f.v2CSize ≠ 0x3fffff := by
  simp [Decoded, htaac]

theorem CsdFields.decoded_plain {f : CsdFields} (htaac : f.taac ≠ 0x0e) :
    f.Decoded ↔ f.version = 0 ∧ ¬(f.cSize = 4095 ∧ f.cSizeMult = 7 ∧ f.readBlLen = 11) ∨
      f.version = 1 ∧ (f.v2CSize + 1) * 2 ^ 17 = 2 ^ (f.cSizeMult + f.readBlLen) := by
  simp [Decoded, htaac]

theorem decodeCsd_exact (h : Delivers resp csd) (hwf : WellFormed csd) :
    (decodeCsd resp).2.toNat = (CsdFields.ofCsd csd).sectors ↔ (CsdFields.ofCsd csd).Decoded := by
  obtain ⟨u, w, l, t, hu, hw, hl, ht, hsize, hmult, hsdhc, hres⟩ := CsdFields.overlap csd
  have hb := ofCsd_readBlLen_lt csd
  have hdec := decodeCsd_sdhc h
  have hplain := decodeCsd_plain h
  rw [taac_iff h] at hdec
  rw [ne_eq, taac_iff h] at hplain
  by_cases htaac : (CsdFields.ofCsd csd).taac = 0x0e
  · rw [hdec htaac, hsdhc, CsdFields.decoded_sdhc htaac]
    rcases hwf with ⟨hver, hb9, hb11⟩ | ⟨hver, hzero⟩
    · rw [CsdFields.sectors, if_pos hver, hsize, hmult]
      have hne := product_sdhc_ne hu hw hl ht hb9 hb11
      exact ⟨fun heq => absurd heq hne, fun hdecoded => absurd hdecoded.1 (by omega)⟩
    · obtain ⟨-, hu', hv2⟩ := hres hzero
      rw [CsdFields.sectors, if_neg (by omega), hv2]
      omega
  · rw [hplain htaac, CsdFields.decoded_plain htaac]
    rcases hwf with ⟨hver, hb9, hb11⟩ | ⟨hver, hzero⟩
    · rw [CsdFields.sectors, if_pos hver, product_wraps (by omega) (by omega) hb9 hb11]
      simp [hver]
    · obtain ⟨rfl, -, hv2⟩ := hres hzero
      rw [CsdFields.sectors, if_neg (by omega), hsize, hmult, hv2, Nat.zero_mul, Nat.zero_add,
        product_plain_eq hl ht hb]
      simp [hver]

end Exact

/-- **When the capacity is exact**: the count of sectors that discovery stores is the capacity of
the card exactly when the code decodes the format of its CSD and the product does not wrap. -/
theorem numSectors_exact (o : Outcomes) (s : Driver) (csd : BitVec 128) (hdet : o.cardDetect = true)
    (hid : Identified o s.host.clkbase) (hcsd : o.sendCsd.error = 0)
    (hdel : Delivers o.sendCsd.cResp csd) (hwf : WellFormed csd) :
    CapacityExact csd o.sendCsd.cResp (sdmmcNeedsDiscover o s).card.numSectors ↔
      (CsdFields.ofCsd csd).Decoded := by
  rw [needsDiscover_numSectors o s hdet hid hcsd, ← decodeCsd_exact hdel hwf]
  constructor
  · intro h
    rw [h.sectors, h.fields]
  · intro h
    exact ⟨ofResp_eq hdel, by rw [h, ofResp_eq hdel]⟩

/-- A discovery in which the card answers SEND_CSD with `csd`. -/
def answering (csd : BitVec 128) : Outcomes :=
  { csdFailing with sendCsd := { error := 0, resp := fun k => csd.extractLsb' (8 * k + 8) 8 } }

theorem answering_identified (csd : BitVec 128) :
    Identified (answering csd) attached.host.clkbase := by
  have hocr : (readyOcr csdFailing).isSome := rfl
  exact ⟨rfl, ⟨by decide, List.any_eq_true.mpr ⟨0, by simp, rfl⟩⟩, rfl, hocr, rfl, rfl⟩

/-- A card of 32 GB. -/
def sdhcCsd : BitVec 128 := 0x400e00325b590000ec417f800a4040df#128

theorem numSectors_exact_sdhc :
    CapacityExact sdhcCsd (answering sdhcCsd).sendCsd.cResp
      (sdmmcNeedsDiscover (answering sdhcCsd) attached).card.numSectors :=
  (numSectors_exact (answering sdhcCsd) attached sdhcCsd rfl (answering_identified _) rfl
    (fun _ _ => rfl) (Or.inr (by decide))).mpr (by unfold CsdFields.Decoded; decide)

/-- A card of version 1 with a TAAC of 1 ms and 1954816 sectors. -/
def slowCsd : BitVec 128 := 0x000e00325b5983ba7db7ff9f96400000#128

/-- The size of `slowCsd` is decoded as that of a card of version 2. -/
theorem not_capacityExact : ¬∀ (o : Outcomes) (s : Driver) (csd : BitVec 128),
    o.cardDetect = true → Identified o s.host.clkbase → o.sendCsd.error = 0 →
      Delivers o.sendCsd.cResp csd → WellFormed csd →
        CapacityExact csd o.sendCsd.cResp (sdmmcNeedsDiscover o s).card.numSectors := by
  intro h
  have hc := (h (answering slowCsd) attached slowCsd rfl (answering_identified _) rfl
    (fun _ _ => rfl) (Or.inl (by decide))).sectors
  have hdel : Delivers (answering slowCsd).sendCsd.cResp slowCsd := fun _ _ => rfl
  rw [needsDiscover_numSectors _ _ rfl (answering_identified _) rfl, ofResp_eq hdel] at hc
  revert hc
  decide

end VwiiNandTools.Sdmmc
