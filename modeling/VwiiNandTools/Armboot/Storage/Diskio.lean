import VwiiNandTools.Lib.Transition
import VwiiNandTools.Armboot.Storage.Sdmmc.Card

/-!
# The disk of FatFs

`storage/diskio.c` over `sdmmc.c`: `disk_read` and `disk_write` move sectors one by one through a
static buffer.  The card is an array of bytes with a capacity in sectors; it takes the argument of a
transfer as a byte offset or as a block number, and rejects what lies beyond its end.

`target` is the sector of the card a sector number reaches.  It is that number as long as the number,
in byte addressing its 512-fold, fits in 32 bits; then the card is the array of sectors the numbers
suggest (`diskio_array`).  A larger number reaches a low sector of the card.
-/

namespace VwiiNandTools.Diskio

open ByteMemory Sdmmc Transition

/-! ## The card -/

/-- What the card does in one sector transfer: the result of a select command, whether the transfer
fails for a reason of its own, and what a failed transfer leaves in the buffer. -/
structure Env where
  sel : CmdResult
  fails : Bool
  left : ℕ → Byte

/-- The driver, the static buffer and the bytes of the card. -/
structure Disk where
  drv : Driver
  buffer : ℕ → Byte
  medium : Mem

/-- The byte a transfer starts at, for its argument. -/
def cardOffset (c : Card) (arg : BitVec 32) : ℕ :=
  if c.sdhcBlockmode ≠ 0 then 512 * arg.toNat else arg.toNat

def transferOk : CmdResult := { error := 0, resp := fun _ => 0#8 }
def transferFailed : CmdResult := { error := etimedout, resp := fun _ => 0#8 }

/-- The result of a one-sector transfer on a card of `cap` sectors. -/
def cardResult (cap : ℕ) (e : Env) (c : Card) (cmd : Command) : CmdResult :=
  if e.fails = true ∨ 512 * cap < cardOffset c cmd.arg + 512 then transferFailed else transferOk

/-! ## The source -/

def staNoinit : BitVec 8 := 0x01
def staNodisk : BitVec 8 := 0x02

def diskStatus (c : Card) : BitVec 8 :=
  if sdmmcCheckCard c = sdmmcInserted then 0#8 else staNodisk

def diskInitialize (c : Card) : BitVec 8 × Card :=
  if sdmmcCheckCard c = sdmmcNoCard then (staNoinit, c)
  else
    let c := (sdmmcAckCard c).2
    (diskStatus c, c)

/-- `RES_OK` and `RES_ERROR`. -/
inductive DResult
  | ok
  | error
  deriving DecidableEq, Repr

/-- `sdmmc_read(blk, 1, buffer)` on the card. -/
def readSector (cap : ℕ) (e : Env) (blk : BitVec 32) (w : Disk) : ℤ × Disk :=
  let (ret, drv) := sdmmcRead e.sel (cardResult cap e w.drv.card) blk 1#32 w.drv
  if ret = 0 then
    (ret, { w with drv := drv,
                   buffer := fun x => w.medium (cardOffset drv.card (transferArg drv.card blk) + x) })
  else (ret, { w with drv := drv, buffer := e.left })

/-- `sdmmc_write(blk, 1, buffer)` on the card. -/
def writeSector (cap : ℕ) (e : Env) (blk : BitVec 32) (w : Disk) : ℤ × Disk :=
  let (ret, drv) := sdmmcWrite e.sel (cardResult cap e w.drv.card) blk 1#32 w.drv
  if ret = 0 then
    (ret, { w with drv := drv,
                   medium := fill w.medium (cardOffset drv.card (transferArg drv.card blk)) 512
                     w.buffer })
  else (ret, { w with drv := drv })

/-- The loop `for (i = 0; i < n; i++)` with a body that may return from it: the number of passes
that were completed, and the state. -/
def sectorLoop {σ : Type*} (body : ℕ → σ → ℤ × σ) (s : σ) : ℕ → ℕ × σ
  | 0 => (0, s)
  | n + 1 =>
    let (k, s) := sectorLoop body s n
    if k < n then (k, s)
    else
      let (ret, s) := body n s
      if ret ≠ 0 then (n, s) else (n + 1, s)

/-- One pass of `disk_read`, on the caller's buffer and the disk. -/
def readBody (cap : ℕ) (e : ℕ → Env) (sector : BitVec 32) (i : ℕ) (s : (ℕ → Byte) × Disk) :
    ℤ × (ℕ → Byte) × Disk :=
  let (ret, w) := readSector cap (e i) (sector + BitVec.ofNat 32 i) s.2
  if ret ≠ 0 then (ret, s.1, w) else (ret, fill s.1 (512 * i) 512 w.buffer, w)

/-- The number of sectors read, the caller's buffer and the disk. -/
def diskReadLoop (cap : ℕ) (e : ℕ → Env) (buff : ℕ → Byte) (sector : BitVec 32) (count : BitVec 8)
    (w : Disk) : ℕ × (ℕ → Byte) × Disk :=
  sectorLoop (readBody cap e sector) (buff, w) count.toNat

def diskRead (cap : ℕ) (e : ℕ → Env) (buff : ℕ → Byte) (sector : BitVec 32) (count : BitVec 8)
    (w : Disk) : DResult × (ℕ → Byte) × Disk :=
  let (k, s) := diskReadLoop cap e buff sector count w
  (if k < count.toNat then .error else .ok, s)

/-- One pass of `disk_write`. -/
def writeBody (cap : ℕ) (e : ℕ → Env) (buff : ℕ → Byte) (sector : BitVec 32) (i : ℕ) (w : Disk) :
    ℤ × Disk :=
  let w := { w with buffer := fun x => buff (512 * i + x) }
  writeSector cap (e i) (sector + BitVec.ofNat 32 i) w

/-- The number of sectors written, and the disk. -/
def diskWriteLoop (cap : ℕ) (e : ℕ → Env) (buff : ℕ → Byte) (sector : BitVec 32) (count : BitVec 8)
    (w : Disk) : ℕ × Disk :=
  sectorLoop (writeBody cap e buff sector) w count.toNat

def diskWrite (cap : ℕ) (e : ℕ → Env) (buff : ℕ → Byte) (sector : BitVec 32) (count : BitVec 8)
    (w : Disk) : DResult × Disk :=
  let (k, w) := diskWriteLoop cap e buff sector count w
  (if k < count.toNat then .error else .ok, w)

/-! ## One transfer -/

/-- The sector of the card that a transfer for sector number `n` reaches. -/
def target (c : Card) (n : ℕ) : ℕ := if c.sdhcBlockmode ≠ 0 then n % 2 ^ 32 else n % 2 ^ 23

theorem cardOffset_transferArg (c : Card) (n : ℕ) :
    cardOffset c (transferArg c (BitVec.ofNat 32 n)) = 512 * target c n := by
  unfold cardOffset transferArg target
  split
  · rw [BitVec.toNat_ofNat]
  · rw [BitVec.toNat_mul, BitVec.toNat_ofNat, sdmmcDefaultBlocklen]
    have h : n % 2 ^ 32 * 512 % 2 ^ 32 = 512 * (n % 2 ^ 23) := by omega
    exact h

theorem sector_add (sector : BitVec 32) (i : ℕ) :
    sector + BitVec.ofNat 32 i = BitVec.ofNat 32 (sector.toNat + i) := by
  apply BitVec.eq_of_toNat_eq
  simp

/-- The driver lets a transfer command through: a card is inserted, acknowledged and selected. -/
def Served (c : Card) (sel : CmdResult) : Prop :=
  c.inserted ≠ 0 ∧ c.newCard ≠ 1 ∧ (c.selected ≠ 0 ∨ sel.error = 0)

/-- `disk_initialize` succeeds when a card is in the slot, also a new one; the transfers are served
then, if the card can be selected. -/
theorem diskInitialize_spec (c : Card) (sel : CmdResult) :
    let d := diskInitialize c
    (d.1 = 0#8 ↔ c.inserted ≠ 0) ∧
      (d.1 = 0#8 → diskStatus d.2 = 0#8 ∧ (Served d.2 sel ↔ c.selected ≠ 0 ∨ sel.error = 0)) := by
  intro d
  by_cases hins : c.inserted = 0
  · have hd : d = (staNoinit, c) := by simp [d, diskInitialize, sdmmcCheckCard, hins]
    have hne : ¬staNoinit = 0#8 := by decide
    rw [hd]
    exact ⟨⟨fun h => absurd h hne, fun h => absurd hins h⟩, fun h => absurd h hne⟩
  · have hd : d = (0#8, (sdmmcAckCard c).2) := by
      by_cases hnew : c.newCard = 1 <;>
        simp [d, diskInitialize, diskStatus, sdmmcCheckCard, sdmmcAckCard, sdmmcNoCard, sdmmcNewCard,
          sdmmcInserted, hins, hnew]
    have hack : (sdmmcAckCard c).2.inserted = c.inserted ∧ (sdmmcAckCard c).2.newCard ≠ 1 ∧
        (sdmmcAckCard c).2.selected = c.selected := by
      unfold sdmmcAckCard
      split
      · exact ⟨rfl, zero_ne_one, rfl⟩
      · next hnew => exact ⟨rfl, hnew, rfl⟩
    rw [hd]
    refine ⟨⟨fun _ => hins, fun _ => rfl⟩, fun _ => ⟨?_, ?_⟩⟩
    · rw [diskStatus, sdmmcCheckCard, hack.1, if_neg hins, if_neg hack.2.1, if_pos rfl]
    · rw [Served, hack.1, hack.2.2]
      exact ⟨fun h => h.2.2, fun h => ⟨hins, hack.2.1, h⟩⟩

theorem ensureSelected_spec (sel : CmdResult) (s : Driver) :
    let d := ensureSelected sel s
    (¬d.1 < 0 ↔ s.card.selected ≠ 0 ∨ sel.error = 0) ∧
      d.2.card.inserted = s.card.inserted ∧ d.2.card.newCard = s.card.newCard ∧
      d.2.card.sdhcBlockmode = s.card.sdhcBlockmode ∧ (¬d.1 < 0 → d.2.card.selected ≠ 0) := by
  by_cases hsel : s.card.selected = 0
  · by_cases herr : sel.error = 0
    · simp [ensureSelected, sdmmcSelect, hsel, herr, exec]
    · simp [ensureSelected, sdmmcSelect, hsel, herr, exec]
  · simp [ensureSelected, hsel]

theorem transferSelected_spec (opcode : ℕ) (flags : BitVec 16) (xfer : Command → CmdResult)
    (blk cnt : BitVec 32) (s : Driver) {p : ℤ}
    (hx : ∀ cmd : Command, cmd.arg = transferArg s.card blk → (xfer cmd).error = p) :
    let d := transferSelected opcode flags xfer blk cnt s
    (d.1 = 0 ↔ s.card.newCard ≠ 1 ∧ p = 0) ∧ d.2.card = s.card := by
  unfold transferSelected
  by_cases hnew : s.card.newCard = 1
  · simp [hnew]
  · have he := hx
      { opcode := opcode, arg := transferArg s.card blk, flags := flags,
        datalen := cnt * sdmmcDefaultBlocklen, blklen := sdmmcDefaultBlocklen, timeout := 0 } rfl
    simp only [hnew, if_false, he]
    by_cases hp : p = 0
    · simp [hp, exec, hnew]
    · simp [hp, exec]

/-- What `sdmmc_read` and `sdmmc_write` decide, and what they leave of the card structure. -/
theorem sdmmcTransfer_spec (opcode : ℕ) (flags : BitVec 16) (sel : CmdResult)
    (xfer : Command → CmdResult) (blk cnt : BitVec 32) (s : Driver) {p : ℤ}
    (hx : ∀ cmd : Command, cmd.arg = transferArg s.card blk → (xfer cmd).error = p) :
    let d := sdmmcTransfer opcode flags sel xfer blk cnt s
    (d.1 = 0 ↔ Served s.card sel ∧ p = 0) ∧
      d.2.card.inserted = s.card.inserted ∧ d.2.card.newCard = s.card.newCard ∧
      d.2.card.sdhcBlockmode = s.card.sdhcBlockmode ∧ (d.1 = 0 → d.2.card.selected ≠ 0) := by
  obtain ⟨hret, h1, h2, h3, h4⟩ := ensureSelected_spec sel s
  unfold sdmmcTransfer
  by_cases hins : s.card.inserted = 0
  · simp [Served, hins]
  rw [if_neg hins]
  generalize ensureSelected sel s = r at hret h1 h2 h3 h4
  obtain ⟨ret, s'⟩ := r
  by_cases hr : ret < 0
  · simp only [hr, if_true]
    refine ⟨⟨fun h => by simp at h, fun h => ?_⟩, h1, h2, h3, fun h => by simp at h⟩
    exact absurd (hret.mpr h.1.2.2) (not_not.mpr hr)
  · simp only [hr, if_false]
    obtain ⟨ht, hc⟩ := transferSelected_spec opcode flags xfer blk cnt s' (p := p) (by
      intro cmd hcmd
      refine hx cmd ?_
      rw [hcmd, transferArg, transferArg, h3])
    rw [hc]
    refine ⟨?_, h1, h2, h3, fun _ => h4 hr⟩
    rw [ht, h2, Served]
    exact ⟨fun h => ⟨⟨hins, h.1, hret.mp hr⟩, h.2⟩, fun h => ⟨h.1.2.1, h.2⟩⟩

/-- The fields of the card structure that transfers do not change. -/
structure SameCard (c c' : Card) : Prop where
  inserted : c'.inserted = c.inserted
  newCard : c'.newCard = c.newCard
  blockmode : c'.sdhcBlockmode = c.sdhcBlockmode

theorem SameCard.target {c c' : Card} (h : SameCard c c') (n : ℕ) :
    Diskio.target c' n = Diskio.target c n := by
  rw [Diskio.target, Diskio.target, h.blockmode]

theorem SameCard.trans {c c' c'' : Card} (h : SameCard c c') (h' : SameCard c' c'') :
    SameCard c c'' :=
  ⟨h'.inserted.trans h.inserted, h'.newCard.trans h.newCard, h'.blockmode.trans h.blockmode⟩

theorem cardResult_error (cap : ℕ) (e : Env) (c : Card) (n : ℕ) {cmd : Command}
    (h : cmd.arg = transferArg c (BitVec.ofNat 32 n)) :
    (cardResult cap e c cmd).error =
      if e.fails = false ∧ target c n < cap then 0 else etimedout := by
  rw [cardResult, h, cardOffset_transferArg]
  by_cases hf : e.fails = true
  · simp [hf, transferFailed]
  · by_cases ht : target c n < cap
    · have : ¬512 * cap < 512 * target c n + 512 := by omega
      simp [hf, ht, this, transferOk]
    · have : 512 * cap < 512 * target c n + 512 := by omega
      simp [ht, this, transferFailed]

theorem transfer_goes {e : Env} {c : Card} {n cap : ℕ} :
    (if e.fails = false ∧ target c n < cap then (0 : ℤ) else etimedout) = 0 ↔
      e.fails = false ∧ target c n < cap := by
  split
  · next h => exact ⟨fun _ => h, fun _ => rfl⟩
  · next h => exact ⟨fun h' => absurd h' (by decide), fun h' => absurd h' h⟩

theorem readSector_spec (cap : ℕ) (e : Env) (n : ℕ) (w : Disk) :
    let d := readSector cap e (BitVec.ofNat 32 n) w
    (d.1 = 0 ↔ Served w.drv.card e.sel ∧ e.fails = false ∧ target w.drv.card n < cap) ∧
      SameCard w.drv.card d.2.drv.card ∧ d.2.medium = w.medium ∧
      (d.1 = 0 → d.2.drv.card.selected ≠ 0 ∧
        ∀ x, d.2.buffer x = w.medium (512 * target w.drv.card n + x)) := by
  obtain ⟨hret, h1, h2, h3, h4⟩ := sdmmcTransfer_spec mmcReadBlockMultiple (scfRspR1 ||| scfCmdRead)
    e.sel (cardResult cap e w.drv.card) (BitVec.ofNat 32 n) 1#32 w.drv
    fun cmd => cardResult_error cap e w.drv.card n
  rw [transfer_goes] at hret
  unfold readSector sdmmcRead
  generalize sdmmcTransfer mmcReadBlockMultiple (scfRspR1 ||| scfCmdRead) e.sel
    (cardResult cap e w.drv.card) (BitVec.ofNat 32 n) 1#32 w.drv = r at hret h1 h2 h3 h4
  obtain ⟨ret, drv⟩ := r
  have hsame : SameCard w.drv.card drv.card := ⟨h1, h2, h3⟩
  by_cases hr : ret = 0
  · simp only [hr, if_true]
    refine ⟨⟨fun _ => hret.mp hr, fun _ => trivial⟩, hsame, trivial, fun _ => ⟨h4 hr, fun x => ?_⟩⟩
    rw [cardOffset_transferArg, hsame.target]
  · simp only [hr, if_false]
    exact ⟨⟨fun h => h.elim, fun h => absurd (hret.mpr h) hr⟩, hsame, trivial, fun h => h.elim⟩

theorem writeSector_spec (cap : ℕ) (e : Env) (n : ℕ) (w : Disk) :
    let d := writeSector cap e (BitVec.ofNat 32 n) w
    (d.1 = 0 ↔ Served w.drv.card e.sel ∧ e.fails = false ∧ target w.drv.card n < cap) ∧
      SameCard w.drv.card d.2.drv.card ∧ (d.1 ≠ 0 → d.2.medium = w.medium) ∧
      (d.1 = 0 → d.2.drv.card.selected ≠ 0 ∧
        d.2.medium = fill w.medium (512 * target w.drv.card n) 512 w.buffer) := by
  obtain ⟨hret, h1, h2, h3, h4⟩ := sdmmcTransfer_spec mmcWriteBlockMultiple scfRspR1
    e.sel (cardResult cap e w.drv.card) (BitVec.ofNat 32 n) 1#32 w.drv
    fun cmd => cardResult_error cap e w.drv.card n
  rw [transfer_goes] at hret
  unfold writeSector sdmmcWrite
  generalize sdmmcTransfer mmcWriteBlockMultiple scfRspR1 e.sel
    (cardResult cap e w.drv.card) (BitVec.ofNat 32 n) 1#32 w.drv = r at hret h1 h2 h3 h4
  obtain ⟨ret, drv⟩ := r
  have hsame : SameCard w.drv.card drv.card := ⟨h1, h2, h3⟩
  by_cases hr : ret = 0
  · simp only [hr, if_true]
    refine ⟨⟨fun _ => hret.mp hr, fun _ => trivial⟩, hsame, fun h => absurd rfl h,
      fun _ => ⟨h4 hr, ?_⟩⟩
    rw [cardOffset_transferArg, hsame.target]
  · simp only [hr, if_false]
    exact ⟨⟨fun h => h.elim, fun h => absurd (hret.mpr h) hr⟩, hsame, fun _ => trivial,
      fun h => h.elim⟩

/-! ## The loop over the sectors -/

/-- The rule for the loop: `I` holds before each pass that is reached, `P` after the loop, and
`pass` tells the passes that do not return. -/
theorem sectorLoop_rule {σ : Type*} (body : ℕ → σ → ℤ × σ) (s : σ) (I P : ℕ → σ → Prop)
    (pass : ℕ → Prop) (h0 : I 0 s) (hP : ∀ n s, I n s → P n s) (n : ℕ)
    (hbody : ∀ m < n, ∀ s, (∀ j < m, pass j) → I m s → ((body m s).1 = 0 ↔ pass m) ∧
      ((body m s).1 = 0 → I (m + 1) (body m s).2) ∧ ((body m s).1 ≠ 0 → P m (body m s).2)) :
    let r := sectorLoop body s n
    r.1 ≤ n ∧ (∀ i < n, i < r.1 ↔ ∀ j ≤ i, pass j) ∧ (r.1 = n → I n r.2) ∧ P r.1 r.2 := by
  induction n with
  | zero => exact ⟨le_refl 0, fun i hi => absurd hi (Nat.not_lt_zero i), fun _ => h0, hP 0 s h0⟩
  | succ n ih =>
    obtain ⟨hle, hpass, hI, hPr⟩ := ih fun m hm => hbody m (by omega)
    simp only [sectorLoop]
    generalize sectorLoop body s n = r at hle hpass hI hPr
    obtain ⟨k, t⟩ := r
    by_cases hk : k < n
    · simp only [hk, if_true]
      refine ⟨by omega, fun i hi => ?_, fun h => by omega, hPr⟩
      by_cases hin : i < n
      · exact hpass i hin
      · obtain rfl : i = n := by omega
        refine ⟨fun h => absurd h (by omega), fun h => ?_⟩
        exact absurd ((hpass k hk).mpr fun j hj => h j (by omega)) (lt_irrefl k)
    · simp only [hk, if_false]
      obtain rfl : k = n := by
        have := hle
        simp only at this
        omega
      have hprev : ∀ j < k, pass j := fun j hj => (hpass j hj).mp hj j (le_refl j)
      obtain ⟨hb, hgo, hstop⟩ := hbody k (Nat.lt_succ_self k) t hprev (hI rfl)
      by_cases hz : (body k t).1 = 0
      · simp only [hz, ne_eq, not_true_eq_false, if_false]
        refine ⟨le_refl _, fun i hi => ⟨fun _ j hj => ?_, fun _ => hi⟩, fun _ => hgo hz,
          hP _ _ (hgo hz)⟩
        rcases Nat.lt_or_eq_of_le (by omega : j ≤ k) with h | rfl
        · exact hprev j h
        · exact hb.mp hz
      · simp only [hz, ne_eq, not_false_eq_true, if_true]
        refine ⟨by omega, fun i hi => ?_, fun h => absurd h (by omega), hstop hz⟩
        by_cases hik : i < k
        · exact ⟨fun _ j hj => hprev j (by omega), fun _ => hik⟩
        · obtain rfl : i = k := by omega
          exact ⟨fun h => absurd h (lt_irrefl i), fun h => absurd (hb.mpr (h i (le_refl i))) hz⟩

/-- Transfer `i` of a call for `sector` goes through, when all before it do. -/
def Goes (cap : ℕ) (e : ℕ → Env) (sector : BitVec 32) (c : Card) (i : ℕ) : Prop :=
  (i = 0 → Served c (e 0).sel) ∧ (e i).fails = false ∧ target c (sector.toNat + i) < cap

/-- What a call knows of the card structure before pass `n`. -/
def Selected (c : Card) (n : ℕ) (c' : Card) : Prop :=
  SameCard c c' ∧ (n = 0 → c' = c) ∧ (0 < n → c.inserted ≠ 0 ∧ c.newCard ≠ 1 ∧ c'.selected ≠ 0)

/-- In pass `n` the transfer goes through exactly when `Goes` says so. -/
theorem goes_iff {cap : ℕ} {e : ℕ → Env} {sector : BitVec 32} {c c' : Card} {n : ℕ}
    (h : Selected c n c') :
    Served c' (e n).sel ∧ (e n).fails = false ∧ target c' (sector.toNat + n) < cap ↔
      Goes cap e sector c n := by
  obtain ⟨hsame, h0, hpos⟩ := h
  rw [hsame.target, Goes]
  refine and_congr ?_ Iff.rfl
  rcases Nat.eq_zero_or_pos n with rfl | hn
  · rw [h0 rfl]
    simp
  · obtain ⟨h1, h2, h3⟩ := hpos hn
    refine ⟨fun _ h => absurd h (by omega), fun _ => ⟨?_, ?_, Or.inl h3⟩⟩
    · rw [hsame.inserted]; exact h1
    · rw [hsame.newCard]; exact h2

theorem Selected.succ {c c' c'' : Card} {n : ℕ} {cap : ℕ} {e : ℕ → Env} {sector : BitVec 32}
    (h : Selected c n c') (hs : SameCard c' c'') (hgo : Goes cap e sector c n)
    (hsel : c''.selected ≠ 0) : Selected c (n + 1) c'' := by
  refine ⟨h.1.trans hs, fun h => by omega, fun _ => ?_⟩
  rcases Nat.eq_zero_or_pos n with rfl | hn
  · exact ⟨(hgo.1 rfl).1, (hgo.1 rfl).2.1, hsel⟩
  · exact ⟨(h.2.2 hn).1, (h.2.2 hn).2.1, hsel⟩

theorem selected_zero (c : Card) : Selected c 0 c :=
  ⟨⟨rfl, rfl, rfl⟩, fun _ => rfl, fun h => absurd h (lt_irrefl 0)⟩

/-- The caller's buffer holds the first `n` sectors, the card is as it was. -/
structure Copied (sector : BitVec 32) (w : Disk) (n : ℕ) (s : (ℕ → Byte) × Disk) : Prop where
  medium : s.2.medium = w.medium
  data : ∀ i < n, ∀ x < 512,
    s.1 (512 * i + x) = w.medium (512 * target w.drv.card (sector.toNat + i) + x)

/-- The first `n` sectors of the caller's buffer are on the card. -/
def Stored (buff : ℕ → Byte) (sector : BitVec 32) (w : Disk) (n : ℕ) (w' : Disk) : Prop :=
  w'.medium = fill w.medium (512 * sector.toNat) (512 * n) buff

section Calls

variable {cap : ℕ} {e : ℕ → Env} {buff : ℕ → Byte} {sector : BitVec 32} {w : Disk}

theorem readBody_spec {n : ℕ} {s : (ℕ → Byte) × Disk} (hsel : Selected w.drv.card n s.2.drv.card)
    (hs : Copied sector w n s) :
    let d := readBody cap e sector n s
    (d.1 = 0 ↔ Goes cap e sector w.drv.card n) ∧
      (d.1 = 0 → Selected w.drv.card (n + 1) d.2.2.drv.card ∧ Copied sector w (n + 1) d.2) ∧
      (d.1 ≠ 0 → Copied sector w n d.2) := by
  obtain ⟨b, v⟩ := s
  obtain ⟨hret, hsame, hm, hgo⟩ := readSector_spec cap (e n) (sector.toNat + n) v
  simp only [readBody, sector_add]
  generalize readSector cap (e n) (BitVec.ofNat 32 (sector.toNat + n)) v = r at hret hsame hm hgo
  obtain ⟨ret, v'⟩ := r
  rw [goes_iff hsel] at hret
  have hmed : v'.medium = w.medium := hm.trans hs.medium
  by_cases hr : ret = 0
  · simp only [hr, ne_eq, not_true_eq_false, if_false]
    obtain ⟨hs', hbuf⟩ := hgo hr
    refine ⟨⟨fun _ => hret.mp hr, fun _ => trivial⟩,
      fun _ => ⟨hsel.succ hsame (hret.mp hr) hs', hmed, fun i hi x hx => ?_⟩, fun h => h.elim⟩
    change fill b (512 * n) 512 v'.buffer (512 * i + x) = _
    rcases Nat.lt_or_eq_of_le (Nat.le_of_lt_succ hi) with h | rfl
    · rw [fill_other _ (by omega)]
      exact hs.data i h x hx
    · rw [fill_at _ _ _ hx, hbuf, hsel.1.target, hs.medium]
  · simp only [hr, ne_eq, not_false_eq_true, if_true]
    exact ⟨⟨fun h => h.elim, fun h => absurd (hret.mpr h) hr⟩, fun h => h.elim,
      fun _ => ⟨hmed, hs.data⟩⟩

variable (cap e buff sector w) in
theorem readLoop_spec (n : ℕ) :
    let r := sectorLoop (readBody cap e sector) (buff, w) n
    r.1 ≤ n ∧ (∀ i < n, i < r.1 ↔ ∀ j ≤ i, Goes cap e sector w.drv.card j) ∧
      Copied sector w r.1 r.2 := by
  have hrule := sectorLoop_rule (readBody cap e sector) (buff, w)
    (fun n s => Selected w.drv.card n s.2.drv.card ∧ Copied sector w n s)
    (Copied sector w) (Goes cap e sector w.drv.card)
    ⟨selected_zero _, rfl, fun i hi => absurd hi (Nat.not_lt_zero i)⟩ (fun _ _ h => h.2)
    n (fun _ _ _ _ h => readBody_spec h.1 h.2)
  exact ⟨hrule.1, hrule.2.1, hrule.2.2.2⟩

/-- One pass of `disk_write`, when its transfer reaches the sector of its number. -/
theorem writeBody_spec {n : ℕ} {s : Disk} (hsel : Selected w.drv.card n s.drv.card)
    (hs : Stored buff sector w n s)
    (hown : Goes cap e sector w.drv.card n →
      target w.drv.card (sector.toNat + n) = sector.toNat + n) :
    let d := writeBody cap e buff sector n s
    (d.1 = 0 ↔ Goes cap e sector w.drv.card n) ∧
      (d.1 = 0 → Selected w.drv.card (n + 1) d.2.drv.card ∧ Stored buff sector w (n + 1) d.2) ∧
      (d.1 ≠ 0 → Stored buff sector w n d.2) := by
  obtain ⟨hret, hsame, hfail, hgo⟩ := writeSector_spec cap (e n) (sector.toNat + n)
    { s with buffer := fun x => buff (512 * n + x) }
  simp only [writeBody, sector_add]
  generalize writeSector cap (e n) (BitVec.ofNat 32 (sector.toNat + n))
    { s with buffer := fun x => buff (512 * n + x) } = r at hret hsame hfail hgo
  rw [goes_iff hsel] at hret
  refine ⟨hret, fun hr => ?_, fun hr => (hfail hr).trans hs⟩
  obtain ⟨hs', hm⟩ := hgo hr
  refine ⟨hsel.succ hsame (hret.mp hr) hs', ?_⟩
  have hmed : s.medium = fill w.medium (512 * sector.toNat) (512 * n) buff := hs
  rw [Stored, hm, hsel.1.target, hown (hret.mp hr), hmed, Nat.mul_add, fill_append, ← Nat.mul_succ]

variable (cap e buff sector w) in
/-- The loop of `disk_write`, when each transfer that goes through reaches the sector of its
number. -/
theorem writeLoop_spec (n : ℕ)
    (hown : ∀ i < n, (∀ j ≤ i, Goes cap e sector w.drv.card j) →
      target w.drv.card (sector.toNat + i) = sector.toNat + i) :
    let r := sectorLoop (writeBody cap e buff sector) w n
    r.1 ≤ n ∧ (∀ i < n, i < r.1 ↔ ∀ j ≤ i, Goes cap e sector w.drv.card j) ∧
      Stored buff sector w r.1 r.2 := by
  have hzero : Stored buff sector w 0 w := by
    funext x
    exact (fill_other _ (by omega)).symm
  have hrule := sectorLoop_rule (writeBody cap e buff sector) w
    (fun n s => Selected w.drv.card n s.drv.card ∧ Stored buff sector w n s)
    (Stored buff sector w) (Goes cap e sector w.drv.card)
    ⟨selected_zero _, hzero⟩ (fun _ _ h => h.2) n fun m hm s hprev h =>
      writeBody_spec h.1 h.2 fun hgo => hown m hm fun j hj => by
        rcases Nat.lt_or_eq_of_le hj with hlt | rfl
        · exact hprev j hlt
        · exact hgo
  exact ⟨hrule.1, hrule.2.1, hrule.2.2.2⟩

variable (cap e buff sector w) in
/-- How many sectors `disk_write` writes does not depend on where they go. -/
theorem writeLoop_count (n : ℕ) :
    let r := sectorLoop (writeBody cap e buff sector) w n
    r.1 ≤ n ∧ ∀ i < n, i < r.1 ↔ ∀ j ≤ i, Goes cap e sector w.drv.card j := by
  have hrule := sectorLoop_rule (writeBody cap e buff sector) w
    (fun n s => Selected w.drv.card n s.drv.card) (fun _ _ => True) (Goes cap e sector w.drv.card)
    (selected_zero _) (fun _ _ _ => trivial) n fun m _ s _ h => by
      obtain ⟨hret, hsame, -, hgo⟩ := writeSector_spec cap (e m) (sector.toNat + m)
        { s with buffer := fun x => buff (512 * m + x) }
      simp only [writeBody, sector_add]
      rw [goes_iff h] at hret
      exact ⟨hret, fun hr => h.succ hsame (hret.mp hr) (hgo hr).1, fun _ => trivial⟩
  exact ⟨hrule.1, hrule.2.1⟩

end Calls

/-! ## Runs -/

/-- The disk, what was on the card at the start, and the sectors written since: the sector number of
the call and the data, the last one last.  `reached` pairs the sector number of each transfer that
went through with the byte of the card it started at. -/
structure DiskRun where
  disk : Disk
  initial : Mem
  log : List (ℕ × (ℕ → Byte))
  reached : List (ℕ × ℕ)

/-- The last data written to sector `n`, or what it held at the start. -/
def lastWrite (initial : Mem) (log : List (ℕ × (ℕ → Byte))) (n : ℕ) : ℕ → Byte :=
  log.foldl (fun data p => if p.1 = n then p.2 else data) fun x => initial (512 * n + x)

/-- A call, with what the card does in each of its transfers. -/
inductive DiskOp
  | read (e : ℕ → Env) (buff : ℕ → Byte) (sector : BitVec 32) (count : BitVec 8)
  | write (e : ℕ → Env) (buff : ℕ → Byte) (sector : BitVec 32) (count : BitVec 8)

/-- The first `k` sectors of a call, with the bytes of the card they reach. -/
def reachedBy (c : Card) (sector : BitVec 32) (k : ℕ) : List (ℕ × ℕ) :=
  (List.range k).map fun i =>
    (sector.toNat + i, cardOffset c (transferArg c (sector + BitVec.ofNat 32 i)))

/-- The first `k` sectors of the caller's buffer. -/
def writtenBy (buff : ℕ → Byte) (sector : BitVec 32) (k : ℕ) : List (ℕ × (ℕ → Byte)) :=
  (List.range k).map fun i => (sector.toNat + i, fun x => buff (512 * i + x))

def diskStep (cap : ℕ) (r : DiskRun) : DiskOp → DiskRun
  | .read e buff sector count =>
    { r with disk := (diskRead cap e buff sector count r.disk).2.2,
             reached := r.reached ++ reachedBy r.disk.drv.card sector
               (diskReadLoop cap e buff sector count r.disk).1 }
  | .write e buff sector count =>
    let k := (diskWriteLoop cap e buff sector count r.disk).1
    { r with disk := (diskWrite cap e buff sector count r.disk).2,
             log := r.log ++ writtenBy buff sector k,
             reached := r.reached ++ reachedBy r.disk.drv.card sector k }

/-- Any sequence of calls on a card of `cap` sectors. -/
def diskMachine (cap : ℕ) : Machine DiskRun DiskOp where
  init r := r.log = [] ∧ r.reached = [] ∧ r.initial = r.disk.medium
  step r op := some (diskStep cap r op)

/-- Sector `i` of a call is due: the card is there, its transfer does not fail for a reason of its
own, and the card has the sector. -/
def Due (cap : ℕ) (e : ℕ → Env) (sector : BitVec 32) (c : Card) (i : ℕ) : Prop :=
  (i = 0 → Served c (e 0).sel) ∧ (e i).fails = false ∧ sector.toNat + i < cap

/-- What a call has to do: it stops at the first sector that is not due and reports it. -/
def StopsAt (cap : ℕ) (e : ℕ → Env) (sector : BitVec 32) (c : Card) (n k : ℕ) (res : DResult) :
    Prop :=
  k ≤ n ∧ (∀ i < n, i < k ↔ ∀ j ≤ i, Due cap e sector c j) ∧ (res = .ok ↔ k = n)

/-- What a call has to do on the array of sectors. -/
def OpCorrect (cap : ℕ) (r : DiskRun) : DiskOp → Prop
  | .read e buff sector count =>
    let d := diskRead cap e buff sector count r.disk
    StopsAt cap e sector r.disk.drv.card count.toNat
        (diskReadLoop cap e buff sector count r.disk).1 d.1 ∧
      d.2.2.medium = r.disk.medium ∧
      (d.1 = .ok → ∀ i < count.toNat, ∀ x < 512,
        d.2.1 (512 * i + x) = lastWrite r.initial r.log (sector.toNat + i) x)
  | .write e buff sector count =>
    let d := diskWrite cap e buff sector count r.disk
    let k := (diskWriteLoop cap e buff sector count r.disk).1
    StopsAt cap e sector r.disk.drv.card count.toNat k d.1 ∧
      d.2.medium = fill r.disk.medium (512 * sector.toNat) (512 * k) buff

/-- Each transfer of the call that goes through reaches the sector of its number. -/
def OwnSectors (cap : ℕ) (r : DiskRun) : DiskOp → Prop
  | .read e _ sector count | .write e _ sector count =>
    ∀ i < count.toNat, (∀ j ≤ i, Goes cap e sector r.disk.drv.card j) →
      target r.disk.drv.card (sector.toNat + i) = sector.toNat + i

/-- Every sector of the card has an address. -/
def Addressable (cap : ℕ) (c : Card) : Prop := cap ≤ if c.sdhcBlockmode ≠ 0 then 2 ^ 32 else 2 ^ 23

theorem target_le (c : Card) (n : ℕ) : target c n ≤ n := by
  unfold target
  split <;> exact Nat.mod_le _ _

theorem Addressable.target {cap n : ℕ} {c : Card} (h : Addressable cap c) (hn : n < cap) :
    Diskio.target c n = n := by
  unfold Addressable at h
  unfold Diskio.target
  split at h
  · rw [if_pos ‹_›, Nat.mod_eq_of_lt (by omega)]
  · rw [if_neg ‹_›, Nat.mod_eq_of_lt (by omega)]

section Stops

variable {cap : ℕ} {e : ℕ → Env} {sector : BitVec 32} {c : Card}

theorem Due.goes {i : ℕ} (h : Due cap e sector c i) : Goes cap e sector c i :=
  ⟨h.1, h.2.1, lt_of_le_of_lt (target_le _ _) h.2.2⟩

theorem Goes.due {i : ℕ} (h : Goes cap e sector c i)
    (hown : target c (sector.toNat + i) = sector.toNat + i) : Due cap e sector c i :=
  ⟨h.1, h.2.1, hown ▸ h.2.2⟩

/-- A loop that stops at the first transfer that does not go through stops where it has to, when
each transfer reaches the sector of its number, and on a card with an address for every sector only
then. -/
theorem stopsAt_of_own {n k : ℕ} (hk : k ≤ n)
    (hgo : ∀ i < n, i < k ↔ ∀ j ≤ i, Goes cap e sector c j)
    (hown : ∀ i < n, (∀ j ≤ i, Goes cap e sector c j) →
      target c (sector.toNat + i) = sector.toNat + i) :
    StopsAt cap e sector c n k (if k < n then .error else .ok) := by
  refine ⟨hk, fun i hi => ?_, ?_⟩
  · rw [hgo i hi]
    refine ⟨fun h j hj => ?_, fun h j hj => (h j hj).goes⟩
    exact (h j hj).due (hown j (by omega) fun l hl => h l (by omega))
  · by_cases h : k < n
    · simp [h, h.ne]
    · simp [(by omega : k = n)]

theorem own_of_stopsAt {n k : ℕ} {res : DResult} (hcap : Addressable cap c)
    (hgo : ∀ i < n, i < k ↔ ∀ j ≤ i, Goes cap e sector c j)
    (h : StopsAt cap e sector c n k res) (i : ℕ) (hi : i < n)
    (hall : ∀ j ≤ i, Goes cap e sector c j) : target c (sector.toNat + i) = sector.toNat + i :=
  hcap.target (((h.2.1 i hi).mp ((hgo i hi).mpr hall)) i (le_refl i)).2.2

end Stops

/-! ### The content of the sectors -/

theorem lastWrite_append (initial : Mem) (log : List (ℕ × (ℕ → Byte))) (p : ℕ × (ℕ → Byte)) (n : ℕ) :
    lastWrite initial (log ++ [p]) n = if p.1 = n then p.2 else lastWrite initial log n := by
  simp [lastWrite, List.foldl_append]

theorem lastWrite_writtenBy (initial : Mem) (log : List (ℕ × (ℕ → Byte))) (buff : ℕ → Byte)
    (sector : BitVec 32) (k n x : ℕ) :
    lastWrite initial (log ++ writtenBy buff sector k) n x =
      if sector.toNat ≤ n ∧ n < sector.toNat + k then buff (512 * (n - sector.toNat) + x)
      else lastWrite initial log n x := by
  induction k with
  | zero =>
    rw [if_neg (by omega)]
    simp [writtenBy]
  | succ k ih =>
    rw [writtenBy, List.range_succ, List.map_append, ← List.append_assoc, List.map_singleton,
      lastWrite_append]
    change (if sector.toNat + k = n then _
      else lastWrite initial (log ++ writtenBy buff sector k) n) x = _
    by_cases hn : sector.toNat + k = n
    · rw [if_pos hn, if_pos (by omega), ← hn, Nat.add_sub_cancel_left]
    · rw [if_neg hn, ih]
      by_cases hin : sector.toNat ≤ n ∧ n < sector.toNat + k
      · rw [if_pos hin, if_pos (by omega)]
      · rw [if_neg hin, if_neg (by omega)]

/-- Every sector holds what was last written to it, and no transfer reached another sector. -/
structure Sectors (r : DiskRun) : Prop where
  content : ∀ n, ∀ x < 512, r.disk.medium (512 * n + x) = lastWrite r.initial r.log n x
  reached : ∀ p ∈ r.reached, p.2 = 512 * p.1

theorem reachedBy_own {cap k n : ℕ} {e : ℕ → Env} {sector : BitVec 32} {c : Card} (hk : k ≤ n)
    (hgo : ∀ i < n, i < k ↔ ∀ j ≤ i, Goes cap e sector c j)
    (hown : ∀ i < n, (∀ j ≤ i, Goes cap e sector c j) →
      target c (sector.toNat + i) = sector.toNat + i) :
    ∀ p ∈ reachedBy c sector k, p.2 = 512 * p.1 := by
  intro p hp
  obtain ⟨i, hi, rfl⟩ := List.mem_map.mp hp
  rw [List.mem_range] at hi
  have hin : i < n := by omega
  rw [sector_add, cardOffset_transferArg, hown i hin ((hgo i hin).mp hi)]

theorem sectors_init {cap : ℕ} (r : DiskRun) (h : (diskMachine cap).init r) : Sectors r := by
  obtain ⟨hlog, hreached, hinit⟩ := h
  refine ⟨fun n x _ => ?_, fun p hp => ?_⟩
  · rw [hlog, hinit]
    rfl
  · rw [hreached] at hp
    exact absurd hp List.not_mem_nil

/-- A call keeps the sectors what they are. -/
theorem Sectors.step {cap : ℕ} {r : DiskRun} (hr : Sectors r) (op : DiskOp)
    (hown : OwnSectors cap r op) : Sectors (diskStep cap r op) := by
  cases op with
  | read e buff sector count =>
    obtain ⟨hk, hgo, hcopied⟩ := readLoop_spec cap e buff sector r.disk count.toNat
    refine ⟨fun n x hx => ?_, fun p hp => ?_⟩
    · have hm : (diskStep cap r (.read e buff sector count)).disk.medium = r.disk.medium :=
        hcopied.medium
      rw [hm]
      exact hr.content n x hx
    · rcases List.mem_append.mp hp with h | h
      · exact hr.reached p h
      · exact reachedBy_own hk hgo hown p h
  | write e buff sector count =>
    obtain ⟨hk, hgo, hstored⟩ := writeLoop_spec cap e buff sector r.disk
      count.toNat hown
    refine ⟨fun n x hx => ?_, fun p hp => ?_⟩
    · have hm : (diskStep cap r (.write e buff sector count)).disk.medium =
          fill r.disk.medium (512 * sector.toNat)
            (512 * (diskWriteLoop cap e buff sector count r.disk).1) buff := hstored
      simp only [diskStep] at hm ⊢
      rw [hm, lastWrite_writtenBy, fill]
      generalize (diskWriteLoop cap e buff sector count r.disk).1 = k
      by_cases hn : sector.toNat ≤ n ∧ n < sector.toNat + k
      · rw [if_pos hn, if_pos (by omega)]
        congr 1
        omega
      · rw [if_neg hn, if_neg (by omega)]
        exact hr.content n x hx
    · rcases List.mem_append.mp hp with h | h
      · exact hr.reached p h
      · exact reachedBy_own hk hgo hown p h

theorem ReachWhere.sectors {cap : ℕ} {r : DiskRun}
    (hr : (diskMachine cap).ReachWhere (OwnSectors cap) r) : Sectors r :=
  hr.invariant sectors_init fun _ op _ hs hown hst => Option.some.inj hst ▸ hs.step op hown

theorem opCorrect_of_own {cap : ℕ} {r : DiskRun} (hr : Sectors r) {op : DiskOp}
    (hown : OwnSectors cap r op) : OpCorrect cap r op := by
  cases op with
  | read e buff sector count =>
    obtain ⟨hk, hgo, hcopied⟩ := readLoop_spec cap e buff sector r.disk count.toNat
    have hstop := stopsAt_of_own hk hgo hown
    refine ⟨hstop, hcopied.medium, fun hok i hi x hx => ?_⟩
    have hlast := hstop.2.2.mp hok
    have hall := (hgo i hi).mp (by rw [hlast]; exact hi)
    have hdata := hcopied.data i (by rw [hlast]; exact hi) x hx
    rw [hown i hi hall] at hdata
    exact hdata.trans (hr.content _ x hx)
  | write e buff sector count =>
    obtain ⟨hk, hgo, hstored⟩ := writeLoop_spec cap e buff sector r.disk
      count.toNat hown
    exact ⟨stopsAt_of_own hk hgo hown, hstored⟩

theorem own_of_opCorrect {cap : ℕ} {r : DiskRun} (hcap : Addressable cap r.disk.drv.card)
    {op : DiskOp} (h : OpCorrect cap r op) : OwnSectors cap r op := by
  cases op with
  | read e buff sector count =>
    exact own_of_stopsAt hcap (readLoop_spec cap e buff sector _ count.toNat).2.1 h.1
  | write e buff sector count =>
    exact own_of_stopsAt hcap (writeLoop_count cap e buff sector _ count.toNat).2 h.1

/-- **The array of sectors**: in every run of calls whose transfers reach the sectors of their
numbers, no two sector numbers reach the same byte of the card, and a call does what it has to do on
the array of sectors if its transfers reach theirs; on a card with an address for each of its
sectors, only then. -/
theorem diskio_array {cap : ℕ} {r : DiskRun}
    (hr : (diskMachine cap).ReachWhere (OwnSectors cap) r) :
    (∀ p ∈ r.reached, ∀ q ∈ r.reached, p.2 = q.2 → p.1 = q.1) ∧
      (∀ op, OwnSectors cap r op → OpCorrect cap r op) ∧
      (Addressable cap r.disk.drv.card → ∀ op, OpCorrect cap r op → OwnSectors cap r op) := by
  have hs := ReachWhere.sectors hr
  refine ⟨fun p hp q hq h => ?_, fun op => opCorrect_of_own hs, fun hcap op => own_of_opCorrect hcap⟩
  rw [hs.reached p hp, hs.reached q hq] at h
  exact Nat.eq_of_mul_eq_mul_left (by omega) h

/-- A selected card of 4096 sectors with byte addresses, all bytes zero. -/
def plainDisk : Disk :=
  { drv :=
      { host := { ocr := 0#32, clkbase := 0, powerCtl := 0#8, clockCtl := 0#16 },
        card := { inserted := 1, sdhcBlockmode := 0, selected := 1, newCard := 0, timeout := 0#32,
                  numSectors := 4096#32, cid := 0#32, rca := 1#16 },
        sent := [] },
    buffer := fun _ => 0#8, medium := fun _ => 0#8 }

def plainRun : DiskRun :=
  { disk := plainDisk, initial := plainDisk.medium, log := [], reached := [] }

def noFault : ℕ → Env := fun _ => { sel := transferOk, fails := false, left := fun _ => 0#8 }

/-- `disk_write` of one sector of `0xaa`. -/
def fillSector (sector : BitVec 32) : DiskOp := .write noFault (fun _ => 0xaa#8) sector 1#8

theorem plainRun_own : OwnSectors 4096 plainRun (fillSector 7#32) := by
  intro i hi _
  obtain rfl : i = 0 := Nat.lt_one_iff.mp hi
  rfl

theorem diskio_array_plain :
    OpCorrect 4096 (diskStep 4096 plainRun (fillSector 7#32)) (fillSector 8#32) := by
  have hown : OwnSectors 4096 (diskStep 4096 plainRun (fillSector 7#32)) (fillSector 8#32) := by
    intro i hi _
    obtain rfl : i = 0 := Nat.lt_one_iff.mp hi
    rfl
  exact (diskio_array (.step (.init ⟨rfl, rfl, rfl⟩) plainRun_own rfl)).2.1 _ hown

/-- On that card, which has 4096 sectors, a write to sector `0x800000` succeeds and overwrites
sector 0. -/
theorem diskWrite_wraps :
    (diskWrite 4096 noFault (fun _ => 0xaa#8) 0x800000#32 1#8 plainDisk).1 = .ok ∧
      (diskWrite 4096 noFault (fun _ => 0xaa#8) 0x800000#32 1#8 plainDisk).2.medium 0 = 0xaa#8 ∧
      ¬∀ (cap : ℕ) (r : DiskRun), (diskMachine cap).Reach r → ∀ op, OpCorrect cap r op := by
  have hok : (diskWrite 4096 noFault (fun _ => 0xaa#8) 0x800000#32 1#8 plainDisk).1 = .ok := by
    decide +kernel
  refine ⟨hok, by decide +kernel, fun h => ?_⟩
  have hop := (h 4096 plainRun (.init ⟨rfl, rfl, rfl⟩) (fillSector 0x800000#32)).1
  have hlast := hop.2.2.mp hok
  have hdue := (hop.2.1 0 (by decide)).mp (by rw [hlast]; decide) 0 (le_refl 0)
  exact absurd hdue.2.2 (by decide)

end VwiiNandTools.Diskio
