import VwiiNandTools.Armboot.Storage.Sdmmc.Card

/-!
# Card discovery

`sdmmc_needs_discover`, with its three cleanup labels.  `Identified` says that the steps up to the
relative address succeed; after them the card is marked as inserted, before the last two mandatory
steps.  `needsDiscover_ends` lists where the function can end, and `needsDiscover_allOrNothing` says
when it keeps its promise: it does not when an earlier card is still marked as inserted and this
discovery fails before it gets to the mark, nor when SEND_CSD fails, after which nothing takes the
mark back.
-/

namespace VwiiNandTools.Sdmmc

open ByteMemory

/-- What the bus and the card do in one call of `sdmmc_needs_discover`.  `appCmd t` and `opCond t`
belong to try `t` of the ACMD41 loop. -/
structure Outcomes where
  cardDetect : Bool
  powerRises : Bool
  clockStable : ℕ → Bool
  goIdle : CmdResult
  ifCond : CmdResult
  appCmd : ℕ → CmdResult
  opCond : ℕ → CmdResult
  allSendCid : CmdResult
  sendRca : CmdResult
  sendCsd : CmdResult
  select : CmdResult
  setBlocklen : CmdResult

/-! ## The source -/

/-- `card.timeout` for a card that is not SDHC. -/
def csdTimeout (taac : BitVec 32) : BitVec 32 :=
  let timeUnit := [1, 10, 100, 1000, 10000, 100000, 1000000, 10000000]
  let timeValue := [1, 10, 12, 13, 15, 20, 25, 30, 35, 40, 45, 50, 55, 60, 70, 80]
  BitVec.ofNat 32 (timeUnit.getD (taac &&& 7#32).toNat 0) *
    BitVec.ofNat 32 (timeValue.getD (taac >>> 3 &&& 0xf#32).toNat 0) / 10#32

/-- The bytes of `cmd.c_resp` as 32-bit values. -/
def respByte (resp : ℕ → Byte) (i : ℕ) : BitVec 32 := (resp i).setWidth 32

/-- `card.timeout` and `card.num_sectors` from the bytes of a CSD. -/
def decodeCsd (resp : ℕ → Byte) : BitVec 32 × BitVec 32 :=
  if resp 13 = 0x0e#8 then
    let cSize := respByte resp 7 <<< 16 ||| respByte resp 6 <<< 8 ||| respByte resp 5
    (250#32 * 1000000#32, (cSize + 1#32) * 1024#32)
  else
    let taac := respByte resp 13
    let readBlLen := respByte resp 9 &&& 0xf#32
    let cSize := (respByte resp 8 &&& 3#32) <<< 10 ||| respByte resp 7 <<< 2 |||
      respByte resp 6 >>> 6
    let cSizeMult := (respByte resp 5 &&& 3#32) <<< 1 ||| respByte resp 4 >>> 7
    (csdTimeout taac,
      (cSize + 1#32) * (4#32 <<< cSizeMult) * (1#32 <<< readBlLen) / 512#32)

/-- `ocr` after SEND_IF_COND. -/
def ifCondOcr (ifCond : CmdResult) (ocr : BitVec 32) : BitVec 32 :=
  if ifCond.error ≠ 0 ∨ ifCond.mmcR1 &&& 0xff#32 ≠ 0xaa#32 then ocr &&& ~~~sdOcrSdhcCap
  else ocr ||| sdOcrSdhcCap

/-- `ISSET(MMC_R1(cmd.c_resp), MMC_OCR_MEM_READY)`. -/
def ready (r : CmdResult) : Bool := r.mmcR1 &&& mmcOcrMemReady ≠ 0#32

section Source

variable (o : Outcomes)

/-- The ACMD41 loop with `tries` tries left; the result is the last command of the loop. -/
def opCondLoop (ocr : BitVec 32) (tries : ℕ) (last : CmdResult) (s : Driver) : CmdResult × Driver :=
  match tries with
  | 0 => (last, s)
  | n + 1 =>
    let t := 100 - (n + 1)
    let s := exec (command mmcAppCmd 0#32 scfRspR1) s
    if (o.appCmd t).error ≠ 0 then opCondLoop ocr n (o.appCmd t) s
    else
      let s := exec (command sdAppOpCond ocr scfRspR3) s
      if (o.opCond t).error ≠ 0 then opCondLoop ocr n (o.opCond t) s
      else if ready (o.opCond t) then (o.opCond t, s)
      else opCondLoop ocr n (o.opCond t) s

def outPower (s : Driver) : Driver := { s with host := (sdhcBusPower o.powerRises 0 s.host).2 }

def outClock (s : Driver) : Driver :=
  outPower o { s with host := (sdhcBusClock o.clockStable sdmmcSdclkOff s.host).2 }

/-- From SEND_CSD to the end. -/
def discoverCsd (s : Driver) : Driver :=
  let s := exec (command mmcSendCsd (s.card.rca.setWidth 32 <<< 16) scfRspR2) s
  if o.sendCsd.error ≠ 0 then outPower o s
  else
    let (timeout, numSectors) := decodeCsd o.sendCsd.cResp
    let s := { s with card := { s.card with timeout := timeout, numSectors := numSectors } }
    let s := (sdmmcSelect o.select s).2
    let s := exec (command mmcSetBlocklen sdmmcDefaultBlocklen scfRspR1) s
    if o.setBlocklen.error ≠ 0 then
      outClock o { s with card := { s.card with inserted := 0, selected := 0 } }
    else s

/-- From ALL_SEND_CID to the mark. -/
def discoverCid (s : Driver) : Driver :=
  let s := exec (command mmcAllSendCid 0#32 scfRspR2) s
  if o.allSendCid.error ≠ 0 then outClock o s
  else
    let s := { s with card := { s.card with cid := o.allSendCid.mmcR1 } }
    let s := exec (command sdSendRelativeAddr 0#32 scfRspR6) s
    if o.sendRca.error ≠ 0 then outClock o s
    else
      let rca := (o.sendRca.mmcR1 >>> 16).setWidth 16
      discoverCsd o { s with card := { s.card with rca := rca, selected := 0, inserted := 1 } }

/-- From GO_IDLE_STATE to the ready OCR. -/
def discoverOcr (s : Driver) : Driver :=
  let s := exec (command mmcGoIdleState 0#32 scfRspR0) s
  if o.goIdle.error ≠ 0 then outClock o s
  else
    let s := exec { command sdSendIfCond 0x1aa#32 scfRspR7 with timeout := 100 } s
    let (last, s) := opCondLoop o (ifCondOcr o.ifCond s.host.ocr) 100 o.ifCond s
    if ¬ready last then outPower o s
    else
      let blockmode := if last.mmcR1 &&& sdOcrSdhcCap ≠ 0#32 then 1 else 0
      discoverCid o { s with card := { s.card with sdhcBlockmode := blockmode } }

def sdmmcNeedsDiscover (s : Driver) : Driver :=
  let s := { s with host := sdhcHostReset s.host, card := { s.card with newCard := 1 } }
  if ¬o.cardDetect then { s with card := { s.card with inserted := 0 } }
  else
    let (err, host) := sdhcBusPower o.powerRises 1 s.host
    let s := { s with host := host }
    if err ≠ 0 then s
    else
      let (err, host) := sdhcBusClock o.clockStable sdmmcDefaultClock s.host
      let s := { s with host := host }
      if err ≠ 0 then outPower o s
      else discoverOcr o s

end Source

/-! ## What it promises -/

/-- The power step succeeds. -/
def PowerOk (o : Outcomes) : Prop := o.powerRises = true

/-- The clock step succeeds for a base clock. -/
def ClockOk (o : Outcomes) (clkbase : ℕ) : Prop :=
  (sdhcClockDivisor clkbase sdmmcDefaultClock).isSome ∧ (List.range 1000).any o.clockStable = true

/-- Try `t` of the ACMD41 loop finds the card ready. -/
def readyTry (o : Outcomes) (t : ℕ) : Bool :=
  (o.appCmd t).error = 0 && (o.opCond t).error = 0 && ready (o.opCond t)

/-- The response of the first try that finds the card ready. -/
def readyOcr (o : Outcomes) : Option CmdResult := ((List.range 100).find? (readyTry o)).map o.opCond

/-- The steps up to the relative address succeed. -/
structure Identified (o : Outcomes) (clkbase : ℕ) : Prop where
  power : PowerOk o
  clock : ClockOk o clkbase
  goIdle : o.goIdle.error = 0
  ocr : (readyOcr o).isSome
  cid : o.allSendCid.error = 0
  rca : o.sendRca.error = 0

/-- Every mandatory step succeeded, and the card is the one of this discovery. -/
structure Discovered (o : Outcomes) (clkbase : ℕ) (s : Driver) : Prop where
  identified : Identified o clkbase
  csd : o.sendCsd.error = 0
  blocklen : o.setBlocklen.error = 0
  inserted : s.card.inserted = 1
  powerOn : s.host.powerCtl &&& sdhcBusPowerBit ≠ 0#8
  clockOn : s.host.clockCtl &&& sdhcSdclkEnable ≠ 0#16
  rca : s.card.rca = (o.sendRca.mmcR1 >>> 16).setWidth 16
  blockmode : ∃ r, readyOcr o = some r ∧
    s.card.sdhcBlockmode = if r.mmcR1 &&& sdOcrSdhcCap ≠ 0#32 then 1 else 0
  numSectors : s.card.numSectors = (decodeCsd o.sendCsd.cResp).2

/-- There is no card: it is reported, and every request is refused without a command. -/
def NoCard (s : Driver) : Prop :=
  s.card.inserted = 0 ∧ sdmmcCheckCard s.card = sdmmcNoCard ∧
    (∀ sel xfer blkStart blkCount, sdmmcRead sel xfer blkStart blkCount s = (-1, s)) ∧
    (∀ sel xfer blkStart blkCount, sdmmcWrite sel xfer blkStart blkCount s = (-1, s)) ∧
    sdmmcGetSectors s.card = -1

theorem noCard_iff {s : Driver} : NoCard s ↔ s.card.inserted = 0 := by
  refine ⟨fun h => h.1, fun h => ⟨h, ?_, fun _ _ _ _ => ?_, fun _ _ _ _ => ?_, ?_⟩⟩
  · simp [sdmmcCheckCard, h]
  · simp [sdmmcRead, sdmmcTransfer, h]
  · simp [sdmmcWrite, sdmmcTransfer, h]
  · simp [sdmmcGetSectors, h]

/-! ## The steps -/

section Steps

variable (o : Outcomes) (s : Driver)

@[simp] theorem exec_card (c : Command) : (exec c s).card = s.card := rfl
@[simp] theorem exec_host (c : Command) : (exec c s).host = s.host := rfl
@[simp] theorem outPower_card : (outPower o s).card = s.card := rfl
@[simp] theorem outClock_card : (outClock o s).card = s.card := rfl

theorem sdmmcSelect_frame (sel : CmdResult) :
    (sdmmcSelect sel s).2.host = s.host ∧
      (sdmmcSelect sel s).2.card.inserted = s.card.inserted ∧
      (sdmmcSelect sel s).2.card.rca = s.card.rca ∧
      (sdmmcSelect sel s).2.card.sdhcBlockmode = s.card.sdhcBlockmode ∧
      (sdmmcSelect sel s).2.card.numSectors = s.card.numSectors := by
  unfold sdmmcSelect
  split <;> exact ⟨rfl, rfl, rfl, rfl, rfl⟩

theorem busPower_error (h : Host) : (sdhcBusPower o.powerRises 1 h).1 = 0 ↔ PowerOk o := by
  unfold PowerOk
  cases o.powerRises <;> simp [sdhcBusPower, sdhcVoltage33V, sdhcBusPowerBit, enxio]

theorem busPower_clkbase (h : Host) : (sdhcBusPower o.powerRises 1 h).2.clkbase = h.clkbase := by
  simp only [sdhcBusPower, Nat.one_ne_zero, if_false]
  split <;> rfl

theorem busPower_on (h : Host) (hp : PowerOk o) :
    (sdhcBusPower o.powerRises 1 h).2.powerCtl &&& sdhcBusPowerBit ≠ 0#8 := by
  rw [PowerOk] at hp
  rw [hp]
  simp [sdhcBusPower, sdhcVoltage33V, sdhcBusPowerBit]

theorem busClock_error (h : Host) :
    (sdhcBusClock o.clockStable sdmmcDefaultClock h).1 = 0 ↔ ClockOk o h.clkbase := by
  have hoff : sdmmcDefaultClock ≠ sdmmcSdclkOff := by decide
  simp only [sdhcBusClock, hoff, if_false, ClockOk]
  cases sdhcClockDivisor h.clkbase sdmmcDefaultClock with
  | none => simp [einval]
  | some div =>
    cases (List.range 1000).any o.clockStable with
    | true => simp
    | false => simp [etimedout]

theorem busClock_powerCtl (h : Host) :
    (sdhcBusClock o.clockStable sdmmcDefaultClock h).2.powerCtl = h.powerCtl := by
  have hoff : sdmmcDefaultClock ≠ sdmmcSdclkOff := by decide
  simp only [sdhcBusClock, hoff, if_false]
  split
  · rfl
  · split <;> rfl

theorem busClock_on (h : Host) (hc : ClockOk o h.clkbase) :
    (sdhcBusClock o.clockStable sdmmcDefaultClock h).2.clockCtl &&& sdhcSdclkEnable ≠ 0#16 := by
  have hoff : sdmmcDefaultClock ≠ sdmmcSdclkOff := by decide
  obtain ⟨div, hdiv⟩ := Option.isSome_iff_exists.mp hc.1
  simp only [sdhcBusClock, hoff, if_false, hdiv, hc.2, if_true]
  intro h0
  have hbit := congrArg (fun x => BitVec.getLsbD x 2) h0
  simp [sdhcSdclkEnable] at hbit

/-! ### The ACMD41 loop -/

theorem not_ready_of_error {r : CmdResult} (h : r.error ≠ 0) : ready r = false := by
  simp [ready, CmdResult.mmcR1, CmdResult.cResp, h, be32]

theorem opCondLoop_frame (ocr : BitVec 32) (tries : ℕ) (last : CmdResult) :
    (opCondLoop o ocr tries last s).2.card = s.card ∧
      (opCondLoop o ocr tries last s).2.host = s.host := by
  induction tries generalizing last s with
  | zero => exact ⟨rfl, rfl⟩
  | succ n ih =>
    simp only [opCondLoop]
    split
    · exact ih _ _
    · split
      · exact ih _ _
      · split
        · exact ⟨rfl, rfl⟩
        · exact ih _ _

/-- The loop ends with the first ready response, if a try gets one. -/
theorem opCondLoop_result (ocr : BitVec 32) {tries : ℕ} (ht : tries ≤ 100) (last : CmdResult)
    (hlast : tries = 0 → ready last = false) :
    match (List.range' (100 - tries) tries).find? (readyTry o) with
    | some t => (opCondLoop o ocr tries last s).1 = o.opCond t
    | none => ready (opCondLoop o ocr tries last s).1 = false := by
  induction tries generalizing last s with
  | zero => exact hlast rfl
  | succ n ih =>
    have hnext : 100 - (n + 1) + 1 = 100 - n := by omega
    have ih' := fun last h s => ih s (by omega) last (fun _ => h)
    rw [List.range'_succ, hnext, List.find?_cons]
    simp only [opCondLoop]
    generalize 100 - (n + 1) = t
    by_cases ha : (o.appCmd t).error = 0
    · rw [if_neg (not_not.mpr ha)]
      by_cases hc : (o.opCond t).error = 0
      · rw [if_neg (not_not.mpr hc)]
        cases hr : ready (o.opCond t) with
        | true => simp [readyTry, ha, hc, hr]
        | false =>
          simp only [readyTry, hr, Bool.and_false]
          exact ih' _ hr _
      · rw [if_pos hc]
        simp only [readyTry, hc, decide_false, Bool.and_false, Bool.false_and]
        exact ih' _ (not_ready_of_error hc) _
    · rw [if_pos ha]
      simp only [readyTry, ha, decide_false, Bool.false_and]
      exact ih' _ (not_ready_of_error ha) _

theorem opCondLoop_ready (ocr : BitVec 32) (last : CmdResult) {r : CmdResult}
    (h : readyOcr o = some r) :
    (opCondLoop o ocr 100 last s).1 = r ∧ ready r = true := by
  obtain ⟨t, ht, rfl⟩ := Option.map_eq_some_iff.mp h
  have hres := opCondLoop_result o s ocr (le_refl 100) last (fun h => absurd h (by decide))
  rw [Nat.sub_self, ← List.range_eq_range', ht] at hres
  have hready := List.find?_some ht
  simp only [readyTry, Bool.and_eq_true] at hready
  exact ⟨hres, hready.2⟩

theorem opCondLoop_not_ready (ocr : BitVec 32) (last : CmdResult) (h : readyOcr o = none) :
    ready (opCondLoop o ocr 100 last s).1 = false := by
  have hres := opCondLoop_result o s ocr (le_refl 100) last (fun h => absurd h (by decide))
  rw [readyOcr, Option.map_eq_none_iff] at h
  rwa [Nat.sub_self, ← List.range_eq_range', h] at hres

/-! ### The whole call -/

/-- How the call ends from `s` on, when `id` says that the steps up to the mark succeed: without
them the mark is as before, and with them it depends on the last two mandatory steps. -/
structure Ends (id : Prop) (done : Driver → Prop) (d : Driver) : Prop where
  unidentified : ¬id → d.card.inserted = s.card.inserted
  csdFails : id → o.sendCsd.error ≠ 0 → d.card.inserted = 1
  blocklenFails : id → o.sendCsd.error = 0 → o.setBlocklen.error ≠ 0 → d.card.inserted = 0
  success : id → o.sendCsd.error = 0 → o.setBlocklen.error = 0 → done d

variable {o s}

theorem Ends.of_fails {id : Prop} {done : Driver → Prop} {d : Driver} (hid : ¬id)
    (h : d.card.inserted = s.card.inserted) : Ends o s id done d :=
  ⟨fun _ => h, fun hi => absurd hi hid, fun hi => absurd hi hid, fun hi => absurd hi hid⟩

theorem Ends.mono {s' : Driver} {id id' : Prop} {done done' : Driver → Prop} {d : Driver}
    (h : Ends o s' id' done' d) (hs : s'.card.inserted = s.card.inserted) (hid : id ↔ id')
    (hdone : id → o.sendCsd.error = 0 → o.setBlocklen.error = 0 → done' d → done d) :
    Ends o s id done d :=
  ⟨fun hn => (h.unidentified fun hi => hn (hid.mpr hi)).trans hs, fun hi => h.csdFails (hid.mp hi),
    fun hi => h.blocklenFails (hid.mp hi),
    fun hi h1 h2 => hdone hi h1 h2 (h.success (hid.mp hi) h1 h2)⟩

variable (o s)

/-- From the mark on. -/
theorem discoverCsd_ends (hmark : s.card.inserted = 1) :
    Ends o s True (fun d => d.host = s.host ∧ d.card.inserted = 1 ∧ d.card.rca = s.card.rca ∧
      d.card.sdhcBlockmode = s.card.sdhcBlockmode ∧
      d.card.numSectors = (decodeCsd o.sendCsd.cResp).2) (discoverCsd o s) := by
  refine ⟨fun h => absurd trivial h, fun _ h => ?_, fun _ h h' => ?_, fun _ h h' => ?_⟩ <;>
    simp only [discoverCsd]
  · rw [if_pos h]
    exact hmark
  · rw [if_neg (not_not.mpr h), if_pos h']
    rfl
  · rw [if_neg (not_not.mpr h), if_neg (not_not.mpr h')]
    obtain ⟨h1, h2, h3, h4, h5⟩ := sdmmcSelect_frame
      { exec (command mmcSendCsd (s.card.rca.setWidth 32 <<< 16) scfRspR2) s with
        card := { s.card with timeout := (decodeCsd o.sendCsd.cResp).1,
                              numSectors := (decodeCsd o.sendCsd.cResp).2 } } o.select
    exact ⟨h1, h2.trans hmark, h3, h4, h5⟩

/-- From ALL_SEND_CID on. -/
theorem discoverCid_ends :
    Ends o s (o.allSendCid.error = 0 ∧ o.sendRca.error = 0)
      (fun d => d.host = s.host ∧ d.card.inserted = 1 ∧
        d.card.rca = (o.sendRca.mmcR1 >>> 16).setWidth 16 ∧
        d.card.sdhcBlockmode = s.card.sdhcBlockmode ∧
        d.card.numSectors = (decodeCsd o.sendCsd.cResp).2) (discoverCid o s) := by
  simp only [discoverCid]
  by_cases hcid : o.allSendCid.error = 0
  · rw [if_neg (not_not.mpr hcid)]
    by_cases hrca : o.sendRca.error = 0
    · rw [if_neg (not_not.mpr hrca)]
      have h := discoverCsd_ends o { s with
        sent := s.sent ++ [command mmcAllSendCid 0#32 scfRspR2] ++
          [command sdSendRelativeAddr 0#32 scfRspR6],
        card := { s.card with cid := o.allSendCid.mmcR1, selected := 0, inserted := 1,
                              rca := (o.sendRca.mmcR1 >>> 16).setWidth 16 } } rfl
      exact ⟨fun hn => absurd ⟨hcid, hrca⟩ hn, fun _ => h.csdFails trivial,
        fun _ => h.blocklenFails trivial, fun _ => h.success trivial⟩
    · rw [if_pos hrca]
      exact Ends.of_fails (fun h => hrca h.2) rfl
  · rw [if_pos hcid]
    exact Ends.of_fails (fun h => hcid h.1) rfl

/-- From GO_IDLE_STATE on. -/
theorem discoverOcr_ends :
    Ends o s (o.goIdle.error = 0 ∧ (readyOcr o).isSome ∧ o.allSendCid.error = 0 ∧
        o.sendRca.error = 0)
      (fun d => d.host = s.host ∧ d.card.inserted = 1 ∧
        d.card.rca = (o.sendRca.mmcR1 >>> 16).setWidth 16 ∧
        (∃ r, readyOcr o = some r ∧
          d.card.sdhcBlockmode = if r.mmcR1 &&& sdOcrSdhcCap ≠ 0#32 then 1 else 0) ∧
        d.card.numSectors = (decodeCsd o.sendCsd.cResp).2) (discoverOcr o s) := by
  simp only [discoverOcr]
  by_cases hidle : o.goIdle.error = 0
  · rw [if_neg (not_not.mpr hidle)]
    generalize hs' : exec { command sdSendIfCond 0x1aa#32 scfRspR7 with timeout := 100 }
      (exec (command mmcGoIdleState 0#32 scfRspR0) s) = s'
    have hcard : s'.card = s.card := by rw [← hs']; rfl
    have hhost : s'.host = s.host := by rw [← hs']; rfl
    obtain ⟨hc, hh⟩ := opCondLoop_frame o s' (ifCondOcr o.ifCond s'.host.ocr) 100 o.ifCond
    cases hocr : readyOcr o with
    | none =>
      rw [if_pos (by rw [opCondLoop_not_ready o s' _ _ hocr]; exact Bool.false_ne_true)]
      refine Ends.of_fails (fun h => by simp at h) ?_
      rw [outPower_card, hc, hcard]
    | some r =>
      obtain ⟨hr, hready⟩ := opCondLoop_ready o s' (ifCondOcr o.ifCond s'.host.ocr) o.ifCond hocr
      rw [hr, if_neg (not_not.mpr hready)]
      refine (discoverCid_ends o _).mono ?_ (by simp [hidle]) ?_
      · simp only [hc, hcard]
      · rintro - - - ⟨h1, h2, h3, h4, h5⟩
        exact ⟨by rw [h1, hh, hhost], h2, h3, ⟨r, rfl, h4⟩, h5⟩
  · rw [if_pos hidle]
    exact Ends.of_fails (fun h => hidle h.1) rfl

/-- With a card detected. -/
theorem needsDiscover_ends (hdet : o.cardDetect = true) :
    Ends o s (Identified o s.host.clkbase) (Discovered o s.host.clkbase) (sdmmcNeedsDiscover o s) := by
  simp only [sdmmcNeedsDiscover, hdet, not_true_eq_false, if_false]
  have hpe := busPower_error o (sdhcHostReset s.host)
  have hpc := busPower_clkbase o (sdhcHostReset s.host)
  by_cases hp : PowerOk o
  · have hon := busPower_on o (sdhcHostReset s.host) hp
    rw [if_neg (not_not.mpr (hpe.mpr hp))]
    generalize (sdhcBusPower o.powerRises 1 (sdhcHostReset s.host)).2 = h1 at hpc hon
    have hce := busClock_error o h1
    rw [hpc] at hce
    by_cases hc : ClockOk o s.host.clkbase
    · rw [if_neg (not_not.mpr (hce.mpr hc))]
      have hclk := busClock_on o h1 (by rw [hpc]; exact hc)
      refine (discoverOcr_ends o _).mono rfl ?_ ?_
      · exact ⟨fun h => ⟨h.goIdle, h.ocr, h.cid, h.rca⟩,
          fun h => ⟨hp, hc, h.1, h.2.1, h.2.2.1, h.2.2.2⟩⟩
      · rintro hid hcsd hblk ⟨h1, h2, h3, h4, h5⟩
        refine ⟨hid, hcsd, hblk, h2, ?_, ?_, h3, h4, h5⟩
        · rw [h1, busClock_powerCtl]
          exact hon
        · rw [h1]
          exact hclk
    · rw [if_pos (fun h => hc (hce.mp h))]
      exact Ends.of_fails (fun h => hc h.clock) rfl
  · rw [if_pos (fun h => hp (hpe.mp h))]
    exact Ends.of_fails (fun h => hp h.power) rfl

end Steps

/-! ## All or nothing -/

/-- Discovery leaves the card of this discovery, or no card. -/
def AllOrNothing (o : Outcomes) (s : Driver) : Prop :=
  Discovered o s.host.clkbase (sdmmcNeedsDiscover o s) ∨ NoCard (sdmmcNeedsDiscover o s)

/-- **When discovery is all or nothing.**  It is unless a card is detected and either a step before
the mark fails while an earlier card is still marked as inserted, or SEND_CSD fails. -/
theorem needsDiscover_allOrNothing (o : Outcomes) (s : Driver) :
    AllOrNothing o s ↔
      ¬(o.cardDetect = true ∧
        ((¬Identified o s.host.clkbase ∧ s.card.inserted ≠ 0) ∨
          (Identified o s.host.clkbase ∧ o.sendCsd.error ≠ 0))) := by
  rw [AllOrNothing, noCard_iff]
  cases hdet : o.cardDetect with
  | false => simp [sdmmcNeedsDiscover, hdet]
  | true =>
    have hends := needsDiscover_ends o s hdet
    by_cases hid : Identified o s.host.clkbase
    · by_cases hcsd : o.sendCsd.error = 0
      · have hgood : AllOrNothing o s := by
          rw [AllOrNothing, noCard_iff]
          by_cases hblk : o.setBlocklen.error = 0
          · exact Or.inl (hends.success hid hcsd hblk)
          · exact Or.inr (hends.blocklenFails hid hcsd hblk)
        rw [AllOrNothing, noCard_iff] at hgood
        simp [hgood, hid, hcsd]
      · have hins := hends.csdFails hid hcsd
        have hbad : ¬Discovered o s.host.clkbase (sdmmcNeedsDiscover o s) := fun h => hcsd h.csd
        simp [hbad, hins, hid, hcsd]
    · have hins := hends.unidentified hid
      have hbad : ¬Discovered o s.host.clkbase (sdmmcNeedsDiscover o s) :=
        fun h => hid h.identified
      simp [hbad, hins, hid]

/-- A response with every bit set. -/
def okResult : CmdResult := { error := 0, resp := fun _ => 0xff#8 }

def failed : CmdResult := { error := etimedout, resp := fun _ => 0#8 }

/-- All steps succeed but SEND_CSD. -/
def csdFailing : Outcomes where
  cardDetect := true
  powerRises := true
  clockStable _ := true
  goIdle := okResult
  ifCond := okResult
  appCmd _ := okResult
  opCond _ := okResult
  allSendCid := okResult
  sendRca := okResult
  sendCsd := failed
  select := okResult
  setBlocklen := okResult

/-- The driver after `memset(&card, 0, sizeof(card))`. -/
def attached : Driver where
  host := { ocr := 0x300000#32, clkbase := 50000, powerCtl := 0#8, clockCtl := 0#16 }
  card := { inserted := 0, sdhcBlockmode := 0, selected := 0, newCard := 0, timeout := 0#32,
            numSectors := 0#32, cid := 0#32, rca := 0#16 }
  sent := []

/-- After a failed SEND_CSD the card is served as present. -/
theorem not_allOrNothing : ¬∀ (o : Outcomes) (s : Driver), AllOrNothing o s := by
  intro h
  have hid : Identified csdFailing attached.host.clkbase :=
    ⟨rfl, ⟨by decide, List.any_eq_true.mpr ⟨0, by simp, rfl⟩⟩, rfl, rfl, rfl, rfl⟩
  have hins : (sdmmcNeedsDiscover csdFailing attached).card.inserted = 1 :=
    (needsDiscover_ends csdFailing attached rfl).csdFails hid (by decide)
  rcases h csdFailing attached with hd | hn
  · exact absurd hd.csd (by decide)
  · rw [hn.1] at hins
    cases hins

end VwiiNandTools.Sdmmc
