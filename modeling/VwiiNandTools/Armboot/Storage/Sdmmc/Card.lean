import VwiiNandTools.Lib.ByteMemory

/-!
# The SD card driver

`storage/sdmmc.c` over the two bus functions of `sdhc.c`.  What the bus, the controller and the card
do is an input: the card-detect line, whether power rises, when the internal clock is stable, and for
each command the error and the response `sdhc_exec_command` would leave (`CmdResult`).  The driver's
own state is `Driver`: the card structure, the registers it switches power and clock with, and the
commands it has sent.
-/

namespace VwiiNandTools.Sdmmc

open ByteMemory

/-! ## Commands -/

def mmcGoIdleState : ℕ := 0
def mmcAllSendCid : ℕ := 2
def sdSendRelativeAddr : ℕ := 3
def mmcSelectCard : ℕ := 7
def sdSendIfCond : ℕ := 8
def mmcSendCsd : ℕ := 9
def mmcSetBlocklen : ℕ := 16
def mmcReadBlockMultiple : ℕ := 18
def mmcWriteBlockMultiple : ℕ := 25
def sdAppOpCond : ℕ := 41
def mmcAppCmd : ℕ := 55

def scfCmdRead : BitVec 16 := 0x0040#16
def scfRspBsy : BitVec 16 := 0x0100#16
def scfRsp136 : BitVec 16 := 0x0200#16
def scfRspCrc : BitVec 16 := 0x0400#16
def scfRspIdx : BitVec 16 := 0x0800#16
def scfRspPresent : BitVec 16 := 0x1000#16

def scfRspR0 : BitVec 16 := 0#16
def scfRspR1 : BitVec 16 := scfRspPresent ||| scfRspCrc ||| scfRspIdx
def scfRspR1b : BitVec 16 := scfRspPresent ||| scfRspCrc ||| scfRspIdx ||| scfRspBsy
def scfRspR2 : BitVec 16 := scfRspPresent ||| scfRspCrc ||| scfRsp136
def scfRspR3 : BitVec 16 := scfRspPresent
def scfRspR6 : BitVec 16 := scfRspPresent ||| scfRspCrc ||| scfRspIdx
def scfRspR7 : BitVec 16 := scfRspPresent ||| scfRspCrc ||| scfRspIdx

def sdmmcDefaultClock : ℕ := 25000
def sdmmcSdclkOff : ℕ := 0
def sdmmcDefaultBlocklen : BitVec 32 := 512#32

def mmcOcrMemReady : BitVec 32 := 1#32 <<< 31
def sdOcrSdhcCap : BitVec 32 := 1#32 <<< 30

/-- The fields of `struct sdmmc_command` the driver fills in; the others are zero. -/
structure Command where
  opcode : ℕ
  arg : BitVec 32
  flags : BitVec 16
  datalen : BitVec 32
  blklen : BitVec 32
  timeout : ℕ
  deriving DecidableEq

/-- A command without data and with the default timeout. -/
def command (opcode : ℕ) (arg : BitVec 32) (flags : BitVec 16) : Command :=
  { opcode := opcode, arg := arg, flags := flags, datalen := 0#32, blklen := 0#32, timeout := 0 }

/-- What `sdhc_exec_command` leaves in `c_error`, and the response the card gave. -/
structure CmdResult where
  error : ℤ
  resp : ℕ → Byte

/-- `c_resp` after the command: no response is stored when it failed. -/
def CmdResult.cResp (r : CmdResult) : ℕ → Byte := if r.error = 0 then r.resp else fun _ => 0#8

/-- `MMC_R1(cmd.c_resp)`. -/
def CmdResult.mmcR1 (r : CmdResult) : BitVec 32 := be32 r.cResp 0

/-! ## The state -/

structure Card where
  inserted : ℤ
  sdhcBlockmode : ℤ
  selected : ℤ
  newCard : ℤ
  timeout : BitVec 32
  numSectors : BitVec 32
  cid : BitVec 32
  rca : BitVec 16

/-- The fields of `struct sdhc_host` and the registers the driver depends on. -/
structure Host where
  ocr : BitVec 32
  clkbase : ℕ
  powerCtl : BitVec 8
  clockCtl : BitVec 16

structure Driver where
  host : Host
  card : Card
  sent : List Command

def exec (c : Command) (s : Driver) : Driver := { s with sent := s.sent ++ [c] }

/-! ## The bus functions of `sdhc.c` -/

def sdhcBusPowerBit : BitVec 8 := 1#8
def sdhcVoltage33V : BitVec 8 := 0x07#8
def sdhcIntclkEnable : BitVec 16 := 1#16
def sdhcIntclkStable : BitVec 16 := 2#16
def sdhcSdclkEnable : BitVec 16 := 4#16

def enxio : ℤ := 6
def einval : ℤ := 22
def etimedout : ℤ := 60

/-- `sdhc_host_reset`: the controller clears its registers. -/
def sdhcHostReset (h : Host) : Host := { h with powerCtl := 0#8, clockCtl := 0#16 }

/-- `sdhc_bus_power`; `rises` tells whether the controller keeps the power bit. -/
def sdhcBusPower (rises : Bool) (ocr : ℕ) (h : Host) : ℤ × Host :=
  let h := { h with powerCtl := 0#8 }
  if ocr = 0 then (0, sdhcHostReset h)
  else
    let ctl := sdhcVoltage33V <<< 1 ||| sdhcBusPowerBit
    let h := { h with powerCtl := if rises then ctl else ctl &&& ~~~sdhcBusPowerBit }
    if h.powerCtl &&& sdhcBusPowerBit = 0#8 then (enxio, h) else (0, h)

/-- `sdhc_clock_divisor`, without the -1 for no divisor. -/
def sdhcClockDivisor (clkbase freq : ℕ) : Option ℕ :=
  ([1, 2, 4, 8, 16, 32, 64, 128, 256].find? fun div => clkbase / div ≤ freq).map (· / 2)

/-- `sdhc_bus_clock`; `stable n` is the stable bit as read in try `n`. -/
def sdhcBusClock (stable : ℕ → Bool) (freq : ℕ) (h : Host) : ℤ × Host :=
  let h := { h with clockCtl := 0#16 }
  if freq = sdmmcSdclkOff then (0, h)
  else
    match sdhcClockDivisor h.clkbase freq with
    | none => (einval, h)
    | some div =>
      let h := { h with clockCtl := BitVec.ofNat 16 (div <<< 8) ||| sdhcIntclkEnable }
      if (List.range 1000).any stable then
        (0, { h with clockCtl := h.clockCtl ||| sdhcIntclkStable ||| sdhcSdclkEnable })
      else (etimedout, h)

/-! ## Requests on a card -/

/-- `sdmmc_select`, whose command leaves `sel`. -/
def sdmmcSelect (sel : CmdResult) (s : Driver) : ℤ × Driver :=
  let s := exec (command mmcSelectCard (s.card.rca.setWidth 32 <<< 16) scfRspR1b) s
  if sel.error ≠ 0 then (-1, s) else (0, { s with card := { s.card with selected := 1 } })

def sdmmcNoCard : ℤ := 1
def sdmmcNewCard : ℤ := 2
def sdmmcInserted : ℤ := 3

def sdmmcCheckCard (c : Card) : ℤ :=
  if c.inserted = 0 then sdmmcNoCard
  else if c.newCard = 1 then sdmmcNewCard
  else sdmmcInserted

def sdmmcAckCard (c : Card) : ℤ × Card :=
  if c.newCard = 1 then (0, { c with newCard := 0 }) else (-1, c)

/-- The address a transfer starts at: in bytes, or in blocks in `sdhc_blockmode`. -/
def transferArg (c : Card) (blkStart : BitVec 32) : BitVec 32 :=
  if c.sdhcBlockmode ≠ 0 then blkStart else blkStart * sdmmcDefaultBlocklen

/-- `if (card.selected == 0) sdmmc_select()`. -/
def ensureSelected (sel : CmdResult) (s : Driver) : ℤ × Driver :=
  if s.card.selected = 0 then sdmmcSelect sel s else (0, s)

/-- A transfer on a selected card; the command is handed to `xfer`. -/
def transferSelected (opcode : ℕ) (flags : BitVec 16) (xfer : Command → CmdResult)
    (blkStart blkCount : BitVec 32) (s : Driver) : ℤ × Driver :=
  if s.card.newCard = 1 then (-1, s)
  else
    let cmd : Command :=
      { opcode := opcode, arg := transferArg s.card blkStart, flags := flags,
        datalen := blkCount * sdmmcDefaultBlocklen, blklen := sdmmcDefaultBlocklen, timeout := 0 }
    let s := exec cmd s
    if (xfer cmd).error ≠ 0 then (-1, s) else (0, s)

/-- What `sdmmc_read` and `sdmmc_write` share: they differ in the opcode and the flags. -/
def sdmmcTransfer (opcode : ℕ) (flags : BitVec 16) (sel : CmdResult) (xfer : Command → CmdResult)
    (blkStart blkCount : BitVec 32) (s : Driver) : ℤ × Driver :=
  if s.card.inserted = 0 then (-1, s)
  else
    let (ret, s) := ensureSelected sel s
    if ret < 0 then (-1, s) else transferSelected opcode flags xfer blkStart blkCount s

def sdmmcRead : CmdResult → (Command → CmdResult) → BitVec 32 → BitVec 32 → Driver → ℤ × Driver :=
  sdmmcTransfer mmcReadBlockMultiple (scfRspR1 ||| scfCmdRead)

def sdmmcWrite : CmdResult → (Command → CmdResult) → BitVec 32 → BitVec 32 → Driver → ℤ × Driver :=
  sdmmcTransfer mmcWriteBlockMultiple scfRspR1

/-- `sdmmc_get_sectors`; the sector count is returned as an `int`. -/
def sdmmcGetSectors (c : Card) : ℤ :=
  if c.inserted = 0 then -1
  else if c.newCard = 1 then -1
  else c.numSectors.toInt

end VwiiNandTools.Sdmmc
