import VwiiNandTools.Lib.Transition
import VwiiNandTools.Armboot.Storage.Sdmmc.Card
import VwiiNandTools.Armboot.Storage.Sdhc.Intr

/-!
# Executing a command

`sdhc_exec_command` with `sdhc_start_command`, `sdhc_wait_intr_debug` and `sdhc_transfer_data`, step
by step: each load and each store of `intr_status` is a step of its own, and between any two steps
the controller raises interrupts and `sdhc_intr` runs.

A command occupies its line from the write of the COMMAND register on.  The end of the command
phase frees the command line, stores the response and raises COMMAND_COMPLETE; the end of the data
phase, or of the busy signal, frees the data line and raises TRANSFER_COMPLETE.  Calls are numbered,
and an `Event` is a completion with the number of the call whose command raised it: `latched` are
those in the status register, `posted` those in `intr_status`.  `owed` are the bits of `intr_status`
that were posted and that no status value has covered since.
-/

namespace VwiiNandTools.Sdhc

open Sdmmc Transition

/-! ## `sdhc_start_command` -/

def sdhcBlockCountMax : ℕ := 512

def sdhcMultiBlockMode : BitVec 16 := 0x20#16
def sdhcReadMode : BitVec 16 := 0x10#16
def sdhcAutoCmd12Enable : BitVec 16 := 0x04#16
def sdhcBlockCountEnable : BitVec 16 := 0x02#16
def sdhcDmaEnable : BitVec 16 := 0x01#16

def sdhcCommandIndexMask : BitVec 16 := 0x3f#16
def sdhcDataPresentSelect : BitVec 16 := 0x20#16
def sdhcIndexCheckEnable : BitVec 16 := 0x10#16
def sdhcCrcCheckEnable : BitVec 16 := 0x08#16
def sdhcRespLen48ChkBusy : BitVec 16 := 0x03#16
def sdhcRespLen48 : BitVec 16 := 0x02#16
def sdhcRespLen136 : BitVec 16 := 0x01#16
def sdhcNoResponse : BitVec 16 := 0x00#16

/-- `struct sdmmc_command` with its buffer, as the caller hands it over. -/
structure SdmmcCommand extends Command where
  data : BitVec 32

/-- `c_datalen > 0`. -/
def SdmmcCommand.hasData (cmd : SdmmcCommand) : Bool := 0 < cmd.datalen.toInt

/-- The values `sdhc_start_command` computes for the registers. -/
structure Setup where
  blksize : BitVec 16
  blkcount : BitVec 16
  mode : BitVec 16
  command : BitVec 16

/-- `MIN(c_datalen, c_blklen)`; no caller gives a block length of zero with data. -/
def blksizeOf (cmd : SdmmcCommand) : BitVec 16 :=
  if cmd.hasData then BitVec.ofInt 16 (min cmd.datalen.toInt cmd.blklen.toInt) else 0#16

def blkcountOf (cmd : SdmmcCommand) : BitVec 16 :=
  if cmd.hasData then BitVec.ofNat 16 (cmd.datalen.toNat / (blksizeOf cmd).toNat) else 0#16

def modeOf (useDma : Bool) (cmd : SdmmcCommand) : BitVec 16 :=
  (if isset cmd.flags scfCmdRead then sdhcReadMode else 0#16) |||
  (if blkcountOf cmd ≠ 0#16 then sdhcBlockCountEnable ||| sdhcMultiBlockMode ||| sdhcAutoCmd12Enable
    else 0#16) |||
  (if useDma then sdhcDmaEnable else 0#16)

def respLenOf (cmd : SdmmcCommand) : BitVec 16 :=
  if ¬isset cmd.flags scfRspPresent then sdhcNoResponse
  else if isset cmd.flags scfRsp136 then sdhcRespLen136
  else if isset cmd.flags scfRspBsy then sdhcRespLen48ChkBusy
  else sdhcRespLen48

def commandOf (cmd : SdmmcCommand) : BitVec 16 :=
  (BitVec.ofNat 16 cmd.opcode &&& sdhcCommandIndexMask) <<< 8 |||
  (if isset cmd.flags scfRspCrc then sdhcCrcCheckEnable else 0#16) |||
  (if isset cmd.flags scfRspIdx then sdhcIndexCheckEnable else 0#16) |||
  (if cmd.data ≠ 0#32 then sdhcDataPresentSelect else 0#16) |||
  respLenOf cmd

/-- The checks and the register values; an error is returned before a register is written. -/
def sdhcSetup (useDma : Bool) (cmd : SdmmcCommand) : Except ℤ Setup :=
  if cmd.hasData ∧ cmd.datalen.toNat % (blksizeOf cmd).toNat > 0 then .error einval
  else if (blkcountOf cmd).toNat > sdhcBlockCountMax then .error einval
  else .ok { blksize := blksizeOf cmd, blkcount := blkcountOf cmd, mode := modeOf useDma cmd,
             command := commandOf cmd }

theorem sdhcSetup_error_ne {useDma : Bool} {cmd : SdmmcCommand} {e : ℤ}
    (he : sdhcSetup useDma cmd = .error e) : e ≠ 0 := by
  unfold sdhcSetup at he
  split at he
  · cases he
    decide
  · split at he <;> cases he
    decide

/-- The register writes, the last of which starts the command. -/
def program (useDma : Bool) (call : ℕ) (cmd : SdmmcCommand) (su : Setup) (c : Controller) :
    Controller :=
  let blockWord := write2 false c.blockWord (su.blksize ||| 7#16 <<< 12)
  { c with
    dmaAddr := if useDma ∧ cmd.hasData then cmd.data else c.dmaAddr
    blockWord := if su.blkcount ≠ 0#16 then write2 true blockWord su.blkcount else blockWord
    argument := cmd.arg
    transferMode := su.command.setWidth 32 <<< 16 ||| su.mode.setWidth 32
    cmdLine := some call
    datLine := if isset su.command sdhcDataPresentSelect ∨ respLenOf cmd = sdhcRespLen48ChkBusy then
      some call else c.datLine }

/-- `HREAD4(hp, SDHC_PRESENT_STATE) & SDHC_CMD_INHIBIT_MASK` is not zero. -/
def Controller.inhibited (c : Controller) : Bool := c.cmdLine.isSome || c.datLine.isSome

/-! ## The main thread -/

def sdhcCommandTimeout : ℕ := 500
def sdhcTransferTimeout : ℕ := 5000

def cTimeout (cmd : SdmmcCommand) : ℕ :=
  if cmd.timeout = 0 then if cmd.hasData then sdhcTransferTimeout else sdhcCommandTimeout
  else cmd.timeout

/-- The two waits: for the end of the command, in `sdhc_exec_command`, and for the end of the
transfer, in `sdhc_transfer_data`. -/
inductive Wait
  | command
  | transfer
  deriving DecidableEq, Repr

/-- The mask as `sdhc_wait_intr_debug` completes it. -/
def Wait.mask : Wait → BitVec 16
  | .command => sdhcCommandComplete ||| sdhcErrorInterrupt ||| sdhcErrorTimeout
  | .transfer =>
    sdhcTransferComplete ||| sdhcDmaInterrupt ||| sdhcErrorInterrupt ||| sdhcErrorTimeout

def Wait.timo (cmd : SdmmcCommand) : Wait → ℕ
  | .command => cTimeout cmd
  | .transfer => sdhcTransferTimeout

/-- The program counter, with the values held in registers. -/
inductive Pc
  | idle
  | clear
  | start
  | inhibit (su : Setup) (timeout : ℕ)
  | issue (su : Setup)
  | waitStatus (k : Wait)
  | waitTest (k : Wait) (timo : ℕ) (status : BitVec 16)
  | waitLoad (k : Wait)
  | clearLoad (k : Wait) (status : BitVec 16)
  | clearStore (k : Wait) (status v : BitVec 16)
  | judge (k : Wait) (status : BitVec 16)
  | response (i : ℕ)
  | dma
  | finish (error : ℤ)

/-- A completion, and the call whose command raised it. -/
structure Event where
  kind : Done
  call : ℕ
  deriving DecidableEq, Repr

/-- A call that has returned: `c_error`, the calls behind the COMMAND_COMPLETE it consumed, the
words it stored in `c_resp` with the call the response register was for, and the calls behind the
TRANSFER_COMPLETE that ended its transfer. -/
structure Result where
  call : ℕ
  cmd : SdmmcCommand
  error : ℤ
  command : List ℕ
  cResp : List (ℕ × BitVec 32)
  transfer : Option (List ℕ)

/-- `seen` are the events behind the status value in hand; `command`, `cResp` and `transfer` are the
fields of the running call's `Result`. -/
structure ExecState where
  pc : Pc
  host : Host
  ctl : Controller
  call : ℕ
  cmd : SdmmcCommand
  latched : List Event
  posted : List Event
  seen : List Event
  owed : BitVec 16
  command : List ℕ
  cResp : List (ℕ × BitVec 32)
  transfer : Option (List ℕ)
  results : List Result

/-- The calls behind a completion among some events. -/
def callsOf (d : Done) (l : List Event) : List ℕ := (l.filter fun e => e.kind = d).map Event.call

/-- Write `intr_status`; an event is in it as long as its bit is. -/
def storeStatus (v : BitVec 16) (s : ExecState) : ExecState :=
  { s with host := { s.host with intrStatus := v },
           posted := s.posted.filter fun e => isset v e.kind.bit }

/-- After the response: the transfer, or the end of the call. -/
def afterResponse (s : ExecState) : ExecState :=
  { s with pc := if s.cmd.hasData ∧ s.host.useDma then .waitStatus .transfer else .finish 0 }

/-- The number of loads from the response registers. -/
def responseReads (cmd : SdmmcCommand) : ℕ := if isset cmd.flags scfRsp136 then 15 else 1

/-- `HREAD1(hp, SDHC_RESPONSE + i)`, or `HREAD4(hp, SDHC_RESPONSE)`. -/
def readResponse (cmd : SdmmcCommand) (i : ℕ) (c : Controller) : BitVec 32 :=
  if isset cmd.flags scfRsp136 then (c.response.extractLsb' (8 * i) 8).setWidth 32
  else c.response.extractLsb' 0 32

/-- What the caller of `sdhc_wait_intr_debug` does with the value returned. -/
def afterWait (k : Wait) (status : BitVec 16) (s : ExecState) : ExecState :=
  match k with
  | .command =>
    if ¬isset status sdhcCommandComplete then { s with pc := .finish etimedout }
    else
      let s := { s with command := callsOf .command s.seen }
      if isset s.cmd.flags scfRspPresent then { s with pc := .response 0 } else afterResponse s
  | .transfer =>
    if status = 0#16 then { s with pc := .finish etimedout }
    else if isset status sdhcTransferComplete then
      { s with transfer := some (callsOf .transfer s.seen), pc := .finish 0 }
    else if isset status sdhcDmaInterrupt then { s with pc := .dma }
    else { s with pc := .waitStatus .transfer }

/-- The two branches at the end of `sdhc_wait_intr_debug`. -/
def judge (k : Wait) (status : BitVec 16) (s : ExecState) : ExecState :=
  if isset status sdhcErrorInterrupt then
    afterWait k 0#16 { s with host := { s.host with intrErrorStatus := 0#16 },
                              ctl := softReset s.ctl, latched := [] }
  else if isset status sdhcErrorTimeout then
    afterWait k 0#16 { s with host := { s.host with intrErrorStatus := 0#16 } }
  else afterWait k status s

/-- One step of the main thread inside a call. -/
def mainStep (s : ExecState) : Option ExecState :=
  match s.pc with
  | .idle => none
  | .clear => some { storeStatus 0#16 s with owed := 0#16, pc := .start }
  | .start =>
    match sdhcSetup s.host.useDma s.cmd with
    | .error e => some { s with pc := .finish e }
    | .ok su => some { s with pc := .inhibit su 500 }
  | .inhibit _ 0 => some { s with pc := .finish etimedout }
  | .inhibit su (timeout + 1) =>
    some { s with pc := if s.ctl.inhibited then .inhibit su timeout else .issue su }
  | .issue su =>
    some { s with ctl := program s.host.useDma s.call s.cmd su s.ctl, pc := .waitStatus .command }
  | .waitStatus k =>
    some { s with pc := .waitTest k (k.timo s.cmd) (s.host.intrStatus &&& k.mask), seen := s.posted }
  | .waitTest k 0 status => some { s with pc := .clearLoad k (status ||| sdhcErrorTimeout) }
  | .waitTest k (timo + 1) status =>
    some { s with pc := if s.host.intrStatus ≠ 0#16 then .waitLoad k else .waitTest k timo status }
  | .waitLoad k => some { s with pc := .clearLoad k (s.host.intrStatus &&& k.mask), seen := s.posted }
  -- `hp->intr_status &= ~status`
  | .clearLoad k status =>
    some { s with pc := .clearStore k status (s.host.intrStatus &&& ~~~status),
                  owed := s.owed &&& ~~~status }
  | .clearStore k status v => some { storeStatus v s with pc := .judge k status }
  | .judge k status => some (judge k status s)
  | .response i =>
    let s := { s with cResp := s.cResp ++ [(s.ctl.responseOf, readResponse s.cmd i s.ctl)] }
    if i + 1 < responseReads s.cmd then some { s with pc := .response (i + 1) }
    else some (afterResponse s)
  -- `HWRITE4(hp, SDHC_DMA_ADDR, HREAD4(hp, SDHC_DMA_ADDR))`
  | .dma => some { s with ctl := { s.ctl with dmaAddr := s.ctl.dmaAddr }, pc := .waitStatus .transfer }
  | .finish error =>
    some { s with pc := .idle, host := { s.host with dataCommand := 0 },
                  results := s.results ++
                    [{ call := s.call, cmd := s.cmd, error := error, command := s.command,
                       cResp := s.cResp, transfer := s.transfer }] }

/-- `sdhc_exec_command` is called. -/
def startCall (cmd : SdmmcCommand) (s : ExecState) : Option ExecState :=
  match s.pc with
  | .idle =>
    some { s with pc := .clear, call := s.call + 1, cmd := cmd, command := [], cResp := [],
                  transfer := none,
                  host := if cmd.hasData then { s.host with dataCommand := 1 } else s.host }
  | _ => none

/-! ## The controller and the handler -/

/-- The end of the phase on a line: `resp` is the response, for the command line. -/
def complete (d : Done) (resp : BitVec 128) (s : ExecState) : Option ExecState :=
  let raised (i : ℕ) (c : Controller) : ExecState :=
    { s with ctl := { c with intrWord := c.intrWord ||| d.bit.setWidth 32 },
             latched := s.latched ++ [⟨d, i⟩] }
  match d with
  | .command => s.ctl.cmdLine.map fun i =>
      raised i { s.ctl with cmdLine := none, response := resp, responseOf := i }
  | .transfer => s.ctl.datLine.map fun i => raised i { s.ctl with datLine := none }

/-- The controller gives up what is on a line. -/
def giveUp (d : Done) (c : Controller) : Controller :=
  match d with
  | .command => { c with cmdLine := none }
  | .transfer => { c with datLine := none }

/-- The controller raises other normal interrupts, and error interrupts. -/
def raise (bits errors : BitVec 16) (s : ExecState) : Option ExecState :=
  if isset bits sdhcCommandComplete || isset bits sdhcTransferComplete then none
  else
    some { s with ctl :=
      { s.ctl with intrWord := s.ctl.intrWord ||| bits.setWidth 32 ||| errors.setWidth 32 <<< 16 } }

/-- `sdhc_irq`. -/
def sdhcIrq (s : ExecState) : ExecState :=
  { s with ctl := (sdhcIntr s.ctl s.host).ctl, host := (sdhcIntr s.ctl s.host).host,
           latched := [], posted := s.posted ++ s.latched, owed := s.owed ||| postedBits s.ctl }

inductive Act
  | call (cmd : SdmmcCommand)
  | main
  | irq
  | complete (d : Done) (resp : BitVec 128)
  | giveUp (d : Done)
  | raise (bits errors : BitVec 16)

def execStep (s : ExecState) : Act → Option ExecState
  | .call cmd => startCall cmd s
  | .main => mainStep s
  | .irq => some (sdhcIrq s)
  | .complete d resp => complete d resp s
  | .giveUp d => some { s with ctl := giveUp d s.ctl }
  | .raise bits errors => raise bits errors s

/-- At the start the controller is idle, and no completion is pending or posted. -/
def execMachine : Machine ExecState Act where
  init s := s.pc = .idle ∧ s.ctl.cmdLine = none ∧ s.ctl.datLine = none ∧
    s.ctl.nintrStatus = 0#16 ∧ s.host.intrStatus = 0#16 ∧ s.latched = [] ∧ s.posted = [] ∧
    s.owed = 0#16 ∧ s.results = []
  step := execStep

/-- After `sdhc_init`, with a controller that can do DMA. -/
def initialState : ExecState where
  pc := .idle
  host := { useDma := true, intrStatus := 0#16, intrErrorStatus := 0#16, dataCommand := 0 }
  ctl :=
    { dmaAddr := 0#32, blockWord := 0#32, argument := 0#32, transferMode := 0#32,
      response := 0#128, intrWord := 0#32, statusEnWord := 0x3ff00fb#32,
      signalEnWord := 0x3ff00fb#32, cmdLine := none, datLine := none, responseOf := 0 }
  call := 0
  cmd :=
    { opcode := 0, arg := 0#32, flags := 0#16, datalen := 0#32, blklen := 0#32, timeout := 0,
      data := 0#32 }
  latched := []
  posted := []
  seen := []
  owed := 0#16
  command := []
  cResp := []
  transfer := none
  results := []

/-- The command of `sdmmc_read` for two blocks. -/
def readTwo : SdmmcCommand :=
  { opcode := mmcReadBlockMultiple, arg := 0#32, flags := scfRspR1 ||| scfCmdRead,
    datalen := 1024#32, blklen := 512#32, timeout := 0, data := 0x1000#32 }

end VwiiNandTools.Sdhc
