import VwiiNandTools.Lib.Transition
import VwiiNandTools.Armboot.System.Irq

/-!
# Waiting for a page

The read path of `nand.c` step by step: the register accesses of `nand_initialize` and
`nand_read_page`, the loop of `nand_wait` with `irq_kill`, `irq_wait` and `irq_restore`, and between
any two steps the controller, the other interrupt sources and `irq_handler`.  `nand_irq` is the step
of the handler that sets `irq_flag`.

`reads` lists the pages the controller has finished reading.  Each entry carries the number of the
`nand_read_page` call whose READ_POST it is, so that a late interrupt of an earlier page could be
told from the one waited for.
-/

namespace VwiiNandTools.Nand

open Irq Transition

/-! ## Commands -/

def nandBusyMask : BitVec 32 := 0x80000000#32
def nandFlagsIrq : BitVec 32 := 0x40000000#32
def nandFlagsWait : BitVec 32 := 0x8000#32
def nandFlagsRd : BitVec 32 := 0x2000#32
def nandFlagsEcc : BitVec 32 := 0x1000#32

/-- The word `nand_send_command` writes to start a command. -/
def nandCommand (command bitmask flags numBytes : BitVec 32) : BitVec 32 :=
  nandBusyMask ||| bitmask <<< 24 ||| command <<< 16 ||| flags ||| numBytes

def resetCommand : BitVec 32 := nandCommand 0xff#32 0#32 nandFlagsWait 0#32
def readPreCommand : BitVec 32 := nandCommand 0x00#32 0x1f#32 0#32 0#32
def readPostCommand : BitVec 32 :=
  nandCommand 0x30#32 0#32 (nandFlagsIrq ||| nandFlagsWait ||| nandFlagsRd ||| nandFlagsEcc) 0x840#32

/-- The controller is carrying out the command in `NAND_CTRL`. -/
def busy (ctrl : BitVec 32) : Bool := ctrl &&& nandBusyMask ≠ 0#32

/-- A word that starts no command that reads data or raises the interrupt. -/
def quiet (ctrl : BitVec 32) : Bool :=
  !busy ctrl || (ctrl &&& nandFlagsIrq = 0#32 && ctrl &&& nandFlagsRd = 0#32)

/-! ## The main thread -/

/-- A register access of `nand_initialize` or `nand_read_page`. -/
inductive Instr
  | irqDisable
  | irqEnable
  | ctrl (v : BitVec 32)
  | poll
  | bank (v : BitVec 32)
  | addr1 (pageno : BitVec 32)
  | clearIrqFlag
  | setLastPageRead (pageno : BitVec 32)
  | setInitialized (bank : BitVec 32)
  deriving DecidableEq

def nandSendCommand (cmd : BitVec 32) : List Instr := [.ctrl 0x7fffffff#32, .ctrl 0#32, .ctrl cmd]

/-- `nand_reset`, with the accesses to `NAND_CTRL` and `NAND_BANK`. -/
def nandResetCode (bank : BitVec 32) : List Instr :=
  List.flatten [[.ctrl 0#32, .poll, .ctrl 0#32, .bank 1#32, .ctrl 0#32, .poll, .ctrl 0#32, .bank bank],
    nandSendCommand resetCommand, [.poll]]

/-- `nand_initialize` when the bank changes. -/
def nandInitializeCode (bank : BitVec 32) : List Instr :=
  List.flatten [[.irqDisable], nandResetCode bank, [.irqEnable, .setInitialized bank]]

/-- `__nand_set_address(0, pageno)`. -/
def nandSetAddress (pageno : BitVec 32) : List Instr :=
  if pageno ≠ 0xffffffff#32 then [.addr1 pageno] else []

def nandReadPageCode (pageno : BitVec 32) : List Instr :=
  List.flatten [[.clearIrqFlag, .setLastPageRead pageno], nandSetAddress pageno,
    nandSendCommand readPreCommand, [.poll], nandSendCommand readPostCommand]

/-- The program counter of the main thread, with the values it holds in registers. -/
inductive Pc
  | idle
  | init (code : List Instr)
  | read (code : List Instr)
  | waitTest
  | killRead
  | killWrite (r1 : BitVec 32)
  | waitInner (cookie : BitVec 32)
  | asleep (cookie : BitVec 32)
  | restoreRead (cookie : BitVec 32)
  | restoreWrite (cookie r1 : BitVec 32)
  | returned
  deriving DecidableEq

/-- A finished READ_POST: the call it belongs to, the bank and the page it read. -/
structure PageRead where
  req : ℕ
  bank : BitVec 32
  pageno : BitVec 32
  deriving DecidableEq

/-- The two threads of control, the registers and the static variables.  `req`, `request`, `before`
and `entryMask` record, for the statements, the running `nand_read_page`: its number, its page, the
pages read before it, and the interrupt mask on entry to `nand_wait`. -/
structure WaitState where
  pc : Pc
  handler : Handler
  cpsr : BitVec 32
  spsr : BitVec 32
  armIrqMask : BitVec 32
  armIrqFlag : BitVec 32
  nandCtrl : BitVec 32
  nandBank : BitVec 32
  nandAddr1 : BitVec 32
  owner : ℕ
  initialized : BitVec 32
  irqFlag : Bool
  lastPageRead : BitVec 32
  reads : List PageRead
  req : ℕ
  request : BitVec 32
  before : List PageRead
  entryMask : BitVec 32

/-- The CPSR of the main thread, saved while the handler runs. -/
def WaitState.mainCpsr (s : WaitState) : BitVec 32 :=
  if s.handler = .off then s.cpsr else s.spsr

def Instr.exec (i : Instr) (s : WaitState) : WaitState :=
  match i with
  | .irqDisable => { s with armIrqMask := s.armIrqMask &&& ~~~irqfNand }
  | .irqEnable => { s with armIrqMask := s.armIrqMask ||| irqfNand }
  | .ctrl v => { s with nandCtrl := v, owner := s.req }
  | .poll => s
  | .bank v => { s with nandBank := v }
  | .addr1 pageno => { s with nandAddr1 := pageno }
  | .clearIrqFlag => { s with irqFlag := false }
  | .setLastPageRead pageno => { s with lastPageRead := pageno }
  | .setInitialized v => { s with initialized := v }

/-- A poll is repeated until the controller is idle. -/
def Instr.done (i : Instr) (s : WaitState) : Bool :=
  match i with
  | .poll => !busy s.nandCtrl
  | _ => true

/-- One step of the main thread inside a call. -/
def mainStep (s : WaitState) : Option WaitState :=
  match s.pc with
  | .idle | .returned => none
  | .init [] => some { s with pc := .idle }
  | .init (i :: code) =>
    if i.done s then some { i.exec s with pc := .init code } else some s
  | .read [] => some { s with pc := .waitTest, entryMask := maskBits s.cpsr }
  | .read (i :: code) => if i.done s then some { i.exec s with pc := .read code } else some s
  | .waitTest => some { s with pc := if s.irqFlag then .returned else .killRead }
  | .killRead => some { s with pc := .killWrite s.cpsr }
  | .killWrite r1 =>
    some { s with cpsr := irqKillCpsr r1, pc := .waitInner (irqKillCookie r1) }
  | .waitInner cookie =>
    some { s with pc := if s.irqFlag then .restoreRead cookie else .asleep cookie }
  -- a pending interrupt ends the sleep, masked or not
  | .asleep cookie =>
    if s.armIrqMask &&& s.armIrqFlag ≠ 0#32 then some { s with pc := .restoreRead cookie } else none
  | .restoreRead cookie => some { s with pc := .restoreWrite cookie s.cpsr }
  | .restoreWrite cookie r1 =>
    some { s with cpsr := irqRestoreCpsr cookie r1, pc := .waitTest }

/-- A call of `nand_initialize`, or of `nand_read_page` with the `nand_wait` that follows it. -/
inductive Call
  | init (bank : BitVec 32)
  | readWait (pageno : BitVec 32)
  deriving DecidableEq

def startCall (c : Call) (s : WaitState) : Option WaitState :=
  if s.pc = .idle ∨ s.pc = .returned then
    match c with
    | .init bank =>
      if s.initialized = bank then some { s with pc := .idle }
      else some { s with pc := .init (nandInitializeCode bank) }
    | .readWait pageno =>
      some { s with
        pc := .read (nandReadPageCode pageno)
        req := s.req + 1
        request := pageno
        before := s.reads }
  else none

/-! ## The handler and the controller -/

/-- The CPU takes the interrupt exception. -/
def takeIrq (s : WaitState) : Option WaitState :=
  if s.handler = .off ∧ irqsOn s.cpsr ∧ s.armIrqMask &&& s.armIrqFlag ≠ 0#32 then
    some { s with handler := .readMask, spsr := s.cpsr, cpsr := s.cpsr ||| cpsrIrqdis }
  else none

/-- `if (flags & m) write32(HW_ARMIRQFLAG, m)`. -/
def ackIf (flags m : BitVec 32) (s : WaitState) : WaitState :=
  if flags &&& m ≠ 0#32 then { s with armIrqFlag := s.armIrqFlag &&& ~~~m } else s

/-- One step of `irq_handler`. -/
def handlerStep (s : WaitState) : Option WaitState :=
  match s.handler with
  | .off => none
  | .readMask => some { s with handler := .readFlag s.armIrqMask }
  | .readFlag enabled => some { s with handler := .timer (s.armIrqFlag &&& enabled) }
  | .timer flags => some { ackIf flags irqfTimer s with handler := .nand flags }
  | .nand flags =>
    if nandBit flags then some { s with nandCtrl := 0x7fffffff#32, handler := .nandAck flags }
    else some { s with handler := .others flags otherSources }
  | .nandAck flags =>
    some { s with armIrqFlag := s.armIrqFlag &&& ~~~irqfNand, handler := .nandIrq flags }
  | .nandIrq flags => some { s with irqFlag := true, handler := .others flags otherSources }
  | .others flags (m :: todo) => some { ackIf flags m s with handler := .others flags todo }
  | .others flags [] =>
    let unknown := flags &&& ~~~irqfAll
    some { ackIf unknown unknown s with handler := .ret }
  | .ret => some { s with handler := .off, cpsr := s.spsr }

/-- The controller finishes the outstanding command. -/
def finish (s : WaitState) : Option WaitState :=
  if busy s.nandCtrl then
    some { s with
      nandCtrl := s.nandCtrl &&& ~~~nandBusyMask
      reads := if s.nandCtrl &&& nandFlagsRd ≠ 0#32 then
        s.reads ++ [⟨s.owner, s.nandBank, s.nandAddr1⟩] else s.reads
      armIrqFlag := if s.nandCtrl &&& nandFlagsIrq ≠ 0#32 then
        s.armIrqFlag ||| irqfNand else s.armIrqFlag }
  else none

/-- Other sources raise their flags. -/
def raise (m : BitVec 32) (s : WaitState) : Option WaitState :=
  if nandBit m then none else some { s with armIrqFlag := s.armIrqFlag ||| m }

inductive Act
  | call (c : Call)
  | main
  | irq
  | handler
  | finish
  | raise (m : BitVec 32)
  deriving DecidableEq

/-- The main thread rests while the handler runs. -/
def waitStep (s : WaitState) : Act → Option WaitState
  | .call c => if s.handler = .off then startCall c s else none
  | .main => if s.handler = .off then mainStep s else none
  | .irq => takeIrq s
  | .handler => handlerStep s
  | .finish => finish s
  | .raise m => raise m s

/-- At the start no command is outstanding and no NAND interrupt is latched. -/
def waitMachine : Machine WaitState Act where
  init s := s.pc = .idle ∧ s.handler = .off ∧ busy s.nandCtrl = false ∧ nandBit s.armIrqFlag = false
  step := waitStep

end VwiiNandTools.Nand
