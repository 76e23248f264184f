import Mathlib

/-!
# Interrupts

`system/irq.c` and `irq_asm.S`: the interrupt bits of the CPSR, which `irq_kill` sets and
`irq_restore` puts back, the interrupt sources, and `irq_handler` as a sequence of register
accesses.  The handler reads the mask and the flags once and then acknowledges source by source, so
a flag that is raised after the read survives it; `Handler` is its program counter.
-/

namespace VwiiNandTools.Irq

/-! ## The CPSR -/

def cpsrIrqdis : BitVec 32 := 0x80#32
def cpsrFiqdis : BitVec 32 := 0x40#32

/-- `CPSR_IRQDIS | CPSR_FIQDIS`. -/
def cpsrDis : BitVec 32 := cpsrIrqdis ||| cpsrFiqdis

/-- The IRQ and FIQ mask bits. -/
def maskBits (cpsr : BitVec 32) : BitVec 32 := cpsr &&& cpsrDis

/-- What `irq_kill` returns and what it writes, for the value it read. -/
def irqKillCookie (r1 : BitVec 32) : BitVec 32 := r1 &&& cpsrDis
def irqKillCpsr (r1 : BitVec 32) : BitVec 32 := r1 ||| cpsrDis

/-- What `irq_restore` writes, for its argument and the value it read. -/
def irqRestoreCpsr (cookie r1 : BitVec 32) : BitVec 32 := (r1 &&& ~~~cpsrDis) ||| cookie

/-- An exception can be taken: the IRQ mask bit is clear. -/
def irqsOn (cpsr : BitVec 32) : Bool := cpsr &&& cpsrIrqdis = 0#32

theorem maskBits_idem (x : BitVec 32) : maskBits (maskBits x) = maskBits x := by
  rw [maskBits, maskBits, BitVec.and_assoc, BitVec.and_self]

/-- `irq_restore` of a cookie gives back the bits the cookie holds. -/
theorem maskBits_irqRestoreCpsr {cookie : BitVec 32} (h : maskBits cookie = cookie)
    (r1 : BitVec 32) : maskBits (irqRestoreCpsr cookie r1) = cookie := by
  rw [← h]
  apply BitVec.eq_of_getLsbD_eq
  intro i hi
  simp only [maskBits, irqRestoreCpsr, BitVec.getLsbD_and, BitVec.getLsbD_or, BitVec.getLsbD_not, hi,
    decide_true, Bool.true_and]
  cases cpsrDis.getLsbD i <;> simp

theorem maskBits_irqKillCpsr (r1 : BitVec 32) : maskBits (irqKillCpsr r1) = cpsrDis := by
  apply BitVec.eq_of_getLsbD_eq
  intro i hi
  simp only [maskBits, irqKillCpsr, BitVec.getLsbD_and, BitVec.getLsbD_or]
  cases cpsrDis.getLsbD i <;> simp

/-- With both bits set no exception can be taken. -/
theorem irqsOn_of_killed {cpsr : BitVec 32} (h : maskBits cpsr = cpsrDis) : irqsOn cpsr = false := by
  have hbit := congrArg (fun x => BitVec.getLsbD x 7) h
  simp only [irqsOn, decide_eq_false_iff_not]
  intro h0
  have h7 := congrArg (fun x => BitVec.getLsbD x 7) h0
  simp [maskBits, cpsrDis, cpsrIrqdis, cpsrFiqdis] at hbit h7
  rw [hbit] at h7
  cases h7

/-! ## The sources -/

def irqfTimer : BitVec 32 := 1#32 <<< 0
def irqfNand : BitVec 32 := 1#32 <<< 1
def irqfAes : BitVec 32 := 1#32 <<< 2
def irqfSdhc : BitVec 32 := 1#32 <<< 7
def irqfGpio1b : BitVec 32 := 1#32 <<< 10
def irqfGpio1 : BitVec 32 := 1#32 <<< 11
def irqfReset : BitVec 32 := 1#32 <<< 17
def irqfIpc : BitVec 32 := 1#32 <<< 31

def irqfAll : BitVec 32 :=
  irqfTimer ||| irqfNand ||| irqfGpio1b ||| irqfGpio1 ||| irqfReset ||| irqfIpc ||| irqfAes |||
    irqfSdhc

/-- The sources `irq_handler` tests after the NAND, in its order. -/
def otherSources : List (BitVec 32) :=
  [irqfGpio1b, irqfGpio1, irqfReset, irqfIpc, irqfAes, irqfSdhc]

/-- Whether the NAND bit is set. -/
def nandBit (x : BitVec 32) : Bool := x &&& irqfNand ≠ 0#32

theorem nandBit_eq (x : BitVec 32) : nandBit x = x.getLsbD 1 := by
  rw [nandBit, show irqfNand = BitVec.twoPow 32 1 from rfl, BitVec.and_twoPow]
  cases x.getLsbD 1 <;> decide

theorem nandBit_or (x y : BitVec 32) : nandBit (x ||| y) = (nandBit x || nandBit y) := by
  simp only [nandBit_eq, BitVec.getLsbD_or]

theorem nandBit_and (x y : BitVec 32) : nandBit (x &&& y) = (nandBit x && nandBit y) := by
  simp only [nandBit_eq, BitVec.getLsbD_and]

theorem nandBit_ack (x y : BitVec 32) : nandBit (x &&& ~~~y) = (nandBit x && !nandBit y) := by
  simp [nandBit_eq]

@[simp] theorem nandBit_irqfNand : nandBit irqfNand = true := by decide

@[simp] theorem nandBit_irqfTimer : nandBit irqfTimer = false := by decide

theorem nandBit_otherSources : ∀ x ∈ otherSources, nandBit x = false := by
  simp [otherSources, nandBit_eq, irqfGpio1b, irqfGpio1, irqfReset, irqfIpc, irqfAes, irqfSdhc]

@[simp] theorem nandBit_unknown (x : BitVec 32) : nandBit (x &&& ~~~irqfAll) = false := by
  have hall : nandBit irqfAll = true := by simp [irqfAll, nandBit_or]
  rw [nandBit_ack, hall, Bool.not_true, Bool.and_false]

/-! ## `irq_handler` -/

/-- The program counter of `irq_handler`, with its local variables. -/
inductive Handler
  | off
  | readMask
  | readFlag (enabled : BitVec 32)
  | timer (flags : BitVec 32)
  | nand (flags : BitVec 32)
  | nandAck (flags : BitVec 32)
  | nandIrq (flags : BitVec 32)
  | others (flags : BitVec 32) (todo : List (BitVec 32))
  | ret
  deriving DecidableEq

/-- The handler has seen the NAND flag and `nand_irq` has not set `irq_flag` yet. -/
def Handler.nandDue : Handler → Bool
  | .timer flags | .nand flags => nandBit flags
  | .nandAck _ | .nandIrq _ => true
  | _ => false

end VwiiNandTools.Irq
