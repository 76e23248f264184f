import VwiiNandTools.Lib.WordMemory

/-!
# ARM and Thumb code in big-endian memory

A fragment of the two instruction sets and of the switch between them: literal loads and moves of
Thumb code, `BX`, and the undefined instructions that a kernel takes for its calls.  What the kernel
does with a call is a parameter.  A step of code that the architecture does not define is `none`.
-/

namespace Interworking

open WordMemory

/-- The registers `r0` to `r14`, the address of the next instruction and the state it is in. -/
structure Cpu where
  reg : Fin 16 → BitVec 32
  pc : Addr
  thumb : Bool
  mem : Mem32

inductive Insn
  /-- `LDR rd, [PC, #offset]` -/
  | ldrLiteral (rd : Fin 16) (offset : BitVec 32)
  /-- `MOV rd, rm` -/
  | mov (rd rm : Fin 16)
  | bx (rm : Fin 16)
  /-- an instruction of the undefined space -/
  | undefined (word : BitVec 32)
  deriving DecidableEq

/-! ## Decoding -/

/-- The four bits of an instruction from bit `n` on, as a register. -/
def field {w : ℕ} (insn : BitVec w) (n : ℕ) : Fin 16 := (insn.extractLsb' n 4).toFin

def decodeThumb (insn : BitVec 16) : Option Insn :=
  if insn &&& 0xF800#16 = 0x4800#16 then
    some (.ldrLiteral ((insn.extractLsb' 8 3).setWidth 4).toFin
      ((insn.extractLsb' 0 8).setWidth 32 * 4#32))
  else if insn &&& 0xFF00#16 = 0x4600#16 then
    some (.mov (insn.extractLsb' 7 1 ++ insn.extractLsb' 0 3).toFin (field insn 3))
  else if insn &&& 0xFF87#16 = 0x4700#16 then some (.bx (field insn 3))
  else none

/-- Instructions that are always executed. -/
def decodeArm (insn : BitVec 32) : Option Insn :=
  if insn &&& 0xFFFFFFF0#32 = 0xE12FFF10#32 then some (.bx (field insn 0))
  else if insn &&& 0xFE000010#32 = 0xE6000010#32 then some (.undefined insn)
  else none

/-! ## Execution -/

namespace Cpu

/-- `r15` is ahead of the instruction that reads it. -/
def read (c : Cpu) (r : Fin 16) : BitVec 32 :=
  if r = 15 then c.pc + (if c.thumb = true then 4#32 else 8#32) else c.reg r

def write (c : Cpu) (r : Fin 16) (v : BitVec 32) : Cpu := { c with reg := Function.update c.reg r v }

/-- On to the next instruction. -/
def next (c : Cpu) : Cpu := { c with pc := c.pc + (if c.thumb = true then 2#32 else 4#32) }

/-- The instruction at `pc`: Thumb code lies on even addresses, ARM code on multiples of 4. -/
def insn (c : Cpu) : Option Insn :=
  if c.thumb = true then if c.pc.toNat % 2 = 0 then decodeThumb (be16 c.mem c.pc) else none
  else if c.pc.toNat % 4 = 0 then decodeArm (be32 c.mem c.pc) else none

/-- Rounded down to a multiple of 4. -/
def align (a : Addr) : Addr := BitVec.ofNat 32 (a.toNat / 4 * 4)

/-- `BX`: bit 0 chooses the state, and ARM code at an odd half-word is unpredictable. -/
def exchange (c : Cpu) (target : BitVec 32) : Option Cpu :=
  if target.getLsbD 0 = true then some { c with thumb := true, pc := target - 1#32 }
  else if target.getLsbD 1 = true then none
  else some { c with thumb := false, pc := target }

def exec (kernel : BitVec 32 → Cpu → Cpu) (c : Cpu) : Insn → Option Cpu
  | .ldrLiteral rd offset => some (c.write rd (be32 c.mem (align (c.read 15) + offset))).next
  | .mov rd rm => if rd = 15 then none else some (c.write rd (c.read rm)).next
  | .bx rm => c.exchange (c.read rm)
  | .undefined word => some (kernel word c)

def step (kernel : BitVec 32 → Cpu → Cpu) (c : Cpu) : Option Cpu := c.insn.bind (c.exec kernel)

def run (kernel : BitVec 32 → Cpu → Cpu) (c : Cpu) : ℕ → Option Cpu
  | 0 => some c
  | n + 1 => (c.run kernel n).bind (step kernel)

end Cpu

/-- A kernel whose calls return to the instruction behind them, which is as it was. -/
structure ReturnsBehind (kernel : BitVec 32 → Cpu → Cpu) : Prop where
  pc : ∀ word c, (kernel word c).pc = c.pc + 4#32
  thumb : ∀ word c, (kernel word c).thumb = c.thumb
  code : ∀ word c, be32 (kernel word c).mem (c.pc + 4#32) = be32 c.mem (c.pc + 4#32)

/-! ## Rules -/

namespace Cpu

variable {kernel : BitVec 32 → Cpu → Cpu} {c c' : Cpu} {n : ℕ}

theorem step_of_insn {i : Insn} (h : c.insn = some i) : c.step kernel = c.exec kernel i := by
  rw [step, h]
  rfl

theorem insn_thumb (hthumb : c.thumb = true) (heven : c.pc.toNat % 2 = 0) :
    c.insn = decodeThumb (be16 c.mem c.pc) := by
  rw [insn, if_pos hthumb, if_pos heven]

theorem insn_arm (harm : c.thumb = false) (hword : c.pc.toNat % 4 = 0) :
    c.insn = decodeArm (be32 c.mem c.pc) := by
  rw [insn, harm, if_neg Bool.false_ne_true, if_pos hword]

theorem step_ldrLiteral {rd : Fin 16} {offset : BitVec 32}
    (h : c.insn = some (.ldrLiteral rd offset)) (hthumb : c.thumb = true) :
    c.step kernel = some
      { reg := Function.update c.reg rd (be32 c.mem (align (c.pc + 4#32) + offset))
        pc := c.pc + 2#32
        thumb := true
        mem := c.mem } := by
  rw [step_of_insn h, exec, read, if_pos rfl, hthumb, if_pos rfl, next, write, hthumb, if_pos rfl]

theorem step_bx_pc (h : c.insn = some (.bx 15)) (hthumb : c.thumb = true) :
    c.step kernel = c.exchange (c.pc + 4#32) := by
  rw [step_of_insn h, exec, read, if_pos rfl, hthumb, if_pos rfl]

theorem run_succ (h : c.run kernel n = some c') : c.run kernel (n + 1) = c'.step kernel := by
  rw [run, h]
  rfl

theorem run_none {m : ℕ} (h : c.run kernel n = none) (hnm : n ≤ m) : c.run kernel m = none := by
  induction m, hnm using Nat.le_induction with
  | base => exact h
  | succ m _ ih =>
    rw [run, ih]
    rfl

/-- A literal is 4 bytes ahead of a load on a multiple of 4, and 2 bytes ahead of another one. -/
theorem align_add (a : Addr) (heven : a.toNat % 2 = 0) (hmax : a.toNat + 4 < 2 ^ 32) :
    align (a + 4#32) = if a.toNat % 4 = 0 then a + 4#32 else a + 2#32 := by
  have hfour : (a + 4#32).toNat = a.toNat + 4 := by
    rw [BitVec.toNat_add, BitVec.toNat_ofNat]
    omega
  apply BitVec.eq_of_toNat_eq
  rw [align, hfour, BitVec.toNat_ofNat]
  split
  · rw [hfour]
    omega
  · rw [BitVec.toNat_add, BitVec.toNat_ofNat]
    omega

theorem getLsbD_one_of_even {a : Addr} (heven : a.toNat % 2 = 0) :
    a.getLsbD 0 = false ∧ a.getLsbD 1 = decide (a.toNat % 4 ≠ 0) := by
  have hbit (i : ℕ) : a.getLsbD i = decide (a.toNat / 2 ^ i % 2 = 1) :=
    Nat.testBit_eq_decide_div_mod_eq
  rw [hbit, hbit]
  constructor
  · rw [decide_eq_false_iff_not]
    omega
  · rw [decide_eq_decide]
    omega

/-- `BX` to an even address: to ARM code on a multiple of 4, and nowhere else. -/
theorem exchange_even {target : BitVec 32} (heven : target.toNat % 2 = 0) :
    c.exchange target =
      if target.toNat % 4 = 0 then some { c with thumb := false, pc := target } else none := by
  obtain ⟨h0, h1⟩ := getLsbD_one_of_even heven
  rw [exchange, h0, if_neg Bool.false_ne_true, h1]
  by_cases h : target.toNat % 4 = 0
  · rw [if_pos h, if_neg (by simp [h])]
  · rw [if_neg h, if_pos (by simp [h])]

end Cpu

end Interworking
