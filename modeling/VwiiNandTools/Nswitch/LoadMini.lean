import VwiiNandTools.Lib.Interworking

/-!
# The hook that starts mini

`LoadMINI` of `nswitch/source/main.c` looks for a function of the security processor in steps of two
bytes, and writes six words over it: two Thumb loads, a switch to ARM code, a kernel call, the
return, and the two literals.

* `matches_scanned`: what the scan finds.
* `Hooked`: the words are at an address.  They stay there until the end of the scan
  (`Hooked.stays`).
* `hookWorks_iff`: the code at the address does what it is for exactly when the address is a
  multiple of 4.  The scan accepts every even address.
-/

namespace VwiiNandTools.LoadMini

open ByteMemory (Byte)
open WordMemory Interworking

/-! ## `LoadMINI` -/

def esImportBoot2 : List Byte :=
  [0x68#8, 0x4B#8, 0x2B#8, 0x06#8, 0xD1#8, 0x0C#8, 0x68#8, 0x8B#8, 0x2B#8, 0x00#8, 0xD1#8, 0x09#8,
    0x68#8, 0xC8#8, 0x68#8, 0x42#8]

/-- `memcmp((void*)(i), ES_ImportBoot2, sizeof(ES_ImportBoot2)) == 0`. -/
def Matches (m : Mem32) (i : Addr) : Prop :=
  ∀ k < 16, m (i + BitVec.ofNat 32 k) = esImportBoot2.getD k 0#8

instance (m : Mem32) (i : Addr) : Decidable (Matches m i) := by
  unfold Matches
  infer_instance

/-- The bytes of a word, the highest first. -/
def wordByte (w : BitVec 32) (k : ℕ) : Byte := w.extractLsb' (8 * (3 - k)) 8

/-- `*(vu32*)a = w`. -/
def write32 (m : Mem32) (a : Addr) (w : BitVec 32) : Mem32 := place m a 4 (wordByte w)

def installHook (m : Mem32) (i : Addr) : Mem32 :=
  let m := write32 m (i + 0x00#32) 0x48034904#32
  let m := write32 m (i + 0x04#32) 0x477846C0#32
  let m := write32 m (i + 0x08#32) 0xE6000870#32
  let m := write32 m (i + 0x0C#32) 0xE12FFF1E#32
  let m := write32 m (i + 0x10#32) 0x10100000#32
  write32 m (i + 0x14#32) 0x0000FF01#32

/-- `memcpy(mini, ptr, size)`. -/
def copyMini (armboot : List Byte) (m : Mem32) : Mem32 :=
  place m 0x90100000#32 armboot.length fun k => armboot.getD k 0#8

/-- The body of the loop. -/
def scanStep (armboot : List Byte) (m : Mem32) (i : Addr) : Mem32 :=
  if Matches m i then copyMini armboot (installHook m i) else m

/-- `i` in the `k`-th pass. -/
def scanAddr (k : ℕ) : Addr := 0x939F0000#32 + BitVec.ofNat 32 (2 * k)

/-- How many passes there are. -/
def scanCount : ℕ := 0x7000

/-- Memory before the `k`-th pass. -/
def scanned (armboot : List Byte) (m : Mem32) : ℕ → Mem32
  | 0 => m
  | k + 1 => scanStep armboot (scanned armboot m k) (scanAddr k)

/-- `LoadMINI(ptr, size)`, as far as memory goes. -/
def loadMini (armboot : List Byte) (m : Mem32) : Mem32 := scanned armboot m scanCount

/-! ## What the hook is for -/

/-- Before the kernel call, with its arguments. -/
structure AtSyscall (i : Addr) (c : Cpu) : Prop where
  pc : c.pc = i + 0x08#32
  arm : c.thumb = false
  offset : c.reg 0 = 0x10100000#32
  version : c.reg 1 = 0x0000FF01#32
  insn : c.insn = some (.undefined 0xE6000870#32)

/-- Before the return. -/
structure AtReturn (i : Addr) (c : Cpu) : Prop where
  pc : c.pc = i + 0x0C#32
  arm : c.thumb = false
  insn : c.insn = some (.bx 14)

/-- Thumb code that is entered at `i` comes to the kernel call, and behind it to the return. -/
def HookWorks (kernel : BitVec 32 → Cpu → Cpu) (m : Mem32) (i : Addr) : Prop :=
  ∀ c : Cpu, c.pc = i → c.thumb = true → c.mem = m → ∃ n c', c.run kernel n = some c' ∧
    AtSyscall i c' ∧ ∃ c'', c'.step kernel = some c'' ∧ AtReturn i c''

/-! ## The words in memory -/

def hookWords : List (BitVec 32) :=
  [0x48034904#32, 0x477846C0#32, 0xE6000870#32, 0xE12FFF1E#32, 0x10100000#32, 0x0000FF01#32]

def hookByte (k : ℕ) : Byte := wordByte (hookWords.getD (k / 4) 0#32) (k % 4)

def Hooked (m : Mem32) (i : Addr) : Prop := ∀ k < 24, m (i + BitVec.ofNat 32 k) = hookByte k

theorem write32_add {m : Mem32} {i : Addr} {w : BitVec 32} {o k : ℕ} (ho : o + 4 ≤ 2 ^ 32)
    (hk : k < 2 ^ 32) : write32 m (i + BitVec.ofNat 32 o) w (i + BitVec.ofNat 32 k) =
      if o ≤ k ∧ k < o + 4 then wordByte w (k - o) else m (i + BitVec.ofNat 32 k) := by
  split
  · next h =>
    have hsum : i + BitVec.ofNat 32 k = i + BitVec.ofNat 32 o + BitVec.ofNat 32 (k - o) := by
      rw [BitVec.add_assoc, ← BitVec.ofNat_add, Nat.add_sub_cancel' h.1]
    rw [hsum]
    exact place_add _ (by omega) (by decide)
  · next h => exact place_other _ fun hin => h ((inRange_add_add ho hk).mp hin)

theorem installHook_add (m : Mem32) (i : Addr) {k : ℕ} (hk : k < 2 ^ 32) :
    installHook m i (i + BitVec.ofNat 32 k) =
      if k < 24 then hookByte k else m (i + BitVec.ofNat 32 k) := by
  simp only [installHook]
  rw [write32_add (by decide) hk, write32_add (by decide) hk, write32_add (by decide) hk,
    write32_add (by decide) hk, write32_add (by decide) hk, write32_add (by decide) hk]
  rcases Nat.lt_or_ge k 24 with hlt | hge
  · rw [if_pos hlt]
    clear hk
    interval_cases k <;> rfl
  · rw [if_neg (by omega), if_neg (by omega), if_neg (by omega), if_neg (by omega),
      if_neg (by omega), if_neg (by omega), if_neg (by omega)]

theorem hooked_installHook (m : Mem32) (i : Addr) : Hooked (installHook m i) i := by
  intro k hk
  rw [installHook_add m i (by omega), if_pos hk]

/-- The hook at address 0. -/
def hookMem : Mem32 := fun x => hookByte x.toNat

section Words

variable {m : Mem32} {i : Addr} {k : ℕ}

theorem Hooked.byte (h : Hooked m i) {j : ℕ} (hk : k + j < 24) :
    m (i + BitVec.ofNat 32 k + BitVec.ofNat 32 j) =
      hookMem (BitVec.ofNat 32 k + BitVec.ofNat 32 j) := by
  rw [BitVec.add_assoc, ← BitVec.ofNat_add, h (k + j) hk, hookMem, BitVec.toNat_ofNat,
    Nat.mod_eq_of_lt (by omega)]

theorem Hooked.half (h : Hooked m i) (hk : k + 2 ≤ 24) :
    be16 m (i + BitVec.ofNat 32 k) = be16 hookMem (BitVec.ofNat 32 k) :=
  be16_congr fun j hj => h.byte (by omega)

theorem Hooked.word (h : Hooked m i) (hk : k + 4 ≤ 24) :
    be32 m (i + BitVec.ofNat 32 k) = be32 hookMem (BitVec.ofNat 32 k) :=
  be32_congr fun j hj => h.byte (by omega)

end Words

/-! ## Running it -/

section Run

variable {kernel : BitVec 32 → Cpu → Cpu} {m : Mem32} {i : Addr} {c : Cpu} {k : ℕ}

theorem toNat_add_hook (hmax : i.toNat + 24 < 2 ^ 32) (hk : k < 24) :
    (i + BitVec.ofNat 32 k).toNat = i.toNat + k := by
  rw [BitVec.toNat_add, BitVec.toNat_ofNat]
  omega

theorem Hooked.insn_thumb (h : Hooked m i) (heven : i.toNat % 2 = 0)
    (hmax : i.toNat + 24 < 2 ^ 32) (hk : k + 2 ≤ 24) (hk2 : k % 2 = 0) (hmem : c.mem = m)
    (hpc : c.pc = i + BitVec.ofNat 32 k) (hthumb : c.thumb = true) :
    c.insn = decodeThumb (be16 hookMem (BitVec.ofNat 32 k)) := by
  have hpc2 : c.pc.toNat % 2 = 0 := by
    rw [hpc, toNat_add_hook hmax (by omega)]
    omega
  rw [Cpu.insn_thumb hthumb hpc2, hmem, hpc, h.half hk]

/-- The two loads, at any even address. -/
theorem Hooked.loads (kernel : BitVec 32 → Cpu → Cpu) (h : Hooked m i)
    (heven : i.toNat % 2 = 0) (hmax : i.toNat + 24 < 2 ^ 32) (hpc : c.pc = i)
    (hthumb : c.thumb = true) (hmem : c.mem = m) :
    ∃ c₁ c₂, c.run kernel 1 = some c₁ ∧ c.run kernel 2 = some c₂ ∧ c₁.thumb = true ∧
      c₂.thumb = true ∧ c₂.pc = i + 0x04#32 ∧ c₂.mem = m ∧
      c₂.reg 0 = be32 m (Cpu.align (i + 4#32) + 0x0C#32) ∧
      c₂.reg 1 = be32 m (Cpu.align (i + 2#32 + 4#32) + 0x10#32) := by
  have hne : (0 : Fin 16) ≠ 1 := by decide
  obtain ⟨r₀, hr₀⟩ : ∃ r, r = be32 m (Cpu.align (i + 4#32) + 0x0C#32) := ⟨_, rfl⟩
  obtain ⟨r₁, hr₁⟩ : ∃ r, r = be32 m (Cpu.align (i + 2#32 + 4#32) + 0x10#32) :=
    ⟨_, rfl⟩
  have hfirst : c.insn = some (.ldrLiteral 0 0x0C#32) := by
    rw [h.insn_thumb (k := 0) heven hmax (by decide) rfl hmem (by rw [hpc, BitVec.add_zero]) hthumb]
    decide
  have hsecond : (⟨Function.update c.reg 0 r₀, i + 2#32, true, m⟩ : Cpu).insn =
      some (.ldrLiteral 1 0x10#32) := by
    rw [h.insn_thumb (k := 2) heven hmax (by decide) rfl rfl rfl rfl]
    decide
  have hrun1 : c.run kernel 1 = some ⟨Function.update c.reg 0 r₀, i + 2#32, true, m⟩ := by
    rw [hr₀, ← hpc, ← hmem]
    exact Cpu.step_ldrLiteral hfirst hthumb
  have hrun2 : c.run kernel 2 = some ⟨Function.update (Function.update c.reg 0 r₀) 1 r₁,
      i + 2#32 + 2#32, true, m⟩ := by
    rw [hr₁]
    exact (Cpu.run_succ hrun1).trans (Cpu.step_ldrLiteral hsecond rfl)
  rw [← hr₀, ← hr₁]
  refine ⟨_, _, hrun1, hrun2, rfl, rfl, ?_, rfl, ?_, ?_⟩
  · show i + 2#32 + 2#32 = i + 0x04#32
    rw [BitVec.add_assoc]
    rfl
  · show Function.update (Function.update c.reg 0 r₀) 1 r₁ 0 = r₀
    rw [Function.update_of_ne hne, Function.update_self]
  · show Function.update (Function.update c.reg 0 r₀) 1 r₁ 1 = r₁
    rw [Function.update_self]

/-- The third instruction switches to the ARM code behind it, if that lies on a multiple of 4. -/
theorem Hooked.switch (h : Hooked m i) (heven : i.toNat % 2 = 0) (hmax : i.toNat + 24 < 2 ^ 32)
    (hpc : c.pc = i + 0x04#32) (hthumb : c.thumb = true) (hmem : c.mem = m) :
    c.step kernel = if i.toNat % 4 = 0 then
      some { c with thumb := false, pc := i + 0x08#32 } else none := by
  have hinsn : c.insn = some (.bx 15) := by
    rw [h.insn_thumb (k := 4) heven hmax (by decide) rfl hmem hpc hthumb]
    decide
  have htarget : c.pc + 4#32 = i + 0x08#32 := by
    rw [hpc, BitVec.add_assoc]
    rfl
  have hnat : (i + 0x08#32).toNat = i.toNat + 8 := toNat_add_hook hmax (k := 8) (by decide)
  rw [Cpu.step_bx_pc hinsn hthumb, htarget, Cpu.exchange_even (by rw [hnat]; omega), hnat]
  by_cases h4 : i.toNat % 4 = 0
  · rw [if_pos h4, if_pos (by omega)]
  · rw [if_neg h4, if_neg (by omega)]

/-- At a multiple of 4 the loads get the literals. -/
theorem Hooked.literals (h : Hooked m i) (h4 : i.toNat % 4 = 0) (hmax : i.toNat + 24 < 2 ^ 32) :
    be32 m (Cpu.align (i + 4#32) + 0x0C#32) = 0x10100000#32 ∧
      be32 m (Cpu.align (i + 2#32 + 4#32) + 0x10#32) = 0x0000FF01#32 := by
  have htwo : (i + 2#32).toNat = i.toNat + 2 := toNat_add_hook hmax (k := 2) (by decide)
  constructor
  · have haddr : Cpu.align (i + 4#32) + 0x0C#32 = i + BitVec.ofNat 32 16 := by
      rw [Cpu.align_add i (by omega) (by omega), if_pos h4, BitVec.add_assoc]
      rfl
    rw [haddr, h.word (by decide)]
    decide
  · have haddr : Cpu.align (i + 2#32 + 4#32) + 0x10#32 = i + BitVec.ofNat 32 20 := by
      rw [Cpu.align_add _ (by omega) (by omega), if_neg (by omega), BitVec.add_assoc,
        BitVec.add_assoc]
      rfl
    rw [haddr, h.word (by decide)]
    decide

theorem Hooked.insn_arm (h : Hooked m i) (h4 : i.toNat % 4 = 0) (hmax : i.toNat + 24 < 2 ^ 32)
    (hk : k + 4 ≤ 24) (hk4 : k % 4 = 0) (hpc : c.pc = i + BitVec.ofNat 32 k)
    (harm : c.thumb = false)
    (hmem : be32 c.mem c.pc = be32 m (i + BitVec.ofNat 32 k)) :
    c.insn = decodeArm (be32 hookMem (BitVec.ofNat 32 k)) := by
  have hpc4 : c.pc.toNat % 4 = 0 := by
    rw [hpc, toNat_add_hook hmax (by omega)]
    omega
  rw [Cpu.insn_arm harm hpc4, hmem, h.word hk]

/-- **When the hook works**: at a multiple of 4. -/
theorem hookWorks_iff (hkernel : ReturnsBehind kernel) (h : Hooked m i) (heven : i.toNat % 2 = 0)
    (hmax : i.toNat + 24 < 2 ^ 32) : HookWorks kernel m i ↔ i.toNat % 4 = 0 := by
  constructor
  · intro hworks
    obtain ⟨n, c', hrun, hat, -⟩ := hworks ⟨fun _ => 0#32, i, true, m⟩ rfl rfl rfl
    obtain ⟨c₁, c₂, hrun1, hrun2, hthumb1, hthumb2, hpc2, hmem2, -, -⟩ :=
      h.loads kernel (c := ⟨fun _ => 0#32, i, true, m⟩) heven hmax rfl rfl rfl
    by_contra h4
    have hrun3 := (Cpu.run_succ hrun2).trans (h.switch heven hmax hpc2 hthumb2 hmem2)
    rw [if_neg h4] at hrun3
    rcases Nat.lt_or_ge n 3 with hn | hn
    · -- still in Thumb code
      have hthumb : c'.thumb = true := by
        interval_cases n
        · rw [← Option.some.inj hrun]
        · rw [← Option.some.inj (hrun1.symm.trans hrun)]
          exact hthumb1
        · rw [← Option.some.inj (hrun2.symm.trans hrun)]
          exact hthumb2
      cases hat.arm.symm.trans hthumb
    · cases (Cpu.run_none hrun3 hn).symm.trans hrun
  · intro h4 c hpc hthumb hmem
    obtain ⟨c₁, c₂, -, hrun2, -, hthumb2, hpc2, hmem2, hr0, hr1⟩ :=
      h.loads kernel heven hmax hpc hthumb hmem
    obtain ⟨hoffset, hversion⟩ := h.literals h4 hmax
    have hrun3 := (Cpu.run_succ hrun2).trans (h.switch heven hmax hpc2 hthumb2 hmem2)
    rw [if_pos h4] at hrun3
    have hsyscall : (⟨c₂.reg, i + 0x08#32, false, c₂.mem⟩ : Cpu).insn =
        some (.undefined 0xE6000870#32) := by
      rw [h.insn_arm (k := 8) h4 hmax (by decide) rfl rfl rfl (by rw [hmem2])]
      decide
    refine ⟨3, _, hrun3, ⟨rfl, rfl, hr0.trans hoffset, hr1.trans hversion, hsyscall⟩, ?_⟩
    have hpc4 := hkernel.pc 0xE6000870#32 ⟨c₂.reg, i + 0x08#32, false, c₂.mem⟩
    have hbehind : i + 0x08#32 + 4#32 = i + BitVec.ofNat 32 12 := by
      rw [BitVec.add_assoc]
      rfl
    refine ⟨_, Cpu.step_of_insn hsyscall, hpc4.trans hbehind, hkernel.thumb _ _, ?_⟩
    have hcode := hkernel.code 0xE6000870#32 ⟨c₂.reg, i + 0x08#32, false, c₂.mem⟩
    rw [h.insn_arm (k := 12) h4 hmax (by decide) rfl (hpc4.trans hbehind) (hkernel.thumb _ _)]
    · decide
    · rw [hpc4, hcode, hbehind, hmem2]

end Run

/-! ## The scan -/

section Scan

variable {armboot : List Byte} {m : Mem32} {i : Addr} {j k n : ℕ}

theorem toNat_scanAddr (hk : k ≤ scanCount) : (scanAddr k).toNat = 0x939F0000 + 2 * k := by
  have hcount : scanCount = 0x7000 := rfl
  rw [scanAddr, BitVec.toNat_add, BitVec.toNat_ofNat, BitVec.toNat_ofNat]
  omega

theorem scanAddr_lt (hk : k ≤ scanCount) : scanAddr k < 0x939FE000#32 ↔ k < scanCount := by
  have hcount : scanCount = 0x7000 := rfl
  rw [BitVec.lt_def, toNat_scanAddr hk, BitVec.toNat_ofNat]
  omega

theorem exists_scanAddr (hlo : 0x939F0000 ≤ i.toNat) (hhi : i.toNat < 0x939FE000)
    (heven : i.toNat % 2 = 0) : ∃ k < scanCount, scanAddr k = i := by
  have hcount : scanCount = 0x7000 := rfl
  have hk : (i.toNat - 0x939F0000) / 2 < scanCount := by omega
  refine ⟨_, hk, ?_⟩
  apply BitVec.eq_of_toNat_eq
  rw [toNat_scanAddr hk.le]
  omega

theorem scanAddr_add (hkj : k ≤ j) :
    scanAddr j = scanAddr k + BitVec.ofNat 32 (2 * (j - k)) := by
  have hsum : 2 * j = 2 * k + 2 * (j - k) := by omega
  rw [scanAddr, scanAddr, hsum, BitVec.ofNat_add, BitVec.add_assoc]

theorem installHook_other {x : Addr} (hx : ¬InRange i 24 x) : installHook m i x = m x := by
  obtain ⟨k, hk, rfl⟩ : ∃ k < 2 ^ 32, x = i + BitVec.ofNat 32 k := by
    refine ⟨(x - i).toNat, (x - i).isLt, ?_⟩
    rw [BitVec.ofNat_toNat, BitVec.setWidth_eq, add_sub_self]
  rw [installHook_add m i hk, if_neg fun hlt => hx (inRange_add hlt)]

/-- A hook stays when all that is written lies elsewhere. -/
theorem Hooked.congr {m' : Mem32} (h : Hooked m i) (hmax : i.toNat + 24 < 2 ^ 32)
    (hsame : ∀ x : Addr, i.toNat ≤ x.toNat → x.toNat < i.toNat + 24 → m' x = m x) :
    Hooked m' i := by
  intro k hk
  have hnat := toNat_add_hook hmax hk
  rw [hsame _ (by omega) (by omega)]
  exact h k hk

theorem copyMini_other {x : Addr} (hfit : armboot.length ≤ 0x38F0000)
    (hx : 0x939F0000 ≤ x.toNat) : copyMini armboot m x = m x := by
  have hmini : (0x90100000#32).toNat = 0x90100000 := rfl
  refine place_other _ ?_
  rw [inRange_iff (by omega), hmini]
  omega

theorem scanStep_other {x : Addr} (hfit : armboot.length ≤ 0x38F0000) (hx : 0x939F0000 ≤ x.toNat)
    (hhook : Matches m (scanAddr j) → ¬InRange (scanAddr j) 24 x) :
    scanStep armboot m (scanAddr j) x = m x := by
  rw [scanStep]
  split
  · next hmatch => exact (copyMini_other hfit hx).trans (installHook_other (hhook hmatch))
  · rfl

/-- The pattern is not found inside of a hook. -/
theorem Hooked.not_matches (h : Hooked m i) (hk : k < 24) :
    ¬Matches m (i + BitVec.ofNat 32 k) := by
  have hne : ∀ k < 24, hookByte k ≠ esImportBoot2.getD 0 0#8 := by decide
  intro hmatch
  have hbyte := hmatch 0 (by decide)
  rw [BitVec.add_zero, h k hk] at hbyte
  exact hne k hk hbyte

theorem Hooked.passed (h : Hooked m (scanAddr k)) (hfit : armboot.length ≤ 0x38F0000)
    (hkj : k < j) (hj : j < scanCount) : Hooked (scanStep armboot m (scanAddr j)) (scanAddr k) := by
  have hcount : scanCount = 0x7000 := rfl
  have hnatk := toNat_scanAddr (k := k) (by omega)
  have hnatj := toNat_scanAddr hj.le
  refine h.congr (by omega) fun x hlo hhi => scanStep_other hfit (by omega) fun hmatch => ?_
  have hfar : 24 ≤ 2 * (j - k) := by
    by_contra hnear
    rw [scanAddr_add hkj.le] at hmatch
    exact h.not_matches (not_le.mp hnear) hmatch
  rw [inRange_iff (by omega)]
  omega

/-- Where the scan has found the function, the hook is from then on. -/
theorem Hooked.stays (hfit : armboot.length ≤ 0x38F0000)
    (hfound : Matches (scanned armboot m k) (scanAddr k)) (hkn : k < n) (hn : n ≤ scanCount) :
    Hooked (scanned armboot m n) (scanAddr k) := by
  have hcount : scanCount = 0x7000 := rfl
  have hnat := toNat_scanAddr (k := k) (by omega)
  induction n, hkn using Nat.le_induction with
  | base =>
    show Hooked (scanStep armboot _ _) _
    rw [scanStep, if_pos hfound]
    exact (hooked_installHook _ _).congr (by omega) fun x hlo _ =>
      copyMini_other hfit (by omega)
  | succ n hkn ih => exact (ih (by omega)).passed hfit (by omega) (by omega)

/-- **What the scan finds**: the function at every even address of the window, unless an earlier
hook was written over it. -/
theorem matches_scanned (hfit : armboot.length ≤ 0x38F0000) (hk : k < scanCount)
    (hmatch : Matches m (scanAddr k))
    (hfar : ∀ j < k, Matches (scanned armboot m j) (scanAddr j) → j + 12 ≤ k) :
    Matches (scanned armboot m k) (scanAddr k) := by
  have hcount : scanCount = 0x7000 := rfl
  have hnat := toNat_scanAddr hk.le
  have hkeep (n : ℕ) (hn : n ≤ k) (x : Addr) (hx : (scanAddr k).toNat ≤ x.toNat) :
      scanned armboot m n x = m x := by
    induction n with
    | zero => rfl
    | succ n ih =>
      have hnatn := toNat_scanAddr (k := n) (by omega)
      refine (scanStep_other hfit (by omega) fun hfound => ?_).trans (ih (by omega))
      have hdist := hfar n (by omega) hfound
      rw [inRange_iff (by omega)]
      omega
  intro o ho
  have hnat' := toNat_add_hook (i := scanAddr k) (k := o) (by omega) (by omega)
  rw [hkeep k le_rfl _ (by omega)]
  exact hmatch o ho

end Scan

/-! ## Results -/

/-- **The hook, wherever the scan finds the function**: it works, as it is written and until the end
of the scan, exactly when the address is a multiple of 4. -/
theorem loadMini_hookWorks {kernel : BitVec 32 → Cpu → Cpu} (hkernel : ReturnsBehind kernel)
    (armboot : List Byte) (m : Mem32) {k : ℕ} (hk : k < scanCount)
    (hfound : Matches (scanned armboot m k) (scanAddr k)) :
    (HookWorks kernel (installHook (scanned armboot m k) (scanAddr k)) (scanAddr k) ↔
        (scanAddr k).toNat % 4 = 0) ∧
      (armboot.length ≤ 0x38F0000 → ∀ n, k < n → n ≤ scanCount →
        (HookWorks kernel (scanned armboot m n) (scanAddr k) ↔ (scanAddr k).toNat % 4 = 0)) := by
  have hcount : scanCount = 0x7000 := rfl
  have hnat := toNat_scanAddr hk.le
  constructor
  · exact hookWorks_iff hkernel (hooked_installHook _ _) (by omega) (by omega)
  · intro hfit n hkn hn
    exact hookWorks_iff hkernel (Hooked.stays hfit hfound hkn hn) (by omega) (by omega)

/-- A kernel whose calls do nothing. -/
def idle (_ : BitVec 32) (c : Cpu) : Cpu := { c with pc := c.pc + 4#32 }

theorem idle_returnsBehind : ReturnsBehind idle := ⟨fun _ _ => rfl, fun _ _ => rfl, fun _ _ => rfl⟩

/-- A memory that holds the function at `a` and nothing else. -/
def functionAt (a : Addr) : Mem32 := place (fun _ => 0#8) a 16 fun k => esImportBoot2.getD k 0#8

/-- The function is the first thing in the window. -/
theorem loadMini_hookWorks_first :
    (HookWorks idle (installHook (functionAt (scanAddr 0)) (scanAddr 0)) (scanAddr 0) ↔
        (scanAddr 0).toNat % 4 = 0) ∧
      HookWorks idle (loadMini [0xEA#8] (functionAt (scanAddr 0))) (scanAddr 0) := by
  have h := loadMini_hookWorks idle_returnsBehind [0xEA#8] (functionAt (scanAddr 0)) (k := 0)
    (by decide) (by decide)
  exact ⟨h.1, (h.2 (by decide) scanCount (by decide) le_rfl).mpr (by decide)⟩

/-- The function is two bytes further. -/
theorem loadMini_hook_halfword : Matches (scanned [] (functionAt (scanAddr 1)) 1) (scanAddr 1) ∧
    ¬HookWorks idle (installHook (scanned [] (functionAt (scanAddr 1)) 1) (scanAddr 1))
      (scanAddr 1) := by
  refine ⟨by decide, ?_⟩
  rw [hookWorks_iff idle_returnsBehind (hooked_installHook _ _) (by decide) (by decide)]
  decide

end VwiiNandTools.LoadMini
