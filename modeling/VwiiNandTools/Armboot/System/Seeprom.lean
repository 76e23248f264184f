import Mathlib

/-!
# The serial EEPROM

`seeprom_read` of `system/seeprom.c`, which clocks a 93C66-style device by hand, and the device
itself (`Eeprom`).  The device only sees the pins, so the driver is a list of writes of
`HW_GPIO1OUT`, and each write moves the device (`Eeprom.pins`).  A pulse of the clock is one step of
the device (`pulse_spec`); from there `sendBits_spec` and `recvBits_spec` are about the bits alone.
-/

namespace VwiiNandTools.Seeprom

/-! ## The device -/

/-- What the device is at: it waits for a start bit, takes in opcode and address, of which it has
`n` bits, puts out a word, or waits for the end of an instruction that is not a read. -/
inductive Phase
  | standby
  | receiving (n : ℕ) (value : BitVec 10)
  | sending (word : BitVec 16)
  | ignoring

/-- The device: the pin it drives, and the instructions it has taken in. -/
structure Eeprom where
  phase : Phase
  dout : Bool
  instructions : List (BitVec 2 × BitVec 8)

def opRead : BitVec 2 := 0b10#2

def gpEepCs : BitVec 32 := 0x000400#32
def gpEepClk : BitVec 32 := 0x000800#32
def gpEepMosi : BitVec 32 := 0x001000#32
def gpEepMiso : BitVec 32 := 0x002000#32

/-- Whether a pin is set in the value of a register. -/
def pin (value mask : BitVec 32) : Bool := value &&& mask ≠ 0#32

section Device

variable (words : BitVec 8 → BitVec 16)

/-- A complete opcode and address. -/
def Eeprom.decode (value : BitVec 10) (d : Eeprom) : Eeprom :=
  let opcode := value.extractLsb' 8 2
  let address := value.extractLsb' 0 8
  { phase := if opcode = opRead then .sending (words address) else .ignoring
    dout := false
    instructions := d.instructions ++ [(opcode, address)] }

/-- A rising edge of the clock. -/
def Eeprom.rise (di : Bool) (d : Eeprom) : Eeprom :=
  match d.phase with
  | .standby => { d with phase := if di then .receiving 0 0#10 else .standby }
  | .receiving n value =>
    let value := value <<< 1 ||| (BitVec.ofBool di).setWidth 10
    if n = 9 then d.decode words value else { d with phase := .receiving (n + 1) value }
  | .sending word => { d with phase := .sending (word <<< 1), dout := word.msb }
  | .ignoring => d

/-- A change of the pins.  The device is reset while it is not selected. -/
def Eeprom.pins (old new : BitVec 32) (d : Eeprom) : Eeprom :=
  if pin new gpEepCs then
    if ¬pin old gpEepClk ∧ pin new gpEepClk then d.rise words (pin new gpEepMosi) else d
  else { d with phase := .standby }

end Device

/-! ## The source -/

/-- `HW_GPIO1OUT` with all values it was given, the device, and memory as half-words. -/
structure Board where
  out : BitVec 32
  writes : List (BitVec 32)
  dev : Eeprom
  mem : ℕ → BitVec 16

section Source

variable (words : BitVec 8 → BitVec 16) (noise : ℕ → BitVec 32)

def writeOut (value : BitVec 32) (s : Board) : Board :=
  { s with out := value, writes := s.writes ++ [value], dev := s.dev.pins words s.out value }

def set32 (mask : BitVec 32) (s : Board) : Board := writeOut words (s.out ||| mask) s

def clear32 (mask : BitVec 32) (s : Board) : Board := writeOut words (s.out &&& ~~~mask) s

/-- `HW_GPIO1IN`: the pin of the device, and the other inputs, which are as they will. -/
def gpio1In (s : Board) : BitVec 32 :=
  noise s.writes.length &&& ~~~gpEepMiso ||| if s.dev.dout then gpEepMiso else 0#32

/-- `send_bits`. -/
def sendBits (b : BitVec 32) : ℕ → Board → Board
  | 0, s => s
  | bits + 1, s =>
    let s := if b &&& (1#32 <<< bits) ≠ 0#32 then set32 words gpEepMosi s
      else clear32 words gpEepMosi s
    let s := set32 words gpEepClk s
    let s := clear32 words gpEepClk s
    sendBits b bits s

/-- The loop of `recv_bits`. -/
def recvBitsLoop : ℕ → BitVec 32 → Board → BitVec 32 × Board
  | 0, res, s => (res, s)
  | bits + 1, res, s =>
    let res := res <<< 1
    let s := set32 words gpEepClk s
    let s := clear32 words gpEepClk s
    let res := res ||| if gpio1In noise s &&& gpEepMiso ≠ 0#32 then 1#32 else 0#32
    recvBitsLoop bits res s

def recvBits (bits : ℕ) (s : Board) : BitVec 32 × Board := recvBitsLoop words noise bits 0#32 s

/-- One pass of the loop of `seeprom_read`, with its `i` and its `ptr`. -/
def readWord (offset i : BitVec 32) (ptr : ℕ) (s : Board) : Board :=
  let s := set32 words gpEepCs s
  let s := sendBits words (0x600#32 ||| (offset + i)) 11 s
  let (recv, s) := recvBits words noise 16 s
  let s := { s with mem := Function.update s.mem ptr (recv.setWidth 16) }
  clear32 words gpEepCs s

/-- The passes that are left. -/
def readLoop (offset : BitVec 32) : ℕ → BitVec 32 → ℕ → Board → Board
  | 0, _, _, s => s
  | n + 1, i, ptr, s => readLoop offset n (i + 1#32) (ptr + 1) (readWord words noise offset i ptr s)

def seepromRead (dst : ℕ) (offset size : BitVec 32) (s : Board) : ℤ × Board :=
  if size &&& 1#32 ≠ 0#32 then (-1, s)
  else
    let s := clear32 words gpEepClk s
    let s := clear32 words gpEepCs s
    (size.toInt, readLoop words noise offset size.toInt.toNat 0#32 dst s)

end Source

/-! ## What it is for -/

/-- The pins that belong to the device. -/
def gpEepPins : BitVec 32 := gpEepCs ||| gpEepClk ||| gpEepMosi

/-- From `s` to `s'` no other bit of `HW_GPIO1OUT` was given another value. -/
structure OthersKept (s s' : Board) : Prop where
  out : s'.out &&& ~~~gpEepPins = s.out &&& ~~~gpEepPins
  writes : ∃ new, s'.writes = s.writes ++ new ∧
    ∀ v ∈ new, v &&& ~~~gpEepPins = s.out &&& ~~~gpEepPins

/-- What a call for an even size does. -/
structure ReadsWords (words : BitVec 8 → BitVec 16) (dst : ℕ) (offset size : BitVec 32) (s : Board)
    (r : ℤ × Board) : Prop where
  result : r.1 = size.toInt
  read : ∀ i < size.toInt.toNat, r.2.mem (dst + i) = words (BitVec.ofNat 8 (offset.toNat + i))
  frame : ∀ x, ¬(dst ≤ x ∧ x < dst + size.toInt.toNat) → r.2.mem x = s.mem x
  instructions : r.2.dev.instructions = s.dev.instructions ++
    (List.range size.toInt.toNat).map fun i => (opRead, BitVec.ofNat 8 (offset.toNat + i))
  pins : OthersKept s r.2

/-! ## Pins -/

theorem OthersKept.refl (s : Board) : OthersKept s s := ⟨rfl, [], by simp, by simp⟩

theorem OthersKept.trans {s t u : Board} (h : OthersKept s t) (h' : OthersKept t u) :
    OthersKept s u := by
  obtain ⟨new, hnew, hall⟩ := h.writes
  obtain ⟨new', hnew', hall'⟩ := h'.writes
  refine ⟨h'.out.trans h.out, new ++ new', by rw [hnew', hnew, List.append_assoc], ?_⟩
  intro v hv
  rcases List.mem_append.mp hv with hv | hv
  · exact hall v hv
  · exact (hall' v hv).trans h.out

theorem pin_twoPow (value : BitVec 32) {k : ℕ} (hk : k < 32) :
    pin value (BitVec.twoPow 32 k) = value.getLsbD k := by
  have hne : BitVec.twoPow 32 k ≠ 0#32 := by
    intro h
    have hbit := congrArg (BitVec.getLsbD · k) h
    simp [hk] at hbit
  simp only [pin, BitVec.and_twoPow]
  cases value.getLsbD k <;> simp [hne]

theorem pin_cs (value : BitVec 32) : pin value gpEepCs = value.getLsbD 10 :=
  pin_twoPow value (k := 10) (by decide)

theorem pin_clk (value : BitVec 32) : pin value gpEepClk = value.getLsbD 11 :=
  pin_twoPow value (k := 11) (by decide)

theorem pin_mosi (value : BitVec 32) : pin value gpEepMosi = value.getLsbD 12 :=
  pin_twoPow value (k := 12) (by decide)

section Pins

variable {words : BitVec 8 → BitVec 16}

theorem writeOut_kept {value : BitVec 32} {s : Board}
    (h : value &&& ~~~gpEepPins = s.out &&& ~~~gpEepPins) : OthersKept s (writeOut words value s) :=
  ⟨h, [value], rfl, by simpa using h⟩

theorem set32_kept {mask : BitVec 32} (hmask : mask &&& ~~~gpEepPins = 0#32) (s : Board) :
    OthersKept s (set32 words mask s) := by
  refine writeOut_kept ?_
  rw [BitVec.and_comm, BitVec.and_or_distrib_left, BitVec.and_comm _ mask, hmask, BitVec.or_zero,
    BitVec.and_comm]

theorem clear32_kept {mask : BitVec 32} (hmask : ~~~mask &&& ~~~gpEepPins = ~~~gpEepPins)
    (s : Board) : OthersKept s (clear32 words mask s) := by
  refine writeOut_kept ?_
  rw [BitVec.and_assoc, hmask]

end Pins

/-! ## One pulse -/

/-- The device is selected, and its clock is low. -/
structure Selected (s : Board) : Prop where
  cs : s.out.getLsbD 10 = true
  clk : s.out.getLsbD 11 = false

section Pulse

variable {words : BitVec 8 → BitVec 16} {s : Board}

/-- What a selected device makes of a change of the pins. -/
theorem pins_selected {old new : BitVec 32} (d : Eeprom) (hcs : new.getLsbD 10 = true) :
    d.pins words old new =
      if old.getLsbD 11 = false ∧ new.getLsbD 11 = true then d.rise words (new.getLsbD 12)
      else d := by
  simp [Eeprom.pins, pin_cs, pin_clk, pin_mosi, hcs]

/-- A change of the data pin alone does not move the device. -/
theorem mosi_spec (hs : Selected s) (b : Bool) {t : Board}
    (ht : t = if b then set32 words gpEepMosi s else clear32 words gpEepMosi s) :
    Selected t ∧ t.out.getLsbD 12 = b ∧ t.dev = s.dev ∧ t.mem = s.mem ∧ OthersKept s t := by
  subst ht
  cases b with
  | false =>
    have h10 : (s.out &&& ~~~gpEepMosi).getLsbD 10 = true := by simp [gpEepMosi, hs.cs]
    have h11 : (s.out &&& ~~~gpEepMosi).getLsbD 11 = false := by
      rw [BitVec.getLsbD_and, hs.clk, Bool.false_and]
    have h12 : (s.out &&& ~~~gpEepMosi).getLsbD 12 = false := by simp [gpEepMosi]
    refine ⟨⟨h10, h11⟩, h12, ?_, rfl, clear32_kept (by decide) s⟩
    exact (pins_selected s.dev h10).trans (if_neg fun h => Bool.false_ne_true (h11.symm.trans h.2))
  | true =>
    have h10 : (s.out ||| gpEepMosi).getLsbD 10 = true := by simp [hs.cs]
    have h11 : (s.out ||| gpEepMosi).getLsbD 11 = false := by
      rw [BitVec.getLsbD_or, hs.clk]
      rfl
    have h12 : (s.out ||| gpEepMosi).getLsbD 12 = true := by simp [gpEepMosi]
    refine ⟨⟨h10, h11⟩, h12, ?_, rfl, set32_kept (by decide) s⟩
    exact (pins_selected s.dev h10).trans (if_neg fun h => Bool.false_ne_true (h11.symm.trans h.2))

/-- **A pulse of the clock** is one step of the device, with the data pin as it is, and leaves the
pins as they were. -/
theorem pulse_spec (hs : Selected s) {t : Board}
    (ht : t = clear32 words gpEepClk (set32 words gpEepClk s)) :
    t.out = s.out ∧ t.dev = s.dev.rise words (s.out.getLsbD 12) ∧ t.mem = s.mem ∧
      OthersKept s t := by
  subst ht
  have h10 : (s.out ||| gpEepClk).getLsbD 10 = true := by simp [hs.cs]
  have h11 : (s.out ||| gpEepClk).getLsbD 11 = true := by simp [gpEepClk]
  have h12 : (s.out ||| gpEepClk).getLsbD 12 = s.out.getLsbD 12 := by simp [gpEepClk]
  have hout : (s.out ||| gpEepClk) &&& ~~~gpEepClk = s.out := by
    apply BitVec.eq_of_getLsbD_eq
    intro i hi
    rw [BitVec.getLsbD_and, BitVec.getLsbD_or, BitVec.getLsbD_not]
    by_cases h : i = 11
    · rw [h, hs.clk]
      decide
    · have hbit : gpEepClk.getLsbD i = false := by
        have hpow : gpEepClk = BitVec.twoPow 32 11 := by decide
        rw [hpow, BitVec.getLsbD_twoPow, decide_eq_false (Ne.symm h), Bool.and_false]
      rw [hbit, Bool.or_false, decide_eq_true hi]
      exact Bool.and_true _
  have hrise : (set32 words gpEepClk s).dev = s.dev.rise words (s.out.getLsbD 12) := by
    refine (pins_selected s.dev h10).trans ?_
    rw [if_pos ⟨hs.clk, h11⟩, h12]
  refine ⟨hout, ?_, rfl, (set32_kept (by decide) s).trans (clear32_kept (by decide) _)⟩
  rw [← hrise]
  refine (pins_selected _ ?_).trans (if_neg ?_)
  · rw [show (set32 words gpEepClk s).out = s.out ||| gpEepClk from rfl, hout]
    exact hs.cs
  · exact fun h => Bool.false_ne_true (h.1.symm.trans h11)

/-! ## Sending and receiving -/

/-- The bits that `send_bits` sends, the most significant first. -/
def bitsOf (b : BitVec 32) (n : ℕ) : List Bool := ((List.range n).reverse).map b.getLsbD

theorem bitsOf_succ (b : BitVec 32) (n : ℕ) : bitsOf b (n + 1) = b.getLsbD n :: bitsOf b n := by
  simp [bitsOf, List.range_succ]

variable (words) in
/-- The device takes in the bits that are sent. -/
theorem sendBits_spec (b : BitVec 32) {n : ℕ} (hn : n ≤ 32) (hs : Selected s) {t : Board}
    (ht : t = sendBits words b n s) :
    Selected t ∧ t.dev = (bitsOf b n).foldl (fun d di => d.rise words di) s.dev ∧ t.mem = s.mem ∧
      OthersKept s t := by
  induction n generalizing s with
  | zero =>
    subst ht
    exact ⟨hs, rfl, rfl, .refl _⟩
  | succ n ih =>
    obtain ⟨s1, hs1⟩ : ∃ s1, s1 = if b.getLsbD n then set32 words gpEepMosi s
        else clear32 words gpEepMosi s := ⟨_, rfl⟩
    obtain ⟨s2, hs2⟩ : ∃ s2, s2 = clear32 words gpEepClk (set32 words gpEepClk s1) := ⟨_, rfl⟩
    obtain ⟨hsel1, hdata, hdev1, hmem1, hkept1⟩ := mosi_spec hs _ hs1
    obtain ⟨hout2, hdev2, hmem2, hkept2⟩ := pulse_spec hsel1 hs2
    have hsel2 : Selected s2 := ⟨hout2 ▸ hsel1.cs, hout2 ▸ hsel1.clk⟩
    have hbit : (b &&& (1#32 <<< n) ≠ 0#32) ↔ b.getLsbD n = true := by
      rw [← pin_twoPow b (by omega : n < 32), pin, decide_eq_true_eq, BitVec.twoPow]
    have hstep : t = sendBits words b n s2 := by
      rw [ht, sendBits, hs2, hs1]
      simp only [hbit]
    obtain ⟨hsel, hdev, hmem, hkept⟩ := ih (by omega) hsel2 hstep
    refine ⟨hsel, ?_, hmem.trans (hmem2.trans hmem1), (hkept1.trans hkept2).trans hkept⟩
    rw [hdev, hdev2, hdata, hdev1, bitsOf_succ]
    rfl

theorem gpio1In_miso (noise : ℕ → BitVec 32) (s : Board) :
    pin (gpio1In noise s) gpEepMiso = s.dev.dout := by
  have hmiso : gpEepMiso.getLsbD 13 = true := by decide
  rw [show gpEepMiso = BitVec.twoPow 32 13 by decide, pin_twoPow _ (by decide), gpio1In,
    BitVec.getLsbD_or, BitVec.getLsbD_and, BitVec.getLsbD_not, hmiso]
  cases s.dev.dout <;> simp [hmiso]

theorem shiftIn_eq (res : BitVec 32) (word : BitVec 16) {n : ℕ} (hn : n < 16) :
    (res <<< 1 ||| if word.msb = true then 1#32 else 0#32) <<< n |||
        (word <<< 1).setWidth 32 >>> (16 - n) =
      res <<< (n + 1) ||| word.setWidth 32 >>> (16 - (n + 1)) := by
  have hmsb : word.msb = word.getLsbD 15 := BitVec.msb_eq_getLsbD_last word
  have hbit (k : ℕ) : (if word.getLsbD 15 = true then 1#32 else 0#32).getLsbD k =
      (decide (k = 0) && word.getLsbD 15) := by
    cases word.getLsbD 15 <;> simp
  apply BitVec.eq_of_getLsbD_eq
  intro i hi
  simp only [hmsb, BitVec.getLsbD_or, BitVec.getLsbD_shiftLeft, BitVec.getLsbD_ushiftRight,
    BitVec.getLsbD_setWidth, hbit]
  rcases Nat.lt_trichotomy i n with h | h | h
  · have h1 : 16 - n + i - 1 = 15 - n + i := by omega
    have h2 : ¬16 - n + i < 1 := by omega
    have h3 : 16 - n + i < 16 ∧ 16 - n + i < 32 ∧ 15 - n + i < 32 := by omega
    simp [h, h1, h2, h3, Nat.lt_succ_of_lt h]
  · have h1 : 15 - n + n = 15 := by omega
    have h2 : 16 - n + n = 16 := by omega
    simp [h, hn.trans (by decide : 16 < 32), h1, h2]
  · have h1 : i - n - 1 = i - (n + 1) ∧ i - n < 32 := by omega
    have h2 : ¬i < n ∧ ¬i < n + 1 ∧ ¬i - n < 1 ∧ i - n ≠ 0 := by omega
    have h3 : word.getLsbD (15 - n + i) = false := BitVec.getLsbD_of_ge _ _ (by omega)
    have h4 : ¬16 - n + i < 16 := by omega
    simp [hi, h1, h2, h3, h4]

/-- What is received, while the device puts out `word`. -/
theorem recvBitsLoop_spec (noise : ℕ → BitVec 32) {n : ℕ} (hn : n ≤ 16) (res : BitVec 32)
    (hs : Selected s) {word : BitVec 16} (hphase : s.dev.phase = .sending word)
    {r : BitVec 32 × Board} (hr : r = recvBitsLoop words noise n res s) :
    r.1 = res <<< n ||| word.setWidth 32 >>> (16 - n) ∧ Selected r.2 ∧
      r.2.dev.instructions = s.dev.instructions ∧ r.2.mem = s.mem ∧ OthersKept s r.2 := by
  induction n generalizing s res word with
  | zero =>
    subst hr
    refine ⟨?_, hs, rfl, rfl, .refl _⟩
    have hzero : word.setWidth 32 >>> 16 = 0#32 := by
      apply BitVec.eq_of_getLsbD_eq
      intro i hi
      simp
    rw [recvBitsLoop, Nat.sub_zero, hzero, BitVec.shiftLeft_zero, BitVec.or_zero]
  | succ n ih =>
    obtain ⟨s1, hs1⟩ : ∃ s1, s1 = clear32 words gpEepClk (set32 words gpEepClk s) := ⟨_, rfl⟩
    obtain ⟨hout1, hdev1, hmem1, hkept1⟩ := pulse_spec hs hs1
    have hsel1 : Selected s1 := ⟨hout1 ▸ hs.cs, hout1 ▸ hs.clk⟩
    rw [Eeprom.rise, hphase] at hdev1
    have hphase1 : s1.dev.phase = .sending (word <<< 1) := by rw [hdev1]
    have hdout1 : s1.dev.dout = word.msb := by rw [hdev1]
    have hinstr1 : s1.dev.instructions = s.dev.instructions := by rw [hdev1]
    have hin : (gpio1In noise s1 &&& gpEepMiso ≠ 0#32) ↔ word.msb = true := by
      rw [← hdout1, ← gpio1In_miso noise s1, pin, decide_eq_true_eq]
    have hstep : r = recvBitsLoop words noise n
        (res <<< 1 ||| if word.msb = true then 1#32 else 0#32) s1 := by
      rw [hr, recvBitsLoop, ← hs1]
      simp only [hin]
    obtain ⟨hres, hsel, hinstr, hmem, hkept⟩ := ih (by omega) _ hsel1 hphase1 hstep
    refine ⟨?_, hsel, hinstr.trans hinstr1, hmem.trans hmem1, hkept1.trans hkept⟩
    rw [hres, shiftIn_eq res word (by omega)]

/-- **A word is received**: sixteen pulses give the word the device puts out. -/
theorem recvBits_spec (noise : ℕ → BitVec 32) (hs : Selected s) {word : BitVec 16}
    (hphase : s.dev.phase = .sending word) {r : BitVec 32 × Board}
    (hr : r = recvBits words noise 16 s) :
    r.1.setWidth 16 = word ∧ Selected r.2 ∧ r.2.dev.instructions = s.dev.instructions ∧
      r.2.mem = s.mem ∧ OthersKept s r.2 := by
  obtain ⟨hres, hrest⟩ := recvBitsLoop_spec noise (le_refl 16) 0#32 hs hphase hr
  refine ⟨?_, hrest⟩
  rw [hres, BitVec.zero_shiftLeft, BitVec.zero_or, Nat.sub_self, BitVec.ushiftRight_zero,
    BitVec.setWidth_setWidth_of_le _ (by decide), BitVec.setWidth_eq]

/-! ## One word -/

/-- A bit shifted into opcode and address. -/
def shiftIn (value : BitVec 10) (di : Bool) : BitVec 10 :=
  value <<< 1 ||| (BitVec.ofBool di).setWidth 10

/-- The rest of the ten bits of opcode and address. -/
theorem rise_receiving {bs : List Bool} (d : Eeprom) {n : ℕ} {value : BitVec 10}
    (hphase : d.phase = .receiving n value) (hn : n < 10) (hlen : n + bs.length = 10) :
    bs.foldl (fun d di => d.rise words di) d = d.decode words (bs.foldl shiftIn value) := by
  induction bs generalizing d n value with
  | nil =>
    rw [List.length_nil] at hlen
    omega
  | cons b bs ih =>
    rw [List.length_cons] at hlen
    rw [List.foldl_cons, List.foldl_cons]
    by_cases h9 : n = 9
    · have hnil : bs = [] := List.eq_nil_of_length_eq_zero (by omega)
      rw [hnil, Eeprom.rise, hphase]
      exact if_pos h9
    · have hrise : d.rise words b = { d with phase := .receiving (n + 1) (shiftIn value b) } := by
        rw [Eeprom.rise, hphase]
        exact if_neg h9
      rw [hrise, ih _ rfl (by omega) (by omega)]
      rfl

theorem bitsOf_command : ∀ address : BitVec 8,
    bitsOf (0x600#32 ||| address.setWidth 32) 11 =
        true :: bitsOf (0x600#32 ||| address.setWidth 32) 10 ∧
      (bitsOf (0x600#32 ||| address.setWidth 32) 10).foldl shiftIn 0#10 = opRead ++ address := by
  decide +kernel

/-- What the device makes of a read instruction. -/
theorem rise_command (d : Eeprom) (hphase : d.phase = .standby) (address : BitVec 8) :
    (bitsOf (0x600#32 ||| address.setWidth 32) 11).foldl (fun d di => d.rise words di) d =
      { phase := .sending (words address), dout := false,
        instructions := d.instructions ++ [(opRead, address)] } := by
  obtain ⟨hbits, hvalue⟩ := bitsOf_command address
  have hstart : d.rise words true = { d with phase := .receiving 0 0#10 } := by
    rw [Eeprom.rise, hphase]
    rfl
  have hop : (opRead ++ address).extractLsb' 8 2 = opRead := BitVec.extractLsb'_append_eq_left
  have haddr : (opRead ++ address).extractLsb' 0 8 = address := BitVec.extractLsb'_append_eq_right
  rw [hbits, List.foldl_cons, hstart, rise_receiving _ rfl (by decide) (by simp [bitsOf]), hvalue]
  simp only [Eeprom.decode, hop, haddr, if_true]

/-- What one pass does. -/
structure WordRead (words : BitVec 8 → BitVec 16) (address : BitVec 8) (ptr : ℕ) (s t : Board) :
    Prop where
  mem : t.mem = Function.update s.mem ptr (words address)
  instructions : t.dev.instructions = s.dev.instructions ++ [(opRead, address)]
  phase : t.dev.phase = .standby
  clk : t.out.getLsbD 11 = false
  pins : OthersKept s t

/-- Selecting a device whose clock is low does not move it. -/
theorem select_spec (hclk : s.out.getLsbD 11 = false) {t : Board} (ht : t = set32 words gpEepCs s) :
    Selected t ∧ t.dev = s.dev ∧ t.mem = s.mem ∧ OthersKept s t := by
  subst ht
  have h10 : (s.out ||| gpEepCs).getLsbD 10 = true := by simp [gpEepCs]
  have h11 : (s.out ||| gpEepCs).getLsbD 11 = false := by
    rw [BitVec.getLsbD_or, hclk]
    rfl
  refine ⟨⟨h10, h11⟩, ?_, rfl, set32_kept (by decide) s⟩
  exact (pins_selected s.dev h10).trans (if_neg fun h => Bool.false_ne_true (h11.symm.trans h.2))

/-- Lowering chip select resets the device. -/
theorem deselect_spec (s : Board) {t : Board} (ht : t = clear32 words gpEepCs s) :
    t.dev = { s.dev with phase := .standby } ∧ t.out.getLsbD 11 = s.out.getLsbD 11 ∧
      t.mem = s.mem ∧ OthersKept s t := by
  subst ht
  have h10 : pin (s.out &&& ~~~gpEepCs) gpEepCs = false := by
    rw [pin_cs]
    simp [gpEepCs]
  have h11 : (s.out &&& ~~~gpEepCs).getLsbD 11 = s.out.getLsbD 11 := by
    rw [BitVec.getLsbD_and, show (~~~gpEepCs).getLsbD 11 = true by decide, Bool.and_true]
  refine ⟨?_, h11, rfl, clear32_kept (by decide) s⟩
  exact if_neg (by rw [h10]; exact Bool.false_ne_true)

/-- A falling edge of the clock starts no instruction. -/
theorem clkLow_spec (s : Board) {t : Board} (ht : t = clear32 words gpEepClk s) :
    t.dev.instructions = s.dev.instructions ∧ t.out.getLsbD 11 = false ∧ t.mem = s.mem ∧
      OthersKept s t := by
  subst ht
  have h11 : (s.out &&& ~~~gpEepClk).getLsbD 11 = false := by
    rw [BitVec.getLsbD_and, show (~~~gpEepClk).getLsbD 11 = false by decide, Bool.and_false]
  refine ⟨?_, h11, rfl, clear32_kept (by decide) s⟩
  change (s.dev.pins words s.out (s.out &&& ~~~gpEepClk)).instructions = _
  rw [Eeprom.pins, pin_clk (s.out &&& ~~~gpEepClk), h11, if_neg (c := _ ∧ _) (by simp)]
  split <;> rfl

variable (words) in
theorem readWord_spec (noise : ℕ → BitVec 32) {offset i : BitVec 32} {address : BitVec 8}
    (haddr : offset + i = address.setWidth 32) (ptr : ℕ) (hclk : s.out.getLsbD 11 = false)
    (hphase : s.dev.phase = .standby) :
    WordRead words address ptr s (readWord words noise offset i ptr s) := by
  obtain ⟨s1, hs1⟩ : ∃ s1, s1 = set32 words gpEepCs s := ⟨_, rfl⟩
  obtain ⟨s2, hs2⟩ : ∃ s2, s2 = sendBits words (0x600#32 ||| (offset + i)) 11 s1 := ⟨_, rfl⟩
  obtain ⟨r, hr⟩ : ∃ r, r = recvBits words noise 16 s2 := ⟨_, rfl⟩
  obtain ⟨s3, hs3⟩ : ∃ s3, s3 = { r.2 with mem := Function.update r.2.mem ptr (r.1.setWidth 16) } :=
    ⟨_, rfl⟩
  obtain ⟨s4, hs4⟩ : ∃ s4, s4 = clear32 words gpEepCs s3 := ⟨_, rfl⟩
  have hread : readWord words noise offset i ptr s = s4 := by rw [hs4, hs3, hr, hs2, hs1, readWord]
  obtain ⟨hsel1, hdev1, hmem1, hkept1⟩ := select_spec hclk hs1
  obtain ⟨hsel2, hdev2, hmem2, hkept2⟩ := sendBits_spec words _ (by decide) hsel1 hs2
  -- The eleven pulses are the start bit and a read instruction.
  rw [haddr, rise_command _ (by rw [hdev1, hphase]), hdev1] at hdev2
  have hphase2 : s2.dev.phase = .sending (words address) := by rw [hdev2]
  have hinstr2 : s2.dev.instructions = s.dev.instructions ++ [(opRead, address)] := by rw [hdev2]
  obtain ⟨hword, hsel3, hinstr3, hmem3, hkept3⟩ := recvBits_spec noise hsel2 hphase2 hr
  have hkept3' : OthersKept s2 s3 := by
    rw [hs3]
    exact ⟨hkept3.out, hkept3.writes⟩
  obtain ⟨hdev4, hclk4, hmem4, hkept4⟩ := deselect_spec s3 hs4
  rw [hread]
  refine ⟨?_, ?_, by rw [hdev4], ?_, ((hkept1.trans hkept2).trans hkept3').trans hkept4⟩
  · rw [hmem4, hs3, hword, hmem3, hmem2, hmem1]
  · rw [hdev4, hs3]
    exact hinstr3.trans hinstr2
  · rw [hclk4, hs3]
    exact hsel3.clk

/-! ## The loop -/

/-- What the passes that are left do, from word `a` on. -/
structure WordsRead (words : BitVec 8 → BitVec 16) (a ptr n : ℕ) (s t : Board) : Prop where
  read : ∀ k < n, t.mem (ptr + k) = words (BitVec.ofNat 8 (a + k))
  frame : ∀ x, ¬(ptr ≤ x ∧ x < ptr + n) → t.mem x = s.mem x
  instructions : t.dev.instructions = s.dev.instructions ++
    (List.range n).map fun k => (opRead, BitVec.ofNat 8 (a + k))
  pins : OthersKept s t

/-- A pass for word `a`, and then those from word `a + 1` on. -/
theorem WordsRead.cons {a ptr n : ℕ} {t u : Board}
    (hword : WordRead words (BitVec.ofNat 8 a) ptr s t)
    (hrest : WordsRead words (a + 1) (ptr + 1) n t u) : WordsRead words a ptr (n + 1) s u := by
  refine ⟨?_, ?_, ?_, hword.pins.trans hrest.pins⟩
  · intro k hk
    cases k with
    | zero =>
      rw [Nat.add_zero, hrest.frame ptr (by omega), hword.mem, Function.update_self, Nat.add_zero]
    | succ k =>
      have h := hrest.read k (by omega)
      rwa [Nat.add_right_comm, Nat.add_right_comm a, Nat.add_assoc ptr, Nat.add_assoc a] at h
  · intro x hx
    rw [hrest.frame x (by omega), hword.mem, Function.update_of_ne (by omega)]
  · have hshift : (fun k => (opRead, BitVec.ofNat 8 (a + 1 + k))) =
        (fun k => (opRead, BitVec.ofNat 8 (a + k))) ∘ Nat.succ := by
      funext k
      rw [Function.comp_apply, Nat.succ_eq_add_one, Nat.add_assoc, Nat.add_comm 1 k]
    rw [hrest.instructions, hword.instructions, List.append_assoc, List.range_succ_eq_map,
      List.map_cons, List.map_map, hshift]
    rfl

/-- **The loop**, as long as the addresses fit into eight bits. -/
theorem readLoop_spec (noise : ℕ → BitVec 32) {offset i : BitVec 32} {a ptr n : ℕ}
    (haddr : offset + i = BitVec.ofNat 32 a) (ha : ∀ k < n, a + k < 256)
    (hclk : s.out.getLsbD 11 = false) (hphase : s.dev.phase = .standby) :
    WordsRead words a ptr n s (readLoop words noise offset n i ptr s) := by
  induction n generalizing i a ptr s with
  | zero => exact ⟨by simp, fun _ _ => rfl, by simp [readLoop], .refl s⟩
  | succ n ih =>
    have haddr8 : offset + i = (BitVec.ofNat 8 a).setWidth 32 := by
      rw [haddr]
      apply BitVec.eq_of_toNat_eq
      have hlt := ha 0 (by omega)
      rw [BitVec.toNat_setWidth, BitVec.toNat_ofNat, BitVec.toNat_ofNat]
      omega
    have hword := readWord_spec words noise haddr8 ptr hclk hphase
    have hnext : offset + (i + 1#32) = BitVec.ofNat 32 (a + 1) := by
      rw [← BitVec.add_assoc, haddr, BitVec.ofNat_add]
    have hlt : ∀ k < n, a + 1 + k < 256 := by
      intro k hk
      have h := ha (k + 1) (by omega)
      omega
    exact WordsRead.cons hword (ih hnext hlt hword.clk hword.phase)

theorem even_iff (size : BitVec 32) : size &&& 1#32 = 0#32 ↔ size.toInt % 2 = 0 := by
  have hbit : size &&& 1#32 = 0#32 ↔ size.toNat % 2 = 0 := by
    rw [← BitVec.toNat_inj, BitVec.toNat_and, show (1#32).toNat = 1 from rfl, Nat.and_one_is_mod]
    rfl
  rw [hbit, BitVec.toInt_eq_toNat_cond]
  split <;> omega

end Pulse

theorem seepromRead_even (words : BitVec 8 → BitVec 16) (noise : ℕ → BitVec 32) (dst : ℕ)
    {offset size : BitVec 32} (heven : size.toInt % 2 = 0) (hoffset : 0 ≤ offset.toInt)
    (hfits : offset.toInt + size.toInt ≤ 256) (s : Board) :
    ReadsWords words dst offset size s (seepromRead words noise dst offset size s) := by
  have hnot : ¬size &&& 1#32 ≠ 0#32 := not_not.mpr ((even_iff size).mpr heven)
  obtain ⟨s1, hs1⟩ : ∃ s1, s1 = clear32 words gpEepClk s := ⟨_, rfl⟩
  obtain ⟨s2, hs2⟩ : ∃ s2, s2 = clear32 words gpEepCs s1 := ⟨_, rfl⟩
  have hcall : seepromRead words noise dst offset size s =
      (size.toInt, readLoop words noise offset size.toInt.toNat 0#32 dst s2) := by
    rw [seepromRead, if_neg hnot, hs2, hs1]
  obtain ⟨hinstr1, hclk1, hmem1, hkept1⟩ := clkLow_spec s hs1
  obtain ⟨hdev2, hclk2, hmem2, hkept2⟩ := deselect_spec s1 hs2
  have hoff : offset.toInt = offset.toNat := by
    rw [BitVec.toInt_eq_toNat_cond] at hoffset ⊢
    split at hoffset <;> omega
  have hlt : ∀ k < size.toInt.toNat, offset.toNat + k < 256 := by omega
  have hloop : WordsRead words offset.toNat dst size.toInt.toNat s2
      (readLoop words noise offset size.toInt.toNat 0#32 dst s2) :=
    readLoop_spec noise (by simp) hlt (hclk2.trans hclk1) (by rw [hdev2])
  rw [hcall]
  refine ⟨rfl, hloop.read, ?_, ?_, (hkept1.trans hkept2).trans hloop.pins⟩
  · intro x hx
    exact (hloop.frame x hx).trans (by rw [hmem2, hmem1])
  · exact hloop.instructions.trans (by rw [hdev2, hinstr1])

/-- `seeprom_read` reads `size` words, the word `offset + i` into `dst[i]`, with read instructions
only and no other pin; an odd size is refused. -/
theorem seepromRead_readsWords (words : BitVec 8 → BitVec 16) (noise : ℕ → BitVec 32) (dst : ℕ)
    (offset size : BitVec 32) (s : Board) :
    (size.toInt % 2 = 0 → 0 ≤ offset.toInt → offset.toInt + size.toInt ≤ 256 →
      ReadsWords words dst offset size s (seepromRead words noise dst offset size s)) ∧
    (size.toInt % 2 ≠ 0 → seepromRead words noise dst offset size s = (-1, s)) := by
  constructor
  · intro heven hoffset hfits
    exact seepromRead_even words noise dst heven hoffset hfits s
  · intro hodd
    rw [seepromRead, if_pos ((even_iff size).not.mpr hodd)]

/-- Two words, from word 3 on, of a device that was left in the middle of an instruction. -/
theorem seepromRead_readsWords_two :
    ReadsWords (fun a => 0xA500#16 + a.setWidth 16) 16 3#32 2#32
      ⟨0xFFFFFFFF#32, [], ⟨.receiving 4 0b1011#10, true, []⟩, fun _ => 0#16⟩
      (seepromRead (fun a => 0xA500#16 + a.setWidth 16) (fun _ => 0xFFFF0000#32) 16 3#32 2#32
        ⟨0xFFFFFFFF#32, [], ⟨.receiving 4 0b1011#10, true, []⟩, fun _ => 0#16⟩) :=
  (seepromRead_readsWords _ _ 16 3#32 2#32 _).1 (by decide) (by decide) (by decide)

/-- `sizeof(seeprom)`. -/
def sizeofSeeprom : ℕ := 256

/-- `crypto_read_seeprom`, for the address of `seeprom`. -/
def cryptoReadSeeprom (words : BitVec 8 → BitVec 16) (noise : ℕ → BitVec 32) (seeprom : ℕ)
    (s : Board) : Board :=
  (seepromRead words noise seeprom 0#32 (BitVec.ofNat 32 (sizeofSeeprom / 2)) s).2

/-- The first half of the device, and nothing else, is read into `seeprom`. -/
theorem cryptoReadSeeprom_mem (words : BitVec 8 → BitVec 16) (noise : ℕ → BitVec 32)
    (seeprom : ℕ) (s : Board) (x : ℕ) :
    (cryptoReadSeeprom words noise seeprom s).mem x =
      if seeprom ≤ x ∧ x < seeprom + 128 then words (BitVec.ofNat 8 (x - seeprom))
      else s.mem x := by
  have h : ReadsWords words seeprom 0#32 128#32 s (seepromRead words noise seeprom 0#32 128#32 s) :=
    seepromRead_even words noise seeprom (by decide) (by decide) (by decide) s
  split
  · next hx =>
    have hread := h.read (x - seeprom) (show x - seeprom < 128 by omega)
    rwa [Nat.add_sub_cancel' hx.1, show (0#32).toNat = 0 from rfl, Nat.zero_add] at hread
  · next hx => exact h.frame x hx

end VwiiNandTools.Seeprom
