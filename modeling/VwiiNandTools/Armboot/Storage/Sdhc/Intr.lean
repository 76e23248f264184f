import Mathlib

/-!
# The SD interrupt handler

`sdhc_intr` of `storage/sdhc.c` on the registers it touches.  All accesses are of 32 bits, so a
16-bit register is read and written with its neighbour; the word at 0x30 holds the normal interrupt
status in its low half and the error interrupt status in its high half, and clears the bits that are
written as ones.

The handler runs as a whole: what the controller raises meanwhile counts as raised after it.  A run
keeps its acknowledgements and the value it read into `error`, and `postedBits` is what it adds to
`intr_status`.
-/

namespace VwiiNandTools.Sdhc

/-! ## Bits -/

def sdhcErrorInterrupt : BitVec 16 := 0x8000#16
def sdhcErrorTimeout : BitVec 16 := 0x4000#16
def sdhcCardInterrupt : BitVec 16 := 0x0100#16
def sdhcBufferReadReady : BitVec 16 := 0x0020#16
def sdhcBufferWriteReady : BitVec 16 := 0x0010#16
def sdhcDmaInterrupt : BitVec 16 := 0x0008#16
def sdhcBlockGapEvent : BitVec 16 := 0x0004#16
def sdhcTransferComplete : BitVec 16 := 0x0002#16
def sdhcCommandComplete : BitVec 16 := 0x0001#16
def sdhcNintrStatusMask : BitVec 16 := 0x81ff#16

def sdhcDataTimeoutError : BitVec 16 := 0x0010#16
def sdhcCmdTimeoutError : BitVec 16 := 0x0001#16

/-- `ISSET(t, f)`. -/
def isset (t f : BitVec 16) : Bool := t &&& f ≠ 0#16

theorem isset_or (x y f : BitVec 16) : isset (x ||| y) f = (isset x f || isset y f) := by
  simp only [isset, BitVec.and_or_distrib_right, ne_eq, BitVec.or_eq_zero_iff, decide_not,
    Bool.decide_and, Bool.not_and]

@[simp] theorem isset_zero (f : BitVec 16) : isset 0#16 f = false := by simp [isset]

theorem isset_mono {x f g : BitVec 16} (h : isset x f = true) (hfg : f &&& g = f) :
    isset x g = true := by
  simp only [isset, ne_eq, decide_not, Bool.not_eq_true', decide_eq_false_iff_not] at h ⊢
  intro hg
  apply h
  rw [← hfg, BitVec.and_comm f g, ← BitVec.and_assoc, hg, BitVec.zero_and]

/-- The two completions. -/
inductive Done
  | command
  | transfer
  deriving DecidableEq, Repr

def Done.bit : Done → BitVec 16
  | .command => sdhcCommandComplete
  | .transfer => sdhcTransferComplete

theorem isset_twoPow (x : BitVec 16) {i : ℕ} (hi : i < 16) :
    isset x (BitVec.twoPow 16 i) = x.getLsbD i := by
  have hne : BitVec.twoPow 16 i ≠ 0#16 := by
    intro h
    have hbit := congrArg (fun y => BitVec.getLsbD y i) h
    simp [hi] at hbit
  simp only [isset, BitVec.and_twoPow]
  cases x.getLsbD i <;> simp [hne]

theorem isset_done (x : BitVec 16) (d : Done) :
    isset x d.bit = match d with
      | .command => x.getLsbD 0
      | .transfer => x.getLsbD 1 := by
  cases d
  · rw [show Done.command.bit = BitVec.twoPow 16 0 from rfl, isset_twoPow x (by decide)]
  · rw [show Done.transfer.bit = BitVec.twoPow 16 1 from rfl, isset_twoPow x (by decide)]

/-- A completion is left over by `&`, `&= ~` as its bit is. -/
theorem isset_done_and (x y : BitVec 16) (d : Done) :
    isset (x &&& y) d.bit = (isset x d.bit && isset y d.bit) := by
  cases d <;> simp [isset_done]

theorem isset_done_clear (x y : BitVec 16) (d : Done) :
    isset (x &&& ~~~y) d.bit = (isset x d.bit && !isset y d.bit) := by
  cases d <;> simp [isset_done]

theorem isset_bit (d d' : Done) : isset d.bit d'.bit = decide (d = d') := by
  cases d <;> cases d' <;> decide

/-! ## Registers -/

/-- `mask32` on the word `data`. -/
def mask32 (data clear set : BitVec 32) : BitVec 32 := (data &&& ~~~clear) ||| set

/-- `bus_space_read_2` on the word it reads; `high` says that `reg & 3` is not zero. -/
def read2 (high : Bool) (word : BitVec 32) : BitVec 16 :=
  if high then ((word &&& 0xffff0000#32) >>> 16).setWidth 16 else (word &&& 0xffff#32).setWidth 16

/-- The word `bus_space_write_2` writes, for the word it reads. -/
def write2 (high : Bool) (word : BitVec 32) (v : BitVec 16) : BitVec 32 :=
  if high then mask32 word 0xffff0000#32 (v.setWidth 32 <<< 16)
  else mask32 word 0xffff#32 (v.setWidth 32)

/-- Write a word to a register that clears the bits written as ones. -/
def writeOnesClear (word v : BitVec 32) : BitVec 32 := word &&& ~~~v

theorem mask_getLsbD : ∀ i < 16, (0xffff#32).getLsbD i = true ∧ (0xffff#32).getLsbD (i + 16) = false ∧
    (0xffff0000#32).getLsbD i = false ∧ (0xffff0000#32).getLsbD (i + 16) = true := by
  decide

theorem read2_write2 (high high' : Bool) (word : BitVec 32) (v : BitVec 16) :
    read2 high (write2 high' word v) = if high = high' then v else read2 high word := by
  apply BitVec.eq_of_getLsbD_eq
  intro i hi
  obtain ⟨h1, h2, h3, h4⟩ := mask_getLsbD i hi
  have hlt : i + 16 < 32 := by omega
  have hlt' : i < 32 := by omega
  cases high <;> cases high' <;>
    simp only [read2, write2, mask32, if_true, if_false, Bool.false_eq_true, reduceCtorEq,
      BitVec.getLsbD_setWidth, BitVec.getLsbD_ushiftRight, BitVec.getLsbD_and, BitVec.getLsbD_or,
      BitVec.getLsbD_not, BitVec.getLsbD_shiftLeft, Nat.add_comm 16 i, h1, h2, h3, h4, hi, hlt,
      hlt'] <;>
    simp [hi, hlt']

/-- The registers of the controller, and the state behind them: the commands on the two lines, by
the number of the call that wrote them, and the call the response is for. -/
structure Controller where
  dmaAddr : BitVec 32
  blockWord : BitVec 32
  argument : BitVec 32
  transferMode : BitVec 32
  response : BitVec 128
  intrWord : BitVec 32
  statusEnWord : BitVec 32
  signalEnWord : BitVec 32
  cmdLine : Option ℕ
  datLine : Option ℕ
  responseOf : ℕ

/-- The fields of `struct sdhc_host` that commands and interrupts use. -/
structure Host where
  useDma : Bool
  intrStatus : BitVec 16
  intrErrorStatus : BitVec 16
  dataCommand : ℤ

/-- `SDHC_NINTR_STATUS` and `SDHC_EINTR_STATUS`. -/
def Controller.nintrStatus (c : Controller) : BitVec 16 := read2 false c.intrWord
def Controller.eintrStatus (c : Controller) : BitVec 16 := read2 true c.intrWord

/-- The bits of the normal interrupt status a reset of the two lines clears. -/
def lineBits : BitVec 16 :=
  sdhcBufferReadReady ||| sdhcBufferWriteReady ||| sdhcDmaInterrupt ||| sdhcBlockGapEvent |||
    sdhcTransferComplete ||| sdhcCommandComplete

/-- What `sdhc_soft_reset(hp, SDHC_RESET_DAT | SDHC_RESET_CMD)` does to the controller. -/
def softReset (c : Controller) : Controller :=
  { c with cmdLine := none, datLine := none,
           intrWord := c.intrWord &&& ~~~(lineBits.setWidth 32) }

/-! ## `sdhc_intr` -/

/-- `HWRITE2(&sc_host, SDHC_NINTR_STATUS, v)` and the same for `SDHC_EINTR_STATUS`. -/
def writeIntr (high : Bool) (v : BitVec 16) (c : Controller) : Controller :=
  { c with intrWord := writeOnesClear c.intrWord (write2 high c.intrWord v) }

def writeSignalEn (v : BitVec 16) (c : Controller) : Controller :=
  { c with signalEnWord := write2 true c.signalEnWord v }

/-- The errors that wake the waiting command. -/
def timeoutErrors : BitVec 16 := sdhcCmdTimeoutError ||| sdhcDataTimeoutError

/-- The events that wake it. -/
def wakeBits : BitVec 16 :=
  sdhcBufferReadReady ||| sdhcBufferWriteReady ||| sdhcCommandComplete ||| sdhcTransferComplete |||
    sdhcDmaInterrupt

/-- `sc_host.intr_status |= status`. -/
def Host.post (status : BitVec 16) (h : Host) : Host := { h with intrStatus := h.intrStatus ||| status }

/-- A write of ones to the word at 0x30: the half it is meant for, and the word before and after. -/
structure Ack where
  high : Bool
  before : BitVec 32
  after : BitVec 32

/-- A run of the handler: the controller and the host as they are, the acknowledgements so far, and
the value read into `error` when it was read. -/
structure IntrRun where
  ctl : Controller
  host : Host
  acks : List Ack
  error : Option (BitVec 16)

/-- `writeIntr`, kept in the run. -/
def ackIntr (high : Bool) (v : BitVec 16) (r : IntrRun) : IntrRun :=
  let ctl := writeIntr high v r.ctl
  { r with ctl, acks := r.acks ++ [⟨high, r.ctl.intrWord, ctl.intrWord⟩] }

/-- The error branch. -/
def serviceErrors (status : BitVec 16) (r : IntrRun) : IntrRun :=
  let error := r.ctl.eintrStatus
  let signal := read2 true r.ctl.signalEnWord
  let r := { r with ctl := softReset (writeSignalEn 0#16 r.ctl), error := some error }
  let host := if r.host.dataCommand = 1 then { r.host with dataCommand := 0 } else r.host
  let r := ackIntr true error { r with host }
  let r := { r with ctl := writeSignalEn signal r.ctl }
  if isset error timeoutErrors then
    { r with host :=
        Host.post status { r.host with intrErrorStatus := r.host.intrErrorStatus ||| error } }
  else r

/-- The branch for interrupts of the card. -/
def serviceCard (c : Controller) : Controller :=
  { c with statusEnWord :=
      write2 false c.statusEnWord (read2 false c.statusEnWord &&& ~~~sdhcCardInterrupt) }

def sdhcIntr (c : Controller) (h : Host) : IntrRun :=
  let status := c.nintrStatus
  let r : IntrRun := ⟨c, h, [], none⟩
  if isset status sdhcNintrStatusMask then
    let r := ackIntr false status r
    let r := if isset status sdhcErrorInterrupt then serviceErrors status r else r
    let r := { r with host := if isset status wakeBits then r.host.post status else r.host }
    { r with ctl := if isset status sdhcCardInterrupt then serviceCard r.ctl else r.ctl }
  else r

/-! ## What it does -/

/-- The bits `sdhc_intr` adds to `intr_status`. -/
def postedBits (c : Controller) : BitVec 16 :=
  let status := c.nintrStatus
  if isset status wakeBits ∨
      isset status sdhcErrorInterrupt ∧ isset (writeIntr false status c).eintrStatus timeoutErrors then
    status
  else 0#16

theorem isset_nintrStatusMask_of_wake {x : BitVec 16} (h : isset x wakeBits = true) :
    isset x sdhcNintrStatusMask = true :=
  isset_mono h (by decide)

theorem isset_nintrStatusMask_of_error {x : BitVec 16} (h : isset x sdhcErrorInterrupt = true) :
    isset x sdhcNintrStatusMask = true :=
  isset_mono h (by decide)

theorem serviceErrors_intrStatus (status : BitVec 16) (r : IntrRun) :
    (serviceErrors status r).host.intrStatus =
      r.host.intrStatus ||| if isset r.ctl.eintrStatus timeoutErrors then status else 0#16 := by
  simp only [serviceErrors, ackIntr]
  split <;> split <;> simp [Host.post]

theorem sdhcIntr_intrStatus (c : Controller) (h : Host) :
    (sdhcIntr c h).host.intrStatus = h.intrStatus ||| postedBits c := by
  simp only [sdhcIntr, postedBits]
  by_cases hw : isset c.nintrStatus wakeBits = true
  · rw [if_pos (isset_nintrStatusMask_of_wake hw)]
    simp only [hw, if_true, true_or, Host.post]
    by_cases he : isset c.nintrStatus sdhcErrorInterrupt = true
    · simp only [he, if_true, serviceErrors_intrStatus, ackIntr, BitVec.or_assoc]
      split <;> simp
    · simp only [he, if_false, Bool.false_eq_true, ackIntr]
  · simp only [hw, false_or, if_false, Bool.false_eq_true]
    by_cases he : isset c.nintrStatus sdhcErrorInterrupt = true
    · rw [if_pos (isset_nintrStatusMask_of_error he)]
      simp only [he, if_true, serviceErrors_intrStatus, ackIntr, true_and]
    · simp only [he, if_false, Bool.false_eq_true, false_and, ackIntr]
      split <;> simp

theorem isset_postedBits (c : Controller) (d : Done) :
    isset (postedBits c) d.bit = isset c.nintrStatus d.bit := by
  simp only [postedBits]
  by_cases hd : isset c.nintrStatus d.bit = true
  · have hw : isset c.nintrStatus wakeBits = true := isset_mono hd (by cases d <;> decide)
    rw [if_pos (Or.inl hw)]
  · split
    · rfl
    · rw [isset_zero]
      exact (Bool.eq_false_iff.mpr hd).symm

theorem read2_low (word : BitVec 32) : read2 false word = word.setWidth 16 := by
  apply BitVec.eq_of_toNat_eq
  have h := Nat.and_two_pow_sub_one_eq_mod word.toNat 16
  simp only [read2, Bool.false_eq_true, if_false, BitVec.toNat_setWidth, BitVec.toNat_and]
  exact (congrArg (· % 2 ^ 16) h).trans (Nat.mod_mod _ _)

/-- Raising normal interrupts sets their bits, raising errors sets none. -/
theorem read2_or_low (word : BitVec 32) (x : BitVec 16) :
    read2 false (word ||| x.setWidth 32) = read2 false word ||| x := by
  rw [read2_low, read2_low, BitVec.setWidth_or, BitVec.setWidth_setWidth_of_le x (by decide),
    BitVec.setWidth_eq]

theorem read2_or_high (word : BitVec 32) (x : BitVec 16) :
    read2 false (word ||| x.setWidth 32 <<< 16) = read2 false word := by
  rw [read2_low, read2_low]
  apply BitVec.eq_of_getLsbD_eq
  intro i hi
  simp [hi]

theorem serviceErrors_useDma (status : BitVec 16) (r : IntrRun) :
    (serviceErrors status r).host.useDma = r.host.useDma := by
  simp only [serviceErrors, ackIntr]
  split <;> split <;> rfl

theorem sdhcIntr_useDma (c : Controller) (h : Host) : (sdhcIntr c h).host.useDma = h.useDma := by
  simp only [sdhcIntr]
  split
  · have hs : (if isset c.nintrStatus sdhcErrorInterrupt then
        serviceErrors c.nintrStatus (ackIntr false c.nintrStatus ⟨c, h, [], none⟩)
        else ackIntr false c.nintrStatus ⟨c, h, [], none⟩).host.useDma = h.useDma := by
      split
      · exact serviceErrors_useDma _ _
      · rfl
    by_cases hw : isset c.nintrStatus wakeBits = true
    · rw [if_pos hw]; exact hs
    · rw [if_neg hw]; exact hs
  · rfl

/-! ### The controller afterwards -/

theorem nintrStatus_and (c : Controller) (v : BitVec 32) (d : Done)
    (h : isset c.nintrStatus d.bit = false) :
    isset (read2 false (c.intrWord &&& v)) d.bit = false := by
  cases d <;> simp_all [isset_done, Controller.nintrStatus, read2]

theorem writeIntr_done (c : Controller) (high : Bool) (v : BitVec 16) (d : Done)
    (h : isset c.nintrStatus d.bit = false) : isset (writeIntr high v c).nintrStatus d.bit = false :=
  nintrStatus_and c _ d h

theorem softReset_done (c : Controller) (d : Done) : isset (softReset c).nintrStatus d.bit = false := by
  cases d <;> simp [isset_done, softReset, Controller.nintrStatus, read2, lineBits,
    sdhcBufferReadReady, sdhcBufferWriteReady, sdhcDmaInterrupt, sdhcBlockGapEvent,
    sdhcTransferComplete, sdhcCommandComplete]

/-- Writing back what was read clears all of the low half. -/
theorem writeIntr_nintrStatus (c : Controller) :
    (writeIntr false c.nintrStatus c).nintrStatus = 0#16 := by
  rw [Controller.nintrStatus, read2_low]
  apply BitVec.eq_of_getLsbD_eq
  intro i hi
  simp [writeIntr, writeOnesClear, write2, mask32, Controller.nintrStatus, read2_low, hi]

/-- Acknowledging the low half clears all of the high half: its pending bits are written back as the
ones they are. -/
theorem writeIntr_eintrStatus (c : Controller) (v : BitVec 16) :
    (writeIntr false v c).eintrStatus = 0#16 := by
  apply BitVec.eq_of_getLsbD_eq
  intro i hi
  simp [writeIntr, writeOnesClear, write2, mask32, Controller.eintrStatus, read2]
  grind

/-- No line is taken, and the response stays. -/
structure Calmer (c c' : Controller) : Prop where
  cmdLine : c'.cmdLine = c.cmdLine ∨ c'.cmdLine = none
  datLine : c'.datLine = c.datLine ∨ c'.datLine = none
  response : c'.response = c.response
  responseOf : c'.responseOf = c.responseOf

theorem Calmer.refl (c : Controller) : Calmer c c := ⟨Or.inl rfl, Or.inl rfl, rfl, rfl⟩

theorem serviceErrors_calmer (status : BitVec 16) (r : IntrRun) :
    Calmer r.ctl (serviceErrors status r).ctl := by
  simp only [serviceErrors, ackIntr]
  split <;> exact ⟨Or.inr rfl, Or.inr rfl, rfl, rfl⟩

theorem serviceErrors_done (status : BitVec 16) (r : IntrRun) (d : Done) :
    isset (serviceErrors status r).ctl.nintrStatus d.bit = false := by
  simp only [serviceErrors, ackIntr]
  split <;> exact writeIntr_done _ _ _ d (softReset_done _ d)

theorem sdhcIntr_calmer (c : Controller) (h : Host) : Calmer c (sdhcIntr c h).ctl := by
  simp only [sdhcIntr]
  split
  · have hc : ∀ c' : Controller, Calmer c c' →
        Calmer c (if isset c.nintrStatus sdhcCardInterrupt then serviceCard c' else c') := by
      intro c' h'
      split
      · exact ⟨h'.cmdLine, h'.datLine, h'.response, h'.responseOf⟩
      · exact h'
    apply hc
    split
    · obtain ⟨h1, h2, h3, h4⟩ :=
        serviceErrors_calmer c.nintrStatus (ackIntr false c.nintrStatus ⟨c, h, [], none⟩)
      exact ⟨h1, h2, h3, h4⟩
    · exact ⟨Or.inl rfl, Or.inl rfl, rfl, rfl⟩
  · exact Calmer.refl c

theorem sdhcIntr_done (c : Controller) (h : Host) (d : Done) :
    isset (sdhcIntr c h).ctl.nintrStatus d.bit = false := by
  simp only [sdhcIntr]
  split
  · have hc : ∀ c' : Controller, isset c'.nintrStatus d.bit = false →
        isset (if isset c.nintrStatus sdhcCardInterrupt then serviceCard c'
          else c').nintrStatus d.bit = false := by
      intro c' h'
      split <;> exact h'
    apply hc
    split
    · exact serviceErrors_done _ _ d
    · exact (congrArg (isset · d.bit) (writeIntr_nintrStatus c)).trans (isset_zero _)
  · next hm =>
    by_contra hd
    exact hm (isset_mono (Bool.not_eq_false _ ▸ hd) (by cases d <;> decide))

/-! ### Errors -/

theorem serviceErrors_error (status : BitVec 16) (r : IntrRun) :
    (serviceErrors status r).error = some r.ctl.eintrStatus := by
  simp only [serviceErrors, ackIntr]
  split <;> rfl

theorem serviceErrors_intrErrorStatus (status : BitVec 16) (r : IntrRun) :
    (serviceErrors status r).host.intrErrorStatus = r.host.intrErrorStatus |||
      if isset r.ctl.eintrStatus timeoutErrors then r.ctl.eintrStatus else 0#16 := by
  simp only [serviceErrors, ackIntr]
  split <;> split <;> simp [Host.post]

theorem serviceErrors_acks (status : BitVec 16) (r : IntrRun) :
    (serviceErrors status r).acks = r.acks ++
      [⟨true, (softReset (writeSignalEn 0#16 r.ctl)).intrWord,
        (writeIntr true r.ctl.eintrStatus (softReset (writeSignalEn 0#16 r.ctl))).intrWord⟩] := by
  simp only [serviceErrors, ackIntr]
  split <;> rfl

/-- With the error interrupt pending, the handler goes through both acknowledgements, the one of the
normal half first, and takes the errors from what that one left. -/
theorem sdhcIntr_error_branch {c : Controller} (h : Host)
    (he : isset c.nintrStatus sdhcErrorInterrupt = true) :
    (sdhcIntr c h).acks =
        [⟨false, c.intrWord, (writeIntr false c.nintrStatus c).intrWord⟩,
          ⟨true, (softReset (writeIntr false c.nintrStatus c)).intrWord,
            (writeIntr true 0#16 (softReset (writeIntr false c.nintrStatus c))).intrWord⟩] ∧
      (sdhcIntr c h).error = some 0#16 ∧
      (sdhcIntr c h).host.intrErrorStatus = h.intrErrorStatus := by
  have hread : (ackIntr false c.nintrStatus ⟨c, h, [], none⟩).ctl.eintrStatus = 0#16 :=
    writeIntr_eintrStatus c c.nintrStatus
  simp only [sdhcIntr, isset_nintrStatusMask_of_error he, he, if_true]
  refine ⟨?_, ?_, ?_⟩
  · rw [serviceErrors_acks, hread]
    rfl
  · rw [serviceErrors_error, hread]
  · have hs : (serviceErrors c.nintrStatus
        (ackIntr false c.nintrStatus ⟨c, h, [], none⟩)).host.intrErrorStatus =
          h.intrErrorStatus := by
      rw [serviceErrors_intrErrorStatus, hread, isset_zero]
      simp [ackIntr]
    split
    · exact hs
    · exact hs

/-- No error is lost in a run of the handler: each acknowledgement leaves the pending bits of the
other half, `error` is what was pending at entry, and a timeout error reaches `intr_error_status`
and wakes the waiter with an error. -/
structure ErrorsKept (c : Controller) (h : Host) : Prop where
  acks : ∀ a ∈ (sdhcIntr c h).acks, read2 (!a.high) a.after = read2 (!a.high) a.before
  error : (sdhcIntr c h).error = some c.eintrStatus
  timeout : isset c.eintrStatus timeoutErrors = true →
    (sdhcIntr c h).host.intrErrorStatus &&& c.eintrStatus = c.eintrStatus ∧
      isset (sdhcIntr c h).host.intrStatus sdhcErrorInterrupt = true

/-- Without a bit in the low half, clearing bits and writing 16-bit halves leaves it so. -/
theorem writeIntr_low_zero {c : Controller} (h : c.nintrStatus = 0#16) (v : BitVec 16) :
    (writeIntr true v c).nintrStatus = 0#16 := by
  rw [Controller.nintrStatus, read2_low] at h ⊢
  rw [writeIntr, writeOnesClear, BitVec.setWidth_and, h, BitVec.zero_and]

theorem softReset_low_zero {c : Controller} (h : c.nintrStatus = 0#16) :
    (softReset c).nintrStatus = 0#16 := by
  rw [Controller.nintrStatus, read2_low] at h ⊢
  rw [softReset, BitVec.setWidth_and, h, BitVec.zero_and]

/-- **The error status is lost**: with the error interrupt pending, the handler acknowledges the
normal half, which clears all of the error half, then reads 0 into `error` and records nothing.  So it
keeps the error information exactly when there is none. -/
theorem sdhcIntr_errors (c : Controller) (h : Host)
    (he : isset c.nintrStatus sdhcErrorInterrupt = true) :
    (ErrorsKept c h ↔ c.eintrStatus = 0#16) ∧ (sdhcIntr c h).error = some 0#16 ∧
      (sdhcIntr c h).host.intrErrorStatus = h.intrErrorStatus ∧
      (sdhcIntr c h).acks.map Ack.high = [false, true] ∧
      ∃ a ∈ (sdhcIntr c h).acks, a.before = c.intrWord ∧ read2 true a.after = 0#16 := by
  obtain ⟨hacks, herror, hstatus⟩ := sdhcIntr_error_branch h he
  refine ⟨⟨fun hk => ?_, fun h0 => ⟨?_, ?_, ?_⟩⟩, herror, hstatus, ?_, ?_⟩
  · have hk' := hk.error
    rw [herror, Option.some.injEq] at hk'
    exact hk'.symm
  · -- the first one leaves an empty half empty, and so the second one has nothing to clear
    have hnormal := writeIntr_nintrStatus c
    have hreset := softReset_low_zero hnormal
    rw [hacks]
    intro a ha
    rcases List.mem_cons.mp ha with rfl | ha
    · exact (writeIntr_eintrStatus c c.nintrStatus).trans h0.symm
    · rw [List.mem_singleton.mp ha]
      exact (writeIntr_low_zero hreset 0#16).trans hreset.symm
  · rw [herror, h0]
  · intro ht
    rw [h0, isset_zero] at ht
    cases ht
  · rw [hacks]
    rfl
  · rw [hacks]
    exact ⟨_, List.mem_cons_self, rfl, writeIntr_eintrStatus c c.nintrStatus⟩

/-- The error interrupt is pending, with the errors `eintr`. -/
def failing (eintr : BitVec 16) : Controller :=
  { dmaAddr := 0#32, blockWord := 0#32, argument := 0#32, transferMode := 0#32, response := 0#128,
    intrWord := eintr.setWidth 32 <<< 16 ||| 0x8000#32, statusEnWord := 0x3ff00fb#32,
    signalEnWord := 0x3ff00fb#32, cmdLine := some 1, datLine := none, responseOf := 0 }

def noStatus : Host :=
  { useDma := true, intrStatus := 0#16, intrErrorStatus := 0#16, dataCommand := 0 }

theorem sdhcIntr_errors_none : ErrorsKept (failing 0#16) noStatus ∧
    ¬ErrorsKept (failing sdhcCmdTimeoutError) noStatus := by
  obtain ⟨hnone, -⟩ := sdhcIntr_errors (failing 0#16) noStatus (by decide)
  obtain ⟨htimeout, -⟩ := sdhcIntr_errors (failing sdhcCmdTimeoutError) noStatus (by decide)
  exact ⟨hnone.mpr (by decide), fun h => absurd (htimeout.mp h) (by decide)⟩

/-- The command timeout is pending, and `sdhc_intr` neither records it nor wakes the waiter. -/
theorem sdhcIntr_loses_timeout :
    (sdhcIntr (failing sdhcCmdTimeoutError) noStatus).host = noStatus ∧
      (sdhcIntr (failing sdhcCmdTimeoutError) noStatus).ctl.eintrStatus = 0#16 ∧
      ¬∀ (c : Controller) (h : Host), isset c.nintrStatus sdhcErrorInterrupt = true →
        ErrorsKept c h := by
  refine ⟨rfl, by decide, fun h => ?_⟩
  have hkept := (h (failing sdhcCmdTimeoutError) noStatus (by decide)).error
  exact absurd hkept (by decide)

end VwiiNandTools.Sdhc
