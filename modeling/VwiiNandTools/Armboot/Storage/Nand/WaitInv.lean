import VwiiNandTools.Armboot.Storage.Nand.Wait

/-!
# A page read is neither early nor lost

While a page is awaited its READ_POST is in one of four stages: outstanding at the controller,
latched in the flag register, in the hands of the handler, or reported by `irq_flag`
(`Awaited`).  Outside of `nand_wait` nothing that could set `irq_flag` is on its way (`Silent`).
The CPU sleeps only between `irq_kill` and `irq_restore`, where the handler cannot run, and went to
sleep having seen `irq_flag` clear there (`AtPc`).  `Inv` is kept by the main thread, the handler
and the controller, and gives `nandWait_correct` in every reachable state.
-/

namespace VwiiNandTools.Nand

open Irq Transition

/-- The READ_POST of the running call, as the controller lists it. -/
def WaitState.own (s : WaitState) : PageRead := ⟨s.req, s.nandBank, s.nandAddr1⟩

/-- From the write of READ_POST to the return of `nand_wait`. -/
def Pc.waiting : Pc → Bool
  | .idle | .returned | .init _ | .read (_ :: _) => false
  | _ => true

/-- No NAND interrupt is latched, seen by the handler, or to be raised. -/
structure Silent (s : WaitState) : Prop where
  flag : nandBit s.armIrqFlag = false
  due : s.handler.nandDue = false
  ctrl : quiet s.nandCtrl = true

/-- The four stages of an awaited page. -/
inductive Awaited (s : WaitState) : Prop
  | outstanding : s.nandCtrl = readPostCommand → s.owner = s.req → s.reads = s.before →
      nandBit s.armIrqFlag = false → s.handler.nandDue = false → s.irqFlag = false → Awaited s
  | latched : busy s.nandCtrl = false → s.reads = s.before ++ [s.own] →
      nandBit s.armIrqFlag = true → (∀ flags, s.handler ≠ .nandIrq flags) → s.irqFlag = false →
      Awaited s
  | handled (flags : BitVec 32) : busy s.nandCtrl = false → s.reads = s.before ++ [s.own] →
      nandBit s.armIrqFlag = false → s.handler = .nandIrq flags → s.irqFlag = false → Awaited s
  | reported : busy s.nandCtrl = false → s.reads = s.before ++ [s.own] →
      nandBit s.armIrqFlag = false → s.handler.nandDue = false → s.irqFlag = true → Awaited s

/-- An access that neither starts a READ_POST nor writes another page than the requested one. -/
def Instr.Harmless (request : BitVec 32) : Instr → Prop
  | .ctrl v => quiet v = true
  | .addr1 pageno => pageno = request
  | _ => True

/-- The rest of `nand_read_page`: it ends with READ_POST, and what must precede that is done or
still to come. -/
structure Reading (s : WaitState) (code : List Instr) : Prop where
  code_eq : ∃ pre, code = pre ++ [.ctrl readPostCommand] ∧ ∀ i ∈ pre, i.Harmless s.request
  irqFlag : .clearIrqFlag ∈ code ∨ s.irqFlag = false
  addr1 : .addr1 s.request ∈ code ∨ (s.request ≠ 0xffffffff#32 → s.nandAddr1 = s.request)
  reads : s.reads = s.before

/-- What holds at each point of the main thread. -/
def AtPc (s : WaitState) : Prop :=
  match s.pc with
  | .idle => True
  | .init code => ∀ i ∈ code, ∀ v, i = .ctrl v → quiet v = true
  | .read [] => s.request ≠ 0xffffffff#32 → s.nandAddr1 = s.request
  | .read (i :: code) => Reading s (i :: code)
  | .waitTest | .killRead =>
    maskBits s.mainCpsr = s.entryMask ∧ (s.request ≠ 0xffffffff#32 → s.nandAddr1 = s.request)
  | .killWrite r1 => maskBits r1 = s.entryMask ∧ (s.request ≠ 0xffffffff#32 → s.nandAddr1 = s.request)
  | .waitInner cookie | .restoreRead cookie | .restoreWrite cookie _ =>
    cookie = s.entryMask ∧ maskBits s.mainCpsr = cpsrDis ∧ maskBits cookie = cookie ∧
      (s.request ≠ 0xffffffff#32 → s.nandAddr1 = s.request)
  | .asleep cookie =>
    cookie = s.entryMask ∧ maskBits s.mainCpsr = cpsrDis ∧ maskBits cookie = cookie ∧
      (s.request ≠ 0xffffffff#32 → s.nandAddr1 = s.request) ∧ s.irqFlag = false
  | .returned =>
    maskBits s.mainCpsr = s.entryMask ∧ (s.request ≠ 0xffffffff#32 → s.nandAddr1 = s.request) ∧
      s.reads = s.before ++ [s.own]

structure Inv (s : WaitState) : Prop where
  saved : s.handler ≠ .off → irqsOn s.spsr = true
  todo : ∀ flags todo, s.handler = .others flags todo → ∀ m ∈ todo, nandBit m = false
  silent : s.pc.waiting = false → Silent s
  awaited : s.pc.waiting = true → Awaited s
  atPc : AtPc s

/-! ## Commands -/

@[simp] theorem quiet_zero : quiet 0#32 = true := by decide
@[simp] theorem quiet_shut : quiet 0x7fffffff#32 = true := by decide
@[simp] theorem busy_shut : busy 0x7fffffff#32 = false := by decide

theorem quiet_resetCommand : quiet resetCommand = true := by decide
theorem quiet_readPreCommand : quiet readPreCommand = true := by decide

theorem readPostCommand_bits : busy readPostCommand = true ∧
    readPostCommand &&& nandFlagsIrq ≠ 0#32 ∧ readPostCommand &&& nandFlagsRd ≠ 0#32 := by decide

theorem busy_finished (ctrl : BitVec 32) : busy (ctrl &&& ~~~nandBusyMask) = false := by
  simp [busy, BitVec.and_assoc, nandBusyMask]

theorem nandInitializeCode_quiet (bank : BitVec 32) :
    ∀ i ∈ nandInitializeCode bank, ∀ v, i = .ctrl v → quiet v = true := by
  have h := quiet_resetCommand
  simp only [nandInitializeCode, nandResetCode, nandSendCommand]
  simp [h]

theorem reading_nandReadPageCode (s : WaitState) (hr : s.reads = s.before) :
    Reading s (nandReadPageCode s.request) := by
  have h := quiet_readPreCommand
  refine ⟨⟨List.flatten [[.clearIrqFlag, .setLastPageRead s.request], nandSetAddress s.request,
    nandSendCommand readPreCommand, [.poll, .ctrl 0x7fffffff#32, .ctrl 0#32]], ?_, ?_⟩,
    Or.inl ?_, ?_, hr⟩
  · simp [nandReadPageCode, nandSendCommand]
  · simp only [nandSetAddress, nandSendCommand]
    split <;> simp [Instr.Harmless, h]
  · simp [nandReadPageCode]
  · by_cases hm : s.request = 0xffffffff#32
    · exact Or.inr fun h' => absurd hm h'
    · exact Or.inl (by simp [nandReadPageCode, nandSetAddress, hm])

/-! ## Calls and the main thread -/

section Steps

variable {s s' : WaitState}

/-- The stage of the awaited page does not depend on the main thread's own registers. -/
theorem Awaited.thread (h : Awaited s) (pc : Pc) (cpsr entryMask : BitVec 32) :
    Awaited { s with pc := pc, cpsr := cpsr, entryMask := entryMask } := by
  cases h with
  | outstanding h1 h2 h3 h4 h5 h6 => exact .outstanding h1 h2 h3 h4 h5 h6
  | latched h1 h2 h3 h4 h5 => exact .latched h1 h2 h3 h4 h5
  | handled flags h1 h2 h3 h4 h5 => exact .handled flags h1 h2 h3 h4 h5
  | reported h1 h2 h3 h4 h5 => exact .reported h1 h2 h3 h4 h5

theorem Silent.thread (h : Silent s) (pc : Pc) : Silent { s with pc := pc } :=
  ⟨h.flag, h.due, h.ctrl⟩

/-- When `irq_flag` is seen set, the page has been read. -/
theorem Awaited.of_irqFlag (h : Awaited s) (hf : s.irqFlag = true) :
    Silent s ∧ s.reads = s.before ++ [s.own] := by
  cases h with
  | reported h1 h2 h3 h4 => exact ⟨⟨h3, h4, by rw [quiet, h1]; rfl⟩, h2⟩
  | outstanding _ _ _ _ _ h => rw [h] at hf; cases hf
  | latched _ _ _ _ h => rw [h] at hf; cases hf
  | handled _ _ _ _ _ h => rw [h] at hf; cases hf

theorem inv_call (hi : Inv s) {c : Call} (h : startCall c s = some s') :
    Inv s' := by
  unfold startCall at h
  split at h
  · next hpc =>
    have hsil : Silent s := hi.silent (by rcases hpc with h | h <;> rw [h] <;> rfl)
    cases c with
    | init bank =>
      dsimp only at h
      split at h
      · cases h
        exact ⟨hi.saved, hi.todo, fun _ => hsil.thread _, (nomatch ·), trivial⟩
      · cases h
        exact ⟨hi.saved, hi.todo, fun _ => hsil.thread _, (nomatch ·),
          nandInitializeCode_quiet bank⟩
    | readWait pageno =>
      cases h
      refine ⟨hi.saved, hi.todo, fun _ => ⟨hsil.flag, hsil.due, hsil.ctrl⟩, (nomatch ·), ?_⟩
      exact reading_nandReadPageCode { s with request := pageno, before := s.reads, req := s.req + 1,
                                              pc := .read (nandReadPageCode pageno) } rfl
  · cases h

/-- An access of `nand_initialize` or `nand_read_page` starts nothing unasked. -/
theorem Silent.exec (h : Silent s) {i : Instr} (hq : ∀ v, i = .ctrl v → quiet v = true) (pc : Pc) :
    Silent { i.exec s with pc := pc } := by
  cases i with
  | ctrl v => exact ⟨h.flag, h.due, hq v rfl⟩
  | _ => exact ⟨h.flag, h.due, h.ctrl⟩

@[simp] theorem exec_handler (i : Instr) : (i.exec s).handler = s.handler := by cases i <;> rfl
@[simp] theorem exec_spsr (i : Instr) : (i.exec s).spsr = s.spsr := by cases i <;> rfl
@[simp] theorem exec_request (i : Instr) : (i.exec s).request = s.request := by cases i <;> rfl
@[simp] theorem exec_reads (i : Instr) : (i.exec s).reads = s.reads := by cases i <;> rfl
@[simp] theorem exec_before (i : Instr) : (i.exec s).before = s.before := by cases i <;> rfl

theorem Reading.exec {i j : Instr} {code : List Instr} (h : Reading s (i :: j :: code)) :
    i.Harmless s.request ∧
      Reading { i.exec s with pc := .read (j :: code) } (j :: code) := by
  obtain ⟨pre, hcode, hpre⟩ := h.code_eq
  cases pre with
  | nil => simp at hcode
  | cons i' pre =>
    rw [List.cons_append, List.cons.injEq] at hcode
    obtain ⟨rfl, hcode⟩ := hcode
    have hi := hpre i (List.mem_cons_self ..)
    refine ⟨hi, ⟨pre, hcode, fun k hk => ?_⟩, ?_, ?_, ?_⟩
    · simpa using hpre k (List.mem_cons_of_mem _ hk)
    · rcases h.irqFlag with hmem | hf
      · rcases List.mem_cons.mp hmem with rfl | hmem
        · exact Or.inr rfl
        · exact Or.inl hmem
      · refine Or.inr ?_
        cases i <;> first | exact hf | rfl
    · change Instr.addr1 (i.exec s).request ∈ _ ∨ ((i.exec s).request ≠ _ → (i.exec s).nandAddr1 = _)
      rw [exec_request]
      rcases h.addr1 with hmem | ha
      · rcases List.mem_cons.mp hmem with rfl | hmem
        · exact Or.inr fun _ => rfl
        · exact Or.inl hmem
      · refine Or.inr fun hr => ?_
        cases i with
        | addr1 pageno => exact hi
        | _ => exact ha hr
    · simpa using h.reads

/-- The last access of `nand_read_page` is READ_POST. -/
theorem Reading.last {i : Instr} (h : Reading s [i]) :
    i = .ctrl readPostCommand ∧ s.irqFlag = false ∧ s.reads = s.before ∧
      (s.request ≠ 0xffffffff#32 → s.nandAddr1 = s.request) := by
  obtain ⟨pre, hcode, -⟩ := h.code_eq
  have hi : i = .ctrl readPostCommand := by
    cases pre with
    | nil => simpa using hcode
    | cons => simp at hcode
  subst hi
  refine ⟨rfl, ?_, h.reads, ?_⟩
  · rcases h.irqFlag with hmem | hf
    · simp at hmem
    · exact hf
  · rcases h.addr1 with hmem | ha
    · simp at hmem
    · exact ha

/-- While the page is awaited, the main thread only moves on. -/
theorem Inv.wait (hi : Inv s) (hw : s.pc.waiting = true) {pc : Pc} {cpsr entryMask : BitVec 32}
    (hpc : pc.waiting = true)
    (hat : AtPc { s with pc := pc, cpsr := cpsr, entryMask := entryMask }) :
    Inv { s with pc := pc, cpsr := cpsr, entryMask := entryMask } := by
  refine ⟨hi.saved, hi.todo, fun h => ?_, fun _ => (hi.awaited hw).thread _ _ _, hat⟩
  cases hpc.symm.trans h

theorem inv_initialize (hi : Inv s) {code : List Instr} (hpc : s.pc = .init code)
    (h : mainStep s = some s') : Inv s' := by
  have hsil := hi.silent (by rw [hpc]; rfl)
  have hat := hi.atPc
  simp only [AtPc, hpc] at hat
  simp only [mainStep, hpc] at h
  cases code with
  | nil =>
    cases h
    exact ⟨hi.saved, hi.todo, fun _ => hsil.thread _, (nomatch ·), trivial⟩
  | cons i code =>
    dsimp only at h
    split at h
    · cases h
      refine ⟨by simpa using hi.saved, by simpa using hi.todo, fun _ => ?_, (nomatch ·), ?_⟩
      · exact hsil.exec (hat i (List.mem_cons_self ..)) _
      · exact fun j hj => hat j (List.mem_cons_of_mem _ hj)
    · cases h
      exact hi

/-- READ_POST ends `nand_read_page`, and the page is awaited. -/
theorem inv_readPage (hi : Inv s) {i : Instr} {code : List Instr} (hpc : s.pc = .read (i :: code))
    (h : mainStep s = some s') : Inv s' := by
  have hsil := hi.silent (by rw [hpc]; rfl)
  have hat := hi.atPc
  simp only [AtPc, hpc] at hat
  simp only [mainStep, hpc] at h
  split at h
  · cases h
    cases code with
    | nil =>
      obtain ⟨rfl, hf, hr, ha⟩ := hat.last
      exact ⟨hi.saved, hi.todo, (nomatch ·),
        fun _ => .outstanding rfl rfl hr hsil.flag hsil.due hf, ha⟩
    | cons j code =>
      obtain ⟨hharm, hrest⟩ := hat.exec
      refine ⟨by simpa using hi.saved, by simpa using hi.todo, fun _ => hsil.exec ?_ _,
        (nomatch ·), hrest⟩
      rintro v rfl
      exact hharm
  · cases h
    exact hi

/-- The test of `irq_flag`, outside the masked window. -/
theorem inv_waitTest (hi : Inv s) (hpc : s.pc = .waitTest) (h : mainStep s = some s') : Inv s' := by
  have hw : s.pc.waiting = true := by rw [hpc]; rfl
  have hat := hi.atPc
  simp only [AtPc, hpc] at hat
  simp only [mainStep, hpc] at h
  by_cases hf : s.irqFlag = true
  · rw [if_pos hf] at h
    cases h
    obtain ⟨hs, hr⟩ := (hi.awaited hw).of_irqFlag hf
    exact ⟨hi.saved, hi.todo, fun _ => hs.thread _, (nomatch ·), hat.1, hat.2, hr⟩
  · rw [if_neg hf] at h
    cases h
    exact hi.wait hw rfl hat

/-- The test inside it: the CPU sleeps only when the flag is clear. -/
theorem inv_waitInner (hi : Inv s) {cookie : BitVec 32} (hpc : s.pc = .waitInner cookie)
    (h : mainStep s = some s') : Inv s' := by
  have hw : s.pc.waiting = true := by rw [hpc]; rfl
  have hat := hi.atPc
  simp only [AtPc, hpc] at hat
  simp only [mainStep, hpc] at h
  obtain ⟨hcookie, hmask, hidem, hpage⟩ := hat
  by_cases hf : s.irqFlag = true
  · rw [if_pos hf] at h
    cases h
    exact hi.wait hw rfl ⟨hcookie, hmask, hidem, hpage⟩
  · rw [if_neg hf] at h
    cases h
    exact hi.wait hw rfl ⟨hcookie, hmask, hidem, hpage, by simpa using hf⟩

theorem inv_main (hi : Inv s) (hoff : s.handler = .off) (h : mainStep s = some s') : Inv s' := by
  have hmain : s.mainCpsr = s.cpsr := if_pos hoff
  have hat := hi.atPc
  have hwait := @Inv.wait s hi
  cases hpc : s.pc with
  | idle => simp only [mainStep, hpc, reduceCtorEq] at h
  | returned => simp only [mainStep, hpc, reduceCtorEq] at h
  | init code => exact inv_initialize hi hpc h
  | read code =>
    cases code with
    | nil =>
      -- `nand_wait` is called
      simp only [mainStep, hpc] at h
      simp only [AtPc, hpc] at hat
      cases h
      refine hwait (by rw [hpc]; rfl) rfl ⟨?_, hat⟩
      simp only [WaitState.mainCpsr, hoff, if_true]
    | cons i code => exact inv_readPage hi hpc h
  | waitTest => exact inv_waitTest hi hpc h
  | killRead =>
    simp only [mainStep, hpc] at h
    simp only [AtPc, hpc] at hat
    cases h
    refine hwait (by rw [hpc]; rfl) rfl ⟨?_, hat.2⟩
    rw [← hmain]
    exact hat.1
  | killWrite r1 =>
    simp only [mainStep, hpc] at h
    simp only [AtPc, hpc] at hat
    cases h
    refine hwait (by rw [hpc]; rfl) rfl ⟨hat.1, ?_, maskBits_idem r1, hat.2⟩
    simp only [WaitState.mainCpsr, hoff, if_true]
    exact maskBits_irqKillCpsr r1
  | waitInner cookie => exact inv_waitInner hi hpc h
  | asleep cookie =>
    -- an interrupt ends the sleep
    simp only [mainStep, hpc] at h
    simp only [AtPc, hpc] at hat
    obtain ⟨hcookie, hmask, hidem, hpage, -⟩ := hat
    split at h
    · cases h
      exact hwait (by rw [hpc]; rfl) rfl ⟨hcookie, hmask, hidem, hpage⟩
    · cases h
  | restoreRead cookie =>
    simp only [mainStep, hpc] at h
    simp only [AtPc, hpc] at hat
    cases h
    exact hwait (by rw [hpc]; rfl) rfl hat
  | restoreWrite cookie r1 =>
    simp only [mainStep, hpc] at h
    simp only [AtPc, hpc] at hat
    cases h
    refine hwait (by rw [hpc]; rfl) rfl ⟨?_, hat.2.2.2⟩
    simp only [WaitState.mainCpsr, hoff, if_true]
    rw [maskBits_irqRestoreCpsr hat.2.2.1]
    exact hat.1

/-! ## The handler and the controller -/

/-- The handler and the controller leave the main thread where it is. -/
theorem AtPc.frame (h : AtPc s) (handler : Handler) (cpsr spsr flag ctrl : BitVec 32) (irqFlag : Bool)
    (reads : List PageRead) (hm : (if handler = .off then cpsr else spsr) = s.mainCpsr)
    (hq : s.pc.waiting = false → irqFlag = s.irqFlag ∧ reads = s.reads)
    (hsleep : ∀ cookie, s.pc = .asleep cookie → irqFlag = s.irqFlag) :
    AtPc { s with handler := handler, cpsr := cpsr, spsr := spsr, armIrqFlag := flag,
                  nandCtrl := ctrl, irqFlag := irqFlag, reads := reads } := by
  obtain ⟨pc⟩ := s
  cases pc with
  | idle => trivial
  | init code => exact h
  | read code =>
    cases code with
    | nil => exact h
    | cons i code =>
      obtain ⟨hf, hr⟩ := hq rfl
      refine ⟨h.code_eq, ?_, h.addr1, hr.trans h.reads⟩
      rw [hf]
      exact h.irqFlag
  | waitTest => exact ⟨(congrArg maskBits hm).trans h.1, h.2⟩
  | killRead => exact ⟨(congrArg maskBits hm).trans h.1, h.2⟩
  | killWrite r1 => exact h
  | waitInner cookie => exact ⟨h.1, (congrArg maskBits hm).trans h.2.1, h.2.2⟩
  | asleep cookie =>
    exact ⟨h.1, (congrArg maskBits hm).trans h.2.1, h.2.2.1, h.2.2.2.1,
      (hsleep cookie rfl).trans h.2.2.2.2⟩
  | restoreRead cookie => exact ⟨h.1, (congrArg maskBits hm).trans h.2.1, h.2.2⟩
  | restoreWrite cookie r1 => exact ⟨h.1, (congrArg maskBits hm).trans h.2.1, h.2.2⟩
  | returned => exact ⟨(congrArg maskBits hm).trans h.1, h.2.1, (hq rfl).2.trans h.2.2⟩

/-- A step that is nothing to the NAND: its flag stays as it is, and the handler neither finds it
nor comes to or from `nand_irq`. -/
theorem inv_elsewhere (hi : Inv s) (handler : Handler) (cpsr spsr flag : BitVec 32)
    (hsaved : handler ≠ .off → irqsOn spsr = true)
    (htodo : ∀ f todo, handler = .others f todo → ∀ m ∈ todo, nandBit m = false)
    (hflag : nandBit flag = nandBit s.armIrqFlag)
    (hdue : nandBit s.armIrqFlag = false → s.handler.nandDue = false → handler.nandDue = false)
    (hirq : ∀ f, handler = .nandIrq f ↔ s.handler = .nandIrq f)
    (hmain : (if handler = .off then cpsr else spsr) = s.mainCpsr) :
    Inv { s with handler := handler, cpsr := cpsr, spsr := spsr, armIrqFlag := flag } := by
  refine ⟨hsaved, htodo, fun hw => ?_, fun hw => ?_, ?_⟩
  · have hs := hi.silent hw
    exact ⟨hflag.trans hs.flag, hdue hs.flag hs.due, hs.ctrl⟩
  · cases hi.awaited hw with
    | outstanding h1 h2 h3 h4 h5 h6 =>
      exact .outstanding h1 h2 h3 (hflag.trans h4) (hdue h4 h5) h6
    | latched h1 h2 h3 h4 h5 =>
      exact .latched h1 h2 (hflag.trans h3) (fun f hf => h4 f ((hirq f).mp hf)) h5
    | handled f h1 h2 h3 h4 h5 => exact .handled f h1 h2 (hflag.trans h3) ((hirq f).mpr h4) h5
    | reported h1 h2 h3 h4 h5 => exact .reported h1 h2 (hflag.trans h3) (hdue h3 h4) h5
  · exact hi.atPc.frame _ _ _ _ _ _ _ hmain (fun _ => ⟨rfl, rfl⟩) fun _ _ => rfl

theorem inv_irq (hi : Inv s) (h : takeIrq s = some s') : Inv s' := by
  unfold takeIrq at h
  split at h
  · next hc =>
    obtain ⟨hoff, hon, -⟩ := hc
    cases h
    exact inv_elsewhere hi .readMask _ _ _ (fun _ => hon) (fun _ _ h => nomatch h) rfl
      (fun _ _ => rfl) (by simp [hoff]) (if_pos hoff).symm
  · cases h

theorem handler_off_of_asleep (hi : Inv s) {cookie : BitVec 32} (hpc : s.pc = .asleep cookie) :
    s.handler = .off := by
  by_contra hne
  have hat := hi.atPc
  simp only [AtPc, hpc] at hat
  have hm : s.mainCpsr = s.spsr := if_neg hne
  have hon := hi.saved hne
  rw [irqsOn_of_killed (hm ▸ hat.2.1)] at hon
  cases hon

theorem nandBit_ackIf {m : BitVec 32} (hm : nandBit m = false) (flags : BitVec 32) :
    nandBit (ackIf flags m s).armIrqFlag = nandBit s.armIrqFlag := by
  unfold ackIf
  split
  · simp only [nandBit_ack, hm, Bool.not_false, Bool.and_true]
  · rfl

theorem inv_ack (hi : Inv s) {m : BitVec 32} (hm : nandBit m = false) (flags : BitVec 32)
    (handler : Handler) (hold : s.handler ≠ .off) (hnew : handler ≠ .off)
    (hdue : handler.nandDue = s.handler.nandDue)
    (hirq : ∀ f, handler = .nandIrq f ↔ s.handler = .nandIrq f)
    (htodo : ∀ f todo, handler = .others f todo → ∀ m ∈ todo, nandBit m = false) :
    Inv { ackIf flags m s with handler := handler } := by
  have hack : ackIf flags m s = { s with armIrqFlag := (ackIf flags m s).armIrqFlag } := by
    unfold ackIf
    split <;> rfl
  rw [hack]
  exact inv_elsewhere hi handler _ _ _ (fun _ => hi.saved hold) htodo (nandBit_ackIf hm flags)
    (fun _ h => hdue.trans h) hirq ((if_neg hnew).trans (if_neg hold).symm)

/-- The handler is due at the NAND, or at `nand_irq`, only for an awaited page. -/
theorem Inv.due (hi : Inv s) (hdue : s.handler.nandDue = true) : s.pc.waiting = true := by
  by_contra hw
  have hs := hi.silent (Bool.eq_false_iff.mpr hw)
  cases hs.due.symm.trans hdue

/-- The branch for the NAND is taken: the controller is shut. -/
theorem inv_nandCtrl (hi : Inv s) {flags : BitVec 32} (hh : s.handler = .nand flags)
    (hn : nandBit flags = true) :
    Inv { s with nandCtrl := 0x7fffffff#32, handler := .nandAck flags } := by
  have hdue : s.handler.nandDue = true := by rw [hh]; exact hn
  have hwait := hi.due hdue
  refine ⟨fun _ => hi.saved (by rw [hh]; exact fun h => nomatch h), (fun _ _ h => nomatch h),
    fun hw => ?_, fun hw => ?_, ?_⟩
  · cases hwait.symm.trans hw
  · cases hi.awaited hw with
    | outstanding _ _ _ _ h5 => rw [h5] at hdue; cases hdue
    | latched h1 h2 h3 _ h5 => exact .latched busy_shut h2 h3 (fun _ h => nomatch h) h5
    | handled _ _ _ _ h4 => rw [hh] at h4; cases h4
    | reported _ _ _ h4 => rw [h4] at hdue; cases hdue
  · refine hi.atPc.frame _ _ _ _ _ _ _ ?_ (fun _ => ⟨rfl, rfl⟩) fun _ _ => rfl
    simp [WaitState.mainCpsr, hh]

/-- The NAND flag is acknowledged. -/
theorem inv_nandAck (hi : Inv s) {flags : BitVec 32} (hh : s.handler = .nandAck flags) :
    Inv { s with armIrqFlag := s.armIrqFlag &&& ~~~irqfNand, handler := .nandIrq flags } := by
  have hdue : s.handler.nandDue = true := by rw [hh]; rfl
  have hwait := hi.due hdue
  have hclear : nandBit (s.armIrqFlag &&& ~~~irqfNand) = false := by simp [nandBit_ack]
  refine ⟨fun _ => hi.saved (by rw [hh]; exact fun h => nomatch h), (fun _ _ h => nomatch h),
    fun hw => ?_, fun hw => ?_, ?_⟩
  · cases hwait.symm.trans hw
  · cases hi.awaited hw with
    | outstanding _ _ _ _ h5 => rw [h5] at hdue; cases hdue
    | latched h1 h2 _ _ h5 => exact .handled flags h1 h2 hclear rfl h5
    | handled _ _ _ _ h4 => rw [hh] at h4; cases h4
    | reported _ _ _ h4 => rw [h4] at hdue; cases hdue
  · refine hi.atPc.frame _ _ _ _ _ _ _ ?_ (fun _ => ⟨rfl, rfl⟩) fun _ _ => rfl
    simp [WaitState.mainCpsr, hh]

/-- `nand_irq` reports the page. -/
theorem inv_nandIrq (hi : Inv s) {flags : BitVec 32} (hh : s.handler = .nandIrq flags) :
    Inv { s with irqFlag := true, handler := .others flags otherSources } := by
  have hdue : s.handler.nandDue = true := by rw [hh]; rfl
  have hwait := hi.due hdue
  refine ⟨fun _ => hi.saved (by rw [hh]; exact fun h => nomatch h), ?_, fun hw => ?_, fun hw => ?_,
    ?_⟩
  · rintro _ _ h
    cases h
    exact nandBit_otherSources
  · cases hwait.symm.trans hw
  · cases hi.awaited hw with
    | outstanding _ _ _ _ h5 => rw [h5] at hdue; cases hdue
    | latched _ _ _ h4 => exact absurd hh (h4 flags)
    | handled _ h1 h2 h3 _ => exact .reported h1 h2 h3 rfl rfl
    | reported _ _ _ h4 => rw [h4] at hdue; cases hdue
  · refine hi.atPc.frame _ _ _ _ _ _ _ ?_ (fun hw => ?_) fun cookie hpc => ?_
    · simp [WaitState.mainCpsr, hh]
    · cases hwait.symm.trans hw
    · rw [handler_off_of_asleep hi hpc] at hh
      cases hh

theorem inv_handler (hi : Inv s) (h : handlerStep s = some s') : Inv s' := by
  unfold handlerStep at h
  split at h
  · cases h
  · -- the mask is read
    next hh =>
    cases h
    exact inv_elsewhere hi (.readFlag s.armIrqMask) _ _ _ (fun _ => hi.saved (by simp [hh]))
      (fun _ _ h => nomatch h) rfl (fun _ _ => rfl) (by simp [hh]) (by simp [WaitState.mainCpsr, hh])
  · -- the flags are read
    next enabled hh =>
    cases h
    refine inv_elsewhere hi (.timer (s.armIrqFlag &&& enabled)) _ _ _
      (fun _ => hi.saved (by simp [hh])) (fun _ _ h => nomatch h) rfl (fun hf _ => ?_)
      (by simp [hh]) (by simp [WaitState.mainCpsr, hh])
    change nandBit (s.armIrqFlag &&& enabled) = false
    rw [nandBit_and, hf, Bool.false_and]
  · -- the timer
    next flags hh =>
    cases h
    exact inv_ack hi nandBit_irqfTimer flags _ (by simp [hh]) (fun h => nomatch h)
      (by rw [hh]; rfl) (by simp [hh]) (fun _ _ h => nomatch h)
  · -- the test for the NAND
    next flags hh =>
    split at h
    · next hn =>
      cases h
      exact inv_nandCtrl hi hh hn
    · next hn =>
      cases h
      refine inv_elsewhere hi (.others flags otherSources) _ _ _ (fun _ => hi.saved (by simp [hh]))
        ?_ rfl (fun _ _ => rfl) (by simp [hh]) (by simp [WaitState.mainCpsr, hh])
      rintro _ _ h
      cases h
      exact nandBit_otherSources
  · next flags hh =>
    cases h
    exact inv_nandAck hi hh
  · next flags hh =>
    cases h
    exact inv_nandIrq hi hh
  · -- another source
    next flags m todo hh =>
    cases h
    have htodo := hi.todo flags _ hh
    refine inv_ack hi (htodo m (List.mem_cons_self ..)) flags _ (by simp [hh]) (fun h => nomatch h)
      (by rw [hh]; rfl) (by simp [hh]) ?_
    rintro _ _ h
    cases h
    exact fun k hk => htodo k (List.mem_cons_of_mem _ hk)
  · -- the unknown sources
    next flags hh =>
    cases h
    exact inv_ack hi (nandBit_unknown flags) _ _ (by simp [hh]) (fun h => nomatch h)
      (by rw [hh]; rfl) (by simp [hh]) (fun _ _ h => nomatch h)
  · -- the return from the exception
    next hh =>
    cases h
    exact inv_elsewhere hi .off _ _ _ (fun h => absurd rfl h) (fun _ _ h => nomatch h) rfl
      (fun _ _ => rfl) (by simp [hh]) (by simp [WaitState.mainCpsr, hh])

theorem inv_finish (hi : Inv s) (h : finish s = some s') : Inv s' := by
  unfold finish at h
  split at h
  · next hb =>
    cases h
    cases hw : s.pc.waiting with
    | false =>
      have hs := hi.silent hw
      have hq := hs.ctrl
      rw [quiet, hb] at hq
      simp only [Bool.not_true, Bool.false_or, Bool.and_eq_true, decide_eq_true_eq] at hq
      simp only [hq.1, hq.2, ne_eq, not_true_eq_false, if_false]
      refine ⟨hi.saved, hi.todo, fun _ => ⟨hs.flag, hs.due, ?_⟩, fun h => ?_, ?_⟩
      · rw [quiet, busy_finished]; rfl
      · rw [hw] at h; cases h
      · exact hi.atPc.frame _ _ _ _ _ _ _ rfl (fun _ => ⟨rfl, rfl⟩) fun _ _ => rfl
    | true =>
      cases hi.awaited hw with
      | outstanding h1 h2 h3 h4 h5 h6 =>
        obtain ⟨-, hirq, hrd⟩ := readPostCommand_bits
        rw [← h1] at hirq hrd
        simp only [hirq, hrd, ne_eq, not_false_eq_true, if_true]
        refine ⟨hi.saved, hi.todo, fun h => ?_, fun _ => .latched (busy_finished _) ?_ ?_ ?_ h6, ?_⟩
        · rw [hw] at h; cases h
        · rw [h3, h2]; rfl
        · simp [nandBit_or]
        · intro flags hh
          change s.handler = _ at hh
          rw [hh] at h5
          cases h5
        · refine hi.atPc.frame _ _ _ _ _ _ _ rfl (fun h => ?_) fun _ _ => rfl
          rw [hw] at h
          cases h
      | latched h1 => rw [h1] at hb; cases hb
      | handled _ h1 => rw [h1] at hb; cases hb
      | reported h1 => rw [h1] at hb; cases hb
  · cases h

theorem inv_raise (hi : Inv s) {m : BitVec 32} (h : raise m s = some s') : Inv s' := by
  unfold raise at h
  split at h
  · cases h
  · next hm =>
    cases h
    have hflag : nandBit (s.armIrqFlag ||| m) = nandBit s.armIrqFlag := by
      rw [nandBit_or, Bool.eq_false_iff.mpr hm, Bool.or_false]
    exact inv_elsewhere hi s.handler _ _ _ hi.saved hi.todo hflag (fun _ h => h) (fun _ => Iff.rfl) rfl

end Steps

/-! ## Runs -/

theorem inv_reach {s : WaitState} (hs : waitMachine.Reach s) : Inv s := by
  refine hs.invariant (I := Inv) ?_ ?_
  · rintro s ⟨hpc, hoff, hb, hf⟩
    refine ⟨fun h => absurd hoff h, fun _ _ h => ?_, fun _ => ⟨hf, ?_, ?_⟩, fun h => ?_, ?_⟩
    · rw [hoff] at h; cases h
    · rw [hoff]; rfl
    · rw [quiet, hb]; rfl
    · rw [hpc] at h; cases h
    · simp only [AtPc, hpc]
  · rintro s a s' hi - h
    cases a with
    | call c =>
      simp only [waitMachine, waitStep] at h
      split at h
      · exact inv_call hi h
      · cases h
    | main =>
      simp only [waitMachine, waitStep] at h
      split at h
      · next hoff => exact inv_main hi hoff h
      · cases h
    | irq => exact inv_irq hi h
    | handler => exact inv_handler hi h
    | finish => exact inv_finish hi h
    | raise m => exact inv_raise hi h

/-- **`nand_wait` is neither early nor lost.**  In every reachable state: when `nand_wait` has
returned, exactly one READ_POST was finished since `nand_read_page` was called, and it is the one of
this call; while the CPU is asleep `irq_flag` is clear; and when `nand_wait` has returned the
interrupt mask is the one it was entered with. -/
theorem nandWait_correct {s : WaitState} (hs : waitMachine.Reach s) :
    (s.pc = .returned → s.reads = s.before ++ [⟨s.req, s.nandBank, s.nandAddr1⟩] ∧
      (s.request ≠ 0xffffffff#32 → s.nandAddr1 = s.request)) ∧
    (∀ cookie, s.pc = .asleep cookie → s.irqFlag = false) ∧
    (s.pc = .returned → maskBits s.mainCpsr = s.entryMask) := by
  have hat := (inv_reach hs).atPc
  refine ⟨fun hpc => ?_, fun cookie hpc => ?_, fun hpc => ?_⟩ <;>
    simp only [AtPc, hpc] at hat
  · exact ⟨hat.2.2, hat.2.1⟩
  · exact hat.2.2.2.2
  · exact hat.1

/-- After power-on, before the first call. -/
def bootWait : WaitState where
  pc := .idle
  handler := .off
  cpsr := 0x53#32
  spsr := 0#32
  armIrqMask := 0#32
  armIrqFlag := 0#32
  nandCtrl := 0#32
  nandBank := 0#32
  nandAddr1 := 0#32
  owner := 0
  initialized := 0#32
  irqFlag := false
  lastPageRead := 0#32
  reads := []
  req := 0
  request := 0#32
  before := []
  entryMask := 0#32

/-- `nand_initialize(2)`, then page 5 is read; the CPU sleeps and the NAND interrupt wakes it. -/
def sleepingRead : List Act :=
  List.flatten [[.call (.init 2#32)], List.replicate 12 .main, [.finish], List.replicate 4 .main,
    [.call (.readWait 5#32)], List.replicate 6 .main, [.finish], List.replicate 9 .main,
    [.finish], List.replicate 3 .main, [.irq], List.replicate 14 .handler, [.main]]

/-- In that run `nand_wait` returns with page 5 read. -/
theorem nandWait_correct_sleepingRead :
    ∃ s, waitMachine.exec bootWait sleepingRead = some s ∧ s.pc = .returned ∧
      s.reads = s.before ++ [⟨s.req, s.nandBank, 5#32⟩] ∧ maskBits s.mainCpsr = s.entryMask := by
  have hrun : (waitMachine.exec bootWait sleepingRead).map (fun s => (s.pc, s.request)) =
      some (.returned, 5#32) := by decide +kernel
  obtain ⟨s, hs, heq⟩ := Option.map_eq_some_iff.mp hrun
  obtain ⟨hpc, hreq⟩ := Prod.mk.inj heq
  have hboot : waitMachine.Reach bootWait := .init ⟨rfl, rfl, by decide, by decide⟩
  have hreach : waitMachine.Reach s := hboot.exec hs
  obtain ⟨ha, -, hc⟩ := nandWait_correct hreach
  obtain ⟨hreads, haddr⟩ := ha hpc
  rw [haddr (by rw [hreq]; decide), hreq] at hreads
  exact ⟨s, hs, hpc, hreads, hc hpc⟩

/-- While the CPU sleeps in `nand_wait`, the READ_POST is outstanding or its interrupt latched. -/
theorem asleep_not_lost {s : WaitState} (hs : waitMachine.Reach s) {cookie : BitVec 32}
    (hpc : s.pc = .asleep cookie) :
    s.nandCtrl = readPostCommand ∨ nandBit s.armIrqFlag = true := by
  have hi := inv_reach hs
  have hoff := handler_off_of_asleep hi hpc
  have hat := hi.atPc
  simp only [AtPc, hpc] at hat
  cases hi.awaited (by rw [hpc]; rfl) with
  | outstanding h => exact Or.inl h
  | latched _ _ h => exact Or.inr h
  | handled _ _ _ _ h => rw [hoff] at h; cases h
  | reported _ _ _ _ h => rw [hat.2.2.2.2] at h; cases h

end VwiiNandTools.Nand
