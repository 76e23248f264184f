import VwiiNandTools.Armboot.Storage.Sdhc.Exec

/-!
# The number of blocks of a transfer

`sdmmc_read` and `sdmmc_write` down to the registers of the controller.  The block count goes through
three types on its way: `blk_count * 512` is an `int`, its quotient by the block size an `u16`, and a
length that is not positive has no data phase at all.  Only then it is compared with the limit.

`CallEnds` are the runs of one call of `sdhc_exec_command` whatever the controller does.  In each of
them the registers hold what `sdhc_start_command` computed (`InCall`), and a controller that
completes what it is programmed to do lets every call succeed that passes the checks
(`call_completes`).
-/

namespace VwiiNandTools.Sdhc

open Sdmmc Transition

/-! ## One call -/

def Act.isCall : Act → Bool
  | .call _ => true
  | _ => false

/-- The runs that start with the call of `sdhc_exec_command` for `cmd` in `s`. -/
def callMachine (s : ExecState) (cmd : SdmmcCommand) : Machine ExecState Act where
  init t := startCall cmd s = some t
  step := execStep

/-- The states of that call. -/
def Within (s : ExecState) (cmd : SdmmcCommand) : ExecState → Prop :=
  (callMachine s cmd).ReachWhere fun _ a => a.isCall = false

/-- The call is about to return with `c_error = e`, in `t`. -/
def CallEnds (s : ExecState) (cmd : SdmmcCommand) (e : ℤ) (t : ExecState) : Prop :=
  Within s cmd t ∧ t.pc = .finish e

/-- `SDHC_BLOCK_SIZE` and `SDHC_BLOCK_COUNT`. -/
def Controller.blockSize (c : Controller) : BitVec 16 := read2 false c.blockWord
def Controller.blockCount (c : Controller) : BitVec 16 := read2 true c.blockWord

/-- The word of the two registers after `sdhc_start_command`. -/
def programmedWord (su : Setup) (word : BitVec 32) : BitVec 32 :=
  let word := write2 false word (su.blksize ||| 7#16 <<< 12)
  if su.blkcount ≠ 0#16 then write2 true word su.blkcount else word

/-! ## What holds within a call -/

/-- The registers after the checks have passed. -/
def Programmed (s : ExecState) (cmd : SdmmcCommand) (t : ExecState) : Prop :=
  ∃ su, sdhcSetup s.host.useDma cmd = .ok su ∧ t.ctl.blockWord = programmedWord su s.ctl.blockWord

/-- What the main thread has done, by its program counter. -/
def Phase (s : ExecState) (cmd : SdmmcCommand) (t : ExecState) : Prop :=
  match t.pc with
  | .idle => True
  | .clear | .start => t.ctl.blockWord = s.ctl.blockWord
  | .inhibit su _ | .issue su =>
    sdhcSetup s.host.useDma cmd = .ok su ∧ t.ctl.blockWord = s.ctl.blockWord
  | .finish e =>
    e = 0 → Programmed s cmd t ∧ (cmd.hasData = true → s.host.useDma = true → t.transfer.isSome)
  | _ => Programmed s cmd t

structure InCall (s : ExecState) (cmd : SdmmcCommand) (t : ExecState) : Prop where
  sameCmd : t.cmd = cmd
  useDma : t.host.useDma = s.host.useDma
  phase : Phase s cmd t

theorem serviceErrors_blockWord (status : BitVec 16) (r : IntrRun) :
    (serviceErrors status r).ctl.blockWord = r.ctl.blockWord := by
  simp only [serviceErrors, ackIntr]
  split <;> rfl

theorem sdhcIntr_blockWord (c : Controller) (h : Host) :
    (sdhcIntr c h).ctl.blockWord = c.blockWord := by
  simp only [sdhcIntr]
  split
  · have hc : ∀ c' : Controller, c'.blockWord = c.blockWord →
        (if isset c.nintrStatus sdhcCardInterrupt then serviceCard c'
          else c').blockWord = c.blockWord := by
      intro c' h'
      split <;> exact h'
    apply hc
    split
    · exact serviceErrors_blockWord _ _
    · rfl
  · rfl

section Call

variable {s t : ExecState} {cmd : SdmmcCommand}

/-- A step that keeps the program counter, the registers and the transfer. -/
theorem InCall.env {t' : ExecState} (h : InCall s cmd t) (hpc : t'.pc = t.pc) (hcmd : t'.cmd = t.cmd)
    (huse : t'.host.useDma = t.host.useDma) (hword : t'.ctl.blockWord = t.ctl.blockWord)
    (htr : t'.transfer = t.transfer) : InCall s cmd t' := by
  refine ⟨hcmd.trans h.sameCmd, huse.trans h.useDma, ?_⟩
  have hp := h.phase
  unfold Phase Programmed at hp ⊢
  rw [hpc, hword, htr]
  exact hp

theorem afterResponse_inCall (hcmd : t.cmd = cmd) (huse : t.host.useDma = s.host.useDma)
    (hp : Programmed s cmd t) : InCall s cmd (afterResponse t) := by
  refine ⟨hcmd, huse, ?_⟩
  unfold afterResponse
  rw [hcmd, huse]
  by_cases hd : cmd.hasData = true ∧ s.host.useDma = true
  · rw [if_pos hd]
    exact hp
  · rw [if_neg hd]
    exact fun _ => ⟨hp, fun h1 h2 => absurd ⟨h1, h2⟩ hd⟩

theorem afterWait_inCall (hcmd : t.cmd = cmd) (huse : t.host.useDma = s.host.useDma)
    (hp : Programmed s cmd t) (k : Wait) (status : BitVec 16) :
    InCall s cmd (afterWait k status t) := by
  have hfail : InCall s cmd { t with pc := .finish etimedout } :=
    ⟨hcmd, huse, fun h => absurd h (by decide)⟩
  cases k with
  | command =>
    simp only [afterWait]
    split
    · exact hfail
    · split
      · exact ⟨hcmd, huse, hp⟩
      · exact afterResponse_inCall hcmd huse hp
  | transfer =>
    simp only [afterWait]
    split
    · exact hfail
    · split
      · exact ⟨hcmd, huse, fun _ => ⟨hp, fun _ _ => rfl⟩⟩
      · split
        · exact ⟨hcmd, huse, hp⟩
        · exact ⟨hcmd, huse, hp⟩

theorem judge_inCall (hcmd : t.cmd = cmd) (huse : t.host.useDma = s.host.useDma)
    (hp : Programmed s cmd t) (k : Wait) (status : BitVec 16) : InCall s cmd (judge k status t) := by
  unfold judge
  split
  · refine afterWait_inCall ?_ ?_ ?_ k _
    · exact hcmd
    · exact huse
    · exact hp
  · split
    · refine afterWait_inCall ?_ ?_ ?_ k _
      · exact hcmd
      · exact huse
      · exact hp
    · exact afterWait_inCall hcmd huse hp k status

theorem mainStep_inCall {t' : ExecState} (h : InCall s cmd t) (hst : mainStep t = some t') :
    InCall s cmd t' := by
  obtain ⟨hcmd, huse, hp⟩ := h
  unfold mainStep at hst
  unfold Phase at hp
  cases hpc : t.pc with
  | idle => rw [hpc] at hst; cases hst
  | clear =>
    simp only [hpc] at hst hp
    cases hst
    exact ⟨hcmd, huse, hp⟩
  | start =>
    simp only [hpc] at hst hp
    split at hst
    · next e he =>
      cases hst
      exact ⟨hcmd, huse, fun h0 => absurd h0 (sdhcSetup_error_ne he)⟩
    · next su hsu =>
      cases hst
      rw [huse, hcmd] at hsu
      exact ⟨hcmd, huse, hsu, hp⟩
  | inhibit su timeout =>
    simp only [hpc] at hp
    cases timeout with
    | zero =>
      simp only [hpc] at hst
      cases hst
      exact ⟨hcmd, huse, fun h0 => absurd h0 (by decide)⟩
    | succ timeout =>
      simp only [hpc] at hst
      cases hst
      refine ⟨hcmd, huse, ?_⟩
      unfold Phase
      by_cases hi : t.ctl.inhibited = true
      · simp only [hi, if_true]
        exact hp
      · simp only [hi, if_false, Bool.false_eq_true]
        exact hp
  | issue su =>
    simp only [hpc] at hst hp
    cases hst
    refine ⟨hcmd, huse, su, hp.1, ?_⟩
    rw [← hp.2]
    rfl
  | waitStatus k | waitLoad k | clearLoad k status | clearStore k status v | dma =>
    simp only [hpc] at hst hp
    cases hst
    exact ⟨hcmd, huse, hp⟩
  | waitTest k timo status =>
    simp only [hpc] at hp
    cases timo with
    | zero =>
      simp only [hpc] at hst
      cases hst
      exact ⟨hcmd, huse, hp⟩
    | succ timo =>
      simp only [hpc] at hst
      cases hst
      refine ⟨hcmd, huse, ?_⟩
      unfold Phase
      by_cases hi : t.host.intrStatus = 0#16
      · simp only [hi, ne_eq, not_true_eq_false, if_false]
        exact hp
      · simp only [hi, ne_eq, not_false_eq_true, if_true]
        exact hp
  | judge k status =>
    simp only [hpc] at hst hp
    cases hst
    exact judge_inCall hcmd huse hp k status
  | response i =>
    simp only [hpc] at hst hp
    split at hst
    · cases hst
      exact ⟨hcmd, huse, hp⟩
    · cases hst
      refine afterResponse_inCall ?_ ?_ ?_
      · exact hcmd
      · exact huse
      · exact hp
  | finish error =>
    simp only [hpc] at hst
    cases hst
    exact ⟨hcmd, huse, trivial⟩

theorem startCall_inCall (hst : startCall cmd s = some t) : InCall s cmd t := by
  unfold startCall at hst
  split at hst
  · cases hst
    refine ⟨rfl, ?_, rfl⟩
    simp only
    split <;> rfl
  · cases hst

theorem execStep_inCall {t' : ExecState} {a : Act} (h : InCall s cmd t) (ha : a.isCall = false)
    (hst : execStep t a = some t') : InCall s cmd t' := by
  cases a with
  | call cmd => cases ha
  | main => exact mainStep_inCall h hst
  | irq =>
    cases hst
    exact h.env rfl rfl (sdhcIntr_useDma _ _) (sdhcIntr_blockWord _ _) rfl
  | complete d resp =>
    cases d <;> (obtain ⟨i, -, rfl⟩ := Option.map_eq_some_iff.mp hst; exact h.env rfl rfl rfl rfl rfl)
  | giveUp d =>
    cases hst
    cases d <;> exact h.env rfl rfl rfl rfl rfl
  | raise bits errors =>
    simp only [execStep, raise] at hst
    split at hst
    · cases hst
    · cases hst
      exact h.env rfl rfl rfl rfl rfl

theorem within_inCall (h : Within s cmd t) : InCall s cmd t :=
  h.invariant (I := InCall s cmd) (fun _ => startCall_inCall) fun _ _ _ hi ha hst =>
    execStep_inCall hi ha hst

end Call

/-! ## A controller that completes what it is programmed to do -/

/-- Nothing is going on. -/
structure Ready (s : ExecState) : Prop where
  pc : s.pc = .idle
  cmdLine : s.ctl.cmdLine = none
  datLine : s.ctl.datLine = none
  intrWord : s.ctl.intrWord = 0#32

theorem sdhcIntr_single {c : Controller} {h : Host} (d : Done)
    (hc : c.intrWord = d.bit.setWidth 32) (hh : h.intrStatus = 0#16) :
    (sdhcIntr c h).ctl.intrWord = 0#32 ∧ (sdhcIntr c h).ctl.datLine = c.datLine ∧
      (sdhcIntr c h).host.intrStatus = d.bit := by
  have hn : c.nintrStatus = d.bit := by
    rw [Controller.nintrStatus, hc]
    cases d <;> decide
  have hmask : isset d.bit sdhcNintrStatusMask = true := by cases d <;> decide
  have herror : isset d.bit sdhcErrorInterrupt = false := by cases d <;> decide
  have hwake : isset d.bit wakeBits = true := by cases d <;> decide
  have hcard : isset d.bit sdhcCardInterrupt = false := by cases d <;> decide
  simp only [sdhcIntr, hn, hmask, herror, hwake, hcard, if_true, if_false, Bool.false_eq_true]
  refine ⟨?_, rfl, ?_⟩
  · simp only [ackIntr, writeIntr, hc]
    cases d <;> decide
  · simp only [ackIntr, Host.post, hh, BitVec.zero_or]

/-- The line of a phase. -/
def Controller.line (c : Controller) : Done → Option ℕ
  | .command => c.cmdLine
  | .transfer => c.datLine

section Completes

variable {s t : ExecState} {cmd : SdmmcCommand}

theorem Within.main {t' : ExecState} (h : Within s cmd t) (hst : mainStep t = some t') :
    Within s cmd t' :=
  .step h (a := .main) rfl hst

/-- The command is on its way. -/
theorem issue_reach (hs : Ready s) {su : Setup} (hsu : sdhcSetup s.host.useDma cmd = .ok su) :
    ∃ t, Within s cmd t ∧ t.pc = .waitStatus .command ∧ t.host.intrStatus = 0#16 ∧
      t.ctl = program s.host.useDma t.call cmd su s.ctl ∧ t.transfer = none := by
  have hfree : s.ctl.inhibited = false := by
    rw [Controller.inhibited, hs.cmdLine, hs.datLine]
    rfl
  obtain ⟨t0, h0, hpc0, hctl0, htr0⟩ : ∃ t, Within s cmd t ∧ t.pc = .clear ∧ t.ctl = s.ctl ∧
      t.transfer = none := by
    refine ⟨{ s with pc := .clear, call := s.call + 1, cmd := cmd, command := [], cResp := [],
                     transfer := none,
                     host := if cmd.hasData then { s.host with dataCommand := 1 } else s.host },
      .init ?_, rfl, rfl, rfl⟩
    simp only [callMachine, startCall, hs.pc]
  have h1 : Within s cmd { storeStatus 0#16 t0 with owed := 0#16, pc := .start } :=
    h0.main (by rw [mainStep, hpc0])
  have hin := within_inCall h1
  generalize ht1 : ({ storeStatus 0#16 t0 with owed := 0#16, pc := .start } : ExecState) = t1 at h1 hin
  have hpc1 : t1.pc = .start := by rw [← ht1]
  have hctl1 : t1.ctl = s.ctl := by rw [← ht1, ← hctl0]; rfl
  have hst1 : t1.host.intrStatus = 0#16 := by rw [← ht1]; rfl
  have htr1 : t1.transfer = none := by rw [← ht1, ← htr0]; rfl
  have h2 : Within s cmd { t1 with pc := .inhibit su 500 } := by
    refine h1.main ?_
    rw [mainStep, hpc1]
    simp only [hin.sameCmd, hin.useDma, hsu]
  have h3 : Within s cmd { t1 with pc := .issue su } := by
    refine h2.main ?_
    simp only [mainStep, hctl1, hfree, Bool.false_eq_true, if_false]
  have h4 : Within s cmd { t1 with ctl := program t1.host.useDma t1.call t1.cmd su t1.ctl,
                                   pc := .waitStatus .command } := h3.main rfl
  refine ⟨_, h4, rfl, hst1, ?_, htr1⟩
  simp only [hin.sameCmd, hin.useDma, hctl1]

/-- The controller completes a phase, and the handler posts it. -/
theorem post_reach (h : Within s cmd t) (d : Done) {k : Wait} (hpc : t.pc = .waitStatus k)
    (hline : (t.ctl.line d).isSome = true) (hword : t.ctl.intrWord = 0#32)
    (hst : t.host.intrStatus = 0#16) :
    ∃ t', Within s cmd t' ∧ t'.pc = .waitStatus k ∧ t'.host.intrStatus = d.bit ∧
      t'.ctl.intrWord = 0#32 ∧
      t'.ctl.datLine = (if d = .transfer then none else t.ctl.datLine) ∧
      t'.transfer = t.transfer := by
  obtain ⟨u, hu, hpcu, hstu, hwordu, hdatu, htru⟩ : ∃ u, complete d 0#128 t = some u ∧
      u.pc = t.pc ∧ u.host = t.host ∧ u.ctl.intrWord = d.bit.setWidth 32 ∧
      u.ctl.datLine = (if d = .transfer then none else t.ctl.datLine) ∧
      u.transfer = t.transfer := by
    have hsome : (complete d 0#128 t).isSome = true := by
      cases d <;> simpa [complete, Controller.line] using hline
    obtain ⟨u, hu⟩ := Option.isSome_iff_exists.mp hsome
    cases d with
    | command =>
      obtain ⟨i, -, rfl⟩ := Option.map_eq_some_iff.mp hu
      exact ⟨_, hu, rfl, rfl, by simp only [hword, BitVec.zero_or], rfl, rfl⟩
    | transfer =>
      obtain ⟨i, -, rfl⟩ := Option.map_eq_some_iff.mp hu
      exact ⟨_, hu, rfl, rfl, by simp only [hword, BitVec.zero_or], rfl, rfl⟩
  have h1 : Within s cmd u := .step h (a := .complete d 0#128) rfl hu
  have h2 : Within s cmd (sdhcIrq u) := .step h1 (a := .irq) rfl rfl
  obtain ⟨hword', hdat', hst'⟩ := sdhcIntr_single (h := u.host) d hwordu (by rw [hstu, hst])
  exact ⟨_, h2, hpcu.trans hpc, hst', hword', hdat'.trans hdatu, htru⟩

/-- The completion a wait is for. -/
def Wait.done : Wait → Done
  | .command => .command
  | .transfer => .transfer

/-- A wait whose completion is posted. -/
theorem wait_reach (h : Within s cmd t) {k : Wait} (hpc : t.pc = .waitStatus k)
    (htimo : k.timo t.cmd ≠ 0) (hst : t.host.intrStatus = k.done.bit) :
    ∃ t', Within s cmd t' ∧ t'.pc = .judge k k.done.bit ∧ t'.ctl = t.ctl ∧
      t'.host.intrStatus = 0#16 ∧ t'.transfer = t.transfer := by
  have hmask : k.done.bit &&& k.mask = k.done.bit := by cases k <;> decide
  have hclear : k.done.bit &&& ~~~k.done.bit = 0#16 := by cases k <;> decide
  obtain ⟨n, hn⟩ := Nat.exists_eq_succ_of_ne_zero htimo
  have h1 : Within s cmd { t with pc := .waitTest k (n + 1) k.done.bit, seen := t.posted } :=
    h.main (by simp only [mainStep, hpc, hn, hst, hmask])
  have h2 : Within s cmd { t with pc := .waitLoad k, seen := t.posted } := by
    refine h1.main ?_
    simp only [mainStep]
    rw [if_pos (by rw [hst]; cases k <;> decide)]
  have h3 : Within s cmd { t with pc := .clearLoad k k.done.bit, seen := t.posted } :=
    h2.main (by simp only [mainStep, hst, hmask])
  have h4 : Within s cmd { t with pc := .clearStore k k.done.bit 0#16, seen := t.posted,
                                  owed := t.owed &&& ~~~k.done.bit } :=
    h3.main (by simp only [mainStep, hst, hclear])
  exact ⟨_, h4.main rfl, rfl, rfl, rfl, rfl⟩

theorem judge_done (k : Wait) : judge k k.done.bit t = afterWait k k.done.bit t := by
  have h1 : isset k.done.bit sdhcErrorInterrupt = false := by cases k <;> decide
  have h2 : isset k.done.bit sdhcErrorTimeout = false := by cases k <;> decide
  rw [judge, if_neg (by rw [h1]; decide), if_neg (by rw [h2]; decide)]

/-- **What passes the checks completes**: with a free controller, a command with a short response,
and for a data phase with a buffer, the call can return without an error. -/
theorem call_completes (hs : Ready s) {su : Setup} (hsu : sdhcSetup s.host.useDma cmd = .ok su)
    (hpresent : isset cmd.flags scfRspPresent = true) (hshort : isset cmd.flags scfRsp136 = false)
    (hdata : cmd.hasData = true → cmd.data ≠ 0#32) :
    ∃ t, CallEnds s cmd 0 t ∧ (s.host.useDma = false → t.transfer = none) := by
  obtain ⟨t1, h1, hpc1, hst1, hctl1, htr1⟩ := issue_reach hs hsu
  obtain ⟨t2, h2, hpc2, hst2, hword2, hdat2, htr2⟩ := post_reach h1 .command hpc1 (by rw [hctl1]; rfl)
    (by rw [hctl1]; exact hs.intrWord) hst1
  have htimo : Wait.timo t2.cmd .command ≠ 0 := by
    simp only [Wait.timo, cTimeout]
    split
    · split <;> decide
    · assumption
  obtain ⟨t3, h3, hpc3, hctl3, hst3, htr3⟩ := wait_reach h2 hpc2 htimo hst2
  have hcmd3 := (within_inCall h3).sameCmd
  have h4 : Within s cmd { t3 with command := callsOf .command t3.seen, pc := .response 0 } := by
    refine h3.main ?_
    simp only [mainStep, hpc3]
    rw [judge_done, afterWait, if_neg (by decide)]
    simp only [hcmd3, hpresent, if_true]
  generalize ht4 : ({ t3 with command := callsOf .command t3.seen, pc := .response 0 } : ExecState) =
    t4 at h4
  have hpc4 : t4.pc = .response 0 := by rw [← ht4]
  have hctl4 : t4.ctl = t2.ctl := by rw [← ht4, ← hctl3]
  have hst4 : t4.host.intrStatus = 0#16 := by rw [← ht4]; exact hst3
  have htr4 : t4.transfer = none := by rw [← ht4, ← htr1, ← htr2, ← htr3]
  have hin4 := within_inCall h4
  have h5 : Within s cmd (afterResponse
      { t4 with cResp := t4.cResp ++ [(t4.ctl.responseOf, readResponse t4.cmd 0 t4.ctl)] }) := by
    refine h4.main ?_
    simp only [mainStep, hpc4]
    rw [if_neg (by simp only [responseReads, hin4.sameCmd, hshort]; decide)]
  generalize ht5 : ({ t4 with cResp := t4.cResp ++
    [(t4.ctl.responseOf, readResponse t4.cmd 0 t4.ctl)] } : ExecState) = t5 at h5
  have hctl5 : t5.ctl = t2.ctl := by rw [← ht5, ← hctl4]
  have hst5 : t5.host.intrStatus = 0#16 := by rw [← ht5]; exact hst4
  have hcmd5 : t5.cmd = cmd := by rw [← ht5]; exact hin4.sameCmd
  have htr5 : t5.transfer = none := by rw [← ht5, ← htr4]
  have huse5 : t5.host.useDma = s.host.useDma := by rw [← ht5]; exact hin4.useDma
  unfold afterResponse at h5
  by_cases hd : t5.cmd.hasData = true ∧ t5.host.useDma = true
  · rw [if_pos hd] at h5
    have hline : t5.ctl.datLine.isSome = true := by
      have hcommand : isset su.command sdhcDataPresentSelect = true := by
        have hne := hdata (hcmd5 ▸ hd.1)
        unfold sdhcSetup at hsu
        split at hsu
        · cases hsu
        · split at hsu
          · cases hsu
          · cases hsu
            simp only [commandOf, if_pos hne, isset_or]
            simp [isset, sdhcDataPresentSelect]
      rw [hctl5, hdat2, if_neg (by decide), hctl1]
      simp only [program]
      rw [if_pos (Or.inl hcommand)]
      rfl
    obtain ⟨t6, h6, hpc6, hst6, -, -, -⟩ := post_reach h5 .transfer rfl hline
      (by change t5.ctl.intrWord = _; rw [hctl5, hword2]) hst5
    obtain ⟨t7, h7, hpc7, -, -, -⟩ := wait_reach h6 hpc6 (show sdhcTransferTimeout ≠ 0 by decide) hst6
    have h8 : Within s cmd { t7 with transfer := some (callsOf .transfer t7.seen),
                                     pc := .finish 0 } := by
      refine h7.main ?_
      simp only [mainStep, hpc7]
      rw [judge_done, afterWait, if_neg (by decide), if_pos (by decide)]
    refine ⟨_, ⟨h8, rfl⟩, fun hno => ?_⟩
    rw [huse5, hno] at hd
    exact absurd hd.2 (by decide)
  · rw [if_neg hd] at h5
    exact ⟨_, ⟨h5, rfl⟩, fun _ => htr5⟩

end Completes

/-! ## `sdmmc_read` and `sdmmc_write` -/

inductive Direction
  | read
  | write
  deriving DecidableEq, Repr

def Direction.opcode : Direction → ℕ
  | .read => mmcReadBlockMultiple
  | .write => mmcWriteBlockMultiple

def Direction.flags : Direction → BitVec 16
  | .read => scfRspR1 ||| scfCmdRead
  | .write => scfRspR1

/-- The command of a transfer of `blkCount` blocks with the buffer `data`. -/
def transferCommand (dir : Direction) (c : Card) (blkStart blkCount data : BitVec 32) :
    SdmmcCommand :=
  { opcode := dir.opcode, arg := transferArg c blkStart, flags := dir.flags,
    datalen := blkCount * sdmmcDefaultBlocklen, blklen := sdmmcDefaultBlocklen, timeout := 0,
    data := data }

/-- `sdmmc_read` or `sdmmc_write` when `sdhc_exec_command` leaves `c_error = e`. -/
def Direction.run (dir : Direction) (e : ℤ) (blkStart blkCount : BitVec 32) (d : Driver) :
    ℤ × Driver :=
  match dir with
  | .read => sdmmcRead transferDone (fun _ => { error := e, resp := fun _ => 0#8 }) blkStart blkCount d
  | .write => sdmmcWrite transferDone (fun _ => { error := e, resp := fun _ => 0#8 }) blkStart blkCount d
where
  /-- The result of a select, which does not take place. -/
  transferDone : CmdResult := { error := 0, resp := fun _ => 0#8 }

/-- A card that is inserted, selected and acknowledged. -/
structure Usable (c : Card) : Prop where
  inserted : c.inserted ≠ 0
  selected : c.selected ≠ 0
  acknowledged : c.newCard ≠ 1

/-- On such a card the transfer issues its command and returns what it leaves. -/
theorem Direction.run_usable (dir : Direction) (e : ℤ) (blkStart blkCount data : BitVec 32)
    {d : Driver} (h : Usable d.card) :
    ((dir.run e blkStart blkCount d).1 = 0 ↔ e = 0) ∧
      (dir.run e blkStart blkCount d).2.sent =
        d.sent ++ [(transferCommand dir d.card blkStart blkCount data).toCommand] := by
  obtain ⟨hins, hsel, hack⟩ := h
  cases dir <;> by_cases he : e = 0 <;>
    simp [Direction.run, sdmmcRead, sdmmcWrite, sdmmcTransfer, ensureSelected, transferSelected,
      transferCommand, exec, Direction.opcode, Direction.flags, hins, hsel, hack, he]

/-- Everything was asked of the controller: the block count register holds the count, which the
counter can express, the blocks have 512 bytes, and the end of a data phase was waited for. -/
structure MovesAll (blkCount : BitVec 32) (t : ExecState) : Prop where
  limit : blkCount.toNat ≤ sdhcBlockCountMax
  count : t.ctl.blockCount.toNat = blkCount.toNat
  size : 0 < blkCount.toNat → t.ctl.blockSize &&& 0xfff#16 = 512#16
  waited : 0 < blkCount.toNat → t.transfer.isSome = true

/-- Whatever the controller does, a transfer that returns 0 has asked for all blocks. -/
def TransferMoves (dir : Direction) (d : Driver) (blkStart blkCount data : BitVec 32)
    (s : ExecState) : Prop :=
  ∀ e t, CallEnds s (transferCommand dir d.card blkStart blkCount data) e t →
    (dir.run e blkStart blkCount d).1 = 0 → MovesAll blkCount t

/-- `blk_count * 512` is positive as an `int`, and its 16-bit block count exceeds the limit. -/
def Refused (n : ℕ) : Prop := 0 < n % 2 ^ 23 ∧ n % 2 ^ 23 < 2 ^ 22 ∧ sdhcBlockCountMax < n % 2 ^ 16

section Counts

variable (dir : Direction) (c : Card) (blkStart blkCount data : BitVec 32)

theorem Direction.flags_answers :
    isset dir.flags scfRspPresent = true ∧ isset dir.flags scfRsp136 = false := by
  cases dir <;> decide

theorem transferCommand_answers :
    isset (transferCommand dir c blkStart blkCount data).flags scfRspPresent = true ∧
      isset (transferCommand dir c blkStart blkCount data).flags scfRsp136 = false :=
  dir.flags_answers

theorem transferCommand_hasData :
    (transferCommand dir c blkStart blkCount data).hasData = true ↔
      0 < blkCount.toNat % 2 ^ 23 ∧ blkCount.toNat % 2 ^ 23 < 2 ^ 22 := by
  have hlt := blkCount.isLt
  simp only [SdmmcCommand.hasData, transferCommand, sdmmcDefaultBlocklen, decide_eq_true_eq,
    BitVec.toInt_eq_toNat_cond, BitVec.toNat_mul, BitVec.toNat_ofNat]
  omega

variable {dir c blkStart blkCount data}

theorem transferCommand_blksize
    (h : (transferCommand dir c blkStart blkCount data).hasData = true) :
    blksizeOf (transferCommand dir c blkStart blkCount data) = 512#16 := by
  have hn := (transferCommand_hasData dir c blkStart blkCount data).mp h
  have hlt := blkCount.isLt
  have hmin : min (transferCommand dir c blkStart blkCount data).datalen.toInt
      (transferCommand dir c blkStart blkCount data).blklen.toInt = 512 := by
    simp only [transferCommand, sdmmcDefaultBlocklen, BitVec.toInt_eq_toNat_cond, BitVec.toNat_mul,
      BitVec.toNat_ofNat]
    omega
  rw [blksizeOf, if_pos h, hmin]
  rfl

theorem transferCommand_datalen :
    (transferCommand dir c blkStart blkCount data).datalen.toNat = 512 * (blkCount.toNat % 2 ^ 23) := by
  simp only [transferCommand, sdmmcDefaultBlocklen, BitVec.toNat_mul, BitVec.toNat_ofNat]
  omega

theorem transferCommand_blkcount
    (h : (transferCommand dir c blkStart blkCount data).hasData = true) :
    (blkcountOf (transferCommand dir c blkStart blkCount data)).toNat = blkCount.toNat % 2 ^ 16 := by
  rw [blkcountOf, if_pos h, transferCommand_blksize h, transferCommand_datalen, BitVec.toNat_ofNat]
  have h512 : (512#16 : BitVec 16).toNat = 512 := rfl
  rw [h512]
  omega

variable (dir c blkStart blkCount data) in
/-- Which counts pass the checks, and with which registers. -/
theorem transferCommand_setup (useDma : Bool) :
    (Refused blkCount.toNat ∧
      sdhcSetup useDma (transferCommand dir c blkStart blkCount data) = .error einval) ∨
    ¬Refused blkCount.toNat ∧ ∃ su,
      sdhcSetup useDma (transferCommand dir c blkStart blkCount data) = .ok su ∧
      su.blksize = blksizeOf (transferCommand dir c blkStart blkCount data) ∧
      su.blkcount = blkcountOf (transferCommand dir c blkStart blkCount data) := by
  have hdata := transferCommand_hasData dir c blkStart blkCount data
  have hmod : ¬((transferCommand dir c blkStart blkCount data).hasData = true ∧
      (transferCommand dir c blkStart blkCount data).datalen.toNat %
        (blksizeOf (transferCommand dir c blkStart blkCount data)).toNat > 0) := by
    rintro ⟨h, hpos⟩
    rw [transferCommand_blksize h, transferCommand_datalen, show (512#16).toNat = 512 from rfl] at hpos
    omega
  rw [sdhcSetup, if_neg hmod]
  by_cases hr : Refused blkCount.toNat
  · refine Or.inl ⟨hr, ?_⟩
    rw [if_pos]
    rw [transferCommand_blkcount (hdata.mpr ⟨hr.1, hr.2.1⟩)]
    exact hr.2.2
  · refine Or.inr ⟨hr, ?_⟩
    rw [if_neg]
    · exact ⟨_, rfl, rfl, rfl⟩
    · intro hgt
      by_cases hd : (transferCommand dir c blkStart blkCount data).hasData = true
      · rw [transferCommand_blkcount hd] at hgt
        exact hr ⟨(hdata.mp hd).1, (hdata.mp hd).2, hgt⟩
      · rw [blkcountOf, if_neg hd] at hgt
        exact absurd hgt (by decide)

end Counts

/-! ### The registers -/

theorem programmedWord_count (su : Setup) (word : BitVec 32) :
    read2 true (programmedWord su word) =
      if su.blkcount ≠ 0#16 then su.blkcount else read2 true word := by
  unfold programmedWord
  split
  · rw [read2_write2, if_pos rfl]
  · rw [read2_write2, if_neg (by decide)]

theorem programmedWord_size (su : Setup) (word : BitVec 32) :
    read2 false (programmedWord su word) = su.blksize ||| 7#16 <<< 12 := by
  unfold programmedWord
  split
  · rw [read2_write2, if_neg (by decide), read2_write2, if_pos rfl]
  · rw [read2_write2, if_pos rfl]

section Moves

variable {dir : Direction} {d : Driver} {blkStart blkCount data : BitVec 32} {s : ExecState}

/-- Every success has the registers the checks computed. -/
theorem TransferMoves.of_setup (hcard : Usable d.card)
    (h : ∀ su t, sdhcSetup s.host.useDma (transferCommand dir d.card blkStart blkCount data) = .ok su →
      t.ctl.blockWord = programmedWord su s.ctl.blockWord →
      ((transferCommand dir d.card blkStart blkCount data).hasData = true →
        s.host.useDma = true → t.transfer.isSome = true) → MovesAll blkCount t) :
    TransferMoves dir d blkStart blkCount data s := by
  intro e t ⟨hwithin, hpc⟩ hret
  obtain rfl := (dir.run_usable e blkStart blkCount data hcard).1.mp hret
  have hphase := (within_inCall hwithin).phase
  unfold Phase at hphase
  rw [hpc] at hphase
  obtain ⟨⟨su, hsu, hword⟩, htr⟩ := hphase rfl
  exact h su t hsu hword htr

/-- A count the counter can express, with DMA. -/
theorem moves_of_small (hcard : Usable d.card) (hdma : s.host.useDma = true)
    (hpos : 0 < blkCount.toNat) (hle : blkCount.toNat ≤ sdhcBlockCountMax) :
    TransferMoves dir d blkStart blkCount data s := by
  have hmax : sdhcBlockCountMax = 512 := rfl
  have hdata : (transferCommand dir d.card blkStart blkCount data).hasData = true :=
    (transferCommand_hasData _ _ _ _ _).mpr (by omega)
  have hcount := transferCommand_blkcount hdata
  refine .of_setup hcard fun su t hsu hword htr => ?_
  rcases transferCommand_setup dir d.card blkStart blkCount data s.host.useDma with
    ⟨hr, -⟩ | ⟨-, su', hsu', hsize, hblk⟩
  · exact absurd hr.2.2 (by omega)
  obtain rfl : su = su' := Except.ok.inj (hsu.symm.trans hsu')
  have hne : su.blkcount ≠ 0#16 := by
    intro h0
    rw [hblk] at h0
    rw [h0] at hcount
    have : (0#16 : BitVec 16).toNat = 0 := rfl
    omega
  refine ⟨hle, ?_, fun _ => ?_, fun _ => htr hdata hdma⟩
  · rw [Controller.blockCount, hword, programmedWord_count, if_pos hne, hblk, hcount]
    omega
  · rw [Controller.blockSize, hword, programmedWord_size, hsize, transferCommand_blksize hdata]
    decide

/-- No blocks, and a block count register that is zero. -/
theorem moves_of_zero (hcard : Usable d.card) (h0 : blkCount.toNat = 0)
    (hword0 : s.ctl.blockCount = 0#16) : TransferMoves dir d blkStart blkCount data s := by
  have hdata : ¬(transferCommand dir d.card blkStart blkCount data).hasData = true := by
    rw [transferCommand_hasData]
    omega
  refine .of_setup hcard fun su t hsu hword _ => ⟨by omega, ?_, by omega, by omega⟩
  rcases transferCommand_setup dir d.card blkStart blkCount data s.host.useDma with
    ⟨hr, -⟩ | ⟨-, su', hsu', -, hblk⟩
  · exact absurd hr.2.2 (by omega)
  obtain rfl : su = su' := Except.ok.inj (hsu.symm.trans hsu')
  have hz : su.blkcount = 0#16 := by rw [hblk, blkcountOf, if_neg hdata]
  rw [Controller.blockCount, hword, programmedWord_count, if_neg (not_not.mpr hz), h0]
  rw [Controller.blockCount] at hword0
  rw [hword0]
  rfl

/-- A count that fails the checks. -/
theorem moves_of_refused (hcard : Usable d.card) (hr : Refused blkCount.toNat) :
    TransferMoves dir d blkStart blkCount data s := by
  refine .of_setup hcard fun su t hsu _ _ => ?_
  rcases transferCommand_setup dir d.card blkStart blkCount data s.host.useDma with
    ⟨-, he⟩ | ⟨hn, -⟩
  · rw [hsu] at he
    cases he
  · exact absurd hr hn

/-- Any other count has a run that returns 0. -/
theorem cond_of_moves (hs : Ready s) (hcard : Usable d.card) (hdata : data ≠ 0#32)
    (h : TransferMoves dir d blkStart blkCount data s) (hr : ¬Refused blkCount.toNat) :
    0 < blkCount.toNat ∧ blkCount.toNat ≤ sdhcBlockCountMax ∧ s.host.useDma = true ∨
      blkCount.toNat = 0 ∧ s.ctl.blockCount = 0#16 := by
  have hmax : sdhcBlockCountMax = 512 := rfl
  rcases transferCommand_setup dir d.card blkStart blkCount data s.host.useDma with
    ⟨hr', -⟩ | ⟨-, su, hsu, -, hblk⟩
  · exact absurd hr' hr
  obtain ⟨t, hends, hno⟩ := call_completes hs hsu (transferCommand_answers ..).1
    (transferCommand_answers ..).2 fun _ => hdata
  have hall := h 0 t hends ((dir.run_usable 0 blkStart blkCount data hcard).1.mpr rfl)
  have hphase := (within_inCall hends.1).phase
  unfold Phase at hphase
  rw [hends.2] at hphase
  obtain ⟨⟨su', hsu', hword⟩, -⟩ := hphase rfl
  obtain rfl : su = su' := Except.ok.inj (hsu.symm.trans hsu')
  rcases Nat.eq_zero_or_pos blkCount.toNat with h0 | hpos
  · refine Or.inr ⟨h0, ?_⟩
    have hd : ¬(transferCommand dir d.card blkStart blkCount data).hasData = true := by
      rw [transferCommand_hasData]
      omega
    have hz : su.blkcount = 0#16 := by rw [hblk, blkcountOf, if_neg hd]
    have hcount := hall.count
    rw [Controller.blockCount, hword, programmedWord_count, if_neg (not_not.mpr hz), h0] at hcount
    exact BitVec.eq_of_toNat_eq hcount
  · refine Or.inl ⟨hpos, hall.limit, ?_⟩
    by_contra huse
    have htr := hall.waited hpos
    rw [hno (Bool.eq_false_iff.mpr huse)] at htr
    cases htr

end Moves

/-- **The blocks that are asked for**: whatever the controller does, a transfer that returns 0 has
asked for all its blocks exactly when it is a count of at most 512 with DMA, or no block and a block
count register that is zero already, or a count that the checks refuse. -/
theorem transfer_movesAll (dir : Direction) {d : Driver} (blkStart blkCount : BitVec 32)
    {data : BitVec 32} {s : ExecState} (hcard : Usable d.card) (hs : Ready s)
    (hdata : data ≠ 0#32) :
    TransferMoves dir d blkStart blkCount data s ↔
      0 < blkCount.toNat ∧ blkCount.toNat ≤ sdhcBlockCountMax ∧ s.host.useDma = true ∨
      blkCount.toNat = 0 ∧ s.ctl.blockCount = 0#16 ∨
      Refused blkCount.toNat := by
  constructor
  · intro h
    by_cases hr : Refused blkCount.toNat
    · exact Or.inr (Or.inr hr)
    · rcases cond_of_moves hs hcard hdata h hr with h' | h'
      · exact Or.inl h'
      · exact Or.inr (Or.inl h')
  · rintro (⟨hpos, hle, hdma⟩ | ⟨h0, hword⟩ | hr)
    · exact moves_of_small hcard hdma hpos hle
    · exact moves_of_zero hcard h0 hword
    · exact moves_of_refused hcard hr

/-- An inserted, selected and acknowledged card. -/
def readyDriver : Driver :=
  { host := { ocr := 0#32, clkbase := 0, powerCtl := 0#8, clockCtl := 0#16 },
    card := { inserted := 1, sdhcBlockmode := 1, selected := 1, newCard := 0, timeout := 0#32,
              numSectors := 0x2000000#32, cid := 0#32, rca := 1#16 },
    sent := [] }

theorem readyDriver_usable : Usable readyDriver.card := ⟨by decide, by decide, by decide⟩

theorem initialState_ready : Ready initialState := ⟨rfl, rfl, rfl, rfl⟩

theorem transfer_movesAll_eight :
    TransferMoves .read readyDriver 0#32 8#32 0x1000#32 initialState :=
  (transfer_movesAll .read 0#32 8#32 readyDriver_usable initialState_ready (by decide)).mpr
    (Or.inl (by decide))

/-- A transfer of `0x800000` blocks returns 0 without a data phase, in a run of the code. -/
theorem transfer_moves_nothing :
    (∃ t, CallEnds initialState (transferCommand .read readyDriver.card 0#32 0x800000#32 0x1000#32)
        0 t ∧ (Direction.read.run 0 0#32 0x800000#32 readyDriver).1 = 0) ∧
      ¬∀ (dir : Direction) (d : Driver) (blkStart blkCount data : BitVec 32) (s : ExecState),
        Usable d.card → Ready s → data ≠ 0#32 → TransferMoves dir d blkStart blkCount data s := by
  have hsu : ∃ su, sdhcSetup true
      (transferCommand .read readyDriver.card 0#32 0x800000#32 0x1000#32) = .ok su := ⟨_, rfl⟩
  obtain ⟨su, hsu⟩ := hsu
  obtain ⟨t, hends, -⟩ := call_completes initialState_ready hsu rfl rfl fun _ => by decide
  refine ⟨⟨t, hends, by decide⟩, fun h => ?_⟩
  have hall := h .read readyDriver 0#32 0x800000#32 0x1000#32 initialState readyDriver_usable
    initialState_ready (by decide) 0 t hends (by decide)
  exact absurd hall.limit (by decide)

end VwiiNandTools.Sdhc
