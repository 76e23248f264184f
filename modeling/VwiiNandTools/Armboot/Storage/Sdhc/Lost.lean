import VwiiNandTools.Armboot.Storage.Sdhc.Exec

/-!
# Lost events

`sdhc_wait_intr_debug` takes what it consumes out of `intr_status` with `intr_status &= ~status`, a
load and a store with interrupts enabled.  What `sdhc_intr` posts between the two is overwritten:
the store writes the value computed from the load.  `lostBits` are the bits that were posted, that no
status value has covered since, and that are not in `intr_status` any more.

Outside that window nothing is lost, and what is posted in it is lost exactly when it is not in the
value to be stored (`events_kept`).
-/

namespace VwiiNandTools.Sdhc

open Sdmmc Transition

/-! ## The property -/

/-- Posted in the running call, neither covered by a status value since nor still in
`intr_status`. -/
def ExecState.lostBits (s : ExecState) : BitVec 16 := s.owed &&& ~~~s.host.intrStatus

/-- The value about to be stored by `hp->intr_status &= ~status`. -/
def Pc.storing : Pc → Option (BitVec 16)
  | .clearStore _ _ v => some v
  | _ => none

def Act.isIrq : Act → Bool
  | .irq => true
  | _ => false

/-- Between the load and the store the handler posts only bits that are stored. -/
def Whole (s : ExecState) (a : Act) : Prop :=
  a.isIrq = true → ∀ v ∈ s.pc.storing, postedBits s.ctl &&& ~~~v = 0#16

/-- `Whole` as it is evaluated. -/
def whole (s : ExecState) (a : Act) : Bool :=
  !a.isIrq || s.pc.storing.all fun v => decide (postedBits s.ctl &&& ~~~v = 0#16)

theorem whole_iff {s : ExecState} {a : Act} : whole s a = true ↔ Whole s a := by
  unfold whole Whole
  cases a.isIrq <;> cases s.pc.storing <;> simp

instance (s : ExecState) (a : Act) : Decidable (Whole s a) := decidable_of_iff _ whole_iff

/-! ## The invariant -/

/-- What is owed is in the value to be stored, or in `intr_status`. -/
def Kept (s : ExecState) : Prop :=
  match s.pc.storing with
  | some v => s.owed &&& ~~~v = 0#16
  | none => s.lostBits = 0#16

theorem or_clear_eq_zero {x y v : BitVec 16} :
    (x ||| y) &&& ~~~v = 0#16 ↔ x &&& ~~~v = 0#16 ∧ y &&& ~~~v = 0#16 := by
  rw [BitVec.and_or_distrib_right, BitVec.or_eq_zero_iff]

theorem clear_or_eq_zero {x v y : BitVec 16} (h : x &&& ~~~v = 0#16) : x &&& ~~~(v ||| y) = 0#16 := by
  rw [BitVec.not_or, ← BitVec.and_assoc, h, BitVec.zero_and]

theorem consume_eq_zero {x v status : BitVec 16} (h : x &&& ~~~v = 0#16) :
    (x &&& ~~~status) &&& ~~~(v &&& ~~~status) = 0#16 := by
  apply BitVec.eq_of_getLsbD_eq
  intro i hi
  have hbit := congrArg (fun y => BitVec.getLsbD y i) h
  simp only [BitVec.getLsbD_and, BitVec.getLsbD_not, hi, decide_true, Bool.true_and,
    BitVec.getLsbD_zero] at hbit ⊢
  cases hx : x.getLsbD i <;> cases hv : v.getLsbD i <;> simp_all

/-- A step that changes neither `owed` nor `intr_status`, outside of the window. -/
theorem Kept.same {s s' : ExecState} (h : Kept s) (hs : s.pc.storing = none)
    (hs' : s'.pc.storing = none) (ho : s'.owed = s.owed)
    (hi : s'.host.intrStatus = s.host.intrStatus) : Kept s' := by
  simp only [Kept, hs, hs', ExecState.lostBits] at h ⊢
  rw [ho, hi]
  exact h

theorem afterResponse_storing (s : ExecState) : (afterResponse s).pc.storing = none := by
  unfold afterResponse
  split <;> rfl

theorem afterWait_same (k : Wait) (status : BitVec 16) (s : ExecState) :
    (afterWait k status s).pc.storing = none ∧ (afterWait k status s).owed = s.owed ∧
      (afterWait k status s).host.intrStatus = s.host.intrStatus := by
  cases k with
  | command =>
    simp only [afterWait]
    split
    · exact ⟨rfl, rfl, rfl⟩
    · split
      · exact ⟨rfl, rfl, rfl⟩
      · exact ⟨afterResponse_storing _, rfl, rfl⟩
  | transfer =>
    simp only [afterWait]
    split
    · exact ⟨rfl, rfl, rfl⟩
    · split
      · exact ⟨rfl, rfl, rfl⟩
      · split <;> exact ⟨rfl, rfl, rfl⟩

theorem judge_same (k : Wait) (status : BitVec 16) (s : ExecState) :
    (judge k status s).pc.storing = none ∧ (judge k status s).owed = s.owed ∧
      (judge k status s).host.intrStatus = s.host.intrStatus := by
  unfold judge
  split
  · exact afterWait_same k 0#16 _
  · split
    · exact afterWait_same k 0#16 _
    · exact afterWait_same k status s

theorem mainStep_kept {s s' : ExecState} (h : Kept s) (hst : mainStep s = some s') : Kept s' := by
  unfold mainStep at hst
  cases hpc : s.pc with
  | idle => rw [hpc] at hst; cases hst
  | clear =>
    simp only [hpc] at hst
    cases hst
    exact BitVec.zero_and
  | start =>
    simp only [hpc] at hst
    split at hst <;> (cases hst; exact h.same (by rw [hpc]; rfl) rfl rfl rfl)
  | inhibit su timeout =>
    cases timeout with
    | zero =>
      simp only [hpc] at hst
      cases hst
      exact h.same (by rw [hpc]; rfl) rfl rfl rfl
    | succ timeout =>
      simp only [hpc] at hst
      cases hst
      exact h.same (by rw [hpc]; rfl) (by simp only; split <;> rfl) rfl rfl
  | issue su =>
    simp only [hpc] at hst
    cases hst
    exact h.same (by rw [hpc]; rfl) rfl rfl rfl
  | waitStatus k =>
    simp only [hpc] at hst
    cases hst
    exact h.same (by rw [hpc]; rfl) rfl rfl rfl
  | waitTest k timo status =>
    cases timo with
    | zero =>
      simp only [hpc] at hst
      cases hst
      exact h.same (by rw [hpc]; rfl) rfl rfl rfl
    | succ timo =>
      simp only [hpc] at hst
      cases hst
      exact h.same (by rw [hpc]; rfl) (by simp only; split <;> rfl) rfl rfl
  | waitLoad k =>
    simp only [hpc] at hst
    cases hst
    exact h.same (by rw [hpc]; rfl) rfl rfl rfl
  | clearLoad k status =>
    simp only [hpc] at hst
    cases hst
    simp only [Kept, hpc, Pc.storing, ExecState.lostBits] at h ⊢
    exact consume_eq_zero h
  | clearStore k status v =>
    simp only [hpc] at hst
    cases hst
    simp only [Kept, hpc, Pc.storing, ExecState.lostBits, storeStatus] at h ⊢
    exact h
  | judge k status =>
    simp only [hpc] at hst
    cases hst
    obtain ⟨h1, h2, h3⟩ := judge_same k status s
    exact h.same (by rw [hpc]; rfl) h1 h2 h3
  | response i =>
    simp only [hpc] at hst
    split at hst <;> cases hst
    · exact h.same (by rw [hpc]; rfl) rfl rfl rfl
    · exact h.same (by rw [hpc]; rfl) (afterResponse_storing _) rfl rfl
  | dma =>
    simp only [hpc] at hst
    cases hst
    exact h.same (by rw [hpc]; rfl) rfl rfl rfl
  | finish error =>
    simp only [hpc] at hst
    cases hst
    exact h.same (by rw [hpc]; rfl) rfl rfl rfl

/-- The handler keeps what is owed, unless it posts into the window. -/
theorem sdhcIrq_kept {s : ExecState} (h : Kept s) (hw : Whole s .irq) : Kept (sdhcIrq s) := by
  have hst : (sdhcIrq s).host.intrStatus = s.host.intrStatus ||| postedBits s.ctl :=
    sdhcIntr_intrStatus _ _
  cases hv : s.pc.storing with
  | none =>
    simp only [Kept, hv, ExecState.lostBits] at h
    have hv' : (sdhcIrq s).pc.storing = none := hv
    simp only [Kept, hv', ExecState.lostBits, hst]
    refine or_clear_eq_zero.mpr ⟨clear_or_eq_zero h, ?_⟩
    rw [BitVec.or_comm]
    exact clear_or_eq_zero (BitVec.and_not_self _)
  | some v =>
    simp only [Kept, hv] at h
    have hv' : (sdhcIrq s).pc.storing = some v := hv
    simp only [Kept, hv']
    exact or_clear_eq_zero.mpr ⟨h, hw rfl v hv⟩

theorem execStep_kept {s s' : ExecState} {a : Act} (h : Kept s) (hw : Whole s a)
    (hst : execStep s a = some s') : Kept s' := by
  cases a with
  | call cmd =>
    simp only [execStep, startCall] at hst
    split at hst
    · next hpc =>
      cases hst
      refine h.same (by rw [hpc]; rfl) rfl rfl ?_
      simp only
      split <;> rfl
    · cases hst
  | main => exact mainStep_kept h hst
  | irq => cases hst; exact sdhcIrq_kept h hw
  | complete d resp =>
    cases d <;> (obtain ⟨i, -, rfl⟩ := Option.map_eq_some_iff.mp hst; exact h)
  | giveUp d => cases hst; exact h
  | raise bits errors =>
    simp only [execStep, raise] at hst
    split at hst
    · cases hst
    · cases hst; exact h

/-- The store after a post into the window. -/
theorem store_lost {s : ExecState} (h : Kept s) {v : BitVec 16} (hv : s.pc.storing = some v) :
    ∃ s', mainStep (sdhcIrq s) = some s' ∧ s'.lostBits = postedBits s.ctl &&& ~~~v := by
  simp only [Kept, hv] at h
  cases hpc : s.pc with
  | clearStore k status u =>
    rw [hpc, Pc.storing, Option.some.injEq] at hv
    subst hv
    have hpc' : (sdhcIrq s).pc = .clearStore k status u := hpc
    refine ⟨_, by rw [mainStep, hpc'], ?_⟩
    change (s.owed ||| postedBits s.ctl) &&& ~~~u = _
    rw [BitVec.and_or_distrib_right, h, BitVec.zero_or]
  | _ => rw [hpc] at hv; cases hv

/-- **No event is lost** outside the window of `hp->intr_status &= ~status`: in every run in which
the handler posts into the window only bits that are stored, nothing is lost when no such store is
under way, and what the next post into the window loses are its bits that are not stored. -/
theorem events_kept {s : ExecState} (hs : execMachine.ReachWhere Whole s) :
    (s.pc.storing = none → s.lostBits = 0#16) ∧
      ∀ v, s.pc.storing = some v → ∃ s', execMachine.exec s [.irq, .main] = some s' ∧
        (s'.lostBits = 0#16 ↔ Whole s .irq) := by
  have hk : Kept s := by
    refine hs.invariant (fun t h => ?_) fun _ _ _ h hw hst => execStep_kept h hw hst
    obtain ⟨hpc, -, -, -, -, -, -, howed, -⟩ := h
    simp only [Kept, hpc, Pc.storing, ExecState.lostBits, howed]
    exact BitVec.zero_and
  refine ⟨fun hn => by simpa only [Kept, hn] using hk, fun v hv => ?_⟩
  obtain ⟨s', hst, hlost⟩ := store_lost hk hv
  refine ⟨s', by simp only [Machine.exec, execMachine, execStep, Option.bind_some, hst], ?_⟩
  rw [hlost]
  refine ⟨fun h _ u hu => ?_, fun h => h rfl v hv⟩
  rw [Option.mem_def, hv, Option.some.injEq] at hu
  exact hu ▸ h

/-- A read: COMMAND_COMPLETE is consumed, then the transfer ends. -/
def commandTaken : List Act :=
  List.flatten [[.call readTwo], List.replicate 4 .main, [.complete .command 0x900#128, .irq],
    List.replicate 6 .main, [.complete .transfer 0#128, .irq]]

/-- In that run TRANSFER_COMPLETE is posted after the store and still there. -/
theorem events_kept_read :
    ∃ s, execMachine.execWhere Whole initialState commandTaken = some s ∧
      s.host.intrStatus = sdhcTransferComplete ∧ s.lostBits = 0#16 := by
  have hrun : (execMachine.execWhere Whole initialState commandTaken).map (fun s =>
      (s.pc.storing, s.host.intrStatus)) = some (none, sdhcTransferComplete) := by decide +kernel
  obtain ⟨s, hs, heq⟩ := Option.map_eq_some_iff.mp hrun
  obtain ⟨hpc, hst⟩ := Prod.mk.inj heq
  have hreach : execMachine.ReachWhere Whole s :=
    Machine.ReachWhere.execWhere (.init ⟨rfl, rfl, rfl, by decide, rfl, rfl, rfl, rfl, rfl⟩) hs
  exact ⟨s, hs, hst, (events_kept hreach).1 hpc⟩

/-- TRANSFER_COMPLETE is posted while COMMAND_COMPLETE is taken out of `intr_status`. -/
def postedBetween : List Act :=
  List.flatten [[.call readTwo], List.replicate 4 .main, [.complete .command 0x900#128, .irq],
    List.replicate 4 .main, [.complete .transfer 0#128, .irq, .main]]

/-- It is lost: the controller has been acknowledged, and `intr_status` is empty. -/
theorem transferComplete_lost :
    (∃ s, execMachine.exec initialState postedBetween = some s ∧ s.pc.storing = none ∧
      s.host.intrStatus = 0#16 ∧ s.ctl.nintrStatus = 0#16 ∧ s.lostBits = sdhcTransferComplete) ∧
      ¬∀ s, execMachine.Reach s → s.pc.storing = none → s.lostBits = 0#16 := by
  have hrun : (execMachine.exec initialState postedBetween).map (fun s =>
      (s.pc.storing, s.host.intrStatus, s.ctl.nintrStatus, s.lostBits)) =
      some (none, 0#16, 0#16, sdhcTransferComplete) := by decide +kernel
  obtain ⟨s, hs, heq⟩ := Option.map_eq_some_iff.mp hrun
  simp only [Prod.mk.injEq] at heq
  obtain ⟨hpc, hst, hn, hlost⟩ := heq
  refine ⟨⟨s, hs, hpc, hst, hn, hlost⟩, fun h => ?_⟩
  have hboot : execMachine.Reach initialState :=
    .init ⟨rfl, rfl, rfl, by decide, rfl, rfl, rfl, rfl, rfl⟩
  have hzero := h s (hboot.exec hs) hpc
  rw [hlost] at hzero
  cases hzero

end VwiiNandTools.Sdhc
