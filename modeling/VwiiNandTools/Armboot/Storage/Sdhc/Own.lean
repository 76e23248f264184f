import VwiiNandTools.Armboot.Storage.Sdhc.Exec

/-!
# A success belongs to its own command

`sdhc_exec_command` clears `intr_status` before it waits for the lines to become free and writes its
command.  A completion of an earlier command that is posted in between, or that is still pending in
the controller at the write, is taken for one of the new command.  When there is none at the write
(`Fresh`), every call that returns without an error has consumed completions and stored response
words of its own command (`execCommand_own`).

The invariant: from the write to the end of the call the lines, the pending and the posted
completions are of the running call (`Own`), the event lists say what the status bits say (`Tags`),
and what the main thread holds in registers is of the running call, too (`Local`).
-/

namespace VwiiNandTools.Sdhc

open Sdmmc Transition

/-! ## The property -/

/-- Completions of call `n`, at least one. -/
def OfCall (n : ℕ) (l : List ℕ) : Prop := l ≠ [] ∧ ∀ i ∈ l, i = n

/-- A call that succeeded consumed completions of its own command, and stored its own response. -/
def Result.Own (useDma : Bool) (r : Result) : Prop :=
  r.error = 0 →
    OfCall r.call r.command ∧ (∀ w ∈ r.cResp, w.1 = r.call) ∧
      (∀ l, r.transfer = some l → OfCall r.call l) ∧
      (r.cmd.hasData = true → useDma = true → r.transfer.isSome = true)

/-- A completion that the command waits for. -/
def Relevant (cmd : SdmmcCommand) (d : Done) : Prop := d = .command ∨ cmd.hasData = true

/-- No completion of a kind is posted or pending. -/
def NoneLeft (d : Done) (s : ExecState) : Prop :=
  isset s.host.intrStatus d.bit = false ∧ isset s.ctl.nintrStatus d.bit = false

def Act.isMain : Act → Bool
  | .main => true
  | _ => false

def Pc.isIssue : Pc → Bool
  | .issue _ => true
  | _ => false

/-- When the COMMAND register is written, no completion the command waits for is posted or
pending. -/
def Fresh (s : ExecState) (a : Act) : Prop :=
  a.isMain = true → s.pc.isIssue = true →
    NoneLeft .command s ∧ (s.cmd.hasData = true → NoneLeft .transfer s)

instance (d : Done) (s : ExecState) : Decidable (NoneLeft d s) := inferInstanceAs (Decidable (_ ∧ _))

instance (s : ExecState) (a : Act) : Decidable (Fresh s a) :=
  inferInstanceAs (Decidable (_ → _ → _ ∧ (_ → _)))

/-! ## The invariant -/

/-- The lists of events and the bits. -/
structure Tags (s : ExecState) : Prop where
  latched_bit : ∀ e ∈ s.latched, isset s.ctl.nintrStatus e.kind.bit = true
  latched_of : ∀ d : Done, isset s.ctl.nintrStatus d.bit = true → ∃ e ∈ s.latched, e.kind = d
  posted_bit : ∀ e ∈ s.posted, isset s.host.intrStatus e.kind.bit = true
  posted_of : ∀ d : Done, isset s.host.intrStatus d.bit = true → ∃ e ∈ s.posted, e.kind = d

/-- From the write of the COMMAND register to the end of the last wait. -/
def Pc.issued : Pc → Bool
  | .waitStatus _ | .waitTest .. | .waitLoad _ | .clearLoad .. | .clearStore .. | .judge .. => true
  | .response _ | .dma => true
  | _ => false

/-- What the controller and `intr_status` hold is of the running call. -/
structure Own (s : ExecState) : Prop where
  cmdLine : ∀ i, s.ctl.cmdLine = some i → i = s.call
  datLine : ∀ i, s.ctl.datLine = some i → i = s.call
  events : ∀ e ∈ s.latched ++ s.posted, Relevant s.cmd e.kind → e.call = s.call
  response : (∃ e ∈ s.latched ++ s.posted, e.kind = .command) → s.ctl.responseOf = s.call

/-- What the call has so far when it waits. -/
structure Got (k : Wait) (s : ExecState) : Prop where
  transfer : s.transfer = none
  cResp : ∀ w ∈ s.cResp, w.1 = s.call
  command : k = .transfer → OfCall s.call s.command ∧ s.cmd.hasData = true

/-- What stands behind the status value in hand. -/
structure Backed (k : Wait) (status : BitVec 16) (s : ExecState) : Prop where
  command : k = .command → isset status sdhcCommandComplete = true →
    OfCall s.call (callsOf .command s.seen) ∧ s.ctl.responseOf = s.call
  transfer : k = .transfer → isset status sdhcTransferComplete = true →
    OfCall s.call (callsOf .transfer s.seen)

/-- The call's `Result` as it stands. -/
def ExecState.result (s : ExecState) (error : ℤ) : Result :=
  { call := s.call, cmd := s.cmd, error := error, command := s.command, cResp := s.cResp,
    transfer := s.transfer }

/-- What the main thread holds, by its program counter. -/
def Local (s : ExecState) : Prop :=
  match s.pc with
  | .idle => True
  | .clear | .start | .inhibit .. => s.transfer = none ∧ s.cResp = []
  | .issue _ =>
    (s.transfer = none ∧ s.cResp = []) ∧ s.ctl.cmdLine = none ∧ s.ctl.datLine = none
  | .waitStatus k | .waitLoad k => Got k s
  | .waitTest k _ status | .clearLoad k status | .judge k status => Got k s ∧ Backed k status s
  | .clearStore k status v =>
    (Got k s ∧ Backed k status s) ∧
      ∀ d : Done, isset v d.bit = true → isset s.host.intrStatus d.bit = true
  | .response _ =>
    Got .command s ∧ OfCall s.call s.command ∧ s.ctl.responseOf = s.call
  | .dma => Got .transfer s
  | .finish error => (s.result error).Own s.host.useDma

structure Inv (s : ExecState) : Prop where
  tags : Tags s
  own : s.pc.issued = true → Own s
  loc : Local s
  results : ∀ r ∈ s.results, r.Own s.host.useDma

/-! ## The controller and the handler -/

/-- What a step of the controller or of the handler may change. -/
structure EnvStep (s s' : ExecState) : Prop where
  rest : s' = { s with ctl := s'.ctl, host := s'.host, latched := s'.latched, posted := s'.posted,
                       owed := s'.owed }
  useDma : s'.host.useDma = s.host.useDma
  cmdLine : ∀ i, s'.ctl.cmdLine = some i → s.ctl.cmdLine = some i
  datLine : ∀ i, s'.ctl.datLine = some i → s.ctl.datLine = some i
  events : ∀ e ∈ s'.latched ++ s'.posted, e ∈ s.latched ++ s.posted ∨
    (s.ctl.cmdLine = some e.call ∧ s'.ctl.responseOf = e.call) ∨
    (s.ctl.datLine = some e.call ∧ e.kind = .transfer)
  responseOf : s'.ctl.responseOf = s.ctl.responseOf ∨ s.ctl.cmdLine = some s'.ctl.responseOf
  status : ∀ d : Done, isset s.host.intrStatus d.bit = true → isset s'.host.intrStatus d.bit = true

theorem EnvStep.own {s s' : ExecState} (h : EnvStep s s') (ho : Own s) : Own s' := by
  have hcall : s'.call = s.call := by rw [h.rest]
  have hcmd : s'.cmd = s.cmd := by rw [h.rest]
  refine ⟨fun i hi => ?_, fun i hi => ?_, fun e he hrel => ?_, fun ⟨e, he, hk⟩ => ?_⟩
  · rw [hcall]; exact ho.cmdLine i (h.cmdLine i hi)
  · rw [hcall]; exact ho.datLine i (h.datLine i hi)
  · rw [hcall]
    rw [hcmd] at hrel
    rcases h.events e he with h' | ⟨h', -⟩ | ⟨h', -⟩
    · exact ho.events e h' hrel
    · exact ho.cmdLine _ h'
    · exact ho.datLine _ h'
  · rw [hcall]
    rcases h.events e he with h' | ⟨h', hr⟩ | ⟨-, hk'⟩
    · rcases h.responseOf with hr | hr
      · rw [hr]; exact ho.response ⟨e, h', hk⟩
      · exact ho.cmdLine _ hr
    · rw [hr]; exact ho.cmdLine _ h'
    · rw [hk] at hk'
      cases hk'

theorem EnvStep.responseOf_eq {s s' : ExecState} (h : EnvStep s s') (ho : Own s)
    (hr : s.ctl.responseOf = s.call) : s'.ctl.responseOf = s.call := by
  rcases h.responseOf with h' | h'
  · rw [h', hr]
  · exact ho.cmdLine _ h'

theorem EnvStep.loc {s s' : ExecState} (h : EnvStep s s') (ho : s.pc.issued = true → Own s)
    (hl : Local s) : Local s' := by
  have hresp := h.responseOf_eq
  have huse := h.useDma
  have hc : s.ctl.cmdLine = none → s'.ctl.cmdLine = none := by
    intro hn
    by_contra hne
    obtain ⟨i, hi⟩ := Option.ne_none_iff_exists'.mp hne
    rw [h.cmdLine i hi] at hn
    cases hn
  have hd : s.ctl.datLine = none → s'.ctl.datLine = none := by
    intro hn
    by_contra hne
    obtain ⟨i, hi⟩ := Option.ne_none_iff_exists'.mp hne
    rw [h.datLine i hi] at hn
    cases hn
  have hstatus := h.status
  rw [h.rest]
  have hbacked : ∀ pc k status, s.pc.issued = true → Backed k status s → Backed k status
      { s with pc := pc, ctl := s'.ctl, host := s'.host, latched := s'.latched, posted := s'.posted,
               owed := s'.owed } := fun pc k status hi hb =>
    ⟨fun hk hst => ⟨(hb.command hk hst).1, hresp (ho hi) (hb.command hk hst).2⟩,
      fun hk hst => hb.transfer hk hst⟩
  have hgot : ∀ pc k, Got k s → Got k
      { s with pc := pc, ctl := s'.ctl, host := s'.host, latched := s'.latched, posted := s'.posted,
               owed := s'.owed } := fun pc k hg => ⟨hg.transfer, hg.cResp, hg.command⟩
  unfold Local at hl ⊢
  simp only
  cases hpc : s.pc with
  | idle => trivial
  | clear | start | inhibit => simp only [hpc] at hl; exact hl
  | issue =>
    simp only [hpc] at hl
    exact ⟨hl.1, hc hl.2.1, hd hl.2.2⟩
  | waitStatus k | waitLoad k => simp only [hpc] at hl; exact hgot _ k hl
  | waitTest k _ status | clearLoad k status | judge k status =>
    simp only [hpc] at hl
    exact ⟨hgot _ k hl.1, hbacked _ k status (by rw [hpc]; rfl) hl.2⟩
  | clearStore k status v =>
    simp only [hpc] at hl
    exact ⟨⟨hgot _ k hl.1.1, hbacked _ k status (by rw [hpc]; rfl) hl.1.2⟩,
      fun d hv => hstatus d (hl.2 d hv)⟩
  | response i =>
    simp only [hpc] at hl
    exact ⟨hgot _ _ hl.1, hl.2.1, hresp (ho (by rw [hpc]; rfl)) hl.2.2⟩
  | dma => simp only [hpc] at hl; exact hgot _ _ hl
  | finish error =>
    simp only [hpc] at hl
    rw [huse]
    exact hl

theorem EnvStep.inv {s s' : ExecState} (h : EnvStep s s') (ht : Tags s') (hi : Inv s) : Inv s' := by
  have hpc : s'.pc = s.pc := by rw [h.rest]
  have hres : s'.results = s.results := by rw [h.rest]
  refine ⟨ht, fun hp => h.own (hi.own (hpc ▸ hp)), h.loc hi.own hi.loc, ?_⟩
  rw [hres, h.useDma]
  exact hi.results

theorem sdhcIrq_env (s : ExecState) : EnvStep s (sdhcIrq s) := by
  have hcalm := sdhcIntr_calmer s.ctl s.host
  refine ⟨rfl, sdhcIntr_useDma _ _, fun i hi => ?_, fun i hi => ?_, fun e he => Or.inl ?_,
    Or.inl hcalm.responseOf, fun d hd => ?_⟩
  · have hi' : (sdhcIntr s.ctl s.host).ctl.cmdLine = some i := hi
    rcases hcalm.cmdLine with h | h <;> rw [h] at hi'
    · exact hi'
    · cases hi'
  · have hi' : (sdhcIntr s.ctl s.host).ctl.datLine = some i := hi
    rcases hcalm.datLine with h | h <;> rw [h] at hi'
    · exact hi'
    · cases hi'
  · have he' : e ∈ s.posted ++ s.latched := he
    rw [List.mem_append] at he' ⊢
    exact he'.symm
  · have h := sdhcIntr_intrStatus s.ctl s.host
    simp only [sdhcIrq, h, isset_or, hd, Bool.true_or]

theorem sdhcIrq_tags {s : ExecState} (h : Tags s) : Tags (sdhcIrq s) := by
  have hst : ∀ d : Done, isset (sdhcIrq s).host.intrStatus d.bit =
      (isset s.host.intrStatus d.bit || isset s.ctl.nintrStatus d.bit) := by
    intro d
    simp only [sdhcIrq, sdhcIntr_intrStatus, isset_or, isset_postedBits]
  refine ⟨fun e he => absurd he List.not_mem_nil, fun d hd => ?_, fun e he => ?_, fun d hd => ?_⟩
  · exact absurd hd (by simp only [sdhcIrq, sdhcIntr_done]; decide)
  · rw [hst]
    rcases List.mem_append.mp he with h' | h'
    · rw [h.posted_bit e h', Bool.true_or]
    · rw [h.latched_bit e h', Bool.or_true]
  · rw [hst, Bool.or_eq_true] at hd
    rcases hd with hd | hd
    · obtain ⟨e, he, hk⟩ := h.posted_of d hd
      exact ⟨e, List.mem_append.mpr (Or.inl he), hk⟩
    · obtain ⟨e, he, hk⟩ := h.latched_of d hd
      exact ⟨e, List.mem_append.mpr (Or.inr he), hk⟩

/-- Raising a completion keeps the lists and the bits together. -/
theorem raised_tags {s : ExecState} (h : Tags s) (c : Controller) (d : Done) (i : ℕ)
    (hc : c.intrWord = s.ctl.intrWord ||| d.bit.setWidth 32) :
    Tags { s with ctl := c, latched := s.latched ++ [⟨d, i⟩] } := by
  have hst : ∀ d' : Done, isset c.nintrStatus d'.bit =
      (isset s.ctl.nintrStatus d'.bit || decide (d = d')) := by
    intro d'
    rw [Controller.nintrStatus, hc, read2_or_low, isset_or, isset_bit, ← Controller.nintrStatus]
  refine ⟨fun e he => ?_, fun d' hd => ?_, h.posted_bit, h.posted_of⟩
  · change isset c.nintrStatus _ = true
    rw [hst]
    rcases List.mem_append.mp he with h' | h'
    · rw [h.latched_bit e h', Bool.true_or]
    · rw [List.mem_singleton.mp h', decide_eq_true rfl, Bool.or_true]
  · have hd' : isset c.nintrStatus d'.bit = true := hd
    rw [hst, Bool.or_eq_true, decide_eq_true_eq] at hd'
    rcases hd' with hd' | rfl
    · obtain ⟨e, he, hk⟩ := h.latched_of d' hd'
      exact ⟨e, List.mem_append.mpr (Or.inl he), hk⟩
    · exact ⟨⟨d, i⟩, List.mem_append.mpr (Or.inr (List.mem_singleton.mpr rfl)), rfl⟩

theorem mem_raised {l p : List Event} {e x : Event} (he : e ∈ l ++ [x] ++ p) :
    e ∈ l ++ p ∨ e = x := by
  rw [List.mem_append, List.mem_append] at he
  rcases he with (he | he) | he
  · exact Or.inl (List.mem_append.mpr (Or.inl he))
  · exact Or.inr (List.mem_singleton.mp he)
  · exact Or.inl (List.mem_append.mpr (Or.inr he))

theorem complete_inv {s s' : ExecState} {d : Done} {resp : BitVec 128} (h : Inv s)
    (hst : complete d resp s = some s') : Inv s' := by
  cases d with
  | command =>
    obtain ⟨i, hi, rfl⟩ := Option.map_eq_some_iff.mp hst
    refine EnvStep.inv ⟨rfl, rfl, fun j hj => ?_, fun j hj => hj, fun e he => ?_, Or.inr hi,
      fun d hd => hd⟩ (raised_tags h.tags _ .command i rfl) h
    · cases hj
    · rcases mem_raised he with hold | rfl
      · exact Or.inl hold
      · exact Or.inr (Or.inl ⟨hi, rfl⟩)
  | transfer =>
    obtain ⟨i, hi, rfl⟩ := Option.map_eq_some_iff.mp hst
    refine EnvStep.inv ⟨rfl, rfl, fun j hj => hj, fun j hj => ?_, fun e he => ?_, Or.inl rfl,
      fun d hd => hd⟩ (raised_tags h.tags _ .transfer i rfl) h
    · cases hj
    · rcases mem_raised he with hold | rfl
      · exact Or.inl hold
      · exact Or.inr (Or.inr ⟨hi, rfl⟩)

theorem giveUp_inv {s : ExecState} (d : Done) (h : Inv s) :
    Inv { s with ctl := giveUp d s.ctl } := by
  have htags : Tags { s with ctl := giveUp d s.ctl } := by
    cases d <;> exact ⟨h.tags.latched_bit, h.tags.latched_of, h.tags.posted_bit, h.tags.posted_of⟩
  refine EnvStep.inv ⟨rfl, rfl, fun i hi => ?_, fun i hi => ?_, fun e he => Or.inl he, Or.inl ?_,
    fun d hd => hd⟩ htags h
  · cases d
    · cases hi
    · exact hi
  · cases d
    · exact hi
    · cases hi
  · cases d <;> rfl

theorem raise_inv {s s' : ExecState} {bits errors : BitVec 16} (h : Inv s)
    (hst : raise bits errors s = some s') : Inv s' := by
  unfold raise at hst
  split at hst
  · cases hst
  · next hbits =>
    cases hst
    simp only [Bool.or_eq_true, not_or, Bool.not_eq_true] at hbits
    have hb : ∀ d : Done, isset bits d.bit = false := by
      intro d
      cases d
      · exact hbits.1
      · exact hbits.2
    have hst : ∀ d : Done, isset (read2 false (s.ctl.intrWord ||| bits.setWidth 32 |||
        errors.setWidth 32 <<< 16)) d.bit = isset s.ctl.nintrStatus d.bit := by
      intro d
      rw [read2_or_high, read2_or_low, isset_or, hb, Bool.or_false]
      rfl
    refine EnvStep.inv ⟨rfl, rfl, fun i hi => hi, fun i hi => hi, fun e he => Or.inl he,
      Or.inl rfl, fun d hd => hd⟩ ⟨fun e he => ?_, fun d hd => ?_, h.tags.posted_bit,
      h.tags.posted_of⟩ h
    · exact (hst e.kind).trans (h.tags.latched_bit e he)
    · exact h.tags.latched_of d ((hst d).symm.trans hd)

/-! ## The main thread -/

theorem storeStatus_tags {s : ExecState} {v : BitVec 16} (h : Tags s)
    (hv : ∀ d : Done, isset v d.bit = true → isset s.host.intrStatus d.bit = true) :
    Tags (storeStatus v s) := by
  refine ⟨h.latched_bit, h.latched_of, fun e he => (List.mem_filter.mp he).2, fun d hd => ?_⟩
  obtain ⟨e, he, rfl⟩ := h.posted_of d (hv d hd)
  exact ⟨e, List.mem_filter.mpr ⟨he, hd⟩, rfl⟩

/-- Fewer posted events, and a calmer controller, are still of the running call. -/
theorem Own.shrink {s s' : ExecState} (h : Own s) (hcall : s'.call = s.call) (hcmd : s'.cmd = s.cmd)
    (hc : s'.ctl.cmdLine = s.ctl.cmdLine ∨ s'.ctl.cmdLine = none)
    (hd : s'.ctl.datLine = s.ctl.datLine ∨ s'.ctl.datLine = none)
    (hr : s'.ctl.responseOf = s.ctl.responseOf)
    (he : ∀ e ∈ s'.latched ++ s'.posted, e ∈ s.latched ++ s.posted) : Own s' := by
  refine ⟨fun i hi => ?_, fun i hi => ?_, fun e h' hrel => ?_, fun ⟨e, h', hk⟩ => ?_⟩
  · rcases hc with hc | hc <;> rw [hc] at hi
    · rw [hcall]; exact h.cmdLine i hi
    · cases hi
  · rcases hd with hd | hd <;> rw [hd] at hi
    · rw [hcall]; exact h.datLine i hi
    · cases hi
  · rw [hcall]
    exact h.events e (he e h') (hcmd ▸ hrel)
  · rw [hcall, hr]
    exact h.response ⟨e, he e h', hk⟩

theorem storeStatus_own {s : ExecState} {v : BitVec 16} (h : Own s) : Own (storeStatus v s) :=
  h.shrink rfl rfl (Or.inl rfl) (Or.inl rfl) rfl fun _ he => by
    rcases List.mem_append.mp he with h' | h'
    · exact List.mem_append.mpr (Or.inl h')
    · exact List.mem_append.mpr (Or.inr (List.mem_filter.mp h').1)

/-- A status value loaded from `intr_status` is backed by what is posted. -/
theorem load_backed {s : ExecState} (ht : Tags s) (ho : Own s) {k : Wait} (hg : Got k s) :
    Backed k (s.host.intrStatus &&& k.mask) { s with seen := s.posted } := by
  have hcalls : ∀ d : Done, Relevant s.cmd d → isset (s.host.intrStatus &&& k.mask) d.bit = true →
      OfCall s.call (callsOf d s.posted) ∧ ∃ e ∈ s.posted, e.kind = d := by
    intro d hrel hd
    rw [isset_done_and, Bool.and_eq_true] at hd
    obtain ⟨e, he, hk⟩ := ht.posted_of d hd.1
    refine ⟨⟨List.ne_nil_of_mem (a := e.call) ?_, fun i hi => ?_⟩, e, he, hk⟩
    · exact List.mem_map.mpr ⟨e, List.mem_filter.mpr ⟨he, decide_eq_true hk⟩, rfl⟩
    · obtain ⟨e', he', rfl⟩ := List.mem_map.mp hi
      obtain ⟨he', hk'⟩ := List.mem_filter.mp he'
      refine ho.events e' (List.mem_append.mpr (Or.inr he')) ?_
      rw [of_decide_eq_true hk']
      exact hrel
  refine ⟨fun _ hst => ?_, fun hk hst => (hcalls .transfer (Or.inr (hg.command hk).2) hst).1⟩
  obtain ⟨hown, e, he, hk⟩ := hcalls .command (Or.inl rfl) hst
  exact ⟨hown, ho.response ⟨e, List.mem_append.mpr (Or.inr he), hk⟩⟩

section Main

variable {s s' : ExecState}

/-- What the main thread shares with the controller and the handler, and the command it waits
for. -/
def ExecState.shared (s : ExecState) :
    Controller × BitVec 16 × List Event × List Event × ℕ × SdmmcCommand :=
  (s.ctl, s.host.intrStatus, s.latched, s.posted, s.call, s.cmd)

theorem Tags.of_shared (h : Tags s) (hs : s'.shared = s.shared) : Tags s' := by
  simp only [ExecState.shared, Prod.mk.injEq] at hs
  obtain ⟨hctl, hintr, hlat, hpost, -, -⟩ := hs
  refine ⟨?_, ?_, ?_, ?_⟩
  · rw [hlat, hctl]
    exact h.latched_bit
  · rw [hlat, hctl]
    exact h.latched_of
  · rw [hpost, hintr]
    exact h.posted_bit
  · rw [hpost, hintr]
    exact h.posted_of

theorem Own.of_shared (h : Own s) (hs : s'.shared = s.shared) : Own s' := by
  simp only [ExecState.shared, Prod.mk.injEq] at hs
  obtain ⟨hctl, -, hlat, hpost, hcall, hcmd⟩ := hs
  refine h.shrink hcall hcmd (Or.inl (by rw [hctl])) (Or.inl (by rw [hctl])) (by rw [hctl]) ?_
  rw [hlat, hpost]
  exact fun _ he => he

theorem fail_inv (ht : Tags s) (hr : ∀ r ∈ s.results, r.Own s.host.useDma) {e : ℤ} (he : e ≠ 0) :
    Inv { s with pc := .finish e } :=
  ⟨ht.of_shared rfl, (nomatch ·), fun h => absurd h he, hr⟩

/-- The call has its completion and its response. -/
theorem afterResponse_inv (ht : Tags s) (ho : Own s) (hr : ∀ r ∈ s.results, r.Own s.host.useDma)
    (hcmd : OfCall s.call s.command) (hresp : ∀ w ∈ s.cResp, w.1 = s.call)
    (hnone : s.transfer = none) : Inv (afterResponse s) := by
  unfold afterResponse
  by_cases hd : s.cmd.hasData = true ∧ s.host.useDma = true
  · rw [if_pos hd]
    exact ⟨ht.of_shared rfl, fun _ => ho.of_shared rfl,
      ⟨hnone, hresp, fun _ => ⟨hcmd, hd.1⟩⟩, hr⟩
  · rw [if_neg hd]
    refine ⟨ht.of_shared rfl, (nomatch ·),
      fun _ => ⟨hcmd, hresp, fun l hl => ?_, fun h1 h2 => absurd ⟨h1, h2⟩ hd⟩, hr⟩
    have hl' : s.transfer = some l := hl
    rw [hnone] at hl'
    cases hl'

/-- The value `sdhc_wait_intr_debug` returns is in the right hands. -/
theorem afterWait_inv (ht : Tags s) (ho : Own s) (hr : ∀ r ∈ s.results, r.Own s.host.useDma)
    {k : Wait} {status : BitVec 16} (hg : Got k s) (hb : Backed k status s) :
    Inv (afterWait k status s) := by
  cases k with
  | command =>
    simp only [afterWait]
    by_cases hcc : isset status sdhcCommandComplete = true
    · rw [if_neg (not_not.mpr hcc)]
      obtain ⟨hown, hrof⟩ := hb.command rfl hcc
      by_cases hp : isset s.cmd.flags scfRspPresent = true
      · rw [if_pos hp]
        exact ⟨ht.of_shared rfl, fun _ => ho.of_shared rfl,
          ⟨⟨hg.transfer, hg.cResp, nofun⟩, hown, hrof⟩, hr⟩
      · rw [if_neg hp]
        exact afterResponse_inv (ht.of_shared rfl) (ho.of_shared rfl) hr hown hg.cResp hg.transfer
    · rw [if_pos hcc]
      exact fail_inv ht hr (by decide)
  | transfer =>
    simp only [afterWait]
    obtain ⟨hown, hdata⟩ := hg.command rfl
    by_cases h0 : status = 0#16
    · rw [if_pos h0]
      exact fail_inv ht hr (by decide)
    rw [if_neg h0]
    by_cases htc : isset status sdhcTransferComplete = true
    · rw [if_pos htc]
      refine ⟨ht.of_shared rfl, (nomatch ·),
        fun _ => ⟨hown, hg.cResp, fun l hl => ?_, fun _ _ => rfl⟩, hr⟩
      cases hl
      exact hb.transfer rfl htc
    · rw [if_neg htc]
      split <;>
        exact ⟨ht.of_shared rfl, fun _ => ho.of_shared rfl,
          ⟨hg.transfer, hg.cResp, hg.command⟩, hr⟩

theorem backed_zero (k : Wait) : Backed k 0#16 s := by
  constructor <;> (intro _ h; rw [isset_zero] at h; cases h)

theorem judge_inv (ht : Tags s) (ho : Own s) (hr : ∀ r ∈ s.results, r.Own s.host.useDma)
    {k : Wait} {status : BitVec 16} (hg : Got k s) (hb : Backed k status s) :
    Inv (judge k status s) := by
  unfold judge
  split
  · refine afterWait_inv ?_ ?_ ?_ ?_ (backed_zero k)
    · refine ⟨fun e he => absurd he List.not_mem_nil, fun d hd => ?_, ht.posted_bit, ht.posted_of⟩
      exact absurd hd (by simp only [softReset_done]; decide)
    · exact ho.shrink rfl rfl (Or.inr rfl) (Or.inr rfl) rfl fun e he =>
        List.mem_append.mpr (Or.inr (by simpa using he))
    · exact hr
    · exact ⟨hg.transfer, hg.cResp, hg.command⟩
  · split
    · refine afterWait_inv ?_ ?_ ?_ ?_ (backed_zero k)
      · exact ht.of_shared rfl
      · exact ho.of_shared rfl
      · exact hr
      · exact ⟨hg.transfer, hg.cResp, hg.command⟩
    · exact afterWait_inv ht ho hr hg hb

theorem issue_own {su : Setup} (ht : Tags s) (hd : s.ctl.datLine = none)
    (hf : ∀ d, Relevant s.cmd d → NoneLeft d s) :
    Own { s with ctl := program s.host.useDma s.call s.cmd su s.ctl,
                 pc := .waitStatus .command } := by
  have hnone : ∀ e ∈ s.latched ++ s.posted, ¬Relevant s.cmd e.kind := by
    intro e he hrel
    rcases List.mem_append.mp he with h | h
    · exact absurd (ht.latched_bit e h) (by rw [(hf _ hrel).2]; decide)
    · exact absurd (ht.posted_bit e h) (by rw [(hf _ hrel).1]; decide)
  refine ⟨fun i hi => ?_, fun i hi => ?_, fun e he hrel => absurd hrel (hnone e he),
    fun ⟨e, he, hk⟩ => absurd (Or.inl hk) (hnone e he)⟩
  · exact (Option.some.inj hi).symm
  · simp only [program] at hi
    split at hi
    · exact (Option.some.inj hi).symm
    · rw [hd] at hi
      cases hi

/-- A step that changes nothing that is shared, and no result. -/
theorem Inv.quiet (h : Inv s) (hs : s'.shared = s.shared)
    (hd : s'.host.useDma = s.host.useDma) (hres : s'.results = s.results)
    (hi : s'.pc.issued = true → s.pc.issued = true) (hl : Local s') : Inv s' := by
  refine ⟨h.tags.of_shared hs, fun hp => (h.own (hi hp)).of_shared hs, hl, ?_⟩
  rw [hres, hd]
  exact h.results

theorem clear_inv (h : Inv s) (hpc : s.pc = .clear) :
    Inv { storeStatus 0#16 s with owed := 0#16, pc := .start } := by
  have hl := h.loc
  simp only [Local, hpc] at hl
  have ht := storeStatus_tags (v := 0#16) h.tags fun d hd =>
    absurd hd (by rw [isset_zero]; decide)
  exact ⟨ht.of_shared rfl, (nomatch ·), hl, h.results⟩

theorem start_inv (h : Inv s) (hpc : s.pc = .start) (su : Setup) :
    Inv { s with pc := .inhibit su 500 } := by
  have hl := h.loc
  simp only [Local, hpc] at hl
  exact h.quiet rfl rfl rfl (nomatch ·) hl

theorem inhibit_inv {su : Setup} {timeout : ℕ} (h : Inv s)
    (hpc : s.pc = .inhibit su (timeout + 1)) :
    Inv { s with pc := if s.ctl.inhibited then .inhibit su timeout else .issue su } := by
  have hl := h.loc
  simp only [Local, hpc] at hl
  by_cases hi : s.ctl.inhibited = true
  · rw [if_pos hi]
    exact h.quiet rfl rfl rfl (nomatch ·) hl
  · rw [if_neg hi]
    simp only [Controller.inhibited, Bool.or_eq_true, not_or, Option.not_isSome_iff_eq_none] at hi
    exact h.quiet rfl rfl rfl (nomatch ·) ⟨hl, hi⟩

theorem issue_inv {su : Setup} (h : Inv s) (hf : Fresh s .main) (hpc : s.pc = .issue su) :
    Inv { s with ctl := program s.host.useDma s.call s.cmd su s.ctl,
                 pc := .waitStatus .command } := by
  have hl := h.loc
  simp only [Local, hpc] at hl
  obtain ⟨⟨hnone, hresp⟩, -, hd⟩ := hl
  obtain ⟨hcc, htc⟩ := hf rfl (by rw [hpc]; rfl)
  have hleft : ∀ d, Relevant s.cmd d → NoneLeft d s := by
    intro d hrel
    cases d with
    | command => exact hcc
    | transfer => exact htc (hrel.resolve_left (by decide))
  have ht := h.tags
  refine ⟨⟨ht.latched_bit, ht.latched_of, ht.posted_bit, ht.posted_of⟩,
    fun _ => issue_own ht hd hleft, ⟨hnone, fun w hw => ?_, nofun⟩, h.results⟩
  have hw' : w ∈ s.cResp := hw
  rw [hresp] at hw'
  cases hw'

/-- `intr_status` is read: before the wait, and when the wait has seen it nonzero. -/
theorem load_inv {k : Wait} {pc : Pc} (h : Inv s) (hi : s.pc.issued = true) (hg : Got k s)
    (hpc : pc = .waitTest k (k.timo s.cmd) (s.host.intrStatus &&& k.mask) ∨
      pc = .clearLoad k (s.host.intrStatus &&& k.mask)) :
    Inv { s with pc := pc, seen := s.posted } := by
  have hb := load_backed h.tags (h.own hi) hg
  refine h.quiet rfl rfl rfl (fun _ => hi) ?_
  rcases hpc with rfl | rfl <;>
    exact ⟨⟨hg.transfer, hg.cResp, hg.command⟩, ⟨hb.command, hb.transfer⟩⟩

/-- The timeout bit backs nothing. -/
theorem Backed.timeout {k : Wait} {status : BitVec 16} (h : Backed k status s) :
    Backed k (status ||| sdhcErrorTimeout) s := by
  have hbit : ∀ d : Done, isset (status ||| sdhcErrorTimeout) d.bit = isset status d.bit := by
    intro d
    rw [isset_or]
    cases d <;> simp [isset_done, sdhcErrorTimeout]
  exact ⟨fun hk hst => h.command hk ((hbit .command).symm.trans hst),
    fun hk hst => h.transfer hk ((hbit .transfer).symm.trans hst)⟩

theorem waitTest_inv {k : Wait} {timo : ℕ} {status : BitVec 16} (h : Inv s)
    (hpc : s.pc = .waitTest k timo status) (hst : mainStep s = some s') : Inv s' := by
  have hl := h.loc
  simp only [Local, hpc] at hl
  obtain ⟨hg, hb⟩ := hl
  have hi : s.pc.issued = true := by rw [hpc]; rfl
  unfold mainStep at hst
  cases timo with
  | zero =>
    simp only [hpc] at hst
    cases hst
    have hb' := hb.timeout
    exact h.quiet rfl rfl rfl (fun _ => hi)
      ⟨⟨hg.transfer, hg.cResp, hg.command⟩, ⟨hb'.command, hb'.transfer⟩⟩
  | succ timo =>
    simp only [hpc] at hst
    cases hst
    refine h.quiet rfl rfl rfl (fun _ => hi) ?_
    split
    · exact ⟨hg.transfer, hg.cResp, hg.command⟩
    · exact ⟨⟨hg.transfer, hg.cResp, hg.command⟩, ⟨hb.command, hb.transfer⟩⟩

theorem clearLoad_inv {k : Wait} {status : BitVec 16} (h : Inv s)
    (hpc : s.pc = .clearLoad k status) :
    Inv { s with pc := .clearStore k status (s.host.intrStatus &&& ~~~status),
                 owed := s.owed &&& ~~~status } := by
  have hl := h.loc
  simp only [Local, hpc] at hl
  obtain ⟨hg, hb⟩ := hl
  refine h.quiet rfl rfl rfl (fun _ => by rw [hpc]; rfl)
    ⟨⟨⟨hg.transfer, hg.cResp, hg.command⟩, ⟨hb.command, hb.transfer⟩⟩, fun d hd => ?_⟩
  rw [isset_done_clear, Bool.and_eq_true] at hd
  exact hd.1

theorem clearStore_inv {k : Wait} {status v : BitVec 16} (h : Inv s)
    (hpc : s.pc = .clearStore k status v) :
    Inv { storeStatus v s with pc := .judge k status } := by
  have hl := h.loc
  simp only [Local, hpc] at hl
  obtain ⟨⟨hg, hb⟩, hv⟩ := hl
  have ho := storeStatus_own (v := v) (h.own (by rw [hpc]; rfl))
  have ht := storeStatus_tags h.tags hv
  exact ⟨ht.of_shared rfl, fun _ => ho.of_shared rfl,
    ⟨⟨hg.transfer, hg.cResp, hg.command⟩, ⟨hb.command, hb.transfer⟩⟩, h.results⟩

theorem response_inv {i : ℕ} (h : Inv s) (hpc : s.pc = .response i)
    (hst : mainStep s = some s') : Inv s' := by
  have hl := h.loc
  simp only [Local, hpc] at hl
  obtain ⟨hg, hcmd, hrof⟩ := hl
  have ho := h.own (by rw [hpc]; rfl)
  have hresp : ∀ w ∈ s.cResp ++ [(s.ctl.responseOf, readResponse s.cmd i s.ctl)],
      w.1 = s.call := by
    intro w hw
    rcases List.mem_append.mp hw with h | h
    · exact hg.cResp w h
    · rw [List.mem_singleton.mp h]
      exact hrof
  simp only [mainStep, hpc] at hst
  split at hst
  · cases hst
    exact ⟨h.tags.of_shared rfl, fun _ => ho.of_shared rfl,
      ⟨⟨hg.transfer, hresp, nofun⟩, hcmd, hrof⟩, h.results⟩
  · cases hst
    exact afterResponse_inv (h.tags.of_shared rfl) (ho.of_shared rfl) h.results hcmd hresp
      hg.transfer

theorem finish_inv {error : ℤ} (h : Inv s) (hpc : s.pc = .finish error)
    (hst : mainStep s = some s') : Inv s' := by
  have hl := h.loc
  simp only [Local, hpc] at hl
  simp only [mainStep, hpc] at hst
  cases hst
  refine ⟨h.tags.of_shared rfl, (nomatch ·), trivial, fun r hmem => ?_⟩
  rcases List.mem_append.mp hmem with hr | hr
  · exact h.results r hr
  · rw [List.mem_singleton.mp hr]
    exact hl

theorem mainStep_inv (h : Inv s) (hf : Fresh s .main)
    (hst : mainStep s = some s') : Inv s' := by
  have hl := h.loc
  unfold Local at hl
  cases hpc : s.pc with
  | waitTest k timo status => exact waitTest_inv h hpc hst
  | response i => exact response_inv h hpc hst
  | finish error => exact finish_inv h hpc hst
  | idle => simp only [mainStep, hpc] at hst; cases hst
  | clear =>
    simp only [mainStep, hpc] at hst
    cases hst
    exact clear_inv h hpc
  | start =>
    simp only [mainStep, hpc] at hst
    split at hst <;> cases hst
    · next e he => exact fail_inv h.tags h.results (sdhcSetup_error_ne he)
    · exact start_inv h hpc _
  | inhibit su timeout =>
    cases timeout with
    | zero =>
      simp only [mainStep, hpc] at hst
      cases hst
      exact fail_inv h.tags h.results (by decide)
    | succ timeout =>
      simp only [mainStep, hpc] at hst
      cases hst
      exact inhibit_inv h hpc
  | issue su =>
    simp only [mainStep, hpc] at hst
    cases hst
    exact issue_inv h hf hpc
  | waitStatus k =>
    simp only [mainStep, hpc] at hst hl
    cases hst
    exact load_inv h (by rw [hpc]; rfl) hl (Or.inl rfl)
  | waitLoad k =>
    simp only [mainStep, hpc] at hst hl
    cases hst
    exact load_inv h (by rw [hpc]; rfl) hl (Or.inr rfl)
  | clearLoad k status =>
    simp only [mainStep, hpc] at hst
    cases hst
    exact clearLoad_inv h hpc
  | clearStore k status v =>
    simp only [mainStep, hpc] at hst
    cases hst
    exact clearStore_inv h hpc
  | judge k status =>
    simp only [mainStep, hpc] at hst hl
    cases hst
    exact judge_inv h.tags (h.own (by rw [hpc]; rfl)) h.results hl.1 hl.2
  | dma =>
    simp only [mainStep, hpc] at hst hl
    cases hst
    exact ⟨h.tags.of_shared rfl, fun _ => (h.own (by rw [hpc]; rfl)).of_shared rfl,
      ⟨hl.transfer, hl.cResp, hl.command⟩, h.results⟩

end Main

/-! ## Runs -/

theorem inv_init {s : ExecState} (h : execMachine.init s) : Inv s := by
  obtain ⟨hpc, -, -, hn, hi, hlat, hpost, -, hres⟩ := h
  refine ⟨⟨fun e he => ?_, fun d hd => ?_, fun e he => ?_, fun d hd => ?_⟩, fun hp => ?_, ?_,
    fun r hr => ?_⟩
  · rw [hlat] at he; cases he
  · rw [hn, isset_zero] at hd; cases hd
  · rw [hpost] at he; cases he
  · rw [hi, isset_zero] at hd; cases hd
  · rw [hpc] at hp; cases hp
  · unfold Local; rw [hpc]; trivial
  · rw [hres] at hr; cases hr

theorem startCall_inv {s s' : ExecState} {cmd : SdmmcCommand} (h : Inv s)
    (hst : startCall cmd s = some s') : Inv s' := by
  obtain ⟨ht, -, -, hr⟩ := h
  unfold startCall at hst
  split at hst
  · cases hst
    refine ⟨⟨ht.latched_bit, ht.latched_of, ?_, ?_⟩, (nomatch ·), ⟨rfl, rfl⟩, ?_⟩ <;>
      (simp only; split)
    · exact ht.posted_bit
    · exact ht.posted_bit
    · exact ht.posted_of
    · exact ht.posted_of
    · exact hr
    · exact hr
  · cases hst

theorem execStep_inv {s s' : ExecState} {a : Act} (h : Inv s) (hf : Fresh s a)
    (hst : execStep s a = some s') : Inv s' := by
  cases a with
  | call cmd => exact startCall_inv h hst
  | main => exact mainStep_inv h hf hst
  | irq => cases hst; exact (sdhcIrq_env s).inv (sdhcIrq_tags h.tags) h
  | complete d resp => exact complete_inv h hst
  | giveUp d => cases hst; exact giveUp_inv d h
  | raise bits errors => exact raise_inv h hst

/-- **A success belongs to its own command**: in every run in which no completion a command waits
for is posted or pending when its COMMAND register is written, every call that returned without an
error consumed completions of its own command and stored its own response. -/
theorem execCommand_own {s : ExecState} (hs : execMachine.ReachWhere Fresh s) :
    ∀ r ∈ s.results, r.Own s.host.useDma :=
  (hs.invariant (fun _ => inv_init) fun _ _ _ h hf hst => execStep_inv h hf hst : Inv s).results

/-- The command `sdmmc_needs_discover` probes with, and one that follows it. -/
def sendIfCond : SdmmcCommand :=
  { command sdSendIfCond 0x1aa#32 scfRspR7 with timeout := 100, data := 0#32 }

def appCmd : SdmmcCommand := { command mmcAppCmd 0#32 scfRspR1 with data := 0#32 }

/-- The two blocks are read, with a DMA interrupt on the way. -/
def readTwoRun : List Act :=
  List.flatten [[.call readTwo], List.replicate 4 .main, [.complete .command 0x900#128, .irq],
    List.replicate 8 .main, [.raise sdhcDmaInterrupt 0#16, .irq], List.replicate 7 .main,
    [.complete .transfer 0#128, .irq], List.replicate 6 .main]

theorem execCommand_own_readTwo :
    ∃ s, execMachine.execWhere Fresh initialState readTwoRun = some s ∧ s.results.length = 1 ∧
      ∀ r ∈ s.results, r.error = 0 ∧ r.command = [1] ∧ r.Own true := by
  have hrun : (execMachine.execWhere Fresh initialState readTwoRun).map (fun s =>
      (s.host.useDma, s.results.map fun r => (r.error, r.command))) =
      some (true, [(0, [1])]) := by decide +kernel
  obtain ⟨s, hs, heq⟩ := Option.map_eq_some_iff.mp hrun
  obtain ⟨huse, hres⟩ := Prod.mk.inj heq
  have hreach : execMachine.ReachWhere Fresh s :=
    Machine.ReachWhere.execWhere (.init ⟨rfl, rfl, rfl, by decide, rfl, rfl, rfl, rfl, rfl⟩) hs
  have hown := execCommand_own hreach
  rw [huse] at hown
  refine ⟨s, hs, by simpa using congrArg List.length hres, fun r hr => ?_⟩
  have hmem := List.mem_map_of_mem (f := fun r : Result => (r.error, r.command)) hr
  rw [hres, List.mem_singleton] at hmem
  exact ⟨congrArg Prod.fst hmem, congrArg Prod.snd hmem, hown r hr⟩

/-- The first command ends after its software timeout, between the clearing of `intr_status` for the
second one and its write to the COMMAND register. -/
def lateRun : List Act :=
  List.flatten [[.call sendIfCond], List.replicate 110 .main,
    [.call appCmd, .main, .complete .command 0x1aa#128, .irq], List.replicate 11 .main]

/-- The second call returns without an error, with the completion and the response of the first. -/
theorem success_of_earlier :
    (∃ s, execMachine.exec initialState lateRun = some s ∧
      s.results.map (fun r => (r.call, r.error, r.command)) = [(1, etimedout, []), (2, 0, [1])] ∧
      s.results.map Result.cResp = [[], [(1, 0x1aa#32)]]) ∧
      ¬∀ s, execMachine.Reach s → ∀ r ∈ s.results, r.Own s.host.useDma := by
  have hrun : (execMachine.exec initialState lateRun).map (fun s =>
      (s.results.map fun r => (r.call, r.error, r.command), s.results.map Result.cResp)) =
      some ([(1, etimedout, []), (2, 0, [1])], [[], [(1, 0x1aa#32)]]) := by decide +kernel
  obtain ⟨s, hs, heq⟩ := Option.map_eq_some_iff.mp hrun
  obtain ⟨hres, hresp⟩ := Prod.mk.inj heq
  refine ⟨⟨s, hs, hres, hresp⟩, fun h => ?_⟩
  have hboot : execMachine.Reach initialState :=
    .init ⟨rfl, rfl, rfl, by decide, rfl, rfl, rfl, rfl, rfl⟩
  have hmem : (2, (0 : ℤ), [1]) ∈ s.results.map fun r => (r.call, r.error, r.command) := by
    rw [hres]
    simp
  obtain ⟨r, hr, heq⟩ := List.mem_map.mp hmem
  simp only [Prod.mk.injEq] at heq
  have hcall := (h s (hboot.exec hs) r hr heq.2.1).1.2 1 (by rw [heq.2.2]; simp)
  rw [heq.1] at hcall
  cases hcall

end VwiiNandTools.Sdhc
