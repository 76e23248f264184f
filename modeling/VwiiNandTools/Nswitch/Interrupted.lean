import VwiiNandTools.Lib.Path
import VwiiNandTools.Nswitch.Lossless

/-!
# Printing from an interrupt

An interrupt handler may call `gecko_printf` between any two accesses of the main thread's.  If it
does so between the test and the flush of a character, one of the two characters can be lost; in
all other runs each character is printed once (`geckoPrintf_printsOnce`).  That a character on its
way is printed at all is a matter of the reader: every step of it brings the character closer
(`Reader.rank`).
-/

namespace VwiiNandTools.Gecko

open Noncoherent Transition

/-! ## The wait for `gecko_init` is over -/

/-- No copy that can come back to memory says that `gecko_init` is still to come. -/
structure Configured (s : Console) : Prop where
  mem : s.line.mem.debugConfig = 0#8
  arm : (s.line.view .arm).debugConfig = 0#8
  ppc : s.reader = .waitInval ∨ (s.line.view .ppc).debugConfig = 0#8

theorem Initialized.configured {s : Console} (h : Initialized s) : Configured s := by
  have hmem : s.line.mem.debugConfig = 0#8 := by
    rw [h.mem]
    rfl
  refine ⟨hmem, by rw [h.view]; rfl, ?_⟩
  rcases h.reader with hr | hr
  · exact Or.inl hr
  · have hcop := h.copied
    rw [hr] at hcop
    rw [Cell.view_of_not_cached hcop]
    exact Or.inr hmem

section Lines

variable {i : Cpu} {line line' : Line}

theorem getD_debugConfig (hmem : line.mem.debugConfig = 0#8)
    (hview : (line.view i).debugConfig = 0#8) :
    ((line.pending i).getD line.mem).debugConfig = 0#8 := by
  cases hv : line.pending i with
  | none => exact hmem
  | some v =>
    rw [Cell.view_of_pending hv] at hview
    exact hview

theorem view_debugConfig (hc : line'.cache i = line.cache i) (hmem : line'.mem.debugConfig = 0#8)
    (hview : (line.view i).debugConfig = 0#8) : (line'.view i).debugConfig = 0#8 := by
  rcases Cell.view_cases hc with h | h
  · rw [h, hview]
  · rw [h, hmem]

theorem Printf.step_debugConfig {timeout : Bool} {p : Printf} (hmem : line.mem.debugConfig = 0#8)
    (hview : (line.view .arm).debugConfig = 0#8) :
    (p.step timeout line).2.mem.debugConfig = 0#8 ∧
      ((p.step timeout line).2.view .arm).debugConfig = 0#8 := by
  refine ⟨?_, ?_⟩
  · rw [Printf.step_mem]
    split
    · exact hmem
    · exact getD_debugConfig hmem hview
  · cases p with
    | done | loop => exact hview
    | inval =>
      rw [Printf.step, Cell.view_of_not_cached Cell.cached_invalidate]
      exact hmem
    | test =>
      rw [Printf.step, Cell.view_load]
      exact hview
    | write =>
      rw [Printf.step, Cell.view_store]
      exact hview
    | flush =>
      rw [Printf.step, Cell.view_clean]
      exact hview

theorem Reader.step_debugConfig {r : Reader} (hmem : line.mem.debugConfig = 0#8)
    (hview : r = .waitInval ∨ (line.view .ppc).debugConfig = 0#8) :
    (r.step line).2.mem.debugConfig = 0#8 ∧ ((r.step line).2.view .ppc).debugConfig = 0#8 := by
  cases r with
  | waitInval | inval =>
    refine ⟨hmem, ?_⟩
    rw [Reader.step, Cell.view_of_not_cached Cell.cached_invalidate]
    exact hmem
  | waitTest | test | read =>
    rw [Reader.step, Cell.mem_load, Cell.view_load]
    exact ⟨hmem, hview.resolve_left (by rintro ⟨⟩)⟩
  | clear =>
    rw [Reader.step, Cell.view_store]
    exact ⟨hmem, hview.resolve_left (by rintro ⟨⟩)⟩
  | flush =>
    have hback := getD_debugConfig hmem (hview.resolve_left (by rintro ⟨⟩))
    rw [Reader.step, Cell.flush, Cell.view_of_not_cached Cell.cached_invalidate,
      Cell.mem_invalidate, Cell.mem_clean]
    exact ⟨hback, hback⟩
  | print => exact ⟨hmem, hview.resolve_left (by rintro ⟨⟩)⟩

end Lines

theorem Configured.printf {s : Console} (h : Configured s) (s' : Console) {timeout : Bool}
    {p : Printf} (hreader : s'.reader = s.reader) (hline : s'.line = (p.step timeout s.line).2) :
    Configured s' := by
  obtain ⟨hmem, hview⟩ : s'.line.mem.debugConfig = 0#8 ∧ (s'.line.view .arm).debugConfig = 0#8 :=
    hline ▸ Printf.step_debugConfig h.mem h.arm
  have hppc : s'.line.cache .ppc = s.line.cache .ppc := hline ▸ Printf.step_ppc
  refine ⟨hmem, hview, ?_⟩
  rw [hreader]
  exact h.ppc.imp_right (view_debugConfig hppc hmem)

theorem Configured.step {s s' : Console} (h : Configured s) (hrun : Running s) {a : Act}
    (hst : consoleStep s a = some s') : Configured s' := by
  obtain ⟨p, hmain⟩ := hrun.main
  cases consoleStep_moves hmain hst with
  | reader =>
    obtain ⟨hmem, hview⟩ := Reader.step_debugConfig h.mem h.ppc
    exact ⟨hmem, view_debugConfig Reader.step_arm hmem h.arm, Or.inr hview⟩
  | main timeout => exact h.printf _ rfl rfl
  | handler timeout q => exact h.printf _ rfl rfl
  | call | irq => exact ⟨h.mem, h.arm, h.ppc⟩

/-! ## The reader comes closer -/

/-- How many steps of the reader are left until it prints, if there is something to print. -/
def Reader.rank : Reader → ℕ
  | .waitInval => 8
  | .waitTest => 7
  | .inval => 6
  | .test => 5
  | .read => 4
  | .clear _ => 3
  | .flush _ => 2
  | .print _ => 1

theorem Reader.rank_readerStep {s : Console} (h : Configured s) (hcop : s.reader.Copied s.line)
    (hfly : s.inFlight ≠ []) (hnot : ∀ c, s.reader ≠ .print c) :
    s.readerStep.reader.rank < s.reader.rank := by
  have hstep (r : Reader) (hr : s.reader = r) : s.readerStep.reader = (r.step s.line).1 := hr ▸ rfl
  cases hr : s.reader with
  | waitTest =>
    rw [hr] at hcop
    rw [hstep _ hr, Reader.step, Cell.view_of_not_cached hcop, if_neg (not_not.mpr h.mem)]
    exact Nat.lt_succ_self _
  | test =>
    have hne : ¬s.line.mem.str = 0#8 := by
      intro h0
      rw [Console.inFlight, Console.box, if_pos (Or.inr h0), hr] at hfly
      exact hfly rfl
    rw [hr] at hcop
    rw [hstep _ hr, Reader.step, Cell.view_of_not_cached hcop, if_neg hne]
    exact Nat.lt_succ_self _
  | print c => exact absurd hr (hnot c)
  | waitInval | inval | read | clear | flush =>
    rw [hstep _ hr]
    exact Nat.lt_succ_self _

/-! ## Runs -/

theorem careful_reader (s : Console) : Careful s .reader := ⟨rfl, nofun, rfl, rfl⟩

theorem consoleStep_grows {s s' : Console} {a : Act} (hst : consoleStep s a = some s') :
    s.sent <+: s'.sent ∧ s.printed.length ≤ s'.printed.length := by
  cases a with
  | call | irq | irqCall | irqReturn =>
    rw [consoleStep] at hst
    split at hst
    · obtain rfl := Option.some.inj hst
      exact ⟨List.prefix_rfl, le_refl _⟩
    · cases hst
  | main | handler =>
    rw [consoleStep] at hst
    split at hst
    · obtain rfl := Option.some.inj hst
      exact ⟨List.prefix_append _ _, le_refl _⟩
    · cases hst
  | reader =>
    obtain rfl := Option.some.inj hst
    exact ⟨List.prefix_rfl, (List.prefix_append _ _).length_le⟩

theorem configured_reach {s : Console} (hs : console.ReachWhere Careful s) :
    Starting s ∨ Lossless s ∧ Configured s := by
  refine reach_initialized (I := fun s => Lossless s ∧ Configured s)
    (fun _ h => ⟨h.lossless, h.configured⟩) ?_ hs
  rintro s a s' ⟨h, hconf⟩ hc hst
  exact ⟨h.step hc hst, hconf.step h.toRunning hst⟩

section Paths

variable (p : Path console started)

/-- The characters of one context. -/
def charsOf (ctx : Context) (l : List (Context × BitVec 8)) : List (Context × BitVec 8) :=
  l.filter fun c => c.1 = ctx

/-- **What the console is for**: each printed character can be told apart as one that was sent, so
that of each context they are, in order, the characters it sent, and none is left out for ever. -/
def PrintsOnce : Prop :=
  ∃ tagged : ℕ → List (Context × BitVec 8), (∀ t u, t ≤ u → tagged t <+: tagged u) ∧ ∀ t,
    (tagged t).map Prod.snd = (p.state t).printed ∧
    (∀ ctx, charsOf ctx (tagged t) <+: charsOf ctx (p.state t).sent) ∧
    ∃ u, t ≤ u ∧ ∀ ctx, charsOf ctx (p.state t).sent <+: charsOf ctx (tagged u)

variable {p}

theorem sent_mono {t u : ℕ} (h : t ≤ u) : (p.state t).sent <+: (p.state u).sent := by
  induction u, h using Nat.le_induction with
  | base => exact List.prefix_rfl
  | succ u _ ih => exact ih.trans (consoleStep_grows (p.step u)).1

theorem printed_mono {t u : ℕ} (h : t ≤ u) :
    (p.state t).printed.length ≤ (p.state u).printed.length := by
  induction u, h using Nat.le_induction with
  | base => exact le_refl _
  | succ u _ ih => exact ih.trans (consoleStep_grows (p.step u)).2

section Careful

variable (hcare : ∀ t, Careful (p.state t) (p.label t))
include hcare

theorem careful_state (t : ℕ) :
    Starting (p.state t) ∨ Lossless (p.state t) ∧ Configured (p.state t) :=
  configured_reach (p.reachWhere (.init rfl) hcare t)

theorem printed_eq (t : ℕ) :
    (p.state t).sentText.take (p.state t).printed.length = (p.state t).printed := by
  rcases careful_state hcare t with h | ⟨h, -⟩
  · rw [h.printed]
    rfl
  · rw [h.keep, List.take_left]

theorem prints_next (hreader : p.Fair (· = .reader)) {n t : ℕ}
    (hprinted : (p.state t).printed.length = n) (hsent : n < (p.state t).sentText.length) :
    ∃ u, t ≤ u ∧ n < (p.state u).printed.length := by
  refine p.eventually (P := fun s => s.printed.length = n ∧ n < s.sentText.length)
    (Q := fun s => n < s.printed.length) (fun s => s.reader.rank) hreader ?_ ⟨hprinted, hsent⟩
  rintro t ⟨hprinted, hsent⟩
  have hst : consoleStep (p.state t) (p.label t) = some (p.state (t + 1)) := p.step t
  have hgrows := ((consoleStep_grows hst).1.map Prod.snd).length_le
  rcases careful_state hcare t with h | ⟨h, hconf⟩
  · rw [h.sentText] at hsent
    exact absurd hsent (Nat.not_lt_zero n)
  have hfly : (p.state t).inFlight ≠ [] := by
    intro hnil
    rw [h.keep, hnil, List.append_nil, hprinted] at hsent
    exact lt_irrefl n hsent
  obtain ⟨q, hmain⟩ := h.main
  generalize p.state (t + 1) = s', p.label t = a at hst hgrows ⊢
  cases consoleStep_moves hmain hst with
  | reader =>
    rcases reader_text h.copied with ⟨hnot, hp, -⟩ | ⟨c, -, hf, hf', hp⟩
    · have hrank := Reader.rank_readerStep hconf h.copied hfly hnot
      exact Or.inr ⟨⟨by rw [hp, hprinted], hsent⟩, hrank.le, fun _ => hrank⟩
    · have hkeep := congrArg List.length h.keep
      have hkeep' := congrArg List.length h.readerStep.keep
      rw [List.length_append] at hkeep hkeep'
      rw [hf, List.length_cons] at hkeep
      rw [hf'] at hkeep'
      have hsame : (p.state t).readerStep.sentText = (p.state t).sentText := rfl
      rw [hsame] at hkeep'
      exact Or.inl (by omega)
  | main | handler => exact Or.inr ⟨⟨hprinted, hsent.trans_le hgrows⟩, le_refl _, nofun⟩
  | call => exact Or.inr ⟨⟨hprinted, hsent⟩, le_refl _, nofun⟩
  | irq _ _ _ hnot => exact Or.inr ⟨⟨hprinted, hsent⟩, le_refl _, fun ha => absurd ha hnot⟩

/-- Sooner or later, any number of the characters sent is printed. -/
theorem prints_many (hreader : p.Fair (· = .reader)) {n t : ℕ}
    (hsent : n ≤ (p.state t).sentText.length) : ∃ u, t ≤ u ∧ n ≤ (p.state u).printed.length := by
  induction n with
  | zero => exact ⟨t, le_refl t, Nat.zero_le _⟩
  | succ n ih =>
    obtain ⟨u, htu, hu⟩ := ih (by omega)
    rcases hu.lt_or_eq with hlt | heq
    · exact ⟨u, htu, hlt⟩
    · have hmono := ((sent_mono (p := p) htu).map Prod.snd).length_le
      obtain ⟨w, huw, hw⟩ := prints_next hcare hreader heq.symm (Nat.lt_of_lt_of_le hsent hmono)
      exact ⟨w, htu.trans huw, hw⟩

theorem printsOnce_of_careful (hreader : p.Fair (· = .reader)) : PrintsOnce p := by
  refine ⟨fun t => (p.state t).sent.take (p.state t).printed.length, fun t u htu => ?_, fun t => ?_⟩
  · refine List.prefix_take_iff.mpr ⟨(List.take_prefix _ _).trans (sent_mono htu), ?_⟩
    exact (List.length_take_le _ _).trans (printed_mono htu)
  · refine ⟨?_, fun ctx => (List.take_prefix _ _).filter _, ?_⟩
    · rw [List.map_take]
      exact printed_eq hcare t
    · obtain ⟨u, htu, hu⟩ := prints_many hcare hreader (le_refl (p.state t).sentText.length)
      rw [Console.sentText, List.length_map] at hu
      exact ⟨u, htu, fun ctx => (List.prefix_take_iff.mpr ⟨sent_mono htu, hu⟩).filter _⟩

end Careful

variable (p)

/-- **Printing from an interrupt** is safe in every run in which no `%` is sent, no handler drops
the line while the main thread's character is in it, and the main thread flushes its character only
while the mailbox is empty. -/
theorem geckoPrintf_printsOnce (hreader : p.Fair (· = .reader))
    (htime : ∀ t, InTime (p.state t) (p.label t))
    (hcond : ∀ t, Plain (p.state t) (p.label t) ∧ Undisturbed (p.state t) (p.label t)) :
    PrintsOnce p :=
  printsOnce_of_careful (fun t => ⟨htime t, hcond t⟩) hreader

end Paths

/-! ## A lost character -/

theorem exists_path {C : Console → Act → Prop} [∀ s a, Decidable (C s a)] (hC : ∀ s, C s .reader)
    {l : List Act} {s : Console} (h : console.execWhere C started l = some s) :
    ∃ p : Path console started, p.state l.length = s ∧ p.Fair (· = .reader) ∧
      (∀ t, p.label (l.length + t) = .reader) ∧ ∀ t, C (p.state t) (p.label t) := by
  obtain ⟨q, hq⟩ := Path.exists_forever (M := console) (a := .reader)
    (fun s => ⟨s.readerStep, rfl⟩) s
  obtain ⟨p, hstate, hlabel, hall⟩ := Path.exists_prepend h q
  have hreader (t : ℕ) : p.label (l.length + t) = .reader := (hlabel t).trans (hq t)
  refine ⟨p, (hstate 0).trans q.start, fun t => ⟨l.length + t, by omega, hreader t⟩, hreader,
    hall fun t => ?_⟩
  rw [hq]
  exact hC _

theorem printed_le {p : Path console started} {t0 : ℕ}
    (hreader : ∀ t, p.label (t0 + t) = .reader) (hrun : Running (p.state t0)) (t : ℕ) :
    Running (p.state (t0 + t)) ∧
      ((p.state (t0 + t)).printed ++ (p.state (t0 + t)).inFlight).length ≤
        ((p.state t0).printed ++ (p.state t0).inFlight).length := by
  induction t with
  | zero => exact ⟨hrun, le_refl _⟩
  | succ t ih =>
    obtain ⟨hr, hle⟩ := ih
    have hst : consoleStep (p.state (t0 + t)) .reader = some (p.state (t0 + (t + 1))) :=
      hreader t ▸ p.step (t0 + t)
    refine ⟨hr.step hst, le_trans ?_ hle⟩
    rw [← Option.some.inj hst]
    change ((p.state (t0 + t)).readerStep.printed ++
      (p.state (t0 + t)).readerStep.inFlight).length ≤ _
    rcases reader_text hr.copied with ⟨-, hp, hf⟩ | ⟨c, -, hf, hf', hp⟩
    · rw [hp, hf]
    · have hc := (printfReceived_sublist c).length_le
      rw [hp, hf, hf']
      simp only [List.length_append, List.length_cons, List.length_nil] at hc ⊢
      omega

/-- What the handler does when it calls `gecko_printf("x")`. -/
def irqRun : List Act :=
  List.flatten [[.irq, .irqCall [0x78#8]], List.replicate 6 (.handler false), [.irqReturn]]

/-- `gecko_printf("a")` up to its test, which finds the mailbox empty; then the interrupt. -/
def windowRun : List Act :=
  List.flatten [initRun, [.call [0x61#8]], List.replicate 3 (.main false), irqRun,
    List.replicate 2 (.main false)]

/-- The character of the handler is written over. -/
theorem geckoPrintf_losesChar :
    ¬∀ p : Path console started, p.Fair (· = .reader) →
      (∀ t, InTime (p.state t) (p.label t)) → PrintsOnce p := by
  intro h
  have hrun : (console.execWhere InTime started windowRun).map
      (fun s => (s.sent, s.printed, s.inFlight)) =
      some ([(.irq, 0x78#8), (.main, 0x61#8)], [], [0x61#8]) := by decide +kernel
  obtain ⟨s, hs, heq⟩ := Option.map_eq_some_iff.mp hrun
  obtain ⟨hsent, hrest⟩ := Prod.mk.inj heq
  obtain ⟨hprinted, hflight⟩ := Prod.mk.inj hrest
  obtain ⟨p, hstate, hfair, hreader, htime⟩ := exists_path (C := InTime) (fun _ => rfl) hs
  have hrunning : Running (p.state windowRun.length) := by
    refine (running_reach (p.reachWhere (.init rfl) (fun _ => trivial) _)).resolve_left ?_
    intro hstart
    have hnil := hstart.sent
    rw [hstate, hsent] at hnil
    cases hnil
  obtain ⟨tagged, -, htag⟩ := h p hfair htime
  obtain ⟨-, -, u, hu, hall⟩ := htag windowRun.length
  rw [hstate, hsent] at hall
  obtain ⟨d, rfl⟩ := Nat.exists_eq_add_of_le hu
  -- there is at most one printed character, and it cannot be both
  have hone : (tagged (windowRun.length + d)).length ≤ 1 := by
    have hle := (printed_le hreader hrunning d).2
    rw [hstate, hprinted, hflight, List.length_append] at hle
    rw [← List.length_map (f := Prod.snd), (htag _).1]
    exact (Nat.le_add_right _ _).trans hle
  have hirq := List.mem_of_mem_filter ((hall .irq).subset List.mem_cons_self)
  have hmain := List.mem_of_mem_filter ((hall .main).subset List.mem_cons_self)
  generalize tagged (windowRun.length + d) = l at hone hirq hmain
  match l with
  | [] => cases hirq
  | [_] => cases (List.mem_singleton.mp hirq).trans (List.mem_singleton.mp hmain).symm
  | _ :: _ :: _ => exact absurd hone (by simp)

/-- The same interrupt before the test: the main thread waits until the reader has taken the
character of the handler. -/
def waitingRun : List Act :=
  List.flatten [initRun, [.call [0x61#8]], [.main false], irqRun, List.replicate 2 (.main false),
    printRun, List.replicate 4 (.main false)]

theorem geckoPrintf_printsOnce_waiting :
    ∃ p : Path console started, p.Fair (· = .reader) ∧
      (p.state waitingRun.length).sent = [(.irq, 0x78#8), (.main, 0x61#8)] ∧ PrintsOnce p := by
  have hrun : (console.execWhere Careful started waitingRun).map (fun s => s.sent) =
      some [(.irq, 0x78#8), (.main, 0x61#8)] := by decide +kernel
  obtain ⟨s, hs, hsent⟩ := Option.map_eq_some_iff.mp hrun
  obtain ⟨p, hstate, hfair, -, hcare⟩ := exists_path (C := Careful) careful_reader hs
  refine ⟨p, hfair, by rw [hstate, hsent], ?_⟩
  exact geckoPrintf_printsOnce p hfair (fun t => (hcare t).1) fun t => (hcare t).2

end VwiiNandTools.Gecko
