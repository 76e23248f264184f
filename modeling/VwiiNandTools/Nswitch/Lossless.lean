import VwiiNandTools.Nswitch.Mailbox

/-!
# Nothing is lost

A character is lost when it is written over before the reader has taken it, when a handler drops the
line that holds it before it is flushed, and when it is a `%`.  In a run without such steps what was
sent is what was printed and what is on its way (`Lossless`).  On the main thread alone only a
timeout or a `%` can do that.
-/

namespace VwiiNandTools.Gecko

open Noncoherent Transition

/-! ## What can go wrong -/

/-- The timer has run out. -/
def Act.expired : Act → Bool
  | .main timeout | .handler timeout => timeout
  | _ => false

/-- The character that a step flushes. -/
def Act.sends (s : Console) : Act → Option (BitVec 8)
  | .main _ => s.main.flushes
  | .handler _ => s.handler.bind Printf.flushes
  | _ => none

/-- The handler drops the line before the main thread has flushed its character. -/
def Act.discards (s : Console) : Act → Bool
  | .handler _ =>
    match s.handler with
    | some (.inval _ _) => s.main.flushes.isSome
    | _ => false
  | _ => false

/-- The main thread flushes its character although the mailbox is taken. -/
def Act.overwrites (s : Console) : Act → Bool
  | .main _ => s.main.flushes.isSome && s.line.mem.str ≠ 0#8
  | _ => false

/-- No timeout fires. -/
def InTime (_ : Console) (a : Act) : Prop := a.expired = false

/-- The main thread prints alone, and no timeout fires. -/
def MainOnly (s : Console) (a : Act) : Prop := InTime s a ∧ a ≠ .irq

/-- The step does not send a `%`. -/
def Plain (s : Console) (a : Act) : Prop := a.sends s ≠ some 0x25#8

/-- Main thread and handler do not get in each other's way. -/
def Undisturbed (s : Console) (a : Act) : Prop := a.discards s = false ∧ a.overwrites s = false

/-- The step loses no character. -/
def Careful (s : Console) (a : Act) : Prop := InTime s a ∧ Plain s a ∧ Undisturbed s a

instance (s : Console) (a : Act) : Decidable (InTime s a) := inferInstanceAs (Decidable (_ = _))

instance (s : Console) (a : Act) : Decidable (MainOnly s a) := inferInstanceAs (Decidable (_ ∧ _))

instance (s : Console) (a : Act) : Decidable (Plain s a) := inferInstanceAs (Decidable (_ ≠ _))

instance (s : Console) (a : Act) : Decidable (Careful s a) :=
  inferInstanceAs (Decidable (InTime s a ∧ Plain s a ∧ _ ∧ _))

/-! ## One pass of `gecko_printf` -/

/-- From the test on, what the test has seen. -/
def Printf.Window (line : Line) : Printf → Prop
  | .test _ _ => line.cached .arm = false
  | .write _ _ | .flush _ _ => line.mem.str = 0#8
  | _ => True

theorem Printf.window_of_quiet {p : Printf} (line : Line) (h : p.quiet = true) : p.Window line := by
  cases p <;> trivial

section Step

variable {p : Printf} {line : Line}

theorem Printf.step_window (h : p.Window line) :
    (p.step false line).1.Window (p.step false line).2 := by
  cases p with
  | done => trivial
  | loop fmt =>
    rw [Printf.step]
    rcases Printf.next_cases fmt with hn | ⟨c, rest, -, hn⟩ <;> rw [hn] <;> trivial
  | inval => exact Cell.cached_invalidate
  | test c fmt =>
    rw [Printf.step, Cell.view_of_not_cached h]
    split
    · trivial
    · next hc =>
      have h0 : line.mem.str = 0#8 := by
        by_contra hne
        exact hc ⟨hne, rfl⟩
      rw [Printf.Window, Cell.mem_load]
      exact h0
  | write => exact h
  | flush => trivial

theorem Printf.Window.reader (h : p.Window line) {r : Reader} (hcop : r.Copied line) :
    p.Window (r.step line).2 := by
  have hmem (h0 : line.mem.str = 0#8) : (r.step line).2.mem.str = 0#8 := by
    rcases Reader.step_mem hcop with hm | ⟨-, hm⟩
    · rw [hm, h0]
    · exact hm
  cases p with
  | test => exact (Cell.cached_congr Reader.step_arm).trans h
  | write | flush => exact hmem h
  | done | loop | inval => trivial

variable {timeout : Bool}

theorem Printf.step_char (h : p.char ≠ some 0#8) : (p.step timeout line).1.char ≠ some 0#8 := by
  cases p with
  | done => exact h
  | loop fmt =>
    rw [Printf.step]
    rcases Printf.next_cases fmt with hn | ⟨c, rest, hc, hn⟩ <;> rw [hn]
    · rintro ⟨⟩
    · exact fun he => hc (Option.some.inj he)
  | test =>
    rw [Printf.step]
    split <;> exact h
  | inval | write => exact h
  | flush => rintro ⟨⟩

/-- A character that is about to be flushed has been written. -/
theorem Printf.step_written (h : (p.step timeout line).1.flushes ≠ none) :
    ∃ v, (p.step timeout line).2.pending .arm = some v := by
  cases p with
  | write c fmt =>
    rw [Printf.step, Cell.pending_store]
    exact ⟨_, rfl⟩
  | loop fmt =>
    rw [Printf.step] at h
    rcases Printf.next_cases fmt with hn | ⟨c, rest, hc, hn⟩ <;> rw [hn] at h <;> exact absurd rfl h
  | test =>
    rw [Printf.step] at h
    split at h <;> exact absurd rfl h
  | done | inval | flush => exact absurd rfl h

theorem Printf.char_of_flushes {c : BitVec 8} (h : p.flushes = some c) : p.char = some c := by
  cases p <;> first | exact h | cases h

end Step

/-! ## The invariant -/

structure Lossless (s : Console) : Prop extends Running s where
  keep : s.sentText = s.printed ++ s.inFlight
  holds : s.reader.holds = true → s.line.mem.str ≠ 0#8
  window : ∀ q ∈ s.handler, q.Window s.line
  -- once the handler has dropped the line, the main thread has nothing in it
  alone : ∀ q ∈ s.handler, q.early = false → s.main.flushes = none
  written : s.unflushed ≠ none → ∃ v, s.line.pending .arm = some v
  mainChar : ∀ p, s.main = .printf p → p.char ≠ some 0#8
  irqChar : ∀ q ∈ s.handler, q.char ≠ some 0#8
  plain : 0x25#8 ∉ s.sentText

theorem Initialized.lossless {s : Console} (h : Initialized s) : Lossless s := by
  have hvac (P : Printf → Prop) : ∀ q ∈ s.handler, P q := by
    rw [h.handler]
    rintro q ⟨⟩
  refine ⟨h.running, ?_, ?_, hvac _, hvac _, ?_, ?_, hvac _, ?_⟩
  · rw [h.inFlight, h.printed, Console.sentText, h.sent]
    rfl
  · intro hr
    rcases h.reader with he | he <;> rw [he] at hr <;> cases hr
  · intro hne
    rw [unflushed_main h.handler, h.main] at hne
    exact absurd rfl hne
  · intro p hp
    rw [h.main] at hp
    obtain rfl := MainPc.printf.inj hp
    rintro ⟨⟩
  · rw [Console.sentText, h.sent]
    exact List.not_mem_nil

section Lossless

variable {s : Console}

/-- **The character takes the mailbox.** -/
theorem Lossless.printf (h : Lossless s) (s' : Console) (ctx : Context) {timeout : Bool}
    {p : Printf} (hun : ∀ c, p.flushes = some c → s.unflushed = some c) (hchar : p.char ≠ some 0#8)
    (hempty : p.flushes ≠ none → s.line.mem.str = 0#8) (hreader : s'.reader = s.reader)
    (hline : s'.line = (p.step timeout s.line).2) (hprinted : s'.printed = s.printed)
    (hsent : s'.sent = s.sent ++ ctx.sends p.flushes) :
    s'.sentText = s'.printed ++ s'.inFlight ∧ (s'.reader.holds = true → s'.line.mem.str ≠ 0#8) := by
  have htaken : s'.reader.taken s'.line = s.reader.taken s.line := by
    rw [hreader, hline]
    exact Reader.taken_frame h.copied Printf.step_ppc
  have htext : s'.sentText = s.sentText ++ p.flushes.toList := by
    rw [← sentText_sends s ctx, ← hsent]
    rfl
  have hmem : s'.line.mem = _ := hline ▸ Printf.step_mem
  cases hf : p.flushes with
  | none =>
    rw [hf, if_pos rfl] at hmem
    refine ⟨?_, by rw [hreader, hmem]; exact h.holds⟩
    rw [htext, hf, hprinted, Console.inFlight, htaken, Console.box, hreader, hmem, h.keep]
    exact List.append_nil _
  | some c =>
    have h0 := hempty (by rw [hf]; exact Option.some_ne_none c)
    have hnot : ¬s.reader.holds = true := fun hr => h.holds hr h0
    obtain ⟨v, hv⟩ := h.written (by rw [hun c hf]; exact Option.some_ne_none c)
    have hvc : v.str = c := Option.some.inj ((h.pending v hv).symm.trans (hun c hf))
    rw [hf, if_neg (Option.some_ne_none c), hv, Option.getD_some] at hmem
    have hc : c ≠ 0#8 := fun hc => hchar (hc ▸ Printf.char_of_flushes hf)
    have hbox : s.box = [] := if_pos (Or.inr h0)
    have hbox' : s'.box = [c] := by
      rw [Console.box, hmem, hvc, hreader, if_neg (not_or.mpr ⟨hnot, hc⟩)]
    refine ⟨?_, fun hr => absurd (hreader ▸ hr) hnot⟩
    rw [htext, hf, hprinted, Console.inFlight, htaken, hbox', h.keep, Console.inFlight, hbox,
      List.append_nil, List.append_assoc]
    rfl

theorem holds_readerStep (hcop : s.reader.Copied s.line)
    (h : s.reader.holds = true → s.line.mem.str ≠ 0#8) :
    s.readerStep.reader.holds = true → s.readerStep.line.mem.str ≠ 0#8 := by
  have hstep (r : Reader) (hr : s.reader = r) : s.readerStep.reader = (r.step s.line).1 ∧
      s.readerStep.line = (r.step s.line).2 := ⟨hr ▸ rfl, hr ▸ rfl⟩
  cases hr : s.reader with
  | test =>
    obtain ⟨hr', hl'⟩ := hstep _ hr
    rw [hr] at hcop
    rw [hr', hl', Reader.step, Cell.view_of_not_cached hcop]
    split
    · rintro ⟨⟩
    · next hne =>
      rw [Cell.mem_load]
      exact fun _ => hne
  | read =>
    obtain ⟨-, hl'⟩ := hstep _ hr
    rw [hl', Reader.step, Cell.mem_load]
    exact fun _ => h (by rw [hr]; rfl)
  | clear c =>
    obtain ⟨-, hl'⟩ := hstep _ hr
    rw [hl', Reader.step, Cell.mem_store]
    exact fun _ => h (by rw [hr]; rfl)
  | waitTest =>
    obtain ⟨hr', -⟩ := hstep _ hr
    rw [hr', Reader.step]
    split <;> rintro ⟨⟩
  | waitInval | inval | flush | print =>
    obtain ⟨hr', -⟩ := hstep _ hr
    rw [hr']
    rintro ⟨⟩

/-- What the reader prints is what it took. -/
theorem Lossless.readerStep (h : Lossless s) : Lossless s.readerStep := by
  have harm : s.readerStep.line.cache .arm = s.line.cache .arm := Reader.step_arm
  refine ⟨h.toRunning.step (a := .reader) rfl, ?_, ?_,
    fun q hq => (h.window q hq).reader h.copied, h.alone, ?_, h.mainChar, h.irqChar, h.plain⟩
  · rcases reader_text h.copied with ⟨-, hp, hf⟩ | ⟨c, -, hf, hf', hp⟩
    · rw [hp, hf]
      exact h.keep
    · have hc : c ≠ 0x25#8 := by
        rintro rfl
        exact h.plain (by rw [h.keep, hf]; exact List.mem_append_right _ List.mem_cons_self)
      have hkeep := h.keep
      rw [hf] at hkeep
      rw [hp, hf', printfReceived, if_neg hc, List.append_assoc]
      exact hkeep
  · exact holds_readerStep h.copied h.holds
  · intro hne
    obtain ⟨v, hv⟩ := h.written hne
    exact ⟨v, (Cell.pending_congr harm).trans hv⟩

theorem Lossless.plain_sends (h : Lossless s) {c : Option (BitVec 8)} (hc : c ≠ some 0x25#8) :
    0x25#8 ∉ s.sentText ++ c.toList := by
  intro hmem
  rcases List.mem_append.mp hmem with hm | hm
  · exact h.plain hm
  · exact hc (Option.mem_toList.mp hm)

theorem Lossless.mainPrintf (h : Lossless s) {p : Printf} (hmain : s.main = .printf p)
    (hnone : s.handler = none) (hrun : Running (s.mainPrintf false p))
    (hplain : p.flushes ≠ some 0x25#8) (hempty : p.flushes ≠ none → s.line.mem.str = 0#8) :
    Lossless (s.mainPrintf false p) := by
  have hun := unflushed_printf hnone hmain
  have hvac (P : Printf → Prop) : ∀ q ∈ (s.mainPrintf false p).handler, P q := by
    intro q hq
    cases hnone.symm.trans hq
  obtain ⟨hkeep, hholds⟩ := h.printf (s.mainPrintf false p) .main (fun c hc => hun.trans hc)
    (h.mainChar p hmain) hempty rfl rfl rfl rfl
  refine ⟨hrun, hkeep, hholds, hvac _, hvac _, ?_, ?_, hvac _, ?_⟩
  · intro hne
    have hun' : (s.mainPrintf false p).unflushed = _ := unflushed_main hnone
    rw [hun'] at hne
    exact Printf.step_written hne
  · intro p' hp'
    rw [← MainPc.printf.inj hp']
    exact Printf.step_char (h.mainChar p hmain)
  · have htext : (s.mainPrintf false p).sentText = s.sentText ++ p.flushes.toList :=
      sentText_sends s .main p.flushes
    rw [htext]
    exact h.plain_sends hplain

theorem Lossless.irqPrintf (h : Lossless s) {q : Printf} (hq : s.handler = some q)
    (hrun : Running (s.irqPrintf false q)) (hplain : q.flushes ≠ some 0x25#8)
    (hdiscards : ∀ c fmt, q = .inval c fmt → s.main.flushes = none) :
    Lossless (s.irqPrintf false q) := by
  have hwindow := h.window q hq
  have hempty (hne : q.flushes ≠ none) : s.line.mem.str = 0#8 := by
    cases q with
    | flush => exact hwindow
    | done | loop | inval | test | write => exact absurd rfl hne
  have hone (P : Printf → Prop) (hP : P (q.step false s.line).1) :
      ∀ q' ∈ (s.irqPrintf false q).handler, P q' := by
    intro q' hq'
    exact Option.some.inj hq' ▸ hP
  obtain ⟨hkeep, hholds⟩ := h.printf (s.irqPrintf false q) .irq (fun _ => unflushed_irq hq)
    (h.irqChar q hq) hempty rfl rfl rfl rfl
  -- the main thread has something to flush only while the handler has not dropped the line
  have halone (hlate : (q.step false s.line).1.early = false) : s.main.flushes = none := by
    cases q with
    | inval c fmt => exact hdiscards c fmt rfl
    | test | write | flush => exact h.alone _ hq rfl
    | done => cases hlate
    | loop fmt =>
      rw [Printf.step] at hlate
      rcases Printf.next_cases fmt with hn | ⟨c, rest, -, hn⟩ <;> rw [hn] at hlate <;> cases hlate
  refine ⟨hrun, hkeep, hholds, hone _ (Printf.step_window hwindow), hone _ halone, ?_, h.mainChar,
    hone _ (Printf.step_char (h.irqChar q hq)), ?_⟩
  · intro hne
    by_cases hearly : (q.step false s.line).1.early = true
    · have hun' : (s.irqPrintf false q).unflushed = s.main.flushes := if_pos hearly
      rw [hun'] at hne
      have hq' : q.early = true := by
        by_contra hlate
        exact hne (h.alone q hq (Bool.eq_false_iff.mpr hlate))
      have hun0 : s.unflushed = s.main.flushes := by simp only [Console.unflushed, hq, if_pos hq']
      obtain ⟨v, hv⟩ := h.written (hun0 ▸ hne)
      refine ⟨v, ?_⟩
      cases q with
      | done | loop => exact hv
      | inval => cases hearly
      | test | write | flush => cases hq'
    · have hun' : (s.irqPrintf false q).unflushed = (q.step false s.line).1.flushes := if_neg hearly
      rw [hun'] at hne
      exact Printf.step_written hne
  · have htext : (s.irqPrintf false q).sentText = s.sentText ++ q.flushes.toList :=
      sentText_sends s .irq q.flushes
    rw [htext]
    exact h.plain_sends hplain

theorem Lossless.step (h : Lossless s) {a : Act} (hc : Careful s a) {s' : Console}
    (hst : consoleStep s a = some s') : Lossless s' := by
  obtain ⟨htimeout, hplain, hdiscards, hoverwrites⟩ := hc
  obtain ⟨p, hmain⟩ := h.main
  have hrun := h.toRunning.step hst
  cases consoleStep_moves hmain hst with
  | reader => exact h.readerStep
  | main timeout hnone =>
    obtain rfl : timeout = false := htimeout
    rw [Plain, Act.sends, hmain] at hplain
    refine h.mainPrintf hmain hnone hrun hplain fun hne => ?_
    rw [Act.overwrites, hmain, Bool.and_eq_false_iff] at hoverwrites
    rcases hoverwrites with hnot | h0
    · exact absurd (Option.isNone_iff_eq_none.mp (Option.isSome_eq_false_iff.mp hnot)) hne
    · exact not_not.mp (of_decide_eq_false h0)
  | handler timeout q hq =>
    obtain rfl : timeout = false := htimeout
    rw [Plain, Act.sends, hq] at hplain
    refine h.irqPrintf hq hrun hplain fun c fmt hinval => ?_
    rw [Act.discards, hq, hinval] at hdiscards
    exact Option.isNone_iff_eq_none.mp (Option.isSome_eq_false_iff.mp hdiscards)
  | call buffer p' hnone hp hp' =>
    refine ⟨hrun, h.keep, h.holds, h.window, ?_, ?_, ?_, h.irqChar, h.plain⟩
    · intro q hq
      cases hnone.symm.trans hq
    · intro hne
      have hun' : Console.unflushed { s with main := .printf p' } = _ := unflushed_main hnone
      exact absurd (hun'.trans (Printf.flushes_of_early (Printf.early_of_quiet hp'))) hne
    · intro p'' he
      rw [← MainPc.printf.inj he, Printf.char_of_quiet hp']
      rintro ⟨⟩
  | irq _ o _ _ hs ho =>
    refine ⟨hrun, h.keep, h.holds, ?_, ?_, ?_, h.mainChar, ?_, h.plain⟩
    · exact fun q hq => Printf.window_of_quiet _ (ho q hq)
    · intro q hq hlate
      cases hlate.symm.trans (Printf.early_of_quiet (ho q hq))
    · intro hne
      refine h.written ?_
      rw [unflushed_quiet hs]
      rwa [unflushed_quiet ho] at hne
    · intro q hq
      rw [Printf.char_of_quiet (ho q hq)]
      rintro ⟨⟩

end Lossless

/-! ## Runs -/

theorem running_reach {s : Console} (hs : console.Reach s) : Starting s ∨ Running s :=
  reach_initialized (fun _ => Initialized.running) (fun _ _ _ h _ hst => h.step hst) hs

/-! ## The main thread alone -/

/-- From its test on, the main thread has the mailbox for itself. -/
structure Serial (s : Console) : Prop extends Lossless s where
  handler : s.handler = none
  mainWindow : ∀ p, s.main = .printf p → p.Window s.line

theorem Initialized.serial {s : Console} (h : Initialized s) : Serial s := by
  refine ⟨h.lossless, h.handler, fun p hp => ?_⟩
  rw [h.main] at hp
  rw [← MainPc.printf.inj hp]
  trivial

theorem Serial.careful {s : Console} (h : Serial s) {a : Act} (hc : MainOnly s a)
    (hplain : Plain s a) : Careful s a := by
  obtain ⟨htimeout, -⟩ := hc
  refine ⟨htimeout, hplain, ?_, ?_⟩
  · cases a with
    | handler => rw [Act.discards, h.handler]
    | call | main | irq | irqCall | irqReturn | reader => rfl
  · cases a with
    | main timeout =>
      obtain ⟨p, hmain⟩ := h.main
      have hwindow := h.mainWindow p hmain
      rw [Act.overwrites, hmain]
      cases p with
      | flush c fmt =>
        have h0 : s.line.mem.str = 0#8 := hwindow
        simp [h0]
      | done | loop | inval | test | write => rfl
    | call | handler | irq | irqCall | irqReturn | reader => rfl

theorem Serial.step {s s' : Console} (h : Serial s) {a : Act} (hc : MainOnly s a)
    (hplain : Plain s a) (hst : consoleStep s a = some s') : Serial s' := by
  obtain ⟨p, hmain⟩ := h.main
  have hlossless := h.toLossless.step (h.careful hc hplain) hst
  cases consoleStep_moves hmain hst with
  | reader =>
    exact ⟨hlossless, h.handler, fun p' hp' => (h.mainWindow p' hp').reader h.copied⟩
  | main timeout hnone =>
    obtain rfl : timeout = false := hc.1
    refine ⟨hlossless, hnone, fun p' hp' => ?_⟩
    rw [← MainPc.printf.inj hp']
    exact Printf.step_window (h.mainWindow p hmain)
  | handler timeout q hq => cases h.handler.symm.trans hq
  | call buffer p' hnone hp hp' =>
    refine ⟨hlossless, hnone, fun p'' he => ?_⟩
    rw [← MainPc.printf.inj he]
    exact Printf.window_of_quiet _ hp'
  | irq _ o hirq => exact absurd h.handler (hirq.resolve_left hc.2)

theorem serial_reach {s : Console}
    (hs : console.ReachWhere (fun s a => MainOnly s a ∧ Plain s a) s) : Starting s ∨ Serial s :=
  reach_initialized (fun _ => Initialized.serial) (fun _ _ _ h hc hst => h.step hc.1 hc.2 hst) hs

/-- What the mailbox is for: all that was sent is printed, but for two characters on their way. -/
def Delivers (s : Console) : Prop :=
  ∃ inFlight : List (BitVec 8), s.sentText = s.printed ++ inFlight ∧ inFlight.length ≤ 2

theorem Starting.sentText {s : Console} (h : Starting s) : s.sentText = [] := by
  rw [Console.sentText, h.sent]
  rfl

/-- **The mailbox keeps the order**: in every run what is printed is a subsequence of what was sent,
and when the main thread prints alone, without a timeout and without a `%`, nothing is missing. -/
theorem mailbox_inOrder (s : Console) :
    (console.Reach s → s.printed.Sublist s.sentText) ∧
      (console.ReachWhere (fun s a => MainOnly s a ∧ Plain s a) s → Delivers s) := by
  constructor
  · intro hs
    rcases running_reach hs with h | h
    · rw [h.printed]
      exact List.nil_sublist _
    · exact (List.sublist_append_left _ _).trans h.text
  · intro hs
    rcases serial_reach hs with h | h
    · exact ⟨[], by rw [h.sentText, h.printed]; rfl, Nat.zero_le _⟩
    · exact ⟨s.inFlight, h.keep, length_inFlight s⟩

/-- `gecko_init`, and the PPC past its wait. -/
def initRun : List Act := List.replicate 4 (.main false) ++ List.replicate 2 .reader

/-- A pass of the loop of `gecko_printf`. -/
def sendRun : List Act := List.replicate 5 (.main false)

/-- A pass of the loop of the reader. -/
def printRun : List Act := List.replicate 6 .reader

/-- `gecko_printf("ab")`: the reader has taken the first character and not yet printed it. -/
def abRun : List Act :=
  List.flatten [initRun, [.call [0x61#8, 0x62#8]], sendRun, List.replicate 5 .reader, sendRun]

theorem mailbox_inOrder_ab :
    ∃ s, console.execWhere (fun s a => MainOnly s a ∧ Plain s a) started abRun = some s ∧
      s.sentText = [0x61#8, 0x62#8] ∧ s.printed = [] ∧ s.printed.Sublist s.sentText ∧ Delivers s := by
  have hrun : (console.execWhere (fun s a => MainOnly s a ∧ Plain s a) started abRun).map
      (fun s => (s.sentText, s.printed)) = some ([0x61#8, 0x62#8], []) := by decide +kernel
  obtain ⟨s, hs, heq⟩ := Option.map_eq_some_iff.mp hrun
  obtain ⟨hsent, hprinted⟩ := Prod.mk.inj heq
  have hreach : console.ReachWhere (fun s a => MainOnly s a ∧ Plain s a) s :=
    Machine.ReachWhere.execWhere (.init rfl) hs
  exact ⟨s, hs, hsent, hprinted, (mailbox_inOrder s).1 hreach.reach,
    (mailbox_inOrder s).2 hreach⟩

/-- `gecko_printf("%%a")`, and both characters are taken. -/
def percentRun : List Act :=
  List.flatten [initRun, [.call [0x25#8, 0x61#8]], sendRun, printRun, sendRun, printRun]

/-- The `%` is sent, and what is printed is the `a` alone. -/
theorem mailbox_loses_percent :
    ¬∀ s, console.ReachWhere MainOnly s → s.printed.Sublist s.sentText ∧ Delivers s := by
  intro h
  have hrun : (console.execWhere MainOnly started percentRun).map
      (fun s => (s.sentText, s.printed)) = some ([0x25#8, 0x61#8], [0x61#8]) := by decide +kernel
  obtain ⟨s, hs, heq⟩ := Option.map_eq_some_iff.mp hrun
  obtain ⟨hsent, hprinted⟩ := Prod.mk.inj heq
  obtain ⟨-, inFlight, htext, -⟩ := h s (Machine.ReachWhere.execWhere (.init rfl) hs)
  rw [hsent, hprinted, List.singleton_append] at htext
  exact absurd (List.cons.inj htext).1 (by decide)

end VwiiNandTools.Gecko
