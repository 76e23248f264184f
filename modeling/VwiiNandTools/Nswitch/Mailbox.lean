import VwiiNandTools.Lib.Transition
import VwiiNandTools.Nswitch.Main

/-!
# The mailbox

The two CPUs together: the main thread of the ARM, an interrupt handler that prints too, and the
reader on the PPC, one access at a time in any order.  `sent` lists the characters that
`gecko_printf` has flushed and `printed` what the PPC has put out.

* `Running` holds in every run: what is printed, and what is on its way (`inFlight`), is a
  subsequence of what was sent.
* `Lossless` holds as long as no character is written over: then nothing is missing either.
-/

namespace VwiiNandTools.Gecko

open Noncoherent Transition

/-! ## The machine -/

/-- Who calls `gecko_printf`. -/
inductive Context
  | main
  | irq
  deriving DecidableEq

structure Console where
  line : Line
  main : MainPc
  handler : Option Printf
  geckoEnabled : BitVec 8
  reader : Reader
  sent : List (Context × BitVec 8)
  printed : List (BitVec 8)

inductive Act
  | call (buffer : List (BitVec 8))
  | main (timeout : Bool)
  | irq
  | irqCall (buffer : List (BitVec 8))
  | handler (timeout : Bool)
  | irqReturn
  | reader
  deriving DecidableEq

def Context.sends (ctx : Context) (c : Option (BitVec 8)) : List (Context × BitVec 8) :=
  (c.map (Prod.mk ctx)).toList

/-- The main thread rests while the handler runs, and interrupts are enabled after `gecko_init`. -/
def consoleStep (s : Console) : Act → Option Console
  | .call buffer =>
    if s.main = .printf .done ∧ s.handler = none then
      some { s with main := .printf (geckoPrintf s.geckoEnabled buffer) }
    else none
  | .main timeout =>
    if s.handler = none then
      some { s with
        main := (s.main.step timeout s.geckoEnabled s.line).1
        geckoEnabled := (s.main.step timeout s.geckoEnabled s.line).2.1
        line := (s.main.step timeout s.geckoEnabled s.line).2.2
        sent := s.sent ++ Context.main.sends s.main.flushes }
    else none
  | .irq =>
    match s.main, s.handler with
    | .printf _, none => some { s with handler := some .done }
    | _, _ => none
  | .irqCall buffer =>
    if s.handler = some .done then
      some { s with handler := some (geckoPrintf s.geckoEnabled buffer) }
    else none
  | .handler timeout =>
    match s.handler with
    | some p =>
      some { s with
        handler := some (p.step timeout s.line).1
        line := (p.step timeout s.line).2
        sent := s.sent ++ Context.irq.sends p.flushes }
    | none => none
  | .irqReturn => if s.handler = some .done then some { s with handler := none } else none
  | .reader =>
    some { s with
      reader := (s.reader.step s.line).1
      line := (s.reader.step s.line).2
      printed := s.printed ++ s.reader.prints }

/-- The PPC has set up the line and starts the ARM, which has no copy of it. -/
def started : Console where
  line := ⟨armconfig, fun _ => none⟩
  main := .initMagic
  handler := none
  geckoEnabled := 0#8
  reader := .waitInval
  sent := []
  printed := []

def console : Machine Console Act where
  init s := s = started
  step := consoleStep

/-! ## What is on its way -/

def Console.sentText (s : Console) : List (BitVec 8) := s.sent.map Prod.snd

/-- The character that the reader has in hand. -/
def Reader.taken (line : Line) : Reader → List (BitVec 8)
  | .read => [(line.view .ppc).str]
  | .clear c | .flush c | .print c => [c]
  | _ => []

/-- The reader has taken a character that memory still holds. -/
def Reader.holds : Reader → Bool
  | .read | .clear _ | .flush _ => true
  | _ => false

/-- The character that waits in memory. -/
def Console.box (s : Console) : List (BitVec 8) :=
  if s.reader.holds = true ∨ s.line.mem.str = 0#8 then [] else [s.line.mem.str]

def Console.inFlight (s : Console) : List (BitVec 8) := s.reader.taken s.line ++ s.box

theorem length_inFlight (s : Console) : s.inFlight.length ≤ 2 := by
  have htaken : (s.reader.taken s.line).length ≤ 1 := by
    cases s.reader <;> simp [Reader.taken]
  have hbox : s.box.length ≤ 1 := by
    rw [Console.box]
    split <;> simp
  rw [Console.inFlight, List.length_append]
  omega

/-! ## `gecko_printf` -/

/-- Outside a pass of the loop. -/
def Printf.quiet : Printf → Bool
  | .done | .loop _ => true
  | _ => false

/-- The line has not been dropped yet. -/
def Printf.early : Printf → Bool
  | .done | .loop _ | .inval _ _ => true
  | _ => false

def Printf.char : Printf → Option (BitVec 8)
  | .inval c _ | .test c _ | .write c _ | .flush c _ => some c
  | _ => none

theorem quiet_geckoPrintf (geckoEnabled : BitVec 8) (buffer : List (BitVec 8)) :
    (geckoPrintf geckoEnabled buffer).quiet = true := by
  rw [geckoPrintf]
  split <;> rfl

theorem Printf.early_of_quiet {p : Printf} (h : p.quiet = true) : p.early = true := by
  cases p <;> first | rfl | cases h

theorem Printf.flushes_of_early {p : Printf} (h : p.early = true) : p.flushes = none := by
  cases p <;> first | rfl | cases h

theorem Printf.flushes_ite (p : Printf) :
    (if p.early = true then none else p.flushes) = p.flushes := by
  cases p <;> rfl

theorem Printf.char_of_quiet {p : Printf} (h : p.quiet = true) : p.char = none := by
  cases p <;> first | rfl | cases h

theorem Printf.next_cases (fmt : List (BitVec 8)) :
    Printf.next fmt = .done ∨ ∃ c rest, c ≠ 0#8 ∧ Printf.next fmt = .inval c rest := by
  cases fmt with
  | nil => exact Or.inl rfl
  | cons c rest =>
    rw [Printf.next]
    split
    · exact Or.inl rfl
    · next h => exact Or.inr ⟨c, rest, h, rfl⟩

section Step

variable {timeout : Bool} {p : Printf} {line : Line}

theorem Printf.step_ppc : (p.step timeout line).2.cache .ppc = line.cache .ppc := by
  have hne : Cpu.ppc ≠ Cpu.arm := by decide
  cases p with
  | done | loop => rfl
  | inval => exact Cell.cache_invalidate hne
  | test => exact Cell.cache_load hne
  | write c => exact Cell.cache_store hne fun l => { l with str := c }
  | flush => exact Cell.cache_clean hne

theorem Printf.step_mem : (p.step timeout line).2.mem =
    if p.flushes = none then line.mem else (line.pending .arm).getD line.mem := by
  cases p with
  | flush => exact Cell.mem_clean
  | test => exact Cell.mem_load
  | done | loop | inval | write => rfl

/-- What the ARM has written and not flushed is the character of the pass, or else `o`, which an
interrupted `gecko_printf` left. -/
theorem Printf.step_pending {o : Option (BitVec 8)}
    (h : ∀ v, line.pending .arm = some v →
      (if p.early = true then o else p.flushes) = some v.str) :
    ∀ v, (p.step timeout line).2.pending .arm = some v →
      (if (p.step timeout line).1.early = true then o else (p.step timeout line).1.flushes) =
        some v.str := by
  cases p with
  | done => exact h
  | loop fmt =>
    rcases Printf.next_cases fmt with hn | ⟨c, rest, -, hn⟩ <;>
    · rw [Printf.step, hn]
      exact h
  | inval =>
    intro v hv
    rw [Printf.step, Cell.pending_invalidate] at hv
    cases hv
  | test =>
    intro v hv
    rw [Printf.step, Cell.pending_load] at hv
    cases h v hv
  | write c fmt =>
    intro v hv
    rw [Printf.step, Cell.pending_store] at hv
    rw [← Option.some.inj hv]
    rfl
  | flush =>
    intro v hv
    rw [Printf.step, Cell.pending_clean] at hv
    cases hv

end Step

/-! ## The reader -/

/-- What the copy of the PPC is, where that matters. -/
def Reader.Copied (line : Line) : Reader → Prop
  | .waitTest | .test => line.cached .ppc = false
  | .read => line.cached .ppc = true ∧ (line.view .ppc).str ≠ 0#8
  | .flush _ => ∃ v, line.pending .ppc = some v ∧ v.str = 0#8
  | _ => True

section Reader

variable {r : Reader} {line line' : Line}

theorem Reader.Copied.frame (h : r.Copied line) (hc : line'.cache .ppc = line.cache .ppc) :
    r.Copied line' := by
  cases r with
  | waitTest | test => exact (Cell.cached_congr hc).trans h
  | read => exact ⟨(Cell.cached_congr hc).trans h.1, by rw [Cell.view_congr hc h.1]; exact h.2⟩
  | flush =>
    obtain ⟨v, hv, h0⟩ := h
    exact ⟨v, (Cell.pending_congr hc).trans hv, h0⟩
  | waitInval | inval | clear | print => trivial

theorem Reader.taken_frame (h : r.Copied line) (hc : line'.cache .ppc = line.cache .ppc) :
    r.taken line' = r.taken line := by
  cases r with
  | read => rw [Reader.taken, Reader.taken, Cell.view_congr hc h.1]
  | waitTest | test | flush | waitInval | inval | clear | print => rfl

theorem Reader.step_copied : (r.step line).1.Copied (r.step line).2 := by
  cases r with
  | waitInval | inval => exact Cell.cached_invalidate
  | waitTest =>
    rw [Reader.step]
    split <;> trivial
  | test =>
    rw [Reader.step]
    split
    · trivial
    · next h => exact ⟨Cell.cached_load, by rwa [Cell.view_load]⟩
  | clear =>
    refine ⟨{ line.view .ppc with str := 0#8 }, ?_, rfl⟩
    rw [Reader.step, Cell.pending_store]
  | read | flush | print => trivial

theorem Reader.step_arm : (r.step line).2.cache .arm = line.cache .arm := by
  have hne : Cpu.arm ≠ Cpu.ppc := by decide
  cases r with
  | waitInval | inval => exact Cell.cache_invalidate hne
  | waitTest | test | read => exact Cell.cache_load hne
  | clear => exact Cell.cache_store hne fun l => { l with str := 0#8 }
  | flush => exact Cell.cache_flush hne
  | print => rfl

/-- Only the flush of the reader changes memory, and it empties the mailbox. -/
theorem Reader.step_mem (h : r.Copied line) :
    (r.step line).2.mem = line.mem ∨
      (∃ c, r = .flush c) ∧ (r.step line).2.mem.str = 0#8 := by
  cases r with
  | flush c =>
    obtain ⟨v, hv, h0⟩ := h
    refine Or.inr ⟨⟨c, rfl⟩, ?_⟩
    rw [Reader.step, Cell.mem_flush, hv]
    exact h0
  | waitTest | test | read => exact Or.inl Cell.mem_load
  | waitInval | inval | clear | print => exact Or.inl rfl

end Reader

/-! ## The steps -/

def Console.readerStep (s : Console) : Console :=
  { s with
    reader := (s.reader.step s.line).1
    line := (s.reader.step s.line).2
    printed := s.printed ++ s.reader.prints }

/-- A step of `gecko_printf` on the main thread. -/
def Console.mainPrintf (s : Console) (timeout : Bool) (p : Printf) : Console :=
  { s with
    main := .printf (p.step timeout s.line).1
    line := (p.step timeout s.line).2
    sent := s.sent ++ Context.main.sends p.flushes }

/-- A step of `gecko_printf` in the handler. -/
def Console.irqPrintf (s : Console) (timeout : Bool) (p : Printf) : Console :=
  { s with
    handler := some (p.step timeout s.line).1
    line := (p.step timeout s.line).2
    sent := s.sent ++ Context.irq.sends p.flushes }

/-- What a step does once the main thread is past `gecko_init`, at `p`. -/
inductive Moves (s : Console) (p : Printf) : Act → Console → Prop
  | reader : Moves s p .reader s.readerStep
  | main (timeout : Bool) : s.handler = none → Moves s p (.main timeout) (s.mainPrintf timeout p)
  | handler (timeout : Bool) (q : Printf) : s.handler = some q →
      Moves s p (.handler timeout) (s.irqPrintf timeout q)
  | call (buffer : List (BitVec 8)) (p' : Printf) : s.handler = none → p.quiet = true →
      p'.quiet = true → Moves s p (.call buffer) { s with main := .printf p' }
  | irq (a : Act) (o : Option Printf) : a = .irq ∨ s.handler ≠ none → a ≠ .reader →
      (∀ q ∈ s.handler, q.quiet = true) → (∀ q ∈ o, q.quiet = true) →
      Moves s p a { s with handler := o }

theorem consoleStep_moves {s s' : Console} {a : Act} {p : Printf} (hmain : s.main = .printf p)
    (h : consoleStep s a = some s') : Moves s p a s' := by
  cases a with
  | call buffer =>
    rw [consoleStep] at h
    split at h
    · next hc =>
      obtain rfl : p = .done := MainPc.printf.inj (hmain.symm.trans hc.1)
      obtain rfl := Option.some.inj h
      exact .call buffer _ hc.2 rfl (quiet_geckoPrintf _ _)
    · cases h
  | main timeout =>
    rw [consoleStep] at h
    split at h
    · next hnone =>
      obtain rfl := Option.some.inj h
      rw [hmain]
      exact .main timeout hnone
    · cases h
  | irq =>
    rw [consoleStep] at h
    split at h
    · next hnone =>
      obtain rfl := Option.some.inj h
      refine .irq .irq (some .done) (Or.inl rfl) (by decide) ?_ ?_
      · rw [hnone]
        exact fun q hq => nomatch hq
      · rintro q ⟨⟩
        rfl
    · cases h
  | irqCall buffer =>
    rw [consoleStep] at h
    split at h
    · next hdone =>
      obtain rfl := Option.some.inj h
      refine .irq (.irqCall buffer) (some _) (Or.inr ?_) Act.noConfusion ?_ ?_
      · rw [hdone]
        exact Option.some_ne_none _
      · rw [hdone]
        rintro q ⟨⟩
        rfl
      · rintro q ⟨⟩
        exact quiet_geckoPrintf _ _
    · cases h
  | handler timeout =>
    rw [consoleStep] at h
    split at h
    · next q hq =>
      obtain rfl := Option.some.inj h
      exact .handler timeout q hq
    · cases h
  | irqReturn =>
    rw [consoleStep] at h
    split at h
    · next hdone =>
      obtain rfl := Option.some.inj h
      refine .irq .irqReturn none (Or.inr ?_) (by decide) ?_ ?_
      · rw [hdone]
        exact Option.some_ne_none _
      · rw [hdone]
        rintro q ⟨⟩
        rfl
      · exact fun q hq => nomatch hq
    · cases h
  | reader =>
    obtain rfl := Option.some.inj h
    exact .reader

/-! ## Nothing is printed twice -/

/-- The character that the ARM has written and not flushed, if it has not been dropped. -/
def Console.unflushed (s : Console) : Option (BitVec 8) :=
  match s.handler with
  | none => s.main.flushes
  | some q => if q.early = true then s.main.flushes else q.flushes

/-- In `gecko_init`: nobody has sent or printed anything, and the reader waits. -/
structure Starting (s : Console) : Prop where
  handler : s.handler = none
  reader : s.reader = .waitInval ∨ s.reader = .waitTest
  copied : s.reader.Copied s.line
  mem : s.line.mem = armconfig
  main : (s.main = .initMagic ∨ s.main = .initConfig ∨ s.main = .initWrite) ∧
      s.line.view .arm = armconfig ∧ s.line.pending .arm = none ∨
    s.main = .initFlush ∧ s.line.pending .arm = some { armconfig with debugConfig := 0#8 }
  sent : s.sent = []
  printed : s.printed = []

/-- Past `gecko_init`. -/
structure Running (s : Console) : Prop where
  main : ∃ p, s.main = .printf p
  copied : s.reader.Copied s.line
  pending : ∀ v, s.line.pending .arm = some v → s.unflushed = some v.str
  text : (s.printed ++ s.inFlight).Sublist s.sentText

theorem sentText_sends (s : Console) (ctx : Context) (c : Option (BitVec 8)) :
    (s.sent ++ ctx.sends c).map Prod.snd = s.sentText ++ c.toList := by
  rw [List.map_append, Console.sentText, Context.sends]
  cases c <;> rfl

/-- What a step of `gecko_printf` does to the text: it sends the character it flushes, which takes
the mailbox, is lost, or drives out what is in the mailbox. -/
theorem box_flush {s s' : Console} {timeout : Bool} {p : Printf} (hcop : s.reader.Copied s.line)
    (hpend : ∀ v c, p.flushes = some c → s.line.pending .arm = some v → v.str = c)
    (hreader : s'.reader = s.reader) (hline : s'.line = (p.step timeout s.line).2) :
    s'.reader.Copied s'.line ∧ s'.reader.taken s'.line = s.reader.taken s.line ∧
      s'.box.Sublist (s.box ++ p.flushes.toList) := by
  have hppc : s'.line.cache .ppc = s.line.cache .ppc := hline ▸ Printf.step_ppc
  rw [hreader]
  refine ⟨hcop.frame hppc, Reader.taken_frame hcop hppc, ?_⟩
  have hmem : s'.line.mem = _ := hline ▸ Printf.step_mem
  cases hf : p.flushes with
  | none =>
    rw [hf, if_pos rfl] at hmem
    rw [Console.box, Console.box, hreader, hmem, Option.toList_none, List.append_nil]
  | some c =>
    rw [hf, if_neg (Option.some_ne_none c)] at hmem
    cases hv : s.line.pending .arm with
    | none =>
      rw [hv, Option.getD_none] at hmem
      rw [Console.box, Console.box, hreader, hmem]
      exact List.sublist_append_left _ _
    | some v =>
      rw [hv, Option.getD_some] at hmem
      rw [Console.box, hmem, hpend v c hf hv]
      split
      · exact List.nil_sublist _
      · exact List.sublist_append_right _ _

/-- The reader takes what is in the mailbox, and prints what it has taken. -/
theorem reader_text {s : Console} (hcop : s.reader.Copied s.line) :
    (∀ c, s.reader ≠ .print c) ∧ s.readerStep.printed = s.printed ∧
        s.readerStep.inFlight = s.inFlight ∨
      ∃ c, s.reader = .print c ∧ s.inFlight = c :: s.box ∧ s.readerStep.inFlight = s.box ∧
        s.readerStep.printed = s.printed ++ printfReceived c := by
  have hreader : s.readerStep.reader = (s.reader.step s.line).1 := rfl
  have hline : s.readerStep.line = (s.reader.step s.line).2 := rfl
  have hprinted : s.readerStep.printed = s.printed ++ s.reader.prints := rfl
  generalize s.readerStep = s' at hreader hline hprinted ⊢
  cases hr : s.reader with
  | print c =>
    rw [hr] at hreader hline hprinted
    refine Or.inr ⟨c, rfl, ?_, ?_, hprinted⟩
    · rw [Console.inFlight, hr]
      rfl
    · rw [Console.inFlight, Console.box, Console.box, hr, hreader, hline]
      rfl
  | flush c =>
    rw [hr] at hcop hreader hline hprinted
    obtain ⟨v, hv, h0⟩ := hcop
    have hmem : s'.line.mem.str = 0#8 := by
      rw [hline, Reader.step, Cell.mem_flush, hv, Option.getD_some, h0]
    refine Or.inl ⟨nofun, hprinted.trans (List.append_nil _), ?_⟩
    rw [Console.inFlight, Console.inFlight, Console.box, Console.box, if_pos (Or.inr hmem), hr,
      hreader]
    simp [Reader.step, Reader.taken, Reader.holds]
  | test =>
    rw [hr] at hcop hreader hline hprinted
    have hview : s.line.view .ppc = s.line.mem := Cell.view_of_not_cached hcop
    refine Or.inl ⟨nofun, hprinted.trans (List.append_nil _), ?_⟩
    rw [Console.inFlight, Console.inFlight, Console.box, Console.box, hr, hreader, hline]
    by_cases h0 : s.line.mem.str = 0#8
    · simp [Reader.step, Reader.taken, hview, h0]
    · simp [Reader.step, Reader.taken, Reader.holds, hview, h0]
  | waitTest =>
    rw [hr] at hreader hline hprinted
    refine Or.inl ⟨nofun, hprinted.trans (List.append_nil _), ?_⟩
    rw [Console.inFlight, Console.inFlight, Console.box, Console.box, hr, hreader, hline]
    by_cases h0 : (s.line.view .ppc).debugConfig = 0#8
    · simp [Reader.step, Reader.taken, Reader.holds, h0]
    · simp [Reader.step, Reader.taken, Reader.holds, h0]
  | waitInval | inval | read | clear =>
    rw [hr] at hreader hline hprinted
    refine Or.inl ⟨nofun, hprinted.trans (List.append_nil _), ?_⟩
    rw [Console.inFlight, Console.inFlight, Console.box, Console.box, hr, hreader, hline]
    simp [Reader.step, Reader.taken, Reader.holds]

theorem printfReceived_sublist (c : BitVec 8) : (printfReceived c).Sublist [c] := by
  rw [printfReceived]
  split
  · exact List.nil_sublist _
  · exact List.Sublist.refl _

theorem unflushed_main {s : Console} (h : s.handler = none) : s.unflushed = s.main.flushes := by
  rw [Console.unflushed, h]

theorem unflushed_printf {s : Console} {p : Printf} (hnone : s.handler = none)
    (hmain : s.main = .printf p) : s.unflushed = p.flushes := by
  rw [unflushed_main hnone, hmain]
  rfl

/-- The handler flushes only after it has dropped the line. -/
theorem unflushed_irq {s : Console} {q : Printf} (hq : s.handler = some q) {c : BitVec 8}
    (hc : q.flushes = some c) : s.unflushed = some c := by
  have hlate : ¬q.early = true := by
    intro hearly
    rw [Printf.flushes_of_early hearly] at hc
    cases hc
  simp only [Console.unflushed, hq, if_neg hlate, hc]

theorem unflushed_quiet {s : Console} (h : ∀ q ∈ s.handler, q.quiet = true) :
    s.unflushed = s.main.flushes := by
  rw [Console.unflushed]
  split
  · rfl
  · next q hq => rw [if_pos (Printf.early_of_quiet (h q hq))]

theorem Running.printf {s : Console} (h : Running s) (s' : Console) (ctx : Context) {timeout : Bool}
    {p : Printf} (hun : ∀ c, p.flushes = some c → s.unflushed = some c)
    (hreader : s'.reader = s.reader)
    (hline : s'.line = (p.step timeout s.line).2) (hprinted : s'.printed = s.printed)
    (hsent : s'.sent = s.sent ++ ctx.sends p.flushes) :
    s'.reader.Copied s'.line ∧ (s'.printed ++ s'.inFlight).Sublist s'.sentText := by
  have hpend (v : ArmbootConfig) (c : BitVec 8) (hf : p.flushes = some c)
      (hv : s.line.pending .arm = some v) : v.str = c :=
    Option.some.inj ((h.pending v hv).symm.trans (hun c hf))
  obtain ⟨hcop, htaken, hbox⟩ := box_flush h.copied hpend hreader hline
  refine ⟨hcop, ?_⟩
  have htext : s'.sentText = s.sentText ++ p.flushes.toList := by
    rw [← sentText_sends s ctx, ← hsent]
    rfl
  rw [hprinted, Console.inFlight, htaken, htext, ← List.append_assoc]
  refine ((List.append_sublist_append_left _).mpr hbox).trans ?_
  rw [← List.append_assoc]
  refine (List.append_sublist_append_right _).mpr ?_
  rw [List.append_assoc]
  exact h.text

theorem Running.step {s s' : Console} {a : Act} (h : Running s) (hst : consoleStep s a = some s') :
    Running s' := by
  obtain ⟨p, hmain⟩ := h.main
  cases consoleStep_moves hmain hst with
  | reader =>
    refine ⟨⟨p, hmain⟩, Reader.step_copied, ?_, ?_⟩
    · intro v hv
      have harm : s.readerStep.line.cache .arm = s.line.cache .arm := Reader.step_arm
      rw [Cell.pending_congr harm] at hv
      exact h.pending v hv
    · rcases reader_text h.copied with ⟨-, hp, hf⟩ | ⟨c, -, hf, hf', hp⟩
      · rw [hp, hf]
        exact h.text
      · rw [hp, hf', List.append_assoc]
        refine List.Sublist.trans ?_ h.text
        rw [hf, ← List.singleton_append]
        exact (List.append_sublist_append_left _).mpr
          ((List.append_sublist_append_right _).mpr (printfReceived_sublist c))
  | main timeout hnone =>
    have hun := unflushed_printf hnone hmain
    obtain ⟨hcop, htext⟩ : _ ∧ _ := h.printf (s.mainPrintf timeout p) .main
      (fun c hc => hun.trans hc) rfl rfl rfl rfl
    refine ⟨⟨_, rfl⟩, hcop, ?_, htext⟩
    intro v hv
    have hpend := Printf.step_pending (o := none) (fun v hv => by
      rw [Printf.flushes_ite, ← hun]
      exact h.pending v hv) v hv
    rw [Printf.flushes_ite] at hpend
    have hun' : (s.mainPrintf timeout p).unflushed = _ := unflushed_main hnone
    exact hun'.trans hpend
  | handler timeout q hq =>
    obtain ⟨hcop, htext⟩ := h.printf (s.irqPrintf timeout q) .irq (fun _ => unflushed_irq hq) rfl rfl
      rfl rfl
    refine ⟨⟨p, hmain⟩, hcop, ?_, htext⟩
    refine Printf.step_pending fun v hv => ?_
    rw [← h.pending v hv, Console.unflushed, hq]
    rfl
  | call buffer p' hnone hp hp' =>
    refine ⟨⟨p', rfl⟩, h.copied, ?_, h.text⟩
    intro v hv
    have hun := h.pending v hv
    rw [unflushed_printf hnone hmain] at hun
    cases (Printf.flushes_of_early (Printf.early_of_quiet hp)).symm.trans hun
  | irq _ o _ _ hs ho =>
    refine ⟨⟨p, hmain⟩, h.copied, ?_, h.text⟩
    intro v hv
    rw [unflushed_quiet ho, ← unflushed_quiet hs]
    exact h.pending v hv

/-! ## `gecko_init` -/

/-- The line after `gecko_init`. -/
def enabledConfig : ArmbootConfig := { armconfig with debugConfig := 0#8 }

/-- When `gecko_init` returns. -/
structure Initialized (s : Console) : Prop where
  main : s.main = .printf .done
  handler : s.handler = none
  reader : s.reader = .waitInval ∨ s.reader = .waitTest
  copied : s.reader.Copied s.line
  mem : s.line.mem = enabledConfig
  view : s.line.view .arm = enabledConfig
  pending : s.line.pending .arm = none
  sent : s.sent = []
  printed : s.printed = []

theorem MainPc.step_ppc {timeout : Bool} {pc : MainPc} {g : BitVec 8} {line : Line} :
    (pc.step timeout g line).2.2.cache .ppc = line.cache .ppc := by
  have hne : Cpu.ppc ≠ Cpu.arm := by decide
  cases pc with
  | initMagic | initConfig => exact Cell.cache_load hne
  | initWrite => exact Cell.cache_store hne fun l => { l with debugConfig := 0#8 }
  | initFlush => exact Cell.cache_clean hne
  | printf p => exact Printf.step_ppc

theorem Starting.step {s s' : Console} {a : Act} (h : Starting s)
    (hst : consoleStep s a = some s') : Starting s' ∨ Initialized s' := by
  have hnot (p : Printf) : s.main ≠ .printf p := by
    intro hp
    rcases h.main with ⟨h' | h' | h', -⟩ | ⟨h', -⟩ <;> cases hp.symm.trans h'
  cases a with
  | call buffer =>
    rw [consoleStep] at hst
    split at hst
    · next hc => exact absurd hc.1 (hnot _)
    · cases hst
  | irq =>
    rw [consoleStep] at hst
    split at hst
    · next hp _ => exact absurd hp (hnot _)
    · cases hst
  | irqCall | handler | irqReturn =>
    rw [consoleStep, h.handler] at hst
    cases hst
  | main timeout =>
    rw [consoleStep, if_pos h.handler, Option.some.injEq, h.sent] at hst
    have hcop : s.reader.Copied (s.main.step timeout s.geckoEnabled s.line).2.2 :=
      h.copied.frame MainPc.step_ppc
    rcases h.main with ⟨hm | hm | hm, hview, hpend⟩ | ⟨hm, hpend⟩ <;>
    rw [hm] at hst hcop <;>
    subst hst
    · refine Or.inl ⟨h.handler, h.reader, hcop, Cell.mem_load.trans h.mem, Or.inl ⟨?_, ?_, ?_⟩, rfl,
        h.printed⟩
      · rw [MainPc.step, hview]
        exact Or.inr (Or.inl rfl)
      · exact Cell.view_load.trans hview
      · exact Cell.pending_load.trans hpend
    · exact Or.inl ⟨h.handler, h.reader, hcop, Cell.mem_load.trans h.mem,
        Or.inl ⟨Or.inr (Or.inr rfl), Cell.view_load.trans hview, Cell.pending_load.trans hpend⟩, rfl,
        h.printed⟩
    · refine Or.inl ⟨h.handler, h.reader, hcop, h.mem, Or.inr ⟨rfl, ?_⟩, rfl, h.printed⟩
      rw [MainPc.step, Cell.pending_store, hview]
    · refine Or.inr ⟨rfl, h.handler, h.reader, hcop, ?_, ?_, Cell.pending_clean, rfl, h.printed⟩
      · rw [MainPc.step, Cell.mem_clean, hpend]
        rfl
      · rw [MainPc.step, Cell.view_clean, Cell.view_of_pending hpend]
        rfl
  | reader =>
    obtain rfl := Option.some.inj hst
    have harm : (s.reader.step s.line).2.cache .arm = s.line.cache .arm := Reader.step_arm
    have hmem : (s.reader.step s.line).2.mem = s.line.mem := by
      rcases h.reader with hr | hr <;> rw [hr]
      · exact Cell.mem_invalidate
      · exact Cell.mem_load
    have hreader : (s.reader.step s.line).1 = .waitInval ∨
        (s.reader.step s.line).1 = .waitTest := by
      rcases h.reader with hr | hr
      · rw [hr]
        exact Or.inr rfl
      · have hc := h.copied
        rw [hr] at hc ⊢
        rw [Reader.step, Cell.view_of_not_cached hc, h.mem]
        exact Or.inl rfl
    have hprints : s.reader.prints = [] := by
      rcases h.reader with hr | hr <;> rw [hr] <;> rfl
    refine Or.inl ⟨h.handler, hreader, Reader.step_copied, hmem.trans h.mem, ?_, h.sent, ?_⟩
    · rcases h.main with ⟨hm, hview, hpend⟩ | ⟨hm, hpend⟩
      · refine Or.inl ⟨hm, ?_, (Cell.pending_congr harm).trans hpend⟩
        rcases Cell.view_cases harm with hv | hv
        · exact hv.trans hview
        · exact hv.trans (hmem.trans h.mem)
      · exact Or.inr ⟨hm, (Cell.pending_congr harm).trans hpend⟩
    · rw [h.printed, hprints]
      rfl

theorem started_starting : Starting started :=
  ⟨rfl, Or.inl rfl, trivial, rfl, Or.inl ⟨Or.inl rfl, rfl, rfl⟩, rfl, rfl⟩

theorem Initialized.inFlight {s : Console} (h : Initialized s) : s.inFlight = [] := by
  have htaken : s.reader.taken s.line = [] := by
    rcases h.reader with hr | hr <;> rw [hr] <;> rfl
  rw [Console.inFlight, htaken, Console.box, if_pos (Or.inr (by rw [h.mem]; rfl))]
  rfl

theorem Initialized.running {s : Console} (h : Initialized s) : Running s := by
  refine ⟨⟨.done, h.main⟩, h.copied, ?_, ?_⟩
  · intro v hv
    rw [h.pending] at hv
    cases hv
  · rw [h.inFlight, h.printed]
    exact List.nil_sublist _

/-- **The invariant rule of the console**: what holds when `gecko_init` returns and is kept by every
step that meets `C`, holds from then on. -/
theorem reach_initialized {C : Console → Act → Prop} {I : Console → Prop}
    (h0 : ∀ s, Initialized s → I s)
    (hstep : ∀ s a s', I s → C s a → consoleStep s a = some s' → I s') {s : Console}
    (hs : console.ReachWhere C s) : Starting s ∨ I s := by
  induction hs with
  | init h =>
    rw [show _ = started from h]
    exact Or.inl started_starting
  | step _ hc hst ih =>
    rcases ih with h | h
    · exact (h.step hst).imp_right (h0 _)
    · exact Or.inr (hstep _ _ _ h hc hst)

end VwiiNandTools.Gecko
