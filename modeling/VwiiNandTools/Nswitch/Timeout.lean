import VwiiNandTools.Lib.FreeTimer
import VwiiNandTools.Lib.Path
import VwiiNandTools.Nswitch.Mailbox

/-!
# The timeout of the mailbox

`gecko_printf` waits 38000 ticks for the PPC to take a character, and then writes over it.  Here it
runs with the timer, and between its steps the PPC may empty the mailbox or leave it
(`PpcMoves`, which the steps of the reader are).

* `geckoPrintf_timeout`: whatever the PPC does, a wait is neither cut short nor too long exactly
  when its samples are timely: the deadline does not wrap and one of them falls between it and the
  wrap of the timer, or the deadline wraps and the timer has before the first test.
* `geckoPrintf_phase`: what that means for the value of the timer when the wait begins.
-/

namespace VwiiNandTools.Gecko

open Noncoherent Transition FreeTimer

/-! ## The machine -/

/-- Between two steps of the ARM the PPC leaves the copy of the ARM, and writes no character. -/
def PpcMoves (line line' : Line) : Prop :=
  line'.cache .arm = line.cache .arm ∧ (line'.mem.str = line.mem.str ∨ line'.mem.str = 0#8)

instance (line line' : Line) : Decidable (PpcMoves line line') := by
  unfold PpcMoves
  infer_instance

/-- `gecko_printf` at work, with the number of reads of `HW_TIMER` so far. -/
structure Printing where
  pc : TimedPrintf
  line : Line
  reads : ℕ

/-- A step that finds the line as the PPC has left it. -/
def printingStep (timer : ℕ → BitVec 32) (st : Printing) (line : Line) : Option Printing :=
  if PpcMoves st.line line then
    some
      { pc := (st.pc.step (timer st.reads) line).1
        line := (st.pc.step (timer st.reads) line).2
        reads := if st.pc.readsTimer line = true then st.reads + 1 else st.reads }
  else none

/-- A call, at any time. -/
def printing (timer : ℕ → BitVec 32) : Machine Printing Line where
  init st := ∃ geckoEnabled buffer, st.pc = timedPrintf geckoEnabled buffer
  step := printingStep timer

theorem PpcMoves.refl (line : Line) : PpcMoves line line := ⟨rfl, Or.inl rfl⟩

theorem PpcMoves.trans {l₁ l₂ l₃ : Line} (h : PpcMoves l₁ l₂) (h' : PpcMoves l₂ l₃) :
    PpcMoves l₁ l₃ := by
  refine ⟨h'.1.trans h.1, ?_⟩
  rcases h'.2 with hmem | hmem
  · rw [hmem]
    exact h.2
  · exact Or.inr hmem

theorem PpcMoves.empty {line line' : Line} (h : PpcMoves line line') (h0 : line.mem.str = 0#8) :
    line'.mem.str = 0#8 := by
  rcases h.2 with hmem | hmem
  · exact hmem.trans h0
  · exact hmem

/-! ## Waits -/

section Wait

variable {timer : ℕ → BitVec 32} {st₀ : Printing} (p : Path (printing timer) st₀) (n m : ℕ)

/-- In the loop that waits. -/
def TimedPrintf.waiting : TimedPrintf → Bool
  | .inval _ _ _ | .test _ _ _ => true
  | _ => false

/-- The wait that begins with step `n` goes on before step `m`. -/
def Waits : Prop := n < m ∧ ∀ i, n < i → i ≤ m → (p.state i).pc.waiting = true

/-- It ends with step `m`, which is a test; `m + 1` writes the character and `m + 2` flushes it. -/
def EndsAt : Prop := Waits p n m ∧ (p.state (m + 1)).pc.waiting = false

/-- The ticks from the first sample of the wait to the last one. -/
def waited {G : ℕ} (s : Samples 32 G) : ℕ :=
  s.elapsed ((p.state (m + 1)).reads - 1) - s.elapsed (p.state n).reads

/-- The timeout that begins with step `n`: a character that the PPC has not taken when it is written
over has had its time, and if the PPC does not take it the wait is over in time. -/
structure TimeoutHonoured {G : ℕ} (s : Samples 32 G) : Prop where
  overwrite : ∀ m, EndsAt p n m → (p.label (m + 2)).mem.str ≠ 0#8 → 38000 ≤ waited p n m s
  ends : (∀ m, Waits p n m → (p.label m).mem.str ≠ 0#8) →
    ∃ m, EndsAt p n m ∧ waited p n m s ≤ 38000 + 2 * G

end Wait

/-! ## The steps of a wait -/

section Steps

variable {timer : ℕ → BitVec 32} {st st' : Printing} {line : Line} {t : BitVec 32} {c : BitVec 8}
  {fmt : List (BitVec 8)}

theorem printingStep_eq (h : printingStep timer st line = some st') :
    PpcMoves st.line line ∧ st'.pc = (st.pc.step (timer st.reads) line).1 ∧
      st'.line = (st.pc.step (timer st.reads) line).2 ∧
      st'.reads = if st.pc.readsTimer line = true then st.reads + 1 else st.reads := by
  rw [printingStep] at h
  split at h
  · next hmoves =>
    obtain rfl := Option.some.inj h
    exact ⟨hmoves, rfl, rfl, rfl⟩
  · cases h

theorem printingStep_mem (h : printingStep timer st line = some st')
    (hpc : st.pc.untimed.flushes = none) : st'.line.mem = line.mem := by
  obtain ⟨-, -, hline, -⟩ := printingStep_eq h
  have huntimed := congrArg Prod.snd (TimedPrintf.untimed_step (timer st.reads) st.pc line)
  rw [hline]
  refine Eq.trans (congrArg Cell.mem huntimed) ?_
  split
  · rfl
  · rw [Printf.step_mem, if_pos hpc]

theorem printingStep_deadline (h : printingStep timer st line = some st')
    (hpc : st.pc = .deadline c fmt) :
    st'.pc = .inval (timer st.reads + 38000#32) c fmt ∧ st'.reads = st.reads + 1 := by
  obtain ⟨-, hpc', -, hreads⟩ := printingStep_eq h
  rw [hpc] at hpc' hreads
  exact ⟨hpc', hreads⟩

/-- The copy of the ARM is dropped, so that the test sees memory. -/
theorem printingStep_inval (h : printingStep timer st line = some st')
    (hpc : st.pc = .inval t c fmt) :
    st'.pc = .test t c fmt ∧ st'.reads = st.reads ∧ st'.line.cached .arm = false := by
  obtain ⟨-, hpc', hline, hreads⟩ := printingStep_eq h
  rw [hpc] at hpc' hline hreads
  refine ⟨hpc', hreads, ?_⟩
  rw [hline]
  exact Cell.cached_invalidate

/-- A test ends the wait when the mailbox is empty or the sample is not before the deadline. -/
theorem printingStep_test (h : printingStep timer st line = some st')
    (hpc : st.pc = .test t c fmt) (hcached : st.line.cached .arm = false) :
    line.mem.str = 0#8 ∧ st'.pc = .write c fmt ∨
      line.mem.str ≠ 0#8 ∧ st'.reads = st.reads + 1 ∧
        st'.pc = if timer st.reads < t then .inval t c fmt else .write c fmt := by
  obtain ⟨hmoves, hpc', -, hreads⟩ := printingStep_eq h
  have hview : line.view .arm = line.mem :=
    Cell.view_of_not_cached ((Cell.cached_congr hmoves.1).trans hcached)
  rw [hpc, TimedPrintf.step, hview] at hpc'
  rw [hpc, TimedPrintf.readsTimer, hview] at hreads
  by_cases hempty : line.mem.str = 0#8
  · rw [if_neg fun hand => hand.1 hempty] at hpc'
    exact Or.inl ⟨hempty, hpc'⟩
  · rw [if_pos (decide_eq_true hempty)] at hreads
    refine Or.inr ⟨hempty, hreads, hpc'.trans ?_⟩
    by_cases hbefore : timer st.reads < t
    · rw [if_pos ⟨hempty, hbefore⟩, if_pos hbefore]
    · rw [if_neg fun hand => hbefore hand.2, if_neg hbefore]

end Steps

/-! ## A whole wait -/

section Run

variable {G : ℕ} {s : Samples 32 G} {k n m j : ℕ}

/-- The wait whose deadline is the `k`-th sample and 38000, after `j` tests of a full mailbox with a
sample before the deadline. -/
structure InWait (s : Samples 32 G) (k j : ℕ) (st : Printing) : Prop where
  reads : st.reads = k + j + 1
  before : ∀ i, 1 ≤ i → i ≤ j → (s.drop k).value i < (s.drop k).deadline 38000
  pc : ∃ c fmt, st.pc = .inval ((s.drop k).deadline 38000) c fmt ∨
    st.pc = .test ((s.drop k).deadline 38000) c fmt ∧ st.line.cached .arm = false

section Step

variable {st st' : Printing} {line : Line} {c : BitVec 8} {fmt : List (BitVec 8)}

theorem InWait.of_deadline (h : printingStep s.value st line = some st')
    (hpc : st.pc = .deadline c fmt) : InWait s st.reads 0 st' := by
  obtain ⟨hpc', hreads⟩ := printingStep_deadline h hpc
  exact ⟨hreads, fun i hi hi' => absurd hi (by omega), c, fmt, Or.inl hpc'⟩

theorem InWait.of_inval (hw : InWait s k j st) (h : printingStep s.value st line = some st')
    (hpc : st.pc = .inval ((s.drop k).deadline 38000) c fmt) :
    InWait s k j st' ∧ st'.pc = .test ((s.drop k).deadline 38000) c fmt ∧
      st'.line.cached .arm = false := by
  obtain ⟨hpc', hreads, hcached⟩ := printingStep_inval h hpc
  exact ⟨⟨hreads.trans hw.reads, hw.before, c, fmt, Or.inr ⟨hpc', hcached⟩⟩, hpc', hcached⟩

/-- What a test does: the mailbox is empty, or the next sample decides. -/
theorem InWait.of_test (hw : InWait s k j st) (h : printingStep s.value st line = some st')
    (hpc : st.pc = .test ((s.drop k).deadline 38000) c fmt)
    (hcached : st.line.cached .arm = false) :
    line.mem.str = 0#8 ∧ st'.pc = .write c fmt ∨
      line.mem.str ≠ 0#8 ∧
        ((s.drop k).value (j + 1) < (s.drop k).deadline 38000 ∧ InWait s k (j + 1) st' ∨
          (s.drop k).StopsAt 38000 (j + 1) ∧ st'.reads = k + j + 2 ∧ st'.pc = .write c fmt) := by
  have hvalue : s.value st.reads = (s.drop k).value (j + 1) := by
    rw [Samples.value_drop, hw.reads, Nat.add_assoc]
  rcases printingStep_test h hpc hcached with hempty | ⟨hfull, hreads, hpc'⟩
  · exact Or.inl hempty
  · rw [hw.reads] at hreads
    rw [hvalue] at hpc'
    refine Or.inr ⟨hfull, ?_⟩
    by_cases hbefore : (s.drop k).value (j + 1) < (s.drop k).deadline 38000
    · rw [if_pos hbefore] at hpc'
      refine Or.inl ⟨hbefore, hreads, ?_, c, fmt, Or.inl hpc'⟩
      intro i hi hij
      rcases Nat.lt_or_eq_of_le hij with hlt | rfl
      · exact hw.before i hi (by omega)
      · exact hbefore
    · rw [if_neg hbefore] at hpc'
      refine Or.inr ⟨⟨?_, Nat.le_add_left 1 j, hbefore⟩, hreads, hpc'⟩
      intro i hi hij
      exact hw.before i hi (by omega)

end Step

variable {st₀ : Printing} {p : Path (printing s.value) st₀}

/-- A wait begins with step `n`, and its deadline comes from the `k`-th sample. -/
def Begins (p : Path (printing s.value) st₀) (n k : ℕ) : Prop :=
  (p.state n).pc.begins = true ∧ (p.state n).reads = k

theorem Waits.succ (h : Waits p n m) (hnext : (p.state (m + 1)).pc.waiting = true) :
    Waits p n (m + 1) := by
  refine ⟨Nat.lt_succ_of_lt h.1, ?_⟩
  intro i hi him
  rcases Nat.lt_or_eq_of_le him with hlt | rfl
  · exact h.2 i hi (by omega)
  · exact hnext

theorem InWait.waiting {st : Printing} (hw : InWait s k j st) : st.pc.waiting = true := by
  obtain ⟨c, fmt, hpc | ⟨hpc, -⟩⟩ := hw.pc <;>
  · rw [hpc]
    rfl

theorem Begins.inWait (h : Begins p n k) : Waits p n (n + 1) ∧ InWait s k 0 (p.state (n + 1)) := by
  obtain ⟨hbegins, rfl⟩ := h
  have hw : InWait s (p.state n).reads 0 (p.state (n + 1)) := by
    cases hpc : (p.state n).pc with
    | deadline c fmt => exact InWait.of_deadline (p.step n) hpc
    | done | loop | inval | test | write | flush =>
      rw [hpc] at hbegins
      cases hbegins
  refine ⟨⟨Nat.lt_succ_self n, ?_⟩, hw⟩
  intro i hi hi'
  obtain rfl : i = n + 1 := by omega
  exact hw.waiting

theorem Waits.inWait (hbegin : Begins p n k) (h : Waits p n m) : ∃ j, InWait s k j (p.state m) := by
  obtain ⟨hnm, hwaiting⟩ := h
  induction m, hnm using Nat.le_induction with
  | base => exact ⟨0, hbegin.inWait.2⟩
  | succ m hnm ih =>
    obtain ⟨j, hw⟩ := ih fun i hi him => hwaiting i hi (Nat.le_succ_of_le him)
    have hnext := hwaiting (m + 1) (by omega) le_rfl
    obtain ⟨c, fmt, hpc | ⟨hpc, hcached⟩⟩ := hw.pc
    · exact ⟨j, (hw.of_inval (p.step m) hpc).1⟩
    · rcases hw.of_test (p.step m) hpc hcached with
        ⟨-, hpc'⟩ | ⟨-, ⟨-, hw'⟩ | ⟨-, -, hpc'⟩⟩
      · rw [hpc'] at hnext
        cases hnext
      · exact ⟨j + 1, hw'⟩
      · rw [hpc'] at hnext
        cases hnext

/-- A mailbox that is empty at the last test is still empty when the character is flushed. -/
theorem empty_at_flush {c : BitVec 8} {fmt : List (BitVec 8)}
    (htest : (p.state m).pc.waiting = true) (hpc : (p.state (m + 1)).pc = .write c fmt)
    (hempty : (p.label m).mem.str = 0#8) : (p.label (m + 2)).mem.str = 0#8 := by
  have hflush : (p.state m).pc.untimed.flushes = none := by
    cases hm : (p.state m).pc with
    | flush =>
      rw [hm] at htest
      cases htest
    | done | loop | deadline | inval | test | write => rfl
  have hmem : (p.state (m + 1)).line.mem = _ := printingStep_mem (p.step m) hflush
  have hmem' : (p.state (m + 2)).line.mem = _ :=
    printingStep_mem (p.step (m + 1)) (by rw [hpc]; rfl)
  have hmoves := (printingStep_eq (p.step (m + 1))).1
  have hmoves' := (printingStep_eq (p.step (m + 2))).1
  exact hmoves'.empty (by rw [hmem']; exact hmoves.empty (by rw [hmem]; exact hempty))

theorem EndsAt.cases (hbegin : Begins p n k) (h : EndsAt p n m) :
    (∃ c fmt, (p.state (m + 1)).pc = .write c fmt) ∧
      ((p.label m).mem.str = 0#8 ∧ (p.label (m + 2)).mem.str = 0#8 ∨
        ∃ i, (s.drop k).StopsAt 38000 i ∧ waited p n m s = (s.drop k).elapsed i) := by
  obtain ⟨hwaits, hend⟩ := h
  obtain ⟨j, hw⟩ := hwaits.inWait hbegin
  obtain ⟨c, fmt, hpc | ⟨hpc, hcached⟩⟩ := hw.pc
  · cases (hw.of_inval (p.step m) hpc).1.waiting.symm.trans hend
  · rcases hw.of_test (p.step m) hpc hcached with
      ⟨hempty, hpc'⟩ | ⟨-, ⟨-, hw'⟩ | ⟨hstop, hreads, hpc'⟩⟩
    · exact ⟨⟨c, fmt, hpc'⟩, Or.inl ⟨hempty, empty_at_flush hw.waiting hpc' hempty⟩⟩
    · cases hw'.waiting.symm.trans hend
    · refine ⟨⟨c, fmt, hpc'⟩, Or.inr ⟨j + 1, hstop, ?_⟩⟩
      rw [waited, hreads, hbegin.2]
      rfl

/-- In a wait in which the PPC does nothing the samples up to the deadline are all tested. -/
theorem exists_waits (hbegin : Begins p n k)
    (hfull : ∀ m, Waits p n m → (p.label m).mem.str ≠ 0#8)
    (hbefore : ∀ i, 1 ≤ i → i ≤ j → (s.drop k).value i < (s.drop k).deadline 38000) :
    ∃ m c fmt, Waits p n m ∧ InWait s k j (p.state m) ∧
      (p.state m).pc = .test ((s.drop k).deadline 38000) c fmt ∧
      (p.state m).line.cached .arm = false := by
  -- from anywhere in the wait the next test is at most one step away
  have htest {m j : ℕ} (hwaits : Waits p n m) (hw : InWait s k j (p.state m)) :
      ∃ m c fmt, Waits p n m ∧ InWait s k j (p.state m) ∧
        (p.state m).pc = .test ((s.drop k).deadline 38000) c fmt ∧
        (p.state m).line.cached .arm = false := by
    obtain ⟨c, fmt, hpc | ⟨hpc, hcached⟩⟩ := hw.pc
    · obtain ⟨hw', hpc', hcached'⟩ := hw.of_inval (p.step m) hpc
      exact ⟨m + 1, c, fmt, hwaits.succ hw'.waiting, hw', hpc', hcached'⟩
    · exact ⟨m, c, fmt, hwaits, hw, hpc, hcached⟩
  induction j with
  | zero => exact htest hbegin.inWait.1 hbegin.inWait.2
  | succ j ih =>
    obtain ⟨m, c, fmt, hwaits, hw, hpc, hcached⟩ :=
      ih fun i hi hij => hbefore i hi (Nat.le_succ_of_le hij)
    have hlt := hbefore (j + 1) (Nat.le_add_left 1 j) le_rfl
    rcases hw.of_test (p.step m) hpc hcached with
      ⟨hempty, -⟩ | ⟨-, ⟨-, hw'⟩ | ⟨hstop, -, -⟩⟩
    · exact absurd hempty (hfull m hwaits)
    · exact htest (hwaits.succ hw'.waiting) hw'
    · exact absurd hlt hstop.2.2

theorem exists_endsAt (hbegin : Begins p n k)
    (hfull : ∀ m, Waits p n m → (p.label m).mem.str ≠ 0#8) {i : ℕ}
    (hi : (s.drop k).StopsAt 38000 i) :
    ∃ m, EndsAt p n m ∧ waited p n m s = (s.drop k).elapsed i := by
  obtain ⟨hbefore, hi1, hpast⟩ := hi
  obtain ⟨j, rfl⟩ := Nat.exists_eq_add_of_le' hi1
  obtain ⟨m, c, fmt, hwaits, hw, hpc, hcached⟩ :=
    exists_waits (j := j) hbegin hfull fun i hi hij => hbefore i hi (by omega)
  rcases hw.of_test (p.step m) hpc hcached with
    ⟨hempty, -⟩ | ⟨-, ⟨hlt, -⟩ | ⟨-, hreads, hpc'⟩⟩
  · exact absurd hempty (hfull m hwaits)
  · exact absurd hlt hpast
  · refine ⟨m, ⟨hwaits, by rw [hpc']; rfl⟩, ?_⟩
    rw [waited, hreads, hbegin.2]
    rfl

/-- Timely samples are enough, whatever the PPC does. -/
theorem honoured_of_timely (hbegin : Begins p n k) (h : (s.drop k).Timely 38000) :
    TimeoutHonoured p n s := by
  constructor
  · intro m hend hfull
    rcases (hend.cases hbegin).2 with ⟨-, hempty⟩ | ⟨i, hi, hwaited⟩
    · exact absurd hempty hfull
    · rw [hwaited]
      exact h.1 i hi
  · intro hfull
    obtain ⟨i, hi, hle⟩ := h.2
    obtain ⟨m, hend, hwaited⟩ := exists_endsAt hbegin hfull hi
    exact ⟨m, hend, by rw [hwaited]; exact hle⟩

/-- And a run in which the PPC does nothing needs them. -/
theorem timely_of_honoured (hbegin : Begins p n k)
    (hfull : ∀ m, Waits p n m → (p.label m).mem.str ≠ 0#8 ∧
      (EndsAt p n m → (p.label (m + 2)).mem.str ≠ 0#8))
    (h : TimeoutHonoured p n s) : (s.drop k).Timely 38000 := by
  have hfull' (m : ℕ) (hm : Waits p n m) : (p.label m).mem.str ≠ 0#8 := (hfull m hm).1
  constructor
  · intro i hi
    obtain ⟨m, hend, hwaited⟩ := exists_endsAt hbegin hfull' hi
    rw [← hwaited]
    exact h.overwrite m hend ((hfull m hend.1).2 hend)
  · obtain ⟨m, hend, hle⟩ := h.ends hfull'
    rcases (hend.cases hbegin).2 with ⟨hempty, -⟩ | ⟨i, hi, hwaited⟩
    · exact absurd hempty (hfull' m hend.1)
    · exact ⟨i, hi, by rw [← hwaited]; exact hle⟩

end Run

/-! ## A PPC that does nothing -/

/-- A call for one character, with one in the mailbox that nobody takes. -/
def unread (k : ℕ) : Printing where
  pc := .loop [0x61#8]
  line := ⟨{ str := 0x62#8, debugConfig := 0#8, debugMagic := 0xDEB6#16 }, fun _ => none⟩
  reads := k

/-- A step before which the PPC does nothing. -/
def unreadStep (timer : ℕ → BitVec 32) (st : Printing) : Printing where
  pc := (st.pc.step (timer st.reads) st.line).1
  line := (st.pc.step (timer st.reads) st.line).2
  reads := if st.pc.readsTimer st.line = true then st.reads + 1 else st.reads

theorem printingStep_unread (timer : ℕ → BitVec 32) (st : Printing) :
    printingStep timer st st.line = some (unreadStep timer st) := by
  rw [printingStep, if_pos (PpcMoves.refl _)]
  rfl

def unreadPath (timer : ℕ → BitVec 32) (k : ℕ) : Path (printing timer) (unread k) where
  state t := (unreadStep timer)^[t] (unread k)
  label t := ((unreadStep timer)^[t] (unread k)).line
  start := rfl
  step t := by
    show printingStep timer _ _ = _
    rw [printingStep_unread, Function.iterate_succ_apply']

section Unread

variable {timer : ℕ → BitVec 32} {k m : ℕ}

theorem unread_init (timer : ℕ → BitVec 32) (k : ℕ) : (printing timer).init (unread k) :=
  ⟨1#8, [0x61#8], rfl⟩

theorem unread_begins {G : ℕ} (s : Samples 32 G) (k : ℕ) : Begins (unreadPath s.value k) 1 k :=
  ⟨rfl, rfl⟩

theorem unread_mem (timer : ℕ → BitVec 32) (k : ℕ)
    (h : ∀ i ≤ m, ((unreadPath timer k).state i).pc.untimed.flushes = none) :
    ((unreadPath timer k).state m).line.mem.str = 0x62#8 ∧
      ((unreadPath timer k).label (m + 1)).mem.str = 0x62#8 := by
  induction m with
  | zero =>
    have hmem := printingStep_mem (printingStep_unread timer (unread k)) rfl
    exact ⟨rfl, congrArg ArmbootConfig.str hmem⟩
  | succ m ih =>
    have hm := (ih fun i hi => h i (Nat.le_succ_of_le hi)).2
    have hmem := printingStep_mem ((unreadPath timer k).step (m + 1)) (h (m + 1) le_rfl)
    exact ⟨hm, (congrArg ArmbootConfig.str hmem).trans hm⟩

theorem TimedPrintf.flushes_of_waiting {q : TimedPrintf} (h : q.waiting = true) :
    q.untimed.flushes = none := by
  cases q with
  | inval | test => rfl
  | done | loop | deadline | write | flush => cases h

theorem unread_flushes (h : Waits (unreadPath timer k) 1 m) {i : ℕ} (hi : i ≤ m) :
    ((unreadPath timer k).state i).pc.untimed.flushes = none := by
  rcases Nat.lt_or_ge 1 i with hlt | hle
  · exact TimedPrintf.flushes_of_waiting (h.2 i hlt hi)
  · interval_cases i <;> rfl

theorem unread_full {G : ℕ} (s : Samples 32 G) (k m : ℕ)
    (h : Waits (unreadPath s.value k) 1 m) :
    ((unreadPath s.value k).label m).mem.str ≠ 0#8 ∧
      (EndsAt (unreadPath s.value k) 1 m →
        ((unreadPath s.value k).label (m + 2)).mem.str ≠ 0#8) := by
  constructor
  · have hmem := (unread_mem s.value k fun i hi => unread_flushes h hi).1
    intro hempty
    cases hmem.symm.trans hempty
  · intro hend hempty
    obtain ⟨⟨c, fmt, hpc⟩, -⟩ := hend.cases (unread_begins s k)
    have hlast : ((unreadPath s.value k).state (m + 1)).pc.untimed.flushes = none := by
      rw [hpc]
      rfl
    have hmem := (unread_mem s.value k (m := m + 1) fun i hi => by
      rcases Nat.lt_or_eq_of_le hi with hlt | rfl
      · exact unread_flushes h (by omega)
      · exact hlast).2
    cases hmem.symm.trans hempty

end Unread

/-! ## Results -/

/-- **When the timeout is honoured**: whatever the call and the PPC do, exactly when the deadline
does not wrap and a sample falls between it and the wrap of the timer, or the deadline wraps and the
timer has wrapped before the first test. -/
theorem geckoPrintf_timeout {G : ℕ} (s : Samples 32 G) (k : ℕ) (hG : 38000 + 2 * G < 2 ^ 32) :
    (∀ st₀, (printing s.value).init st₀ → ∀ (p : Path (printing s.value) st₀) (n : ℕ),
      Begins p n k → TimeoutHonoured p n s) ↔
      if (s.value k).toNat + 38000 < 2 ^ 32 then (s.drop k).InWindow 38000
      else 2 ^ 32 ≤ (s.drop k).count 1 := by
  refine Iff.trans ?_ (Samples.timely_iff (s := s.drop k) (by decide) hG)
  constructor
  · intro h
    exact timely_of_honoured (unread_begins s k) (unread_full s k)
      (h _ (unread_init s.value k) (unreadPath s.value k) 1 (unread_begins s k))
  · intro htimely st₀ _ p n hbegin
    exact honoured_of_timely hbegin htimely

/-- The timer is far from its wrap and is sampled every 10 ticks. -/
theorem geckoPrintf_timeout_far :
    (∀ st₀, (printing (Samples.steady (G := 10) 0#32 (by decide)).value).init st₀ →
      ∀ (p : Path (printing (Samples.steady (G := 10) 0#32 (by decide)).value) st₀) (n : ℕ),
        Begins p n 0 → TimeoutHonoured p n (Samples.steady (G := 10) 0#32 (by decide))) ↔
      if ((Samples.steady (G := 10) 0#32 (by decide)).value 0).toNat + 38000 < 2 ^ 32 then
        ((Samples.steady (G := 10) 0#32 (by decide)).drop 0).InWindow 38000
      else 2 ^ 32 ≤ ((Samples.steady (G := 10) 0#32 (by decide)).drop 0).count 1 :=
  geckoPrintf_timeout (Samples.steady 0#32 (by decide)) 0 (by decide)

/-- A wait that begins 100 ticks before the timer wraps, with a sample every 10 ticks, writes over
the character at once. -/
theorem geckoPrintf_overwrites : 38000 + 2 * 10 < 2 ^ 32 ∧
    (printing (Samples.steady (G := 10) 0xFFFFFF9C#32 (by decide)).value).init (unread 0) ∧
    Begins (unreadPath (Samples.steady (G := 10) 0xFFFFFF9C#32 (by decide)).value 0) 1 0 ∧
    ¬TimeoutHonoured (unreadPath (Samples.steady (G := 10) 0xFFFFFF9C#32 (by decide)).value 0) 1
      (Samples.steady (G := 10) 0xFFFFFF9C#32 (by decide)) := by
  refine ⟨by decide, unread_init _ 0, unread_begins _ 0, ?_⟩
  intro h
  have htimely := timely_of_honoured (unread_begins _ 0) (unread_full _ 0) h
  rw [Samples.timely_iff (by decide) (by decide), if_neg (by decide)] at htimely
  exact absurd htimely (by decide)

/-- **Which waits are safe**: those that begin a timeout and a gap before the wrap of the timer. -/
theorem geckoPrintf_phase {G : ℕ} (now : BitVec 32) (hpos : 0 < G) (hG : 38000 + 2 * G < 2 ^ 32) :
    (∀ s : Samples 32 G, s.start = now → ∀ st₀, (printing s.value).init st₀ →
      ∀ (p : Path (printing s.value) st₀) (n : ℕ), Begins p n 0 → TimeoutHonoured p n s) ↔
      now.toNat + 38000 + G ≤ 2 ^ 32 := by
  rw [← Samples.forall_timely_iff (by decide) hpos hG]
  constructor
  · intro h s hs
    rw [← s.drop_zero]
    exact timely_of_honoured (unread_begins s 0) (unread_full s 0)
      (h s hs _ (unread_init s.value 0) (unreadPath s.value 0) 1 (unread_begins s 0))
  · intro h s hs st₀ _ p n hbegin
    refine honoured_of_timely hbegin ?_
    rw [s.drop_zero]
    exact h s hs

end VwiiNandTools.Gecko
