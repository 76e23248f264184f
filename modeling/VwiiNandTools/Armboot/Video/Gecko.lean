import Mathlib
import VwiiNandTools.Lib.Noncoherent

/-!
# The console of the ARM

`video/gecko.c`: `gecko_init` and `gecko_printf`, access by access, on the line at `0x01200000` that
the two CPUs share.  `dc_invalidaterange` drops the copy of the ARM and `dc_flushrange` cleans it;
the PPC has its own copy, and neither sees the other's.
-/

namespace VwiiNandTools.Gecko

open Noncoherent

inductive Cpu
  | arm
  | ppc
  deriving DecidableEq

/-- `struct armboot_config`, the part of the line that is used. -/
structure ArmbootConfig where
  str : BitVec 8
  debugConfig : BitVec 8
  debugMagic : BitVec 16
  deriving DecidableEq

abbrev Line := Cell Cpu ArmbootConfig

/-! ## `gecko_printf` -/

/-- Where `gecko_printf` is: outside, at `while (*fmt)`, or in a pass for the character `c`. -/
inductive Printf
  | done
  | loop (fmt : List (BitVec 8))
  | inval (c : BitVec 8) (fmt : List (BitVec 8))
  | test (c : BitVec 8) (fmt : List (BitVec 8))
  | write (c : BitVec 8) (fmt : List (BitVec 8))
  | flush (c : BitVec 8) (fmt : List (BitVec 8))
  deriving DecidableEq

/-- A call, with what `vsnprintf` left in `buffer`. -/
def geckoPrintf (geckoEnabled : BitVec 8) (buffer : List (BitVec 8)) : Printf :=
  if geckoEnabled = 0#8 then .done else .loop buffer

/-- `while (*fmt)`. -/
def Printf.next : List (BitVec 8) → Printf
  | [] => .done
  | c :: fmt => if c = 0#8 then .done else .inval c fmt

/-- One step; `timeout` is whether the timer has run out, should it be asked. -/
def Printf.step (timeout : Bool) (p : Printf) (line : Line) : Printf × Line :=
  match p with
  | .done => (.done, line)
  | .loop fmt => (Printf.next fmt, line)
  | .inval c fmt => (.test c fmt, line.invalidate .arm)
  | .test c fmt =>
    (if (line.view .arm).str ≠ 0#8 ∧ timeout = false then .inval c fmt else .write c fmt,
      line.load .arm)
  | .write c fmt => (.flush c fmt, line.store .arm fun l => { l with str := c })
  | .flush _ fmt => (.loop fmt, line.clean .arm)

/-- The character that a step flushes. -/
def Printf.flushes : Printf → Option (BitVec 8)
  | .flush c _ => some c
  | _ => none

/-! ## `gecko_init` -/

/-- Where the main thread is: in `gecko_init`, or past it. -/
inductive MainPc
  | initMagic
  | initConfig
  | initWrite
  | initFlush
  | printf (p : Printf)
  deriving DecidableEq

/-- One step of the main thread, with `gecko_enabled`. -/
def MainPc.step (timeout : Bool) (pc : MainPc) (geckoEnabled : BitVec 8) (line : Line) :
    MainPc × BitVec 8 × Line :=
  match pc with
  | .initMagic =>
    (if (line.view .arm).debugMagic = 0xDEB6#16 then .initConfig else .printf .done, geckoEnabled,
      line.load .arm)
  | .initConfig => (.initWrite, (line.view .arm).debugConfig, line.load .arm)
  | .initWrite => (.initFlush, geckoEnabled, line.store .arm fun l => { l with debugConfig := 0#8 })
  | .initFlush => (.printf .done, geckoEnabled, line.clean .arm)
  | .printf p => (.printf (p.step timeout line).1, geckoEnabled, (p.step timeout line).2)

def MainPc.flushes : MainPc → Option (BitVec 8)
  | .printf p => p.flushes
  | _ => none

/-! ## The timer -/

/-- `gecko_printf` with its reads of `HW_TIMER`: a pass begins with the one `timeout` comes from. -/
inductive TimedPrintf
  | done
  | loop (fmt : List (BitVec 8))
  | deadline (c : BitVec 8) (fmt : List (BitVec 8))
  | inval (timeout : BitVec 32) (c : BitVec 8) (fmt : List (BitVec 8))
  | test (timeout : BitVec 32) (c : BitVec 8) (fmt : List (BitVec 8))
  | write (c : BitVec 8) (fmt : List (BitVec 8))
  | flush (c : BitVec 8) (fmt : List (BitVec 8))
  deriving DecidableEq

def timedPrintf (geckoEnabled : BitVec 8) (buffer : List (BitVec 8)) : TimedPrintf :=
  if geckoEnabled = 0#8 then .done else .loop buffer

def TimedPrintf.next : List (BitVec 8) → TimedPrintf
  | [] => .done
  | c :: fmt => if c = 0#8 then .done else .deadline c fmt

/-- One step; `timer` is what `HW_TIMER` shows, should it be read. -/
def TimedPrintf.step (timer : BitVec 32) (p : TimedPrintf) (line : Line) : TimedPrintf × Line :=
  match p with
  | .done => (.done, line)
  | .loop fmt => (TimedPrintf.next fmt, line)
  | .deadline c fmt => (.inval (timer + 38000#32) c fmt, line)
  | .inval timeout c fmt => (.test timeout c fmt, line.invalidate .arm)
  | .test timeout c fmt =>
    (if (line.view .arm).str ≠ 0#8 ∧ timer < timeout then .inval timeout c fmt else .write c fmt,
      line.load .arm)
  | .write c fmt => (.flush c fmt, line.store .arm fun l => { l with str := c })
  | .flush _ fmt => (.loop fmt, line.clean .arm)

/-- Whether the step reads `HW_TIMER`: where the mailbox is empty, `&&` does not come to it. -/
def TimedPrintf.readsTimer (line : Line) : TimedPrintf → Bool
  | .deadline _ _ => true
  | .test _ _ _ => (line.view .arm).str ≠ 0#8
  | _ => false

/-- The wait for a character begins. -/
def TimedPrintf.begins : TimedPrintf → Bool
  | .deadline _ _ => true
  | _ => false

/-- The same without the timer. -/
def TimedPrintf.untimed : TimedPrintf → Printf
  | .done => .done
  | .loop fmt => .loop fmt
  | .deadline c fmt | .inval _ c fmt => .inval c fmt
  | .test _ c fmt => .test c fmt
  | .write c fmt => .write c fmt
  | .flush c fmt => .flush c fmt

def TimedPrintf.timedOut (timer : BitVec 32) : TimedPrintf → Bool
  | .test timeout _ _ => ¬timer < timeout
  | _ => false

/-- The timer only decides when the wait is over: a step with it is a step without it, or the read
of the deadline, which nothing of the line takes part in. -/
theorem TimedPrintf.untimed_step (timer : BitVec 32) (p : TimedPrintf) (line : Line) :
    ((p.step timer line).1.untimed, (p.step timer line).2) =
      if p.begins = true then (p.untimed, line) else p.untimed.step (p.timedOut timer) line := by
  cases p with
  | loop fmt =>
    cases fmt with
    | nil => rfl
    | cons c fmt =>
      show ((next (c :: fmt)).untimed, line) = (Printf.next (c :: fmt), line)
      rw [next, Printf.next]
      split <;> rfl
  | test timeout c fmt =>
    show ((ite _ _ _ : TimedPrintf).untimed, line.load .arm) = (ite _ _ _, line.load .arm)
    by_cases hempty : (line.view .arm).str = 0#8
    · rw [if_neg (fun h => h.1 hempty), if_neg (fun h => h.1 hempty)]
      rfl
    · by_cases hbefore : timer < timeout
      · rw [if_pos ⟨hempty, hbefore⟩, if_pos ⟨hempty, by simp [timedOut, hbefore]⟩]
        rfl
      · rw [if_neg (fun h => hbefore h.2), if_neg (fun h => by simp [timedOut, hbefore] at h)]
        rfl
  | done | deadline | inval | write | flush => rfl

end VwiiNandTools.Gecko
