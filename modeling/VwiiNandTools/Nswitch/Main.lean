import VwiiNandTools.Armboot.Video.Gecko

/-!
# The console of the PPC

The end of `main` of `nswitch/source/main.c`: it waits for `gecko_init`, and then prints what it
finds in the line, one character at a time.  `DCFlushRange` writes its copy back and drops it.
-/

namespace VwiiNandTools.Gecko

open Noncoherent

/-- What `main` flushes before it starts the ARM. -/
def armconfig : ArmbootConfig := { str := 0#8, debugConfig := 3#8, debugMagic := 0xDEB6#16 }

/-- Where `main` is, with `received[0]`. -/
inductive Reader
  | waitInval
  | waitTest
  | inval
  | test
  | read
  | clear (received : BitVec 8)
  | flush (received : BitVec 8)
  | print (received : BitVec 8)
  deriving DecidableEq

/-- `printf(received)`: the character is the whole format, so a `%` begins a conversion that does
not come, and nothing is put out for it. -/
def printfReceived (received : BitVec 8) : List (BitVec 8) :=
  if received = 0x25#8 then [] else [received]

def Reader.step (r : Reader) (line : Line) : Reader × Line :=
  match r with
  | .waitInval => (.waitTest, line.invalidate .ppc)
  | .waitTest =>
    (if (line.view .ppc).debugConfig ≠ 0#8 then .waitInval else .inval, line.load .ppc)
  | .inval => (.test, line.invalidate .ppc)
  | .test => (if (line.view .ppc).str = 0#8 then .inval else .read, line.load .ppc)
  | .read => (.clear (line.view .ppc).str, line.load .ppc)
  | .clear c => (.flush c, line.store .ppc fun l => { l with str := 0#8 })
  | .flush c => (.print c, line.flush .ppc)
  | .print _ => (.inval, line)

/-- What a step puts out. -/
def Reader.prints : Reader → List (BitVec 8)
  | .print c => printfReceived c
  | _ => []

end VwiiNandTools.Gecko
