import Mathlib

/-!
# CBC decryption

Decryption in cipher block chaining over any type of blocks with a sum of two blocks and any block
cipher.  `cbcDecrypt_append` is the fact a driver that works in pieces rests on: the second piece
chains from the last ciphertext block of the first.
-/

namespace Cbc

variable {Block : Type*} [XorOp Block] (decrypt : Block → Block)

/-- Decrypt blocks, the first of them chained from `chain`. -/
def cbcDecrypt (chain : Block) : List Block → List Block
  | [] => []
  | c :: cs => (decrypt c ^^^ chain) :: cbcDecrypt c cs

/-- The block that the next one is chained from. -/
def nextChain (chain : Block) (cs : List Block) : Block := cs.foldl (fun _ c => c) chain

@[simp] theorem length_cbcDecrypt (chain : Block) (cs : List Block) :
    (cbcDecrypt decrypt chain cs).length = cs.length := by
  induction cs generalizing chain with
  | nil => rfl
  | cons c cs ih => simp [cbcDecrypt, ih]

omit [XorOp Block] in
@[simp] theorem nextChain_nil (chain : Block) : nextChain chain [] = chain := rfl

omit [XorOp Block] in
@[simp] theorem nextChain_cons (chain c : Block) (cs : List Block) :
    nextChain chain (c :: cs) = nextChain c cs := rfl

omit [XorOp Block] in
theorem nextChain_append (chain : Block) (cs ds : List Block) :
    nextChain chain (cs ++ ds) = nextChain (nextChain chain cs) ds :=
  List.foldl_append

theorem cbcDecrypt_append (chain : Block) (cs ds : List Block) :
    cbcDecrypt decrypt chain (cs ++ ds) =
      cbcDecrypt decrypt chain cs ++ cbcDecrypt decrypt (nextChain chain cs) ds := by
  induction cs generalizing chain with
  | nil => rfl
  | cons c cs ih => rw [List.cons_append, cbcDecrypt, cbcDecrypt, ih, nextChain_cons, List.cons_append]

end Cbc
