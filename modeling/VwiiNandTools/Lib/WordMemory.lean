import VwiiNandTools.Lib.ByteMemory

/-!
# Memory with 32-bit addresses

A flat memory of bytes whose addresses wrap around, with big-endian values and stores of a whole
range.  An address lies in the range of `n` bytes at `a` when its distance from `a` is less than `n`,
also where the range goes past the last address.
-/

namespace WordMemory

open ByteMemory (Byte)

abbrev Addr := BitVec 32

abbrev Mem32 := Addr → Byte

/-- Address `x` is one of the `n` bytes at `a`. -/
def InRange (a : Addr) (n : ℕ) (x : Addr) : Prop := (x - a).toNat < n

instance (a : Addr) (n : ℕ) (x : Addr) : Decidable (InRange a n x) := by
  unfold InRange
  infer_instance

def set (m : Mem32) (a : Addr) (b : Byte) : Mem32 := fun x => if x = a then b else m x

/-- Store the bytes `f 0, .., f (n - 1)` from `a` on. -/
def place (m : Mem32) (a : Addr) (n : ℕ) (f : ℕ → Byte) : Mem32 :=
  fun x => if InRange a n x then f (x - a).toNat else m x

/-- The big-endian values at `a`. -/
def be16 (m : Mem32) (a : Addr) : BitVec 16 :=
  (m a).setWidth 16 <<< 8 ||| (m (a + 1#32)).setWidth 16

def be32 (m : Mem32) (a : Addr) : BitVec 32 :=
  (m a).setWidth 32 <<< 24 ||| (m (a + 1#32)).setWidth 32 <<< 16 |||
    (m (a + 2#32)).setWidth 32 <<< 8 ||| (m (a + 3#32)).setWidth 32

theorem add_sub_self (a x : Addr) : a + (x - a) = x := by
  rw [BitVec.add_comm, BitVec.sub_add_cancel]

theorem inRange_add {a : Addr} {n k : ℕ} (hk : k < n) : InRange a n (a + BitVec.ofNat 32 k) := by
  have hsub : a + BitVec.ofNat 32 k - a = BitVec.ofNat 32 k := by
    rw [BitVec.add_comm, BitVec.add_sub_cancel]
  rw [InRange, hsub, BitVec.toNat_ofNat]
  exact lt_of_le_of_lt (Nat.mod_le _ _) hk

theorem place_other {m : Mem32} {a x : Addr} {n : ℕ} (f : ℕ → Byte) (h : ¬InRange a n x) :
    place m a n f x = m x := if_neg h

theorem place_succ (m : Mem32) (a : Addr) {n : ℕ} (f : ℕ → Byte) (hn : n < 2 ^ 32) :
    set (place m a n f) (a + BitVec.ofNat 32 n) (f n) = place m a (n + 1) f := by
  funext x
  have hx : (x - a).toNat = n ↔ x = a + BitVec.ofNat 32 n := by
    constructor
    · rintro rfl
      rw [BitVec.ofNat_toNat, BitVec.setWidth_eq, add_sub_self]
    · rintro rfl
      have hsub : a + BitVec.ofNat 32 n - a = BitVec.ofNat 32 n := by
        rw [BitVec.add_comm, BitVec.add_sub_cancel]
      rw [hsub, BitVec.toNat_ofNat, Nat.mod_eq_of_lt hn]
  by_cases h : x = a + BitVec.ofNat 32 n
  · have hidx := hx.mpr h
    rw [set, if_pos h, place, if_pos (by rw [InRange]; omega), hidx]
  · have hne := mt hx.mp h
    rw [set, if_neg h]
    by_cases hin : InRange a n x
    · rw [place, place, if_pos hin, if_pos (by rw [InRange] at *; omega)]
    · rw [place_other _ hin, place_other _ (by rw [InRange] at *; omega)]

theorem place_add {m : Mem32} {a : Addr} {n k : ℕ} (f : ℕ → Byte) (hk : k < n) (hn : n ≤ 2 ^ 32) :
    place m a n f (a + BitVec.ofNat 32 k) = f k := by
  have hsub : a + BitVec.ofNat 32 k - a = BitVec.ofNat 32 k := by
    rw [BitVec.add_comm, BitVec.add_sub_cancel]
  rw [place, if_pos (inRange_add hk), hsub, BitVec.toNat_ofNat, Nat.mod_eq_of_lt (by omega)]

theorem inRange_iff {a x : Addr} {n : ℕ} (ha : a.toNat + n ≤ 2 ^ 32) :
    InRange a n x ↔ a.toNat ≤ x.toNat ∧ x.toNat < a.toNat + n := by
  have hx := x.isLt
  have ha' := a.isLt
  rw [InRange, BitVec.toNat_sub]
  omega

theorem inRange_add_add {a : Addr} {o n k : ℕ} (ho : o + n ≤ 2 ^ 32) (hk : k < 2 ^ 32) :
    InRange (a + BitVec.ofNat 32 o) n (a + BitVec.ofNat 32 k) ↔ o ≤ k ∧ k < o + n := by
  have ha := a.isLt
  rw [InRange, BitVec.toNat_sub, BitVec.toNat_add, BitVec.toNat_add, BitVec.toNat_ofNat,
    BitVec.toNat_ofNat]
  omega

theorem be16_congr {m m' : Mem32} {a a' : Addr} (h : ∀ k < 2, m (a + BitVec.ofNat 32 k) =
    m' (a' + BitVec.ofNat 32 k)) : be16 m a = be16 m' a' := by
  have h0 := h 0 (by decide)
  have h1 := h 1 (by decide)
  simp only [BitVec.add_zero] at h0
  rw [be16, be16, h0, h1]

theorem be32_congr {m m' : Mem32} {a a' : Addr} (h : ∀ k < 4, m (a + BitVec.ofNat 32 k) =
    m' (a' + BitVec.ofNat 32 k)) : be32 m a = be32 m' a' := by
  have h0 := h 0 (by decide)
  have h1 := h 1 (by decide)
  have h2 := h 2 (by decide)
  have h3 := h 3 (by decide)
  simp only [BitVec.add_zero] at h0
  rw [be32, be32, h0, h1, h2, h3]

end WordMemory
