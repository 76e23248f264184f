import VwiiNandTools.Lib.ByteMemory

/-!
# Little-endian words and packed tables

Words of any number of bytes in a byte memory, low byte first, and tables of 12-bit entries in
which two entries share three bytes: entry `2 k` the first and half of the second byte, entry
`2 k + 1` the rest.  A store is read back, and changes no other entry, not even between the two
bytes of a 12-bit entry.
-/

namespace ByteMemory

/-! ## Words -/

/-- The word of `n` bytes at `a`. -/
def le (m : Mem) (a : ℕ) : ℕ → ℕ
  | 0 => 0
  | n + 1 => le m a n + 256 ^ n * (m (a + n)).toNat

/-- Store the low `n` bytes of `v` at `a`. -/
def putLe (m : Mem) (a n v : ℕ) : Mem := fill m a n fun k => BitVec.ofNat 8 (v / 256 ^ k)

theorem le_lt (m : Mem) (a n : ℕ) : le m a n < 256 ^ n := by
  induction n with
  | zero => exact Nat.one_pos
  | succ n ih =>
    have hbyte : (m (a + n)).toNat + 1 ≤ 256 := (m (a + n)).isLt
    calc le m a n + 256 ^ n * (m (a + n)).toNat < 256 ^ n * ((m (a + n)).toNat + 1) := by
          rw [Nat.mul_succ]
          omega
      _ ≤ 256 ^ n * 256 := Nat.mul_le_mul_left _ hbyte

theorem le_congr {m m' : Mem} {a n : ℕ} (h : Same m m' a n) : le m a n = le m' a n := by
  induction n with
  | zero => rfl
  | succ n ih =>
    rw [le, le, ih (h.sub (le_refl a) (by omega)), h (a + n) (by omega) (by omega)]

theorem le_shift {m m' : Mem} {a b n : ℕ} (h : ∀ k < n, m (a + k) = m' (b + k)) :
    le m a n = le m' b n := by
  induction n with
  | zero => rfl
  | succ n ih => rw [le, le, ih fun k hk => h k (by omega), h n (by omega)]

theorem le_putLe (m : Mem) (a v : ℕ) {n k : ℕ} (h : k ≤ n) :
    le (putLe m a n v) a k = v % 256 ^ k := by
  induction k with
  | zero => rw [le, pow_zero, Nat.mod_one]
  | succ k ih =>
    have hbyte : (putLe m a n v (a + k)).toNat = v / 256 ^ k % 256 := by
      rw [putLe, fill_at _ _ _ (by omega), BitVec.toNat_ofNat]
    rw [le, ih (by omega), hbyte, pow_succ, Nat.mod_mul]

theorem le_putLe_apart {m : Mem} {a n b k : ℕ} (v : ℕ) (h : Apart a n b k) :
    le (putLe m a n v) b k = le m b k := le_congr (fill_frame _ h)

theorem putLe_other {m : Mem} {a n x : ℕ} (v : ℕ) (h : ¬(a ≤ x ∧ x < a + n)) :
    putLe m a n v x = m x := fill_other _ h

theorem fill_one (m : Mem) (a : ℕ) (f : ℕ → Byte) : fill m a 1 f = set m a (f 0) := by
  funext x
  by_cases hx : x = a
  · subst hx
    rw [set_same]
    exact fill_at m x f Nat.one_pos
  · rw [set_other _ hx, fill_other _ (by omega)]

/-! ## Tables of 12-bit entries -/

/-- Entry `i` of the table at `b`. -/
def entry12 (m : Mem) (b i : ℕ) : ℕ :=
  if i % 2 = 1 then le m (b + i * 3 / 2) 2 / 16 else le m (b + i * 3 / 2) 2 % 4096

/-- The first byte of entry `i` for the value `v`. -/
def firstByte12 (m : Mem) (b i v : ℕ) : Byte :=
  if i % 2 = 1 then BitVec.ofNat 8 ((m (b + i * 3 / 2)).toNat % 16 + 16 * (v % 16))
  else BitVec.ofNat 8 v

/-- The second byte. -/
def secondByte12 (m : Mem) (b i v : ℕ) : Byte :=
  if i % 2 = 1 then BitVec.ofNat 8 (v / 16)
  else BitVec.ofNat 8 (16 * ((m (b + i * 3 / 2 + 1)).toNat / 16) + v / 256 % 16)

/-- The first half of a store. -/
def putFirst12 (m : Mem) (b i v : ℕ) : Mem := set m (b + i * 3 / 2) (firstByte12 m b i v)

/-- Store `v` in entry `i`. -/
def putEntry12 (m : Mem) (b i v : ℕ) : Mem :=
  set (putFirst12 m b i v) (b + i * 3 / 2 + 1) (secondByte12 m b i v)

theorem high_nibble (p : Byte) : p &&& 0xF0#8 = p >>> 4 <<< 4 := by
  revert p
  decide +kernel

theorem nibbles {a b : ℕ} (ha : a < 16) : a + 16 * b = b <<< 4 ||| a := by
  rw [← Nat.shiftLeft_add_eq_or_of_lt (i := 4) (by omega), Nat.shiftLeft_eq]
  omega

theorem firstByte12_bits (p : Byte) (v : ℕ) :
    p &&& 0x0F#8 ||| BitVec.ofNat 8 v <<< 4 = BitVec.ofNat 8 (p.toNat % 16 + 16 * (v % 16)) := by
  apply BitVec.eq_of_toNat_eq
  have hshift : (v % 2 ^ 8) <<< 4 % 2 ^ 8 = (v % 16) <<< 4 := by
    rw [Nat.shiftLeft_eq, Nat.shiftLeft_eq]
    omega
  rw [BitVec.toNat_or, BitVec.toNat_and, BitVec.toNat_shiftLeft, BitVec.toNat_ofNat,
    BitVec.toNat_ofNat, BitVec.toNat_ofNat, show 15 % 2 ^ 8 = 2 ^ 4 - 1 from rfl,
    Nat.and_two_pow_sub_one_eq_mod, hshift, Nat.or_comm, ← nibbles (by omega)]
  omega

theorem secondByte12_bits (p : Byte) (v : ℕ) :
    p &&& 0xF0#8 ||| BitVec.ofNat 8 (v / 256) &&& 0x0F#8 =
      BitVec.ofNat 8 (16 * (p.toNat / 16) + v / 256 % 16) := by
  have hp := p.isLt
  rw [high_nibble]
  apply BitVec.eq_of_toNat_eq
  have hshift : (p.toNat >>> 4) <<< 4 % 2 ^ 8 = (p.toNat / 16) <<< 4 := by
    rw [Nat.shiftLeft_eq, Nat.shiftLeft_eq, Nat.shiftRight_eq_div_pow]
    omega
  rw [BitVec.toNat_or, BitVec.toNat_and, BitVec.toNat_shiftLeft, BitVec.toNat_ushiftRight,
    BitVec.toNat_ofNat, BitVec.toNat_ofNat, BitVec.toNat_ofNat,
    show 15 % 2 ^ 8 = 2 ^ 4 - 1 from rfl, Nat.and_two_pow_sub_one_eq_mod, hshift,
    ← nibbles (by omega)]
  omega

theorem le_one (m : Mem) (a : ℕ) : le m a 1 = (m a).toNat := by
  simp [le]

theorem le_two (m : Mem) (a : ℕ) : le m a 2 = (m a).toNat + 256 * (m (a + 1)).toNat := by
  simp [le]

theorem entry12_even (m : Mem) (b k : ℕ) :
    entry12 m b (2 * k) = (m (b + 3 * k)).toNat + 256 * ((m (b + 3 * k + 1)).toNat % 16) := by
  have h0 := (m (b + 3 * k)).isLt
  rw [entry12, if_neg (by omega), show 2 * k * 3 / 2 = 3 * k by omega, le_two]
  omega

theorem entry12_odd (m : Mem) (b k : ℕ) :
    entry12 m b (2 * k + 1) =
      (m (b + 3 * k + 1)).toNat / 16 + 16 * (m (b + 3 * k + 2)).toNat := by
  rw [entry12, if_pos (by omega), show (2 * k + 1) * 3 / 2 = 3 * k + 1 by omega, le_two,
    show b + (3 * k + 1) = b + 3 * k + 1 by omega,
    show b + 3 * k + 1 + 1 = b + 3 * k + 2 by omega]
  omega

theorem entry12_lt (m : Mem) (b i : ℕ) : entry12 m b i < 4096 := by
  have h := le_lt m (b + i * 3 / 2) 2
  rw [entry12]
  split <;> omega

theorem entry12_congr {m m' : Mem} {b i : ℕ} (h : Same m m' (b + i * 3 / 2) 2) :
    entry12 m b i = entry12 m' b i := by
  rw [entry12, entry12, le_congr h]

theorem entry12_putEntry12 (m : Mem) (b i v : ℕ) : entry12 (putEntry12 m b i v) b i = v % 4096 := by
  have hne : b + i * 3 / 2 ≠ b + i * 3 / 2 + 1 := by omega
  have hle : le (putEntry12 m b i v) (b + i * 3 / 2) 2 =
      (firstByte12 m b i v).toNat + 256 * (secondByte12 m b i v).toNat := by
    rw [le_two, putEntry12, set_same, set_other _ hne, putFirst12, set_same]
  have h0 := (m (b + i * 3 / 2)).isLt
  have h1 := (m (b + i * 3 / 2 + 1)).isLt
  rw [entry12, hle, firstByte12, secondByte12]
  split
  · rw [BitVec.toNat_ofNat, BitVec.toNat_ofNat]
    omega
  · rw [BitVec.toNat_ofNat, BitVec.toNat_ofNat]
    omega

/-- The first half of a store changes no other entry. -/
theorem entry12_putFirst12 (m : Mem) (b v : ℕ) {i j : ℕ} (h : i ≠ j) :
    entry12 (putFirst12 m b i v) b j = entry12 m b j := by
  obtain ⟨k, rfl | rfl⟩ : ∃ k, i = 2 * k ∨ i = 2 * k + 1 := ⟨i / 2, by omega⟩
  · -- an entry that shares the byte would be this one
    refine entry12_congr fun x h1 h2 => set_other _ ?_
    omega
  · obtain ⟨l, rfl | rfl⟩ : ∃ l, j = 2 * l ∨ j = 2 * l + 1 := ⟨j / 2, by omega⟩
    · rw [entry12_even, entry12_even, putFirst12, show (2 * k + 1) * 3 / 2 = 3 * k + 1 by omega,
        set_other _ (show b + 3 * l ≠ b + (3 * k + 1) by omega)]
      by_cases hl : l = k
      · -- the half of the byte that the even entry has is kept
        subst hl
        have hbyte : (firstByte12 m b (2 * l + 1) v).toNat % 16 =
            (m (b + 3 * l + 1)).toNat % 16 := by
          rw [firstByte12, if_pos (by omega), show (2 * l + 1) * 3 / 2 = 3 * l + 1 by omega,
            BitVec.toNat_ofNat, ← Nat.add_assoc]
          omega
        rw [← Nat.add_assoc, set_same, hbyte]
      · rw [set_other _ (by omega)]
    · refine entry12_congr fun x h1 h2 => set_other _ ?_
      omega

/-- What the first half of a store makes of the old entry. -/
def torn12 (i old v : ℕ) : ℕ :=
  if i % 2 = 1 then old / 16 * 16 + v % 16 else old / 256 * 256 + v % 256

theorem entry12_putFirst12_same (m : Mem) (b i v : ℕ) :
    entry12 (putFirst12 m b i v) b i = torn12 i (entry12 m b i) v := by
  have h0 := (m (b + i * 3 / 2)).isLt
  have h1 := (m (b + i * 3 / 2 + 1)).isLt
  rw [entry12, entry12, le_two, le_two, putFirst12, set_same, set_other _ (by omega), firstByte12,
    torn12]
  split
  · rw [BitVec.toNat_ofNat]
    omega
  · rw [BitVec.toNat_ofNat]
    omega

theorem entry12_putEntry12_other (m : Mem) (b v : ℕ) {i j : ℕ} (h : i ≠ j) :
    entry12 (putEntry12 m b i v) b j = entry12 m b j := by
  rw [← entry12_putFirst12 m b v h, putEntry12]
  obtain ⟨k, rfl | rfl⟩ : ∃ k, i = 2 * k ∨ i = 2 * k + 1 := ⟨i / 2, by omega⟩
  · obtain ⟨l, rfl | rfl⟩ : ∃ l, j = 2 * l ∨ j = 2 * l + 1 := ⟨j / 2, by omega⟩
    · refine entry12_congr fun x h1 h2 => set_other _ ?_
      omega
    · rw [entry12_odd, entry12_odd, show 2 * k * 3 / 2 = 3 * k by omega,
        set_other _ (show b + 3 * l + 2 ≠ b + 3 * k + 1 by omega)]
      by_cases hl : l = k
      · -- the half of the byte that the odd entry has is kept
        subst hl
        have hbyte : (secondByte12 m b (2 * l) v).toNat / 16 =
            (putFirst12 m b (2 * l) v (b + 3 * l + 1)).toNat / 16 := by
          have h1 := (m (b + 3 * l + 1)).isLt
          rw [secondByte12, if_neg (by omega), show 2 * l * 3 / 2 = 3 * l by omega, putFirst12,
            set_other _ (by omega), BitVec.toNat_ofNat]
          omega
        rw [set_same, hbyte]
      · rw [set_other _ (by omega)]
  · refine entry12_congr fun x h1 h2 => set_other _ ?_
    omega

end ByteMemory
