import Mathlib

/-!
# Byte memory

A flat memory of bytes, with stores of one byte and of a whole range, big-endian words, and the
frame facts: what lies outside the range of a store is unchanged, and what a read returns depends
on its own range only.
-/

namespace ByteMemory

abbrev Byte := BitVec 8

abbrev Mem := ℕ → Byte

/-- The ranges `[a, a + n)` and `[b, b + k)` have no address in common. -/
def Apart (a n b k : ℕ) : Prop := a + n ≤ b ∨ b + k ≤ a

theorem Apart.symm {a n b k : ℕ} (h : Apart a n b k) : Apart b k a n := Or.symm h

theorem Apart.sub {a n b k a' n' b' k' : ℕ} (h : Apart a n b k) (ha : a ≤ a')
    (hn : a' + n' ≤ a + n) (hb : b ≤ b') (hk : b' + k' ≤ b + k) : Apart a' n' b' k' := by
  rcases h with h | h
  · exact Or.inl (by omega)
  · exact Or.inr (by omega)

/-- Two memories hold the same bytes in `[a, a + n)`. -/
def Same (m m' : Mem) (a n : ℕ) : Prop := ∀ x, a ≤ x → x < a + n → m x = m' x

theorem Same.sub {m m' : Mem} {a n a' n' : ℕ} (h : Same m m' a n) (ha : a ≤ a')
    (hn : a' + n' ≤ a + n) : Same m m' a' n' :=
  fun x h1 h2 => h x (by omega) (by omega)

/-- Store one byte. -/
def set (m : Mem) (a : ℕ) (b : Byte) : Mem := fun x => if x = a then b else m x

@[simp] theorem set_same (m : Mem) (a : ℕ) (b : Byte) : set m a b a = b := if_pos rfl

theorem set_other {m : Mem} {a x : ℕ} (b : Byte) (h : x ≠ a) : set m a b x = m x := if_neg h

/-- Store the bytes `f 0, .., f (n - 1)` from address `a` on. -/
def fill (m : Mem) (a n : ℕ) (f : ℕ → Byte) : Mem :=
  fun x => if a ≤ x ∧ x < a + n then f (x - a) else m x

@[simp] theorem fill_at (m : Mem) (a : ℕ) {n k : ℕ} (f : ℕ → Byte) (h : k < n) :
    fill m a n f (a + k) = f k := by
  rw [fill, if_pos (by omega), Nat.add_sub_cancel_left]

theorem fill_other {m : Mem} {a n x : ℕ} (f : ℕ → Byte) (h : ¬(a ≤ x ∧ x < a + n)) :
    fill m a n f x = m x := if_neg h

theorem fill_frame {m : Mem} {a n b k : ℕ} (f : ℕ → Byte) (h : Apart a n b k) :
    Same (fill m a n f) m b k := by
  intro x h1 h2
  apply fill_other
  rintro ⟨h3, h4⟩
  rcases h with h | h <;> omega

theorem fill_append (m : Mem) (a n k : ℕ) (f : ℕ → Byte) :
    fill (fill m a n f) (a + n) k (fun x => f (n + x)) = fill m a (n + k) f := by
  funext x
  simp only [fill]
  by_cases h1 : a + n ≤ x ∧ x < a + n + k
  · rw [if_pos h1, if_pos (by omega), show n + (x - (a + n)) = x - a by omega]
  · rw [if_neg h1]
    by_cases h2 : a ≤ x ∧ x < a + n
    · rw [if_pos h2, if_pos (by omega)]
    · rw [if_neg h2, if_neg (by omega)]

/-- The big-endian word at `a`. -/
def be32 (m : Mem) (a : ℕ) : BitVec 32 :=
  (m a).setWidth 32 <<< 24 ||| (m (a + 1)).setWidth 32 <<< 16 |||
    (m (a + 2)).setWidth 32 <<< 8 ||| (m (a + 3)).setWidth 32

theorem be32_congr {m m' : Mem} {a : ℕ} (h : Same m m' a 4) : be32 m a = be32 m' a := by
  rw [be32, be32, h a (by omega) (by omega), h (a + 1) (by omega) (by omega),
    h (a + 2) (by omega) (by omega), h (a + 3) (by omega) (by omega)]

/-- The bytes of `[a, a + n)`. -/
def bytes (m : Mem) (a n : ℕ) : List Byte := (List.range n).map fun k => m (a + k)

@[simp] theorem length_bytes (m : Mem) (a n : ℕ) : (bytes m a n).length = n := by simp [bytes]

theorem bytes_eq {m : Mem} {a n : ℕ} {f : ℕ → Byte} (h : ∀ k < n, m (a + k) = f k) :
    bytes m a n = (List.range n).map f := by
  apply List.map_congr_left
  intro k hk
  exact h k (List.mem_range.mp hk)

theorem bytes_congr {m m' : Mem} {a n : ℕ} (h : Same m m' a n) : bytes m a n = bytes m' a n :=
  bytes_eq fun k hk => h (a + k) (by omega) (by omega)

theorem bytes_add (m : Mem) (a n k : ℕ) : bytes m a (n + k) = bytes m a n ++ bytes m (a + n) k := by
  simp only [bytes, List.range_add, List.map_append, List.map_map, List.append_cancel_left_eq]
  apply List.map_congr_left
  intro j _
  simp [Nat.add_assoc]

end ByteMemory
