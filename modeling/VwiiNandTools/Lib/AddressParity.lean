import Mathlib

/-!
# The address-parity code

A block of `2 ^ w` bits is protected by two `w`-bit sums over its set bits: `odd`, the sum of the
addresses, and `even`, the sum of their complements (both modulo 2, bit by bit).  One flipped data
bit at `a` changes `odd` by `a` and `even` by `~a`, so the two changes differ in every position and
`odd` names the bit.  `decode` reads a pair of changes back, and `decode_secded` says that for
`3 ≤ w` it corrects every single flip (data or parity) and detects every double one.

The argument is on weights only.  A single data flip gives `even ^^^ odd` weight `w`; a parity flip
moves that by one; two data flips cancel it to `0` and leave an even total weight.
-/

namespace AddressParity

variable {w v : ℕ}

/-! ## Weights -/

/-- The positions of the set bits. -/
def ones (x : BitVec w) : Finset (Fin w) := Finset.univ.filter fun j => x.getLsbD j = true

/-- The number of set bits. -/
def weight (x : BitVec w) : ℕ := (ones x).card

@[simp] theorem mem_ones {x : BitVec w} {j : Fin w} : j ∈ ones x ↔ x.getLsbD j = true := by
  simp [ones]

theorem ones_xor (x y : BitVec w) : ones (x ^^^ y) = symmDiff (ones x) (ones y) := by
  ext j
  simp only [mem_ones, BitVec.getLsbD_xor, Finset.mem_symmDiff]
  cases x.getLsbD j <;> cases y.getLsbD j <;> simp

theorem ones_injective : Function.Injective (ones : BitVec w → Finset (Fin w)) := by
  intro x y h
  apply BitVec.eq_of_getLsbD_eq
  intro j hj
  have := Finset.ext_iff.mp h ⟨j, hj⟩
  simp only [mem_ones] at this
  exact Bool.eq_iff_iff.mpr this

@[simp] theorem ones_zero : ones (0#w) = ∅ := by ext j; simp

@[simp] theorem weight_zero : weight (0#w) = 0 := by simp [weight]

theorem weight_eq_zero {x : BitVec w} : weight x = 0 ↔ x = 0#w := by
  constructor
  · intro h
    apply ones_injective
    rw [ones_zero]
    exact Finset.card_eq_zero.mp h
  · rintro rfl
    exact weight_zero

@[simp] theorem weight_allOnes : weight (BitVec.allOnes w) = w := by
  have h : ones (BitVec.allOnes w) = Finset.univ := by ext j; simp
  rw [weight, h, Finset.card_univ, Fintype.card_fin]

theorem weight_eq_sum (x : BitVec w) : weight x = ∑ j ∈ Finset.range w, (x.getLsbD j).toNat := by
  rw [weight, ones, Finset.card_filter, Finset.sum_range]
  refine Finset.sum_congr rfl fun j _ => ?_
  cases x.getLsbD j <;> simp

/-- The triangle inequality. -/
theorem weight_xor_le (x y : BitVec w) : weight (x ^^^ y) ≤ weight x + weight y := by
  rw [weight, ones_xor]
  calc (symmDiff (ones x) (ones y)).card
      ≤ (ones x ∪ ones y).card := Finset.card_le_card (by
        intro j hj
        rcases Finset.mem_symmDiff.mp hj with h | h
        · exact Finset.mem_union_left _ h.1
        · exact Finset.mem_union_right _ h.1)
    _ ≤ (ones x).card + (ones y).card := Finset.card_union_le _ _

theorem le_weight_xor (x y : BitVec w) : weight x ≤ weight (x ^^^ y) + weight y := by
  have h := weight_xor_le (x ^^^ y) y
  rwa [BitVec.xor_assoc, BitVec.xor_self, BitVec.xor_zero] at h

theorem ones_twoPow (j : Fin w) : ones (BitVec.twoPow w j) = {j} := by
  ext i
  simp only [mem_ones, BitVec.getLsbD_twoPow, Finset.mem_singleton]
  simp [Fin.ext_iff, eq_comm]

theorem weight_eq_one {x : BitVec w} : weight x = 1 ↔ ∃ j : Fin w, x = BitVec.twoPow w j := by
  constructor
  · intro h
    obtain ⟨j, hj⟩ := Finset.card_eq_one.mp h
    exact ⟨j, ones_injective (by rw [hj, ones_twoPow])⟩
  · rintro ⟨j, rfl⟩
    rw [weight, ones_twoPow, Finset.card_singleton]

/-- The test `(x - 1) & x = 0` of a non-zero word finds the words with one set bit. -/
theorem sub_one_and_eq_zero {x : BitVec w} (hx : x ≠ 0#w) :
    (x - 1#w) &&& x = 0#w ↔ weight x = 1 := by
  have hpos : 0 < x.toNat := by
    rcases Nat.eq_zero_or_pos x.toNat with h | h
    · exact absurd (BitVec.eq_of_toNat_eq (by simpa using h)) hx
    · exact h
  have hw : 0 < w := by
    rcases Nat.eq_zero_or_pos w with rfl | h
    · have := x.isLt; omega
    · exact h
  have hone : (1#w).toNat = 1 := by
    rw [BitVec.toNat_ofNat]; exact Nat.mod_eq_of_lt (Nat.one_lt_two_pow (by omega))
  have hsub : (x - 1#w).toNat = x.toNat - 1 := by
    rw [BitVec.toNat_sub_of_le (by rw [BitVec.le_def, hone]; exact hpos), hone]
  have hnat : (x - 1#w) &&& x = 0#w ↔ x.toNat &&& (x.toNat - 1) = 0 := by
    rw [← BitVec.toNat_inj, BitVec.toNat_and, hsub, Nat.and_comm]
    simp
  rw [hnat, Nat.and_sub_one_eq_zero_iff_isPowerOfTwo (by omega), weight_eq_one]
  constructor
  · rintro ⟨k, hk⟩
    have hkw : k < w := by
      by_contra hn
      have := Nat.pow_le_pow_right (n := 2) (by omega) (not_lt.mp hn)
      have := x.isLt
      omega
    refine ⟨⟨k, hkw⟩, BitVec.eq_of_toNat_eq ?_⟩
    rw [hk, BitVec.toNat_twoPow]
    exact (Nat.mod_eq_of_lt (Nat.pow_lt_pow_right (by omega) hkw)).symm
  · rintro ⟨j, rfl⟩
    refine ⟨j, ?_⟩
    rw [BitVec.toNat_twoPow]
    exact Nat.mod_eq_of_lt (Nat.pow_lt_pow_right (by omega) j.isLt)

/-! ## Sums over the set bits of a block -/

/-- The sum, over the addresses of `l` whose bit is set, of what `φ` gives them. -/
def addrSum (φ : BitVec w → BitVec v) (f : BitVec w → Bool) : List (BitVec w) → BitVec v
  | [] => 0#v
  | a :: l => if f a then φ a ^^^ addrSum φ f l else addrSum φ f l

theorem addrSum_false (φ : BitVec w → BitVec v) (l : List (BitVec w)) :
    addrSum φ (fun _ => false) l = 0#v := by
  induction l with
  | nil => rfl
  | cons a l ih => simpa [addrSum] using ih

theorem addrSum_xor (φ : BitVec w → BitVec v) (f g : BitVec w → Bool) (l : List (BitVec w)) :
    addrSum φ (fun a => f a ^^ g a) l = addrSum φ f l ^^^ addrSum φ g l := by
  induction l with
  | nil => simp [addrSum]
  | cons a l ih =>
    simp only [addrSum, ih]
    apply BitVec.eq_of_getLsbD_eq
    intro i _
    cases f a <;> cases g a <;> cases h : (φ a).getLsbD i <;> simp [h]

theorem addrSum_congr {φ : BitVec w → BitVec v} {f g : BitVec w → Bool} {l : List (BitVec w)}
    (h : ∀ a ∈ l, f a = g a) : addrSum φ f l = addrSum φ g l := by
  induction l with
  | nil => rfl
  | cons a l ih =>
    rw [addrSum, addrSum, h a (by simp), ih fun b hb => h b (List.mem_cons_of_mem a hb)]

theorem addrSum_single (φ : BitVec w → BitVec v) (a : BitVec w) {l : List (BitVec w)}
    (hl : l.Nodup) (ha : a ∈ l) : addrSum φ (fun b => decide (b = a)) l = φ a := by
  induction l with
  | nil => simp at ha
  | cons b l ih =>
    obtain ⟨hb, hl'⟩ := List.nodup_cons.mp hl
    by_cases hba : b = a
    · subst hba
      have hrest : addrSum φ (fun c => decide (c = b)) l = 0#v := by
        rw [← addrSum_false φ l]
        exact addrSum_congr fun c hc => by
          simpa using fun he : c = b => hb (he ▸ hc)
      rw [addrSum, hrest]
      simp
    · have hal : a ∈ l := (List.mem_cons.mp ha).resolve_left (fun h => hba h.symm)
      rw [addrSum, ih hl' hal]
      simp [hba]

/-- All addresses of a block, in order. -/
def addresses (w : ℕ) : List (BitVec w) := (List.range (2 ^ w)).map (BitVec.ofNat w)

theorem mem_addresses (a : BitVec w) : a ∈ addresses w :=
  List.mem_map.mpr ⟨a.toNat, List.mem_range.mpr a.isLt, by simp⟩

theorem nodup_addresses : (addresses w).Nodup := by
  refine List.Nodup.map_on ?_ List.nodup_range
  intro x hx y hy h
  rw [List.mem_range] at hx hy
  have := congrArg BitVec.toNat h
  simpa [Nat.mod_eq_of_lt hx, Nat.mod_eq_of_lt hy] using this

/-- The sum of the complements of the addresses of the set bits. -/
def even (f : BitVec w → Bool) : BitVec w := addrSum (fun a => ~~~a) f (addresses w)

/-- The sum of the addresses of the set bits. -/
def odd (f : BitVec w → Bool) : BitVec w := addrSum (fun a => a) f (addresses w)

theorem even_xor (f g : BitVec w → Bool) : even (fun a => f a ^^ g a) = even f ^^^ even g :=
  addrSum_xor _ f g _

theorem odd_xor (f g : BitVec w → Bool) : odd (fun a => f a ^^ g a) = odd f ^^^ odd g :=
  addrSum_xor _ f g _

@[simp] theorem even_false : even (fun _ : BitVec w => false) = 0#w := addrSum_false _ _

@[simp] theorem odd_false : odd (fun _ : BitVec w => false) = 0#w := addrSum_false _ _

@[simp] theorem even_single (a : BitVec w) : even (fun b => decide (b = a)) = ~~~a :=
  addrSum_single _ a nodup_addresses (mem_addresses a)

@[simp] theorem odd_single (a : BitVec w) : odd (fun b => decide (b = a)) = a :=
  addrSum_single _ a nodup_addresses (mem_addresses a)

/-! ## Decoding -/

/-- What the changes of the two sums say about the block. -/
inductive Verdict (w : ℕ)
  | clean
  | parityBit
  | dataBit (a : BitVec w)
  | uncorrectable
  deriving DecidableEq, Repr

/-- Read the changes of the two sums back. -/
def decode (e o : BitVec w) : Verdict w :=
  if e = 0#w ∧ o = 0#w then .clean
  else if weight e + weight o = 1 then .parityBit
  else if e ^^^ o = BitVec.allOnes w then .dataBit o
  else .uncorrectable

theorem xor_xor_xor_comm (x y z t : BitVec w) :
    (x ^^^ y) ^^^ (z ^^^ t) = (x ^^^ z) ^^^ (y ^^^ t) := by
  rw [BitVec.xor_assoc, BitVec.xor_assoc, ← BitVec.xor_assoc y, BitVec.xor_comm y z,
    BitVec.xor_assoc z]

/-- Only parity bits flipped: none, one or two of them. -/
theorem decode_parity (hw : 3 ≤ w) {e o : BitVec w} (h : weight e + weight o ≤ 2) :
    decode e o = if weight e + weight o = 0 then .clean
      else if weight e + weight o = 1 then .parityBit else .uncorrectable := by
  have hzero : (e = 0#w ∧ o = 0#w) ↔ weight e + weight o = 0 := by
    rw [Nat.add_eq_zero_iff, weight_eq_zero, weight_eq_zero]
  have hne : e ^^^ o ≠ BitVec.allOnes w := by
    intro he
    have h1 := weight_xor_le e o
    rw [he, weight_allOnes] at h1
    omega
  simp only [decode, hzero, hne, if_false]

/-- One data bit flipped, with at most one parity bit beside it. -/
theorem decode_data (hw : 3 ≤ w) (a : BitVec w) {e o : BitVec w} (h : weight e + weight o ≤ 1) :
    decode (~~~a ^^^ e) (a ^^^ o) =
      if weight e + weight o = 0 then .dataBit a else .uncorrectable := by
  have hmix : (~~~a ^^^ e) ^^^ (a ^^^ o) = BitVec.allOnes w ^^^ (e ^^^ o) := by
    have hflip : ~~~a ^^^ a = BitVec.allOnes w := by ext j hj; simp
    rw [xor_xor_xor_comm, hflip]
  -- the two changes together keep at least `w - 1` set bits
  have hheavy : 2 ≤ weight (~~~a ^^^ e) + weight (a ^^^ o) := by
    have h1 := weight_xor_le (~~~a ^^^ e) (a ^^^ o)
    have h2 := le_weight_xor (BitVec.allOnes w) (e ^^^ o)
    have h3 := weight_xor_le e o
    rw [hmix] at h1
    rw [weight_allOnes] at h2
    omega
  have hnz : ¬(~~~a ^^^ e = 0#w ∧ a ^^^ o = 0#w) := by
    rintro ⟨h1, h2⟩
    rw [h1, h2, weight_zero] at hheavy
    omega
  rw [decode, if_neg hnz, if_neg (by omega), hmix]
  by_cases h0 : weight e + weight o = 0
  · obtain ⟨he, ho⟩ := Nat.add_eq_zero_iff.mp h0
    rw [weight_eq_zero] at he ho
    subst he ho
    simp
  · rw [if_neg h0, if_neg]
    intro hall
    have h1 := weight_xor_le (BitVec.allOnes w ^^^ (e ^^^ o)) (BitVec.allOnes w)
    have heo : e ^^^ o = 0#w := by
      have := congrArg (fun x => BitVec.allOnes w ^^^ x) hall
      simpa [← BitVec.xor_assoc] using this
    have hsame : e = o := by
      have := congrArg (fun x => x ^^^ o) heo
      simpa [BitVec.xor_assoc] using this
    subst hsame
    omega

/-- Two data bits flipped. -/
theorem decode_two_data {a b : BitVec w} (hab : a ≠ b) :
    decode (~~~a ^^^ ~~~b) (a ^^^ b) = .uncorrectable := by
  have hsame : ~~~a ^^^ ~~~b = a ^^^ b := by
    ext j hj; simp
  have hd : a ^^^ b ≠ 0#w := by
    intro h
    apply hab
    have := congrArg (fun x => x ^^^ b) h
    simpa [BitVec.xor_assoc] using this
  have hpos : weight (a ^^^ b) ≠ 0 := fun h => hd (weight_eq_zero.mp h)
  have hw : 0 < w := by
    rcases Nat.eq_zero_or_pos w with rfl | h
    · exact absurd (Subsingleton.elim _ _) hab
    · exact h
  have hall : (0#w) ≠ BitVec.allOnes w := by
    intro h
    have := congrArg weight h
    rw [weight_zero, weight_allOnes] at this
    omega
  rw [decode, hsame, if_neg (fun h => hd h.1), if_neg (by omega), BitVec.xor_self, if_neg hall]

/-- **The code corrects one flip and detects two.**  `D` are the flipped data bits, `e` and `o` the
flipped bits of the two stored sums. -/
theorem decode_secded (hw : 3 ≤ w) (D : Finset (BitVec w)) (e o : BitVec w)
    (h : D.card + (weight e + weight o) ≤ 2) :
    (D.card + (weight e + weight o) = 0 →
      decode (even (fun a => decide (a ∈ D)) ^^^ e) (odd (fun a => decide (a ∈ D)) ^^^ o) =
        .clean) ∧
    (∀ a, D = {a} → weight e + weight o = 0 →
      decode (even (fun a => decide (a ∈ D)) ^^^ e) (odd (fun a => decide (a ∈ D)) ^^^ o) =
        .dataBit a) ∧
    (D = ∅ → weight e + weight o = 1 →
      decode (even (fun a => decide (a ∈ D)) ^^^ e) (odd (fun a => decide (a ∈ D)) ^^^ o) =
        .parityBit) ∧
    (D.card + (weight e + weight o) = 2 →
      decode (even (fun a => decide (a ∈ D)) ^^^ e) (odd (fun a => decide (a ∈ D)) ^^^ o) =
        .uncorrectable) := by
  have hcard : D.card = 0 ∨ D.card = 1 ∨ D.card = 2 := by omega
  rcases hcard with h0 | h1 | h2
  · obtain rfl := Finset.card_eq_zero.mp h0
    have hd := decode_parity hw (e := e) (o := o) (by omega)
    simp only [Finset.notMem_empty, decide_false, even_false, odd_false, BitVec.zero_xor,
      Finset.card_empty, Nat.zero_add, hd]
    refine ⟨fun h => by simp [h], fun a ha => absurd ha.symm (Finset.singleton_ne_empty a),
      fun _ h => by simp [h], fun h => by simp [h]⟩
  · obtain ⟨a, rfl⟩ := Finset.card_eq_one.mp h1
    have hd := decode_data hw a (e := e) (o := o) (by omega)
    simp only [Finset.mem_singleton, even_single, odd_single, hd, Finset.card_singleton]
    refine ⟨fun h => by omega, fun b hb h => ?_,
      fun h => absurd h (Finset.singleton_ne_empty a), fun h => by rw [if_neg (by omega)]⟩
    rw [if_pos h, Finset.singleton_inj.mp hb]
  · obtain ⟨a, b, hab, rfl⟩ := Finset.card_eq_two.mp h2
    obtain ⟨he, ho⟩ : weight e = 0 ∧ weight o = 0 := by omega
    rw [weight_eq_zero] at he ho
    subst he ho
    have hf : (fun c => decide (c ∈ ({a, b} : Finset (BitVec w)))) =
        fun c => (decide (c = a) ^^ decide (c = b)) := by
      funext c
      by_cases hca : c = a
      · subst hca; simp [hab]
      · simp [hca]
    rw [hf, even_xor, odd_xor, even_single, even_single, odd_single, odd_single, BitVec.xor_zero,
      BitVec.xor_zero, decode_two_data hab]
    refine ⟨fun h => by omega, fun c hc => ?_, fun h => ?_, fun _ => rfl⟩
    · rw [hc, Finset.card_singleton] at h2; omega
    · rw [h, Finset.card_empty] at h2; omega

end AddressParity
