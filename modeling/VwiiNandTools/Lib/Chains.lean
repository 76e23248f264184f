import Mathlib

/-!
# Chains of cells

Linked lists in a table of cells: a cell is free, the last of a chain, or linked to another one.
A chain ends, so it is determined by its first cell and has no cell twice; a change to other cells
leaves it alone, and a free cell can be linked to its end.  `Holds` says that a family of owners
have chains without a common cell; allocation and release keep it.
-/

namespace Chains

universe u v

inductive Link (α : Type u)
  | free
  | last
  | next (d : α)
  deriving DecidableEq

/-- The cells from `c` to the last of its chain. -/
inductive Chain {α : Type u} (L : α → Link α) : α → List α → Prop
  | last {c : α} : L c = .last → Chain L c [c]
  | cons {c d : α} {l : List α} : L c = .next d → Chain L d l → Chain L c (c :: l)

section Chain

variable {α : Type u} {L L' : α → Link α} {c d r : α} {l l' : List α}

theorem Chain.ne_nil (h : Chain L c l) : l ≠ [] := by
  cases h <;> exact List.cons_ne_nil _ _

theorem Chain.head (h : Chain L c l) : ∃ t, l = c :: t := by
  cases h with
  | last => exact ⟨[], rfl⟩
  | cons => exact ⟨_, rfl⟩

theorem Chain.unique (h : Chain L c l) (h' : Chain L c l') : l = l' := by
  induction h generalizing l' with
  | last hc =>
    cases h' with
    | last => rfl
    | cons hc' => cases hc.symm.trans hc'
  | cons hc _ ih =>
    cases h' with
    | last hc' => cases hc.symm.trans hc'
    | cons hc' ht =>
      cases hc.symm.trans hc'
      rw [ih ht]

theorem Chain.not_free (h : Chain L c l) (hd : d ∈ l) : L d ≠ .free := by
  induction h with
  | last hc =>
    rw [List.mem_singleton.mp hd, hc]
    exact fun h => nomatch h
  | cons hc _ ih =>
    rcases List.mem_cons.mp hd with rfl | hd
    · rw [hc]
      exact fun h => nomatch h
    · exact ih hd

theorem Chain.congr (h : Chain L c l) (hL : ∀ d ∈ l, L' d = L d) : Chain L' c l := by
  induction h with
  | last hc => exact .last ((hL _ (List.mem_singleton_self _)).trans hc)
  | cons hc _ ih =>
    exact .cons ((hL _ (List.mem_cons_self ..)).trans hc)
      (ih fun d hd => hL d (List.mem_cons_of_mem _ hd))

theorem Chain.suffix (h : Chain L c l) (hd : d ∈ l) : ∃ s, s <:+ l ∧ Chain L d s := by
  induction h with
  | last hc =>
    cases List.mem_singleton.mp hd
    exact ⟨_, List.suffix_rfl, .last hc⟩
  | cons hc ht ih =>
    rcases List.mem_cons.mp hd with rfl | hd
    · exact ⟨_, List.suffix_rfl, .cons hc ht⟩
    · obtain ⟨s, hs, hchain⟩ := ih hd
      exact ⟨s, hs.trans (List.suffix_cons _ _), hchain⟩

/-- A chain ends, so it has no cell twice. -/
theorem Chain.nodup (h : Chain L c l) : l.Nodup := by
  induction h with
  | last => exact List.nodup_singleton _
  | cons hc ht ih =>
    refine List.nodup_cons.mpr ⟨fun hmem => ?_, ih⟩
    obtain ⟨s, hs, hchain⟩ := ht.suffix hmem
    have hlen := hs.length_le
    rw [hchain.unique (.cons hc ht), List.length_cons] at hlen
    omega

theorem Chain.last_eq (h : Chain L c l) : L (l.getLast h.ne_nil) = .last := by
  induction h with
  | last hc => exact hc
  | cons hc ht ih => rw [List.getLast_cons ht.ne_nil, ih]

theorem Chain.next_eq (h : Chain L c l) {i : ℕ} (hi : i + 1 < l.length) : L l[i] = .next l[i + 1] := by
  induction h generalizing i with
  | last => simp at hi
  | cons hc ht ih =>
    cases i with
    | zero =>
      obtain ⟨t, rfl⟩ := ht.head
      exact hc
    | succ i => exact ih (by simpa using hi)

/-- A free cell is linked to the end. -/
theorem Chain.extend (h : Chain L c l) (hr : L r = .free) (hr' : L' r = .last)
    (hlast : L' (l.getLast h.ne_nil) = .next r)
    (hL : ∀ d, d ≠ r → d ≠ l.getLast h.ne_nil → L' d = L d) : Chain L' c (l ++ [r]) := by
  have hrl : r ∉ l := fun hmem => h.not_free hmem hr
  have hnd := h.nodup
  induction h with
  | last hc => exact .cons hlast (.last hr')
  | @cons c d l hc ht ih =>
    rw [List.nodup_cons] at hnd
    have hne : l.getLast ht.ne_nil = (c :: l).getLast (List.cons_ne_nil _ _) :=
      (List.getLast_cons ht.ne_nil).symm
    have hcl : c ≠ (c :: l).getLast (List.cons_ne_nil _ _) := fun heq =>
      hnd.1 (heq ▸ hne ▸ List.getLast_mem ht.ne_nil)
    have hcr : c ≠ r := fun heq => hrl (heq ▸ List.mem_cons_self ..)
    refine .cons ((hL c hcr hcl).trans hc) (ih (hne ▸ hlast) (fun x hx hx' => hL x hx ?_) ?_ hnd.2)
    · rw [← hne]
      exact hx'
    · exact fun hmem => hrl (List.mem_cons_of_mem _ hmem)

end Chain

/-! ## Owners -/

/-- Every owner has a chain or nothing, and no cell has two owners. -/
structure Holds {α : Type u} {ι : Type v} (L : α → Link α) (F : ι → List α) : Prop where
  chain : ∀ i, F i = [] ∨ ∃ c, Chain L c (F i)
  disjoint : ∀ i j, i ≠ j → List.Disjoint (F i) (F j)

section Holds

variable {α : Type u} {ι : Type v} {L L' : α → Link α} {F : ι → List α} {i j : ι} {l : List α}

theorem Holds.not_free (h : Holds L F) {d : α} (hd : d ∈ F i) : L d ≠ .free := by
  rcases h.chain i with hnil | ⟨c, hchain⟩
  · rw [hnil] at hd
    cases hd
  · exact hchain.not_free hd

/-- **Allocation and release.**  One owner's chain is replaced: the new cells were free, and of the
cells that were not, only its old and new ones are changed. -/
theorem Holds.update [DecidableEq ι] (h : Holds L F) (hl : l = [] ∨ ∃ c, Chain L' c l)
    (hnew : ∀ d ∈ l, d ∈ F i ∨ L d = .free)
    (hL : ∀ d, L d ≠ .free → d ∉ F i → d ∉ l → L' d = L d) :
    Holds L' (Function.update F i l) := by
  have hdisj : ∀ j, j ≠ i → List.Disjoint (F j) l := by
    intro j hj d hdj hdl
    rcases hnew d hdl with hd | hd
    · exact h.disjoint j i hj hdj hd
    · exact h.not_free hdj hd
  constructor
  · intro j
    by_cases hj : j = i
    · subst hj
      rw [Function.update_self]
      exact hl
    · rw [Function.update_of_ne hj]
      rcases h.chain j with hnil | ⟨c, hchain⟩
      · exact Or.inl hnil
      · exact Or.inr ⟨c, hchain.congr fun d hd =>
          hL d (h.not_free hd) (fun hd' => h.disjoint j i hj hd hd') fun hd' => hdisj j hj hd hd'⟩
  · intro j k hjk
    by_cases hj : j = i
    · subst hj
      rw [Function.update_self, Function.update_of_ne hjk.symm]
      exact (hdisj k hjk.symm).symm
    · rw [Function.update_of_ne hj]
      by_cases hk : k = i
      · subst hk
        rw [Function.update_self]
        exact hdisj j hj
      · rw [Function.update_of_ne hk]
        exact h.disjoint j k hjk

end Holds

end Chains
