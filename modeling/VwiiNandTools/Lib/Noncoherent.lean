import Mathlib.Logic.Function.Basic

/-!
# A memory cell behind caches that do not see each other

Each agent has at most one copy of the cell, and reads and writes its copy.  A copy goes back to
memory only when the agent cleans it, and is fetched again only after the agent has dropped it.
-/

namespace Noncoherent

universe u v

/-- A cached copy, with its dirty bit. -/
structure Copy (α : Type v) where
  value : α
  dirty : Bool
  deriving DecidableEq

/-- The cell: what memory holds, and what each agent caches. -/
structure Cell (ι : Type u) (α : Type v) where
  mem : α
  cache : ι → Option (Copy α)

namespace Cell

variable {ι : Type u} {α : Type v}

/-- What the agent reads. -/
def view (i : ι) (s : Cell ι α) : α := (s.cache i).elim s.mem Copy.value

def cached (i : ι) (s : Cell ι α) : Bool := (s.cache i).isSome

/-- What the agent has written and not yet written back. -/
def pending (i : ι) (s : Cell ι α) : Option α :=
  (s.cache i).bind fun c => if c.dirty then some c.value else none

section Views

variable {i : ι} {s s' : Cell ι α}

theorem view_of_not_cached (h : s.cached i = false) : s.view i = s.mem := by
  rw [cached, Option.isSome_eq_false_iff, Option.isNone_iff_eq_none] at h
  rw [view, h]
  rfl

theorem view_of_pending {v : α} (h : s.pending i = some v) : s.view i = v := by
  obtain ⟨c, hc, hv⟩ := Option.bind_eq_some_iff.mp h
  split at hv
  · rw [view, hc]
    exact Option.some.inj hv
  · cases hv

theorem cached_congr (h : s'.cache i = s.cache i) : s'.cached i = s.cached i := by
  rw [cached, cached, h]

theorem pending_congr (h : s'.cache i = s.cache i) : s'.pending i = s.pending i := by
  rw [pending, pending, h]

theorem view_congr (h : s'.cache i = s.cache i) (hcached : s.cached i = true) :
    s'.view i = s.view i := by
  obtain ⟨c, hc⟩ := Option.isSome_iff_exists.mp hcached
  rw [view, view, h, hc]
  rfl

/-- An agent sees what it saw, or memory. -/
theorem view_cases (h : s'.cache i = s.cache i) : s'.view i = s.view i ∨ s'.view i = s'.mem := by
  cases hc : s'.cached i with
  | false => exact Or.inr (view_of_not_cached hc)
  | true => exact Or.inl (view_congr h ((cached_congr h).symm.trans hc))

end Views

/-! ## What an agent does -/

variable [DecidableEq ι]

/-- A read that misses fetches the cell. -/
def load (i : ι) (s : Cell ι α) : Cell ι α :=
  match s.cache i with
  | some _ => s
  | none => { s with cache := Function.update s.cache i (some ⟨s.mem, false⟩) }

/-- A write changes the agent's copy only. -/
def store (i : ι) (f : α → α) (s : Cell ι α) : Cell ι α :=
  { s with cache := Function.update s.cache i (some ⟨f (s.view i), true⟩) }

def invalidate (i : ι) (s : Cell ι α) : Cell ι α :=
  { s with cache := Function.update s.cache i none }

/-- A dirty copy is written back and stays. -/
def clean (i : ι) (s : Cell ι α) : Cell ι α :=
  match s.cache i with
  | some ⟨value, true⟩ =>
    { mem := value, cache := Function.update s.cache i (some ⟨value, false⟩) }
  | _ => s

/-- A dirty copy is written back and dropped. -/
def flush (i : ι) (s : Cell ι α) : Cell ι α := (s.clean i).invalidate i

variable {i j : ι} {s : Cell ι α}

/-! ## The agent's own view -/

@[simp] theorem mem_load : (s.load i).mem = s.mem := by
  rw [load]
  split <;> rfl

@[simp] theorem view_load : (s.load i).view i = s.view i := by
  rw [load]
  split
  · rfl
  · next h => simp [view, h]

@[simp] theorem cached_load : (s.load i).cached i = true := by
  rw [load]
  split
  · next h => simp [cached, h]
  · simp [cached]

@[simp] theorem pending_load : (s.load i).pending i = s.pending i := by
  rw [load]
  split
  · rfl
  · next h => simp [pending, h]

@[simp] theorem mem_store (f : α → α) : (s.store i f).mem = s.mem := rfl

@[simp] theorem view_store (f : α → α) : (s.store i f).view i = f (s.view i) := by
  simp [store, view]

@[simp] theorem pending_store (f : α → α) : (s.store i f).pending i = some (f (s.view i)) := by
  simp [store, pending]

@[simp] theorem mem_invalidate : (s.invalidate i).mem = s.mem := rfl

@[simp] theorem cached_invalidate : (s.invalidate i).cached i = false := by
  simp [invalidate, cached]

@[simp] theorem pending_invalidate : (s.invalidate i).pending i = none := by
  simp [invalidate, pending]

@[simp] theorem mem_clean : (s.clean i).mem = (s.pending i).getD s.mem := by
  rw [clean, pending]
  split
  · next h => simp [h]
  · next h =>
    cases hc : s.cache i with
    | none => rfl
    | some c =>
      cases hd : c.dirty with
      | false => simp [hd]
      | true => exact absurd (by rw [hc, ← hd]) (h c.value)

@[simp] theorem view_clean : (s.clean i).view i = s.view i := by
  rw [clean]
  split
  · next h => simp [view, h]
  · rfl

@[simp] theorem pending_clean : (s.clean i).pending i = none := by
  rw [clean]
  split
  · simp [pending]
  · next h =>
    cases hc : s.cache i with
    | none => rw [pending, hc]; rfl
    | some c =>
      cases hd : c.dirty with
      | false => simp [pending, hc, hd]
      | true => exact absurd (by rw [hc, ← hd]) (h c.value)

@[simp] theorem mem_flush : (s.flush i).mem = (s.pending i).getD s.mem := mem_clean

@[simp] theorem pending_flush : (s.flush i).pending i = none := pending_invalidate

/-! ## The others -/

section Frame

variable (h : j ≠ i)
include h

theorem cache_load : (s.load i).cache j = s.cache j := by
  rw [load]
  split
  · rfl
  · exact Function.update_of_ne h _ _

theorem cache_store (f : α → α) : (s.store i f).cache j = s.cache j := Function.update_of_ne h _ _

theorem cache_invalidate : (s.invalidate i).cache j = s.cache j := Function.update_of_ne h _ _

theorem cache_clean : (s.clean i).cache j = s.cache j := by
  rw [clean]
  split
  · exact Function.update_of_ne h _ _
  · rfl

theorem cache_flush : (s.flush i).cache j = s.cache j :=
  (cache_invalidate h).trans (cache_clean h)

end Frame

end Cell

end Noncoherent
