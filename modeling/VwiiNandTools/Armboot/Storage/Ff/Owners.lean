import VwiiNandTools.Armboot.Storage.Ff.Chain

/-!
# The owners of the clusters

`remove_chain` frees the clusters of a chain, and ends on every table.  The free count of the FSInfo
stays right.

In every run of `create_chain` and `remove_chain` for any number of files, whatever accesses fail,
the files keep chains without a common cluster (`chain_run`).  A file can be damaged only by an error
in its own call: when its chain is not given back whole, or when the entry of its last cluster is torn,
which may then name any cluster.
-/

namespace VwiiNandTools.Ff

open ByteMemory Chains
open VwiiNandTools.Dump (FResult)
open Transition

section Release

variable {fs fs' fs'' : Fatfs} {S T : List ℕ} {c d r n scl ncl : ℕ} {l : List ℕ}

/-! ## Giving a chain back -/

theorem FatChanged.free_iff (h : FatChanged fs fs' S) (hd : d ∉ S) : Free fs' d ↔ Free fs d := by
  rw [Free, Free, h.mount]
  exact and_congr_right fun hc => by rw [h.others d hc.2 hd]

/-- The free clusters. -/
def freeClusters (fs : Fatfs) : Finset ℕ := (Finset.range fs.maxClust).filter (Free fs)

theorem mem_freeClusters : d ∈ freeClusters fs ↔ Free fs d := by
  rw [freeClusters, Finset.mem_filter, Finset.mem_range]
  exact and_iff_right_of_imp fun h => h.1.2

/-- The free count is unknown or right. -/
def FreeExact (fs : Fatfs) : Prop :=
  fs.freeClust = 0xFFFFFFFF ∨ fs.freeClust = (freeClusters fs).card

theorem card_freeClusters (hv : fs.Valid) : (freeClusters fs).card < 0xFFFFFFFF := by
  have hle := (Finset.card_filter_le (Finset.range fs.maxClust) (Free fs)).trans_eq
    (Finset.card_range fs.maxClust)
  have hbig : fs.maxClust ≤ 0x0FFFFFF7 := hv.clusters.trans (by cases fs.fsType <;> decide)
  rw [freeClusters]
  omega

theorem Moved.freeExact (h : Moved fs fs') (he : FreeExact fs) : FreeExact fs' := by
  have heq : freeClusters fs' = freeClusters fs := by
    ext d
    rw [mem_freeClusters, mem_freeClusters, h.free_iff]
  rw [FreeExact, heq, h.free]
  exact he

theorem Taken.freeExact {clst : ℕ} (h : Taken fs clst r fs') (hclst : clst = 0 ∨ link fs clst = .last)
    (hv : fs.Valid) (he : FreeExact fs) : FreeExact fs' := by
  have hused : ∀ d, link fs' d ≠ .free → ¬Free fs' d := fun d hd hf => hd hf.link
  have heq : freeClusters fs' = (freeClusters fs).erase r := by
    ext d
    rw [Finset.mem_erase, mem_freeClusters, mem_freeClusters]
    rcases eq_or_ne d r with rfl | hdr
    · refine iff_of_false (hused d ?_) fun hand => hand.1 rfl
      rw [h.last]
      rintro ⟨⟩
    · rw [and_iff_right hdr]
      by_cases h0 : clst = 0
      · refine h.changed.free_iff ?_
        rw [if_pos h0]
        exact fun hmem => hdr (List.mem_singleton.mp hmem)
      · by_cases hd : d = clst
        · subst hd
          refine iff_of_false (hused d ?_) fun hf => ?_
          · rw [h.linked h0]
            rintro ⟨⟩
          · cases (hclst.resolve_left h0).symm.trans hf.link
        · refine h.changed.free_iff ?_
          rw [if_neg h0]
          exact fun hmem => (List.mem_cons.mp hmem).elim hdr fun hmem =>
            hd (List.mem_singleton.mp hmem)
  have hcard : (freeClusters fs').card = (freeClusters fs).card - 1 := by
    rw [heq, Finset.card_erase_of_mem (mem_freeClusters.mpr h.free)]
  have hpos : 0 < (freeClusters fs).card := Finset.card_pos.mpr ⟨r, mem_freeClusters.mpr h.free⟩
  have hlt := card_freeClusters hv
  rw [FreeExact, h.count]
  rcases he with hno | hyes
  · exact Or.inl (if_pos hno)
  · rw [if_neg (by omega), hcard]
    exact Or.inr (by omega)

theorem noteFreed_free : (noteFreed fs).freeClust =
    if fs.freeClust = 0xFFFFFFFF then 0xFFFFFFFF else (fs.freeClust + 1) % 0x100000000 := by
  rw [noteFreed]
  split
  · next hno => exact hno
  · rfl

theorem freed_step (hch : FatChanged fs fs' [c]) (hcount : fs'.freeClust = fs.freeClust)
    (htab : table fs' c = 0) (hc : fs.Cluster c) (hused : table fs c ≠ 0) :
    FatChanged fs (noteFreed fs') [c] ∧ Free (noteFreed fs') c ∧
      (freeClusters (noteFreed fs')).card = (freeClusters fs).card + 1 ∧
      (noteFreed fs').freeClust =
        if fs.freeClust = 0xFFFFFFFF then 0xFFFFFFFF else (fs.freeClust + 1) % 0x100000000 := by
  obtain ⟨hm, hs, hok, hframe, hothers⟩ := hch
  have hnote : FatChanged fs (noteFreed fs') [c] ∧ table (noteFreed fs') = table fs' := by
    rw [noteFreed]
    split
    · exact ⟨⟨hm, hs, hok, hframe, hothers⟩, rfl⟩
    · exact ⟨⟨hm, hs, ⟨hok.base, hok.none, hok.plain, hok.clean⟩, hframe, hothers⟩, rfl⟩
  obtain ⟨hch, htable⟩ := hnote
  have hfree : Free (noteFreed fs') c := ⟨hch.mount ▸ hc, (congrFun htable c).trans htab⟩
  refine ⟨hch, hfree, ?_, ?_⟩
  · have hnot : c ∉ freeClusters fs := fun hmem => hused (mem_freeClusters.mp hmem).2
    have heq : freeClusters (noteFreed fs') = insert c (freeClusters fs) := by
      ext d
      rw [Finset.mem_insert, mem_freeClusters, mem_freeClusters]
      rcases eq_or_ne d c with rfl | hd
      · exact iff_of_true hfree (Or.inl rfl)
      · rw [or_iff_right hd]
        exact hch.free_iff fun hmem => hd (List.mem_singleton.mp hmem)
    rw [heq, Finset.card_insert_of_notMem hnot]
  · rw [noteFreed_free, hcount]

theorem FreeExact.freed (he : FreeExact fs) (hv : fs.Valid) (hm : fs'.toMount = fs.toMount)
    (hcard : (freeClusters fs').card = (freeClusters fs).card + 1)
    (hcount : fs'.freeClust =
      if fs.freeClust = 0xFFFFFFFF then 0xFFFFFFFF else (fs.freeClust + 1) % 0x100000000) :
    FreeExact fs' := by
  have hlt := card_freeClusters (hm ▸ hv : fs'.Valid)
  have hlt0 := card_freeClusters hv
  rw [FreeExact, hcount]
  rcases he with hno | hyes
  · exact Or.inl (if_pos hno)
  · rw [if_neg (by omega), hcard]
    exact Or.inr (by omega)

/-- **`remove_chain`** frees the clusters of the chain and no others. -/
theorem removeLoop_spec (h : WinOk fs) (hv : fs.Valid) (hl : Chain (link fs) c l)
    (hn : l.length ≤ n) :
    let r := removeLoop n c fs
    FatChanged fs r.2 l ∧
      (r.1 = .ok ∧ (∀ d ∈ l, Free r.2 d) ∧ (FreeExact fs → FreeExact r.2) ∨ r.1 = .diskErr) ∧
      (Reliable fs → r.1 = .ok) := by
  induction n generalizing fs c l with
  | zero =>
    have hpos := List.length_pos_of_ne_nil hl.ne_nil
    omega
  | succ n ih =>
    obtain ⟨t, rfl⟩ := hl.head
    have hc := cluster_of_chain hl (List.mem_cons_self ..)
    obtain ⟨hmoved, hres, hok⟩ := getCluster_spec h hv hc
    have hlt := @table_lt fs c hv
    -- the entry is the next cluster, or a mark behind all of them
    have hentry : 2 ≤ table fs c ∧ table fs c ≠ 0 := by
      have h2 := hv.two
      cases hl with
      | last hc' =>
        have := (of_link_last hc').2
        omega
      | cons hc' ht =>
        obtain ⟨-, heq, -, -⟩ := of_link_next hc'
        obtain ⟨t', rfl⟩ := ht.head
        have := (cluster_of_chain ht (List.mem_cons_self ..)).1
        omega
    rw [removeLoop, if_neg (not_le.mpr hc.2)]
    generalize getCluster c fs = q at hmoved hres hok
    obtain ⟨nxt, fs1⟩ := q
    dsimp only at hmoved hres hok ⊢
    have hsub : ∀ d ∈ ([] : List ℕ), d ∈ c :: t := fun d hd => by cases hd
    rcases hres with ⟨rfl, hw⟩ | rfl
    · rw [if_neg hentry.2, if_neg (by omega), if_neg (by omega)]
      obtain ⟨hput, hpres, hpok⟩ :=
        putCluster_spec hmoved.winOk (hmoved.mount ▸ hv) hw (hmoved.mount ▸ hc) 0
      generalize putCluster c 0 fs1 = q at hput hpres hpok
      obtain ⟨res, fs2⟩ := q
      dsimp only at hput hpres hpok ⊢
      have hch : FatChanged fs fs2 [c] := hmoved.fatChanged.trans hput.fatChanged
      rcases hpres with ⟨rfl, htab⟩ | ⟨rfl, -⟩
      · rw [Nat.zero_mod] at htab
        obtain ⟨hch', hfree, hcard, hcount⟩ :=
          freed_step hch (hput.steady.free.trans hmoved.free) htab hc hentry.2
        dsimp only
        generalize noteFreed fs2 = fs3 at hch' hfree hcard hcount ⊢
        have hexact : FreeExact fs → FreeExact fs3 := fun he => he.freed hv hch'.mount hcard hcount
        cases hl with
        | last hc' =>
          have hend : removeLoop n (table fs c) fs3 = (.ok, fs3) := by
            cases n with
            | zero => rfl
            | succ n =>
              rw [removeLoop, if_pos]
              rw [hch'.mount]
              exact (of_link_last hc').2
          rw [hend]
          exact ⟨hch', Or.inl ⟨rfl, fun d hd => List.mem_singleton.mp hd ▸ hfree, hexact⟩,
            fun _ => rfl⟩
        | cons hc' ht =>
          have hnd := List.nodup_cons.mp (Chain.cons hc' ht).nodup
          obtain ⟨-, heq, -, -⟩ := of_link_next hc'
          have hchain : Chain (link fs3) (table fs c) t := by
            rw [heq]
            exact ht.congr fun x hx => hch'.link fun hmem =>
              hnd.1 (List.mem_singleton.mp hmem ▸ hx)
          obtain ⟨hrest, hout, hrel⟩ := ih hch'.winOk (hch'.mount ▸ hv) hchain
            (Nat.le_of_succ_le_succ hn)
          refine ⟨hch'.trans hrest, hout.imp_left fun hall =>
            ⟨hall.1, fun d hd => ?_, fun he => hall.2.2 (hexact he)⟩,
            fun hr => hrel (hch'.reliable hr)⟩
          rcases List.mem_cons.mp hd with rfl | hd
          · exact (hrest.free_iff hnd.1).mpr hfree
          · exact hall.2.1 d hd
      · exact ⟨hch.mono fun d hd => List.mem_singleton.mp hd ▸ List.mem_cons_self .., Or.inr rfl,
          fun hr => by cases hpok (hmoved.reliable hr)⟩
    · rw [if_neg (by decide), if_neg (by decide), if_pos rfl]
      refine ⟨hmoved.fatChanged.mono hsub, Or.inr rfl, fun hr => ?_⟩
      have := (hok hr).1
      omega

/-- More passes than clusters change nothing: the loop ends on every table, also on a cycle. -/
theorem removeLoop_fuel {m : ℕ} (h : WinOk fs) (hv : fs.Valid)
    (hn : fs.maxClust ≤ (freeClusters fs).card + n) (hm : n ≤ m) :
    removeLoop m c fs = removeLoop n c fs := by
  induction n generalizing fs c m with
  | zero =>
    have hsub : freeClusters fs ⊆ (Finset.range fs.maxClust).erase 0 := fun d hd =>
      Finset.mem_erase.mpr ⟨by have := (mem_freeClusters.mp hd).1.1; omega,
        (Finset.mem_filter.mp hd).1⟩
    have hcard := Finset.card_le_card hsub
    have h2 := hv.two
    rw [Finset.card_erase_of_mem (Finset.mem_range.mpr (by omega)), Finset.card_range] at hcard
    omega
  | succ n ih =>
    obtain ⟨m, rfl⟩ : ∃ k, m = k + 1 := ⟨m - 1, by omega⟩
    rw [removeLoop, removeLoop]
    by_cases hc : fs.Cluster c
    · obtain ⟨hmoved, hres, -⟩ := getCluster_spec h hv hc
      generalize getCluster c fs = q at hmoved hres
      obtain ⟨nxt, fs1⟩ := q
      dsimp only at hmoved hres ⊢
      rcases hres with ⟨rfl, hw⟩ | rfl
      · by_cases h0 : table fs c = 0
        · rw [if_pos h0, if_pos h0]
        · rw [if_neg h0, if_neg h0]
          obtain ⟨hput, hpres, -⟩ :=
            putCluster_spec hmoved.winOk (hmoved.mount ▸ hv) hw (hmoved.mount ▸ hc) 0
          generalize putCluster c 0 fs1 = q at hput hpres
          obtain ⟨res, fs2⟩ := q
          dsimp only at hput hpres ⊢
          rcases hpres with ⟨rfl, htab⟩ | ⟨rfl, -⟩
          · rw [Nat.zero_mod] at htab
            obtain ⟨hch, -, hcard, -⟩ := freed_step (hmoved.fatChanged.trans hput.fatChanged)
              (hput.steady.free.trans hmoved.free) htab hc h0
            dsimp only
            rw [ih hch.winOk (hch.mount ▸ hv) (by rw [hch.mount, hcard]; omega) (by omega)]
          · rfl
      · rfl
    · have hinv := getCluster_invalid hc
      by_cases hmax : fs.maxClust ≤ c
      · rw [if_pos hmax, if_pos hmax]
      · rw [if_neg hmax, if_neg hmax, hinv]
        rfl

theorem length_le_maxClust (hl : Chain (link fs) c l) : l.length ≤ fs.maxClust := by
  have hsub : l.toFinset ⊆ Finset.range fs.maxClust := fun d hd =>
    Finset.mem_range.mpr (cluster_of_chain hl (List.mem_toFinset.mp hd)).2
  have hcard := Finset.card_le_card hsub
  rwa [List.toFinset_card_of_nodup hl.nodup, Finset.card_range] at hcard

theorem removeChain_spec (h : WinOk fs) (hv : fs.Valid) (hl : Chain (link fs) c l) :
    let r := removeChain c fs
    FatChanged fs r.2 l ∧
      (r.1 = .ok ∧ (∀ d ∈ l, Free r.2 d) ∧ (FreeExact fs → FreeExact r.2) ∨ r.1 = .diskErr) ∧
      (Reliable fs → r.1 = .ok) := by
  obtain ⟨t, rfl⟩ := hl.head
  have hc := cluster_of_chain hl (List.mem_cons_self ..)
  have hc2 := hc.1
  have hcm := hc.2
  unfold removeChain
  rw [if_neg (by omega)]
  exact removeLoop_spec h hv hl (length_le_maxClust hl)

end Release

/-! ## All runs -/

universe u

/-- The calls for the file `i`: its first cluster, one more, or giving all of them back. -/
inductive ChainOp (ι : Type u)
  | create (i : ι)
  | stretch (i : ι)
  | remove (i : ι)

/-- The clusters the files have, the files that an error in one of their calls has damaged, and
whether the free count is known to have been right, or unknown, at the start. -/
structure ChainRun (ι : Type u) where
  fs : Fatfs
  owned : ι → List ℕ
  damaged : ι → Bool
  counted : Bool

section Runs

variable {ι : Type u} [DecidableEq ι]

/-- A number that `create_chain` returns is a cluster, or says why there is none. -/
def IsCluster (r : ℕ) : Prop := 2 ≤ r ∧ r ≠ 0xFFFFFFFF

instance (r : ℕ) : Decidable (IsCluster r) := inferInstanceAs (Decidable (_ ∧ _))

/-- A file that could not be stretched keeps its clusters, unless the entry of the last one was
torn.  Nothing is said about the clusters of a damaged file. -/
def chainStep (s : ChainRun ι) : ChainOp ι → ChainRun ι
  | .create i =>
    let r := createChain 0 s.fs
    { s with fs := r.2, owned := if IsCluster r.1 then Function.update s.owned i [r.1] else s.owned }
  | .stretch i =>
    let clst := (s.owned i).getLast?.getD 0
    let r := createChain clst s.fs
    if IsCluster r.1 then
      { s with fs := r.2, owned := Function.update s.owned i (s.owned i ++ [r.1]) }
    else if table r.2 clst = table s.fs clst then { s with fs := r.2 }
    else
      { s with fs := r.2, owned := Function.update s.owned i []
               damaged := Function.update s.damaged i true }
  | .remove i =>
    let r := removeChain ((s.owned i).headD 0) s.fs
    { s with fs := r.2, owned := Function.update s.owned i []
             damaged := if r.1 = .ok then s.damaged else Function.update s.damaged i true }

def chainMachine : Machine (ChainRun ι) (ChainOp ι) where
  init s := WinOk s.fs ∧ s.fs.Valid ∧ Holds (link s.fs) s.owned ∧
    (s.counted = true → FreeExact s.fs) ∧ ∀ i, s.damaged i = false
  step s op := some (chainStep s op)

/-- A first cluster is taken for a file that has none; the other calls are for one that has some. -/
def Called (s : ChainRun ι) : ChainOp ι → Prop
  | .create i => s.owned i = [] ∧ s.damaged i = false
  | .stretch i => s.owned i ≠ []
  | .remove i => s.owned i ≠ []

instance (s : ChainRun ι) (op : ChainOp ι) : Decidable (Called s op) :=
  match op with
  | .create _ => inferInstanceAs (Decidable (_ ∧ _))
  | .stretch _ => inferInstanceAs (Decidable (_ ≠ _))
  | .remove _ => inferInstanceAs (Decidable (_ ≠ _))

/-- The files have chains; while no access fails the free count is right and no file is damaged. -/
structure Owning (s : ChainRun ι) : Prop where
  winOk : WinOk s.fs
  valid : s.fs.Valid
  holds : Holds (link s.fs) s.owned
  exact : s.counted = true → Reliable s.fs → FreeExact s.fs
  sound : Reliable s.fs → ∀ i, s.damaged i = false

variable {s : ChainRun ι} {fs' : Fatfs} {i : ι} {S l : List ℕ} {r : ℕ} {damaged : ι → Bool}

omit [DecidableEq ι] in
theorem Owning.chain (h : Owning s) (hi : s.owned i ≠ []) :
    ∃ c, Chain (link s.fs) c (s.owned i) := (h.holds.chain i).resolve_left hi

/-- One file's clusters change; the others' entries do not. -/
theorem Owning.update (h : Owning s) (hch : FatChanged s.fs fs' S)
    (hS : ∀ d ∈ S, d ∈ s.owned i ∨ Free s.fs d) (hl : l = [] ∨ ∃ c, Chain (link fs') c l)
    (hnew : ∀ d ∈ l, d ∈ s.owned i ∨ Free s.fs d)
    (hexact : FreeExact s.fs → Reliable s.fs → FreeExact fs')
    (hsound : Reliable s.fs → damaged = s.damaged) :
    Owning { s with fs := fs', owned := Function.update s.owned i l, damaged := damaged } := by
  have hback : Reliable fs' → Reliable s.fs := fun hr k => hch.served ▸ hr k
  refine ⟨hch.winOk, hch.mount ▸ h.valid, ?_, fun hc hr => hexact (h.exact hc (hback hr)) (hback hr),
    fun hr j => ?_⟩
  · refine h.holds.update hl (fun d hd => (hnew d hd).imp_right Free.link) fun d hd hdi _ => ?_
    exact hch.link fun hdS => (hS d hdS).elim hdi fun hfree => hd hfree.link
  · exact (congrFun (hsound (hback hr)) j).trans (h.sound (hback hr) j)

omit [DecidableEq ι] in
theorem Owning.same (h : Owning s) (hch : FatChanged s.fs fs' S)
    (hS : ∀ d ∈ S, Free s.fs d ∨ table fs' d = table s.fs d)
    (hexact : FreeExact s.fs → Reliable s.fs → FreeExact fs') : Owning { s with fs := fs' } := by
  have hback : Reliable fs' → Reliable s.fs := fun hr k => hch.served ▸ hr k
  refine ⟨hch.winOk, hch.mount ▸ h.valid, ⟨fun j => ?_, h.holds.disjoint⟩,
    fun hc hr => hexact (h.exact hc (hback hr)) (hback hr), fun hr => h.sound (hback hr)⟩
  refine (h.holds.chain j).imp_right fun hc => hc.imp fun c hc => hc.congr fun d hd => ?_
  by_cases hdS : d ∈ S
  · refine link_congr hch.mount fun _ => (hS d hdS).resolve_left fun hfree => ?_
    exact h.holds.not_free hd hfree.link
  · exact hch.link hdS

theorem Free.isCluster {fs : Fatfs} (h : Free fs r) (hv : fs.Valid) : IsCluster r := by
  have hlt := hv.cluster_lt h.1
  have hlim : fs.fsType.clusters ≤ 0x0FFFFFF7 := by cases fs.fsType <;> decide
  exact ⟨h.1.1, by omega⟩

theorem Owning.create (h : Owning s) : Owning (chainStep s (.create i)) := by
  obtain ⟨hres, hok⟩ := createChain_zero h.winOk h.valid
  simp only [chainStep]
  generalize createChain 0 s.fs = q at hres hok
  obtain ⟨r, fs'⟩ := q
  dsimp only at hres hok ⊢
  have hnone : ∀ d ∈ ([] : List ℕ), Free s.fs d ∨ table fs' d = table s.fs d :=
    fun d hd => by cases hd
  rcases hres with ⟨rfl, hm, -⟩ | ht | ⟨rfl, hm, -⟩ | ⟨rfl, S, hch, hS, -⟩
  · rw [if_neg (by decide)]
    exact h.same hm.fatChanged hnone fun he _ => hm.freeExact he
  · rw [if_pos (ht.free.isCluster h.valid)]
    refine h.update ht.changed (fun d hd => Or.inr ?_) (Or.inr ⟨r, .last ht.last⟩) (fun d hd => ?_)
      (fun he _ => ht.freeExact (Or.inl rfl) h.valid he) fun _ => rfl
    · exact List.mem_singleton.mp hd ▸ ht.free
    · exact Or.inr (List.mem_singleton.mp hd ▸ ht.free)
  · rw [if_neg (by decide)]
    exact h.same hm.fatChanged hnone fun he _ => hm.freeExact he
  · rw [if_neg (by decide)]
    exact h.same hch (fun d hd => Or.inl ((hS d hd).resolve_right fun hand => hand.2 rfl))
      fun _ hr => absurd rfl (hok hr)

theorem Owning.stretch (h : Owning s) (hi : s.owned i ≠ []) :
    Owning (chainStep s (.stretch i)) := by
  obtain ⟨c, hc⟩ := h.chain hi
  have hlast := hc.last_eq
  have hmem : (s.owned i).getLast hc.ne_nil ∈ s.owned i := List.getLast_mem _
  have h2 := (cluster_of_chain hc hmem).1
  obtain ⟨hres, hok⟩ := createChain_last h.winOk h.valid hlast
  simp only [chainStep]
  rw [List.getLast?_eq_getLast_of_ne_nil hi, Option.getD_some]
  generalize hlst : (s.owned i).getLast hc.ne_nil = z at hlast hmem h2 hres hok
  generalize createChain z s.fs = q at hres hok
  obtain ⟨r, fs'⟩ := q
  dsimp only at hres hok ⊢
  have hnone : ∀ d ∈ ([] : List ℕ), Free s.fs d ∨ table fs' d = table s.fs d :=
    fun d hd => by cases hd
  rcases hres with ⟨rfl, hm, -⟩ | ht | ⟨rfl, hm, -⟩ | ⟨rfl, S, hch, hS, -⟩
  · rw [if_neg (by decide), if_pos (congrFun hm.table z)]
    exact h.same hm.fatChanged hnone fun he _ => hm.freeExact he
  · rw [if_pos (ht.free.isCluster h.valid)]
    have hz : z ≠ 0 := by omega
    have hch := ht.changed
    rw [if_neg hz] at hch
    refine h.update hch (fun d hd => ?_) (Or.inr ⟨c, ?_⟩) (fun d hd => ?_)
      (fun he _ => ht.freeExact (Or.inr hlast) h.valid he) fun _ => rfl
    · rcases List.mem_cons.mp hd with rfl | hd
      · exact Or.inr ht.free
      · exact Or.inl (List.mem_singleton.mp hd ▸ hmem)
    · refine hc.extend ht.free.link ht.last (by rw [hlst]; exact ht.linked hz) fun d hd hd' => ?_
      rw [hlst] at hd'
      refine hch.link fun hdS => ?_
      rcases List.mem_cons.mp hdS with heq | hdS
      · exact hd heq
      · exact hd' (List.mem_singleton.mp hdS)
    · rcases List.mem_append.mp hd with hd | hd
      · exact Or.inl hd
      · exact Or.inr (List.mem_singleton.mp hd ▸ ht.free)
  · rw [if_neg (by decide), if_pos (congrFun hm.table z)]
    exact h.same hm.fatChanged hnone fun he _ => hm.freeExact he
  · rw [if_neg (by decide)]
    split
    · next heq =>
      -- the chain is whole; the cluster that was to follow may be lost
      refine h.same hch (fun d hd => (hS d hd).imp_right fun hand => ?_) fun _ hr =>
        absurd rfl (hok hr)
      rw [hand.1]
      exact heq
    · refine h.update hch (fun d hd => ?_) (Or.inl rfl) (fun d hd => by cases hd)
        (fun _ hr => absurd rfl (hok hr)) fun hr => absurd rfl (hok hr)
      exact (hS d hd).elim Or.inr fun hand => Or.inl (hand.1 ▸ hmem)

theorem Owning.remove (h : Owning s) (hi : s.owned i ≠ []) : Owning (chainStep s (.remove i)) := by
  obtain ⟨c, hc⟩ := h.chain hi
  obtain ⟨t, ht⟩ := hc.head
  obtain ⟨hch, hres, hok⟩ := removeChain_spec h.winOk h.valid hc
  simp only [chainStep]
  rw [ht, List.headD_cons]
  refine h.update hch (fun d hd => Or.inl hd) (Or.inl rfl) (fun d hd => by cases hd)
    (fun he hr => ?_) fun hr => if_pos (hok hr)
  rcases hres with ⟨-, -, hexact⟩ | herr
  · exact hexact he
  · cases herr.symm.trans (hok hr)

theorem owning_of_reach (h : chainMachine.ReachWhere Called s) : Owning s := by
  refine Machine.ReachWhere.invariant ?_ ?_ h
  · rintro s ⟨hok, hv, hholds, hexact, hsound⟩
    exact ⟨hok, hv, hholds, fun hc _ => hexact hc, fun _ => hsound⟩
  · rintro s op s' hs hop hstep
    obtain rfl : chainStep s op = s' := Option.some.inj hstep
    cases op with
    | create i => exact hs.create
    | stretch i => exact hs.stretch hop
    | remove i => exact hs.remove hop

/-- No file, and the free count is known. -/
def noFiles : ChainRun Bool where
  fs := { smallVolume with freeClust := 8 }
  owned _ := []
  damaged _ := false
  counted := true

theorem noFiles_init : (chainMachine (ι := Bool)).init noFiles := by
  have hcount : (freeClusters noFiles.fs).card = 8 := by decide +kernel
  refine ⟨⟨smallVolume_valid.fatsFit, fun _ => rfl, fun h => absurd rfl h, fun _ h => absurd rfl h⟩,
    smallVolume_valid, ⟨fun _ => Or.inl rfl, fun _ _ _ d hd => by cases hd⟩, fun _ => Or.inr hcount.symm,
    fun _ => rfl⟩

end Runs

end VwiiNandTools.Ff
