import VwiiNandTools.Armboot.Storage.Ff.Fat

/-!
# Cluster chains

`create_chain` and `remove_chain` of `storage/ff.c` take a free cluster for a chain and give all
clusters of one back.

`link` reads the FAT as a table of linked cells, so that the clusters of a file are a `Chain`.  The
search finds a free cluster if there is one; a taken cluster was free and becomes the end of its
chain; no other chain is changed, whatever fails; and the free count of the FSInfo stays right.
-/

namespace VwiiNandTools.Ff

open ByteMemory Chains
open VwiiNandTools.Dump (FResult)

/-! ## The code -/

/-- `Update FSInfo` in `remove_chain`. -/
def noteFreed (fs : Fatfs) : Fatfs :=
  if fs.freeClust = 0xFFFFFFFF then fs
  else { fs with freeClust := (fs.freeClust + 1) % 0x100000000, fsiFlag := true }

/-- `Update FSINFO` in `create_chain`. -/
def noteTaken (ncl : ℕ) (fs : Fatfs) : Fatfs :=
  let fs := { fs with lastClust := ncl }
  if fs.freeClust = 0xFFFFFFFF then fs
  else { fs with freeClust := (fs.freeClust + 0xFFFFFFFF) % 0x100000000, fsiFlag := true }

/-- The loop of `remove_chain`. -/
def removeLoop : ℕ → ℕ → Fatfs → FResult × Fatfs
  | 0, _, fs => (.ok, fs)
  | n + 1, clst, fs =>
    if fs.maxClust ≤ clst then (.ok, fs)
    else
      let (nxt, fs) := getCluster clst fs
      if nxt = 0 then (.ok, fs)
      else if nxt = 1 then (.intErr, fs)
      else if nxt = 0xFFFFFFFF then (.diskErr, fs)
      else
        match putCluster clst 0 fs with
        | (.ok, fs) => removeLoop n nxt (noteFreed fs)
        | (res, fs) => (res, fs)

/-- Every pass empties an entry, so `max_clust` passes are enough (`removeLoop_fuel`). -/
def removeChain (clst : ℕ) (fs : Fatfs) : FResult × Fatfs :=
  if clst < 2 ∨ fs.maxClust ≤ clst then (.intErr, fs)
  else removeLoop fs.maxClust clst fs

/-- The search of `create_chain`; `ncl` is the cluster it looked at last. -/
def searchFree (scl : ℕ) : ℕ → ℕ → Fatfs → ℕ × Fatfs
  | 0, _, fs => (0, fs)
  | n + 1, ncl, fs =>
    if fs.maxClust ≤ ncl + 1 ∧ scl < 2 then (0, fs)
    else
      let ncl := if fs.maxClust ≤ ncl + 1 then 2 else ncl + 1
      let (cs, fs) := getCluster ncl fs
      if cs = 0 then (ncl, fs)
      else if cs = 0xFFFFFFFF ∨ cs = 1 then (cs, fs)
      else if ncl = scl then (0, fs)
      else searchFree scl n ncl fs

/-- What `create_chain` does from the search on. -/
def allocate (clst scl : ℕ) (fs : Fatfs) : ℕ × Fatfs :=
  let (ncl, fs) := searchFree scl fs.maxClust scl fs
  if ncl < 2 ∨ ncl = 0xFFFFFFFF then (ncl, fs)
  else
    match putCluster ncl 0x0FFFFFFF fs with
    | (.ok, fs) =>
      match if clst = 0 then (.ok, fs) else putCluster clst ncl fs with
      | (.ok, fs) => (ncl, noteTaken ncl fs)
      | (_, fs) => (0xFFFFFFFF, fs)
    | (_, fs) => (0xFFFFFFFF, fs)

def createChain (clst : ℕ) (fs : Fatfs) : ℕ × Fatfs :=
  if clst = 0 then
    let scl := fs.lastClust
    allocate clst (if scl = 0 ∨ fs.maxClust ≤ scl then 1 else scl) fs
  else
    let (cs, fs) := getCluster clst fs
    if cs < 2 then (1, fs)
    else if cs < fs.maxClust then (cs, fs)
    else allocate clst clst fs

/-! ## The chains -/

/-- The FAT as linked cells. -/
def link (fs : Fatfs) (c : ℕ) : Link ℕ :=
  if fs.Cluster c then
    if table fs c = 0 then .free
    else if table fs c < fs.maxClust then .next (table fs c)
    else .last
  else .free

/-- A free cluster. -/
def Free (fs : Fatfs) (c : ℕ) : Prop := fs.Cluster c ∧ table fs c = 0

instance (fs : Fatfs) (c : ℕ) : Decidable (Free fs c) := inferInstanceAs (Decidable (_ ∧ _))

/-- Only entries of `S` were changed, and nothing outside the FAT. -/
structure FatChanged (fs fs' : Fatfs) (S : List ℕ) : Prop where
  mount : fs'.toMount = fs.toMount
  served : fs'.drive.served = fs.drive.served
  winOk : WinOk fs'
  frame : ∀ x, ¬fs.InFat x → volume fs' x = volume fs x
  others : ∀ d < fs.maxClust, d ∉ S → table fs' d = table fs d

section Chain

variable {fs fs' fs'' : Fatfs} {S T : List ℕ} {c d r n scl ncl : ℕ} {l : List ℕ}

theorem Moved.fatChanged (h : Moved fs fs') : FatChanged fs fs' [] :=
  ⟨h.mount, h.served, h.winOk, fun x _ => congrFun h.volume x, fun d _ _ => congrFun h.table d⟩

theorem Entered.fatChanged (h : Entered fs fs' c) : FatChanged fs fs' [c] :=
  ⟨h.steady.mount, h.steady.served, h.steady.winOk, h.frame,
    fun d hd hdc => h.others d hd (List.ne_of_not_mem_cons hdc)⟩

theorem FatChanged.trans (h : FatChanged fs fs' S) (h' : FatChanged fs' fs'' T) :
    FatChanged fs fs'' (S ++ T) := by
  refine ⟨h'.mount.trans h.mount, h'.served.trans h.served, h'.winOk, fun x hx => ?_,
    fun d hd hdS => ?_⟩
  · rw [h'.frame x (h.mount ▸ hx), h.frame x hx]
  · rw [List.mem_append, not_or] at hdS
    rw [h'.others d (h.mount ▸ hd) hdS.2, h.others d hd hdS.1]

theorem FatChanged.mono (h : FatChanged fs fs' S) (hST : ∀ d ∈ S, d ∈ T) : FatChanged fs fs' T :=
  ⟨h.mount, h.served, h.winOk, h.frame, fun d hd hdT => h.others d hd fun hdS => hdT (hST d hdS)⟩

theorem FatChanged.reliable (h : FatChanged fs fs' S) (hr : Reliable fs) : Reliable fs' := by
  intro i
  rw [h.served]
  exact hr i

theorem link_congr (hm : fs'.toMount = fs.toMount) (ht : fs.Cluster d → table fs' d = table fs d) :
    link fs' d = link fs d := by
  rw [Ff.link, Ff.link, hm]
  by_cases hc : fs.Cluster d
  · rw [if_pos hc, if_pos hc, ht hc]
  · rw [if_neg hc, if_neg hc]

theorem FatChanged.link (h : FatChanged fs fs' S) (hd : d ∉ S) : link fs' d = link fs d :=
  link_congr h.mount fun hc => h.others d hc.2 hd

theorem Moved.link (h : Moved fs fs') : link fs' = link fs :=
  funext fun _ => h.fatChanged.link (List.not_mem_nil)

theorem link_free : link fs c = .free ↔ ¬fs.Cluster c ∨ table fs c = 0 := by
  rw [link]
  split
  · next hc =>
    split
    · next h0 => exact ⟨fun _ => Or.inr h0, fun _ => rfl⟩
    · next h0 =>
      refine ⟨fun h => ?_, fun h => absurd (h.resolve_left (not_not.mpr hc)) h0⟩
      split at h <;> cases h
  · next hc => exact ⟨fun _ => Or.inl hc, fun _ => rfl⟩

theorem Free.link (h : Free fs c) : link fs c = .free := link_free.mpr (Or.inr h.2)

theorem link_last (hc : fs.Cluster c) (h : fs.maxClust ≤ table fs c) : link fs c = .last := by
  have h2 := hc.1
  have h3 := hc.2
  rw [link, if_pos hc, if_neg (by omega), if_neg (by omega)]

theorem link_next (hc : fs.Cluster c) (h0 : table fs c ≠ 0) (h : table fs c < fs.maxClust) :
    link fs c = .next (table fs c) := by
  rw [link, if_pos hc, if_neg h0, if_pos h]

theorem of_link_last (h : link fs c = .last) : fs.Cluster c ∧ fs.maxClust ≤ table fs c := by
  rw [link] at h
  split at h
  · next hc =>
    split at h
    · cases h
    · split at h
      · cases h
      · next hlt => exact ⟨hc, not_lt.mp hlt⟩
  · cases h

theorem of_link_next (h : link fs c = .next d) :
    fs.Cluster c ∧ table fs c = d ∧ d ≠ 0 ∧ d < fs.maxClust := by
  rw [link] at h
  split at h
  · next hc =>
    split at h
    · cases h
    · next h0 =>
      split at h
      · next hlt =>
        cases h
        exact ⟨hc, rfl, h0, hlt⟩
      · cases h
  · cases h

theorem cluster_of_chain (h : Chain (link fs) c l) (hd : d ∈ l) : fs.Cluster d := by
  by_contra hnot
  exact h.not_free hd (link_free.mpr (Or.inl hnot))

/-! ## The search -/

/-- What the search returns: a free cluster; 0, when there is none; 1, for an entry that must not
be; or the disk error. -/
structure Found (fs : Fatfs) (r : ℕ × Fatfs) : Prop where
  moved : Moved fs r.2
  result : r.1 = 0 ∧ (∀ d, ¬Free fs d) ∨ Free fs r.1 ∧ r.2.winsect ≠ 0 ∨
    r.1 = 1 ∧ (∃ d, fs.Cluster d ∧ table fs d = 1) ∨ r.1 = 0xFFFFFFFF
  reliable : Reliable fs → r.1 ≠ 0xFFFFFFFF

theorem Found.full (h : Moved fs fs') (hnone : ∀ d, ¬Free fs d) : Found fs (0, fs') :=
  ⟨h, Or.inl ⟨rfl, hnone⟩, fun _ => (by decide : 0 ≠ 0xFFFFFFFF)⟩

theorem Moved.free_iff (h : Moved fs fs') : Free fs' d ↔ Free fs d := by
  rw [Free, Free, h.mount, h.table]

theorem Found.of_moved {r : ℕ × Fatfs} (h : Moved fs fs') (h' : Found fs' r) : Found fs r := by
  refine ⟨h.trans h'.moved, ?_, fun hr => h'.reliable (h.reliable hr)⟩
  rcases h'.result with ⟨h0, hnone⟩ | ⟨hfree, hw⟩ | ⟨h1, d, hd, htab⟩ | herr
  · exact Or.inl ⟨h0, fun d hd => hnone d (h.free_iff.mpr hd)⟩
  · exact Or.inr (Or.inl ⟨h.free_iff.mp hfree, hw⟩)
  · rw [h.mount] at hd
    rw [h.table] at htab
    exact Or.inr (Or.inr (Or.inl ⟨h1, d, hd, htab⟩))
  · exact Or.inr (Or.inr (Or.inr herr))

theorem look (h : WinOk fs) (hv : fs.Valid) (hc : fs.Cluster c) :
    let r := getCluster c fs
    (r.1 = 0 → Found fs (c, r.2)) ∧ (r.1 = 0xFFFFFFFF ∨ r.1 = 1 → Found fs r) ∧
      (r.1 ≠ 0 → r.1 ≠ 0xFFFFFFFF → Moved fs r.2 ∧ table fs c ≠ 0) := by
  obtain ⟨hmoved, hres, hok⟩ := getCluster_spec h hv hc
  have hlt := @table_lt fs c hv
  have hcm := hc.2
  generalize getCluster c fs = r at hmoved hres hok
  obtain ⟨cs, fs1⟩ := r
  dsimp only at hmoved hres hok ⊢
  refine ⟨?_, ?_, ?_⟩
  · rintro rfl
    rcases hres with ⟨htab, hw⟩ | herr
    · exact ⟨hmoved, Or.inr (Or.inl ⟨⟨hc, htab.symm⟩, hw⟩),
        fun _ => ne_of_lt (lt_of_lt_of_le hcm (hv.clusters.trans (by cases fs.fsType <;> decide)))⟩
    · cases herr
  · rintro (rfl | rfl)
    · refine ⟨hmoved, Or.inr (Or.inr (Or.inr rfl)), fun hr => ?_⟩
      have htab := (hok hr).1
      omega
    · rcases hres with ⟨htab, -⟩ | herr
      · exact ⟨hmoved, Or.inr (Or.inr (Or.inl ⟨rfl, c, hc, htab.symm⟩)),
        fun _ => (by decide : 1 ≠ 0xFFFFFFFF)⟩
      · cases herr
  · intro h0 herr
    exact ⟨hmoved, fun htab => h0 ((hres.resolve_right herr).1.trans htab)⟩

/-- The second part of the search, from cluster 2 on to the start. -/
theorem searchFree_low (h : WinOk fs) (hv : fs.Valid) (hscl : scl < fs.maxClust) (h1 : 1 ≤ ncl)
    (hlt : ncl < scl) (hn : scl - ncl ≤ n)
    (hseen : ∀ d, fs.Cluster d → d ≤ ncl ∨ scl < d → table fs d ≠ 0) :
    Found fs (searchFree scl n ncl fs) := by
  induction n generalizing fs ncl with
  | zero => omega
  | succ n ih =>
    have hc : fs.Cluster (ncl + 1) := ⟨by omega, by omega⟩
    obtain ⟨hfree, herror, hused⟩ := look h hv hc
    rw [searchFree, if_neg (by omega), if_neg (by omega)]
    dsimp only
    generalize getCluster (ncl + 1) fs = r at hfree herror hused
    obtain ⟨cs, fs1⟩ := r
    dsimp only at hfree herror hused ⊢
    split
    · next h0 => exact hfree h0
    · next h0 =>
      split
      · next herr => exact herror herr
      · next herr =>
        obtain ⟨hmoved, hnz⟩ := hused h0 fun hdisk => herr (Or.inl hdisk)
        have hseen' : ∀ d, fs.Cluster d → d ≤ ncl + 1 ∨ scl < d → table fs d ≠ 0 := by
          intro d hd hor
          rcases eq_or_ne d (ncl + 1) with rfl | hne
          · exact hnz
          · exact hseen d hd (by omega)
        split
        · next heq =>
          exact .full hmoved fun d hd => hseen' d hd.1 (by omega) hd.2
        · next hne =>
          refine (ih hmoved.winOk (hmoved.mount ▸ hv) (hmoved.mount ▸ hscl) (by omega) (by omega)
            (by omega) fun d hd hor => ?_).of_moved hmoved
          rw [hmoved.mount] at hd
          rw [hmoved.table]
          exact hseen' d hd hor

/-- The first part, up to the last cluster. -/
theorem searchFree_high (h : WinOk fs) (hv : fs.Valid) (h1 : 1 ≤ scl) (hle : scl ≤ ncl)
    (hlt : ncl < fs.maxClust) (hn : fs.maxClust - 1 - ncl + scl ≤ n)
    (hseen : ∀ d, fs.Cluster d → d ≤ ncl ∧ scl < d → table fs d ≠ 0) :
    Found fs (searchFree scl n ncl fs) := by
  induction n generalizing fs ncl with
  | zero => omega
  | succ n ih =>
    rw [searchFree]
    by_cases hwrap : fs.maxClust ≤ ncl + 1
    · by_cases hs : scl < 2
      · rw [if_pos ⟨hwrap, hs⟩]
        refine .full (Moved.refl h) fun d hd => ?_
        have hd2 := hd.1.1
        have hdm := hd.1.2
        exact hseen d hd.1 ⟨by omega, by omega⟩ hd.2
      · rw [if_neg (fun hand => hs hand.2), if_pos hwrap]
        have hc : fs.Cluster 2 := ⟨le_refl 2, by omega⟩
        obtain ⟨hfree, herror, hused⟩ := look h hv hc
        dsimp only
        generalize getCluster 2 fs = r at hfree herror hused
        obtain ⟨cs, fs1⟩ := r
        dsimp only at hfree herror hused ⊢
        split
        · next h0 => exact hfree h0
        · next h0 =>
          split
          · next herr => exact herror herr
          · next herr =>
            obtain ⟨hmoved, hnz⟩ := hused h0 fun hdisk => herr (Or.inl hdisk)
            have hseen' : ∀ d, fs.Cluster d → d ≤ 2 ∨ scl < d → table fs d ≠ 0 := by
              intro d hd hor
              have hd2 := hd.1
              have hdm := hd.2
              rcases eq_or_ne d 2 with rfl | hne
              · exact hnz
              · exact hseen d hd ⟨by omega, by omega⟩
            split
            · next heq =>
              refine .full hmoved fun d hd => ?_
              have hd2 := hd.1.1
              exact hseen' d hd.1 (by omega) hd.2
            · next hne =>
              refine (searchFree_low hmoved.winOk (hmoved.mount ▸ hv) ?_ (by omega) (by omega)
                (by omega) fun d hd hor => ?_).of_moved hmoved
              · rw [hmoved.mount]
                omega
              · rw [hmoved.mount] at hd
                rw [hmoved.table]
                exact hseen' d hd hor
    · rw [if_neg (fun hand => hwrap hand.1), if_neg hwrap]
      have hc : fs.Cluster (ncl + 1) := ⟨by omega, by omega⟩
      obtain ⟨hfree, herror, hused⟩ := look h hv hc
      dsimp only
      generalize getCluster (ncl + 1) fs = r at hfree herror hused
      obtain ⟨cs, fs1⟩ := r
      dsimp only at hfree herror hused ⊢
      split
      · next h0 => exact hfree h0
      · next h0 =>
        split
        · next herr => exact herror herr
        · next herr =>
          obtain ⟨hmoved, hnz⟩ := hused h0 fun hdisk => herr (Or.inl hdisk)
          rw [if_neg (by omega)]
          refine (ih hmoved.winOk (hmoved.mount ▸ hv) (by omega) ?_ ?_
            fun d hd hand => ?_).of_moved hmoved
          · rw [hmoved.mount]
            omega
          · rw [hmoved.mount]
            omega
          · rw [hmoved.mount] at hd
            rw [hmoved.table]
            rcases eq_or_ne d (ncl + 1) with rfl | hne
            · exact hnz
            · exact hseen d hd ⟨by omega, hand.2⟩

/-- **The search** finds a free cluster if there is one. -/
theorem searchFree_spec (h : WinOk fs) (hv : fs.Valid) (h1 : 1 ≤ scl) (hlt : scl < fs.maxClust) :
    Found fs (searchFree scl fs.maxClust scl fs) :=
  searchFree_high h hv h1 (le_refl scl) hlt (by omega) fun d _ hand =>
    absurd hand.1 (not_le.mpr hand.2)

/-! ## Taking a cluster -/

theorem endMark {t : FsType} (ht : t ≠ .unmounted) : t.clusters ≤ 0x0FFFFFFF % t.bound := by
  cases t <;> first | exact absurd rfl ht | decide

theorem clusters_le_bound (t : FsType) (ht : t ≠ .unmounted) : t.clusters ≤ t.bound := by
  cases t <;> first | exact absurd rfl ht | decide

theorem Mount.Valid.mod_bound {v : Mount} (hv : v.Valid) (hc : v.Cluster c) :
    c % v.fsType.bound = c :=
  Nat.mod_eq_of_lt (lt_of_lt_of_le (hv.cluster_lt hc) (clusters_le_bound _ hv.mounted))

/-- A cluster was taken, as the end of a new chain or of that of `clst`. -/
structure Taken (fs : Fatfs) (clst r : ℕ) (fs' : Fatfs) : Prop where
  changed : FatChanged fs fs' (if clst = 0 then [r] else [r, clst])
  free : Free fs r
  last : link fs' r = .last
  linked : clst ≠ 0 → link fs' clst = .next r
  hint : fs'.lastClust = r
  count : fs'.freeClust = if fs.freeClust = 0xFFFFFFFF then 0xFFFFFFFF
    else (fs.freeClust + 0xFFFFFFFF) % 0x100000000
  window : fs'.winsect ≠ 0

/-- A disk error: entries of free clusters may have been changed, and that of `clst` may be torn. -/
def Spoilt (fs : Fatfs) (clst : ℕ) (fs' : Fatfs) : Prop :=
  ∃ S, FatChanged fs fs' S ∧ (∀ d ∈ S, Free fs d ∨ d = clst ∧ clst ≠ 0) ∧
    (clst ≠ 0 → ∃ r, Torn fs clst r (table fs' clst))

/-- What `create_chain` returns when it has to look for a cluster. -/
structure Allocated (fs : Fatfs) (clst : ℕ) (r : ℕ × Fatfs) : Prop where
  result : r.1 = 0 ∧ Moved fs r.2 ∧ (∀ d, ¬Free fs d) ∨ Taken fs clst r.1 r.2 ∨
    r.1 = 1 ∧ Moved fs r.2 ∧ (∃ d, fs.Cluster d ∧ table fs d = 1) ∨
    r.1 = 0xFFFFFFFF ∧ Spoilt fs clst r.2
  reliable : Reliable fs → r.1 ≠ 0xFFFFFFFF

theorem Free.ne (h : Free fs r) (hd : Ff.link fs d ≠ .free) : r ≠ d := fun heq =>
  hd (heq ▸ h.link)

theorem taken_of {clst : ℕ} (hch : FatChanged fs fs' (if clst = 0 then [r] else [r, clst]))
    (hfree : Free fs r) (hlast : link fs' r = .last) (hlinked : clst ≠ 0 → link fs' clst = .next r)
    (hcount : fs'.freeClust = fs.freeClust) (hw : fs'.winsect ≠ 0) :
    Taken fs clst r (noteTaken r fs') := by
  obtain ⟨hm, hs, hok, hframe, hothers⟩ := hch
  by_cases hno : fs'.freeClust = 0xFFFFFFFF
  · have hnote : noteTaken r fs' = { fs' with lastClust := r } := if_pos hno
    rw [hnote]
    refine ⟨⟨hm, hs, ⟨hok.base, hok.none, hok.plain, hok.clean⟩, hframe, hothers⟩, hfree, hlast,
      hlinked, rfl, ?_, hw⟩
    rw [if_pos (hcount ▸ hno)]
    exact hno
  · have hnote : noteTaken r fs' = { fs' with
        lastClust := r, fsiFlag := true,
        freeClust := (fs'.freeClust + 0xFFFFFFFF) % 0x100000000 } := if_neg hno
    rw [hnote]
    refine ⟨⟨hm, hs, ⟨hok.base, hok.none, hok.plain, hok.clean⟩, hframe, hothers⟩, hfree, hlast,
      hlinked, rfl, ?_, hw⟩
    rw [← hcount, if_neg hno]

theorem allocate_spec {clst : ℕ} (h : WinOk fs) (hv : fs.Valid) (h1 : 1 ≤ scl)
    (hlt : scl < fs.maxClust) (hclst : clst = 0 ∨ link fs clst = .last) :
    Allocated fs clst (allocate clst scl fs) := by
  obtain ⟨hmoved, hres, hok⟩ := searchFree_spec h hv h1 hlt
  unfold allocate
  generalize searchFree scl fs.maxClust scl fs = q at hmoved hres hok
  obtain ⟨ncl, fs1⟩ := q
  dsimp only at hmoved hres hok ⊢
  rcases hres with ⟨rfl, hnone⟩ | ⟨hfree, hw⟩ | ⟨rfl, d, hd, htab⟩ | rfl
  · rw [if_pos (Or.inl (by decide))]
    exact ⟨Or.inl ⟨rfl, hmoved, hnone⟩, fun _ => (by decide : 0 ≠ 0xFFFFFFFF)⟩
  · have hv1 : fs1.Valid := hmoved.mount ▸ hv
    have hc1 : fs1.Cluster ncl := hmoved.mount ▸ hfree.1
    have hc2 := hfree.1.1
    have hbig := hv.cluster_lt hfree.1
    have hlim : fs.fsType.clusters ≤ 0x0FFFFFF7 := by cases fs.fsType <;> decide
    rw [if_neg (by omega)]
    obtain ⟨hput, hpres, hpok⟩ := putCluster_spec hmoved.winOk hv1 hw hc1 0x0FFFFFFF
    generalize putCluster ncl 0x0FFFFFFF fs1 = q at hput hpres hpok
    obtain ⟨res, fs2⟩ := q
    dsimp only at hput hpres hpok ⊢
    have hch : FatChanged fs fs2 [ncl] := hmoved.fatChanged.trans hput.fatChanged
    rcases hpres with ⟨rfl, htab⟩ | ⟨rfl, -⟩
    · have hmount : fs2.toMount = fs.toMount := hch.mount
      have hlast : link fs2 ncl = .last := by
        refine link_last (hmount ▸ hfree.1) ?_
        rw [htab, hmoved.mount, hmount]
        exact hv.clusters.trans (endMark hv.mounted)
      dsimp only
      by_cases h0 : clst = 0
      · rw [if_pos h0]
        refine ⟨Or.inr (Or.inl (taken_of ?_ hfree hlast (fun hne => absurd h0 hne)
          (hput.steady.free.trans hmoved.free) hput.window)), fun _ => ?_⟩
        · rw [if_pos h0]
          exact hch
        · change ncl ≠ 0xFFFFFFFF
          omega
      · rw [if_neg h0]
        have hcl := hclst.resolve_left h0
        have hne : ncl ≠ clst := hfree.ne (by rw [hcl]; rintro ⟨⟩)
        have hc : fs2.Cluster clst := hmount ▸ (of_link_last hcl).1
        obtain ⟨hput', hpres', hpok'⟩ :=
          putCluster_spec hput.steady.winOk (hmount ▸ hv) hput.window hc ncl
        generalize putCluster clst ncl fs2 = q at hput' hpres' hpok'
        obtain ⟨res, fs3⟩ := q
        dsimp only at hput' hpres' hpok' ⊢
        have hch3 : FatChanged fs fs3 [ncl, clst] := hch.trans hput'.fatChanged
        have hmount3 : fs3.toMount = fs.toMount := hch3.mount
        have hold : table fs2 clst = table fs clst :=
          hch.others clst (of_link_last hcl).1.2 (by simpa using hne.symm)
        rcases hpres' with ⟨rfl, htab'⟩ | ⟨rfl, htorn⟩
        · have hlast3 : link fs3 ncl = .last :=
            (hput'.fatChanged.link (by simpa using hne)).trans hlast
          have hnext : link fs3 clst = .next ncl := by
            rw [hmount, hv.mod_bound hfree.1] at htab'
            have hval := link_next (c := clst) (hmount3 ▸ (of_link_last hcl).1)
              (by rw [htab']; omega) (by rw [htab', hmount3]; exact hfree.1.2)
            rw [hval, htab']
          refine ⟨Or.inr (Or.inl (taken_of ?_ hfree hlast3 (fun _ => hnext)
            (hput'.steady.free.trans (hput.steady.free.trans hmoved.free)) hput'.window)),
            fun _ => ?_⟩
          · rw [if_neg h0]
            exact hch3
          · change ncl ≠ 0xFFFFFFFF
            omega
        · refine ⟨Or.inr (Or.inr (Or.inr ⟨rfl, _, hch3, fun d hd => ?_, fun _ => ⟨ncl,
            htorn.congr hmount hold⟩⟩)), fun hr => ?_⟩
          · rcases List.mem_cons.mp hd with rfl | hd
            · exact Or.inl hfree
            · exact Or.inr ⟨List.mem_singleton.mp hd, h0⟩
          · cases hpok' (hch.reliable hr)
    · refine ⟨Or.inr (Or.inr (Or.inr ⟨rfl, _, hch, fun d hd => ?_, fun h0 => ⟨0, Or.inl ?_⟩⟩)),
        fun hr => ?_⟩
      · exact Or.inl (List.mem_singleton.mp hd ▸ hfree)
      · have hcl := hclst.resolve_left h0
        have hne : ncl ≠ clst := hfree.ne (by rw [hcl]; rintro ⟨⟩)
        exact hch.others clst (of_link_last hcl).1.2 (by simpa using hne.symm)
      · cases hpok (hmoved.reliable hr)
  · rw [if_pos (Or.inl (by decide))]
    exact ⟨Or.inr (Or.inr (Or.inl ⟨rfl, hmoved, d, hd, htab⟩)), fun _ => (by decide : 1 ≠ 0xFFFFFFFF)⟩
  · rw [if_pos (Or.inr rfl)]
    have hnone : ∀ d ∈ ([] : List ℕ), Free fs d ∨ d = clst ∧ clst ≠ 0 := fun d hd => by cases hd
    exact ⟨Or.inr (Or.inr (Or.inr ⟨rfl, [], hmoved.fatChanged, hnone,
      fun _ => ⟨0, Or.inl (congrFun hmoved.table clst)⟩⟩)), hok⟩

theorem Spoilt.of_moved {clst : ℕ} (h : Moved fs fs') (h' : Spoilt fs' clst fs'') :
    Spoilt fs clst fs'' := by
  obtain ⟨S, hch, hS, htorn⟩ := h'
  refine ⟨[] ++ S, h.fatChanged.trans hch, fun d hd => (hS d hd).imp_left h.free_iff.mp, fun h0 => ?_⟩
  obtain ⟨r, hr⟩ := htorn h0
  exact ⟨r, hr.congr h.mount (congrFun h.table clst)⟩

theorem Allocated.of_moved {clst : ℕ} {q : ℕ × Fatfs} (h : Moved fs fs')
    (h' : Allocated fs' clst q) : Allocated fs clst q := by
  refine ⟨?_, fun hr => h'.reliable (h.reliable hr)⟩
  rcases h'.result with ⟨h0, hm, hnone⟩ | htaken | ⟨h1, hm, d, hd, htab⟩ | ⟨herr, hsp⟩
  · exact Or.inl ⟨h0, h.trans hm, fun d hd => hnone d (h.free_iff.mpr hd)⟩
  · refine Or.inr (Or.inl ⟨?_, h.free_iff.mp htaken.free, htaken.last, htaken.linked, htaken.hint,
      ?_, htaken.window⟩)
    · exact h.fatChanged.trans htaken.changed
    · rw [htaken.count, h.free]
  · rw [h.mount] at hd
    rw [h.table] at htab
    exact Or.inr (Or.inr (Or.inl ⟨h1, h.trans hm, d, hd, htab⟩))
  · exact Or.inr (Or.inr (Or.inr ⟨herr, hsp.of_moved h⟩))

/-- A new chain. -/
theorem createChain_zero (h : WinOk fs) (hv : fs.Valid) : Allocated fs 0 (createChain 0 fs) := by
  have h2 := hv.two
  unfold createChain
  rw [if_pos rfl]
  refine allocate_spec h hv ?_ ?_ (Or.inl rfl)
  · split <;> omega
  · split <;> omega

/-- A chain that ends is stretched. -/
theorem createChain_last (h : WinOk fs) (hv : fs.Valid) (hl : link fs c = .last) :
    Allocated fs c (createChain c fs) := by
  obtain ⟨hc, htab⟩ := of_link_last hl
  obtain ⟨hmoved, hres, -⟩ := getCluster_spec h hv hc
  have h2 := hv.two
  have hbig : fs.maxClust ≤ 0x0FFFFFF7 := hv.clusters.trans (by cases fs.fsType <;> decide)
  unfold createChain
  have hc2 := hc.1
  rw [if_neg (by omega)]
  generalize getCluster c fs = q at hmoved hres
  obtain ⟨cs, fs1⟩ := q
  dsimp only at hmoved hres ⊢
  have hcs : fs.maxClust ≤ cs := by
    rcases hres with ⟨rfl, -⟩ | rfl
    · exact htab
    · omega
  have hm := hmoved.mount
  rw [if_neg (by omega), if_neg (by rw [hm]; omega)]
  refine (allocate_spec hmoved.winOk (hm ▸ hv) (by omega) (hm ▸ hc.2) (Or.inr ?_)).of_moved hmoved
  rw [hmoved.link]
  exact hl

/-- An entry that cannot be read is taken for the end of the chain, and is linked to another
cluster. -/
theorem createChain_unread (h : WinOk fs) (hv : fs.Valid) (hc : fs.Cluster c)
    (herr : (getCluster c fs).1 = 0xFFFFFFFF) :
    createChain c fs = allocate c c (getCluster c fs).2 := by
  have hm := (getCluster_spec h hv hc).1.mount
  have hbig : fs.maxClust ≤ 0x0FFFFFF7 := hv.clusters.trans (by cases fs.fsType <;> decide)
  have hc2 := hc.1
  unfold createChain
  rw [if_neg (by omega)]
  generalize getCluster c fs = q at herr hm
  obtain ⟨cs, fs1⟩ := q
  obtain rfl : cs = 0xFFFFFFFF := herr
  dsimp only at hm ⊢
  rw [if_neg (by decide), hm, if_neg (by omega)]

/-- A chain that goes on is followed, unless its entry cannot be read. -/
theorem createChain_next (h : WinOk fs) (hv : fs.Valid) (hl : link fs c = .next d)
    (hd : fs.Cluster d) :
    let r := createChain c fs
    ((getCluster c fs).1 ≠ 0xFFFFFFFF → r.1 = d ∧ Moved fs r.2 ∧ r.2.winsect ≠ 0) ∧
      (Reliable fs → (getCluster c fs).1 ≠ 0xFFFFFFFF) := by
  obtain ⟨hc, htab, -, -⟩ := of_link_next hl
  obtain ⟨hmoved, hres, hok⟩ := getCluster_spec h hv hc
  have hlt := @table_lt fs c hv
  have hc2 := hc.1
  unfold createChain
  rw [if_neg (by omega)]
  generalize getCluster c fs = q at hmoved hres hok
  obtain ⟨cs, fs1⟩ := q
  dsimp only at hmoved hres hok ⊢
  refine ⟨fun hne => ?_, fun hr heq => ?_⟩
  · obtain ⟨rfl, hw⟩ := hres.resolve_right hne
    rw [htab, hmoved.mount, if_neg (not_lt.mpr hd.1), if_pos hd.2]
    exact ⟨rfl, hmoved, hw⟩
  · have := (hok hr).1
    omega

end Chain

end VwiiNandTools.Ff
