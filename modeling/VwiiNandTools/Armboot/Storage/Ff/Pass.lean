import VwiiNandTools.Armboot.Storage.Ff.File

/-!
# One pass of `f_write`

A pass of the loop of `f_write` takes a cluster where the chain ends, and moves bytes to the place
the file pointer is at: whole sectors directly, parts of one through the window (`writePass_spec`).

Following a chain takes an entry that cannot be read for its end, so a pass in the middle of a chain
needs that no access fails.  At its end none is needed.
-/

namespace VwiiNandTools.Ff

open ByteMemory Chains
open VwiiNandTools.Dump (FResult)
open VwiiNandTools.Diskio (DResult)

/-- The file object and the volume fit: the chain has room for the bytes, and the cluster, the
sector in it and the sector number are those of the file pointer. -/
structure Positioned (fp : Fil) (fs : Fatfs) (l : List ℕ) : Prop where
  winOk : WinOk fs
  valid : fs.Valid
  chain : fp.orgClust = 0 ∧ l = [] ∨ Chain (link fs) fp.orgClust l
  inside : fp.fptr ≤ fs.room l
  size : fp.fsize ≤ fs.room l
  top : fp.fptr = 0 → fp.csect = 255
  cur : 0 < fp.fptr → fp.currClust = l.getD ((fp.fptr - 1) / 512 / fs.csize) 2 ∧
    fp.csect = (fp.fptr - 1) / 512 % fs.csize + 1
  dsect : fp.fptr % 512 ≠ 0 → fp.dsect = fs.sectorOf l (fp.fptr / 512)

/-- The file pointer is past the start of the last cluster, or there is none: the chain is not
followed from here. -/
abbrev AtLast (fp : Fil) (fs : Fatfs) (l : List ℕ) : Prop := fs.room l < fp.fptr + 512 * fs.csize

/-- The fields a pass does not change. -/
structure SameFile (fp fp' : Fil) : Prop where
  isOpen : fp'.isOpen = fp.isOpen
  id : fp'.id = fp.id
  read : fp'.read = fp.read
  write : fp'.write = fp.write
  written : fp'.written = fp.written
  error : fp'.error = fp.error
  fptr : fp'.fptr = fp.fptr
  fsize : fp'.fsize = fp.fsize
  dirSect : fp'.dirSect = fp.dirSect
  dirPtr : fp'.dirPtr = fp.dirPtr

/-- The bytes `[a, a + n)` of the file were stored, and those below `m` kept. -/
structure Stored (fs fs' : Fatfs) (l : List ℕ) (a n m : ℕ) (f : ℕ → Byte) : Prop where
  winOk : WinOk fs'
  mount : fs'.toMount = fs.toMount
  served : fs'.drive.served = fs.drive.served
  other : ∀ x, x / 512 < fs.database ∨ fs.clusterOf (x / 512) ∉ l → volume fs' x = volume fs x
  bytes : ∀ p < max (a + n) m, fileByte fs' l p = fill (fileByte fs l) a n f p

/-- `clst` is the cluster for a file pointer at a boundary: the next one of the chain, or a free one
that was linked to its end. -/
structure Linked (fp : Fil) (fs : Fatfs) (l : List ℕ) (clst : ℕ) (fp' : Fil) (fs' : Fatfs)
    (l' : List ℕ) : Prop where
  grown : l' = l ∨ ∃ c, Free fs c ∧ l' = l ++ [c] ∧ fs.room l = fp.fptr
  winOk : WinOk fs'
  chain : Chain (link fs') fp'.orgClust l'
  others : ∀ d < fs.maxClust, d ∉ l' → table fs' d = table fs d
  room : fp.fptr / 512 < l'.length * fs.csize
  cur : clst = l'.getD (fp.fptr / 512 / fs.csize) 2
  special : clst ≠ 0 ∧ clst ≠ 1 ∧ clst ≠ 0xFFFFFFFF
  boundary : fp.fptr / 512 % fs.csize = 0

/-- What `writeCluster` finds for the next sector: that the disk is full, a cluster, or an error. -/
structure ClusterFound (fp : Fil) (fs : Fatfs) (l : List ℕ) (r : ℕ × Fil × Fatfs) : Prop where
  same : SameFile fp r.2.1
  frame : Frame fs r.2.2 l
  volume : ∀ x, ¬fs.InFat x → volume r.2.2 x = volume fs x
  result : r.1 = 0 ∧ Moved fs r.2.2 ∧ r.2.1 = fp ∧ (∀ d, ¬Free fs d) ∨
    (∃ l', Linked fp fs l r.1 r.2.1 r.2.2 l') ∨
    (r.1 = 1 ∧ (∃ d, fs.Cluster d ∧ table fs d = 1) ∨ r.1 = 0xFFFFFFFF) ∧ WinOk r.2.2
  reliable : Reliable fs → r.1 ≠ 0xFFFFFFFF

/-- The chain has a cluster for the file pointer, at most one more than before. -/
structure Ready (fp : Fil) (fs : Fatfs) (l : List ℕ) (fp' : Fil) (fs' : Fatfs) (l' : List ℕ) :
    Prop where
  same : SameFile fp fp'
  grown : l' = l ∨ ∃ c, Free fs c ∧ l' = l ++ [c] ∧ fs.room l = fp.fptr
  winOk : WinOk fs'
  chain : Chain (link fs') fp'.orgClust l'
  frame : Frame fs fs' l
  others : ∀ d < fs.maxClust, d ∉ l' → table fs' d = table fs d
  volume : ∀ x, ¬fs.InFat x → volume fs' x = volume fs x
  room : fp.fptr / 512 < l'.length * fs.csize
  cur : fp'.currClust = l'.getD (fp.fptr / 512 / fs.csize) 2
  csect : fp'.csect = fp.fptr / 512 % fs.csize

/-- `k` bytes of the buffer were written: they are spliced in at the file pointer, which is behind
them, and the chain has grown by clusters that were free. -/
structure Written (buff : ℕ → Byte) (fp : Fil) (fs : Fatfs) (l : List ℕ) (k : ℕ) (fp' : Fil)
    (fs' : Fatfs) (l' : List ℕ) : Prop where
  same : SameFile { fp with fptr := fp.fptr + k } fp'
  grown : l <+: l'
  fresh : ∀ d ∈ l', d ∈ l ∨ Free fs d
  tight : AtLast fp fs l → AtLast fp' fs' l'
  pos : Positioned fp' fs' l'
  frame : Frame fs fs' l
  others : ∀ d < fs.maxClust, d ∉ l' → table fs' d = table fs d
  bytes : ∀ p < max (fp.fptr + k) fp.fsize,
    fileByte fs' l' p = fill (fileByte fs l) fp.fptr k buff p

/-- The window, unless it is left on a sector of the file after a disk error. -/
def WindowLeft (fs fs' : Fatfs) (l : List ℕ) : Prop :=
  WinOk fs' ∨ fs'.wflag = false ∧ fs.database ≤ fs'.winsect ∧
    (fs.clusterOf fs'.winsect ∈ l ∨ Free fs (fs.clusterOf fs'.winsect))

/-- The call ended with an error behind `k` of `b` bytes: the bytes in front of the file pointer and
behind the buffer are kept. -/
structure Failed (buff : ℕ → Byte) (fp : Fil) (fs : Fatfs) (l : List ℕ) (k b : ℕ) (fp' : Fil)
    (fs' : Fatfs) (l' : List ℕ) : Prop where
  same : SameFile { fp with fptr := fp.fptr + k } fp'
  grown : l <+: l'
  fresh : ∀ d ∈ l', d ∈ l ∨ Free fs d
  frame : Frame fs fs' l
  kept : ∀ p < max (fp.fptr + k) fp.fsize, p < fp.fptr + k ∨ fp.fptr + b ≤ p →
    fileByte fs' l' p = fill (fileByte fs l) fp.fptr k buff p
  window : WindowLeft fs fs' l

section Write

variable {fp fp' fp'' : Fil} {fs fs' fs'' : Fatfs} {l l' : List ℕ} {a b c d k m n q s sect cc : ℕ}
  {f buff : ℕ → Byte}

theorem SameFile.refl (fp : Fil) : SameFile fp fp := ⟨rfl, rfl, rfl, rfl, rfl, rfl, rfl, rfl, rfl, rfl⟩

theorem SameFile.trans (h : SameFile fp fp') (h' : SameFile fp' fp'') : SameFile fp fp'' :=
  ⟨h'.isOpen.trans h.isOpen, h'.id.trans h.id, h'.read.trans h.read, h'.write.trans h.write,
    h'.written.trans h.written, h'.error.trans h.error, h'.fptr.trans h.fptr,
    h'.fsize.trans h.fsize, h'.dirSect.trans h.dirSect, h'.dirPtr.trans h.dirPtr⟩

/-! ## Sectors -/

theorem WinOk.winsect_lt (h : WinOk fs) : fs.winsect < 0x100000000 := by
  rcases eq_or_ne fs.winsect 0 with h0 | h0
  · omega
  · exact (h.plain h0).2.1

/-- The window is put on a sector without reading it, and stored into. -/
theorem grow_spec (h : WinOk fs) (hf : fs.wflag = false) (hp : fs.Plain sect) (hk : k + n ≤ 512)
    (f : ℕ → Byte) :
    let fs' := poke { fs with winsect := sect } k n f
    WinOk fs' ∧ (∀ x, x / 512 ≠ sect → volume fs' x = volume fs x) ∧
      ∀ j < n, volume fs' (512 * sect + k + j) = f j := by
  intro fs'
  have hs0 : sect ≠ 0 := fun h0 => h.not_plain_zero (h0 ▸ hp)
  refine ⟨⟨h.base, fun h0 => absurd h0 hs0, fun _ => hp, by rintro ⟨⟩⟩, fun x hx => ?_,
    fun j hj => ?_⟩
  · by_cases hpx : fs.Plain (x / 512)
    · refine (@volume_medium fs' x hpx hx).trans ?_
      by_cases hw : x / 512 = fs.winsect
      · have h0 : fs.winsect ≠ 0 := fun h0 => h.not_plain_zero (h0 ▸ hw ▸ hpx)
        rw [volume_win hpx hw, h.clean hf h0 _ (Nat.mod_lt _ (by decide)), ← hw, Nat.div_add_mod]
        rfl
      · rw [volume_medium hpx hw]
        rfl
    · rw [volume_hidden hpx]
      exact @volume_hidden fs' x hpx
  · have hdiv : (512 * sect + k + j) / 512 = sect := by omega
    refine (@volume_win fs' _ (by rw [hdiv]; exact hp) hdiv).trans ?_
    rw [show (512 * sect + k + j) % 512 = k + j by omega]
    exact fill_at _ _ _ hj

theorem diskWrite_spec (buff : ℕ → Byte) (sect cc : ℕ) (d : Drive) :
    let r := diskWrite buff sect cc d
    r.2.served = d.served ∧ (∃ k ≤ cc, r.2.medium = fill d.medium (512 * sect) (512 * k) buff ∧
      (r.1 = .ok → k = cc)) ∧ (cc ≤ d.served d.accesses → r.1 = .ok) := by
  intro r
  refine ⟨rfl, ⟨min cc (d.served d.accesses), Nat.min_le_left _ _, rfl, fun hok => ?_⟩, fun hle => ?_⟩
  · by_contra hne
    have hlt : min cc (d.served d.accesses) < cc := lt_of_le_of_ne (Nat.min_le_left _ _) hne
    have herr : r.1 = .error := if_pos hlt
    cases herr.symm.trans hok
  · exact if_neg (by rw [Nat.min_eq_left hle]; exact lt_irrefl cc)

theorem direct_ok (h : WinOk fs) (hp : ∀ s, sect ≤ s → s < sect + cc → fs.Plain s) (hcc : 0 < cc)
    {drive : Drive} (hmed : drive.medium = fill fs.drive.medium (512 * sect) (512 * cc) buff) :
    let away := (fs.winsect + 0x100000000 - sect) % 0x100000000
    let fs' := if away < cc then
        { fs with
          drive := drive, win := fill fs.win 0 512 fun k => buff (away * 512 + k), wflag := false }
      else { fs with drive := drive }
    WinOk fs' ∧ volume fs' = fill (volume fs) (512 * sect) (512 * cc) buff ∧
      fs'.toMount = fs.toMount ∧ fs'.drive = drive := by
  intro away fs'
  have hw := h.winsect_lt
  have hend := (hp (sect + cc - 1) (by omega) (by omega)).2.1
  have hs0 : 0 < sect := lt_of_lt_of_le h.base.reserved (hp sect (le_refl _) (by omega)).1
  have haway : away = (fs.winsect + 0x100000000 - sect) % 0x100000000 := rfl
  by_cases hin : away < cc
  · have hrange : sect ≤ fs.winsect ∧ fs.winsect < sect + cc := by omega
    have hsub : away = fs.winsect - sect := by omega
    have hfs : fs' = { fs with
        drive := drive, win := fill fs.win 0 512 fun k => buff (away * 512 + k), wflag := false } :=
      if_pos hin
    have hwin : ∀ k < 512, fs'.win k = buff (512 * (fs.winsect - sect) + k) := by
      intro k hk
      rw [hfs]
      have hat := @fill_at fs.win 0 512 k (fun k => buff (away * 512 + k)) hk
      rw [Nat.zero_add] at hat
      refine hat.trans ?_
      rw [hsub, Nat.mul_comm]
    have hm : fs'.toMount = fs.toMount := by rw [hfs]
    have hs : fs'.winsect = fs.winsect := by rw [hfs]
    have hdrive : fs'.drive = drive := by rw [hfs]
    have hd : fs'.drive.medium = fill fs.drive.medium (512 * sect) (512 * cc) buff := by
      rw [hdrive, hmed]
    clear_value fs'
    refine ⟨⟨hm ▸ h.base, fun h0 => ?_, fun h0 => ?_, fun _ h0 k hk => ?_⟩, ?_, hm, hdrive⟩
    · rw [hfs]
    · rw [hm, hs]
      exact h.plain (hs ▸ h0)
    · rw [hwin k hk, hd, hs, fill, if_pos (by omega)]
      congr 1
      omega
    · funext x
      by_cases hpx : fs.Plain (x / 512)
      · have hpx' : fs'.Plain (x / 512) := hm ▸ hpx
        by_cases hx : x / 512 = fs.winsect
        · rw [volume_win hpx' (hx.trans hs.symm), hwin _ (Nat.mod_lt _ (by decide)), fill,
            if_pos (by omega)]
          congr 1
          omega
        · rw [volume_medium hpx' (hs ▸ hx), hd]
          simp only [fill]
          rw [volume_medium hpx hx]
      · rw [volume_hidden (hm ▸ hpx), fill_other _ fun hx => hpx (hp _ (by omega) (by omega)),
          volume_hidden hpx]
  · have hrange : ¬(sect ≤ fs.winsect ∧ fs.winsect < sect + cc) := by omega
    have hfs : fs' = { fs with drive := drive } := if_neg hin
    rw [hfs]
    refine ⟨⟨h.base, h.none, h.plain, fun hf h0 k hk => ?_⟩, ?_, rfl, rfl⟩
    · change fs.win k = drive.medium (512 * fs.winsect + k)
      rw [hmed, fill_other _ (by omega)]
      exact h.clean hf h0 k hk
    · funext x
      by_cases hpx : fs.Plain (x / 512)
      · by_cases hx : x / 512 = fs.winsect
        · rw [fill_other _ (by omega), volume_win hpx hx]
          exact @volume_win { fs with drive := drive } x hpx hx
        · refine (@volume_medium { fs with drive := drive } x hpx hx).trans ?_
          change drive.medium x = _
          rw [hmed]
          simp only [fill]
          rw [volume_medium hpx hx]
      · rw [fill_other _ fun hx => hpx (hp _ (by omega) (by omega)), volume_hidden hpx]
        exact @volume_hidden { fs with drive := drive } x hpx

/-- A direct write that fails changes its own sectors only; the window may be left on one of
them. -/
theorem direct_error (h : WinOk fs) {drive : Drive} (hk : k ≤ cc)
    (hmed : drive.medium = fill fs.drive.medium (512 * sect) (512 * k) buff) :
    (∀ x, x / 512 < sect ∨ sect + cc ≤ x / 512 → volume { fs with drive := drive } x = volume fs x) ∧
      (WinOk { fs with drive := drive } ∨
        fs.wflag = false ∧ sect ≤ fs.winsect ∧ fs.winsect < sect + cc) := by
  constructor
  · intro x hx
    by_cases hpx : fs.Plain (x / 512)
    · by_cases hw : x / 512 = fs.winsect
      · rw [volume_win hpx hw]
        exact @volume_win { fs with drive := drive } x hpx hw
      · rw [volume_medium hpx hw]
        refine (@volume_medium { fs with drive := drive } x hpx hw).trans ?_
        change drive.medium x = _
        rw [hmed, fill_other _ (by omega)]
    · rw [volume_hidden hpx]
      exact @volume_hidden { fs with drive := drive } x hpx
  · by_cases hin : fs.wflag = false ∧ sect ≤ fs.winsect ∧ fs.winsect < sect + cc
    · exact Or.inr hin
    · refine Or.inl ⟨h.base, h.none, h.plain, fun hf h0 j hj => ?_⟩
      change fs.win j = drive.medium (512 * fs.winsect + j)
      rw [hmed, fill_other _ fun hx => hin ⟨hf, by omega, by omega⟩]
      exact h.clean hf h0 j hj

/-! ## Clusters -/

theorem chain_cluster (h : fp.orgClust = 0 ∧ l = [] ∨ Chain (link fs) fp.orgClust l) :
    ∀ c ∈ l, fs.Cluster c := by
  intro c hc
  rcases h with ⟨-, rfl⟩ | h
  · cases hc
  · exact cluster_of_chain h hc

theorem Free.not_special (h : Free fs c) (hv : fs.Valid) : c ≠ 0 ∧ c ≠ 1 ∧ c ≠ 0xFFFFFFFF := by
  have h2 := h.1.1
  have hlt := hv.cluster_lt h.1
  have hlim : fs.fsType.clusters ≤ 0x0FFFFFF7 := by cases fs.fsType <;> decide
  omega

theorem Mount.Cluster.not_special {v : Mount} (h : v.Cluster c) (hv : v.Valid) :
    c ≠ 0 ∧ c ≠ 1 ∧ c ≠ 0xFFFFFFFF := by
  have h2 := h.1
  have hlt := hv.cluster_lt h
  have hlim : v.fsType.clusters ≤ 0x0FFFFFF7 := by cases v.fsType <;> decide
  omega

/-- Whatever `create_chain` returns, other files are left alone. -/
theorem Allocated.frame {clst : ℕ} {r : ℕ × Fatfs} (h : Allocated fs clst r) (hv : fs.Valid)
    (hclst : clst = 0 ∨ clst ∈ l) :
    Frame fs r.2 l ∧ (∀ x, ¬fs.InFat x → volume r.2 x = volume fs x) ∧ WinOk r.2 := by
  rcases h.result with ⟨-, hm, -⟩ | ht | ⟨-, hm, -⟩ | ⟨-, S, hch, hS, -⟩
  · exact ⟨hm.frame, fun x _ => congrFun hm.volume x, hm.winOk⟩
  · refine ⟨ht.changed.toFrame hv fun d hd => ?_, ht.changed.frame, ht.changed.winOk⟩
    split at hd
    · exact Or.inr (List.mem_singleton.mp hd ▸ ht.free)
    · next h0 =>
      rcases List.mem_cons.mp hd with rfl | hd
      · exact Or.inr ht.free
      · exact Or.inl (List.mem_singleton.mp hd ▸ hclst.resolve_left h0)
  · exact ⟨hm.frame, fun x _ => congrFun hm.volume x, hm.winOk⟩
  · refine ⟨hch.toFrame hv fun d hd => ?_, hch.frame, hch.winOk⟩
    rcases hS d hd with hfree | ⟨rfl, h0⟩
    · exact Or.inr hfree
    · exact Or.inl (hclst.resolve_left h0)

theorem cluster_end (hc : 0 < c) (hq : 0 < q) (h : c ≤ (q - 1) % c + 1) :
    q % c = 0 ∧ q / c = (q - 1) / c + 1 ∧ q = ((q - 1) / c + 1) * c := by
  have hlt := Nat.mod_lt (q - 1) hc
  have hdm := Nat.div_add_mod (q - 1) c
  have hmul : q = ((q - 1) / c + 1) * c := by
    rw [Nat.succ_mul, Nat.mul_comm]
    omega
  generalize (q - 1) / c = i at hmul
  subst hmul
  exact ⟨Nat.mul_mod_left _ _, Nat.mul_div_cancel _ hc, rfl⟩

theorem cluster_inside (hq : 0 < q) (h : (q - 1) % c + 1 < c) :
    q % c = (q - 1) % c + 1 ∧ q / c = (q - 1) / c := by
  have hdm := Nat.div_add_mod (q - 1) c
  have heq : q = (q - 1) % c + 1 + c * ((q - 1) / c) := by omega
  constructor
  · calc q % c = ((q - 1) % c + 1 + c * ((q - 1) / c)) % c := by rw [← heq]
      _ = (q - 1) % c + 1 := by rw [Nat.add_mul_mod_self_left, Nat.mod_eq_of_lt h]
  · calc q / c = ((q - 1) % c + 1 + c * ((q - 1) / c)) / c := by rw [← heq]
      _ = (q - 1) / c := by
        rw [Nat.add_mul_div_left _ _ (by omega), Nat.div_eq_of_lt h, Nat.zero_add]

theorem ClusterFound.of_allocated {clst : ℕ} {r : ℕ × Fatfs} (ha : Allocated fs clst r)
    (hv : fs.Valid) (hclst : clst = 0 ∨ clst ∈ l) (hsame : SameFile fp fp')
    (hfull : r.1 = 0 → fp' = fp)
    (hlinked : Taken fs clst r.1 r.2 → WinOk r.2 → ∃ l', Linked fp fs l r.1 fp' r.2 l') :
    ClusterFound fp fs l (r.1, fp', r.2) := by
  obtain ⟨hframe, hvol, hwin⟩ := ha.frame hv hclst
  refine ⟨hsame, hframe, hvol, ?_, ha.reliable⟩
  rcases ha.result with ⟨h0, hm, hnone⟩ | ht | ⟨h1, -, hone⟩ | ⟨herr, -⟩
  · exact Or.inl ⟨h0, hm, hfull h0, hnone⟩
  · exact Or.inr (Or.inl (hlinked ht hwin))
  · exact Or.inr (Or.inr ⟨Or.inl ⟨h1, hone⟩, hwin⟩)
  · exact Or.inr (Or.inr ⟨Or.inr herr, hwin⟩)

/-- The first cluster of an empty file. -/
theorem writeCluster_first (hp : Positioned fp fs l) (h0 : fp.fptr = 0) (horg : fp.orgClust = 0) :
    ClusterFound fp fs l (writeCluster fp fs) := by
  have hpos := hp.valid.csize_pos
  have hl : l = [] := by
    rcases hp.chain with ⟨-, hl⟩ | hch
    · exact hl
    · obtain ⟨t, ht⟩ := hch.head
      have h2 := (cluster_of_chain hch (ht ▸ List.mem_cons_self ..)).1
      omega
  have ha := createChain_zero hp.winOk hp.valid
  unfold writeCluster
  rw [if_pos h0, if_pos horg]
  generalize createChain 0 fs = r at ha ⊢
  obtain ⟨clst, fs1⟩ := r
  refine .of_allocated (r := (clst, fs1)) ha hp.valid (Or.inl rfl)
    ⟨rfl, rfl, rfl, rfl, rfl, rfl, rfl, rfl, rfl, rfl⟩ (fun hr => ?_) fun ht hwin => ?_
  · obtain rfl : clst = 0 := hr
    rw [← horg]
  · refine ⟨[clst], Or.inr ⟨clst, ht.free, by rw [hl]; rfl, ?_⟩, hwin, .last ht.last,
      fun d hd hdl => ht.changed.others d hd hdl, ?_, ?_, ht.free.not_special hp.valid, ?_⟩
    · rw [h0, hl, Mount.room, List.length_nil, Nat.zero_mul, Nat.zero_mul]
    · rw [h0, List.length_singleton]
      omega
    · simp only [h0, Nat.zero_div]
      rfl
    · rw [h0, Nat.zero_div, Nat.zero_mod]

/-- The cluster a file starts with. -/
theorem writeCluster_start (hp : Positioned fp fs l) (h0 : fp.fptr = 0) (horg : fp.orgClust ≠ 0) :
    ClusterFound fp fs l (writeCluster fp fs) := by
  have hpos := hp.valid.csize_pos
  have hch := hp.chain.resolve_left fun hand => horg hand.1
  obtain ⟨t, ht⟩ := hch.head
  have hspecial := (cluster_of_chain hch (ht ▸ List.mem_cons_self ..)).not_special hp.valid
  unfold writeCluster
  rw [if_pos h0, if_neg horg]
  refine ⟨.refl fp, .refl, fun _ _ => rfl, Or.inr (Or.inl ⟨l, Or.inl rfl, hp.winOk, hch,
    fun _ _ _ => rfl, ?_, ?_, hspecial, ?_⟩), fun _ => hspecial.2.2⟩
  · rw [h0, ht, List.length_cons, Nat.succ_mul]
    omega
  · simp only [h0, Nat.zero_div]
    rw [ht]
    rfl
  · rw [h0, Nat.zero_div, Nat.zero_mod]

/-- At a boundary behind the start `curr_clust` is the cluster in front. -/
theorem Positioned.boundary (hp : Positioned fp fs l) (hq : fp.fptr % 512 = 0)
    (hc : fs.csize ≤ fp.csect) (h0 : fp.fptr ≠ 0) :
    ∃ i, ∃ hi : i < l.length, fp.currClust = l[i] ∧ fp.fptr / 512 = (i + 1) * fs.csize ∧
      fp.fptr / 512 % fs.csize = 0 ∧ fp.fptr / 512 / fs.csize = i + 1 ∧
      Chain (link fs) fp.orgClust l := by
  have hpos := hp.valid.csize_pos
  obtain ⟨hcur, hsect⟩ := hp.cur (Nat.pos_of_ne_zero h0)
  obtain ⟨q, hfq⟩ : ∃ q, fp.fptr = 512 * q := ⟨fp.fptr / 512, by omega⟩
  have hqd : (fp.fptr - 1) / 512 = q - 1 := by omega
  have hqe : fp.fptr / 512 = q := by omega
  rw [hqd] at hcur hsect
  rw [hsect] at hc
  obtain ⟨hmod, hdiv, hmul⟩ := cluster_end hpos (by omega : 0 < q) hc
  generalize (q - 1) / fs.csize = i at hcur hdiv hmul
  have hin := hp.inside
  rw [Mount.room, hfq, hmul, Nat.mul_comm 512, Nat.mul_assoc, Nat.mul_assoc] at hin
  have hi : i + 1 ≤ l.length := Nat.le_of_mul_le_mul_right hin (by omega)
  refine ⟨i, by omega, ?_, by rw [hqe, hmul], by rw [hqe, hmod], by rw [hqe, hdiv],
    hp.chain.resolve_left fun hand => ?_⟩
  · rw [hcur]
    exact List.getD_eq_getElem _ _ (by omega)
  · rw [hand.2] at hi
    simp at hi

/-- The chain goes on. -/
theorem writeCluster_follow (hp : Positioned fp fs l) (hr : Reliable fs) (h0 : fp.fptr ≠ 0) {i : ℕ}
    (hlt : i + 1 < l.length) (hcur : fp.currClust = l[i]) (hmul : fp.fptr / 512 = (i + 1) * fs.csize)
    (hmod : fp.fptr / 512 % fs.csize = 0) (hdiv : fp.fptr / 512 / fs.csize = i + 1)
    (hch : Chain (link fs) fp.orgClust l) : ClusterFound fp fs l (writeCluster fp fs) := by
  have hd := cluster_of_chain hch (List.getElem_mem hlt)
  obtain ⟨hfollow, hread⟩ := createChain_next hp.winOk hp.valid (hch.next_eq hlt) hd
  obtain ⟨hval, hm, -⟩ := hfollow (hread hr)
  unfold writeCluster
  rw [if_neg h0, hcur]
  generalize createChain l[i] fs = r at hval hm
  obtain ⟨clst, fs1⟩ := r
  dsimp only at hval hm ⊢
  obtain rfl : clst = l[i + 1] := hval
  have hspecial := hd.not_special hp.valid
  refine ⟨.refl fp, hm.frame, fun x _ => congrFun hm.volume x, Or.inr (Or.inl ⟨l, Or.inl rfl,
    hm.winOk, ?_, fun d _ _ => congrFun hm.table d, ?_, ?_, hspecial, hmod⟩), fun _ => hspecial.2.2⟩
  · rw [hm.link]
    exact hch
  · rw [hmul]
    exact Nat.mul_lt_mul_of_pos_right hlt hp.valid.csize_pos
  · rw [hdiv, List.getD_eq_getElem _ _ hlt]

/-- The chain is stretched. -/
theorem writeCluster_stretch (hp : Positioned fp fs l) (hq : fp.fptr % 512 = 0) (h0 : fp.fptr ≠ 0)
    {i : ℕ} (hi : i < l.length) (hlen : l.length = i + 1) (hcur : fp.currClust = l[i])
    (hmul : fp.fptr / 512 = (i + 1) * fs.csize) (hmod : fp.fptr / 512 % fs.csize = 0)
    (hdiv : fp.fptr / 512 / fs.csize = i + 1) (hch : Chain (link fs) fp.orgClust l) :
    ClusterFound fp fs l (writeCluster fp fs) := by
  have hlast : l.getLast hch.ne_nil = l[i] := by
    rw [List.getLast_eq_getElem]
    simp only [hlen, Nat.add_sub_cancel]
  have hll : link fs l[i] = .last := hlast ▸ hch.last_eq
  have hmem : l[i] ∈ l := List.getElem_mem _
  have hne : l[i] ≠ 0 := by
    have := (cluster_of_chain hch hmem).1
    omega
  have ha := createChain_last hp.winOk hp.valid hll
  unfold writeCluster
  rw [if_neg h0, hcur]
  generalize createChain l[i] fs = r at ha ⊢
  obtain ⟨clst, fs1⟩ := r
  refine .of_allocated (r := (clst, fs1)) ha hp.valid (Or.inr hmem) (.refl fp) (fun _ => rfl)
    fun ht hwin => ?_
  have hch' := ht.changed
  rw [if_neg hne] at hch'
  refine ⟨l ++ [clst], Or.inr ⟨clst, ht.free, rfl, ?_⟩, hwin, ?_, ?_, ?_, ?_,
    ht.free.not_special hp.valid, hmod⟩
  · rw [Mount.room, hlen, ← hmul]
    omega
  · refine hch.extend ht.free.link ht.last (by rw [hlast]; exact ht.linked hne)
      fun d hd hd' => hch'.link fun hdS => ?_
    rw [hlast] at hd'
    rcases List.mem_cons.mp hdS with heq | hdS
    · exact hd heq
    · exact hd' (List.mem_singleton.mp hdS)
  · refine fun d hd hdl => hch'.others d hd fun hdS => hdl (List.mem_append.mpr ?_)
    rcases List.mem_cons.mp hdS with rfl | hdS
    · exact Or.inr (List.mem_singleton_self _)
    · exact Or.inl (List.mem_singleton.mp hdS ▸ hmem)
  · rw [List.length_append, hlen, hmul]
    exact Nat.mul_lt_mul_of_pos_right (Nat.lt_succ_self _) hp.valid.csize_pos
  · rw [hdiv, List.getD_eq_getElem _ _ (by simp [hlen])]
    simp [hlen]

theorem writeCluster_spec (hp : Positioned fp fs l) (hq : fp.fptr % 512 = 0)
    (hc : fs.csize ≤ fp.csect) (hnext : Reliable fs ∨ AtLast fp fs l) :
    ClusterFound fp fs l (writeCluster fp fs) := by
  by_cases h0 : fp.fptr = 0
  · by_cases horg : fp.orgClust = 0
    · exact writeCluster_first hp h0 horg
    · exact writeCluster_start hp h0 horg
  · obtain ⟨i, hi, hcur, hmul, hmod, hdiv, hch⟩ := hp.boundary hq hc h0
    rcases Nat.lt_or_ge (i + 1) l.length with hlt | hge
    · refine writeCluster_follow hp (hnext.resolve_right fun hroom => ?_) h0 hlt hcur hmul hmod hdiv hch
      rw [AtLast, Mount.room] at hroom
      have hle : (i + 2) * fs.csize ≤ l.length * fs.csize := Nat.mul_le_mul_right _ hlt
      have hexp : (i + 2) * fs.csize = (i + 1) * fs.csize + fs.csize := by ring
      omega
    · exact writeCluster_stretch hp hq h0 hi (by omega) hcur hmul hmod hdiv hch

theorem enterCluster_spec (hp : Positioned fp fs l) (hq : fp.fptr % 512 = 0)
    (hnext : Reliable fs ∨ AtLast fp fs l) :
    let r := enterCluster fp fs
    (r.1 = .moved 0 ∧ (∃ l', Ready fp fs l r.2.1 r.2.2 l') ∨
      r.1 = .full ∧ r.2.1 = fp ∧ Moved fs r.2.2 ∧ (∀ d, ¬Free fs d) ∨
      (r.1 = .abort .intErr ∧ (∃ d, fs.Cluster d ∧ table fs d = 1) ∨ r.1 = .abort .diskErr) ∧
        SameFile fp r.2.1 ∧ Frame fs r.2.2 l ∧
        (∀ x, ¬fs.InFat x → volume r.2.2 x = volume fs x) ∧ WinOk r.2.2) ∧
      (Reliable fs → r.1 ≠ .abort .diskErr) := by
  have hpos := hp.valid.csize_pos
  unfold enterCluster
  by_cases hc : fs.csize ≤ fp.csect
  · rw [if_pos hc]
    obtain ⟨hsame, hframe, hvol, hres, hrel⟩ := writeCluster_spec hp hq hc hnext
    generalize writeCluster fp fs = r at hsame hframe hvol hres hrel
    obtain ⟨clst, fp1, fs1⟩ := r
    dsimp only at hsame hframe hvol hres hrel ⊢
    rcases hres with ⟨rfl, hm, rfl, hnone⟩ |
      ⟨l', hgrown, hwin, hch, hothers, hroom, hcur, ⟨hn0, hn1, hn2⟩, hmod⟩ | ⟨⟨rfl, hone⟩ | rfl, hwin⟩
    · rw [if_pos rfl]
      exact ⟨Or.inr (Or.inl ⟨rfl, rfl, hm, hnone⟩), fun _ => by rintro ⟨⟩⟩
    · rw [if_neg hn0, if_neg hn1, if_neg hn2]
      refine ⟨Or.inl ⟨rfl, l', ?_, hgrown, hwin, hch, hframe, hothers, hvol, hroom, hcur, hmod.symm⟩,
        fun _ => by rintro ⟨⟩⟩
      exact ⟨hsame.1, hsame.2, hsame.3, hsame.4, hsame.5, hsame.6, hsame.7, hsame.8, hsame.9,
        hsame.10⟩
    · rw [if_neg (by decide), if_pos rfl]
      exact ⟨Or.inr (Or.inr ⟨Or.inl ⟨rfl, hone⟩, hsame, hframe, hvol, hwin⟩), fun _ => by rintro ⟨⟩⟩
    · rw [if_neg (by decide), if_neg (by decide), if_pos rfl]
      exact ⟨Or.inr (Or.inr ⟨Or.inr rfl, hsame, hframe, hvol, hwin⟩),
        fun hr => absurd rfl (hrel hr)⟩
  · rw [if_neg hc]
    have h0 : 0 < fp.fptr := by
      by_contra h0
      have := hp.top (by omega)
      have := hp.valid.csize_le
      omega
    obtain ⟨hcur, hsect⟩ := hp.cur h0
    obtain ⟨hmod, hdiv⟩ := cluster_inside (c := fs.csize) (q := fp.fptr / 512) (by omega)
      (by rw [show fp.fptr / 512 - 1 = (fp.fptr - 1) / 512 by omega]; omega)
    rw [show fp.fptr / 512 - 1 = (fp.fptr - 1) / 512 by omega] at hmod hdiv
    have hin := hp.inside
    have hlt : fp.fptr / 512 < l.length * fs.csize := by
      rw [Mount.room] at hin
      refine lt_of_le_of_ne (by omega) fun heq => ?_
      rw [heq, Nat.mul_mod_left] at hmod
      omega
    have hch : Chain (link fs) fp.orgClust l := hp.chain.resolve_left fun hand => by
      rw [hand.2, List.length_nil, Nat.zero_mul] at hlt
      exact absurd hlt (Nat.not_lt_zero _)
    exact ⟨Or.inl ⟨rfl, l, .refl fp, Or.inl rfl, hp.winOk, hch, .refl, fun _ _ _ => rfl,
      fun _ _ => rfl, hlt,
      by rw [hcur, hdiv], by rw [hsect, hmod]⟩, fun _ => by rintro ⟨⟩⟩

/-! ## Stores -/

theorem sectorOf_add {v : Mount} {j : ℕ} (h : q % v.csize + j < v.csize) :
    v.sectorOf l (q + j) = v.sectorOf l q + j := by
  have hdm := Nat.div_add_mod q v.csize
  have heq : q + j = q % v.csize + j + v.csize * (q / v.csize) := by omega
  have hdiv : (q + j) / v.csize = q / v.csize := by
    rw [heq, Nat.add_mul_div_left _ _ (by omega), Nat.div_eq_of_lt h, Nat.zero_add]
  have hmod : (q + j) % v.csize = q % v.csize + j := by
    rw [heq, Nat.add_mul_mod_self_left, Nat.mod_eq_of_lt h]
  rw [Mount.sectorOf, Mount.sectorOf, hdiv, hmod, Nat.add_assoc, Nat.add_assoc, Nat.add_assoc]

/-- A store into one sector of the file. -/
theorem stored_of_sector (hv : fs.Valid) (hl : ∀ c ∈ l, fs.Cluster c) (hnd : l.Nodup)
    (hq : a / 512 < l.length * fs.csize) (hn : a % 512 + n ≤ 512) (hm : m ≤ fs.room l)
    (hw : WinOk fs') (hmount : fs'.toMount = fs.toMount)
    (hserved : fs'.drive.served = fs.drive.served)
    (hother : ∀ x, x / 512 ≠ fs.sectorOf l (a / 512) → volume fs' x = volume fs x)
    (hdata : ∀ j < n, volume fs' (512 * fs.sectorOf l (a / 512) + a % 512 + j) = f j)
    (hrest : (∀ j < 512, ¬(a % 512 ≤ j ∧ j < a % 512 + n) →
      volume fs' (512 * fs.sectorOf l (a / 512) + j) =
        volume fs (512 * fs.sectorOf l (a / 512) + j)) ∨ a % 512 = 0 ∧ m ≤ a) :
    Stored fs fs' l a n m f := by
  have hclu := clusterOf_sectorOf hv hl hq
  refine ⟨hw, hmount, hserved, fun x hx => hother x fun heq => ?_, fun p hp => ?_⟩
  · rcases hx with hlt | hnot
    · rw [heq] at hlt
      exact absurd hlt (not_lt.mpr sectorOf_ge)
    · rw [heq, hclu.1] at hnot
      exact hnot hclu.2
  · rw [fileByte, hmount]
    by_cases hpa : p / 512 = a / 512
    · rw [hpa]
      by_cases hin : a ≤ p ∧ p < a + n
      · rw [fill, if_pos hin, ← hdata (p - a) (by omega)]
        congr 1
        omega
      · rw [fill_other _ hin, fileByte, hpa]
        rcases hrest with hrest | ⟨h0, hma⟩
        · exact hrest _ (Nat.mod_lt _ (by decide)) (by omega)
        · exact absurd hp (by omega)
    · rw [fill_other _ (by omega), fileByte]
      refine hother _ ?_
      rw [show (512 * fs.sectorOf l (p / 512) + p % 512) / 512 = fs.sectorOf l (p / 512) by omega]
      refine fun heq => hpa (sectorOf_injective hv hl hnd ?_ hq heq)
      rw [Mount.room] at hm
      omega

/-- A store into whole sectors of one cluster of the file. -/
theorem stored_of_direct (hv : fs.Valid) (hl : ∀ c ∈ l, fs.Cluster c) (hnd : l.Nodup)
    (ha : a % 512 = 0) (hq : a / 512 < l.length * fs.csize)
    (hcc : a / 512 % fs.csize + cc ≤ fs.csize) (hm : m ≤ fs.room l) (hw : WinOk fs')
    (hmount : fs'.toMount = fs.toMount) (hserved : fs'.drive.served = fs.drive.served)
    (hvol : volume fs' = fill (volume fs) (512 * fs.sectorOf l (a / 512)) (512 * cc) f) :
    Stored fs fs' l a (512 * cc) m f := by
  have hroom : a / 512 + cc ≤ l.length * fs.csize := by
    have hdm := Nat.div_add_mod (a / 512) fs.csize
    have hi : a / 512 / fs.csize < l.length := Nat.div_lt_of_lt_mul (by rwa [Nat.mul_comm])
    have hle := Nat.mul_le_mul_right fs.csize hi
    rw [Nat.succ_mul, Nat.mul_comm (a / 512 / fs.csize)] at hle
    omega
  -- the sectors of the store are sectors of the file
  have hsect : ∀ j < cc, fs.sectorOf l (a / 512 + j) = fs.sectorOf l (a / 512) + j := fun j hj =>
    sectorOf_add (by omega)
  refine ⟨hw, hmount, hserved, fun x hx => ?_, fun p hp => ?_⟩
  · rw [hvol]
    refine fill_other _ fun hin => ?_
    have heq := hsect (x / 512 - fs.sectorOf l (a / 512)) (by omega)
    rw [Nat.add_sub_cancel' (by omega)] at heq
    have hclu := clusterOf_sectorOf hv hl
      (q := a / 512 + (x / 512 - fs.sectorOf l (a / 512))) (by omega)
    rw [heq] at hclu
    rcases hx with hlt | hnot
    · have := @sectorOf_ge fs.toMount l (a / 512)
      omega
    · rw [hclu.1] at hnot
      exact hnot hclu.2
  · rw [fileByte, hmount, hvol]
    by_cases hin : a ≤ p ∧ p < a + 512 * cc
    · have heq := hsect (p / 512 - a / 512) (by omega)
      rw [Nat.add_sub_cancel' (by omega)] at heq
      rw [fill, fill, if_pos hin, heq, if_pos (by omega)]
      congr 1
      omega
    · rw [fill_other _ hin, fileByte]
      refine fill_other _ fun hout => ?_
      have heq := hsect (fs.sectorOf l (p / 512) - fs.sectorOf l (a / 512)) (by omega)
      rw [Nat.add_sub_cancel' (by omega)] at heq
      rw [Mount.room] at hm
      have hinj := sectorOf_injective hv hl hnd (by omega) (by omega) heq
      omega

theorem Stored.table (h : Stored fs fs' l a n m f) (hv : fs.Valid) (hd : d < fs.maxClust) :
    table fs' d = table fs d := by
  refine table_congr hv h.mount (fun x hx => h.other x (Or.inl ?_)) hd
  by_contra hge
  exact hv.not_inFat (not_lt.mp hge) hx

theorem Stored.link (h : Stored fs fs' l a n m f) (hv : fs.Valid) : link fs' = link fs := by
  funext d
  rw [Ff.link, Ff.link, h.mount]
  by_cases hc : fs.Cluster d
  · rw [if_pos hc, if_pos hc, h.table hv hc.2]
  · rw [if_neg hc, if_neg hc]

theorem Stored.frame (h : Stored fs fs' l a n m f) (hv : fs.Valid) : Frame fs fs' l :=
  frame_of_volume hv h.mount h.served h.other

/-! ## One pass -/

/-- The file object is on the sector of the file pointer. -/
structure AtSector (fp : Fil) (fs : Fatfs) (l : List ℕ) : Prop where
  chain : Chain (link fs) fp.orgClust l
  cur : fp.currClust = l.getD (fp.fptr / 512 / fs.csize) 2
  csect : fp.csect = fp.fptr / 512 % fs.csize + 1
  dsect : fp.dsect = fs.sectorOf l (fp.fptr / 512)
  room : fp.fptr / 512 < l.length * fs.csize
  size : fp.fsize ≤ fs.room l

theorem AtSector.positioned (h : AtSector fp fs l) (hv : fs.Valid)
    (hst : Stored fs fs' l fp.fptr n m f) (hn : 0 < n) (hfit : fp.fptr % 512 + n ≤ 512) :
    Positioned { fp with fptr := fp.fptr + n } fs' l := by
  have hm := hst.mount
  have hq : (fp.fptr + n - 1) / 512 = fp.fptr / 512 := by omega
  refine ⟨hst.winOk, hm ▸ hv, Or.inr ?_, ?_, hm ▸ h.size, fun h0 => ?_, fun _ => ?_, fun hne => ?_⟩
  · rw [hst.link hv]
    exact h.chain
  · have hroom := h.room
    rw [hm, Mount.room]
    dsimp only
    omega
  · dsimp only at h0
    omega
  · dsimp only
    rw [hq, hm]
    exact ⟨h.cur, h.csect⟩
  · dsimp only at hne ⊢
    rw [hm, show (fp.fptr + n) / 512 = fp.fptr / 512 by omega]
    exact h.dsect

theorem sectorOf_lt (hv : fs.Valid) (hl : ∀ c ∈ l, fs.Cluster c) (hq : q < l.length * fs.csize) :
    fs.sectorOf l q < 0x100000000 := by
  have hpos := hv.csize_pos
  have hmem := (clusterOf_sectorOf hv hl hq).2
  have hlt := (hl _ hmem).2
  have h2 := (hl _ hmem).1
  have hmod := Nat.mod_lt q hpos
  have hmul : (l.getD (q / fs.csize) 2 - 2 + 1) * fs.csize ≤ fs.maxClust * fs.csize :=
    Nat.mul_le_mul_right _ (by omega)
  rw [Nat.succ_mul] at hmul
  have hinside := hv.inside
  rw [Mount.sectorOf]
  omega

/-- Through the window. -/
theorem writePartial_spec (buff : ℕ → Byte) (h : AtSector fp fs l) (hw : WinOk fs) (hv : fs.Valid)
    (hb : 0 < b) :
    let r := writePartial buff b fp fs
    r.2.1 = fp ∧
      ((∃ n, r.1 = .moved n ∧ 0 < n ∧ n ≤ b ∧ fp.fptr % 512 + n ≤ 512 ∧
        Stored fs r.2.2 l fp.fptr n fp.fsize buff) ∨ r.1 = .abort .diskErr ∧ Moved fs r.2.2) ∧
      (Reliable fs → r.1 ≠ .abort .diskErr) := by
  have hl : ∀ c ∈ l, fs.Cluster c := fun c hc => cluster_of_chain h.chain hc
  have hplain := hv.plain_data (@sectorOf_ge fs.toMount l (fp.fptr / 512)) (sectorOf_lt hv hl h.room)
  obtain ⟨hmoved, hres, -, -, hok⟩ := moveWindow_spec hw (Or.inr (h.dsect ▸ hplain))
  unfold writePartial
  dsimp only
  generalize hn : (if b < 512 - fp.fptr % 512 then b else 512 - fp.fptr % 512) = n
  have hn' : 0 < n ∧ n ≤ b ∧ fp.fptr % 512 + n ≤ 512 := by
    split at hn <;> omega
  have hdiv : (512 * fp.dsect + fp.fptr % 512) / 512 = fp.dsect := by omega
  have hmod : (512 * fp.dsect + fp.fptr % 512) % 512 = fp.fptr % 512 := by omega
  have hpoke := @moveWindow_poke fs (512 * fp.dsect + fp.fptr % 512) n hw
    (by rw [hdiv, h.dsect]; exact hplain) (by omega) buff
  rw [hdiv, hmod] at hpoke
  generalize moveWindow fp.dsect fs = r at hmoved hres hok hpoke
  obtain ⟨res, fs1⟩ := r
  rcases hres with hres | hres
  · obtain rfl : res = .ok := hres
    obtain ⟨hst, -, hvol⟩ := hpoke rfl
    refine ⟨rfl, Or.inl ⟨n, rfl, hn'.1, hn'.2.1, hn'.2.2, ?_⟩, fun _ => by rintro ⟨⟩⟩
    rw [h.dsect] at hvol
    refine stored_of_sector hv hl h.chain.nodup h.room hn'.2.2 h.size hst.winOk hst.mount hst.served
      (fun x hx => ?_) (fun j hj => ?_) (Or.inl fun j hj hout => ?_)
    · rw [hvol]
      exact fill_other _ (by omega)
    · rw [hvol]
      exact fill_at _ _ _ hj
    · rw [hvol]
      exact fill_other _ (by omega)
  · obtain rfl : res = .diskErr := hres
    exact ⟨rfl, Or.inr ⟨rfl, hmoved⟩, fun hr => by cases hok hr⟩

/-- On a sector that was not read: the file ends in front of it. -/
theorem writePartial_grown (buff : ℕ → Byte) (h : AtSector fp fs l) (hw : WinOk fs) (hv : fs.Valid)
    (hb : 0 < b) (hf : fs.wflag = false) (h0 : fp.fptr % 512 = 0) (hend : fp.fsize ≤ fp.fptr) :
    let r := writePartial buff b fp { fs with winsect := fp.dsect }
    r.2.1 = fp ∧ ∃ n, r.1 = .moved n ∧ 0 < n ∧ n ≤ b ∧ fp.fptr % 512 + n ≤ 512 ∧
      Stored fs r.2.2 l fp.fptr n fp.fsize buff := by
  have hl : ∀ c ∈ l, fs.Cluster c := fun c hc => cluster_of_chain h.chain hc
  have hplain := hv.plain_data (@sectorOf_ge fs.toMount l (fp.fptr / 512)) (sectorOf_lt hv hl h.room)
  have hstay : moveWindow fp.dsect { fs with winsect := fp.dsect } =
      (.ok, { fs with winsect := fp.dsect }) := if_pos rfl
  unfold writePartial
  rw [hstay]
  dsimp only
  generalize hn : (if b < 512 - fp.fptr % 512 then b else 512 - fp.fptr % 512) = n
  have hn' : 0 < n ∧ n ≤ b ∧ fp.fptr % 512 + n ≤ 512 := by
    split at hn <;> omega
  obtain ⟨hwin, hother, hdata⟩ := grow_spec hw hf (h.dsect ▸ hplain) hn'.2.2 buff
  refine ⟨rfl, n, rfl, hn'.1, hn'.2.1, hn'.2.2, ?_⟩
  rw [h.dsect] at hother hdata hwin ⊢
  exact stored_of_sector hv hl h.chain.nodup h.room hn'.2.2 h.size hwin rfl rfl hother hdata
    (Or.inr ⟨h0, hend⟩)

/-- What a disk error leaves of a store to `[a, a + b)`: the window may be stale on a sector of the
file. -/
structure Broken (fs fs' : Fatfs) (l : List ℕ) (a b : ℕ) : Prop where
  mount : fs'.toMount = fs.toMount
  served : fs'.drive.served = fs.drive.served
  other : ∀ x, x / 512 < fs.database ∨ fs.clusterOf (x / 512) ∉ l → volume fs' x = volume fs x
  kept : ∀ p < fs.room l, p < a ∨ a + b ≤ p → fileByte fs' l p = fileByte fs l p
  window : WinOk fs' ∨
    fs'.wflag = false ∧ fs.database ≤ fs'.winsect ∧ fs.clusterOf fs'.winsect ∈ l

theorem fileByte_congr (hm : fs'.toMount = fs.toMount) (hv : fs.Valid)
    (hvol : ∀ x, ¬fs.InFat x → volume fs' x = volume fs x) : fileByte fs' l = fileByte fs l := by
  funext p
  rw [fileByte, fileByte, hm]
  refine hvol _ (hv.not_inFat ?_)
  have := @sectorOf_ge fs.toMount l (p / 512)
  omega

theorem Moved.broken (h : Moved fs fs') (hv : fs.Valid) : Broken fs fs' l a b :=
  ⟨h.mount, h.served, fun x _ => congrFun h.volume x,
    fun p _ _ => congrFun (fileByte_congr h.mount hv fun x _ => congrFun h.volume x) p,
    Or.inl h.winOk⟩

theorem Broken.of_moved (h : Moved fs fs') (hv : fs.Valid) (h' : Broken fs' fs'' l a b) :
    Broken fs fs'' l a b := by
  obtain ⟨hm, hs, hother, hkept, hwin⟩ := h'
  rw [h.mount] at hm hother hkept hwin
  refine ⟨hm, hs.trans h.served, fun x hx => (hother x hx).trans (congrFun h.volume x),
    fun p hp hor => (hkept p hp hor).trans ?_, hwin⟩
  exact congrFun (fileByte_congr h.mount hv fun x _ => congrFun h.volume x) p

theorem Stored.of_moved (h : Moved fs fs') (hv : fs.Valid) (h' : Stored fs' fs'' l a n m f) :
    Stored fs fs'' l a n m f := by
  obtain ⟨hw, hm, hs, hother, hbytes⟩ := h'
  rw [h.mount] at hm hother
  rw [fileByte_congr h.mount hv fun x _ => congrFun h.volume x] at hbytes
  exact ⟨hw, hm, hs.trans h.served, fun x hx => (hother x hx).trans (congrFun h.volume x), hbytes⟩

/-- Whole sectors. -/
theorem writeDirect_spec (buff : ℕ → Byte) (hv : fs.Valid) (hw : WinOk fs)
    (hch : Chain (link fs) fp.orgClust l) (hq : fp.fptr % 512 = 0) (hroom : fp.fptr / 512 < l.length * fs.csize)
    (hcur : fp.currClust = l.getD (fp.fptr / 512 / fs.csize) 2)
    (hcsect : fp.csect = fp.fptr / 512 % fs.csize) (hsize : fp.fsize ≤ fs.room l) (hb : b / 512 ≠ 0) :
    let r := writeDirect buff b (fs.sectorOf l (fp.fptr / 512)) fp fs
    SameFile fp r.2.1 ∧
      ((∃ n, r.1 = .moved n ∧ 0 < n ∧ n ≤ b ∧ Stored fs r.2.2 l fp.fptr n fp.fsize buff ∧
          Positioned { r.2.1 with fptr := fp.fptr + n } r.2.2 l) ∨
        r.1 = .abort .diskErr ∧ Broken fs r.2.2 l fp.fptr b) ∧
      (Reliable fs → r.1 ≠ .abort .diskErr) := by
  have hl : ∀ c ∈ l, fs.Cluster c := fun c hc => cluster_of_chain hch hc
  have hpos := hv.csize_pos
  have hle := hv.csize_le
  have hmodlt := Nat.mod_lt (fp.fptr / 512) hpos
  unfold writeDirect
  dsimp only
  generalize hcc : (if fs.csize < fp.csect + b / 512 then fs.csize - fp.csect else b / 512) = cc
  have hcc' : 0 < cc ∧ fp.csect + cc ≤ fs.csize ∧ 512 * cc ≤ b := by
    split at hcc <;> omega
  obtain ⟨hcc0, hccs, hccb⟩ := hcc'
  rw [Nat.mod_eq_of_lt (show cc < 256 by omega), Nat.mod_eq_of_lt (show fp.csect + cc < 256 by omega)]
  -- the sectors are those of the file pointer and behind it
  have hsect : ∀ j < cc, fs.sectorOf l (fp.fptr / 512 + j) = fs.sectorOf l (fp.fptr / 512) + j :=
    fun j hj => sectorOf_add (by omega)
  have hdm := Nat.div_add_mod (fp.fptr / 512) fs.csize
  have hfits : fp.fptr / 512 + cc ≤ l.length * fs.csize := by
    have hi : fp.fptr / 512 / fs.csize < l.length := Nat.div_lt_of_lt_mul (by rwa [Nat.mul_comm])
    have hmul := Nat.mul_le_mul_right fs.csize hi
    rw [Nat.succ_mul, Nat.mul_comm (fp.fptr / 512 / fs.csize)] at hmul
    omega
  have hplain : ∀ s, fs.sectorOf l (fp.fptr / 512) ≤ s →
      s < fs.sectorOf l (fp.fptr / 512) + cc → fs.Plain s := by
    intro s h1 h2
    have heq := hsect (s - fs.sectorOf l (fp.fptr / 512)) (by omega)
    rw [Nat.add_sub_cancel' h1] at heq
    rw [← heq]
    exact hv.plain_data sectorOf_ge (sectorOf_lt hv hl (by omega))
  obtain ⟨hserved, ⟨k, hk, hmed, hall⟩, hok⟩ :=
    diskWrite_spec buff (fs.sectorOf l (fp.fptr / 512)) cc fs.drive
  generalize diskWrite buff (fs.sectorOf l (fp.fptr / 512)) cc fs.drive = r at hserved hmed hall hok
  obtain ⟨res, drive⟩ := r
  cases res with
  | ok =>
    obtain rfl : k = cc := hall rfl
    obtain ⟨hwin, hvol, hm2, hs2⟩ := direct_ok hw hplain hcc0 hmed
    dsimp only at hwin hvol hm2 hs2 ⊢
    generalize (ite (_ < k) _ _ : Fatfs) = fs2 at hwin hvol hm2 hs2 ⊢
    replace hs2 : fs2.drive.served = fs.drive.served := by rw [hs2, ← hserved]
    have hst : Stored fs fs2 l fp.fptr (512 * k) fp.fsize buff :=
      stored_of_direct hv hl hch.nodup hq hroom (by omega) hsize hwin hm2 hs2 hvol
    refine ⟨⟨rfl, rfl, rfl, rfl, rfl, rfl, rfl, rfl, rfl, rfl⟩, Or.inl ⟨512 * k, rfl, by omega, hccb,
      hst, ?_⟩, fun _ => by rintro ⟨⟩⟩
    have hm := hst.mount
    have hq1 : (fp.fptr + 512 * k - 1) / 512 = fp.fptr / 512 + (k - 1) := by omega
    have hsame : (fp.fptr / 512 + (k - 1)) / fs.csize = fp.fptr / 512 / fs.csize ∧
        (fp.fptr / 512 + (k - 1)) % fs.csize = fp.fptr / 512 % fs.csize + (k - 1) := by
      have heq : fp.fptr / 512 + (k - 1) = fp.fptr / 512 % fs.csize + (k - 1) +
          fs.csize * (fp.fptr / 512 / fs.csize) := by omega
      rw [heq, Nat.add_mul_div_left _ _ hpos, Nat.div_eq_of_lt (by omega), Nat.zero_add,
        Nat.add_mul_mod_self_left, Nat.mod_eq_of_lt (by omega)]
      exact ⟨rfl, rfl⟩
    refine ⟨hst.winOk, hm ▸ hv, Or.inr ?_, ?_, ?_, fun h0 => ?_, fun _ => ?_, fun hne => ?_⟩
    · rw [hst.link hv]
      exact hch
    · rw [hm, Mount.room]
      dsimp only
      omega
    · rw [hm]
      exact hsize
    · dsimp only at h0
      omega
    · dsimp only
      rw [hq1, hm, hsame.1, hsame.2]
      exact ⟨hcur, by omega⟩
    · dsimp only at hne
      omega
  | error =>
    obtain ⟨hout, hwin⟩ := direct_error hw hk hmed
    have hclu : ∀ s, fs.sectorOf l (fp.fptr / 512) ≤ s →
        s < fs.sectorOf l (fp.fptr / 512) + cc → fs.clusterOf s ∈ l := by
      intro s h1 h2
      have heq := hsect (s - fs.sectorOf l (fp.fptr / 512)) (by omega)
      rw [Nat.add_sub_cancel' h1] at heq
      rw [← heq]
      obtain ⟨hval, hmem⟩ := clusterOf_sectorOf hv hl
        (q := fp.fptr / 512 + (s - fs.sectorOf l (fp.fptr / 512))) (by omega)
      rw [hval]
      exact hmem
    refine ⟨.refl fp, Or.inr ⟨rfl, rfl, hserved, fun x hx => ?_, fun p hp hor => ?_, ?_⟩, fun hr => ?_⟩
    · have hge := @sectorOf_ge fs.toMount l (fp.fptr / 512)
      refine hout x ?_
      by_contra hin
      rcases hx with hlt | hnot
      · omega
      · exact hnot (hclu _ (by omega) (by omega))
    · refine hout _ ?_
      rw [show (512 * fs.sectorOf l (p / 512) + p % 512) / 512 = fs.sectorOf l (p / 512) by omega]
      by_contra hin
      have heq := hsect (fs.sectorOf l (p / 512) - fs.sectorOf l (fp.fptr / 512)) (by omega)
      rw [Nat.add_sub_cancel' (by omega)] at heq
      rw [Mount.room] at hp
      have hinj := sectorOf_injective hv hl hch.nodup (by omega) (by omega) heq
      omega
    · refine hwin.imp_right fun hand => ⟨hand.1, ?_, hclu _ hand.2.1 hand.2.2⟩
      exact le_trans sectorOf_ge hand.2.1
    · cases hok (le_trans (by omega) (hr _))

/-- A pass on a sector boundary, the cluster being known. -/
theorem writeSector_spec (buff : ℕ → Byte) (hv : fs.Valid) (hw : WinOk fs)
    (hch : Chain (link fs) fp.orgClust l) (hq : fp.fptr % 512 = 0) (hroom : fp.fptr / 512 < l.length * fs.csize)
    (hcur : fp.currClust = l.getD (fp.fptr / 512 / fs.csize) 2)
    (hcsect : fp.csect = fp.fptr / 512 % fs.csize) (hsize : fp.fsize ≤ fs.room l) (hb : 0 < b) :
    let r := writeSector buff b fp fs
    SameFile fp r.2.1 ∧
      ((∃ n, r.1 = .moved n ∧ 0 < n ∧ n ≤ b ∧ Stored fs r.2.2 l fp.fptr n fp.fsize buff ∧
          Positioned { r.2.1 with fptr := fp.fptr + n } r.2.2 l) ∨
        r.1 = .abort .diskErr ∧ Broken fs r.2.2 l fp.fptr b) ∧
      (Reliable fs → r.1 ≠ .abort .diskErr) := by
  have hflush : ∀ r, (if fs.winsect = fp.dsect then moveWindow 0 fs else (.ok, fs)) = r →
      Moved fs r.2 ∧ (r.1 = .ok ∨ r.1 = .diskErr) ∧ (Reliable fs → r.1 = .ok) := by
    rintro r rfl
    split
    · obtain ⟨hm, hres, -, -, hok⟩ := moveWindow_spec hw (Or.inl rfl)
      exact ⟨hm, hres, hok⟩
    · exact ⟨Moved.refl hw, Or.inl rfl, fun _ => rfl⟩
  unfold writeSector
  generalize (if fs.winsect = fp.dsect then moveWindow 0 fs else (.ok, fs)) = r at hflush
  obtain ⟨hm, hres, hok⟩ := hflush r rfl
  obtain ⟨res, fs1⟩ := r
  rcases hres with hres | hres
  · obtain rfl : res = .ok := hres
    dsimp only at hm ⊢
    have hv1 : fs1.Valid := hm.mount ▸ hv
    have hw1 := hm.winOk
    have hch1 : Chain (link fs1) fp.orgClust l := by
      rw [hm.link]
      exact hch
    have hroom1 : fp.fptr / 512 < l.length * fs1.csize := by rwa [hm.mount]
    have hcur1 : fp.currClust = l.getD (fp.fptr / 512 / fs1.csize) 2 := by rwa [hm.mount]
    have hcsect1 : fp.csect = fp.fptr / 512 % fs1.csize := by rwa [hm.mount]
    have hsize1 : fp.fsize ≤ fs1.room l := by rwa [hm.mount]
    have hl : ∀ c ∈ l, fs1.Cluster c := fun c hc => cluster_of_chain hch1 hc
    have hmem := (clusterOf_sectorOf hv1 hl hroom1).2
    obtain ⟨hsect, hne⟩ := clust2sect_eq hv1 (hcur1 ▸ hl _ hmem)
    have hat : clust2sect fs1 fp.currClust + fp.csect = fs1.sectorOf l (fp.fptr / 512) := by
      rw [hsect, hcur1, hcsect1, Mount.sectorOf]
    rw [if_neg hne, hat]
    by_cases hcc : b / 512 = 0
    · rw [if_pos hcc]
      -- a part of the sector
      have hAt : AtSector { fp with
          dsect := fs1.sectorOf l (fp.fptr / 512), csect := (fp.csect + 1) % 256 } fs1 l := by
        have hlt := Nat.mod_lt (fp.fptr / 512) hv1.csize_pos
        have hle := hv1.csize_le
        refine ⟨hch1, hcur1, ?_, rfl, hroom1, hsize1⟩
        dsimp only
        rw [hcsect1, Nat.mod_eq_of_lt (by omega)]
      have hsame : SameFile fp { fp with
          dsect := fs1.sectorOf l (fp.fptr / 512), csect := (fp.csect + 1) % 256 } :=
        ⟨rfl, rfl, rfl, rfl, rfl, rfl, rfl, rfl, rfl, rfl⟩
      unfold growWindow
      by_cases hend : fp.fsize ≤ fp.fptr
      · rw [if_pos hend]
        obtain ⟨hm2, hres2, -, hclean, hok2⟩ := moveWindow_spec hw1 (Or.inl rfl)
        generalize moveWindow 0 fs1 = r at hm2 hres2 hclean hok2
        obtain ⟨res, fs2⟩ := r
        rcases hres2 with hres2 | hres2
        · obtain rfl : res = .ok := hres2
          dsimp only at hm2 hclean ⊢
          have hAt2 : AtSector { fp with
              dsect := fs1.sectorOf l (fp.fptr / 512), csect := (fp.csect + 1) % 256 } fs2 l := by
            obtain ⟨h1, h2, h3, h4, h5, h6⟩ := hAt
            rw [← hm2.link] at h1
            rw [← hm2.mount] at h2 h3 h5 h6
            exact ⟨h1, h2, h3, by rw [hm2.mount], h5, h6⟩
          have hv2 : fs2.Valid := hm2.mount ▸ hv1
          obtain ⟨hfp, n, hmoved, hn, hnb, hfit, hst⟩ :=
            writePartial_grown buff hAt2 hm2.winOk hv2 hb (hclean rfl rfl).1 hq hend
          dsimp only at hfp hmoved hst
          generalize writePartial buff b _ _ = r at hfp hmoved hst ⊢
          obtain ⟨pass, fp2, fs3⟩ := r
          dsimp only at hfp hmoved hst ⊢
          subst hfp hmoved
          exact ⟨hsame, Or.inl ⟨n, rfl, hn, hnb, (hst.of_moved hm2 hv1).of_moved hm hv,
            hAt2.positioned hv2 hst hn hfit⟩, fun _ => by rintro ⟨⟩⟩
        · obtain rfl : res = .diskErr := hres2
          dsimp only at hm2 ⊢
          exact ⟨.refl fp, Or.inr ⟨rfl, (hm2.broken hv1).of_moved hm hv⟩,
            fun hr => by cases hok2 (hm.reliable hr)⟩
      · rw [if_neg hend]
        dsimp only
        obtain ⟨hfp, hres2, hok2⟩ := writePartial_spec buff hAt hw1 hv1 hb
        generalize writePartial buff b _ fs1 = r at hfp hres2 hok2 ⊢
        obtain ⟨pass, fp2, fs3⟩ := r
        dsimp only at hfp hres2 hok2 ⊢
        subst hfp
        rcases hres2 with ⟨n, rfl, hn, hnb, hfit, hst⟩ | ⟨habort, hm2⟩
        · exact ⟨hsame, Or.inl ⟨n, rfl, hn, hnb, hst.of_moved hm hv,
            hAt.positioned hv1 hst hn hfit⟩, fun _ => by rintro ⟨⟩⟩
        · exact ⟨hsame, Or.inr ⟨habort, (hm2.broken hv1).of_moved hm hv⟩,
            fun hr => hok2 (hm.reliable hr)⟩
    · rw [if_neg hcc]
      obtain ⟨hsame, hout, hok2⟩ :=
        writeDirect_spec buff hv1 hw1 hch1 hq hroom1 hcur1 hcsect1 hsize1 hcc
      refine ⟨hsame, ?_, fun hr => hok2 (hm.reliable hr)⟩
      rcases hout with ⟨n, hmoved, hn, hnb, hst, hpos⟩ | ⟨habort, hbr⟩
      · exact Or.inl ⟨n, hmoved, hn, hnb, hst.of_moved hm hv, hpos⟩
      · exact Or.inr ⟨habort, hbr.of_moved hm hv⟩
  · obtain rfl : res = .diskErr := hres
    exact ⟨.refl fp, Or.inr ⟨rfl, hm.broken hv⟩, fun hr => by cases hok hr⟩

theorem Positioned.atSector (h : Positioned fp fs l) (hne : fp.fptr % 512 ≠ 0) :
    AtSector fp fs l := by
  obtain ⟨hcur, hsect⟩ := h.cur (by omega)
  have hin := h.inside
  have hq : (fp.fptr - 1) / 512 = fp.fptr / 512 := by omega
  rw [hq] at hcur hsect
  have hroom : fp.fptr / 512 < l.length * fs.csize := by
    rw [Mount.room] at hin
    omega
  refine ⟨h.chain.resolve_left fun hand => ?_, hcur, hsect, h.dsect hne, hroom, h.size⟩
  rw [hand.2, List.length_nil, Nat.zero_mul] at hroom
  exact absurd hroom (Nat.not_lt_zero _)

theorem room_mono {v : Mount} (h : l <+: l') : v.room l ≤ v.room l' :=
  Nat.mul_le_mul_right _ (Nat.mul_le_mul_right _ h.length_le)

theorem Ready.grown' {l1 : List ℕ} (h : Ready fp fs l fp' fs' l1) : l <+: l1 := by
  rcases h.grown with rfl | ⟨c, -, rfl, -⟩
  · exact List.prefix_rfl
  · exact List.prefix_append _ _

theorem Ready.fresh {l1 : List ℕ} (h : Ready fp fs l fp' fs' l1) : ∀ d ∈ l1, d ∈ l ∨ Free fs d := by
  intro d hd
  rcases h.grown with rfl | ⟨c, hc, rfl, -⟩
  · exact Or.inl hd
  · exact (List.mem_append.mp hd).imp_right fun hd => by
      rw [List.mem_singleton.mp hd]
      exact hc

/-- A cluster more at the end does not move the bytes the file has. -/
theorem Ready.fileByte {l1 : List ℕ} (h : Ready fp fs l fp' fs' l1) (hv : fs.Valid) {p : ℕ}
    (hp : p < fs.room l) : Ff.fileByte fs' l1 p = Ff.fileByte fs l p := by
  rw [fileByte_congr h.frame.mount hv h.volume]
  obtain ⟨t, rfl⟩ := h.grown'
  rw [Ff.fileByte, Ff.fileByte, sectorOf_append]
  rw [Mount.room] at hp
  omega

theorem SameFile.mk' (h : SameFile fp fp') (n : ℕ) :
    SameFile { fp with fptr := fp.fptr + n } { fp' with fptr := fp.fptr + n } :=
  ⟨h.isOpen, h.id, h.read, h.write, h.written, h.error, rfl, h.fsize, h.dirSect, h.dirPtr⟩

/-- **One pass** of the loop of `f_write`. -/
theorem writePass_spec (buff : ℕ → Byte) (hp : Positioned fp fs l) (hb : 0 < b)
    (hnext : Reliable fs ∨ AtLast fp fs l) :
    let r := writePass buff b fp fs
    ((∃ n l', r.1 = .moved n ∧ 0 < n ∧ n ≤ b ∧
        Written buff fp fs l n { r.2.1 with fptr := r.2.1.fptr + n } r.2.2 l') ∨
      r.1 = .full ∧ r.2.1 = fp ∧ Moved fs r.2.2 ∧ (∀ d, ¬Free fs d) ∨
      (r.1 = .abort .intErr ∧ (∃ d, fs.Cluster d ∧ table fs d = 1) ∨ r.1 = .abort .diskErr) ∧
        Failed buff fp fs l 0 b r.2.1 r.2.2 l) ∧
      (Reliable fs → r.1 ≠ .abort .diskErr) := by
  have hv := hp.valid
  have hnil : ∀ fp', SameFile fp fp' → SameFile { fp with fptr := fp.fptr + 0 } fp' := fun _ h => h
  have hfill : ∀ p, fill (fileByte fs l) fp.fptr 0 buff p = fileByte fs l p := fun p =>
    fill_other _ (by omega)
  unfold writePass
  by_cases hq : fp.fptr % 512 = 0
  · rw [if_pos hq]
    obtain ⟨hout, hrel⟩ := enterCluster_spec hp hq hnext
    generalize enterCluster fp fs = r at hout hrel
    obtain ⟨pass, fp1, fs1⟩ := r
    dsimp only at hout hrel ⊢
    rcases hout with ⟨rfl, l1, hr⟩ | ⟨rfl, rfl, hm, hnone⟩ | ⟨habort, hsame, hframe, hvol, hwin⟩
    · dsimp only
      have hm1 := hr.frame.mount
      have hfp := hr.same.fptr
      have hsize1 : fp1.fsize ≤ fs1.room l1 := by
        rw [hm1, hr.same.fsize]
        exact hp.size.trans (room_mono hr.grown')
      obtain ⟨hsame, hres, hrel2⟩ := @writeSector_spec fp1 fs1 l1 b buff (hm1 ▸ hv) hr.winOk hr.chain
        (hfp ▸ hq) (by rw [hfp, hm1]; exact hr.room) (by rw [hfp, hm1]; exact hr.cur)
        (by rw [hfp, hm1]; exact hr.csect) hsize1 hb
      generalize writeSector buff b fp1 fs1 = r at hsame hres hrel2
      obtain ⟨pass, fp2, fs2⟩ := r
      dsimp only at hsame hres hrel2 ⊢
      have hsame2 := hr.same.trans hsame
      have hrel' : Reliable fs → Reliable fs1 := fun h i => by
        rw [hr.frame.served]
        exact h i
      refine ⟨?_, fun h => hrel2 (hrel' h)⟩
      rcases hres with ⟨n, rfl, hn, hnb, hst, hpos⟩ | ⟨rfl, hbr⟩
      · rw [hfp, hr.same.fsize] at hst
        rw [hfp] at hpos
        rw [hsame2.fptr]
        refine Or.inl ⟨n, l1, rfl, hn, hnb, hsame2.mk' n, hr.grown', hr.fresh, fun hroom => ?_, hpos,
          hr.frame.trans (hst.frame (hm1 ▸ hv)) hr.fresh, fun d hd hdl => ?_, fun p hpm => ?_⟩
        · rw [AtLast, hst.mount, hm1]
          dsimp only
          rcases hr.grown with rfl | ⟨c, -, rfl, heq⟩
          · omega
          · have hlen : fs.room (l ++ [c]) = fs.room l + 512 * fs.csize := by
              simp only [Mount.room, List.length_append, List.length_singleton]
              ring
            omega
        · rw [hst.table (hm1 ▸ hv) (hm1 ▸ hd), hr.others d hd hdl]
        · rw [hst.bytes p hpm]
          by_cases hin : fp.fptr ≤ p ∧ p < fp.fptr + n
          · rw [fill, fill, if_pos hin, if_pos hin]
          · rw [fill_other _ hin, fill_other _ hin]
            have hins := hp.inside
            have hsz := hp.size
            exact hr.fileByte hv (by omega)
      · refine Or.inr (Or.inr ⟨Or.inr rfl, hnil _ hsame2, List.prefix_rfl, fun d hd => Or.inl hd,
          hr.frame.trans (frame_of_volume (hm1 ▸ hv) hbr.mount hbr.served hbr.other) hr.fresh,
          fun p hpm hor => ?_, ?_⟩)
        · have hins := hp.inside
          have hsz := hp.size
          have hroom := room_mono (v := fs.toMount) hr.grown'
          have hkept := hbr.kept p (by rw [hm1]; omega) (by rw [hfp]; omega)
          rw [hfill]
          refine Eq.trans ?_ (hkept.trans (hr.fileByte hv (by omega)))
          obtain ⟨t, rfl⟩ := hr.grown'
          rw [fileByte, fileByte, sectorOf_append]
          rw [hbr.mount, hm1]
          have hpr : p < fs.room l := by omega
          rw [Mount.room] at hpr
          omega
        · have hwin := hbr.window
          rw [hm1] at hwin
          exact hwin.imp_right fun hand => ⟨hand.1, hand.2.1, hr.fresh _ hand.2.2⟩
    · exact ⟨Or.inr (Or.inl ⟨rfl, rfl, hm, hnone⟩), fun _ => by rintro ⟨⟩⟩
    · have hfail : Failed buff fp fs l 0 b fp1 fs1 l :=
        ⟨hnil _ hsame, List.prefix_rfl, fun d hd => Or.inl hd, hframe, fun p _ _ => by
          rw [hfill, fileByte_congr hframe.mount hv hvol], Or.inl hwin⟩
      rcases habort with ⟨rfl, hone⟩ | rfl
      · exact ⟨Or.inr (Or.inr ⟨Or.inl ⟨rfl, hone⟩, hfail⟩), hrel⟩
      · exact ⟨Or.inr (Or.inr ⟨Or.inr rfl, hfail⟩), hrel⟩
  · rw [if_neg hq]
    have hAt := hp.atSector hq
    obtain ⟨hfp, hres, hrel⟩ := writePartial_spec buff hAt hp.winOk hv hb
    generalize writePartial buff b fp fs = r at hfp hres hrel
    obtain ⟨pass, fp1, fs1⟩ := r
    dsimp only at hfp hres hrel ⊢
    subst hfp
    refine ⟨?_, hrel⟩
    rcases hres with ⟨n, rfl, hn, hnb, hfit, hst⟩ | ⟨rfl, hm⟩
    · refine Or.inl ⟨n, l, rfl, hn, hnb, SameFile.refl _, List.prefix_rfl, fun d hd => Or.inl hd,
        fun hroom => ?_, hAt.positioned hv hst hn hfit, hst.frame hv, fun d hd _ => hst.table hv hd,
        hst.bytes⟩
      rw [AtLast, hst.mount]
      dsimp only
      omega
    · refine Or.inr (Or.inr ⟨Or.inr rfl, hnil _ (.refl _), List.prefix_rfl, fun d hd => Or.inl hd,
        hm.frame, fun p _ _ => ?_, Or.inl hm.winOk⟩)
      rw [hfill, fileByte_congr hm.mount hv fun x _ => congrFun hm.volume x]

end Write

end VwiiNandTools.Ff
