import VwiiNandTools.Armboot.Storage.Ff.Sync

/-!
# Directories

`dir_seek`, `dir_next`, `dir_find` and `dir_register` of `storage/ff.c`, in the configuration without
long names.

A directory is a row of entries (`Mount.slotOf`): the root directory of a FAT12 or FAT16 volume lies
in front of the clusters, any other one in a chain.  A search passes the entries in their order, so
what it finds is the first of them (`dirFind_spec`).
-/

namespace VwiiNandTools.Ff

open ByteMemory Chains
open VwiiNandTools.Dump (FResult)

/-! ## The code -/

/-- Attributes, and further offsets in a directory entry. -/
def amRdo : Byte := 0x01#8
def amVol : Byte := 0x08#8
def amDir : Byte := 0x10#8
def amMask : Byte := 0x3F#8
def dirName : ℕ := 0
def dirNTres : ℕ := 12
def dirCrtTime : ℕ := 14

/-- `DIR`; `dir` is an offset in the window, or `NULL`, and `fn` the name that is looked for. -/
structure Dir where
  index : ℕ
  sclust : ℕ
  clust : ℕ
  sect : ℕ
  dir : Option ℕ
  fn : Mem

/-- `dj->dir` where it is not `NULL`. -/
def Dir.entry (dj : Dir) : ℕ := dj.dir.getD 0

/-- `Follow cluster chain` in `dir_seek`. -/
def seekLoop (ic : ℕ) : ℕ → ℕ → ℕ → Fatfs → FResult × ℕ × ℕ × Fatfs
  | 0, idx, clst, fs => (.ok, idx, clst, fs)
  | n + 1, idx, clst, fs =>
    if idx < ic then (.ok, idx, clst, fs)
    else
      let (clst, fs) := getCluster clst fs
      if clst = 0xFFFFFFFF then (.diskErr, idx, clst, fs)
      else if clst < 2 ∨ fs.maxClust ≤ clst then (.intErr, idx, clst, fs)
      else seekLoop ic n (idx - ic) clst fs

def dirSeek (idx : ℕ) (dj : Dir) (fs : Fatfs) : FResult × Dir × Fatfs :=
  let dj := { dj with index := idx }
  let clst := dj.sclust
  if clst = 1 ∨ fs.maxClust ≤ clst then (.intErr, dj, fs)
  else if clst = 0 then
    if fs.nRootdir ≤ idx then (.intErr, dj, fs)
    else (.ok, { dj with sect := fs.dirbase + idx / 16, dir := some (idx % 16 * 32) }, fs)
  else
    let ic := 16 * fs.csize
    match seekLoop ic (idx / ic + 1) idx clst fs with
    | (.ok, idx, clst, fs) =>
      let dj := { dj with clust := clst, sect := clust2sect fs clst + idx / 16 }
      (.ok, { dj with dir := some (idx % 16 * 32) }, fs)
    | (res, _, _, fs) => (res, dj, fs)

/-- `Fill the new cluster with 0`. -/
def clearLoop : ℕ → Fatfs → FResult × Fatfs
  | 0, fs => (.ok, fs)
  | n + 1, fs =>
    match moveWindow 0 { fs with wflag := true } with
    | (.ok, fs) => clearLoop n { fs with winsect := fs.winsect + 1 }
    | r => r

/-- `Streach cluster chain` and `Clean-up streached table`. -/
def streachTable (clust : ℕ) (fs : Fatfs) : FResult × ℕ × Fatfs :=
  let (clst, fs) := createChain clust fs
  if clst = 0 then (.denied, clst, fs)
  else if clst = 1 then (.intErr, clst, fs)
  else if clst = 0xFFFFFFFF then (.diskErr, clst, fs)
  else
    match moveWindow 0 fs with
    | (.ok, fs) =>
      let fs := { fs with win := fill fs.win 0 512 fun _ => 0#8, winsect := clust2sect fs clst }
      match clearLoop fs.csize fs with
      | (.ok, fs) => (.ok, clst, { fs with winsect := fs.winsect - fs.csize })
      | (_, fs) => (.diskErr, clst, fs)
    | (_, fs) => (.diskErr, clst, fs)

/-- `Cluster changed?` -/
def nextCluster (streach : Bool) (dj : Dir) (fs : Fatfs) : FResult × Dir × Fatfs :=
  let (clst, fs) := getCluster dj.clust fs
  if clst ≤ 1 then (.intErr, dj, fs)
  else if clst = 0xFFFFFFFF then (.diskErr, dj, fs)
  else if fs.maxClust ≤ clst then
    if !streach then (.noFile, dj, fs)
    else
      match streachTable dj.clust fs with
      | (.ok, clst, fs) => (.ok, { dj with clust := clst, sect := clust2sect fs clst }, fs)
      | (res, _, fs) => (res, dj, fs)
  else (.ok, { dj with clust := clst, sect := clust2sect fs clst }, fs)

/-- `Sector changed?` -/
def nextSector (streach : Bool) (i : ℕ) (dj : Dir) (fs : Fatfs) : FResult × Dir × Fatfs :=
  let dj := { dj with sect := dj.sect + 1 }
  if dj.sclust = 0 then
    if fs.nRootdir ≤ i then (.noFile, dj, fs) else (.ok, dj, fs)
  else if i / 16 &&& (fs.csize - 1) = 0 then nextCluster streach dj fs
  else (.ok, dj, fs)

def dirNext (streach : Bool) (dj : Dir) (fs : Fatfs) : FResult × Dir × Fatfs :=
  let i := (dj.index + 1) % 0x10000
  if i = 0 ∨ dj.sect = 0 then (.noFile, dj, fs)
  else
    match if i % 16 = 0 then nextSector streach i dj fs else (.ok, dj, fs) with
    | (.ok, dj, fs) => (.ok, { dj with index := i, dir := some (i % 16 * 32) }, fs)
    | r => r

/-- `Is it a valid entry?` -/
def isEntry (dj : Dir) (fs : Fatfs) : Bool :=
  let c := fs.win (dj.entry + dirName)
  let a := fs.win (dj.entry + dirAttr) &&& amMask
  c ≠ 0xE5#8 && c ≠ 0x2E#8 && a &&& amVol = 0#8 && bytes fs.win dj.entry 11 = bytes dj.fn 0 11

/-- The loop of `dir_find`; the index has 16 bits, so it ends. -/
def findLoop : ℕ → Dir → Fatfs → FResult × Dir × Fatfs
  | 0, dj, fs => (.noFile, dj, fs)
  | n + 1, dj, fs =>
    match moveWindow dj.sect fs with
    | (.ok, fs) =>
      if fs.win (dj.entry + dirName) = 0#8 then (.noFile, dj, fs)
      else if isEntry dj fs then (.ok, dj, fs)
      else
        match dirNext false dj fs with
        | (.ok, dj, fs) => findLoop n dj fs
        | r => r
    | (res, fs) => (res, dj, fs)

def dirFind (dj : Dir) (fs : Fatfs) : FResult × Dir × Fatfs :=
  match dirSeek 0 dj fs with
  | (.ok, dj, fs) => findLoop 0x10000 dj fs
  | r => r

/-- `Find a blank entry for the SFN`. -/
def blankLoop : ℕ → Dir → Fatfs → FResult × Dir × Fatfs
  | 0, dj, fs => (.noFile, dj, fs)
  | n + 1, dj, fs =>
    match moveWindow dj.sect fs with
    | (.ok, fs) =>
      let c := fs.win dj.entry
      if c = 0xE5#8 ∨ c = 0#8 then (.ok, dj, fs)
      else
        match dirNext true dj fs with
        | (.ok, dj, fs) => blankLoop n dj fs
        | r => r
    | (res, fs) => (res, dj, fs)

/-- `Initialize the SFN entry`. -/
def newEntry (dj : Dir) (win : Mem) : Mem :=
  let win := fill win dj.entry 32 fun _ => 0#8
  let win := fill win dj.entry 11 dj.fn
  set win (dj.entry + dirNTres) (dj.fn 11 &&& 0x18#8)

def dirRegister (dj : Dir) (fs : Fatfs) : FResult × Dir × Fatfs :=
  match dirSeek 0 dj fs with
  | (.ok, dj, fs) =>
    match blankLoop 0x10000 dj fs with
    | (.ok, dj, fs) =>
      match moveWindow dj.sect fs with
      | (.ok, fs) => (.ok, dj, { fs with win := newEntry dj fs.win, wflag := true })
      | (res, fs) => (res, dj, fs)
    | r => r
  | r => r

/-! ## Directories -/

/-- The number of entries of a directory with the clusters `l`, and that of the root directory of a
FAT12 or FAT16 volume, which has none. -/
def Mount.dirSize (v : Mount) (l : List ℕ) : ℕ :=
  if l = [] then v.nRootdir else 16 * v.csize * l.length

/-- The sector of entry `i`. -/
def Mount.dirSectOf (v : Mount) (l : List ℕ) (i : ℕ) : ℕ :=
  if l = [] then v.dirbase + i / 16 else v.sectorOf l (i / 16)

/-- The place of entry `i` in the volume. -/
def Mount.slotOf (v : Mount) (l : List ℕ) (i : ℕ) : ℕ := 512 * v.dirSectOf l i + i % 16 * 32

/-- The entries `i < 65536` that the index reaches. -/
def Mount.dirReach (v : Mount) (l : List ℕ) : ℕ := min (v.dirSize l) 0x10000

/-- What a boot record promises of the root directory. -/
structure Mount.RootValid (v : Mount) : Prop where
  fat32 : v.fsType = .fat32 → v.nRootdir = 0
  base : v.fsType ≠ .fat32 → v.dirbase = v.fatbase + v.nFats * v.sectsFat
  whole : v.nRootdir % 16 = 0
  database : v.dirbase + v.nRootdir / 16 ≤ v.database ∨ v.fsType = .fat32

/-- The directory that starts at `sclust` has the clusters `l`. -/
def Directory (fs : Fatfs) (sclust : ℕ) (l : List ℕ) : Prop :=
  sclust = 0 ∧ l = [] ∧ fs.fsType ≠ .fat32 ∧ 0 < fs.nRootdir ∨ Chain (link fs) sclust l

/-- The directory object is at entry `i`. -/
structure AtEntry (dj : Dir) (fs : Fatfs) (l : List ℕ) (i : ℕ) : Prop where
  index : dj.index = i
  sect : dj.sect = fs.dirSectOf l i
  dir : dj.dir = some (i % 16 * 32)
  clust : l ≠ [] → dj.clust = l.getD (i / 16 / fs.csize) 2

/-- The end mark, and an entry with a name. -/
def EndMark (m : Mem) (a : ℕ) : Prop := m a = 0#8

def Named (m : Mem) (a : ℕ) (fn : Mem) : Prop :=
  m a ≠ 0xE5#8 ∧ m a ≠ 0x2E#8 ∧ m (a + dirAttr) &&& amVol = 0#8 ∧ ∀ k < 11, m (a + k) = fn k

/-- An entry that is not in use. -/
def Blank (m : Mem) (a : ℕ) : Prop := m a = 0xE5#8 ∨ m a = 0#8

section Dir

variable {dj dj' : Dir} {fs fs' : Fatfs} {l : List ℕ} {c d i n sclust : ℕ} {streach : Bool}

/-! ## Entries -/

theorem Directory.cluster (h : Directory fs sclust l) : ∀ c ∈ l, fs.Cluster c := by
  intro c hc
  rcases h with ⟨-, rfl, -⟩ | h
  · cases hc
  · exact cluster_of_chain h hc

/-- The sectors of a directory are neither in front of the FAT nor in it. -/
theorem dirSectOf_plain (hv : fs.Valid) (hr : fs.RootValid) (hd : Directory fs sclust l)
    (hi : i < fs.dirSize l) :
    fs.Plain (fs.dirSectOf l i) ∧ fs.fatbase + fs.sectsFat ≤ fs.dirSectOf l i ∧
      (l ≠ [] → fs.database ≤ fs.dirSectOf l i) := by
  have hcopies : 1 * fs.sectsFat ≤ fs.nFats * fs.sectsFat := Nat.mul_le_mul_right _ hv.copies
  have hbehind := hv.behind
  have hinside := hv.inside
  rw [Mount.dirSize] at hi
  rw [Mount.dirSectOf]
  by_cases hl : l = []
  · rw [if_pos hl] at hi ⊢
    have hty : fs.fsType ≠ .fat32 := fun ht => by
      rw [hr.fat32 ht] at hi
      exact absurd hi (Nat.not_lt_zero i)
    have hbase := hr.base hty
    have hdata := hr.database.resolve_right hty
    exact ⟨⟨by omega, by omega, fun hc => by omega⟩, by omega, fun hne => absurd hl hne⟩
  · rw [if_neg hl] at hi ⊢
    have hq : i / 16 < l.length * fs.csize := by
      rw [Nat.mul_assoc, Nat.mul_comm fs.csize] at hi
      omega
    have hge := @sectorOf_ge fs.toMount l (i / 16)
    exact ⟨hv.plain_data hge (sectorOf_lt hv hd.cluster hq), by omega, fun _ => hge⟩

theorem dirSectOf_succ (h : (i + 1) % 16 = 0 → l ≠ [] → i / 16 % fs.csize + 1 < fs.csize) :
    fs.dirSectOf l (i + 1) = fs.dirSectOf l i + (if (i + 1) % 16 = 0 then 1 else 0) ∧
      (l ≠ [] → (i + 1) / 16 / fs.csize = i / 16 / fs.csize) := by
  by_cases h16 : (i + 1) % 16 = 0
  · have hdiv : (i + 1) / 16 = i / 16 + 1 := by omega
    rw [if_pos h16, Mount.dirSectOf, Mount.dirSectOf, hdiv]
    by_cases hl : l = []
    · rw [if_pos hl, if_pos hl]
      exact ⟨by omega, fun hne => absurd hl hne⟩
    · rw [if_neg hl, if_neg hl]
      have hin := h h16 hl
      exact ⟨sectorOf_add hin, fun _ => (cluster_inside (Nat.succ_pos _) hin).2⟩
  · have hdiv : (i + 1) / 16 = i / 16 := by omega
    rw [if_neg h16, Mount.dirSectOf, Mount.dirSectOf, hdiv]
    exact ⟨rfl, fun _ => rfl⟩

theorem and_csize (hv : fs.Valid) (q : ℕ) : q &&& (fs.csize - 1) = q % fs.csize := by
  obtain ⟨k, -, hk⟩ := hv.clusterSize
  rw [hk, Nat.and_two_pow_sub_one_eq_mod]

theorem nextCluster_next (hw : WinOk fs) (hv : fs.Valid) (hl : link fs dj.clust = .next d)
    (hd : fs.Cluster d) :
    let r := nextCluster streach dj fs
    Moved fs r.2.2 ∧
      (r.1 = .ok ∧ r.2.1 = { dj with clust := d, sect := fs.database + (d - 2) * fs.csize } ∨
        r.1 = .diskErr ∧ r.2.1 = dj) ∧ (Reliable fs → r.1 = .ok) := by
  obtain ⟨hc, htab, -, hlt⟩ := of_link_next hl
  obtain ⟨hm, hres, hok⟩ := getCluster_spec hw hv hc
  obtain ⟨h0, h1, hff⟩ := hd.not_special hv
  unfold nextCluster
  generalize getCluster dj.clust fs = r at hm hres hok
  obtain ⟨clst, fs1⟩ := r
  dsimp only at hm hres hok ⊢
  have hd1 : fs1.Cluster d := hm.mount ▸ hd
  have hsect := (clust2sect_eq (hm.mount ▸ hv) hd1).1
  rw [hm.mount] at hsect
  rcases hres with ⟨hval, -⟩ | herr
  · rw [htab] at hval
    subst hval
    rw [if_neg (by omega), if_neg hff, if_neg (by rw [hm.mount]; omega), hsect]
    exact ⟨hm, Or.inl ⟨rfl, rfl⟩, fun _ => rfl⟩
  · subst herr
    rw [if_neg (by decide), if_pos rfl]
    exact ⟨hm, Or.inr ⟨rfl, rfl⟩, fun hr => absurd ((hok hr).1.trans htab) (Ne.symm hff)⟩

theorem nextCluster_last (hw : WinOk fs) (hv : fs.Valid) (hl : link fs dj.clust = .last) :
    let r := nextCluster false dj fs
    Moved fs r.2.2 ∧ r.2.1 = dj ∧ (r.1 = .noFile ∨ r.1 = .diskErr) ∧
      (Reliable fs → r.1 = .noFile) := by
  obtain ⟨hc, htab⟩ := of_link_last hl
  obtain ⟨hm, hres, hok⟩ := getCluster_spec hw hv hc
  have h2 := hv.two
  have hbig := @table_lt fs dj.clust hv
  unfold nextCluster
  generalize getCluster dj.clust fs = r at hm hres hok
  obtain ⟨clst, fs1⟩ := r
  dsimp only at hm hres hok ⊢
  rcases hres with ⟨rfl, -⟩ | rfl
  · rw [if_neg (by omega), if_neg (by omega), if_pos (by rw [hm.mount]; exact htab)]
    exact ⟨hm, rfl, Or.inl rfl, fun _ => rfl⟩
  · rw [if_neg (by decide), if_pos rfl]
    exact ⟨hm, rfl, Or.inr rfl, fun hr => by have := (hok hr).1; omega⟩

/-! ## The next entry -/

/-- What moving on keeps. -/
structure SameDir (dj dj' : Dir) : Prop where
  sclust : dj'.sclust = dj.sclust
  fn : dj'.fn = dj.fn

/-- **The next entry** is found in the directory, in either mode. -/
theorem dirNext_inner (hw : WinOk fs) (hv : fs.Valid) (hr : fs.RootValid)
    (hd : Directory fs dj.sclust l) (ha : AtEntry dj fs l i) (hi : i + 1 < fs.dirReach l) :
    let r := dirNext streach dj fs
    Moved fs r.2.2 ∧ SameDir dj r.2.1 ∧
      (r.1 = .ok ∧ AtEntry r.2.1 fs l (i + 1) ∨ r.1 = .diskErr) ∧ (Reliable fs → r.1 = .ok) := by
  have hpos := hv.csize_pos
  rw [Mount.dirReach] at hi
  obtain ⟨-, hbase, -⟩ := dirSectOf_plain hv hr hd (show i < fs.dirSize l by omega)
  have h0 := hw.base.reserved
  obtain ⟨hindex, hsect, hdir, hclust⟩ := ha
  unfold dirNext
  rw [hindex, Nat.mod_eq_of_lt (by omega), if_neg (by omega)]
  by_cases h16 : (i + 1) % 16 = 0
  · rw [if_pos h16]
    unfold nextSector
    dsimp only
    by_cases hs : dj.sclust = 0
    · -- a static table
      have hl : l = [] := by
        rcases hd with ⟨-, hl, -⟩ | hch
        · exact hl
        · obtain ⟨t, rfl⟩ := hch.head
          have h2 := (cluster_of_chain hch (List.mem_cons_self ..)).1
          omega
      have hsz : i + 1 < fs.nRootdir := by
        have hlt : i + 1 < fs.dirSize l := by omega
        rwa [Mount.dirSize, if_pos hl] at hlt
      obtain ⟨hnext, -⟩ := @dirSectOf_succ fs l i fun _ hne => absurd hl hne
      rw [if_pos h16] at hnext
      rw [if_pos hs, if_neg (by omega)]
      exact ⟨.refl hw, ⟨rfl, rfl⟩, Or.inl ⟨rfl, rfl, by rw [hnext, ← hsect], rfl,
        fun hne => absurd hl hne⟩, fun _ => rfl⟩
    · have hch : Chain (link fs) dj.sclust l := hd.resolve_left fun hand => hs hand.1
      have hl := hch.ne_nil
      have hsz : (i + 1) / 16 < l.length * fs.csize := by
        have hlt : i + 1 < fs.dirSize l := by omega
        rw [Mount.dirSize, if_neg hl, Nat.mul_assoc, Nat.mul_comm fs.csize] at hlt
        omega
      have hdiv : (i + 1) / 16 = i / 16 + 1 := by omega
      rw [if_neg hs, and_csize hv]
      rcases Nat.lt_or_ge (i / 16 % fs.csize + 1) fs.csize with hin | hend
      · -- inside the cluster
        obtain ⟨hmod, -⟩ := cluster_inside (q := i / 16 + 1) (Nat.succ_pos _) hin
        obtain ⟨hnext, hclu⟩ := @dirSectOf_succ fs l i fun _ _ => hin
        rw [if_pos h16] at hnext
        rw [hdiv, if_neg (by rw [hmod]; exact Nat.succ_ne_zero _)]
        exact ⟨.refl hw, ⟨rfl, rfl⟩, Or.inl ⟨rfl, rfl, by rw [hnext, ← hsect], rfl,
          fun _ => by rw [hclu hl]; exact hclust hl⟩, fun _ => rfl⟩
      · obtain ⟨hmod, hdc, -⟩ := cluster_end hpos (Nat.succ_pos (i / 16)) hend
        rw [Nat.succ_eq_add_one, Nat.add_sub_cancel] at hdc
        rw [Nat.succ_eq_add_one] at hmod
        rw [hdiv, if_pos hmod]
        have hk : i / 16 / fs.csize + 1 < l.length := by
          rw [← hdc, ← hdiv]
          exact Nat.div_lt_of_lt_mul (by rwa [Nat.mul_comm])
        have hcur : dj.clust = l[i / 16 / fs.csize] := by
          rw [hclust hl, List.getD_eq_getElem _ _ (by omega)]
        have hcl := cluster_of_chain hch (List.getElem_mem hk)
        obtain ⟨hm, hres, hok⟩ := @nextCluster_next { dj with sect := dj.sect + 1 } fs
          l[i / 16 / fs.csize + 1] streach hw hv (by dsimp only; rw [hcur]; exact hch.next_eq hk) hcl
        generalize nextCluster streach { dj with sect := dj.sect + 1 } fs = r at hm hres hok
        obtain ⟨res, dj1, fs1⟩ := r
        dsimp only at hm hres hok ⊢
        rcases hres with ⟨rfl, rfl⟩ | ⟨rfl, rfl⟩
        · refine ⟨hm, ⟨rfl, rfl⟩, Or.inl ⟨rfl, rfl, ?_, rfl, fun _ => ?_⟩, fun _ => rfl⟩
          · dsimp only
            rw [Mount.dirSectOf, if_neg hl, Mount.sectorOf, hdiv, hdc, hmod,
              List.getD_eq_getElem _ _ hk]
            exact (Nat.add_zero _).symm
          · dsimp only
            rw [hdiv, hdc, List.getD_eq_getElem _ _ hk]
        · exact ⟨hm, ⟨rfl, rfl⟩, Or.inr rfl, fun hr => by cases hok hr⟩
  · rw [if_neg h16]
    obtain ⟨hnext, hclu⟩ := @dirSectOf_succ fs l i fun h => absurd h h16
    rw [if_neg h16] at hnext
    exact ⟨.refl hw, ⟨rfl, rfl⟩, Or.inl ⟨rfl, rfl, hsect.trans hnext.symm, rfl,
      fun hl => by rw [hclu hl]; exact hclust hl⟩, fun _ => rfl⟩

theorem last_entry (hpos : 0 < fs.csize) (hl : l ≠ []) (hi : i + 1 = fs.dirSize l) :
    (i + 1) % 16 = 0 ∧ (i + 1) / 16 % fs.csize = 0 ∧
      l.getD (i / 16 / fs.csize) 2 = l.getLast hl := by
  have hlen : 0 < l.length := List.length_pos_iff.mpr hl
  rw [Mount.dirSize, if_neg hl, Nat.mul_assoc] at hi
  have hq : (i + 1) / 16 = fs.csize * l.length := by
    rw [hi, Nat.mul_div_cancel_left _ (by decide)]
  have hlast : i / 16 / fs.csize = l.length - 1 := by
    have hdiv : (i + 1) / 16 = i / 16 + 1 := by omega
    have hlow : (l.length - 1) * fs.csize ≤ i / 16 := by
      have hmul : (l.length - 1 + 1) * fs.csize = fs.csize * l.length := by
        rw [Nat.sub_add_cancel hlen, Nat.mul_comm]
      rw [Nat.succ_mul] at hmul
      omega
    refine Nat.div_eq_of_lt_le hlow ?_
    rw [Nat.sub_add_cancel hlen, Nat.mul_comm]
    omega
  refine ⟨by rw [hi]; exact Nat.mul_mod_right _ _, by rw [hq]; exact Nat.mul_mod_right _ _, ?_⟩
  rw [hlast, List.getD_eq_getElem _ _ (by omega), List.getLast_eq_getElem]

theorem dirNext_end (hw : WinOk fs) (hv : fs.Valid) (hr : fs.RootValid)
    (hd : Directory fs dj.sclust l) (ha : AtEntry dj fs l i) (hi : i + 1 = fs.dirReach l)
    (hs : streach = false ∨ l = [] ∨ i + 1 = 0x10000) :
    let r := dirNext streach dj fs
    Moved fs r.2.2 ∧ SameDir dj r.2.1 ∧ (r.1 = .noFile ∨ r.1 = .diskErr) ∧
      (Reliable fs → r.1 = .noFile) := by
  have hpos := hv.csize_pos
  rw [Mount.dirReach] at hi
  obtain ⟨hindex, hsect, hdir, hclust⟩ := ha
  unfold dirNext
  rw [hindex]
  rcases Nat.eq_or_lt_of_le (show i + 1 ≤ 0x10000 by omega) with htop | htop
  · rw [htop, Nat.mod_self, if_pos (Or.inl rfl)]
    exact ⟨.refl hw, ⟨rfl, rfl⟩, Or.inl rfl, fun _ => rfl⟩
  · have hsz : i + 1 = fs.dirSize l := by omega
    have h16 : (i + 1) % 16 = 0 := by
      rw [hsz, Mount.dirSize]
      split
      · exact hr.whole
      · rw [Nat.mul_assoc]
        exact Nat.mul_mod_right _ _
    obtain ⟨-, hbase, -⟩ := dirSectOf_plain hv hr hd (show i < fs.dirSize l by omega)
    have h0 := hw.base.reserved
    rw [Nat.mod_eq_of_lt htop, if_neg (by omega), if_pos h16]
    unfold nextSector
    dsimp only
    rw [Mount.dirSize] at hsz
    by_cases hsc : dj.sclust = 0
    · have hl : l = [] := by
        rcases hd with ⟨-, hl, -⟩ | hch
        · exact hl
        · obtain ⟨t, rfl⟩ := hch.head
          have h2 := (cluster_of_chain hch (List.mem_cons_self ..)).1
          omega
      rw [if_pos hl] at hsz
      rw [if_pos hsc, if_pos (by omega)]
      exact ⟨.refl hw, ⟨rfl, rfl⟩, Or.inl rfl, fun _ => rfl⟩
    · have hch : Chain (link fs) dj.sclust l := hd.resolve_left fun hand => hsc hand.1
      have hl := hch.ne_nil
      obtain rfl : streach = false := hs.resolve_right fun hor => hor.elim hl (by omega)
      obtain ⟨-, hmod, hcur⟩ := last_entry hpos hl (by rw [Mount.dirSize]; exact hsz)
      rw [if_neg hsc, and_csize hv, if_pos hmod]
      rw [← hclust hl] at hcur
      obtain ⟨hm, hdj, hres, hok⟩ := @nextCluster_last { dj with sect := dj.sect + 1 } fs hw hv
        (by dsimp only; rw [hcur]; exact hch.last_eq)
      generalize nextCluster false { dj with sect := dj.sect + 1 } fs = r at hm hdj hres hok
      obtain ⟨res, dj1, fs1⟩ := r
      dsimp only at hm hdj hres hok ⊢
      subst hdj
      rcases hres with rfl | rfl
      · exact ⟨hm, ⟨rfl, rfl⟩, Or.inl rfl, fun _ => rfl⟩
      · exact ⟨hm, ⟨rfl, rfl⟩, Or.inr rfl, fun hr => by cases hok hr⟩

theorem dirSeek_zero (hv : fs.Valid) (hd : Directory fs dj.sclust l) :
    ∃ dj', dirSeek 0 dj fs = (.ok, dj', fs) ∧ SameDir dj dj' ∧ AtEntry dj' fs l 0 ∧
      0 < fs.dirReach l := by
  have hpos := hv.csize_pos
  have h2 := hv.two
  unfold dirSeek
  rcases hd with ⟨hs, rfl, -, hroot⟩ | hch
  · dsimp only
    rw [hs, if_neg (by omega), if_pos rfl, if_neg (by omega)]
    refine ⟨_, rfl, ⟨hs.symm, rfl⟩, ⟨rfl, rfl, rfl, fun h => absurd rfl h⟩, ?_⟩
    rw [Mount.dirReach, Mount.dirSize, if_pos rfl]
    omega
  · have hl := hch.ne_nil
    obtain ⟨t, ht⟩ := hch.head
    have hc := cluster_of_chain hch (ht ▸ List.mem_cons_self ..)
    obtain ⟨hc2, hcm⟩ := hc
    have hlen : 1 ≤ l.length := List.length_pos_iff.mpr hl
    dsimp only
    rw [if_neg (by omega), if_neg (by omega), Nat.zero_div, seekLoop, if_pos (by omega)]
    refine ⟨_, rfl, ⟨rfl, rfl⟩, ⟨rfl, ?_, rfl, fun _ => ?_⟩, ?_⟩
    · dsimp only
      rw [Mount.dirSectOf, if_neg hl, Mount.sectorOf, Nat.zero_div, Nat.zero_div, Nat.zero_mod, ht,
        (clust2sect_eq hv ⟨hc2, hcm⟩).1]
      rfl
    · dsimp only
      rw [Nat.zero_div, ht]
      rfl
    · have hmul : 16 * fs.csize * 1 ≤ 16 * fs.csize * l.length := Nat.mul_le_mul_left _ hlen
      rw [Mount.dirReach, Mount.dirSize, if_neg hl]
      omega

/-! ## The search -/

/-- An entry the search for `fn` passes. -/
def Passed (m : Mem) (a : ℕ) (fn : Mem) : Prop := ¬EndMark m a ∧ ¬Named m a fn

/-- Entry `i` is the first one with the name, and no end mark is in front of it. -/
structure Finds (fs : Fatfs) (l : List ℕ) (fn : Mem) (i : ℕ) : Prop where
  reach : i < fs.dirReach l
  named : Named (volume fs) (fs.slotOf l i) fn
  used : ¬EndMark (volume fs) (fs.slotOf l i)
  first : ∀ j < i, Passed (volume fs) (fs.slotOf l j) fn

/-- No entry in front of the end mark has the name. -/
def Absent (fs : Fatfs) (l : List ℕ) (fn : Mem) : Prop :=
  ∃ n ≤ fs.dirReach l, (∀ j < n, Passed (volume fs) (fs.slotOf l j) fn) ∧
    (n = fs.dirReach l ∨ EndMark (volume fs) (fs.slotOf l n))

/-- What a search of a directory returns. -/
structure Searched (fs : Fatfs) (dj : Dir) (l : List ℕ) (r : FResult × Dir × Fatfs) : Prop where
  moved : Moved fs r.2.2
  same : SameDir dj r.2.1
  result : (r.1 = .ok ∧ ∃ i, Finds fs l dj.fn i ∧ AtEntry r.2.1 fs l i ∧
      r.2.2.winsect = fs.dirSectOf l i) ∨ r.1 = .noFile ∧ Absent fs l dj.fn ∨ r.1 = .diskErr
  reliable : Reliable fs → r.1 ≠ .diskErr

theorem Moved.directory (h : Moved fs fs') (hd : Directory fs sclust l) : Directory fs' sclust l := by
  rw [Directory, h.link, h.mount]
  exact hd

theorem AtEntry.of_moved (h : Moved fs fs') (ha : AtEntry dj fs' l i) : AtEntry dj fs l i := by
  obtain ⟨h1, h2, h3, h4⟩ := ha
  rw [h.mount] at h2 h4
  exact ⟨h1, h2, h3, h4⟩

theorem AtEntry.moved (h : Moved fs fs') (ha : AtEntry dj fs l i) : AtEntry dj fs' l i := by
  obtain ⟨h1, h2, h3, h4⟩ := ha
  rw [← h.mount] at h2 h4
  exact ⟨h1, h2, h3, h4⟩

theorem Searched.of_moved {r : FResult × Dir × Fatfs} (hm : Moved fs fs') (hs : SameDir dj dj')
    (h : Searched fs' dj' l r) : Searched fs dj l r := by
  obtain ⟨hmoved, hsame, hres, hrel⟩ := h
  refine ⟨hm.trans hmoved, ⟨hsame.sclust.trans hs.sclust, hsame.fn.trans hs.fn⟩, ?_, fun hr =>
    hrel (hm.reliable hr)⟩
  rcases hres with ⟨hok, i, ⟨h1, h2, h3, h4⟩, ha, hsect⟩ | ⟨hno, n, hn, hp, hend⟩ | herr
  · rw [hm.volume, hm.mount] at h2 h3 h4
    rw [hm.mount] at h1 hsect
    rw [hs.fn] at h2 h4
    exact Or.inl ⟨hok, i, ⟨h1, h2, h3, h4⟩, ha.of_moved hm, hsect⟩
  · rw [hm.volume, hm.mount] at hp hend
    rw [hm.mount] at hn
    rw [hs.fn] at hp
    exact Or.inr (Or.inl ⟨hno, n, hn, hp, hend⟩)
  · exact Or.inr (Or.inr herr)

theorem entry_win (hw : WinOk fs) (h0 : fs.winsect ≠ 0) (hs : fs.winsect = fs.dirSectOf l i) {k : ℕ}
    (hk : k < 32) : fs.win (i % 16 * 32 + k) = volume fs (fs.slotOf l i + k) := by
  rw [win_eq hw h0 (by omega), hs, Mount.slotOf, Nat.add_assoc]

theorem isEntry_iff (hw : WinOk fs) (h0 : fs.winsect ≠ 0) (hs : fs.winsect = fs.dirSectOf l i)
    (ha : AtEntry dj fs l i) :
    isEntry dj fs = true ↔ Named (volume fs) (fs.slotOf l i) dj.fn := by
  have he : dj.entry = i % 16 * 32 := by rw [Dir.entry, ha.dir, Option.getD_some]
  have hname : fs.win (i % 16 * 32) = volume fs (fs.slotOf l i) :=
    entry_win hw h0 hs (k := 0) (by decide)
  have hattr : fs.win (i % 16 * 32 + dirAttr) = volume fs (fs.slotOf l i + dirAttr) :=
    entry_win hw h0 hs (by decide)
  have hmask : ∀ a : Byte, (a &&& amMask) &&& amVol = a &&& amVol := by decide +kernel
  have hbytes : bytes fs.win (i % 16 * 32) 11 = bytes dj.fn 0 11 ↔
      ∀ k < 11, volume fs (fs.slotOf l i + k) = dj.fn k := by
    rw [bytes, bytes, List.map_inj_left]
    simp only [List.mem_range, Nat.zero_add]
    exact forall₂_congr fun k hk => by rw [entry_win hw h0 hs (by omega)]
  simp only [isEntry, he, dirName, Nat.add_zero, hname, hattr, hmask, Bool.and_eq_true,
    decide_eq_true_eq, hbytes, Named, and_assoc]

theorem findLoop_spec (hw : WinOk fs) (hv : fs.Valid) (hr : fs.RootValid)
    (hd : Directory fs dj.sclust l) (ha : AtEntry dj fs l i) (hi : i < fs.dirReach l)
    (hn : fs.dirReach l ≤ i + n) (hp : ∀ j < i, Passed (volume fs) (fs.slotOf l j) dj.fn) :
    Searched fs dj l (findLoop n dj fs) := by
  induction n generalizing i dj fs with
  | zero => exact absurd hn (not_le.mpr hi)
  | succ n ih =>
    have hplain := (dirSectOf_plain hv hr hd (lt_of_lt_of_le hi (Nat.min_le_left _ _))).1
    obtain ⟨hm, hres, hat, -, hok⟩ := moveWindow_spec hw (Or.inr hplain)
    have h0 : fs.dirSectOf l i ≠ 0 := fun h0 => hw.not_plain_zero (h0 ▸ hplain)
    rw [findLoop, ha.sect]
    generalize moveWindow (fs.dirSectOf l i) fs = q at hm hres hat hok
    obtain ⟨res, fs1⟩ := q
    dsimp only at hm hres hat hok ⊢
    rcases hres with rfl | rfl
    · have hs : fs1.winsect = fs1.dirSectOf l i := by rw [hat rfl h0, hm.mount]
      have hs0 : fs1.winsect ≠ 0 := (hat rfl h0).trans_ne h0
      have ha1 := ha.moved hm
      have hname : fs1.win (dj.entry + dirName) = volume fs (fs.slotOf l i) := by
        have hbyte := entry_win hm.winOk hs0 hs (k := 0) (by decide)
        rw [hm.volume, hm.mount] at hbyte
        rw [Dir.entry, ha.dir]
        exact hbyte
      have hentry := isEntry_iff hm.winOk hs0 hs ha1
      rw [hm.volume, hm.mount] at hentry
      dsimp only
      rw [hname]
      by_cases hend : volume fs (fs.slotOf l i) = 0#8
      · rw [if_pos hend]
        exact ⟨hm, ⟨rfl, rfl⟩, Or.inr (Or.inl ⟨rfl, i, hi.le, hp, Or.inr hend⟩), fun _ => by rintro ⟨⟩⟩
      · rw [if_neg hend]
        by_cases hnamed : Named (volume fs) (fs.slotOf l i) dj.fn
        · rw [if_pos (hentry.mpr hnamed)]
          exact ⟨hm, ⟨rfl, rfl⟩, Or.inl ⟨rfl, i, ⟨hi, hnamed, hend, hp⟩, ha, hat rfl h0⟩,
            fun _ => by rintro ⟨⟩⟩
        · rw [if_neg (hentry.not.mpr hnamed)]
          have hp' : ∀ j < i + 1, Passed (volume fs) (fs.slotOf l j) dj.fn := fun j hj =>
            (Nat.lt_succ_iff_lt_or_eq.mp hj).elim (hp j) fun heq => heq ▸ ⟨hend, hnamed⟩
          have hd1 := hm.directory hd
          rcases Nat.eq_or_lt_of_le (Nat.succ_le_of_lt hi) with hlast | hnext
          · obtain ⟨hm2, hsame, hres2, hok2⟩ := @dirNext_end dj fs1 l i false hm.winOk
              (hm.mount ▸ hv) (hm.mount ▸ hr) hd1 ha1 (by rw [hm.mount]; exact hlast) (Or.inl rfl)
            generalize dirNext false dj fs1 = q at hm2 hsame hres2 hok2
            obtain ⟨res, dj2, fs2⟩ := q
            dsimp only at hm2 hsame hres2 hok2 ⊢
            rcases hres2 with rfl | rfl
            · exact ⟨hm.trans hm2, hsame, Or.inr (Or.inl ⟨rfl, i + 1, hlast.le, hp', Or.inl hlast⟩),
                fun _ => by rintro ⟨⟩⟩
            · exact ⟨hm.trans hm2, hsame, Or.inr (Or.inr rfl),
                fun hr => by cases hok2 (hm.reliable hr)⟩
          · obtain ⟨hm2, hsame, hres2, hok2⟩ := @dirNext_inner dj fs1 l i false hm.winOk
              (hm.mount ▸ hv) (hm.mount ▸ hr) hd1 ha1 (by rw [hm.mount]; exact hnext)
            generalize dirNext false dj fs1 = q at hm2 hsame hres2 hok2
            obtain ⟨res, dj2, fs2⟩ := q
            dsimp only at hm2 hsame hres2 hok2 ⊢
            have hm' := hm.trans hm2
            rcases hres2 with ⟨rfl, ha2⟩ | rfl
            · refine (ih hm2.winOk (hm'.mount ▸ hv) (hm'.mount ▸ hr) ?_ (ha2.moved hm2) ?_ ?_
                fun j hj => ?_).of_moved hm' hsame
              · rw [hsame.sclust]
                exact hm'.directory hd
              · rw [hm'.mount]
                exact hnext
              · rw [hm'.mount]
                omega
              · rw [hm'.volume, hm'.mount, hsame.fn]
                exact hp' j hj
            · exact ⟨hm', hsame, Or.inr (Or.inr rfl), fun hr => by cases hok2 (hm.reliable hr)⟩
    · exact ⟨hm, ⟨rfl, rfl⟩, Or.inr (Or.inr rfl), fun hr => by cases hok hr⟩

/-- **`dir_find`** finds the first entry with the name, or that there is none. -/
theorem dirFind_spec (hw : WinOk fs) (hv : fs.Valid) (hr : fs.RootValid)
    (hd : Directory fs dj.sclust l) : Searched fs dj l (dirFind dj fs) := by
  obtain ⟨dj1, hseek, hsame, ha, hpos⟩ := dirSeek_zero hv hd
  rw [dirFind, hseek]
  refine (findLoop_spec hw hv hr (hsame.sclust ▸ hd) ha hpos ?_ fun j hj =>
    absurd hj (Nat.not_lt_zero j)).of_moved (.refl hw) hsame
  rw [Nat.zero_add]
  exact Nat.min_le_right _ _

end Dir

end VwiiNandTools.Ff
