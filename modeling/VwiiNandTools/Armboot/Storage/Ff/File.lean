import VwiiNandTools.Armboot.Storage.Ff.Chain

/-!
# Files

The file object of FatFs and `f_write`, `f_sync` and `f_close` of `storage/ff.c`.

The bytes of a file are those of its clusters in the order of the chain (`fileByte`).  `Frame` says
what a call for one file leaves alone: the entries and the sectors of every cluster that is neither
its own nor free, and everything in front of the clusters but the FAT.
-/

namespace VwiiNandTools.Ff

open ByteMemory Chains
open VwiiNandTools.Dump (FResult)

/-! ## The code -/

/-- `FIL`, without a buffer of its own; `open` is `fs != NULL`, and `dir_ptr` an offset in the
window. -/
structure Fil where
  isOpen : Bool
  id : BitVec 16
  read : Bool
  write : Bool
  written : Bool
  error : Bool
  csect : ℕ
  fptr : ℕ
  fsize : ℕ
  orgClust : ℕ
  currClust : ℕ
  dsect : ℕ
  dirSect : ℕ
  dirPtr : ℕ

/-- `disk_status` never answers `STA_NOINIT`. -/
def validate (fp : Fil) (fs : Fatfs) : FResult :=
  if !fp.isOpen ∨ fs.fsType = .unmounted ∨ fs.id ≠ fp.id then .invalidObject else .ok

/-- How a pass of the loop of `f_write` ends: `n` bytes are moved, the disk is full, or `ABORT`. -/
inductive Pass
  | moved (n : ℕ)
  | full
  | abort (res : FResult)
  deriving DecidableEq

/-- `Follow or streach cluster chain`. -/
def writeCluster (fp : Fil) (fs : Fatfs) : ℕ × Fil × Fatfs :=
  if fp.fptr = 0 then
    if fp.orgClust = 0 then
      let (clst, fs) := createChain 0 fs
      (clst, { fp with orgClust := clst }, fs)
    else (fp.orgClust, fp, fs)
  else
    let (clst, fs) := createChain fp.currClust fs
    (clst, fp, fs)

/-- `On the cluster boundary?` -/
def enterCluster (fp : Fil) (fs : Fatfs) : Pass × Fil × Fatfs :=
  if fs.csize ≤ fp.csect then
    let (clst, fp, fs) := writeCluster fp fs
    if clst = 0 then (.full, fp, fs)
    else if clst = 1 then (.abort .intErr, fp, fs)
    else if clst = 0xFFFFFFFF then (.abort .diskErr, fp, fs)
    else (.moved 0, { fp with currClust := clst, csect := 0 }, fs)
  else (.moved 0, fp, fs)

/-- `Write maximum contiguous sectors directly`. -/
def writeDirect (buff : ℕ → Byte) (btw sect : ℕ) (fp : Fil) (fs : Fatfs) : Pass × Fil × Fatfs :=
  let cc := btw / 512
  let cc := if fs.csize < fp.csect + cc then fs.csize - fp.csect else cc
  match diskWrite buff sect (cc % 256) fs.drive with
  | (.error, drive) => (.abort .diskErr, fp, { fs with drive := drive })
  | (.ok, drive) =>
    let fs := { fs with drive := drive }
    let away := (fs.winsect + 0x100000000 - sect) % 0x100000000
    -- the window is refilled when it is on one of the sectors
    let fs := if away < cc then
        { fs with win := fill fs.win 0 512 fun k => buff (away * 512 + k), wflag := false }
      else fs
    (.moved (512 * cc), { fp with csect := (fp.csect + cc) % 256 }, fs)

/-- `Fit partial sector`. -/
def writePartial (buff : ℕ → Byte) (btw : ℕ) (fp : Fil) (fs : Fatfs) : Pass × Fil × Fatfs :=
  let wcnt := 512 - fp.fptr % 512
  let wcnt := if btw < wcnt then btw else wcnt
  match moveWindow fp.dsect fs with
  | (.ok, fs) => (.moved wcnt, fp, poke fs (fp.fptr % 512) wcnt buff)
  | (_, fs) => (.abort .diskErr, fp, fs)

/-- `Avoid silly buffer filling at growing edge`. -/
def growWindow (sect : ℕ) (fp : Fil) (fs : Fatfs) : FResult × Fatfs :=
  if fp.fsize ≤ fp.fptr then
    match moveWindow 0 fs with
    | (.ok, fs) => (.ok, { fs with winsect := sect })
    | (res, fs) => (res, fs)
  else (.ok, fs)

/-- What a pass does on a sector boundary when the cluster is known. -/
def writeSector (buff : ℕ → Byte) (btw : ℕ) (fp : Fil) (fs : Fatfs) : Pass × Fil × Fatfs :=
  match if fs.winsect = fp.dsect then moveWindow 0 fs else (.ok, fs) with
  | (.ok, fs) =>
    let sect := clust2sect fs fp.currClust
    if sect = 0 then (.abort .intErr, fp, fs)
    else
      let sect := sect + fp.csect
      if btw / 512 = 0 then
        match growWindow sect fp fs with
        | (.ok, fs) =>
          writePartial buff btw { fp with dsect := sect, csect := (fp.csect + 1) % 256 } fs
        | (_, fs) => (.abort .diskErr, fp, fs)
      else writeDirect buff btw sect fp fs
  | (_, fs) => (.abort .diskErr, fp, fs)

/-- One pass of the loop. -/
def writePass (buff : ℕ → Byte) (btw : ℕ) (fp : Fil) (fs : Fatfs) : Pass × Fil × Fatfs :=
  if fp.fptr % 512 = 0 then
    match enterCluster fp fs with
    | (.moved _, fp, fs) => writeSector buff btw fp fs
    | r => r
  else writePartial buff btw fp fs

/-- The loop of `f_write`, and the number of bytes written.  Every pass moves a byte, so `btw`
passes are enough. -/
def writeLoop : ℕ → (ℕ → Byte) → ℕ → ℕ → Fil → Fatfs → FResult × ℕ × Fil × Fatfs
  | 0, _, _, bw, fp, fs => (.ok, bw, fp, fs)
  | n + 1, buff, btw, bw, fp, fs =>
    if btw = 0 then (.ok, bw, fp, fs)
    else
      match writePass buff btw fp fs with
      | (.moved k, fp, fs) =>
        writeLoop n (fun x => buff (k + x)) (btw - k) (bw + k) { fp with fptr := fp.fptr + k } fs
      | (.full, fp, fs) => (.ok, bw, fp, fs)
      | (.abort res, fp, fs) => (res, bw, { fp with error := true }, fs)

def fWrite (buff : ℕ → Byte) (btw : ℕ) (fp : Fil) (fs : Fatfs) : FResult × ℕ × Fil × Fatfs :=
  if validate fp fs = .ok then
    if fp.error then (.intErr, 0, fp, fs)
    else if !fp.write then (.denied, 0, fp, fs)
    else
      let btw := if (fp.fsize + btw) % 0x100000000 < fp.fsize then 0 else btw
      let (res, bw, fp, fs) := writeLoop btw buff btw 0 fp fs
      if res = .ok then
        (.ok, bw, { fp with fsize := max fp.fsize fp.fptr, written := true }, fs)
      else (res, bw, fp, fs)
  else (validate fp fs, 0, fp, fs)

/-- `AM_ARC`, and the offsets in a directory entry. -/
def amArc : Byte := 0x20#8
def dirAttr : ℕ := 11
def dirFstClusHI : ℕ := 20
def dirWrtTime : ℕ := 22
def dirFstClusLO : ℕ := 26
def dirFileSize : ℕ := 28

/-- The stores of `f_sync` into the directory entry at `dir`; `get_fattime` returns 0. -/
def putDirEntry (fp : Fil) (win : Mem) : Mem :=
  let dir := fp.dirPtr
  let win := set win (dir + dirAttr) (win (dir + dirAttr) ||| amArc)
  let win := putLe win (dir + dirFileSize) 4 fp.fsize
  let win := putLe win (dir + dirFstClusLO) 2 fp.orgClust
  let win := putLe win (dir + dirFstClusHI) 2 (fp.orgClust / 0x10000)
  putLe win (dir + dirWrtTime) 4 0

def fSync (fp : Fil) (fs : Fatfs) : FResult × Fil × Fatfs :=
  if validate fp fs = .ok then
    if fp.written then
      match moveWindow fp.dirSect fs with
      | (.ok, fs) =>
        let (res, fs) := sync { fs with win := putDirEntry fp fs.win, wflag := true }
        (res, { fp with written := false }, fs)
      | (res, fs) => (res, fp, fs)
    else (.ok, fp, fs)
  else (validate fp fs, fp, fs)

def fClose (fp : Fil) (fs : Fatfs) : FResult × Fil × Fatfs :=
  let (res, fp, fs) := fSync fp fs
  if res = .ok then (.ok, { fp with isOpen := false }, fs) else (res, fp, fs)

/-! ## Sectors and clusters -/

/-- The cluster a sector behind `database` is in. -/
def Mount.clusterOf (v : Mount) (s : ℕ) : ℕ := (s - v.database) / v.csize + 2

/-- Sector `q` of the file that has the clusters `l`. -/
def Mount.sectorOf (v : Mount) (l : List ℕ) (q : ℕ) : ℕ :=
  v.database + (l.getD (q / v.csize) 2 - 2) * v.csize + q % v.csize

/-- Byte `p` of the file. -/
def fileByte (fs : Fatfs) (l : List ℕ) (p : ℕ) : Byte :=
  volume fs (512 * fs.sectorOf l (p / 512) + p % 512)

/-- The bytes that the clusters of a file hold. -/
def Mount.room (v : Mount) (l : List ℕ) : ℕ := l.length * v.csize * 512

/-- What a call for the file with the clusters `l` leaves alone. -/
structure Frame (fs fs' : Fatfs) (l : List ℕ) : Prop where
  mount : fs'.toMount = fs.toMount
  served : fs'.drive.served = fs.drive.served
  table : ∀ d < fs.maxClust, d ∉ l → ¬Free fs d → table fs' d = table fs d
  front : ∀ x, x / 512 < fs.database → ¬fs.InFat x → volume fs' x = volume fs x
  data : ∀ x, fs.database ≤ x / 512 → fs.clusterOf (x / 512) ∉ l →
    ¬Free fs (fs.clusterOf (x / 512)) → volume fs' x = volume fs x

section File

variable {fs fs' fs'' : Fatfs} {v : Mount} {l l' S : List ℕ} {c d r p q q' s n : ℕ}

theorem Mount.Valid.csize_pos (hv : v.Valid) : 0 < v.csize := by
  obtain ⟨k, -, hk⟩ := hv.clusterSize
  rw [hk]
  exact Nat.two_pow_pos k

theorem Mount.Valid.csize_le (hv : v.Valid) : v.csize ≤ 128 := by
  obtain ⟨k, hk, heq⟩ := hv.clusterSize
  rw [heq]
  exact Nat.pow_le_pow_right (by decide) hk

theorem Mount.Valid.plain_data (hv : v.Valid) (hs : v.database ≤ s) (hlt : s < 0x100000000) :
    v.Plain s := by
  have hb := hv.behind
  exact ⟨by omega, hlt, fun hc => by omega⟩

theorem Mount.Valid.not_inFat (hv : v.Valid) {x : ℕ} (hx : v.database ≤ x / 512) : ¬v.InFat x := by
  have hb := hv.behind
  have hcopies : 1 * v.sectsFat ≤ v.nFats * v.sectsFat := Nat.mul_le_mul_right _ hv.copies
  exact fun hin => by
    have := hin.2
    omega

/-- `clust2sect` of a cluster does not wrap. -/
theorem clust2sect_eq (hv : fs.Valid) (hc : fs.Cluster c) :
    clust2sect fs c = fs.database + (c - 2) * fs.csize ∧ clust2sect fs c ≠ 0 := by
  obtain ⟨h2, hm⟩ := hc
  have hlim : fs.maxClust ≤ 0x0FFFFFF7 := hv.clusters.trans (by cases fs.fsType <;> decide)
  have hb := hv.behind
  have hres := hv.reserved
  have hwrap : (c + 0xFFFFFFFE) % 0x100000000 = c - 2 := by omega
  have heq : clust2sect fs c = (c - 2) * fs.csize + fs.database := by
    rw [clust2sect, hwrap, if_neg (by omega)]
  rw [heq]
  exact ⟨Nat.add_comm _ _, by omega⟩

theorem sectorOf_ge : v.database ≤ v.sectorOf l q := by
  rw [Mount.sectorOf, Nat.add_assoc]
  exact Nat.le_add_right _ _

theorem clusterOf_sectorOf (hv : v.Valid) (hl : ∀ c ∈ l, v.Cluster c) (hq : q < l.length * v.csize) :
    v.clusterOf (v.sectorOf l q) = l.getD (q / v.csize) 2 ∧ l.getD (q / v.csize) 2 ∈ l := by
  have hi : q / v.csize < l.length := Nat.div_lt_of_lt_mul (by rwa [Nat.mul_comm])
  have hmem : l.getD (q / v.csize) 2 ∈ l := by
    rw [List.getD_eq_getElem _ _ hi]
    exact List.getElem_mem hi
  have h2 := (hl _ hmem).1
  have hpos := hv.csize_pos
  refine ⟨?_, hmem⟩
  rw [Mount.clusterOf, Mount.sectorOf,
    show v.database + (l.getD (q / v.csize) 2 - 2) * v.csize + q % v.csize - v.database =
      q % v.csize + (l.getD (q / v.csize) 2 - 2) * v.csize by omega,
    Nat.add_mul_div_right _ _ hpos, Nat.div_eq_of_lt (Nat.mod_lt _ hpos)]
  omega

theorem sectorOf_injective (hv : v.Valid) (hl : ∀ c ∈ l, v.Cluster c) (hnd : l.Nodup)
    (hq : q < l.length * v.csize) (hq' : q' < l.length * v.csize)
    (h : v.sectorOf l q = v.sectorOf l q') : q = q' := by
  have hi : q / v.csize < l.length := Nat.div_lt_of_lt_mul (by rwa [Nat.mul_comm])
  have hi' : q' / v.csize < l.length := Nat.div_lt_of_lt_mul (by rwa [Nat.mul_comm])
  have hclu : l.getD (q / v.csize) 2 = l.getD (q' / v.csize) 2 := by
    rw [← (clusterOf_sectorOf hv hl hq).1, h, (clusterOf_sectorOf hv hl hq').1]
  have hdiv : q / v.csize = q' / v.csize := by
    rw [List.getD_eq_getElem _ _ hi, List.getD_eq_getElem _ _ hi'] at hclu
    exact (hnd.getElem_inj_iff).mp hclu
  rw [Mount.sectorOf, Mount.sectorOf, hdiv] at h
  have hmod : q % v.csize = q' % v.csize := by omega
  rw [← Nat.div_add_mod q v.csize, hdiv, hmod, Nat.div_add_mod]

theorem sectorOf_append (hq : q < l.length * v.csize) : v.sectorOf (l ++ l') q = v.sectorOf l q := by
  have hi : q / v.csize < l.length := Nat.div_lt_of_lt_mul (by rwa [Nat.mul_comm])
  rw [Mount.sectorOf, Mount.sectorOf, List.getD_append _ _ _ _ hi]

theorem table_congr (hv : fs.Valid) (hm : fs'.toMount = fs.toMount)
    (hvol : ∀ x, fs.InFat x → volume fs' x = volume fs x) (hc : c < fs.maxClust) :
    table fs' c = table fs c := by
  have hin := fun {b} => @Mount.Valid.inFat fs.toMount b hv
  rw [table, table, hm, Mount.table, Mount.table]
  cases ht : fs.fsType with
  | unmounted => rfl
  | fat12 =>
    rw [ht] at hin
    simp only [FsType.tableBytes] at hin
    refine entry12_congr fun x h1 h2 => ?_
    have hx := @hin (x - 512 * fs.fatbase) (by omega)
    rw [Nat.add_sub_cancel' (by omega)] at hx
    exact hvol x hx
  | fat16 =>
    rw [ht] at hin
    simp only [FsType.tableBytes] at hin
    refine le_congr fun x h1 h2 => ?_
    have hx := @hin (x - 512 * fs.fatbase) (by omega)
    rw [Nat.add_sub_cancel' (by omega)] at hx
    exact hvol x hx
  | fat32 =>
    rw [ht] at hin
    simp only [FsType.tableBytes] at hin
    have hle : le (volume fs') (512 * fs.fatbase + 4 * c) 4 =
        le (volume fs) (512 * fs.fatbase + 4 * c) 4 := by
      refine le_congr fun x h1 h2 => ?_
      have hx := @hin (x - 512 * fs.fatbase) (by omega)
      rw [Nat.add_sub_cancel' (by omega)] at hx
      exact hvol x hx
    dsimp only
    rw [hle]

/-! ## Frames -/

theorem Moved.frame (h : Moved fs fs') : Frame fs fs' l :=
  ⟨h.mount, h.served, fun d _ _ _ => congrFun h.table d, fun x _ _ => congrFun h.volume x,
    fun x _ _ _ => congrFun h.volume x⟩

theorem Frame.refl : Frame fs fs l :=
  ⟨rfl, rfl, fun _ _ _ _ => rfl, fun _ _ _ => rfl, fun _ _ _ _ => rfl⟩

theorem FatChanged.toFrame (h : FatChanged fs fs' S) (hv : fs.Valid)
    (hS : ∀ d ∈ S, d ∈ l ∨ Free fs d) : Frame fs fs' l := by
  refine ⟨h.mount, h.served, fun d hd hdl hfree => ?_, fun x _ hx => h.frame x hx,
    fun x hx _ _ => h.frame x (hv.not_inFat hx)⟩
  exact h.others d hd fun hdS => (hS d hdS).elim hdl hfree

theorem Frame.trans (h : Frame fs fs' l) (h' : Frame fs' fs'' l')
    (hl : ∀ d ∈ l', d ∈ l ∨ Free fs d) : Frame fs fs'' l := by
  have hout : ∀ d, d ∉ l → ¬Free fs d → d ∉ l' ∧ ¬Free fs' d := by
    refine fun d hdl hfree => ⟨fun hd => (hl d hd).elim hdl hfree, fun hfree' => hfree ?_⟩
    have hc : fs.Cluster d := h.mount ▸ hfree'.1
    exact ⟨hc, (h.table d hc.2 hdl hfree).symm.trans hfree'.2⟩
  refine ⟨h'.mount.trans h.mount, h'.served.trans h.served, fun d hd hdl hfree => ?_,
    fun x hx hin => ?_, fun x hx hdl hfree => ?_⟩
  · obtain ⟨hdl', hfree'⟩ := hout d hdl hfree
    rw [h'.table d (h.mount ▸ hd) hdl' hfree', h.table d hd hdl hfree]
  · rw [h'.front x (h.mount ▸ hx) (h.mount ▸ hin), h.front x hx hin]
  · obtain ⟨hdl', hfree'⟩ := hout _ hdl hfree
    rw [h'.data x (h.mount ▸ hx) (h.mount ▸ hdl') (h.mount ▸ hfree'), h.data x hx hdl hfree]

theorem frame_of_volume (hv : fs.Valid) (hm : fs'.toMount = fs.toMount)
    (hs : fs'.drive.served = fs.drive.served)
    (hvol : ∀ x, x / 512 < fs.database ∨ fs.clusterOf (x / 512) ∉ l → volume fs' x = volume fs x) :
    Frame fs fs' l := by
  refine ⟨hm, hs, fun d hd _ _ => table_congr hv hm (fun x hx => hvol x (Or.inl ?_)) hd,
    fun x hx _ => hvol x (Or.inl hx), fun x _ hdl _ => hvol x (Or.inr hdl)⟩
  by_contra hge
  exact hv.not_inFat (not_lt.mp hge) hx

end File

end VwiiNandTools.Ff
