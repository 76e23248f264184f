import VwiiNandTools.Armboot.Storage.Ff.Dir

/-!
# Mounting a volume

`check_fs`, `auto_mount` and `f_mount` of `storage/ff.c`: the boot record is looked for in sector 0
and in the first partition, and the geometry is computed from it.

A boot record that describes a FAT volume is found, and its mount is one that all results about the
volume start from (`autoMount_valid`).  The code computes without checks: a boot record that
describes none may give any geometry.
-/

namespace VwiiNandTools.Ff

open ByteMemory Chains
open VwiiNandTools.Dump (FResult)

/-! ## The code -/

/-- What `check_fs` returns. -/
inductive BootCheck
  | fat
  | notFat
  | notBoot
  | error
  deriving DecidableEq

/-- Offsets in a boot record, a partition table and the FSInfo sector. -/
def bpbBytsPerSec : ℕ := 11
def bpbSecPerClus : ℕ := 13
def bpbRsvdSecCnt : ℕ := 14
def bpbNumFATs : ℕ := 16
def bpbRootEntCnt : ℕ := 17
def bpbTotSec16 : ℕ := 19
def bpbFATSz16 : ℕ := 22
def bpbTotSec32 : ℕ := 32
def bpbFATSz32 : ℕ := 36
def bpbExtFlags : ℕ := 40
def bpbRootClus : ℕ := 44
def bpbFSInfo : ℕ := 48
def bsFilSysType : ℕ := 54
def bsFilSysType32 : ℕ := 82
def bs55AA : ℕ := 510
def mbrTable : ℕ := 446
def fsiLeadSig : ℕ := 0
def fsiStrucSig : ℕ := 484
def fsiFreeCount : ℕ := 488
def fsiNxtFree : ℕ := 492

/-- `"FAT"` and `"FAT32"`. -/
def sigFat : List Byte := [0x46#8, 0x41#8, 0x54#8]
def sigFat32 : List Byte := [0x46#8, 0x41#8, 0x54#8, 0x33#8, 0x32#8]

/-- The checks of a sector that was read. -/
def bootCheck (win : Mem) : BootCheck :=
  if le win bs55AA 2 ≠ 0xAA55 then .notBoot
  else if bytes win bsFilSysType 3 = sigFat then .fat
  else if bytes win bsFilSysType32 5 = sigFat32 ∧ win bpbExtFlags &&& 0x80#8 = 0#8 then .fat
  else .notFat

def checkFs (sect : ℕ) (fs : Fatfs) : BootCheck × Fatfs :=
  match diskRead fs.win 0 sect 1 fs.drive with
  | (.error, win, drive) => (.error, { fs with win := win, drive := drive })
  | (.ok, win, drive) => (bootCheck win, { fs with win := win, drive := drive })

/-- `Search FAT partition on the drive`. -/
def searchFat (fs : Fatfs) : BootCheck × ℕ × Fatfs :=
  match checkFs 0 fs with
  | (.notFat, fs) =>
    if fs.win (mbrTable + 4) ≠ 0#8 then
      let bsect := le fs.win (mbrTable + 8) 4
      let (fmt, fs) := checkFs bsect fs
      (fmt, bsect, fs)
    else (.notFat, 0, fs)
  | (fmt, fs) => (fmt, 0, fs)

/-- The fields of a boot record with a 16-bit and a 32-bit form. -/
def fatSz (win : Mem) : ℕ :=
  if le win bpbFATSz16 2 = 0 then le win bpbFATSz32 4 else le win bpbFATSz16 2

def totSec (win : Mem) : ℕ :=
  if le win bpbTotSec16 2 = 0 then le win bpbTotSec32 4 else le win bpbTotSec16 2

/-- `Determine the FAT sub type`. -/
def subType (mclst : ℕ) : FsType :=
  if 0xFFF7 ≤ mclst then .fat32 else if 0xFF7 ≤ mclst then .fat16 else .fat12

/-- `Initialize the file system object`, in 32 bits.  `BPB_SecPerClus` is not checked: where it is 0
the code divides by zero, and the quotient here is 0. -/
def geometry (win : Mem) (bsect : ℕ) (v : Mount) : Mount :=
  let nFats := le win bpbNumFATs 1
  let fsize := fatSz win * nFats % 0x100000000
  let rsvd := le win bpbRsvdSecCnt 2
  let fatbase := (bsect + rsvd) % 0x100000000
  let csize := le win bpbSecPerClus 1
  let nRootdir := le win bpbRootEntCnt 2
  let mclst := (((totSec win + 3 * 0x100000000 - rsvd - fsize - nRootdir / 16) % 0x100000000) / csize +
    2) % 0x100000000
  { fsType := subType mclst
    csize := csize
    nFats := nFats
    id := v.id
    nRootdir := nRootdir
    fsiSector := if subType mclst = .fat32 then (bsect + le win bpbFSInfo 2) % 0x100000000 else
      v.fsiSector
    sectsFat := fatSz win
    maxClust := mclst
    fatbase := fatbase
    dirbase := if subType mclst = .fat32 then le win bpbRootClus 4 else (fatbase + fsize) % 0x100000000
    database := (fatbase + fsize + nRootdir / 16) % 0x100000000 }

/-- `Get fsinfo if needed`. -/
def getFsinfo (fs : Fatfs) : Fatfs :=
  if fs.fsType = .fat32 then
    let fs := { fs with fsiFlag := false }
    match diskRead fs.win 0 fs.fsiSector 1 fs.drive with
    | (.error, win, drive) => { fs with win := win, drive := drive }
    | (.ok, win, drive) =>
      let fs := { fs with win := win, drive := drive }
      if le win bs55AA 2 = 0xAA55 ∧ le win fsiLeadSig 4 = 0x41615252 ∧
          le win fsiStrucSig 4 = 0x61417272 then
        { fs with lastClust := le win fsiNxtFree 4, freeClust := le win fsiFreeCount 4 }
      else fs
  else fs

/-- The work area, for the one file system object of the program; `present` is whether a card is. -/
structure Work where
  enabled : Bool
  fs : Fatfs
  fsid : BitVec 16
  present : Bool

/-- What is done when the volume is not mounted.  The card is never write protected. -/
def mountVolume (w : Work) : FResult × Work :=
  let fs := { w.fs with fsType := .unmounted }
  if !w.present then (.notReady, { w with fs := fs })
  else
    match searchFat fs with
    | (.error, _, fs) => (.diskErr, { w with fs := fs })
    | (.fat, bsect, fs) =>
      if le fs.win bpbBytsPerSec 2 ≠ 512 then (.noFilesystem, { w with fs := fs })
      else
        let v := geometry fs.win bsect fs.toMount
        let fs := getFsinfo { fs with toMount := v, freeClust := 0xFFFFFFFF, wflag := false }
        let fsid := w.fsid + 1#16
        (.ok, { w with fs := { fs with winsect := 0, id := fsid }, fsid := fsid })
    | (_, _, fs) => (.noFilesystem, { w with fs := fs })

/-- The drive number of a path, and the rest of it. -/
def driveNumber : List Byte → ℕ × List Byte
  | c :: d :: p =>
    if (c - 0x30#8).toNat ≤ 9 ∧ d = 0x3A#8 then ((c - 0x30#8).toNat, p) else (0, c :: d :: p)
  | p => (0, p)

def autoMount (path : List Byte) (w : Work) : FResult × List Byte × Work :=
  let (vol, path) := driveNumber path
  if 1 ≤ vol then (.invalidDrive, path, w)
  else if !w.enabled then (.notEnabled, path, w)
  else if w.fs.fsType ≠ .unmounted then (.ok, path, w)
  else
    let (res, w) := mountVolume w
    (res, path, w)

/-- `fs` is the file system object, or there is none. -/
def fMount (vol : ℕ) (fs : Option Fatfs) (w : Work) : FResult × Work :=
  if 1 ≤ vol then (.invalidDrive, w)
  else
    match fs with
    | some fs => (.ok, { w with enabled := true, fs := { fs with fsType := .unmounted } })
    | none => (.ok, { w with enabled := false, fs := { w.fs with fsType := .unmounted } })

/-! ## What a boot record says -/

/-- Sector `s` of a medium. -/
def sector (m : Mem) (s : ℕ) : Mem := fun k => m (512 * s + k)

/-- The boot record is sector 0, or the first sector of the first partition. -/
def FatAt (m : Mem) (s : ℕ) : Prop :=
  bootCheck (sector m 0) = .fat ∧ s = 0 ∨
    bootCheck (sector m 0) = .notFat ∧ sector m 0 (mbrTable + 4) ≠ 0#8 ∧
      s = le (sector m 0) (mbrTable + 8) 4 ∧ bootCheck (sector m s) = .fat

def BootAt (m : Mem) (s : ℕ) : Prop := FatAt m s ∧ le (sector m s) bpbBytsPerSec 2 = 512

/-- The fields of a boot record. -/
structure Boot where
  csize : ℕ
  rsvd : ℕ
  nFats : ℕ
  fatSz : ℕ
  rootEnt : ℕ
  totSec : ℕ
  rootClus : ℕ
  fsInfo : ℕ

def bootOf (m : Mem) : Boot where
  csize := le m bpbSecPerClus 1
  rsvd := le m bpbRsvdSecCnt 2
  nFats := le m bpbNumFATs 1
  fatSz := fatSz m
  rootEnt := le m bpbRootEntCnt 2
  totSec := totSec m
  rootClus := le m bpbRootClus 4
  fsInfo := le m bpbFSInfo 2

/-- The sectors in front of the clusters, and the last cluster number plus one. -/
def Boot.front (b : Boot) : ℕ := b.rsvd + b.nFats * b.fatSz + b.rootEnt / 16
def Boot.maxClust (b : Boot) : ℕ := (b.totSec - b.front) / b.csize + 2
def Boot.fsType (b : Boot) : FsType := subType b.maxClust

/-- A boot record in sector `s` that describes a FAT volume. -/
structure Boot.Proper (b : Boot) (s : ℕ) : Prop where
  csize : ∃ k ≤ 7, b.csize = 2 ^ k
  rsvd : 0 < b.rsvd
  nFats : 0 < b.nFats
  rootEnt : b.rootEnt % 16 = 0
  room : b.front + b.csize ≤ b.totSec
  inside : s + b.totSec + 2 * b.csize < 0x100000000
  clusters : b.maxClust ≤ 0x0FFFFFF7
  table : b.fsType.tableBytes b.maxClust ≤ 512 * b.fatSz
  root : b.fsType = .fat32 ∧ b.rootEnt = 0 ∧ b.fsInfo < b.rsvd ∨ b.fsType ≠ .fat32 ∧ 0 < b.rootEnt

/-- The root directory of a FAT32 volume starts at one of its clusters; in the boot record, and in
the mount. -/
def Boot.RootInside (b : Boot) : Prop :=
  b.fsType = .fat32 → 2 ≤ b.rootClus ∧ b.rootClus < b.maxClust

def Mount.RootInside (v : Mount) : Prop := v.fsType = .fat32 → v.Cluster v.dirbase

/-- The mount is the one that the boot record describes. -/
structure Described (b : Boot) (s : ℕ) (v : Mount) : Prop where
  fsType : v.fsType = b.fsType
  csize : v.csize = b.csize
  nFats : v.nFats = b.nFats
  nRootdir : v.nRootdir = b.rootEnt
  sectsFat : v.sectsFat = b.fatSz
  maxClust : v.maxClust = b.maxClust
  fatbase : v.fatbase = s + b.rsvd
  dirbase : v.dirbase = if b.fsType = .fat32 then b.rootClus else s + b.rsvd + b.nFats * b.fatSz
  database : v.database = s + b.front

section Mount

variable {b : Boot} {fs fs' : Fatfs} {v : Mount} {m win : Mem} {s : ℕ} {w : Work} {path : List Byte}

theorem le_sector {a n : ℕ} (h : ∀ k < 512, win k = sector m s k) (hn : a + n ≤ 512) :
    le win a n = le (sector m s) a n :=
  le_congr fun x _ h2 => h x (by omega)

theorem bytes_sector {a n : ℕ} (h : ∀ k < 512, win k = sector m s k) (hn : a + n ≤ 512) :
    bytes win a n = bytes (sector m s) a n :=
  bytes_congr fun x _ h2 => h x (by omega)

theorem bootCheck_sector (h : ∀ k < 512, win k = sector m s k) :
    bootCheck win = bootCheck (sector m s) := by
  rw [bootCheck, bootCheck, le_sector h (by decide), bytes_sector h (by decide),
    bytes_sector h (by decide), h bpbExtFlags (by decide)]

theorem bootOf_sector (h : ∀ k < 512, win k = sector m s k) : bootOf win = bootOf (sector m s) := by
  simp only [bootOf, fatSz, totSec]
  rw [le_sector h (a := bpbSecPerClus) (by decide), le_sector h (a := bpbRsvdSecCnt) (by decide),
    le_sector h (a := bpbNumFATs) (by decide), le_sector h (a := bpbFATSz16) (by decide),
    le_sector h (a := bpbFATSz32) (by decide), le_sector h (a := bpbRootEntCnt) (by decide),
    le_sector h (a := bpbTotSec16) (by decide), le_sector h (a := bpbTotSec32) (by decide),
    le_sector h (a := bpbRootClus) (by decide), le_sector h (a := bpbFSInfo) (by decide)]

theorem subType_mounted (n : ℕ) : subType n ≠ .unmounted ∧ subType n = .fat12 ∧ n < 0xFF7 ∨
    subType n = .fat16 ∧ n < 0xFFF7 ∨ subType n = .fat32 := by
  rw [subType]
  split
  · exact Or.inr (Or.inr rfl)
  · split
    · exact Or.inr (Or.inl ⟨rfl, by omega⟩)
    · exact Or.inl ⟨by decide, rfl, by omega⟩

/-- No computation of the mount wraps. -/
theorem geometry_described (hp : (bootOf win).Proper s) (v : Mount) :
    Described (bootOf win) s (geometry win s v) ∧
      (geometry win s v).fsiSector =
        if (bootOf win).fsType = .fat32 then s + (bootOf win).fsInfo else v.fsiSector := by
  have hroom := hp.room
  have hinside := hp.inside
  have hcs : 0 < (bootOf win).csize := by
    obtain ⟨k, -, hk⟩ := hp.csize
    rw [hk]
    exact Nat.two_pow_pos k
  have hclu := hp.clusters
  have hroot := hp.root
  simp only [Boot.front] at hroom
  have hmul : fatSz win * le win bpbNumFATs 1 = le win bpbNumFATs 1 * fatSz win := Nat.mul_comm _ _
  have hmax : (((totSec win + 3 * 0x100000000 - le win bpbRsvdSecCnt 2 -
      fatSz win * le win bpbNumFATs 1 % 0x100000000 - le win bpbRootEntCnt 2 / 16) % 0x100000000) /
        le win bpbSecPerClus 1 + 2) % 0x100000000 = (bootOf win).maxClust := by
    simp only [bootOf] at hroom hinside hcs
    rw [Boot.maxClust] at hclu ⊢
    simp only [bootOf, Boot.front] at hclu ⊢
    have hsub : (totSec win + 3 * 0x100000000 - le win bpbRsvdSecCnt 2 -
        fatSz win * le win bpbNumFATs 1 % 0x100000000 - le win bpbRootEntCnt 2 / 16) % 0x100000000 =
          totSec win - (le win bpbRsvdSecCnt 2 + le win bpbNumFATs 1 * fatSz win +
            le win bpbRootEntCnt 2 / 16) := by
      omega
    rw [hsub]
    exact Nat.mod_eq_of_lt (by omega)
  simp only [bootOf] at hroom hinside hcs
  unfold geometry
  simp only [hmax]
  refine ⟨⟨rfl, rfl, rfl, rfl, rfl, rfl, ?_, ?_, ?_⟩, ?_⟩
  · simp only [bootOf]
    omega
  · by_cases h32 : (bootOf win).fsType = .fat32
    · rw [if_pos h32]
      exact if_pos h32
    · rw [if_neg h32]
      refine (if_neg h32).trans ?_
      simp only [bootOf]
      omega
  · simp only [Boot.front, bootOf]
    omega
  · by_cases h32 : (bootOf win).fsType = .fat32
    · have hlt := (hroot.resolve_right fun hand => hand.1 h32).2.2
      rw [if_pos h32]
      refine (if_pos h32).trans ?_
      simp only [bootOf] at hlt ⊢
      omega
    · rw [if_neg h32]
      exact if_neg h32

/-- **A mount that a boot record describes** is one that everything else starts from. -/
theorem Described.valid (h : Described b s v) (hp : b.Proper s) (hfsi : v.fsiSector < v.fatbase) :
    v.Valid ∧ v.RootValid := by
  obtain ⟨hty, hcs, hnf, hnr, hsf, hmc, hfb, hdb, hda⟩ := h
  obtain ⟨kk, hkk, hpow⟩ := hp.csize
  have hpos : 0 < b.csize := by
    rw [hpow]
    exact Nat.two_pow_pos kk
  have hroom := hp.room
  have hinside := hp.inside
  have hrs := hp.rsvd
  have hroot := hp.root
  have hdiv : (b.totSec - b.front) / b.csize * b.csize ≤ b.totSec - b.front := Nat.div_mul_le_self _ _
  have hone : 1 ≤ (b.totSec - b.front) / b.csize :=
    (Nat.one_le_div_iff hpos).mpr (by omega)
  have hmax : b.maxClust = (b.totSec - b.front) / b.csize + 2 := rfl
  have htype : b.fsType = subType b.maxClust := rfl
  have hcase := subType_mounted b.maxClust
  refine ⟨⟨?_, by omega, hnf ▸ hp.nFats, ⟨kk, hkk, hcs.trans hpow⟩, ?_, by omega, ?_, ?_, ?_, hfsi⟩,
    ⟨?_, ?_, ?_, ?_⟩⟩
  · rw [hty, htype]
    rcases hcase with ⟨h, -⟩ | ⟨h, -⟩ | h
    · exact h
    · rw [h]; decide
    · rw [h]; decide
  · rw [hty, htype, hmc]
    rcases hcase with ⟨-, h, hlt⟩ | ⟨h, hlt⟩ | h
    · rw [h]
      exact hlt.le
    · rw [h]
      exact hlt.le
    · rw [h]
      exact hp.clusters
  · rw [hty, hmc, hsf]
    exact hp.table
  · rw [hfb, hnf, hsf, hda, Boot.front]
    omega
  · rw [hda, hmc, hcs, hmax, Nat.add_mul]
    omega
  · intro h32
    rw [hty] at h32
    rw [hnr]
    exact (hroot.resolve_right fun hand => hand.1 h32).2.1
  · intro h32
    rw [hty] at h32
    rw [hdb, if_neg h32, hfb, hnf, hsf]
  · rw [hnr]
    exact hp.rootEnt
  · by_cases h32 : b.fsType = .fat32
    · exact Or.inr (hty.trans h32)
    · rw [hdb, if_neg h32, hnr, hda, Boot.front]
      exact Or.inl (by omega)

theorem Described.rootInside (h : Described b s v) (hb : b.RootInside) : v.RootInside := by
  intro h32
  rw [h.fsType] at h32
  rw [h.dirbase, if_pos h32, Mount.Cluster, h.maxClust]
  exact hb h32

/-! ## The search for the boot record -/

/-- Sectors were read into the window. -/
structure ReadOnly (fs fs' : Fatfs) : Prop where
  mount : fs'.toMount = fs.toMount
  medium : fs'.drive.medium = fs.drive.medium
  served : fs'.drive.served = fs.drive.served

theorem ReadOnly.reliable (h : ReadOnly fs fs') (hr : Reliable fs) : Reliable fs' := by
  intro i
  rw [h.served]
  exact hr i

theorem checkFs_spec (hr : Reliable fs) (s : ℕ) :
    let r := checkFs s fs
    r.1 = bootCheck (sector fs.drive.medium s) ∧ ReadOnly fs r.2 ∧
      ∀ k < 512, r.2.win k = sector fs.drive.medium s k := by
  obtain ⟨hserved, hmedium, -, hread, hok⟩ := diskRead_one fs.win fs.drive s
  have hres := hok (le_trans (by decide) (hr _))
  unfold checkFs
  generalize diskRead fs.win 0 s 1 fs.drive = r at hserved hmedium hread hres
  obtain ⟨res, win, drive⟩ := r
  obtain rfl : res = .ok := hres
  have hwin := hread rfl
  exact ⟨bootCheck_sector hwin, ⟨rfl, hmedium, hserved⟩, hwin⟩

theorem searchFat_spec (hr : Reliable fs) :
    let r := searchFat fs
    ReadOnly fs r.2.2 ∧ (∀ s, FatAt fs.drive.medium s → r.1 = .fat ∧ r.2.1 = s ∧
      ∀ k < 512, r.2.2.win k = sector fs.drive.medium s k) ∧
      (r.1 = .fat → FatAt fs.drive.medium r.2.1) := by
  obtain ⟨hres, hro, hwin⟩ := checkFs_spec hr 0
  unfold searchFat
  generalize checkFs 0 fs = q at hres hro hwin
  obtain ⟨fmt, fs1⟩ := q
  dsimp only at hres hro hwin ⊢
  cases fmt with
  | notFat =>
    dsimp only
    have htab : fs1.win (mbrTable + 4) = sector fs.drive.medium 0 (mbrTable + 4) := hwin _ (by decide)
    have hsect := le_sector (a := mbrTable + 8) (n := 4) hwin (by decide)
    by_cases h0 : sector fs.drive.medium 0 (mbrTable + 4) = 0#8
    · rw [htab, if_neg (not_not.mpr h0)]
      refine ⟨hro, fun s hs => ?_, by rintro ⟨⟩⟩
      rcases hs with ⟨hfat, -⟩ | ⟨-, hne, -⟩
      · cases hres.trans hfat
      · exact absurd h0 hne
    · rw [htab, if_pos h0, hsect]
      obtain ⟨hres2, hro2, hwin2⟩ := checkFs_spec (hro.reliable hr)
        (le (sector fs.drive.medium 0) (mbrTable + 8) 4)
      generalize checkFs (le (sector fs.drive.medium 0) (mbrTable + 8) 4) fs1 = q at hres2 hro2 hwin2
      obtain ⟨fmt, fs2⟩ := q
      dsimp only at hres2 hro2 hwin2 ⊢
      rw [hro.medium] at hres2 hwin2
      refine ⟨⟨hro2.mount.trans hro.mount, hro2.medium.trans hro.medium,
        hro2.served.trans hro.served⟩, fun s hs => ?_, fun hfat => ?_⟩
      · rcases hs with ⟨hfat, -⟩ | ⟨-, -, rfl, hfat⟩
        · cases hres.trans hfat
        · exact ⟨hres2.trans hfat, rfl, hwin2⟩
      · exact Or.inr ⟨hres.symm, h0, rfl, hres2.symm.trans hfat⟩
  | fat =>
    refine ⟨hro, fun s hs => ?_, fun _ => Or.inl ⟨hres.symm, rfl⟩⟩
    rcases hs with ⟨-, rfl⟩ | ⟨hnot, -⟩
    · exact ⟨rfl, rfl, hwin⟩
    · cases hres.trans hnot
  | notBoot =>
    refine ⟨hro, fun s hs => ?_, by rintro ⟨⟩⟩
    rcases hs with ⟨hfat, -⟩ | ⟨hnot, -⟩
    · cases hres.trans hfat
    · cases hres.trans hnot
  | error =>
    refine ⟨hro, fun s hs => ?_, by rintro ⟨⟩⟩
    rcases hs with ⟨hfat, -⟩ | ⟨hnot, -⟩
    · cases hres.trans hfat
    · cases hres.trans hnot

theorem getFsinfo_spec (fs : Fatfs) :
    ReadOnly fs (getFsinfo fs) ∧ (getFsinfo fs).wflag = fs.wflag := by
  unfold getFsinfo
  split
  · obtain ⟨hserved, hmedium, -, -, -⟩ := diskRead_one fs.win fs.drive fs.fsiSector
    dsimp only
    generalize diskRead fs.win 0 fs.fsiSector 1 fs.drive = r at hserved hmedium
    obtain ⟨res, win, drive⟩ := r
    cases res with
    | error => exact ⟨⟨rfl, hmedium, hserved⟩, rfl⟩
    | ok =>
      dsimp only
      split
      · exact ⟨⟨rfl, hmedium, hserved⟩, rfl⟩
      · exact ⟨⟨rfl, hmedium, hserved⟩, rfl⟩
  · exact ⟨⟨rfl, rfl, rfl⟩, rfl⟩

/-- The volume as it is after the mount. -/
structure Mounted (b : Boot) (s : ℕ) (fs fs' : Fatfs) : Prop where
  described : Described b s fs'.toMount
  valid : fs'.Valid
  root : fs'.RootValid
  rootInside : b.RootInside → fs'.RootInside
  winOk : WinOk fs'
  clean : volume fs' = onMedium fs'
  medium : fs'.drive.medium = fs.drive.medium
  served : fs'.drive.served = fs.drive.served

theorem Described.mounted (h : Described b s fs'.toMount) (hp : b.Proper s)
    (hfsi : fs'.fsiSector < fs'.fatbase) (hflag : fs'.wflag = false)
    (hmedium : fs'.drive.medium = fs.drive.medium) (hserved : fs'.drive.served = fs.drive.served)
    (i : BitVec 16) : Mounted b s fs { fs' with winsect := 0, id := i } := by
  have h' : Described b s { fs'.toMount with id := i } :=
    ⟨h.fsType, h.csize, h.nFats, h.nRootdir, h.sectsFat, h.maxClust, h.fatbase, h.dirbase,
      h.database⟩
  obtain ⟨hv, hroot⟩ := h'.valid hp hfsi
  have hok : WinOk { fs' with winsect := 0, id := i } :=
    ⟨hv.fatsFit, fun _ => hflag, fun h => absurd rfl h, fun _ h => absurd rfl h⟩
  exact ⟨h', hv, hroot, h'.rootInside, hok, (onMedium_eq hok hflag).symm, hmedium, hserved⟩

/-- By name: to unify the two work areas is slow. -/
theorem work_enabled (enabled : Bool) (fs : Fatfs) (fsid : BitVec 16) (present : Bool) :
    (Work.mk enabled fs fsid present).enabled = enabled := rfl

theorem mountVolume_spec (hcard : w.present = true) (hr : Reliable w.fs)
    (hfsi : w.fs.fsiSector = 0) :
    let r := mountVolume w
    (r.1 = .ok ↔ ∃ s, BootAt w.fs.drive.medium s) ∧
      ∀ s, BootAt w.fs.drive.medium s → (bootOf (sector w.fs.drive.medium s)).Proper s →
        Mounted (bootOf (sector w.fs.drive.medium s)) s w.fs r.2.fs ∧ r.2.fs.id = r.2.fsid ∧
          r.2.enabled = w.enabled := by
  obtain ⟨hro, hfound, hfat⟩ := @searchFat_spec { w.fs with fsType := .unmounted } hr
  unfold mountVolume
  rw [hcard, Bool.not_true, if_neg (by decide)]
  dsimp only at hfound hfat ⊢
  generalize searchFat { w.fs with fsType := .unmounted } = q at hro hfound hfat
  obtain ⟨fmt, bsect, fs1⟩ := q
  dsimp only at hro hfound hfat
  have hnot : ∀ {P : Prop}, fmt ≠ .fat → (∃ s, BootAt w.fs.drive.medium s) → P := fun hne h =>
    absurd (hfound _ h.choose_spec.1).1 hne
  cases fmt with
  | fat =>
    have hat := hfat rfl
    obtain ⟨-, -, hwin⟩ := hfound bsect hat
    have hunique : ∀ s, FatAt w.fs.drive.medium s → s = bsect := fun s hs => (hfound s hs).2.1.symm
    dsimp only
    rw [le_sector hwin (by decide)]
    by_cases hbyts : le (sector w.fs.drive.medium bsect) bpbBytsPerSec 2 = 512
    · rw [if_neg (not_not.mpr hbyts)]
      refine ⟨⟨fun _ => ⟨bsect, hat, hbyts⟩, fun _ => rfl⟩, fun s hs hp => ?_⟩
      obtain rfl := hunique s hs.1
      rw [← bootOf_sector hwin] at hp ⊢
      obtain ⟨hdesc, hsect⟩ := geometry_described hp fs1.toMount
      have hfatbase := hdesc.fatbase
      have hrs := hp.rsvd
      have hlow : (geometry fs1.win s fs1.toMount).fsiSector <
          (geometry fs1.win s fs1.toMount).fatbase := by
        rw [hsect, hfatbase]
        split
        · next h32 =>
          have hlt := (hp.root.resolve_right fun hand => hand.1 h32).2.2
          omega
        · have hz : fs1.fsiSector = 0 := by
            have heq : fs1.toMount.fsiSector = w.fs.fsiSector := by rw [hro.mount]
            exact heq.trans hfsi
          omega
      generalize geometry fs1.win s fs1.toMount = v at hdesc hlow ⊢
      obtain ⟨⟨hmount, hmedium, hserved⟩, hflag⟩ := getFsinfo_spec { fs1 with
        toMount := v, freeClust := 0xFFFFFFFF, wflag := false }
      generalize getFsinfo { fs1 with
        toMount := v, freeClust := 0xFFFFFFFF, wflag := false } = fs2
        at hmount hmedium hserved hflag
      obtain rfl : fs2.toMount = v := hmount
      have hmed : fs2.drive.medium = w.fs.drive.medium := hmedium.trans hro.medium
      have hser : fs2.drive.served = w.fs.drive.served := hserved.trans hro.served
      exact ⟨hdesc.mounted hp hlow hflag hmed hser _, rfl, work_enabled _ _ _ _⟩
    · rw [if_pos hbyts]
      refine ⟨⟨by rintro ⟨⟩, fun hex => ?_⟩, fun s hs => ?_⟩
      · obtain ⟨s, hs, hb⟩ := hex
        rw [hunique s hs] at hb
        exact absurd hb hbyts
      · rw [hunique s hs.1] at hs
        exact absurd hs.2 hbyts
  | notFat => exact ⟨⟨by rintro ⟨⟩, hnot (by decide)⟩, fun s hs => hnot (by decide) ⟨s, hs⟩⟩
  | notBoot => exact ⟨⟨by rintro ⟨⟩, hnot (by decide)⟩, fun s hs => hnot (by decide) ⟨s, hs⟩⟩
  | error => exact ⟨⟨by rintro ⟨⟩, hnot (by decide)⟩, fun s hs => hnot (by decide) ⟨s, hs⟩⟩

theorem autoMount_again {path : List Byte} (hen : w.enabled = true) (hm : w.fs.fsType ≠ .unmounted)
    (hvol : (driveNumber path).1 = 0) : autoMount path w = (.ok, (driveNumber path).2, w) := by
  unfold autoMount
  generalize driveNumber path = q at hvol
  obtain ⟨vol, p⟩ := q
  obtain rfl : vol = 0 := hvol
  dsimp only
  rw [if_neg (by decide), hen, Bool.not_true, if_neg (by decide), if_pos hm]

theorem autoMount_first {path : List Byte} (hen : w.enabled = true) (hun : w.fs.fsType = .unmounted)
    (hvol : (driveNumber path).1 = 0) :
    autoMount path w = ((mountVolume w).1, (driveNumber path).2, (mountVolume w).2) := by
  unfold autoMount
  generalize driveNumber path = q at hvol
  obtain ⟨vol, p⟩ := q
  obtain rfl : vol = 0 := hvol
  dsimp only
  rw [if_neg (by decide), hen, Bool.not_true, if_neg (by decide), hun, if_neg (fun h => h rfl)]

/-- **The first access mounts the volume** exactly if there is a boot record.  If that describes a
FAT volume, the mount is the one it describes, nothing is written, and further accesses keep it. -/
theorem autoMount_valid (hen : w.enabled = true) (hun : w.fs.fsType = .unmounted)
    (hcard : w.present = true) (hr : Reliable w.fs) (hfsi : w.fs.fsiSector = 0)
    (hvol : (driveNumber path).1 = 0) :
    let r := autoMount path w
    (r.1 = .ok ↔ ∃ s, BootAt w.fs.drive.medium s) ∧
      ∀ s, BootAt w.fs.drive.medium s → (bootOf (sector w.fs.drive.medium s)).Proper s →
        Mounted (bootOf (sector w.fs.drive.medium s)) s w.fs r.2.2.fs ∧ r.2.2.fs.id = r.2.2.fsid ∧
          ∀ p, (driveNumber p).1 = 0 → autoMount p r.2.2 = (.ok, (driveNumber p).2, r.2.2) := by
  obtain ⟨hiff, hmounted⟩ := mountVolume_spec hcard hr hfsi
  rw [autoMount_first hen hun hvol]
  refine ⟨hiff, fun s hs hp => ?_⟩
  obtain ⟨hm, hid, hkeep⟩ := hmounted s hs hp
  exact ⟨hm, hid, fun p hp => autoMount_again (hkeep.trans hen) hm.valid.mounted hp⟩

/-- After `f_mount` the first access mounts the volume of the new file system object. -/
theorem fMount_mounts (hcard : w.present = true) (hr : Reliable fs) (hfsi : fs.fsiSector = 0)
    (hvol : (driveNumber path).1 = 0) :
    let r := autoMount path (fMount 0 (some fs) w).2
    (r.1 = .ok ↔ ∃ s, BootAt fs.drive.medium s) ∧
      ∀ s, BootAt fs.drive.medium s → (bootOf (sector fs.drive.medium s)).Proper s →
        Mounted (bootOf (sector fs.drive.medium s)) s fs r.2.2.fs := by
  have hmount : fMount 0 (some fs) w =
      (.ok, { w with enabled := true, fs := { fs with fsType := .unmounted } }) := rfl
  obtain ⟨hiff, hmounted⟩ := @mountVolume_spec
    { w with enabled := true, fs := { fs with fsType := .unmounted } } hcard hr hfsi
  rw [hmount, autoMount_first rfl rfl hvol]
  refine ⟨hiff, fun s hs hp => ?_⟩
  obtain ⟨hm, -, -⟩ := hmounted s hs hp
  exact ⟨hm.described, hm.valid, hm.root, hm.rootInside, hm.winOk, hm.clean, hm.medium, hm.served⟩

/-- Without a file system object every access is refused. -/
theorem fMount_none (hvol : (driveNumber path).1 = 0) :
    (autoMount path (fMount 0 none w).2).1 = .notEnabled := by
  unfold autoMount
  generalize driveNumber path = q at hvol
  obtain ⟨vol, p⟩ := q
  obtain rfl : vol = 0 := hvol
  rfl

/-- The medium of `smallVolume`. -/
def smallMedium : Mem :=
  putLe (putLe (putLe (putLe (putLe (putLe (putLe (putLe (putLe (fun _ => 0#8)
    bpbBytsPerSec 2 512) bpbSecPerClus 1 1) bpbRsvdSecCnt 2 1) bpbNumFATs 1 2) bpbRootEntCnt 2 16)
      bpbTotSec16 2 12) bpbFATSz16 2 1) bsFilSysType 3 0x544146) bs55AA 2 0xAA55

def smallWork : Work where
  enabled := true
  fs := { smallVolume with
    fsType := .unmounted, drive := { medium := smallMedium, served := fun _ => 255, accesses := 0 } }
  fsid := 0#16
  present := true

theorem smallMedium_boot : BootAt smallMedium 0 ∧ (bootOf (sector smallMedium 0)).Proper 0 :=
  ⟨⟨Or.inl ⟨by decide, rfl⟩, by decide⟩, ⟨0, by decide, by decide⟩, by decide, by decide, by decide,
    by decide, by decide, by decide, by decide, Or.inr ⟨by decide, by decide⟩⟩

theorem autoMount_valid_small : (autoMount [] smallWork).2.2.fs.Valid := by
  obtain ⟨hboot, hproper⟩ := smallMedium_boot
  obtain ⟨-, hmounted⟩ := @autoMount_valid smallWork [] rfl rfl rfl (fun _ => le_refl 255) rfl rfl
  exact (hmounted 0 hboot hproper).1.valid

end Mount

end VwiiNandTools.Ff
