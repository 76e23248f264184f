import VwiiNandTools.Lib.LittleEndian
import VwiiNandTools.Armboot.Storage.Ff.Drive
import VwiiNandTools.Armboot.Dump.Slc

/-!
# The sector window of FatFs

`storage/ff.c` works on a volume through one sector buffer, `win[]`.  `move_window` writes a changed
sector back, in the FAT to every copy, and loads another one; `sync` writes back and updates the
FSInfo sector.

`volume` is the volume as the rest of FatFs means it: the window over the medium, without the
reserved sectors and the further copies of the FAT.  Moving the window keeps it, whatever accesses
fail (`moveWindow_spec`); a store into the window is a store into it (`poke_spec`).
-/

namespace VwiiNandTools.Ff

open ByteMemory
open VwiiNandTools.Dump (FResult)
open VwiiNandTools.Diskio (DResult)
open Transition

/-! ## The file system object -/

/-- `fs_type`. -/
inductive FsType
  | unmounted
  | fat12
  | fat16
  | fat32
  deriving DecidableEq, Repr

/-- What `auto_mount` finds in the boot record. -/
structure Mount where
  fsType : FsType
  csize : ℕ
  nFats : ℕ
  id : BitVec 16
  nRootdir : ℕ
  fsiSector : ℕ
  sectsFat : ℕ
  maxClust : ℕ
  fatbase : ℕ
  dirbase : ℕ
  database : ℕ

/-- `FATFS`; `drive` is the drive it is bound to. -/
structure Fatfs extends Mount where
  drive : Drive
  wflag : Bool
  fsiFlag : Bool
  lastClust : ℕ
  freeClust : ℕ
  winsect : ℕ
  win : Mem

/-- The loop that writes the window to the other FAT copies, after `n` passes; `wsect` is a
`DWORD`. -/
def reflect (fs : Fatfs) : ℕ → Fatfs
  | 0 => fs
  | n + 1 =>
    let fs := reflect fs n
    let wsect := (fs.winsect + (n + 1) * fs.sectsFat) % 0x100000000
    { fs with drive := (diskWrite fs.win wsect 1 fs.drive).2 }

/-- `if (fs->wflag) { .. }` in `move_window`. -/
def writeBack (fs : Fatfs) : DResult × Fatfs :=
  if fs.wflag then
    match diskWrite fs.win fs.winsect 1 fs.drive with
    | (.error, drive) => (.error, { fs with drive := drive })
    | (.ok, drive) =>
      let fs := { fs with drive := drive, wflag := false }
      if fs.winsect < (fs.fatbase + fs.sectsFat) % 0x100000000 then
        (.ok, reflect fs (fs.nFats - 1))
      else (.ok, fs)
  else (.ok, fs)

def loadWindow (sector : ℕ) (fs : Fatfs) : FResult × Fatfs :=
  match diskRead fs.win 0 sector 1 fs.drive with
  | (.error, win, drive) => (.diskErr, { fs with win := win, drive := drive })
  | (.ok, win, drive) => (.ok, { fs with win := win, drive := drive, winsect := sector })

def moveWindow (sector : ℕ) (fs : Fatfs) : FResult × Fatfs :=
  if fs.winsect = sector then (.ok, fs)
  else
    match writeBack fs with
    | (.error, fs) => (.diskErr, fs)
    | (.ok, fs) => if sector = 0 then (.ok, fs) else loadWindow sector fs

/-- The FSInfo sector that `sync` writes. -/
def fsinfo (freeClust lastClust : ℕ) : Mem :=
  putLe (putLe (putLe (putLe (putLe (fun _ => 0#8) 510 2 0xAA55) 0 4 0x41615252) 484 4 0x61417272)
    488 4 freeClust) 492 4 lastClust

/-- `CTRL_SYNC` of `disk_ioctl` always succeeds. -/
def sync (fs : Fatfs) : FResult × Fatfs :=
  match moveWindow 0 fs with
  | (.ok, fs) =>
    if fs.fsType = .fat32 ∧ fs.fsiFlag then
      let win := fsinfo fs.freeClust fs.lastClust
      let drive := (diskWrite win fs.fsiSector 1 fs.drive).2
      (.ok, { fs with winsect := 0, win := win, drive := drive, fsiFlag := false })
    else (.ok, fs)
  | (res, fs) => (res, fs)

/-! ## A valid mount -/

/-- The last cluster number a volume of the type can have, plus one. -/
def FsType.clusters : FsType → ℕ
  | .fat12 => 0xFF7
  | .fat16 => 0xFFF7
  | .fat32 => 0x0FFFFFF7
  | .unmounted => 2

/-- The bytes the entries of `n` clusters take. -/
def FsType.tableBytes (n : ℕ) : FsType → ℕ
  | .fat12 => n * 3 / 2 + 1
  | .fat16 => 2 * n
  | .fat32 => 4 * n
  | .unmounted => 0

/-- What a boot record of a FAT volume promises. -/
structure Mount.Valid (v : Mount) : Prop where
  mounted : v.fsType ≠ .unmounted
  reserved : 0 < v.fatbase
  copies : 0 < v.nFats
  clusterSize : ∃ k ≤ 7, v.csize = 2 ^ k
  clusters : v.maxClust ≤ v.fsType.clusters
  two : 2 < v.maxClust
  table : v.fsType.tableBytes v.maxClust ≤ 512 * v.sectsFat
  behind : v.fatbase + v.nFats * v.sectsFat ≤ v.database
  inside : v.database + v.maxClust * v.csize < 0x100000000
  fsinfo : v.fsiSector < v.fatbase

/-- The copies of the FAT are behind the boot record and in front of the end of the sector
numbers. -/
structure Mount.FatsFit (v : Mount) : Prop where
  reserved : 0 < v.fatbase
  copies : 0 < v.nFats
  fit : v.fatbase + v.nFats * v.sectsFat < 0x100000000

theorem Mount.Valid.fatsFit {v : Mount} (hv : v.Valid) : v.FatsFit :=
  ⟨hv.reserved, hv.copies, lt_of_le_of_lt (hv.behind.trans (Nat.le_add_right _ _)) hv.inside⟩

/-! ## The volume -/

/-- The sectors files and directories are made of: not reserved, and not in the second or a later
copy of the FAT. -/
def Mount.Plain (v : Mount) (s : ℕ) : Prop :=
  v.fatbase ≤ s ∧ s < 0x100000000 ∧
    ¬(v.fatbase + v.sectsFat ≤ s ∧ s < v.fatbase + v.nFats * v.sectsFat)

instance (v : Mount) (s : ℕ) : Decidable (v.Plain s) := inferInstanceAs (Decidable (_ ∧ _))

/-- The volume: the window, where it is, and else the medium. -/
def volume (fs : Fatfs) : Mem := fun x =>
  if fs.Plain (x / 512) then
    if x / 512 = fs.winsect then fs.win (x % 512) else fs.drive.medium x
  else 0#8

/-- The window is on a plain sector or nowhere, and holds what the medium holds unless it is marked
as changed. -/
structure WinOk (fs : Fatfs) : Prop where
  base : fs.FatsFit
  none : fs.winsect = 0 → fs.wflag = false
  plain : fs.winsect ≠ 0 → fs.Plain fs.winsect
  clean : fs.wflag = false → fs.winsect ≠ 0 →
    ∀ k < 512, fs.win k = fs.drive.medium (512 * fs.winsect + k)

/-- No access fails. -/
def Reliable (fs : Fatfs) : Prop := ∀ i, 255 ≤ fs.drive.served i

/-- Nothing but the window was moved. -/
structure Moved (fs fs' : Fatfs) : Prop where
  mount : fs'.toMount = fs.toMount
  last : fs'.lastClust = fs.lastClust
  free : fs'.freeClust = fs.freeClust
  served : fs'.drive.served = fs.drive.served
  volume : volume fs' = volume fs
  winOk : WinOk fs'

section Window

variable {fs fs' fs'' : Fatfs} {sector : ℕ}

theorem Moved.refl (h : WinOk fs) : Moved fs fs := ⟨rfl, rfl, rfl, rfl, rfl, h⟩

theorem Moved.trans (h : Moved fs fs') (h' : Moved fs' fs'') : Moved fs fs'' :=
  ⟨h'.mount.trans h.mount, h'.last.trans h.last, h'.free.trans h.free,
    h'.served.trans h.served, h'.volume.trans h.volume, h'.winOk⟩

theorem Moved.reliable (h : Moved fs fs') (hr : Reliable fs) : Reliable fs' := by
  intro i
  rw [h.served]
  exact hr i

theorem WinOk.not_plain_zero (h : WinOk fs) : ¬fs.Plain 0 := fun hp =>
  absurd h.base.reserved (not_lt.mpr hp.1)

theorem volume_win {x : ℕ} (hp : fs.Plain (x / 512)) (hx : x / 512 = fs.winsect) :
    volume fs x = fs.win (x % 512) := by
  rw [volume, if_pos hp, if_pos hx]

theorem volume_medium {x : ℕ} (hp : fs.Plain (x / 512)) (hx : x / 512 ≠ fs.winsect) :
    volume fs x = fs.drive.medium x := by
  rw [volume, if_pos hp, if_neg hx]

theorem volume_hidden {x : ℕ} (hp : ¬fs.Plain (x / 512)) : volume fs x = 0#8 := if_neg hp

/-- A write to sectors that are not plain, or to the one the window is on, is not seen. -/
theorem volume_congr (hm : fs'.toMount = fs.toMount) (hw : fs'.win = fs.win)
    (hs : fs'.winsect = fs.winsect) (hd : ∀ x, fs.Plain (x / 512) → x / 512 ≠ fs.winsect →
      fs'.drive.medium x = fs.drive.medium x) : volume fs' = volume fs := by
  funext x
  by_cases hp : fs.Plain (x / 512)
  · have hp' : fs'.Plain (x / 512) := hm ▸ hp
    by_cases hx : x / 512 = fs.winsect
    · rw [volume_win hp hx, volume_win hp' (hx.trans hs.symm), hw]
    · rw [volume_medium hp hx, volume_medium hp' (hs ▸ hx), hd x hp hx]
  · rw [volume_hidden hp, volume_hidden (hm ▸ hp)]

theorem not_plain_copy {v : Mount} {s j : ℕ} (hs : v.fatbase ≤ s) (hs' : s < v.fatbase + v.sectsFat)
    (hj : j < v.nFats) (hj0 : 0 < j) : ¬v.Plain (s + j * v.sectsFat) := by
  have hle : 1 * v.sectsFat ≤ j * v.sectsFat := Nat.mul_le_mul_right _ hj0
  have hlt : (j + 1) * v.sectsFat ≤ v.nFats * v.sectsFat := Nat.mul_le_mul_right _ hj
  rw [Nat.succ_mul] at hlt
  exact fun hp => hp.2.2 ⟨by omega, by omega⟩

/-- The sums of `move_window` do not wrap. -/
theorem fatEnd_eq (h : fs.FatsFit) :
    (fs.fatbase + fs.sectsFat) % 0x100000000 = fs.fatbase + fs.sectsFat := by
  have hmul : 1 * fs.sectsFat ≤ fs.nFats * fs.sectsFat := Nat.mul_le_mul_right _ h.copies
  have hfit := h.fit
  exact Nat.mod_eq_of_lt (by omega)

theorem copy_lt (h : fs.FatsFit) (hfat : fs.winsect < fs.fatbase + fs.sectsFat) {j : ℕ}
    (hj : j < fs.nFats) : fs.winsect + j * fs.sectsFat < 0x100000000 := by
  have hmul : (j + 1) * fs.sectsFat ≤ fs.nFats * fs.sectsFat := Nat.mul_le_mul_right _ hj
  have hfit := h.fit
  rw [Nat.succ_mul] at hmul
  omega

theorem reflect_succ {n : ℕ} (hmount : (reflect fs n).toMount = fs.toMount)
    (hsect : (reflect fs n).winsect = fs.winsect)
    (hlt : fs.winsect + (n + 1) * fs.sectsFat < 0x100000000) :
    reflect fs (n + 1) = { reflect fs n with
      drive := (diskWrite (reflect fs n).win
        ((reflect fs n).winsect + (n + 1) * (reflect fs n).sectsFat) 1
        (reflect fs n).drive).2 } := by
  have hlt' : (reflect fs n).winsect + (n + 1) * (reflect fs n).sectsFat < 0x100000000 := by
    rwa [hsect, hmount]
  rw [reflect]
  dsimp only
  rw [Nat.mod_eq_of_lt hlt']

/-- The writes to the other copies are not seen. -/
theorem reflect_spec (h : WinOk fs) (hw : fs.winsect ≠ 0)
    (hfat : fs.winsect < fs.fatbase + fs.sectsFat) {n : ℕ} (hn : n < fs.nFats) :
    Moved fs (reflect fs n) ∧ (reflect fs n).winsect = fs.winsect ∧ (reflect fs n).win = fs.win ∧
      (reflect fs n).wflag = fs.wflag := by
  induction n with
  | zero => exact ⟨Moved.refl h, rfl, rfl, rfl⟩
  | succ n ih =>
    obtain ⟨hmoved, hsect, hwin, hflag⟩ := ih (by omega)
    have hstep := reflect_succ hmoved.mount hsect (copy_lt h.base hfat hn)
    generalize reflect fs n = fs1 at hmoved hsect hwin hflag hstep
    have hcopy : ¬fs.Plain (fs.winsect + (n + 1) * fs.sectsFat) :=
      not_plain_copy (h.plain hw).1 hfat hn (Nat.succ_pos n)
    obtain ⟨hserved, hother, -, -⟩ :=
      diskWrite_one fs1.win fs1.drive (fs1.winsect + (n + 1) * fs1.sectsFat)
    rw [hsect, hmoved.mount] at hother
    have hseen : ∀ x, fs.Plain (x / 512) →
        (diskWrite fs1.win (fs1.winsect + (n + 1) * fs1.sectsFat) 1 fs1.drive).2.medium x =
          fs1.drive.medium x := by
      intro x hp
      rw [hsect, hmoved.mount]
      exact hother x fun heq => hcopy (heq ▸ hp)
    rw [hstep]
    refine ⟨⟨hmoved.mount, hmoved.last, hmoved.free, hserved.trans hmoved.served, ?_,
      ⟨hmoved.winOk.base, hmoved.winOk.none, hmoved.winOk.plain, fun hf h0 k hk => ?_⟩⟩, hsect, hwin,
      hflag⟩
    · rw [← hmoved.volume]
      refine volume_congr rfl rfl rfl fun x hp _ => ?_
      rw [hmoved.mount] at hp
      exact hseen x hp
    · have hplain := hmoved.winOk.plain h0
      have hdiv : (512 * fs1.winsect + k) / 512 = fs1.winsect := by omega
      rw [hmoved.mount, ← hdiv] at hplain
      exact (hmoved.winOk.clean hf h0 k hk).trans (hseen _ hplain).symm

theorem writeBack_spec (h : WinOk fs) :
    let r := writeBack fs
    Moved fs r.2 ∧ r.2.winsect = fs.winsect ∧ r.2.win = fs.win ∧ (r.1 = .ok → r.2.wflag = false) ∧
      (Reliable fs → r.1 = .ok) := by
  unfold writeBack
  by_cases hf : fs.wflag = true
  · rw [if_pos hf]
    have hw : fs.winsect ≠ 0 := fun h0 => by
      rw [h.none h0] at hf
      cases hf
    obtain ⟨hserved, hother, hdata, hok⟩ := diskWrite_one fs.win fs.drive fs.winsect
    generalize diskWrite fs.win fs.winsect 1 fs.drive = r at hserved hother hdata hok
    obtain ⟨res, drive⟩ := r
    have hvol : ∀ wflag, volume { fs with drive := drive, wflag := wflag } = volume fs := fun wflag =>
      volume_congr rfl rfl rfl fun x _ hx => hother x hx
    cases res with
    | error =>
      refine ⟨⟨rfl, rfl, rfl, hserved, hvol fs.wflag, h.base, h.none, h.plain, ?_⟩, rfl, rfl,
        by rintro ⟨⟩, fun hr => ?_⟩
      · intro hf'
        rw [hf] at hf'
        cases hf'
      · cases hok (le_trans (by decide) (hr _))
    | ok =>
      have hclean : WinOk { fs with drive := drive, wflag := false } :=
        ⟨h.base, fun _ => rfl, h.plain, fun _ _ k hk => (hdata rfl k hk).symm⟩
      have hmoved : Moved fs { fs with drive := drive, wflag := false } :=
        ⟨rfl, rfl, rfl, hserved, hvol false, hclean⟩
      by_cases hfat : fs.winsect < fs.fatbase + fs.sectsFat
      · dsimp only
        rw [fatEnd_eq h.base, if_pos hfat]
        obtain ⟨hm, hs, hwin, hflag⟩ := reflect_spec hclean hw hfat (n := fs.nFats - 1)
          (Nat.sub_lt h.base.copies Nat.one_pos)
        exact ⟨hmoved.trans hm, hs, hwin, fun _ => hflag, fun _ => rfl⟩
      · dsimp only
        rw [fatEnd_eq h.base, if_neg hfat]
        exact ⟨hmoved, rfl, rfl, fun _ => rfl, fun _ => rfl⟩
  · rw [if_neg hf]
    exact ⟨Moved.refl h, rfl, rfl, fun _ => Bool.not_eq_true _ ▸ hf, fun _ => rfl⟩

theorem loadWindow_spec (h : WinOk fs) (hclean : fs.wflag = false) (hp : fs.Plain sector)
    (hne : fs.winsect ≠ sector) :
    let r := loadWindow sector fs
    Moved fs r.2 ∧ (r.1 = .ok ∨ r.1 = .diskErr) ∧
      (r.1 = .ok → r.2.winsect = sector ∧ r.2.wflag = false) ∧ (Reliable fs → r.1 = .ok) := by
  obtain ⟨hserved, hmedium, hkeep, hread, hok⟩ := diskRead_one fs.win fs.drive sector
  have hs0 : sector ≠ 0 := fun h0 => h.not_plain_zero (h0 ▸ hp)
  unfold loadWindow
  generalize diskRead fs.win 0 sector 1 fs.drive = r at hserved hmedium hkeep hread hok
  obtain ⟨res, win, drive⟩ := r
  cases res with
  | error =>
    obtain rfl : win = fs.win := hkeep rfl
    refine ⟨⟨rfl, rfl, rfl, hserved, ?_, h.base, h.none, h.plain, fun hf h0 k hk => ?_⟩,
      Or.inr rfl, by rintro ⟨⟩, fun hr => ?_⟩
    · exact volume_congr rfl rfl rfl fun x _ _ => congrFun hmedium x
    · exact (h.clean hf h0 k hk).trans (congrFun hmedium _).symm
    · cases hok (le_trans (by decide) (hr _))
  | ok =>
    have hwin : ∀ k < 512, win k = drive.medium (512 * sector + k) := fun k hk =>
      (hread rfl k hk).trans (congrFun hmedium _).symm
    refine ⟨⟨rfl, rfl, rfl, hserved, ?_, h.base, fun h0 => absurd h0 hs0, fun _ => hp,
      fun _ _ => hwin⟩, Or.inl rfl, fun _ => ⟨rfl, hclean⟩, fun _ => rfl⟩
    funext x
    by_cases hpx : fs.Plain (x / 512)
    · by_cases hx : x / 512 = sector
      · rw [volume_medium hpx (by omega)]
        refine (@volume_win { fs with win := win, drive := drive, winsect := sector } x
          hpx hx).trans ((hread rfl _ (Nat.mod_lt _ (by decide))).trans ?_)
        rw [← hx, Nat.div_add_mod]
      · refine (@volume_medium { fs with win := win, drive := drive, winsect := sector } x
          hpx hx).trans ((congrFun hmedium x).trans ?_)
        by_cases hx' : x / 512 = fs.winsect
        · have h0 : fs.winsect ≠ 0 := fun h0 => h.not_plain_zero (h0 ▸ hx' ▸ hpx)
          rw [volume_win hpx hx', h.clean hclean h0 _ (Nat.mod_lt _ (by decide)), ← hx',
            Nat.div_add_mod]
        · rw [volume_medium hpx hx']
    · rw [volume_hidden hpx]
      exact volume_hidden hpx

/-- **Moving the window** keeps the volume, also when an access fails. -/
theorem moveWindow_spec (h : WinOk fs) (hs : sector = 0 ∨ fs.Plain sector) :
    let r := moveWindow sector fs
    Moved fs r.2 ∧ (r.1 = .ok ∨ r.1 = .diskErr) ∧
      (r.1 = .ok → sector ≠ 0 → r.2.winsect = sector) ∧
      (r.1 = .ok → sector = 0 → r.2.wflag = false ∧ r.2.winsect = fs.winsect) ∧
      (Reliable fs → r.1 = .ok) := by
  unfold moveWindow
  by_cases heq : fs.winsect = sector
  · rw [if_pos heq]
    exact ⟨Moved.refl h, Or.inl rfl, fun _ _ => heq,
      fun _ h0 => ⟨h.none (heq.trans h0), rfl⟩, fun _ => rfl⟩
  · rw [if_neg heq]
    obtain ⟨hmoved, hsect, hwin, hflag, hok⟩ := writeBack_spec h
    generalize writeBack fs = r at hmoved hsect hwin hflag hok
    obtain ⟨res, fs1⟩ := r
    cases res with
    | error =>
      exact ⟨hmoved, Or.inr rfl, by rintro ⟨⟩, by rintro ⟨⟩, fun hr => by cases hok hr⟩
    | ok =>
      dsimp only
      rcases eq_or_ne sector 0 with h0 | h0
      · rw [if_pos h0]
        exact ⟨hmoved, Or.inl rfl, fun _ h0' => absurd h0 h0', fun _ _ => ⟨hflag rfl, hsect⟩,
          fun _ => rfl⟩
      · rw [if_neg h0]
        have hp : fs1.Plain sector := by
          rw [hmoved.mount]
          exact hs.resolve_left h0
        obtain ⟨hload, hres, hat, hreads⟩ :=
          loadWindow_spec hmoved.winOk (hflag rfl) hp (hsect ▸ heq)
        exact ⟨hmoved.trans hload, hres, fun hr _ => (hat hr).1, fun _ h0' => absurd h0' h0,
          fun hr => hreads (hmoved.reliable hr)⟩

/-- The window stays on its sector or is moved to another one. -/
theorem moveWindow_winsect (h : WinOk fs) (hw : fs.winsect ≠ 0) :
    (moveWindow sector fs).2.winsect ≠ 0 := by
  unfold moveWindow
  split
  · exact hw
  · obtain ⟨-, hsect, -, -, -⟩ := writeBack_spec h
    generalize writeBack fs = r at hsect
    obtain ⟨res, fs1⟩ := r
    have hw1 : fs1.winsect ≠ 0 := hsect.trans_ne hw
    cases res with
    | error => exact hw1
    | ok =>
      dsimp only
      split
      · exact hw1
      · next h0 =>
        unfold loadWindow
        generalize diskRead fs1.win 0 sector 1 fs1.drive = r
        obtain ⟨res, win, drive⟩ := r
        cases res with
        | error => exact hw1
        | ok => exact h0

/-- A store into the window. -/
def poke (fs : Fatfs) (k n : ℕ) (f : ℕ → Byte) : Fatfs :=
  { fs with win := fill fs.win k n f, wflag := true }

theorem poke_spec (h : WinOk fs) (hw : fs.winsect ≠ 0) {k n : ℕ} (hk : k + n ≤ 512) (f : ℕ → Byte) :
    volume (poke fs k n f) = fill (volume fs) (512 * fs.winsect + k) n f ∧
      WinOk (poke fs k n f) := by
  refine ⟨?_, h.base, fun h0 => absurd h0 hw, h.plain, by rintro ⟨⟩⟩
  have hplain := h.plain hw
  funext x
  by_cases hx : x / 512 = fs.winsect
  · have hp : fs.Plain (x / 512) := hx ▸ hplain
    refine (@volume_win (poke fs k n f) x hp hx).trans ?_
    simp only [poke, fill]
    by_cases hin : 512 * fs.winsect + k ≤ x ∧ x < 512 * fs.winsect + k + n
    · rw [if_pos hin, if_pos (by omega)]
      congr 1
      omega
    · rw [if_neg hin, if_neg (by omega), volume_win hp hx]
  · rw [fill_other _ (by omega)]
    by_cases hp : fs.Plain (x / 512)
    · rw [volume_medium hp hx]
      exact @volume_medium (poke fs k n f) x hp hx
    · rw [volume_hidden hp]
      exact @volume_hidden (poke fs k n f) x hp

theorem win_eq (h : WinOk fs) (hw : fs.winsect ≠ 0) {k : ℕ} (hk : k < 512) :
    fs.win k = volume fs (512 * fs.winsect + k) := by
  have hdiv : (512 * fs.winsect + k) / 512 = fs.winsect := by omega
  rw [volume_win (by rw [hdiv]; exact h.plain hw) hdiv, show (512 * fs.winsect + k) % 512 = k by omega]

/-! ## What is on the medium -/

/-- The volume that a mount would find. -/
def onMedium (fs : Fatfs) : Mem := fun x => if fs.Plain (x / 512) then fs.drive.medium x else 0#8

theorem onMedium_eq (h : WinOk fs) (hf : fs.wflag = false) : onMedium fs = volume fs := by
  funext x
  rw [onMedium]
  split
  · next hp =>
    by_cases hx : x / 512 = fs.winsect
    · have h0 : fs.winsect ≠ 0 := fun h0 => h.not_plain_zero (h0 ▸ hx ▸ hp)
      rw [volume_win hp hx, h.clean hf h0 _ (Nat.mod_lt _ (by decide)), ← hx, Nat.div_add_mod]
    · rw [volume_medium hp hx]
  · next hp => rw [volume_hidden hp]

/-- **`sync`** keeps the volume, and when it succeeds all of it is on the medium. -/
theorem sync_spec (h : WinOk fs) (hfsi : ¬fs.Plain fs.fsiSector) :
    let r := sync fs
    Moved fs r.2 ∧ (r.1 = .ok ∨ r.1 = .diskErr) ∧ (r.1 = .ok → onMedium r.2 = volume fs) ∧
      (Reliable fs → r.1 = .ok) := by
  obtain ⟨hmoved, hres, -, hflag, hok⟩ := moveWindow_spec h (Or.inl rfl)
  unfold sync
  generalize moveWindow 0 fs = r at hmoved hres hflag hok
  obtain ⟨res, fs1⟩ := r
  rcases hres with hres | hres
  · obtain rfl : res = .ok := hres
    obtain ⟨hf, -⟩ := hflag rfl rfl
    dsimp only
    split
    · obtain ⟨hserved, hother, -, -⟩ :=
        diskWrite_one (fsinfo fs1.freeClust fs1.lastClust) fs1.drive fs1.fsiSector
      generalize (diskWrite (fsinfo fs1.freeClust fs1.lastClust) fs1.fsiSector 1 fs1.drive).2 = drive
        at hserved hother
      have hwin : WinOk { fs1 with winsect := 0, win := fsinfo fs1.freeClust fs1.lastClust,
                                   drive := drive, fsiFlag := false } :=
        ⟨hmoved.winOk.base, fun _ => hf, fun h0 => absurd rfl h0, fun _ h0 => absurd rfl h0⟩
      have hseen : ∀ x, fs1.Plain (x / 512) → drive.medium x = fs1.drive.medium x := by
        intro x hp
        refine hother x fun heq => hfsi ?_
        rw [hmoved.mount] at hp heq
        exact heq ▸ hp
      have hmedium : onMedium { fs1 with winsect := 0, win := fsinfo fs1.freeClust fs1.lastClust,
                                         drive := drive, fsiFlag := false } = volume fs := by
        rw [← hmoved.volume, ← onMedium_eq hmoved.winOk hf]
        funext x
        by_cases hp : fs1.Plain (x / 512)
        · rw [onMedium, onMedium, if_pos hp, if_pos hp]
          exact hseen x hp
        · rw [onMedium, onMedium, if_neg hp, if_neg hp]
      refine ⟨⟨hmoved.mount, hmoved.last, hmoved.free, hserved.trans hmoved.served, ?_, hwin⟩,
        Or.inl rfl, fun _ => hmedium, fun _ => rfl⟩
      exact (onMedium_eq hwin hf).symm.trans hmedium
    · exact ⟨hmoved, Or.inl rfl, fun _ => (onMedium_eq hmoved.winOk hf).trans hmoved.volume,
        fun _ => rfl⟩
  · obtain rfl : res = .diskErr := hres
    exact ⟨hmoved, Or.inr rfl, by rintro ⟨⟩, fun hr => by cases hok hr⟩

/-! ## The copies of the FAT -/

/-- Every copy of the FAT is like the first one. -/
def Mirrored (fs : Fatfs) : Prop :=
  ∀ j < fs.nFats, ∀ q < fs.sectsFat, ∀ k < 512,
    fs.drive.medium (512 * (fs.fatbase + q + j * fs.sectsFat) + k) =
      fs.drive.medium (512 * (fs.fatbase + q) + k)

theorem copy_injective {S q q' j j' : ℕ} (hq : q < S) (hq' : q' < S)
    (h : q + j * S = q' + j' * S) : q = q' ∧ j = j' := by
  have hj : j = j' := by
    have h1 : (q + j * S) / S = j := by
      rw [Nat.add_mul_div_right _ _ (by omega), Nat.div_eq_of_lt hq, Nat.zero_add]
    have h2 : (q' + j' * S) / S = j' := by
      rw [Nat.add_mul_div_right _ _ (by omega), Nat.div_eq_of_lt hq', Nat.zero_add]
    rw [← h1, ← h2, h]
  subst hj
  exact ⟨Nat.add_right_cancel h, rfl⟩

theorem reflect_medium (hr : Reliable fs) (hfit : fs.FatsFit)
    (hfat : fs.winsect < fs.fatbase + fs.sectsFat) {n : ℕ} (hn : n < fs.nFats) :
    (reflect fs n).toMount = fs.toMount ∧ (reflect fs n).win = fs.win ∧
      (reflect fs n).winsect = fs.winsect ∧ (reflect fs n).drive.served = fs.drive.served ∧
      (∀ x, (∀ j, 1 ≤ j → j ≤ n → x / 512 ≠ fs.winsect + j * fs.sectsFat) →
        (reflect fs n).drive.medium x = fs.drive.medium x) ∧
      (∀ j, 1 ≤ j → j ≤ n → ∀ k < 512,
        (reflect fs n).drive.medium (512 * (fs.winsect + j * fs.sectsFat) + k) = fs.win k) := by
  induction n with
  | zero => exact ⟨rfl, rfl, rfl, rfl, fun _ _ => rfl, fun j h1 h2 => absurd h1 (by omega)⟩
  | succ n ih =>
    obtain ⟨hmount, hwin, hsect, hserved, hother, hcopies⟩ := ih (by omega)
    have hstep := reflect_succ hmount hsect (copy_lt hfit hfat hn)
    generalize reflect fs n = fs1 at hstep hmount hwin hsect hserved hother hcopies
    obtain ⟨hserved1, hother1, hdata1, hok1⟩ :=
      diskWrite_one fs1.win fs1.drive (fs1.winsect + (n + 1) * fs1.sectsFat)
    have hok : 1 ≤ fs1.drive.served fs1.drive.accesses := by
      rw [hserved]
      exact le_trans (by decide) (hr _)
    have hdata := hdata1 (hok1 hok)
    rw [hsect, hmount] at hother1 hdata
    have hmed : (reflect fs (n + 1)).drive.medium =
        (diskWrite fs1.win (fs.winsect + (n + 1) * fs.sectsFat) 1 fs1.drive).2.medium := by
      rw [hstep, hsect, hmount]
    rw [hmed, hstep]
    refine ⟨hmount, hwin, hsect, hserved1.trans hserved, fun x hx => ?_, fun j h1 h2 k hk => ?_⟩
    · exact (hother1 x (hx (n + 1) (by omega) (le_refl _))).trans
        (hother x fun j h1 h2 => hx j h1 (by omega))
    · by_cases hj : fs.winsect + j * fs.sectsFat = fs.winsect + (n + 1) * fs.sectsFat
      · rw [hj]
        exact (hdata k hk).trans (congrFun hwin k)
      · have hjn : j ≤ n := by
          by_contra hgt
          exact hj (by rw [show j = n + 1 by omega])
        refine (hother1 _ ?_).trans (hcopies j h1 hjn k hk)
        rwa [show (512 * (fs.winsect + j * fs.sectsFat) + k) / 512 =
          fs.winsect + j * fs.sectsFat by omega]

theorem writeBack_mirrored (h : WinOk fs) (hr : Reliable fs) (hm : Mirrored fs) :
    Mirrored (writeBack fs).2 := by
  unfold writeBack
  by_cases hf : fs.wflag = true
  · rw [if_pos hf]
    have hw : fs.winsect ≠ 0 := fun h0 => by
      rw [h.none h0] at hf
      cases hf
    have hplain := h.plain hw
    obtain ⟨hserved, hother, hdata, hok⟩ := diskWrite_one fs.win fs.drive fs.winsect
    have hres := hok (le_trans (by decide) (hr _))
    generalize diskWrite fs.win fs.winsect 1 fs.drive = r at hserved hother hdata hres
    obtain ⟨res, drive⟩ := r
    obtain rfl : res = .ok := hres
    dsimp only
    rw [fatEnd_eq h.base]
    by_cases hfat : fs.winsect < fs.fatbase + fs.sectsFat
    · rw [if_pos hfat]
      have hr1 : Reliable { fs with drive := drive, wflag := false } := by
        intro i
        change 255 ≤ drive.served i
        rw [hserved]
        exact hr i
      obtain ⟨hmount, -, -, -, hother1, hcopies⟩ := reflect_medium hr1 h.base hfat
        (n := fs.nFats - 1) (Nat.sub_lt h.base.copies Nat.one_pos)
      generalize reflect { fs with drive := drive, wflag := false } (fs.nFats - 1) = fs1
        at hmount hother1 hcopies
      have hbase : fs.fatbase ≤ fs.winsect := hplain.1
      intro j hj q hq k hk
      rw [hmount] at hj hq ⊢
      change j < fs.nFats at hj
      change q < fs.sectsFat at hq
      change fs1.drive.medium (512 * (fs.fatbase + q + j * fs.sectsFat) + k) =
        fs1.drive.medium (512 * (fs.fatbase + q) + k)
      -- the written sector is sector `winsect - fatbase` of each copy
      by_cases hqw : fs.fatbase + q = fs.winsect
      · have hfirst : fs1.drive.medium (512 * (fs.fatbase + q) + k) = fs.win k := by
          rw [hqw]
          refine (hother1 _ fun i h1 h2 heq => ?_).trans (hdata rfl k hk)
          have hmul : 1 * fs.sectsFat ≤ i * fs.sectsFat := Nat.mul_le_mul_right _ h1
          change (512 * fs.winsect + k) / 512 = fs.winsect + i * fs.sectsFat at heq
          change i ≤ fs.nFats - 1 at h2
          omega
        rw [hfirst]
        rcases Nat.eq_zero_or_pos j with rfl | hpos
        · rw [Nat.zero_mul, Nat.add_zero]
          exact hfirst
        · rw [hqw]
          exact hcopies j hpos (by omega) k hk
      · have hkeep : ∀ i < fs.nFats, fs1.drive.medium (512 * (fs.fatbase + q + i * fs.sectsFat) + k) =
            fs.drive.medium (512 * (fs.fatbase + q + i * fs.sectsFat) + k) := by
          intro i hi
          have hdiv : (512 * (fs.fatbase + q + i * fs.sectsFat) + k) / 512 =
            fs.fatbase + q + i * fs.sectsFat := by omega
          have hne : ∀ i', fs.fatbase + q + i * fs.sectsFat ≠ fs.winsect + i' * fs.sectsFat := by
            intro i' heq
            obtain ⟨hqq, -⟩ := @copy_injective fs.sectsFat q (fs.winsect - fs.fatbase) i i' hq
              (by omega) (by omega)
            omega
          refine (hother1 _ fun i' _ _ => hdiv.trans_ne (hne i')).trans (hother _ ?_)
          have hzero := hne 0
          rw [Nat.zero_mul, Nat.add_zero] at hzero
          exact hdiv.trans_ne hzero
        have h0 := hkeep 0 (by omega)
        rw [Nat.zero_mul, Nat.add_zero] at h0
        rw [hkeep j hj, h0]
        exact hm j hj q hq k hk
    · rw [if_neg hfat]
      -- the window is behind the FATs
      have hbehind : fs.fatbase + fs.nFats * fs.sectsFat ≤ fs.winsect := by
        by_contra hlt
        exact hplain.2.2 ⟨not_lt.mp hfat, not_le.mp hlt⟩
      intro j hj q hq k hk
      have hmul : (j + 1) * fs.sectsFat ≤ fs.nFats * fs.sectsFat := Nat.mul_le_mul_right _ hj
      rw [Nat.succ_mul] at hmul
      have hq' : q < fs.sectsFat := hq
      refine (hother _ ?_).trans ((hm j hj q hq k hk).trans (hother _ ?_).symm)
      · change (512 * (fs.fatbase + q + j * fs.sectsFat) + k) / 512 ≠ fs.winsect
        omega
      · omega
  · rw [if_neg hf]
    exact hm

theorem moveWindow_mirrored (h : WinOk fs) (hr : Reliable fs) (hm : Mirrored fs) (sector : ℕ) :
    Mirrored (moveWindow sector fs).2 := by
  unfold moveWindow
  split
  · exact hm
  · have hback := writeBack_mirrored h hr hm
    generalize writeBack fs = r at hback
    obtain ⟨res, fs1⟩ := r
    cases res with
    | error => exact hback
    | ok =>
      dsimp only
      split
      · exact hback
      · unfold loadWindow
        obtain ⟨-, hmedium, -, -, -⟩ := diskRead_one fs1.win fs1.drive sector
        generalize diskRead fs1.win 0 sector 1 fs1.drive = r at hmedium
        obtain ⟨res, win, drive⟩ := r
        have hmed : drive.medium = fs1.drive.medium := hmedium
        have hkeep : ∀ winsect,
            Mirrored { fs1 with win := win, drive := drive, winsect := winsect } := by
          intro winsect j hj q hq k hk
          change drive.medium (512 * (fs1.fatbase + q + j * fs1.sectsFat) + k) =
            drive.medium (512 * (fs1.fatbase + q) + k)
          rw [hmed]
          exact hback j hj q hq k hk
        cases res with
        | error => exact hkeep fs1.winsect
        | ok => exact hkeep sector

theorem sync_mirrored (h : WinOk fs) (hr : Reliable fs) (hfsi : fs.fsiSector < fs.fatbase)
    (hm : Mirrored fs) : Mirrored (sync fs).2 := by
  have hmoved := (moveWindow_spec h (Or.inl rfl)).1
  have hback := moveWindow_mirrored h hr hm 0
  unfold sync
  generalize moveWindow 0 fs = r at hmoved hback
  obtain ⟨res, fs1⟩ := r
  cases res <;> try exact hback
  dsimp only
  split
  · obtain ⟨-, hother, -, -⟩ :=
      diskWrite_one (fsinfo fs1.freeClust fs1.lastClust) fs1.drive fs1.fsiSector
    have hlow : fs1.fsiSector < fs1.fatbase := by
      rw [hmoved.mount]
      exact hfsi
    intro j hj q hq k hk
    refine (hother _ ?_).trans ((hback j hj q hq k hk).trans (hother _ ?_).symm)
    · change (512 * (fs1.fatbase + q + j * fs1.sectsFat) + k) / 512 ≠ fs1.fsiSector
      omega
    · change (512 * (fs1.fatbase + q) + k) / 512 ≠ fs1.fsiSector
      omega
  · exact hback

/-! ## What each step leaves on the medium -/

/-- Each sector stays as it was on the medium, or becomes what it is in the volume. -/
def Persists (fs fs' : Fatfs) : Prop :=
  ∀ s, (∀ x, x / 512 = s → onMedium fs' x = onMedium fs x) ∨
    ∀ x, x / 512 = s → onMedium fs' x = volume fs x

theorem diskWrite_error {buff : ℕ → Byte} {d : Drive} {s : ℕ}
    (h : (diskWrite buff s 1 d).1 = .error) : (diskWrite buff s 1 d).2.medium = d.medium := by
  rcases Nat.lt_or_ge (d.served d.accesses) 1 with hlt | hge
  · funext x
    simp only [diskWrite, Nat.lt_one_iff.mp hlt]
    exact fill_other _ (by omega)
  · cases h.symm.trans ((diskWrite_one buff d s).2.2.2 hge)

theorem onMedium_congr (hm : fs'.toMount = fs.toMount)
    (hd : ∀ x, fs.Plain (x / 512) → fs'.drive.medium x = fs.drive.medium x) :
    onMedium fs' = onMedium fs := by
  funext x
  rw [onMedium, onMedium, hm]
  split
  · next hp => exact hd x hp
  · rfl

theorem reflect_onMedium (hfit : fs.FatsFit) (hplain : fs.Plain fs.winsect)
    (hfat : fs.winsect < fs.fatbase + fs.sectsFat) {n : ℕ} (hn : n < fs.nFats) :
    (reflect fs n).toMount = fs.toMount ∧ (reflect fs n).winsect = fs.winsect ∧
      onMedium (reflect fs n) = onMedium fs := by
  induction n with
  | zero => exact ⟨rfl, rfl, rfl⟩
  | succ n ih =>
    obtain ⟨hmount, hsect, hon⟩ := ih (by omega)
    have hstep := reflect_succ hmount hsect (copy_lt hfit hfat hn)
    generalize reflect fs n = fs1 at hstep hmount hsect hon
    obtain ⟨-, hother, -, -⟩ :=
      diskWrite_one fs1.win fs1.drive (fs1.winsect + (n + 1) * fs1.sectsFat)
    have hsame : onMedium { fs1 with
        drive := (diskWrite fs1.win (fs1.winsect + (n + 1) * fs1.sectsFat) 1 fs1.drive).2 } =
          onMedium fs1 := by
      refine onMedium_congr rfl fun x hp => hother x fun heq => ?_
      rw [hmount, heq, hsect, hmount] at hp
      exact not_plain_copy hplain.1 hfat hn (Nat.succ_pos n) hp
    rw [hstep]
    exact ⟨hmount, hsect, hsame.trans hon⟩

theorem writeBack_persists (h : WinOk fs) : Persists fs (writeBack fs).2 := by
  unfold writeBack
  by_cases hf : fs.wflag = true
  · rw [if_pos hf]
    have hw : fs.winsect ≠ 0 := fun h0 => by
      rw [h.none h0] at hf
      cases hf
    have hplain := h.plain hw
    obtain ⟨-, hother, hdata, -⟩ := diskWrite_one fs.win fs.drive fs.winsect
    have herror := @diskWrite_error fs.win fs.drive fs.winsect
    generalize diskWrite fs.win fs.winsect 1 fs.drive = r at hother hdata herror
    obtain ⟨res, drive⟩ := r
    cases res with
    | error =>
      have hsame : onMedium { fs with drive := drive } = onMedium fs :=
        onMedium_congr rfl fun x _ => congrFun (herror rfl) x
      exact fun s => Or.inl fun x _ => congrFun hsame x
    | ok =>
      have hwritten : Persists fs { fs with drive := drive, wflag := false } := by
        intro s
        rcases eq_or_ne s fs.winsect with rfl | hs
        · refine Or.inr fun x hx => ?_
          rw [volume_win (hx ▸ hplain) hx]
          have hp : fs.Plain (x / 512) := hx ▸ hplain
          refine (if_pos hp).trans ?_
          have hat := hdata rfl _ (Nat.mod_lt x (by decide : 0 < 512))
          rwa [← hx, Nat.div_add_mod] at hat
        · refine Or.inl fun x hx => ?_
          change (if fs.Plain (x / 512) then drive.medium x else 0#8) = onMedium fs x
          rw [hother x (hx ▸ hs)]
          rfl
      dsimp only
      rw [fatEnd_eq h.base]
      by_cases hfat : fs.winsect < fs.fatbase + fs.sectsFat
      · rw [if_pos hfat]
        obtain ⟨-, -, hon⟩ := @reflect_onMedium { fs with drive := drive, wflag := false } h.base
          hplain hfat (fs.nFats - 1) (Nat.sub_lt h.base.copies Nat.one_pos)
        intro s
        rw [hon]
        exact hwritten s
      · rw [if_neg hfat]
        exact hwritten
  · rw [if_neg hf]
    exact fun s => Or.inl fun x _ => rfl

theorem moveWindow_persists (h : WinOk fs) (sector : ℕ) : Persists fs (moveWindow sector fs).2 := by
  unfold moveWindow
  split
  · exact fun s => Or.inl fun x _ => rfl
  · have hback := writeBack_persists h
    generalize writeBack fs = r at hback
    obtain ⟨res, fs1⟩ := r
    cases res with
    | error => exact hback
    | ok =>
      dsimp only
      split
      · exact hback
      · unfold loadWindow
        obtain ⟨-, hmedium, -, -, -⟩ := diskRead_one fs1.win fs1.drive sector
        generalize diskRead fs1.win 0 sector 1 fs1.drive = r at hmedium
        obtain ⟨res, win, drive⟩ := r
        have hkeep : ∀ winsect,
            onMedium { fs1 with win := win, drive := drive, winsect := winsect } = onMedium fs1 :=
          fun winsect => onMedium_congr rfl fun x _ => congrFun hmedium x
        intro s
        cases res with
        | error =>
          have hsame := hkeep fs1.winsect
          exact (hback s).imp (fun hb x hx => (congrFun hsame x).trans (hb x hx))
            (fun hb x hx => (congrFun hsame x).trans (hb x hx))
        | ok =>
          have hsame := hkeep sector
          exact (hback s).imp (fun hb x hx => (congrFun hsame x).trans (hb x hx))
            (fun hb x hx => (congrFun hsame x).trans (hb x hx))

theorem sync_persists (h : WinOk fs) (hfsi : ¬fs.Plain fs.fsiSector) : Persists fs (sync fs).2 := by
  have hmoved := (moveWindow_spec h (Or.inl rfl)).1
  have hback := moveWindow_persists h 0
  unfold sync
  generalize moveWindow 0 fs = r at hmoved hback
  obtain ⟨res, fs1⟩ := r
  cases res <;> try exact hback
  dsimp only
  split
  · obtain ⟨-, hother, -, -⟩ :=
      diskWrite_one (fsinfo fs1.freeClust fs1.lastClust) fs1.drive fs1.fsiSector
    have hsame : onMedium { fs1 with
        winsect := 0, win := fsinfo fs1.freeClust fs1.lastClust, fsiFlag := false,
        drive := (diskWrite (fsinfo fs1.freeClust fs1.lastClust) fs1.fsiSector 1 fs1.drive).2 } =
          onMedium fs1 := by
      refine onMedium_congr rfl fun x hp => hother x fun heq => hfsi ?_
      rw [hmoved.mount] at hp heq
      exact heq ▸ hp
    exact fun s => (hback s).imp (fun hb x hx => (congrFun hsame x).trans (hb x hx))
      (fun hb x hx => (congrFun hsame x).trans (hb x hx))
  · exact hback

end Window

/-! ## All runs -/

/-- What is done with the window: load a sector, store into one, or `sync`. -/
inductive WindowOp
  | load (sector : ℕ)
  | store (sector k n : ℕ) (f : ℕ → Byte)
  | sync

/-- A run: the file system object, the flat memory it stands for, what that memory ever was, and
whether the copies of the FAT are known to have been alike at the start. -/
structure WindowRun where
  fs : Fatfs
  flat : Mem
  past : List Mem
  alike : Bool

def windowStep (r : WindowRun) : WindowOp → WindowRun
  | .load sector => { r with fs := (moveWindow sector r.fs).2 }
  | .store sector k n f =>
    match moveWindow sector r.fs with
    | (.ok, fs) =>
      let flat := fill r.flat (512 * sector + k) n f
      { r with fs := poke fs k n f, flat := flat, past := flat :: r.past }
    | (_, fs) => { r with fs := fs }
  | .sync => { r with fs := (sync r.fs).2 }

/-- On a valid mount, everything starts on the medium. -/
def windowMachine : Machine WindowRun WindowOp where
  init r := r.fs.Valid ∧ WinOk r.fs ∧ r.flat = volume r.fs ∧ onMedium r.fs = r.flat ∧
    r.past = [r.flat] ∧ (r.alike = true → Mirrored r.fs)
  step r op := some (windowStep r op)

/-- The sectors are of the volume and stores stay inside them. -/
def InVolume (r : WindowRun) : WindowOp → Prop
  | .load sector => r.fs.Plain sector
  | .store sector k n _ => r.fs.Plain sector ∧ k + n ≤ 512
  | .sync => True

/-- The volume is the flat memory; what the medium has of each sector, the flat memory had once. -/
structure Windowed (r : WindowRun) : Prop where
  winOk : WinOk r.fs
  fsi : r.fs.fsiSector < r.fs.fatbase
  flat : volume r.fs = r.flat
  now : r.flat ∈ r.past
  medium : ∀ s, ∃ m ∈ r.past, ∀ x, x / 512 = s → onMedium r.fs x = m x
  mirrored : r.alike = true → Reliable r.fs → Mirrored r.fs

section Runs

variable {r r' : WindowRun}

theorem Windowed.not_plain (h : Windowed r) : ¬r.fs.Plain r.fs.fsiSector := fun hp =>
  absurd h.fsi (not_lt.mpr hp.1)

theorem Windowed.moved (h : Windowed r) {fs : Fatfs} (hm : Moved r.fs fs) (hp : Persists r.fs fs)
    (hmir : Reliable r.fs → Mirrored r.fs → Mirrored fs) : Windowed { r with fs := fs } := by
  refine ⟨hm.winOk, ?_, hm.volume.trans h.flat, h.now, fun s => ?_, fun ha hr => ?_⟩
  · change fs.fsiSector < fs.fatbase
    rw [hm.mount]
    exact h.fsi
  · obtain hold | hnew := hp s
    · obtain ⟨m, hmem, hx⟩ := h.medium s
      exact ⟨m, hmem, fun x hs => (hold x hs).trans (hx x hs)⟩
    · exact ⟨r.flat, h.now, fun x hs => (hnew x hs).trans (congrFun h.flat x)⟩
  · have hr' : Reliable r.fs := fun i => by
      rw [← hm.served]
      exact hr i
    exact hmir hr' (h.mirrored ha hr')

theorem Windowed.poke (h : Windowed r) (hw : r.fs.winsect ≠ 0) {k n : ℕ} (hk : k + n ≤ 512)
    (f : ℕ → Byte) :
    Windowed { r with fs := poke r.fs k n f, flat := fill r.flat (512 * r.fs.winsect + k) n f,
                      past := fill r.flat (512 * r.fs.winsect + k) n f :: r.past } := by
  obtain ⟨hvol, hok⟩ := poke_spec h.winOk hw hk f
  refine ⟨hok, h.fsi, ?_, List.mem_cons_self, fun s => ?_, h.mirrored⟩
  · rw [hvol, h.flat]
  · obtain ⟨m, hmem, hx⟩ := h.medium s
    exact ⟨m, List.mem_cons_of_mem _ hmem, hx⟩

theorem Windowed.step (h : Windowed r) {op : WindowOp} (hop : InVolume r op) :
    Windowed (windowStep r op) := by
  cases op with
  | load sector =>
    exact h.moved (moveWindow_spec h.winOk (Or.inr hop)).1 (moveWindow_persists h.winOk sector)
      fun hr hm => moveWindow_mirrored h.winOk hr hm sector
  | store sector k n f =>
    obtain ⟨hp, hk⟩ := hop
    obtain ⟨hmoved, hres, hat, -, -⟩ := moveWindow_spec h.winOk (Or.inr hp)
    have hkept := h.moved hmoved (moveWindow_persists h.winOk sector)
      fun hr hm => moveWindow_mirrored h.winOk hr hm sector
    have h0 : sector ≠ 0 := fun h0 => h.winOk.not_plain_zero (h0 ▸ hp)
    dsimp only [windowStep]
    generalize moveWindow sector r.fs = q at hkept hres hat
    obtain ⟨res, fs⟩ := q
    rcases hres with hres | hres
    · obtain rfl : res = .ok := hres
      have hsect : fs.winsect = sector := hat rfl h0
      have hpoke := hkept.poke (hsect.trans_ne h0) hk f
      dsimp only at hpoke
      rw [hsect] at hpoke
      exact hpoke
    · obtain rfl : res = .diskErr := hres
      exact hkept
  | sync =>
    exact h.moved (sync_spec h.winOk h.not_plain).1 (sync_persists h.winOk h.not_plain)
      fun hr hm => sync_mirrored h.winOk hr h.fsi hm

theorem windowed_of_reach (h : windowMachine.ReachWhere InVolume r) : Windowed r := by
  refine Machine.ReachWhere.invariant ?_ ?_ h
  · rintro r ⟨hv, hok, hflat, hmedium, hpast, hmir⟩
    refine ⟨hok, hv.fsinfo, hflat.symm, ?_, fun s => ⟨r.flat, ?_, fun x _ => congrFun hmedium x⟩,
      fun ha _ => hmir ha⟩
    all_goals
      rw [hpast]
      exact List.mem_singleton_self _
  · rintro r op r' hr hop hstep
    obtain rfl : windowStep r op = r' := Option.some.inj hstep
    exact hr.step hop

/-- **The window is the volume.**  In every run on a valid mount, whatever accesses fail: reads
through the window see the flat memory that the stores so far make, and a load that succeeds has its
sector there; what the medium has of any sector is what the flat memory had there at some time; a
`sync` that succeeds puts all of it on the medium; and where no access fails loads and `sync` succeed,
and copies of the FAT that were like the first stay so. -/
theorem window_run (h : windowMachine.ReachWhere InVolume r) :
    volume r.fs = r.flat ∧
      (r.fs.winsect ≠ 0 → ∀ k < 512, r.fs.win k = r.flat (512 * r.fs.winsect + k)) ∧
      (∀ s, r.fs.Plain s → (moveWindow s r.fs).1 = .ok → (moveWindow s r.fs).2.winsect = s) ∧
      (∀ s, ∃ m ∈ r.past, ∀ x, x / 512 = s → onMedium r.fs x = m x) ∧
      ((sync r.fs).1 = .ok → onMedium (sync r.fs).2 = r.flat) ∧
      (Reliable r.fs → (r.alike = true → Mirrored r.fs) ∧ (sync r.fs).1 = .ok ∧
        ∀ s, r.fs.Plain s → (moveWindow s r.fs).1 = .ok) := by
  have hw := windowed_of_reach h
  obtain ⟨-, -, hdone, hok⟩ := sync_spec hw.winOk hw.not_plain
  have hload := fun s (hp : r.fs.Plain s) => moveWindow_spec hw.winOk (Or.inr hp)
  refine ⟨hw.flat, fun h0 k hk => ?_, fun s hp hs => ?_, hw.medium,
    fun hs => (hdone hs).trans hw.flat, fun hr => ⟨fun ha => hw.mirrored ha hr, hok hr, ?_⟩⟩
  · rw [win_eq hw.winOk h0 hk, hw.flat]
  · obtain ⟨-, -, hat, -, -⟩ := hload s hp
    exact hat hs fun h0 => hw.winOk.not_plain_zero (h0 ▸ hp)
  · intro s hp
    obtain ⟨-, -, -, -, hokay⟩ := hload s hp
    exact hokay hr

/-- A FAT12 volume of eight clusters on an empty medium, as it is after the mount. -/
def smallVolume : Fatfs where
  fsType := .fat12
  csize := 1
  nFats := 2
  id := 1#16
  nRootdir := 16
  fsiSector := 0
  sectsFat := 1
  maxClust := 10
  fatbase := 1
  dirbase := 3
  database := 4
  drive := { medium := fun _ => 0#8, served := fun _ => 255, accesses := 0 }
  wflag := false
  fsiFlag := false
  lastClust := 0
  freeClust := 0xFFFFFFFF
  winsect := 0
  win := fun _ => 0#8

theorem smallVolume_valid : smallVolume.Valid where
  mounted := by decide
  reserved := by decide
  copies := by decide
  clusterSize := ⟨0, by decide, rfl⟩
  clusters := by decide
  two := by decide
  table := by decide
  behind := by decide
  inside := by decide
  fsinfo := by decide

theorem smallVolume_winOk : WinOk smallVolume :=
  ⟨smallVolume_valid.fatsFit, fun _ => rfl, fun h => absurd rfl h, fun _ h => absurd rfl h⟩

theorem smallVolume_empty : volume smallVolume = onMedium smallVolume :=
  (onMedium_eq smallVolume_winOk rfl).symm

def smallRun : WindowRun where
  fs := smallVolume
  flat := volume smallVolume
  past := [volume smallVolume]
  alike := true

/-- A store into the FAT and one into a cluster, for which the window moves. -/
theorem window_run_small :
    ∃ r, windowMachine.ReachWhere InVolume r ∧ r.past.length = 3 ∧ r.fs.winsect = 4 ∧
      Mirrored r.fs ∧ onMedium (sync r.fs).2 = r.flat := by
  have h0 : windowMachine.ReachWhere InVolume smallRun :=
    .init ⟨smallVolume_valid, smallVolume_winOk, rfl, smallVolume_empty.symm, rfl,
      fun _ _ _ _ _ _ _ => rfl⟩
  have h1 := h0.step (show InVolume _ (.store 1 0 3 fun _ => 0xFF#8) from
    ⟨by decide, by decide⟩) rfl
  have h2 := h1.step (show InVolume _ (.store 4 10 2 fun _ => 0xAA#8) from
    ⟨by decide, by decide⟩) rfl
  obtain ⟨-, -, -, -, hsync, hok⟩ := window_run h2
  obtain ⟨hmirrored, hdone, -⟩ := hok fun _ => le_refl 255
  exact ⟨_, h2, rfl, rfl, hmirrored rfl, hsync hdone⟩

end Runs

end VwiiNandTools.Ff
