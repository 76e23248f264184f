import VwiiNandTools.Armboot.Storage.Ff.Write

/-!
# Closing a file

`f_sync` stores the size and the first cluster of a file in its directory entry and puts the volume
on the medium (`fSync_spec`); `f_close` ends the use of the file object.

The flag `FA__WRITTEN` is cleared before the volume is written, so a second `f_sync` after a failed
one succeeds without writing anything.
-/

namespace VwiiNandTools.Ff

open ByteMemory Chains
open VwiiNandTools.Dump (FResult)

/-- The start cluster and the size in the directory entry at `a`. -/
def entryStart (m : Mem) (a : ℕ) : ℕ := le m (a + dirFstClusLO) 2 + 65536 * le m (a + dirFstClusHI) 2
def entrySize (m : Mem) (a : ℕ) : ℕ := le m (a + dirFileSize) 4

/-- Where the directory entry of a file is in the volume. -/
def Fil.slot (fp : Fil) : ℕ := 512 * fp.dirSect + fp.dirPtr

/-- The directory entry says where the file is. -/
def Recorded (fp : Fil) (fs : Fatfs) : Prop :=
  entryStart (volume fs) fp.slot = fp.orgClust ∧ entrySize (volume fs) fp.slot = fp.fsize

/-- A sector of a directory: it is not in the FAT, not in a free cluster, and none of a file with
the clusters `l`. -/
structure DirSector (fs : Fatfs) (l : List ℕ) (s : ℕ) : Prop where
  plain : fs.Plain s
  behind : fs.fatbase + fs.sectsFat ≤ s
  used : fs.database ≤ s → fs.clusterOf s ∉ l ∧ ¬Free fs (fs.clusterOf s)

/-- The volume was changed in `[a, a + n)` only. -/
structure Edited (fs fs' : Fatfs) (a n : ℕ) : Prop where
  winOk : WinOk fs'
  mount : fs'.toMount = fs.toMount
  served : fs'.drive.served = fs.drive.served
  other : ∀ x, ¬(a ≤ x ∧ x < a + n) → volume fs' x = volume fs x

section Sync

variable {fp fp' : Fil} {fs fs' fs'' : Fatfs} {l : List ℕ} {a c d k n p s : ℕ}

theorem Moved.edited (h : Moved fs fs') : Edited fs fs' a n :=
  ⟨h.winOk, h.mount, h.served, fun x _ => congrFun h.volume x⟩

theorem Edited.of_moved (h : Moved fs fs') (h' : Edited fs' fs'' a n) : Edited fs fs'' a n :=
  ⟨h'.winOk, h'.mount.trans h.mount, h'.served.trans h.served, fun x hx =>
    (h'.other x hx).trans (congrFun h.volume x)⟩

theorem Edited.moved (h : Edited fs fs' a n) (h' : Moved fs' fs'') : Edited fs fs'' a n :=
  ⟨h'.winOk, h'.mount.trans h.mount, h'.served.trans h.served, fun x hx =>
    (congrFun h'.volume x).trans (h.other x hx)⟩

theorem Edited.table (h : Edited fs fs' a n) (hv : fs.Valid) {d : ℕ}
    (ha : ∀ x, a ≤ x → x < a + n → ¬fs.InFat x) (hd : d < fs.maxClust) :
    Ff.table fs' d = Ff.table fs d :=
  table_congr hv h.mount (fun x hx => h.other x fun hin => ha x hin.1 hin.2 hx) hd

theorem Edited.link (h : Edited fs fs' a n) (hv : fs.Valid)
    (ha : ∀ x, a ≤ x → x < a + n → ¬fs.InFat x) : Ff.link fs' = Ff.link fs := by
  funext d
  by_cases hd : d < fs.maxClust
  · rw [Ff.link, Ff.link, h.mount, h.table hv ha hd]
  · have hc : ¬fs.Cluster d := fun hc => hd hc.2
    rw [Ff.link, Ff.link, h.mount, if_neg hc, if_neg hc]

theorem Edited.free_iff (h : Edited fs fs' a n) (hv : fs.Valid)
    (ha : ∀ x, a ≤ x → x < a + n → ¬fs.InFat x) {d : ℕ} : Free fs' d ↔ Free fs d := by
  constructor
  · rintro ⟨hc, ht⟩
    rw [h.mount] at hc
    exact ⟨hc, (h.table hv ha hc.2).symm.trans ht⟩
  · rintro ⟨hc, ht⟩
    refine ⟨?_, (h.table hv ha hc.2).trans ht⟩
    rw [h.mount]
    exact hc

theorem edit_spec (h : WinOk fs) (hw : fs.winsect ≠ 0) (g : Mem) :
    let fs' := { fs with win := g, wflag := true }
    WinOk fs' ∧
      ∀ x, volume fs' x = if x / 512 = fs.winsect then g (x % 512) else volume fs x := by
  refine ⟨⟨h.base, fun h0 => absurd h0 hw, h.plain, by rintro ⟨⟩⟩, fun x => ?_⟩
  by_cases hx : x / 512 = fs.winsect
  · rw [if_pos hx]
    exact @volume_win { fs with win := g, wflag := true } x (hx ▸ h.plain hw) hx
  · rw [if_neg hx]
    by_cases hp : fs.Plain (x / 512)
    · rw [volume_medium hp hx]
      exact @volume_medium { fs with win := g, wflag := true } x hp hx
    · rw [volume_hidden hp]
      exact @volume_hidden { fs with win := g, wflag := true } x hp

theorem edit_edited (h : WinOk fs) (hw : fs.winsect ≠ 0) {g : Mem}
    (hg : ∀ x, ¬(k ≤ x ∧ x < k + n) → g x = fs.win x) :
    Edited fs { fs with win := g, wflag := true } (512 * fs.winsect + k) n := by
  obtain ⟨hok, hvol⟩ := edit_spec h hw g
  refine ⟨hok, rfl, rfl, fun x hx => ?_⟩
  rw [hvol]
  split
  · next hs =>
    rw [hg _ (by omega), win_eq h hw (Nat.mod_lt _ (by decide)), ← hs, Nat.div_add_mod]
  · rfl

theorem le_edit (h : WinOk fs) (hw : fs.winsect ≠ 0) (g : Mem) (hk : k + n ≤ 512) :
    le (volume { fs with win := g, wflag := true }) (512 * fs.winsect + k) n = le g k n := by
  refine le_shift fun j hj => ?_
  rw [(edit_spec h hw g).2, if_pos (by omega)]
  congr 1
  omega

/-! ## A directory entry -/

theorem putDirEntry_other {m : Mem} {x : ℕ} (h : ¬(fp.dirPtr ≤ x ∧ x < fp.dirPtr + 32)) :
    putDirEntry fp m x = m x := by
  simp only [putDirEntry, dirAttr, dirFileSize, dirFstClusLO, dirFstClusHI, dirWrtTime]
  rw [putLe_other _ (by omega), putLe_other _ (by omega), putLe_other _ (by omega),
    putLe_other _ (by omega), set_other _ (by omega)]

theorem putDirEntry_start (m : Mem) (h : fp.orgClust < 0x100000000) :
    entryStart (putDirEntry fp m) fp.dirPtr = fp.orgClust := by
  simp only [entryStart, putDirEntry, dirAttr, dirFileSize, dirFstClusLO, dirFstClusHI, dirWrtTime]
  rw [le_putLe_apart _ (Or.inl (by omega)), le_putLe_apart _ (Or.inl (by omega)),
    le_putLe _ _ _ (le_refl 2), le_putLe_apart _ (Or.inr (by omega)), le_putLe _ _ _ (le_refl 2)]
  omega

theorem putDirEntry_size (m : Mem) (h : fp.fsize < 0x100000000) :
    entrySize (putDirEntry fp m) fp.dirPtr = fp.fsize := by
  simp only [entrySize, putDirEntry, dirAttr, dirFileSize, dirFstClusLO, dirFstClusHI, dirWrtTime]
  rw [le_putLe_apart _ (Or.inl (by omega)), le_putLe_apart _ (Or.inl (by omega)),
    le_putLe_apart _ (Or.inl (by omega)), le_putLe _ _ _ (le_refl 4)]
  exact Nat.mod_eq_of_lt (by omega)

theorem DirSector.not_inFat (h : DirSector fs l s) {x : ℕ} (hx : x / 512 = s) : ¬fs.InFat x :=
  fun hin => absurd hin.2 (by rw [hx]; exact not_lt.mpr h.behind)

/-- What `f_sync` did when it stored the entry. -/
structure Synced (fp : Fil) (fs : Fatfs) (fs' : Fatfs) : Prop where
  edited : Edited fs fs' fp.slot 32
  recorded : Recorded fp fs'

/-- **`f_sync`**: a file that was written has its directory entry stored and everything put on the
medium; nothing else of the volume is changed. -/
theorem fSync_spec (h : WinOk fs) (hfsi : ¬fs.Plain fs.fsiSector) (hp : fs.Plain fp.dirSect)
    (hptr : fp.dirPtr + 32 ≤ 512) (hsize : fp.fsize < 0x100000000)
    (hstart : fp.orgClust < 0x100000000) (hval : validate fp fs = .ok) (hw : fp.written = true) :
    let r := fSync fp fs
    (r.1 = .ok ∧ r.2.1 = { fp with written := false } ∧ Synced fp fs r.2.2 ∧
        onMedium r.2.2 = volume r.2.2 ∨
      r.1 = .diskErr ∧ (r.2.1 = fp ∧ Moved fs r.2.2 ∨
        r.2.1 = { fp with written := false } ∧ Synced fp fs r.2.2)) ∧
      (Reliable fs → r.1 = .ok) := by
  obtain ⟨hm, hres, hat, -, hok⟩ := moveWindow_spec h (Or.inr hp)
  have h0 : fp.dirSect ≠ 0 := fun h0 => h.not_plain_zero (h0 ▸ hp)
  unfold fSync
  rw [if_pos hval, if_pos hw]
  generalize moveWindow fp.dirSect fs = r at hm hres hat hok
  obtain ⟨res, fs1⟩ := r
  rcases hres with hres | hres
  · obtain rfl : res = .ok := hres
    have hsect : fs1.winsect = fp.dirSect := hat rfl h0
    dsimp only at hm ⊢
    have hw1 := hm.winOk
    have hw0 : fs1.winsect ≠ 0 := hsect.trans_ne h0
    have hslot : fp.slot = 512 * fs1.winsect + fp.dirPtr := by rw [hsect, Fil.slot]
    have hed : Edited fs { fs1 with win := putDirEntry fp fs1.win, wflag := true } fp.slot 32 := by
      rw [hslot]
      exact (edit_edited hw1 hw0 fun x hx => putDirEntry_other hx).of_moved hm
    have hrec : Recorded fp { fs1 with win := putDirEntry fp fs1.win, wflag := true } := by
      constructor
      · rw [← putDirEntry_start fs1.win hstart, entryStart, entryStart, hslot, Nat.add_assoc,
          Nat.add_assoc, le_edit hw1 hw0 _ (by simp only [dirFstClusLO]; omega),
          le_edit hw1 hw0 _ (by simp only [dirFstClusHI]; omega)]
      · rw [← putDirEntry_size fs1.win hsize, entrySize, entrySize, hslot, Nat.add_assoc,
          le_edit hw1 hw0 _ (by simp only [dirFileSize]; omega)]
    have hfsi1 : ¬fs1.Plain fs1.fsiSector := by
      rw [hm.mount]
      exact hfsi
    obtain ⟨hm2, hres2, hdone, hok2⟩ := sync_spec hed.winOk hfsi1
    generalize sync { fs1 with win := putDirEntry fp fs1.win, wflag := true } = r
      at hm2 hres2 hdone hok2
    obtain ⟨res, fs2⟩ := r
    dsimp only at hm2 hres2 hdone hok2 ⊢
    have hsync : Synced fp fs fs2 := by
      refine ⟨hed.moved hm2, ?_⟩
      rw [Recorded, hm2.volume]
      exact hrec
    refine ⟨?_, fun hr => hok2 (hm.reliable hr)⟩
    rcases hres2 with rfl | rfl
    · refine Or.inl ⟨rfl, rfl, hsync, ?_⟩
      rw [hdone rfl, hm2.volume]
    · exact Or.inr ⟨rfl, Or.inr ⟨rfl, hsync⟩⟩
  · obtain rfl : res = .diskErr := hres
    exact ⟨Or.inr ⟨rfl, Or.inl ⟨rfl, hm⟩⟩, fun hr => by cases hok hr⟩

/-- `f_close` is `f_sync`, and one that succeeds leaves no open file object. -/
theorem fClose_spec (fp : Fil) (fs : Fatfs) :
    let q := fSync fp fs
    let p := fClose fp fs
    (p.1 = q.1 ∧ p.2.2 = q.2.2) ∧ (p.1 = .ok → validate p.2.1 p.2.2 = .invalidObject) := by
  unfold fClose
  generalize fSync fp fs = q
  obtain ⟨res, fp', fs'⟩ := q
  dsimp only
  by_cases hres : res = .ok
  · rw [if_pos hres]
    exact ⟨⟨hres.symm, rfl⟩, fun _ => if_pos (Or.inl rfl)⟩
  · rw [if_neg hres]
    exact ⟨⟨rfl, rfl⟩, fun hok => absurd hok hres⟩

end Sync

end VwiiNandTools.Ff
