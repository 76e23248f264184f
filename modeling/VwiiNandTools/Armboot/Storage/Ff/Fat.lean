import VwiiNandTools.Lib.Chains
import VwiiNandTools.Armboot.Storage.Ff.Window

/-!
# Entries of the FAT

`get_cluster` and `put_cluster` of `storage/ff.c` read and store an entry of the FAT through the
window: 12 bits that may lie across two sectors, 16 bits, or 28 of 32.

`table` is the table they stand for.  `get_cluster` returns its entry or reports the disk error.
`put_cluster` changes no other entry and nothing outside the FAT; when it fails the entry is as it
was, or torn between the two bytes of a FAT12 entry (`Torn`).  On a valid mount no sum of sector
numbers here wraps.
-/

namespace VwiiNandTools.Ff

open ByteMemory Chains
open VwiiNandTools.Dump (FResult)

/-! ## The code -/

def getCluster (clst : ℕ) (fs : Fatfs) : ℕ × Fatfs :=
  if clst < 2 ∨ fs.maxClust ≤ clst then (1, fs)
  else
    match fs.fsType with
    | .fat12 =>
      let bc := clst % 65536 * 3 / 2 % 65536
      match moveWindow (fs.fatbase + bc / 512) fs with
      | (.ok, fs) =>
        let wc := (fs.win (bc % 512)).toNat
        let bc := (bc + 1) % 65536
        match moveWindow (fs.fatbase + bc / 512) fs with
        | (.ok, fs) =>
          let wc := wc + 256 * (fs.win (bc % 512)).toNat
          (if clst % 2 = 1 then wc / 16 else wc % 4096, fs)
        | (_, fs) => (0xFFFFFFFF, fs)
      | (_, fs) => (0xFFFFFFFF, fs)
    | .fat16 =>
      match moveWindow (fs.fatbase + clst / 256) fs with
      | (.ok, fs) => (le fs.win (clst % 65536 * 2 % 512) 2, fs)
      | (_, fs) => (0xFFFFFFFF, fs)
    | .fat32 =>
      match moveWindow (fs.fatbase + clst / 128) fs with
      | (.ok, fs) => (le fs.win (clst % 65536 * 4 % 512) 4 % 0x10000000, fs)
      | (_, fs) => (0xFFFFFFFF, fs)
    | .unmounted => (0xFFFFFFFF, fs)

/-- `ST_WORD` and `ST_DWORD` into the window. -/
def stWord (fs : Fatfs) (k n v : ℕ) : Fatfs := poke fs k n fun j => BitVec.ofNat 8 (v / 256 ^ j)

/-- The `switch` of `put_cluster`. -/
def putEntry (clst val : ℕ) (fs : Fatfs) : FResult × Fatfs :=
  match fs.fsType with
  | .fat12 =>
    let bc := clst % 65536 * 3 / 2 % 65536
    match moveWindow (fs.fatbase + bc / 512) fs with
    | (.ok, fs) =>
      let p := fs.win (bc % 512)
      let fs := poke fs (bc % 512) 1 fun _ =>
        if clst % 2 = 1 then p &&& 0x0F#8 ||| BitVec.ofNat 8 val <<< 4 else BitVec.ofNat 8 val
      let bc := (bc + 1) % 65536
      match moveWindow (fs.fatbase + bc / 512) fs with
      | (.ok, fs) =>
        let p := fs.win (bc % 512)
        (.ok, poke fs (bc % 512) 1 fun _ =>
          if clst % 2 = 1 then BitVec.ofNat 8 (val / 16)
          else p &&& 0xF0#8 ||| BitVec.ofNat 8 (val / 256) &&& 0x0F#8)
      | (res, fs) => (res, fs)
    | (res, fs) => (res, fs)
  | .fat16 =>
    match moveWindow (fs.fatbase + clst / 256) fs with
    | (.ok, fs) => (.ok, stWord fs (clst % 65536 * 2 % 512) 2 val)
    | (res, fs) => (res, fs)
  | .fat32 =>
    match moveWindow (fs.fatbase + clst / 128) fs with
    | (.ok, fs) => (.ok, stWord fs (clst % 65536 * 4 % 512) 4 val)
    | (res, fs) => (res, fs)
  | .unmounted => (.intErr, fs)

/-- `wflag` is set also when the entry was not stored. -/
def putCluster (clst val : ℕ) (fs : Fatfs) : FResult × Fatfs :=
  if clst < 2 ∨ fs.maxClust ≤ clst then (.intErr, fs)
  else
    let (res, fs) := putEntry clst val fs
    (res, { fs with wflag := true })

/-- `clst - 2` wraps. -/
def clust2sect (fs : Fatfs) (clst : ℕ) : ℕ :=
  let clst := (clst + 0xFFFFFFFE) % 0x100000000
  if fs.maxClust - 2 ≤ clst then 0 else clst * fs.csize + fs.database

/-! ## The table -/

/-- Entry `c` of the FAT in a volume. -/
def Mount.table (v : Mount) (m : Mem) (c : ℕ) : ℕ :=
  match v.fsType with
  | .fat12 => entry12 m (512 * v.fatbase) c
  | .fat16 => le m (512 * v.fatbase + 2 * c) 2
  | .fat32 => le m (512 * v.fatbase + 4 * c) 4 % 0x10000000
  | .unmounted => 0

/-- The entries are below this number. -/
def FsType.bound : FsType → ℕ
  | .fat12 => 4096
  | .fat16 => 65536
  | .fat32 => 0x10000000
  | .unmounted => 1

/-- The byte is in the first copy of the FAT. -/
def Mount.InFat (v : Mount) (x : ℕ) : Prop := v.fatbase ≤ x / 512 ∧ x / 512 < v.fatbase + v.sectsFat

/-- `clst` is a cluster of the volume. -/
def Mount.Cluster (v : Mount) (c : ℕ) : Prop := 2 ≤ c ∧ c < v.maxClust

instance (v : Mount) (c : ℕ) : Decidable (v.Cluster c) := inferInstanceAs (Decidable (_ ∧ _))

/-- The entry of the volume as it is now. -/
def table (fs : Fatfs) (c : ℕ) : ℕ := fs.toMount.table (volume fs) c

/-- The same volume; the window is sound. -/
structure Steady (fs fs' : Fatfs) : Prop where
  mount : fs'.toMount = fs.toMount
  last : fs'.lastClust = fs.lastClust
  free : fs'.freeClust = fs.freeClust
  served : fs'.drive.served = fs.drive.served
  winOk : WinOk fs'

/-- What a store to entry `c` does, also when it fails. -/
structure Entered (fs fs' : Fatfs) (c : ℕ) : Prop where
  steady : Steady fs fs'
  window : fs'.winsect ≠ 0
  frame : ∀ x, ¬fs.InFat x → volume fs' x = volume fs x
  others : ∀ d < fs.maxClust, d ≠ c → table fs' d = table fs d

/-- What a store of `val` to entry `c` that failed leaves there: the old entry or, where the two
bytes of a FAT12 entry are in two sectors, what the first of them makes of it. -/
def Torn (fs : Fatfs) (c val e : ℕ) : Prop :=
  e = table fs c ∨ fs.fsType = .fat12 ∧ c * 3 / 2 % 512 = 511 ∧ e = torn12 c (table fs c) val

/-- The outcome of a store of `val` to entry `c`. -/
structure Put (fs : Fatfs) (c val : ℕ) (r : FResult × Fatfs) : Prop where
  entered : Entered fs r.2 c
  result : r.1 = .ok ∧ table r.2 c = val % fs.fsType.bound ∨
    r.1 = .diskErr ∧ Torn fs c val (table r.2 c)
  reliable : Reliable fs → r.1 = .ok

/-- The outcome of a look at entry `c`. -/
structure Get (fs : Fatfs) (c : ℕ) (r : ℕ × Fatfs) : Prop where
  moved : Moved fs r.2
  result : r.1 = table fs c ∧ r.2.winsect ≠ 0 ∨ r.1 = 0xFFFFFFFF
  reliable : Reliable fs → r.1 = table fs c ∧ r.2.winsect ≠ 0

section Fat

variable {fs fs' fs'' : Fatfs} {v : Mount} {m m' : Mem} {a b c d n val : ℕ}

theorem Moved.steady (h : Moved fs fs') : Steady fs fs' :=
  ⟨h.mount, h.last, h.free, h.served, h.winOk⟩

theorem Steady.refl (h : WinOk fs) : Steady fs fs := ⟨rfl, rfl, rfl, rfl, h⟩

theorem Steady.trans (h : Steady fs fs') (h' : Steady fs' fs'') : Steady fs fs'' :=
  ⟨h'.mount.trans h.mount, h'.last.trans h.last, h'.free.trans h.free, h'.served.trans h.served,
    h'.winOk⟩

theorem Steady.reliable (h : Steady fs fs') (hr : Reliable fs) : Reliable fs' := by
  intro i
  rw [h.served]
  exact hr i

theorem Mount.InFat.plain {x : ℕ} (h : v.InFat x) (hv : v.Valid) : v.Plain (x / 512) := by
  have hcopies : 1 * v.sectsFat ≤ v.nFats * v.sectsFat := Nat.mul_le_mul_right _ hv.copies
  have hbehind := hv.behind
  have hinside := hv.inside
  have hlt := h.2
  exact ⟨h.1, by omega, fun hc => absurd hlt (not_lt.mpr hc.1)⟩

theorem Moved.table (h : Moved fs fs') : table fs' = table fs := by
  funext c
  rw [Ff.table, Ff.table, h.mount, h.volume]

theorem moveWindow_le (h : WinOk fs) (hp : fs.Plain (a / 512)) (hn : a % 512 + n ≤ 512)
    (hok : (moveWindow (a / 512) fs).1 = .ok) :
    le (moveWindow (a / 512) fs).2.win (a % 512) n = le (volume fs) a n := by
  obtain ⟨hmoved, -, hat, -, -⟩ := moveWindow_spec h (Or.inr hp)
  have h0 : a / 512 ≠ 0 := fun h0 => h.not_plain_zero (h0 ▸ hp)
  have hsect := hat hok h0
  refine le_shift fun k hk => ?_
  rw [win_eq hmoved.winOk (hsect.trans_ne h0) (by omega), hsect, hmoved.volume]
  congr 1
  omega

theorem moveWindow_poke (h : WinOk fs) (hp : fs.Plain (a / 512)) (hn : a % 512 + n ≤ 512)
    (f : ℕ → Byte) (hok : (moveWindow (a / 512) fs).1 = .ok) :
    let fs' := poke (moveWindow (a / 512) fs).2 (a % 512) n f
    Steady fs fs' ∧ (fs'.winsect = a / 512 ∧ fs'.winsect ≠ 0) ∧
      volume fs' = fill (volume fs) a n f := by
  obtain ⟨hmoved, -, hat, -, -⟩ := moveWindow_spec h (Or.inr hp)
  have h0 : a / 512 ≠ 0 := fun h0 => h.not_plain_zero (h0 ▸ hp)
  have hsect := hat hok h0
  obtain ⟨hvol, hwin⟩ := poke_spec hmoved.winOk (hsect.trans_ne h0) hn f
  refine ⟨⟨hmoved.mount, hmoved.last, hmoved.free, hmoved.served, hwin⟩, ⟨hsect, hsect.trans_ne h0⟩,
    ?_⟩
  rw [hvol, hmoved.volume, hsect, Nat.div_add_mod]

theorem moveWindow_byte (h : WinOk fs) (hp : fs.Plain (a / 512))
    (hok : (moveWindow (a / 512) fs).1 = .ok) :
    (moveWindow (a / 512) fs).2.win (a % 512) = volume fs a := by
  have hle := @moveWindow_le fs a 1 h hp (by omega) hok
  rwa [le_one, le_one, BitVec.toNat_inj] at hle

theorem Mount.Valid.cluster_lt (hv : v.Valid) (hc : v.Cluster c) : c < v.fsType.clusters :=
  lt_of_lt_of_le hc.2 hv.clusters

theorem Mount.Valid.inFat (hv : v.Valid) (hb : b < v.fsType.tableBytes v.maxClust) :
    v.InFat (512 * v.fatbase + b) := by
  have htable := hv.table
  exact ⟨by omega, by omega⟩

theorem getCluster_invalid (h : ¬fs.Cluster c) : getCluster c fs = (1, fs) := by
  rw [Mount.Cluster] at h
  exact if_pos (by omega)

theorem word_sector {s k : ℕ} (hk : k = 2 ∨ k = 4) :
    s + c / (512 / k) = (512 * s + k * c) / 512 ∧
      c % 65536 * k % 512 = (512 * s + k * c) % 512 ∧ (512 * s + k * c) % 512 + k ≤ 512 := by
  rcases hk with rfl | rfl <;> omega

theorem bc12 (hc : c < 0xFF7) :
    c % 65536 * 3 / 2 % 65536 = c * 3 / 2 ∧ (c * 3 / 2 + 1) % 65536 = c * 3 / 2 + 1 := by
  rw [Nat.mod_eq_of_lt (show c < 65536 by omega)]
  exact ⟨Nat.mod_eq_of_lt (by omega), Nat.mod_eq_of_lt (by omega)⟩

theorem next_same_sector {s : ℕ} (hb : b % 512 ≠ 511) :
    (512 * s + b + 1) / 512 = (512 * s + b) / 512 := by
  have hdiv : (b + 1) / 512 = b / 512 := by omega
  rw [Nat.add_assoc, Nat.mul_add_div (by decide), Nat.mul_add_div (by decide), hdiv]

theorem table_fat12 (ht : fs.fsType = .fat12) :
    table fs c = entry12 (volume fs) (512 * fs.fatbase) c := by
  rw [table, Mount.table, ht]

/-- A move of the window to some bytes of the FAT: they are in the window, or the drive has failed. -/
theorem moveWindow_loaded (h : WinOk fs) (hp : fs.Plain (a / 512)) (hn : a % 512 + n ≤ 512) :
    let r := moveWindow (a / 512) fs
    Moved fs r.2 ∧
      (r.1 = .ok ∧ r.2.winsect ≠ 0 ∧ le r.2.win (a % 512) n = le (volume fs) a n ∨
        r.1 = .diskErr ∧ ¬Reliable fs) := by
  obtain ⟨hmoved, hres, hat, -, hok⟩ := moveWindow_spec h (Or.inr hp)
  have h0 : a / 512 ≠ 0 := fun h0 => h.not_plain_zero (h0 ▸ hp)
  refine ⟨hmoved, hres.imp (fun hres => ?_) fun hres => ⟨hres, fun hr => ?_⟩⟩
  · exact ⟨hres, (hat hres h0).trans_ne h0, moveWindow_le h hp hn hres⟩
  · rw [hok hr] at hres
    cases hres

theorem getCluster_word {k : ℕ} (h : WinOk fs) (hv : fs.Valid) (hc : fs.Cluster c)
    (ht : k = 2 ∧ fs.fsType = .fat16 ∨ k = 4 ∧ fs.fsType = .fat32) :
    Get fs c (getCluster c fs) := by
  have hk : k = 2 ∨ k = 4 := ht.imp And.left And.left
  obtain ⟨hc2, hcm⟩ := hc
  have hin : fs.InFat (512 * fs.fatbase + k * c) := by
    refine hv.inFat ?_
    rcases ht with ⟨rfl, ht⟩ | ⟨rfl, ht⟩
    · rw [ht, FsType.tableBytes]
      omega
    · rw [ht, FsType.tableBytes]
      omega
  obtain ⟨hs, hofs, hn⟩ := @word_sector c fs.fatbase k hk
  have hload := moveWindow_loaded h (hin.plain hv) hn
  rw [getCluster, if_neg (by omega)]
  rcases ht with ⟨rfl, ht⟩ | ⟨rfl, ht⟩
  all_goals
    rw [ht]
    dsimp only
    rw [hs, hofs]
    generalize moveWindow _ fs = r at hload
    obtain ⟨res, fs1⟩ := r
    obtain ⟨hmoved, ⟨rfl, hw, hle⟩ | ⟨rfl, hr⟩⟩ := hload
    · dsimp only at hle ⊢
      have hval : fs.toMount.table (volume fs) c = table fs c := rfl
      rw [Mount.table, ht] at hval
      rw [hle]
      exact ⟨hmoved, Or.inl ⟨hval, hw⟩, fun _ => ⟨hval, hw⟩⟩
    · exact ⟨hmoved, Or.inr rfl, fun h => absurd h hr⟩

theorem getCluster_fat12 (h : WinOk fs) (hv : fs.Valid) (hc : fs.Cluster c)
    (ht : fs.fsType = .fat12) : Get fs c (getCluster c fs) := by
  have hlt := hv.cluster_lt hc
  obtain ⟨hc2, hcm⟩ := hc
  rw [ht] at hlt
  obtain ⟨hbc, hbc'⟩ := bc12 hlt
  have hfirst : fs.InFat (512 * fs.fatbase + c * 3 / 2) :=
    hv.inFat (by rw [ht, FsType.tableBytes]; omega)
  have hsecond : fs.InFat (512 * fs.fatbase + (c * 3 / 2 + 1)) :=
    hv.inFat (by rw [ht, FsType.tableBytes]; omega)
  have htable := @table_fat12 fs c ht
  rw [entry12, le_two] at htable
  rw [getCluster, if_neg (by omega), ht]
  dsimp only
  rw [hbc, hbc']
  generalize hb : c * 3 / 2 = b at hfirst hsecond htable
  rw [show fs.fatbase + b / 512 = (512 * fs.fatbase + b) / 512 by omega,
    show b % 512 = (512 * fs.fatbase + b) % 512 by omega]
  have hload := @moveWindow_loaded fs _ 1 h (hfirst.plain hv) (by omega)
  generalize moveWindow ((512 * fs.fatbase + b) / 512) fs = r at hload
  obtain ⟨res, fs1⟩ := r
  obtain ⟨hmoved, ⟨rfl, -, hlow⟩ | ⟨rfl, hr⟩⟩ := hload
  · have hsecond' : fs1.Plain ((512 * fs1.fatbase + (b + 1)) / 512) := by
      rw [hmoved.mount]
      exact hsecond.plain hv
    dsimp only at hlow ⊢
    rw [show fs1.fatbase + (b + 1) / 512 = (512 * fs1.fatbase + (b + 1)) / 512 by omega,
      show (b + 1) % 512 = (512 * fs1.fatbase + (b + 1)) % 512 by omega]
    have hload := @moveWindow_loaded fs1 _ 1 hmoved.winOk hsecond' (by omega)
    generalize moveWindow ((512 * fs1.fatbase + (b + 1)) / 512) fs1 = r at hload
    obtain ⟨res, fs2⟩ := r
    obtain ⟨hmoved', ⟨rfl, hw, hhigh⟩ | ⟨rfl, hr⟩⟩ := hload
    · dsimp only at hhigh ⊢
      rw [le_one, le_one] at hlow hhigh
      rw [hlow, hhigh, hmoved.volume, hmoved.mount]
      exact ⟨hmoved.trans hmoved', Or.inl ⟨htable.symm, hw⟩, fun _ => ⟨htable.symm, hw⟩⟩
    · exact ⟨hmoved.trans hmoved', Or.inr rfl, fun h => absurd (hmoved.reliable h) hr⟩
  · exact ⟨hmoved, Or.inr rfl, fun h => absurd h hr⟩

theorem getCluster_spec (h : WinOk fs) (hv : fs.Valid) (hc : fs.Cluster c) :
    Get fs c (getCluster c fs) := by
  cases ht : fs.fsType with
  | unmounted => exact absurd ht hv.mounted
  | fat12 => exact getCluster_fat12 h hv hc ht
  | fat16 => exact getCluster_word h hv hc (Or.inl ⟨rfl, ht⟩)
  | fat32 => exact getCluster_word h hv hc (Or.inr ⟨rfl, ht⟩)

/-- Entries do not depend on what is outside the FAT, nor on the bytes of another word. -/
theorem table_fill {k : ℕ} (hm : fs'.toMount = fs.toMount) (f : ℕ → Byte)
    (hvol : volume fs' = fill (volume fs) (512 * fs.fatbase + k * c) k f)
    (ht : k = 2 ∧ fs.fsType = .fat16 ∨ k = 4 ∧ fs.fsType = .fat32) (hd : d ≠ c) :
    table fs' d = table fs d := by
  have hapart : Apart (512 * fs.fatbase + k * c) k (512 * fs.fatbase + k * d) k := by
    rcases Nat.lt_or_gt_of_ne hd with hlt | hgt
    · have hmul := Nat.mul_le_mul_left k hlt
      rw [Nat.mul_succ] at hmul
      exact Or.inr (by omega)
    · have hmul := Nat.mul_le_mul_left k hgt
      rw [Nat.mul_succ] at hmul
      exact Or.inl (by omega)
  have hle := le_congr (fill_frame (m := volume fs) f hapart)
  rcases ht with ⟨rfl, ht⟩ | ⟨rfl, ht⟩
  · rw [table, table, hm, Mount.table, Mount.table, ht, hvol, hle]
  · rw [table, table, hm, Mount.table, Mount.table, ht, hvol, hle]

theorem entered_word {k : ℕ} (hv : fs.Valid) (hc : fs.Cluster c)
    (ht : k = 2 ∧ fs.fsType = .fat16 ∨ k = 4 ∧ fs.fsType = .fat32) (hst : Steady fs fs')
    (hw : fs'.winsect ≠ 0)
    (hvol : volume fs' = putLe (volume fs) (512 * fs.fatbase + k * c) k val) :
    Entered fs fs' c ∧ table fs' c = val % fs.fsType.bound := by
  have hbytes : k * (c + 1) ≤ fs.fsType.tableBytes fs.maxClust := by
    have hle := Nat.mul_le_mul_left k hc.2
    rcases ht with ⟨rfl, ht⟩ | ⟨rfl, ht⟩ <;> rwa [ht, FsType.tableBytes]
  have htable := hv.table
  rw [Nat.mul_succ] at hbytes
  refine ⟨⟨hst, hw, fun x hx => ?_, fun d _ hd => table_fill hst.mount _ hvol ht hd⟩, ?_⟩
  · rw [hvol]
    refine putLe_other _ fun hin => hx ⟨?_, ?_⟩
    · omega
    · omega
  · have hle : le (volume fs') (512 * fs.fatbase + k * c) k = val % 256 ^ k := by
      rw [hvol, le_putLe _ _ _ (le_refl k)]
    rcases ht with ⟨rfl, ht⟩ | ⟨rfl, ht⟩
    · rw [table, hst.mount, Mount.table, ht, hle]
      rfl
    · rw [table, hst.mount, Mount.table, ht, hle]
      exact Nat.mod_mod_of_dvd _ (by decide)

theorem Torn.congr {e : ℕ} (h : Torn fs' c val e) (hm : fs'.toMount = fs.toMount)
    (ht : table fs' c = table fs c) : Torn fs c val e := by
  rw [Torn, hm, ht] at h
  exact h

/-- A move that fails stores nothing. -/
theorem Moved.put_failed (h : Moved fs fs') (hw : fs'.winsect ≠ 0) (hok : ¬Reliable fs) :
    Put fs c val (.diskErr, fs') :=
  ⟨⟨h.steady, hw, fun x _ => congrFun h.volume x, fun d _ _ => congrFun h.table d⟩,
    Or.inr ⟨rfl, Or.inl (congrFun h.table c)⟩, fun hr => absurd hr hok⟩

theorem putEntry_word {k : ℕ} (h : WinOk fs) (hv : fs.Valid) (hw : fs.winsect ≠ 0) (hc : fs.Cluster c)
    (ht : k = 2 ∧ fs.fsType = .fat16 ∨ k = 4 ∧ fs.fsType = .fat32) :
    Put fs c val (putEntry c val fs) := by
  have hk : k = 2 ∨ k = 4 := ht.imp And.left And.left
  have hcm := hc.2
  have hbytes : k * c < fs.fsType.tableBytes fs.maxClust := by
    rcases ht with ⟨rfl, ht⟩ | ⟨rfl, ht⟩
    · rw [ht, FsType.tableBytes]
      omega
    · rw [ht, FsType.tableBytes]
      omega
  have hplain := (hv.inFat hbytes).plain hv
  obtain ⟨hs, hofs, hn⟩ := @word_sector c fs.fatbase k hk
  obtain ⟨hmoved, hres, -, -, hok⟩ := moveWindow_spec h (Or.inr hplain)
  have hsect := @moveWindow_winsect fs ((512 * fs.fatbase + k * c) / 512) h hw
  have hpoke := moveWindow_poke h hplain hn fun j => BitVec.ofNat 8 (val / 256 ^ j)
  have hcode : putEntry c val fs =
      ((moveWindow ((512 * fs.fatbase + k * c) / 512) fs).1,
        if (moveWindow ((512 * fs.fatbase + k * c) / 512) fs).1 = .ok then
          stWord (moveWindow ((512 * fs.fatbase + k * c) / 512) fs).2
            ((512 * fs.fatbase + k * c) % 512) k val
        else (moveWindow ((512 * fs.fatbase + k * c) / 512) fs).2) := by
    rw [← hs, ← hofs, putEntry]
    rcases ht with ⟨rfl, ht⟩ | ⟨rfl, ht⟩
    all_goals
      rw [ht]
      dsimp only
      generalize moveWindow _ fs = q
      obtain ⟨res, fs1⟩ := q
      cases res <;> rfl
  rw [hcode]
  generalize moveWindow ((512 * fs.fatbase + k * c) / 512) fs = q at hmoved hres hok hsect hpoke
  obtain ⟨res, fs1⟩ := q
  rcases hres with hres | hres
  · obtain rfl : res = .ok := hres
    obtain ⟨hst, ⟨-, hw'⟩, hvol⟩ := hpoke rfl
    obtain ⟨hentered, htable⟩ := entered_word hv hc ht hst hw' hvol
    exact ⟨hentered, Or.inl ⟨rfl, htable⟩, fun _ => rfl⟩
  · obtain rfl : res = .diskErr := hres
    exact hmoved.put_failed hsect fun hr => by cases hok hr

/-- The first byte of a FAT12 entry is stored. -/
theorem entered_first12 (ht : fs.fsType = .fat12)
    (hin : fs.InFat (512 * fs.fatbase + c * 3 / 2)) (hst : Steady fs fs') (hw : fs'.winsect ≠ 0)
    (hvol : volume fs' = putFirst12 (volume fs) (512 * fs.fatbase) c val) :
    Entered fs fs' c ∧ table fs' c = torn12 c (table fs c) val := by
  have htab : ∀ d, table fs' d = entry12 (volume fs') (512 * fs.fatbase) d := by
    intro d
    rw [table_fat12 (by rw [hst.mount]; exact ht), hst.mount]
  refine ⟨⟨hst, hw, fun x hx => ?_, fun d _ hd => ?_⟩, ?_⟩
  · rw [hvol, putFirst12]
    exact set_other _ fun heq => hx (heq ▸ hin)
  · rw [htab, table_fat12 ht, hvol, entry12_putFirst12 _ _ _ hd.symm]
  · rw [htab, table_fat12 ht, hvol, entry12_putFirst12_same]

/-- Both bytes are. -/
theorem entered_entry12 (ht : fs.fsType = .fat12)
    (hin : fs.InFat (512 * fs.fatbase + c * 3 / 2))
    (hin' : fs.InFat (512 * fs.fatbase + c * 3 / 2 + 1)) (hst : Steady fs fs') (hw : fs'.winsect ≠ 0)
    (hvol : volume fs' = putEntry12 (volume fs) (512 * fs.fatbase) c val) :
    Entered fs fs' c ∧ table fs' c = val % fs.fsType.bound := by
  have htab : ∀ d, table fs' d = entry12 (volume fs') (512 * fs.fatbase) d := by
    intro d
    rw [table_fat12 (by rw [hst.mount]; exact ht), hst.mount]
  refine ⟨⟨hst, hw, fun x hx => ?_, fun d _ hd => ?_⟩, ?_⟩
  · have hne : x ≠ 512 * fs.fatbase + c * 3 / 2 := fun heq => hx (heq ▸ hin)
    have hne' : x ≠ 512 * fs.fatbase + c * 3 / 2 + 1 := fun heq => hx (heq ▸ hin')
    rw [hvol, putEntry12, set_other _ hne', putFirst12, set_other _ hne]
  · rw [htab, table_fat12 ht, hvol, entry12_putEntry12_other _ _ _ hd.symm]
  · rw [htab, hvol, entry12_putEntry12, ht]
    rfl

/-- A FAT12 entry is stored byte by byte. -/
theorem putEntry_fat12 (h : WinOk fs) (hv : fs.Valid) (hw : fs.winsect ≠ 0) (hc : fs.Cluster c)
    (ht : fs.fsType = .fat12) : Put fs c val (putEntry c val fs) := by
  have hlt := hv.cluster_lt hc
  have hcm := hc.2
  rw [ht] at hlt
  obtain ⟨hbc, hbc'⟩ := bc12 hlt
  have hfirst : fs.InFat (512 * fs.fatbase + c * 3 / 2) :=
    hv.inFat (by rw [ht, FsType.tableBytes]; omega)
  have hsecond : fs.InFat (512 * fs.fatbase + (c * 3 / 2 + 1)) :=
    hv.inFat (by rw [ht, FsType.tableBytes]; omega)
  rw [← Nat.add_assoc] at hsecond
  rw [putEntry, ht]
  dsimp only
  rw [hbc, hbc', show fs.fatbase + c * 3 / 2 / 512 = (512 * fs.fatbase + c * 3 / 2) / 512 by omega,
    show c * 3 / 2 % 512 = (512 * fs.fatbase + c * 3 / 2) % 512 by omega]
  obtain ⟨hmoved, hres, -, -, hok⟩ := moveWindow_spec h (Or.inr (hfirst.plain hv))
  have hsect := @moveWindow_winsect fs ((512 * fs.fatbase + c * 3 / 2) / 512) h hw
  have hbyte := moveWindow_byte h (hfirst.plain hv)
  have hpoke := fun f => @moveWindow_poke fs _ 1 h (hfirst.plain hv) (by omega) f
  generalize moveWindow ((512 * fs.fatbase + c * 3 / 2) / 512) fs = r
    at hmoved hres hok hsect hbyte hpoke
  obtain ⟨res, fs1⟩ := r
  rcases hres with hres | hres
  · obtain rfl : res = .ok := hres
    dsimp only
    obtain ⟨hst, ⟨hat, hw2⟩, hvol⟩ := hpoke (fun _ => if c % 2 = 1
      then fs1.win ((512 * fs.fatbase + c * 3 / 2) % 512) &&& 0x0F#8 ||| BitVec.ofNat 8 val <<< 4
      else BitVec.ofNat 8 val) rfl
    generalize poke fs1 _ 1 _ = fs2 at hst hat hw2 hvol ⊢
    rw [fill_one, hbyte rfl, firstByte12_bits] at hvol
    replace hvol : volume fs2 = putFirst12 (volume fs) (512 * fs.fatbase) c val := hvol
    have hplain : fs2.Plain ((512 * fs.fatbase + c * 3 / 2 + 1) / 512) := by
      rw [hst.mount]
      exact hsecond.plain hv
    rw [show fs2.fatbase + (c * 3 / 2 + 1) / 512 = (512 * fs.fatbase + c * 3 / 2 + 1) / 512 by
        rw [hst.mount]; omega,
      show (c * 3 / 2 + 1) % 512 = (512 * fs.fatbase + c * 3 / 2 + 1) % 512 by omega]
    obtain ⟨hmoved', hres', -, -, hok'⟩ := moveWindow_spec hst.winOk (Or.inr hplain)
    have hsect' := @moveWindow_winsect fs2 ((512 * fs.fatbase + c * 3 / 2 + 1) / 512) hst.winOk hw2
    have hbyte' := moveWindow_byte hst.winOk hplain
    have hpoke' := fun f => @moveWindow_poke fs2 _ 1 hst.winOk hplain (by omega) f
    -- the window is not moved between two bytes of one sector
    have hsame : c * 3 / 2 % 512 ≠ 511 →
        (moveWindow ((512 * fs.fatbase + c * 3 / 2 + 1) / 512) fs2).1 = .ok := by
      intro hne
      rw [moveWindow, if_pos (hat.trans (next_same_sector hne).symm)]
    generalize moveWindow ((512 * fs.fatbase + c * 3 / 2 + 1) / 512) fs2 = r
      at hmoved' hres' hok' hsect' hbyte' hpoke' hsame
    obtain ⟨res, fs3⟩ := r
    rcases hres' with hres' | hres'
    · obtain rfl : res = .ok := hres'
      dsimp only
      obtain ⟨hst', ⟨-, hw3⟩, hvol'⟩ := hpoke' (fun _ => if c % 2 = 1 then BitVec.ofNat 8 (val / 16)
        else fs3.win ((512 * fs.fatbase + c * 3 / 2 + 1) % 512) &&& 0xF0#8 |||
          BitVec.ofNat 8 (val / 256) &&& 0x0F#8) rfl
      have hold : volume fs2 (512 * fs.fatbase + c * 3 / 2 + 1) =
          volume fs (512 * fs.fatbase + c * 3 / 2 + 1) := by
        rw [hvol, putFirst12]
        exact set_other _ (by omega)
      generalize poke fs3 _ 1 _ = fs4 at hst' hw3 hvol' ⊢
      rw [fill_one, hbyte' rfl, hold, secondByte12_bits, hvol] at hvol'
      obtain ⟨hentered, htable⟩ := entered_entry12 ht hfirst hsecond (hst.trans hst') hw3 hvol'
      exact ⟨hentered, Or.inl ⟨rfl, htable⟩, fun _ => rfl⟩
    · obtain rfl : res = .diskErr := hres'
      obtain ⟨hentered, htable⟩ := entered_first12 ht hfirst (hst.trans hmoved'.steady) hsect'
        (hmoved'.volume.trans hvol)
      refine ⟨hentered, Or.inr ⟨rfl, Or.inr ⟨ht, ?_, htable⟩⟩,
        fun hr => by cases hok' (hst.reliable hr)⟩
      by_contra hne
      cases hsame hne
  · obtain rfl : res = .diskErr := hres
    exact hmoved.put_failed hsect fun hr => by cases hok hr

theorem putEntry_spec (h : WinOk fs) (hv : fs.Valid) (hw : fs.winsect ≠ 0) (hc : fs.Cluster c)
    (val : ℕ) : Put fs c val (putEntry c val fs) := by
  cases ht : fs.fsType with
  | unmounted => exact absurd ht hv.mounted
  | fat12 => exact putEntry_fat12 h hv hw hc ht
  | fat16 => exact putEntry_word h hv hw hc (Or.inl ⟨rfl, ht⟩)
  | fat32 => exact putEntry_word h hv hw hc (Or.inr ⟨rfl, ht⟩)

/-- Marking a window that is on a sector as changed is harmless. -/
theorem Entered.mark (h : Entered fs fs' c) : Entered fs { fs' with wflag := true } c := by
  have hvol : volume { fs' with wflag := true } = volume fs' := rfl
  obtain ⟨⟨hm, hl, hf, hs, hok⟩, hw, hframe, hothers⟩ := h
  exact ⟨⟨hm, hl, hf, hs, hok.base, fun h0 => absurd h0 hw, hok.plain, by rintro ⟨⟩⟩, hw, hframe,
    hothers⟩

/-- **`put_cluster`** stores the entry or reports a disk error, and changes no other one. -/
theorem putCluster_spec (h : WinOk fs) (hv : fs.Valid) (hw : fs.winsect ≠ 0) (hc : fs.Cluster c)
    (val : ℕ) : Put fs c val (putCluster c val fs) := by
  obtain ⟨hentered, hres, hok⟩ := putEntry_spec h hv hw hc val
  unfold putCluster
  rw [if_neg (by have := hc.1; have := hc.2; omega)]
  generalize putEntry c val fs = r at hentered hres hok
  obtain ⟨res, fs1⟩ := r
  exact ⟨hentered.mark, hres, hok⟩

theorem table_lt (hv : fs.Valid) : table fs c < 0x10000000 := by
  rw [table, Mount.table]
  cases ht : fs.fsType with
  | unmounted => exact absurd ht hv.mounted
  | fat12 =>
    have := entry12_lt (volume fs) (512 * fs.fatbase) c
    dsimp only
    omega
  | fat16 =>
    have := le_lt (volume fs) (512 * fs.fatbase + 2 * c) 2
    dsimp only
    omega
  | fat32 => exact Nat.mod_lt _ (by decide)

/-- **The entries are independent.**  When the window is on a sector, as after every `get_cluster`
that succeeds, then after a `put_cluster` of entry `c`, also one that failed, `get_cluster` returns
what the other entries held; of `c` itself what was stored, or after a failure the old entry or the
torn one; or it reports a disk error.  What is outside the FAT stays. -/
theorem putCluster_getCluster (h : WinOk fs) (hv : fs.Valid) (hw : fs.winsect ≠ 0)
    (hc : fs.Cluster c) (hd : fs.Cluster d) (val : ℕ) :
    let r := putCluster c val fs
    let g := getCluster d r.2
    (d ≠ c → g.1 = table fs d ∨ g.1 = 0xFFFFFFFF) ∧
      (d = c → r.1 = .ok → g.1 = val % fs.fsType.bound ∨ g.1 = 0xFFFFFFFF) ∧
      (d = c → r.1 ≠ .ok → Torn fs c val g.1 ∨ g.1 = 0xFFFFFFFF) ∧
      (∀ x, ¬fs.InFat x → volume g.2 x = volume fs x) ∧
      (Reliable fs → r.1 = .ok ∧ g.1 ≠ 0xFFFFFFFF) := by
  intro r g
  obtain ⟨hput, hpres, hpok⟩ := putCluster_spec h hv hw hc val
  have hmount : r.2.toMount = fs.toMount := hput.steady.mount
  obtain ⟨hget, hgres, hgok⟩ :=
    getCluster_spec hput.steady.winOk (hmount ▸ hv) (hmount ▸ hd : r.2.Cluster d)
  have hval : g.1 = table r.2 d ∨ g.1 = 0xFFFFFFFF := hgres.imp_left And.left
  refine ⟨fun hne => ?_, fun heq hok => ?_, fun heq hfail => ?_, fun x hx => ?_,
    fun hr => ⟨hpok hr, ?_⟩⟩
  · rw [← hput.others d hd.2 hne]
    exact hval
  · rcases hpres with ⟨-, htab⟩ | ⟨herr, -⟩
    · rwa [heq, htab] at hval
    · cases hok.symm.trans herr
  · rcases hpres with ⟨hok, -⟩ | ⟨-, htorn⟩
    · exact absurd hok hfail
    · rw [heq] at hval
      refine hval.imp_left fun hg => ?_
      rw [hg]
      exact htorn
  · rw [← hput.frame x hx]
    exact congrFun hget.volume x
  · rw [(hgok (hput.steady.reliable hr)).1]
    exact ne_of_lt (lt_trans (table_lt (hmount ▸ hv)) (by decide))

/-- A FAT12 volume whose entry 341 lies across two sectors, on a drive that fails in access 3. -/
def tornVolume : Fatfs :=
  { smallVolume with
    nFats := 1, sectsFat := 2, maxClust := 345
    drive := { smallVolume.drive with served := fun i => if i = 3 then 0 else 255 } }

theorem tornVolume_valid : tornVolume.Valid where
  mounted := by decide
  reserved := by decide
  copies := by decide
  clusterSize := ⟨0, by decide, rfl⟩
  clusters := by decide
  two := by decide
  table := by decide
  behind := by decide
  inside := by decide
  fsinfo := by decide

/-- Entries 2 and 3 share a byte; entry 341 is torn. -/
theorem putCluster_getCluster_small :
    (let fs := (getCluster 2 smallVolume).2
      let r := putCluster 3 0xFFF fs
      (getCluster 2 r.2).1 = 0 ∨ (getCluster 2 r.2).1 = 0xFFFFFFFF) ∧
    let fs := (getCluster 341 tornVolume).2
    let r := putCluster 341 0xFFF fs
    r.1 = .diskErr ∧ (getCluster 341 r.2).1 = 15 ∧ Torn fs 341 0xFFF 15 := by
  constructor
  · have hget := getCluster_spec smallVolume_winOk smallVolume_valid
      (show smallVolume.Cluster 2 by decide)
    obtain ⟨hother, -⟩ := putCluster_getCluster hget.1.winOk (hget.1.mount ▸ smallVolume_valid)
      (by decide) (hget.1.mount ▸ (by decide : smallVolume.Cluster 3))
      (hget.1.mount ▸ (by decide : smallVolume.Cluster 2)) 0xFFF
    have hempty : table (getCluster 2 smallVolume).2 2 = 0 := by decide
    rw [← hempty]
    exact hother (by decide)
  · have hok : WinOk tornVolume :=
      ⟨tornVolume_valid.fatsFit, fun _ => rfl, fun h => absurd rfl h, fun _ h => absurd rfl h⟩
    have hc : tornVolume.Cluster 341 := by decide
    have hget := getCluster_spec hok tornVolume_valid hc
    obtain ⟨-, -, htorn, -⟩ := putCluster_getCluster hget.1.winOk (hget.1.mount ▸ tornVolume_valid)
      (by decide +kernel) (hget.1.mount ▸ hc) (hget.1.mount ▸ hc) 0xFFF
    have hfail : (putCluster 341 0xFFF (getCluster 341 tornVolume).2).1 = .diskErr := by
      decide +kernel
    have hval : (getCluster 341 (putCluster 341 0xFFF (getCluster 341 tornVolume).2).2).1 = 15 := by
      decide +kernel
    refine ⟨hfail, hval, ?_⟩
    rw [hfail, hval] at htorn
    exact (htorn rfl (by decide)).resolve_right (by decide)

end Fat

end VwiiNandTools.Ff
