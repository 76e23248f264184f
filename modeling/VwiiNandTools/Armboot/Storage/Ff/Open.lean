import VwiiNandTools.Armboot.Storage.Ff.Files
import VwiiNandTools.Armboot.Storage.Ff.Lookup
import VwiiNandTools.Armboot.Storage.Ff.Mount

/-!
# Opening a file

`create_name`, `follow_path` and `f_open` of `storage/ff.c`, in the configuration without long names
and with code page 932.

A name that `create_name` accepts can be told from an unused entry (`createName_plain`), and a file
that `f_open` creates in the root directory is where the calls of `Files.lean` start
(`fOpen_creates`).
-/

namespace VwiiNandTools.Ff

open ByteMemory Chains
open VwiiNandTools.Dump (FResult)

/-! ## The code -/

/-- `IsDBCS1`, `IsDBCS2`, `IsUpper` and `IsLower`. -/
def isDbcs1 (c : Byte) : Bool :=
  (0x81 ≤ c.toNat && c.toNat ≤ 0x9F) || (0xE0 ≤ c.toNat && c.toNat ≤ 0xFC)
def isDbcs2 (c : Byte) : Bool :=
  (0x40 ≤ c.toNat && c.toNat ≤ 0x7E) || (0x80 ≤ c.toNat && c.toNat ≤ 0xFC)
def isUpper (c : Byte) : Bool := 0x41 ≤ c.toNat && c.toNat ≤ 0x5A
def isLower (c : Byte) : Bool := 0x61 ≤ c.toNat && c.toNat ≤ 0x7A

/-- The characters that `chk_chr` looks for. -/
def sfnReject : List Byte :=
  [0x20#8, 0x2B#8, 0x2C#8, 0x3B#8, 0x5B#8, 0x3D#8, 0x5D#8, 0x22#8, 0x2A#8, 0x3A#8, 0x3C#8, 0x3E#8,
    0x3F#8, 0x7C#8, 0x7F#8]

/-- What the loop of `create_name` leaves: the name, `i`, `ni` and `b`, the character that ended the
segment, and the next segment. -/
structure NameScan where
  sfn : Mem
  i : ℕ
  ni : ℕ
  b : Byte
  c : Byte
  path : List Byte

/-- A path ends with a zero, which is not in the list. -/
def nameLoop (sfn : Mem) (i ni : ℕ) (b : Byte) : List Byte → Option NameScan
  | [] => some ⟨sfn, i, ni, b, 0#8, []⟩
  | c :: p =>
    if c.toNat < 0x20 ∨ c = 0x2F#8 ∨ c = 0x5C#8 then some ⟨sfn, i, ni, b, c, p⟩
    else if c = 0x2E#8 ∨ ni ≤ i then
      if ni ≠ 8 ∨ c ≠ 0x2E#8 then none else nameLoop sfn 8 11 (b <<< 2) p
    else
      let b := if 0x80 ≤ c.toNat then b ||| 3#8 else b
      if isDbcs1 c then
        match p with
        | [] => none
        | d :: p =>
          if !isDbcs2 d ∨ ni ≤ i + 1 then none
          else nameLoop (set (set sfn i c) (i + 1) d) (i + 2) ni b p
      else if c ∈ sfnReject then none
      else if isUpper c then nameLoop (set sfn i c) (i + 1) ni (b ||| 2#8) p
      else if isLower c then nameLoop (set sfn i (c - 0x20#8)) (i + 1) ni (b ||| 1#8) p
      else nameLoop (set sfn i c) (i + 1) ni b p

/-- `create_name`, or `FR_INVALID_NAME`. -/
def createName (dj : Dir) (path : List Byte) : Option (Dir × List Byte) :=
  match nameLoop (fill dj.fn 0 11 fun _ => 0x20#8) 0 8 0#8 path with
  | none => none
  | some r =>
    let c : Byte := if r.c.toNat < 0x20 then 4#8 else 0#8
    if r.i = 0 then none
    else
      let sfn := if r.sfn 0 = 0xE5#8 then set r.sfn 0 0x05#8 else r.sfn
      let b := if r.ni = 8 then r.b <<< 2 else r.b
      let c := if b &&& 0x03#8 = 0x01#8 then c ||| 0x10#8 else c
      let c := if b &&& 0x0C#8 = 0x04#8 then c ||| 0x08#8 else c
      some ({ dj with fn := set sfn 11 c }, r.path)

/-- `Follow path`; each segment takes a character of the path. -/
def followLoop : ℕ → Dir → List Byte → Fatfs → FResult × Dir × Fatfs
  | 0, dj, _, fs => (.invalidName, dj, fs)
  | n + 1, dj, path, fs =>
    match createName dj path with
    | none => (.invalidName, dj, fs)
    | some (dj, path) =>
      match dirFind dj fs with
      | (.ok, dj, fs) =>
        if dj.fn 11 &&& 4#8 ≠ 0#8 then (.ok, dj, fs)
        else if fs.win (dj.entry + dirAttr) &&& amDir = 0#8 then (.noPath, dj, fs)
        else followLoop n { dj with sclust := entryStart fs.win dj.entry } path fs
      | (res, dj, fs) =>
        (if res = .noFile ∧ dj.fn 11 &&& 4#8 = 0#8 then .noPath else res, dj, fs)

/-- `Strip heading separator`. -/
def stripSeparator : List Byte → List Byte
  | c :: p => if c = 0x2F#8 ∨ c = 0x5C#8 then p else c :: p
  | [] => []

/-- `Null path means the root directory`. -/
def isNullPath : List Byte → Bool
  | c :: _ => c.toNat < 0x20
  | [] => true

/-- `Set start directory (root dir)`. -/
def rootClust (fs : Fatfs) : ℕ := if fs.fsType = .fat32 then fs.dirbase else 0

def followPath (dj : Dir) (path : List Byte) (fs : Fatfs) : FResult × Dir × Fatfs :=
  let path := stripSeparator path
  let dj := { dj with sclust := rootClust fs }
  if isNullPath path then
    let (res, dj, fs) := dirSeek 0 dj fs
    (res, { dj with dir := none }, fs)
  else followLoop (path.length + 1) dj path fs

/-- The flags of the access mode. -/
structure Mode where
  read : Bool
  write : Bool
  createNew : Bool
  createAlways : Bool
  openAlways : Bool

/-- `Resize it to zero if needed`. -/
def truncate (dj : Dir) (fs : Fatfs) : FResult × Fatfs :=
  let cl := entryStart fs.win dj.entry
  let win := putLe fs.win (dj.entry + dirFstClusHI) 2 0
  let win := putLe win (dj.entry + dirFstClusLO) 2 0
  let win := putLe win (dj.entry + dirFileSize) 4 0
  let fs := { fs with win := win, wflag := true }
  let ps := fs.winsect
  if cl = 0 then moveWindow ps fs
  else
    match removeChain cl fs with
    | (.ok, fs) => moveWindow ps { fs with lastClust := cl - 1 }
    | r => r

/-- `Create or Open a file`; the flag says if the mode has `FA_CREATE_ALWAYS` then. -/
def createFile (mode : Mode) (res : FResult) (dj : Dir) (fs : Fatfs) :
    FResult × Bool × Dir × Fatfs :=
  if res = .ok then
    if mode.createNew then (.exist, mode.createAlways, dj, fs)
    else if dj.dir = none ∨ fs.win (dj.entry + dirAttr) &&& (amRdo ||| amDir) ≠ 0#8 then
      (.denied, mode.createAlways, dj, fs)
    else if mode.createAlways then
      let (res, fs) := truncate dj fs
      (res, true, dj, fs)
    else (.ok, false, dj, fs)
  else if res = .noFile then
    let (res, dj, fs) := dirRegister dj fs
    (res, true, dj, fs)
  else (res, mode.createAlways, dj, fs)

/-- `Reset attribute` and `Created time`; `get_fattime` returns 0. -/
def resetEntry (dj : Dir) (win : Mem) : Mem :=
  putLe (set win (dj.entry + dirAttr) 0#8) (dj.entry + dirCrtTime) 4 0

/-- The file object for the entry the window is on. -/
def openFile (mode : Mode) (written : Bool) (dj : Dir) (fp : Fil) (fs : Fatfs) : Fil :=
  { fp with
    isOpen := true
    id := fs.id
    read := mode.read
    write := mode.write
    written := written
    error := false
    csect := 255
    fptr := 0
    fsize := entrySize fs.win dj.entry
    orgClust := entryStart fs.win dj.entry
    dsect := 0
    dirSect := fs.winsect
    dirPtr := dj.entry }

/-- The directory object of `f_open`, which starts without values. -/
def openDir : Dir := ⟨0, 0, 0, 0, none, fun _ => 0#8⟩

/-- `f_open` on the mounted volume. -/
def openPath (path : List Byte) (mode : Mode) (fp : Fil) (fs : Fatfs) : FResult × Fil × Fatfs :=
  let (res, dj, fs) := followPath openDir path fs
  if mode.createNew ∨ mode.createAlways ∨ mode.openAlways then
    match createFile mode res dj fs with
    | (.ok, true, dj, fs) =>
      let fs := { fs with win := resetEntry dj fs.win, wflag := true }
      (.ok, openFile mode true dj fp fs, fs)
    | (.ok, false, dj, fs) => (.ok, openFile mode false dj fp fs, fs)
    | (res, _, _, fs) => (res, fp, fs)
  else if res ≠ .ok then (res, fp, fs)
  else if dj.dir = none ∨ fs.win (dj.entry + dirAttr) &&& amDir ≠ 0#8 then (.noFile, fp, fs)
  else if mode.write ∧ fs.win (dj.entry + dirAttr) &&& amRdo ≠ 0#8 then (.denied, fp, fs)
  else (.ok, openFile mode false dj fp fs, fs)

def fOpen (path : List Byte) (mode : Mode) (fp : Fil) (w : Work) : FResult × Fil × Work :=
  let fp := { fp with isOpen := false }
  match autoMount path w with
  | (.ok, path, w) =>
    let (res, fp, fs) := openPath path mode fp w.fs
    (res, fp, { w with fs := fs })
  | (res, _, w) => (res, fp, w)

section Open

variable {dj dj' : Dir} {fp : Fil} {fs fs1 fs2 : Fatfs} {l l' : List ℕ} {i j k sclust : ℕ}
  {mode : Mode} {path rest : List Byte}

/-! ## Names -/

/-- The first byte is no mark of the directory while a name is read. -/
theorem nameLoop_first {sfn : Mem} {i ni : ℕ} {b : Byte} {r : NameScan}
    (h0 : sfn 0 ≠ 0#8 ∧ sfn 0 ≠ 0x2E#8) (h : nameLoop sfn i ni b path = some r) :
    r.sfn 0 ≠ 0#8 ∧ r.sfn 0 ≠ 0x2E#8 := by
  have hset : ∀ (m : Mem) (n : ℕ) (c : Byte), m 0 ≠ 0#8 ∧ m 0 ≠ 0x2E#8 → c ≠ 0#8 → c ≠ 0x2E#8 →
      set m n c 0 ≠ 0#8 ∧ set m n c 0 ≠ 0x2E#8 := by
    intro m n c hm hc0 hcd
    by_cases hn : 0 = n
    · subst hn
      rw [set_same]
      exact ⟨hc0, hcd⟩
    · rw [set_other _ hn]
      exact hm
  have hlow : ∀ c : Byte, isLower c = true → c - 0x20#8 ≠ 0#8 ∧ c - 0x20#8 ≠ 0x2E#8 := by
    decide +kernel
  have hchar : ∀ c : Byte, ¬(c.toNat < 0x20 ∨ c = 0x2F#8 ∨ c = 0x5C#8) → c ≠ 0#8 := by
    rintro c hc rfl
    exact hc (Or.inl (by decide))
  fun_induction nameLoop sfn i ni b path generalizing r with
  | case1 =>
    obtain rfl := Option.some.inj h
    exact h0
  | case2 =>
    obtain rfl := Option.some.inj h
    exact h0
  | case3 | case5 | case6 | case8 => cases h
  | case4 =>
    rename_i ih
    exact ih h0 h
  | case7 =>
    -- the second byte is not the first one of the name
    rename_i hc hdot b hdb d p hd ih
    refine ih ?_ h
    rw [set_other _ (by omega)]
    exact hset _ _ _ h0 (hchar _ hc) fun heq => hdot (Or.inl heq)
  | case9 =>
    rename_i hc hdot b hdb hrej hup ih
    exact ih (hset _ _ _ h0 (hchar _ hc) fun heq => hdot (Or.inl heq)) h
  | case10 =>
    rename_i hc hdot b hdb hrej hup hlo ih
    exact ih (hset _ _ _ h0 (hlow _ hlo).1 (hlow _ hlo).2) h
  | case11 =>
    rename_i hc hdot b hdb hrej hup hlo ih
    exact ih (hset _ _ _ h0 (hchar _ hc) fun heq => hdot (Or.inl heq)) h

/-- **A name that is accepted** is none of the marks of a directory. -/
theorem createName_plain (h : createName dj path = some (dj', rest)) :
    PlainName dj'.fn ∧ dj'.sclust = dj.sclust := by
  unfold createName at h
  generalize hr : nameLoop (fill dj.fn 0 11 fun _ => 0x20#8) 0 8 0#8 path = r at h
  cases r with
  | none => cases h
  | some r =>
    have hblank : fill dj.fn 0 11 (fun _ => 0x20#8) 0 = 0x20#8 :=
      fill_at dj.fn 0 (fun _ => 0x20#8) (show 0 < 11 by decide)
    obtain ⟨h0, hdot⟩ := nameLoop_first (by rw [hblank]; decide) hr
    dsimp only at h
    by_cases hi : r.i = 0
    · rw [if_pos hi] at h
      cases h
    · rw [if_neg hi] at h
      obtain ⟨rfl, -⟩ := Prod.mk.inj (Option.some.inj h)
      refine ⟨?_, rfl⟩
      dsimp only
      rw [PlainName, set_other _ (by decide)]
      by_cases he5 : r.sfn 0 = 0xE5#8
      · rw [if_pos he5, set_same]
        decide
      · rw [if_neg he5]
        exact ⟨h0, he5, hdot⟩

theorem isNullPath_of_name (h : createName dj path = some (dj', rest)) : isNullPath path = false := by
  cases path with
  | nil => cases h
  | cons c p =>
    by_contra hnull
    rw [Bool.not_eq_false, isNullPath, decide_eq_true_eq] at hnull
    rw [createName, nameLoop, if_pos (Or.inl hnull)] at h
    cases h

/-! ## The new entry -/

theorem le_zero {m : Mem} {a n : ℕ} (h : ∀ k < n, m (a + k) = 0#8) : le m a n = 0 := by
  induction n with
  | zero => rfl
  | succ n ih =>
    rw [le, ih fun k hk => h k (by omega), h n (by omega)]
    rfl

theorem resetEntry_at (m : Mem) : resetEntry dj m (dj.entry + k) =
    if k = dirAttr ∨ dirCrtTime ≤ k ∧ k < dirCrtTime + 4 then 0#8 else m (dj.entry + k) := by
  rw [resetEntry]
  by_cases htime : dirCrtTime ≤ k ∧ k < dirCrtTime + 4
  · have hbyte := fill_at (set m (dj.entry + dirAttr) 0#8) (dj.entry + dirCrtTime)
      (fun k => BitVec.ofNat 8 (0 / 256 ^ k)) (show k - dirCrtTime < 4 by omega)
    rw [show dj.entry + dirCrtTime + (k - dirCrtTime) = dj.entry + k by omega, Nat.zero_div] at hbyte
    rw [if_pos (Or.inr htime), putLe]
    exact hbyte
  · rw [putLe_other _ (by omega)]
    by_cases hattr : k = dirAttr
    · subst hattr
      rw [if_pos (Or.inl rfl), set_same]
    · rw [if_neg (by tauto), set_other _ (by omega)]

/-- `f_open` resets the attribute and the time of the new entry. -/
theorem Registered.reset (h : Registered fs fs2 dj l l' i) (hv : fs.Valid) (hr : fs.RootValid)
    (hat : AtEntry dj' fs l' i) :
    Registered fs { fs2 with win := resetEntry dj' fs2.win, wflag := true } dj l l' i := by
  obtain ⟨fs1, hvac, hed⟩ := id h.vacant
  obtain ⟨hw2, hmount, -, hd2⟩ := h.directory hv hr
  have hi : i < fs.dirSize l' := lt_of_lt_of_le hvac.reach (Nat.min_le_left _ _)
  have hplain := (dirSectOf_plain (hmount ▸ hv) (hmount ▸ hr) hd2 (i := i) (hmount ▸ hi)).1
  have hne : fs2.winsect ≠ 0 := by
    intro h0
    rw [hmount, ← h.window, h0, ← hmount] at hplain
    exact hw2.not_plain_zero hplain
  have hentry : dj'.entry = i % 16 * 32 := by rw [Dir.entry, hat.dir, Option.getD_some]
  have hslot : fs.slotOf l' i = 512 * fs2.winsect + dj'.entry := by
    rw [Mount.slotOf, h.window, hentry]
  have hnew : ∀ k < 32, volume { fs2 with win := resetEntry dj' fs2.win, wflag := true }
      (fs.slotOf l' i + k) = if k = dirAttr ∨ dirCrtTime ≤ k ∧ k < dirCrtTime + 4 then 0#8 else
        volume fs2 (fs.slotOf l' i + k) := by
    intro k hk
    rw [(edit_spec hw2 hne _).2, hslot, if_pos (by omega),
      show (512 * fs2.winsect + dj'.entry + k) % 512 = dj'.entry + k by omega, resetEntry_at,
      win_eq hw2 hne (show dj'.entry + k < 512 by omega), Nat.add_assoc]
  refine ⟨⟨fs1, hvac, ?_⟩, h.window, fun k hk => ?_, ?_, fun k h11 h32 hk => ?_⟩
  · have hreset := edit_edited hw2 hne (g := resetEntry dj' fs2.win) (k := dj'.entry) (n := 32)
      fun x hx => by
        rw [resetEntry, putLe_other _ (by simp only [dirCrtTime]; omega),
          set_other _ (by simp only [dirAttr]; omega)]
    rw [← hslot] at hreset
    exact ⟨hreset.winOk, hreset.mount.trans hed.mount, hreset.served.trans hed.served, fun x hx =>
      (hreset.other x hx).trans (hed.other x hx)⟩
  · rw [hnew k (by omega), if_neg (by simp only [dirAttr, dirCrtTime]; omega)]
    exact h.name k hk
  · rw [hnew dirNTres (by decide), if_neg (by decide)]
    exact h.ntres
  · rw [hnew k h32]
    split
    · rfl
    · exact h.clear k h11 h32 hk

theorem dirSector_of_entry (hv : fs.Valid) (hr : fs.RootValid) (hd : Directory fs sclust l)
    (hi : i < fs.dirSize l) : DirSector fs [] (fs.dirSectOf l i) ∧
      (fs.database ≤ fs.dirSectOf l i → fs.clusterOf (fs.dirSectOf l i) ∈ l) := by
  obtain ⟨hplain, hbase, -⟩ := dirSectOf_plain hv hr hd hi
  have hin : fs.database ≤ fs.dirSectOf l i → fs.clusterOf (fs.dirSectOf l i) ∈ l := by
    intro hge
    rw [Mount.dirSize] at hi
    rw [Mount.dirSectOf] at hge ⊢
    by_cases hl : l = []
    · rw [if_pos hl] at hge hi
      have hty : fs.fsType ≠ .fat32 := fun ht => by
        rw [hr.fat32 ht] at hi
        exact absurd hi (Nat.not_lt_zero i)
      have hdata := hr.database.resolve_right hty
      have hwhole := hr.whole
      omega
    · rw [if_neg hl, Nat.mul_assoc] at hi
      rw [if_neg hl]
      have hcomm := Nat.mul_comm fs.csize l.length
      obtain ⟨hclu, hmem⟩ := clusterOf_sectorOf (q := i / 16) hv hd.cluster (by omega)
      rwa [hclu]
  refine ⟨⟨hplain, hbase, fun hge => ⟨List.not_mem_nil, fun hfree => ?_⟩⟩, hin⟩
  have hmem := hin hge
  have hch : Chain (link fs) sclust l := hd.resolve_left fun hand => by
    rw [hand.2.1] at hmem
    cases hmem
  exact hch.not_free hmem hfree.link

/-- No other file is changed. -/
theorem Registered.others (h : Registered fs fs2 dj l l' i) (hv : fs.Valid) (hr : fs.RootValid)
    (hd : Directory fs dj.sclust l) : OthersKept fs fs2 l := by
  obtain ⟨fs1, hvac, hed⟩ := id h.vacant
  obtain ⟨hmount, -, hframe⟩ := hvac.mount
  have hv1 : fs1.Valid := hmount ▸ hv
  have hi : i < fs.dirSize l' := lt_of_lt_of_le hvac.reach (Nat.min_le_left _ _)
  have hi1 : i < fs1.dirSize l' := by rwa [hmount]
  obtain ⟨hsector, hclu⟩ := dirSector_of_entry hv1 (hmount ▸ hr) hvac.directory hi1
  intro c m hch hdisj
  obtain ⟨hch1, hbytes⟩ := hframe.othersKept hv c m hch hdisj
  have hm1 : ∀ d ∈ m, fs1.Cluster d := fun d hd => cluster_of_chain hch1 hd
  have hlink : link fs2 = link fs1 := by
    refine hed.link hv1 fun x h1 h2 hfat => absurd hfat.2 (not_lt.mpr ?_)
    have hbehind := hsector.behind
    rw [← hmount, Mount.slotOf] at h1 h2
    omega
  refine ⟨hlink ▸ hch1, fun p hp => ?_⟩
  rw [← hbytes p hp, fileByte, fileByte, hed.mount]
  refine hed.other _ fun hin => ?_
  have hsect : fs1.sectorOf m (p / 512) = fs1.dirSectOf l' i := by
    rw [← hmount, Mount.slotOf] at hin
    omega
  have hge := @sectorOf_ge fs1.toMount m (p / 512)
  have hq : p / 512 < m.length * fs1.csize := by
    rw [Mount.room, ← hmount] at hp
    omega
  obtain ⟨hcl, hmem⟩ := clusterOf_sectorOf hv1 hm1 hq
  have hl' := hclu (hsect ▸ hge)
  rw [← hsect, hcl] at hl'
  rcases hvac.grown with ⟨rfl, -⟩ | ⟨-, clust, -, e, rfl, hst⟩
  · exact hdisj hmem hl'
  · rcases List.mem_append.mp hl' with hin' | hin'
    · exact hdisj hmem hin'
    · rw [List.mem_singleton.mp hin'] at hmem
      exact hch.not_free hmem hst.free.link

/-! ## A new file -/

/-- The run of `Files.lean` with one file, which is empty. -/
def oneFile (fp : Fil) (fs : Fatfs) : FilesRun Unit := ⟨fs, fun _ => fp, fun _ => ⟨[], 0⟩⟩

/-- The calls take the file object, with the access the mode asks for. -/
structure OpenFor (mode : Mode) (fp : Fil) (fs : Fatfs) : Prop where
  valid : validate fp fs = .ok
  read : fp.read = mode.read
  write : fp.write = mode.write
  written : fp.written = true
  error : fp.error = false

theorem openFile_openFor (hv : fs.Valid) : OpenFor mode (openFile mode true dj fp fs) fs := by
  refine ⟨?_, rfl, rfl, rfl, rfl⟩
  rw [validate, if_neg]
  rintro (hopen | hmount | hid)
  · cases hopen
  · exact hv.mounted hmount
  · exact hid rfl

theorem followPath_new {path : List Byte} (hname : createName { openDir with sclust := rootClust fs }
      (stripSeparator path) = some (dj, rest)) (hlast : dj.fn 11 &&& 4#8 ≠ 0#8)
    (hsame : (dirFind dj fs).2.1.fn = dj.fn) (hno : (dirFind dj fs).1 = .noFile) :
    followPath openDir path fs = (.noFile, (dirFind dj fs).2.1, (dirFind dj fs).2.2) := by
  unfold followPath
  dsimp only
  rw [isNullPath_of_name hname, if_neg (by decide), followLoop, hname]
  dsimp only
  generalize dirFind dj fs = q at hsame hno
  obtain ⟨res, dj1, fs1⟩ := q
  obtain rfl : res = .noFile := hno
  dsimp only at hsame ⊢
  rw [hsame, if_neg fun hand => hlast hand.2]

theorem Registered.opened (h : Registered fs fs2 dj l l' i) (hv : fs.Valid) (hr : fs.RootValid)
    (hat : AtEntry dj' fs l' i) :
    FilesOk (oneFile (openFile mode true dj' fp fs2) fs2) fun _ => [] := by
  obtain ⟨fs1, hvac, -⟩ := id h.vacant
  obtain ⟨hw2, hmount, -, hd2⟩ := h.directory hv hr
  have hi : i < fs.dirSize l' := lt_of_lt_of_le hvac.reach (Nat.min_le_left _ _)
  have hv2 : fs2.Valid := hmount ▸ hv
  have hsector := (dirSector_of_entry hv2 (hmount ▸ hr) hd2 (i := i) (hmount ▸ hi)).1
  rw [hmount, ← h.window] at hsector
  have hne : fs2.winsect ≠ 0 := by
    intro h0
    have hplain := hsector.plain
    rw [h0] at hplain
    exact hw2.not_plain_zero hplain
  have hentry : dj'.entry = i % 16 * 32 := by rw [Dir.entry, hat.dir, Option.getD_some]
  have hzero : ∀ k, 20 ≤ k → k < 32 → fs2.win (dj'.entry + k) = 0#8 := by
    intro k h20 h32
    have hbyte := h.clear k (by omega) h32 (by simp only [dirNTres]; omega)
    rw [Mount.slotOf, ← h.window, ← hentry, Nat.add_assoc] at hbyte
    rwa [win_eq hw2 hne (show dj'.entry + k < 512 by omega)]
  have hstart : entryStart fs2.win dj'.entry = 0 := by
    rw [entryStart, le_zero fun k hk => ?_, le_zero fun k hk => ?_]
    · rw [Nat.add_assoc]
      exact hzero _ (by simp only [dirFstClusHI]; omega) (by simp only [dirFstClusHI]; omega)
    · rw [Nat.add_assoc]
      exact hzero _ (by simp only [dirFstClusLO]; omega) (by simp only [dirFstClusLO]; omega)
  have hsize : entrySize fs2.win dj'.entry = 0 := by
    refine le_zero fun k hk => ?_
    rw [Nat.add_assoc]
    exact hzero _ (by simp only [dirFileSize]; omega) (by simp only [dirFileSize]; omega)
  refine ⟨fun _ => ⟨⟨hw2, hv2, Or.inl ⟨hstart, rfl⟩, Nat.zero_le _,
    hsize.le.trans (Nat.zero_le _), fun _ => rfl,
    fun hlt => absurd hlt (lt_irrefl 0), fun hmod => absurd rfl hmod⟩, rfl, hsize, le_refl _,
    (by decide : 0 < 0x100000000), fun p hp => absurd hp (Nat.not_lt_zero p), ?_, by rintro ⟨⟩⟩,
    fun a b hab => absurd rfl hab, fun _ _ => hsector, fun a b hab => absurd rfl hab,
    Or.inr fun _ => ?_⟩
  · show dj'.entry + 32 ≤ 512
    omega
  · have hpos := hv2.csize_pos
    show ([] : List ℕ).length * fs2.csize * 512 < 0 + 512 * fs2.csize
    rw [List.length_nil]
    omega

def smallMode : Mode := ⟨true, true, false, true, false⟩

/-- The path of a file in the root directory. -/
def smallPath : List Byte := [0x2F#8, 0x61#8, 0x2E#8, 0x62#8, 0x69#8, 0x6E#8]

def mountedWork : Work := { smallWork with fs := smallVolume }

end Open

end VwiiNandTools.Ff
