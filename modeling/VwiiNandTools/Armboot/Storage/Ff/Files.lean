import VwiiNandTools.Armboot.Storage.Ff.Sync

/-!
# Open files

Several files are open on one volume.  To its callers each is an array of bytes and a file pointer
(`Content`), and no call for one file is seen in another: the volume refines a family of independent
arrays (`files_run`).
-/

namespace VwiiNandTools.Ff

open ByteMemory Chains Transition
open VwiiNandTools.Dump (FResult)

universe u

/-- What a file is to its callers. -/
structure Content where
  bytes : List Byte
  fptr : ℕ

/-- Bytes are written at the file pointer. -/
def Content.write (c : Content) (buff : List Byte) : Content where
  bytes := c.bytes.take c.fptr ++ buff ++ c.bytes.drop (c.fptr + buff.length)
  fptr := c.fptr + buff.length

/-- The calls for open files. -/
inductive FileCall (ι : Type u)
  | write (i : ι) (buff : List Byte)
  | sync (i : ι)
  | close (i : ι)

/-- The volume, the file objects, and what they stand for. -/
structure FilesRun (ι : Type u) where
  fs : Fatfs
  files : ι → Fil
  content : ι → Content

/-- The file object stands for the content. -/
structure Stands (fp : Fil) (fs : Fatfs) (l : List ℕ) (c : Content) : Prop where
  pos : Positioned fp fs l
  fptr : fp.fptr = c.fptr
  length : fp.fsize = c.bytes.length
  inside : c.fptr ≤ c.bytes.length
  size : c.bytes.length < 0x100000000
  bytes : ∀ p < c.bytes.length, fileByte fs l p = c.bytes.getD p 0#8
  entry : fp.dirPtr + 32 ≤ 512
  recorded : fp.written = false → Recorded fp fs

/-- The files stand for their contents; they share no cluster, and their directory entries are apart
from all of it.  A chain is followed only while no access fails (`createChain_unread`): else each
file pointer is past the start of the file's last cluster. -/
structure FilesOk {ι : Type u} (r : FilesRun ι) (l : ι → List ℕ) : Prop where
  stands : ∀ i, Stands (r.files i) r.fs (l i) (r.content i)
  disjoint : ∀ i j, i ≠ j → List.Disjoint (l i) (l j)
  sector : ∀ i j, DirSector r.fs (l j) (r.files i).dirSect
  apart : ∀ i j, i ≠ j → Apart (r.files i).slot 32 (r.files j).slot 32
  next : Reliable r.fs ∨ ∀ i, AtLast (r.files i) r.fs (l i)

section Content

variable {c : Content} {b : List Byte} {k p : ℕ}

theorem Content.write_nil (c : Content) : c.write [] = c := by
  simp [Content.write]

theorem Content.write_length (hc : c.fptr ≤ c.bytes.length) :
    (c.write b).bytes.length = max c.bytes.length (c.fptr + b.length) := by
  simp only [Content.write, List.length_append, List.length_take, List.length_drop]
  omega

theorem Content.write_getD (hc : c.fptr ≤ c.bytes.length) (hk : k ≤ b.length) :
    (c.write (b.take k)).bytes.getD p 0#8 =
      fill (fun p => c.bytes.getD p 0#8) c.fptr k (fun j => b.getD j 0#8) p := by
  have hlen : (c.bytes.take c.fptr).length = c.fptr := by rw [List.length_take, Nat.min_eq_left hc]
  have hlen' : (b.take k).length = k := by rw [List.length_take, Nat.min_eq_left hk]
  simp only [Content.write, fill, hlen', List.getD_eq_getElem?_getD]
  rw [List.append_assoc]
  rcases Nat.lt_or_ge p c.fptr with hp | hp
  · rw [if_neg (by omega), List.getElem?_append_left (by omega), List.getElem?_take_of_lt hp]
  · rw [List.getElem?_append_right (by omega), hlen]
    rcases Nat.lt_or_ge p (c.fptr + k) with hp' | hp'
    · rw [if_pos ⟨hp, hp'⟩, List.getElem?_append_left (by omega), List.getElem?_take_of_lt (by omega)]
    · rw [if_neg (by omega), List.getElem?_append_right (by omega), List.getElem?_drop, hlen']
      congr 2
      omega

end Content

section Files

variable {fp fp' : Fil} {fs fs' : Fatfs} {l l' m : List ℕ} {c : Content} {a k n s : ℕ}

/-! ## What other files see -/

theorem Stands.start_lt (h : Stands fp fs l c) : fp.orgClust < 0x100000000 := by
  rcases h.pos.chain with ⟨h0, -⟩ | hch
  · omega
  · obtain ⟨t, rfl⟩ := hch.head
    have hc := cluster_of_chain hch (List.mem_cons_self ..)
    have hlt := h.pos.valid.cluster_lt hc
    have hlim : fs.fsType.clusters ≤ 0x0FFFFFF7 := by cases fs.fsType <;> decide
    omega

theorem Stands.not_free (h : Stands fp fs l c) {d : ℕ} (hd : d ∈ l) : ¬Free fs d := by
  rcases h.pos.chain with ⟨-, rfl⟩ | hch
  · cases hd
  · exact fun hfree => hch.not_free hd hfree.link

theorem recorded_congr (h : ∀ x, fp.slot ≤ x → x < fp.slot + 32 → volume fs' x = volume fs x)
    (hr : Recorded fp fs) : Recorded fp fs' := by
  obtain ⟨hstart, hsize⟩ := hr
  constructor
  · rw [← hstart, entryStart, entryStart]
    simp only [dirFstClusLO, dirFstClusHI]
    rw [le_congr fun x h1 h2 => h x (by omega) (by omega),
      le_congr (n := 2) (a := fp.slot + 20) fun x h1 h2 => h x (by omega) (by omega)]
  · rw [← hsize, entrySize, entrySize]
    simp only [dirFileSize]
    exact le_congr fun x h1 h2 => h x (by omega) (by omega)

/-- A byte of a directory is kept by what is done for a file. -/
theorem DirSector.frame (h : DirSector fs l s) (hf : Frame fs fs' l) {x : ℕ} (hx : x / 512 = s) :
    volume fs' x = volume fs x := by
  rcases Nat.lt_or_ge s fs.database with hlt | hge
  · exact hf.front x (by omega) (h.not_inFat hx)
  · obtain ⟨hl, hfree⟩ := h.used hge
    exact hf.data x (by omega) (by rwa [hx]) (by rwa [hx])

theorem DirSector.of_frame (h : DirSector fs l s) (h' : DirSector fs m s) (hf : Frame fs fs' l)
    (hl' : ∀ d ∈ l', d ∈ m ∨ Free fs d) : DirSector fs' l' s := by
  obtain ⟨hp, hb, hu⟩ := h'
  rw [← hf.mount] at hp hb
  refine ⟨hp, hb, fun hge => ?_⟩
  rw [hf.mount] at hge ⊢
  obtain ⟨hm, hfree⟩ := hu hge
  refine ⟨fun hd => (hl' _ hd).elim hm hfree, fun hfree' => hfree ?_⟩
  have hc : fs.Cluster (fs.clusterOf s) := hf.mount ▸ hfree'.1
  exact ⟨hc, (hf.table _ hc.2 (h.used hge).1 hfree).symm.trans hfree'.2⟩

theorem Positioned.frame (h : Positioned fp fs m) (hf : Frame fs fs' l) (hw : WinOk fs')
    (hd : List.Disjoint m l) : Positioned fp fs' m := by
  obtain ⟨-, hv, hch, hin, hsize, htop, hcur, hsect⟩ := h
  have hch' : fp.orgClust = 0 ∧ m = [] ∨ Chain (link fs') fp.orgClust m :=
    hch.imp_right fun hch => (hf.othersKept hv _ _ hch hd).1
  rw [← hf.mount] at hv hin hsize hcur hsect
  exact ⟨hw, hv, hch', hin, hsize, htop, hcur, hsect⟩

theorem Positioned.flags (h : Positioned fp fs l) (w o : Bool) :
    Positioned { fp with written := w, isOpen := o } fs l :=
  ⟨h.winOk, h.valid, h.chain, h.inside, h.size, h.top, h.cur, h.dsect⟩

theorem Stands.frame (h : Stands fp fs m c) (hf : Frame fs fs' l) (hw : WinOk fs')
    (hd : List.Disjoint m l) (hs : DirSector fs l fp.dirSect) : Stands fp fs' m c := by
  refine ⟨h.pos.frame hf hw hd, h.fptr, h.length, h.inside, h.size, fun p hp => ?_, h.entry,
    fun hwr => recorded_congr (fun x h1 h2 => hs.frame hf ?_) (h.recorded hwr)⟩
  · rw [← h.bytes p hp]
    have hroom := h.pos.size
    rw [h.length] at hroom
    rcases h.pos.chain with ⟨-, rfl⟩ | hch
    · rw [Mount.room, List.length_nil, Nat.zero_mul, Nat.zero_mul] at hroom
      omega
    · exact (hf.othersKept h.pos.valid _ _ hch hd).2 p (by omega)
  · have hptr := h.entry
    rw [Fil.slot] at h1 h2
    omega

/-! ## A directory entry is stored -/

theorem DirSector.edited (h : DirSector fs l s) (he : Edited fs fs' a n) (hv : fs.Valid)
    (ha : ∀ x, a ≤ x → x < a + n → ¬fs.InFat x) : DirSector fs' l s := by
  obtain ⟨hp, hb, hu⟩ := h
  rw [← he.mount] at hp hb
  refine ⟨hp, hb, fun hge => ?_⟩
  rw [he.mount] at hge ⊢
  exact ⟨(hu hge).1, fun hfree => (hu hge).2 ((he.free_iff hv ha).mp hfree)⟩

/-- A file whose sectors the entry is not in. -/
theorem Stands.edited (h : Stands fp fs l c) (hs : DirSector fs l s)
    (he : Edited fs fs' (512 * s + k) 32) (hk : k + 32 ≤ 512)
    (hrec : fp.written = false → Recorded fp fs') : Stands fp fs' l c := by
  have ha : ∀ x, 512 * s + k ≤ x → x < 512 * s + k + 32 → ¬fs.InFat x := fun x h1 h2 =>
    hs.not_inFat (by omega)
  refine ⟨?_, h.fptr, h.length, h.inside, h.size, fun p hp => ?_, h.entry, hrec⟩
  · obtain ⟨-, hv, hch, hin, hsize, htop, hcur, hsect⟩ := h.pos
    rw [← he.link hv ha] at hch
    rw [← he.mount] at hv hin hsize hcur hsect
    exact ⟨he.winOk, hv, hch, hin, hsize, htop, hcur, hsect⟩
  · rw [← h.bytes p hp, fileByte, fileByte, he.mount]
    refine he.other _ fun hin => ?_
    have hroom := h.pos.size
    rw [h.length, Mount.room] at hroom
    obtain ⟨hclu, hmem⟩ := clusterOf_sectorOf h.pos.valid (chain_cluster h.pos.chain)
      (q := p / 512) (by omega)
    have hsect : fs.sectorOf l (p / 512) = s := by omega
    have hge := @sectorOf_ge fs.toMount l (p / 512)
    rw [hsect] at hclu hge
    exact (hs.used hge).1 (hclu ▸ hmem)

end Files

/-! ## The calls -/

section Runs

variable {ι : Type u} [DecidableEq ι] {r r' : FilesRun ι} {l : ι → List ℕ} {i j : ι}

/-- A call, its result, and what it does to the content: the bytes `f_write` reports are written. -/
def filesStep (r : FilesRun ι) : FileCall ι → FResult × FilesRun ι
  | .write i buff =>
    let (res, bw, fp, fs) := fWrite (fun k => buff.getD k 0#8) buff.length (r.files i) r.fs
    (res, { fs := fs, files := Function.update r.files i fp,
            content := Function.update r.content i ((r.content i).write (buff.take bw)) })
  | .sync i =>
    let (res, fp, fs) := fSync (r.files i) r.fs
    (res, { r with fs := fs, files := Function.update r.files i fp })
  | .close i =>
    let (res, fp, fs) := fClose (r.files i) r.fs
    (res, { r with fs := fs, files := Function.update r.files i fp })

def filesMachine (ι : Type u) [DecidableEq ι] : Machine (FilesRun ι) (FileCall ι) where
  init r := ∃ l, FilesOk r l
  step r call := some (filesStep r call).2

/-- No `f_write` is abandoned; other calls may fail. -/
def Served (r : FilesRun ι) : FileCall ι → Prop
  | .write i buff => buff.length < 0x100000000 ∧
      (filesStep r (.write i buff)).1 ≠ .intErr ∧ (filesStep r (.write i buff)).1 ≠ .diskErr
  | _ => True

omit [DecidableEq ι] in
theorem FilesOk.not_plain (h : FilesOk r l) (i : ι) : ¬r.fs.Plain r.fs.fsiSector := fun hp =>
  absurd (h.stands i).pos.valid.fsinfo (not_lt.mpr hp.1)

/-- The file object `i` and the volume are replaced. -/
theorem FilesOk.of_frame (h : FilesOk r l) {fp : Fil} {fs : Fatfs} {m : List ℕ} {c : Content}
    (hst : Stands fp fs m c) (hf : Frame r.fs fs (l i)) (hm : ∀ d ∈ m, d ∈ l i ∨ Free r.fs d)
    (hdir : fp.dirSect = (r.files i).dirSect ∧ fp.dirPtr = (r.files i).dirPtr)
    (hnext : Reliable fs ∨ AtLast (r.files i) r.fs (l i) → Reliable fs ∨ AtLast fp fs m) :
    FilesOk { fs := fs, files := Function.update r.files i fp,
              content := Function.update r.content i c } (Function.update l i m) := by
  have hw := hst.pos.winOk
  have hsect : ∀ j, (Function.update r.files i fp j).dirSect = (r.files j).dirSect ∧
      (Function.update r.files i fp j).slot = (r.files j).slot := by
    intro j
    by_cases hj : j = i
    · subst hj
      rw [Function.update_self, Fil.slot, Fil.slot, hdir.1, hdir.2]
      exact ⟨rfl, rfl⟩
    · rw [Function.update_of_ne hj]
      exact ⟨rfl, rfl⟩
  have hdisj : ∀ j, j ≠ i → List.Disjoint (l j) m := fun j hj d hdj hdm =>
    (hm d hdm).elim (h.disjoint j i hj hdj) ((h.stands j).not_free hdj)
  refine ⟨fun j => ?_, fun j k hjk => ?_, fun j k => ?_, fun j k hjk => ?_, ?_⟩
  · by_cases hj : j = i
    · subst hj
      simp only [Function.update_self]
      exact hst
    · simp only [Function.update_of_ne hj]
      exact (h.stands j).frame hf hw (h.disjoint j i hj) (h.sector j i)
  · by_cases hj : j = i
    · subst hj
      rw [Function.update_self, Function.update_of_ne hjk.symm]
      exact (hdisj k hjk.symm).symm
    · rw [Function.update_of_ne hj]
      by_cases hk : k = i
      · subst hk
        rw [Function.update_self]
        exact hdisj j hj
      · rw [Function.update_of_ne hk]
        exact h.disjoint j k hjk
  · dsimp only
    rw [(hsect j).1]
    refine (h.sector j i).of_frame (h.sector j k) hf fun d hd => ?_
    by_cases hk : k = i
    · subst hk
      rw [Function.update_self] at hd
      exact hm d hd
    · rw [Function.update_of_ne hk] at hd
      exact Or.inl hd
  · dsimp only
    rw [(hsect j).2, (hsect k).2]
    exact h.apart j k hjk
  · rcases h.next with hr | hall
    · refine Or.inl fun i => ?_
      rw [hf.served]
      exact hr i
    · refine (hnext (Or.inr (hall i))).imp id fun hroom j => ?_
      by_cases hj : j = i
      · subst hj
        simp only [Function.update_self]
        exact hroom
      · simp only [Function.update_of_ne hj, AtLast]
        rw [hf.mount]
        exact hall j

/-- **`f_write`** on one of the files. -/
theorem FilesOk.write (h : FilesOk r l) {buff : List Byte} (hs : Served r (.write i buff)) :
    ∃ l', FilesOk (filesStep r (.write i buff)).2 l' := by
  obtain ⟨hlen, hint, hdisk⟩ := hs
  have hst := h.stands i
  have hkeep : ∀ res, (fWrite (fun k => buff.getD k 0#8) buff.length (r.files i) r.fs) =
      (res, 0, r.files i, r.fs) → FilesOk (filesStep r (.write i buff)).2 l := by
    intro res heq
    simp only [filesStep, heq, List.take_zero, Content.write_nil, Function.update_eq_self]
    exact h
  by_cases hval : validate (r.files i) r.fs = .ok
  · by_cases herr : (r.files i).error = true
    · exact ⟨l, hkeep .intErr (by rw [fWrite, if_pos hval, if_pos herr])⟩
    · by_cases hw : (r.files i).write = true
      · rw [Bool.not_eq_true] at herr
        have hopened : Opened (r.files i) r.fs (l i) :=
          ⟨hst.pos, by rw [hst.fptr, hst.length]; exact hst.inside, hval⟩
        obtain ⟨-, l', hle, hres, -, -⟩ := fWrite_spec (fun k => buff.getD k 0#8) hopened hw herr
          (by rw [hst.length]; exact hst.size) hlen (h.next.imp id fun hall => hall i)
        simp only [filesStep] at hint hdisk ⊢
        generalize fWrite (fun k => buff.getD k 0#8) buff.length (r.files i) r.fs = q
          at hle hres hint hdisk ⊢
        obtain ⟨res, bw, fp, fs⟩ := q
        dsimp only at hle hres hint hdisk ⊢
        rcases hres with ⟨-, hd, -⟩ | ⟨hor, -⟩
        · have hbw : bw ≤ buff.length := hle.trans (by split <;> omega)
          have hbw' : (r.content i).fptr + bw < 0x100000000 := by
            have hsz := hst.size
            have hin := hst.inside
            have hl := hst.length
            split at hle <;> omega
          refine ⟨_, h.of_frame ⟨hd.opened.pos, ?_, ?_, ?_, ?_, fun p hp => ?_, ?_, ?_⟩ hd.frame
            hd.fresh ⟨hd.dir.1, hd.dir.2.1⟩ (Or.imp id fun hroom => ?_)⟩
          · rw [hd.fptr, hst.fptr, Content.write, List.length_take, Nat.min_eq_left hbw]
          · rw [Content.write_length hst.inside, List.length_take, Nat.min_eq_left hbw, hd.fsize,
              hst.fptr, hst.length]
          · rw [Content.write_length hst.inside]
            exact le_max_right _ _
          · rw [Content.write_length hst.inside, List.length_take, Nat.min_eq_left hbw]
            exact max_lt hst.size hbw'
          · rw [Content.write_length hst.inside, List.length_take, Nat.min_eq_left hbw] at hp
            rw [hd.bytes p (by rw [hd.fsize, hst.fptr, hst.length]; exact hp),
              Content.write_getD hst.inside hbw, hst.fptr]
            by_cases hin : (r.content i).fptr ≤ p ∧ p < (r.content i).fptr + bw
            · rw [fill, fill, if_pos hin, if_pos hin]
            · rw [fill_other _ hin, fill_other _ hin]
              exact hst.bytes p (by have := hst.inside; omega)
          · rw [hd.dir.2.1]
            exact hst.entry
          · intro hwr
            rw [hd.written] at hwr
            cases hwr
          · exact hd.tight hroom
        · exact absurd hor (by tauto)
      · rw [Bool.not_eq_true] at hw
        exact ⟨l, hkeep .denied (by rw [fWrite, if_pos hval, if_neg herr, hw]; rfl)⟩
  · exact ⟨l, hkeep _ (by rw [fWrite, if_neg hval])⟩

/-- The volume was changed in the directory entry of one of the files at most. -/
theorem FilesOk.edited (h : FilesOk r l) {fs : Fatfs} (he : Edited r.fs fs (r.files i).slot 32)
    (o w : Bool) (hrec : w = false ∨ (r.files i).written = false → Recorded (r.files i) fs) :
    FilesOk { r with
      fs := fs
      files := Function.update r.files i { r.files i with written := w, isOpen := o } } l := by
  have hv := (h.stands i).pos.valid
  have hentry := (h.stands i).entry
  have ha : ∀ x, (r.files i).slot ≤ x → x < (r.files i).slot + 32 → ¬r.fs.InFat x := by
    intro x h1 h2
    rw [Fil.slot] at h1 h2
    exact (h.sector i i).not_inFat (by omega)
  have hfile : ∀ j, (Function.update r.files i { r.files i with written := w, isOpen := o } j).slot =
        (r.files j).slot ∧
      (Function.update r.files i { r.files i with written := w, isOpen := o } j).dirSect =
        (r.files j).dirSect ∧
      (Function.update r.files i { r.files i with written := w, isOpen := o } j).fptr =
        (r.files j).fptr := by
    intro j
    by_cases hj : j = i
    · subst hj
      rw [Function.update_self]
      exact ⟨rfl, rfl, rfl⟩
    · rw [Function.update_of_ne hj]
      exact ⟨rfl, rfl, rfl⟩
  refine ⟨fun j => ?_, h.disjoint, fun j k => ?_, fun j k hjk => ?_, ?_⟩
  · have hst := (h.stands j).edited (h.sector i j) he hentry fun hwr => ?_
    · by_cases hj : j = i
      · subst hj
        simp only [Function.update_self]
        exact ⟨hst.pos.flags w o, hst.fptr, hst.length, hst.inside, hst.size, hst.bytes, hst.entry,
          fun hw => hrec (Or.inl hw)⟩
      · simp only [Function.update_of_ne hj]
        exact hst
    · by_cases hj : j = i
      · subst hj
        exact hrec (Or.inr hwr)
      · refine recorded_congr (fun x h1 h2 => he.other x fun hin => ?_) ((h.stands j).recorded hwr)
        rcases h.apart i j (Ne.symm hj) with hap | hap <;> omega
  · dsimp only
    rw [(hfile j).2.1]
    exact (h.sector j k).edited he hv ha
  · dsimp only
    rw [(hfile j).1, (hfile k).1]
    exact h.apart j k hjk
  · refine h.next.imp (fun hr i => ?_) fun hall j => ?_
    · rw [he.served]
      exact hr i
    · dsimp only
      rw [AtLast, (hfile j).2.2, he.mount]
      exact hall j

/-- **`f_sync`** of one of the files: what it changes, and that a file which was written is on the
medium when it succeeds. -/
theorem FilesOk.fSync (h : FilesOk r l) (i : ι) (o : Bool) :
    let q := Ff.fSync (r.files i) r.fs
    FilesOk { r with
        fs := q.2.2, files := Function.update r.files i { q.2.1 with isOpen := o } } l ∧
      (validate (r.files i) r.fs = .ok → (r.files i).written = true → q.1 = .ok →
        onMedium q.2.2 = volume q.2.2 ∧ Recorded (r.files i) q.2.2) ∧
      (validate (r.files i) r.fs = .ok → Reliable r.fs → q.1 = .ok) := by
  have hst := h.stands i
  have hsame : Edited r.fs r.fs (r.files i).slot 32 :=
    ⟨hst.pos.winOk, rfl, rfl, fun _ _ => rfl⟩
  have hself := h.edited hsame o (r.files i).written fun hor => hst.recorded (hor.elim id id)
  by_cases hval : validate (r.files i) r.fs = .ok
  · by_cases hw : (r.files i).written = true
    · obtain ⟨hres, hok⟩ := fSync_spec hst.pos.winOk (h.not_plain i) (h.sector i i).plain hst.entry
        (by rw [hst.length]; exact hst.size) hst.start_lt hval hw
      generalize Ff.fSync (r.files i) r.fs = q at hres hok
      obtain ⟨res, fp, fs⟩ := q
      dsimp only at hres hok ⊢
      rcases hres with ⟨rfl, rfl, hsy, hdone⟩ | ⟨rfl, ⟨rfl, hm⟩ | ⟨rfl, hsy⟩⟩
      · exact ⟨h.edited hsy.edited o false fun _ => hsy.recorded, fun _ _ _ =>
          ⟨hdone, hsy.recorded⟩, fun _ => hok⟩
      · refine ⟨h.edited hm.edited o (r.files i).written fun hor => ?_, fun _ _ => by rintro ⟨⟩,
          fun _ => hok⟩
        rw [hw] at hor
        exact hor.elim (by rintro ⟨⟩) (by rintro ⟨⟩)
      · exact ⟨h.edited hsy.edited o false fun _ => hsy.recorded, fun _ _ => by rintro ⟨⟩,
          fun _ => hok⟩
    · have hq : Ff.fSync (r.files i) r.fs = (.ok, r.files i, r.fs) := by
        rw [Ff.fSync, if_pos hval, if_neg hw]
      rw [hq]
      exact ⟨hself, fun _ hw' => absurd hw' hw, fun _ _ => rfl⟩
  · have hq : Ff.fSync (r.files i) r.fs = (validate (r.files i) r.fs, r.files i, r.fs) := by
      rw [Ff.fSync, if_neg hval]
    rw [hq]
    exact ⟨hself, fun hval' => absurd hval' hval, fun hval' => absurd hval' hval⟩

theorem FilesOk.step (h : FilesOk r l) {call : FileCall ι} (hs : Served r call) :
    ∃ l', FilesOk (filesStep r call).2 l' := by
  cases call with
  | write i buff => exact h.write hs
  | sync i =>
    refine ⟨l, ?_⟩
    have hq := (h.fSync i (Ff.fSync (r.files i) r.fs).2.1.isOpen).1
    simp only [filesStep]
    exact hq
  | close i =>
    refine ⟨l, ?_⟩
    simp only [filesStep, fClose]
    generalize hq : Ff.fSync (r.files i) r.fs = q
    obtain ⟨res, fp, fs⟩ := q
    have hopen := (h.fSync i fp.isOpen).1
    have hclosed := (h.fSync i false).1
    rw [hq] at hopen hclosed
    dsimp only
    split
    · exact hclosed
    · exact hopen

theorem filesOk_of_reach (h : (filesMachine ι).ReachWhere Served r) : ∃ l, FilesOk r l := by
  refine Machine.ReachWhere.invariant (fun _ h0 => h0) ?_ h
  rintro r call r' ⟨l, hl⟩ hs hstep
  obtain rfl : (filesStep r call).2 = r' := Option.some.inj hstep
  exact hl.step hs

/-- What a next `f_write` of the file `i` does. -/
structure NextWrite (r : FilesRun ι) (l : List ℕ) (i : ι) (buff : List Byte)
    (q : FResult × ℕ × Fil × Fatfs) : Prop where
  others : OthersKept r.fs q.2.2.2 l
  whole : q.1 = .ok → q.2.1 = buff.length ∨
    0x100000000 ≤ (r.content i).bytes.length + buff.length ∨ ∀ d, ¬Free q.2.2.2 d
  served : (r.files i).write = true → (r.files i).error = false → Reliable r.fs → Sane r.fs →
    q.1 = .ok

/-- What a next `f_sync` of the file `fp` does, and `f_close` after it. -/
structure NextSync (fp : Fil) (fs : Fatfs) (q p : FResult × Fil × Fatfs) : Prop where
  medium : fp.written = true → q.1 = .ok → onMedium q.2.2 = volume q.2.2 ∧ Recorded fp q.2.2
  served : Reliable fs → q.1 = .ok
  same : p.1 = q.1 ∧ p.2.2 = q.2.2
  closed : p.1 = .ok → validate p.2.1 p.2.2 = .invalidObject

omit [DecidableEq ι] in
theorem FilesOk.nextWrite (h : FilesOk r l) {buff : List Byte} (hlen : buff.length < 0x100000000)
    (hval : validate (r.files i) r.fs = .ok) :
    NextWrite r (l i) i buff (fWrite (fun k => buff.getD k 0#8) buff.length (r.files i) r.fs) := by
  have hst := h.stands i
  have hsame : OthersKept r.fs r.fs (l i) := fun c m hm _ => ⟨hm, fun _ _ => rfl⟩
  by_cases herr : (r.files i).error = true
  · rw [fWrite, if_pos hval, if_pos herr]
    refine ⟨hsame, by rintro ⟨⟩, fun _ hno => ?_⟩
    cases hno.symm.trans herr
  · by_cases hw : (r.files i).write = true
    · rw [Bool.not_eq_true] at herr
      have hopened : Opened (r.files i) r.fs (l i) :=
        ⟨hst.pos, by rw [hst.fptr, hst.length]; exact hst.inside, hval⟩
      obtain ⟨hothers, l', hle, hres, hdisk, hint⟩ := fWrite_spec (fun k => buff.getD k 0#8) hopened
        hw herr (by rw [hst.length]; exact hst.size) hlen (h.next.imp id fun hall => hall i)
      refine ⟨hothers, fun hok => ?_, fun _ _ hr hs => ?_⟩
      · rcases hres with ⟨-, -, hfull⟩ | ⟨hor, -⟩
        · rw [hst.length] at hle hfull
          by_cases hbig : 0x100000000 ≤ (r.content i).bytes.length + buff.length
          · exact Or.inr (Or.inl hbig)
          · rw [if_neg hbig] at hle hfull
            rcases Nat.lt_or_ge (fWrite (fun k => buff.getD k 0#8) buff.length (r.files i) r.fs).2.1
              buff.length with hlt | hge
            · exact Or.inr (Or.inr (hfull hlt))
            · exact Or.inl (le_antisymm hle hge)
        · rw [hok] at hor
          exact absurd hor (by decide)
      · rcases hres with ⟨hok, -⟩ | ⟨hor, -⟩
        · exact hok
        · exact absurd hor (not_or.mpr ⟨hint hs, hdisk hr⟩)
    · rw [Bool.not_eq_true] at hw
      rw [fWrite, if_pos hval, if_neg herr, hw]
      refine ⟨hsame, by rintro ⟨⟩, fun hyes => ?_⟩
      cases hw.symm.trans hyes

theorem FilesOk.nextSync (h : FilesOk r l) (hval : validate (r.files i) r.fs = .ok) :
    NextSync (r.files i) r.fs (Ff.fSync (r.files i) r.fs) (fClose (r.files i) r.fs) := by
  obtain ⟨-, hdone, hok⟩ := h.fSync i false
  obtain ⟨hsame, hclosed⟩ := fClose_spec (r.files i) r.fs
  exact ⟨hdone hval, hok hval, hsame, hclosed⟩

/-- **Open files are independent arrays.**  In every run of `f_write`, `f_sync` and `f_close` calls
for any number of files, where no access fails or every file pointer starts past the start of its
file's last cluster, each of them holds what was written to it, and no cluster is shared.  A next
`f_write` writes all of its buffer unless the volume is full or the file would reach 4 GB, and even
one that fails is not seen in the other files; an `f_sync` or `f_close` that succeeds puts the volume
on the medium; and while no access fails they succeed. -/
theorem files_run (h : (filesMachine ι).ReachWhere Served r) :
    ∃ l, FilesOk r l ∧ ∀ i, validate (r.files i) r.fs = .ok →
      (∀ buff : List Byte, buff.length < 0x100000000 → NextWrite r (l i) i buff
        (fWrite (fun k => buff.getD k 0#8) buff.length (r.files i) r.fs)) ∧
      NextSync (r.files i) r.fs (fSync (r.files i) r.fs) (fClose (r.files i) r.fs) := by
  obtain ⟨l, hl⟩ := filesOk_of_reach h
  exact ⟨l, hl, fun i hval => ⟨fun buff hlen => hl.nextWrite hlen hval, hl.nextSync hval⟩⟩

/-- A file of the small volume that is new, with its entry in the root directory. -/
def smallFile (dirPtr : ℕ) : Fil where
  isOpen := true
  id := 1#16
  read := true
  write := true
  written := true
  error := false
  csect := 255
  fptr := 0
  fsize := 0
  orgClust := 0
  currClust := 0
  dsect := 0
  dirSect := 3
  dirPtr := dirPtr

def smallFiles : FilesRun Bool where
  fs := smallVolume
  files := fun b => smallFile (if b then 32 else 0)
  content := fun _ => ⟨[], 0⟩

theorem smallFiles_ok : FilesOk smallFiles fun _ => [] := by
  refine ⟨fun b => ⟨⟨smallVolume_winOk, smallVolume_valid, Or.inl ⟨rfl, rfl⟩, le_refl _, le_refl _,
    fun _ => rfl, fun h => absurd h (lt_irrefl 0), fun h => absurd rfl h⟩, rfl, rfl, le_refl _,
    (by decide : 0 < 0x100000000), fun p hp => absurd hp (Nat.not_lt_zero p), ?_, by rintro ⟨⟩⟩,
    fun b b' _ => ?_, fun b b' => ⟨(by decide : smallVolume.Plain 3), (by decide : 2 ≤ 3),
      fun h => absurd h (by decide : ¬4 ≤ 3)⟩, ?_,
    Or.inl fun _ => le_refl 255⟩
  · cases b <;> decide
  · exact List.disjoint_nil_left _
  · rintro (_ | _) (_ | _) hne
    · exact absurd rfl hne
    · exact Or.inl (by decide)
    · exact Or.inr (by decide)
    · exact absurd rfl hne

/-- Two files are written in turns, and one is closed. -/
theorem files_run_small :
    ∃ r l, FilesOk r l ∧ (r.content false).bytes = [0xAA#8, 0xBB#8, 0xCC#8] ∧
      (r.content true).bytes = [0xDD#8] ∧
      let p := fClose (r.files false) r.fs
      p.1 = .ok ∧ onMedium p.2.2 = volume p.2.2 := by
  have h0 : (filesMachine Bool).ReachWhere Served smallFiles := .init ⟨_, smallFiles_ok⟩
  have h1 := h0.step (show Served _ (.write false [0xAA#8, 0xBB#8]) from
    ⟨by decide, by decide +kernel, by decide +kernel⟩) rfl
  have h2 := h1.step (show Served _ (.write true [0xDD#8]) from
    ⟨by decide, by decide +kernel, by decide +kernel⟩) rfl
  have h3 := h2.step (show Served _ (.write false [0xCC#8]) from
    ⟨by decide, by decide +kernel, by decide +kernel⟩) rfl
  obtain ⟨l, hl, hnext⟩ := files_run h3
  obtain ⟨-, hmedium, hok, ⟨hres, hfs⟩, -⟩ := hnext false (by decide +kernel)
  have hclosed := hok fun _ => le_refl 255
  refine ⟨_, l, hl, by decide +kernel, by decide +kernel, hres.trans hclosed, ?_⟩
  rw [hfs]
  exact (hmedium (by decide +kernel) hclosed).1

end Runs

end VwiiNandTools.Ff
