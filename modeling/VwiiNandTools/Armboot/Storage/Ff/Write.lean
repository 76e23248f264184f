import VwiiNandTools.Armboot.Storage.Ff.Pass

/-!
# Writing a file

The loop of `f_write` and the call: the buffer is spliced into the file at the file pointer, and
every other file is left alone (`fWrite_spec`).  It writes less than the buffer only when no cluster
is free.

Appending needs no reliable drive: whatever accesses fail, the bytes that were there are kept.
-/

namespace VwiiNandTools.Ff

open ByteMemory Chains
open VwiiNandTools.Dump (FResult)

/-- No entry is 1, which no FAT has. -/
def Sane (fs : Fatfs) : Prop := ∀ d, fs.Cluster d → table fs d ≠ 1

/-- An open file: the file object fits the volume, and the file pointer is in the file. -/
structure Opened (fp : Fil) (fs : Fatfs) (l : List ℕ) : Prop where
  pos : Positioned fp fs l
  inside : fp.fptr ≤ fp.fsize
  valid : validate fp fs = .ok

/-- A file that has no cluster of `l` and none that is free: it keeps its clusters and its bytes. -/
def OthersKept (fs fs' : Fatfs) (l : List ℕ) : Prop :=
  ∀ c m, Chain (link fs) c m → List.Disjoint m l →
    Chain (link fs') c m ∧ ∀ p < fs.room m, fileByte fs' m p = fileByte fs m p

/-- The outcome of a call that writes `k` bytes at the file pointer. -/
structure WriteDone (buff : ℕ → Byte) (fp : Fil) (fs : Fatfs) (l : List ℕ) (k : ℕ) (fp' : Fil)
    (fs' : Fatfs) (l' : List ℕ) : Prop where
  opened : Opened fp' fs' l'
  fptr : fp'.fptr = fp.fptr + k
  fsize : fp'.fsize = max fp.fsize (fp.fptr + k)
  written : fp'.written = true
  dir : fp'.dirSect = fp.dirSect ∧ fp'.dirPtr = fp.dirPtr ∧ fp'.write = fp.write ∧
    fp'.read = fp.read ∧ fp'.error = fp.error
  fresh : ∀ d ∈ l', d ∈ l ∨ Free fs d
  grown : l <+: l'
  tight : AtLast fp fs l → AtLast fp' fs' l'
  frame : Frame fs fs' l
  sane : Sane fs → Sane fs'
  bytes : ∀ p < fp'.fsize, fileByte fs' l' p = fill (fileByte fs l) fp.fptr k buff p

section Write

variable {fp fp' fp'' : Fil} {fs fs' fs'' : Fatfs} {l l' l'' : List ℕ} {b c d k k' n bw : ℕ}
  {buff : ℕ → Byte}

theorem chain_ne_one (hv : fs.Valid) (h : Chain (link fs) c l) (hd : d ∈ l) : table fs d ≠ 1 := by
  induction h with
  | last hc =>
    obtain rfl := List.mem_singleton.mp hd
    have hmax := (of_link_last hc).2
    have h2 := hv.two
    omega
  | cons hc ht ih =>
    rcases List.mem_cons.mp hd with rfl | hd
    · obtain ⟨-, htab, -, -⟩ := of_link_next hc
      obtain ⟨t, rfl⟩ := ht.head
      have h2 := (cluster_of_chain ht (List.mem_cons_self ..)).1
      omega
    · exact ih hd

theorem Written.sane (h : Written buff fp fs l k fp' fs' l') (hs : Sane fs) : Sane fs' := by
  intro d hd
  rw [h.frame.mount] at hd
  by_cases hdl : d ∈ l'
  · rcases h.pos.chain with ⟨-, hnil⟩ | hch
    · rw [hnil] at hdl
      cases hdl
    · exact chain_ne_one h.pos.valid hch hdl
  · rw [h.others d hd.2 hdl]
    exact hs d hd

theorem Written.refl (hp : Positioned fp fs l) : Written buff fp fs l 0 fp fs l :=
  ⟨.refl fp, List.prefix_rfl, fun _ hd => Or.inl hd, id, hp, .refl, fun _ _ _ => rfl,
    fun _ _ => (fill_other _ (by omega)).symm⟩

theorem Positioned.moved (hp : Positioned fp fs l) (hm : Moved fs fs') : Positioned fp fs' l := by
  obtain ⟨-, hv, hch, hin, hsize, htop, hcur, hsect⟩ := hp
  rw [← hm.link] at hch
  rw [← hm.mount] at hv hin hsize hcur hsect
  exact ⟨hm.winOk, hv, hch, hin, hsize, htop, hcur, hsect⟩

theorem Written.of_moved (hp : Positioned fp fs l) (hm : Moved fs fs') :
    Written buff fp fs l 0 fp fs' l := by
  refine ⟨.refl fp, List.prefix_rfl, fun _ hd => Or.inl hd, fun hroom => ?_, hp.moved hm, hm.frame,
    fun d _ _ => congrFun hm.table d, fun p _ => ?_⟩
  · rw [AtLast, hm.mount]
    exact hroom
  · rw [fill_other _ (by omega), fileByte_congr hm.mount hp.valid fun x _ => congrFun hm.volume x]

theorem Written.free (h : Written buff fp fs l k fp' fs' l') (hd : ¬Free fs d) (hdl : d ∉ l) :
    ¬Free fs' d ∧ d ∉ l' := by
  refine ⟨fun hfree => hd ?_, fun hdl' => (h.fresh d hdl').elim hdl hd⟩
  have hc : fs.Cluster d := h.frame.mount ▸ hfree.1
  exact ⟨hc, (h.frame.table d hc.2 hdl hd).symm.trans hfree.2⟩

theorem Written.fresh_trans (h : Written buff fp fs l k fp' fs' l')
    (h' : ∀ d ∈ l'', d ∈ l' ∨ Free fs' d) : ∀ d ∈ l'', d ∈ l ∨ Free fs d := by
  intro d hd
  by_contra hnot
  rw [not_or] at hnot
  obtain ⟨hfree, hdl⟩ := h.free hnot.2 hnot.1
  exact (h' d hd).elim hdl hfree

theorem fill_fill {m m' : Mem} {a p : ℕ} (h : ¬(a + k ≤ p ∧ p < a + k + k') →
    m' p = fill m a k buff p) :
    fill m' (a + k) k' (fun x => buff (k + x)) p = fill m a (k + k') buff p := by
  rw [← fill_append, fill, fill]
  split
  · rfl
  · next hout => exact h hout

theorem Written.trans (h : Written buff fp fs l k fp' fs' l')
    (h' : Written (fun x => buff (k + x)) fp' fs' l' k' fp'' fs'' l'') :
    Written buff fp fs l (k + k') fp'' fs'' l'' := by
  have hm := h.frame.mount
  have hptr : fp'.fptr = fp.fptr + k := h.same.fptr
  have hsize : fp'.fsize = fp.fsize := h.same.fsize
  have hs := h'.same
  refine ⟨?_, h.grown.trans h'.grown, h.fresh_trans h'.fresh, fun hroom => ?_, h'.pos,
    h.frame.trans h'.frame h.fresh, fun d hd hdl => ?_, fun p hp => ?_⟩
  · refine ⟨hs.isOpen.trans h.same.isOpen, hs.id.trans h.same.id, hs.read.trans h.same.read,
      hs.write.trans h.same.write, hs.written.trans h.same.written, hs.error.trans h.same.error, ?_,
      hs.fsize.trans h.same.fsize, hs.dirSect.trans h.same.dirSect, hs.dirPtr.trans h.same.dirPtr⟩
    rw [hs.fptr]
    dsimp only
    omega
  · exact h'.tight (h.tight hroom)
  · rw [h'.others d (hm ▸ hd) hdl, h.others d hd fun hdl' => hdl (h'.grown.subset hdl')]
  · rw [h'.bytes p (by omega), hptr]
    exact fill_fill fun hout => h.bytes p (by omega)

theorem Written.failed (h : Written buff fp fs l k fp' fs' l')
    (h' : Failed (fun x => buff (k + x)) fp' fs' l' k' (b - k) fp'' fs'' l'') (hk : k ≤ b) :
    Failed buff fp fs l (k + k') b fp'' fs'' l'' := by
  have hm := h.frame.mount
  have hptr : fp'.fptr = fp.fptr + k := h.same.fptr
  have hsize : fp'.fsize = fp.fsize := h.same.fsize
  have hs := h'.same
  refine ⟨?_, h.grown.trans h'.grown, h.fresh_trans h'.fresh, h.frame.trans h'.frame h.fresh,
    fun p hp hor => ?_, ?_⟩
  · refine ⟨hs.isOpen.trans h.same.isOpen, hs.id.trans h.same.id, hs.read.trans h.same.read,
      hs.write.trans h.same.write, hs.written.trans h.same.written, hs.error.trans h.same.error, ?_,
      hs.fsize.trans h.same.fsize, hs.dirSect.trans h.same.dirSect, hs.dirPtr.trans h.same.dirPtr⟩
    rw [hs.fptr]
    dsimp only
    omega
  · rw [h'.kept p (by omega) (by omega), hptr]
    exact fill_fill fun hout => h.bytes p (by omega)
  · have hw := h'.window
    rw [WindowLeft, hm] at hw
    refine hw.imp_right fun hand => ⟨hand.1, hand.2.1, ?_⟩
    by_contra hnot
    rw [not_or] at hnot
    obtain ⟨hfree, hdl⟩ := h.free hnot.2 hnot.1
    exact hand.2.2.elim hdl hfree

theorem writeLoop_spec (hp : Positioned fp fs l) (hn : b ≤ n)
    (hnext : Reliable fs ∨ AtLast fp fs l) :
    let r := writeLoop n buff b bw fp fs
    ∃ k l', k ≤ b ∧ r.2.1 = bw + k ∧
      (r.1 = .ok ∧ Written buff fp fs l k r.2.2.1 r.2.2.2 l' ∧ (k < b → ∀ d, ¬Free r.2.2.2 d) ∨
        (r.1 = .intErr ∨ r.1 = .diskErr) ∧ ∃ fp', r.2.2.1 = { fp' with error := true } ∧
          Failed buff fp fs l k b fp' r.2.2.2 l') ∧
      (Reliable fs → r.1 ≠ .diskErr) ∧ (Sane fs → r.1 ≠ .intErr) := by
  induction n generalizing fp fs l buff b bw with
  | zero =>
    obtain rfl : b = 0 := by omega
    exact ⟨0, l, le_refl 0, rfl, Or.inl ⟨rfl, .refl hp, fun h => absurd h (lt_irrefl 0)⟩,
      fun _ => by rintro ⟨⟩, fun _ => by rintro ⟨⟩⟩
  | succ n ih =>
    rw [writeLoop]
    by_cases hb : b = 0
    · rw [if_pos hb, hb]
      exact ⟨0, l, le_refl 0, rfl, Or.inl ⟨rfl, .refl hp, fun h => absurd h (lt_irrefl 0)⟩,
        fun _ => by rintro ⟨⟩, fun _ => by rintro ⟨⟩⟩
    · rw [if_neg hb]
      obtain ⟨hout, hrel⟩ := writePass_spec buff hp (Nat.pos_of_ne_zero hb) hnext
      generalize writePass buff b fp fs = r at hout hrel
      obtain ⟨pass, fp1, fs1⟩ := r
      dsimp only at hout hrel ⊢
      rcases hout with ⟨k, l1, rfl, hk, hkb, hw⟩ | ⟨rfl, rfl, hm, hnone⟩ | ⟨habort, hf⟩
      · dsimp only
        have hnext1 : Reliable fs1 ∨ AtLast { fp1 with fptr := fp1.fptr + k } fs1 l1 := by
          refine hnext.imp (fun hr i => ?_) hw.tight
          rw [hw.frame.served]
          exact hr i
        obtain ⟨k', l', hk', hbw, hres, hrel', hsane'⟩ :=
          @ih { fp1 with fptr := fp1.fptr + k } fs1 l1 (b - k) (bw + k) (fun x => buff (k + x)) hw.pos
            (by omega) hnext1
        refine ⟨k + k', l', by omega, by rw [hbw, Nat.add_assoc], ?_, fun hr => hrel' fun i => ?_,
          fun hs => hsane' (hw.sane hs)⟩
        · rcases hres with ⟨hok, hw', hfull⟩ | ⟨herr, fp', hfp', hf'⟩
          · exact Or.inl ⟨hok, hw.trans hw', fun hlt => hfull (by omega)⟩
          · exact Or.inr ⟨herr, fp', hfp', hw.failed hf' hkb⟩
        · rw [hw.frame.served]
          exact hr i
      · exact ⟨0, l, Nat.zero_le _, rfl, Or.inl ⟨rfl, .of_moved hp hm, fun _ d hd =>
          hnone d (hm.free_iff.mp hd)⟩, fun _ => by rintro ⟨⟩, fun _ => by rintro ⟨⟩⟩
      · rcases habort with ⟨rfl, d, hd, hone⟩ | rfl
        · exact ⟨0, l, Nat.zero_le _, rfl, Or.inr ⟨Or.inl rfl, fp1, rfl, hf⟩, fun _ => by rintro ⟨⟩,
            fun hs => absurd hone (hs d hd)⟩
        · exact ⟨0, l, Nat.zero_le _, rfl, Or.inr ⟨Or.inr rfl, fp1, rfl, hf⟩,
            fun hr => absurd rfl (hrel hr), fun _ => by rintro ⟨⟩⟩

/-! ## The call -/

theorem Frame.othersKept (h : Frame fs fs' l) (hv : fs.Valid) : OthersKept fs fs' l := by
  intro c m hm hdisj
  have hcl : ∀ d ∈ m, fs.Cluster d := fun d hd => cluster_of_chain hm hd
  have hused : ∀ d ∈ m, d ∉ l ∧ ¬Free fs d := fun d hd =>
    ⟨fun hdl => hdisj hd hdl, fun hfree => hm.not_free hd hfree.link⟩
  refine ⟨hm.congr fun d hd => ?_, fun p hp => ?_⟩
  · rw [link, link, h.mount, h.table d (hcl d hd).2 (hused d hd).1 (hused d hd).2]
  · have hq : p / 512 < m.length * fs.csize := by
      rw [Mount.room] at hp
      omega
    obtain ⟨hclu, hmem⟩ := clusterOf_sectorOf hv hcl hq
    have hdiv : (512 * fs.sectorOf m (p / 512) + p % 512) / 512 = fs.sectorOf m (p / 512) := by omega
    rw [fileByte, fileByte, h.mount]
    refine h.data _ ?_ ?_ ?_
    · rw [hdiv]
      exact sectorOf_ge
    · rw [hdiv, hclu]
      exact (hused _ hmem).1
    · rw [hdiv, hclu]
      exact (hused _ hmem).2

theorem validate_congr (h : SameFile { fp with fptr := n } fp') (hm : fs'.toMount = fs.toMount) :
    validate fp' fs' = validate fp fs := by
  rw [validate, validate, h.isOpen, h.id, hm]

/-- **`f_write`** splices the buffer into the file at the file pointer and leaves all other files
alone; less is written only when the disk is full, or nothing when the size would reach 4 GB. -/
theorem fWrite_spec (buff : ℕ → Byte) (ho : Opened fp fs l) (hw : fp.write = true)
    (he : fp.error = false) (hsize : fp.fsize < 0x100000000) (hb : b < 0x100000000)
    (hnext : Reliable fs ∨ AtLast fp fs l) :
    let r := fWrite buff b fp fs
    let btw := if 0x100000000 ≤ fp.fsize + b then 0 else b
    OthersKept fs r.2.2.2 l ∧
      ∃ l', r.2.1 ≤ btw ∧
        (r.1 = .ok ∧ WriteDone buff fp fs l r.2.1 r.2.2.1 r.2.2.2 l' ∧
            (r.2.1 < btw → ∀ d, ¬Free r.2.2.2 d) ∨
          (r.1 = .intErr ∨ r.1 = .diskErr) ∧ ∃ fp', r.2.2.1 = { fp' with error := true } ∧
            Failed buff fp fs l r.2.1 btw fp' r.2.2.2 l') ∧
        (Reliable fs → r.1 ≠ .diskErr) ∧ (Sane fs → r.1 ≠ .intErr) := by
  have hbtw : (if (fp.fsize + b) % 0x100000000 < fp.fsize then 0 else b) =
      if 0x100000000 ≤ fp.fsize + b then 0 else b := by
    split <;> split <;> omega
  unfold fWrite
  rw [if_pos ho.valid, if_neg (by rw [he]; exact Bool.false_ne_true), hw, if_neg (by decide), hbtw]
  generalize (if 0x100000000 ≤ fp.fsize + b then 0 else b) = btw
  obtain ⟨k, l', hk, hbw, hres, hrel, hsane⟩ :=
    @writeLoop_spec fp fs l btw btw 0 buff ho.pos (le_refl _) hnext
  dsimp only
  generalize writeLoop btw buff btw 0 fp fs = r at hbw hres hrel hsane
  obtain ⟨res, bw, fp1, fs1⟩ := r
  dsimp only at hbw hres hrel hsane ⊢
  rw [Nat.zero_add] at hbw
  subst hbw
  rcases hres with ⟨rfl, hwr, hfull⟩ | ⟨herr, fp', rfl, hf⟩
  · rw [if_pos rfl]
    have hptr : fp1.fptr = fp.fptr + bw := hwr.same.fptr
    have hsz : fp1.fsize = fp.fsize := hwr.same.fsize
    refine ⟨hwr.frame.othersKept ho.pos.valid, l', hk, Or.inl ⟨rfl, ?_, hfull⟩, hrel, hsane⟩
    have hinside := hwr.pos.inside
    have hsz' := hwr.pos.size
    obtain ⟨hwin, hv, hch, hin, hs, htop, hcur, hsect⟩ := hwr.pos
    refine ⟨⟨⟨hwin, hv, hch, hin, max_le hs hin, htop, hcur, hsect⟩, le_max_right _ _, ?_⟩, hptr, ?_,
      rfl, ⟨hwr.same.dirSect, hwr.same.dirPtr, hwr.same.write, hwr.same.read, hwr.same.error⟩,
      hwr.fresh, hwr.grown, hwr.tight, hwr.frame, hwr.sane, fun p hp => hwr.bytes p ?_⟩
    · exact (validate_congr hwr.same hwr.frame.mount).trans ho.valid
    · dsimp only
      rw [hptr, hsz]
    · dsimp only at hp
      omega
  · have hne : res ≠ .ok := by
      rcases herr with rfl | rfl <;> rintro ⟨⟩
    rw [if_neg hne]
    exact ⟨hf.frame.othersKept ho.pos.valid, l', hk, Or.inr ⟨herr, fp', rfl, hf⟩, hrel, hsane⟩

end Write

end VwiiNandTools.Ff
