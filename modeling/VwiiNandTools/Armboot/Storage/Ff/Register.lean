import VwiiNandTools.Armboot.Storage.Ff.Dir

/-!
# A new directory entry

`dir_register` takes the first entry that is not in use.  A directory that has none is stretched by a
cluster, which is filled with zeros first; the root directory of a FAT12 or FAT16 volume is not.
-/

namespace VwiiNandTools.Ff

open ByteMemory Chains
open VwiiNandTools.Dump (FResult)

/-- The byte is in cluster `c`. -/
def Mount.InCluster (v : Mount) (c x : ℕ) : Prop := v.database ≤ x / 512 ∧ v.clusterOf (x / 512) = c

/-- A chain that ended with `clust` was stretched by the cluster `c`, which is empty. -/
structure Stretched (fs fs' : Fatfs) (clust c : ℕ) : Prop where
  winOk : WinOk fs'
  mount : fs'.toMount = fs.toMount
  served : fs'.drive.served = fs.drive.served
  free : Free fs c
  last : link fs' c = .last
  linked : link fs' clust = .next c
  others : ∀ d < fs.maxClust, d ≠ c → d ≠ clust → table fs' d = table fs d
  empty : ∀ x, fs.InCluster c x → volume fs' x = 0#8
  kept : ∀ x, ¬fs.InFat x → ¬fs.InCluster c x → volume fs' x = volume fs x
  frame : Frame fs fs' [clust]
  window : fs'.winsect = fs.database + (c - 2) * fs.csize

section Register

variable {dj dj' : Dir} {fs fs' fs'' : Fatfs} {l : List ℕ} {c d i k n s sclust clust : ℕ}

theorem inCluster_iff {v : Mount} (hpos : 0 < v.csize) (hc : 2 ≤ c) {x : ℕ} :
    v.InCluster c x ↔ v.database + (c - 2) * v.csize ≤ x / 512 ∧
      x / 512 < v.database + (c - 2) * v.csize + v.csize := by
  rw [Mount.InCluster, Mount.clusterOf]
  constructor
  · rintro ⟨hge, heq⟩
    have hq : (x / 512 - v.database) / v.csize = c - 2 := by omega
    have hdm := Nat.div_add_mod (x / 512 - v.database) v.csize
    have hlt := Nat.mod_lt (x / 512 - v.database) hpos
    rw [hq, Nat.mul_comm] at hdm
    omega
  · rintro ⟨h1, h2⟩
    refine ⟨by omega, ?_⟩
    rw [Nat.div_eq_of_lt_le (k := c - 2) (by omega) (by rw [Nat.succ_mul]; omega)]
    omega

theorem clear_one (h0 : fs.winsect ≠ 0) (hd : fs.fatbase + fs.sectsFat ≤ fs.winsect) :
    let r := moveWindow 0 { fs with wflag := true }
    r.2.toMount = fs.toMount ∧ r.2.drive.served = fs.drive.served ∧ r.2.winsect = fs.winsect ∧
      r.2.win = fs.win ∧
      (r.1 = .ok ∧ r.2.wflag = false ∧ (∀ x, x / 512 ≠ fs.winsect →
          r.2.drive.medium x = fs.drive.medium x) ∧
          (∀ k < 512, r.2.drive.medium (512 * fs.winsect + k) = fs.win k) ∨
        r.1 = .diskErr ∧ r.2.wflag = true ∧ r.2.drive.medium = fs.drive.medium) ∧
      (Reliable fs → r.1 = .ok) := by
  obtain ⟨hserved, hother, hdata, hok⟩ := diskWrite_one fs.win fs.drive fs.winsect
  have herror := @diskWrite_error fs.win fs.drive fs.winsect
  unfold moveWindow writeBack
  rw [if_neg h0]
  dsimp only
  rw [if_pos rfl]
  generalize diskWrite fs.win fs.winsect 1 fs.drive = r at hserved hother hdata hok herror
  obtain ⟨res, drive⟩ := r
  cases res with
  | error =>
    exact ⟨rfl, hserved, rfl, rfl, Or.inr ⟨rfl, rfl, herror rfl⟩, fun hr =>
      by cases hok (le_trans (by decide) (hr _))⟩
  | ok =>
    dsimp only
    rw [if_neg (by omega)]
    dsimp only
    rw [if_pos rfl]
    exact ⟨rfl, hserved, rfl, rfl, Or.inl ⟨rfl, rfl, hother, hdata rfl⟩, fun _ => rfl⟩

/-- **The new cluster is filled with zeros**, as far as no write fails. -/
theorem clearLoop_spec (h0 : 0 < fs.winsect) (hd : fs.fatbase + fs.sectsFat ≤ fs.winsect)
    (hwin : ∀ k < 512, fs.win k = 0#8) (hf : fs.wflag = false) :
    let r := clearLoop n fs
    r.2.toMount = fs.toMount ∧ r.2.drive.served = fs.drive.served ∧ r.2.win = fs.win ∧
      (∀ x, ¬(fs.winsect ≤ x / 512 ∧ x / 512 < fs.winsect + n) →
        r.2.drive.medium x = fs.drive.medium x) ∧
      (r.1 = .ok ∧ r.2.winsect = fs.winsect + n ∧ r.2.wflag = false ∧
          (∀ x, fs.winsect ≤ x / 512 → x / 512 < fs.winsect + n → r.2.drive.medium x = 0#8) ∨
        r.1 = .diskErr ∧ r.2.wflag = true ∧ fs.winsect ≤ r.2.winsect ∧
          r.2.winsect < fs.winsect + n) ∧
      (Reliable fs → r.1 = .ok) := by
  induction n generalizing fs with
  | zero =>
    exact ⟨rfl, rfl, rfl, fun _ _ => rfl, Or.inl ⟨rfl, rfl, hf,
      fun x h1 h2 => absurd h1 (not_le.mpr h2)⟩, fun _ => rfl⟩
  | succ n ih =>
    obtain ⟨hm, hs, hsect, hw, hres, hok⟩ := clear_one (Nat.pos_iff_ne_zero.mp h0) hd
    rw [clearLoop]
    generalize moveWindow 0 { fs with wflag := true } = q at hm hs hsect hw hres hok
    obtain ⟨res, fs1⟩ := q
    dsimp only at hm hs hsect hw hres hok ⊢
    rcases hres with ⟨rfl, hf1, hother, hdata⟩ | ⟨rfl, hf1, hmed⟩
    · obtain ⟨hm', hs', hw', hother', hres', hok'⟩ := @ih { fs1 with winsect := fs1.winsect + 1 }
        (Nat.succ_pos _) (by dsimp only; rw [hm, hsect]; omega) (by dsimp only; rw [hw]; exact hwin) hf1
      dsimp only at hm' hs' hw' hother' hres' hok' ⊢
      generalize clearLoop n { fs1 with winsect := fs1.winsect + 1 } = q
        at hm' hs' hw' hother' hres' hok' ⊢
      obtain ⟨res, fs2⟩ := q
      dsimp only at hm' hs' hw' hother' hres' hok' ⊢
      rw [hsect] at hother' hres'
      refine ⟨hm'.trans hm, hs'.trans hs, hw'.trans hw, fun x hx => ?_, ?_, fun hr => hok' fun j => ?_⟩
      · rw [hother' x (by omega), hother x (by omega)]
      · rcases hres' with ⟨rfl, hsect', hf', hzero⟩ | ⟨rfl, hf', h1, h2⟩
        · refine Or.inl ⟨rfl, by omega, hf', fun x h1 h2 => ?_⟩
          by_cases hx : x / 512 = fs.winsect
          · have hat := hdata _ (Nat.mod_lt x (by decide : 0 < 512))
            rw [← hx, Nat.div_add_mod] at hat
            rw [hother' x (by omega), hat]
            exact hwin _ (Nat.mod_lt _ (by decide))
          · exact hzero x (by omega) (by omega)
        · exact Or.inr ⟨rfl, hf', by omega, by omega⟩
      · dsimp only
        rw [hs]
        exact hr j
    · refine ⟨hm, hs, hw, fun x _ => congrFun hmed x, Or.inr ⟨rfl, hf1, hsect.ge, ?_⟩, fun hr =>
        by cases hok hr⟩
      exact lt_of_eq_of_lt hsect (by omega)

/-- Zeros in place of a cluster's bytes; the window is somewhere in it. -/
theorem cleared_volume (h : WinOk fs) (hf : fs.wflag = false) (hm : fs'.toMount = fs.toMount)
    (hs : s ≤ fs'.winsect) (hlt : fs'.winsect < s + n)
    (hother : ∀ x, ¬(s ≤ x / 512 ∧ x / 512 < s + n) → fs'.drive.medium x = fs.drive.medium x) :
    ∀ x, ¬(s ≤ x / 512 ∧ x / 512 < s + n) → volume fs' x = volume fs x := by
  intro x hx
  by_cases hpx : fs.Plain (x / 512)
  · have hpx' : fs'.Plain (x / 512) := hm ▸ hpx
    rw [volume_medium hpx' fun heq => hx ⟨heq ▸ hs, heq ▸ hlt⟩, hother x hx]
    by_cases hw : x / 512 = fs.winsect
    · have h0 : fs.winsect ≠ 0 := fun h0 => h.not_plain_zero (h0 ▸ hw ▸ hpx)
      rw [volume_win hpx hw, h.clean hf h0 _ (Nat.mod_lt _ (by decide)), ← hw, Nat.div_add_mod]
    · rw [volume_medium hpx hw]
  · rw [volume_hidden hpx]
    exact volume_hidden (hm ▸ hpx)

theorem Frame.mono {l' : List ℕ} (h : Frame fs fs' l) (hl : ∀ d ∈ l, d ∈ l') : Frame fs fs' l' :=
  ⟨h.mount, h.served, fun d hd hdl => h.table d hd fun hmem => hdl (hl d hmem), h.front,
    fun x hx hdl => h.data x hx fun hmem => hdl (hl _ hmem)⟩

/-- The outcome of filling the cluster `c` with zeros. -/
structure Cleared (fs : Fatfs) (c : ℕ) (r : FResult × Fatfs) : Prop where
  mount : r.2.toMount = fs.toMount
  result : r.1 = .ok ∧ r.2.winsect = fs.database + (c - 2) * fs.csize + fs.csize ∧
      Edited fs { r.2 with winsect := fs.database + (c - 2) * fs.csize }
        (512 * (fs.database + (c - 2) * fs.csize)) (512 * fs.csize) ∧
      (∀ x, fs.InCluster c x →
        volume { r.2 with winsect := fs.database + (c - 2) * fs.csize } x = 0#8) ∨
    r.1 = .diskErr ∧ Edited fs r.2 (512 * (fs.database + (c - 2) * fs.csize)) (512 * fs.csize)
  reliable : Reliable fs → r.1 = .ok

theorem plain_cluster (hv : fs.Valid) (hc : fs.Cluster c)
    (h1 : fs.database + (c - 2) * fs.csize ≤ s)
    (h2 : s < fs.database + (c - 2) * fs.csize + fs.csize) : fs.Plain s := by
  refine hv.plain_data (by omega) ?_
  have hmul : (c - 2 + 1) * fs.csize ≤ fs.maxClust * fs.csize :=
    Nat.mul_le_mul_right _ (by have := hc.2; omega)
  rw [Nat.succ_mul] at hmul
  have hinside := hv.inside
  omega

theorem clearLoop_cluster (hw : WinOk fs) (hv : fs.Valid) (hf : fs.wflag = false)
    (hc : fs.Cluster c) :
    Cleared fs c (clearLoop fs.csize
      { fs with win := fill fs.win 0 512 fun _ => 0#8, winsect := clust2sect fs c }) := by
  have hpos := hv.csize_pos
  obtain ⟨hsect, hs0⟩ := clust2sect_eq hv hc
  have hbehind := hv.behind
  have hcopies : 1 * fs.sectsFat ≤ fs.nFats * fs.sectsFat := Nat.mul_le_mul_right _ hv.copies
  have hblank : ∀ k < 512, fill fs.win 0 512 (fun _ => 0#8) k = 0#8 := fun k hk => by
    have hat := fill_at fs.win 0 (fun _ => 0#8) hk
    rwa [Nat.zero_add] at hat
  obtain ⟨hm, hs, hwin, hother, hres, hok⟩ := @clearLoop_spec
    { fs with win := fill fs.win 0 512 fun _ => 0#8, winsect := clust2sect fs c } fs.csize
    (Nat.pos_of_ne_zero hs0) (by dsimp only; rw [hsect]; omega) hblank hf
  generalize clearLoop fs.csize
    { fs with win := fill fs.win 0 512 fun _ => 0#8, winsect := clust2sect fs c } = q
    at hm hs hwin hother hres hok
  obtain ⟨res, fs1⟩ := q
  dsimp only at hm hs hwin hother hres hok
  rw [hsect] at hother hres
  have hplain := fun s => @plain_cluster fs c s hv hc
  have hincl : ∀ x, fs.InCluster c x ↔ fs.database + (c - 2) * fs.csize ≤ x / 512 ∧
      x / 512 < fs.database + (c - 2) * fs.csize + fs.csize := fun x => inCluster_iff hpos hc.1
  refine ⟨hm, ?_, hok⟩
  dsimp only
  generalize fs.database + (c - 2) * fs.csize = S at hother hres hplain hincl ⊢
  have hzero1 : ∀ k < 512, fs1.win k = 0#8 := fun k hk => by rw [hwin, hblank k hk]
  have hed : ∀ fs2 : Fatfs, fs2.toMount = fs1.toMount → fs2.drive = fs1.drive → WinOk fs2 →
      S ≤ fs2.winsect → fs2.winsect < S + fs.csize → Edited fs fs2 (512 * S) (512 * fs.csize) := by
    intro fs2 hm2 hd2 hok2 h1 h2
    refine ⟨hok2, hm2.trans hm, by rw [hd2, hs], fun x hx => ?_⟩
    exact cleared_volume hw hf (hm2.trans hm) h1 h2 (fun x hx => by rw [hd2]; exact hother x hx) x
      (by omega)
  rcases hres with ⟨rfl, hsect1, hf1, hzero⟩ | ⟨rfl, hf1, h1, h2⟩
  · have hpS := hplain S (le_refl S) (by omega)
    have hS0 : S ≠ 0 := fun h0 => hw.not_plain_zero (h0 ▸ hpS)
    have hwin2 : WinOk { fs1 with winsect := S } := by
      refine ⟨by rw [hm]; exact hw.base, fun h0 => absurd h0 hS0, fun _ => by rw [hm]; exact hpS,
        fun _ _ k hk => ?_⟩
      dsimp only
      rw [hzero1 k hk, hzero _ (by omega) (by omega)]
    refine Or.inl ⟨rfl, hsect1, hed { fs1 with winsect := S } rfl rfl hwin2 (le_refl S)
      (by dsimp only; omega), fun x hx => ?_⟩
    rw [hincl] at hx
    have hpx : ({ fs1 with winsect := S } : Fatfs).Plain (x / 512) := by
      rw [hm]
      exact hplain _ hx.1 hx.2
    by_cases hxS : x / 512 = S
    · rw [volume_win hpx hxS]
      exact hzero1 _ (Nat.mod_lt _ (by decide))
    · rw [volume_medium hpx hxS]
      exact hzero x hx.1 hx.2
  · have hp1 := hplain _ h1 h2
    have hwin1 : WinOk fs1 := by
      refine ⟨by rw [hm]; exact hw.base, fun h0 => ?_, fun _ => by rw [hm]; exact hp1, fun hf0 => ?_⟩
      · rw [h0] at hp1
        exact absurd hp1 hw.not_plain_zero
      · rw [hf1] at hf0
        cases hf0
    exact Or.inr ⟨rfl, hed fs1 rfl rfl hwin1 h1 h2⟩

/-- A cluster that was just taken is overwritten. -/
theorem Taken.stretched {fs1 : Fatfs} (ht : Taken fs clust c fs1) (hv : fs.Valid) (hne : clust ≠ 0)
    (he : Edited fs1 fs' (512 * (fs.database + (c - 2) * fs.csize)) (512 * fs.csize)) :
    Frame fs fs' [clust] ∧ link fs' c = .last ∧ link fs' clust = .next c ∧
      (∀ d < fs.maxClust, d ≠ c → d ≠ clust → table fs' d = table fs d) ∧
      ∀ x, ¬fs.InFat x → ¬fs.InCluster c x → volume fs' x = volume fs x := by
  have hch := ht.changed
  rw [if_neg hne] at hch
  have hm := hch.mount
  have hv1 : fs1.Valid := hm ▸ hv
  have hin : ∀ x, ¬fs.InCluster c x → volume fs' x = volume fs1 x := fun x hx =>
    he.other x fun hand => hx ((inCluster_iff hv.csize_pos ht.free.1.1).mpr (by omega))
  have hfat : ∀ x, 512 * (fs.database + (c - 2) * fs.csize) ≤ x →
      x < 512 * (fs.database + (c - 2) * fs.csize) + 512 * fs.csize → ¬fs1.InFat x := by
    intro x h1 _
    rw [hm]
    exact hv.not_inFat (by omega)
  have hlink := he.link hv1 hfat
  refine ⟨?_, ?_, ?_, fun d hd hc hcl => ?_, fun x hx hxc => ?_⟩
  · have hfr : Frame fs fs1 [clust] := hch.toFrame hv fun d hd =>
      (List.mem_cons.mp hd).elim (fun heq => Or.inr (heq ▸ ht.free)) Or.inl
    refine hfr.trans (frame_of_volume (l := [c]) hv1 he.mount he.served fun x hx => hin x ?_)
      fun d hd => Or.inr (List.mem_singleton.mp hd ▸ ht.free)
    rintro ⟨hge, heq⟩
    rw [hm] at hx
    exact hx.elim (not_lt.mpr hge) fun hnot => hnot (List.mem_singleton.mpr heq)
  · rw [hlink]
    exact ht.last
  · rw [hlink]
    exact ht.linked hne
  · rw [he.table hv1 hfat (hm ▸ hd)]
    refine hch.others d hd fun hmem => ?_
    exact (List.mem_cons.mp hmem).elim hc fun hmem => hcl (List.mem_singleton.mp hmem)
  · rw [hin x hxc, hch.frame x hx]

/-- **A directory is stretched** by an empty cluster. -/
theorem streachTable_spec (hw : WinOk fs) (hv : fs.Valid) (hl : link fs clust = .last) :
    let r := streachTable clust fs
    (r.1 = .ok ∧ Stretched fs r.2.2 clust r.2.1 ∨
        r.1 = .denied ∧ Moved fs r.2.2 ∧ (∀ d, ¬Free fs d) ∨
        r.1 = .intErr ∧ Moved fs r.2.2 ∧ (∃ d, fs.Cluster d ∧ table fs d = 1) ∨
        r.1 = .diskErr ∧ WinOk r.2.2 ∧ Frame fs r.2.2 [clust]) ∧
      (Reliable fs → r.1 ≠ .diskErr) := by
  have hclust := (of_link_last hl).1
  have hne : clust ≠ 0 := (hclust.not_special hv).1
  have ha := createChain_last hw hv hl
  obtain ⟨hframe, -, hwin⟩ := @Allocated.frame fs [clust] clust _ ha hv
    (Or.inr (List.mem_singleton_self _))
  have hrel := ha.reliable
  have hres := ha.result
  unfold streachTable
  generalize createChain clust fs = r at hframe hwin hrel hres
  obtain ⟨c, fs1⟩ := r
  dsimp only at hframe hwin hrel hres ⊢
  rcases hres with ⟨rfl, hm, hnone⟩ | ht | ⟨rfl, hm, hone⟩ | ⟨rfl, -⟩
  · exact ⟨Or.inr (Or.inl ⟨rfl, hm, hnone⟩), fun _ => by rintro ⟨⟩⟩
  · obtain ⟨hn0, hn1, hn2⟩ := ht.free.not_special hv
    have hmount : fs1.toMount = fs.toMount := ht.changed.mount
    have hserved : fs1.drive.served = fs.drive.served := ht.changed.served
    rw [if_neg hn0, if_neg hn1, if_neg hn2]
    obtain ⟨hm, hres, -, hclean, hok⟩ := moveWindow_spec hwin (Or.inl (Eq.refl 0))
    generalize moveWindow 0 fs1 = q at hm hres hclean hok
    obtain ⟨res, fs2⟩ := q
    dsimp only at hm hres hclean hok ⊢
    have hr1 : Reliable fs → Reliable fs1 := fun hr i => by
      rw [hserved]
      exact hr i
    rcases hres with rfl | rfl
    · have hm2 : fs2.toMount = fs.toMount := hm.mount.trans hmount
      obtain ⟨hm3, hres3, hok3⟩ := clearLoop_cluster hm.winOk (hm2 ▸ hv) (hclean rfl rfl).1
        (hm2 ▸ ht.free.1 : fs2.Cluster c)
      dsimp only
      generalize clearLoop fs2.csize
        { fs2 with win := fill fs2.win 0 512 fun _ => 0#8, winsect := clust2sect fs2 c } = q
        at hm3 hres3 hok3 ⊢
      obtain ⟨res, fs3⟩ := q
      dsimp only at hm3 hres3 hok3 ⊢
      have hmount3 : fs3.toMount = fs.toMount := hm3.trans hm2
      rw [hm2] at hres3
      rcases hres3 with ⟨rfl, hsect3, hed, hzero⟩ | ⟨rfl, hed⟩
      · have he := hed.of_moved hm
        obtain ⟨hfr, hlast, hlinked, hothers, hkept⟩ := ht.stretched hv hne he
        have hback : fs3.winsect - fs3.csize = fs.database + (c - 2) * fs.csize := by
          rw [hsect3, hmount3, Nat.add_sub_cancel]
        dsimp only
        rw [hback]
        exact ⟨Or.inl ⟨rfl, he.winOk, hmount3, he.served.trans hserved, ht.free, hlast, hlinked,
          hothers, hzero, hkept, hfr, rfl⟩, fun _ => by rintro ⟨⟩⟩
      · have he := hed.of_moved hm
        exact ⟨Or.inr (Or.inr (Or.inr ⟨rfl, he.winOk, (ht.stretched hv hne he).1⟩)), fun hr => by
          cases hok3 (hm.reliable (hr1 hr))⟩
    · exact ⟨Or.inr (Or.inr (Or.inr ⟨rfl, hm.winOk, hframe.trans hm.frame fun d hd => Or.inl hd⟩)),
        fun hr => by cases hok (hr1 hr)⟩
  · exact ⟨Or.inr (Or.inr (Or.inl ⟨rfl, hm, hone⟩)), fun _ => by rintro ⟨⟩⟩
  · exact ⟨Or.inr (Or.inr (Or.inr ⟨rfl, hwin, hframe⟩)), fun hr => absurd rfl (hrel hr)⟩

/-! ## Stretching -/

theorem Stretched.of_moved (hm : Moved fs fs') (h : Stretched fs' fs'' clust c) :
    Stretched fs fs'' clust c := by
  obtain ⟨hw, hmt, hs, hfree, hlast, hlinked, hothers, hempty, hkept, hframe, hwin⟩ := h
  rw [hm.mount] at hothers hempty hkept hwin
  exact ⟨hw, hmt.trans hm.mount, hs.trans hm.served, hm.free_iff.mp hfree, hlast, hlinked,
    fun d hd hc hcl => (hothers d hd hc hcl).trans (congrFun hm.table d), hempty,
    fun x hx hxc => (hkept x hx hxc).trans (congrFun hm.volume x),
    hm.frame.trans hframe fun _ hd => Or.inl hd, hwin⟩

theorem nextCluster_streach (hw : WinOk fs) (hv : fs.Valid) (hl : link fs dj.clust = .last) :
    let r := nextCluster true dj fs
    (r.1 = .ok ∧ (∃ c, Stretched fs r.2.2 dj.clust c ∧
          r.2.1 = { dj with clust := c, sect := fs.database + (c - 2) * fs.csize }) ∨
        r.2.1 = dj ∧ (r.1 = .denied ∧ Moved fs r.2.2 ∧ (∀ d, ¬Free fs d) ∨
          r.1 = .intErr ∧ Moved fs r.2.2 ∧ (∃ d, fs.Cluster d ∧ table fs d = 1) ∨
          r.1 = .diskErr ∧ WinOk r.2.2 ∧ Frame fs r.2.2 [dj.clust])) ∧
      (Reliable fs → r.1 ≠ .diskErr) := by
  obtain ⟨hc, htab⟩ := of_link_last hl
  obtain ⟨hm, hres, hok⟩ := getCluster_spec hw hv hc
  have h2 := hv.two
  have hbig := @table_lt fs dj.clust hv
  unfold nextCluster
  generalize getCluster dj.clust fs = r at hm hres hok
  obtain ⟨clst, fs1⟩ := r
  dsimp only at hm hres hok ⊢
  rcases hres with ⟨rfl, -⟩ | rfl
  · rw [if_neg (by omega), if_neg (by omega), if_pos (by rw [hm.mount]; exact htab),
      if_neg (by decide)]
    obtain ⟨hres2, hok2⟩ := streachTable_spec hm.winOk (hm.mount ▸ hv) (hm.link ▸ hl)
    generalize streachTable dj.clust fs1 = r at hres2 hok2
    obtain ⟨res, c, fs2⟩ := r
    dsimp only at hres2 hok2 ⊢
    rcases hres2 with ⟨rfl, hst⟩ | ⟨rfl, hm2, hnone⟩ | ⟨rfl, hm2, d, hd, hone⟩ | ⟨rfl, hw2, hframe⟩
    · have hst' := hst.of_moved hm
      have hcl : fs2.Cluster c := hst'.mount ▸ hst'.free.1
      have hsect := (clust2sect_eq (hst'.mount ▸ hv) hcl).1
      rw [hst'.mount] at hsect
      refine ⟨Or.inl ⟨rfl, c, hst', ?_⟩, fun _ => by rintro ⟨⟩⟩
      dsimp only
      rw [hsect]
    · exact ⟨Or.inr ⟨rfl, Or.inl ⟨rfl, hm.trans hm2, fun d hd => hnone d (hm.free_iff.mpr hd)⟩⟩,
        fun _ => by rintro ⟨⟩⟩
    · rw [hm.mount] at hd
      rw [hm.table] at hone
      exact ⟨Or.inr ⟨rfl, Or.inr (Or.inl ⟨rfl, hm.trans hm2, d, hd, hone⟩)⟩, fun _ => by rintro ⟨⟩⟩
    · exact ⟨Or.inr ⟨rfl, Or.inr (Or.inr ⟨rfl, hw2, hm.frame.trans hframe fun _ hd => Or.inl hd⟩)⟩,
        fun hr => absurd rfl (hok2 (hm.reliable hr))⟩
  · rw [if_neg (by decide), if_pos rfl]
    exact ⟨Or.inr ⟨rfl, Or.inr (Or.inr ⟨rfl, hm.winOk, hm.frame⟩)⟩, fun hr => by
      have := (hok hr).1
      omega⟩

theorem Stretched.chain (h : Stretched fs fs' clust c) (hch : Chain (link fs) sclust l)
    (hl : l.getLast hch.ne_nil = clust) : Chain (link fs') sclust (l ++ [c]) := by
  refine hch.extend h.free.link h.last (by rw [hl]; exact h.linked) fun d hd hd' => ?_
  rw [hl] at hd'
  rw [link, link, h.mount]
  by_cases hc : fs.Cluster d
  · rw [if_pos hc, if_pos hc, h.others d hc.2 hd hd']
  · rw [if_neg hc, if_neg hc]

theorem new_entry (hpos : 0 < fs.csize) (hl : l ≠ []) (hi : i + 1 = fs.dirSize l) :
    fs.dirSectOf (l ++ [c]) (i + 1) = fs.database + (c - 2) * fs.csize ∧
      (l ++ [c]).getD ((i + 1) / 16 / fs.csize) 2 = c := by
  rw [Mount.dirSize, if_neg hl, Nat.mul_assoc] at hi
  have hq : (i + 1) / 16 = fs.csize * l.length := by
    rw [hi, Nat.mul_div_cancel_left _ (by decide)]
  have hget : (l ++ [c]).getD l.length 2 = c := by
    rw [List.getD_append_right _ _ _ _ (le_refl _), Nat.sub_self]
    rfl
  have hne : l ++ [c] ≠ [] := List.append_ne_nil_of_left_ne_nil hl _
  rw [Mount.dirSectOf, if_neg hne, Mount.sectorOf, hq, Nat.mul_div_cancel_left _ hpos,
    Nat.mul_mod_right, hget]
  exact ⟨Nat.add_zero _, rfl⟩

theorem dirNext_streach (hw : WinOk fs) (hv : fs.Valid) (hr : fs.RootValid)
    (hch : Chain (link fs) dj.sclust l) (ha : AtEntry dj fs l i) (hi : i + 1 = fs.dirSize l)
    (htop : i + 1 < 0x10000) :
    let r := dirNext true dj fs
    SameDir dj r.2.1 ∧
      (r.1 = .ok ∧ (∃ c, Stretched fs r.2.2 (l.getLast hch.ne_nil) c ∧
            Chain (link r.2.2) dj.sclust (l ++ [c]) ∧ AtEntry r.2.1 fs (l ++ [c]) (i + 1)) ∨
          r.1 = .denied ∧ Moved fs r.2.2 ∧ (∀ d, ¬Free fs d) ∨
          r.1 = .intErr ∧ Moved fs r.2.2 ∧ (∃ d, fs.Cluster d ∧ table fs d = 1) ∨
          r.1 = .diskErr ∧ WinOk r.2.2 ∧ Frame fs r.2.2 l) ∧
      (Reliable fs → r.1 ≠ .diskErr) := by
  have hpos := hv.csize_pos
  have hl := hch.ne_nil
  obtain ⟨h16, hmod, hcur⟩ := last_entry hpos hl hi
  obtain ⟨hindex, hsect, hdir, hclust⟩ := ha
  rw [← hclust hl] at hcur
  obtain ⟨-, hbase, -⟩ := dirSectOf_plain hv hr (Or.inr hch) (show i < fs.dirSize l by omega)
  have h0 := hw.base.reserved
  have hsc : dj.sclust ≠ 0 := by
    obtain ⟨t, ht⟩ := hch.head
    have h2 := (cluster_of_chain hch (ht ▸ List.mem_cons_self ..)).1
    omega
  unfold dirNext
  rw [hindex, Nat.mod_eq_of_lt htop, if_neg (by omega), if_pos h16]
  unfold nextSector
  dsimp only
  rw [if_neg hsc, and_csize hv, if_pos hmod]
  obtain ⟨hres, hok⟩ := @nextCluster_streach { dj with sect := dj.sect + 1 } fs hw hv
    (by dsimp only; rw [hcur]; exact hch.last_eq)
  generalize nextCluster true { dj with sect := dj.sect + 1 } fs = r at hres hok
  obtain ⟨res, dj1, fs1⟩ := r
  dsimp only at hres hok ⊢
  rcases hres with ⟨rfl, c, hst, rfl⟩ | ⟨rfl, ⟨rfl, hm, hnone⟩ | ⟨rfl, hm, hone⟩ | ⟨rfl, hw1, hfr⟩⟩
  · refine ⟨⟨rfl, rfl⟩, Or.inl ⟨rfl, c, hcur ▸ hst, hst.chain hch hcur.symm, rfl, ?_, rfl,
      fun _ => ?_⟩, fun _ => by rintro ⟨⟩⟩
    · exact (new_entry hpos hl hi).1.symm
    · exact (new_entry hpos hl hi).2.symm
  · exact ⟨⟨rfl, rfl⟩, Or.inr (Or.inl ⟨rfl, hm, hnone⟩), fun _ => by rintro ⟨⟩⟩
  · exact ⟨⟨rfl, rfl⟩, Or.inr (Or.inr (Or.inl ⟨rfl, hm, hone⟩)), fun _ => by rintro ⟨⟩⟩
  · refine ⟨⟨rfl, rfl⟩, Or.inr (Or.inr (Or.inr ⟨rfl, hw1, hfr.mono fun d hd => ?_⟩)), fun hr =>
      absurd rfl (hok hr)⟩
    rw [List.mem_singleton.mp hd, hcur]
    exact List.getLast_mem hl

/-! ## The first entry that is not in use -/

/-- Entry `i` of the directory, which may have been stretched, is the first one not in use. -/
structure Vacant (fs fs' : Fatfs) (sclust : ℕ) (l l' : List ℕ) (i : ℕ) : Prop where
  winOk : WinOk fs'
  directory : Directory fs' sclust l'
  reach : i < fs.dirReach l'
  blank : Blank (volume fs') (fs.slotOf l' i)
  window : fs'.winsect = fs.dirSectOf l' i
  first : ∀ j < fs.dirReach l, j < i → ¬Blank (volume fs) (fs.slotOf l j)
  grown : l' = l ∧ Moved fs fs' ∨ i = fs.dirSize l ∧ ∃ clust ∈ l, ∃ c, l' = l ++ [c] ∧
    Stretched fs fs' clust c

/-- All entries are in use. -/
def Full (fs : Fatfs) (l : List ℕ) : Prop := ∀ j < fs.dirReach l, ¬Blank (volume fs) (fs.slotOf l j)

/-- What the search for a blank entry returns. -/
structure Vacated (fs : Fatfs) (dj : Dir) (l : List ℕ) (r : FResult × Dir × Fatfs) : Prop where
  same : SameDir dj r.2.1
  result : (r.1 = .ok ∧ ∃ l' i, Vacant fs r.2.2 dj.sclust l l' i ∧ AtEntry r.2.1 fs l' i) ∨
    r.1 = .noFile ∧ Moved fs r.2.2 ∧ Full fs l ∧ (l = [] ∨ fs.dirReach l = 0x10000) ∨
    r.1 = .denied ∧ Moved fs r.2.2 ∧ Full fs l ∧ (∀ d, ¬Free fs d) ∨
    r.1 = .intErr ∧ Moved fs r.2.2 ∧ (∃ d, fs.Cluster d ∧ table fs d = 1) ∨
    r.1 = .diskErr ∧ WinOk r.2.2 ∧ Frame fs r.2.2 l
  reliable : Reliable fs → r.1 ≠ .diskErr

theorem Vacated.of_moved {r : FResult × Dir × Fatfs} (hm : Moved fs fs') (hs : SameDir dj dj')
    (h : Vacated fs' dj' l r) : Vacated fs dj l r := by
  obtain ⟨hsame, hres, hrel⟩ := h
  refine ⟨⟨hsame.sclust.trans hs.sclust, hsame.fn.trans hs.fn⟩, ?_, fun hr => hrel (hm.reliable hr)⟩
  have hfull : Full fs' l → Full fs l := fun hf j hj => by
    have hb := hf j (by rw [hm.mount]; exact hj)
    rwa [hm.volume, hm.mount] at hb
  rcases hres with ⟨hok, l', i, ⟨h1, h2, h3, h4, h5, h6, h7⟩, ha⟩ | ⟨hno, hm2, hf, hor⟩ |
    ⟨hno, hm2, hf, hnone⟩ | ⟨hno, hm2, d, hd, hone⟩ | ⟨herr, hw, hfr⟩
  · rw [hm.mount] at h3 h4 h5
    rw [hs.sclust] at h2
    rw [hm.volume, hm.mount] at h6
    refine Or.inl ⟨hok, l', i, ⟨h1, h2, h3, h4, h5, h6, ?_⟩, ha.of_moved hm⟩
    rcases h7 with ⟨heq, hm2⟩ | ⟨hsz, clust, hmem, c, heq, hst⟩
    · exact Or.inl ⟨heq, hm.trans hm2⟩
    · rw [hm.mount] at hsz
      exact Or.inr ⟨hsz, clust, hmem, c, heq, hst.of_moved hm⟩
  · rw [hm.mount] at hor
    exact Or.inr (Or.inl ⟨hno, hm.trans hm2, hfull hf, hor⟩)
  · exact Or.inr (Or.inr (Or.inl ⟨hno, hm.trans hm2, hfull hf, fun d hd =>
      hnone d (hm.free_iff.mpr hd)⟩))
  · rw [hm.mount] at hd
    rw [hm.table] at hone
    exact Or.inr (Or.inr (Or.inr (Or.inl ⟨hno, hm.trans hm2, d, hd, hone⟩)))
  · exact Or.inr (Or.inr (Or.inr (Or.inr ⟨herr, hw, hm.frame.trans hfr fun _ hd => Or.inl hd⟩)))

theorem Stretched.blank (h : Stretched fs fs' clust c) (hv : fs.Valid) (hl : l ≠ [])
    (hsz : i + 1 = fs.dirSize l) : volume fs' (fs.slotOf (l ++ [c]) (i + 1)) = 0#8 := by
  have hpos := hv.csize_pos
  refine h.empty _ ((inCluster_iff hpos h.free.1.1).mpr ?_)
  rw [Mount.slotOf, (new_entry hpos hl hsz).1]
  omega

theorem Stretched.blankLoop (h : Stretched fs fs' clust c) (hv : fs.Valid) (hl : l ≠ [])
    (hsz : i + 1 = fs.dirSize l) (ha : AtEntry dj fs (l ++ [c]) (i + 1)) :
    Ff.blankLoop (n + 1) dj fs' = (.ok, dj, fs') := by
  have hsect : fs'.winsect = fs.dirSectOf (l ++ [c]) (i + 1) :=
    h.window.trans (new_entry hv.csize_pos hl hsz).1.symm
  have hne : fs'.winsect ≠ 0 := by
    rw [h.window]
    have := hv.behind
    have := hv.reserved
    omega
  have hbyte := entry_win (l := l ++ [c]) (i := i + 1) h.winOk hne (by rw [h.mount]; exact hsect)
    (k := 0) (by decide)
  rw [h.mount] at hbyte
  have hname : fs'.win dj.entry = 0#8 := by
    rw [Dir.entry, ha.dir]
    exact hbyte.trans (h.blank hv hl hsz)
  have hstay : moveWindow dj.sect fs' = (.ok, fs') := by
    rw [moveWindow, if_pos (hsect.trans ha.sect.symm)]
  rw [Ff.blankLoop, hstay]
  dsimp only
  rw [hname, if_pos (Or.inr rfl)]

theorem Stretched.vacant (h : Stretched fs fs' clust c) (hv : fs.Valid) (hl : l ≠ [])
    (hclust : clust ∈ l) (hsz : i + 1 = fs.dirSize l) (htop : i + 1 < 0x10000) (hfull : Full fs l)
    (hch : Chain (link fs') sclust (l ++ [c])) : Vacant fs fs' sclust l (l ++ [c]) (i + 1) := by
  refine ⟨h.winOk, Or.inr hch, ?_, Or.inr (h.blank hv hl hsz),
    h.window.trans (new_entry hv.csize_pos hl hsz).1.symm, fun j hj _ => hfull j hj,
    Or.inr ⟨hsz, clust, hclust, c, rfl, h⟩⟩
  have hpos := hv.csize_pos
  rw [Mount.dirSize, if_neg hl] at hsz
  rw [Mount.dirReach, Mount.dirSize, if_neg (List.append_ne_nil_of_left_ne_nil hl _),
    List.length_append, List.length_singleton, Nat.mul_succ]
  omega

/-- Behind the last entry there is no other one, or the directory is stretched. -/
theorem dirNext_full (hw : WinOk fs) (hv : fs.Valid) (hr : fs.RootValid)
    (hd : Directory fs dj.sclust l) (ha : AtEntry dj fs l i) (hi : i + 1 = fs.dirReach l)
    (hfull : Full fs l) (hn : 0x10000 ≤ i + n + 1) :
    let r := dirNext true dj fs
    (r.1 = .ok → Vacated fs dj l (blankLoop n r.2.1 r.2.2)) ∧ (r.1 ≠ .ok → Vacated fs dj l r) := by
  by_cases hend : l = [] ∨ i + 1 = 0x10000
  · obtain ⟨hm, hsame, hres, hok⟩ := @dirNext_end dj fs l i true hw hv hr hd ha hi (Or.inr hend)
    generalize dirNext true dj fs = q at hm hsame hres hok
    obtain ⟨res, dj2, fs2⟩ := q
    dsimp only at hm hsame hres hok ⊢
    rcases hres with rfl | rfl
    · exact ⟨by rintro ⟨⟩, fun _ => ⟨hsame, Or.inr (Or.inl ⟨rfl, hm, hfull,
        hend.imp_right hi.symm.trans⟩), fun _ => by rintro ⟨⟩⟩⟩
    · exact ⟨by rintro ⟨⟩, fun _ => ⟨hsame, Or.inr (Or.inr (Or.inr (Or.inr ⟨rfl, hm.winOk,
        hm.frame⟩))), fun hr => by cases hok hr⟩⟩
  · rw [not_or] at hend
    have hle : fs.dirReach l ≤ 0x10000 := Nat.min_le_right _ _
    have htop : i + 1 < 0x10000 := by omega
    have hsz : i + 1 = fs.dirSize l := by
      rw [Mount.dirReach] at hi
      omega
    have hch : Chain (link fs) dj.sclust l := hd.resolve_left fun hand => hend.1 hand.2.1
    obtain ⟨hsame, hres, hok⟩ := dirNext_streach hw hv hr hch ha hsz htop
    generalize dirNext true dj fs = q at hsame hres hok
    obtain ⟨res, dj2, fs2⟩ := q
    dsimp only at hsame hres hok ⊢
    rcases hres with ⟨rfl, c, hst, hch2, ha2⟩ | ⟨rfl, hm, hnone⟩ | ⟨rfl, hm, hone⟩ | ⟨rfl, hw2, hfr⟩
    · refine ⟨fun _ => ?_, fun h => absurd rfl h⟩
      obtain ⟨m, rfl⟩ : ∃ m, n = m + 1 := ⟨n - 1, by omega⟩
      rw [hst.blankLoop hv hend.1 hsz ha2]
      exact ⟨hsame, Or.inl ⟨rfl, l ++ [c], i + 1, hst.vacant hv hend.1
        (List.getLast_mem hch.ne_nil) hsz htop hfull hch2, ha2⟩, fun _ => by rintro ⟨⟩⟩
    · exact ⟨by rintro ⟨⟩, fun _ => ⟨hsame, Or.inr (Or.inr (Or.inl ⟨rfl, hm, hfull, hnone⟩)),
        fun _ => by rintro ⟨⟩⟩⟩
    · exact ⟨by rintro ⟨⟩, fun _ => ⟨hsame, Or.inr (Or.inr (Or.inr (Or.inl ⟨rfl, hm, hone⟩))),
        fun _ => by rintro ⟨⟩⟩⟩
    · exact ⟨by rintro ⟨⟩, fun _ => ⟨hsame, Or.inr (Or.inr (Or.inr (Or.inr ⟨rfl, hw2, hfr⟩))),
        fun hr => absurd rfl (hok hr)⟩⟩

/-- One pass of the search: the window is on the entry, and the name in it is known. -/
theorem blankLoop_pass (hw : WinOk fs) (hv : fs.Valid) (hr : fs.RootValid)
    (hd : Directory fs dj.sclust l) (ha : AtEntry dj fs l i) (hi : i < fs.dirReach l) :
    let r := moveWindow dj.sect fs
    Moved fs r.2 ∧ (r.1 = .ok ∨ r.1 = .diskErr) ∧ (Reliable fs → r.1 = .ok) ∧
      (r.1 = .ok → r.2.winsect = fs.dirSectOf l i ∧
        r.2.win dj.entry = volume fs (fs.slotOf l i)) := by
  have hplain := (dirSectOf_plain hv hr hd (lt_of_lt_of_le hi (Nat.min_le_left _ _))).1
  have h0 : fs.dirSectOf l i ≠ 0 := fun h0 => hw.not_plain_zero (h0 ▸ hplain)
  obtain ⟨hm, hres, hat, -, hok⟩ := moveWindow_spec hw (Or.inr hplain)
  rw [ha.sect]
  generalize moveWindow (fs.dirSectOf l i) fs = q at hm hres hat hok
  obtain ⟨res, fs1⟩ := q
  dsimp only at hm hres hat hok ⊢
  refine ⟨hm, hres, hok, fun hr => ⟨hat hr h0, ?_⟩⟩
  have hs : fs1.winsect = fs1.dirSectOf l i := by rw [hat hr h0, hm.mount]
  have hbyte := entry_win hm.winOk ((hat hr h0).trans_ne h0) hs (k := 0) (by decide)
  rw [hm.volume, hm.mount] at hbyte
  rw [Dir.entry, ha.dir]
  exact hbyte

theorem blankLoop_spec (hw : WinOk fs) (hv : fs.Valid) (hr : fs.RootValid)
    (hd : Directory fs dj.sclust l) (ha : AtEntry dj fs l i) (hi : i < fs.dirReach l)
    (hn : 0x10000 ≤ i + n) (hp : ∀ j < i, ¬Blank (volume fs) (fs.slotOf l j)) :
    Vacated fs dj l (blankLoop n dj fs) := by
  induction n generalizing i dj fs with
  | zero =>
    have hle : fs.dirReach l ≤ 0x10000 := Nat.min_le_right _ _
    omega
  | succ n ih =>
    obtain ⟨hm, hres, hok, hat⟩ := blankLoop_pass hw hv hr hd ha hi
    rw [blankLoop]
    generalize moveWindow dj.sect fs = q at hm hres hat hok
    obtain ⟨res, fs1⟩ := q
    dsimp only at hm hres hat hok ⊢
    rcases hres with rfl | rfl
    · obtain ⟨hsect, hname⟩ := hat rfl
      have ha1 := ha.moved hm
      have hd1 := hm.directory hd
      have hv1 : fs1.Valid := hm.mount ▸ hv
      have hr1 : fs1.RootValid := hm.mount ▸ hr
      dsimp only
      rw [hname]
      have hiff : volume fs (fs.slotOf l i) = 0xE5#8 ∨ volume fs (fs.slotOf l i) = 0#8 ↔
          Blank (volume fs) (fs.slotOf l i) := Iff.rfl
      by_cases hblank : Blank (volume fs) (fs.slotOf l i)
      · rw [if_pos (hiff.mpr hblank)]
        refine ⟨⟨rfl, rfl⟩, Or.inl ⟨rfl, l, i, ⟨hm.winOk, hd1, hi, ?_, hsect,
          fun j _ hj => hp j hj, Or.inl ⟨rfl, hm⟩⟩, ha⟩, fun _ => by rintro ⟨⟩⟩
        rw [hm.volume]
        exact hblank
      · rw [if_neg (hiff.not.mpr hblank)]
        have hp1 : ∀ j < i + 1, ¬Blank (volume fs1) (fs1.slotOf l j) := by
          intro j hj
          rw [hm.volume, hm.mount]
          exact (Nat.lt_succ_iff_lt_or_eq.mp hj).elim (hp j) fun heq => heq ▸ hblank
        have hi1 : i < fs1.dirReach l := hm.mount ▸ hi
        rcases Nat.eq_or_lt_of_le (Nat.succ_le_of_lt hi1) with hlast | hnext
        · have hlast' : i + 1 = fs1.dirReach l := hlast
          obtain ⟨hgo, hstop⟩ := dirNext_full hm.winOk hv1 hr1 hd1 ha1 hlast'
            (fun j hj => hp1 j (by omega)) (n := n) (by omega)
          generalize dirNext true dj fs1 = q at hgo hstop
          obtain ⟨res, dj2, fs2⟩ := q
          dsimp only at hgo hstop ⊢
          by_cases hokn : res = .ok
          · subst hokn
            exact (hgo rfl).of_moved hm ⟨rfl, rfl⟩
          · cases res
            all_goals first
              | exact absurd rfl hokn
              | exact (hstop hokn).of_moved hm ⟨rfl, rfl⟩
        · obtain ⟨hm2, hsame, hres2, hok2⟩ := @dirNext_inner dj fs1 l i true hm.winOk hv1 hr1 hd1 ha1
            hnext
          generalize dirNext true dj fs1 = q at hm2 hsame hres2 hok2
          obtain ⟨res, dj2, fs2⟩ := q
          dsimp only at hm2 hsame hres2 hok2 ⊢
          have hm' := hm.trans hm2
          rcases hres2 with ⟨rfl, ha2⟩ | rfl
          · refine (ih hm2.winOk (hm'.mount ▸ hv) (hm'.mount ▸ hr) ?_ (ha2.moved hm2) ?_ (by omega)
              fun j hj => ?_).of_moved hm' hsame
            · rw [hsame.sclust]
              exact hm'.directory hd
            · rw [hm2.mount]
              exact hnext
            · rw [hm2.volume, hm2.mount]
              exact hp1 j hj
          · exact ⟨hsame, Or.inr (Or.inr (Or.inr (Or.inr ⟨rfl, hm'.winOk, hm'.frame⟩))), fun hr =>
              by cases hok2 (hm.reliable hr)⟩
    · exact ⟨⟨rfl, rfl⟩, Or.inr (Or.inr (Or.inr (Or.inr ⟨rfl, hm.winOk, hm.frame⟩))), fun hr =>
        by cases hok hr⟩

/-! ## The entry -/

theorem newEntry_other {m : Mem} {x : ℕ} (h : ¬(dj.entry ≤ x ∧ x < dj.entry + 32)) :
    newEntry dj m x = m x := by
  simp only [newEntry, dirNTres]
  rw [set_other _ (by omega), fill_other _ (by omega), fill_other _ h]

theorem newEntry_name (m : Mem) {k : ℕ} (hk : k < 11) : newEntry dj m (dj.entry + k) = dj.fn k := by
  simp only [newEntry, dirNTres]
  rw [set_other _ (by omega), fill_at _ _ _ hk]

theorem newEntry_case (m : Mem) : newEntry dj m (dj.entry + dirNTres) = dj.fn 11 &&& 0x18#8 :=
  set_same _ _ _

theorem newEntry_clear (m : Mem) {k : ℕ} (h11 : 11 ≤ k) (h32 : k < 32) (hk : k ≠ dirNTres) :
    newEntry dj m (dj.entry + k) = 0#8 := by
  simp only [newEntry]
  rw [set_other _ (by omega), fill_other _ (by omega), fill_at _ _ _ h32]

/-- The new entry is stored: the name, and zeros. -/
structure Registered (fs fs' : Fatfs) (dj : Dir) (l l' : List ℕ) (i : ℕ) : Prop where
  vacant : ∃ fs1, Vacant fs fs1 dj.sclust l l' i ∧ Edited fs1 fs' (fs.slotOf l' i) 32
  window : fs'.winsect = fs.dirSectOf l' i
  name : ∀ k < 11, volume fs' (fs.slotOf l' i + k) = dj.fn k
  ntres : volume fs' (fs.slotOf l' i + dirNTres) = dj.fn 11 &&& 0x18#8
  clear : ∀ k, 11 ≤ k → k < 32 → k ≠ dirNTres → volume fs' (fs.slotOf l' i + k) = 0#8

theorem Vacant.mount {l' : List ℕ} (h : Vacant fs fs' sclust l l' i) :
    fs'.toMount = fs.toMount ∧ fs'.drive.served = fs.drive.served ∧ Frame fs fs' l := by
  rcases h.grown with ⟨-, hm⟩ | ⟨-, clust, hmem, c, -, hst⟩
  · exact ⟨hm.mount, hm.served, hm.frame⟩
  · refine ⟨hst.mount, hst.served, hst.frame.mono fun d hd => ?_⟩
    rw [List.mem_singleton.mp hd]
    exact hmem

/-- **`dir_register`** stores the name in the first entry that is not in use. -/
theorem dirRegister_spec (hw : WinOk fs) (hv : fs.Valid) (hr : fs.RootValid)
    (hd : Directory fs dj.sclust l) :
    let r := dirRegister dj fs
    SameDir dj r.2.1 ∧
      ((r.1 = .ok ∧ ∃ l' i, Registered fs r.2.2 dj l l' i ∧ AtEntry r.2.1 fs l' i) ∨
        r.1 = .noFile ∧ Moved fs r.2.2 ∧ Full fs l ∧ (l = [] ∨ fs.dirReach l = 0x10000) ∨
        r.1 = .denied ∧ Moved fs r.2.2 ∧ Full fs l ∧ (∀ d, ¬Free fs d) ∨
        r.1 = .intErr ∧ Moved fs r.2.2 ∧ (∃ d, fs.Cluster d ∧ table fs d = 1) ∨
        r.1 = .diskErr ∧ WinOk r.2.2 ∧ Frame fs r.2.2 l) ∧ (Reliable fs → r.1 ≠ .diskErr) := by
  obtain ⟨dj1, hseek, hsame, ha, hpos⟩ := dirSeek_zero hv hd
  have hvac := (blankLoop_spec (n := 0x10000) hw hv hr (hsame.sclust ▸ hd) ha hpos (Nat.le_add_left _ _)
    fun j hj => absurd hj (Nat.not_lt_zero j)).of_moved (.refl hw) hsame
  rw [dirRegister, hseek]
  dsimp only
  generalize blankLoop 0x10000 dj1 fs = q at hvac
  obtain ⟨res, dj2, fs1⟩ := q
  obtain ⟨hsame2, hres, hrel⟩ := hvac
  dsimp only at hsame2 hres hrel
  rcases hres with ⟨rfl, l', i, hvacant, ha2⟩ | h | h | h | h
  · obtain ⟨hmount, -, -⟩ := hvacant.mount
    have hwin := hvacant.winOk
    have hplain := (dirSectOf_plain (hmount ▸ hv) (hmount ▸ hr) hvacant.directory
      (i := i) (by rw [hmount]; exact lt_of_lt_of_le hvacant.reach (Nat.min_le_left _ _))).1
    have hne : fs1.winsect ≠ 0 := by
      intro h0
      rw [hmount, ← hvacant.window, h0, ← hmount] at hplain
      exact hwin.not_plain_zero hplain
    have hstay : moveWindow dj2.sect fs1 = (.ok, fs1) := by
      rw [moveWindow, if_pos (hvacant.window.trans ha2.sect.symm)]
    have hentry : dj2.entry = i % 16 * 32 := by rw [Dir.entry, ha2.dir, Option.getD_some]
    have hslot : fs.slotOf l' i = 512 * fs1.winsect + dj2.entry := by
      rw [Mount.slotOf, hvacant.window, hentry]
    obtain ⟨hok, hvol⟩ := edit_spec hwin hne (newEntry dj2 fs1.win)
    have hat : ∀ k < 32, volume { fs1 with win := newEntry dj2 fs1.win, wflag := true }
        (fs.slotOf l' i + k) = newEntry dj2 fs1.win (dj2.entry + k) := by
      intro k hk
      rw [hvol, hslot, if_pos (by omega)]
      congr 1
      omega
    dsimp only
    rw [hstay]
    refine ⟨hsame2, Or.inl ⟨rfl, l', i, ⟨⟨fs1, hvacant, ?_⟩, hvacant.window, fun k hk => ?_, ?_,
      fun k h11 h32 hk => ?_⟩, ha2⟩, fun _ => by rintro ⟨⟩⟩
    · rw [hslot]
      exact edit_edited hwin hne fun x hx => newEntry_other hx
    · rw [hat k (by omega), newEntry_name _ hk, hsame2.fn]
    · rw [hat dirNTres (by decide), newEntry_case, hsame2.fn]
    · rw [hat k h32, newEntry_clear _ h11 h32 hk]
  · obtain ⟨rfl, h⟩ := h
    exact ⟨hsame2, Or.inr (Or.inl ⟨rfl, h⟩), fun _ => by rintro ⟨⟩⟩
  · obtain ⟨rfl, h⟩ := h
    exact ⟨hsame2, Or.inr (Or.inr (Or.inl ⟨rfl, h⟩)), fun _ => by rintro ⟨⟩⟩
  · obtain ⟨rfl, h⟩ := h
    exact ⟨hsame2, Or.inr (Or.inr (Or.inr (Or.inl ⟨rfl, h⟩))), fun _ => by rintro ⟨⟩⟩
  · obtain ⟨rfl, h⟩ := h
    exact ⟨hsame2, Or.inr (Or.inr (Or.inr (Or.inr ⟨rfl, h⟩))), hrel⟩

end Register

end VwiiNandTools.Ff
