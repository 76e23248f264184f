import VwiiNandTools.Armboot.Storage.Ff.Register

/-!
# Looking up what was registered

When `dir_find` has found no entry with a name, `f_open` lets `dir_register` store one.  A search then
finds it, and finds every other name where it was before (`dirRegister_dirFind`): the new entry is
the first that was not in use, so no end mark is in front of it.
-/

namespace VwiiNandTools.Ff

open ByteMemory Chains
open VwiiNandTools.Dump (FResult)

/-- The first byte of a name marks neither the end, nor an erased entry, nor a dot entry. -/
def PlainName (fn : Mem) : Prop := fn 0 ≠ 0#8 ∧ fn 0 ≠ 0xE5#8 ∧ fn 0 ≠ 0x2E#8

instance (fn : Mem) : Decidable (PlainName fn) := inferInstanceAs (Decidable (_ ∧ _))

section Lookup

variable {dj dj' : Dir} {fn : Mem} {fs fs1 fs2 : Fatfs} {l l' : List ℕ} {c i j k sclust : ℕ}

/-! ## Places of entries -/

theorem dirSectOf_injective (hv : fs.Valid) (hd : Directory fs sclust l) (hi : i < fs.dirSize l)
    (hj : j < fs.dirSize l) (h : fs.dirSectOf l i = fs.dirSectOf l j) : i / 16 = j / 16 := by
  rw [Mount.dirSize] at hi hj
  rw [Mount.dirSectOf, Mount.dirSectOf] at h
  by_cases hl : l = []
  · rw [if_pos hl, if_pos hl] at h
    exact Nat.add_left_cancel h
  · rw [if_neg hl, Nat.mul_assoc] at hi hj
    rw [if_neg hl, if_neg hl] at h
    have hch : Chain (link fs) sclust l := hd.resolve_left fun hand => hl hand.2.1
    have hcomm := Nat.mul_comm fs.csize l.length
    exact sectorOf_injective hv hd.cluster hch.nodup (by omega) (by omega) h

theorem slotOf_apart (hv : fs.Valid) (hd : Directory fs sclust l) (hi : i < fs.dirSize l)
    (hj : j < fs.dirSize l) (hne : j ≠ i) (hk : k < 32) :
    ¬(fs.slotOf l i ≤ fs.slotOf l j + k ∧ fs.slotOf l j + k < fs.slotOf l i + 32) := by
  intro hin
  rw [Mount.slotOf, Mount.slotOf] at hin
  have hsect : fs.dirSectOf l i = fs.dirSectOf l j := by omega
  have hdiv := dirSectOf_injective hv hd hi hj hsect
  omega

/-- A directory that is stretched keeps its entries. -/
theorem slotOf_append (hl : l ≠ []) (hj : j < fs.dirSize l) :
    fs.slotOf (l ++ [c]) j = fs.slotOf l j := by
  have hl' : l ++ [c] ≠ [] := List.append_ne_nil_of_left_ne_nil hl _
  rw [Mount.dirSize, if_neg hl, Nat.mul_assoc] at hj
  have hq : j / 16 / fs.csize < l.length := Nat.div_lt_of_lt_mul (by omega)
  rw [Mount.slotOf, Mount.slotOf, Mount.dirSectOf, Mount.dirSectOf, if_neg hl, if_neg hl',
    Mount.sectorOf, Mount.sectorOf, List.getD_append _ _ _ _ hq]

/-- An entry is neither in the FAT nor in a free cluster. -/
theorem slotOf_outside (hv : fs.Valid) (hr : fs.RootValid) (hd : Directory fs sclust l)
    (hj : j < fs.dirSize l) (hk : k < 32) (hl : l ≠ []) (hc : Free fs c) :
    ¬fs.InFat (fs.slotOf l j + k) ∧ ¬fs.InCluster c (fs.slotOf l j + k) := by
  obtain ⟨-, hbase, -⟩ := dirSectOf_plain hv hr hd hj
  have hsect : (fs.slotOf l j + k) / 512 = fs.dirSectOf l j := by
    rw [Mount.slotOf]
    omega
  have hch : Chain (link fs) sclust l := hd.resolve_left fun hand => hl hand.2.1
  rw [Mount.InFat, Mount.InCluster, hsect]
  refine ⟨fun hfat => absurd hfat.2 (not_lt.mpr hbase), fun hin => ?_⟩
  rw [Mount.dirSize, if_neg hl, Nat.mul_assoc] at hj
  have hcomm := Nat.mul_comm fs.csize l.length
  obtain ⟨hclu, hmem⟩ := clusterOf_sectorOf (q := j / 16) hv hd.cluster (by omega)
  have hc' := hin.2
  rw [Mount.dirSectOf, if_neg hl, hclu] at hc'
  rw [hc'] at hmem
  exact hch.not_free hmem hc.link

/-! ## What is stored -/

theorem Vacant.size (h : Vacant fs fs1 sclust l l' i) (hd : Directory fs sclust l) :
    fs.dirSize l ≤ fs.dirSize l' ∧ (∀ j < i, j < fs.dirReach l) ∧ l <+: l' := by
  have hreach := h.reach
  rcases h.grown with ⟨rfl, -⟩ | ⟨hi, clust, hmem, c, rfl, -⟩
  · exact ⟨le_refl _, fun j hj => hj.trans hreach, List.prefix_refl _⟩
  · have hl : l ≠ [] := List.ne_nil_of_mem hmem
    refine ⟨?_, fun j hj => ?_, List.prefix_append _ _⟩
    · rw [Mount.dirSize, Mount.dirSize, if_neg hl,
        if_neg (List.append_ne_nil_of_left_ne_nil hl _), List.length_append]
      exact Nat.mul_le_mul_left _ (Nat.le_add_right _ _)
    · rw [Mount.dirReach] at hreach ⊢
      omega

/-- The search for a blank entry keeps all entries. -/
theorem Vacant.entry (h : Vacant fs fs1 sclust l l' i) (hv : fs.Valid) (hr : fs.RootValid)
    (hd : Directory fs sclust l) (hj : j < fs.dirSize l) (hk : k < 32) :
    fs.slotOf l' j = fs.slotOf l j ∧
      volume fs1 (fs.slotOf l j + k) = volume fs (fs.slotOf l j + k) := by
  rcases h.grown with ⟨rfl, hm⟩ | ⟨-, clust, hmem, c, rfl, hst⟩
  · exact ⟨rfl, congrFun hm.volume _⟩
  · have hl : l ≠ [] := List.ne_nil_of_mem hmem
    obtain ⟨hfat, hclu⟩ := slotOf_outside hv hr hd hj hk hl hst.free
    exact ⟨slotOf_append hl hj, hst.kept _ hfat hclu⟩

/-- All other entries are kept. -/
theorem Registered.entry (h : Registered fs fs2 dj l l' i) (hv : fs.Valid) (hr : fs.RootValid)
    (hd : Directory fs dj.sclust l) (hj : j < fs.dirSize l) (hne : j ≠ i) (hk : k < 32) :
    volume fs2 (fs.slotOf l' j + k) = volume fs (fs.slotOf l j + k) := by
  obtain ⟨fs1, hvac, hed⟩ := h.vacant
  obtain ⟨hslot, hkeep⟩ := hvac.entry hv hr hd hj hk
  obtain ⟨hmount, -, -⟩ := hvac.mount
  have hi : i < fs.dirSize l' := lt_of_lt_of_le hvac.reach (Nat.min_le_left _ _)
  have hj' : j < fs.dirSize l' := lt_of_lt_of_le hj (hvac.size hd).1
  have hapart := @slotOf_apart fs1 l' i j k dj.sclust (hmount ▸ hv) hvac.directory
    (hmount ▸ hi) (hmount ▸ hj') hne hk
  rw [hmount] at hapart
  rw [hed.other _ hapart, hslot, hkeep]

theorem registered_of_ok (hw : WinOk fs) (hv : fs.Valid) (hr : fs.RootValid)
    (hd : Directory fs dj.sclust l) (hok : (dirRegister dj fs).1 = .ok) :
    ∃ l' i, Registered fs (dirRegister dj fs).2.2 dj l l' i ∧
      AtEntry (dirRegister dj fs).2.1 fs l' i := by
  rcases (dirRegister_spec hw hv hr hd).2.1 with ⟨-, h⟩ | ⟨h, -⟩ | ⟨h, -⟩ | ⟨h, -⟩ | ⟨h, -⟩
  · exact h
  · cases hok.symm.trans h
  · cases hok.symm.trans h
  · cases hok.symm.trans h
  · cases hok.symm.trans h

theorem Registered.directory (h : Registered fs fs2 dj l l' i) (hv : fs.Valid) (hr : fs.RootValid) :
    WinOk fs2 ∧ fs2.toMount = fs.toMount ∧ fs2.drive.served = fs.drive.served ∧
      Directory fs2 dj.sclust l' := by
  obtain ⟨fs1, hvac, hed⟩ := h.vacant
  obtain ⟨hmount, hserved, -⟩ := hvac.mount
  have hi : i < fs.dirSize l' := lt_of_lt_of_le hvac.reach (Nat.min_le_left _ _)
  have hv1 : fs1.Valid := hmount ▸ hv
  obtain ⟨-, hbase, -⟩ := dirSectOf_plain hv1 (hmount ▸ hr) hvac.directory (i := i) (hmount ▸ hi)
  have hlink : link fs2 = link fs1 := by
    refine hed.link hv1 fun x h1 h2 hfat => absurd hfat.2 (not_lt.mpr ?_)
    rw [← hmount, Mount.slotOf] at h1 h2
    omega
  refine ⟨hed.winOk, hed.mount.trans hmount, hed.served.trans hserved, ?_⟩
  rw [Directory, hlink, hed.mount]
  exact hvac.directory

/-! ## What is found -/

theorem named_congr {m m' : Mem} {a a' : ℕ} (h : ∀ k < 32, m' (a' + k) = m (a + k)) :
    (Named m' a' fn ↔ Named m a fn) ∧ (EndMark m' a' ↔ EndMark m a) := by
  have h0 : m' a' = m a := h 0 (by decide)
  have hname : (∀ k < 11, m' (a' + k) = fn k) ↔ ∀ k < 11, m (a + k) = fn k :=
    forall₂_congr fun k hk => by rw [h k (by omega)]
  rw [Named, Named, EndMark, EndMark, h0, h dirAttr (by decide), hname]
  exact ⟨Iff.rfl, Iff.rfl⟩

theorem passed_congr {m m' : Mem} {a a' : ℕ} (h : ∀ k < 32, m' (a' + k) = m (a + k)) :
    Passed m' a' fn ↔ Passed m a fn := by
  obtain ⟨hn, he⟩ := @named_congr fn m m' a a' h
  rw [Passed, Passed, hn, he]

theorem Searched.found {r : FResult × Dir × Fatfs} (h : Searched fs dj l r)
    (hf : Finds fs l dj.fn i) : r.1 = .ok ∧ AtEntry r.2.1 fs l i ∨ r.1 = .diskErr := by
  rcases h.result with ⟨hok, j, hj, hat, -⟩ | ⟨-, n, hn, hp, hend⟩ | herr
  · rcases Nat.lt_trichotomy i j with hlt | rfl | hgt
    · exact absurd hf.named (hj.first i hlt).2
    · exact Or.inl ⟨hok, hat⟩
    · exact absurd hj.named (hf.first j hgt).2
  · have hreach := hf.reach
    rcases Nat.lt_or_ge i n with hlt | hge
    · exact absurd hf.named (hp i hlt).2
    · rcases hend with rfl | hend
      · exact absurd hreach (not_lt.mpr hge)
      · rcases Nat.eq_or_lt_of_le hge with rfl | hlt
        · exact absurd hend hf.used
        · exact absurd hend (hf.first n hlt).1
  · exact Or.inr herr

/-- The new entry is the first one with its name. -/
theorem Registered.finds (h : Registered fs fs2 dj l l' i) (hv : fs.Valid) (hr : fs.RootValid)
    (hd : Directory fs dj.sclust l) (hn : PlainName dj.fn) (ha : Absent fs l dj.fn) :
    Finds fs2 l' dj.fn i := by
  obtain ⟨fs1, hvac, -⟩ := id h.vacant
  obtain ⟨-, hmount, -, -⟩ := h.directory hv hr
  obtain ⟨-, hsize, -⟩ := hvac.size hd
  have hfirst : volume fs2 (fs.slotOf l' i) = dj.fn 0 := h.name 0 (by decide)
  have hattr : volume fs2 (fs.slotOf l' i + dirAttr) = 0#8 :=
    h.clear dirAttr (by decide) (by decide) (by decide)
  refine ⟨?_, ?_, ?_, fun j hj => ?_⟩
  · rw [hmount]
    exact hvac.reach
  · rw [hmount, Named, hfirst, hattr]
    exact ⟨hn.2.1, hn.2.2, by decide, h.name⟩
  · rw [hmount, EndMark, hfirst]
    exact hn.1
  · have hjr := hsize j hj
    have hblank := hvac.first j hjr hj
    rw [hmount, passed_congr fun k hk => h.entry hv hr hd (lt_of_lt_of_le hjr (Nat.min_le_left _ _))
      hj.ne hk]
    refine ⟨fun hend => hblank (Or.inr hend), ?_⟩
    obtain ⟨n, hnr, hp, hend⟩ := ha
    rcases Nat.lt_or_ge j n with hlt | hge
    · exact (hp j hlt).2
    · rcases hend with rfl | hend
      · exact absurd hjr (not_lt.mpr hge)
      · exact absurd (Or.inr hend) (hvac.first n (lt_of_le_of_lt hge hjr) (lt_of_le_of_lt hge hj))

/-- A name that was found is found where it was. -/
theorem Registered.keeps (h : Registered fs fs2 dj l l' i) (hv : fs.Valid) (hr : fs.RootValid)
    (hd : Directory fs dj.sclust l) (hn : PlainName dj.fn) (hf : Finds fs l fn j)
    (hother : ¬∀ k < 11, fn k = dj.fn k) : Finds fs2 l' fn j ∧ fs.slotOf l' j = fs.slotOf l j := by
  obtain ⟨fs1, hvac, -⟩ := id h.vacant
  obtain ⟨-, hmount, -, -⟩ := h.directory hv hr
  obtain ⟨hsize, -, -⟩ := hvac.size hd
  have hreach := hf.reach
  have hin : ∀ n ≤ j, n < fs.dirSize l := fun n hn => by
    rw [Mount.dirReach] at hreach
    omega
  have hne : j ≠ i := by
    rintro rfl
    obtain ⟨hslot, hbyte⟩ := hvac.entry hv hr hd (hin j (le_refl _)) (k := 0) (by decide)
    have hblank := hvac.blank
    rw [hslot, Blank, show volume fs1 (fs.slotOf l j) = volume fs (fs.slotOf l j) from hbyte] at hblank
    exact hblank.elim hf.named.1 hf.used
  have hsame : ∀ n ≤ j, n ≠ i → ∀ k < 32,
      volume fs2 (fs.slotOf l' n + k) = volume fs (fs.slotOf l n + k) :=
    fun n hn hni k hk => h.entry hv hr hd (hin n hn) hni hk
  obtain ⟨hnamed, hend⟩ := @named_congr fn _ _ _ _ (hsame j (le_refl _) hne)
  refine ⟨⟨?_, ?_, ?_, fun n hn' => ?_⟩,
    (hvac.entry hv hr hd (hin j (le_refl _)) (k := 0) (by decide)).1⟩
  · rw [hmount]
    rw [Mount.dirReach] at hreach ⊢
    omega
  · rw [hmount]
    exact hnamed.mpr hf.named
  · rw [hmount]
    exact fun he => hf.used (hend.mp he)
  · rw [hmount]
    by_cases hni : n = i
    · subst hni
      have hfirst : volume fs2 (fs.slotOf l' n) = dj.fn 0 := h.name 0 (by decide)
      refine ⟨fun he => hn.1 (hfirst.symm.trans he), fun hnm => hother fun k hk => ?_⟩
      rw [← hnm.2.2.2 k hk, h.name k hk]
    · exact (passed_congr (hsame n hn'.le hni)).mpr (hf.first n hn')

theorem Finds.moved (hm : Moved fs fs1) (h : Finds fs l fn i) : Finds fs1 l fn i := by
  obtain ⟨h1, h2, h3, h4⟩ := h
  rw [← hm.mount] at h1
  rw [← hm.volume, ← hm.mount] at h2 h3 h4
  exact ⟨h1, h2, h3, h4⟩

theorem Absent.moved (hm : Moved fs fs1) (h : Absent fs l fn) : Absent fs1 l fn := by
  rw [Absent, ← hm.volume, ← hm.mount] at h
  exact h

theorem Finds.congr {fn' : Mem} (hfn : ∀ k < 11, fn' k = fn k) (h : Finds fs l fn i) :
    Finds fs l fn' i := by
  have hnamed : ∀ a, Named (volume fs) a fn' ↔ Named (volume fs) a fn := fun a => by
    rw [Named, Named, forall₂_congr fun k hk => by rw [hfn k hk]]
  exact ⟨h.reach, (hnamed _).mpr h.named, h.used, fun j hj =>
    ⟨(h.first j hj).1, fun hnm => (h.first j hj).2 ((hnamed _).mp hnm)⟩⟩

/-- Two searches end at the same entry. -/
def SamePlace (r r' : FResult × Dir × Fatfs) : Prop :=
  r.2.1.sect = r'.2.1.sect ∧ r.2.1.dir = r'.2.1.dir

theorem AtEntry.of_mount (hm : fs1.toMount = fs.toMount) (h : AtEntry dj fs1 l i) :
    AtEntry dj fs l i := by
  obtain ⟨h1, h2, h3, h4⟩ := h
  rw [hm] at h2 h4
  exact ⟨h1, h2, h3, h4⟩

theorem absent_of_noFile (hfind : Searched fs dj l (dirFind dj fs))
    (hno : (dirFind dj fs).1 = .noFile) : Absent fs l dj.fn := by
  rcases hfind.result with ⟨hres, -⟩ | ⟨-, ha⟩ | hres
  · cases hno.symm.trans hres
  · exact ha
  · cases hno.symm.trans hres

/-- Searches of a directory in which a name that was not found is stored. -/
theorem Registered.lookup (hw : WinOk fs) (hv : fs.Valid) (hr : fs.RootValid)
    (hd : Directory fs dj.sclust l) (hn : PlainName dj.fn) (hno : (dirFind dj fs).1 = .noFile)
    (hreg : Registered (dirFind dj fs).2.2 fs2 (dirFind dj fs).2.1 l l' i)
    (hdj' : dj'.sclust = dj.sclust) :
    let r := dirFind dj' fs2
    ((∀ k < 11, dj'.fn k = dj.fn k) → r.1 = .ok ∧ AtEntry r.2.1 fs l' i ∨ r.1 = .diskErr) ∧
      ((dirFind dj' fs).1 = .ok → r.1 = .ok ∧ SamePlace r (dirFind dj' fs) ∨ r.1 = .diskErr) ∧
      (Reliable fs → r.1 ≠ .diskErr) := by
  have hfind := dirFind_spec hw hv hr hd
  have hm : Moved fs (dirFind dj fs).2.2 := hfind.moved
  have hsame : SameDir dj (dirFind dj fs).2.1 := hfind.same
  have hv1 : (dirFind dj fs).2.2.Valid := hm.mount ▸ hv
  have hr1 : (dirFind dj fs).2.2.RootValid := hm.mount ▸ hr
  have hd1 := hm.directory hd
  rw [← hsame.sclust] at hd1
  have hn1 : PlainName (dirFind dj fs).2.1.fn := hsame.fn ▸ hn
  obtain ⟨hw2, hmount, hserved, hd2⟩ := hreg.directory hv1 hr1
  rw [hsame.sclust] at hd2
  have hfind' := dirFind_spec hw2 (hmount ▸ hv1) (hmount ▸ hr1) (hdj'.symm ▸ hd2)
  refine ⟨fun hfn => ?_, fun hbefore => ?_, fun hrel => hfind'.reliable fun n => ?_⟩
  · -- the new name
    have hfinds := hreg.finds hv1 hr1 hd1 hn1 (hsame.fn ▸ (absent_of_noFile hfind hno).moved hm)
    rw [hsame.fn] at hfinds
    exact (hfind'.found (hfinds.congr hfn)).imp_left fun hand =>
      ⟨hand.1, hand.2.of_mount (hmount.trans hm.mount)⟩
  · -- a name that was there
    have hold := dirFind_spec hw hv hr (hdj'.symm ▸ hd)
    obtain ⟨j, hj, hatj⟩ : ∃ j, Finds fs l dj'.fn j ∧ AtEntry (dirFind dj' fs).2.1 fs l j := by
      rcases hold.result with ⟨-, j, hj, hatj, -⟩ | ⟨hres, -⟩ | hres
      · exact ⟨j, hj, hatj⟩
      · cases hbefore.symm.trans hres
      · cases hbefore.symm.trans hres
    have hother : ¬∀ k < 11, dj'.fn k = (dirFind dj fs).2.1.fn k := by
      intro hall
      rw [hsame.fn] at hall
      rcases hfind.found (hj.congr fun k hk => (hall k hk).symm) with ⟨hres, -⟩ | hres
      · cases hno.symm.trans hres
      · cases hno.symm.trans hres
    obtain ⟨hj2, hslot⟩ := hreg.keeps hv1 hr1 hd1 hn1 (hj.moved hm) hother
    refine (hfind'.found hj2).imp_left fun hand => ⟨hand.1, ?_, ?_⟩
    · rw [hm.mount, Mount.slotOf, Mount.slotOf] at hslot
      rw [hand.2.sect, hatj.sect, hmount, hm.mount]
      omega
    · rw [hand.2.dir, hatj.dir]
  · rw [hserved, hm.served]
    exact hrel n

/-- **What was registered is found.**  A name that was not found and then registered is found at its
entry; a name that was found before is found where it was. -/
theorem dirRegister_dirFind (hw : WinOk fs) (hv : fs.Valid) (hr : fs.RootValid)
    (hd : Directory fs dj.sclust l) (hn : PlainName dj.fn) (hno : (dirFind dj fs).1 = .noFile) :
    let r := dirFind dj fs
    let s := dirRegister r.2.1 r.2.2
    s.1 = .ok → (∃ l', l <+: l' ∧ Directory s.2.2 dj.sclust l') ∧
      ∀ dj', dj'.sclust = dj.sclust →
        let r' := dirFind dj' s.2.2
        ((∀ k < 11, dj'.fn k = dj.fn k) → r'.1 = .ok ∧ SamePlace r' s ∨ r'.1 = .diskErr) ∧
          ((dirFind dj' fs).1 = .ok →
            r'.1 = .ok ∧ SamePlace r' (dirFind dj' fs) ∨ r'.1 = .diskErr) ∧
          (Reliable fs → r'.1 ≠ .diskErr) := by
  have hfind := dirFind_spec hw hv hr hd
  intro r s hok
  have hm : Moved fs r.2.2 := hfind.moved
  have hsame : SameDir dj r.2.1 := hfind.same
  have hv1 : r.2.2.Valid := hm.mount ▸ hv
  have hr1 : r.2.2.RootValid := hm.mount ▸ hr
  have hd1 : Directory r.2.2 r.2.1.sclust l := hsame.sclust ▸ hm.directory hd
  obtain ⟨l', i, hreg, hat⟩ := registered_of_ok hm.winOk hv1 hr1 hd1 hok
  obtain ⟨-, -, -, hd2⟩ := hreg.directory hv1 hr1
  rw [hsame.sclust] at hd2
  obtain ⟨fs1, hvac, -⟩ := id hreg.vacant
  refine ⟨⟨l', (hvac.size hd1).2.2, hd2⟩, fun dj' hdj' => ?_⟩
  obtain ⟨hnew, hrest⟩ := Registered.lookup hw hv hr hd hn hno hreg hdj'
  refine ⟨fun hfn => (hnew hfn).imp_left fun hand => ⟨hand.1, ?_, ?_⟩, hrest⟩
  · rw [hand.2.sect, hat.sect, hm.mount]
  · rw [hand.2.dir, hat.dir]

/-- A root directory with one name. -/
def namedVolume : Fatfs :=
  { smallVolume with
    drive := { smallVolume.drive with medium := fill (fun _ => 0#8) (512 * 3) 11 fun _ => 0x41#8 } }

/-- A name that is there, and one that is not. -/
def smallDir (c : Byte) : Dir where
  index := 0
  sclust := 0
  clust := 0
  sect := 0
  dir := none
  fn := fun _ => c

theorem smallVolume_root : smallVolume.RootValid where
  fat32 := by decide
  base := fun _ => by decide
  whole := by decide
  database := Or.inl (by decide)

theorem dirRegister_dirFind_small :
    let r := dirFind (smallDir 0x42#8) namedVolume
    let s := dirRegister r.2.1 r.2.2
    s.1 = .ok ∧ (dirFind (smallDir 0x42#8) s.2.2).1 = .ok ∧
      (dirFind (smallDir 0x41#8) s.2.2).1 = .ok := by
  have hw : WinOk namedVolume :=
    ⟨smallVolume_valid.fatsFit, fun _ => rfl, fun h => absurd rfl h, fun _ h => absurd rfl h⟩
  have hroot : Directory namedVolume 0 [] := Or.inl ⟨rfl, rfl, by decide, by decide⟩
  have hno : (dirFind (smallDir 0x42#8) namedVolume).1 = .noFile := by decide
  have hold : (dirFind (smallDir 0x41#8) namedVolume).1 = .ok := by decide
  intro r s
  have hok : s.1 = .ok := by decide
  obtain ⟨-, hfound⟩ := dirRegister_dirFind hw smallVolume_valid smallVolume_root hroot (by decide)
    hno hok
  obtain ⟨hnew, -, hrel⟩ := hfound (smallDir 0x42#8) rfl
  obtain ⟨-, hkept, hrel'⟩ := hfound (smallDir 0x41#8) rfl
  exact ⟨hok, ((hnew fun _ _ => rfl).resolve_right (hrel fun _ => le_refl 255)).1,
    ((hkept hold).resolve_right (hrel' fun _ => le_refl 255)).1⟩

end Lookup

end VwiiNandTools.Ff
