import VwiiNandTools.Armboot.Elfloader.Loadelf

/-!
# The boot image

`makebin.py` puts a header, the loader and an ELF file into one image, and `_main` of
`elfloader/stub.c` finds the ELF file in it from two fields of the header.  `makebin_layout` says
they agree: the image has the loader's length that its header states, whatever the loader file has
behind its header.  So an image is a loader file again, and `makebin_repack` replaces its ELF file.
`main_loads` puts this together with the loader: what `_main` starts is the ELF file.
-/

namespace VwiiNandTools.Elf

open ByteMemory (Byte)
open WordMemory

/-! ## `makebin.py` -/

/-- `struct.pack(">I", n)` for an `n` that fits. -/
def pack32 (n : ℕ) : List Byte :=
  [BitVec.ofNat 8 (n / 2 ^ 24), BitVec.ofNat 8 (n / 2 ^ 16), BitVec.ofNat 8 (n / 2 ^ 8),
    BitVec.ofNat 8 n]

/-- The field at offset `o` as `struct.unpack` reads it. -/
def unpack32 (data : List Byte) (o : ℕ) : ℕ :=
  (data.getD o 0#8).toNat * 2 ^ 24 + (data.getD (o + 1) 0#8).toNat * 2 ^ 16 +
    (data.getD (o + 2) 0#8).toNat * 2 ^ 8 + (data.getD (o + 3) 0#8).toNat

/-- `"%x" % n`. -/
def hex (n : ℕ) : String := String.ofList (Nat.toDigits 16 n)

/-- How the script ends without an image: an exception of `struct`, or `sys.exit(1)` after what it
printed. -/
inductive Failure
  | structError
  | exit (printed : List String)

structure Output where
  printed : List String
  file : List Byte

def makebin (data elf : List Byte) : Except Failure Output :=
  if data.length < 16 then .error .structError
  else
    let hdrlen := unpack32 data 0
    let loaderlen := unpack32 data 4
    let elflen := unpack32 data 8
    if hdrlen < 0x10 then
      .error (.exit ["ERROR: header length is 0x" ++ hex hdrlen ++ ", expected at least 0x10"])
    else
      let loaderoff := hdrlen
      let elfoff := loaderoff + loaderlen
      let hdr := data.take hdrlen
      let loader := (data.take elfoff).drop loaderoff
      let printed := if elflen > 0 then ["WARNING: loader already contains ELF, will replace"] else []
      let elflen := elf.length
      if loaderlen < loader.length then
        .error (.exit (printed ++ ["ERROR: loader is larger than its reported length"]))
      else
        let (printed, loader) :=
          if loaderlen > loader.length then
            (printed ++ ["Padding loader with 0x" ++ hex (loaderlen - loader.length) ++ " zeroes"],
              loader ++ List.replicate (loaderlen - loader.length) 0#8)
          else (printed, loader)
        if elflen < 2 ^ 32 then
          .ok
            { printed := printed ++
                ["Header: 0x" ++ hex hdrlen ++ " bytes", "Loader: 0x" ++ hex loaderlen ++ " bytes",
                  "ELF:    0x" ++ hex elflen ++ " bytes"]
              file := pack32 hdrlen ++ pack32 loaderlen ++ pack32 elflen ++ pack32 0 ++ hdr.drop 16 ++
                loader ++ elf }
        else .error .structError

/-! ## `_main` -/

section Ioshdr

variable (m : Mem32) (base : Addr)

def hdrsize : BitVec 32 := be32 m base
def loadersize : BitVec 32 := be32 m (base + 4#32)
def elfsize : BitVec 32 := be32 m (base + 8#32)

/-- Where `_main` looks for the ELF file. -/
def mainElf : Addr := base + (hdrsize m base + loadersize m base)

/-- `_main`, without the registers it sets and the codes it shows. -/
def main : Except (BitVec 8) Loaded := loadelf m (mainElf m base)

end Ioshdr

/-! ## What they agree on -/

/-- A file lies in memory at `base`. -/
def At (m : Mem32) (base : Addr) (file : List Byte) : Prop :=
  ∀ k < file.length, m (base + BitVec.ofNat 32 k) = file.getD k 0#8

/-- The layout of an image of the loader file `data` and `elf`, with the two lengths of its header,
and what `_main` finds when it is in memory. -/
structure Layout (data elf file : List Byte) (hdrlen loaderlen : ℕ) : Prop where
  size : file.length = hdrlen + loaderlen + elf.length
  lengths : unpack32 file 0 = hdrlen ∧ unpack32 file 4 = loaderlen ∧ unpack32 file 8 = elf.length
  header : ∀ j, 16 ≤ j → j < hdrlen → file.getD j 0#8 = data.getD j 0#8
  loader : ∀ k < loaderlen, file.getD (hdrlen + k) 0#8 = data.getD (hdrlen + k) 0#8
  payload : file.drop (hdrlen + loaderlen) = elf
  stub : ∀ m base, At m base file →
    mainElf m base = base + BitVec.ofNat 32 (hdrlen + loaderlen) ∧
      (elfsize m base).toNat = elf.length ∧
      ∀ k < elf.length, m (mainElf m base + BitVec.ofNat 32 k) = elf.getD k 0#8

/-! ## Fields -/

theorem unpack32_lt (data : List Byte) (o : ℕ) : unpack32 data o < 2 ^ 32 := by
  have h0 := (data.getD o 0#8).isLt
  have h1 := (data.getD (o + 1) 0#8).isLt
  have h2 := (data.getD (o + 2) 0#8).isLt
  have h3 := (data.getD (o + 3) 0#8).isLt
  rw [unpack32]
  omega

@[simp] theorem length_pack32 (n : ℕ) : (pack32 n).length = 4 := rfl

theorem unpack32_pack32 {n : ℕ} (h : n < 2 ^ 32) (rest : List Byte) :
    unpack32 (pack32 n ++ rest) 0 = n := by
  simp only [unpack32, pack32, List.cons_append, List.getD_cons_zero, List.getD_cons_succ,
    BitVec.toNat_ofNat]
  omega

theorem getD_append_length (bs data : List Byte) (j : ℕ) :
    (bs ++ data).getD (bs.length + j) 0#8 = data.getD j 0#8 := by
  rw [List.getD_append_right _ _ _ _ (Nat.le_add_right _ _), Nat.add_sub_cancel_left]

theorem unpack32_append (bs data : List Byte) (o : ℕ) :
    unpack32 (bs ++ data) (bs.length + o) = unpack32 data o := by
  simp only [unpack32, Nat.add_assoc, getD_append_length]

theorem unpack32_header {a b c d : ℕ} (ha : a < 2 ^ 32) (hb : b < 2 ^ 32) (hc : c < 2 ^ 32)
    (rest : List Byte) :
    unpack32 (pack32 a ++ (pack32 b ++ (pack32 c ++ (pack32 d ++ rest)))) 0 = a ∧
      unpack32 (pack32 a ++ (pack32 b ++ (pack32 c ++ (pack32 d ++ rest)))) 4 = b ∧
      unpack32 (pack32 a ++ (pack32 b ++ (pack32 c ++ (pack32 d ++ rest)))) 8 = c := by
  have h4 := unpack32_append (pack32 a) (pack32 b ++ (pack32 c ++ (pack32 d ++ rest))) 0
  have h8 := unpack32_append (pack32 a ++ pack32 b) (pack32 c ++ (pack32 d ++ rest)) 0
  rw [length_pack32, Nat.add_zero, unpack32_pack32 hb] at h4
  rw [List.length_append, length_pack32, length_pack32, Nat.add_zero, unpack32_pack32 hc,
    List.append_assoc] at h8
  exact ⟨unpack32_pack32 ha _, h4, h8⟩

theorem be32_toNat (m : Mem32) (a : Addr) :
    (be32 m a).toNat = (m a).toNat * 2 ^ 24 + (m (a + 1#32)).toNat * 2 ^ 16 +
      (m (a + 2#32)).toNat * 2 ^ 8 + (m (a + 3#32)).toNat := by
  have happ : be32 m a = m a ++ m (a + 1#32) ++ m (a + 2#32) ++ m (a + 3#32) := by
    apply BitVec.eq_of_getLsbD_eq
    intro i hi
    simp only [be32, BitVec.getLsbD_append, BitVec.getLsbD_or, BitVec.getLsbD_shiftLeft,
      BitVec.getLsbD_setWidth]
    interval_cases i <;> simp
  have h1 := (m (a + 1#32)).isLt
  have h2 := (m (a + 2#32)).isLt
  have h3 := (m (a + 3#32)).isLt
  rw [happ, BitVec.toNat_append, BitVec.toNat_append, BitVec.toNat_append,
    ← Nat.shiftLeft_add_eq_or_of_lt h1, ← Nat.shiftLeft_add_eq_or_of_lt h2,
    ← Nat.shiftLeft_add_eq_or_of_lt h3]
  simp only [Nat.shiftLeft_eq]
  omega

theorem At.field {m : Mem32} {base : Addr} {file : List Byte} (h : At m base file) {o : ℕ}
    (ho : o + 4 ≤ file.length) : (be32 m (base + BitVec.ofNat 32 o)).toNat = unpack32 file o := by
  have hbyte (k : ℕ) (hk : k < 4) :
      m (base + BitVec.ofNat 32 o + BitVec.ofNat 32 k) = file.getD (o + k) 0#8 := by
    rw [BitVec.add_assoc, ← BitVec.ofNat_add]
    exact h _ (by omega)
  have h0 := hbyte 0 (by decide)
  rw [BitVec.add_zero, Nat.add_zero] at h0
  rw [be32_toNat, unpack32, h0]
  exact congrArg₂ _ (congrArg₂ _ (congrArg₂ _ rfl (by rw [hbyte 1 (by decide)]))
    (by rw [hbyte 2 (by decide)])) (by rw [hbyte 3 (by decide)])

/-! ## The image -/

section Image

variable {data elf : List Byte}

/-- The header of the image, with the rest of the loader file's header behind its four fields. -/
def imageHeader (data elf : List Byte) : List Byte :=
  pack32 (unpack32 data 0) ++ (pack32 (unpack32 data 4) ++ (pack32 elf.length ++
    (pack32 0 ++ (data.take (unpack32 data 0)).drop 16)))

/-- The loader of the image, padded with zeroes. -/
def imageLoader (data : List Byte) : List Byte :=
  let loader := (data.take (unpack32 data 0 + unpack32 data 4)).drop (unpack32 data 0)
  loader ++ List.replicate (unpack32 data 4 - loader.length) 0#8

/-- The three parts of the image. -/
def image (data elf : List Byte) : List Byte := imageHeader data elf ++ (imageLoader data ++ elf)

/-- The slice is never longer than the length it is cut to, so the second error does not occur. -/
theorem length_slice_le (data : List Byte) (off len : ℕ) :
    ((data.take (off + len)).drop off).length ≤ len := by
  rw [List.length_drop, List.length_take]
  omega

theorem length_imageHeader (hhdr : 16 ≤ unpack32 data 0) (hwhole : unpack32 data 0 ≤ data.length) :
    (imageHeader data elf).length = unpack32 data 0 := by
  simp only [imageHeader, List.length_append, length_pack32, List.length_drop, List.length_take]
  omega

theorem length_imageLoader (data : List Byte) : (imageLoader data).length = unpack32 data 4 := by
  have hle := length_slice_le data (unpack32 data 0) (unpack32 data 4)
  simp only [imageLoader, List.length_append, List.length_replicate]
  omega

/-- The image that is written. -/
theorem makebin_file (h16 : 16 ≤ data.length) (hhdr : 16 ≤ unpack32 data 0)
    (helf : elf.length < 2 ^ 32) : ∃ out, makebin data elf = .ok out ∧
      out.file = image data elf := by
  have hle := length_slice_le data (unpack32 data 0) (unpack32 data 4)
  rw [makebin, if_neg (not_lt.mpr h16), if_neg (not_lt.mpr hhdr), if_neg (not_lt.mpr hle)]
  by_cases hpad : unpack32 data 4 >
      ((data.take (unpack32 data 0 + unpack32 data 4)).drop (unpack32 data 0)).length
  · rw [if_pos hpad]
    simp only [if_pos helf]
    refine ⟨_, rfl, ?_⟩
    simp only [image, imageHeader, imageLoader, List.append_assoc]
  · rw [if_neg hpad]
    simp only [if_pos helf]
    refine ⟨_, rfl, ?_⟩
    have hzero : unpack32 data 4 -
        ((data.take (unpack32 data 0 + unpack32 data 4)).drop (unpack32 data 0)).length = 0 := by
      omega
    simp only [image, imageHeader, imageLoader, hzero, List.replicate_zero, List.append_nil,
      List.append_assoc]

theorem makebin_tooLong (h16 : 16 ≤ data.length) (hhdr : 16 ≤ unpack32 data 0)
    (helf : 2 ^ 32 ≤ elf.length) : makebin data elf = .error .structError := by
  have hle := length_slice_le data (unpack32 data 0) (unpack32 data 4)
  rw [makebin, if_neg (not_lt.mpr h16), if_neg (not_lt.mpr hhdr), if_neg (not_lt.mpr hle)]
  by_cases hpad : unpack32 data 4 >
      ((data.take (unpack32 data 0 + unpack32 data 4)).drop (unpack32 data 0)).length
  · rw [if_pos hpad]
    simp only [if_neg (not_lt.mpr helf)]
  · rw [if_neg hpad]
    simp only [if_neg (not_lt.mpr helf)]

/-- What the script has checked when it writes an image. -/
theorem of_makebin_ok {out : Output} (h : makebin data elf = .ok out) :
    16 ≤ data.length ∧ 16 ≤ unpack32 data 0 ∧ elf.length < 2 ^ 32 ∧
      out.file = image data elf := by
  have h16 : 16 ≤ data.length := by
    by_contra hlt
    rw [makebin, if_pos (not_le.mp hlt)] at h
    cases h
  have hhdr : 16 ≤ unpack32 data 0 := by
    by_contra hlt
    rw [makebin, if_neg (not_lt.mpr h16), if_pos (not_le.mp hlt)] at h
    cases h
  have helf : elf.length < 2 ^ 32 := by
    by_contra hlt
    rw [makebin_tooLong h16 hhdr (not_lt.mp hlt)] at h
    cases h
  obtain ⟨out', hok, hfile⟩ := makebin_file h16 hhdr helf
  rw [h, Except.ok.injEq] at hok
  exact ⟨h16, hhdr, helf, hok ▸ hfile⟩

theorem unpack32_image (data : List Byte) (helf : elf.length < 2 ^ 32) :
    unpack32 (image data elf) 0 = unpack32 data 0 ∧
      unpack32 (image data elf) 4 = unpack32 data 4 ∧
      unpack32 (image data elf) 8 = elf.length := by
  simp only [image, imageHeader, List.append_assoc]
  exact unpack32_header (unpack32_lt data 0) (unpack32_lt data 4) helf _

theorem imageHeader_getD {j : ℕ} (h16 : 16 ≤ j) (hj : j < unpack32 data 0) :
    (imageHeader data elf).getD j 0#8 = data.getD j 0#8 := by
  obtain ⟨k, rfl⟩ := Nat.exists_eq_add_of_le h16
  have hpacked := getD_append_length (pack32 (unpack32 data 0) ++ pack32 (unpack32 data 4) ++
    pack32 elf.length ++ pack32 0) ((data.take (unpack32 data 0)).drop 16) k
  simp only [List.append_assoc, List.length_append, length_pack32] at hpacked
  rw [imageHeader, hpacked, List.getD_eq_getElem?_getD, List.getElem?_drop,
    List.getElem?_take_of_lt hj, List.getD_eq_getElem?_getD]

theorem imageLoader_getD {k : ℕ} (hk : k < unpack32 data 4) :
    (imageLoader data).getD k 0#8 = data.getD (unpack32 data 0 + k) 0#8 := by
  have hlen : ((data.take (unpack32 data 0 + unpack32 data 4)).drop (unpack32 data 0)).length =
      min (unpack32 data 0 + unpack32 data 4) data.length - unpack32 data 0 := by
    rw [List.length_drop, List.length_take]
  simp only [imageLoader, List.getD_eq_getElem?_getD]
  by_cases hin : unpack32 data 0 + k < data.length
  · rw [List.getElem?_append_left (by omega), List.getElem?_drop,
      List.getElem?_take_of_lt (by omega)]
  · -- behind the end of the loader file
    rw [List.getElem?_append_right (by omega), List.getElem?_replicate_of_lt (by omega),
      List.getElem?_eq_none (by omega)]
    rfl

section Whole

variable (hhdr : 16 ≤ unpack32 data 0) (hwhole : unpack32 data 0 ≤ data.length)
include hhdr hwhole

theorem length_image :
    (image data elf).length = unpack32 data 0 + unpack32 data 4 + elf.length := by
  have hlenH : (imageHeader data elf).length = unpack32 data 0 := length_imageHeader hhdr hwhole
  rw [image, List.length_append, List.length_append, hlenH, length_imageLoader, Nat.add_assoc]

theorem drop_image : (image data elf).drop (unpack32 data 0 + unpack32 data 4) = elf := by
  have hlenH : (imageHeader data elf).length = unpack32 data 0 := length_imageHeader hhdr hwhole
  rw [image, ← List.append_assoc]
  exact List.drop_left' (by rw [List.length_append, hlenH, length_imageLoader])

variable {m : Mem32} {base : Addr} (hat : At m base (image data elf))
include hat

theorem at_payload : At m (base + BitVec.ofNat 32 (unpack32 data 0 + unpack32 data 4)) elf := by
  have hlen : (image data elf).length = unpack32 data 0 + unpack32 data 4 + elf.length :=
    length_image hhdr hwhole
  have hdrop : (image data elf).drop (unpack32 data 0 + unpack32 data 4) = elf :=
    drop_image hhdr hwhole
  intro k hk
  have hget : elf.getD k 0#8 =
      (image data elf).getD (unpack32 data 0 + unpack32 data 4 + k) 0#8 := by
    conv_lhs => rw [← hdrop]
    rw [List.getD_eq_getElem?_getD, List.getElem?_drop, List.getD_eq_getElem?_getD]
  rw [BitVec.add_assoc, ← BitVec.ofNat_add, hget]
  exact hat _ (by omega)

theorem mainElf_image (helf : elf.length < 2 ^ 32) :
    mainElf m base = base + BitVec.ofNat 32 (unpack32 data 0 + unpack32 data 4) := by
  have hlen : (image data elf).length = unpack32 data 0 + unpack32 data 4 + elf.length :=
    length_image hhdr hwhole
  obtain ⟨hl0, hl4, -⟩ := unpack32_image data helf
  have hfield {x : BitVec 32} {o : ℕ} (hx : x.toNat = unpack32 data o) :
      x = BitVec.ofNat 32 (unpack32 data o) := by
    rw [← hx, BitVec.ofNat_toNat, BitVec.setWidth_eq]
  have h0 := hat.field (o := 0) (by omega)
  have h4 := hat.field (o := 4) (by omega)
  rw [hl0, BitVec.add_zero] at h0
  rw [hl4] at h4
  rw [mainElf, hdrsize, loadersize, hfield h0, hfield h4, BitVec.ofNat_add]

end Whole

end Image

/-- **The two agree on the layout**: the image that `makebin.py` writes has the layout of the loader
file's header, and `_main` finds the ELF file in it. -/
theorem makebin_layout {data elf : List Byte} (h16 : 16 ≤ data.length)
    (hhdr : 16 ≤ unpack32 data 0) (hwhole : unpack32 data 0 ≤ data.length)
    (helf : elf.length < 2 ^ 32) :
    ∃ out, makebin data elf = .ok out ∧
      Layout data elf out.file (unpack32 data 0) (unpack32 data 4) := by
  obtain ⟨out, hok, hfile⟩ := makebin_file h16 hhdr helf
  refine ⟨out, hok, ?_⟩
  rw [hfile]
  have hlenH : (imageHeader data elf).length = unpack32 data 0 := length_imageHeader hhdr hwhole
  have hlenL := length_imageLoader data
  have hsize : (image data elf).length = unpack32 data 0 + unpack32 data 4 + elf.length :=
    length_image hhdr hwhole
  have hlengths := unpack32_image data helf
  refine ⟨hsize, hlengths, ?_, ?_, drop_image hhdr hwhole, ?_⟩
  · intro j hj16 hj
    rw [image, List.getD_append _ _ _ _ (by omega), imageHeader_getD hj16 hj]
  · intro k hk
    have happ := getD_append_length (imageHeader data elf) (imageLoader data ++ elf) k
    rw [hlenH] at happ
    rw [image, happ, List.getD_append _ _ _ _ (by omega), imageLoader_getD hk]
  · intro m base hat
    have hmain := mainElf_image hhdr hwhole hat helf
    refine ⟨hmain, ?_, ?_⟩
    · have h8 := hat.field (o := 8) (by omega)
      rw [hlengths.2.2] at h8
      exact h8
    · rw [hmain]
      exact at_payload hhdr hwhole hat

/-- A loader file of a header and four bytes, with a loader that is to have eight. -/
def shortLoader : List Byte :=
  pack32 16 ++ pack32 8 ++ pack32 0 ++ pack32 0 ++ [0xe1#8, 0x2f#8, 0xff#8, 0x1e#8]

theorem makebin_layout_short :
    ∃ out, makebin shortLoader smallElf = .ok out ∧
      Layout shortLoader smallElf out.file (unpack32 shortLoader 0) (unpack32 shortLoader 4) :=
  makebin_layout (by decide) (by decide) (by decide) (by decide)

/-! ## The start from an image -/

section Main

variable {data elf : List Byte} {out : Output} {m : Mem32} {base : Addr}

/-- `_main` in an image accepts the ELF file for its identification and its program header table,
and the rest of the image has no part in that. -/
theorem main_ok_iff (h : makebin data elf = .ok out) (hwhole : unpack32 data 0 ≤ data.length)
    (hat : At m base out.file) (hehdr : 52 ≤ elf.length) :
    (∃ r, main m base = .ok r) ↔
      (∀ i < 7, elf.getD i 0#8 = elfIdent.getD i 0#8) ∧ unpack32 elf 28 ≠ 0 := by
  obtain ⟨-, hhdr, helf, hfile⟩ := of_makebin_ok h
  rw [hfile] at hat
  have hpay := at_payload hhdr hwhole hat
  have hphoff : ePhoff m (mainElf m base) = 0#32 ↔ unpack32 elf 28 = 0 := by
    rw [mainElf_image hhdr hwhole hat helf, ← hpay.field (o := 28) (by omega)]
    exact ⟨fun hz => congrArg BitVec.toNat hz, fun hz => BitVec.eq_of_toNat_eq hz⟩
  rw [main, loadelf_ok_iff, Ne, hphoff, mainElf_image hhdr hwhole hat helf]
  refine and_congr_left fun _ => forall₂_congr fun i hi => ?_
  rw [hpay i (by omega)]

/-- **The image starts its ELF file**: `_main` in an image that lies in memory loads the ELF file
behind the header and the loader. -/
theorem main_loads (h : makebin data elf = .ok out) (hwhole : unpack32 data 0 ≤ data.length)
    (hat : At m base out.file)
    (himg : Image m (base + BitVec.ofNat 32 (unpack32 data 0 + unpack32 data 4)) elf.length) :
    ∃ r, main m base = .ok r ∧
      Loads m (base + BitVec.ofNat 32 (unpack32 data 0 + unpack32 data 4)) r := by
  obtain ⟨-, hhdr, helf, hfile⟩ := of_makebin_ok h
  rw [hfile] at hat
  rw [main, mainElf_image hhdr hwhole hat helf]
  exact ⟨_, loadelf_eq himg, (loadSegments_inv himg (le_refl _)).loads⟩

end Main

/-! ## An image as a loader file -/

section Repack

variable {data elf : List Byte}

theorem map_file_makebin (h16 : 16 ≤ data.length) (hhdr : 16 ≤ unpack32 data 0) (elf : List Byte) :
    (makebin data elf).map Output.file =
      if elf.length < 2 ^ 32 then .ok (image data elf) else .error .structError := by
  split
  · next helf =>
    obtain ⟨out, hok, hfile⟩ := makebin_file h16 hhdr helf
    rw [hok, Except.map, hfile]
  · next helf => rw [makebin_tooLong h16 hhdr (not_lt.mp helf), Except.map]

variable (hhdr : 16 ≤ unpack32 data 0) (hwhole : unpack32 data 0 ≤ data.length)
include hhdr hwhole

theorem sixteen_le_length_image (elf : List Byte) : 16 ≤ (image data elf).length := by
  have hlenH : (imageHeader data elf).length = unpack32 data 0 := length_imageHeader hhdr hwhole
  rw [image, List.length_append, hlenH]
  omega

variable (helf : elf.length < 2 ^ 32)
include helf

/-- The header of an image is the one of its loader file, with the length of the new ELF file. -/
theorem imageHeader_image (elf2 : List Byte) :
    imageHeader (image data elf) elf2 = imageHeader data elf2 := by
  obtain ⟨h0, h4, -⟩ := unpack32_image data helf
  have htake : (image data elf).take (unpack32 data 0) = imageHeader data elf :=
    List.take_left' (length_imageHeader hhdr hwhole)
  have hdrop : (imageHeader data elf).drop 16 = (data.take (unpack32 data 0)).drop 16 := by
    rw [imageHeader, ← List.append_assoc, ← List.append_assoc, ← List.append_assoc]
    exact List.drop_left' (by simp only [List.length_append, length_pack32])
  rw [imageHeader, h0, h4, htake, hdrop, imageHeader]

/-- The loader in an image has the length its header states, and none of the old ELF file. -/
theorem imageLoader_image : imageLoader (image data elf) = imageLoader data := by
  obtain ⟨h0, h4, -⟩ := unpack32_image data helf
  have hlenH : (imageHeader data elf).length = unpack32 data 0 := length_imageHeader hhdr hwhole
  have hlenL := length_imageLoader data
  have hslice : ((image data elf).take (unpack32 data 0 + unpack32 data 4)).drop
      (unpack32 data 0) = imageLoader data := by
    rw [image, ← List.append_assoc,
      List.take_left' (by rw [List.length_append, hlenH, hlenL]), List.drop_left' hlenH]
  rw [imageLoader, h0, h4, hslice, hlenL, Nat.sub_self, List.replicate_zero, List.append_nil]

theorem image_image (elf2 : List Byte) : image (image data elf) elf2 = image data elf2 := by
  rw [image, imageHeader_image hhdr hwhole helf, imageLoader_image hhdr hwhole helf, ← image]

end Repack

/-- **Re-packing replaces the payload**: an image can take the place of the loader file it was made
from. -/
theorem makebin_repack {data elf1 : List Byte} {out1 : Output} (h : makebin data elf1 = .ok out1)
    (hwhole : unpack32 data 0 ≤ data.length) (elf2 : List Byte) :
    (makebin out1.file elf2).map Output.file = (makebin data elf2).map Output.file ∧
      (elf2.length < 2 ^ 32 → ∃ out2, makebin out1.file elf2 = .ok out2) ∧
      (makebin out1.file elf1).map Output.file = .ok out1.file := by
  obtain ⟨h16, hhdr, helf, hfile⟩ := of_makebin_ok h
  have h16' := sixteen_le_length_image hhdr hwhole elf1
  have hhdr' : 16 ≤ unpack32 (image data elf1) 0 := by
    rw [(unpack32_image data helf).1]
    exact hhdr
  have himage (elf : List Byte) : image (image data elf1) elf = image data elf :=
    image_image hhdr hwhole helf elf
  rw [hfile]
  refine ⟨?_, ?_, ?_⟩
  · rw [map_file_makebin h16' hhdr', map_file_makebin h16 hhdr, himage]
  · intro helf2
    obtain ⟨out2, hok, -⟩ := makebin_file h16' hhdr' helf2
    exact ⟨out2, hok⟩
  · rw [map_file_makebin h16' hhdr', if_pos helf, himage]

/-- An image with an ELF file that is replaced by a shorter one. -/
theorem makebin_repack_short : ∃ out1, makebin shortLoader smallElf = .ok out1 ∧
    (makebin out1.file [0x7f#8]).map Output.file =
      (makebin shortLoader [0x7f#8]).map Output.file := by
  obtain ⟨out1, hok, -⟩ : ∃ out, makebin shortLoader smallElf = .ok out ∧
      out.file = image shortLoader smallElf :=
    makebin_file (by decide) (by decide) (by decide)
  exact ⟨out1, hok, (makebin_repack hok (by decide) [0x7f#8]).1⟩

end VwiiNandTools.Elf
