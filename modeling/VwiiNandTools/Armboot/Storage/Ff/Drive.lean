import VwiiNandTools.Armboot.Storage.Diskio

/-!
# The drive of FatFs

`ff.c` works on an array of sectors whose accesses may fail at any sector.  `exists_drive` takes it to
`diskio.c`: as long as the transfers reach the sectors of their numbers, a run of `disk_read` and
`disk_write` on the card is the run of the same calls on a drive.  The sectors the calls move, one
after the other, are what that drive serves.
-/

namespace VwiiNandTools.Ff

open ByteMemory
open VwiiNandTools.Diskio (DResult DiskOp DiskRun OwnSectors diskStep)

/-! ## The drive -/

/-- The sectors of the medium, and how many sectors each access serves before it fails; the sector a
write fails at stays as it was. -/
structure Drive where
  medium : Mem
  served : ℕ → ℕ
  accesses : ℕ

/-- `disk_read(drv, buff + dst, sector, count)`. -/
def diskRead (buff : Mem) (dst sector count : ℕ) (d : Drive) : DResult × Mem × Drive :=
  let k := min count (d.served d.accesses)
  (if k < count then .error else .ok,
    fill buff dst (512 * k) fun x => d.medium (512 * sector + x),
    { d with accesses := d.accesses + 1 })

/-- `disk_write(drv, buff, sector, count)`. -/
def diskWrite (buff : ℕ → Byte) (sector count : ℕ) (d : Drive) : DResult × Drive :=
  let k := min count (d.served d.accesses)
  (if k < count then .error else .ok,
    { d with medium := fill d.medium (512 * sector) (512 * k) buff, accesses := d.accesses + 1 })

/-! ## One sector -/

theorem mem_sector {x s : ℕ} : (512 * s ≤ x ∧ x < 512 * s + 512) ↔ x / 512 = s := by omega

theorem diskWrite_one (buff : ℕ → Byte) (d : Drive) (s : ℕ) :
    let r := diskWrite buff s 1 d
    r.2.served = d.served ∧ (∀ x, x / 512 ≠ s → r.2.medium x = d.medium x) ∧
      (r.1 = .ok → ∀ k < 512, r.2.medium (512 * s + k) = buff k) ∧
      (1 ≤ d.served d.accesses → r.1 = .ok) := by
  intro r
  rcases Nat.lt_or_ge (d.served d.accesses) 1 with hlt | hge
  · have hr : r = (.error, { d with medium := fill d.medium (512 * s) (512 * 0) buff,
                                    accesses := d.accesses + 1 }) := by
      simp only [r, diskWrite, Nat.lt_one_iff.mp hlt]
      rfl
    rw [hr]
    exact ⟨rfl, fun x _ => fill_other _ (by omega), by rintro ⟨⟩, fun h => absurd h (by omega)⟩
  · have hr : r = (.ok, { d with medium := fill d.medium (512 * s) (512 * 1) buff,
                                 accesses := d.accesses + 1 }) := by
      simp only [r, diskWrite, Nat.min_eq_left hge, if_neg (lt_irrefl 1)]
    rw [hr]
    refine ⟨rfl, fun x hx => fill_other _ fun hin => hx (mem_sector.mp (by omega)), fun _ k hk => ?_,
      fun _ => rfl⟩
    exact fill_at _ _ _ (by omega)

theorem diskRead_one (buff : Mem) (d : Drive) (s : ℕ) :
    let r := diskRead buff 0 s 1 d
    r.2.2.served = d.served ∧ r.2.2.medium = d.medium ∧ (r.1 = .error → r.2.1 = buff) ∧
      (r.1 = .ok → ∀ k < 512, r.2.1 k = d.medium (512 * s + k)) ∧
      (1 ≤ d.served d.accesses → r.1 = .ok) := by
  intro r
  rcases Nat.lt_or_ge (d.served d.accesses) 1 with hlt | hge
  · have hr : r = (.error, fill buff 0 (512 * 0) fun x => d.medium (512 * s + x),
        { d with accesses := d.accesses + 1 }) := by
      simp only [r, diskRead, Nat.lt_one_iff.mp hlt]
      rfl
    rw [hr]
    have hkeep : fill buff 0 (512 * 0) (fun x => d.medium (512 * s + x)) = buff :=
      funext fun x => fill_other _ (by omega)
    exact ⟨rfl, rfl, fun _ => hkeep, by rintro ⟨⟩, fun h => absurd h (by omega)⟩
  · have hr : r = (.ok, fill buff 0 (512 * 1) fun x => d.medium (512 * s + x),
        { d with accesses := d.accesses + 1 }) := by
      simp only [r, diskRead, Nat.min_eq_left hge, if_neg (lt_irrefl 1)]
    rw [hr]
    refine ⟨rfl, rfl, by rintro ⟨⟩, fun _ k hk => ?_, fun _ => rfl⟩
    have hat := fill_at buff 0 (n := 512 * 1) (fun x => d.medium (512 * s + x)) hk
    rwa [Nat.zero_add] at hat

/-! ## The drive and the card -/

/-- The sectors that a call of `diskio.c` moves. -/
def sectorsMoved (cap : ℕ) (r : DiskRun) : DiskOp → ℕ
  | .read e buff sector count => (Diskio.diskReadLoop cap e buff sector count r.disk).1
  | .write e buff sector count => (Diskio.diskWriteLoop cap e buff sector count r.disk).1

/-- The sectors that a call is to move. -/
def sectorsAsked : DiskOp → ℕ
  | .read _ _ _ count | .write _ _ _ count => count.toNat

/-- The same call on the drive. -/
def driveStep (d : Drive) : DiskOp → Drive
  | .read _ buff sector count => (diskRead buff 0 sector.toNat count.toNat d).2.2
  | .write _ buff sector count => (diskWrite buff sector.toNat count.toNat d).2

/-- A call does the same on the card and on the drive. -/
def Agrees (cap : ℕ) (r : DiskRun) (d : Drive) : DiskOp → Prop
  | .read e buff sector count =>
    let a := Diskio.diskRead cap e buff sector count r.disk
    let b := diskRead buff 0 sector.toNat count.toNat d
    b.1 = a.1 ∧ b.2.2.medium = a.2.2.medium ∧
      (a.1 = .ok → ∀ x < 512 * count.toNat, b.2.1 x = a.2.1 x)
  | .write e buff sector count =>
    let a := Diskio.diskWrite cap e buff sector count r.disk
    let b := diskWrite buff sector.toNat count.toNat d
    b.1 = a.1 ∧ b.2.medium = a.2.medium

/-- What the calls of a run move, as an answer for each access; a call that moves all it is asked for
does not fail, however many that are. -/
def servedBy (cap : ℕ) : DiskRun → List DiskOp → ℕ → ℕ
  | _, [], _ => 255
  | r, op :: _, 0 => if sectorsMoved cap r op = sectorsAsked op then 255 else sectorsMoved cap r op
  | r, op :: ops, n + 1 => servedBy cap (diskStep cap r op) ops n

/-- `P` holds of every call of a run. -/
def Along (cap : ℕ) (P : DiskRun → DiskOp → Prop) : DiskRun → List DiskOp → Prop
  | _, [] => True
  | r, op :: ops => P r op ∧ Along cap P (diskStep cap r op) ops

def RunAgrees (cap : ℕ) : DiskRun → Drive → List DiskOp → Prop
  | _, _, [] => True
  | r, d, op :: ops => Agrees cap r d op ∧ RunAgrees cap (diskStep cap r op) (driveStep d op) ops

/-- A call moves all the sectors it is asked for. -/
def Whole (cap : ℕ) (r : DiskRun) (op : DiskOp) : Prop := sectorsMoved cap r op = sectorsAsked op

section Runs

variable {cap : ℕ} {r : DiskRun} {d : Drive}

theorem driveStep_accesses (d : Drive) (op : DiskOp) :
    (driveStep d op).accesses = d.accesses + 1 ∧ (driveStep d op).served = d.served := by
  cases op <;> exact ⟨rfl, rfl⟩

theorem agrees_of_own {op : DiskOp} (hown : OwnSectors cap r op) (hm : d.medium = r.disk.medium)
    (hs : min (sectorsAsked op) (d.served d.accesses) = sectorsMoved cap r op) :
    Agrees cap r d op := by
  cases op with
  | read e buff sector count =>
    obtain ⟨hk, hgo, hcopied⟩ := Diskio.readLoop_spec cap e buff sector r.disk count.toNat
    simp only [sectorsAsked, sectorsMoved, Diskio.diskReadLoop] at hs
    simp only [Agrees, diskRead, Diskio.diskRead, Diskio.diskReadLoop, hs]
    refine ⟨rfl, hm.trans hcopied.medium.symm, fun hok x hx => ?_⟩
    have hall := (Diskio.stopsAt_of_own hk hgo hown).2.2.mp hok
    have hi : x / 512 < count.toNat := by omega
    have hown' := hown (x / 512) hi ((hgo _ hi).mp (by rw [hall]; exact hi))
    have hdata := hcopied.data (x / 512) (by rw [hall]; exact hi) (x % 512)
      (Nat.mod_lt x (by decide))
    have hat := fill_at buff 0 (fun x => d.medium (512 * sector.toNat + x)) hx
    rw [hown', Nat.div_add_mod] at hdata
    rw [Nat.zero_add] at hat
    rw [hall, hat, hdata, hm]
    exact congrArg _ (by omega)
  | write e buff sector count =>
    obtain ⟨-, -, hstored⟩ := Diskio.writeLoop_spec cap e buff sector r.disk count.toNat hown
    simp only [sectorsAsked, sectorsMoved, Diskio.diskWriteLoop] at hs
    simp only [Agrees, diskWrite, Diskio.diskWrite, Diskio.diskWriteLoop, hs, hm]
    exact ⟨rfl, hstored.symm⟩

theorem Agrees.medium {op : DiskOp} (h : Agrees cap r d op) :
    (driveStep d op).medium = (diskStep cap r op).disk.medium := by
  cases op with
  | read e buff sector count => exact h.2.1
  | write e buff sector count => exact h.2

theorem sectorsMoved_le (op : DiskOp) : sectorsMoved cap r op ≤ sectorsAsked op := by
  cases op with
  | read e buff sector count => exact (Diskio.readLoop_spec cap e buff sector r.disk count.toNat).1
  | write e buff sector count =>
    exact (Diskio.writeLoop_count cap e buff sector r.disk count.toNat).1

theorem sectorsAsked_le (op : DiskOp) : sectorsAsked op ≤ 255 := by
  cases op <;> exact Nat.le_of_lt_succ (BitVec.isLt _)

theorem drive_run {ops : List DiskOp} (hown : Along cap (OwnSectors cap) r ops)
    (hm : d.medium = r.disk.medium)
    (hs : ∀ n, d.served (d.accesses + n) = servedBy cap r ops n) : RunAgrees cap r d ops := by
  induction ops generalizing r d with
  | nil => trivial
  | cons op ops ih =>
    obtain ⟨hnow, hlater⟩ := hown
    have hserved : min (sectorsAsked op) (d.served d.accesses) = sectorsMoved cap r op := by
      have hzero := hs 0
      rw [Nat.add_zero, servedBy] at hzero
      rw [hzero]
      have hle := @sectorsMoved_le cap r op
      have hmax := sectorsAsked_le op
      split <;> omega
    have hagrees := agrees_of_own hnow hm hserved
    obtain ⟨hacc, hsame⟩ := driveStep_accesses d op
    refine ⟨hagrees, ih hlater hagrees.medium fun n => ?_⟩
    rw [hsame, hacc, Nat.add_assoc, Nat.add_comm 1 n]
    exact hs (n + 1)

theorem servedBy_whole {ops : List DiskOp} (h : Along cap (Whole cap) r ops) (n : ℕ) :
    255 ≤ servedBy cap r ops n := by
  induction ops generalizing r n with
  | nil => exact le_refl 255
  | cons op ops ih =>
    cases n with
    | zero =>
      have hwhole : sectorsMoved cap r op = sectorsAsked op := h.1
      rw [servedBy, if_pos hwhole]
    | succ n => exact ih h.2 n

/-- **The drive is the card**: a run of `diskio.c` whose transfers reach the sectors of their numbers
is the run of the same calls on a drive, and when no call fails no access of that drive does. -/
theorem exists_drive {ops : List DiskOp} (hown : Along cap (OwnSectors cap) r ops) :
    ∃ d : Drive, d.medium = r.disk.medium ∧ RunAgrees cap r d ops ∧
      (Along cap (Whole cap) r ops → ∀ n, 255 ≤ d.served n) := by
  refine ⟨⟨r.disk.medium, servedBy cap r ops, 0⟩, rfl, drive_run hown rfl fun n => ?_,
    servedBy_whole⟩
  rw [Nat.zero_add]

end Runs

end VwiiNandTools.Ff
