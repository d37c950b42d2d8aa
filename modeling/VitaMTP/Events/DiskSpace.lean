import VitaMTP.Events.Replies

/-! The figures of `getDiskSpace` on the two platforms. -/
namespace VitaMTP

/-- What `GetDiskFreeSpace` returns, in machine words of 32 bits. -/
structure DiskGeometry where
  SectorsPerCluster : BitVec 32
  BytesPerSector : BitVec 32
  NumberOfFreeClusters : BitVec 32
  TotalNumberOfClusters : BitVec 32
  deriving DecidableEq, Repr

/-- What is in `*free` and `*total`. -/
structure DiskSpace where
  free : BitVec 64
  total : BitVec 64
  deriving DecidableEq, Repr

/-- `getDiskSpace` on Windows. The products are those of the machine words, and are widened
afterwards. -/
def getDiskSpaceWindows (getDiskFreeSpace : CString → Option DiskGeometry) (path : CString) :
    Option DiskSpace :=
  (getDiskFreeSpace path).map fun disk =>
    let clusterSize := disk.SectorsPerCluster * disk.BytesPerSector
    { total := (clusterSize * disk.NumberOfFreeClusters).setWidth 64
      free := (clusterSize * disk.TotalNumberOfClusters).setWidth 64 }

/-- `getDiskSpace` on all other platforms. -/
def getDiskSpace (statvfs : CString → Option Statvfs) (path : CString) : Option DiskSpace :=
  (statvfs path).map fun stat =>
    { total := stat.frsize * stat.blocks
      free := stat.frsize * stat.bfree }

theorem sendDiskSpace_eq {σ : Type} (statvfs : σ → CString → Option Statvfs) (s : Host σ)
    (path : CString) (sent : Bool) :
    sendDiskSpace statvfs s path sent =
      match getDiskSpace (statvfs s.fs.state) path with
      | none => (s, [.reportResult .Invalid_Permission])
      | some space => (s, .sendStorageSize space.total space.free :: reportSent sent) := by
  unfold sendDiskSpace getDiskSpace
  cases statvfs s.fs.state path with
  | none => rfl
  | some stat => rfl

/-- The bytes of a disk, without any bound. -/
structure DiskBytes where
  free : ℕ
  total : ℕ

/-- What the figures have room for. -/
structure DiskBytes.Valid (bytes : DiskBytes) : Prop where
  free_le : bytes.free ≤ bytes.total
  total_lt : bytes.total < 2 ^ 64

def DiskGeometry.clusterSize (disk : DiskGeometry) : ℕ :=
  disk.SectorsPerCluster.toNat * disk.BytesPerSector.toNat

def DiskGeometry.bytes (disk : DiskGeometry) : DiskBytes where
  free := disk.clusterSize * disk.NumberOfFreeClusters.toNat
  total := disk.clusterSize * disk.TotalNumberOfClusters.toNat

def Statvfs.bytes (stat : Statvfs) : DiskBytes where
  free := stat.frsize.toNat * stat.bfree.toNat
  total := stat.frsize.toNat * stat.blocks.toNat

/-- The figures are those of the disk. -/
structure DiskSpace.Exact (space : DiskSpace) (bytes : DiskBytes) : Prop where
  free : space.free.toNat = bytes.free
  total : space.total.toNat = bytes.total

namespace DiskSpace.Exact

variable {space space' : DiskSpace} {bytes : DiskBytes}

theorem free_le (h : space.Exact bytes) (hv : bytes.Valid) : space.free ≤ space.total := by
  rw [BitVec.le_def, h.free, h.total]
  exact hv.free_le

theorem unique (h : space.Exact bytes) (h' : space'.Exact bytes) : space = space' := by
  obtain ⟨free, total⟩ := space
  obtain ⟨free', total'⟩ := space'
  have hfree : free = free' := BitVec.eq_of_toNat_eq (h.free.trans h'.free.symm)
  have htotal : total = total' := BitVec.eq_of_toNat_eq (h.total.trans h'.total.symm)
  rw [hfree, htotal]

end DiskSpace.Exact

theorem toNat_widened_mul (a b c : BitVec 32) :
    ((a * b * c).setWidth 64).toNat = a.toNat * b.toNat * c.toNat % 2 ^ 32 := by
  have hlt := (a * b * c).isLt
  rw [BitVec.toNat_setWidth, Nat.mod_eq_of_lt (by omega), BitVec.toNat_mul, BitVec.toNat_mul,
    Nat.mod_mul_mod]

section figures

variable {path : CString}

theorem getDiskSpaceWindows_exact_iff {disk : DiskGeometry} (hvalid : disk.bytes.Valid)
    {getDiskFreeSpace : CString → Option DiskGeometry} (hdisk : getDiskFreeSpace path = some disk) :
    (∃ space, getDiskSpaceWindows getDiskFreeSpace path = some space ∧ space.Exact disk.bytes) ↔
      disk.bytes.total < 2 ^ 32 ∧
        (disk.clusterSize = 0 ∨ disk.NumberOfFreeClusters = disk.TotalNumberOfClusters) := by
  have hle := hvalid.free_le
  have hmod := Nat.mod_lt disk.bytes.free (show 0 < 2 ^ 32 by decide)
  have hexact : (∃ space, getDiskSpaceWindows getDiskFreeSpace path = some space ∧
      space.Exact disk.bytes) ↔
      disk.bytes.total % 2 ^ 32 = disk.bytes.free ∧
        disk.bytes.free % 2 ^ 32 = disk.bytes.total := by
    simp only [getDiskSpaceWindows, hdisk, Option.map_some, Option.some.injEq, exists_eq_left']
    constructor
    · intro h
      exact ⟨(toNat_widened_mul ..).symm.trans h.free, (toNat_widened_mul ..).symm.trans h.total⟩
    · intro ⟨hfree, htotal⟩
      exact ⟨(toNat_widened_mul ..).trans hfree, (toNat_widened_mul ..).trans htotal⟩
  have hsame : disk.bytes.free = disk.bytes.total ↔
      disk.clusterSize = 0 ∨ disk.NumberOfFreeClusters = disk.TotalNumberOfClusters := by
    unfold DiskGeometry.bytes
    dsimp only
    rw [mul_eq_mul_left_iff, BitVec.toNat_inj, or_comm]
  rw [hexact, ← hsame]
  constructor
  · intro ⟨_, htotal⟩
    omega
  · intro ⟨hlt, hfree⟩
    rw [hfree, Nat.mod_eq_of_lt hlt]
    exact ⟨rfl, rfl⟩

theorem getDiskSpace_exact {stat : Statvfs} (hvalid : stat.bytes.Valid)
    {statvfs : CString → Option Statvfs} (hstat : statvfs path = some stat) :
    ∃ space, getDiskSpace statvfs path = some space ∧ space.Exact stat.bytes := by
  have hle := hvalid.free_le
  have hlt := hvalid.total_lt
  refine ⟨_, by rw [getDiskSpace, hstat, Option.map_some], ?_⟩
  constructor
  · apply Eq.trans (BitVec.toNat_mul ..)
    exact Nat.mod_eq_of_lt (by omega : stat.bytes.free < 2 ^ 64)
  · apply Eq.trans (BitVec.toNat_mul ..)
    exact Nat.mod_eq_of_lt hlt

/-- Both platforms report what the disk has if and only if Windows has no more than 32 bits to
report, and nothing to exchange. -/
theorem getDiskSpace_platforms_iff {disk : DiskGeometry} {stat : Statvfs}
    (hdiskValid : disk.bytes.Valid) (hstatValid : stat.bytes.Valid)
    {getDiskFreeSpace : CString → Option DiskGeometry} (hdisk : getDiskFreeSpace path = some disk)
    {statvfs : CString → Option Statvfs} (hstat : statvfs path = some stat) :
    (∃ windows posix, getDiskSpaceWindows getDiskFreeSpace path = some windows ∧
        getDiskSpace statvfs path = some posix ∧
        windows.Exact disk.bytes ∧ posix.Exact stat.bytes ∧
        windows.free ≤ windows.total ∧ posix.free ≤ posix.total ∧
        (stat.bytes = disk.bytes → windows = posix)) ↔
      disk.bytes.total < 2 ^ 32 ∧
        (disk.clusterSize = 0 ∨ disk.NumberOfFreeClusters = disk.TotalNumberOfClusters) := by
  rw [← getDiskSpaceWindows_exact_iff hdiskValid hdisk]
  constructor
  · intro ⟨windows, _, hwindows, _, hexact, _⟩
    exact ⟨windows, hwindows, hexact⟩
  · intro ⟨windows, hwindows, hexact⟩
    obtain ⟨posix, hposix, hexact'⟩ := getDiskSpace_exact hstatValid hstat
    refine ⟨windows, posix, hwindows, hposix, hexact, hexact', hexact.free_le hdiskValid,
      hexact'.free_le hstatValid, fun hsame => ?_⟩
    rw [← hsame] at hexact
    exact hexact.unique hexact'

end figures

/-- A full disk with two clusters of 512 bytes. -/
def fullDisk : DiskGeometry := ⟨1, 512, 2, 2⟩

theorem getDiskSpace_platforms_full :
    (⟨512, 2, 2⟩ : Statvfs).bytes = fullDisk.bytes ∧
      ∃ windows posix, getDiskSpaceWindows (fun _ => some fullDisk) [] = some windows ∧
        getDiskSpace (fun _ => some ⟨512, 2, 2⟩) [] = some posix ∧
        windows.Exact fullDisk.bytes ∧ posix.Exact (⟨512, 2, 2⟩ : Statvfs).bytes ∧
        windows.free ≤ windows.total ∧ posix.free ≤ posix.total ∧
        ((⟨512, 2, 2⟩ : Statvfs).bytes = fullDisk.bytes → windows = posix) :=
  ⟨rfl, (getDiskSpace_platforms_iff ⟨by decide, by decide⟩ ⟨by decide, by decide⟩ rfl rfl).mpr
    ⟨by decide, Or.inr rfl⟩⟩

/-- With one of two clusters free, Windows reports one cluster in total and two free. -/
theorem getDiskSpaceWindows_exchanged :
    ¬ ∀ (disk : DiskGeometry) (getDiskFreeSpace : CString → Option DiskGeometry) (path : CString),
      disk.bytes.Valid → getDiskFreeSpace path = some disk →
      ∃ space, getDiskSpaceWindows getDiskFreeSpace path = some space ∧
        space.Exact disk.bytes := by
  intro h
  obtain ⟨space, heq, hexact⟩ :=
    h ⟨1, 512, 1, 2⟩ (fun _ => some ⟨1, 512, 1, 2⟩) [] ⟨by decide, by decide⟩ rfl
  obtain rfl := Option.some.inj heq
  exact absurd hexact.free (by decide)

end VitaMTP
