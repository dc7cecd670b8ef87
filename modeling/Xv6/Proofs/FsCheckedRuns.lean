/-
Purpose: Runs of `writei` and `readi` on a checksummed file, compared with a
  byte array.
-/
import Xv6.Proofs.FsChecked

namespace Xv6.Fs

open PanicM

/-!
`writei` hands the pointer of a block to `bread` without taking the checksum
off.  As long as every block it touches has bytes that cancel out, the
checksum is zero and the pointer is the block number; the first result below
follows a whole run under that condition.  The second is the shortest run
without it: a second write to one block goes to a sector outside the disk.
-/

/-! ## The two calls -/

section Calls

variable {limit : Nat} {E : FsPanic → Prop} {d : Disk} {ip ip' : Inode}
  {content : List UInt8}

variable {n off : Nat} {typed : List UInt8}

section

variable (file : Checked limit d ip content) (small : ip.inum < d.superblock.ninodes)
  (addrs : ip'.addrs = ip.addrs) (dn : Dinode)
include file small addrs

theorem Checked.ptr_setDinode (s : PtrSlot) :
    (d.setDinode ip.inum dn).ptr ip'.toDinode s = d.ptr ip.toDinode s := by
  rw [Disk.ptr_addrs addrs]
  exact file.owned.ptr_setInode small _ () s

/-- Storing the inode, with any other size, keeps the contents. -/
theorem Checked.setDinode (type : ip'.type = ip.type) :
    Checked limit (d.setDinode ip.inum dn) ip' content := by
  have low := d.iblock_lt_dataStart small
  have ptr := file.ptr_setDinode small addrs dn
  have block : ∀ s, (d.setDinode ip.inum dn).block ip'.toDinode s = d.block ip.toDinode s := by
    intro s
    unfold Disk.block
    rw [ptr, type]
  constructor
  case owned =>
    exact (file.owned.setInode small _).congr_addrs (fun _ => addrs) (fun _ => type)
  case idle => exact file.idle
  case type => exact type.trans file.type
  case length => exact file.length
  case view =>
    intro bn inFile j inside
    rw [← file.view bn inFile j inside]
    unfold Disk.view
    rw [ptr, block]
    refine ite_congr rfl (fun _ => rfl) fun some => ?_
    have data := (file.owned.inData () _ (file.owned.real () _ some)).1
    have apart : d.block ip.toDinode (.file bn) ≠ iblock ip.inum :=
      Nat.ne_of_gt (low.trans_le data)
    exact congrFun (Disk.setSector_of_ne apart d _) j
  case sum =>
    intro bn inFile
    rw [ptr, block]
    exact file.sum bn inFile
  case dense =>
    intro bn inFile
    rw [ptr]
    exact file.dense bn inFile
  case indirect =>
    rw [addrs]
    exact file.indirect
  case given =>
    intro s
    rw [ptr, block]
    exact file.given s

theorem Checked.touched_setDinode (type : ip'.type = ip.type) (inum : ip'.inum = ip.inum) :
    Touched limit d ip (d.setDinode ip.inum dn) ip' := by
  have ptr := file.ptr_setDinode small addrs dn
  have high := one_lt_iblock ip.inum
  constructor
  case superblock => exact Disk.superblock_setSector high ..
  case inum => exact inum
  case kept =>
    intro s _
    unfold Disk.block
    rw [ptr, type]
  case sectors =>
    intro x changed
    refine Or.inr (Or.inl ?_)
    by_contra apart
    exact changed (Disk.setSector_of_ne apart ..)
  case count =>
    have free : (d.setDinode ip.inum dn).freeCount limit = d.freeCount limit :=
      Disk.freeCount_congr fun b less =>
        Disk.used_setSector (Or.inr ⟨high, iblock_lt small⟩) _
          (less.trans_le file.owned.limit_le)
    have claims : (d.setDinode ip.inum dn).claimed ip'.toDinode = d.claimed ip.toDinode :=
      Disk.claimed_congr fun s => by rw [ptr]
    rw [free, claims]

end

/-- An inode in memory whose size field is right. -/
structure Opened (limit : Nat) (d : Disk) (ip : Inode) (content : List UInt8) : Prop where
  file : Checked limit d ip content
  size : ip.size = content.length
  inum : ip.inum < d.superblock.ninodes

theorem toInt32_of_lt (small : n < 2 ^ 31) : toInt32 n = n :=
  if_pos small

/-- `writei` within the bounds of a file, where every block it touches has
bytes that cancel out. -/
theorem wp_writei_checked {src : List UInt8}
    (opened : Opened limit d ip content) (reached : off ≤ content.length)
    (bound : off + src.length ≤ BSIZE * MAXFILE)
    (clean : ∀ k, off ≤ k → k < off + src.length → blockSum content (k / BSIZE) = 0)
    (room : blocksFor (max content.length (off + src.length)) ≤
      d.freeCount limit + d.claimed ip.toDinode) :
    wp (writei ip src off) (fun r d' => r.1 = src.length ∧
      Opened limit d' r.2 (Bytes.overwrite content off src) ∧
      Touched limit d ip d' r.2) E d := by
  have length := Bytes.length_overwrite reached src
  have type : ip.type ≠ T_DEV := by
    rw [opened.file.type]
    decide
  have short : off + src.length < 2 ^ 31 := by
    simp only [BSIZE, MAXFILE, NDIRECT, NINDIRECT] at bound
    omega
  have noWrap : u32 (off + src.length) = off + src.length := u32_of_lt (by omega)
  unfold writei
  simp only
  rw [if_neg type, noWrap, opened.size, if_neg (by omega),
    if_neg (by simp only [BSIZE, MAXFILE, NDIRECT, NINDIRECT] at *; omega),
    wp_bind]
  refine wp_imp (wp_writeiLoop_checked src.length opened.file reached bound
    clean room le_rfl) ?_
  rintro ip₁ d₁ ⟨file, rest, touched⟩
  have inum : ip₁.inum = ip.inum := by rw [rest]
  have size : ip₁.size = content.length := by
    rw [rest]
    exact opened.size
  have small : ip₁.inum < d₁.superblock.ninodes := by
    rw [inum, touched.superblock]
    exact opened.inum
  by_cases grows : 0 < src.length ∧ ip₁.size < off + src.length
  · rw [if_pos grows]
    generalize sized : { ip₁ with size := off + src.length } = ip₂
    have addrs : ip₂.addrs = ip₁.addrs := by rw [← sized]
    have type₂ : ip₂.type = ip₁.type := by rw [← sized]
    have inum₂ : ip₂.inum = ip₁.inum := by rw [← sized]
    rw [wp_bind]
    refine wp_iupdate (quiet_of_idle file.idle (k := 0 + 1) (by decide))
      (by rw [inum₂]; exact small) ?_
    rw [wp_pure, toInt32_of_lt (by omega), inum₂]
    refine ⟨rfl, ⟨file.setDinode small addrs _ type₂, ?_, ?_⟩,
      touched.trans (file.touched_setDinode small addrs _ type₂ inum₂)⟩
    · rw [length, ← sized]
      simp only
      omega
    · rw [Disk.setDinode, Disk.superblock_setSector (one_lt_iblock _)]
      simp only
      rw [inum₂]
      exact small
  · rw [if_neg grows, wp_pure, toInt32_of_lt (by omega)]
    refine ⟨rfl, ⟨file, ?_, small⟩, touched⟩
    rw [length, size]
    omega

theorem wp_readi_damaged {d' : Disk}
    (opened : Opened limit d ip content) (damaged : Damaged d ip d')
    (reached : off ≤ content.length) (noWrap : off + n < 2 ^ 32) :
    wp (readi typed ip off n) (fun r after =>
      (r.1 = -1 ↔ ∃ bn, Covers off (min n (content.length - off)) bn ∧ ¬ d.Intact ip d' bn) ∧
      ((∀ bn, Covers off (min n (content.length - off)) bn → d.Same ip d' bn) → after = d' ∧
        r = (((min n (content.length - off) : Nat) : Int),
          (content.drop off).take n, ip))) E d' := by
  have type : ip.type ≠ T_DEV := by
    rw [opened.file.type]
    decide
  have length := opened.file.length
  have sum := u32_of_lt noWrap
  have count : (if content.length < u32 (off + n) then
      content.length - off else n) = min n (content.length - off) := by
    rw [sum]
    split <;> omega
  have small : min n (content.length - off) < 2 ^ 31 := by
    simp only [BSIZE, MAXFILE, NDIRECT, NINDIRECT] at length
    omega
  have value := toInt32_of_lt small
  unfold readi
  rw [if_neg type, opened.size, sum, if_neg (by omega)]
  simp only [sum] at count
  simp only [count]
  refine wp_seq (wp_readiLoop_checked opened.file damaged _ (by omega) le_rfl) ?_
  rintro ⟨verified, bytes, ip'⟩ after ⟨broken, whole⟩
  rw [wp_pure]
  refine ⟨Iff.trans ?_ broken, fun same => ?_⟩
  · cases verified with
    | false => exact iff_of_true rfl rfl
    | true =>
      refine iff_of_false ?_ nofun
      rw [if_pos rfl, value]
      omega
  · obtain ⟨rfl, shown⟩ := whole same
    obtain ⟨rfl, rfl, rfl⟩ := by simpa only [Prod.mk.injEq] using shown
    refine ⟨rfl, ?_⟩
    rw [if_pos rfl, value, Bytes.slice_ofList (by omega)]
    congr 2
    rw [List.take_eq_take_iff, List.length_drop]
    omega

theorem wp_readi_checked (opened : Opened limit d ip content)
    (noWrap : off ≤ content.length → off + n < 2 ^ 32) :
    wp (readi typed ip off n) (fun r d' => d' = d ∧ r.2.2 = ip ∧
      (r.1, r.2.1) = if off ≤ content.length then
        (((min n (content.length - off) : Nat) : Int), (content.drop off).take n)
        else (-1, [])) E d := by
  by_cases reached : off ≤ content.length
  · refine wp_imp (wp_readi_damaged opened (.refl d ip) reached (noWrap reached)) ?_
    rintro r after ⟨_, whole⟩
    obtain ⟨rfl, rfl⟩ := whole fun _ _ _ _ => rfl
    rw [if_pos reached]
    exact ⟨rfl, rfl, rfl⟩
  · have type : ip.type ≠ T_DEV := by
      rw [opened.file.type]
      decide
    unfold readi
    rw [if_neg type, opened.size, if_pos (.inl (Nat.lt_of_not_le reached)), wp_pure, if_neg reached]
    exact ⟨rfl, rfl, rfl⟩

end Calls

/-! ## Runs -/

/-- A call on the file. -/
inductive FileOp where
  | write (src : List UInt8) (off : Nat)
  | read (off n : Nat)
deriving Repr, DecidableEq

namespace FileOp

/-- The call: the value it returns and the bytes it hands out. -/
def perform (ip : Inode) : FileOp → FsM ((Int × List UInt8) × Inode)
  | .write src off => do
      let (result, ip) ← writei ip src off
      pure ((result, []), ip)
  | .read off n => do
      let (result, bytes, ip) ← readi [] ip off n
      pure ((result, bytes), ip)

/-- The array after the call. -/
def content (array : List UInt8) : FileOp → List UInt8
  | .write src off => Bytes.overwrite array off src
  | .read _ _ => array

/-- What the call answers on an array. -/
def answer (array : List UInt8) : FileOp → Int × List UInt8
  | .write src _ => (src.length, [])
  | .read off n =>
    if off ≤ array.length then
      (((min n (array.length - off) : Nat) : Int), (array.drop off).take n)
    else
      (-1, [])

/-- Writes start inside the file and end within its greatest size. -/
def InRange (array : List UInt8) : FileOp → Prop
  | .write src off =>
    off ≤ array.length ∧ off + src.length ≤ BSIZE * MAXFILE
  | .read _ _ => True

instance (array : List UInt8) (op : FileOp) : Decidable (op.InRange array) := by
  cases op <;> unfold InRange <;> infer_instance

/-- Writes touch blocks whose bytes cancel out, and the end of a read is a
32-bit number. -/
def Clean (array : List UInt8) : FileOp → Prop
  | .write src off => ∀ k, off ≤ k → k < off + src.length → blockSum array (k / BSIZE) = 0
  | .read off n => off ≤ array.length → off + n < 2 ^ 32

end FileOp

/-- The calls in order. -/
def runOps : List FileOp → Inode → FsM (List (Int × List UInt8) × Inode)
  | [], ip => pure ([], ip)
  | op :: rest, ip => do
      let (result, ip) ← op.perform ip
      let (results, ip) ← runOps rest ip
      pure (result :: results, ip)

/-- The answers of an array. -/
def answers : List UInt8 → List FileOp → List (Int × List UInt8)
  | _, [] => []
  | array, op :: rest => op.answer array :: answers (op.content array) rest

/-- Every call of the run is in range and clean at its time, and the file
never takes more than `free` blocks. -/
def Meets (free : Nat) : List UInt8 → List FileOp → Prop
  | _, [] => True
  | array, op :: rest =>
    op.InRange array ∧ op.Clean array ∧ blocksFor (op.content array).length ≤ free ∧
      Meets free (op.content array) rest

section Runs

variable {limit : Nat} {E : FsPanic → Prop}

theorem wp_perform {d : Disk} {ip : Inode} {array : List UInt8} (op : FileOp)
    (opened : Opened limit d ip array) (inRange : op.InRange array) (clean : op.Clean array)
    (room : blocksFor (op.content array).length ≤ d.freeCount limit + d.claimed ip.toDinode) :
    wp (op.perform ip) (fun r d' => r.1 = op.answer array ∧ Opened limit d' r.2 (op.content array) ∧
      Touched limit d ip d' r.2) E d := by
  cases op with
  | write src off =>
    obtain ⟨reached, bound⟩ := inRange
    unfold FileOp.content at room
    rw [Bytes.length_overwrite reached] at room
    unfold FileOp.perform
    refine wp_seq (wp_writei_checked opened reached bound clean room) ?_
    rintro ⟨result, ip'⟩ d' ⟨value, opened', touched⟩
    rw [wp_pure]
    simp only at value
    rw [value]
    exact ⟨rfl, opened', touched⟩
  | read off n =>
    unfold FileOp.perform
    refine wp_seq (wp_readi_checked opened clean) ?_
    rintro ⟨result, bytes, ip'⟩ d' ⟨rfl, same, value⟩
    simp only at same value
    rw [wp_pure, same]
    exact ⟨value, opened, Touched.refl ..⟩

theorem wp_runOps (ops : List FileOp) : ∀ {d : Disk} {ip : Inode} {array : List UInt8},
      Opened limit d ip array →
      Meets (d.freeCount limit + d.claimed ip.toDinode) array ops →
      wp (runOps ops ip) (fun r d' => r.1 = answers array ops ∧
        Opened limit d' r.2 (ops.foldl FileOp.content array) ∧
        Touched limit d ip d' r.2) E d := by
  induction ops with
  | nil =>
    intro d ip array opened _
    unfold runOps
    rw [wp_pure]
    exact ⟨rfl, opened, Touched.refl ..⟩
  | cons op rest ih =>
    intro d ip array opened meets
    obtain ⟨inRange, clean, room, later⟩ := meets
    unfold runOps
    refine wp_seq (wp_perform op opened inRange clean room) ?_
    rintro ⟨result, ip₁⟩ d₁ ⟨value, opened₁, touched₁⟩
    simp only at value opened₁ touched₁ ⊢
    rw [← touched₁.count] at later
    refine wp_seq (ih opened₁ later) ?_
    rintro ⟨results, ip₂⟩ d₂ ⟨values, opened₂, touched₂⟩
    simp only at values opened₂ touched₂
    rw [wp_pure, value, values]
    exact ⟨rfl, opened₂, touched₁.trans touched₂⟩

end Runs

/-- A disk whose blocks before the data area are marked in the bitmap, and
whose free blocks are zero. -/
structure Disk.Formatted (d : Disk) : Prop where
  fits : d.dataStart ≤ d.superblock.size
  small : d.superblock.size ≤ 2 ^ 24
  metadata : ∀ b < d.dataStart, d.used b = true
  free_zero : ∀ b < d.superblock.size, d.used b = false → d.IsZero b

/-- No buffer is busy, and the list of blocks handed out starts empty. -/
structure Disk.AtRest (d : Disk) : Prop where
  idle : d.held = []
  fresh : d.given = []

/-- A checksummed inode without contents. -/
structure Inode.Empty (ip : Inode) : Prop where
  type : ip.type = T_CHECKED
  size : ip.size = 0
  addrs : ∀ a, ip.addrs a = 0

theorem Disk.Formatted.owned {ι : Type} {N : ι → Dinode} {d : Disk} (formatted : d.Formatted)
    (limit_le : limit ≤ d.bitmapEnd) (limit_small : limit ≤ 2 ^ 24)
    (free_zero : ∀ b < limit, d.used b = false → d.IsZero b)
    (empty : ∀ i a, (N i).addrs a = 0) : d.Owned limit N where
  fits := formatted.fits
  limit_le := limit_le
  limit_small := limit_small
  metadata := formatted.metadata
  free_zero := free_zero
  plain i := by
    rw [empty]
    decide
  real i s some := absurd (ptr_null (empty i) d s) some
  inData i s some := absurd (block_null (empty i) d s) some
  exclusive k _ some := absurd (block_null (empty k.1) d k.2) some

theorem opened_empty {d : Disk} {ip : Inode} (formatted : d.Formatted)
    (idle : d.held = []) (empty : ip.Empty) (inum : ip.inum < d.superblock.ninodes) :
    Opened d.superblock.size d ip [] := by
  have null := Disk.ptr_null empty.addrs d
  refine ⟨?_, empty.size, inum⟩
  constructor
  case owned =>
    exact formatted.owned d.bitmapEnd_ge formatted.small formatted.free_zero fun _ => empty.addrs
  case idle => exact idle
  case type => exact empty.type
  case length => exact Nat.zero_le _
  case view =>
    intro bn _ j _
    unfold Disk.view
    rw [if_pos (null _)]
    rfl
  case sum => exact fun bn _ some => absurd (null (.file bn)) some
  case dense =>
    intro bn _
    rw [null]
    simp
  case indirect =>
    rw [empty.addrs]
    simp
  case given => exact fun s some => absurd (null s) some

theorem run_opens {d : Disk} {ip : Inode} {ops : List FileOp} (formatted : d.Formatted)
    (rest : d.AtRest) (empty : ip.Empty) (inum : ip.inum < d.superblock.ninodes)
    (meets : Meets (d.freeCount d.superblock.size) [] ops) :
    ∃ ip' d', runOps ops ip d = .ok ((answers [] ops, ip'), d') ∧
      Opened d.superblock.size d' ip' (ops.foldl FileOp.content []) ∧
      Touched d.superblock.size d ip d' ip' := by
  have opened := opened_empty formatted rest.idle empty inum
  have none : d.claimed ip.toDinode = 0 := opened.file.claimed
  obtain ⟨⟨results, ip'⟩, d', run, rfl, after⟩ :=
    wp_returns (wp_runOps ops opened (by rw [none]; exact meets))
  exact ⟨ip', d', run, after⟩

/-- A checksummed file that starts empty answers every call like an array, as
long as free blocks remain, reads end below `2^32`, and every write touches
only blocks whose bytes cancel out; and it changes no sector but those of the
bitmap, of its inode and of the blocks that `balloc` gave to it. -/
theorem checked_run_is_array (d : Disk) (ip : Inode) (ops : List FileOp)
    (formatted : d.Formatted) (rest : d.AtRest) (empty : ip.Empty)
    (inum : ip.inum < d.superblock.ninodes) (meets : Meets (d.freeCount d.superblock.size) [] ops) :
    ∃ ip' d', runOps ops ip d = .ok ((answers [] ops, ip'), d') ∧ ∀ x, d'.sectors x ≠ d.sectors x →
        (∃ b < d.bitmapEnd, x = bblock b d.superblock.ninodes) ∨ x = iblock ip.inum ∨
          (x ∈ d'.given ∧ ∃ s, d'.block ip'.toDinode s = x) := by
  obtain ⟨ip', d', run, after, touched⟩ := run_opens formatted rest empty inum meets
  refine ⟨ip', d', run, fun x changed => ?_⟩
  rcases touched.sectors x changed with bitmap | inode | ⟨s, block, some⟩
  · exact Or.inl bitmap
  · exact Or.inr (Or.inl inode)
  · refine Or.inr (Or.inr ⟨?_, s, block⟩)
    rw [← block]
    exact after.file.given s (Disk.ptr_ne_zero (block ▸ some))

/-- A disk of 16 blocks with 8 inodes: the superblock, one bitmap block that
marks the five blocks before the data, and zeros. -/
def sampleDisk : Disk where
  sectors := fun x =>
    if x = 1 then Bytes.ofList [16, 0, 0, 0, 11, 0, 0, 0, 8, 0, 0, 0]
    else if x = 4 then Bytes.ofList [31]
    else fun _ => 0
  held := []
  given := []

/-- An empty checksummed inode. -/
def sampleInode : Inode where
  type := T_CHECKED
  major := 0
  minor := 0
  nlink := 1
  size := 0
  addrs := fun _ => 0
  inum := 2
  ref := 1
  busy := true
  valid := true

theorem sampleDisk_superblock :
    sampleDisk.superblock = { size := 16, nblocks := 11, ninodes := 8 } := by
  decide +kernel

/-- A disk with 8 inodes on which only the superblock and the bitmap are not
zero, and the bitmap marks the blocks before the data. -/
theorem formatted_blank {d : Disk} {size nblocks : Nat}
    (superblock : d.superblock = { size := size, nblocks := nblocks, ninodes := 8 })
    (range : 5 ≤ size ∧ size < BPB) (metadata : ∀ b < 5, d.used b = true)
    (zero : ∀ b, b ≠ 1 → b ≠ 4 → d.IsZero b) : d.Formatted := by
  have start : d.dataStart = 5 := by
    simp [Disk.dataStart, superblock, Nat.div_eq_of_lt range.2]
  refine ⟨?_, ?_, start ▸ metadata, fun b _ clear => zero b ?_ ?_⟩
  · rw [start, superblock]
    exact range.1
  · rw [superblock]
    exact range.2.le.trans (by decide)
  · rintro rfl
    exact absurd (metadata 1 (by decide)) (by simp [clear])
  · rintro rfl
    exact absurd (metadata 4 (by decide)) (by simp [clear])

theorem sampleDisk_formatted : sampleDisk.Formatted := by
  refine formatted_blank sampleDisk_superblock (by decide) (by decide +kernel) ?_
  intro b one four i _
  simp [sampleDisk, one, four]

theorem sampleInode_empty : sampleInode.Empty := ⟨rfl, rfl, fun _ => rfl⟩

theorem sampleInode_inum : sampleInode.inum < sampleDisk.superblock.ninodes := by
  rw [sampleDisk_superblock]
  decide

theorem sampleDisk_free : sampleDisk.freeCount sampleDisk.superblock.size = 11 := by
  rw [sampleDisk_superblock]
  decide +kernel

/-- Two bytes that cancel out, one of them overwritten, and a read. -/
def cancellingRun : List FileOp :=
  [.write [1, 1] 0, .write [2] 1, .read 0 2]

theorem cancellingRun_meets : Meets (sampleDisk.freeCount sampleDisk.superblock.size) []
      cancellingRun := by
  have block : ∀ {off n k : Nat}, off + n ≤ BSIZE → k < off + n → k / BSIZE = 0 :=
    fun bound less => Nat.div_eq_of_lt (less.trans_le bound)
  rw [sampleDisk_free]
  refine ⟨by decide, fun k _ less => ?_, by decide, by decide,
    fun k _ less => ?_, by decide, trivial, fun _ => by decide, by decide,
    trivial⟩
  · rw [block (by decide) less]
    decide +kernel
  · rw [block (by decide) less]
    decide +kernel

theorem cancellingRun_is_array : ∃ ip' d', runOps cancellingRun sampleInode sampleDisk =
      .ok ((answers [] cancellingRun, ip'), d') := by
  obtain ⟨ip', d', run, _⟩ := checked_run_is_array sampleDisk sampleInode
    cancellingRun sampleDisk_formatted ⟨rfl, rfl⟩ sampleInode_empty
    sampleInode_inum cancellingRun_meets
  exact ⟨ip', d', run⟩

/-- The answers of a run, byte `i` of sector `x` after it, and the blocks that
`balloc` handed out. -/
def observe (x i : Nat) : Except FsPanic ((List (Int × List UInt8) × Inode) × Disk) →
      Option (List (Int × List UInt8) × UInt8 × List Nat)
  | .ok ((results, _), d) => some (results, d.sectors x i, d.given)
  | .error _ => none

/-- One byte written, one byte appended, and a read.  The append stores into
sector `0x1000005`, which is block 5 with the checksum of the first byte, and
the read finds a block that does not verify. -/
theorem second_write_is_misplaced : sampleDisk.Formatted ∧ sampleDisk.AtRest ∧ sampleInode.Empty ∧
      (FileOp.write [1] 0).InRange [] ∧ (FileOp.write [2] 1).InRange [1] ∧
      blocksFor 2 ≤ sampleDisk.freeCount sampleDisk.superblock.size ∧
      observe 0x1000005 1 (runOps [.write [1] 0, .write [2] 1, .read 0 2] sampleInode sampleDisk) =
        some ([(1, []), (1, []), (-1, [])], 2, [5]) ∧
      answers [] [.write [1] 0, .write [2] 1, .read 0 2] = [(1, []), (1, []), (2, [1, 2])] :=
  ⟨sampleDisk_formatted, ⟨rfl, rfl⟩, sampleInode_empty, by decide, by decide,
    by rw [sampleDisk_free]; decide, by decide +kernel, by decide⟩

end Xv6.Fs
