/-
Purpose: When deleting a file frees exactly the blocks of the file.  `itrunc`
  hands the pointers of the inode to `bfree` as they are, also those of a
  T_CHECKED inode, whose top byte is a checksum and not part of the block
  number.
-/
import Xv6.Proofs.FsBuffers
import Xv6.Proofs.FsCheckedRuns

namespace Xv6.Fs

open Disk PanicM

/-- The block is a data block of the inode or its indirect block. -/
def Disk.Belongs (d : Disk) (dn : Dinode) (b : Nat) : Prop :=
  b ≠ 0 ∧ ∃ s, d.block dn s = b

/-- The file of inode `ip` is deleted: its blocks are free and zero, the rest
of the bitmap and of the data is as before, and the inode is empty. -/
structure Inode.Deleted (ip : Inode) (d : Disk) (ip' : Inode) (d' : Disk) : Prop where
  cleared : ∀ b, d.Belongs ip.toDinode b → d'.used b = false ∧ d'.IsZero b
  kept : ∀ b < d.bitmapEnd, ¬ d.Belongs ip.toDinode b → d'.used b = d.used b
  still : ∀ x, d.dataStart ≤ x → ¬ d.Belongs ip.toDinode x → d'.sectors x = d.sectors x
  size : ip'.size = 0
  addrs : ∀ a, ip'.addrs a = 0

/-- Inode `i` is in memory as `ip` on a disk whose blocks each belong to one
file.  The bitmap is a single block, as in every image that `mkfs` makes. -/
structure Disk.Deletable (limit : Nat) (N : Nat → Dinode) (d : Disk) (ip : Inode) : Prop where
  owned : d.Owned limit N
  here : N ip.inum = ip.toDinode
  idle : d.held = []
  small : ip.inum < d.superblock.ninodes
  bitmap : d.superblock.size < BPB

/-! ## Pointers without a checksum -/

section Delete

variable {limit : Nat} {N : Nat → Dinode} {d d' : Disk} {ip : Inode}

theorem Disk.belongs_iff_mem (bare : ∀ s, d.block ip.toDinode s = d.ptr ip.toDinode s) {b : Nat} :
    d.Belongs ip.toDinode b ↔ b ≠ 0 ∧ b ∈ PtrSlot.all.map (d.ptr ip.toDinode) := by
  unfold Disk.Belongs
  simp only [bare, List.mem_map, PtrSlot.mem_all, true_and]

theorem Disk.Freed.deleted (freed : Disk.Freed (PtrSlot.all.map (d.ptr ip.toDinode)) d d')
    (bare : ∀ s, d.block ip.toDinode s = d.ptr ip.toDinode s) (deletable : d.Deletable limit N ip) :
    ip.Deleted d ip.truncated (d'.setDinode ip.inum ip.truncated.toDinode) := by
  have owned := deletable.owned
  have bitmapEnd := bitmapEnd_congr freed.superblock
  have small : ip.inum < d'.superblock.ninodes := by
    rw [freed.superblock]
    exact deletable.small
  have low := d'.iblock_lt_dataStart small
  rw [dataStart_congr freed.superblock] at low
  have used : ∀ b < d.bitmapEnd, (d'.setDinode ip.inum ip.truncated.toDinode).used b = d'.used b :=
    fun b inside => used_setSector (Or.inr ⟨one_lt_iblock _, iblock_lt small⟩) _
      (by rw [bitmapEnd]; exact inside)
  have sectors : ∀ x, d.dataStart ≤ x → (d'.setDinode ip.inum ip.truncated.toDinode).sectors x =
        d'.sectors x :=
    fun x data => setSector_of_ne (by omega) ..
  constructor
  case cleared =>
    intro b belongs
    obtain ⟨some, s, same⟩ := belongs
    have data : d.block (N ip.inum) s = b := by
      rw [deletable.here]
      exact same
    have inside := owned.inData ip.inum s (by rw [data]; exact some)
    rw [data] at inside
    obtain ⟨clear, zero⟩ := freed.cleared b ((belongs_iff_mem bare).mp ⟨some, s, same⟩).2 some
    rw [used b (inside.2.1.trans_le owned.limit_le)]
    refine ⟨clear, fun k less => ?_⟩
    rw [sectors b inside.1]
    exact zero k less
  case kept =>
    intro b inside foreign
    rw [used b inside]
    apply freed.kept b inside
    intro mem
    by_contra some
    exact foreign ((belongs_iff_mem bare).mpr ⟨some, mem⟩)
  case still =>
    intro x data foreign
    have pos := d.one_lt_dataStart
    rw [sectors x data]
    apply freed.still x data
    intro mem
    exact foreign ((belongs_iff_mem bare).mpr ⟨by omega, mem⟩)
  case size => rfl
  case addrs => exact fun _ => rfl

theorem itrunc_deletes (deletable : d.Deletable limit N ip)
    (bare : ∀ s, d.block ip.toDinode s = d.ptr ip.toDinode s) :
    ∃ ip' d', itrunc ip d = .ok (ip', d') ∧ ip.Deleted d ip' d' := by
  apply wp_returns
  apply wp_itrunc deletable.owned deletable.here deletable.idle bare
  intro d' _ freed
  have quiet : d'.Quiet 1 := quiet_of_idle (freed.held.trans deletable.idle) (by decide)
  have small : ip.truncated.inum < d'.superblock.ninodes := by
    rw [freed.superblock]
    exact deletable.small
  rw [wp_bind]
  apply wp_iupdate quiet small
  exact freed.deleted bare deletable

/-! ## Pointers with a checksum -/

/-- Freeing the numbers of the list, whatever they are, leaves the bits of
other blocks alone, and all sectors but theirs and those where `bfree` looks
for their bits. -/
structure Disk.Hits (L : List Nat) (d d' : Disk) : Prop where
  superblock : d'.superblock = d.superblock
  kept : ∀ b < d.bitmapEnd, b ∉ L → d'.used b = d.used b
  still : ∀ x, (∀ q ∈ L, q ≠ 0 → x ≠ q ∧ x ≠ bblock q d.superblock.ninodes) →
    d'.sectors x = d.sectors x

namespace Disk.Hits

variable {L M : List Nat} {d'' : Disk}

theorem refl (L : List Nat) (d : Disk) : Hits L d d where
  superblock := rfl
  kept := fun _ _ _ => rfl
  still := fun _ _ => rfl

theorem mono (hits : Hits L d d') (subset : L ⊆ M) : Hits M d d' where
  superblock := hits.superblock
  kept := fun b small apart => hits.kept b small fun mem =>
    apart (subset mem)
  still := fun x apart => hits.still x fun q mem =>
    apart q (subset mem)

theorem trans (first : Hits L d d') (second : Hits L d' d'') : Hits L d d'' where
  superblock := second.superblock.trans first.superblock
  kept := by
    intro b small apart
    rw [second.kept b (by rw [bitmapEnd_congr first.superblock]; exact small) apart,
      first.kept b small apart]
  still := by
    intro x apart
    rw [second.still x (by rw [first.superblock]; exact apart), first.still x apart]

end Disk.Hits

/-- `bfree` of any number above the bitmap, as far as it gets. -/
theorem wp_bfree_hits {q : Nat} (high : d.dataStart ≤ q) :
    wp (bfree q) (fun _ d' => Disk.Hits [q] d d') (fun _ => True) d := by
  have pos := d.one_lt_dataStart
  have some : q ≠ 0 := by omega
  unfold bfree bzero
  rw [wp_bind, wp_bind]
  refine wp_bread_any fun _ => ?_
  rw [wp_bind, wp_bwrite (by simp), wp_brelse (by simp), hold_setSector_release]
  have superblock := superblock_setSector (d := d) (x := q) (by omega)
    (Bytes.fill (d.sectors q) 0 0 BSIZE)
  generalize zeroed : d.setSector q _ = middle at superblock ⊢
  unfold readsb
  rw [wp_bind, wp_bind]
  refine wp_bread_any fun _ => ?_
  rw [wp_bind, wp_brelse (by simp), hold_release, wp_pure, wp_bind]
  refine wp_bread_any fun _ => ?_
  rw [wp_ite]
  refine ⟨fun _ => ?_, fun _ => trivial⟩
  rw [wp_bind, wp_bwrite (by simp), wp_brelse (by simp), hold_setSector_release]
  change Disk.Hits [q] d (middle.setUsed q false)
  constructor
  case superblock =>
    rw [superblock_setUsed, superblock]
  case kept =>
    intro b small apart
    rw [used_setUsed, if_neg (by simpa using apart), ← zeroed, used_setSector (Or.inl high) _ small]
  case still =>
    intro x apart
    obtain ⟨ne, bitmap⟩ := apart q (List.mem_singleton_self q) some
    unfold setUsed
    rw [superblock, setSector_of_ne bitmap, ← zeroed, setSector_of_ne ne]

theorem wp_bfreeAll_hits (L : List Nat) {d : Disk} (high : ∀ q ∈ L, q ≠ 0 → d.dataStart ≤ q) :
    wp (bfreeAll L) (fun _ d' => Disk.Hits L d d') (fun _ => True) d := by
  induction L generalizing d with
  | nil => exact .refl [] d
  | cons q L ih =>
    have later : ∀ p ∈ L, p ≠ 0 → d.dataStart ≤ p :=
      fun p mem => high p (List.mem_cons_of_mem q mem)
    unfold bfreeAll
    split
    · rename_i some
      refine wp_seq (wp_bfree_hits (high q List.mem_cons_self some)) fun _ d₁ first => ?_
      refine wp_imp (ih (d := d₁) ?_) fun _ d' second => ?_
      · rw [dataStart_congr first.superblock]
        exact later
      · exact (first.mono (by simp)).trans (second.mono (List.subset_cons_self q L))
    · exact wp_imp (ih later) fun _ d' hits =>
        hits.mono (List.subset_cons_self q L)

theorem realAddr_le (addr : Nat) (type : UInt16) : realAddr addr type ≤ addr := by
  unfold realAddr
  split
  · exact Nat.and_le_left
  · exact Nat.le_refl addr

namespace Disk.Deletable

variable {s t : PtrSlot}

section

variable (deletable : d.Deletable limit N ip)
include deletable

theorem high (some : d.ptr ip.toDinode t ≠ 0) : d.dataStart ≤ d.ptr ip.toDinode t := by
  have owned := deletable.owned
  rw [← deletable.here] at some ⊢
  have inside := owned.inData ip.inum t (owned.real ip.inum t some)
  exact inside.1.trans (realAddr_le _ _)

theorem ptr_ne_block (some : d.ptr ip.toDinode s ≠ 0) (ne : t ≠ s) :
    d.ptr ip.toDinode t ≠ d.block ip.toDinode s := by
  have owned := deletable.owned
  rw [← deletable.here] at some ⊢
  have real := owned.real ip.inum s some
  have inside := (owned.inData ip.inum s real).2.1
  intro same
  have bare : d.block (N ip.inum) t = d.ptr (N ip.inum) t :=
    realAddr_of_lt (by rw [same]; exact inside.trans_le owned.limit_small) _
  apply owned.block_ne real (j := ip.inum) (t := t)
  · intro pair
    exact ne (congrArg Prod.snd pair).symm
  · rw [bare, same]

theorem tagged_ne_block (tagged : 2 ^ 24 ≤ d.ptr ip.toDinode s) (t : PtrSlot) :
    d.ptr ip.toDinode t ≠ d.block ip.toDinode s := by
  have owned := deletable.owned
  have some : d.ptr ip.toDinode s ≠ 0 := by omega
  by_cases same : t = s
  · rw [← deletable.here] at some tagged ⊢
    have inside := owned.inData ip.inum s (owned.real ip.inum s some)
    have small := owned.limit_small
    rw [same]
    omega
  · exact deletable.ptr_ne_block some same

/-- Freeing what the direct pointers say leaves the indirect block alone. -/
theorem spares_indirect (some : ip.addrs INDIRECT ≠ 0) (direct : t ≠ .indirect)
    (real : d.ptr ip.toDinode t ≠ 0) :
    ip.addrs INDIRECT ≠ d.ptr ip.toDinode t ∧ ip.addrs INDIRECT ≠
        bblock (d.ptr ip.toDinode t) d.superblock.ninodes := by
  have owned := deletable.owned
  have indirect := owned.block_indirect ip.inum
  have inside := owned.indirect (i := ip.inum)
  rw [deletable.here] at indirect inside
  obtain ⟨low, less, _⟩ := inside some
  constructor
  · have ne := deletable.ptr_ne_block (s := .indirect) some direct
    rw [indirect] at ne
    exact ne.symm
  · by_cases tagged : 2 ^ 24 ≤ d.ptr ip.toDinode t
    · -- Its bit is looked for beyond the blocks of the disk.
      have bitmap := deletable.bitmap
      have limit_le := owned.limit_le
      unfold bitmapEnd at limit_le
      unfold bblock
      simp only [BPB, IPB] at *
      omega
    · have bare : d.block (N ip.inum) t = d.ptr ip.toDinode t := by
        rw [deletable.here]
        exact realAddr_of_lt (Nat.lt_of_not_le tagged) _
      have block := owned.inData ip.inum t (by rw [bare]; exact real)
      rw [bare] at block
      have bitmap := d.bblock_lt_dataStart (block.2.1.trans_le owned.limit_le)
      omega

end

end Disk.Deletable

theorem wp_brelse_any {x : Nat} {Q : Unit → Disk → Prop} {d : Disk}
    (next : Q () (d.release x)) : wp (brelse x) Q (fun _ => True) d := by
  unfold brelse
  rw [wp_bind, wp_get, wp_ite]
  exact ⟨fun _ => next, fun _ => trivial⟩

theorem wp_iupdate_used {b : Nat} (small : ip.inum < d.superblock.ninodes)
    (inside : b < d.bitmapEnd) :
    wp (iupdate ip) (fun _ d' => d'.used b = d.used b) (fun _ => True) d := by
  unfold iupdate
  rw [wp_bind]
  refine wp_bread_any fun _ => ?_
  rw [wp_bind, wp_bwrite (by simp), wp_brelse (by simp), hold_setSector_release]
  exact used_setSector (Or.inr ⟨one_lt_iblock _, iblock_lt small⟩) _ inside

/-- The block behind a pointer with a checksum is not freed. -/
theorem wp_itrunc_spares (deletable : d.Deletable limit N ip) {s : PtrSlot}
    (tagged : 2 ^ 24 ≤ d.ptr ip.toDinode s) :
    wp (itrunc ip) (fun _ d' => d'.used (d.block ip.toDinode s) = true) (fun _ => True) d := by
  have owned := deletable.owned
  have some : d.ptr (N ip.inum) s ≠ 0 := by
    rw [deletable.here]
    omega
  obtain ⟨_, less, marked⟩ := owned.inData ip.inum s (owned.real ip.inum s some)
  rw [deletable.here] at less marked
  have inside := less.trans_le owned.limit_le
  have spared := deletable.tagged_ne_block tagged
  generalize d.block ip.toDinode s = b at *
  -- The superblock stays and the block stays marked, whatever else is freed.
  let Spared (d' : Disk) := d'.superblock = d.superblock ∧ d'.used b = true
  have keeps : ∀ {L} {d₁ d₂ : Disk}, Spared d₁ → Disk.Hits L d₁ d₂ → b ∉ L → Spared d₂ := by
    intro L d₁ d₂ ⟨superblock, used⟩ hits apart
    refine ⟨hits.superblock.trans superblock, (hits.kept b ?_ apart).trans used⟩
    rw [bitmapEnd_congr superblock]
    exact inside
  have finish : ∀ d', Spared d' → wp (do
        iupdate ip.truncated
        pure ip.truncated) (fun _ d' => d'.used b = true) (fun _ => True) d' := by
    intro d' ⟨superblock, used⟩
    refine wp_seq (wp_iupdate_used (b := b) ?_ ?_) fun _ d'' kept => kept.trans used
    · rw [superblock]
      exact deletable.small
    · rw [bitmapEnd_congr superblock]
      exact inside
  have high : ∀ {d' : Disk}, d'.superblock = d.superblock → ∀ t, d.ptr ip.toDinode t ≠ 0 →
      d'.dataStart ≤ d.ptr ip.toDinode t := by
    intro d' superblock t real
    rw [dataStart_congr superblock]
    exact deletable.high real
  unfold itrunc
  refine wp_seq (wp_bfreeAll_hits ip.directPtrs fun q mem => ?_) fun _ d₁ first => ?_
  · obtain ⟨a, _, rfl⟩ := List.mem_map.mp mem
    exact high rfl (.addr a.castSucc)
  have spared₁ : Spared d₁ := keeps ⟨rfl, marked⟩ first fun mem => by
    obtain ⟨a, _, same⟩ := List.mem_map.mp mem
    exact spared (.addr a.castSucc) same
  by_cases none : ip.addrs INDIRECT = 0
  · rw [if_neg (not_not.mpr none)]
    exact finish d₁ spared₁
  · have same : d₁.sectors (ip.addrs INDIRECT) = d.sectors (ip.addrs INDIRECT) := by
      apply first.still
      intro q mem real
      obtain ⟨a, _, rfl⟩ := List.mem_map.mp mem
      refine deletable.spares_indirect (t := .addr a.castSucc) none ?_ real
      intro last
      exact absurd (PtrSlot.addr.inj last) (Fin.castSucc_ne_last a)
    have entries : indirectPtrs (d₁.sectors (ip.addrs INDIRECT)) = d.entryPtrs ip.toDinode := by
      rw [same]
      exact d.indirectPtrs_eq none
    rw [if_pos none, wp_bind]
    refine wp_bread_any fun _ => ?_
    rw [entries]
    refine wp_seq (wp_bfreeAll_hits _ fun q mem => ?_) fun _ d₂ second => ?_
    · obtain ⟨j, _, rfl⟩ := List.mem_map.mp mem
      exact high spared₁.1 (.entry j)
    have busy : Spared (d₁.hold (ip.addrs INDIRECT)) := spared₁
    have spared₂ : Spared d₂ := keeps busy second fun mem => by
      obtain ⟨j, _, same⟩ := List.mem_map.mp mem
      exact spared (.entry j) same
    have done : Spared (d₂.release (ip.addrs INDIRECT)) := spared₂
    rw [wp_bind]
    apply wp_brelse_any
    refine wp_seq (wp_bfree_hits (high done.1 .indirect none)) fun _ d₃ third => ?_
    refine finish d₃ (keeps done third fun mem => ?_)
    exact spared .indirect (List.mem_singleton.mp mem).symm

/-- Deleting a file frees exactly the blocks of the file, unless a pointer of
the inode carries a checksum that is not zero. -/
theorem itrunc_deletes_iff (limit : Nat) (N : Nat → Dinode) (d : Disk)
    (ip : Inode) (deletable : d.Deletable limit N ip) :
    (∃ ip' d', itrunc ip d = .ok (ip', d') ∧ ip.Deleted d ip' d') ↔
      (ip.type = T_CHECKED → ∀ s, d.ptr ip.toDinode s < 2 ^ 24) := by
  have owned := deletable.owned
  constructor
  · rintro ⟨ip', d', run, deleted⟩ _ s
    by_contra tagged
    have spared := wp_ok (wp_itrunc_spares deletable (Nat.le_of_not_lt tagged)) run
    have real := owned.real ip.inum s
    rw [deletable.here] at real
    have clear := (deleted.cleared (d.block ip.toDinode s) ⟨real (by omega), s, rfl⟩).1
    rw [spared] at clear
    exact Bool.noConfusion clear
  · intro bare
    apply itrunc_deletes deletable
    intro s
    by_cases checked : ip.type = T_CHECKED
    · exact realAddr_of_lt (bare checked s) _
    · exact if_neg checked

end Delete

/-! ## One file on a small disk -/

/-- The inodes of a disk with a single file. -/
def single (ip : Inode) : Nat → Dinode :=
  Function.update (fun _ => Dinode.blank) ip.inum ip.toDinode

theorem Disk.Owned.single {limit : Nat} {d : Disk} {ip : Inode}
    (owned : d.Owned limit fun _ : Unit => ip.toDinode) : d.Owned limit (Fs.single ip) := by
  have here : Fs.single ip ip.inum = ip.toDinode := Function.update_self ..
  have elsewhere : ∀ j, j ≠ ip.inum → Fs.single ip j = Dinode.blank :=
    fun j other => Function.update_of_ne other ..
  have null : ∀ j s, j ≠ ip.inum → d.ptr (Fs.single ip j) s = 0 := by
    intro j s other
    rw [elsewhere j other]
    exact ptr_null (fun _ => rfl) d s
  have noBlock : ∀ j s, d.block (Fs.single ip j) s ≠ 0 → j = ip.inum := by
    intro j s some
    by_contra other
    exact ptr_ne_zero some (null j s other)
  refine { owned with plain := ?_, real := ?_, inData := ?_, exclusive := ?_ }
  · intro j
    by_cases same : j = ip.inum
    · rw [same, here]
      exact owned.plain ()
    · rw [elsewhere j same]
      decide
  · intro j s some
    by_cases same : j = ip.inum
    · rw [same, here] at some ⊢
      exact owned.real () s some
    · exact absurd (null j s same) some
  · intro j s some
    have same := noBlock j s some
    rw [same, here] at some ⊢
    exact owned.inData () s some
  · rintro ⟨i, s⟩ ⟨j, t⟩ some same
    dsimp only at same some
    have first := noBlock i s some
    have second := noBlock j t (by rw [← same]; exact some)
    rw [first, here] at some
    rw [first, second, here] at same
    have slot := owned.exclusive ((), s) ((), t) some same
    rw [first, second, (Prod.mk.inj slot).2]

theorem sample_write (src : List UInt8) (bound : src.length ≤ BSIZE) :
    ∃ ip d, writei sampleInode src 0 sampleDisk = .ok (((src.length : Int), ip), d) ∧
      d.Deletable sampleDisk.superblock.size (single ip) ip := by
  have opened := opened_empty sampleDisk_formatted rfl sampleInode_empty sampleInode_inum
  have room : blocksFor src.length ≤ sampleDisk.freeCount sampleDisk.superblock.size := by
    rw [sampleDisk_free]
    unfold blocksFor
    simp only [BSIZE, NDIRECT] at *
    split <;> omega
  have start : 0 ≤ ([] : List UInt8).length := Nat.zero_le _
  have fits : 0 + src.length ≤ BSIZE * MAXFILE := by
    simp only [BSIZE, MAXFILE, NDIRECT, NINDIRECT] at *
    omega
  have run := wp_returns (wp_writei_checked opened start fits ?_ ?_)
  · obtain ⟨⟨result, ip⟩, d, run, value, after, touched⟩ := run
    dsimp only at value after touched
    rw [value] at run
    refine ⟨ip, d, run, ?_⟩
    exact {
      owned := after.file.owned.single
      here := Function.update_self ..
      idle := after.file.idle
      small := after.inum
      bitmap := by
        rw [touched.superblock, sampleDisk_superblock]
        decide }
  · intro k _ less
    rw [Nat.div_eq_of_lt (by omega)]
    decide +kernel
  · rw [List.length_nil, Nat.zero_add, Nat.zero_max]
    exact room.trans (Nat.le_add_right _ _)

/-- The inode and the disk that a write leaves. -/
def leaves (P : Inode → Disk → Bool) : Except FsPanic ((Int × Inode) × Disk) → Bool
  | .ok ((_, ip), d) => P ip d
  | .error _ => false

/-- Whether `itrunc` finds a block that is free already. -/
def freesFree (ip : Inode) (d : Disk) : Bool :=
  match itrunc ip d with
  | .error .bfree => true
  | _ => false

/-- Two bytes that cancel out leave the pointer bare, and the file is deleted
as it should be. -/
theorem cancelling_file_is_deleted :
    ∃ ip d, writei sampleInode [1, 1] 0 sampleDisk = .ok ((2, ip), d) ∧
      ip.type = T_CHECKED ∧ d.Belongs ip.toDinode 5 ∧
      d.Deletable sampleDisk.superblock.size (single ip) ip ∧
      ∃ ip' d', itrunc ip d = .ok (ip', d') ∧ ip.Deleted d ip' d' := by
  obtain ⟨ip, d, run, deletable⟩ := sample_write [1, 1] (by decide)
  have facts : leaves (fun ip _ => ip.type = T_CHECKED ∧ ip.addrs 0 = 5 ∧
      ip.addrs INDIRECT = 0 ∧ ∀ a, ip.addrs a < 2 ^ 24)
      (writei sampleInode [1, 1] 0 sampleDisk) = true := by
    decide +kernel
  rw [run] at facts
  obtain ⟨type, first, none, small⟩ := of_decide_eq_true facts
  refine ⟨ip, d, run, type, ⟨by decide, .addr 0, ?_⟩, deletable, ?_⟩
  · unfold block ptr
    change realAddr (ip.addrs 0) ip.type = 5
    rw [first, type]
    decide
  · apply (itrunc_deletes_iff _ _ d ip deletable).mpr
    intro _ s
    cases s with
    | addr a => exact small a
    | entry j =>
      rw [ptr_entry_none none]
      decide

/-- One byte that does not: `itrunc` frees block number `0x1000005`, finds the
bit of that number clear, and panics. -/
theorem checked_file_is_not_deleted :
    ∃ ip d, writei sampleInode [1] 0 sampleDisk = .ok ((1, ip), d) ∧
      d.Deletable sampleDisk.superblock.size (single ip) ip ∧
      ip.addrs 0 = 0x1000005 ∧
      itrunc ip d = .error .bfree := by
  obtain ⟨ip, d, run, deletable⟩ := sample_write [1] (by decide)
  have facts : leaves (fun ip d => ip.addrs 0 = 0x1000005 ∧ freesFree ip d)
      (writei sampleInode [1] 0 sampleDisk) = true := by
    decide +kernel
  rw [run] at facts
  obtain ⟨pointer, panics⟩ := of_decide_eq_true facts
  refine ⟨ip, d, run, deletable, pointer, ?_⟩
  unfold freesFree at panics
  split at panics
  · assumption
  · exact Bool.noConfusion panics

end Xv6.Fs
