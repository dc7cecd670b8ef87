/-
Purpose: Which disk blocks the pointers of a family of inodes own, and what
  `bmap` does to that ownership.
-/
import Xv6.Proofs.FsDisk
import Xv6.Lib.Pool
import Mathlib.Data.Fintype.Sum
import Mathlib.Tactic.DeriveFintype

namespace Xv6.Fs

open Function Bytes PanicM
open Finset (mem_range)
open Or (inl inr)

variable {bn : Nat}

/-!
The inodes are a family `N`, so that one development serves a single file and
all inodes of a disk.  A block number counts as owned after its top byte has
been taken off where the file is checksummed.  `limit` bounds the blocks that
`balloc` hands out: the size of the disk as long as free blocks remain, and
otherwise the end of the bitmap.
-/

/-- The place of a block pointer: in the inode or in its indirect block. -/
inductive PtrSlot where
  | addr (i : Fin (NDIRECT + 1))
  | entry (j : Fin NINDIRECT)
deriving DecidableEq, Fintype

/-- Place of the pointer to the indirect block. -/
abbrev PtrSlot.indirect : PtrSlot := .addr INDIRECT

/-- Place of the pointer to block `bn` of a file. -/
def PtrSlot.file (bn : Nat) : PtrSlot :=
  if small : bn < NDIRECT then .addr (direct bn small)
  else .entry (Fin.ofNat NINDIRECT (bn - NDIRECT))

namespace Disk

variable (d : Disk)

/-- A block pointer, top byte included. -/
def ptr (dn : Dinode) : PtrSlot → Nat
  | .addr i => dn.addrs i
  | .entry j =>
    if dn.addrs INDIRECT = 0 then 0
    else word32 (d.sectors (dn.addrs INDIRECT)) (4 * j)

/-- The block a pointer leads to. -/
def block (dn : Dinode) (s : PtrSlot) : Nat := realAddr (d.ptr dn s) dn.type

/-- The bytes behind a pointer: zeros where there is no block. -/
def view (dn : Dinode) (s : PtrSlot) : Bytes.Store :=
  fun i => if d.ptr dn s = 0 then 0 else d.sectors (d.block dn s) i

/-- Free blocks below `limit`. -/
def freeCount (limit : Nat) : Nat :=
  ((Finset.range limit).filter fun b => d.used b = false).card

/-- Blocks an inode has pointers to. -/
def claimed (dn : Dinode) : Nat :=
  (Finset.univ.filter fun s => d.ptr dn s ≠ 0).card

/-- The pointers of the inodes of `N` lead to blocks of the data area, each
marked in the bitmap and none with two pointers; the blocks that are not
marked are zero. -/
structure Owned {ι : Type} (limit : Nat) (N : ι → Dinode) : Prop where
  fits : d.dataStart ≤ d.superblock.size
  limit_le : limit ≤ d.bitmapEnd
  limit_small : limit ≤ 2 ^ 24
  metadata : ∀ b < d.dataStart, d.used b = true
  free_zero : ∀ b < limit, d.used b = false → d.IsZero b
  plain : ∀ i, (N i).addrs INDIRECT < 2 ^ 24
  real : ∀ i s, d.ptr (N i) s ≠ 0 → d.block (N i) s ≠ 0
  inData : ∀ i s, d.block (N i) s ≠ 0 → d.dataStart ≤ d.block (N i) s ∧
    d.block (N i) s < limit ∧ d.used (d.block (N i) s) = true
  exclusive : Pool.Exclusive fun k : ι × PtrSlot => d.block (N k.1) k.2

end Disk

/-! ## Pointers with a checksum -/

theorem realAddr_checked (addr : Nat) : realAddr addr T_CHECKED = addr % 2 ^ 24 := by
  unfold realAddr
  rw [if_pos rfl, show (0x00FFFFFF : Nat) = 2 ^ 24 - 1 from rfl, Nat.and_two_pow_sub_one_eq_mod]

theorem realAddr_of_lt {addr : Nat} (small : addr < 2 ^ 24) (type : UInt16) :
    realAddr addr type = addr := by
  by_cases checked : type = T_CHECKED
  · rw [checked, realAddr_checked, Nat.mod_eq_of_lt small]
  · exact if_neg checked

@[simp] theorem realAddr_zero (type : UInt16) : realAddr 0 type = 0 :=
  realAddr_of_lt (by decide) type

theorem synthAddr_eq (addr : Nat) (chksum : UInt8) :
    synthAddr addr chksum = 2 ^ 24 * chksum.toNat + addr % 2 ^ 24 := by
  unfold synthAddr
  rw [realAddr_checked, Nat.shiftLeft_eq, Nat.mul_comm,
    Nat.two_pow_add_eq_or_of_lt (Nat.mod_lt _ (by decide))]

theorem synthAddr_lt (addr : Nat) (chksum : UInt8) : synthAddr addr chksum < 2 ^ 32 := by
  have top := chksum.toNat_lt
  rw [synthAddr_eq]
  omega

@[simp] theorem realAddr_synthAddr (addr : Nat) (chksum : UInt8) :
    realAddr (synthAddr addr chksum) T_CHECKED = realAddr addr T_CHECKED := by
  rw [realAddr_checked, realAddr_checked, synthAddr_eq]
  omega

@[simp] theorem getChecksum_synthAddr (addr : Nat) (chksum : UInt8) :
    getChecksum (synthAddr addr chksum) = chksum := by
  have quotient : (2 ^ 24 * chksum.toNat + addr % 2 ^ 24) / 2 ^ 24 =
      chksum.toNat := by omega
  unfold getChecksum
  rw [synthAddr_eq, Nat.shiftRight_eq_div_pow, quotient, UInt8.ofNat_toNat]

/-! ## Places of pointers -/

theorem PtrSlot.file_ne_indirect (bn : Nat) : PtrSlot.file bn ≠ .indirect := by
  unfold PtrSlot.file
  split
  case isTrue small =>
    intro same
    have index := congrArg Fin.val (PtrSlot.addr.inj same)
    exact absurd index (Nat.ne_of_lt small)
  case isFalse => exact PtrSlot.noConfusion

theorem PtrSlot.file_inj {bn' : Nat} (small : bn < MAXFILE)
    (small' : bn' < MAXFILE) (same : PtrSlot.file bn = PtrSlot.file bn') : bn = bn' := by
  unfold PtrSlot.file at same
  by_cases first : bn < NDIRECT <;> by_cases second : bn' < NDIRECT
  · rw [dif_pos first, dif_pos second] at same
    exact congrArg Fin.val (PtrSlot.addr.inj same)
  · rw [dif_pos first, dif_neg second] at same
    exact PtrSlot.noConfusion same
  · rw [dif_neg first, dif_pos second] at same
    exact PtrSlot.noConfusion same
  · rw [dif_neg first, dif_neg second] at same
    have index := congrArg Fin.val (PtrSlot.entry.inj same)
    simp only [Fin.ofNat, NDIRECT, NINDIRECT, MAXFILE] at *
    omega

theorem PtrSlot.file_direct (small : bn < NDIRECT) :
    PtrSlot.file bn = .addr (direct bn small) := dif_pos small

theorem PtrSlot.file_entry (beyond : ¬ bn < NDIRECT) (inRange : bn - NDIRECT < NINDIRECT) :
    PtrSlot.file bn = .entry ⟨bn - NDIRECT, inRange⟩ := by
  unfold PtrSlot.file
  rw [dif_neg beyond]
  congr 1
  exact Fin.ext (Nat.mod_eq_of_lt inRange)

/-- Every pointer but the one to the indirect block is that of a file
block. -/
theorem PtrSlot.exists_file {s : PtrSlot} (data : s ≠ .indirect) :
    ∃ bn < MAXFILE, s = .file bn := by
  cases s with
  | addr a =>
    have small : (a : Nat) < NDIRECT := by
      apply Nat.lt_of_le_of_ne (Nat.le_of_lt_succ a.isLt)
      intro same
      exact data (congrArg PtrSlot.addr (Fin.ext same))
    exact ⟨a, small.trans_le (by decide), (PtrSlot.file_direct small).symm⟩
  | entry j =>
    have beyond : ¬ NDIRECT + (j : Nat) < NDIRECT := by omega
    have index : NDIRECT + (j : Nat) - NDIRECT = j := Nat.add_sub_cancel_left ..
    refine ⟨NDIRECT + j, Nat.add_lt_add_left j.isLt _, ?_⟩
    rw [PtrSlot.file_entry beyond (by rw [index]; exact j.isLt)]
    exact congrArg PtrSlot.entry (Fin.ext index.symm)

theorem direct_ne_indirect (small : bn < NDIRECT) : INDIRECT ≠ direct bn small := by
  intro same
  have index := congrArg Fin.val same
  exact absurd index.symm (Nat.ne_of_lt small)

theorem setAddr_self (ip : Inode) (a : Fin (NDIRECT + 1)) (b : Nat) :
    (ip.setAddr a b).addrs a = b := by
  unfold Inode.setAddr
  exact update_self ..

theorem setAddr_of_ne {a a' : Fin (NDIRECT + 1)} (ne : a' ≠ a)
    (ip : Inode) (b : Nat) : (ip.setAddr a b).addrs a' = ip.addrs a' := by
  unfold Inode.setAddr
  exact update_of_ne ne ..

/-! ## Changes of ownership -/

namespace Disk

variable {d d' : Disk} {dn : Dinode}
variable {dn' : Dinode}

@[simp] theorem ptr_addr (d : Disk) (dn : Dinode) (i : Fin (NDIRECT + 1)) :
    d.ptr dn (.addr i) = dn.addrs i := rfl

theorem ptr_entry_none (none : dn.addrs INDIRECT = 0) (j : Fin NINDIRECT) :
    d.ptr dn (.entry j) = 0 := if_pos none

theorem ptr_entry_some (some : dn.addrs INDIRECT ≠ 0) (j : Fin NINDIRECT) : d.ptr dn (.entry j) =
      word32 (d.sectors (dn.addrs INDIRECT)) (4 * j) := if_neg some

theorem ptr_congr (same : dn.addrs INDIRECT ≠ 0 →
    d'.sectors (dn.addrs INDIRECT) = d.sectors (dn.addrs INDIRECT))
    (s : PtrSlot) : d'.ptr dn s = d.ptr dn s := by
  cases s with
  | addr i => rfl
  | entry j =>
    by_cases none : dn.addrs INDIRECT = 0
    · rw [ptr_entry_none none, ptr_entry_none none]
    · rw [ptr_entry_some none, ptr_entry_some none, same none]

theorem ptr_addrs (same : dn'.addrs = dn.addrs) (d : Disk)
    (s : PtrSlot) : d.ptr dn' s = d.ptr dn s := by
  cases s with
  | addr a => exact congrFun same a
  | entry j =>
    unfold ptr
    rw [same]

theorem block_addrs (type : dn'.type = dn.type)
    (addrs : dn'.addrs = dn.addrs) (d : Disk) (s : PtrSlot) : d.block dn' s = d.block dn s := by
  unfold block
  rw [ptr_addrs addrs, type]

theorem view_addrs (type : dn'.type = dn.type)
    (addrs : dn'.addrs = dn.addrs) (d : Disk) (s : PtrSlot) : d.view dn' s = d.view dn s := by
  unfold view
  rw [ptr_addrs addrs, block_addrs type addrs]

theorem ptr_null (null : ∀ a, dn.addrs a = 0) (d : Disk) (s : PtrSlot) : d.ptr dn s = 0 := by
  cases s with
  | addr a => exact null a
  | entry j => exact ptr_entry_none (null INDIRECT) j

theorem block_null (null : ∀ a, dn.addrs a = 0) (d : Disk) (s : PtrSlot) : d.block dn s = 0 := by
  unfold block
  rw [ptr_null null, realAddr_zero]

theorem ptr_ne_zero {s : PtrSlot} (some : d.block dn s ≠ 0) : d.ptr dn s ≠ 0 := by
  intro none
  unfold block at some
  rw [none, realAddr_zero] at some
  exact some rfl

/-- Pointers of an inode some of whose pointers have been given up. -/
theorem ptr_shrink (kept : ∀ a, dn'.addrs a = 0 ∨ dn'.addrs a = dn.addrs a) (d : Disk)
    (s : PtrSlot) : d.ptr dn' s = 0 ∨ d.ptr dn' s = d.ptr dn s := by
  cases s with
  | addr a => exact kept a
  | entry j =>
    rcases kept INDIRECT with none | same
    · exact inl (ptr_entry_none none j)
    · unfold ptr
      rw [same]
      exact inr rfl

theorem block_shrink (kept : ∀ a, dn'.addrs a = 0 ∨ dn'.addrs a = dn.addrs a)
    (type : dn'.type = dn.type ∨ ∀ a, dn'.addrs a = 0) (d : Disk)
    (s : PtrSlot) : d.block dn' s = 0 ∨ d.block dn' s = d.block dn s := by
  unfold block
  rcases type with same | null
  · rw [same]
    rcases ptr_shrink kept d s with none | pointer
    · rw [none]
      exact inl (realAddr_zero _)
    · rw [pointer]
      exact inr rfl
  · rw [ptr_null null]
    exact inl (realAddr_zero _)

theorem ptr_setAddr {a : Fin (NDIRECT + 1)} (direct : INDIRECT ≠ a)
    (d : Disk) (ip : Inode) (addr : Nat) (s : PtrSlot) :
    d.ptr (ip.setAddr a addr).toDinode s = if s = .addr a then addr else d.ptr ip.toDinode s := by
  have indirect := setAddr_of_ne direct ip addr
  cases s with
  | addr a' =>
    rw [ptr_addr, ptr_addr]
    by_cases same : a' = a
    · rw [same, setAddr_self, if_pos rfl]
    · rw [setAddr_of_ne same, if_neg (fun equal => same (PtrSlot.addr.inj equal))]
  | entry j =>
    rw [if_neg PtrSlot.noConfusion]
    by_cases none : ip.addrs INDIRECT = 0
    · rw [ptr_entry_none none, ptr_entry_none (indirect.trans none)]
    · rw [ptr_entry_some none, ptr_entry_some (by rw [indirect]; exact none), indirect]

theorem ptr_setEntry (some : dn.addrs INDIRECT ≠ 0) (j : Fin NINDIRECT)
    {addr : Nat} (small : addr < 2 ^ 32) (d : Disk) (s : PtrSlot) :
    (d.setSector (dn.addrs INDIRECT) (put (d.sectors (dn.addrs INDIRECT)) (4 * j)
        (le32 addr))).ptr dn s =
      if s = .entry j then addr else d.ptr dn s := by
  cases s with
  | addr a =>
    rw [if_neg PtrSlot.noConfusion]
    rfl
  | entry j' =>
    rw [ptr_entry_some some, ptr_entry_some some, setSector_self]
    by_cases same : j' = j
    · rw [same, if_pos rfl, word32_put_le32 small]
    · have apart : (j' : Nat) ≠ j := fun equal => same (Fin.ext equal)
      rw [if_neg (fun equal => same (PtrSlot.entry.inj equal)), word32_put_outside]
      change 4 * (j' : Nat) + 4 ≤ 4 * j ∨ 4 * (j : Nat) + 4 ≤ 4 * j'
      omega

theorem bitmapEnd_ge (d : Disk) : d.superblock.size ≤ d.bitmapEnd := by
  unfold bitmapEnd
  simp only [BPB]
  omega

theorem dataStart_congr (same : d'.superblock = d.superblock) : d'.dataStart = d.dataStart := by
  unfold dataStart
  rw [same]

theorem bitmapEnd_congr (same : d'.superblock = d.superblock) : d'.bitmapEnd = d.bitmapEnd := by
  unfold bitmapEnd
  rw [same]

theorem take_sectors_of_ne {b x : Nat} (apart : x ≠ bblock b d.superblock.ninodes) :
    (d.take b).sectors x = d.sectors x := setSector_of_ne apart ..

theorem freeCount_congr {limit : Nat} (same : ∀ b < limit, d'.used b = d.used b) :
    d'.freeCount limit = d.freeCount limit := by
  apply congrArg Finset.card
  apply Finset.filter_congr
  intro b mem
  rw [same b (mem_range.mp mem)]

theorem claimed_congr (same : ∀ s, d'.ptr dn' s = 0 ↔ d.ptr dn s = 0) :
    d'.claimed dn' = d.claimed dn := by
  apply congrArg Finset.card
  apply Finset.filter_congr
  intro s _
  exact not_congr (same s)

theorem freeCount_take {limit b : Nat} (small : b < limit) (clear : d.used b = false) :
    d.freeCount limit = (d.take b).freeCount limit + 1 := by
  apply Pool.card_filter_succ (mem_range.mpr small) clear
  · rw [used_take, if_pos rfl]
    simp
  · intro c _ ne
    rw [used_take, if_neg ne]

namespace Owned

variable {ι : Type} {limit : Nat} {N N' : ι → Dinode}
variable {j : ι} {n : Nat}

section

variable (owned : d.Owned limit N)
include owned

theorem congr_sectors (same : d'.sectors = d.sectors) : d'.Owned limit N := by
  obtain ⟨sectors, held, given⟩ := d
  obtain ⟨sectors', held', given'⟩ := d'
  cases same
  exact ⟨owned.fits, owned.limit_le, owned.limit_small, owned.metadata,
    owned.free_zero, owned.plain, owned.real, owned.inData, owned.exclusive⟩

theorem shrink (kept : ∀ i a, (N' i).addrs a = 0 ∨ (N' i).addrs a = (N i).addrs a)
    (type : ∀ i, (N' i).type = (N i).type ∨ ∀ a, (N' i).addrs a = 0) : d.Owned limit N' := by
  have ptr := fun i => ptr_shrink (kept i) d
  have block := fun i => block_shrink (kept i) (type i) d
  refine { owned with plain := ?_, real := ?_, inData := ?_, exclusive := ?_ }
  · intro i
    rcases kept i INDIRECT with none | same
    · rw [none]
      decide
    · rw [same]
      exact owned.plain i
  · intro i s some
    have pointer := (ptr i s).resolve_left some
    rcases type i with same | none
    · unfold Disk.block
      rw [pointer, same]
      exact owned.real i s (by rw [← pointer]; exact some)
    · exact absurd (ptr_null none d s) some
  · intro i s some
    have same := (block i s).resolve_left some
    rw [same] at some ⊢
    exact owned.inData i s some
  · exact owned.exclusive.shrink fun k => block k.1 k.2

theorem congr_addrs (addrs : ∀ i, (N' i).addrs = (N i).addrs)
    (type : ∀ i, (N' i).type = (N i).type) : d.Owned limit N' :=
  owned.shrink (fun i a => inr (congrFun (addrs i) a)) fun i => inl (type i)

theorem congr_update [DecidableEq ι] {i : ι} (addrs : dn.addrs = (N i).addrs)
    (type : dn.type = (N i).type) : d.Owned limit (update N i dn) := by
  apply owned.congr_addrs
  · intro j
    by_cases here : j = i
    · rw [here, update_self, addrs]
    · rw [update_of_ne here]
  · intro j
    by_cases here : j = i
    · rw [here, update_self, type]
    · rw [update_of_ne here]

theorem block_indirect (i : ι) : d.block (N i) .indirect = (N i).addrs INDIRECT :=
  realAddr_of_lt (owned.plain i) _

theorem indirect {i : ι} (some : (N i).addrs INDIRECT ≠ 0) :
    d.dataStart ≤ (N i).addrs INDIRECT ∧ (N i).addrs INDIRECT < limit ∧
      d.used ((N i).addrs INDIRECT) = true := by
  have claim := owned.block_indirect i
  rw [← claim] at some ⊢
  exact owned.inData i .indirect some

theorem free_high {b : Nat} (clear : d.used b = false) : d.dataStart ≤ b := by
  by_contra low
  rw [owned.metadata b (Nat.lt_of_not_le low)] at clear
  exact Bool.noConfusion clear

theorem unclaimed {b : Nat} (clear : d.used b = false) (i : ι) (s : PtrSlot) :
    d.block (N i) s ≠ b := by
  rintro rfl
  have low := owned.free_high clear
  have pos := d.one_lt_dataStart
  rw [(owned.inData i s (by omega)).2.2] at clear
  exact Bool.noConfusion clear

/-- Two inodes, or two pointers of one inode, lead to different blocks. -/
theorem block_ne {i : ι} {s t : PtrSlot} (some : d.block (N i) s ≠ 0) (ne : (i, s) ≠ (j, t)) :
    d.block (N i) s ≠ d.block (N j) t := by
  intro same
  exact ne (owned.exclusive (i, s) (j, t) some same)

/-- No other pointer leads to an indirect block. -/
theorem apart {i : ι} {s : PtrSlot} (some : d.block (N j) s ≠ 0) (ne : (j, s) ≠ (i, .indirect)) :
    d.block (N j) s ≠ (N i).addrs INDIRECT := by
  have distinct := owned.block_ne some ne
  rw [owned.block_indirect i] at distinct
  exact distinct

theorem free_apart (i : ι) {b : Nat} (clear : d.used b = false) : b ≠ (N i).addrs INDIRECT := by
  have distinct := owned.unclaimed clear i .indirect
  rw [owned.block_indirect i] at distinct
  exact distinct.symm

/-- Where only the indirect block of inode `i` changes, the pointers of the
other inodes do not. -/
theorem ptr_other {i : ι} (other : j ≠ i) (still : ∀ x, d.dataStart ≤ x → x ≠ (N i).addrs INDIRECT →
      d'.sectors x = d.sectors x) (s : PtrSlot) : d'.ptr (N j) s = d.ptr (N j) s := by
  apply ptr_congr
  intro some
  apply still _ (owned.indirect some).1
  have claim := owned.block_indirect j
  have distinct := owned.apart (i := i) (j := j) (s := .indirect)
    (by rw [claim]; exact some) (fun pair => other (congrArg Prod.fst pair))
  rw [claim] at distinct
  exact distinct

theorem change (superblock : d'.superblock = d.superblock)
    (used : ∀ b < d.bitmapEnd, d'.used b = d.used b)
    (zero : ∀ b < limit, d.used b = false → d'.IsZero b)
    (plain : ∀ i, (N' i).addrs INDIRECT < 2 ^ 24)
    (real : ∀ i s, d'.ptr (N' i) s ≠ 0 → d'.block (N' i) s ≠ 0) (k : ι × PtrSlot)
    (kept : ∀ l, l ≠ k → d'.block (N' l.1) l.2 = 0 ∨ d'.block (N' l.1) l.2 = d.block (N l.1) l.2)
    (new : d'.block (N' k.1) k.2 = 0 ∨ d'.block (N' k.1) k.2 = d.block (N k.1) k.2 ∨
      ((∀ l : ι × PtrSlot, d.block (N l.1) l.2 ≠ d'.block (N' k.1) k.2) ∧
        d.dataStart ≤ d'.block (N' k.1) k.2 ∧
        d'.block (N' k.1) k.2 < limit ∧
        d.used (d'.block (N' k.1) k.2) = true)) : d'.Owned limit N' where
  fits := by
    rw [dataStart_congr superblock, superblock]
    exact owned.fits
  limit_le := by
    rw [bitmapEnd_congr superblock]
    exact owned.limit_le
  limit_small := owned.limit_small
  metadata := by
    intro b low
    rw [dataStart_congr superblock] at low
    rw [used b (low.trans_le (owned.fits.trans d.bitmapEnd_ge))]
    exact owned.metadata b low
  free_zero := by
    intro b small clear
    rw [used b (small.trans_le owned.limit_le)] at clear
    exact zero b small clear
  plain := plain
  real := real
  inData := by
    intro i s some
    rw [dataStart_congr superblock]
    have old : ∀ (j : ι) (t : PtrSlot), d'.block (N' i) s = d.block (N j) t →
        d.dataStart ≤ d'.block (N' i) s ∧ d'.block (N' i) s < limit ∧
          d'.used (d'.block (N' i) s) = true := by
      intro j t same
      have inside := owned.inData j t (by rw [← same]; exact some)
      rw [← same] at inside
      rw [used _ (inside.2.1.trans_le owned.limit_le)]
      exact inside
    by_cases here : (i, s) = k
    · subst here
      rcases new with none | same | ⟨_, low, small, marked⟩
      · exact absurd none some
      · exact old i s same
      · rw [used _ (small.trans_le owned.limit_le)]
        exact ⟨low, small, marked⟩
    · exact old i s ((kept (i, s) here).resolve_left some)
  exclusive := by
    apply owned.exclusive.change k kept
    rcases new with none | same | ⟨fresh, _⟩
    · exact inl none
    · exact inr (inl same)
    · exact inr (inr fresh)

theorem keep (superblock : d'.superblock = d.superblock)
    (ptr : ∀ i s, d'.ptr (N i) s = d.ptr (N i) s)
    (used : ∀ b < d.bitmapEnd, b < d.dataStart ∨ (∃ i s, d.block (N i) s = b) →
      d.used b = true → d'.used b = true)
    (zero : ∀ b < limit, d'.used b = false → d'.IsZero b) : d'.Owned limit N := by
  have block : ∀ i s, d'.block (N i) s = d.block (N i) s :=
    fun i s => congrArg (realAddr · (N i).type) (ptr i s)
  constructor
  case fits =>
    rw [dataStart_congr superblock, superblock]
    exact owned.fits
  case limit_le =>
    rw [bitmapEnd_congr superblock]
    exact owned.limit_le
  case limit_small => exact owned.limit_small
  case metadata =>
    intro b low
    rw [dataStart_congr superblock] at low
    have inside := low.trans_le (owned.fits.trans d.bitmapEnd_ge)
    exact used b inside (inl low) (owned.metadata b low)
  case free_zero => exact zero
  case plain => exact owned.plain
  case real =>
    intro i s some
    rw [ptr] at some
    rw [block]
    exact owned.real i s some
  case inData =>
    intro i s some
    rw [block] at some ⊢
    rw [dataStart_congr superblock]
    obtain ⟨low, small, marked⟩ := owned.inData i s some
    exact ⟨low, small, used _ (small.trans_le owned.limit_le) (inr ⟨i, s, rfl⟩) marked⟩
  case exclusive => exact owned.exclusive.shrink fun k => inr (block k.1 k.2)

theorem take {b : Nat} (small : b < limit)
    (clear : d.used b = false) : (d.take b).Owned limit N := by
  have bitmap := d.bblock_lt_dataStart (small.trans_le owned.limit_le)
  have sectors : ∀ x, d.dataStart ≤ x → (d.take b).sectors x = d.sectors x :=
    fun x high => take_sectors_of_ne (by omega)
  apply owned.keep (d.superblock_take b)
  case ptr => exact fun i s => ptr_congr (fun some => sectors _ (owned.indirect some).1) s
  case used =>
    intro c _ _ marked
    rw [used_take, marked, ite_self]
  case zero =>
    intro c less unused
    rw [used_take] at unused
    have apart : c ≠ b := by
      rintro rfl
      simp at unused
    rw [if_neg apart] at unused
    intro j inside
    rw [sectors c (owned.free_high unused)]
    exact owned.free_zero c less unused j inside

theorem write {x : Nat} {bytes : Bytes.Store} (high : 1 < x)
    (above : d.dataStart ≤ x ∨ (1 < x ∧ x < d.superblock.ninodes / IPB + 3))
    (ptr : ∀ i s, (d.setSector x bytes).ptr (N i) s = d.ptr (N i) s)
    (apart : ∀ b, d.used b = false → b ≠ x) : (d.setSector x bytes).Owned limit N := by
  apply owned.keep (superblock_setSector high ..) ptr
  case used =>
    intro b inside _ marked
    rw [used_setSector above bytes inside, marked]
  case zero =>
    intro b small clear k less
    rw [used_setSector above bytes (small.trans_le owned.limit_le)] at clear
    rw [setSector_of_ne (apart b clear)]
    exact owned.free_zero b small clear k less

theorem ptr_setInode (small : n < d.superblock.ninodes) (bytes : Bytes.Store) (j : ι)
    (t : PtrSlot) : (d.setSector (iblock n) bytes).ptr (N j) t = d.ptr (N j) t := by
  apply ptr_congr
  intro some
  apply setSector_of_ne
  have low := d.iblock_lt_dataStart small
  have high := (owned.indirect some).1
  omega

theorem setInode (small : n < d.superblock.ninodes) (bytes : Bytes.Store) :
    (d.setSector (iblock n) bytes).Owned limit N := by
  have low := d.iblock_lt_dataStart small
  have high := one_lt_iblock n
  refine owned.write high (inr ⟨high, iblock_lt small⟩) (owned.ptr_setInode small bytes) ?_
  intro b clear
  have data := owned.free_high clear
  omega

end

section Data

variable {i : ι} {s : PtrSlot} (owned : d.Owned limit N) (data : s ≠ .indirect)
  (some : d.block (N i) s ≠ 0) (bytes : Bytes.Store)
include owned data some

theorem ptr_setData (j : ι) (t : PtrSlot) :
    (d.setSector (d.block (N i) s) bytes).ptr (N j) t = d.ptr (N j) t := by
  apply ptr_congr
  intro _
  apply setSector_of_ne
  rw [← owned.block_indirect j]
  apply Ne.symm
  apply owned.block_ne some
  intro pair
  exact data (congrArg Prod.snd pair)

theorem block_setData (j : ι) (t : PtrSlot) :
    (d.setSector (d.block (N i) s) bytes).block (N j) t = d.block (N j) t :=
  congrArg (realAddr · (N j).type) (owned.ptr_setData data some bytes j t)

theorem setData : (d.setSector (d.block (N i) s) bytes).Owned limit N := by
  have inside := owned.inData i s some
  have pos := d.one_lt_dataStart
  refine owned.write (by omega) (inl inside.1) (owned.ptr_setData data some bytes) ?_
  exact fun b clear => Ne.symm (owned.unclaimed clear i s)

theorem view_setData [DecidableEq ι] (j : ι) (t : PtrSlot) :
    (d.setSector (d.block (N i) s) bytes).view (N j) t =
      if (j, t) = (i, s) then bytes else d.view (N j) t := by
  funext k
  unfold view
  rw [owned.ptr_setData data some, owned.block_setData data some]
  by_cases here : (j, t) = (i, s)
  · obtain ⟨rfl, rfl⟩ := Prod.mk.inj here
    rw [if_neg (ptr_ne_zero some), setSector_self, if_pos rfl]
  · rw [if_neg here]
    refine ite_congr rfl (fun _ => rfl) fun real => ?_
    rw [setSector_of_ne (owned.block_ne (owned.real j t real) here)]

end Data

end Owned

end Disk

/-! ## What `bmap` does -/

section Grown

variable {ι : Type} [DecidableEq ι] {limit : Nat} {N : ι → Dinode} {i : ι}
  {d d' d'' : Disk} {ip ip' ip'' : Inode}

variable {a : Fin (NDIRECT + 1)} {j : Fin NINDIRECT} {need : Nat}

/-- Inode `i` of the family may have been given new blocks, all of them zero;
everything else is as it was. -/
structure Grown (limit : Nat) (N : ι → Dinode) (i : ι) (d : Disk)
    (ip : Inode) (d' : Disk) (ip' : Inode) : Prop where
  owned : d'.Owned limit (update N i ip'.toDinode)
  superblock : d'.superblock = d.superblock
  held : d'.held = d.held
  given : ∀ b ∈ d.given, b ∈ d'.given
  rest : ip' = { ip with addrs := ip'.addrs }
  used : ∀ b < d.bitmapEnd, d.used b = true → d'.used b = true
  kept : ∀ s, d.ptr ip.toDinode s ≠ 0 → d'.ptr ip'.toDinode s = d.ptr ip.toDinode s
  fresh : ∀ s, d.ptr ip.toDinode s = 0 → d'.ptr ip'.toDinode s ≠ 0 →
    d'.ptr ip'.toDinode s < 2 ^ 24 ∧ d'.ptr ip'.toDinode s ∈ d'.given
  view : ∀ s, s ≠ .indirect → ∀ j < BSIZE, d'.view ip'.toDinode s j = d.view ip.toDinode s j
  sectors : ∀ x, d'.sectors x ≠ d.sectors x →
    (∃ b < d.bitmapEnd, x = bblock b d.superblock.ninodes) ∨ (x = ip'.addrs INDIRECT ∧ x ≠ 0)
  count : d'.freeCount limit + d'.claimed ip'.toDinode = d.freeCount limit + d.claimed ip.toDinode

namespace Grown

theorem refl (owned : d.Owned limit N) (here : N i = ip.toDinode) : Grown limit N i d ip d ip where
  owned := by
    rw [← here, update_eq_self]
    exact owned
  superblock := rfl
  held := rfl
  given := fun _ mem => mem
  rest := rfl
  used := fun _ _ marked => marked
  kept := fun _ _ => rfl
  fresh := fun _ none some => absurd none some
  view := fun _ _ _ _ => rfl
  sectors := fun _ changed => absurd rfl changed
  count := rfl

theorem trans (first : Grown limit N i d ip d' ip')
    (second : Grown limit (update N i ip'.toDinode) i d' ip'
      d'' ip'') : Grown limit N i d ip d'' ip'' where
  owned := by
    have owned := second.owned
    rw [update_idem] at owned
    exact owned
  superblock := second.superblock.trans first.superblock
  held := second.held.trans first.held
  given := fun b mem => second.given b (first.given b mem)
  rest := by
    rw [second.rest, first.rest]
  used := by
    intro b small marked
    apply second.used b _ (first.used b small marked)
    rw [Disk.bitmapEnd_congr first.superblock]
    exact small
  kept := by
    intro s some
    have same := first.kept s some
    rw [second.kept s (by rw [same]; exact some), same]
  fresh := by
    intro s none some
    by_cases middle : d'.ptr ip'.toDinode s = 0
    · exact second.fresh s middle some
    · obtain ⟨small, mem⟩ := first.fresh s none middle
      rw [second.kept s middle]
      exact ⟨small, second.given _ mem⟩
  view := by
    intro s apart j inside
    rw [second.view s apart j inside, first.view s apart j inside]
  sectors := by
    intro x changed
    by_cases middle : d''.sectors x = d'.sectors x
    · rw [middle] at changed
      rcases first.sectors x changed with bitmap | ⟨same, some⟩
      · exact inl bitmap
      · have kept := second.kept .indirect (by rw [same] at some; exact some)
        exact inr ⟨same.trans kept.symm, some⟩
    · have bitmap := second.sectors x middle
      rw [Disk.bitmapEnd_congr first.superblock, first.superblock] at bitmap
      exact bitmap
  count := second.count.trans first.count

end Grown

/-- The free block `b` has been taken from `d` and linked at the empty place
`s₀` of the inode. -/
structure Linked (d : Disk) (ip : Inode) (b : Nat) (s₀ : PtrSlot) (d' : Disk)
    (ip' : Inode) : Prop where
  clear : d.used b = false
  empty : d.ptr ip.toDinode s₀ = 0
  superblock : d'.superblock = d.superblock
  held : d'.held = d.held
  given : d'.given = b :: d.given
  used : ∀ c < d.bitmapEnd, d'.used c = (d.take b).used c
  rest : ip' = { ip with addrs := ip'.addrs }
  sectors : ∀ x, d'.sectors x ≠ (d.take b).sectors x → x = ip.addrs INDIRECT ∧ x ≠ 0
  ptr : ∀ s, d'.ptr ip'.toDinode s = if s = s₀ then b else d.ptr ip.toDinode s

namespace Linked

variable {b : Nat} {s₀ : PtrSlot}

theorem still (linked : Linked d ip b s₀ d' ip') (small : b < d.bitmapEnd)
    {x : Nat} (data : d.dataStart ≤ x) (apart : x ≠ ip.addrs INDIRECT) :
    d'.sectors x = d.sectors x := by
  have bitmap := d.bblock_lt_dataStart small
  rw [← Disk.take_sectors_of_ne (d := d) (b := b) (by omega)]
  by_contra changed
  exact apart (linked.sectors x changed).1

theorem block (linked : Linked d ip b s₀ d' ip') (small : b < 2 ^ 24)
    (s : PtrSlot) : d'.block ip'.toDinode s = if s = s₀ then b else d.block ip.toDinode s := by
  have type : ip'.type = ip.type := by rw [linked.rest]
  unfold Disk.block
  rw [linked.ptr, type, apply_ite (realAddr · ip.toDinode.type), realAddr_of_lt small]

theorem type_update (linked : Linked d ip b s₀ d' ip') (here : N i = ip.toDinode) (j : ι) :
    (update N i ip'.toDinode j).type = (N j).type := by
  by_cases same : j = i
  · subst same
    rw [update_self, here, linked.rest]
  · rw [update_of_ne same]

omit [DecidableEq ι] in
theorem count (linked : Linked d ip b s₀ d' ip') (owned : d.Owned limit N) (small : b < limit) :
    d'.freeCount limit + d'.claimed ip'.toDinode = d.freeCount limit + d.claimed ip.toDinode := by
  have high := owned.free_high linked.clear
  have pos := d.one_lt_dataStart
  have free : d.freeCount limit = d'.freeCount limit + 1 := by
    apply Pool.card_filter_succ (mem_range.mpr small) linked.clear
    · rw [linked.used b (small.trans_le owned.limit_le), Disk.used_take, if_pos rfl]
      simp
    · intro c mem ne
      have less := mem_range.mp mem
      rw [linked.used c (less.trans_le owned.limit_le), Disk.used_take, if_neg ne]
  have claims : d'.claimed ip'.toDinode = d.claimed ip.toDinode + 1 := by
    apply Pool.card_filter_succ (Finset.mem_univ s₀)
    · rw [linked.ptr, if_pos rfl]
      omega
    · rw [linked.empty]
      simp
    · intro s _ ne
      rw [linked.ptr, if_neg ne]
  omega

section

variable (linked : Linked d ip b s₀ d' ip') (family : d.Owned limit N) (here : N i = ip.toDinode)
  (small : b < limit)
include linked family here small

omit [DecidableEq ι] in
theorem ptr_other {j : ι} (other : j ≠ i) (s : PtrSlot) : d'.ptr (N j) s = d.ptr (N j) s := by
  apply family.ptr_other other
  intro x data apart
  rw [here] at apart
  exact linked.still (small.trans_le family.limit_le) data apart

/-- Pointers of the family after the link. -/
theorem ptr_update (j : ι) (s : PtrSlot) :
    d'.ptr (update N i ip'.toDinode j) s = if (j, s) = (i, s₀) then b else d.ptr (N j) s := by
  by_cases same : j = i
  · subst same
    rw [update_self, linked.ptr, here]
    simp
  · rw [update_of_ne same, linked.ptr_other family here small same,
      if_neg (fun pair => same (congrArg Prod.fst pair))]

theorem owned : d'.Owned limit (update N i ip'.toDinode) := by
  have inBitmap := small.trans_le family.limit_le
  have short := small.trans_le family.limit_small
  have high := family.free_high linked.clear
  have pos := d.one_lt_dataStart
  have ptr := linked.ptr_update family here small
  have block : ∀ j s, d'.block (update N i ip'.toDinode j) s =
      if (j, s) = (i, s₀) then b else d.block (N j) s := by
    intro j s
    unfold Disk.block
    rw [ptr, linked.type_update here, apply_ite (realAddr · (N j).type), realAddr_of_lt short]
  have takenBlock : ∀ j s, (d.take b).block (N j) s = d.block (N j) s := by
    intro j s
    unfold Disk.block
    rw [Disk.ptr_congr]
    intro some
    have inside := family.indirect some
    have bitmap := d.bblock_lt_dataStart inBitmap
    exact Disk.take_sectors_of_ne (by omega)
  apply (family.take small linked.clear).change (k := (i, s₀))
  case superblock => rw [linked.superblock, d.superblock_take]
  case used =>
    rw [Disk.bitmapEnd_congr (d.superblock_take b)]
    exact linked.used
  case zero =>
    intro c less unused
    rw [Disk.used_take] at unused
    have ne : c ≠ b := by
      rintro rfl
      simp at unused
    rw [if_neg ne] at unused
    intro j inside
    rw [linked.still inBitmap (family.free_high unused)
      (by have apart := family.free_apart i unused; rwa [here] at apart)]
    exact family.free_zero c less unused j inside
  case plain =>
    intro j
    change d'.ptr (update N i ip'.toDinode j) .indirect < 2 ^ 24
    rw [ptr]
    by_cases new : (j, PtrSlot.indirect) = (i, s₀)
    · rw [if_pos new]
      exact short
    · rw [if_neg new]
      exact family.plain j
  case real =>
    intro j s some
    rw [ptr] at some
    rw [block]
    by_cases new : (j, s) = (i, s₀)
    · rw [if_pos new]
      omega
    · rw [if_neg new] at some ⊢
      exact family.real j s some
  case kept =>
    intro k ne
    rw [block, if_neg ne, takenBlock]
    exact inr rfl
  case new =>
    rw [block, if_pos rfl, Disk.dataStart_congr (d.superblock_take b), Disk.used_take]
    refine inr (inr ⟨fun k => ?_, high, small, if_pos rfl⟩)
    rw [takenBlock]
    exact family.unclaimed linked.clear k.1 k.2

omit [DecidableEq ι] in
theorem view {s : PtrSlot} (data : s ≠ .indirect) {j : Nat} (inside : j < BSIZE) :
    d'.view ip'.toDinode s j = d.view ip.toDinode s j := by
  have inBitmap := small.trans_le family.limit_le
  have short := small.trans_le family.limit_small
  unfold Disk.view
  rw [linked.ptr, linked.block short]
  by_cases new : s = s₀
  · -- The new block reads as zeros, and so did the place without a block.
    have zero : d.ptr ip.toDinode s = 0 := by rw [new, linked.empty]
    rw [if_pos new, if_pos new, if_pos zero]
    by_cases none : b = 0
    · rw [if_pos none]
    · have apart := family.free_apart i linked.clear
      rw [here] at apart
      rw [if_neg none, linked.still inBitmap (family.free_high linked.clear) apart]
      exact family.free_zero b small linked.clear j inside
  · rw [if_neg new, if_neg new]
    refine ite_congr rfl (fun _ => rfl) fun pointer => ?_
    have some := family.real i s (by rw [here]; exact pointer)
    have distinct := family.apart (i := i) some (fun pair => data (congrArg Prod.snd pair))
    have high := (family.inData i s some).1
    rw [here] at distinct high
    rw [linked.still inBitmap high distinct]

theorem grown : Grown limit N i d ip d' ip' where
  owned := linked.owned family here small
  superblock := linked.superblock
  held := linked.held
  given := by
    intro c mem
    rw [linked.given]
    exact List.mem_cons_of_mem b mem
  rest := linked.rest
  used := by
    intro c inside marked
    rw [linked.used c inside, Disk.used_take, marked]
    simp
  kept := by
    intro s some
    rw [linked.ptr, if_neg]
    rintro rfl
    exact some linked.empty
  fresh := by
    intro s none some
    rw [linked.ptr] at some ⊢
    by_cases new : s = s₀
    · rw [if_pos new, linked.given]
      exact ⟨small.trans_le family.limit_small, List.mem_cons_self⟩
    · rw [if_neg new] at some
      exact absurd none some
  view := fun _ data _ inside => linked.view family here small data inside
  sectors := by
    intro x changed
    by_cases bitmap : d'.sectors x = (d.take b).sectors x
    · refine inl ⟨b, small.trans_le family.limit_le, ?_⟩
      by_contra apart
      rw [bitmap, Disk.take_sectors_of_ne apart] at changed
      exact changed rfl
    · obtain ⟨same, some⟩ := linked.sectors x bitmap
      refine inr ⟨?_, some⟩
      have kept := linked.ptr .indirect
      rw [if_neg] at kept
      · rw [same]
        exact kept.symm
      · rintro rfl
        rw [same] at some
        exact some linked.empty
  count := linked.count family small

end

end Linked

omit [DecidableEq ι] in
theorem linked_addr (owned : d.Owned limit N) (here : N i = ip.toDinode) (empty : ip.addrs a = 0)
    {b : Nat} (small : b < limit) (clear : d.used b = false) :
    Linked d ip b (.addr a) (d.take b) (ip.setAddr a b) where
  clear := clear
  empty := empty
  superblock := d.superblock_take b
  held := rfl
  given := rfl
  used := fun _ _ => rfl
  rest := rfl
  sectors := fun _ changed => absurd rfl changed
  ptr := by
    have high := owned.free_high clear
    have pos := d.one_lt_dataStart
    have bitmap := d.bblock_lt_dataStart (small.trans_le owned.limit_le)
    intro s
    by_cases indirect : INDIRECT = a
    · -- The new indirect block is zero: it has no entries.
      subst indirect
      have new := setAddr_self ip INDIRECT b
      cases s with
      | addr a =>
        rw [Disk.ptr_addr, Disk.ptr_addr]
        by_cases same : a = INDIRECT
        · rw [same, new, if_pos rfl]
        · rw [setAddr_of_ne same, if_neg (fun equal => same (PtrSlot.addr.inj equal))]
      | entry j =>
        rw [if_neg PtrSlot.noConfusion, Disk.ptr_entry_none empty,
          Disk.ptr_entry_some (by rw [new]; omega), new,
          Disk.take_sectors_of_ne (by omega)]
        apply word32_zero
        intro k less
        apply owned.free_zero b small clear
        have bound := j.isLt
        simp only [NINDIRECT, BSIZE] at *
        omega
    · rw [Disk.ptr_setAddr indirect]
      by_cases here' : s = .addr a
      · rw [if_pos here', if_pos here']
      · rw [if_neg here', if_neg here', Disk.ptr_congr]
        intro some
        have data := owned.indirect (i := i) (by rw [here]; exact some)
        rw [here] at data
        exact Disk.take_sectors_of_ne (by omega)

omit [DecidableEq ι] in
theorem linked_entry (owned : d.Owned limit N) (here : N i = ip.toDinode)
    (some : ip.addrs INDIRECT ≠ 0) (empty : word32 (d.sectors (ip.addrs INDIRECT)) (4 * j) = 0)
    {b : Nat} (small : b < limit) (clear : d.used b = false) :
    Linked d ip b (.entry j) ((d.take b).setSector (ip.addrs INDIRECT)
        (put (d.sectors (ip.addrs INDIRECT)) (4 * j) (le32 b)))
      ip := by
  have data := owned.indirect (i := i) (by rw [here]; exact some)
  rw [here] at data
  have pos := d.one_lt_dataStart
  have short := small.trans_le owned.limit_small
  constructor
  case clear => exact clear
  case empty =>
    rw [Disk.ptr_entry_some some]
    exact empty
  case superblock =>
    rw [Disk.superblock_setSector (by omega), d.superblock_take]
  case held | given | rest => rfl
  case used =>
    intro c inside
    apply Disk.used_setSector
    · rw [Disk.dataStart_congr (d.superblock_take b)]
      exact inl data.1
    · rw [Disk.bitmapEnd_congr (d.superblock_take b)]
      exact inside
  case sectors =>
    intro x changed
    by_cases same : x = ip.addrs INDIRECT
    · rw [same]
      exact ⟨rfl, some⟩
    · rw [Disk.setSector_of_ne same] at changed
      exact absurd rfl changed
  case ptr =>
    have bitmap := d.bblock_lt_dataStart (small.trans_le owned.limit_le)
    have same : (d.take b).sectors (ip.addrs INDIRECT) = d.sectors (ip.addrs INDIRECT) :=
      Disk.take_sectors_of_ne (by omega)
    intro s
    rw [← same, Disk.ptr_setEntry some j (by omega), Disk.ptr_congr]
    exact fun _ => same

/-- Either `balloc` may run dry, which the end of the bitmap decides, or
`need` free blocks remain below the limit. -/
def Supply (E : FsPanic → Prop) (limit need : Nat) (d : Disk) : Prop :=
  (limit = d.bitmapEnd ∧ E .balloc) ∨ need ≤ d.freeCount limit

variable {E : FsPanic → Prop}

theorem Supply.mono {need' : Nat} (supply : Supply E limit need d)
    (le : need' ≤ need) : Supply E limit need' d :=
  supply.imp_right le.trans

theorem Supply.take {b : Nat} (supply : Supply E limit (need + 1) d)
    (small : b < limit) (clear : d.used b = false) : Supply E limit need (d.take b) := by
  rcases supply with ⟨atEnd, allowed⟩ | enough
  · refine inl ⟨?_, allowed⟩
    rw [Disk.bitmapEnd_congr (d.superblock_take b)]
    exact atEnd
  · rw [Disk.freeCount_take small clear] at enough
    exact inr (by omega)

theorem wp_balloc_supply {Q : Nat → Disk → Prop} (quiet : d.Quiet 1)
    (le : limit ≤ d.bitmapEnd) (supply : Supply E limit 1 d)
    (rest : ∀ b < limit, d.used b = false → Q b (d.take b)) : wp balloc Q E d := by
  apply wp_balloc quiet
  · intro b inside clear below
    rcases supply with ⟨atEnd, _⟩ | enough
    · rw [← atEnd] at inside
      exact rest b inside clear
    · obtain ⟨c, mem⟩ := Finset.card_pos.mp enough
      obtain ⟨less, unused⟩ := Finset.mem_filter.mp mem
      apply rest b _ clear
      by_contra beyond
      have less := mem_range.mp less
      rw [below c (by omega)] at unused
      exact Bool.noConfusion unused
  · intro full
    rcases supply with ⟨_, allowed⟩ | enough
    · exact allowed
    · obtain ⟨c, mem⟩ := Finset.card_pos.mp enough
      obtain ⟨less, unused⟩ := Finset.mem_filter.mp mem
      rw [full c ((mem_range.mp less).trans_le le)] at unused
      exact Bool.noConfusion unused

theorem quiet_of_idle (idle : d.held = []) {k : Nat} (few : k ≤ NBUF) : d.Quiet k := by
  unfold Disk.Quiet
  rw [idle]
  exact ⟨by simpa using few, fun x mem => by cases mem⟩

/-- Blocks that `bmap` has to allocate for a pointer in the inode. -/
def Inode.lacks (ip : Inode) (a : Fin (NDIRECT + 1)) : Nat :=
  if ip.addrs a = 0 then 1 else 0

theorem wp_bmapAddr (owned : d.Owned limit N) (here : N i = ip.toDinode) (idle : d.held = [])
    (supply : Supply E limit (ip.lacks a + need) d) :
    wp (bmapAddr ip a) (fun r d' => Grown limit N i d ip d' r.2 ∧
      r.1 = r.2.addrs a ∧ r.1 ≠ 0 ∧ Supply E limit need d' ∧
      (∀ s, s ≠ .addr a → d'.ptr r.2.toDinode s = d.ptr ip.toDinode s) ∧
      (ip.addrs a ≠ 0 → d' = d ∧ r.2 = ip)) E d := by
  unfold bmapAddr
  by_cases empty : ip.addrs a = 0
  · rw [if_pos empty, wp_bind]
    rw [Inode.lacks, if_pos empty, Nat.add_comm] at supply
    apply wp_balloc_supply (quiet_of_idle idle (by decide)) owned.limit_le (supply.mono (by omega))
    intro b small clear
    have high := owned.free_high clear
    have pos := d.one_lt_dataStart
    have linked := linked_addr owned here empty small clear
    rw [wp_pure]
    refine ⟨linked.grown owned here small, (setAddr_self ip a b).symm, ?_,
      supply.take small clear, fun s ne => ?_,
      fun some => absurd empty some⟩
    · change b ≠ 0
      omega
    · rw [linked.ptr, if_neg ne]
  · rw [if_neg empty, wp_pure]
    rw [Inode.lacks, if_neg empty, Nat.zero_add] at supply
    exact ⟨Grown.refl owned here, rfl, empty, supply, fun _ _ => rfl, fun _ => ⟨rfl, rfl⟩⟩

/-- Blocks that `bmap` has to allocate for an entry of the indirect block. -/
def Disk.lacksEntry (d : Disk) (addr j : Nat) : Nat :=
  if word32 (d.sectors addr) (4 * j) = 0 then 1 else 0

theorem wp_bmapEntry (owned : d.Owned limit N) (here : N i = ip.toDinode) (idle : d.held = [])
    (some : ip.addrs INDIRECT ≠ 0)
    (supply : Supply E limit (d.lacksEntry (ip.addrs INDIRECT) j) d) :
    wp (bmapEntry (ip.addrs INDIRECT) j) (fun r d' =>
      Grown limit N i d ip d' ip ∧ r = d'.ptr ip.toDinode (.entry j) ∧
      r ≠ 0 ∧
      (∀ s, s ≠ .entry j → d'.ptr ip.toDinode s = d.ptr ip.toDinode s) ∧
      (d.ptr ip.toDinode (.entry j) ≠ 0 → d' = d)) E d := by
  have data := owned.indirect (i := i) (by rw [here]; exact some)
  rw [here] at data
  have quiet : d.Quiet 2 := quiet_of_idle idle (by decide)
  unfold bmapEntry
  rw [wp_bind, wp_bread (by rw [idle]; simp) quiet.few]
  rw [Disk.lacksEntry] at supply
  by_cases empty : word32 (d.sectors (ip.addrs INDIRECT)) (4 * j) = 0
  · rw [if_pos empty, wp_bind]
    rw [if_pos empty] at supply
    apply wp_balloc_supply (quiet.hold data.1) owned.limit_le supply
    intro b small clear
    have high := owned.free_high clear
    have pos := d.one_lt_dataStart
    have linked := linked_entry owned here some empty small clear
    have last := linked.ptr (.entry j)
    rw [if_pos rfl] at last
    rw [wp_bind, wp_bwrite (by exact List.mem_cons_self), wp_bind,
      wp_brelse (by exact List.mem_cons_self), wp_pure]
    have release : (((d.hold (ip.addrs INDIRECT)).take b).setSector
        (ip.addrs INDIRECT) (put (d.sectors (ip.addrs INDIRECT)) (4 * j)
          (le32 b))).release (ip.addrs INDIRECT) =
        (d.take b).setSector (ip.addrs INDIRECT) (put (d.sectors (ip.addrs INDIRECT)) (4 * j)
            (le32 b)) :=
      Disk.hold_setSector_release (d.take b) ..
    rw [release]
    refine ⟨linked.grown owned here small, last.symm, by omega, ?_, ?_⟩
    · intro s ne
      rw [linked.ptr, if_neg ne]
    · intro full
      rw [Disk.ptr_entry_some some] at full
      exact absurd empty full
  · rw [if_neg empty, wp_bind, wp_brelse (by simp), Disk.hold_release, wp_pure]
    refine ⟨Grown.refl owned here, ?_, empty, fun _ _ => rfl, fun _ => rfl⟩
    rw [Disk.ptr_entry_some some]

/-- Blocks that `bmap` has to allocate for block `bn` of a file. -/
def Disk.lacks (d : Disk) (ip : Inode) (bn : Nat) : Nat :=
  (if NDIRECT ≤ bn then ip.lacks INDIRECT else 0) +
    if d.ptr ip.toDinode (.file bn) = 0 then 1 else 0

/-- `bmap` returns the pointer to the block, which it may have had to
allocate. -/
theorem wp_bmap {bn : Nat} (owned : d.Owned limit N) (here : N i = ip.toDinode) (idle : d.held = [])
    (supply : Supply E limit (d.lacks ip bn) d) (range : MAXFILE ≤ bn → E .bmap) :
    wp (bmap ip bn) (fun r d' => bn < MAXFILE ∧ Grown limit N i d ip d' r.2 ∧
      r.1 = d'.ptr r.2.toDinode (.file bn) ∧ r.1 ≠ 0 ∧
      (∀ s, s ≠ .file bn → (s = .indirect → bn < NDIRECT) →
        d'.ptr r.2.toDinode s = d.ptr ip.toDinode s) ∧
      (d.ptr ip.toDinode (.file bn) ≠ 0 → d' = d ∧ r.2 = ip)) E d := by
  unfold bmap
  by_cases first : bn < NDIRECT
  · have slot := PtrSlot.file_direct first
    rw [Disk.lacks, if_neg (Nat.not_le_of_lt first), Nat.zero_add, slot]
      at supply
    rw [dif_pos first, slot]
    refine wp_imp (wp_bmapAddr owned here idle (supply.mono (Nat.le_of_eq (Nat.add_zero _)))) ?_
    rintro ⟨addr, ip'⟩ d' ⟨grown, value, some, _, only, same⟩
    exact ⟨first.trans_le (by decide), grown, value, some,
      fun s ne _ => only s ne, same⟩
  · rw [dif_neg first]
    by_cases inRange : bn - NDIRECT < NINDIRECT
    · have slot := PtrSlot.file_entry first inRange
      have inFile : bn < MAXFILE := by
        have bound : bn - 12 < 128 := inRange
        change bn < 140
        omega
      rw [Disk.lacks, if_pos (Nat.le_of_not_lt first)] at supply
      rw [if_pos inRange]
      refine wp_seq (wp_bmapAddr owned here idle supply) ?_
      rintro ⟨addr, ip'⟩ d' ⟨grown, value, some, supply', only, same⟩
      simp only at grown value some only same ⊢
      subst value
      rw [wp_bind]
      have entries : d'.lacksEntry (ip'.addrs INDIRECT) (bn - NDIRECT) ≤
          if d.ptr ip.toDinode (.file bn) = 0 then 1 else 0 := by
        by_cases none : d.ptr ip.toDinode (.file bn) = 0
        · rw [if_pos none, Disk.lacksEntry]
          split <;> omega
        · have kept := grown.kept (.file bn) none
          rw [slot] at kept none
          rw [Disk.ptr_entry_some some] at kept
          rw [Disk.lacksEntry, if_neg (by rw [kept]; exact none)]
          exact Nat.zero_le _
      refine wp_imp (wp_bmapEntry (j := ⟨bn - NDIRECT, inRange⟩) grown.owned
        (update_self ..) (grown.held.trans idle) some
        (supply'.mono entries)) ?_
      rintro entry d'' ⟨grown', value, full, only', same'⟩
      rw [wp_pure, slot]
      refine ⟨inFile, grown.trans grown', value, full, ?_, ?_⟩
      · intro s ne direct
        rw [only' s ne, only s fun indirect => first (direct indirect)]
      · intro old
        have indirect : ip.addrs INDIRECT ≠ 0 := by
          intro none
          exact old (Disk.ptr_entry_none none _)
        obtain ⟨rfl, rfl⟩ := same indirect
        exact ⟨same' old, rfl⟩
    · rw [if_neg inRange, wp_throw]
      apply range
      simp only [NDIRECT, MAXFILE, NINDIRECT] at *
      omega

end Grown

end Xv6.Fs
