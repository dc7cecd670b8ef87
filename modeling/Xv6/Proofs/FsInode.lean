/-
Purpose: What the inode layer does to the blocks and directory entries of all
  inodes of a disk, for inodes without checksums.
-/
import Xv6.Proofs.FsRead

namespace Xv6.Fs

open PanicM
open Function (update_self update_of_ne update_eq_self)
open Bytes (ofList word16)
open Or (inl)

/-- Panics that the file system may end in, for want of blocks or inodes or
because of a corrupted image: all but that of `bfree`. -/
def Tolerated (reason : FsPanic) : Prop := reason ≠ .bfree

/-! ## Directories -/

namespace Disk

variable {d d' : Disk} {dn dn' : Dinode}

/-- Every entry in the blocks of a directory names an inode of the disk; the
entries past the end of the directory count too, because `dirlookup` reads
whole blocks. -/
def DirOk (d : Disk) (dn : Dinode) : Prop :=
  dn.type = T_DIR → ∀ s, s ≠ .indirect → ∀ e < DPB,
    direntInum (d.view dn s) e < d.superblock.ninodes

theorem direntInum_congr {bp bp' : Bytes.Store}
    (same : ∀ k < BSIZE, bp' k = bp k) {e : Nat} (small : e < DPB) :
    direntInum bp' e = direntInum bp e := by
  apply Bytes.word16_congr
  intro k less
  apply same
  simp only [DIRENTSIZE, DPB, BSIZE] at *
  omega

theorem DirOk.congr (ok : d.DirOk dn)
    (superblock : d'.superblock = d.superblock) (type : dn'.type = dn.type)
    (view : ∀ s, s ≠ .indirect → ∀ k < BSIZE, d'.view dn' s k = d.view dn s k) : d'.DirOk dn' := by
  intro dir s data e small
  rw [superblock, direntInum_congr (view s data) small]
  exact ok (type.symm.trans dir) s data e small

/-- Pointers given up leave a directory all right: where there is no block
there are no entries. -/
theorem DirOk.shrink (ok : d.DirOk dn) (some : 0 < d.superblock.ninodes)
    (kept : ∀ a, dn'.addrs a = 0 ∨ dn'.addrs a = dn.addrs a)
    (type : dn'.type = dn.type ∨ ∀ a, dn'.addrs a = 0) : d.DirOk dn' := by
  intro dir s data e small
  by_cases none : d.ptr dn' s = 0
  · have zero : direntInum (d.view dn' s) e = 0 := by
      apply Bytes.word16_zero
      intro k less
      unfold view
      rw [if_pos none]
    rw [zero]
    exact some
  · rcases type with same | null
    · have pointer := (ptr_shrink kept d s).resolve_left none
      have same : d.view dn' s = d.view dn s := by
        unfold view block
        rw [pointer, same]
      rw [same]
      exact ok (by rw [← dir]; symm; assumption) s data e small
    · exact absurd (ptr_null null d s) none

end Disk

/-! ## Changes that concern one inode -/

namespace Disk.Owned

variable {N : Nat → Dinode} {limit i j : Nat} {d d' : Disk}

theorem look (owned : d.Owned limit N) (same : ∀ s, d.block (N j) s ≠ 0 →
      d'.sectors (d.block (N j) s) = d.sectors (d.block (N j) s)) :
    (∀ s, d'.ptr (N j) s = d.ptr (N j) s) ∧ ∀ s, d'.view (N j) s = d.view (N j) s := by
  have claim := owned.block_indirect j
  have ptr : ∀ s, d'.ptr (N j) s = d.ptr (N j) s := by
    apply ptr_congr
    intro some
    rw [← claim] at some ⊢
    exact same .indirect some
  refine ⟨ptr, fun s => ?_⟩
  funext k
  unfold Disk.view Disk.block
  rw [ptr]
  exact ite_congr rfl (fun _ => rfl) fun some => congrFun (same s (owned.real j s some)) k

/-- Where only blocks of inode `i` change, the other inodes show what they
showed. -/
theorem undisturbed (owned : d.Owned limit N)
    (still : ∀ x, d.dataStart ≤ x → (∀ s, x ≠ d.block (N i) s) →
      d'.sectors x = d.sectors x) (other : j ≠ i) :
    (∀ s, d'.ptr (N j) s = d.ptr (N j) s) ∧ ∀ s, d'.view (N j) s = d.view (N j) s := by
  apply owned.look
  intro s some
  apply still _ (owned.inData j s some).1
  intro t
  apply owned.block_ne some
  intro pair
  exact other (congrArg Prod.fst pair)

theorem steady (owned : d.Owned limit N)
    (still : ∀ x, d.dataStart ≤ x → d'.sectors x = d.sectors x) :
    (∀ s, d'.ptr (N j) s = d.ptr (N j) s) ∧ ∀ s, d'.view (N j) s = d.view (N j) s :=
  owned.look fun s some => still _ (owned.inData j s some).1

end Disk.Owned

section Apart

variable {N : Nat → Dinode} {i : Nat} {d d' d'' : Disk}

/-- Inodes other than `i` are as they were: on disk, their pointers, and the
bytes behind these. -/
structure Apart (N : Nat → Dinode) (i : Nat) (d d' : Disk) : Prop where
  superblock : d'.superblock = d.superblock
  held : d'.held = d.held
  given : ∀ b ∈ d.given, b ∈ d'.given
  dinode : ∀ j < d.superblock.ninodes, j ≠ i → d'.dinode j = d.dinode j
  ptr : ∀ j ≠ i, ∀ s, d'.ptr (N j) s = d.ptr (N j) s
  view : ∀ j ≠ i, ∀ s, d'.view (N j) s = d.view (N j) s

namespace Apart

theorem refl : Apart N i d d where
  superblock := rfl
  held := rfl
  given := fun _ mem => mem
  dinode := fun _ _ _ => rfl
  ptr := fun _ _ _ => rfl
  view := fun _ _ _ => rfl

theorem trans (first : Apart N i d d') (second : Apart N i d' d'') : Apart N i d d'' where
  superblock := second.superblock.trans first.superblock
  held := second.held.trans first.held
  given := fun b mem => second.given b (first.given b mem)
  dinode := by
    intro j small other
    rw [second.dinode j (by rw [first.superblock]; exact small) other, first.dinode j small other]
  ptr := by
    intro j other s
    rw [second.ptr j other, first.ptr j other]
  view := by
    intro j other s
    rw [second.view j other, first.view j other]

theorem update {dn : Dinode} (apart : Apart (Function.update N i dn) i d d') : Apart N i d d' := by
  have same : ∀ j ≠ i, Function.update N i dn j = N j := fun j other => update_of_ne other ..
  refine { apart with ptr := ?_, view := ?_ }
  · intro j other s
    rw [← same j other]
    exact apart.ptr j other s
  · intro j other s
    rw [← same j other]
    exact apart.view j other s

theorem block (apart : Apart N i d d') {j : Nat} (other : j ≠ i)
    (s : PtrSlot) : d'.block (N j) s = d.block (N j) s := by
  unfold Disk.block
  rw [apart.ptr j other]

/-- Only blocks that inode `i` owns, and sectors before the data that hold no
other inode, have changed. -/
theorem of_still {limit : Nat} (owned : d.Owned limit N)
    (superblock : d'.superblock = d.superblock) (held : d'.held = d.held)
    (given : ∀ b ∈ d.given, b ∈ d'.given)
    (dinode : ∀ j < d.superblock.ninodes, j ≠ i → d'.dinode j = d.dinode j)
    (still : ∀ x, d.dataStart ≤ x → (∀ s, x ≠ d.block (N i) s) →
      d'.sectors x = d.sectors x) : Apart N i d d' where
  superblock := superblock
  held := held
  given := given
  dinode := dinode
  ptr := fun _ other => (owned.undisturbed still other).1
  view := fun _ other => (owned.undisturbed still other).2

end Apart

end Apart

/-! ## Progress on one inode -/

/-- The disk has the type of the inode in memory, and of its pointers those
that have been written back. -/
structure Synced (dn core : Dinode) : Prop where
  type : dn.type = core.type
  addrs : ∀ a, dn.addrs a = 0 ∨ dn.addrs a = core.addrs a

theorem Synced.keep {dn core core' : Dinode} (synced : Synced dn core)
    (type : core'.type = core.type) (addrs : ∀ a, core.addrs a ≠ 0 → core'.addrs a = core.addrs a) :
    Synced dn core' where
  type := synced.type.trans type.symm
  addrs := by
    intro a
    rcases synced.addrs a with none | same
    · exact inl none
    · by_cases zero : core.addrs a = 0
      · exact inl (same.trans zero)
      · exact Or.inr (same.trans (addrs a zero).symm)

section Advanced

variable {limit : Nat} {N : Nat → Dinode} {i : Nat} {d d' d'' : Disk}
  {ip ip' ip'' : Inode}

variable {s : PtrSlot} {E : FsPanic → Prop}

/-- Inode `i` of the family is in memory as `ip`.  A checksummed one has no
blocks. -/
structure Loaded (limit : Nat) (N : Nat → Dinode) (i : Nat) (d : Disk) (ip : Inode) : Prop where
  owned : d.Owned limit N
  here : N i = ip.toDinode
  idle : d.held = []
  atEnd : limit = d.bitmapEnd
  inum : ip.inum = i
  small : i < d.superblock.ninodes
  empty : ip.type = T_CHECKED → ∀ a, ip.addrs a = 0

/-- The inode layer may read and write the inode. -/
structure Ready (limit : Nat) (N : Nat → Dinode) (i : Nat) (d : Disk) (ip : Inode) : Prop extends
    Loaded limit N i d ip where
  plain : ip.type ≠ T_CHECKED

/-- Inode `i` may have new blocks, a new size and new contents; its blocks are
those it had and some that `balloc` gave out. -/
structure Advanced (limit : Nat) (N : Nat → Dinode) (i : Nat) (d : Disk)
    (ip : Inode) (d' : Disk) (ip' : Inode) : Prop extends
    Apart N i d d' where
  owned : d'.Owned limit (Function.update N i ip'.toDinode)
  rest : ip' = { ip with addrs := ip'.addrs, size := ip'.size }
  addrs : ∀ a, ip.addrs a ≠ 0 → ip'.addrs a = ip.addrs a
  origin : ∀ s, d'.block ip'.toDinode s ≠ 0 → d'.block ip'.toDinode s = d.block ip.toDinode s ∨
      d'.block ip'.toDinode s ∈ d'.given
  synced : Synced (d.dinode i) ip.toDinode → Synced (d'.dinode i) ip'.toDinode
  dirs : d.DirOk ip.toDinode → d'.DirOk ip'.toDinode

namespace Advanced

theorem refl (ready : Ready limit N i d ip) : Advanced limit N i d ip d ip where
  toApart := Apart.refl
  owned := by
    rw [← ready.here, update_eq_self]
    exact ready.owned
  rest := rfl
  addrs := fun _ _ => rfl
  origin := fun _ _ => inl rfl
  synced := fun synced => synced
  dirs := fun ok => ok

theorem trans (first : Advanced limit N i d ip d' ip')
    (second : Advanced limit (Function.update N i ip'.toDinode) i d' ip'
      d'' ip'') : Advanced limit N i d ip d'' ip'' where
  toApart := first.toApart.trans second.toApart.update
  owned := by
    have owned := second.owned
    rw [Function.update_idem] at owned
    exact owned
  rest := by
    rw [second.rest, first.rest]
  addrs := by
    intro a some
    have same := first.addrs a some
    rw [second.addrs a (by rw [same]; exact some), same]
  origin := by
    intro s some
    rcases second.origin s some with same | new
    · rw [same] at some ⊢
      rcases first.origin s some with old | new
      · exact inl old
      · exact Or.inr (second.given _ new)
    · exact Or.inr new
  synced := fun synced => second.synced (first.synced synced)
  dirs := fun ok => second.dirs (first.dirs ok)

theorem type (advanced : Advanced limit N i d ip d' ip') : ip'.type = ip.type := by
  rw [advanced.rest]

end Advanced

theorem Ready.advance (ready : Ready limit N i d ip) (advanced : Advanced limit N i d ip d' ip') :
    Ready limit (Function.update N i ip'.toDinode) i d' ip' where
  owned := advanced.owned
  here := update_self ..
  idle := advanced.held.trans ready.idle
  atEnd := by
    rw [Disk.bitmapEnd_congr advanced.superblock]
    exact ready.atEnd
  inum := by
    rw [advanced.rest]
    exact ready.inum
  small := by
    rw [advanced.superblock]
    exact ready.small
  empty checked := absurd (advanced.type.symm.trans checked) ready.plain
  plain := by
    rw [advanced.type]
    exact ready.plain

theorem iblock_ne_bblock {j n : Nat} (small : j < n) (b : Nat) : iblock j ≠ bblock b n := by
  have inode := iblock_lt small
  unfold bblock
  simp only [BPB, IPB] at *
  omega

theorem Grown.advanced (grown : Grown limit N i d ip d' ip') (small : i < d.superblock.ninodes) :
    Advanced limit N i d ip d' ip' := by
  have superblock := grown.superblock
  have type : ip'.type = ip.type := by rw [grown.rest]
  have addrs : ∀ a, ip.addrs a ≠ 0 → ip'.addrs a = ip.addrs a := fun a => grown.kept (.addr a)
  have indirect := grown.owned.block_indirect i
  rw [update_self] at indirect
  have still : ∀ x, d'.dataStart ≤ x → (∀ s, x ≠ d'.block (Function.update N i ip'.toDinode i) s) →
      d.sectors x = d'.sectors x := by
    intro x data apart
    by_contra changed
    rcases grown.sectors x (Ne.symm changed) with ⟨b, inside, same⟩ | ⟨same, _⟩
    · have low := d.bblock_lt_dataStart inside
      rw [Disk.dataStart_congr superblock] at data
      omega
    · apply apart .indirect
      rw [update_self, indirect]
      exact same
  have dinode : ∀ j < d.superblock.ninodes, d'.dinode j = d.dinode j := by
    intro j small
    unfold Disk.dinode
    have same : d'.sectors (iblock j) = d.sectors (iblock j) := by
      by_contra changed
      rcases grown.sectors _ changed with ⟨b, _, bitmap⟩ | ⟨same, some⟩
      · exact iblock_ne_bblock small b bitmap
      · have high := grown.owned.indirect (i := i) (by
          rw [update_self, ← same]
          exact some)
        have low := d.iblock_lt_dataStart small
        rw [update_self, Disk.dataStart_congr superblock] at high
        omega
    rw [same]
  have others : ∀ j ≠ i, Function.update N i ip'.toDinode j = N j :=
    fun j other => update_of_ne other ..
  constructor
  case toApart =>
    constructor
    case superblock => exact superblock
    case held => exact grown.held
    case given => exact grown.given
    case dinode => exact fun j small _ => dinode j small
    case ptr =>
      intro j other s
      rw [← others j other]
      exact ((grown.owned.undisturbed still other).1 s).symm
    case view =>
      intro j other s
      rw [← others j other]
      exact ((grown.owned.undisturbed still other).2 s).symm
  case owned => exact grown.owned
  case rest => rw [grown.rest]
  case addrs => exact addrs
  case origin =>
    intro s some
    have pointer := Disk.ptr_ne_zero some
    unfold Disk.block
    by_cases none : d.ptr ip.toDinode s = 0
    · obtain ⟨small, new⟩ := grown.fresh s none pointer
      rw [realAddr_of_lt small]
      exact Or.inr new
    · rw [grown.kept s none, type]
      exact inl rfl
  case synced =>
    intro synced
    rw [dinode i small]
    exact synced.keep type addrs
  case dirs =>
    intro ok
    exact ok.congr superblock type grown.view

/-- Writing inodes back does not change data. -/
theorem Disk.setDinode_still (small : i < d.superblock.ninodes) (dn : Dinode) (x : Nat)
    (data : d.dataStart ≤ x) : (d.setDinode i dn).sectors x = d.sectors x := by
  have low := d.iblock_lt_dataStart small
  exact Disk.setSector_of_ne (by omega) ..

section

variable (ready : Loaded limit N i d ip)
include ready

namespace Loaded

theorem block (s : PtrSlot) : d.block ip.toDinode s = d.ptr ip.toDinode s := by
  by_cases checked : ip.type = T_CHECKED
  · rw [Disk.block_null (ready.empty checked), Disk.ptr_null (ready.empty checked)]
  · exact if_neg checked

theorem view (some : d.block ip.toDinode s ≠ 0) :
    d.view ip.toDinode s = d.sectors (d.block ip.toDinode s) := by
  rw [ready.block] at some
  funext k
  exact if_neg some

theorem addrs_lt (a : Fin (NDIRECT + 1)) : ip.addrs a < 2 ^ 32 := by
  by_cases none : ip.addrs a = 0
  · rw [none]
    decide
  · have claim := ready.block (.addr a)
    rw [Disk.ptr_addr] at claim
    have inside := ready.owned.inData i (.addr a) (by
      rw [ready.here, claim]
      exact none)
    rw [ready.here, claim] at inside
    have small := ready.owned.limit_small
    omega

theorem resize (size : Nat) : Advanced limit N i d ip d { ip with size := size } where
  toApart := Apart.refl
  owned := by
    apply ready.owned.congr_update
    · rw [ready.here]
    · rw [ready.here]
  rest := rfl
  addrs := fun _ _ => rfl
  origin := fun _ _ => inl rfl
  synced := fun synced => ⟨synced.type, synced.addrs⟩
  dirs := fun ok => ok.congr rfl rfl fun _ _ _ _ => rfl

theorem shows :
    (∀ s, (d.setDinode i ip.toDinode).ptr ip.toDinode s = d.ptr ip.toDinode s) ∧
    ∀ s, (d.setDinode i ip.toDinode).view ip.toDinode s = d.view ip.toDinode s := by
  have steady := ready.owned.steady (j := i) (Disk.setDinode_still ready.small ip.toDinode)
  rwa [ready.here] at steady

/-- What `iupdate` does. -/
theorem writeBack : Advanced limit N i d ip (d.setDinode i ip.toDinode) ip := by
  have superblock : (d.setDinode i ip.toDinode).superblock = d.superblock :=
    Disk.superblock_setSector (one_lt_iblock i) ..
  have shows := ready.shows
  constructor
  case toApart =>
    exact Apart.of_still ready.owned superblock rfl (fun _ mem => mem)
      (fun j _ other => Disk.dinode_setDinode_of_ne other ..)
      fun x data _ => Disk.setDinode_still ready.small _ x data
  case owned =>
    rw [← ready.here, update_eq_self]
    exact ready.owned.setInode ready.small _
  case rest => rfl
  case addrs => exact fun _ _ => rfl
  case origin =>
    intro s _
    unfold Disk.block
    rw [shows.1]
    exact inl rfl
  case synced =>
    intro _
    constructor
    · exact Disk.dinode_setDinode_type ..
    · intro a
      rw [Disk.dinode_setDinode_addrs d i ready.addrs_lt]
      exact Or.inr rfl
  case dirs =>
    intro ok
    exact ok.congr superblock rfl fun s _ k _ => by rw [shows.2]

end Loaded

theorem wp_iupdate_loaded {Q : Unit → Disk → Prop} (rest : Q () (d.setDinode i ip.toDinode)) :
    wp (iupdate ip) Q E d := by
  have inum := ready.inum
  apply wp_iupdate (quiet_of_idle ready.idle (k := 0 + 1) (by decide))
  · rw [inum]
    exact ready.small
  · rw [inum]
    exact rest

end

theorem Disk.Owned.dinode_setData (owned : d.Owned limit N) (some : d.block (N i) s ≠ 0)
    (bytes : Bytes.Store) (j : Nat) (small : j < d.superblock.ninodes) :
    (d.setSector (d.block (N i) s) bytes).dinode j = d.dinode j := by
  have low := d.iblock_lt_dataStart small
  have data := owned.inData i s some
  unfold Disk.dinode
  rw [Disk.setSector_of_ne (by omega)]

theorem Ready.writeData (ready : Ready limit N i d ip)
    (data : s ≠ .indirect) (some : d.block ip.toDinode s ≠ 0) {bytes : Bytes.Store}
    (entries : ip.type = T_DIR → d.DirOk ip.toDinode → ∀ e < DPB,
      direntInum bytes e < d.superblock.ninodes) :
    Advanced limit N i d ip (d.setSector (d.block ip.toDinode s) bytes)
      ip := by
  have here := ready.here
  have owned := ready.owned
  rw [← here] at some ⊢
  have inside := owned.inData i s some
  have pos := d.one_lt_dataStart
  have superblock := Disk.superblock_setSector (pos.trans_le inside.1) d bytes
  have sector := owned.dinode_setData some bytes
  constructor
  case toApart =>
    exact Apart.of_still owned superblock rfl (fun _ mem => mem)
      (fun j small _ => sector j small)
      fun x _ apart => Disk.setSector_of_ne (apart s) ..
  case owned =>
    rw [← here, update_eq_self]
    exact owned.setData data some bytes
  case rest => rfl
  case addrs => exact fun _ _ => rfl
  case origin =>
    intro t _
    rw [← here, owned.block_setData data some]
    exact inl rfl
  case synced =>
    intro synced
    rw [sector i ready.small]
    exact synced
  case dirs =>
    rw [← here]
    intro ok dir t other e small
    have type : ip.type = T_DIR := by rw [← dir, here]
    rw [superblock, owned.view_setData data some]
    by_cases same : (i, t) = (i, s)
    · rw [if_pos same]
      exact entries type (by rw [← here]; exact ok) e small
    · rw [if_neg same]
      exact ok dir t other e small

/-! ## Reading and writing contents -/

theorem wp_bmap_ready (ready : Ready limit N i d ip) (bn : Nat) :
    wp (bmap ip bn) (fun r d' => Advanced limit N i d ip d' r.2 ∧
      r.1 = d'.block r.2.toDinode (.file bn) ∧ r.1 ≠ 0) Tolerated d := by
  refine wp_imp (wp_bmap ready.owned ready.here ready.idle
    (inl ⟨ready.atEnd, nofun⟩) fun _ => nofun) ?_
  rintro ⟨addr, ip'⟩ d' ⟨_, grown, value, some, _⟩
  have advanced := grown.advanced ready.small
  refine ⟨advanced, ?_, some⟩
  rw [(ready.advance advanced).block]
  exact value

theorem wp_readiBlock_ready (ready : Ready limit N i d ip) (off m : Nat) : wp (readiBlock ip off m)
      (fun r d' => Advanced limit N i d ip d' r.2) Tolerated d := by
  unfold readiBlock
  refine wp_seq (wp_bmap_ready ready (off / BSIZE)) ?_
  rintro ⟨addr, ip'⟩ d' ⟨advanced, _, _⟩
  have ready' := ready.advance advanced
  have plain : ¬ (ip'.type = T_CHECKED ∧
      genChecksum (d'.sectors (realAddr addr ip'.type)) ≠ getChecksum addr) :=
    fun checked => ready'.plain checked.1
  have quiet : d'.Quiet 1 := quiet_of_idle ready'.idle (by decide)
  simp only
  rw [wp_bind, wp_bread (by rw [ready'.idle]; simp) quiet.few, if_neg plain,
    wp_bind, wp_brelse (by simp), Disk.hold_release, wp_pure]
  exact advanced

theorem wp_readiLoop_ready (fuel : Nat) (ready : Ready limit N i d ip) (off left : Nat) :
    wp (readiLoop fuel ip off left) (fun r d' => Advanced limit N i d ip d' r.2.2) Tolerated d := by
  induction fuel generalizing N d ip off left with
  | zero => exact Advanced.refl ready
  | succ fuel ih =>
    unfold readiLoop
    by_cases done : left = 0
    · rw [if_pos done, wp_pure]
      exact Advanced.refl ready
    · rw [if_neg done]
      refine wp_seq (wp_readiBlock_ready ready off _) ?_
      rintro ⟨bytes, ip'⟩ d' advanced
      cases bytes with
      | none => exact advanced
      | some bytes =>
        simp only
        refine wp_seq (ih (ready.advance advanced) _ _) ?_
        rintro ⟨verified, rest, ip''⟩ d'' onwards
        exact advanced.trans onwards

theorem wp_readi_ready (typed : List UInt8) (ready : Ready limit N i d ip) (off n : Nat) :
    wp (readi typed ip off n) (fun r d' => Advanced limit N i d ip d' r.2.2) Tolerated d := by
  have still := Advanced.refl ready
  unfold readi
  rw [wp_ite, wp_ite, wp_ite]
  refine ⟨fun _ => ⟨fun _ => still, fun _ => still⟩, fun _ =>
    ⟨fun _ => still, fun _ => ?_⟩⟩
  refine wp_seq (wp_readiLoop_ready _ ready _ _) ?_
  rintro ⟨verified, bytes, ip'⟩ d' advanced
  exact advanced

/-- Whole directory entries, at a place where entries begin, that name inodes
below `n`. -/
structure EntriesOk (n off : Nat) (src : List UInt8) : Prop where
  off : off % DIRENTSIZE = 0
  length : src.length % DIRENTSIZE = 0
  inums : ∀ e, DIRENTSIZE * e < src.length → word16 (ofList src) (DIRENTSIZE * e) < n

namespace EntriesOk

variable {n off m : Nat} {src : List UInt8}

theorem take (ok : EntriesOk n off src) (aligned : m % DIRENTSIZE = 0) :
    EntriesOk n off (src.take m) where
  off := ok.off
  length := by
    have length := ok.length
    rw [List.length_take]
    simp only [DIRENTSIZE] at *
    omega
  inums := by
    intro e inside
    rw [List.length_take] at inside
    have same : word16 (ofList (src.take m)) (DIRENTSIZE * e) =
        word16 (ofList src) (DIRENTSIZE * e) := by
      apply Bytes.word16_congr
      intro k less
      unfold ofList
      simp only [List.getD_eq_getElem?_getD]
      rw [List.getElem?_take_of_lt]
      simp only [DIRENTSIZE] at *
      omega
    rw [same]
    exact ok.inums e (by omega)

theorem drop (ok : EntriesOk n off src) (aligned : m % DIRENTSIZE = 0) :
    EntriesOk n (off + m) (src.drop m) where
  off := by
    have off := ok.off
    simp only [DIRENTSIZE] at *
    omega
  length := by
    have length := ok.length
    rw [List.length_drop]
    simp only [DIRENTSIZE] at *
    omega
  inums := by
    intro e inside
    rw [List.length_drop] at inside
    have index : DIRENTSIZE * (m / DIRENTSIZE + e) = m + DIRENTSIZE * e := by
      simp only [DIRENTSIZE] at *
      omega
    have same : word16 (ofList (src.drop m)) (DIRENTSIZE * e) =
        word16 (ofList src) (DIRENTSIZE * (m / DIRENTSIZE + e)) := by
      rw [index]
      unfold word16 ofList
      simp only [List.getD_eq_getElem?_getD, List.getElem?_drop, Nat.add_assoc]
    rw [same]
    exact ok.inums _ (by rw [index]; omega)

theorem put (ok : EntriesOk n off src) {bp : Bytes.Store}
    (old : ∀ e < DPB, direntInum bp e < n) {e : Nat} (small : e < DPB) :
    direntInum (Bytes.put bp (off % BSIZE) src) e < n := by
  have aligned := ok.off
  have length := ok.length
  unfold direntInum
  by_cases inside : off % BSIZE ≤ DIRENTSIZE * e ∧ DIRENTSIZE * e < off % BSIZE + src.length
  · obtain ⟨k, index⟩ : ∃ k, DIRENTSIZE * e = off % BSIZE + DIRENTSIZE * k := by
      refine ⟨e - off % BSIZE / DIRENTSIZE, ?_⟩
      simp only [DIRENTSIZE, BSIZE] at *
      omega
    have same : word16 (Bytes.put bp (off % BSIZE) src)
        (DIRENTSIZE * e) = word16 (ofList src) (DIRENTSIZE * k) := by
      have byte : ∀ j < 2, Bytes.put bp (off % BSIZE) src (off % BSIZE + (DIRENTSIZE * k + j)) =
          src.getD (DIRENTSIZE * k + j) 0 := by
        intro j less
        apply Bytes.put_inside
        simp only [DIRENTSIZE, BSIZE] at *
        omega
      have first := byte 0 (by decide)
      have second := byte 1 (by decide)
      unfold word16 ofList
      rw [index, Nat.add_assoc, second]
      rw [Nat.add_zero] at first
      rw [first]
    rw [same]
    exact ok.inums k (by omega)
  · rw [Bytes.word16_put_outside]
    · exact old e small
    · simp only [DIRENTSIZE, BSIZE] at *
      omega

end EntriesOk

/-- The bytes stand in the file at `off`, and their block is there.  If it was
there before, no inode has changed. -/
structure Placed (off : Nat) (bytes : List UInt8) (d : Disk) (ip : Inode)
    (d' : Disk) (ip' : Inode) : Prop where
  size : ip'.size = ip.size
  inFile : off / BSIZE < MAXFILE
  contents : off % BSIZE + bytes.length ≤ BSIZE → ∀ a < BSIZE * MAXFILE,
    d'.contents ip'.toDinode a = Bytes.put (d.contents ip.toDinode) off bytes a
  there : ∀ bn, bn = off / BSIZE ∨ d.ptr ip.toDinode (.file bn) ≠ 0 →
    d'.ptr ip'.toDinode (.file bn) ≠ 0
  inodes : d.ptr ip.toDinode (.file (off / BSIZE)) ≠ 0 →
    ip' = ip ∧ ∀ j < d.superblock.ninodes, d'.dinode j = d.dinode j

theorem Grown.placed {off : Nat} {bytes : List UInt8}
    (grown : Grown limit N i d ip d' ip') (ready : Ready limit N i d ip)
    (inFile : off / BSIZE < MAXFILE) (some : d'.block ip'.toDinode (.file (off / BSIZE)) ≠ 0)
    (mapped : d.ptr ip.toDinode (.file (off / BSIZE)) ≠ 0 → d' = d ∧ ip' = ip) :
    Placed off bytes d ip (d'.setSector (d'.block ip'.toDinode (.file (off / BSIZE)))
      (Bytes.put (d'.sectors (d'.block ip'.toDinode (.file (off / BSIZE))))
        (off % BSIZE) bytes)) ip' := by
  have ready' := ready.advance (grown.advanced ready.small)
  have old := ready'.view some
  have pointer := some
  rw [ready'.block] at pointer
  have data := PtrSlot.file_ne_indirect (off / BSIZE)
  have here := ready'.here
  rw [← here] at some
  have view := ready'.owned.view_setData data some
  have ptr := ready'.owned.ptr_setData data some
  rw [here] at view ptr
  constructor
  case size => rw [grown.rest]
  case inFile => exact inFile
  case contents =>
    intro fits a less
    have place := Nat.mod_lt a (by decide : 0 < BSIZE)
    have before := grown.view _ (PtrSlot.file_ne_indirect (a / BSIZE)) _ place
    have shown := view (Bytes.put (d'.sectors (d'.block ip'.toDinode
      (.file (off / BSIZE)))) (off % BSIZE) bytes) i (.file (a / BSIZE))
    rw [here] at shown
    unfold Disk.contents
    rw [shown]
    by_cases block : a / BSIZE = off / BSIZE
    · rw [block] at before ⊢
      rw [if_pos rfl, ← old]
      unfold Bytes.put
      simp only [BSIZE] at *
      by_cases inside : off ≤ a ∧ a < off + bytes.length
      · rw [if_pos inside, if_pos (by omega)]
        congr 1
        omega
      · rw [if_neg inside, if_neg (by omega), before, block]
    · rw [if_neg, before, Bytes.put_outside]
      · simp only [BSIZE] at *
        omega
      · intro same
        refine block (PtrSlot.file_inj ?_ inFile (Prod.mk.inj same).2)
        simp only [BSIZE] at *
        omega
  case there =>
    intro bn either
    have kept := ptr (Bytes.put (d'.sectors (d'.block ip'.toDinode
      (.file (off / BSIZE)))) (off % BSIZE) bytes) i (.file bn)
    rw [here] at kept
    rw [kept]
    rcases either with rfl | was
    · exact pointer
    · rw [grown.kept _ was]
      exact was
  case inodes =>
    intro was
    obtain ⟨rfl, rfl⟩ := mapped was
    rw [← here]
    exact ⟨rfl, ready'.owned.dinode_setData some _⟩

theorem wp_writeiBlock_ready (ready : Ready limit N i d ip) {off : Nat} (bytes : List UInt8)
    (entries : ip.type = T_DIR → EntriesOk d.superblock.ninodes off bytes)
    (supply : Supply E limit (d.lacks ip (off / BSIZE)) d)
    (range : MAXFILE ≤ off / BSIZE → E .bmap) :
    wp (writeiBlock ip off bytes) (fun ip' d' =>
      Advanced limit N i d ip d' ip' ∧ Placed off bytes d ip d' ip') E d := by
  unfold writeiBlock
  refine wp_seq (wp_bmap ready.owned ready.here ready.idle supply range) ?_
  rintro ⟨sector, ip'⟩ d' ⟨inFile, grown, value, some, -, mapped⟩
  have advanced := grown.advanced ready.small
  have ready' := ready.advance advanced
  rw [← ready'.block] at value
  simp only at advanced value some ⊢
  subst value
  have quiet : d'.Quiet 1 := quiet_of_idle ready'.idle (by decide)
  rw [wp_bind, wp_bread (by rw [ready'.idle]; simp) quiet.few, wp_bind,
    wp_bwrite (by simp), if_neg ready'.plain, wp_bind, wp_pure, wp_bind,
    wp_brelse (by simp), wp_pure, Disk.hold_setSector_release]
  refine ⟨advanced.trans (ready'.writeData (PtrSlot.file_ne_indirect _) some
    ?_), grown.placed ready inFile some mapped⟩
  intro dir ok e small
  have written := entries (advanced.type.symm.trans dir)
  rw [← advanced.superblock] at written
  apply written.put _ small
  intro e small
  have old := ok dir _ (PtrSlot.file_ne_indirect (off / BSIZE)) e small
  rw [ready'.view some] at old
  exact old

theorem wp_writeiLoop_ready (fuel : Nat) (ready : Ready limit N i d ip) (src : List UInt8)
    (off left : Nat)
    (entries : ip.type = T_DIR → EntriesOk d.superblock.ninodes off src ∧ left % DIRENTSIZE = 0) :
    wp (writeiLoop fuel ip src off left)
      (fun ip' d' => Advanced limit N i d ip d' ip') Tolerated d := by
  induction fuel generalizing N d ip src off left with
  | zero => exact Advanced.refl ready
  | succ fuel ih =>
    unfold writeiLoop
    by_cases done : left = 0
    · rw [if_pos done, wp_pure]
      exact Advanced.refl ready
    · have aligned : ip.type = T_DIR → min left (BSIZE - off % BSIZE) % DIRENTSIZE = 0 := by
        intro dir
        obtain ⟨ok, whole⟩ := entries dir
        have start := ok.off
        simp only [DIRENTSIZE, BSIZE] at *
        omega
      rw [if_neg done]
      refine wp_seq (wp_writeiBlock_ready ready _ (fun dir => (entries dir).1.take (aligned dir))
        (inl ⟨ready.atEnd, nofun⟩) fun _ => nofun) ?_
      rintro ip' d' ⟨advanced, _⟩
      refine wp_imp (ih (ready.advance advanced) _ _ _ ?_)
        fun ip'' d'' onwards => advanced.trans onwards
      intro dir
      rw [advanced.type] at dir
      rw [advanced.superblock]
      have whole := (entries dir).2
      have part := aligned dir
      refine ⟨(entries dir).1.drop part, ?_⟩
      simp only [DIRENTSIZE] at *
      omega

theorem wp_writei_ready (ready : Ready limit N i d ip) (src : List UInt8) (off : Nat)
    (entries : ip.type = T_DIR → EntriesOk d.superblock.ninodes off src) :
    wp (writei ip src off) (fun r d' => Advanced limit N i d ip d' r.2) Tolerated d := by
  have still := Advanced.refl ready
  unfold writei
  rw [wp_ite, wp_ite]
  refine ⟨fun _ => still, fun _ => ⟨fun _ => still, fun _ => ?_⟩⟩
  refine wp_seq (wp_writeiLoop_ready _ ready _ _ _ ?_) ?_
  · intro dir
    have ok := entries dir
    have start := ok.off
    have whole := ok.length
    refine ⟨ok, ?_⟩
    split
    · unfold toU32
      simp only [DIRENTSIZE, MAXFILE, NDIRECT, NINDIRECT, BSIZE] at *
      omega
    · exact whole
  · intro ip' d' advanced
    have ready' := ready.advance advanced
    rw [wp_ite]
    refine ⟨fun _ => ?_, fun _ => advanced⟩
    have resized := ready'.resize (off + if MAXFILE * BSIZE <
      u32 (off + src.length) then toU32 (MAXFILE * BSIZE - off)
      else src.length)
    have sized := advanced.trans resized
    have ready'' := ready.advance sized
    rw [wp_bind]
    apply wp_iupdate_loaded ready''.toLoaded
    exact sized.trans ready''.writeBack

/-! ## Scanning directories -/

theorem direntFind_lt {bp : Bytes.Store} {name : List UInt8} {e : Nat}
    (found : direntFind bp name = some e) : e < DPB :=
  List.mem_range.mp (List.mem_of_find?_eq_some found)

theorem wp_dirlookupLoop_ready (name : List UInt8) (left : Nat)
    (ready : Ready limit N i d ip) (dir : ip.type = T_DIR) (ok : d.DirOk ip.toDinode) (bn : Nat) :
    wp (dirlookupLoop name left bn ip) (fun r d' => Advanced limit N i d ip d' r.2 ∧
        ∀ inum off, r.1 = some (inum, off) → inum < d.superblock.ninodes ∧ off % DIRENTSIZE = 0)
      Tolerated d := by
  induction left generalizing N d ip bn with
  | zero => exact ⟨Advanced.refl ready, nofun⟩
  | succ left ih =>
    unfold dirlookupLoop
    refine wp_seq (wp_bmap_ready ready bn) ?_
    rintro ⟨sector, ip'⟩ d' ⟨advanced, value, some⟩
    simp only at advanced value some ⊢
    subst value
    have ready' := ready.advance advanced
    have ok' := advanced.dirs ok
    have dir' := advanced.type.trans dir
    have superblock := advanced.superblock
    have quiet : d'.Quiet 1 := quiet_of_idle ready'.idle (by decide)
    rw [wp_bind, wp_bread (by rw [ready'.idle]; simp) quiet.few, wp_bind,
      wp_brelse (by simp), Disk.hold_release]
    cases search : direntFind (d'.sectors (d'.block ip'.toDinode (.file bn))) name with
    | some e =>
      refine ⟨advanced, ?_⟩
      rintro inum off found
      obtain ⟨rfl, rfl⟩ := Prod.mk.inj (Option.some.inj found)
      constructor
      · rw [← superblock, ← ready'.view some]
        exact ok' dir' _ (PtrSlot.file_ne_indirect bn) e (direntFind_lt search)
      · simp only [BSIZE, DIRENTSIZE]
        omega
    | none =>
      refine wp_imp (ih ready' dir' ok' (bn + 1)) ?_
      rintro ⟨found, ip''⟩ d'' ⟨onwards, inside⟩
      rw [superblock] at inside
      exact ⟨advanced.trans onwards, inside⟩

theorem wp_direntScan_ready (panic : FsPanic) (tolerated : panic ≠ .bfree)
    (stop : Nat → Bool) (left : Nat) (ready : Ready limit N i d ip) {off : Nat}
    (aligned : off % DIRENTSIZE = 0) :
    wp (direntScan panic stop left off ip) (fun r d' => Advanced limit N i d ip d' r.2 ∧
        r.1.1 % DIRENTSIZE = 0) Tolerated d := by
  induction left generalizing N d ip off with
  | zero => exact ⟨Advanced.refl ready, aligned⟩
  | succ left ih =>
    unfold direntScan
    refine wp_seq (wp_readi_ready [] ready off DIRENTSIZE) ?_
    rintro ⟨result, de, ip'⟩ d' advanced
    simp only
    rw [wp_ite, wp_ite]
    refine ⟨fun _ => tolerated, fun _ =>
      ⟨fun _ => ⟨advanced, aligned⟩, fun _ => ?_⟩⟩
    have next : (off + DIRENTSIZE) % DIRENTSIZE = 0 := by
      rw [Nat.add_mod_right]
      exact aligned
    refine wp_imp (ih (ready.advance advanced) next) ?_
    rintro ⟨found, ip''⟩ d'' ⟨onwards, last⟩
    exact ⟨advanced.trans onwards, last⟩

end Advanced

end Xv6.Fs
