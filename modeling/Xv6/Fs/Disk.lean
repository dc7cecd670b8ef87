/-
Purpose: The block layer of fs.c: buffers, the superblock, the block bitmap
  and the inodes as they are stored on disk.
-/
import Xv6.Param
import Xv6.Lib.Bytes
import Xv6.Lib.PanicM

namespace Xv6.Fs

open Bytes

/-!
A sector is a store of which the first `BSIZE` bytes count.  The buffer cache
is seen from its callers: `bread` hands out the contents of a sector and keeps
the buffer busy until `brelse`, and a `bread` of a busy buffer sleeps.  With
system calls one at a time nobody else gives that buffer back, so such a sleep
ends the run.

All inodes are on the root device; device numbers are left out.
-/

/-- Buffers of the cache. -/
abbrev NBUF : Nat := 10
/-- Entries of the inode cache. -/
abbrev NINODE : Nat := 50

instance : NeZero NINODE := ⟨by decide⟩

/-- Open files per system. -/
abbrev NFILE : Nat := 100
/-- Inode number of the root directory. -/
abbrev ROOTINO : Nat := 1
/-- Longest name in a directory entry. -/
abbrev DIRSIZ : Nat := 14
/-- Bytes of a `struct dinode`. -/
abbrev DINODESIZE : Nat := 64
/-- Inodes per block: `BSIZE / sizeof(struct dinode)`. -/
abbrev IPB : Nat := 8
/-- Bits of a bitmap block: `BSIZE * 8`. -/
abbrev BPB : Nat := 4096

abbrev T_DIR : UInt16 := 1
abbrev T_FILE : UInt16 := 2
abbrev T_DEV : UInt16 := 3
abbrev T_CHECKED : UInt16 := 4

/-- `IBLOCK`: block that holds inode `i`. -/
def iblock (i : Nat) : Nat := i / IPB + 2

/-- `BBLOCK`: block that holds the bitmap bit of block `b`. -/
def bblock (b ninodes : Nat) : Nat := b / BPB + ninodes / IPB + 3

/-- Every way in which the modelled file-system code stops, the sleep that
nobody ends included. -/
inductive FsPanic where
  | asleep
  | bget
  | bwrite
  | brelse
  | balloc
  | bfree
  | ialloc
  | iget
  | ilock
  | ilockType
  | iunlock
  | iputBusy
  | bmap
  | setChecksum
  | aggregateChecksum
  | dirlookup
  | dirlinkRead
  | dirlink
  | isdirempty
  | unlinkNlink
  | unlinkWritei
  | createDots
  | createDirlink
  | filedup
  | fileclose
  | fileread
  | filewrite
deriving Repr, DecidableEq

/-- The sectors, and the sectors whose buffers are busy. -/
structure Disk where
  sectors : Nat → Bytes.Store
  held : List Nat
  /-- The blocks `balloc` has returned, latest first; read by no code. -/
  given : List Nat

/-- Code of the block layer. -/
abbrev FsM := PanicM Disk FsPanic

namespace Disk

/-- Replace one sector. -/
def setSector (d : Disk) (sector : Nat) (data : Bytes.Store) : Disk :=
  { d with sectors := Function.update d.sectors sector data }

/-- Make a buffer busy. -/
def hold (d : Disk) (sector : Nat) : Disk :=
  { d with held := sector :: d.held }

/-- Give a buffer back. -/
def release (d : Disk) (sector : Nat) : Disk :=
  { d with held := d.held.erase sector }

/-- Note that `balloc` returns a block. -/
def give (d : Disk) (b : Nat) : Disk := { d with given := b :: d.given }

end Disk

/-! ## Buffers -/

/-- `bread`. -/
def bread (sector : Nat) : FsM Bytes.Store := do
  let d ← get
  if sector ∈ d.held then
    throw .asleep
  else if NBUF ≤ d.held.length then
    throw .bget
  else do
    set (d.hold sector)
    pure (d.sectors sector)

/-- `bwrite`. -/
def bwrite (sector : Nat) (data : Bytes.Store) : FsM Unit := do
  let d ← get
  if sector ∈ d.held then
    set (d.setSector sector data)
  else
    throw .bwrite

/-- `brelse`. -/
def brelse (sector : Nat) : FsM Unit := do
  let d ← get
  if sector ∈ d.held then
    set (d.release sector)
  else
    throw .brelse

/-! ## The superblock and the bitmap -/

structure Superblock where
  size : Nat
  nblocks : Nat
  ninodes : Nat
deriving Repr, DecidableEq

/-- The superblock in the bytes of its sector. -/
def Superblock.decode (data : Bytes.Store) : Superblock where
  size := word32 data 0
  nblocks := word32 data 4
  ninodes := word32 data 8

/-- `readsb`. -/
def readsb : FsM Superblock := do
  let bp ← bread 1
  brelse 1
  pure (Superblock.decode bp)

/-- `bzero`. -/
def bzero (bno : Nat) : FsM Unit := do
  let bp ← bread bno
  bwrite bno (fill bp 0 0 BSIZE)
  brelse bno

/-- First clear bit of a bitmap block. -/
@[irreducible] def firstClear (bp : Bytes.Store) : Option Nat :=
  (List.range BPB).find? fun bi => !bit bp bi

/-- The loop of `balloc` over the `left` bitmap blocks from the one of block
`b` on. -/
def ballocLoop (ninodes : Nat) : (left b : Nat) → FsM Nat
  | 0, _ => throw .balloc
  | left + 1, b => do
      let bp ← bread (bblock b ninodes)
      match firstClear bp with
      | some bi => do
          bwrite (bblock b ninodes) (setBit bp bi true)
          brelse (bblock b ninodes)
          modify fun d => d.give (b + bi)
          pure (b + bi)
      | none => do
          brelse (bblock b ninodes)
          ballocLoop ninodes left (b + BPB)

/-- `balloc`.  The search looks at whole bitmap blocks: only where it starts a
block does it compare with the size of the file system.  That size is taken to
fit into the `int` the loop counts with. -/
def balloc : FsM Nat := do
  let sb ← readsb
  ballocLoop sb.ninodes ((sb.size + (BPB - 1)) / BPB) 0

/-- `bfree`. -/
def bfree (b : Nat) : FsM Unit := do
  bzero b
  let sb ← readsb
  let bp ← bread (bblock b sb.ninodes)
  if bit bp (b % BPB) then do
    bwrite (bblock b sb.ninodes) (setBit bp (b % BPB) false)
    brelse (bblock b sb.ninodes)
  else
    throw .bfree

/-! ## Inodes on disk -/

/-- `struct dinode`.  The four `short` fields are kept as their bits. -/
structure Dinode where
  type : UInt16
  major : UInt16
  minor : UInt16
  nlink : UInt16
  size : Nat
  addrs : Fin (NDIRECT + 1) → Nat

/-- The inode at offset `base` of a sector. -/
def Dinode.load (data : Bytes.Store) (base : Nat) : Dinode where
  type := UInt16.ofNat (word16 data base)
  major := UInt16.ofNat (word16 data (base + 2))
  minor := UInt16.ofNat (word16 data (base + 4))
  nlink := UInt16.ofNat (word16 data (base + 6))
  size := word32 data (base + 8)
  addrs := fun i => word32 data (base + 12 + 4 * i)

/-- The words of `addrs`. -/
def Dinode.words (dn : Dinode) (i : Nat) : Nat :=
  if small : i < NDIRECT + 1 then dn.addrs ⟨i, small⟩ else 0

/-- Store the inode at offset `base` of a sector. -/
def Dinode.store (dn : Dinode) (data : Bytes.Store) (base : Nat) : Bytes.Store :=
  let data := put data base (le16 dn.type.toNat)
  let data := put data (base + 2) (le16 dn.major.toNat)
  let data := put data (base + 4) (le16 dn.minor.toNat)
  let data := put data (base + 6) (le16 dn.nlink.toNat)
  let data := put data (base + 8) (le32 dn.size)
  putWords data (base + 12) (NDIRECT + 1) dn.words

/-- Offset of inode `i` in its block. -/
def dinodeBase (i : Nat) : Nat := i % IPB * DINODESIZE

/-! ## What the sectors say -/

namespace Disk

variable (d : Disk)

def superblock : Superblock := Superblock.decode (d.sectors 1)

/-- The bitmap bit of block `b`. -/
def used (b : Nat) : Bool :=
  bit (d.sectors (bblock b d.superblock.ninodes)) (b % BPB)

/-- Inode `i` on disk. -/
def dinode (i : Nat) : Dinode :=
  Dinode.load (d.sectors (iblock i)) (dinodeBase i)

/-- Blocks whose bits the search of `balloc` looks at. -/
def bitmapEnd : Nat := (d.superblock.size + (BPB - 1)) / BPB * BPB

/-- First block after the bitmap. -/
def dataStart : Nat :=
  d.superblock.ninodes / IPB + 3 + d.superblock.size / BPB + 1

/-- Block `b` lies in the data area. -/
def IsData (b : Nat) : Prop := d.dataStart ≤ b ∧ b < d.superblock.size

/-- Every byte of the block is zero. -/
def IsZero (b : Nat) : Prop := ∀ i < BSIZE, d.sectors b i = 0

end Disk

end Xv6.Fs
