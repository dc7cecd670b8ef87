/-
Purpose: The inode layer of fs.c: block pointers, truncation, block checksums
  and the transfer of file contents.
-/
import Xv6.Fs.Disk
import Xv6.Kernel.Syscall

namespace Xv6.Fs

open Bytes

/-!
The functions of this layer work on one inode in memory, which its caller has
locked.  They take that inode and return it with its changes, so that their
types show that they touch no other entry of the inode cache.
-/

/-- `struct inode`: the copy of the disk inode, and the cache's own fields. -/
structure Inode extends Dinode where
  inum : Nat
  ref : Int
  busy : Bool
  valid : Bool

/-- Index of the pointer to the indirect block. -/
def INDIRECT : Fin (NDIRECT + 1) := ⟨NDIRECT, by decide⟩

/-- Index of a direct pointer. -/
def direct (bn : Nat) (small : bn < NDIRECT) : Fin (NDIRECT + 1) :=
  ⟨bn, Nat.lt_succ_of_lt small⟩

/-- `ip->addrs[i] = addr`. -/
def Inode.setAddr (ip : Inode) (i : Fin (NDIRECT + 1)) (addr : Nat) : Inode :=
  { ip with addrs := Function.update ip.addrs i addr }

/-- `iupdate`. -/
def iupdate (ip : Inode) : FsM Unit := do
  let bp ← bread (iblock ip.inum)
  bwrite (iblock ip.inum) (ip.toDinode.store bp (dinodeBase ip.inum))
  brelse (iblock ip.inum)

/-! ## Block pointers -/

/-- The pointer `a[j]` of the indirect block `addr`, allocated if it is
null. -/
def bmapEntry (addr j : Nat) : FsM Nat := do
  let bp ← bread addr
  if word32 bp (4 * j) = 0 then do
    let fresh ← balloc
    bwrite addr (put bp (4 * j) (le32 fresh))
    brelse addr
    pure fresh
  else do
    brelse addr
    pure (word32 bp (4 * j))

/-- The pointer `ip->addrs[i]`, allocated if it is null. -/
def bmapAddr (ip : Inode) (i : Fin (NDIRECT + 1)) : FsM (Nat × Inode) :=
  if ip.addrs i = 0 then do
    let fresh ← balloc
    pure (fresh, ip.setAddr i fresh)
  else
    pure (ip.addrs i, ip)

/-- `bmap`: the pointer to block `bn` of the file, top byte included. -/
def bmap (ip : Inode) (bn : Nat) : FsM (Nat × Inode) :=
  if small : bn < NDIRECT then
    bmapAddr ip (direct bn small)
  else if bn - NDIRECT < NINDIRECT then do
    let (addr, ip) ← bmapAddr ip INDIRECT
    let entry ← bmapEntry addr (bn - NDIRECT)
    pure (entry, ip)
  else
    throw .bmap

/-- Free the blocks of a list of pointers, null pointers left out. -/
def bfreeAll : List Nat → FsM Unit
  | [] => pure ()
  | addr :: rest => do
      if addr ≠ 0 then bfree addr
      bfreeAll rest

/-- The pointers of an indirect block. -/
def indirectPtrs (bp : Bytes.Store) : List Nat :=
  (List.range NINDIRECT).map fun j => word32 bp (4 * j)

/-- The direct pointers. -/
def Dinode.directPtrs (dn : Dinode) : List Nat :=
  (List.finRange NDIRECT).map fun i => dn.addrs i.castSucc

/-- `itrunc`. -/
def itrunc (ip : Inode) : FsM Inode := do
  bfreeAll ip.directPtrs
  if ip.addrs INDIRECT ≠ 0 then do
    let bp ← bread (ip.addrs INDIRECT)
    bfreeAll (indirectPtrs bp)
    brelse (ip.addrs INDIRECT)
    bfree (ip.addrs INDIRECT)
  let ip := { ip with addrs := fun _ => 0, size := 0 }
  iupdate ip
  pure ip

/-! ## Checksums -/

/-- `real_addr`. -/
def realAddr (addr : Nat) (type : UInt16) : Nat :=
  if type = T_CHECKED then addr &&& 0x00FFFFFF else addr

/-- `get_checksum`. -/
def getChecksum (addr : Nat) : UInt8 := UInt8.ofNat (addr >>> 24)

/-- `synth_addr`. -/
def synthAddr (addr : Nat) (chksum : UInt8) : Nat :=
  chksum.toNat <<< 24 ||| realAddr addr T_CHECKED

/-- `gen_checksum`. -/
@[irreducible] def genChecksum (bp : Bytes.Store) : UInt8 :=
  (List.range BSIZE).foldl (fun chksum i => chksum ^^^ bp i) 0

/-- `set_checksum`.  The early return after `bread` leaves the buffer busy. -/
def setChecksum (ip : Inode) (bn : Nat) (chksum : UInt8) : FsM (Int × Inode) :=
  if small : bn < NDIRECT then
    let addr := ip.addrs (direct bn small)
    if addr = 0 then
      pure (-1, ip)
    else
      pure (0, ip.setAddr (direct bn small) (synthAddr addr chksum))
  else if bn - NDIRECT < NINDIRECT then
    if ip.addrs INDIRECT = 0 then
      pure (-1, ip)
    else do
      let sector := realAddr (ip.addrs INDIRECT) ip.type
      let bp ← bread sector
      let addr := word32 bp (4 * (bn - NDIRECT))
      if addr = 0 then
        pure (-1, ip)
      else do
        bwrite sector (put bp (4 * (bn - NDIRECT)) (le32 (synthAddr addr chksum)))
        brelse sector
        pure (0, ip)
  else
    throw .setChecksum

/-- The loops of `aggregate_checksum`: the checksums of the pointers before the
first null one, and whether there is a null one. -/
def xorChecksums (chksum : UInt8) : List Nat → UInt8 × Bool
  | [] => (chksum, false)
  | addr :: rest =>
    if addr = 0 then (chksum, true)
    else xorChecksums (chksum ^^^ getChecksum addr) rest

/-- `aggregate_checksum`. -/
def aggregateChecksum (ip : Inode) : FsM UInt8 :=
  let direct := xorChecksums 0 ip.directPtrs
  if direct.2 ∨ ip.addrs INDIRECT = 0 then
    pure direct.1
  else do
    let sector := realAddr (ip.addrs INDIRECT) ip.type
    let bp ← bread sector
    brelse sector
    let indirect := xorChecksums direct.1 (indirectPtrs bp)
    if indirect.2 then pure indirect.1 else throw .aggregateChecksum

/-- `struct stat`, without the device. -/
structure Stat where
  ino : Nat
  type : UInt16
  nlink : UInt16
  size : Nat
  checksum : UInt8
deriving DecidableEq

/-- `stati`. -/
def stati (ip : Inode) : FsM Stat := do
  let chksum ← aggregateChecksum ip
  pure
    { ino := ip.inum
      type := ip.type
      nlink := ip.nlink
      size := ip.size
      checksum := chksum }

/-! ## Contents -/

/-- One round of `readi`: `m` bytes from `off` on, out of one block.  A block
that does not verify gives no bytes, and its buffer stays busy. -/
def readiBlock (ip : Inode) (off m : Nat) : FsM (Option (List UInt8) × Inode) := do
  let (addr, ip) ← bmap ip (off / BSIZE)
  let sector := realAddr addr ip.type
  let bp ← bread sector
  if ip.type = T_CHECKED ∧ genChecksum bp ≠ getChecksum addr then
    pure (none, ip)
  else do
    brelse sector
    pure (some (slice bp (off % BSIZE) m), ip)

/-- One round of `writei`: `bytes` from `off` on, into one block.  The pointer
goes to `bread` as `bmap` returns it, and a failure of `set_checksum` only
prints a message. -/
def writeiBlock (ip : Inode) (off : Nat) (bytes : List UInt8) : FsM Inode := do
  let (sector, ip) ← bmap ip (off / BSIZE)
  let bp ← bread sector
  let bp := put bp (off % BSIZE) bytes
  bwrite sector bp
  let ip ← if ip.type = T_CHECKED then do
      let (_, ip) ← setChecksum ip (off / BSIZE) (genChecksum bp)
      pure ip
    else
      pure ip
  brelse sector
  pure ip

/-- The loop of `readi` for the `left` bytes from `off` on: whether every
block verified, and the bytes copied.  Every round copies at least one
byte. -/
def readiLoop : (fuel : Nat) → Inode → (off left : Nat) → FsM (Bool × List UInt8 × Inode)
  | 0, ip, _, _ => pure (true, [], ip)
  | fuel + 1, ip, off, left =>
    if left = 0 then
      pure (true, [], ip)
    else do
      let m := min left (BSIZE - off % BSIZE)
      match ← readiBlock ip off m with
      | (none, ip) => pure (false, [], ip)
      | (some bytes, ip) => do
          let (verified, rest, ip) ← readiLoop fuel ip (off + m) (left - m)
          pure (verified, bytes ++ rest, ip)

/-- The loop of `writei` for the `left` bytes at `src`, from `off` on. -/
def writeiLoop : (fuel : Nat) → Inode → (src : List UInt8) → (off left : Nat) → FsM Inode
  | 0, ip, _, _, _ => pure ip
  | fuel + 1, ip, src, off, left =>
    if left = 0 then
      pure ip
    else do
      let m := min left (BSIZE - off % BSIZE)
      let ip ← writeiBlock ip off (src.take m)
      writeiLoop fuel ip (src.drop m) (off + m) (left - m)

/-- `consoleread`, the one device `devsw` has: the value returned and the
characters stored, out of those typed.  The lock it gives up meanwhile is
taken again before it returns. -/
def deviceRead (typed : List UInt8) (n : Nat) : Int × List UInt8 :=
  let line := consoleLoop (toInt32 n).toNat typed
  (if line.2 then -1 else line.1, typed.take line.1)

/-- `readi`: the value returned, the bytes stored at `dst`, and the inode. -/
def readi (typed : List UInt8) (ip : Inode) (off n : Nat) : FsM (Int × List UInt8 × Inode) :=
  if ip.type = T_DEV then
    if ip.major = 1 then
      let (result, bytes) := deviceRead typed n
      pure (result, bytes, ip)
    else
      pure (-1, [], ip)
  else if ip.size < off ∨ u32 (off + n) < off then
    pure (-1, [], ip)
  else do
    let n := if ip.size < u32 (off + n) then ip.size - off else n
    let (verified, bytes, ip) ← readiLoop n ip off n
    pure (if verified then toInt32 n else -1, bytes, ip)

/-- `writei` of the bytes of `src`; their number is the `uint` argument
`n`. -/
def writei (ip : Inode) (src : List UInt8) (off : Nat) : FsM (Int × Inode) :=
  let n := src.length
  if ip.type = T_DEV then
    pure (if ip.major = 1 then toInt32 n else -1, ip)
  else if ip.size < off ∨ u32 (off + n) < off then
    pure (-1, ip)
  else do
    let n := if MAXFILE * BSIZE < u32 (off + n) then
        toU32 (MAXFILE * BSIZE - off) else n
    let ip ← writeiLoop n ip src off n
    if 0 < n ∧ ip.size < off + n then do
      let ip := { ip with size := off + n }
      iupdate ip
      pure (toInt32 n, ip)
    else
      pure (toInt32 n, ip)

end Xv6.Fs
