/-
Purpose: tools/mkfs.c: the file system image that mkfs builds from a directory
  tree of the host.
-/
import Xv6.Fs.Dir

namespace Xv6

open Bytes Fs

/-- What a directory of the host holds, in the order of `readdir_r`, without
`.` and `..`. -/
inductive Entries where
  | nil
  | file (name bytes : List UInt8) (rest : Entries)
  | dir (name : List UInt8) (children rest : Entries)

/-- The image file, `length` sectors long, and the counters of mkfs. -/
structure FsImage where
  sectors : Nat → Bytes.Store
  length : Nat
  freeinode : Nat
  freeblock : Nat
  usedblocks : Nat

namespace Mkfs

/-- Why mkfs stops with a status other than 0: a failed assertion, or a read
beyond the end of the image. -/
inductive Exit where
  | assertion
  | read
deriving DecidableEq

abbrev M := PanicM FsImage Exit

/-- `assert`. -/
def assert (condition : Prop) [Decidable condition] : M Unit :=
  if condition then pure () else throw .assertion

/-! ## Sectors and inodes -/

/-- `wsect`: writing beyond the end makes the file longer. -/
def wsect (sec : Nat) (buf : Bytes.Store) : M Unit :=
  modify fun s =>
    { s with
      sectors := Function.update s.sectors sec buf
      length := max s.length (sec + 1) }

/-- `rsect`. -/
def rsect (sec : Nat) : M Bytes.Store := do
  let s ← get
  if sec < s.length then pure (s.sectors sec) else throw .read

/-- `i2b`. -/
def i2b (inum : Nat) : Nat := inum / IPB + 2

/-- `winode`. -/
def winode (inum : Nat) (din : Dinode) : M Unit := do
  let buf ← rsect (i2b inum)
  wsect (i2b inum) (din.store buf (inum % IPB * DINODESIZE))

/-- `rinode`. -/
def rinode (inum : Nat) : M Dinode := do
  let buf ← rsect (i2b inum)
  pure (Dinode.load buf (inum % IPB * DINODESIZE))

/-- The inode that `ialloc` writes. -/
def newDinode (type : UInt16) : Dinode where
  type := type
  major := 0
  minor := 0
  nlink := 1
  size := 0
  addrs := fun _ => 0

/-- `ialloc`. -/
def ialloc (type : UInt16) : M Nat := do
  let s ← get
  set { s with freeinode := s.freeinode + 1 }
  winode s.freeinode (newDinode type)
  pure s.freeinode

/-- `freeblock++; usedblocks++;` -/
def takeBlock : M Nat := do
  let s ← get
  set { s with freeblock := s.freeblock + 1, usedblocks := s.usedblocks + 1 }
  pure s.freeblock

/-! ## Contents -/

/-- The pointer to the indirect block, allocated if it is null. -/
def indirectBlock (din : Dinode) : M (Nat × Dinode) :=
  if din.addrs INDIRECT = 0 then do
    let x ← takeBlock
    pure (x, { din with addrs := Function.update din.addrs INDIRECT x })
  else
    pure (din.addrs INDIRECT, din)

/-- Block `fbn` of the inode, allocated if it is missing. -/
def fileBlock (din : Dinode) (fbn : Nat) : M (Nat × Dinode) :=
  if small : fbn < NDIRECT then
    if din.addrs (direct fbn small) = 0 then do
      let x ← takeBlock
      pure (x,
        { din with addrs := Function.update din.addrs (direct fbn small) x })
    else
      pure (din.addrs (direct fbn small), din)
  else do
    let (ind, din) ← indirectBlock din
    let indirect ← rsect ind
    if word32 indirect (4 * (fbn - NDIRECT)) = 0 then do
      let x ← takeBlock
      wsect ind (put indirect (4 * (fbn - NDIRECT)) (le32 x))
      pure (x, din)
    else
      pure (word32 indirect (4 * (fbn - NDIRECT)), din)

/-- The loop of `iappend`: the inode and its new size.  Every round takes at
least one byte. -/
def appendLoop : (fuel : Nat) → Dinode → (off : Nat) → (p : List UInt8) → M (Dinode × Nat)
  | 0, din, off, _ => pure (din, off)
  | fuel + 1, din, off, p =>
    if p = [] then
      pure (din, off)
    else do
      let fbn := off / 512
      assert (fbn < MAXFILE)
      let (x, din) ← fileBlock din fbn
      let n1 := min p.length ((fbn + 1) * 512 - off)
      let buf ← rsect x
      wsect x (put buf (off - fbn * 512) (p.take n1))
      appendLoop fuel din (off + n1) (p.drop n1)

/-- `iappend`. -/
def iappend (inum : Nat) (p : List UInt8) : M Unit := do
  let din ← rinode inum
  let (din, off) ← appendLoop p.length din din.size p
  winode inum { din with size := off }

/-! ## Directories -/

/-- The loop that reads a file of the host, 512 bytes at a time. -/
def addFile (inum : Nat) : (fuel : Nat) → (bytes : List UInt8) → M Unit
  | 0, _ => pure ()
  | fuel + 1, bytes =>
    if bytes = [] then
      pure ()
    else do
      iappend inum (bytes.take 512)
      addFile inum fuel (bytes.drop 512)

/-- The entries `.` and `..`. -/
def addDots (cur parent : Nat) : M Unit := do
  iappend cur (dirent cur [46])
  iappend cur (dirent parent [46, 46])

/-- The end of `add_dir`: the size becomes a number of whole blocks. -/
def fixSize (cur : Nat) : M Unit := do
  let din ← rinode cur
  winode cur { din with size := (din.size / BSIZE + 1) * BSIZE }

/-- The loop of `add_dir` over the entries of the directory. -/
def addEntries (cur : Nat) : Entries → M Unit
  | .nil => pure ()
  | .file name bytes rest => do
      let child ← ialloc T_FILE
      addFile child (bytes.length / 512 + 1) bytes
      iappend cur (dirent child name)
      addEntries cur rest
  | .dir name children rest => do
      let child ← ialloc T_DIR
      addDots child cur
      addEntries child children
      fixSize child
      iappend cur (dirent child name)
      addEntries cur rest

/-- `add_dir`. -/
def addDir (cur parent : Nat) (entries : Entries) : M Unit := do
  addDots cur parent
  addEntries cur entries
  fixSize cur

/-! ## The image -/

/-- The superblock as it is on disk. -/
def superblock (size nblocks ninodes : Nat) : Bytes.Store :=
  put (fun _ => 0) 0 (le32 size ++ le32 nblocks ++ le32 ninodes)

/-- `mkfs`: the file is new, so that the sectors written are all it has. -/
def mkfs (nblocks ninodes size : Nat) : M Unit := do
  let bitblocks := size / (512 * 8) + 1
  let usedblocks := ninodes / IPB + 3 + bitblocks
  assert (nblocks + usedblocks = size)
  modify fun s =>
    { s with
      sectors := fun _ _ => 0
      length := nblocks + usedblocks
      freeblock := usedblocks
      usedblocks := usedblocks }
  wsect 1 (superblock size nblocks ninodes)

/-- The number of inodes that `main` asks for. -/
abbrev NINODES : Nat := 200

/-- A block whose first `used` bits are set. -/
def bitmap (used : Nat) : Bytes.Store :=
  (List.range used).foldl (fun buf i => setBit buf i true) fun _ => 0

/-- `balloc`. -/
def balloc (used : Nat) : M Unit := do
  assert (used < 512 * 8)
  wsect (NINODES / IPB + 3) (bitmap used)

/-- `main`, for the entries of the directory given to it. -/
def main (entries : Entries) : M Unit := do
  mkfs 995 NINODES 1024
  let root ← ialloc T_DIR
  assert (root = ROOTINO)
  addDir root root entries
  let s ← get
  balloc s.usedblocks

/-- Before `main`: the file is empty. -/
def start : FsImage where
  sectors := fun _ _ => 0
  length := 0
  freeinode := 1
  freeblock := 0
  usedblocks := 0

/-- mkfs exits with status 0 and leaves this image. -/
def Builds (entries : Entries) (image : FsImage) : Prop :=
  main entries start = .ok ((), image)

end Mkfs

end Xv6
