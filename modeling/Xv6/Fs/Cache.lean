/-
Purpose: The inode cache of fs.c: references to in-memory inodes, their locks,
  and the allocation of disk inodes.
-/
import Xv6.Fs.Inode
import Xv6.Kernel.State

namespace Xv6.Fs

/-!
System calls run one at a time.  A lock or a buffer that is taken when a call
asks for it was left behind by the call itself or by an earlier one, and
nobody will give it back: that sleep ends the run.
-/

/-- A pointer to an entry of the inode cache. -/
abbrev InodePtr := Fin NINODE

/-- `f->type`, without pipes. -/
inductive FdType where
  | none
  | inode
deriving Repr, DecidableEq

/-- `struct file`. -/
structure File where
  type : FdType
  ref : Int
  readable : Bool
  writable : Bool
  ip : InodePtr
  off : Nat

/-- The disk, the inode cache, the file table, and the current directory of
each process. -/
structure FileSys where
  disk : Disk
  icache : InodePtr → Inode
  ftable : Fin NFILE → File
  cwd : Slot → Option InodePtr

/-- Code above the block layer. -/
abbrev FM := PanicM FileSys FsPanic

namespace FileSys

/-- Replace one entry of the inode cache. -/
def setInode (s : FileSys) (ip : InodePtr) (node : Inode) : FileSys :=
  { s with icache := Function.update s.icache ip node }

/-- Replace one entry of the file table. -/
def setFile (s : FileSys) (f : Fin NFILE) (file : File) : FileSys :=
  { s with ftable := Function.update s.ftable f file }

end FileSys

/-- Code of the block layer in a larger state. -/
def onDisk {α : Type} (program : FsM α) : FM α := fun s =>
  match program s.disk with
  | .ok (value, disk) => .ok (value, { s with disk := disk })
  | .error reason => .error reason

/-- Code of the inode layer, on an entry of the cache. -/
def withInode {α : Type} (ip : InodePtr) (program : Inode → FsM (α × Inode)) : FM α := do
  let s ← get
  let (value, node) ← onDisk (program (s.icache ip))
  modify fun s => s.setInode ip node
  pure value

/-- Change fields of an entry of the cache. -/
def updInode (ip : InodePtr) (update : Inode → Inode) : FM Unit :=
  modify fun s => s.setInode ip (update (s.icache ip))

/-- `iupdate` of an entry of the cache. -/
def iupdateAt (ip : InodePtr) : FM Unit :=
  withInode ip fun node => do
    iupdate node
    pure ((), node)

/-! ## References -/

/-- The entry that holds inode `inum`. -/
def FileSys.findInode (s : FileSys) (inum : Nat) : Option InodePtr :=
  (List.finRange NINODE).find? fun ip =>
    0 < (s.icache ip).ref && (s.icache ip).inum == inum

/-- The first unused entry. -/
def FileSys.emptyInode (s : FileSys) : Option InodePtr :=
  (List.finRange NINODE).find? fun ip => (s.icache ip).ref == 0

/-- `idup`. -/
def idup (ip : InodePtr) : FM Unit :=
  updInode ip fun node => { node with ref := node.ref + 1 }

/-- `iget`. -/
def iget (inum : Nat) : FM InodePtr := do
  let s ← get
  match s.findInode inum with
  | some ip => do
      idup ip
      pure ip
  | none =>
    match s.emptyInode with
    | none => throw .iget
    | some ip => do
        updInode ip fun node =>
          { node with
            inum := inum
            ref := 1
            busy := false
            valid := false }
        pure ip

/-! ## Locks -/

/-- The copy of the disk inode that `ilock` makes. -/
def Inode.fill (node : Inode) (dn : Dinode) : Inode :=
  { node with
    toDinode := dn
    valid := true }

/-- `ilock`. -/
def ilock (ip : InodePtr) : FM Unit := do
  let s ← get
  if (s.icache ip).ref < 1 then
    throw .ilock
  else if (s.icache ip).busy then
    throw .asleep
  else do
    updInode ip fun node => { node with busy := true }
    if (s.icache ip).valid then
      pure ()
    else do
      let dn ← withInode ip fun node => do
        let bp ← bread (iblock node.inum)
        brelse (iblock node.inum)
        let dn := Dinode.load bp (dinodeBase node.inum)
        pure (dn, node.fill dn)
      if dn.type = 0 then throw .ilockType else pure ()

/-- `iunlock`. -/
def iunlock (ip : InodePtr) : FM Unit := do
  let s ← get
  if ¬ (s.icache ip).busy ∨ (s.icache ip).ref < 1 then
    throw .iunlock
  else
    updInode ip fun node => { node with busy := false }

/-- The part of `iput` that frees an inode nobody uses or names. -/
def iputFree (ip : InodePtr) : FM Unit := do
  withInode ip fun node => do
    let node ← itrunc { node with busy := true }
    let node := { node with type := 0 }
    iupdate node
    pure ((), { node with
      busy := false
      valid := false })

/-- `iput`. -/
def iput (ip : InodePtr) : FM Unit := do
  let s ← get
  let node := s.icache ip
  if node.ref = 1 ∧ node.valid ∧ node.nlink = 0 then do
    if node.busy then throw .iputBusy else iputFree ip
  updInode ip fun node => { node with ref := node.ref - 1 }

/-- `iunlockput`. -/
def iunlockput (ip : InodePtr) : FM Unit := do
  iunlock ip
  iput ip

/-! ## Allocation -/

/-- The loop of `ialloc` over the `left` inodes from `inum` on. -/
def iallocLoop (type : UInt16) : (left inum : Nat) → FsM Nat
  | 0, _ => throw .ialloc
  | left + 1, inum => do
      let bp ← bread (iblock inum)
      if (Dinode.load bp (dinodeBase inum)).type = 0 then do
        let cleared := Bytes.fill bp (dinodeBase inum) 0 DINODESIZE
        bwrite (iblock inum) (Bytes.put cleared (dinodeBase inum) (Bytes.le16 type.toNat))
        brelse (iblock inum)
        pure inum
      else do
        brelse (iblock inum)
        iallocLoop type left (inum + 1)

/-- `ialloc`. -/
def ialloc (type : UInt16) : FM InodePtr := do
  let inum ← onDisk (do
    let sb ← readsb
    iallocLoop type (sb.ninodes - 1) 1)
  iget inum

end Xv6.Fs
