/-
Purpose: file.c and the file-system calls of sysfile.c, and the step of a
  system that runs such calls one at a time.
-/
import Xv6.Fs.Dir

namespace Xv6.Fs

/-!
The arguments of a call are those it has after `argstr` and `argint`.  Of the
descriptor table only the question whether a free descriptor is left enters,
as an argument of `open`; calls on a descriptor take the file behind it.
-/

abbrev O_RDONLY : Nat := 0x000
abbrev O_WRONLY : Nat := 0x001
abbrev O_RDWR : Nat := 0x002
abbrev O_CREATE : Nat := 0x200
abbrev O_CHECKED : Nat := 0x400

/-- `omode & flag`. -/
def hasFlag (omode flag : Nat) : Bool := omode &&& flag != 0

/-! ## Files -/

/-- Change fields of an entry of the file table. -/
def updFile (f : Fin NFILE) (update : File → File) : FM Unit :=
  modify fun s => s.setFile f (update (s.ftable f))

/-- `filealloc`. -/
def filealloc : FM (Option (Fin NFILE)) := do
  let s ← get
  match (List.finRange NFILE).find? fun f => (s.ftable f).ref == 0 with
  | none => pure none
  | some f => do
      updFile f fun file => { file with ref := 1 }
      pure (some f)

/-- `filedup`. -/
def filedup (f : Fin NFILE) : FM Unit := do
  let s ← get
  if (s.ftable f).ref < 1 then
    throw .filedup
  else
    updFile f fun file => { file with ref := file.ref + 1 }

/-- `fileclose`. -/
def fileclose (f : Fin NFILE) : FM Unit := do
  let s ← get
  let file := s.ftable f
  if file.ref < 1 then
    throw .fileclose
  else if 1 < file.ref then
    updFile f fun file => { file with ref := file.ref - 1 }
  else do
    updFile f fun file =>
      { file with
        ref := 0
        type := .none }
    match file.type with
    | .none => pure ()
    | .inode => iput file.ip

/-- `f->off += r`, where `r > 0`. -/
def advance (f : Fin NFILE) (r : Int) : FM Unit :=
  if 0 < r then
    updFile f fun file => { file with off := u32 (file.off + r.toNat) }
  else
    pure ()

/-- `fileread`. -/
def fileread (typed : List UInt8) (f : Fin NFILE) (n : Nat) : FM (Int × List UInt8) := do
  let s ← get
  let file := s.ftable f
  if file.readable then
    match file.type with
    | .none => throw .fileread
    | .inode => do
        ilock file.ip
        let (r, bytes) ← withInode file.ip fun node => do
          let (r, bytes, node) ← readi typed node file.off n
          pure ((r, bytes), node)
        advance f r
        iunlock file.ip
        pure (r, bytes)
  else
    pure (-1, [])

/-- `filewrite`. -/
def filewrite (f : Fin NFILE) (src : List UInt8) : FM Int := do
  let s ← get
  let file := s.ftable f
  if file.writable then
    match file.type with
    | .none => throw .filewrite
    | .inode => do
        ilock file.ip
        let r ← withInode file.ip fun node => writei node src file.off
        advance f r
        iunlock file.ip
        pure r
  else
    pure (-1)

/-! ## Links -/

/-- `ip->nlink++; iupdate(ip)`, or with `--`. -/
def addLink (ip : InodePtr) (delta : UInt16) : FM Unit := do
  updInode ip fun node => { node with nlink := node.nlink + delta }
  iupdateAt ip

/-- The `bad` exit of `sys_link`. -/
def linkUndo (ip : InodePtr) : FM Int := do
  ilock ip
  addLink ip (-1)
  iunlockput ip
  pure (-1)

/-- `sys_link`. -/
def sysLink (cwd : InodePtr) (old new : List UInt8) : FM Int := do
  match ← namei cwd old with
  | none => pure (-1)
  | some ip => do
      ilock ip
      let s ← get
      if (s.icache ip).type = T_DIR then do
        iunlockput ip
        pure (-1)
      else do
        addLink ip 1
        iunlock ip
        match ← nameiparent cwd new with
        | none => linkUndo ip
        | some (dp, name) => do
            ilock dp
            let s ← get
            if (← dirlink dp name (s.icache ip).inum) < 0 then do
              iunlockput dp
              linkUndo ip
            else do
              iunlockput dp
              iput ip
              pure 0

/-- `isdirempty`. -/
def isdirempty (dp : InodePtr) : FM Bool := do
  let (_, inUse) ← withInode dp fun node =>
    direntScan .isdirempty (· != 0) (node.entries (2 * DIRENTSIZE)) (2 * DIRENTSIZE) node
  pure (!inUse)

/-- The part of `sys_unlink` after both inodes are locked. -/
def unlinkEntry (dp ip : InodePtr) (off : Nat) : FM Int := do
  let s ← get
  if (s.icache ip).nlink = 0 ∨ 2 ^ 15 ≤ (s.icache ip).nlink.toNat then
    throw .unlinkNlink
  else do
    let isDir := (s.icache ip).type = T_DIR
    let empty ← if isDir then isdirempty ip else pure true
    if ¬ empty then do
      iunlockput ip
      iunlockput dp
      pure (-1)
    else do
      let written ← withInode dp fun node =>
        writei node (List.replicate DIRENTSIZE 0) off
      if written ≠ DIRENTSIZE then
        throw .unlinkWritei
      else do
        if isDir then addLink dp (-1)
        iunlockput dp
        addLink ip (-1)
        iunlockput ip
        pure 0

/-- The names `.` and `..`. -/
def dotName : List UInt8 := [46]
def dotDotName : List UInt8 := [46, 46]

/-- `sys_unlink`. -/
def sysUnlink (cwd : InodePtr) (path : List UInt8) : FM Int := do
  match ← nameiparent cwd path with
  | none => pure (-1)
  | some (dp, name) => do
      ilock dp
      if namecmp (nameBytes name) (nameBytes dotName) = 0 ∨
          namecmp (nameBytes name) (nameBytes dotDotName) = 0 then do
        iunlockput dp
        pure (-1)
      else
        match ← dirlookup dp name with
        | none => do
            iunlockput dp
            pure (-1)
        | some (ip, off) => do
            ilock ip
            unlinkEntry dp ip off

/-! ## Creation -/

/-- The part of `create` that makes a new inode `ip`, with its entry in
`dp`. -/
def createNew (dp ip : InodePtr) (name : List UInt8) (type major minor : UInt16) : FM Unit := do
  ilock ip
  updInode ip fun node =>
    { node with
      major := major
      minor := minor
      nlink := 1 }
  iupdateAt ip
  let s ← get
  let inum := (s.icache ip).inum
  let parent := (s.icache dp).inum
  if type = T_DIR then do
    addLink dp 1
    if (← dirlink ip dotName inum) < 0 then
      throw .createDots
    if (← dirlink ip dotDotName parent) < 0 then
      throw .createDots
  if (← dirlink dp name inum) < 0 then
    throw .createDirlink
  iunlockput dp

/-- `create`: a locked inode. -/
def create (cwd : InodePtr) (path : List UInt8) (type major minor : UInt16) :
    FM (Option InodePtr) := do
  match ← nameiparent cwd path with
  | none => pure none
  | some (dp, name) => do
      ilock dp
      match ← dirlookup dp name with
      | some (ip, _) => do
          iunlockput dp
          ilock ip
          let s ← get
          let found := (s.icache ip).type
          if (type = T_FILE ∧ found = T_FILE) ∨ (type = T_CHECKED ∧ found = T_CHECKED) then
            pure (some ip)
          else do
            iunlockput ip
            pure none
      | none => do
          let ip ← ialloc type
          createNew dp ip name type major minor
          pure (some ip)

/-- The first half of `sys_open`: the inode, locked. -/
def openInode (cwd : InodePtr) (path : List UInt8) (omode : Nat) : FM (Option InodePtr) :=
  if hasFlag omode O_CREATE then
    create cwd path (if hasFlag omode O_CHECKED then T_CHECKED else T_FILE) 0 0
  else do
    match ← namei cwd path with
    | none => pure none
    | some ip => do
        ilock ip
        let s ← get
        if (s.icache ip).type = T_DIR ∧ omode ≠ O_RDONLY then do
          iunlockput ip
          pure none
        else
          pure (some ip)

/-- `sys_open`: the file opened. -/
def sysOpen (cwd : InodePtr) (path : List UInt8) (omode : Nat)
    (fdFree : Bool) : FM (Option (Fin NFILE)) := do
  match ← openInode cwd path omode with
  | none => pure none
  | some ip => do
      match ← filealloc with
      | none => do
          iunlockput ip
          pure none
      | some f =>
        if fdFree then do
          iunlock ip
          updFile f fun file =>
            { file with
              type := .inode
              ip := ip
              off := 0
              readable := !hasFlag omode O_WRONLY
              writable := hasFlag omode O_WRONLY || hasFlag omode O_RDWR }
          pure (some f)
        else do
          fileclose f
          iunlockput ip
          pure none

/-- `sys_mkdir` and `sys_mknod`: a new inode, given back at once. -/
def makeNode (cwd : InodePtr) (path : List UInt8) (type major minor : UInt16) : FM Int := do
  match ← create cwd path type major minor with
  | none => pure (-1)
  | some ip => do
      iunlockput ip
      pure 0

/-- `sys_mkdir`. -/
def sysMkdir (cwd : InodePtr) (path : List UInt8) : FM Int :=
  makeNode cwd path T_DIR 0 0

/-- `sys_mknod`. -/
def sysMknod (cwd : InodePtr) (path : List UInt8) (major minor : UInt16) :
    FM Int := makeNode cwd path T_DEV major minor

/-! ## Current directories -/

/-- `p->cwd = ip`. -/
def setCwd (p : Slot) (ip : Option InodePtr) : FM Unit :=
  modify fun s => { s with cwd := Function.update s.cwd p ip }

/-- `sys_chdir`. -/
def sysChdir (p : Slot) (cwd : InodePtr) (path : List UInt8) : FM Int := do
  match ← namei cwd path with
  | none => pure (-1)
  | some ip => do
      ilock ip
      let s ← get
      if (s.icache ip).type ≠ T_DIR then do
        iunlockput ip
        pure (-1)
      else do
        iunlock ip
        iput cwd
        setCwd p (some ip)
        pure 0

/-! ## The system -/

/-- What a process asks of the file system.  `start` is the current directory
that `userinit` sets up; `fork` and `exit` are the part of those calls that
concerns the current directory, and the files they duplicate or close appear
as `dup` and `close`. -/
inductive Call where
  | start (p : Slot)
  | fork (p child : Slot)
  | exit (p : Slot)
  | chdir (p : Slot) (path : List UInt8)
  | openFile (p : Slot) (path : List UInt8) (omode : Nat) (fdFree : Bool)
  | mkdir (p : Slot) (path : List UInt8)
  | mknod (p : Slot) (path : List UInt8) (major minor : UInt16)
  | link (p : Slot) (old new : List UInt8)
  | unlink (p : Slot) (path : List UInt8)
  | read (f : Fin NFILE) (n : Nat) (typed : List UInt8)
  | write (f : Fin NFILE) (src : List UInt8)
  | dup (f : Fin NFILE)
  | close (f : Fin NFILE)

/-- Code of a process with a current directory; other slots of the process
table are not in use and call nothing. -/
def withCwd {α : Type} (p : Slot) (body : InodePtr → FM α) : FM Unit := do
  let s ← get
  match s.cwd p with
  | none => pure ()
  | some cwd => do
      let _ ← body cwd
      pure ()

/-- One call. -/
def Call.perform : Call → FM Unit
  | .start p => do
      let s ← get
      match s.cwd p with
      | none => do
          let ip ← iget ROOTINO
          setCwd p (some ip)
      | some _ => pure ()
  | .fork p child =>
    withCwd p fun cwd => do
      let s ← get
      match s.cwd child with
      | none => do
          idup cwd
          setCwd child (some cwd)
      | some _ => pure ()
  | .exit p =>
    withCwd p fun cwd => do
      iput cwd
      setCwd p none
  | .chdir p path => withCwd p fun cwd => sysChdir p cwd path
  | .openFile p path omode fdFree =>
    withCwd p fun cwd => sysOpen cwd path omode fdFree
  | .mkdir p path => withCwd p fun cwd => sysMkdir cwd path
  | .mknod p path major minor =>
    withCwd p fun cwd => sysMknod cwd path major minor
  | .link p old new => withCwd p fun cwd => sysLink cwd old new
  | .unlink p path => withCwd p fun cwd => sysUnlink cwd path
  | .read f n typed => do
      let _ ← fileread typed f n
      pure ()
  | .write f src => do
      let _ ← filewrite f src
      pure ()
  | .dup f => filedup f
  | .close f => fileclose f

end Xv6.Fs
