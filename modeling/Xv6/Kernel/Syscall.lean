/-
Purpose: The argument checks of syscall.c and the path of `read` and `write`
  through sysfile.c, file.c, pipe.c, console.c and fs.c, as far as it decides
  which user addresses the kernel touches.
-/
import Xv6.Param
import Xv6.Lib.Bytes

namespace Xv6

/-! ## Open files -/

/-- `ip->type`, with the major number of a device. -/
inductive FileType where
  | dir
  | file
  | checked
  | dev (major : Int)
deriving Repr, DecidableEq

/-- An inode as `readi` and `writei` see it: which blocks verify against their
checksum, and for which blocks `bmap` has or finds a disk block. -/
structure FileInode where
  type : FileType
  size : Nat
  sizeLe : size ≤ MAXFILE * BSIZE
  intact : Nat → Bool
  room : Nat → Bool

inductive FileKind where
  | pipe
  | inode (ip : FileInode)

/-- `struct file`. -/
structure OpenFile where
  readable : Bool
  writable : Bool
  kind : FileKind
  off : Nat
  offLt : off < 2 ^ 32

/-- What the rest of the machine does during the call. -/
structure Env where
  /-- The caller is killed while it waits for the pipe to fill. -/
  pipeKilled : Bool
  /-- Bytes in the pipe when `piperead` starts to copy. -/
  pipeBytes : Nat
  /-- Bytes `pipewrite` stores before it finds the pipe full and its reader
  gone or the caller killed. -/
  pipeRoom : Nat
  /-- Characters `consoleread` gets before the caller is killed. -/
  keys : List UInt8

/-- The return value of a call, `none` after a panic, and the user addresses
the kernel read or wrote for it. -/
structure Outcome where
  result : Option Int
  touched : List Nat
deriving Repr, DecidableEq

/-- The call returned -1 without touching user memory. -/
def Outcome.refused : Outcome := { result := some (-1), touched := [] }

/-- The `k` addresses from `addr` on. -/
def span (addr k : Nat) : List Nat :=
  (List.range k).map fun i => u32 (addr + i)

/-! ## Arguments -/

/-- What the argument checks read of the current process. -/
structure UserProc where
  sz : Nat
  szLe : sz ≤ USERTOP
  esp : Nat
  mem : Bytes.Store
  ofile : Nat → Option OpenFile

namespace UserProc

variable (u : UserProc)

/-- `fetchint`; `none` is -1. -/
def fetchint (addr : Nat) : Option Int :=
  if u.sz ≤ addr ∨ u.sz < u32 (addr + 4) then
    none
  else
    some (toInt32 (Bytes.word32 u.mem addr))

/-- `argint`. -/
def argint (n : Nat) : Option Int := u.fetchint (u32 (u.esp + 4 + 4 * n))

/-- `argptr`: a pointer to `size` bytes. -/
def argptr (n : Nat) (size : Int) : Option Nat :=
  match u.argint n with
  | none => none
  | some i =>
    if u.sz ≤ toU32 i ∨ u.sz < u32 (toU32 i + toU32 size) then
      none
    else
      some (toU32 i)

/-- `argfd`. -/
def argfd (n : Nat) : Option OpenFile :=
  match u.argint n with
  | none => none
  | some fd => if fd < 0 ∨ NOFILE ≤ fd then none else u.ofile fd.toNat

end UserProc

/-! ## Pipes and the console -/

/-- `piperead`. -/
def piperead (env : Env) (addr : Nat) (n : Int) : Outcome :=
  if env.pipeKilled then
    .refused
  else
    let k := min n.toNat env.pipeBytes
    { result := some k, touched := span addr k }

/-- `pipewrite`. -/
def pipewrite (env : Env) (addr : Nat) (n : Int) : Outcome :=
  if n.toNat ≤ env.pipeRoom then
    { result := some n, touched := span addr n.toNat }
  else
    { result := some (-1), touched := span addr env.pipeRoom }

/-- The loop of `consoleread` with room for `left` characters: how many it
stores, and whether the caller was killed.  Control-D ends the input, and a
line ends after its newline. -/
def consoleLoop : Nat → List UInt8 → Nat × Bool
  | 0, _ => (0, false)
  | _ + 1, [] => (0, true)
  | left + 1, c :: rest =>
    if c = 4 then
      (0, false)
    else if c = 10 then
      (1, false)
    else
      ((consoleLoop left rest).1 + 1, (consoleLoop left rest).2)

/-- `consoleread`. -/
def consoleread (env : Env) (addr : Nat) (n : Int) : Outcome :=
  let line := consoleLoop n.toNat env.keys
  { result := some (if line.2 then -1 else line.1)
    touched := span addr line.1 }

/-- `consolewrite`. -/
def consolewrite (addr : Nat) (n : Int) : Outcome :=
  { result := some n, touched := span addr n.toNat }

/-! ## Inodes -/

/-- The copy loop of `readi` and `writei`, block by block, for the `left`
bytes that remain; it ends early at a block that is not `ok`.  Every round
copies at least one byte. -/
def transfer (ok : Nat → Bool) (addr off left : Nat) : Nat → List Nat
  | 0 => []
  | fuel + 1 =>
    if left = 0 then
      []
    else if ok (off / BSIZE) then
      let m := min left (BSIZE - off % BSIZE)
      span addr m ++ transfer ok (addr + m) (off + m) (left - m) fuel
    else
      []

/-- The blocks `readi` hands out: those of a checksummed file have to
verify. -/
def FileInode.readOk (ip : FileInode) (block : Nat) : Bool :=
  ip.room block && match ip.type with
    | .checked => ip.intact block
    | _ => true

/-- The copy of `n` bytes, with the result that `stopped` gives for the block
where it ends early. -/
def copyBytes (ok : Nat → Bool) (addr off n : Nat) (stopped : Nat → Option Int) : Outcome :=
  let touched := transfer ok addr off n n
  { result := if touched.length = n then some n else stopped ((off + touched.length) / BSIZE)
    touched := touched }

/-- The part of `readi` and `writei` for everything but devices: the checks on
the offset, the count clipped to `limit`, and the copy. -/
def inodeCopy (ok : Nat → Bool) (size limit : Nat) (stopped : Nat → Option Int)
    (addr off n : Nat) : Outcome :=
  if size < off ∨ u32 (off + n) < off then
    .refused
  else
    copyBytes ok addr off (if limit < u32 (off + n) then limit - off else n) stopped

/-- `readi`, for a `uint` count.  A hole gets a disk block when it is read;
when none is left, `balloc` panics. -/
def readi (env : Env) (ip : FileInode) (dst off n : Nat) : Outcome :=
  match ip.type with
  | .dev major =>
    if major = CONSOLE then consoleread env dst (toInt32 n) else .refused
  | _ =>
    inodeCopy ip.readOk ip.size ip.size (fun block => if ip.room block then some (-1) else none)
      dst off n

/-- `writei`, for a `uint` count. -/
def writei (ip : FileInode) (src off n : Nat) : Outcome :=
  match ip.type with
  | .dev major =>
    if major = CONSOLE then consolewrite src (toInt32 n) else .refused
  | _ => inodeCopy ip.room ip.size (MAXFILE * BSIZE) (fun _ => none) src off n

/-! ## The system calls -/

/-- `fileread`.  The update of `f->off` after the copy is left out here and in
`filewrite`: no address of the call depends on it. -/
def fileread (env : Env) (f : OpenFile) (addr : Nat) (n : Int) : Outcome :=
  if f.readable then
    match f.kind with
    | .pipe => piperead env addr n
    | .inode ip => readi env ip addr f.off (toU32 n)
  else
    .refused

/-- `filewrite`. -/
def filewrite (env : Env) (f : OpenFile) (addr : Nat) (n : Int) : Outcome :=
  if f.writable then
    match f.kind with
    | .pipe => pipewrite env addr n
    | .inode ip => writei ip addr f.off (toU32 n)
  else
    .refused

/-- The argument checks that `sys_read` and `sys_write` share. -/
def UserProc.bufferArgs (u : UserProc) : Option (OpenFile × Int × Nat) := do
  let f ← u.argfd 0
  let n ← u.argint 2
  let p ← u.argptr 1 n
  pure (f, n, p)

/-- `sys_read`. -/
def sysRead (u : UserProc) (env : Env) : Outcome :=
  match u.bufferArgs with
  | none => .refused
  | some (f, n, p) => fileread env f p n

/-- `sys_write`. -/
def sysWrite (u : UserProc) (env : Env) : Outcome :=
  match u.bufferArgs with
  | none => .refused
  | some (f, n, p) => filewrite env f p n

/-- Every user address of the list lies below the size of the process. -/
def Confined (u : UserProc) (touched : List Nat) : Prop :=
  ∀ a ∈ touched, a < u.sz

end Xv6
