/-
Purpose: The file table of file.c with inodes and pipes behind it, the
  descriptor tables of the processes, and the calls that move references
  between them: open, dup, pipe, close, fork, clone and exit.
-/
import Xv6.Fs.Calls
import Xv6.Lib.Run

namespace Xv6

open Fs (FileSys InodePtr FM FsPanic NFILE hasFlag O_WRONLY O_RDWR)

/-!
System calls run one at a time.  What is behind a file is either an inode of
the file system or a pipe.  The file table is the one of this module; the
table inside `fs`, which knows no pipes, stays as it is.  Where memory is
allocated, the outcome of `kalloc` is an argument of the call.
-/

/-- `f->type`. -/
inductive FdKind where
  | none
  | pipe
  | inode
deriving Repr, DecidableEq

/-- `struct file`.  A pipe is named by the address of its page. -/
structure FileEntry where
  type : FdKind
  ref : Int
  readable : Bool
  writable : Bool
  pipe : Nat
  ip : InodePtr
  off : Nat

/-- The end of a pipe that `pipealloc` puts into a file. -/
def FileEntry.pipeEnd (file : FileEntry) (page : Nat) (writable : Bool) : FileEntry :=
  { file with
    type := .pipe
    readable := !writable
    writable := writable
    pipe := page }

/-- The ends of a `struct pipe`. -/
structure PipeEnds where
  readopen : Bool
  writeopen : Bool
deriving Repr, DecidableEq

/-- One end of a pipe is closed; `none` is a pipe given to `kfree`. -/
def PipeEnds.close (ends : PipeEnds) (writable : Bool) : Option PipeEnds :=
  let ends := if writable then { ends with writeopen := false }
    else { ends with readopen := false }
  if ends.readopen = false ∧ ends.writeopen = false then none else some ends

/-- The file system, the file table, the pipes that exist, and of each process
its state and its descriptors. -/
structure Files where
  fs : FileSys
  ftable : Fin NFILE → FileEntry
  pipes : Nat → Option PipeEnds
  state : Slot → ProcState
  ofile : Slot → Fin NOFILE → Option (Fin NFILE)
  initproc : Slot

/-- The process can make calls. -/
def ProcState.live : ProcState → Bool
  | .sleeping | .runnable | .running => true
  | _ => false

namespace Files

/-- Why the system stops. -/
inductive Stop where
  | filedup
  | fileclose
  | initExiting
  | inode (reason : FsPanic)
deriving DecidableEq

/-- Code that uses files. -/
abbrev M := PanicM Files Stop

/-- Code of the file system in a larger state. -/
def onFs {α : Type} (program : FM α) : M α := fun s =>
  match program s.fs with
  | .ok (value, fs) => .ok (value, { s with fs := fs })
  | .error reason => .error (.inode reason)

/-- Replace one entry of the file table. -/
def setFile (s : Files) (f : Fin NFILE) (file : FileEntry) : Files :=
  { s with ftable := Function.update s.ftable f file }

/-- Replace one descriptor. -/
def setFd (s : Files) (p : Slot) (fd : Fin NOFILE) (file : Option (Fin NFILE)) : Files :=
  { s with
    ofile := Function.update s.ofile p (Function.update (s.ofile p) fd file) }

/-- Replace one pipe. -/
def setPipe (s : Files) (page : Nat) (ends : Option PipeEnds) : Files :=
  { s with pipes := Function.update s.pipes page ends }

/-- Change the state of a process. -/
def setState (s : Files) (p : Slot) (state : ProcState) : Files :=
  { s with state := Function.update s.state p state }

/-! ## Files -/

/-- Change fields of an entry of the file table. -/
def updFile (f : Fin NFILE) (update : FileEntry → FileEntry) : M Unit :=
  modify fun s => s.setFile f (update (s.ftable f))

/-- `filealloc`.  Only the count is set. -/
def filealloc : M (Option (Fin NFILE)) := do
  let s ← get
  match (List.finRange NFILE).find? fun f => (s.ftable f).ref == 0 with
  | none => pure none
  | some f => do
      updFile f fun file => { file with ref := 1 }
      pure (some f)

/-- `filedup`. -/
def filedup (f : Fin NFILE) : M Unit := do
  let s ← get
  if (s.ftable f).ref < 1 then
    throw .filedup
  else
    updFile f fun file => { file with ref := file.ref + 1 }

/-- `pipeclose`. -/
def pipeclose (page : Nat) (writable : Bool) : M Unit :=
  modify fun s =>
    s.setPipe page ((s.pipes page).bind fun ends => ends.close writable)

/-- `fileclose`. -/
def fileclose (f : Fin NFILE) : M Unit := do
  let s ← get
  let file := s.ftable f
  if file.ref < 1 then
    throw .fileclose
  else if 1 < file.ref then
    updFile f fun file => { file with ref := file.ref - 1 }
  else do
    updFile f fun file =>
      { file with
        ref := 0
        type := .none }
    match file.type with
    | .none => pure ()
    | .pipe => pipeclose file.pipe file.writable
    | .inode => onFs (Fs.iput file.ip)

/-! ## Descriptors -/

/-- `argfd`: the file of a descriptor. -/
def argfd (p : Slot) (fd : Int) : M (Option (Fin NOFILE × Fin NFILE)) := do
  let s ← get
  if small : 0 ≤ fd ∧ fd < NOFILE then
    let slot : Fin NOFILE := ⟨fd.toNat, by omega⟩
    pure ((s.ofile p slot).map fun f => (slot, f))
  else
    pure none

/-- `fdalloc`. -/
def fdalloc (p : Slot) (f : Fin NFILE) : M (Option (Fin NOFILE)) := do
  let s ← get
  match (List.finRange NOFILE).find? fun fd => (s.ofile p fd).isNone with
  | none => pure none
  | some fd => do
      modify fun s => s.setFd p fd (some f)
      pure (some fd)

/-- `sys_dup`. -/
def sysDup (p : Slot) (fd : Int) : M Int := do
  match ← argfd p fd with
  | none => pure (-1)
  | some (_, f) => do
      match ← fdalloc p f with
      | none => pure (-1)
      | some new => do
          filedup f
          pure new

/-- `sys_close`. -/
def sysClose (p : Slot) (fd : Int) : M Int := do
  match ← argfd p fd with
  | none => pure (-1)
  | some (slot, f) => do
      modify fun s => s.setFd p slot none
      fileclose f
      pure 0

/-! ## Opening -/

/-- The second half of `sys_open`, for the locked inode `ip`. -/
def openFile (p : Slot) (ip : InodePtr) (omode : Nat) : M Int := do
  match ← filealloc with
  | none => do
      onFs (Fs.iunlockput ip)
      pure (-1)
  | some f => do
      match ← fdalloc p f with
      | none => do
          fileclose f
          onFs (Fs.iunlockput ip)
          pure (-1)
      | some fd => do
          onFs (Fs.iunlock ip)
          updFile f fun file =>
            { file with
              type := .inode
              ip := ip
              off := 0
              readable := !hasFlag omode O_WRONLY
              writable := hasFlag omode O_WRONLY || hasFlag omode O_RDWR }
          pure fd

/-- `sys_open`. -/
def sysOpen (p : Slot) (cwd : InodePtr) (path : List UInt8) (omode : Nat) : M Int := do
  match ← onFs (Fs.openInode cwd path omode) with
  | none => pure (-1)
  | some ip => openFile p ip omode

/-- `pipealloc`, where `page` is what `kalloc` returns.  At `bad` the page is
never allocated. -/
def pipealloc (page : Option Nat) : M (Option (Fin NFILE × Fin NFILE)) := do
  match ← filealloc with
  | none => pure none
  | some f0 => do
      match ← filealloc with
      | none => do
          fileclose f0
          pure none
      | some f1 => do
          match page with
          | none => do
              fileclose f0
              fileclose f1
              pure none
          | some page => do
              modify fun s => s.setPipe page (some { readopen := true, writeopen := true })
              updFile f0 fun file => file.pipeEnd page false
              updFile f1 fun file => file.pipeEnd page true
              pure (some (f0, f1))

/-- `sys_pipe`. -/
def sysPipe (p : Slot) (page : Option Nat) : M Int := do
  match ← pipealloc page with
  | none => pure (-1)
  | some (rf, wf) => do
      match ← fdalloc p rf with
      | none => do
          fileclose rf
          fileclose wf
          pure (-1)
      | some fd0 => do
          match ← fdalloc p wf with
          | none => do
              modify fun s => s.setFd p fd0 none
              fileclose rf
              fileclose wf
              pure (-1)
          | some _ => pure 0

/-! ## Processes -/

/-- `allocproc`: the first unused slot, where `kstack` says whether `kalloc`
returns a page. -/
def allocproc (kstack : Bool) : M (Option Slot) := do
  let s ← get
  match (List.finRange NPROC).find? fun p => s.state p == .unused with
  | none => pure none
  | some np =>
    if kstack then do
      modify fun s => s.setState np .embryo
      pure (some np)
    else
      pure none

/-- The loop of `fork` and `clone` over the descriptors. -/
def dupFiles (p np : Slot) : List (Fin NOFILE) → M Unit
  | [] => pure ()
  | fd :: rest => do
      let s ← get
      match s.ofile p fd with
      | none => pure ()
      | some f => do
          filedup f
          modify fun s => s.setFd np fd (some f)
      dupFiles p np rest

/-- What `fork` and `clone` do once the address space is there. -/
def share (p np : Slot) (cwd : InodePtr) : M Unit := do
  dupFiles p np (List.finRange NOFILE)
  onFs (do
    Fs.idup cwd
    Fs.setCwd np (some cwd))
  modify fun s => s.setState np .runnable

/-- `fork`, where `copied` says whether `copyuvm` and `copyshm` succeed. -/
def fork (p : Slot) (cwd : InodePtr) (kstack copied : Bool) : M Int := do
  match ← allocproc kstack with
  | none => pure (-1)
  | some np =>
    if copied then do
      share p np cwd
      pure 0
    else do
      modify fun s => s.setState np .unused
      pure (-1)

/-- `clone`, where `copyout` says whether the stack can be written.  If it
cannot, the new thread runs all the same. -/
def clone (p : Slot) (cwd : InodePtr) (kstack copyout : Bool) : M Int := do
  match ← allocproc kstack with
  | none => pure (-1)
  | some np => do
      share p np cwd
      pure (if copyout then 0 else -1)

/-- The loop of `exit` over the descriptors. -/
def closeFiles (p : Slot) : List (Fin NOFILE) → M Unit
  | [] => pure ()
  | fd :: rest => do
      let s ← get
      match s.ofile p fd with
      | none => pure ()
      | some f => do
          fileclose f
          modify fun s => s.setFd p fd none
      closeFiles p rest

/-- `exit`. -/
def exit (p : Slot) (cwd : InodePtr) : M Int := do
  let s ← get
  if p = s.initproc then
    throw .initExiting
  else do
    closeFiles p (List.finRange NOFILE)
    onFs (do
      Fs.iput cwd
      Fs.setCwd p none)
    modify fun s => s.setState p .zombie
    pure 0

/-! ## The system -/

/-- A call.  `reap` is the end of `wait` or `join`, which frees the slot of a
zombie. -/
inductive Call where
  | openFile (p : Slot) (path : List UInt8) (omode : Nat)
  | dup (p : Slot) (fd : Int)
  | pipe (p : Slot) (page : Option Nat)
  | close (p : Slot) (fd : Int)
  | fork (p : Slot) (kstack copied : Bool)
  | clone (p : Slot) (kstack copyout : Bool)
  | exit (p : Slot)
  | reap (p : Slot)

/-- The call can be made: by a process that runs; `kalloc` hands out a page
that no pipe uses; and only zombies are reaped. -/
def Call.enabled (s : Files) : Call → Bool
  | .openFile p _ _ | .dup p _ | .close p _ | .fork p _ _ | .clone p _ _
  | .exit p => (s.state p).live
  | .pipe p page => (s.state p).live && page.all fun page => (s.pipes page).isNone
  | .reap p => s.state p == .zombie

/-- Code of a process with its current directory. -/
def withCwd (p : Slot) (body : InodePtr → M Int) : M Int := do
  let s ← get
  match s.fs.cwd p with
  | none => pure (-1)
  | some cwd => body cwd

/-- One call. -/
def Call.perform : Call → M Int
  | .openFile p path omode => withCwd p fun cwd => sysOpen p cwd path omode
  | .dup p fd => sysDup p fd
  | .pipe p page => sysPipe p page
  | .close p fd => sysClose p fd
  | .fork p kstack copied => withCwd p fun cwd => Files.fork p cwd kstack copied
  | .clone p kstack copyout =>
    withCwd p fun cwd => Files.clone p cwd kstack copyout
  | .exit p => withCwd p fun cwd => Files.exit p cwd
  | .reap p => do
      modify fun s => s.setState p .unused
      pure 0

/-- After `userinit`: the file system is in any state, no file is open, there
are no pipes, and one process exists. -/
structure Starts (s : Files) : Prop where
  ftable : ∀ f, (s.ftable f).ref = 0 ∧ (s.ftable f).type = .none
  pipes : ∀ page, s.pipes page = none
  ofile : ∀ p fd, s.ofile p fd = none
  state : ∀ p, p ≠ s.initproc → s.state p = .unused
  init : s.state s.initproc = .runnable

/-- One call, if it can be made and does not stop the system. -/
def step (s : Files) (call : Call) : Option Files :=
  if call.enabled s then
    match call.perform s with
    | .ok (_, t) => some t
    | .error _ => none
  else
    none

/-- The states between the calls of all runs. -/
abbrev Reaches : Files → Prop :=
  Reach Starts (fun s call t => step s call = some t) (fun _ _ => True)

end Files

end Xv6
