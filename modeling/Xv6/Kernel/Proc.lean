/-
Purpose: proc.c: the page-directory reference table, creation of processes
  and threads, exit, wait, join and kill.
-/
import Xv6.Kernel.Vm

namespace Xv6

variable (img : Image)

/-! ## Page-directory references -/

/-- `add_ref`. -/
def addRef (d : Nat) : KM Unit :=
  modify fun s => { s with refs := RefTable.retain s.refs d }

/-- `delete_ref`: the count that is left, or -1. -/
def deleteRef (d : Nat) : KM Int := do
  let s ← get
  set { s with refs := (RefTable.release s.refs d).2 }
  pure ((RefTable.release s.refs d).1.getD (-1))

/-! ## Process creation -/

/-- Assign to fields of one proc. -/
def updProc (i : Slot) (update : Proc → Proc) : KM Unit :=
  modify fun s => s.setProc i (update (s.proc i))

/-- Take an unused slot, make it an embryo and give it a kernel stack. -/
def allocproc : KM (Option Slot) := do
  let s ← get
  match (List.finRange NPROC).find? fun i => (s.proc i).state == .unused with
  | none => pure none
  | some i => do
      modify fun s =>
        { s.setProc i
            { s.proc i with
              state := .embryo
              pid := s.nextpid
              shm := USERTOP
              shmKeyMask := 0 } with
          nextpid := s.nextpid + 1 }
      match ← kalloc with
      | none => do
          updProc i fun p => { p with kstack := 0, state := .unused }
          pure none
      | some page => do
          updProc i fun p => { p with kstack := page }
          pure (some i)

/-- The slot can be scheduled from here on. -/
def publish (i : Slot) : KM Unit :=
  updProc i fun p => { p with state := .runnable }

/-- Set up the first user process. -/
def userinit (initcode : List UInt8) : KM Unit := do
  match ← allocproc with
  | none => throw .trap
  | some i => do
      modify fun s => { s with initproc := i }
      match ← setupkvm img with
      | none => throw .userinit
      | some d => do
          updProc i fun p => { p with pgdir := d }
          inituvm d initcode
          updProc i fun p =>
            { p with sz := PGSIZE, tf := { eax := 0, eip := 0, esp := PGSIZE } }
          publish i
          addRef d

/-- `growproc`: change the size of the current process by `n` bytes; returns
0 or -1. -/
def growproc (cur : Slot) (n : Int) : KM Int := do
  let s ← get
  let p := s.proc cur
  let target := toU32 (p.sz + n)
  let sz ←
    if 0 < n then
      allocuvm img cur p.pgdir p.sz target
    else if n < 0 then
      deallocuvm img p.pgdir p.sz target
    else
      pure p.sz
  if n ≠ 0 ∧ sz = 0 then
    pure (-1)
  else do
    updProc cur fun p => { p with sz := sz }
    switchuvm cur
    pure 0

/-- The shared-memory record, size, parent and registers that a new proc
copies from its creator. -/
def Proc.inherit (child parent : Proc) (cur : Slot) : Proc :=
  { child with
    shm := parent.shm
    shmKeyMask := parent.shmKeyMask
    shmVa := fun key =>
      if shmKeyUsed key parent.shmKeyMask then parent.shmVa key
      else child.shmVa key
    sz := parent.sz
    parent := some cur
    tf := { parent.tf with eax := 0 } }

/-- The failure path of `fork`. -/
def forkUndo (np : Slot) : KM Unit := do
  let s ← get
  kfree img (s.proc np).kstack
  updProc np fun p => { p with kstack := 0, state := .unused }

/-- The first part of `fork` after `allocproc`: copy the address space. -/
def forkCopy (cur np : Slot) : KM Bool := do
  let s ← get
  let p := s.proc cur
  match ← copyuvm img cur p.pgdir p.sz with
  | none => do
      updProc np fun q => { q with pgdir := 0 }
      forkUndo img np
      pure false
  | some d => do
      updProc np fun q => { q with pgdir := d }
      if ← copyshm p.pgdir p.shm d then
        pure true
      else do
        forkUndo img np
        pure false

/-- The second part of `fork`: shared-memory counts and the proc record. -/
def forkFill (cur np : Slot) : KM Unit := do
  let s ← get
  shmAddCount (s.proc cur).shmKeyMask (List.finRange MAX_SHM_KEY)
  updProc np fun q => q.inherit (s.proc cur) cur

/-- `fork`: the pid of the child, or -1. -/
def fork (cur : Slot) : KM Int := do
  match ← allocproc with
  | none => pure (-1)
  | some np => do
      if ← forkCopy img cur np then do
        forkFill cur np
        publish np
        let s ← get
        addRef (s.proc np).pgdir
        pure (s.proc np).pid
      else
        pure (-1)

/-! ## Exit and wait -/

/-- Wake up every proc that sleeps on `chan`. -/
def wakeup1 (chan : Option Slot) (s : Kernel) : Kernel :=
  { s with
    proc := fun i =>
      if (s.proc i).state = .sleeping ∧ (s.proc i).chan = chan then
        { s.proc i with state := .runnable }
      else
        s.proc i }

/-- Children of `cur` become children of init. -/
def reparent (cur : Slot) (s : Kernel) : Kernel :=
  { s with
    proc := fun i =>
      if (s.proc i).parent = some cur then
        { s.proc i with parent := some s.initproc }
      else
        s.proc i }

/-- `exit`, up to the switch to the scheduler. -/
def exit (cur : Slot) : KM Unit := do
  let s ← get
  if cur = s.initproc then
    throw .initExiting
  else do
    modify (wakeup1 (s.proc cur).parent)
    let orphanZombie := decide (∃ i, (s.proc i).parent = some cur ∧ (s.proc i).state = .zombie)
    modify (reparent cur)
    if orphanZombie then modify (wakeup1 (some s.initproc)) else pure ()
    updProc cur fun p => { p with state := .zombie }

/-- What `wait` and `join` do with the page directory of a reaped proc: drop
its reference and, after the last one, free the address space. -/
def reapDir (cur child : Slot) : KM Unit := do
  let s ← get
  let p := s.proc child
  let left ← deleteRef p.pgdir
  if left < 0 then
    throw .pgdirRef
  else if left = 0 then do
    shmRelease img p.pgdir p.shm p.shmKeyMask
    updProc child fun p => { p with shm := USERTOP, shmKeyMask := 0 }
    freevm img cur p.pgdir
  else
    pure ()

/-- Free the kernel stack of a reaped proc. -/
def reapStack (child : Slot) : KM Unit := do
  let s ← get
  kfree img (s.proc child).kstack
  updProc child fun p => { p with kstack := 0 }

/-- The slot of a reaped proc becomes unused. -/
def reapSlot (child : Slot) : KM Unit :=
  updProc child fun p =>
    { p with state := .unused, pid := 0, parent := none, killed := false }

/-- `sleep(proc, &ptable.lock)`, up to the switch to the scheduler. -/
def sleepOnSelf (cur : Slot) : KM Unit :=
  updProc cur fun p => { p with chan := some cur, state := .sleeping }

/-- A child that `wait` looks at: not a thread of the caller. -/
def waitKid (s : Kernel) (cur i : Slot) : Bool :=
  (s.proc i).parent == some cur && (s.proc i).pgdir != (s.proc cur).pgdir

/-- A child that `join` looks at: a thread of the caller. -/
def joinKid (s : Kernel) (cur i : Slot) : Bool :=
  (s.proc i).parent == some cur && (s.proc i).pgdir == (s.proc cur).pgdir

/-- The first zombie among the children a scan looks at. -/
def zombieKid (s : Kernel) (kid : Slot → Bool) : Option Slot :=
  (List.finRange NPROC).find? fun i =>
    kid i && (s.proc i).state == .zombie

/-- The end of a scan that found no zombie: give up, or sleep (`none`). -/
def noZombie (cur : Slot) (kid : Slot → Bool) : KM (Option Int) := do
  let s ← get
  if (List.finRange NPROC).all (fun i => !kid i) || (s.proc cur).killed then
    pure (some (-1))
  else do
    sleepOnSelf cur
    pure none

/-- One scan of `wait`: the pid of the reaped child, -1, or `none` when the
caller goes to sleep. -/
def wait (cur : Slot) : KM (Option Int) := do
  let s ← get
  match zombieKid s (waitKid s cur) with
  | some child => do
      reapStack img child
      reapDir img cur child
      updProc child fun p => { p with ustack := 0 }
      reapSlot child
      pure (some (s.proc child).pid)
  | none => noZombie cur (waitKid s cur)

/-- One scan of `join`; the stack of the reaped thread is stored at user
address `stack`. -/
def join (cur : Slot) (stack : Nat) : KM (Option Int) := do
  let s ← get
  match zombieKid s (joinKid s cur) with
  | some child => do
      reapStack img child
      storeUser cur stack (Bytes.le32 (s.proc child).ustack)
      reapDir img cur child
      reapSlot child
      pure (some (s.proc child).pid)
  | none => noZombie cur (joinKid s cur)

/-- `kill`: 0, or -1 when no slot has the pid.  Unused slots are not skipped,
so pid 0 matches the first slot that was reaped or never used. -/
def kill (pid : Int) : KM Int := do
  let s ← get
  match (List.finRange NPROC).find? fun i => ((s.proc i).pid : Int) == pid with
  | none => pure (-1)
  | some i => do
      updProc i fun p =>
        { p with
          killed := true
          state := if p.state = .sleeping then .runnable else p.state }
      pure 0

/-! ## Threads -/

/-- The stack pointer of a new thread. -/
def threadSp (stack : Nat) : Nat := u32 (stack + PGSIZE - 8)

/-- The two words below the top of a new thread's stack. -/
def threadWords (arg : Nat) : List UInt8 :=
  Bytes.le32 0xffffffff ++ Bytes.le32 arg

theorem threadWords_length (arg : Nat) : (threadWords arg).length = 8 := rfl

/-- `clone` up to the store that makes the thread runnable. -/
def cloneFill (cur np : Slot) : KM Unit := do
  let s ← get
  updProc np fun q =>
    { q.inherit (s.proc cur) cur with pgdir := (s.proc cur).pgdir }

/-- `clone` after the thread is counted: its stack and registers. -/
def cloneStack (cur np : Slot) (fcn arg stack : Nat) : KM Bool := do
  let s ← get
  if ← copyout cur (s.proc np).pgdir (threadSp stack) (threadWords arg) then do
    updProc np fun q =>
      { q with
        ustack := stack
        tf := { q.tf with esp := threadSp stack, eip := fcn } }
    pure true
  else
    pure false

/-- `clone`: the pid of the thread, or -1. -/
def clone (cur : Slot) (fcn arg stack : Nat) : KM Int := do
  match ← allocproc with
  | none => pure (-1)
  | some np => do
      cloneFill cur np
      publish np
      let s ← get
      addRef (s.proc np).pgdir
      if ← cloneStack cur np fcn arg stack then
        pure (s.proc np).pid
      else
        pure (-1)

end Xv6
