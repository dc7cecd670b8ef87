/-
Purpose: The kernel's process, page-directory, shared-memory and free-page
  state, as explicit data, and the monad of kernel code over it.
-/
import Xv6.Param
import Xv6.Lib.Bytes
import Xv6.Lib.PanicM
import Xv6.Lib.RefTable

namespace Xv6

/-!
The state follows `struct proc`, `pgdir_table`, `shm_tab`, `kmem` and the page
directories.  A page directory together with its page tables is one value,
kept under the address of its directory page: `pde` gives the page-table page
of each directory entry and `pte` the entry word of each virtual page.  Byte
stores to data pages go to `mem`; they never reach the kernel's own tables.

Open files, the current directory, the debugging name and the scheduler's
accounting are not part of this state: none of the functions modelled over it
decides anything by them.
-/

/-- Addresses fixed by the linker: `data` is the first page of the kernel's
data section and `end` the first byte after the kernel. -/
structure Image where
  data : Nat
  kend : Nat
  data_aligned : data % PGSIZE = 0
  text_lt_data : 0x100000 < data
  data_lt_kend : data < kend
  kend_le : kend ≤ PHYSTOP

/-- Every way in which the modelled code stops the kernel. -/
inductive Panic where
  | kfree
  | remap
  | userinit
  | inituvm
  | switchuvm
  | loaduvmAlign
  | loaduvmExist
  | freevm
  | copyuvmExist
  | copyuvmPresent
  | copyshmExist
  | copyshmPresent
  | initExiting
  | pgdirRef
  | trap
deriving Repr, DecidableEq

/-- A page directory with its page tables. -/
structure PgDir where
  pde : Nat → Option Nat
  pte : Nat → Nat

/-- A zeroed directory page. -/
def PgDir.empty : PgDir := { pde := fun _ => none, pte := fun _ => 0 }

inductive ProcState where
  | unused
  | embryo
  | sleeping
  | runnable
  | running
  | zombie
deriving Repr, DecidableEq, Inhabited

/-- The saved user registers that the modelled code reads or writes. -/
structure Trapframe where
  eax : Nat
  eip : Nat
  esp : Nat
deriving Repr, DecidableEq, Inhabited

/-- A slot of the process table. -/
abbrev Slot := Fin NPROC

/-- A shared-memory key. -/
abbrev Key := Fin MAX_SHM_KEY

structure Proc where
  sz : Nat
  pgdir : Nat
  kstack : Nat
  state : ProcState
  pid : Nat
  parent : Option Slot
  tf : Trapframe
  chan : Option Slot
  killed : Bool
  shm : Nat
  shmKeyMask : Nat
  shmVa : Key → Nat
  ustack : Nat

/-- An entry of `shm_tab`. -/
structure SharedMem where
  count : Int
  numPages : Nat
  physAddr : Nat → Nat

structure Kernel where
  freelist : List Nat
  freecount : Int
  mem : Bytes.Store
  dirs : Nat → PgDir
  proc : Slot → Proc
  /-- A C `int`; its overflow is left out. -/
  nextpid : Nat
  initproc : Slot
  refs : RefTable.Table Nat NPROC
  shmTab : Key → SharedMem

/-- Kernel code. -/
abbrev KM := PanicM Kernel Panic

namespace Kernel

/-- Replace the proc in one slot. -/
def setProc (s : Kernel) (i : Slot) (p : Proc) : Kernel :=
  { s with proc := Function.update s.proc i p }

/-- Replace one page directory. -/
def setDir (s : Kernel) (d : Nat) (dir : PgDir) : Kernel :=
  { s with dirs := Function.update s.dirs d dir }

/-- Replace one entry of `shm_tab`. -/
def setShm (s : Kernel) (k : Key) (entry : SharedMem) : Kernel :=
  { s with shmTab := Function.update s.shmTab k entry }

end Kernel

end Xv6
