/-
Purpose: The kernel when main.c calls userinit: empty tables and a list of
  free pages.
-/
import Xv6.Kernel.Exec

namespace Xv6

/-- A slot of the process table before its first use. -/
def Proc.zero : Proc where
  sz := 0
  pgdir := 0
  kstack := 0
  state := .unused
  pid := 0
  parent := none
  tf := { eax := 0, eip := 0, esp := 0 }
  chan := none
  killed := false
  shm := 0
  shmKeyMask := 0
  shmVa := fun _ => 0
  ustack := 0

/-- The kernel before `userinit`: `init_ref` has emptied `pgdir_table`,
`shm_tab` is zero, as `shm_init` leaves it too, and some of the pages after the
kernel are free. -/
structure Kernel.Boots (img : Image) (s : Kernel) : Prop where
  proc : ∀ i, s.proc i = Proc.zero
  nextpid : s.nextpid = 1
  refs : ∀ i, (s.refs i).count = 0
  shm : ∀ key, (s.shmTab key).count = 0 ∧ (s.shmTab key).numPages = 0
  distinct : s.freelist.Nodup
  pages : ∀ page ∈ s.freelist, page % PGSIZE = 0 ∧ img.kend ≤ page ∧ page < PHYSTOP

end Xv6
