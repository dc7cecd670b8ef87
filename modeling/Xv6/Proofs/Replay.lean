/-
Purpose: Closed runs of the kernel: setupkvm with its mapping of the kernel in
  closed form, the calls that use it, and a small machine to start from.
-/
import Xv6.Kernel.Boot
import Xv6.Proofs.Kvm

namespace Xv6

open PanicM

variable (img : Image)

/-!
`setupkvm` maps some twelve thousand pages one by one.  With enough free pages
its result is known, so a run can be evaluated with that result in its place.
-/

/-- `setupkvm` with the kernel mapping in closed form. -/
def setupkvmQuick : KM (Option Nat) := fun s =>
  match s.freelist with
  | [] => setupkvm img s
  | d :: rest =>
    if 12 ≤ rest.length then
      .ok (some d, s.building img d (rest.take 12) (rest.drop 12) 0x100000)
    else setupkvm img s

theorem setupkvm_eq_quick : setupkvm img = setupkvmQuick img := by
  funext s
  unfold setupkvmQuick
  split
  · rfl
  · rename_i d rest list
    split
    · rename_i enough
      have done : wp (setupkvm img) (fun r after => r = some d ∧
            after = s.building img d (rest.take 12) (rest.drop 12) 0x100000)
          (fun _ => False) s := by
        refine wp_setupkvm ?_ ?_ ?_
        · intro empty
          rw [list] at empty
          cases empty
        · intro d' tables v list' few
          rw [list] at list'
          cases list'
          omega
        · intro d' tables rest' list' count
          rw [list] at list'
          obtain ⟨rfl, rfl⟩ := List.cons.inj list'
          rw [← count, List.take_left, List.drop_left]
          exact ⟨rfl, rfl⟩
      obtain ⟨r, after, ran, rfl, rfl⟩ := wp_returns done
      exact ran
    · rfl

/-- `copyuvm` over `setupkvmQuick`. -/
def copyuvmQuick (cur : Slot) (src sz : Nat) : KM (Option Nat) := do
  match ← setupkvmQuick img with
  | none => pure none
  | some d => do
      if ← copyLoop src d 0 (pagesTo 0 sz) then
        pure (some d)
      else do
        freevm img cur d
        pure none

theorem copyuvm_eq_quick : copyuvm img = copyuvmQuick img := by
  funext cur src sz
  unfold copyuvmQuick
  rw [← setupkvm_eq_quick]
  rfl

/-- `forkCopy` over `copyuvmQuick`. -/
def forkCopyQuick (cur np : Slot) : KM Bool := do
  let s ← get
  let p := s.proc cur
  match ← copyuvmQuick img cur p.pgdir p.sz with
  | none => do
      updProc np fun q => { q with pgdir := 0 }
      forkUndo img np
      pure false
  | some d => do
      updProc np fun q => { q with pgdir := d }
      if ← copyshm p.pgdir p.shm d then
        pure true
      else do
        forkUndo img np
        pure false

theorem forkCopy_eq_quick : forkCopy img = forkCopyQuick img := by
  funext cur np
  unfold forkCopyQuick
  rw [← copyuvm_eq_quick]
  rfl

/-- `userinit` over `setupkvmQuick`. -/
def userinitQuick (initcode : List UInt8) : KM Unit := do
  match ← allocproc with
  | none => throw .trap
  | some i => do
      modify fun s => { s with initproc := i }
      match ← setupkvmQuick img with
      | none => throw .userinit
      | some d => do
          updProc i fun p => { p with pgdir := d }
          inituvm d initcode
          updProc i fun p =>
            { p with sz := PGSIZE, tf := { eax := 0, eip := 0, esp := PGSIZE } }
          publish i
          addRef d

theorem userinit_eq_quick : userinit img = userinitQuick img := by
  funext initcode
  unfold userinitQuick
  rw [← setupkvm_eq_quick]
  rfl

/-! ## A small machine -/

/-- A kernel of one data page. -/
def smallImage : Image where
  data := 0x101000
  kend := 0x102000
  data_aligned := by decide
  text_lt_data := by decide
  data_lt_kend := by decide
  kend_le := by decide

/-- A machine that boots with eighty free pages. -/
def smallBoot : Kernel where
  freelist := (List.range 80).map fun k => 0x200000 + k * PGSIZE
  freecount := 80
  mem := fun _ => 0
  dirs := fun _ => PgDir.empty
  proc := fun _ => Proc.zero
  nextpid := 1
  initproc := 0
  refs := fun _ => { addr := 0, count := 0 }
  shmTab := fun _ => { count := 0, numPages := 0, physAddr := fun _ => 0 }

theorem smallBoot_boots : smallBoot.Boots smallImage where
  proc := fun _ => rfl
  nextpid := rfl
  refs := fun _ => rfl
  shm := fun _ => ⟨rfl, rfl⟩
  distinct := by decide
  pages := by decide

/-- The small machine when `userinit` returns. -/
def smallStart : Kernel :=
  match userinitQuick smallImage [] smallBoot with
  | .ok (_, s) => s
  | .error _ => smallBoot

theorem smallStart_userinit : userinit smallImage [] smallBoot = .ok ((), smallStart) := by
  rw [userinit_eq_quick]
  have returns : (match userinitQuick smallImage [] smallBoot with
      | .ok _ => true
      | .error _ => false) = true := by decide +kernel
  unfold smallStart
  cases ran : userinitQuick smallImage [] smallBoot with
  | ok result => rfl
  | error reason =>
    rw [ran] at returns
    cases returns

end Xv6
