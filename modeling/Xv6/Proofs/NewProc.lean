/-
Purpose: The three outcomes of `allocproc`: there is no slot, there is no page
  for a kernel stack, or the slot is an embryo.
-/
import Xv6.Proofs.Kvm
import Xv6.Kernel.Proc

namespace Xv6

open Function PanicM

namespace Kernel

variable (s : Kernel) (np : Slot)

/-- The slot that `allocproc` takes. -/
def unusedSlot : Option Slot :=
  (List.finRange NPROC).find? fun i => (s.proc i).state == .unused

/-- The record of a slot that `allocproc` has taken. -/
def claimed (state : ProcState) (kstack : Nat) : Proc :=
  { s.proc np with
    state := state
    pid := s.nextpid
    shm := USERTOP
    shmKeyMask := 0
    kstack := kstack }

/-- The slot was taken and, since no page was free, given back. -/
def unclaimed : Kernel :=
  { s with
    proc := update s.proc np (s.claimed np .unused 0)
    nextpid := s.nextpid + 1 }

/-- The slot is taken and `page` is its kernel stack. -/
def embryo (page : Nat) (rest : List Nat) : Kernel :=
  { s with
    freelist := rest
    freecount := s.freecount - 1
    proc := update s.proc np (s.claimed np .embryo page)
    nextpid := s.nextpid + 1 }

end Kernel

variable {s : Kernel} {np : Slot} {E : Panic → Prop}

theorem Kernel.unusedSlot_unused (found : s.unusedSlot = some np) :
    (s.proc np).state = .unused := by
  have holds := List.find?_some found
  simpa using holds

theorem wp_allocproc_cases {Q : Option Slot → Kernel → Prop} (full : s.unusedSlot = none → Q none s)
    (short : ∀ np, s.unusedSlot = some np → s.freelist = [] → Q none (s.unclaimed np))
    (taken : ∀ np page rest, s.unusedSlot = some np →
      s.freelist = page :: rest → Q (some np) (s.embryo np page rest)) : wp allocproc Q E s := by
  unfold allocproc
  rw [wp_bind, wp_get]
  cases found : s.unusedSlot with
  | none =>
    unfold Kernel.unusedSlot at found
    rw [found]
    exact full found
  | some np =>
    have search := found
    unfold Kernel.unusedSlot at search
    rw [search]
    dsimp only
    rw [wp_bind, wp_modify, wp_bind]
    apply wp_kalloc
    · intro empty
      rw [wp_bind, updProc, wp_modify, wp_pure]
      simp only [Kernel.setProc, update_self, update_idem]
      exact short np found empty
    · intro page rest list
      rw [wp_bind, updProc, wp_modify, wp_pure]
      simp only [Kernel.setProc, update_self, update_idem]
      exact taken np page rest found list

end Xv6
