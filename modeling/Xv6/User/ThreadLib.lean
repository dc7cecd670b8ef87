/-
Purpose: thread_create and thread_join of ulib.c over clone and join, as one
  thread calls them: who owns the stack blocks.
-/
import Xv6.Kernel.Proc
import Xv6.Lib.Run

namespace Xv6

open Function

/-!
The state is that of one calling thread: its memory, the blocks of 8192 bytes
that `malloc` gave it and `free` has not taken back, and the process table as
far as `clone` and `join` by this thread look at it.  `malloc` may give any
block that meets its contract.  The other threads run and exit; what they store
outside their own stacks is left out.  A caller that is killed while it joins
does not return to the library, so `killed` is left out too.
-/

/-- Bytes that `thread_create` asks for. -/
abbrev STACKBLOCK : Nat := 8192

/-- `(ptr + page_size) & ~0xFFF`. -/
def stackOf (ptr : Nat) : Nat := u32 (ptr + PGSIZE) / PGSIZE * PGSIZE

/-- Address of `((uint*)stack)[-1]`. -/
def wordBelow (stack : Nat) : Nat := u32 (stack + 2 ^ 32 - 4)

/-- A block as `malloc` may return it. -/
structure BlockOk (ptr : Nat) : Prop where
  aligned : ptr % 8 = 0
  positive : 0 < ptr
  fits : ptr + STACKBLOCK ≤ USERTOP

/-- What a call of `clone` meets: the size of the caller's memory, whether the
caller's stack frame lies below it, whether there is a page for the kernel
stack, and whether `copyout` can store the two words. -/
structure CloneEnv where
  sz : Nat
  framed : Bool
  page : Bool
  copied : Bool

/-- `argptr` accepts the address of a word. -/
def CloneEnv.Points (env : CloneEnv) (addr : Nat) : Prop :=
  u32 addr < env.sz ∧ u32 (addr + 4) ≤ env.sz

instance (env : CloneEnv) (addr : Nat) : Decidable (env.Points addr) :=
  inferInstanceAs (Decidable (_ ∧ _))

/-- A slot of the process table, seen by the caller: unused, a process that is
none of its threads, or one of its threads. -/
inductive ThreadSlot where
  | unused
  | other
  | kid (pid : Nat) (zombie : Bool)
deriving DecidableEq

/-- `made` and `frees` are read by no code: the threads created and not yet
joined with the block `malloc` returned for each, and the arguments of the
calls of `free`, latest first. -/
structure ThreadLib where
  memory : Bytes.Store
  blocks : List Nat
  slot : Slot → ThreadSlot
  ustack : Slot → Nat
  nextpid : Nat
  made : List (Nat × Nat)
  frees : List Nat

namespace ThreadLib

/-- The contract of `malloc` for a block of 8192 bytes. -/
structure Mallocs (s : ThreadLib) (ptr : Nat) : Prop extends BlockOk ptr where
  apart : ∀ other ∈ s.blocks, ptr + STACKBLOCK ≤ other ∨ other + STACKBLOCK ≤ ptr

instance (s : ThreadLib) (ptr : Nat) : Decidable (s.Mallocs ptr) :=
  decidable_of_iff (ptr % 8 = 0 ∧ 0 < ptr ∧ ptr + STACKBLOCK ≤ USERTOP ∧ ∀ other ∈ s.blocks,
      ptr + STACKBLOCK ≤ other ∨ other + STACKBLOCK ≤ ptr)
    ⟨fun ⟨a, b, c, d⟩ => ⟨⟨a, b, c⟩, d⟩, fun ⟨⟨a, b, c⟩, d⟩ => ⟨a, b, c, d⟩⟩

/-- The slot `allocproc` takes. -/
def unusedSlot (s : ThreadLib) : Option Slot :=
  (List.finRange NPROC).find? fun i => s.slot i == .unused

/-- `clone`.  The thread is runnable before `copyout` is tried. -/
def clone (s : ThreadLib) (arg stack : Nat) (env : CloneEnv) : Int × ThreadLib :=
  match s.unusedSlot with
  | none => (-1, s)
  | some i =>
    if env.page then
      let s' := { s with
        slot := update s.slot i (.kid s.nextpid false)
        nextpid := s.nextpid + 1 }
      if env.copied then
        (s.nextpid,
          { s' with
            memory := Bytes.put s.memory (threadSp stack) (threadWords arg)
            ustack := update s.ustack i stack })
      else
        (-1, s')
    else
      (-1, { s with nextpid := s.nextpid + 1 })

/-- `sys_clone`: all three arguments pass `argptr`. -/
def sysClone (s : ThreadLib) (fcn arg stack : Nat) (env : CloneEnv) : Int × ThreadLib :=
  if env.framed = true ∧ env.Points fcn ∧ env.Points arg ∧ env.Points stack then
    s.clone arg stack env
  else
    (-1, s)

/-- `thread_create`; `ptr` is the result of `malloc`. -/
def threadCreate (s : ThreadLib) (ptr : Option Nat) (fcn arg : Nat)
    (env : CloneEnv) : Int × ThreadLib :=
  match ptr with
  | none => (-1, s)
  | some ptr =>
    let s' := { s with
      blocks := ptr :: s.blocks
      memory := Bytes.put s.memory (wordBelow (stackOf ptr)) (Bytes.le32 ptr) }
    let result := s'.sysClone fcn arg (stackOf ptr) env
    if result.1 < 0 then
      result
    else
      (result.1,
        { result.2 with made := (result.1.toNat, ptr) :: result.2.made })

/-- The slot is one of the caller's threads. -/
def isKid (s : ThreadLib) (i : Slot) : Bool :=
  match s.slot i with
  | .kid _ _ => true
  | _ => false

/-- The first thread of the caller that has exited, with its pid. -/
def zombieKid (s : ThreadLib) : Option (Slot × Nat) :=
  (List.finRange NPROC).findSome? fun i =>
    match s.slot i with
    | .kid pid true => some (i, pid)
    | _ => none

/-- `sys_join`: the result and what the caller's variable `stack` holds then;
`none` while it sleeps.  `garbage` is what the variable held before, and
`framed` says whether it passes `argptr`. -/
def sysJoin (s : ThreadLib) (garbage : Nat) (framed : Bool) : Option (Int × Nat × ThreadLib) :=
  if framed = false then
    some (-1, garbage, s)
  else match s.zombieKid with
  | some (i, pid) =>
    some (pid, s.ustack i,
      { s with slot := update s.slot i .unused })
  | none =>
    if (List.finRange NPROC).any s.isKid then
      none
    else
      some (-1, garbage, s)

/-- `free`. -/
def free (s : ThreadLib) (ptr : Nat) : ThreadLib :=
  { s with blocks := s.blocks.erase ptr, frees := ptr :: s.frees }

/-- `thread_join`. -/
def threadJoin (s : ThreadLib) (garbage : Nat) (framed : Bool) : Option (Int × ThreadLib) :=
  match s.sysJoin garbage framed with
  | none => none
  | some (pid, stack, s') =>
    let ptr := Bytes.word32 s'.memory (wordBelow stack)
    some (pid,
      { s'.free ptr with
        made := s'.made.filter fun entry => (entry.1 : Int) != pid })

/-- What may happen.  `exec` is an `exec` by one of the threads, which makes it
a process of its own; `occupy` and `vacate` are about slots of others. -/
inductive Move where
  | create (ptr : Option Nat) (fcn arg : Nat) (env : CloneEnv)
  | join (garbage : Nat) (framed : Bool)
  | exit (i : Slot)
  | exec (i : Slot)
  | occupy (i : Slot) (ustack : Nat)
  | vacate (i : Slot)

/-- One move, if it is possible. -/
def step (s : ThreadLib) : Move → Option ThreadLib
  | .create ptr fcn arg env =>
    if ∀ p ∈ ptr, s.Mallocs p then
      some (s.threadCreate ptr fcn arg env).2
    else
      none
  | .join garbage framed => (s.threadJoin garbage framed).map Prod.snd
  | .exit i =>
    match s.slot i with
    | .kid pid false =>
      some { s with slot := update s.slot i (.kid pid true) }
    | _ => none
  | .exec i =>
    match s.slot i with
    | .kid _ false =>
      some { s with slot := update s.slot i .other }
    | _ => none
  | .occupy i ustack =>
    if s.slot i = .unused then
      some { s with
        slot := update s.slot i .other
        ustack := update s.ustack i ustack
        nextpid := s.nextpid + 1 }
    else
      none
  | .vacate i =>
    if s.slot i = .other then
      some { s with slot := update s.slot i .unused }
    else
      none

/-- A program that has created no thread. -/
structure Starts (s : ThreadLib) : Prop where
  blocks : s.blocks = []
  made : s.made = []
  slots : ∀ i, s.isKid i = false

/-- States reached by moves that meet `allowed`. -/
abbrev Reaches (allowed : ThreadLib → Move → Prop) : ThreadLib → Prop :=
  Reach Starts (fun s move t => s.step move = some t) allowed

end ThreadLib

end Xv6
