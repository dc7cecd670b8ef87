/-
Purpose: The scheduler of proc.c: priority levels, tick quotas, the boost of
  starving processes, and the moves of processes between their states.
-/
import Xv6.Kernel.State
import Xv6.Lib.Run

namespace Xv6

/-- Number of priority levels. -/
abbrev NPRIOR : Nat := 4

/-- Ticks after which a runnable process counts as starving. -/
abbrev TSTARV : Nat := 100

/-- Ticks that a process may use at each level. -/
def tickQuota : Nat → Nat
  | 0 => 5
  | 1 => 5
  | 2 => 10
  | _ => 20

/-- What the scheduler reads and writes of a proc.  `charged` is read by no
scheduler code: it counts the calls of `update_ticks` for this process since it
came to its level. -/
structure Task where
  state : ProcState
  priority : Nat
  ticks : Nat
  ticksUsed : Nat → Nat
  lastSched : Nat
  charged : Nat

/-- A proc before its first use. -/
def Task.zero : Task where
  state := .unused
  priority := 0
  ticks := 0
  ticksUsed := fun _ => 0
  lastSched := 0
  charged := 0

namespace Task

/-- `update_ticks`. -/
def updateTicks (p : Task) : Task :=
  let used := Function.update p.ticksUsed p.priority (u32 (p.ticksUsed p.priority + 1))
  let ticks := u32 (p.ticks + 1)
  if p.priority < NPRIOR - 1 ∧ tickQuota p.priority ≤ ticks then
    { p with
      ticksUsed := used
      priority := p.priority + 1
      ticks := 0
      charged := 0 }
  else
    { p with ticksUsed := used, ticks := ticks, charged := p.charged + 1 }

/-- The test of the scheduler's boost loop. -/
def starving (now : Nat) (p : Task) : Bool :=
  p.state == .runnable && decide (0 < p.priority) && decide (u32 (p.lastSched + TSTARV) < now)

/-- The body of the boost loop: the level changes, `ticks` does not. -/
def boosted (p : Task) : Task :=
  { p with priority := p.priority - 1, charged := 0 }

/-- `allocproc` on an unused slot. -/
def claimed (p : Task) : Task :=
  { p with
    state := .embryo
    priority := 0
    ticksUsed := fun level => if level < NPRIOR then 0 else p.ticksUsed level
    charged := 0 }

end Task

/-- The process table, as far as the scheduler is concerned. -/
structure Mlfq where
  task : Slot → Task

namespace Mlfq

/-- What may happen.  `create` says whether `kalloc` has a page for the kernel
stack; `abandon` is the failure path of `fork`; `pass` is one round of the
scheduler with the value of `ticks` it copied, which may be any.  A sleeping
process is made runnable by `wakeup` or by `kill`. -/
inductive Move where
  | create (stack : Bool)
  | abandon (i : Slot)
  | publish (i : Slot)
  | pass (now : Nat)
  | yield (i : Slot)
  | sleep (i : Slot)
  | wakeup (i : Slot)
  | exit (i : Slot)
  | reap (i : Slot)
deriving DecidableEq

/-- Replace one entry of the table. -/
def set (s : Mlfq) (i : Slot) (p : Task) : Mlfq :=
  { task := Function.update s.task i p }

/-- The slot `allocproc` takes. -/
def unusedSlot (s : Mlfq) : Option Slot :=
  (List.finRange NPROC).find? fun i => (s.task i).state == .unused

/-- The boost loop of the scheduler. -/
def boost (s : Mlfq) (now : Nat) : Mlfq :=
  { task := fun i =>
      if (s.task i).starving now then (s.task i).boosted else s.task i }

/-- The process the scheduler chooses: the first runnable one of the first
level that has any. -/
def chosen (s : Mlfq) : Option Slot :=
  (List.range NPRIOR).findSome? fun level =>
    (List.finRange NPROC).find? fun i =>
      (s.task i).state == .runnable && (s.task i).priority == level

/-- The chosen process gets the CPU. -/
def dispatch (s : Mlfq) (now : Nat) : Mlfq :=
  match s.chosen with
  | none => s
  | some i => s.set i { s.task i with state := .running, lastSched := now }

/-- A proc in one state goes on to another. -/
def advance (s : Mlfq) (i : Slot) (before after : ProcState) : Option Mlfq :=
  if (s.task i).state = before then
    some (s.set i { s.task i with state := after })
  else
    none

/-- One move, if it is possible. -/
def step (s : Mlfq) : Move → Option Mlfq
  | .create stack =>
    match s.unusedSlot with
    | none => some s
    | some i =>
      some (s.set i (if stack then (s.task i).claimed
        else { (s.task i).claimed with state := .unused }))
  | .abandon i => s.advance i .embryo .unused
  | .publish i => s.advance i .embryo .runnable
  | .pass now => some ((s.boost now).dispatch now)
  | .yield i =>
    if (s.task i).state = .running then
      some (s.set i { (s.task i).updateTicks with state := .runnable })
    else
      none
  | .sleep i => s.advance i .running .sleeping
  | .wakeup i => s.advance i .sleeping .runnable
  | .exit i => s.advance i .running .zombie
  | .reap i => s.advance i .zombie .unused

/-- The table when the machine starts. -/
def Starts (s : Mlfq) : Prop :=
  ∀ i, s.task i = Task.zero

/-- The table when the machine starts, as a value. -/
def start : Mlfq where
  task := fun _ => Task.zero

/-- States reached by moves that meet `allowed`. -/
abbrev Reaches (allowed : Mlfq → Move → Prop) : Mlfq → Prop :=
  Reach Starts (fun s move t => s.step move = some t) allowed

/-! ## What the scheduler tells user programs -/

/-- `struct pstat`. -/
structure Pstat where
  inuse : Slot → Bool
  pid : Slot → Nat
  priority : Slot → Nat
  state : Slot → ProcState
  ticks : Slot → Nat → Int

/-- `getpinfo`.  The ticks below the level of a process are taken to be the
quotas, those above it to be none. -/
def getpinfo (pid : Slot → Nat) (s : Mlfq) : Pstat where
  inuse := fun i => (s.task i).state != .unused
  pid := pid
  priority := fun i => (s.task i).priority
  state := fun i => (s.task i).state
  ticks := fun i level =>
    if level < (s.task i).priority then tickQuota level
    else if level = (s.task i).priority then
      toInt32 ((s.task i).ticksUsed level)
    else 0

end Mlfq

end Xv6
