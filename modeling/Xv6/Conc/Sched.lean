/-
Purpose: Processes and threads interleaved at the critical sections of
  ptable.lock and between the statements of fork and clone: the scheduler, the
  clock, and exit, wait, join, fork, clone, exec and kill.
-/
import Xv6.Kernel.Boot
import Xv6.Lib.Run

namespace Xv6

/-!
Code that holds `ptable.lock` is one step.  `fork` and `clone` hold no lock
after `allocproc`, so each of their parts is a step of its own and the clock
may take the processor away between any two of them; `exec` is split where it
commits.  A proc that is not in one of these calls is in user mode or in a
call that touches none of the tables; there it may also sleep on a channel
that is no proc, which `chan = none` stands for.

The machine has any number of processors: whatever is runnable may be
dispatched.  A panic ends the run.
-/

/-- How a proc comes to be. -/
inductive Birth where
  | fork
  | clone (fcn arg stack : Nat)
deriving DecidableEq

/-- Where a proc is when it next runs. -/
inductive Control where
  | user
  /-- In `wait`, asleep or woken up. -/
  | waiting
  /-- In `join`, asleep or woken up. -/
  | joining (stack : Nat)
  /-- In `exec`, about to commit. -/
  | commit (new : Loaded)
  /-- In `fork`, about to copy the address space. -/
  | copy (np : Slot)
  /-- About to fill in the new proc. -/
  | fill (birth : Birth) (np : Slot)
  /-- About to make the new proc runnable. -/
  | publish (birth : Birth) (np : Slot)
  /-- About to count the page directory of the new proc. -/
  | count (birth : Birth) (np : Slot)
  /-- In `clone`, about to set up the stack of the new thread. -/
  | stack (fcn arg stack : Nat) (np : Slot)
deriving DecidableEq

/-- The proc that is being created and is not runnable yet. -/
def Control.unborn : Control → Option Slot
  | .copy np => some np
  | .fill _ np => some np
  | .publish _ np => some np
  | _ => none

/-- System calls of a proc in user mode. -/
inductive Call where
  | exit
  | wait
  | join (stack : Nat)
  | fork
  | clone (fcn arg stack : Nat)
  | exec (file : Option FileImage) (argv : List (List UInt8))
  | kill (pid : Int)

/-- What may happen next. -/
inductive Move where
  /-- A scheduler runs a runnable proc. -/
  | dispatch (i : Slot)
  /-- The clock takes the processor away. -/
  | tick (i : Slot)
  /-- A running proc enters a call. -/
  | call (i : Slot) (call : Call)
  /-- A running proc continues inside a call. -/
  | go (i : Slot)
  /-- A running proc sleeps on a channel that is no proc. -/
  | pause (i : Slot)
  /-- Such a sleeper is woken. -/
  | rouse (i : Slot)

/-- The kernel with the position of every proc. -/
structure Sched where
  kernel : Kernel
  control : Slot → Control
  /-- How a proc was created, until it first runs; read by no step. -/
  fresh : Slot → Option Birth

namespace Sched

variable (img : Image) (m : Sched)

/-- Run kernel code; `next` gives the positions after it. -/
def run {α : Type} (program : KM α) (next : α → Slot → Control) : Option Sched :=
  match program m.kernel with
  | .ok (value, after) =>
    some { m with kernel := after, control := next value }
  | .error _ => none

/-- Slot `i` moves to `c`. -/
def goto (i : Slot) (c : Control) : Slot → Control :=
  Function.update m.control i c

/-- The proc in slot `i` is in `state`. -/
def isIn (i : Slot) (state : ProcState) : Bool :=
  (m.kernel.proc i).state == state

/-- After a scan of `wait` or `join`: back to user mode, or asleep. -/
def scanned (i : Slot) (asleep : Control) : Option Int → Slot → Control
  | some _ => m.goto i .user
  | none => m.goto i asleep

/-- Enter `fork` or `clone`: `allocproc`, after which the creator is at `next`
and the new proc will start in user mode. -/
def create (i : Slot) (birth : Birth) (next : Slot → Control) : Option Sched :=
  match allocproc m.kernel with
  | .ok (none, after) => some { m with kernel := after }
  | .ok (some np, after) =>
    some
      { kernel := after
        control := Function.update (m.goto np .user) i (next np)
        fresh := Function.update m.fresh np (some birth) }
  | .error _ => none

/-- Enter a call. -/
def enter (i : Slot) : Call → Option Sched
  | .exit => m.run (exit i) fun _ => m.control
  | .wait => m.run (wait img i) (m.scanned i .waiting)
  | .join stack => m.run (join img i stack) (m.scanned i (.joining stack))
  | .fork => m.create i .fork .copy
  | .clone fcn arg stack =>
    m.create i (.clone fcn arg stack) (.fill (.clone fcn arg stack))
  | .exec file argv => m.run (execLoad img i file argv) fun
      | none => m.control
      | some new => m.goto i (.commit new)
  | .kill pid => m.run (kill pid) fun _ => m.control

/-- `sleep` returns: the channel is cleared and `scan` runs again. -/
def woken {α : Type} (i : Slot) (scan : KM α) : KM α := do
  updProc i fun p => { p with chan := none }
  scan

/-- Count the page directory the new proc has by now. -/
def countRef (np : Slot) : KM Unit := do
  let s ← get
  addRef (s.proc np).pgdir

/-- Continue inside a call. -/
def proceed (i : Slot) : Control → Option Sched
  | .user => none
  | .waiting => m.run (woken i (wait img i)) (m.scanned i .waiting)
  | .joining stack =>
    m.run (woken i (join img i stack)) (m.scanned i (.joining stack))
  | .commit new =>
    m.run (commitExec img i new.dir new.sz new.esp new.entry) fun _ => m.goto i .user
  | .copy np => m.run (forkCopy img i np) fun
      | true => m.goto i (.fill .fork np)
      | false => m.goto i .user
  | .fill .fork np =>
    m.run (forkFill i np) fun _ => m.goto i (.publish .fork np)
  | .fill (.clone fcn arg stack) np =>
    m.run (cloneFill i np) fun _ => m.goto i (.publish (.clone fcn arg stack) np)
  | .publish birth np =>
    m.run (publish np) fun _ => m.goto i (.count birth np)
  | .count .fork np => m.run (countRef np) fun _ => m.goto i .user
  | .count (.clone fcn arg stack) np =>
    m.run (countRef np) fun _ => m.goto i (.stack fcn arg stack np)
  | .stack fcn arg stack np =>
    m.run (cloneStack i np fcn arg stack) fun _ => m.goto i .user

/-- A scheduler switches to slot `i`. -/
def switch (i : Slot) : KM Unit := do
  switchuvm i
  updProc i fun p => { p with state := .running }

/-- One step. -/
def step : Move → Option Sched
  | .dispatch i =>
    if m.isIn i .runnable then
      (m.run (switch i) fun _ => m.control).map fun after =>
        { after with fresh := Function.update m.fresh i none }
    else none
  | .tick i =>
    if m.isIn i .running then
      m.run (updProc i fun p => { p with state := .runnable }) fun _ => m.control
    else none
  | .call i call =>
    if m.isIn i .running then
      match m.control i with
      | .user => m.enter img i call
      | _ => none
    else none
  | .go i =>
    if m.isIn i .running then m.proceed img i (m.control i) else none
  | .pause i =>
    if m.isIn i .running then
      match m.control i with
      | .user =>
        m.run (updProc i fun p =>
          { p with chan := none, state := .sleeping }) fun _ => m.control
      | _ => none
    else none
  | .rouse i =>
    if m.isIn i .sleeping && (m.kernel.proc i).chan.isNone then
      m.run (updProc i fun p => { p with state := .runnable }) fun _ => m.control
    else none

/-- `userinit` has just set up the first process. -/
structure Starts (m : Sched) : Prop where
  boot : ∃ (boot : Kernel) (initcode : List UInt8), boot.Boots img ∧
    userinit img initcode boot = .ok ((), m.kernel)
  control : ∀ i, m.control i = .user
  fresh : ∀ i, m.fresh i = none

/-- The states of a run in which every step meets `allowed`. -/
abbrev Reaches (allowed : Sched → Move → Prop) : Sched → Prop :=
  Reach (Starts img) (fun m move after => m.step img move = some after) allowed

end Sched

end Xv6
