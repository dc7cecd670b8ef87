/-
Purpose: The calls that sleep (`pipewrite`, `piperead`, `sys_sleep`,
  `consoleread`, `wait`, `join`) and the code that wakes them, as one program
  of threads under the kernel's spin locks.
-/
import Mathlib.Algebra.BigOperators.Group.Finset.Piecewise
import Mathlib.Data.Fintype.Card
import Xv6.Lib.Channel
import Xv6.Lib.RingBuffer
import Xv6.Param

namespace Xv6.Sleepers

open Function Monitor

/-- Two threads, where examples need numbers for them. -/
instance neZero_two : NeZero 2 := ⟨by decide⟩

/-!
A thread is a slot of the process table.  Outside the calls it is at
`Point.user`, from where it enters a system call if it has a process, or runs
an interrupt handler: a slot without a process stands for a processor in its
scheduler loop.  Everything between two operations on spin locks, by a thread
that has the lock of what it touches, is one step.

One pipe and its two `struct file`s are modelled, by the end's `writable`, and
one console inode.  Calls that fail on their arguments, and the parts of
`fork`, `exec`, `wait` and `join` about memory and the reference table, are
left out.
-/

abbrev PIPESIZE : Nat := 512
abbrev INPUT_BUF : Nat := 128

/-- The spin locks: `ptable.lock`, `p->lock` of the pipe, `tickslock`,
`input.lock` and `icache.lock`. -/
inductive Lock where
  | ptable
  | pipe
  | ticks
  | input
  | icache
deriving Repr, DecidableEq

/-- The channels: `&p->nread`, `&p->nwrite`, `&ticks`, `&input.r`, the console
inode, and a `struct proc`. -/
inductive Channel (ι : Type) where
  | nread
  | nwrite
  | ticks
  | input
  | inode
  | proc (p : ι)
deriving Repr, DecidableEq

/-! ## Data -/

structure Pipe extends RingBuffer UInt8 where
  readopen : Bool
  writeopen : Bool

/-- The flag that `pipeclose` clears. -/
def Pipe.opened (p : Pipe) (writable : Bool) : Bool :=
  if writable then p.writeopen else p.readopen

/-- Both ends are closed. -/
def Pipe.closed (p : Pipe) : Bool := !p.readopen && !p.writeopen

/-- `while(p->nwrite == p->nread + PIPESIZE)`. -/
def Pipe.isFull (p : Pipe) : Bool := p.full (2 ^ 32) PIPESIZE

/-- `p->data[p->nwrite++ % PIPESIZE] = c`. -/
def Pipe.store (p : Pipe) (c : UInt8) : Pipe :=
  { p with toRingBuffer := p.push (2 ^ 32) PIPESIZE c }

/-- `p->data[p->nread++ % PIPESIZE]`. -/
def Pipe.take (p : Pipe) : UInt8 × Pipe :=
  (p.front PIPESIZE, { p with toRingBuffer := p.pop (2 ^ 32) })

/-- The bytes of the pipe that were stored and not taken. -/
def Pipe.contents (p : Pipe) : List UInt8 := p.buffered (2 ^ 32) PIPESIZE

/-- `input` of console.c. -/
structure Input where
  buf : Nat → UInt8
  r : Nat
  w : Nat
  e : Nat

/-- Whether a slot has a process, and whether it has exited. -/
inductive Life where
  | unused
  | embryo
  | alive
  | zombie
deriving Repr, DecidableEq

/-- The arguments of a `pipewrite`. -/
structure Write where
  addr : Nat → UInt8
  n : Int

/-- The first `i` bytes of the caller's buffer. -/
def Write.first (call : Write) (i : Nat) : List UInt8 :=
  (List.range i).map call.addr

/-- A `pipewrite` that has returned: how many bytes it stored and what it
returned. -/
structure Written (ι : Type) where
  writer : ι
  call : Write
  count : Nat
  result : Int

/-- A `piperead` that has returned: the bytes it delivered and what it
returned. -/
structure Delivered (ι : Type) where
  reader : ι
  bytes : List UInt8
  result : Int

/-- What happened so far; no kernel code reads it.  `closer` is the thread
whose `fileclose` dropped the last reference to an end, `pending` the one that
is to pass the page to `kfree`. -/
structure Log (ι : Type) where
  stored : List (ι × UInt8)
  taken : List (ι × UInt8)
  writes : List (Written ι)
  reads : List (Delivered ι)
  closer : Bool → Option ι
  pending : Option ι
  frees : Nat

/-- The shared data.  `ofile t writable` counts the descriptors of process `t`
for that end of the pipe, and `ref writable` is the `ref` of its
`struct file`. -/
structure Data (ι : Type) where
  pipe : Pipe
  ofile : ι → Bool → Nat
  ref : Bool → Nat
  ticks : Nat
  input : Input
  busy : Bool
  life : ι → Life
  parent : ι → Option ι
  pgdir : ι → Nat
  log : Log ι

/-! ## Program points -/

/-- The system calls with their arguments.  `wait true` is `join`,
`fork true` is `clone`, and `console n` is `fileread` on the console. -/
inductive Call (ι : Type) where
  | write (call : Write)
  | read (n : Int)
  | dup (writable : Bool)
  | close (writable : Bool)
  | sleep (n : Int)
  | console (n : Int)
  | wait (joins : Bool)
  | fork (thread : Bool)
  | exec (dir : Nat)
  | exit
  | kill (victim : ι)

/-- `pipewrite`, `piperead`, `sys_dup`, `fileclose` and `pipeclose`.  Writers
carry how many bytes they stored, readers what they took, and a close whether
`exit` called it. -/
inductive PipePoint where
  | writeEnter (call : Write)
  | writeLoop (call : Write) (i : Nat)
  | writeWake (call : Write) (i : Nat)
  | writeSleep (call : Write) (i : Nat)
  | writeFail (call : Write) (i : Nat)
  | writeDone (call : Write) (i : Nat)
  | writeRelease (call : Write) (i : Nat)
  | writeReturn (call : Write) (i : Nat) (result : Int)
  | readEnter (n : Int)
  | readLoop (n : Int)
  | readSleep (n : Int)
  | readFail
  | readDone (got : List UInt8)
  | readRelease (got : List UInt8)
  | readReturn (got : List UInt8) (result : Int)
  | dup (writable : Bool)
  | close (writable exits : Bool)
  | closeEnter (writable exits : Bool)
  | closeFlag (writable exits : Bool)
  | closeWake (writable exits : Bool)
  | closeTest (exits : Bool)
  | closeRelease (exits : Bool)
  | freeRelease (exits : Bool)
  | freePage (exits : Bool)

/-- `sys_sleep` and the timer interrupt. -/
inductive ClockPoint where
  | sleepEnter (n : Int)
  | sleepStart (n : Int)
  | sleepLoop (n : Int) (ticks0 : Nat)
  | sleepSleep (n : Int) (ticks0 : Nat)
  | sleepRelease
  | tickEnter
  | tickCount
  | tickWake
  | tickRelease

/-- The two calls of `ilock` on the way through the console: `fileread` locks
the inode before it calls `consoleread`, which locks it again at its end. -/
inductive Locker where
  | fileread (n : Int)
  | consoleread (result : Int)

/-- The two calls of `iunlock`: `consoleread` unlocks the inode at its start,
and `fileread` after it. -/
inductive Unlocker where
  | consoleread (n : Int)
  | fileread

/-- `ilock`, `iunlock`, `consoleread` and `consoleintr`. -/
inductive ConsolePoint where
  | ilockEnter (caller : Locker)
  | ilockTest (caller : Locker)
  | ilockSleep (caller : Locker)
  | ilockRelease (caller : Locker)
  | iunlockEnter (caller : Unlocker)
  | iunlockFlag (caller : Unlocker)
  | iunlockWake (caller : Unlocker)
  | iunlockRelease (caller : Unlocker)
  | readEnter (n : Int)
  | readLoop (n : Int) (got : List UInt8)
  | readSleep (n : Int) (got : List UInt8)
  | readRelease (result : Int)
  | intrEnter (chars : List Nat)
  | intrLoop (chars : List Nat)
  | intrWake (chars : List Nat)
  | intrRelease

/-- `wait`, `join`, `fork`, `clone`, `exec`, `exit` and `kill`. -/
inductive FamilyPoint (ι : Type) where
  | waitEnter (joins : Bool)
  | waitScan (joins : Bool)
  | waitSleep (joins : Bool)
  | waitClear (child : ι)
  | waitRelease
  | forkEnter (thread : Bool)
  | forkAlloc (thread : Bool)
  | forkRelease (thread : Bool) (child : Option ι)
  | forkCopy (thread : Bool) (child : ι)
  | forkFail (child : ι)
  | forkFill (child : ι) (dir : Nat)
  | forkFiles (child : ι)
  | forkPublish (child : ι)
  | exec (dir : Nat)
  | exitStart
  | exitFiles
  | exitEnter
  | exitParent
  | exitWake (parent : ι)
  | exitScan
  | exitWakeInit
  | exitMark
  | exitSched
  | panicked
  | kill (victim : ι)

/-- `trap` is the test of `killed` before a system call, `ret` the one after
it. -/
inductive Point (ι : Type) where
  | user
  | trap (call : Call ι)
  | ret
  | pipe (p : PipePoint)
  | clock (p : ClockPoint)
  | console (p : ConsolePoint)
  | family (p : FamilyPoint ι)

/-- Where a system call starts. -/
def Call.entry {ι : Type} : Call ι → Point ι
  | .write call => .pipe (.writeEnter call)
  | .read n => .pipe (.readEnter n)
  | .dup writable => .pipe (.dup writable)
  | .close writable => .pipe (.close writable false)
  | .sleep n => .clock (.sleepEnter n)
  | .console n => .console (.ilockEnter (.fileread n))
  | .wait joins => .family (.waitEnter joins)
  | .fork thread => .family (.forkEnter thread)
  | .exec dir => .family (.exec dir)
  | .exit => .family .exitStart
  | .kill victim => .family (.kill victim)

/-- Where `fileclose` returns to. -/
def afterClose {ι : Type} (exits : Bool) : Point ι :=
  if exits then .family .exitFiles else .ret

section Code

variable {ι : Type} [DecidableEq ι]

/-- The instructions of this program. -/
abbrev Code (ι : Type) := Instr ι Lock (Channel ι) (Data ι) (Point ι)

/-! ## Pipes -/

/-- The `for` loop of `pipewrite` until its end or until the pipe is full: the
new `i`, and the pipe. -/
def copyIn (call : Write) : Nat → Nat → Pipe → Nat × Pipe
  | 0, i, p => (i, p)
  | left + 1, i, p =>
    if p.isFull then (i, p)
    else copyIn call left (i + 1) (p.store (call.addr i))

/-- The `for` loop of `piperead`. -/
def copyOut : Nat → List UInt8 → Pipe → List UInt8 × Pipe
  | 0, got, p => (got, p)
  | left + 1, got, p =>
    if p.empty then (got, p)
    else copyOut left (got ++ [p.take.1]) p.take.2

/-- From the test of the `for` loop of `pipewrite` to its end, to `return -1`
or to the `wakeup` before it sleeps. -/
def writeLoop (t : ι) (call : Write) (i : Nat) (killed : Bool) (d : Data ι) : Point ι × Data ι :=
  let (j, p) := copyIn call (call.n - i).toNat i d.pipe
  let stored := (List.range' i (j - i)).map fun k => (t, call.addr k)
  let d' := { d with
    pipe := p
    log := { d.log with stored := d.log.stored ++ stored } }
  if call.n ≤ j then (.pipe (.writeDone call j), d')
  else if !p.readopen || killed then (.pipe (.writeFail call j), d')
  else (.pipe (.writeWake call j), d')

/-- From the test of the `while` loop of `piperead` to its `sleep`, to
`return -1` or to the end of its `for` loop. -/
def readLoop (t : ι) (n : Int) (killed : Bool) (d : Data ι) : Point ι × Data ι :=
  if d.pipe.empty && d.pipe.writeopen then
    if killed then (.pipe .readFail, d) else (.pipe (.readSleep n), d)
  else
    let (got, p) := copyOut n.toNat [] d.pipe
    (.pipe (.readDone got), { d with
      pipe := p
      log := { d.log with taken := d.log.taken ++ got.map (t, ·) } })

/-- A descriptor of `t` for one end goes, with its reference to the
`struct file`; the last one closes the end of the pipe. -/
def fileclose (t : ι) (writable exits : Bool) (d : Data ι) : Point ι × Data ι :=
  let d' := { d with
    ofile := update d.ofile t (update (d.ofile t) writable (d.ofile t writable - 1))
    ref := update d.ref writable (d.ref writable - 1) }
  if d.ref writable < 1 then (.family .panicked, d)
  else if 0 < d.ref writable - 1 then (afterClose exits, d')
  else
    (.pipe (.closeEnter writable exits), { d' with
      log := { d.log with
        closer := update d.log.closer writable (some t) } })

/-- `p->writeopen = 0` or `p->readopen = 0`. -/
def closeFlag (t : ι) (writable exits : Bool) (d : Data ι) : Point ι × Data ι :=
  let p := if writable then { d.pipe with writeopen := false }
    else { d.pipe with readopen := false }
  (.pipe (.closeWake writable exits), { d with
    pipe := p
    log := { d.log with
      pending := if p.closed then some t else d.log.pending } })

def pipeCode (t : ι) : PipePoint → Code ι
  | .writeEnter call => .acquire .pipe (.pipe (.writeLoop call 0))
  | .writeLoop call i => .act (writeLoop t call i)
  | .writeWake call i => .wakeup .nread (.pipe (.writeSleep call i))
  | .writeSleep call i => .sleep .nwrite .pipe (.pipe (.writeLoop call i))
  | .writeFail call i => .release .pipe (.pipe (.writeReturn call i (-1)))
  | .writeDone call i => .wakeup .nread (.pipe (.writeRelease call i))
  | .writeRelease call i =>
    .release .pipe (.pipe (.writeReturn call i call.n))
  | .writeReturn call i result => .act fun _ d =>
    (.ret, { d with log := { d.log with
      writes := d.log.writes ++ [⟨t, call, i, result⟩] } })
  | .readEnter n => .acquire .pipe (.pipe (.readLoop n))
  | .readLoop n => .act (readLoop t n)
  | .readSleep n => .sleep .nread .pipe (.pipe (.readLoop n))
  | .readFail => .release .pipe (.pipe (.readReturn [] (-1)))
  | .readDone got => .wakeup .nwrite (.pipe (.readRelease got))
  | .readRelease got => .release .pipe (.pipe (.readReturn got got.length))
  | .readReturn got result => .act fun _ d =>
    (.ret, { d with log := { d.log with
      reads := d.log.reads ++ [⟨t, got, result⟩] } })
  | .dup writable => .act fun _ d =>
    (.ret, { d with
      ofile := update d.ofile t (update (d.ofile t) writable (d.ofile t writable + 1))
      ref := update d.ref writable (d.ref writable + 1) })
  | .close writable exits => .act fun _ d => fileclose t writable exits d
  | .closeEnter writable exits =>
    .acquire .pipe (.pipe (.closeFlag writable exits))
  | .closeFlag writable exits => .act fun _ d => closeFlag t writable exits d
  | .closeWake writable exits =>
    .wakeup (if writable then .nread else .nwrite) (.pipe (.closeTest exits))
  | .closeTest exits => .act fun _ d =>
    if d.pipe.closed then (.pipe (.freeRelease exits), d)
    else (.pipe (.closeRelease exits), d)
  | .closeRelease exits => .release .pipe (afterClose exits)
  | .freeRelease exits => .release .pipe (.pipe (.freePage exits))
  | .freePage exits => .act fun _ d =>
    (afterClose exits, { d with log := { d.log with
      pending := none
      frees := d.log.frees + 1 } })

/-! ## The clock -/

/-- `sys_sleep` compares as `uint`. -/
def clockCode : ClockPoint → Code ι
  | .sleepEnter n => .acquire .ticks (.clock (.sleepStart n))
  | .sleepStart n => .act fun _ d => (.clock (.sleepLoop n d.ticks), d)
  | .sleepLoop n ticks0 => .act fun killed d =>
    if toU32 (d.ticks - ticks0) < toU32 n then
      if killed then (.clock .sleepRelease, d)
      else (.clock (.sleepSleep n ticks0), d)
    else
      (.clock .sleepRelease, d)
  | .sleepSleep n ticks0 => .sleep .ticks .ticks (.clock (.sleepLoop n ticks0))
  | .sleepRelease => .release .ticks .ret
  | .tickEnter => .acquire .ticks (.clock .tickCount)
  | .tickCount => .act fun _ d =>
    (.clock .tickWake, { d with ticks := u32 (d.ticks + 1) })
  | .tickWake => .wakeup .ticks (.clock .tickRelease)
  | .tickRelease => .release .ticks .ret

/-! ## The console -/

/-- The loops of `consoleread`: `left` more bytes are asked for. -/
def consoleLoop (n : Int) (killed : Bool) : Nat → List UInt8 → Input → ConsolePoint × Input
  | 0, got, input => (.readRelease got.length, input)
  | left + 1, got, input =>
    if input.r = input.w then
      if killed then (.readRelease (-1), input)
      else (.readSleep n got, input)
    else
      let c := input.buf (input.r % INPUT_BUF)
      let further := { input with r := u32 (input.r + 1) }
      -- `C('D')`; it stays in the buffer when bytes were read before it.
      if c = 4 then
        (.readRelease got.length, if got.isEmpty then further else input)
      else if c = 10 then (.readRelease (got.length + 1), further)
      else consoleLoop n killed left (got ++ [c]) further

/-- `C('U')`: take back the line, at most `fuel` characters of it. -/
def killLine : Nat → Input → Input
  | 0, input => input
  | fuel + 1, input =>
    let before := toU32 (input.e - 1)
    if input.e ≠ input.w ∧ input.buf (before % INPUT_BUF) ≠ 10 then
      killLine fuel { input with e := before }
    else
      input

/-- One character in `consoleintr`, and whether the readers are woken. -/
def consoleChar (c : Nat) (input : Input) : Bool × Input :=
  if c = 16 then (false, input)
  else if c = 21 then
    (false, killLine (toU32 (input.e - input.w)) input)
  else if c = 8 ∨ c = 127 then
    if input.e ≠ input.w then
      (false, { input with e := toU32 (input.e - 1) })
    else
      (false, input)
  else if c ≠ 0 ∧ toU32 (input.e - input.r) < INPUT_BUF then
    let char := if c = 13 then 10 else c
    let further := { input with
      buf := update input.buf (input.e % INPUT_BUF) char.toUInt8
      e := u32 (input.e + 1) }
    if char = 10 ∨ char = 4 ∨ further.e = u32 (input.r + INPUT_BUF) then
      (true, { further with w := further.e })
    else
      (false, further)
  else
    (false, input)

/-- Where `ilock` returns to. -/
def afterLock : Locker → Point ι
  | .fileread n => .console (.iunlockEnter (.consoleread n))
  | .consoleread _ => .console (.iunlockEnter .fileread)

/-- Where `iunlock` returns to. -/
def afterUnlock : Unlocker → Point ι
  | .consoleread n => .console (.readEnter n)
  | .fileread => .ret

def consoleCode : ConsolePoint → Code ι
  | .ilockEnter caller => .acquire .icache (.console (.ilockTest caller))
  | .ilockTest caller => .act fun _ d =>
    if d.busy then (.console (.ilockSleep caller), d)
    else (.console (.ilockRelease caller), { d with busy := true })
  | .ilockSleep caller =>
    .sleep .inode .icache (.console (.ilockTest caller))
  | .ilockRelease caller => .release .icache (afterLock caller)
  | .iunlockEnter caller => .acquire .icache (.console (.iunlockFlag caller))
  | .iunlockFlag caller => .act fun _ d =>
    (.console (.iunlockWake caller), { d with busy := false })
  | .iunlockWake caller => .wakeup .inode (.console (.iunlockRelease caller))
  | .iunlockRelease caller => .release .icache (afterUnlock caller)
  | .readEnter n => .acquire .input (.console (.readLoop n []))
  | .readLoop n got => .act fun killed d =>
    let (next, input) := consoleLoop n killed (n - got.length).toNat got d.input
    (.console next, { d with input })
  | .readSleep n got => .sleep .input .input (.console (.readLoop n got))
  | .readRelease result =>
    .release .input (.console (.ilockEnter (.consoleread result)))
  | .intrEnter chars => .acquire .input (.console (.intrLoop chars))
  | .intrLoop [] => .act fun _ d => (.console .intrRelease, d)
  | .intrLoop (c :: chars) => .act fun _ d =>
    let (wakes, input) := consoleChar c d.input
    (.console (if wakes then .intrWake chars else .intrLoop chars),
      { d with input })
  | .intrWake chars => .wakeup .input (.console (.intrLoop chars))
  | .intrRelease => .release .input .ret

/-! ## Processes -/

/-- The children that `wait`, or `join`, looks at, in table order. -/
def kids (slots : List ι) (t : ι) (joins : Bool) (d : Data ι) : List ι :=
  slots.filter fun p =>
    d.parent p = some t && (decide (d.pgdir p = d.pgdir t)) == joins

/-- One pass of `wait` or `join` over the table. -/
def waitScan (slots : List ι) (t : ι) (joins killed : Bool) (d : Data ι) : Point ι × Data ι :=
  match (kids slots t joins d).find? fun p => d.life p = .zombie with
  | some p =>
    (.family (.waitClear p), { d with
      life := update d.life p .unused
      parent := update d.parent p none })
  | none =>
    if (kids slots t joins d).isEmpty || killed then
      (.family .waitRelease, d)
    else
      (.family (.waitSleep joins), d)

/-- `exit` hands its children to init, up to the first that is a zombie. -/
def adopt (initproc t : ι) : List ι → Data ι → Bool × Data ι
  | [], d => (false, d)
  | p :: rest, d =>
    if d.parent p = some t then
      let d' := { d with
        parent := update d.parent p (some initproc) }
      if d.life p = .zombie then (true, d') else adopt initproc t rest d'
    else
      adopt initproc t rest d

/-- The directory is not in use. -/
def unusedDir (slots : List ι) (d : Data ι) (dir : Nat) : Bool :=
  slots.all fun p => d.life p = .unused || d.pgdir p ≠ dir

/-- After `allocproc` a copy of the parent's memory is made, or there is no
memory for it; a thread has the parent's own. -/
def copies (slots : List ι) (t : ι) (thread : Bool) (child : ι) (d : Data ι) : Point ι → Bool
  | .family (.forkFail p) => p = child
  | .family (.forkFill p dir) => p = child &&
      if thread then dir = d.pgdir t else unusedDir slots d dir
  | _ => false

def familyCode (slots : List ι) (initproc t : ι) : FamilyPoint ι → Code ι
  | .waitEnter joins => .acquire .ptable (.family (.waitScan joins))
  | .waitScan joins => .act (waitScan slots t joins)
  | .waitSleep joins =>
    .sleep (.proc t) .ptable (.family (.waitScan joins))
  | .waitClear child => .pardon child (.family .waitRelease)
  | .waitRelease => .release .ptable .ret
  | .forkEnter thread => .acquire .ptable (.family (.forkAlloc thread))
  | .forkAlloc thread => .act fun _ d =>
    match slots.find? fun p => d.life p = .unused with
    | some p => (.family (.forkRelease thread (some p)),
        { d with life := update d.life p .embryo })
    | none => (.family (.forkRelease thread none), d)
  | .forkRelease thread (some p) =>
    .release .ptable (.family (.forkCopy thread p))
  | .forkRelease _ none => .release .ptable .ret
  | .forkCopy thread p => .choose (copies slots t thread p)
  | .forkFail p => .act fun _ d =>
    (.ret, { d with life := update d.life p .unused })
  | .forkFill p dir => .act fun _ d =>
    (.family (.forkFiles p), { d with
      parent := update d.parent p (some t)
      pgdir := update d.pgdir p dir })
  -- The child has no descriptors yet: `exit` closed those of the slot's last
  -- process.
  | .forkFiles p => .act fun _ d =>
    (.family (.forkPublish p), { d with
      ofile := update d.ofile p fun writable => d.ofile p writable + d.ofile t writable
      ref := fun writable => d.ref writable + d.ofile t writable })
  | .forkPublish p => .act fun _ d =>
    (.ret, { d with life := update d.life p .alive })
  | .exec dir => .act fun _ d =>
    (.ret, { d with pgdir := update d.pgdir t dir })
  | .exitStart => .act fun _ d =>
    (.family (if t = initproc then .panicked else .exitFiles), d)
  | .exitFiles => .act fun _ d =>
    if 0 < d.ofile t false then (.pipe (.close false true), d)
    else if 0 < d.ofile t true then (.pipe (.close true true), d)
    else (.family .exitEnter, d)
  | .exitEnter => .acquire .ptable (.family .exitParent)
  | .exitParent => .act fun _ d =>
    match d.parent t with
    | some p => (.family (.exitWake p), d)
    | none => (.family .exitScan, d)
  | .exitWake p => .wakeup1 (.proc p) (.family .exitScan)
  | .exitScan => .act fun _ d =>
    let (wakes, d') := adopt initproc t slots d
    (.family (if wakes then .exitWakeInit else .exitMark), d')
  | .exitWakeInit => .wakeup1 (.proc initproc) (.family .exitScan)
  | .exitMark => .act fun _ d =>
    (.family .exitSched, { d with
      life := update d.life t .zombie })
  -- `sched` leaves `ptable.lock` to the scheduler, which releases it.
  | .exitSched => .release .ptable .user
  | .panicked => .choose fun _ _ => false
  | .kill victim => .kill victim .ret

/-! ## The whole program -/

/-- The arguments of a system call name what the caller has. -/
def Call.valid (slots : List ι) (d : Data ι) (t : ι) : Call ι → Bool
  | .write _ => 0 < d.ofile t true
  | .read _ => 0 < d.ofile t false
  | .dup writable | .close writable => 0 < d.ofile t writable
  | .exec dir => unusedDir slots d dir
  | _ => true

/-- What may happen to a thread in user mode. -/
def enters (slots : List ι) (t : ι) (d : Data ι) : Point ι → Bool
  | .trap call => d.life t = .alive && call.valid slots d t
  | .clock .tickEnter => true
  | .console (.intrEnter _) => true
  | _ => false

def code (slots : List ι) (initproc t : ι) : Point ι → Code ι
  | .user => .choose (enters slots t)
  | .trap call => .act fun killed d =>
    (if killed then .family .exitStart else call.entry, d)
  | .ret => .act fun killed d =>
    (if killed && d.life t = .alive then .family .exitStart else .user, d)
  | .pipe p => pipeCode t p
  | .clock p => clockCode p
  | .console p => consoleCode p
  | .family p => familyCode slots initproc t p

/-- The kernel, for a process table `slots` and the first process. -/
def program (slots : List ι) (initproc : ι) : Program ι Lock (Channel ι) (Data ι) (Point ι) where
  table := .ptable
  code := code slots initproc

end Code

/-- The states of the program. -/
abbrev Machine (ι : Type) := State ι Lock (Channel ι) (Data ι) (Point ι)

/-! ## Locks -/

section Locks

variable {ι : Type}

def PipePoint.held : PipePoint → Option Lock
  | .writeEnter _ | .writeReturn .. | .readEnter _ | .readReturn .. | .dup _
  | .close .. | .closeEnter .. | .freePage _ => none
  | _ => some .pipe

def ClockPoint.held : ClockPoint → Option Lock
  | .sleepEnter _ | .tickEnter => none
  | _ => some .ticks

def ConsolePoint.held : ConsolePoint → Option Lock
  | .ilockEnter _ | .iunlockEnter _ | .readEnter _ | .intrEnter _ => none
  | .ilockTest _ | .ilockSleep _ | .ilockRelease _ | .iunlockFlag _
  | .iunlockWake _ | .iunlockRelease _ => some .icache
  | _ => some .input

def FamilyPoint.held : FamilyPoint ι → Option Lock
  | .waitScan _ | .waitSleep _ | .waitClear _ | .waitRelease | .forkAlloc _
  | .forkRelease .. | .exitParent | .exitWake _ | .exitScan | .exitWakeInit
  | .exitMark | .exitSched => some .ptable
  | _ => none

/-- The lock that a running thread has at a point. -/
def Point.held : Point ι → Option Lock
  | .user | .trap _ | .ret => none
  | .pipe p => p.held
  | .clock p => p.held
  | .console p => p.held
  | .family p => p.held

theorem held_afterClose (exits : Bool) : (afterClose exits : Point ι).held = none := by
  cases exits <;> rfl

theorem held_entry (call : Call ι) : call.entry.held = none := by
  cases call <;> rfl

theorem held_consoleLoop (n : Int) (killed : Bool) (left : Nat) (got : List UInt8) (input : Input) :
    (consoleLoop n killed left got input).1.held = some .input := by
  induction left generalizing got input with
  | zero => rfl
  | succ left ih =>
    simp only [consoleLoop]
    split_ifs
    · rfl
    · rfl
    · rfl
    · rfl
    · rfl
    · exact ih _ _

theorem clockCode_keeps (p : ClockPoint) : (clockCode p : Code ι).keeps Point.held (.clock p) := by
  cases p with
  | sleepLoop n ticks0 =>
    intro killed d
    simp only
    split_ifs <;> rfl
  | sleepStart | tickCount => exact fun _ _ => rfl
  | tickWake => rfl
  | _ => exact ⟨rfl, rfl⟩

theorem consoleCode_keeps (p : ConsolePoint) :
    (consoleCode p : Code ι).keeps Point.held (.console p) := by
  cases p with
  | ilockTest caller =>
    intro killed d
    simp only
    split_ifs <;> rfl
  | ilockRelease caller | iunlockRelease caller =>
    cases caller <;> exact ⟨rfl, rfl⟩
  | readLoop n got => exact fun _ _ => held_consoleLoop ..
  | intrLoop chars =>
    cases chars with
    | nil => exact fun _ _ => rfl
    | cons c chars =>
      intro killed d
      simp only
      split_ifs <;> rfl
  | iunlockFlag => exact fun _ _ => rfl
  | iunlockWake | intrWake => rfl
  | _ => exact ⟨rfl, rfl⟩

variable [DecidableEq ι]

theorem pipeCode_keeps (t : ι) (p : PipePoint) : (pipeCode t p).keeps Point.held (.pipe p) := by
  cases p with
  | writeLoop call i =>
    intro killed d
    simp only [writeLoop]
    split_ifs <;> rfl
  | readLoop n =>
    intro killed d
    simp only [readLoop]
    split_ifs <;> rfl
  | close writable exits =>
    intro killed d
    simp only [fileclose]
    split_ifs
    · rfl
    · exact held_afterClose exits
    · rfl
  | closeTest exits =>
    intro killed d
    simp only
    split_ifs <;> rfl
  | closeRelease exits => exact ⟨rfl, held_afterClose exits⟩
  | freePage exits => exact fun _ _ => held_afterClose exits
  | writeReturn | readReturn | dup | closeFlag => exact fun _ _ => rfl
  | writeWake | writeDone | readDone | closeWake => rfl
  | _ => exact ⟨rfl, rfl⟩

theorem familyCode_keeps (slots : List ι) (initproc t : ι) (p : FamilyPoint ι) :
    (familyCode slots initproc t p).keeps Point.held (.family p) := by
  cases p with
  | waitScan joins =>
    intro killed d
    simp only [waitScan]
    split
    · rfl
    · split_ifs <;> rfl
  | forkAlloc thread | exitParent =>
    intro killed d
    simp only
    split <;> rfl
  | forkRelease thread child => cases child <;> exact ⟨rfl, rfl⟩
  | forkCopy thread child =>
    intro d q admitted
    unfold copies at admitted
    split at admitted
    · rfl
    · rfl
    · cases admitted
  | exitStart | exitFiles | exitScan =>
    intro killed d
    simp only
    split_ifs <;> rfl
  | panicked => exact fun _ _ admitted => nomatch admitted
  | forkFail | forkFill | forkFiles | forkPublish | exec | exitMark =>
    exact fun _ _ => rfl
  | waitClear | exitWake | exitWakeInit | kill => rfl
  | _ => exact ⟨rfl, rfl⟩

/-- The annotation is right: a thread has at most one lock at a time. -/
theorem code_keeps (slots : List ι) (initproc t : ι) (p : Point ι) :
    ((program slots initproc).code t p).keeps Point.held p := by
  cases p with
  | user =>
    intro d q admitted
    simp only [enters] at admitted
    split at admitted
    · rfl
    · rfl
    · rfl
    · cases admitted
  | trap call =>
    intro killed d
    simp only
    split_ifs
    · rfl
    · exact held_entry call
  | ret =>
    intro killed d
    simp only
    split_ifs <;> rfl
  | pipe p => exact pipeCode_keeps t p
  | clock p => exact clockCode_keeps p
  | console p => exact consoleCode_keeps p
  | family p => exact familyCode_keeps slots initproc t p

theorem program_locked (slots : List ι) (initproc : ι) (l : Lock) :
    Locked (program slots initproc) l (fun p => p.held = some l) :=
  Locked.of_keeps (code_keeps slots initproc) l

end Locks

/-! ## Outside the pipe -/

section Outside

variable {ι : Type}

/-- Where system calls enter the code of pipes. -/
def PipePoint.entry : PipePoint → Bool
  | .writeEnter _ | .readEnter _ | .dup _ | .close .. => true
  | _ => false

/-- A point that is not in the middle of a call on the pipe. -/
def Point.outside : Point ι → Bool
  | .pipe p => p.entry
  | _ => true

/-- The end that a call at this point works on. -/
def Point.uses : Point ι → Option Bool
  | .trap (.write _) => some true
  | .trap (.read _) => some false
  | .trap (.dup writable) | .trap (.close writable) => some writable
  | .pipe (.writeEnter _) | .pipe (.writeLoop ..) | .pipe (.writeWake ..)
  | .pipe (.writeSleep ..) | .pipe (.writeFail ..) | .pipe (.writeDone ..)
  | .pipe (.writeRelease ..) | .pipe (.writeReturn ..) => some true
  | .pipe (.readEnter _) | .pipe (.readLoop _) | .pipe (.readSleep _)
  | .pipe .readFail | .pipe (.readDone _) | .pipe (.readRelease _)
  | .pipe (.readReturn ..) => some false
  | .pipe (.dup writable) | .pipe (.close writable _) => some writable
  | _ => none

/-- The thread is in `pipewrite` or `piperead`. -/
def Point.calls : Point ι → Bool
  | .pipe p => match p with
    | .writeEnter _ | .writeLoop .. | .writeWake .. | .writeSleep ..
    | .writeFail .. | .writeDone .. | .writeRelease .. | .writeReturn ..
    | .readEnter _ | .readLoop _ | .readSleep _ | .readFail | .readDone _
    | .readRelease _ | .readReturn .. => true
    | _ => false
  | _ => false

theorem Point.pipe_or (p : Point ι) :
    (∃ q, p = .pipe q) ∨ (∀ q, p ≠ .pipe q) ∧ p.outside = true := by
  cases p with
  | pipe q => exact Or.inl ⟨q, rfl⟩
  | _ => exact Or.inr ⟨nofun, rfl⟩

theorem outside_afterClose (exits : Bool) : (afterClose exits : Point ι).outside = true := by
  cases exits <;> rfl

/-- The descriptors and references are as before, or a child got those of
its parent. -/
inductive Shared [DecidableEq ι] (d d' : Data ι) : Prop where
  | same (ofile : d'.ofile = d.ofile) (ref : d'.ref = d.ref)
  | forked (parent child : ι) (ofile : d'.ofile = update d.ofile child
        fun writable => d.ofile child writable + d.ofile parent writable)
      (ref : d'.ref = fun writable => d.ref writable + d.ofile parent writable)

/-- The pipe and the log are as before. -/
structure Untouched [DecidableEq ι] (d d' : Data ι) : Prop where
  pipe : d'.pipe = d.pipe
  log : d'.log = d.log
  files : Shared d d'

variable [DecidableEq ι]

theorem Untouched.of_eq {d d' : Data ι} (pipe : d'.pipe = d.pipe)
    (log : d'.log = d.log) (ofile : d'.ofile = d.ofile) (ref : d'.ref = d.ref) : Untouched d d' :=
  ⟨pipe, log, .same ofile ref⟩

theorem Untouched.refl (d : Data ι) : Untouched d d := .of_eq rfl rfl rfl rfl

/-- Thread `t` may go from `p` to `q`: it is not in the middle of a call on
the pipe there, and has a descriptor for the end the call works on. -/
structure Admits (t : ι) (p : Point ι) (d : Data ι) (q : Point ι) : Prop where
  outside : q.outside = true
  uses : ∀ writable, q.uses = some writable → p.uses = some writable ∨ 0 < d.ofile t writable

/-- An instruction that neither enters the middle of the pipe's code nor
touches the pipe or its channels. -/
def Aloof (t : ι) (p : Point ι) : Code ι → Prop
  | .act run => ∀ killed d, Admits t p d (run killed d).1 ∧ Untouched d (run killed d).2
  | .choose ok => ∀ d q, ok d q → Admits t p d q
  | .sleep c _ next => next.outside = true ∧ next.uses = none ∧ c ≠ .nread ∧ c ≠ .nwrite
  | .acquire _ next | .release _ next | .wakeup _ next | .wakeup1 _ next
  | .kill _ next | .pardon _ next => next.outside = true ∧ next.uses = none

theorem Aloof.next {t : ι} {p next : Point ι} {instr : Code ι}
    (aloof : Aloof t p instr) (follows : instr.next = some next) :
    next.outside = true ∧ next.uses = none := by
  cases instr with
  | act | choose => cases follows
  | sleep =>
    cases follows
    exact ⟨aloof.1, aloof.2.1⟩
  | _ =>
    cases follows
    exact aloof

theorem clockCode_aloof (t : ι) (p : ClockPoint) : Aloof t (.clock p) (clockCode p) := by
  cases p with
  | sleepStart | tickCount =>
    exact fun _ _ => ⟨⟨rfl, nofun⟩, .of_eq rfl rfl rfl rfl⟩
  | sleepLoop n ticks0 =>
    intro killed d
    simp only
    split_ifs <;> exact ⟨⟨rfl, nofun⟩, .refl d⟩
  | sleepSleep => exact ⟨rfl, rfl, nofun, nofun⟩
  | _ => exact ⟨rfl, rfl⟩

theorem consoleCode_aloof (t : ι) (p : ConsolePoint) : Aloof t (.console p) (consoleCode p) := by
  cases p with
  | ilockTest caller =>
    intro killed d
    simp only
    split_ifs <;> exact ⟨⟨rfl, nofun⟩, .of_eq rfl rfl rfl rfl⟩
  | ilockRelease caller | iunlockRelease caller =>
    cases caller <;> exact ⟨rfl, rfl⟩
  | iunlockFlag | readLoop =>
    exact fun _ _ => ⟨⟨rfl, nofun⟩, .of_eq rfl rfl rfl rfl⟩
  | intrLoop chars =>
    cases chars <;> exact fun _ _ => ⟨⟨rfl, nofun⟩, .of_eq rfl rfl rfl rfl⟩
  | ilockSleep | readSleep => exact ⟨rfl, rfl, nofun, nofun⟩
  | _ => exact ⟨rfl, rfl⟩

theorem adopt_untouched (initproc t : ι) (slots : List ι) (d : Data ι) :
    (adopt initproc t slots d).2.pipe = d.pipe ∧ (adopt initproc t slots d).2.log = d.log ∧
      (adopt initproc t slots d).2.ofile = d.ofile ∧
      (adopt initproc t slots d).2.ref = d.ref := by
  induction slots generalizing d with
  | nil => exact ⟨rfl, rfl, rfl, rfl⟩
  | cons p rest ih =>
    simp only [adopt]
    split_ifs
    · exact ⟨rfl, rfl, rfl, rfl⟩
    · exact ih
        { d with parent := update d.parent p (some initproc) }
    · exact ih d

theorem familyCode_aloof (slots : List ι) (initproc t : ι) (p : FamilyPoint ι) :
    Aloof t (.family p) (familyCode slots initproc t p) := by
  cases p with
  | waitScan joins =>
    intro killed d
    simp only [waitScan]
    split
    · exact ⟨⟨rfl, nofun⟩, .of_eq rfl rfl rfl rfl⟩
    · split_ifs <;> exact ⟨⟨rfl, nofun⟩, .refl d⟩
  | waitSleep => exact ⟨rfl, rfl, nofun, nofun⟩
  | forkAlloc thread =>
    intro killed d
    simp only
    split <;> exact ⟨⟨rfl, nofun⟩, .of_eq rfl rfl rfl rfl⟩
  | forkRelease thread child => cases child <;> exact ⟨rfl, rfl⟩
  | forkCopy thread child =>
    intro d q admitted
    unfold copies at admitted
    split at admitted
    · exact ⟨rfl, nofun⟩
    · exact ⟨rfl, nofun⟩
    · cases admitted
  | forkFiles child =>
    exact fun _ _ => ⟨⟨rfl, nofun⟩, rfl, rfl, .forked t child rfl rfl⟩
  | exitStart =>
    intro killed d
    refine ⟨⟨rfl, ?_⟩, .refl d⟩
    simp only
    split_ifs <;> exact nofun
  | exitFiles =>
    intro killed d
    simp only
    split_ifs with reads writes
    · exact ⟨⟨rfl, fun _ uses => Or.inr (by cases uses; exact reads)⟩, .refl d⟩
    · exact ⟨⟨rfl, fun _ uses => Or.inr (by cases uses; exact writes)⟩, .refl d⟩
    · exact ⟨⟨rfl, nofun⟩, .refl d⟩
  | exitParent =>
    intro killed d
    simp only
    split <;> exact ⟨⟨rfl, nofun⟩, .refl d⟩
  | exitScan =>
    intro killed d
    obtain ⟨pipe, log, ofile, ref⟩ := adopt_untouched initproc t slots d
    exact ⟨⟨rfl, nofun⟩, .of_eq pipe log ofile ref⟩
  | panicked => exact fun _ _ admitted => nomatch admitted
  | forkFail | forkFill | forkPublish | exec | exitMark =>
    exact fun _ _ => ⟨⟨rfl, nofun⟩, .of_eq rfl rfl rfl rfl⟩
  | _ => exact ⟨rfl, rfl⟩

omit [DecidableEq ι] in
/-- A valid call works on an end its caller has a descriptor for. -/
theorem Call.valid_uses {slots : List ι} {d : Data ι} {t : ι} {call : Call ι}
    (valid : call.valid slots d t = true) {writable : Bool}
    (uses : (Point.trap call).uses = some writable) : 0 < d.ofile t writable := by
  cases call with
  | write | read | dup | close =>
    cases uses
    simpa [Call.valid] using valid
  | _ => cases uses

theorem code_aloof (slots : List ι) (initproc t : ι) {p : Point ι} (outside : ∀ q, p ≠ .pipe q) :
    Aloof t p ((program slots initproc).code t p) := by
  cases p with
  | user =>
    intro d q admitted
    simp only [enters] at admitted
    split at admitted
    · simp only [Bool.and_eq_true] at admitted
      exact ⟨rfl, fun _ uses => Or.inr (Call.valid_uses admitted.2 uses)⟩
    · exact ⟨rfl, nofun⟩
    · exact ⟨rfl, nofun⟩
    · cases admitted
  | trap call =>
    intro killed d
    refine ⟨?_, .refl d⟩
    simp only
    split_ifs
    · exact ⟨rfl, nofun⟩
    · cases call <;> exact ⟨rfl, fun _ uses => Or.inl uses⟩
  | ret =>
    intro killed d
    simp only
    split_ifs <;> exact ⟨⟨rfl, nofun⟩, .refl d⟩
  | pipe p => exact absurd rfl (outside p)
  | clock p => exact clockCode_aloof t p
  | console p => exact consoleCode_aloof t p
  | family p => exact familyCode_aloof slots initproc t p

end Outside

/-! ## Runs -/

section Runs

variable {ι : Type}

/-- The state of the process is `SLEEPING`, with this channel. -/
def sleepingOn (c : Channel ι) (mode : Mode Lock (Channel ι)) : Prop :=
  ∃ l, mode = .dozing c l ∨ mode = .asleep c l

theorem sleepingOn.waits {c : Channel ι} {mode : Mode Lock (Channel ι)}
    (sleeps : sleepingOn c mode) : mode.waits c := by
  obtain ⟨l, rfl | rfl⟩ := sleeps
  · rfl
  · rfl

variable [Fintype ι]

/-- Nobody is in a call, no lock is taken, and the pipe has just been made:
some process has a descriptor for each end. -/
structure Start (s : Machine ι) : Prop where
  user : ∀ t, s.pc t = .user
  running : ∀ t, s.mode t = .running
  free : ∀ l, s.lock l = none
  nread : s.data.pipe.nread = 0
  nwrite : s.data.pipe.nwrite = 0
  readopen : s.data.pipe.readopen = true
  writeopen : s.data.pipe.writeopen = true
  counted : ∀ writable, s.data.ref writable = ∑ t, s.data.ofile t writable
  referred : ∀ writable, 0 < s.data.ref writable
  quiet : s.data.log = ⟨[], [], [], [], fun _ => none, none, 0⟩

theorem Start.fresh {s : Machine ι}
    (start : Start s) (l : Lock) : Fresh (fun p => p.held = some l) s where
  running := start.running
  free := start.free
  outside t := by simp [start.user, Point.held]

/-- Every slot has a process with a descriptor for each end of a new pipe. -/
def made (n : Nat) : Machine (Fin n) where
  data :=
    { pipe :=
        { data := fun _ => 0
          nread := 0
          nwrite := 0
          readopen := true
          writeopen := true }
      ofile := fun _ _ => 1
      ref := fun _ => n
      ticks := 0
      input := { buf := fun _ => 0, r := 0, w := 0, e := 0 }
      busy := false
      life := fun _ => .alive
      parent := fun _ => none
      pgdir := fun _ => 0
      log := ⟨[], [], [], [], fun _ => none, none, 0⟩ }
  lock := fun _ => none
  pc := fun _ => .user
  mode := fun _ => .running
  killed := fun _ => false

theorem made_start {n : Nat} (pos : 0 < n) : Start (made n) where
  user _ := rfl
  running _ := rfl
  free _ := rfl
  nread := rfl
  nwrite := rfl
  readopen := rfl
  writeopen := rfl
  counted _ := by simp [made]
  referred _ := pos
  quiet := rfl

end Runs

end Xv6.Sleepers
