/-
Purpose: pushcli and popcli on any number of processors, under interrupts and with threads that
  switch through sched and resume anywhere: each finds its nesting and its interrupt flag again.
-/
import Mathlib.Data.List.GetD
import Mathlib.Logic.Function.Basic
import Xv6.Lib.Run

namespace Xv6.Cli

open Function (update update_self update_of_ne update_apply forall_update_iff)

/-! ## One processor -/

/-- The panics of `popcli`. -/
inductive CliPanic where
  | popcli
  | interruptible

/-- `cpu->ncli`, `cpu->intena` and the flag FL_IF. -/
structure Cpu where
  ncli : Int
  intena : Bool
  flag : Bool

/-- `pushcli` after `readeflags`. -/
def Cpu.pushcli (cpu : Cpu) (eflags : Bool) : Cpu where
  ncli := cpu.ncli + 1
  intena := if cpu.ncli = 0 then eflags else cpu.intena
  flag := false

def Cpu.popcli (cpu : Cpu) : Except CliPanic Cpu :=
  if cpu.flag then .error .interruptible
  else if cpu.ncli - 1 < 0 then .error .popcli
  else .ok { cpu with ncli := cpu.ncli - 1, flag := decide (cpu.ncli - 1 = 0) && cpu.intena }

/-- What a kernel stack holds: the local of a `pushcli` that has read the flags, and for each
interrupt the flag and that local of the code it interrupted.  `depth` and `before` are read by no
code: the pushclis outstanding, and the flag before the outermost of them. -/
structure KStack where
  eflags : Option Bool
  frames : List (Bool × Option Bool)
  depth : Nat
  before : Bool

/-- Steps of a thread or of an interrupt handler; `pushcli` is the first two.  Calls are properly
nested: `popcli` undoes a `pushcli`, and a handler returns after undoing its own. -/
inductive Op where
  | readeflags
  | cli
  | popcli
  | interrupt
  | iret
deriving DecidableEq

def Op.run (cpu : Cpu) (k : KStack) : Op → Except CliPanic (Option (Cpu × KStack))
  | .readeflags =>
    .ok (if k.eflags = none then some (cpu, { k with eflags := some cpu.flag }) else none)
  | .cli =>
    .ok (k.eflags.map fun eflags => (cpu.pushcli eflags, { k with
      eflags := none
      depth := k.depth + 1
      before := if k.depth = 0 then cpu.flag else k.before }))
  | .popcli =>
    if k.eflags = none ∧ 0 < k.depth then
      cpu.popcli.map fun cpu => some (cpu, { k with depth := k.depth - 1 })
    else .ok none
  | .interrupt =>
    .ok (if cpu.flag then some ({ cpu with flag := false }, { k with
      eflags := none
      frames := (cpu.flag, k.eflags) :: k.frames }) else none)
  | .iret =>
    .ok (match k.frames with
      | [] => none
      | (flag, eflags) :: rest =>
        if k.eflags = none ∧ k.depth = 0 then
          some ({ cpu with flag := flag }, { k with eflags := eflags, frames := rest })
        else none)

/-! ## The machine -/

/-- A thread has not run yet, is in `sched` with its local `intena`, or runs. -/
inductive Phase where
  | new
  | away (intena : Bool)
  | running

structure Thread where
  stack : KStack
  phase : Phase

/-- Where `scheduler` is: before `sti`, before `tickslock`, before `ptable.lock`, with that lock, or
at the end of the round. -/
inductive Place where
  | sti
  | tick
  | look
  | choose
  | newround
deriving DecidableEq

/-- A processor with its scheduler, and the thread that runs on it instead. -/
structure Core (ι : Type) where
  cpu : Cpu
  stack : KStack
  place : Place
  proc : Option ι

/-- The locks are left out: to wait for one changes nothing here, and without them there are only
more runs. -/
structure Machine (γ ι : Type) where
  core : γ → Core ι
  thread : ι → Thread

/-- A step of the code on a processor, the call of `sched`, the next part of `scheduler`, or its
`swtch` to a thread. -/
inductive Move (γ ι : Type) where
  | op (c : γ) (o : Op)
  | sched (c : γ)
  | scheduler (c : γ)
  | swtch (c : γ) (p : ι)

variable {γ ι : Type} [DecidableEq γ] [DecidableEq ι]

/-- The next part of `scheduler`.  What it does with interrupts off is one part. -/
def Core.scheduler (core : Core ι) : Except CliPanic (Core ι) :=
  match core.place, core.stack.eflags with
  | .sti, _ => .ok { core with cpu := { core.cpu with flag := true }, place := .tick }
  | .tick, none | .look, none =>
    .ok { core with stack := { core.stack with eflags := some core.cpu.flag } }
  | .tick, some eflags => (core.cpu.pushcli eflags).popcli.map fun cpu =>
    { core with cpu := cpu, stack := { core.stack with eflags := none }, place := .look }
  | .look, some eflags => .ok { core with
      cpu := core.cpu.pushcli eflags
      stack := { core.stack with eflags := none, depth := core.stack.depth + 1 }
      place := .choose }
  | .choose, _ => .ok { core with place := .newround }
  | .newround, _ => core.cpu.popcli.map fun cpu => { core with
      cpu := cpu
      stack := { core.stack with depth := core.stack.depth - 1 }
      place := .sti }

/-- The end of `swtch` to a thread: it starts in `forkret`, or goes on in `sched`. -/
def Phase.resume (cpu : Cpu) : Phase → Option Cpu
  | .new => some cpu
  | .away intena => some { cpu with intena := intena }
  | .running => none

namespace Machine

def put (s : Machine γ ι) (c : γ) (core : Core ι) (p : ι) (thread : Thread) : Machine γ ι where
  core := update s.core c core
  thread := update s.thread p thread

/-- `switchuvm`, with its `pushcli` and `popcli`, and `swtch`. -/
def swtch (s : Machine γ ι) (c : γ) (p : ι) : Except CliPanic (Option (Machine γ ι)) :=
  let core := s.core c
  (core.cpu.pushcli core.cpu.flag).popcli.map fun cpu =>
    ((s.thread p).phase.resume cpu).map fun cpu =>
      s.put c { core with cpu := cpu, place := .newround, proc := some p } p
        { s.thread p with phase := .running }

/-- `sched`; `none` is one of its panics. -/
def sched (s : Machine γ ι) (c : γ) (p : ι) : Option (Machine γ ι) :=
  let core := s.core c
  if (s.thread p).stack.eflags = none ∧ core.cpu.ncli = 1 ∧ core.cpu.flag = false then
    some (s.put c { core with proc := none } p
      { s.thread p with phase := .away core.cpu.intena })
  else none

/-- `none` where the code cannot go on or stops with another panic.  A handler may also interrupt
`scheduler`, which goes on when it has returned. -/
def step (s : Machine γ ι) : Move γ ι → Except CliPanic (Option (Machine γ ι))
  | .op c o =>
    let core := s.core c
    match core.proc with
    | none =>
      if core.stack.frames = [] ∧ o ≠ .interrupt then .ok none
      else (o.run core.cpu core.stack).map fun done => done.map fun (cpu, k) =>
        { s with core := update s.core c { core with cpu := cpu, stack := k } }
    | some p => (o.run core.cpu (s.thread p).stack).map fun done => done.map fun (cpu, k) =>
      s.put c { core with cpu := cpu } p { s.thread p with stack := k }
  | .sched c => .ok ((s.core c).proc.bind (s.sched c))
  | .scheduler c =>
    if (s.core c).proc = none ∧ (s.core c).stack.frames = [] then
      (s.core c).scheduler.map fun core => some { s with core := update s.core c core }
    else .ok none
  | .swtch c p =>
    if (s.core c).proc = none ∧ (s.core c).place = .choose then s.swtch c p else .ok none

/-- Every processor enters `scheduler`; a new thread starts with the lock that the scheduler took,
with interrupts enabled before. -/
structure Starts (s : Machine γ ι) : Prop where
  ncli : ∀ c, (s.core c).cpu.ncli = 0
  stack : ∀ c, (s.core c).stack = ⟨none, [], 0, true⟩
  place : ∀ c, (s.core c).place = .sti
  proc : ∀ c, (s.core c).proc = none
  thread : ∀ p, s.thread p = ⟨⟨none, [], 1, true⟩, .new⟩

/-- The states of all runs. -/
abbrev Reaches : Machine γ ι → Prop :=
  Reach Starts (fun s move t => s.step move = .ok (some t)) fun _ _ => True

end Machine

/-! ## What holds on one processor -/

variable {cpu cpu' : Cpu} {k k' : KStack} {flag flag' : Bool}

/-- The nesting of the code on a processor is the one the processor counts. -/
structure Fits (cpu : Cpu) (k : KStack) : Prop where
  ncli : cpu.ncli = k.depth
  off : 0 < k.depth → cpu.flag = false
  eflags : ∀ e ∈ k.eflags, e = cpu.flag
  frames : ∀ frame ∈ k.frames, frame.1 = true ∧ ∀ e ∈ frame.2, e = true

/-- The outermost `popcli` will restore the flag. -/
def Restores (cpu : Cpu) (k : KStack) : Prop := 0 < k.depth → cpu.intena = k.before

/-- The local, the nesting and the flag of the code at the bottom of a stack. -/
def KStack.base (k : KStack) (flag : Bool) : Option Bool × Nat × Bool :=
  k.frames.foldl (fun _ frame => (frame.2, 0, frame.1)) (k.eflags, k.depth, flag)

theorem KStack.base_handler (handler : k.frames ≠ []) (same : k'.frames = k.frames := by rfl) :
    k'.base flag' = k.base flag ∧ (k.frames = [] → k.depth = 0) := by
  refine ⟨?_, fun top => absurd top handler⟩
  unfold base
  rw [same]
  cases frames : k.frames with
  | nil => exact absurd frames handler
  | cons frame rest => rfl

theorem Fits.popcli (fits : Fits cpu k) (inside : 0 < k.depth) : cpu.popcli = .ok { cpu with
    ncli := cpu.ncli - 1, flag := decide (k.depth = 1) && cpu.intena } := by
  have ncli := fits.ncli
  have zero : decide (cpu.ncli - 1 = 0) = decide (k.depth = 1) := decide_eq_decide.mpr (by omega)
  unfold Cpu.popcli
  rw [fits.off inside, if_neg Bool.false_ne_true, if_neg (by omega), zero]

theorem Fits.popped (fits : Fits cpu k) (inside : 0 < k.depth) (between : k.eflags = none) :
    Fits { cpu with ncli := cpu.ncli - 1, flag := decide (k.depth = 1) && cpu.intena }
      { k with depth := k.depth - 1 } where
  ncli := by
    have ncli := fits.ncli
    simp only
    omega
  off more := by
    simp only at more ⊢
    rw [decide_eq_false (by omega), Bool.false_and]
  eflags := by simp [between]
  frames := fits.frames

theorem Fits.read (fits : Fits cpu k) : Fits cpu { k with eflags := some cpu.flag } :=
  ⟨fits.ncli, fits.off, by simp, fits.frames⟩

theorem Fits.pushed (fits : Fits cpu k) (eflags before : Bool) :
    Fits (cpu.pushcli eflags)
      { k with eflags := none, depth := k.depth + 1, before := before } where
  ncli := by simp [Cpu.pushcli, fits.ncli]
  off _ := rfl
  eflags := nofun
  frames := fits.frames

/-- No step panics in `popcli`, and what holds before it holds after it. -/
theorem Fits.run (fits : Fits cpu k) (o : Op) :
    ∃ done, o.run cpu k = .ok done ∧ ∀ cpu' k', done = some (cpu', k') → Fits cpu' k' ∧
      (Restores cpu k → Restores cpu' k') ∧
      (k.frames ≠ [] ∨ o = .interrupt →
        k'.base cpu'.flag = k.base cpu.flag ∧ (k.frames = [] → k.depth = 0)) := by
  cases o with
  | readeflags =>
    refine ⟨_, rfl, fun cpu' k' ran => ?_⟩
    obtain ⟨-, ⟨⟩⟩ := Option.ite_none_right_eq_some.mp ran
    refine ⟨fits.read, id, ?_⟩
    rintro (handler | ⟨⟨⟩⟩)
    exact KStack.base_handler handler
  | cli =>
    refine ⟨_, rfl, fun cpu' k' ran => ?_⟩
    obtain ⟨e, read, ⟨⟩⟩ := Option.map_eq_some_iff.mp ran
    refine ⟨fits.pushed e _, fun restores _ => ?_, ?_⟩
    · simp only [Cpu.pushcli, fits.ncli, Int.natCast_eq_zero]
      split_ifs with outermost
      · exact fits.eflags e read
      · exact restores (Nat.pos_of_ne_zero outermost)
    · rintro (handler | ⟨⟨⟩⟩)
      exact KStack.base_handler handler
  | popcli =>
    rw [Op.run]
    split_ifs with nested
    · rw [fits.popcli nested.2]
      refine ⟨_, rfl, fun cpu' k' ran => ?_⟩
      cases ran
      refine ⟨fits.popped nested.2 nested.1, fun restores _ => restores nested.2, ?_⟩
      rintro (handler | ⟨⟨⟩⟩)
      exact KStack.base_handler handler
    · exact ⟨none, rfl, nofun⟩
  | interrupt =>
    refine ⟨_, rfl, fun cpu' k' ran => ?_⟩
    obtain ⟨enabled, ⟨⟩⟩ := Option.ite_none_right_eq_some.mp ran
    have outside : k.depth = 0 := by
      by_contra inside
      rw [fits.off (Nat.pos_of_ne_zero inside)] at enabled
      cases enabled
    refine ⟨⟨fits.ncli, fun _ => rfl, nofun, List.forall_mem_cons.mpr ⟨⟨enabled, ?_⟩, fits.frames⟩⟩,
      fun _ inside => by simp [outside] at inside, fun _ => ⟨?_, fun _ => outside⟩⟩
    · exact fun e read => (fits.eflags e read).trans enabled
    · unfold KStack.base
      rw [outside]
      rfl
  | iret =>
    rw [Op.run]
    cases aside : k.frames with
    | nil => exact ⟨none, rfl, nofun⟩
    | cons frame rest =>
      refine ⟨_, rfl, fun cpu' k' ran => ?_⟩
      obtain ⟨⟨-, outside⟩, ⟨⟩⟩ := Option.ite_none_right_eq_some.mp ran
      obtain ⟨⟨enabled, read⟩, below⟩ := List.forall_mem_cons.mp (aside ▸ fits.frames)
      refine ⟨⟨fits.ncli, fun inside => by simp [outside] at inside, ?_, below⟩,
        fun _ inside => by simp [outside] at inside, fun _ => ⟨?_, fun _ => outside⟩⟩
      · exact fun e mem => (read e mem).trans enabled.symm
      · unfold KStack.base
        rw [aside, outside]
        rfl

/-! ## What holds of the machine -/

/-- The scheduler is inside its acquire of `ptable.lock`. -/
def KStack.Waits (k : KStack) : Prop := k.frames = [] ∧ k.eflags = none ∧ k.depth = 1

/-- What `scheduler` counts on at each point. -/
def Place.Expects (cpu : Cpu) (k : KStack) : Place → Prop
  | .sti => (k.base cpu.flag).1 = none ∧ (k.base cpu.flag).2.1 = 0
  | .tick | .look => (k.base cpu.flag).2 = (0, true)
  | .choose => k.Waits ∧ cpu.intena = true
  | .newround => k.Waits

/-- The flag before its outermost `pushcli`, of a thread that does not run. -/
def Phase.owed : Phase → Option Bool
  | .new => some true
  | .away intena => some intena
  | .running => none

/-- A thread waits to be resumed, inside its acquire of `ptable.lock`. -/
def Rests (k : KStack) (before : Bool) : Prop :=
  Fits ⟨1, before, false⟩ k ∧ k.eflags = none ∧ k.before = before

/-- A thread runs while the scheduler is in `swtch`. -/
structure Runs (core : Core ι) (thread : Thread) : Prop where
  fits : Fits core.cpu thread.stack
  restores : Restores core.cpu thread.stack
  owed : thread.phase.owed = none
  place : core.place = .newround
  waits : core.stack.Waits

/-- A processor runs its scheduler or a thread. -/
inductive Core.Here (core : Core ι) (thread : ι → Thread) : Prop where
  | scheduler (proc : core.proc = none) (fits : Fits core.cpu core.stack)
      (expects : core.place.Expects core.cpu core.stack) : core.Here thread
  | thread (p : ι) (proc : core.proc = some p) (runs : Runs core (thread p)) : core.Here thread

structure Consistent (s : Machine γ ι) : Prop where
  here : ∀ c, (s.core c).Here s.thread
  apart : ∀ c c' p, (s.core c).proc = some p → (s.core c').proc = some p → c = c'
  resting : ∀ p before, (s.thread p).phase.owed = some before → Rests (s.thread p).stack before

/-- A step does not panic in `popcli`, and leads to no other state. -/
def Safe (next : Except CliPanic (Option (Machine γ ι))) : Prop :=
  ∃ done, next = .ok done ∧ ∀ t ∈ done, Consistent t

variable {s t : Machine γ ι} {c : γ} {p : ι} {core : Core ι} {thread : ι → Thread}

section

omit [DecidableEq γ] [DecidableEq ι]

theorem Consistent.runs (old : Consistent s) (proc : (s.core c).proc = some p) :
    Runs (s.core c) (s.thread p) := by
  rcases old.here c with ⟨none, -, -⟩ | ⟨q, here, runs⟩
  · cases none.symm.trans proc
  · cases here.symm.trans proc
    exact runs

theorem Consistent.scheduler (old : Consistent s) (proc : (s.core c).proc = none) :
    Fits (s.core c).cpu (s.core c).stack ∧
      (s.core c).place.Expects (s.core c).cpu (s.core c).stack := by
  rcases old.here c with ⟨-, fits, expects⟩ | ⟨q, here, -⟩
  · exact ⟨fits, expects⟩
  · cases here.symm.trans proc

theorem Machine.Starts.consistent (starts : s.Starts) : Consistent s where
  here c := by
    refine .scheduler (starts.proc c) ?_ ?_
    · rw [starts.stack]
      exact ⟨starts.ncli c, nofun, nofun, nofun⟩
    · simp [starts.place, starts.stack, KStack.base, Place.Expects]
  apart c c' p proc := by simp [starts.proc] at proc
  resting p before owed := by
    rw [starts.thread] at owed ⊢
    cases owed
    exact ⟨⟨rfl, fun _ => rfl, nofun, nofun⟩, rfl, rfl⟩

end

namespace Consistent

section

omit [DecidableEq ι]

/-- The frame rule: a step changes one processor, and of the threads only what runs on it. -/
theorem frame (old : Consistent s) (here : core.Here thread)
    (mine : ∀ p, core.proc = some p ∨ thread p ≠ s.thread p →
      ∀ c', (s.core c').proc = some p → c' = c)
    (resting : ∀ p before, (thread p).phase.owed = some before → Rests (thread p).stack before) :
    Consistent ⟨update s.core c core, thread⟩ where
  here c' := by
    by_cases same : c' = c
    · simpa [same] using here
    · simp only [update_of_ne same]
      rcases old.here c' with ⟨proc, fits, expects⟩ | ⟨p, proc, runs⟩
      · exact .scheduler proc fits expects
      · have kept : thread p = s.thread p := by
          by_contra changed
          exact same (mine p (.inr changed) c' proc)
        exact .thread p proc (kept ▸ runs)
  apart c' c'' p proc proc' := by
    simp only [update_apply] at proc proc'
    split_ifs at proc proc' with same same' same'
    · exact same.trans same'.symm
    · exact absurd (mine p (.inl proc) c'' proc') same'
    · exact absurd (mine p (.inl proc') c' proc) same
    · exact old.apart c' c'' p proc proc'
  resting := resting

theorem set (old : Consistent s) (proc : core.proc = none) (fits : Fits core.cpu core.stack)
    (expects : core.place.Expects core.cpu core.stack) :
    Consistent { s with core := update s.core c core } := by
  refine old.frame (.scheduler proc fits expects) ?_ old.resting
  rintro p (here | changed)
  · cases proc.symm.trans here
  · exact absurd rfl changed

theorem part (old : Consistent s) (proc : (s.core c).proc = none)
    (top : (s.core c).stack.frames = []) : ∃ core, (s.core c).scheduler = .ok core ∧
      Consistent { s with core := update s.core c core } := by
  obtain ⟨fits, expects⟩ := old.scheduler proc
  have base (flag : Bool) : (s.core c).stack.base flag =
      ((s.core c).stack.eflags, (s.core c).stack.depth, flag) := by simp [KStack.base, top]
  have pushed := fits.pushed true (s.core c).stack.before
  unfold Core.scheduler
  cases place : (s.core c).place with
  | sti =>
    simp only [place, Place.Expects, base] at expects
    refine ⟨_, rfl, old.set proc ⟨fits.ncli, ?_, ?_, fits.frames⟩ ?_⟩
    · simp [expects.2]
    · simp [expects.1]
    · simp [Place.Expects, base, expects.2]
  | tick =>
    simp only [place, Place.Expects, base, Prod.mk.injEq] at expects
    cases eflags : (s.core c).stack.eflags with
    | none =>
      refine ⟨_, rfl, old.set proc fits.read ?_⟩
      simp [Place.Expects, KStack.base, top, expects]
    | some e =>
      cases (fits.eflags e eflags).trans expects.2
      simp only [pushed.popcli (Nat.succ_pos _)]
      refine ⟨_, rfl, old.set proc ?_ ?_⟩
      · simpa using pushed.popped (Nat.succ_pos _) rfl
      · simp [Place.Expects, KStack.base, top, expects.1, Cpu.pushcli, fits.ncli]
  | look =>
    simp only [place, Place.Expects, base, Prod.mk.injEq] at expects
    cases eflags : (s.core c).stack.eflags with
    | none =>
      refine ⟨_, rfl, old.set proc fits.read ?_⟩
      simp [Place.Expects, KStack.base, top, expects]
    | some e =>
      cases (fits.eflags e eflags).trans expects.2
      refine ⟨_, rfl, old.set proc pushed ?_⟩
      simp [Place.Expects, KStack.Waits, top, expects.1, Cpu.pushcli, fits.ncli]
  | choose =>
    simp only [place, Place.Expects] at expects
    exact ⟨_, rfl, old.set proc fits expects.1⟩
  | newround =>
    simp only [place, Place.Expects] at expects
    obtain ⟨-, eflags, depth⟩ := expects
    simp only [fits.popcli (by omega)]
    refine ⟨_, rfl, old.set proc (fits.popped (by omega) eflags) ?_⟩
    simp [Place.Expects, KStack.base, top, eflags, depth]

end

theorem put {thread : Thread} (old : Consistent s) (mine : ∀ c', (s.core c').proc = some p → c' = c)
    (own : ∀ q, core.proc = some q → q = p) (here : core.Here (update s.thread p thread))
    (resting : ∀ before, thread.phase.owed = some before → Rests thread.stack before) :
    Consistent (s.put c core p thread) := by
  refine old.frame here ?_ ((forall_update_iff s.thread fun _ thread => ∀ before,
    thread.phase.owed = some before → Rests thread.stack before).mpr
      ⟨resting, fun q _ => old.resting q⟩)
  rintro q (here | changed)
  · cases own q here
    exact mine
  · have same : q = p := by
      by_contra other
      exact changed (update_of_ne other ..)
    exact same ▸ mine

/-- `scheduler` took its lock with interrupts enabled. -/
theorem swtch (old : Consistent s) (proc : (s.core c).proc = none)
    (place : (s.core c).place = .choose) (p : ι) : Safe (s.swtch c p) := by
  obtain ⟨fits, expects⟩ := old.scheduler proc
  simp only [place, Place.Expects] at expects
  obtain ⟨waits, enabled⟩ := expects
  have ncli : (s.core c).cpu.ncli = 1 := by rw [fits.ncli, waits.2.2]; rfl
  have off := fits.off (by rw [waits.2.2]; decide)
  have same : ((s.core c).cpu.pushcli (s.core c).cpu.flag).popcli = .ok (s.core c).cpu := by
    rcases cpu : (s.core c).cpu with ⟨n, intena, flag⟩
    rw [cpu] at ncli off
    cases ncli
    cases off
    rfl
  unfold Machine.swtch
  simp only [same]
  refine ⟨_, rfl, fun t done => ?_⟩
  obtain ⟨cpu, resumed, rfl⟩ := Option.map_eq_some_iff.mp done
  clear done
  obtain ⟨before, owed, rfl⟩ : ∃ before, (s.thread p).phase.owed = some before ∧
      cpu = { (s.core c).cpu with intena := before } := by
    cases phase : (s.thread p).phase with
    | new =>
      rw [phase] at resumed
      cases resumed
      exact ⟨true, rfl, by rw [← enabled]⟩
    | away intena =>
      rw [phase] at resumed
      cases resumed
      exact ⟨intena, rfl, rfl⟩
    | running => simp [phase, Phase.resume] at resumed
  obtain ⟨rests, between, saved⟩ := old.resting p before owed
  refine old.put (fun c' here => ?_) (by simp [eq_comm]) (.thread p rfl ?_) (by simp [Phase.owed])
  · cases (old.runs here).owed.symm.trans owed
  · rw [update_self]
    refine ⟨⟨?_, fun _ => off, by simp [between], rests.frames⟩, fun _ => saved.symm, rfl, rfl,
      waits⟩
    rw [← rests.ncli, ncli]

theorem sched (old : Consistent s) (proc : (s.core c).proc = some p) :
    ∀ t ∈ s.sched c p, Consistent t := by
  intro t left
  obtain ⟨⟨between, ncli, off⟩, ⟨⟩⟩ := Option.ite_none_right_eq_some.mp left
  obtain ⟨fits, restores, -, place, waits⟩ := old.runs proc
  refine old.put (fun c' here => old.apart c' c p here proc) nofun (.scheduler rfl ?_ ?_) ?_
  · exact ⟨by simp [ncli, waits.2.2], fun _ => off, by simp [waits.2.1], by simp [waits.1]⟩
  · simpa [place, Place.Expects] using waits
  · rintro before ⟨⟩
    refine ⟨⟨ncli ▸ fits.ncli, fun _ => rfl, by simp [between], fits.frames⟩, between, ?_⟩
    exact (restores (by have := fits.ncli; omega)).symm

theorem op (old : Consistent s) (c : γ) (o : Op) : Safe (s.step (.op c o)) := by
  simp only [Machine.step]
  cases proc : (s.core c).proc with
  | none =>
    obtain ⟨fits, expects⟩ := old.scheduler proc
    simp only
    split_ifs with own
    · exact ⟨none, rfl, nofun⟩
    · obtain ⟨done, ran, kept⟩ := fits.run o
      rw [ran]
      refine ⟨_, rfl, fun t moved => ?_⟩
      obtain ⟨⟨cpu, k⟩, rfl, rfl⟩ := Option.map_eq_some_iff.mp moved
      obtain ⟨after, -, inner⟩ := kept cpu k rfl
      obtain ⟨base, outside⟩ := inner (by tauto)
      refine old.set rfl after ?_
      cases place : (s.core c).place <;> simp only [place, Place.Expects, base] at expects ⊢
      case sti | tick | look => exact expects
      case choose =>
        have := outside expects.1.1
        have := expects.1.2.2
        omega
      case newround =>
        have := outside expects.1
        have := expects.2.2
        omega
  | some p =>
    obtain ⟨fits, restores, owed, place, waits⟩ := old.runs proc
    obtain ⟨done, ran, kept⟩ := fits.run o
    simp only [ran]
    refine ⟨_, rfl, fun t moved => ?_⟩
    obtain ⟨⟨cpu, k⟩, rfl, rfl⟩ := Option.map_eq_some_iff.mp moved
    obtain ⟨after, still, -⟩ := kept cpu k rfl
    refine old.put (fun c' here => old.apart c' c p here proc) ?_ (.thread p rfl ?_) ?_
    · simp [eq_comm]
    · rw [update_self]
      exact ⟨after, still restores, owed, place, waits⟩
    · simp [owed]

theorem step (old : Consistent s) (move : Move γ ι) : Safe (s.step move) := by
  cases move with
  | op c o => exact old.op c o
  | sched c =>
    refine ⟨_, rfl, fun t left => ?_⟩
    obtain ⟨p, proc, left⟩ := Option.bind_eq_some_iff.mp left
    exact old.sched proc t left
  | scheduler c =>
    simp only [Machine.step]
    split_ifs with own
    · obtain ⟨core, ran, next⟩ := old.part own.1 own.2
      rw [ran]
      refine ⟨_, rfl, ?_⟩
      rintro t ⟨⟩
      exact next
    · exact ⟨none, rfl, nofun⟩
  | swtch c p =>
    simp only [Machine.step]
    split_ifs with own
    · exact old.swtch own.1 own.2 p
    · exact ⟨none, rfl, nofun⟩

end Consistent

/-- On whichever processor a thread runs, `ncli` is its nesting, interrupts are off inside of it,
and its outermost `popcli` restores the flag from before its outermost `pushcli`.  Neither panic of
`popcli` is reached. -/
theorem interrupts_restored (reached : s.Reaches) :
    (∀ move panic, s.step move ≠ .error panic) ∧
    ∀ c p, (s.core c).proc = some p → let cpu := (s.core c).cpu; let k := (s.thread p).stack
      cpu.ncli = k.depth ∧ (0 < k.depth → cpu.flag = false) ∧
      (0 < k.depth → k.eflags = none → ∃ t, s.step (.op c .popcli) = .ok (some t) ∧
        (t.thread p).stack.depth = k.depth - 1 ∧
        (k.depth = 1 → (t.core c).cpu.flag = k.before)) := by
  have consistent : Consistent s := by
    refine reached.invariant (fun s starts => starts.consistent) fun s move t old _ taken => ?_
    obtain ⟨done, ran, kept⟩ := old.step move
    cases ran.symm.trans taken
    exact kept t rfl
  refine ⟨fun move panic failed => ?_, fun c p proc => ?_⟩
  · obtain ⟨done, ran, -⟩ := consistent.step move
    cases ran.symm.trans failed
  · obtain ⟨fits, restores, -⟩ := consistent.runs proc
    refine ⟨fits.ncli, fits.off, fun inside between => ?_⟩
    simp only [Machine.step, proc, Op.run, inside, between, fits.popcli inside]
    refine ⟨_, rfl, ?_, fun outermost => ?_⟩
    · simp [Machine.put]
    · simp [Machine.put, outermost, restores inside]

/-- A thread that has entered `sched` on one processor leaves it on another, where its `popcli`
enables interrupts. -/
theorem resumed_enabled : ∃ s t : Machine Bool Unit, s.Reaches ∧ (s.core true).proc = some () ∧
    s.step (.op true .popcli) = .ok (some t) ∧ (t.core true).cpu.flag = true := by
  have starts : Machine.Starts (γ := Bool) (ι := Unit)
      ⟨fun _ => ⟨⟨0, false, false⟩, ⟨none, [], 0, true⟩, .sti, none⟩,
        fun _ => ⟨⟨none, [], 1, true⟩, .new⟩⟩ :=
    ⟨fun _ => rfl, fun _ => rfl, fun _ => rfl, fun _ => rfl, fun _ => rfl⟩
  have next (move : Move Bool Unit) {s t : Machine Bool Unit} (reached : s.Reaches)
      (taken : s.step move = .ok (some t)) : t.Reaches := .next reached trivial taken
  have first := next (.swtch false ()) (next (.scheduler false) (next (.scheduler false)
    (next (.scheduler false) (next (.scheduler false) (next (.scheduler false)
    (.start starts) rfl) rfl) rfl) rfl) rfl) rfl
  have away := next (.sched false) (next (.op false .cli) (next (.op false .readeflags)
    (next (.op false .popcli) first rfl) rfl) rfl) rfl
  have reached := next (.swtch true ()) (next (.scheduler true) (next (.scheduler true)
    (next (.scheduler true) (next (.scheduler true) (next (.scheduler true)
    away rfl) rfl) rfl) rfl) rfl) rfl
  obtain ⟨-, -, popped⟩ := (interrupts_restored reached).2 true () rfl
  obtain ⟨t, taken, -, flag⟩ := popped (by decide) rfl
  exact ⟨_, t, reached, rfl, taken, flag rfl⟩

end Xv6.Cli
