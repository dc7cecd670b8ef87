/-
Purpose: Threads that share data under spin locks and wait for each other with
  sleep and wakeup, one step per lock operation; rules for assertions at
  program points and for who has a lock.
-/
import Mathlib.Logic.Function.Basic
import Mathlib.Tactic.Simps.Basic
import Xv6.Lib.Run

namespace Monitor

open Function
open Or (inl inr)

variable {ι κ χ δ π : Type}

/-! ## Programs and their steps -/

/-- Where a thread stands in `sleep`.  One that sleeps with lock `l` first
takes the lock of the thread table, then gives `l` back, and only then is
marked asleep; awake again, it takes `l` before it goes on. -/
inductive Mode (κ χ : Type) where
  | running
  | dropping (c : χ) (l : κ)
  | dozing (c : χ) (l : κ)
  | asleep (c : χ) (l : κ)
  | ready (l : κ)
  | returning (l : κ)
deriving Repr, DecidableEq

/-- What a thread does next.  `act` computes on the shared data and reads the
thread's own kill flag; `wakeup1` is `wakeup` for a thread that has the lock of
the thread table, and `pardon` clears the kill flag of another under that lock;
`choose` goes to any program point that `ok` admits. -/
inductive Instr (ι κ χ δ π : Type) where
  | acquire (l : κ) (next : π)
  | release (l : κ) (next : π)
  | act (run : Bool → δ → π × δ)
  | wakeup (c : χ) (next : π)
  | wakeup1 (c : χ) (next : π)
  | sleep (c : χ) (l : κ) (next : π)
  | kill (victim : ι) (next : π)
  | pardon (victim : ι) (next : π)
  | choose (ok : δ → π → Bool)

/-- The program point after an instruction that leaves the data alone. -/
def Instr.next : Instr ι κ χ δ π → Option π
  | .acquire _ next | .release _ next | .wakeup _ next | .wakeup1 _ next
  | .sleep _ _ next | .kill _ next | .pardon _ next => some next
  | .act _ | .choose _ => none

/-- The lock of the thread table and the instruction of each thread at each
program point. -/
structure Program (ι κ χ δ π : Type) where
  table : κ
  code : ι → π → Instr ι κ χ δ π

structure State (ι κ χ δ π : Type) where
  data : δ
  lock : κ → Option ι
  pc : ι → π
  mode : ι → Mode κ χ
  killed : ι → Bool

/-- A sleeper on `c` becomes runnable. -/
def Mode.wake [DecidableEq χ] (c : χ) : Mode κ χ → Mode κ χ
  | .asleep c' l => if c' = c then .ready l else .asleep c' l
  | mode => mode

/-- Any sleeper becomes runnable. -/
def Mode.rouse : Mode κ χ → Mode κ χ
  | .asleep _ l => .ready l
  | mode => mode

/-- A thread in `sleep` sleeps with this lock. -/
def Mode.lock : Mode κ χ → Option κ
  | .running => none
  | .dropping _ l | .dozing _ l | .asleep _ l | .ready l | .returning l =>
    some l

/-- Between taking the lock of the table in `sleep` and being asleep. -/
def Mode.falling : Mode κ χ → Bool
  | .dropping _ _ | .dozing _ _ => true
  | _ => false

theorem Mode.wake_cases [DecidableEq χ] (c : χ) (mode : Mode κ χ) :
    mode.wake c = mode ∧ (∀ l, mode ≠ .asleep c l) ∨
      ∃ l, mode = .asleep c l ∧ mode.wake c = .ready l := by
  cases mode with
  | asleep c' l =>
    by_cases same : c' = c
    · subst same
      exact inr ⟨l, rfl, if_pos rfl⟩
    · refine inl ⟨if_neg same, ?_⟩
      intro l' equal
      cases equal
      exact same rfl
  | _ => exact inl ⟨rfl, by simp⟩

theorem Mode.rouse_cases (mode : Mode κ χ) : mode.rouse = mode ∧ (∀ c l, mode ≠ .asleep c l) ∨
      ∃ c l, mode = .asleep c l ∧ mode.rouse = .ready l := by
  cases mode with
  | asleep c l => exact inr ⟨c, l, rfl, rfl⟩
  | _ => exact inl ⟨rfl, by simp⟩

section Step

variable [DecidableEq ι] [DecidableEq κ] [DecidableEq χ]

namespace State

/-- Thread `t` goes to a program point. -/
@[simps] def goto (s : State ι κ χ δ π) (t : ι) (p : π) : State ι κ χ δ π :=
  { s with pc := update s.pc t p }

/-- Lock `l` changes hands. -/
@[simps] def setLock (s : State ι κ χ δ π) (l : κ) (holder : Option ι) : State ι κ χ δ π :=
  { s with lock := update s.lock l holder }

/-- Thread `t` goes to a mode. -/
@[simps] def setMode (s : State ι κ χ δ π) (t : ι) (mode : Mode κ χ) : State ι κ χ δ π :=
  { s with mode := update s.mode t mode }

/-- Every sleeper on `c` becomes runnable. -/
@[simps] def wakeAll (s : State ι κ χ δ π) (c : χ) : State ι κ χ δ π :=
  { s with mode := fun u => (s.mode u).wake c }

/-- The kill flag of `v` is set and `v` becomes runnable if it sleeps. -/
@[simps] def slay (s : State ι κ χ δ π) (v : ι) : State ι κ χ δ π :=
  { s with
    killed := update s.killed v true
    mode := update s.mode v (s.mode v).rouse }

/-- The kill flag of `v` is cleared. -/
@[simps] def pardon (s : State ι κ χ δ π) (v : ι) : State ι κ χ δ π :=
  { s with killed := update s.killed v false }

end State

/-- A step of thread `t` by its instruction; `q` is where it goes when it has
a choice. -/
def execute (P : Program ι κ χ δ π) (s : State ι κ χ δ π) (t : ι) (q : π) :
    Option (State ι κ χ δ π) :=
  match P.code t (s.pc t) with
  | .acquire l next =>
    if s.lock l = none then some ((s.setLock l (some t)).goto t next)
    else none
  | .release l next =>
    if s.lock l = some t then some ((s.setLock l none).goto t next)
    else none
  | .act run =>
    some { s.goto t (run (s.killed t) s.data).1 with
      data := (run (s.killed t) s.data).2 }
  | .wakeup c next =>
    if s.lock P.table = none then some ((s.wakeAll c).goto t next)
    else none
  | .wakeup1 c next =>
    if s.lock P.table = some t then some ((s.wakeAll c).goto t next)
    else none
  | .sleep c l next =>
    if l = P.table then
      if s.lock P.table = some t then
        some (((s.setLock P.table none).setMode t (.asleep c l)).goto t next)
      else
        none
    else if s.lock P.table = none then
      some (((s.setLock P.table (some t)).setMode t (.dropping c l)).goto t next)
    else
      none
  | .kill v next =>
    if s.lock P.table = none then some ((s.slay v).goto t next) else none
  | .pardon v next =>
    if s.lock P.table = some t then some ((s.pardon v).goto t next)
    else none
  | .choose ok => if ok s.data q then some (s.goto t q) else none

/-- One step of thread `t`. -/
def step (P : Program ι κ χ δ π) (s : State ι κ χ δ π) (label : ι × π) : Option (State ι κ χ δ π) :=
  match s.mode label.1 with
  | .running => execute P s label.1 label.2
  | .dropping c l => some ((s.setLock l none).setMode label.1 (.dozing c l))
  | .dozing c l =>
    some ((s.setLock P.table none).setMode label.1 (.asleep c l))
  | .asleep _ _ => none
  | .ready l =>
    if s.lock P.table = none then
      if l = P.table then
        some ((s.setLock P.table (some label.1)).setMode label.1 .running)
      else
        some (s.setMode label.1 (.returning l))
    else
      none
  | .returning l =>
    if s.lock l = none then
      some ((s.setLock l (some label.1)).setMode label.1 .running)
    else
      none

/-- Everything a step can do, with the guard it passed. -/
inductive Moved (P : Program ι κ χ δ π) (s : State ι κ χ δ π) (t : ι)
    (q : π) : State ι κ χ δ π → Prop where
  | acquire {l : κ} {next : π} (running : s.mode t = .running)
      (code : P.code t (s.pc t) = .acquire l next) (free : s.lock l = none) :
      Moved P s t q ((s.setLock l (some t)).goto t next)
  | release {l : κ} {next : π} (running : s.mode t = .running)
      (code : P.code t (s.pc t) = .release l next)
      (held : s.lock l = some t) :
      Moved P s t q ((s.setLock l none).goto t next)
  | act {run : Bool → δ → π × δ} (running : s.mode t = .running)
      (code : P.code t (s.pc t) = .act run) :
      Moved P s t q
        { s.goto t (run (s.killed t) s.data).1 with
          data := (run (s.killed t) s.data).2 }
  | wakeup {c : χ} {next : π} (running : s.mode t = .running)
      (code : P.code t (s.pc t) = .wakeup c next)
      (free : s.lock P.table = none) :
      Moved P s t q ((s.wakeAll c).goto t next)
  | wakeup1 {c : χ} {next : π} (running : s.mode t = .running)
      (code : P.code t (s.pc t) = .wakeup1 c next)
      (held : s.lock P.table = some t) :
      Moved P s t q ((s.wakeAll c).goto t next)
  | sleepTable {c : χ} {next : π} (running : s.mode t = .running)
      (code : P.code t (s.pc t) = .sleep c P.table next)
      (held : s.lock P.table = some t) :
      Moved P s t q (((s.setLock P.table none).setMode t (.asleep c P.table)).goto t next)
  | sleep {c : χ} {l : κ} {next : π} (running : s.mode t = .running)
      (code : P.code t (s.pc t) = .sleep c l next) (other : l ≠ P.table)
      (free : s.lock P.table = none) :
      Moved P s t q (((s.setLock P.table (some t)).setMode t (.dropping c l)).goto t next)
  | kill {v : ι} {next : π} (running : s.mode t = .running)
      (code : P.code t (s.pc t) = .kill v next)
      (free : s.lock P.table = none) :
      Moved P s t q ((s.slay v).goto t next)
  | pardon {v : ι} {next : π} (running : s.mode t = .running)
      (code : P.code t (s.pc t) = .pardon v next)
      (held : s.lock P.table = some t) :
      Moved P s t q ((s.pardon v).goto t next)
  | choose {ok : δ → π → Bool} (running : s.mode t = .running)
      (code : P.code t (s.pc t) = .choose ok) (admitted : ok s.data q) :
      Moved P s t q (s.goto t q)
  | drop {c : χ} {l : κ} (dropping : s.mode t = .dropping c l) :
      Moved P s t q ((s.setLock l none).setMode t (.dozing c l))
  | doze {c : χ} {l : κ} (dozing : s.mode t = .dozing c l) :
      Moved P s t q ((s.setLock P.table none).setMode t (.asleep c l))
  | resumeTable (ready : s.mode t = .ready P.table) (free : s.lock P.table = none) :
      Moved P s t q ((s.setLock P.table (some t)).setMode t .running)
  | resume {l : κ} (ready : s.mode t = .ready l) (other : l ≠ P.table)
      (free : s.lock P.table = none) :
      Moved P s t q (s.setMode t (.returning l))
  | retake {l : κ} (returning : s.mode t = .returning l) (free : s.lock l = none) :
      Moved P s t q ((s.setLock l (some t)).setMode t .running)

theorem moved_of_execute {P : Program ι κ χ δ π} {s s' : State ι κ χ δ π}
    {t : ι} {q : π} (running : s.mode t = .running)
    (taken : execute P s t q = some s') : Moved P s t q s' := by
  unfold execute at taken
  cases code : P.code t (s.pc t)
  all_goals simp only [code, Option.ite_none_right_eq_some, Option.some.injEq] at taken
  case act run =>
    subst taken
    exact .act running code
  case sleep c l next =>
    split at taken
    all_goals
      rename_i own
      rw [Option.ite_none_right_eq_some, Option.some.injEq] at taken
      obtain ⟨guard, rfl⟩ := taken
    · subst own
      exact .sleepTable running code guard
    · exact .sleep running code own guard
  all_goals obtain ⟨guard, rfl⟩ := taken
  case acquire => exact .acquire running code guard
  case release => exact .release running code guard
  case wakeup => exact .wakeup running code guard
  case wakeup1 => exact .wakeup1 running code guard
  case kill => exact .kill running code guard
  case pardon => exact .pardon running code guard
  case choose => exact .choose running code guard

theorem step_cases {P : Program ι κ χ δ π} {s s' : State ι κ χ δ π} {t : ι}
    {q : π} (taken : step P s (t, q) = some s') : Moved P s t q s' := by
  unfold step at taken
  simp only at taken
  cases mode : s.mode t with
  | running =>
    simp only [mode] at taken
    exact moved_of_execute mode taken
  | dropping c l =>
    simp only [mode, Option.some.injEq] at taken
    subst taken
    exact .drop mode
  | dozing c l =>
    simp only [mode, Option.some.injEq] at taken
    subst taken
    exact .doze mode
  | asleep c l => simp [mode] at taken
  | ready l =>
    simp only [mode, Option.ite_none_right_eq_some] at taken
    obtain ⟨free, taken⟩ := taken
    by_cases own : l = P.table
    · subst own
      simp only [if_true, Option.some.injEq] at taken
      subst taken
      exact .resumeTable mode free
    · simp only [own, if_false, Option.some.injEq] at taken
      subst taken
      exact .resume mode own free
  | returning l =>
    simp only [mode, Option.ite_none_right_eq_some, Option.some.injEq] at taken
    obtain ⟨free, rfl⟩ := taken
    exact .retake mode free

/-- States a program reaches by steps that meet `allowed`. -/
abbrev Runs (P : Program ι κ χ δ π) (init : State ι κ χ δ π → Prop)
    (allowed : State ι κ χ δ π → ι × π → Prop) :
    State ι κ χ δ π → Prop :=
  Reach init (fun s label s' => step P s label = some s') allowed

end Step

section Rules

variable [DecidableEq ι] [DecidableEq κ] [DecidableEq χ]
variable {P : Program ι κ χ δ π} {init : State ι κ χ δ π → Prop}
variable {allowed : State ι κ χ δ π → ι × π → Prop}
variable {s s' : State ι κ χ δ π} {t : ι} {q : π}

/-- What a step does to the data and the program points. -/
theorem Moved.data_pc (moved : Moved P s t q s') : s'.data = s.data ∧ s'.pc = s.pc ∨
    (∃ next, (P.code t (s.pc t)).next = some next ∧ s'.data = s.data ∧ s'.pc = update s.pc t next) ∨
    (∃ ok, P.code t (s.pc t) = .choose ok ∧ ok s.data q ∧
      s'.data = s.data ∧ s'.pc = update s.pc t q) ∨
    ∃ run, s.mode t = .running ∧ P.code t (s.pc t) = .act run ∧
      s'.data = (run (s.killed t) s.data).2 ∧
      s'.pc = update s.pc t (run (s.killed t) s.data).1 := by
  cases moved with
  | acquire _ code _ | release _ code _ | wakeup _ code _
  | wakeup1 _ code _ | sleepTable _ code _ | sleep _ code _ _
  | kill _ code _ | pardon _ code _ =>
    refine inr (inl ⟨_, ?_, rfl, rfl⟩)
    rw [code]
    rfl
  | choose _ code admitted =>
    exact inr (inr (inl ⟨_, code, admitted, rfl, rfl⟩))
  | act running code =>
    exact inr (inr (inr ⟨_, running, code, rfl, rfl⟩))
  | drop _ | doze _ | resumeTable _ _ | resume _ _ _ | retake _ _ =>
    exact inl ⟨rfl, rfl⟩

end Rules

/-! ## Locks -/

section Locks

variable {P : Program ι κ χ δ π} {s s' : State ι κ χ δ π} {t : ι} {q : π}

/-- `holds p` says of the running threads at point `p` that they have lock
`l`; the code takes it and gives it back accordingly, and sleeps with no lock
but the one it hands to `sleep`. -/
structure Locked (P : Program ι κ χ δ π) (l : κ) (holds : π → Prop) : Prop where
  acquire : ∀ t p l' next, P.code t p = .acquire l' next → (holds next ↔ l' = l ∨ holds p)
  release : ∀ t p l' next, P.code t p = .release l' next → (holds next ↔ l' ≠ l ∧ holds p)
  sleep : ∀ t p c l' next, P.code t p = .sleep c l' next →
    (holds p ↔ l' = l) ∧ (holds next ↔ l' = l)
  wakeup : ∀ t p c next, P.code t p = .wakeup c next → (holds next ↔ holds p)
  wakeup1 : ∀ t p c next, P.code t p = .wakeup1 c next → (holds next ↔ holds p)
  kill : ∀ t p v next, P.code t p = .kill v next → (holds next ↔ holds p)
  pardon : ∀ t p v next, P.code t p = .pardon v next → (holds next ↔ holds p)
  act : ∀ t p run killed d, P.code t p = .act run → (holds (run killed d).1 ↔ holds p)
  choose : ∀ t p ok d q, P.code t p = .choose ok → ok d q → (holds q ↔ holds p)

/-- The instruction at a point whose threads have just the lock `held` gives,
or none, leads to a point where they again have what `held` gives. -/
def Instr.keeps (held : π → Option κ) (p : π) : Instr ι κ χ δ π → Prop
  | .acquire l next => held p = none ∧ held next = some l
  | .release l next => held p = some l ∧ held next = none
  | .sleep _ l next => held p = some l ∧ held next = some l
  | .wakeup _ next | .wakeup1 _ next | .kill _ next | .pardon _ next =>
    held next = held p
  | .act run => ∀ killed d, held (run killed d).1 = held p
  | .choose ok => ∀ d q, ok d q → held q = held p

/-- Code that has at most one lock at a time. -/
theorem Locked.of_keeps {held : π → Option κ} (keeps : ∀ t p, (P.code t p).keeps held p) (l : κ) :
    Locked P l (fun p => held p = some l) := by
  have kept : ∀ {t p instr}, P.code t p = instr → instr.keeps held p := by
    rintro t p _ rfl
    exact keeps t p
  constructor
  case acquire | release =>
    intro t p l' next code
    simp [(kept code).1, (kept code).2]
  case sleep =>
    intro t p c l' next code
    simp [(kept code).1, (kept code).2]
  case wakeup | wakeup1 | kill | pardon =>
    intro t p c next code
    rw [show held next = held p from kept code]
  case act =>
    intro t p run killed d code
    rw [kept code killed d]
  case choose =>
    intro t p ok d q code admitted
    rw [kept code d q admitted]

/-- A thread in this mode at this point has lock `l`: it runs at a point that
holds it, or is about to give it back in `sleep`, or is falling asleep, which
it does with the lock of the table. -/
def Owns (P : Program ι κ χ δ π) (l : κ) (holds : π → Prop) (mode : Mode κ χ) (p : π) : Prop :=
  mode = .running ∧ holds p ∨ (∃ c, mode = .dropping c l) ∨ l = P.table ∧ mode.falling = true

/-- The lock discipline of one state. -/
structure Disciplined (P : Program ι κ χ δ π) (l : κ) (holds : π → Prop)
    (s : State ι κ χ δ π) : Prop where
  owner : ∀ t, s.lock l = some t ↔ Owns P l holds (s.mode t) (s.pc t)
  sleeper : ∀ t l', (s.mode t).lock = some l' → (holds (s.pc t) ↔ l' = l)
  other : ∀ t c l', s.mode t = .dropping c l' → l' ≠ P.table

variable {l : κ} {holds : π → Prop}

/-- What `Disciplined` says of one thread, which has the lock or not. -/
def Obeys (P : Program ι κ χ δ π) (l : κ) (holds : π → Prop) (has : Prop) (mode : Mode κ χ)
    (p : π) : Prop :=
  (has ↔ Owns P l holds mode p) ∧ (∀ l', mode.lock = some l' → (holds p ↔ l' = l)) ∧
    ∀ c l', mode = .dropping c l' → l' ≠ P.table

theorem disciplined_iff : Disciplined P l holds s ↔
    ∀ u, Obeys P l holds (s.lock l = some u) (s.mode u) (s.pc u) :=
  ⟨fun kept u => ⟨kept.owner u, kept.sleeper u, kept.other u⟩,
    fun all => ⟨fun u => (all u).1, fun u => (all u).2.1, fun u => (all u).2.2⟩⟩

theorem Obeys.ready {has : Prop} {c : χ} {l' : κ} {p : π}
    (obeys : Obeys P l holds has (.asleep c l') p) : Obeys P l holds has (.ready l') p :=
  ⟨obeys.1.trans (by simp [Owns, Mode.falling]), obeys.2.1, nofun⟩

/-- All threads run, at points that hold no lock, and no lock is taken. -/
structure Fresh (holds : π → Prop) (s : State ι κ χ δ π) : Prop where
  running : ∀ t, s.mode t = .running
  free : ∀ l, s.lock l = none
  outside : ∀ t, ¬ holds (s.pc t)

theorem Fresh.disciplined (fresh : Fresh holds s) : Disciplined P l holds s where
  owner t := by simp [Owns, fresh.free, fresh.running, fresh.outside, Mode.falling]
  sleeper t l' sleeps := by simp [fresh.running, Mode.lock] at sleeps
  other t c l' dropping := by simp [fresh.running] at dropping

theorem Disciplined.exclusive (disciplined : Disciplined P l holds s) {u : ι}
    (ne : u ≠ t) (running : s.mode t = .running) (mine : holds (s.pc t))
    (runs : s.mode u = .running) : ¬ holds (s.pc u) := by
  intro theirs
  have first := (disciplined.owner t).mpr (inl ⟨running, mine⟩)
  have second := (disciplined.owner u).mpr (inl ⟨runs, theirs⟩)
  rw [first] at second
  exact ne (Option.some.inj second).symm

theorem Disciplined.wakeAll [DecidableEq χ] (kept : Disciplined P l holds s) (c : χ) :
    Disciplined P l holds (s.wakeAll c) := by
  refine disciplined_iff.mpr fun u => ?_
  have old := disciplined_iff.mp kept u
  rcases (s.mode u).wake_cases c with ⟨same, -⟩ | ⟨l', asleep, ready⟩
  · simpa [same] using old
  · rw [asleep] at old
    simpa [ready] using old.ready

variable [DecidableEq ι]

namespace Disciplined

/-- Thread `t` changes its mode and point, and takes the lock or gives it back
accordingly. -/
theorem shift (kept : Disciplined P l holds s) {after : State ι κ χ δ π} (mode : Mode κ χ) (p : π)
    (modes : after.mode = update s.mode t mode) (pcs : after.pc = update s.pc t p)
    (lock : after.lock l = s.lock l ∧ (Owns P l holds mode p ↔ Owns P l holds (s.mode t) (s.pc t)) ∨
      s.lock l = none ∧ after.lock l = some t ∧ Owns P l holds mode p ∨
      s.lock l = some t ∧ after.lock l = none ∧ ¬ Owns P l holds mode p)
    (sleeper : ∀ l', mode.lock = some l' → (holds p ↔ l' = l))
    (other : ∀ c l', mode = .dropping c l' → l' ≠ P.table) : Disciplined P l holds after := by
  refine disciplined_iff.mpr fun u => ?_
  have old := disciplined_iff.mp kept u
  rw [modes, pcs]
  by_cases self : u = t
  · subst self
    simp only [update_self]
    refine ⟨?_, sleeper, other⟩
    rcases lock with ⟨same, alike⟩ | ⟨-, taken, owns⟩ | ⟨-, given, lost⟩
    · rw [same, alike]
      exact old.1
    · simp [taken, owns]
    · simp [given, lost]
  · simp only [update_of_ne self]
    refine ⟨Iff.trans ?_ old.1, old.2⟩
    rcases lock with ⟨same, -⟩ | ⟨free, taken, -⟩ | ⟨held, given, -⟩
    · rw [same]
    · simp [free, taken, Ne.symm self]
    · simp [held, given, Ne.symm self]

theorem goto (kept : Disciplined P l holds s)
    {after : State ι κ χ δ π} {next : π} (running : s.mode t = .running)
    (lock : after.lock = s.lock) (modes : after.mode = s.mode) (pcs : after.pc = update s.pc t next)
    (same : holds next ↔ holds (s.pc t)) : Disciplined P l holds after := by
  apply kept.shift (t := t) .running next
  · rw [modes, ← running, update_eq_self]
  · exact pcs
  · left
    rw [lock, running]
    simp [Owns, same]
  · simp [Mode.lock]
  · simp

end Disciplined

theorem Disciplined.slay (kept : Disciplined P l holds s) (v : ι) :
    Disciplined P l holds (s.slay v) := by
  refine disciplined_iff.mpr fun u => ?_
  have old := disciplined_iff.mp kept u
  by_cases same : u = v
  · subst same
    rcases (s.mode u).rouse_cases with ⟨idle, -⟩ | ⟨c, l', asleep, ready⟩
    · simpa [idle] using old
    · rw [asleep] at old
      simpa [ready] using old.ready
  · simpa [same] using old

variable [DecidableEq κ]

theorem Locked.kept_lock (locked : Locked P l holds)
    (kept : Disciplined P l holds s) (running : s.mode t = .running)
    {l' : κ} {next : π} {holder : Option ι}
    (moved : P.code t (s.pc t) = .acquire l' next ∧ s.lock l' = none ∧ holder = some t ∨
      P.code t (s.pc t) = .release l' next ∧ s.lock l' = some t ∧ holder = none) :
    Disciplined P l holds ((s.setLock l' holder).goto t next) := by
  apply kept.shift (t := t) .running next
  case modes =>
    rw [← running]
    exact (update_eq_self t s.mode).symm
  case pcs => rfl
  case sleeper => simp [Mode.lock]
  case other => simp
  rcases moved with ⟨code, free, rfl⟩ | ⟨code, held, rfl⟩
  · have annotation := locked.acquire t _ l' next code
    by_cases same : l' = l
    · subst same
      refine inr (inl ⟨free, by simp, inl ⟨rfl, ?_⟩⟩)
      exact annotation.mpr (inl rfl)
    · refine inl ⟨by simp [Ne.symm same], ?_⟩
      simp [Owns, running, annotation, same]
  · have annotation := locked.release t _ l' next code
    by_cases same : l' = l
    · subst same
      refine inr (inr ⟨held, by simp, ?_⟩)
      simp [Owns, annotation, Mode.falling]
    · refine inl ⟨by simp [Ne.symm same], ?_⟩
      simp [Owns, running, annotation, same]

theorem Locked.kept_sleep (locked : Locked P l holds)
    (kept : Disciplined P l holds s) (running : s.mode t = .running) {c : χ} {l' : κ} {next : π}
    (code : P.code t (s.pc t) = .sleep c l' next) :
    (l' = P.table → s.lock P.table = some t → Disciplined P l holds
        (((s.setLock P.table none).setMode t (.asleep c l')).goto t next)) ∧
    (l' ≠ P.table → s.lock P.table = none → Disciplined P l holds
        (((s.setLock P.table (some t)).setMode t (.dropping c l')).goto t next)) := by
  obtain ⟨here, there⟩ := locked.sleep t _ c l' next code
  constructor
  · rintro rfl held
    apply kept.shift (t := t) (.asleep c P.table) next
    case modes | pcs => rfl
    case sleeper => exact fun _ sleeps => Option.some.inj sleeps ▸ there
    case other => simp
    by_cases same : l = P.table
    · subst same
      exact inr (inr ⟨held, by simp, by simp [Owns, Mode.falling]⟩)
    · refine inl ⟨by simp [same], ?_⟩
      simp [Owns, running, here, Ne.symm same, Mode.falling]
  · intro other free
    apply kept.shift (t := t) (.dropping c l') next
    case modes | pcs => rfl
    case sleeper => exact fun _ sleeps => Option.some.inj sleeps ▸ there
    case other =>
      intro c' l'' dropping
      cases dropping
      exact other
    by_cases same : l = P.table
    · subst same
      exact inr (inl ⟨free, by simp, by simp [Owns, Mode.falling]⟩)
    · refine inl ⟨by simp [same], ?_⟩
      simp [Owns, running, here, same, Mode.falling]

theorem Disciplined.asleep (kept : Disciplined P l holds s) {c : χ} {l' : κ} :
    (s.mode t = .dropping c l' → Disciplined P l holds
      ((s.setLock l' none).setMode t (.dozing c l'))) ∧
    (s.mode t = .dozing c l' → Disciplined P l holds
      ((s.setLock P.table none).setMode t (.asleep c l'))) := by
  have pcs : s.pc = update s.pc t (s.pc t) := (update_eq_self t s.pc).symm
  constructor
  · intro dropping
    have ne := kept.other t c l' dropping
    have mine := kept.sleeper t l' (by rw [dropping]; rfl)
    apply kept.shift (t := t) (.dozing c l') (s.pc t)
    case modes => rfl
    case pcs => exact pcs
    case sleeper => exact fun _ sleeps => Option.some.inj sleeps ▸ mine
    case other => simp
    by_cases same : l' = l
    · subst same
      refine inr (inr ⟨?_, by simp, ?_⟩)
      · exact (kept.owner t).mpr (inr (inl ⟨c, dropping⟩))
      · simp [Owns, Mode.falling, ne]
    · refine inl ⟨by simp [Ne.symm same], ?_⟩
      simp [Owns, dropping, Mode.falling, same]
  · intro dozing
    have mine := kept.sleeper t l' (by rw [dozing]; rfl)
    apply kept.shift (t := t) (.asleep c l') (s.pc t)
    case modes => rfl
    case pcs => exact pcs
    case sleeper => exact fun _ sleeps => Option.some.inj sleeps ▸ mine
    case other => simp
    by_cases same : l = P.table
    · subst same
      refine inr (inr ⟨?_, by simp, ?_⟩)
      · apply (kept.owner t).mpr
        exact inr (inr ⟨rfl, by rw [dozing]; rfl⟩)
      · simp [Owns, Mode.falling]
    · refine inl ⟨by simp [same], ?_⟩
      simp [Owns, dozing, Mode.falling, same]

theorem Disciplined.awake (kept : Disciplined P l holds s) {l' : κ} :
    (s.mode t = .ready l' → l' ≠ P.table → Disciplined P l holds (s.setMode t (.returning l'))) ∧
    ((s.mode t = .ready l' ∨ s.mode t = .returning l') → s.lock l' = none → Disciplined P l holds
        ((s.setLock l' (some t)).setMode t .running)) := by
  have pcs : s.pc = update s.pc t (s.pc t) := (update_eq_self t s.pc).symm
  constructor
  · intro ready other
    have mine := kept.sleeper t l' (by rw [ready]; rfl)
    apply kept.shift (t := t) (.returning l') (s.pc t)
    case modes => rfl
    case pcs => exact pcs
    case sleeper => exact fun _ sleeps => Option.some.inj sleeps ▸ mine
    case other => simp
    exact inl ⟨rfl, by simp [Owns, ready, Mode.falling]⟩
  · intro waking free
    have mine := kept.sleeper t l' (by
      rcases waking with ready | returning
      · rw [ready]
        rfl
      · rw [returning]
        rfl)
    apply kept.shift (t := t) .running (s.pc t)
    case modes => rfl
    case pcs => exact pcs
    case sleeper => simp [Mode.lock]
    case other => simp
    by_cases same : l' = l
    · subst same
      refine inr (inl ⟨free, by simp, inl ⟨rfl, ?_⟩⟩)
      exact mine.mpr rfl
    · refine inl ⟨by simp [Ne.symm same], ?_⟩
      rcases waking with ready | returning
      · simp [Owns, ready, Mode.falling, mine, same]
      · simp [Owns, returning, Mode.falling, mine, same]

variable [DecidableEq χ]

/-- Code that keeps to the annotation keeps the discipline. -/
theorem Locked.kept (locked : Locked P l holds)
    (kept : Disciplined P l holds s) (moved : Moved P s t q s') : Disciplined P l holds s' := by
  cases moved with
  | acquire running code free =>
    exact locked.kept_lock kept running (inl ⟨code, free, rfl⟩)
  | release running code held =>
    exact locked.kept_lock kept running (inr ⟨code, held, rfl⟩)
  | act running code =>
    refine kept.goto running rfl rfl rfl ?_
    exact locked.act t _ _ _ _ code
  | @wakeup c next running code free =>
    refine (kept.wakeAll c).goto (t := t) (by simp [running, Mode.wake]) rfl rfl rfl ?_
    exact locked.wakeup t _ c next code
  | @wakeup1 c next running code held =>
    refine (kept.wakeAll c).goto (t := t) (by simp [running, Mode.wake]) rfl rfl rfl ?_
    exact locked.wakeup1 t _ c next code
  | @kill v next running code free =>
    have awake : (s.slay v).mode t = .running := by
      by_cases same : t = v
      · subst same
        simp [running, Mode.rouse]
      · simp [same, running]
    refine (kept.slay v).goto awake rfl rfl rfl ?_
    exact locked.kill t _ v next code
  | @pardon v next running code held =>
    refine kept.goto running rfl rfl rfl ?_
    exact locked.pardon t _ v next code
  | choose running code admitted =>
    refine kept.goto running rfl rfl rfl ?_
    exact locked.choose t _ _ _ _ code admitted
  | sleepTable running code held =>
    exact (locked.kept_sleep kept running code).1 rfl held
  | sleep running code other free =>
    exact (locked.kept_sleep kept running code).2 other free
  | drop dropping => exact kept.asleep.1 dropping
  | doze dozing => exact kept.asleep.2 dozing
  | resumeTable ready free => exact kept.awake.2 (inl ready) free
  | resume ready other free => exact kept.awake.1 ready other
  | retake returning free => exact kept.awake.2 (inr returning) free

theorem Locked.disciplined {init : State ι κ χ δ π → Prop}
    {allowed : State ι κ χ δ π → ι × π → Prop} (locked : Locked P l holds)
    (initially : ∀ s, init s → Fresh holds s)
    (reached : Runs P init allowed s) : Disciplined P l holds s := by
  apply reached.invariant
  · intro s initial
    exact (initially s initial).disciplined
  · rintro s ⟨t, q⟩ s' kept - taken
    exact locked.kept kept (step_cases taken)

end Locks

/-! ## Assertions at program points -/

/-- What the instruction of thread `t` at point `p` does to the assertions. -/
def Instr.steps (global : δ → Prop) (here : ι → π → δ → Prop) (t : ι)
    (p : π) : Instr ι κ χ δ π → Prop
  | .acquire _ next | .release _ next | .wakeup _ next | .wakeup1 _ next
  | .sleep _ _ next | .kill _ next | .pardon _ next =>
    ∀ d, global d → here t p d → here t next d
  | .act run => ∀ killed d, global d → here t p d →
      global (run killed d).2 ∧ here t (run killed d).1 (run killed d).2
  | .choose ok => ∀ d q, ok d q → global d → here t p d → here t q d

/-- `here t p d` is what thread `t` knows of the data at program point `p`.
Other threads do not disturb it, where two threads that both have lock `l`
need not be looked at, unless `p` is a point at which threads sleep. -/
structure Outline (P : Program ι κ χ δ π) (l : κ) (holds rests : π → Prop)
    (global : δ → Prop) (here : ι → π → δ → Prop) : Prop where
  locked : Locked P l holds
  sleeps : ∀ t p c l' next, P.code t p = .sleep c l' next → rests next
  steps : ∀ t p, (P.code t p).steps global here t p
  quiet : ∀ t p run killed d, P.code t p = .act run → global d →
    here t p d → ∀ u q, u ≠ t → (holds p → holds q → rests q) →
    here u q d → here u q (run killed d).2

/-- The assertions of an outline hold, and who does not run rests. -/
structure Asserted (rests : π → Prop) (global : δ → Prop)
    (here : ι → π → δ → Prop) (s : State ι κ χ δ π) : Prop where
  data : global s.data
  known : ∀ t, here t (s.pc t) s.data
  resting : ∀ t, s.mode t ≠ .running → rests (s.pc t)

section Outlines

variable {P : Program ι κ χ δ π} {s s' : State ι κ χ δ π} {t : ι} {q : π}
variable {l : κ} {holds rests : π → Prop} {global : δ → Prop}
variable {here : ι → π → δ → Prop}

theorem Instr.steps_next {instr : Instr ι κ χ δ π} {p next : π} {d : δ}
    (steps : instr.steps global here t p) (follows : instr.next = some next)
    (holds : global d) (known : here t p d) : here t next d := by
  cases instr with
  | act | choose => cases follows
  | _ =>
    cases follows
    exact steps d holds known

variable [DecidableEq ι]

theorem stopped_goto {mode : ι → Mode κ χ} {next : π} {u : ι}
    (running : mode t = .running) (stopped : mode u ≠ .running) :
    update s.pc t next u = s.pc u := by
  have ne : u ≠ t := by
    rintro rfl
    exact stopped running
  rw [update_of_ne ne]

variable [DecidableEq κ] [DecidableEq χ]

/-- A thread that does not run after a step did not run before it, and is
where it was, or has just called `sleep`. -/
theorem Moved.stopped (moved : Moved P s t q s') {u : ι} (stopped : s'.mode u ≠ .running) :
    s.mode u ≠ .running ∧ s'.pc u = s.pc u ∨ ∃ c l' next, P.code t (s.pc t) = .sleep c l' next ∧
        s'.pc u = next := by
  cases moved with
  | acquire running _ _ | release running _ _ | act running _
  | choose running _ _ | pardon running _ _ =>
    exact inl ⟨stopped, stopped_goto running stopped⟩
  | @wakeup c _ running _ _ | @wakeup1 c _ running _ _ =>
    have before : s.mode u ≠ .running := by
      intro ran
      simp [ran, Mode.wake] at stopped
    exact inl ⟨before, stopped_goto running before⟩
  | @kill v _ running _ _ =>
    have before : s.mode u ≠ .running := by
      intro ran
      by_cases same : u = v
      · subst same
        simp [ran, Mode.rouse] at stopped
      · simp [same, ran] at stopped
    exact inl ⟨before, stopped_goto running before⟩
  | @sleepTable c next running code _ | @sleep c _ next running code _ _ =>
    by_cases same : u = t
    · subst same
      exact inr ⟨c, _, next, code, by simp⟩
    · exact inl ⟨by simpa [same] using stopped, by simp [same]⟩
  | drop mode | doze mode | resumeTable mode _ | resume mode _ _
  | retake mode _ =>
    left
    by_cases same : u = t
    · subst same
      exact ⟨by simp [mode], rfl⟩
    · exact ⟨by simpa [same] using stopped, rfl⟩

theorem Outline.kept (outline : Outline P l holds rests global here)
    (disciplined : Disciplined P l holds s)
    (asserted : Asserted rests global here s) (moved : Moved P s t q s') :
    Asserted rests global here s' := by
  have resting : ∀ u, s'.mode u ≠ .running → rests (s'.pc u) := by
    intro u stopped
    rcases moved.stopped stopped with ⟨before, same⟩ | ⟨c, l', next, code, here⟩
    · rw [same]
      exact asserted.resting u before
    · rw [here]
      exact outline.sleeps t _ c l' next code
  have steps := outline.steps t (s.pc t)
  refine ⟨?_, ?_, resting⟩
  all_goals
    rcases moved.data_pc with
      ⟨data, pc⟩ | ⟨next, code, data, pc⟩ | ⟨ok, code, admitted, data, pc⟩ |
      ⟨run, running, code, data, pc⟩
  · exact data ▸ asserted.data
  · exact data ▸ asserted.data
  · exact data ▸ asserted.data
  · rw [code] at steps
    rw [data]
    exact (steps _ _ asserted.data (asserted.known t)).1
  · rw [data, pc]
    exact asserted.known
  · rw [data, pc]
    exact (Function.forall_update_iff s.pc fun u p => here u p s.data).mpr
      ⟨Instr.steps_next steps code asserted.data (asserted.known t), fun u _ => asserted.known u⟩
  · rw [data, pc]
    rw [code] at steps
    exact (Function.forall_update_iff s.pc fun u p => here u p s.data).mpr
      ⟨steps _ _ admitted asserted.data (asserted.known t), fun u _ => asserted.known u⟩
  · rw [data, pc]
    rw [code] at steps
    refine (Function.forall_update_iff s.pc fun u p => here u p (run (s.killed t) s.data).2).mpr
      ⟨(steps _ _ asserted.data (asserted.known t)).2, fun u ne => ?_⟩
    apply outline.quiet t _ run _ _ code asserted.data (asserted.known t) u
      _ ne _ (asserted.known u)
    intro mine theirs
    apply asserted.resting u
    intro runs
    exact disciplined.exclusive ne running mine runs theirs

/-- The assertions of an outline hold in every state reached. -/
theorem Outline.asserted {init : State ι κ χ δ π → Prop} {allowed : State ι κ χ δ π → ι × π → Prop}
    (outline : Outline P l holds rests global here)
    (initially : ∀ s, init s → Fresh holds s ∧ global s.data ∧ ∀ t, here t (s.pc t) s.data)
    (reached : Runs P init allowed s) : Asserted rests global here s := by
  induction reached with
  | @start s initial =>
    obtain ⟨fresh, data, known⟩ := initially s initial
    exact ⟨data, known, fun t stopped => absurd (fresh.running t) stopped⟩
  | @next s s' label reached _ taken ih =>
    have disciplined := outline.locked.disciplined
      (fun s initial => (initially s initial).1) reached
    exact outline.kept disciplined ih (step_cases taken)

end Outlines

end Monitor
