/-
Purpose: Rules for sleep and wakeup: a channel whose users wake it whenever
  they end what its sleepers wait for loses no wakeup, and a thread that tests
  its kill flag before it sleeps is not asleep when killed.
-/
import Xv6.Lib.Monitor

namespace Monitor

open Mode
open Function (update update_self update_of_ne update_eq_self)
open Or (inl inr)

variable {ι κ χ δ π : Type}

/-! ## Channels -/

/-- The thread sleeps on `c` or is about to. -/
def Mode.waits (c : χ) : Mode κ χ → Prop
  | .dropping c' _ | .dozing c' _ | .asleep c' _ => c' = c
  | _ => False

/-- Channel `c`, used with lock `l` to wait while `cond` holds.  A thread at a
`sure` point has the lock and has seen `cond`; one at an `owes` point has the
lock and wakes `c` before it gives the lock back. -/
structure Guarded (P : Program ι κ χ δ π) (l : κ) (c : χ)
    (holds owes sure : π → Prop) (cond : δ → Prop) : Prop where
  other : l ≠ P.table
  locked : Locked P l holds
  sureHolds : ∀ p, sure p → holds p
  owesHolds : ∀ p, owes p → holds p
  sleeps : ∀ t p l' next, P.code t p = .sleep c l' next → sure p
  rests : ∀ t p c' l' next, P.code t p = .sleep c' l' next → ¬ owes p ∧ ¬ sure next
  moves : ∀ t p next, (P.code t p).next = some next → (sure next → sure p) ∧
      (owes p → owes next ∨ P.code t p = .wakeup c next ∨ P.code t p = .wakeup1 c next)
  chooses : ∀ t p ok d q, P.code t p = .choose ok → ok d q → ¬ sure q ∧ (owes p → owes q)
  acts : ∀ t p run killed d, P.code t p = .act run →
    (sure (run killed d).1 → cond (run killed d).2) ∧ (owes p → owes (run killed d).1) ∧
      (¬ holds p → cond d → cond (run killed d).2)

/-- Whoever waits on `c` has reason to, or will be woken before the lock is
free. -/
structure Attended (P : Program ι κ χ δ π) (c : χ) (owes sure : π → Prop)
    (cond : δ → Prop) (s : State ι κ χ δ π) : Prop where
  knows : ∀ t, s.mode t = .running → sure (s.pc t) → cond s.data
  dull : ∀ t, s.mode t ≠ .running → ¬ sure (s.pc t)
  waits : ∀ t, (s.mode t).waits c → cond s.data ∨ ∃ u, s.mode u = .running ∧ owes (s.pc u)

section Channels

variable {P : Program ι κ χ δ π} {s s' after : State ι κ χ δ π} {t : ι} {q : π}
variable {l : κ} {c : χ} {holds tabled owes sure : π → Prop}
variable {cond : δ → Prop}
variable {init : State ι κ χ δ π → Prop} {allowed : State ι κ χ δ π → ι × π → Prop}

theorem Mode.wake_running [DecidableEq χ] (c' : χ) (mode : Mode κ χ) :
    (mode.wake c' = .running ↔ mode = .running) ∧ ((mode.wake c').waits c → mode.waits c) := by
  rcases mode.wake_cases c' with ⟨same, -⟩ | ⟨l', asleep, ready⟩
  · rw [same]
    exact ⟨Iff.rfl, id⟩
  · rw [ready, asleep]
    exact ⟨by simp, fun waits => waits.elim⟩

theorem Mode.rouse_running (mode : Mode κ χ) : (mode.rouse = .running ↔ mode = .running) ∧
      (mode.rouse.waits c → mode.waits c) := by
  rcases mode.rouse_cases with ⟨same, -⟩ | ⟨c', l', asleep, ready⟩
  · rw [same]
    exact ⟨Iff.rfl, id⟩
  · rw [ready, asleep]
    exact ⟨by simp, fun waits => waits.elim⟩

theorem Mode.waits_stopped {mode : Mode κ χ} (waiting : mode.waits c) : mode ≠ .running := by
  rintro rfl
  exact waiting

/-- Nobody waits on a channel that is woken while no other thread has the
lock of the table. -/
theorem Disciplined.nobody [DecidableEq χ] (table : Disciplined P P.table tabled s)
    (taken : s.lock P.table = none ∨ s.lock P.table = some t ∧ s.mode t = .running) (u : ι) :
    ¬ ((s.mode u).wake c).waits c := by
  intro waiting
  have falling : (s.mode u).falling = true := by
    cases mode : s.mode u with
    | asleep c' l' =>
      rw [mode] at waiting
      by_cases same : c' = c
      · simp [wake, same, waits] at waiting
      · simp [wake, same, waits] at waiting
    | dropping c' l' => rfl
    | dozing c' l' => rfl
    | _ =>
      rw [mode] at waiting
      exact waiting.elim
  have held := (table.owner u).mpr (inr (inr ⟨rfl, falling⟩))
  rcases taken with free | ⟨mine, running⟩
  · rw [free] at held
    cases held
  · rw [mine] at held
    cases held
    rw [running] at falling
    cases falling

variable [DecidableEq ι]

theorem Attended.goto (attended : Attended P c owes sure cond s)
    {next : π} (running : s.mode t = .running) (data : after.data = s.data)
    (pcs : after.pc = update s.pc t next)
    (modes : ∀ u, (after.mode u = .running ↔ s.mode u = .running) ∧
      ((after.mode u).waits c → (s.mode u).waits c)) (fresh : sure next → sure (s.pc t))
    (debt : owes (s.pc t) → owes next ∨ ∀ u, ¬ (after.mode u).waits c) :
    Attended P c owes sure cond after where
  knows u runs isSure := by
    rw [pcs] at isSure
    rw [data]
    have ran := (modes u).1.mp runs
    by_cases same : u = t
    · subst same
      rw [update_self] at isSure
      exact attended.knows u ran (fresh isSure)
    · rw [update_of_ne same] at isSure
      exact attended.knows u ran isSure
  dull u sleeps := by
    have slept : s.mode u ≠ .running := fun ran =>
      sleeps ((modes u).1.mpr ran)
    have ne : u ≠ t := by
      rintro rfl
      exact slept running
    rw [pcs, update_of_ne ne]
    exact attended.dull u slept
  waits u waiting := by
    rw [data, pcs]
    rcases attended.waits u ((modes u).2 waiting) with holds | ⟨v, runs, owing⟩
    · exact inl holds
    · right
      by_cases same : v = t
      · subst same
        rcases debt owing with still | nobody
        · exact ⟨v, (modes v).1.mpr runs, by simpa using still⟩
        · exact absurd waiting (nobody u)
      · refine ⟨v, (modes v).1.mpr runs, ?_⟩
        rwa [update_of_ne same]

theorem Attended.shift (attended : Attended P c owes sure cond s) (mode : Mode κ χ) (p : π)
    (data : after.data = s.data) (modes : after.mode = update s.mode t mode)
    (pcs : after.pc = update s.pc t p) (unsure : ¬ sure p)
    (settled : s.mode t = .running → ¬ owes (s.pc t))
    (reason : mode.waits c → (s.mode t).waits c ∨ cond s.data) :
    Attended P c owes sure cond after where
  knows u runs isSure := by
    rw [modes] at runs
    rw [pcs] at isSure
    rw [data]
    by_cases same : u = t
    · subst same
      rw [update_self] at isSure
      exact absurd isSure unsure
    · rw [update_of_ne same] at runs isSure
      exact attended.knows u runs isSure
  dull u sleeps := by
    rw [modes] at sleeps
    rw [pcs]
    by_cases same : u = t
    · subst same
      rwa [update_self]
    · rw [update_of_ne same] at sleeps ⊢
      exact attended.dull u sleeps
  waits u waiting := by
    rw [modes] at waiting
    rw [data]
    have before : cond s.data ∨ (s.mode u).waits c := by
      by_cases same : u = t
      · subst same
        rw [update_self] at waiting
        exact (reason waiting).symm
      · rw [update_of_ne same] at waiting
        exact inr waiting
    rcases before with holds | waited
    · exact inl holds
    · rcases attended.waits u waited with holds | ⟨v, runs, owing⟩
      · exact inl holds
      · have ne : v ≠ t := by
          rintro rfl
          exact settled runs owing
        refine inr ⟨v, ?_, ?_⟩
        · rwa [modes, update_of_ne ne]
        · rwa [pcs, update_of_ne ne]

/-- What an `act` of a thread that has the lock must see to: who waits still
has reason to, or is owed a wakeup, unless nobody waits. -/
def Calm (P : Program ι κ χ δ π) (c : χ) (holds owes : π → Prop)
    (cond : δ → Prop) (s : State ι κ χ δ π) (t : ι) : Prop :=
  ∀ run, P.code t (s.pc t) = .act run → holds (s.pc t) → cond s.data →
    cond (run (s.killed t) s.data).2 ∨ owes (run (s.killed t) s.data).1 ∨ ∀ u, ¬ (s.mode u).waits c

section

variable (guarded : Guarded P l c holds owes sure cond)
include guarded

theorem Guarded.kept_act (lock : Disciplined P l holds s) (attended : Attended P c owes sure cond s)
    (calm : Calm P c holds owes cond s t) {run : Bool → δ → π × δ}
    (running : s.mode t = .running) (code : P.code t (s.pc t) = .act run) :
    Attended P c owes sure cond
      { s.goto t (run (s.killed t) s.data).1 with
        data := (run (s.killed t) s.data).2 } := by
  obtain ⟨sees, debt, apart⟩ := guarded.acts t _ run (s.killed t) s.data code
  constructor
  case knows =>
    intro u runs isSure
    by_cases same : u = t
    · subst same
      exact sees (by simpa using isSure)
    · have wasSure : sure (s.pc u) := by simpa [same] using isSure
      by_cases mine : holds (s.pc t)
      · exact absurd (guarded.sureHolds _ wasSure)  (lock.exclusive same running mine runs)
      · exact apart mine (attended.knows u runs wasSure)
  case dull =>
    intro u sleeps
    have ne : u ≠ t := by
      rintro rfl
      exact sleeps running
    simpa [ne] using attended.dull u sleeps
  case waits =>
    intro u waiting
    by_cases mine : holds (s.pc t)
    · rcases attended.waits u waiting with reason | ⟨v, runs, owing⟩
      · rcases calm run code mine reason with still | owed | nobody
        · exact inl still
        · exact inr ⟨t, running, by simpa using owed⟩
        · exact absurd waiting (nobody u)
      · have self : v = t := by
          by_contra ne
          exact lock.exclusive ne running mine runs (guarded.owesHolds _ owing)
        subst self
        exact inr ⟨v, running, by simpa using debt owing⟩
    · rcases attended.waits u waiting with reason | ⟨v, runs, owing⟩
      · exact inl (apart mine reason)
      · have ne : v ≠ t := by
          rintro rfl
          exact mine (guarded.owesHolds _ owing)
        exact inr ⟨v, runs, by simpa [ne] using owing⟩

/-- An instruction that leaves the data alone and wakes nobody on `c`. -/
theorem Guarded.kept_next (attended : Attended P c owes sure cond s)
    {instr : Instr ι κ χ δ π} {next : π} (running : s.mode t = .running)
    (code : P.code t (s.pc t) = instr) (follows : instr.next = some next)
    (quiet : instr ≠ .wakeup c next ∧ instr ≠ .wakeup1 c next) (data : after.data = s.data)
    (pcs : after.pc = update s.pc t next)
    (modes : ∀ u, (after.mode u = .running ↔ s.mode u = .running) ∧
      ((after.mode u).waits c → (s.mode u).waits c)) : Attended P c owes sure cond after := by
  subst code
  obtain ⟨fresh, debt⟩ := guarded.moves t _ next follows
  apply attended.goto running data pcs modes fresh
  intro owing
  rcases debt owing with still | paid | paid
  · exact inl still
  · exact absurd paid quiet.1
  · exact absurd paid quiet.2

variable [DecidableEq χ]

theorem Guarded.kept_wakeup (table : Disciplined P P.table tabled s)
    (attended : Attended P c owes sure cond s) {c' : χ} {next : π} (running : s.mode t = .running)
    (code : P.code t (s.pc t) = .wakeup c' next ∧ s.lock P.table = none ∨
      P.code t (s.pc t) = .wakeup1 c' next ∧ s.lock P.table = some t) :
    Attended P c owes sure cond ((s.wakeAll c').goto t next) := by
  have follows : (P.code t (s.pc t)).next = some next := by
    rcases code with ⟨code, -⟩ | ⟨code, -⟩
    · rw [code]
      rfl
    · rw [code]
      rfl
  obtain ⟨fresh, debt⟩ := guarded.moves t _ next follows
  apply attended.goto running
  case data | pcs => rfl
  case modes => exact fun u => (s.mode u).wake_running c'
  case fresh => exact fresh
  case debt =>
    intro owing
    by_cases same : c' = c
    · subst same
      right
      apply table.nobody (t := t)
      rcases code with ⟨-, free⟩ | ⟨-, held⟩
      · exact inl free
      · exact inr ⟨held, running⟩
    · left
      rcases debt owing with still | paid | paid
      · exact still
      all_goals
        rcases code with ⟨code, -⟩ | ⟨code, -⟩
        all_goals
          rw [code] at paid
          cases paid
          try exact absurd rfl same

variable [DecidableEq κ]

theorem Guarded.kept (table : Disciplined P P.table tabled s) (lock : Disciplined P l holds s)
    (attended : Attended P c owes sure cond s)
    (calm : s.mode t = .running → Calm P c holds owes cond s t)
    (moved : Moved P s t q s') : Attended P c owes sure cond s' := by
  have unchanged : s.pc = update s.pc t (s.pc t) := (update_eq_self t s.pc).symm
  cases moved with
  | acquire running code _ | release running code _
  | pardon running code _ =>
    apply guarded.kept_next attended running code
    case follows | data | pcs => rfl
    case quiet => simp
    case modes => exact fun u => ⟨Iff.rfl, id⟩
  | act running code =>
    exact guarded.kept_act lock attended (calm running) running code
  | wakeup running code free =>
    exact guarded.kept_wakeup table attended running (inl ⟨code, free⟩)
  | wakeup1 running code held =>
    exact guarded.kept_wakeup table attended running (inr ⟨code, held⟩)
  | @kill v next running code free =>
    apply guarded.kept_next attended running code
    case follows | data | pcs => rfl
    case quiet => simp
    intro u
    by_cases same : u = v
    · subst same
      simpa using (s.mode u).rouse_running
    · simp [same]
  | @choose ok running code admitted =>
    obtain ⟨unsure, debt⟩ := guarded.chooses t _ ok _ q code admitted
    apply attended.goto running
    case data | pcs => rfl
    case modes => exact fun u => ⟨Iff.rfl, id⟩
    case fresh => exact fun isSure => absurd isSure unsure
    case debt => exact fun owing => inl (debt owing)
  | @sleepTable c' next running code held =>
    obtain ⟨paid, unsure⟩ := guarded.rests t _ c' _ next code
    apply attended.shift (t := t) (.asleep c' P.table) next
    case data | modes | pcs => rfl
    case unsure => exact unsure
    case settled => exact fun _ => paid
    case reason =>
      rintro rfl
      -- The channel is used with `l` only, which is not the table's lock.
      have mine := guarded.sureHolds _ (guarded.sleeps t _ _ next code)
      have same := (guarded.locked.sleep t _ _ _ next code).1.mp mine
      exact absurd same.symm guarded.other
  | @sleep c' l' next running code other free =>
    obtain ⟨paid, unsure⟩ := guarded.rests t _ c' _ next code
    apply attended.shift (t := t) (.dropping c' l') next
    case data | modes | pcs => rfl
    case unsure => exact unsure
    case settled => exact fun _ => paid
    case reason =>
      rintro rfl
      right
      exact attended.knows t running (guarded.sleeps t _ l' next code)
  | drop asleep | doze asleep | resumeTable asleep _ | resume asleep _ _ | retake asleep _ =>
    apply attended.shift (t := t) _ (s.pc t)
    case modes | data => rfl
    case pcs => exact unchanged
    case unsure => exact attended.dull t (by simp [asleep])
    case settled => simp [asleep]
    case reason =>
      intro waits
      rw [asleep]
      exact inl waits

variable (tableLocked : Locked P P.table tabled)
  (initially : ∀ s, init s → Fresh holds s ∧ Fresh tabled s)
  (calm : ∀ s t q, Runs P init allowed s → allowed s (t, q) →
    s.mode t = .running → Calm P c holds owes cond s t)
include tableLocked initially calm

/-- In every state reached, whoever waits on the channel has reason to or
will be woken by the thread that has the lock. -/
theorem Guarded.attended (reached : Runs P init allowed s) : Attended P c owes sure cond s := by
  induction reached with
  | @start s initial =>
    have fresh := (initially s initial).1
    constructor
    case knows =>
      intro t _ isSure
      exact absurd (guarded.sureHolds _ isSure) (fresh.outside t)
    case dull => exact fun t sleeps => absurd (fresh.running t) sleeps
    case waits =>
      intro t waiting
      rw [fresh.running t] at waiting
      exact waiting.elim
  | @next s s' label reached meets taken ih =>
    obtain ⟨t, q⟩ := label
    apply guarded.kept (t := t) (q := q) (s := s)
    case table =>
      exact tableLocked.disciplined (fun s i => (initially s i).2) reached
    case lock =>
      exact guarded.locked.disciplined (fun s i => (initially s i).1) reached
    case attended => exact ih
    case calm => exact calm s t q reached meets
    case moved => exact step_cases taken

/-- While the lock is free, sleepers on the channel have reason to sleep. -/
theorem Guarded.justified (reached : Runs P init allowed s) (free : s.lock l = none)
    (waiting : (s.mode t).waits c) : cond s.data := by
  have attended := guarded.attended tableLocked initially calm reached
  have lock := guarded.locked.disciplined (fun s i => (initially s i).1) reached
  rcases attended.waits t waiting with reason | ⟨u, runs, owing⟩
  · exact reason
  · have held := (lock.owner u).mpr (inl ⟨runs, guarded.owesHolds _ owing⟩)
    rw [free] at held
    cases held

end

variable [DecidableEq κ] [DecidableEq χ]

/-- A thread that waits on a channel after a step waited on it before, or has
just called `sleep`. -/
theorem Moved.waiting {u : ι} (moved : Moved P s u q s') (waiting : (s'.mode t).waits c) :
    (s.mode t).waits c ∧ s'.pc t = s.pc t ∨ ∃ l', P.code t (s.pc t) = .sleep c l' (s'.pc t) := by
  cases moved with
  | acquire running _ _ | release running _ _ | act running _
  | choose running _ _ | pardon running _ _ =>
    exact inl ⟨waiting, stopped_goto running (waits_stopped waiting)⟩
  | @wakeup c' _ running _ _ | @wakeup1 c' _ running _ _ =>
    have waited := ((s.mode t).wake_running c').2 waiting
    exact inl ⟨waited, stopped_goto running (waits_stopped waited)⟩
  | @kill v _ running _ _ =>
    have waited : (s.mode t).waits c := by
      by_cases same : t = v
      · subst same
        exact (s.mode t).rouse_running.2 (by simpa using waiting)
      · simpa [same] using waiting
    exact inl ⟨waited, stopped_goto running (waits_stopped waited)⟩
  | @sleepTable c' next running code _ | @sleep c' _ next running code _ _ =>
    by_cases same : t = u
    · subst same
      simp only [State.goto_mode, State.setMode_mode, update_self, waits] at waiting
      subst waiting
      exact inr ⟨_, by simpa using code⟩
    · exact inl ⟨by simpa [same] using waiting, by simp [same]⟩
  | drop mode | doze mode =>
    left
    by_cases same : t = u
    · subst same
      simpa [mode, waits] using waiting
    · simpa [same] using waiting
  | resumeTable mode _ | resume mode _ _ | retake mode _ =>
    left
    by_cases same : t = u
    · subst same
      simp [waits] at waiting
    · simpa [same] using waiting

/-- A thread that waits on a channel is where a `sleep` on it returns to. -/
theorem sleeping_at (initially : ∀ s, init s → ∀ t, s.mode t = .running)
    (reached : Runs P init allowed s) (waiting : (s.mode t).waits c) :
    ∃ p l', P.code t p = .sleep c l' (s.pc t) := by
  induction reached generalizing t with
  | @start s initial =>
    rw [initially s initial t] at waiting
    exact waiting.elim
  | @next s s' label _ _ taken ih =>
    obtain ⟨u, q⟩ := label
    rcases (step_cases taken).waiting waiting with
      ⟨waited, same⟩ | ⟨l', code⟩
    · rw [same]
      exact ih waited
    · exact ⟨_, l', code⟩

end Channels

/-! ## Kills -/

/-- A thread at an `armed` point has tested its kill flag and sleeps next. -/
structure Alert (P : Program ι κ χ δ π) (armed : π → Prop) : Prop where
  moves : ∀ t p next, (P.code t p).next = some next → armed next → armed p
  rests : ∀ t p c l next, P.code t p = .sleep c l next → ¬ armed next
  chooses : ∀ t p ok d q, P.code t p = .choose ok → ok d q → ¬ armed q
  acts : ∀ t p run killed d, P.code t p = .act run → armed (run killed d).1 → killed = false

/-- No thread about to sleep or asleep inside the calls in question is
killed. -/
structure Spared (armed inside : π → Prop) (s : State ι κ χ δ π) : Prop where
  tested : ∀ t, s.mode t = .running → armed (s.pc t) → s.killed t = false
  dull : ∀ t, s.mode t ≠ .running → ¬ armed (s.pc t)
  sleeper : ∀ t, ((s.mode t).falling = true ∨
    ∃ c l, s.mode t = .asleep c l) → inside (s.pc t) → s.killed t = false

section Kills

variable {P : Program ι κ χ δ π} {s s' after : State ι κ χ δ π} {t : ι} {q : π}
variable {tabled armed inside : π → Prop}

/-- What `Spared` says of one thread. -/
def Spares (armed inside : π → Prop) (mode : Mode κ χ) (p : π) (killed : Bool) : Prop :=
  (mode = .running → armed p → killed = false) ∧ (mode ≠ .running → ¬ armed p) ∧
    ((mode.falling = true ∨ ∃ c l, mode = .asleep c l) → inside p → killed = false)

theorem spared_iff : Spared armed inside s ↔
    ∀ u, Spares armed inside (s.mode u) (s.pc u) (s.killed u) :=
  ⟨fun spared u => ⟨spared.tested u, spared.dull u, spared.sleeper u⟩,
    fun all => ⟨fun u => (all u).1, fun u => (all u).2.1, fun u => (all u).2.2⟩⟩

theorem Spares.ready {c : χ} {l : κ} {p : π} {before : Bool}
    (spares : Spares armed inside (.asleep c l) p before) (killed : Bool) :
    Spares armed inside (.ready l : Mode κ χ) p killed :=
  ⟨nofun, fun _ => spares.2.1 nofun, by simp [falling]⟩

section

variable (spared : Spared armed inside s)
include spared

theorem Spared.wakeAll [DecidableEq χ] (c : χ) : Spared armed inside (s.wakeAll c) := by
  refine spared_iff.mpr fun u => ?_
  have old := spared_iff.mp spared u
  rcases (s.mode u).wake_cases c with ⟨same, -⟩ | ⟨l, asleep, ready⟩
  · simpa [same] using old
  · rw [asleep] at old
    simpa [ready] using old.ready _

variable [DecidableEq ι]

theorem Spared.shift (mode : Mode κ χ) (p : π) (killed : after.killed = s.killed)
    (modes : after.mode = update s.mode t mode) (pcs : after.pc = update s.pc t p)
    (new : Spares armed inside mode p (s.killed t)) : Spared armed inside after := by
  rw [spared_iff, killed, modes, pcs]
  intro u
  by_cases same : u = t
  · subst same
    simpa only [update_self] using new
  · simpa only [update_of_ne same] using spared_iff.mp spared u

theorem Spared.goto {next : π} (running : s.mode t = .running)
    (killed : after.killed = s.killed) (modes : after.mode = s.mode)
    (pcs : after.pc = update s.pc t next) (tested : armed next → s.killed t = false) :
    Spared armed inside after := by
  apply spared.shift (t := t) .running next killed
  case modes => rw [modes, ← running, update_eq_self]
  case pcs => exact pcs
  case new => exact ⟨fun _ => tested, fun stops => absurd rfl stops, by simp [falling]⟩

theorem Spared.pardon (v : ι) : Spared armed inside (s.pardon v) := by
  refine spared_iff.mpr fun u => ?_
  have old := spared_iff.mp spared u
  by_cases same : u = v
  · subst same
    exact ⟨by simp, old.2.1, by simp⟩
  · simpa [same] using old

end

/-- The kill does not strike a thread between its test and its sleep. -/
def Misses (P : Program ι κ χ δ π) (armed : π → Prop) (s : State ι κ χ δ π) (t : ι) : Prop :=
  ∀ v next, P.code t (s.pc t) = .kill v next → s.lock P.table = none →
    s.mode v = .running → ¬ armed (s.pc v)

/-- The thread sleeps inside the calls in question only after its test, or
unkilled. -/
def Tests (P : Program ι κ χ δ π) (armed inside : π → Prop) (s : State ι κ χ δ π) (t : ι) : Prop :=
  ∀ c l next, P.code t (s.pc t) = .sleep c l next → inside next →
    armed (s.pc t) ∨ s.killed t = false

variable [DecidableEq ι]

theorem Alert.kept_kill (table : Disciplined P P.table tabled s)
    (spared : Spared armed inside s) {v : ι} (unarmed : s.mode v = .running → ¬ armed (s.pc v))
    (free : s.lock P.table = none) : Spared armed inside (s.slay v) := by
  have upright : ∀ u, (s.mode u).falling = false := by
    intro u
    by_contra falls
    have held := (table.owner u).mpr (inr (inr ⟨rfl, by simpa using falls⟩))
    rw [free] at held
    cases held
  refine spared_iff.mpr fun u => ?_
  have old := spared_iff.mp spared u
  by_cases same : u = v
  · subst same
    rcases (s.mode u).rouse_cases with ⟨idle, awake⟩ | ⟨c, l, asleep, ready⟩
    · simp only [State.slay_mode, State.slay_pc, update_self, idle]
      exact ⟨fun runs isArmed => absurd isArmed (unarmed runs), old.2.1, by
        simp [upright u, awake]⟩
    · rw [asleep] at old
      simpa [ready] using old.ready true
  · simpa [same] using old

variable [DecidableEq κ] [DecidableEq χ]

theorem Alert.kept (alert : Alert P armed) (table : Disciplined P P.table tabled s)
    (spared : Spared armed inside s) (misses : s.mode t = .running → Misses P armed s t)
    (tests : s.mode t = .running → Tests P armed inside s t)
    (moved : Moved P s t q s') : Spared armed inside s' := by
  have unchanged : s.pc = update s.pc t (s.pc t) := (update_eq_self t s.pc).symm
  -- Going on to a point that is armed only when this one is.
  have onwards : ∀ next, (P.code t (s.pc t)).next = some next →
      s.mode t = .running → armed next → s.killed t = false :=
    fun next follows running isArmed =>
      spared.tested t running (alert.moves t _ next follows isArmed)
  have sleeps : ∀ c l next, s.mode t = .running →
      P.code t (s.pc t) = .sleep c l next → inside next →
      s.killed t = false := by
    intro c l next running code isInside
    rcases tests running c l next code isInside with isArmed | alive
    · exact spared.tested t running isArmed
    · exact alive
  cases moved with
  | acquire running code _ | release running code _ =>
    apply spared.goto running
    case killed | modes | pcs => rfl
    exact onwards _ (by rw [code]; rfl) running
  | act running code =>
    apply spared.goto running
    case killed | modes | pcs => rfl
    exact alert.acts t _ _ _ _ code
  | choose running code admitted =>
    apply spared.goto running
    case killed | modes | pcs => rfl
    exact fun isArmed =>
      absurd isArmed (alert.chooses t _ _ _ _ code admitted)
  | @wakeup c _ running code _ | @wakeup1 c _ running code _ =>
    apply (spared.wakeAll c).goto (t := t) (by simp [running, wake])
    case killed | modes | pcs => rfl
    exact onwards _ (by rw [code]; rfl) running
  | @kill v next running code free =>
    have unarmed := misses running v next code free
    have awake : (s.slay v).mode t = .running := by
      by_cases same : t = v
      · subst same
        simp [running, rouse]
      · simp [same, running]
    apply (Alert.kept_kill table spared unarmed free).goto awake
    case killed | modes | pcs => rfl
    intro isArmed
    have wasArmed := alert.moves t _ next (by rw [code]; rfl) isArmed
    have ne : t ≠ v := by
      rintro rfl
      exact unarmed running wasArmed
    simpa [ne] using spared.tested t running wasArmed
  | @pardon v next running code held =>
    apply (spared.pardon v).goto (t := t) running
    case killed | modes | pcs => rfl
    intro isArmed
    have alive := onwards _ (by rw [code]; rfl) running isArmed
    by_cases same : t = v
    · subst same
      simp
    · simpa [same] using alive
  | @sleepTable c next running code _ | @sleep c _ next running code _ _ =>
    apply spared.shift (t := t) _ next
    case modes | killed | pcs => rfl
    exact ⟨by simp, fun _ => alert.rests t _ c _ next code,
      fun _ => sleeps c _ next running code⟩
  | drop asleep | doze asleep =>
    apply spared.shift (t := t) _ (s.pc t)
    case modes | killed => rfl
    case pcs => exact unchanged
    exact ⟨by simp, fun _ => spared.dull t (by simp [asleep]),
      fun _ => spared.sleeper t (inl (by rw [asleep]; rfl))⟩
  | @resume l ready other free =>
    apply spared.shift (t := t) (.returning l) (s.pc t)
    case killed | modes => rfl
    case pcs => exact unchanged
    exact ⟨by simp, fun _ => spared.dull t (by simp [ready]), by simp [falling]⟩
  | resumeTable asleep _ | retake asleep _ =>
    apply spared.shift (t := t) .running (s.pc t)
    case killed | modes => rfl
    case pcs => exact unchanged
    exact ⟨fun _ isArmed => absurd isArmed (spared.dull t (by simp [asleep])), by simp,
      by simp [falling]⟩

/-- In every state reached, no thread is killed and asleep inside the calls
in question. -/
theorem Alert.spared {init : State ι κ χ δ π → Prop}
    {allowed : State ι κ χ δ π → ι × π → Prop} (alert : Alert P armed)
    (inside : π → Prop) (tableLocked : Locked P P.table tabled)
    (initially : ∀ s, init s → Fresh tabled s ∧ ∀ t, ¬ armed (s.pc t))
    (misses : ∀ s t q, Runs P init allowed s → allowed s (t, q) →
      s.mode t = .running → Misses P armed s t)
    (tests : ∀ s t q, Runs P init allowed s → allowed s (t, q) →
      s.mode t = .running → Tests P armed inside s t)
    (reached : Runs P init allowed s) : Spared armed inside s := by
  induction reached with
  | @start s initial =>
    obtain ⟨fresh, unarmed⟩ := initially s initial
    constructor
    case tested => exact fun t _ isArmed => absurd isArmed (unarmed t)
    case dull => exact fun t stops => absurd (fresh.running t) stops
    case sleeper =>
      intro t sleeps
      rw [fresh.running t] at sleeps
      simp [falling] at sleeps
  | @next s s' label reached meets taken ih =>
    obtain ⟨t, q⟩ := label
    apply alert.kept (t := t) (q := q) (s := s)
    case table =>
      exact tableLocked.disciplined (fun s i => (initially s i).1) reached
    case spared => exact ih
    case misses => exact misses s t q reached meets
    case tests => exact tests s t q reached meets
    case moved => exact step_cases taken

end Kills

end Monitor
