/-
Purpose: A killed process does not sleep in the calls that test `killed`,
  unless the kill falls between the test and the sleep, or the console inode
  is busy when `consoleread` locks it again.
-/
import Xv6.Conc.Sleepers

namespace Xv6.Sleepers

open Monitor

variable {ι : Type}

/-! ## Calls that test the kill flag -/

/-- The thread is in `consoleread`. -/
def ConsolePoint.reads : ConsolePoint → Bool
  | .ilockEnter (.consoleread _) | .ilockTest (.consoleread _)
  | .ilockSleep (.consoleread _) | .ilockRelease (.consoleread _)
  | .iunlockEnter (.consoleread _) | .iunlockFlag (.consoleread _)
  | .iunlockWake (.consoleread _) | .iunlockRelease (.consoleread _)
  | .readEnter _ | .readLoop .. | .readSleep .. | .readRelease _ => true
  | _ => false

/-- The thread is in `pipewrite`, `piperead`, `sys_sleep`, `consoleread`,
`wait` or `join`. -/
def Point.testing : Point ι → Bool
  | .clock (.sleepEnter _) | .clock (.sleepStart _) | .clock (.sleepLoop ..)
  | .clock (.sleepSleep ..) | .clock .sleepRelease => true
  | .console p => p.reads
  | .family (.waitEnter _) | .family (.waitScan _) | .family (.waitSleep _)
  | .family (.waitClear _) | .family .waitRelease => true
  | p => p.calls

/-- The thread has found `killed` clear and has yet to take `ptable.lock` in
`sleep`. -/
def Point.window : Point ι → Bool
  | .pipe (.writeWake ..) | .pipe (.writeSleep ..) | .pipe (.readSleep _)
  | .clock (.sleepSleep ..) | .console (.readSleep ..) => true
  | _ => false

/-- The thread has found `killed` clear and sleeps next; `wait` and `join` do
both under `ptable.lock`. -/
def Point.armed : Point ι → Prop
  | .family (.waitSleep _) => True
  | p => p.window = true

/-- How an instruction may reach the points before a sleep: only computing
code does, when it finds the flag clear. -/
def Watchful (p : Point ι) : Code ι → Prop
  | .act run => ∀ killed d, (run killed d).1.armed → killed = false
  | .sleep _ _ next => ¬ next.armed
  | .choose ok => ∀ d q, ok d q → ¬ q.armed
  | .acquire _ next | .release _ next | .wakeup _ next | .wakeup1 _ next
  | .kill _ next | .pardon _ next => next.armed → p.armed

theorem unarmed_afterClose (exits : Bool) : ¬ (afterClose exits : Point ι).armed := by
  cases exits <;> exact Bool.noConfusion

theorem clockCode_watchful (p : ClockPoint) : Watchful (ι := ι) (.clock p) (clockCode p) := by
  cases p with
  | sleepLoop n ticks0 =>
    intro killed d
    simp only
    split_ifs with waits dies
    · exact Bool.noConfusion
    · exact fun _ => by simpa using dies
    · exact Bool.noConfusion
  | sleepStart | tickCount => exact fun _ _ => Bool.noConfusion
  | _ => exact Bool.noConfusion

theorem consoleLoop_armed (n : Int) (killed : Bool) (left : Nat) (got : List UInt8) (input : Input)
    (armed : (Point.console (consoleLoop n killed left got input).1 :
      Point ι).armed) : killed = false := by
  induction left generalizing got input with
  | zero => cases armed
  | succ left ih =>
    simp only [consoleLoop] at armed
    split_ifs at armed with empty dies
    · cases armed
    · simpa using dies
    · cases armed
    · cases armed
    · cases armed
    · exact ih _ _ armed

theorem consoleCode_watchful (p : ConsolePoint) :
    Watchful (ι := ι) (.console p) (consoleCode p) := by
  cases p with
  | ilockTest caller =>
    intro killed d
    simp only
    split_ifs <;> exact Bool.noConfusion
  | ilockRelease caller | iunlockRelease caller =>
    cases caller <;> exact Bool.noConfusion
  | iunlockFlag => exact fun _ _ => Bool.noConfusion
  | readLoop n got =>
    exact fun killed d armed => consoleLoop_armed _ _ _ _ _ armed
  | intrLoop chars =>
    cases chars with
    | nil => exact fun _ _ => Bool.noConfusion
    | cons c chars =>
      intro killed d
      simp only
      split_ifs <;> exact Bool.noConfusion
  | _ => exact Bool.noConfusion

variable [DecidableEq ι]

theorem pipeCode_watchful (t : ι) (p : PipePoint) : Watchful (.pipe p) (pipeCode t p) := by
  cases p with
  | writeLoop call i =>
    intro killed d
    simp only [writeLoop]
    split_ifs with done fails
    · exact Bool.noConfusion
    · exact Bool.noConfusion
    · intro _
      simp only [Bool.or_eq_true, not_or] at fails
      simpa using fails.2
  | readLoop n =>
    intro killed d
    simp only [readLoop]
    split_ifs with empty dies
    · exact Bool.noConfusion
    · exact fun _ => by simpa using dies
    · exact Bool.noConfusion
  | writeWake => exact fun _ => rfl
  | close writable exits =>
    intro killed d
    simp only [fileclose]
    split_ifs
    · exact Bool.noConfusion
    · exact fun armed => absurd armed (unarmed_afterClose exits)
    · exact Bool.noConfusion
  | closeTest exits =>
    intro killed d
    simp only
    split_ifs <;> exact Bool.noConfusion
  | closeRelease exits =>
    exact fun armed => absurd armed (unarmed_afterClose exits)
  | freePage exits =>
    exact fun _ _ armed => absurd armed (unarmed_afterClose exits)
  | writeReturn | readReturn | dup | closeFlag => exact fun _ _ => Bool.noConfusion
  | _ => exact Bool.noConfusion

theorem familyCode_watchful (slots : List ι) (initproc t : ι) (p : FamilyPoint ι) :
    Watchful (.family p) (familyCode slots initproc t p) := by
  cases p with
  | waitScan joins =>
    intro killed d
    simp only [waitScan]
    split
    · exact Bool.noConfusion
    · split_ifs with leaves
      · exact Bool.noConfusion
      · intro _
        simp only [Bool.or_eq_true, not_or] at leaves
        simpa using leaves.2
  | forkAlloc | exitParent =>
    intro killed d
    simp only
    split <;> exact Bool.noConfusion
  | forkRelease thread child => cases child <;> exact Bool.noConfusion
  | forkCopy thread child =>
    intro d q admitted
    unfold copies at admitted
    split at admitted
    · exact Bool.noConfusion
    · exact Bool.noConfusion
    · cases admitted
  | exitStart | exitFiles | exitScan =>
    intro killed d
    simp only
    split_ifs <;> exact Bool.noConfusion
  | panicked => exact fun _ _ => Bool.noConfusion
  | forkFail | forkFill | forkFiles | forkPublish | exec | exitMark =>
    exact fun _ _ => Bool.noConfusion
  | _ => exact Bool.noConfusion

theorem code_watchful (slots : List ι) (initproc t : ι) (p : Point ι) :
    Watchful p ((program slots initproc).code t p) := by
  cases p with
  | user =>
    intro d q admitted
    simp only [enters] at admitted
    split at admitted
    · exact Bool.noConfusion
    · exact Bool.noConfusion
    · exact Bool.noConfusion
    · cases admitted
  | trap call =>
    intro killed d
    simp only
    split_ifs
    · exact Bool.noConfusion
    · cases call <;> exact Bool.noConfusion
  | ret =>
    intro killed d
    simp only
    split_ifs <;> exact Bool.noConfusion
  | pipe p => exact pipeCode_watchful t p
  | clock p => exact clockCode_watchful p
  | console p => exact consoleCode_watchful p
  | family p => exact familyCode_watchful slots initproc t p

theorem program_alert (slots : List ι) (initproc : ι) :
    Alert (program slots initproc) Point.armed where
  moves t p next follows armed := by
    have watchful := code_watchful slots initproc t p
    cases code : (program slots initproc).code t p with
    | act | choose =>
      rw [code] at follows
      cases follows
    | sleep =>
      rw [code] at follows watchful
      cases follows
      exact absurd armed watchful
    | _ =>
      rw [code] at follows watchful
      cases follows
      exact watchful armed
  rests t p c l next code := by
    have watchful := code_watchful slots initproc t p
    rw [code] at watchful
    exact watchful
  chooses t p ok d q code admitted := by
    have watchful := code_watchful slots initproc t p
    rw [code] at watchful
    exact watchful d q admitted
  acts t p run killed d code := by
    have watchful := code_watchful slots initproc t p
    rw [code] at watchful
    exact watchful killed d

/-! ## Runs -/

/-- The step is not a kill of a process between its test and its sleep, nor
does a killed process sleep in the `ilock` at the end of `consoleread`. -/
def Timely (s : Machine ι) (label : ι × Point ι) : Prop :=
  s.mode label.1 = .running → (∀ v, s.pc label.1 = .family (.kill v) → s.mode v = .running →
      (s.pc v).window = false) ∧
    ∀ result, s.pc label.1 = .console (.ilockSleep (.consoleread result)) → s.killed label.1 = false

section Runs

variable {slots : List ι} {initproc t : ι}
variable {s : Machine ι}

theorem kill_at {p next : Point ι} {v : ι}
    (code : (program slots initproc).code t p = .kill v next) : p = .family (.kill v) := by
  cases p with
  | family p =>
    cases p with
    | kill w =>
      cases code
      rfl
    | forkRelease thread child => cases child <;> cases code
    | _ => cases code
  | pipe p => cases p <;> cases code
  | clock p => cases p <;> cases code
  | console p =>
    cases p with
    | intrLoop chars => cases chars <;> cases code
    | _ => cases code
  | _ => cases code

theorem sleep_at {p next : Point ι} {c : Channel ι} {l : Lock}
    (code : (program slots initproc).code t p = .sleep c l next) (testing : next.testing = true) :
    p.armed ∨ ∃ result, p = .console (.ilockSleep (.consoleread result)) := by
  cases p with
  | pipe p =>
    cases p with
    | writeSleep | readSleep => exact Or.inl rfl
    | _ => cases code
  | clock p =>
    cases p with
    | sleepSleep => exact Or.inl rfl
    | _ => cases code
  | console p =>
    cases p with
    | readSleep => exact Or.inl rfl
    | ilockSleep caller =>
      cases code
      cases caller with
      | fileread n => cases testing
      | consoleread result => exact Or.inr ⟨result, rfl⟩
    | intrLoop chars => cases chars <;> cases code
    | _ => cases code
  | family p =>
    cases p with
    | waitSleep => exact Or.inl trivial
    | forkRelease thread child => cases child <;> cases code
    | _ => cases code
  | _ => cases code

theorem timely_misses (table : Disciplined (program slots initproc) .ptable
      (fun p => p.held = some .ptable) s) {q : Point ι}
    (timely : Timely s (t, q)) (running : s.mode t = .running) :
    Misses (program slots initproc) Point.armed s t := by
  intro v next code free runs armed
  have clear := (timely running).1 v (kill_at code) runs
  -- The kill has `ptable.lock`, so its victim is not in `wait` or `join`.
  cases here : s.pc v with
  | family p =>
    rw [here] at armed
    cases p with
    | waitSleep joins =>
      have held := (table.owner v).mpr (Or.inl ⟨runs, by rw [here]; rfl⟩)
      have free : s.lock .ptable = none := free
      rw [free] at held
      cases held
    | _ => cases armed
  | _ =>
    rw [here] at armed clear
    have armed : Point.window _ = true := armed
    rw [clear] at armed
    cases armed

variable [Fintype ι]

/-- In a run in which no kill strikes between a test and a sleep, and no killed
process finds the inode busy at the end of `consoleread`, no process sleeps in
`pipewrite`, `piperead`, `sys_sleep`, `consoleread`, `wait` or `join` with its
kill flag set. -/
theorem killed_not_asleep (reached : Runs (program slots initproc) Start Timely s) (c : Channel ι)
    (sleeps : sleepingOn c (s.mode t)) (testing : (s.pc t).testing = true) :
    s.killed t = false := by
  have spared := (program_alert slots initproc).spared
    (fun p => p.testing = true) (program_locked slots initproc .ptable)
    (fun s start => ⟨start.fresh .ptable, fun t => by
      rw [start.user t]
      exact nofun⟩)
    (fun s t q reached timely running => timely_misses
      ((program_locked slots initproc .ptable).disciplined
        (fun s start => start.fresh .ptable) reached) timely running)
    (fun s t q reached timely running c l next code testing => by
      rcases sleep_at code testing with armed | ⟨result, here⟩
      · exact Or.inl armed
      · exact Or.inr ((timely running).2 result here))
    reached
  obtain ⟨l, dozing | asleep⟩ := sleeps
  · exact spared.sleeper t (Or.inl (by rw [dozing]; rfl)) testing
  · exact spared.sleeper t (Or.inr ⟨c, l, asleep⟩) testing

end Runs

/-- Process 0 calls `sleep(1)` and gets to the `sleep` in `sys_sleep`. -/
def beforeSleep : List (Fin 2 × Point (Fin 2)) :=
  (0, .trap (.sleep 1)) :: List.replicate 4 (0, .user)

/-- From there it falls asleep. -/
def fallsAsleep : List (Fin 2 × Point (Fin 2)) :=
  beforeSleep ++ List.replicate 3 (0, .user)

/-- Then process 1 kills it. -/
def killedAsleep : List (Fin 2 × Point (Fin 2)) :=
  fallsAsleep ++ [(1, .trap (.kill 0)), (1, .user), (1, .user), (1, .user)]

/-- The process does not kill a process that runs, nor sleep in `ilock`. -/
def harmless (s : Machine ι) (t : ι) : Bool :=
  match s.pc t with
  | .family (.kill v) => s.mode v != .running
  | .console (.ilockSleep _) => false
  | _ => true

theorem killed_not_asleep_killed : ∃ s, Runs (program [0, (1 : Fin 2)] 1) Start Timely s ∧
      s.killed 0 = true ∧ (s.pc 0).testing = true ∧ ∀ c, ¬ sleepingOn c (s.mode 0) := by
  have outcome : (killedAsleep.foldlM (fun (s : Machine (Fin 2)) label =>
        if harmless s label.1 then step (program [0, 1] 1) s label else none) (made 2)).map
        (fun s => (s.killed 0, (s.pc 0).testing)) = some (true, true) := by
    decide +kernel
  obtain ⟨s, run, facts⟩ := Option.map_eq_some_iff.mp outcome
  obtain ⟨killed, testing⟩ := Prod.mk.inj facts
  have reached : Runs (program [0, (1 : Fin 2)] 1) Start Timely s := by
    apply Reach.checked (s := made 2) _ (.start (made_start (by decide))) run
    intro s label passes _
    constructor
    · intro v here runs
      simp [harmless, here, runs] at passes
    · intro result here
      simp [harmless, here] at passes
  refine ⟨s, reached, killed, testing, fun c sleeps => ?_⟩
  rw [killed_not_asleep reached c sleeps testing] at killed
  cases killed

/-- Process 1 kills it before it falls asleep. -/
def killedBeforeSleep : List (Fin 2 × Point (Fin 2)) :=
  beforeSleep ++ [(1, .trap (.kill 0)), (1, .user), (1, .user), (0, .user), (0, .user), (0, .user)]

/-- The process sleeps in `sys_sleep` with its kill flag set. -/
theorem kill_between_test_and_sleep :
    ∃ s, Runs (program [0, (1 : Fin 2)] 1) Start (fun _ _ => True) s ∧
      sleepingOn .ticks (s.mode 0) ∧ (s.pc 0).testing = true ∧
      s.killed 0 = true := by
  have outcome : (killedBeforeSleep.foldlM (step (program [0, 1] 1)) (made 2)).map
        (fun s => (s.mode 0, (s.pc 0).testing, s.killed 0)) =
      some (.asleep .ticks .ticks, true, true) := by
    decide +kernel
  obtain ⟨s, run, facts⟩ := Option.map_eq_some_iff.mp outcome
  simp only [Prod.mk.injEq] at facts
  obtain ⟨asleep, testing, killed⟩ := facts
  exact ⟨s, Reach.foldlM (.start (made_start (by decide))) run,
    ⟨.ticks, Or.inr asleep⟩, testing, killed⟩

end Xv6.Sleepers
