/-
Purpose: What one move of the scheduler model does to one proc, which proc a
  pass of the scheduler takes, and when the procs of one level take turns.
-/
import Xv6.Kernel.Mlfq

namespace Xv6

open Xv6.Task

/-! ## Searches in order -/

section Search

variable {α β : Type} [LinearOrder α] {l : List α} {a : α}

/-- A search of a sorted list finds the least hit. -/
theorem find?_least {p : α → Bool} (sorted : l.Pairwise (· < ·))
    (found : l.find? p = some a) : ∀ b ∈ l, p b = true → a ≤ b := by
  obtain ⟨_, before, after, rfl, missed⟩ := List.find?_eq_some_iff_append.mp found
  intro b mem hit
  rcases List.mem_append.mp mem with early | late
  · have missedHere := missed b early
    rw [hit] at missedHere
    cases missedHere
  · rcases List.mem_cons.mp late with rfl | later
    · exact le_refl b
    · have tail := (List.pairwise_append.mp sorted).2.1
      exact le_of_lt ((List.pairwise_cons.mp tail).1 b later)

/-- The same for a search that computes its result. -/
theorem findSome?_least {f : α → Option β} {b : β}
    (sorted : l.Pairwise (· < ·)) (found : l.findSome? f = some b) :
    ∃ a ∈ l, f a = some b ∧ ∀ a' ∈ l, a' < a → f a' = none := by
  obtain ⟨before, a, after, rfl, here, missed⟩ := List.findSome?_eq_some_iff.mp found
  refine ⟨a, List.mem_append_right _ List.mem_cons_self, here, ?_⟩
  intro a' mem less
  rcases List.mem_append.mp mem with early | late
  · exact missed a' early
  · rcases List.mem_cons.mp late with rfl | later
    · exact absurd less (lt_irrefl _)
    · have tail := (List.pairwise_append.mp sorted).2.1
      exact absurd less (not_lt_of_gt ((List.pairwise_cons.mp tail).1 a' later))

end Search

/-! ## One move and one proc -/

/-- A proc after the boost loop. -/
def Task.rested (now : Nat) (p : Task) : Task :=
  if p.starving now then p.boosted else p

/-- What a move does to the proc of slot `i`. -/
inductive Task.Change (i : Slot) : Mlfq.Move → Task → Task → Prop where
  | kept (move : Mlfq.Move) (p : Task) (other : ∀ now, move ≠ .pass now) : Change i move p p
  | created (p : Task) (unused : p.state = .unused) : Change i (.create true) p p.claimed
  | refused (p : Task) (unused : p.state = .unused) :
      Change i (.create false) p { p.claimed with state := .unused }
  | abandoned (p : Task) (embryo : p.state = .embryo) :
      Change i (.abandon i) p { p with state := .unused }
  | published (p : Task) (embryo : p.state = .embryo) :
      Change i (.publish i) p { p with state := .runnable }
  | passed (now : Nat) (p : Task) : Change i (.pass now) p (p.rested now)
  | dispatched (now : Nat) (p : Task) (runnable : p.state = .runnable) : Change i (.pass now) p
        { p.rested now with state := .running, lastSched := now }
  | yielded (p : Task) (running : p.state = .running) :
      Change i (.yield i) p { p.updateTicks with state := .runnable }
  | slept (p : Task) (running : p.state = .running) :
      Change i (.sleep i) p { p with state := .sleeping }
  | woken (p : Task) (sleeping : p.state = .sleeping) :
      Change i (.wakeup i) p { p with state := .runnable }
  | exited (p : Task) (running : p.state = .running) :
      Change i (.exit i) p { p with state := .zombie }
  | reaped (p : Task) (zombie : p.state = .zombie) :
      Change i (.reap i) p { p with state := .unused }

namespace Task

variable {p : Task} {now : Nat}

theorem rested_fed (fed : p.starving now = false) : p.rested now = p := by
  unfold rested
  rw [if_neg (by rw [fed]; decide)]

theorem rested_state : (p.rested now).state = p.state := by
  unfold rested
  split <;> rfl

theorem rested_ticks : (p.rested now).ticks = p.ticks := by
  unfold rested
  split <;> rfl

theorem rested_ticksUsed : (p.rested now).ticksUsed = p.ticksUsed := by
  unfold rested
  split <;> rfl

theorem rested_lastSched : (p.rested now).lastSched = p.lastSched := by
  unfold rested
  split <;> rfl

theorem rested_priority_le : (p.rested now).priority ≤ p.priority := by
  unfold rested
  split
  · exact Nat.sub_le _ 1
  · exact Nat.le_refl _

theorem updateTicks_lastSched : p.updateTicks.lastSched = p.lastSched := by
  unfold updateTicks
  dsimp only
  split <;> rfl

theorem updateTicks_priority : p.updateTicks.priority = p.priority ∨
    p.priority < NPRIOR - 1 ∧ p.updateTicks.priority = p.priority + 1 := by
  unfold updateTicks
  dsimp only
  split
  · rename_i demoted
    exact .inr ⟨demoted.1, rfl⟩
  · exact .inl rfl

end Task

namespace Mlfq

variable {s t : Mlfq} {move : Move} {i : Slot}

theorem boost_task (s : Mlfq) (now : Nat) (i : Slot) :
    (s.boost now).task i = (s.task i).rested now := rfl

theorem set_self (s : Mlfq) (i : Slot) (p : Task) : (s.set i p).task i = p :=
  Function.update_self ..

theorem set_other {k : Slot} (s : Mlfq) (p : Task) (other : k ≠ i) :
    (s.set i p).task k = s.task k :=
  Function.update_of_ne other ..

/-- A proc that goes on by `advance` is in the state it should be in, and the
others are left alone. -/
theorem advance_change {before after : ProcState} (taken : s.advance i before after = some t)
    (other : ∀ now, move ≠ .pass now)
    (here : ∀ p : Task, p.state = before →
      Task.Change i move p { p with state := after }) (k : Slot) :
    Task.Change k move (s.task k) (t.task k) := by
  unfold advance at taken
  split at taken
  · rename_i state
    cases taken
    by_cases same : k = i
    · subst same
      rw [set_self]
      exact here _ state
    · rw [set_other _ _ same]
      exact .kept _ _ other
  · cases taken

theorem unusedSlot_state (found : s.unusedSlot = some i) : (s.task i).state = .unused := by
  have test := List.find?_some found
  simpa using test

theorem create_slot {stack : Bool} (taken : s.step (.create stack) = some t)
    (before : (s.task i).state = .unused) (after : (t.task i).state ≠ .unused) :
    s.unusedSlot = some i := by
  simp only [step] at taken
  cases found : s.unusedSlot with
  | none =>
    rw [found] at taken
    cases taken
    exact absurd before after
  | some k =>
    rw [found] at taken
    cases taken
    by_cases same : i = k
    · rw [same]
    · rw [set_other _ _ same] at after
      exact absurd before after

/-- The scheduler takes `i`: no runnable proc has a smaller priority value, and
none of the same value comes before it. -/
structure Selected (s : Mlfq) (i : Slot) : Prop where
  runnable : (s.task i).state = .runnable
  level : ∀ j, (s.task j).state = .runnable → (s.task i).priority ≤ (s.task j).priority
  first : ∀ j, (s.task j).state = .runnable → (s.task j).priority = (s.task i).priority → i ≤ j

theorem chosen_selected (chosen : s.chosen = some i) : s.Selected i := by
  obtain ⟨level, mem, found, missed⟩ := findSome?_least List.pairwise_lt_range chosen
  have here := List.find?_some found
  simp only [Bool.and_eq_true, beq_iff_eq] at here
  constructor
  case runnable => exact here.1
  case level =>
    intro j runnable
    rw [here.2]
    by_contra lower
    have small := List.mem_range.mp mem
    have none := missed (s.task j).priority (List.mem_range.mpr (by omega)) (by omega)
    have never := List.find?_eq_none.mp none j (List.mem_finRange j)
    simp [runnable] at never
  case first =>
    intro j runnable same
    refine find?_least (List.pairwise_lt_finRange NPROC) found j (List.mem_finRange j) ?_
    simp [runnable, same, here.2]

/-- Nothing is chosen only if nothing is runnable, as long as the levels are in
range. -/
theorem chosen_none (range : ∀ i, (s.task i).priority < NPRIOR)
    (none : s.chosen = none) (i : Slot) : (s.task i).state ≠ .runnable := by
  intro runnable
  have empty := List.findSome?_eq_none_iff.mp none (s.task i).priority
    (List.mem_range.mpr (range i))
  have never := List.find?_eq_none.mp empty i (List.mem_finRange i)
  simp [runnable] at never

theorem dispatch_task (s : Mlfq) (now : Nat) (k : Slot) : s.chosen = some k ∧
      (s.dispatch now).task k =
        { s.task k with state := .running, lastSched := now } ∨
    s.chosen ≠ some k ∧ (s.dispatch now).task k = s.task k := by
  unfold dispatch
  cases chosen : s.chosen with
  | none => exact .inr ⟨nofun, rfl⟩
  | some i =>
    by_cases same : k = i
    · subst same
      exact .inl ⟨rfl, set_self ..⟩
    · refine .inr ⟨fun here => same (Option.some.inj here).symm, ?_⟩
      exact set_other _ _ same

theorem change (taken : s.step move = some t) (k : Slot) :
    Task.Change k move (s.task k) (t.task k) := by
  cases move with
  | create stack =>
    simp only [step] at taken
    cases found : s.unusedSlot with
    | none =>
      rw [found] at taken
      cases taken
      exact .kept _ _ nofun
    | some i =>
      rw [found] at taken
      cases taken
      by_cases same : k = i
      · subst same
        rw [set_self]
        cases stack with
        | true => exact .created _ (unusedSlot_state found)
        | false => exact .refused _ (unusedSlot_state found)
      · rw [set_other _ _ same]
        exact .kept _ _ nofun
  | pass now =>
    cases taken
    rcases dispatch_task (s.boost now) now k with ⟨chosen, task⟩ | ⟨_, task⟩
    · rw [task, boost_task]
      refine .dispatched now _ ?_
      have runnable := (chosen_selected chosen).runnable
      rwa [boost_task, rested_state] at runnable
    · rw [task, boost_task]
      exact .passed now _
  | yield i =>
    simp only [step] at taken
    split at taken
    · rename_i running
      cases taken
      by_cases same : k = i
      · subst same
        rw [set_self]
        exact .yielded _ running
      · rw [set_other _ _ same]
        exact .kept _ _ nofun
    · cases taken
  | abandon i => exact advance_change taken (by nofun) .abandoned k
  | publish i => exact advance_change taken (by nofun) .published k
  | sleep i => exact advance_change taken (by nofun) .slept k
  | wakeup i => exact advance_change taken (by nofun) .woken k
  | exit i => exact advance_change taken (by nofun) .exited k
  | reap i => exact advance_change taken (by nofun) .reaped k

/-! ## The levels stay in range -/

theorem priority_change {p q : Task} (changed : Task.Change i move p q)
    (range : p.priority < NPRIOR) : q.priority < NPRIOR := by
  cases changed with
  | created => exact Nat.zero_lt_succ 3
  | refused => exact Nat.zero_lt_succ 3
  | passed | dispatched =>
    exact rested_priority_le.trans_lt range
  | yielded =>
    change p.updateTicks.priority < NPRIOR
    rcases updateTicks_priority (p := p) with same | ⟨below, next⟩
    · rwa [same]
    · rw [next]
      simp only [NPRIOR] at *
      omega
  | _ => exact range

theorem priority_lt {allowed : Mlfq → Move → Prop}
    (reached : Reaches allowed s) : ∀ i, (s.task i).priority < NPRIOR := by
  refine Reach.invariant (I := fun s => ∀ i, (s.task i).priority < NPRIOR) ?_ ?_ reached
  · intro s starts i
    rw [starts i]
    exact Nat.zero_lt_succ 3
  · intro s move t range _ taken i
    exact priority_change (change taken i) (range i)

/-! ## What a pass does -/

/-- The move from `s` to `t` gives the CPU to the proc of slot `i`. -/
def Dispatched (s t : Mlfq) (i : Slot) : Prop :=
  (s.task i).state = .runnable ∧ (t.task i).state = .running

theorem pass_chosen {now : Nat} (taken : s.step (.pass now) = some t) :
    Dispatched s t i ↔ (s.boost now).chosen = some i := by
  cases taken
  rcases dispatch_task (s.boost now) now i with ⟨chosen, task⟩ | ⟨none, task⟩
  · refine ⟨fun _ => chosen, fun _ => ⟨?_, ?_⟩⟩
    · have runnable := (chosen_selected chosen).runnable
      rwa [boost_task, rested_state] at runnable
    · rw [task]
  · refine ⟨fun dispatched => ?_, fun chosen => absurd chosen none⟩
    have running := dispatched.2
    rw [task, boost_task, rested_state, dispatched.1] at running
    cases running

theorem pass_priority {now : Nat} (taken : s.step (.pass now) = some t)
    (k : Slot) : (t.task k).priority = ((s.boost now).task k).priority := by
  cases taken
  rcases dispatch_task (s.boost now) now k with ⟨_, task⟩ | ⟨_, task⟩
  · rw [task]
  · rw [task]

/-- A pass makes nothing runnable. -/
theorem pass_runnable {now : Nat} (taken : s.step (.pass now) = some t)
    {k : Slot} (runnable : (t.task k).state = .runnable) : (s.task k).state = .runnable := by
  cases taken
  rcases dispatch_task (s.boost now) now k with ⟨_, task⟩ | ⟨_, task⟩
  · rw [task] at runnable
    cases runnable
  · rwa [task, boost_task, rested_state] at runnable

/-- Every level is in range, and every pass takes a proc exactly if one is
runnable: the first one of the smallest priority value after the boost loop.
No other proc changes its state or its ticks. -/
theorem pass_selects {s : Mlfq} (reached : Reaches (fun _ _ => True) s) :
    (∀ i, (s.task i).priority < NPRIOR) ∧
    ∀ now, ∃ t, s.step (.pass now) = some t ∧
      ((∃ i, Dispatched s t i) ↔ ∃ i, (s.task i).state = .runnable) ∧
      (∀ i, Dispatched s t i → (s.boost now).Selected i) ∧
      ∀ j, ¬ Dispatched s t j → (t.task j).state = (s.task j).state ∧
        (t.task j).ticks = (s.task j).ticks ∧
        (t.task j).ticksUsed = (s.task j).ticksUsed := by
  have range := priority_lt reached
  refine ⟨range, fun now => ⟨_, rfl, ?_, ?_, ?_⟩⟩
  · constructor
    · rintro ⟨i, runnable, _⟩
      exact ⟨i, runnable⟩
    · rintro ⟨j, runnable⟩
      cases chosen : (s.boost now).chosen with
      | some i => exact ⟨i, (pass_chosen rfl).mpr chosen⟩
      | none =>
        exfalso
        refine chosen_none (fun i => ?_) chosen j ?_
        · exact rested_priority_le.trans_lt (range i)
        · rw [boost_task, rested_state]
          exact runnable
  · intro i dispatched
    exact chosen_selected ((pass_chosen rfl).mp dispatched)
  · intro j waits
    rcases dispatch_task (s.boost now) now j with ⟨chosen, _⟩ | ⟨_, task⟩
    · exact absurd ((pass_chosen rfl).mpr chosen) waits
    · rw [task, boost_task]
      exact ⟨rested_state, rested_ticks, rested_ticksUsed⟩

/-! ## Turns -/

/-- The proc of slot `j` waits at level `q`. -/
def Waits (s : Mlfq) (j : Slot) (q : Nat) : Prop :=
  (s.task j).state = .runnable ∧ (s.task j).priority = q

/-- The process of slot `i` is dispatched at level `q` by the pass from `s` to
`t` and again by that from `u` to `v`.  Meanwhile it stays the same process, and
that of slot `j` waits at level `q` all the time. -/
structure Overtaken (allowed : Mlfq → Move → Prop) (i j : Slot) (q : Nat)
    (s t u v : Mlfq) : Prop where
  first : ∃ now, allowed s (.pass now) ∧ s.step (.pass now) = some t
  dispatched : Dispatched s t i ∧ (t.task i).priority = q
  waits : t.Waits j q
  meanwhile : Reach (fun s => s = t) (fun s move t => s.step move = some t)
    (fun s move => allowed s move ∧ s.Waits j q ∧ (s.task i).state ≠ .unused) u
  still : u.Waits j q
  second : ∃ now, allowed u (.pass now) ∧ u.step (.pass now) = some v
  again : Dispatched u v i ∧ (v.task i).priority = q
  last : v.Waits j q

/-- No process is made runnable at a level, or raised to it, while one of a
later slot waits there. -/
def Orderly (s : Mlfq) : Move → Prop
  | .yield i => ∀ j, i < j → (s.task j).state = .runnable →
      (s.task j).priority ≠ (s.task i).updateTicks.priority
  | .wakeup i => ∀ j, i < j → (s.task j).state = .runnable →
      (s.task j).priority ≠ (s.task i).priority
  | .pass now => ∀ i, (s.task i).starving now = true → ∀ j, i < j → (s.task j).state = .runnable →
      ((s.boost now).task j).priority ≠ ((s.boost now).task i).priority
  | _ => True

/-- A process that has had its turn at level `q` and is not back there. -/
structure Behind (s : Mlfq) (i : Slot) (q : Nat) : Prop where
  unused : (s.task i).state ≠ .unused
  embryo : (s.task i).state ≠ .embryo
  away : ¬ s.Waits i q

/-- A later process waits at the level: the one that has had its turn does not
come back before it. -/
theorem Behind.step {q : Nat} {j : Slot} (behind : s.Behind i q)
    (later : i < j) (orderly : s.Orderly move) (waits : s.Waits j q)
    (taken : s.step move = some t) (still : t.Waits j q)
    (alive : (t.task i).state ≠ .unused) : t.Behind i q := by
  have changed := change taken i
  generalize before : s.task i = p at changed
  generalize after : t.task i = p' at changed alive
  obtain ⟨unused, embryo, away⟩ := behind
  unfold Waits at away
  rw [before] at unused embryo away
  have result : p'.state ≠ .embryo ∧ ¬ (p'.state = .runnable ∧ p'.priority = q) := by
    cases changed with
    | kept => exact ⟨embryo, away⟩
    | created _ here => exact absurd here unused
    | refused _ here => exact absurd here unused
    | abandoned _ here => exact absurd here embryo
    | published _ here => exact absurd here embryo
    | passed now =>
      rw [rested_state]
      refine ⟨embryo, fun back => ?_⟩
      cases starving : p.starving now with
      | true =>
        refine orderly i (by rwa [before]) j later waits.1 ?_
        rw [← pass_priority taken j, still.2, boost_task, before]
        exact back.2.symm
      | false =>
        rw [rested_fed starving] at back
        exact away back
    | dispatched => exact ⟨nofun, fun back => nomatch back.1⟩
    | yielded =>
      refine ⟨nofun, fun back => orderly j later waits.1 ?_⟩
      rw [waits.2, before]
      exact back.2.symm
    | slept => exact ⟨nofun, fun back => nomatch back.1⟩
    | woken =>
      refine ⟨nofun, fun back => orderly j later waits.1 ?_⟩
      rw [waits.2, before]
      exact back.2.symm
    | exited => exact ⟨nofun, fun back => nomatch back.1⟩
    | reaped => exact absurd rfl alive
  constructor
  case unused =>
    rw [after]
    exact alive
  case embryo =>
    rw [after]
    exact result.1
  case away =>
    unfold Waits
    rw [after]
    exact result.2

section Overtaken

variable {allowed : Mlfq → Move → Prop} {j : Slot} {q : Nat} {u v : Mlfq}

theorem Overtaken.later (overtaken : Overtaken allowed i j q s t u v) : i < j := by
  obtain ⟨now, _, first⟩ := overtaken.first
  obtain ⟨dispatched, level⟩ := overtaken.dispatched
  have different : i ≠ j := by
    rintro rfl
    have running := dispatched.2
    rw [overtaken.waits.1] at running
    cases running
  have selected := chosen_selected ((pass_chosen first).mp dispatched)
  refine lt_of_le_of_ne (selected.first j ?_ ?_) different
  · rw [boost_task, rested_state]
    exact pass_runnable first overtaken.waits.1
  · rw [← pass_priority first j, ← pass_priority first i, overtaken.waits.2, level]

/-- From the first dispatch on the process is not back at the level. -/
theorem Overtaken.behind (overtaken : Overtaken Orderly i j q s t u v) : u.Behind i q := by
  have running := overtaken.dispatched.1.2
  have alive : (u.task i).state ≠ .unused := by
    rw [overtaken.again.1.1]
    decide
  have later := overtaken.later
  refine Reach.invariant (I := fun w => w.Waits j q →
      (w.task i).state ≠ .unused → w.Behind i q) ?_ ?_ overtaken.meanwhile
    overtaken.still alive
  · rintro w rfl _ unused
    refine ⟨unused, ?_, fun waits => ?_⟩
    · rw [running]
      decide
    · rw [waits.1] at running
      cases running
  · intro w move w' behind meets taken waits unused
    obtain ⟨orderly, waited, living⟩ := meets
    exact (behind waited living).step later orderly waited taken waits unused

end Overtaken

/-- In every run of orderly moves the processes of a level take turns. -/
theorem takes_turns (i j : Slot) (q : Nat) (s t u v : Mlfq) :
    ¬ Overtaken Orderly i j q s t u v := by
  intro overtaken
  have away := overtaken.behind.away
  obtain ⟨now, orderly, second⟩ := overtaken.second
  obtain ⟨dispatched, level⟩ := overtaken.again
  rw [pass_priority second i] at level
  -- At the second pass the process is not at the level, nor raised to it.
  cases starving : (u.task i).starving now with
  | true =>
    refine orderly i starving j overtaken.later overtaken.still.1 ?_
    rw [level, ← pass_priority second j, overtaken.last.2]
  | false =>
    refine away ⟨dispatched.1, ?_⟩
    rwa [boost_task, rested_fed starving] at level

/-! ## Two processes at one level -/

/-- Two processes are created. -/
def ready : Mlfq :=
  ([.create true, .publish 0, .create true, .publish 1].foldlM step start).getD start

theorem ready_reached : Reaches (fun _ _ => True) ready := by
  have some : ([.create true, .publish 0, .create true, .publish 1].foldlM step
      start).isSome = true := by
    decide +kernel
  obtain ⟨s, run⟩ := Option.isSome_iff_exists.mp some
  have same : ready = s := by
    unfold ready
    rw [run]
    rfl
  rw [same]
  exact Reach.foldlM (.start fun _ => rfl) run

/-- A pass takes the first of the two. -/
theorem ready_selects : (∀ i, (ready.task i).priority < NPRIOR) ∧
    ∃ t, ready.step (.pass 0) = some t ∧
      ∃ i, Dispatched ready t i ∧ (ready.boost 0).Selected i := by
  obtain ⟨range, pass⟩ := pass_selects ready_reached
  obtain ⟨t, taken, some, selected, _⟩ := pass 0
  obtain ⟨i, dispatched⟩ := some.mpr ⟨0, by decide +kernel⟩
  exact ⟨range, t, taken, i, dispatched, selected i dispatched⟩

instance (s t : Mlfq) (i : Slot) : Decidable (Dispatched s t i) :=
  inferInstanceAs (Decidable (_ ∧ _))

instance (s : Mlfq) (j : Slot) (q : Nat) : Decidable (s.Waits j q) :=
  inferInstanceAs (Decidable (_ ∧ _))

/-- The first process runs. -/
def readyRun : Mlfq := (ready.boost 0).dispatch 0

/-- The first process has yielded. -/
def readyBack : Mlfq := (readyRun.step (.yield 0)).getD readyRun

/-- The first process is dispatched twice in a row while the second one waits:
each pass starts at the first slot again. -/
theorem ready_overtaken : ∃ s t u v, Reaches (fun _ _ => True) s ∧
    Overtaken (fun _ _ => True) 0 1 0 s t u v := by
  have yielded : readyRun.step (.yield 0) = some readyBack := by
    have some : (readyRun.step (.yield 0)).isSome = true := by decide +kernel
    obtain ⟨u, taken⟩ := Option.isSome_iff_exists.mp some
    unfold readyBack
    rw [taken]
    rfl
  have waits : readyRun.Waits 1 0 ∧ (readyRun.task 0).state ≠ .unused := by
    decide +kernel
  refine ⟨ready, readyRun, readyBack, (readyBack.boost 0).dispatch 0, ready_reached, ?_⟩
  constructor
  case first | second => exact ⟨0, trivial, rfl⟩
  case dispatched | still | again | last => decide +kernel
  case waits => exact waits.1
  case meanwhile => exact .next (.start rfl) ⟨trivial, waits⟩ yielded

instance (s : Mlfq) (move : Move) : Decidable (s.Orderly move) :=
  match move with
  | .yield _ | .wakeup _ | .pass _ => inferInstanceAs (Decidable (∀ _, _ → _))
  | .create _ | .abandon _ | .publish _ | .sleep _ | .exit _ | .reap _ =>
    inferInstanceAs (Decidable True)

-- The second process has its turn between two of the first, all moves orderly.
example : (([Move.pass 0, .sleep 0, .pass 0, .sleep 1, .wakeup 0, .wakeup 1,
    .pass 0].foldlM (fun s move =>
      if decide (s.Orderly move) then s.step move else none) ready).map
    fun s => ((s.task 0).state, (s.task 1).state)) = some (.running, .runnable) := by
  decide +kernel

end Mlfq

end Xv6
