/-
Purpose: When the boosts of a process are spaced by the starvation period, and
  three runs in which they are not.
-/
import Xv6.Proofs.TickHistory

namespace Xv6

open Note

namespace Annals

variable {a b : Annals} {event : Event} {move : Mlfq.Move}

/-- The scheduler raises the process of slot `i`. -/
def Raises (a b : Annals) (i : Slot) : Prop :=
  (b.table.task i).priority < (a.table.task i).priority

/-- The process goes up one level.  It is RUNNABLE, and the latest of its last
dispatch, its last boost and the move that made it RUNNABLE is more than the
starvation period ago. -/
structure Due (a b : Annals) (i : Slot) : Prop where
  runnable : (a.table.task i).state = .runnable
  one : (b.table.task i).priority + 1 = (a.table.task i).priority
  waited : (a.note i).since + TSTARV < a.clock

/-- What the scheduler's test relies on: `ticks` stays away from its wrap, what
a pass has copied is not ahead of it, a process comes to wait at a level other
than 0 only in the tick that its last dispatch recorded, and nobody starves who
was boosted already since its last dispatch. -/
def Timely (a : Annals) : Event → Prop
  | .tick => a.clock + 1 + TSTARV < 2 ^ 32
  | .move (.wakeup i) => (a.table.task i).priority = 0 ∨ (a.table.task i).lastSched = a.clock
  | .move (.yield i) =>
    (a.table.task i).updateTicks.priority = 0 ∨ (a.table.task i).lastSched = a.clock
  | .move (.pass now) => now ≤ a.clock ∧
    ∀ i, (a.table.task i).starving now = true → (a.note i).raised = false
  | .move _ => True

/-- The time stamp of a process that may starve is right. -/
structure OnTime (clock : Nat) (p : Task) (n : Note) : Prop where
  sched : p.lastSched ≤ clock
  embryo : p.state = .embryo → p.priority = 0
  waiting : p.state = .runnable → 0 < p.priority → n.raised = false → n.since = p.lastSched

theorem OnTime.change {clock : Nat} {i : Slot} {p q : Task} {n : Note}
    (onTime : OnTime clock p n) (changed : Task.Change i move p q)
    (copied : ∀ now, move = .pass now → now ≤ clock)
    (woken : move = .wakeup i → p.priority = 0 ∨ p.lastSched = clock)
    (ran : move = .yield i → p.updateTicks.priority = 0 ∨ p.lastSched = clock) :
    OnTime clock q (n.after clock p q move) := by
  obtain ⟨sched, embryo, waiting⟩ := onTime
  cases changed with
  | kept _ _ other =>
    rw [after_kept other]
    exact ⟨sched, embryo, waiting⟩
  | created => exact ⟨sched, fun _ => rfl, nofun⟩
  | refused | abandoned | slept | exited | reaped =>
    exact ⟨sched, nofun, nofun⟩
  | published _ here =>
    refine ⟨sched, nofun, fun _ pos => ?_⟩
    change 0 < p.priority at pos
    rw [embryo here] at pos
    cases pos
  | passed now =>
    rw [after_passed]
    cases starving : p.starving now with
    | true =>
      refine ⟨?_, ?_, ?_⟩
      · rwa [Task.rested_lastSched]
      · rw [Task.rested_state]
        intro here
        have none := embryo here
        have low : (p.rested now).priority ≤ p.priority := Task.rested_priority_le
        omega
      · intro _ _ raised
        cases raised
    | false =>
      rw [Task.rested_fed starving, if_neg (by decide)]
      exact ⟨sched, embryo, waiting⟩
  | dispatched now _ here =>
    rw [after_dispatched here rfl]
    exact ⟨copied now rfl, nofun, nofun⟩
  | yielded _ here =>
    rw [after_yielded here rfl]
    refine ⟨?_, nofun, fun _ pos _ => ?_⟩
    · rwa [Task.updateTicks_lastSched]
    · change 0 < p.updateTicks.priority at pos
      rw [Task.updateTicks_lastSched]
      exact ((ran rfl).resolve_left (Nat.ne_of_gt pos)).symm
  | woken _ here =>
    rw [after_woken here rfl]
    refine ⟨sched, nofun, fun _ pos _ => ?_⟩
    rcases woken rfl with zero | same
    · change 0 < p.priority at pos
      omega
    · exact same.symm

/-- In a timely run the clock is far from its wrap and every time stamp is
right. -/
structure Punctual (a : Annals) : Prop where
  clock : a.clock + TSTARV < 2 ^ 32
  onTime : ∀ i, OnTime a.clock (a.table.task i) (a.note i)

theorem Punctual.step (punctual : a.Punctual) (timely : a.Timely event)
    (taken : a.step event = some b) : b.Punctual := by
  cases event with
  | tick =>
    cases taken
    refine ⟨timely, fun i => ?_⟩
    obtain ⟨sched, embryo, waiting⟩ := punctual.onTime i
    exact ⟨Nat.le_succ_of_le sched, embryo, waiting⟩
  | move move =>
    obtain ⟨clock, moved, note⟩ := step_move taken
    constructor
    case clock =>
      rw [clock]
      exact punctual.clock
    case onTime =>
      intro i
      rw [clock, note i]
      refine (punctual.onTime i).change (Mlfq.change moved i) ?_ ?_ ?_
      · rintro now rfl
        exact timely.1
      · rintro rfl
        exact timely
      · rintro rfl
        exact timely

theorem punctual (reached : Reaches Timely a) : a.Punctual := by
  refine Reach.invariant (I := Punctual) ?_ ?_ reached
  · intro a starts
    refine ⟨by rw [starts.clock]; decide, fun i => ?_⟩
    rw [starts.table i, starts.note i]
    exact ⟨Nat.zero_le _, nofun, nofun⟩
  · intro a event b punctual timely taken
    exact punctual.step timely taken

theorem Raises.starving {now : Nat} {i : Slot} (raised : Raises a b i)
    (taken : a.step (.move (.pass now)) = some b) :
    (a.table.task i).starving now = true ∧
      (b.table.task i).priority + 1 = (a.table.task i).priority := by
  obtain ⟨_, moved, _⟩ := step_move taken
  unfold Raises at raised
  rw [Mlfq.pass_priority moved i, Mlfq.boost_task] at raised
  cases starving : (a.table.task i).starving now with
  | true =>
    refine ⟨rfl, ?_⟩
    rw [Mlfq.pass_priority moved i, Mlfq.boost_task]
    unfold Task.rested at raised ⊢
    rw [if_pos starving] at raised ⊢
    change (a.table.task i).priority - 1 < _ at raised
    exact Nat.sub_add_cancel (by omega)
  | false =>
    rw [Task.rested_fed starving] at raised
    exact absurd raised (Nat.lt_irrefl _)

/-- The process of slot `i` is woken, or raised by a pass. -/
def Renews (a b : Annals) (i : Slot) (event : Event) : Prop :=
  event = .move (.wakeup i) ∨ (∃ now, event = .move (.pass now)) ∧ Raises a b i

theorem Renews.since {i : Slot} (renews : Renews a b i event)
    (taken : a.step event = some b) : (b.note i).since = a.clock := by
  rcases renews with rfl | ⟨⟨now, rfl⟩, raised⟩
  · obtain ⟨_, moved, note⟩ := step_move taken
    simp only [Mlfq.step, Mlfq.advance] at moved
    split at moved
    · rename_i sleeping
      have table := Option.some.inj moved
      rw [note i, after_woken sleeping]
      rw [← table, Mlfq.set_self]
    · cases moved
  · obtain ⟨_, _, note⟩ := step_move taken
    unfold Raises at raised
    rw [note i]
    simp only [after]
    rw [if_pos raised]
    split
    · rfl
    · rfl

end Annals

theorem Note.after_since (clock : Nat) (p q : Task) (n : Note) (move : Mlfq.Move) :
    (n.after clock p q move).since = n.since ∨ (n.after clock p q move).since = clock := by
  cases move with
  | create _ =>
    simp only [after]
    split
    · exact .inl rfl
    · exact .inl rfl
  | publish _ | yield _ | wakeup _ =>
    simp only [after]
    split
    · exact .inr rfl
    · exact .inl rfl
  | pass _ =>
    simp only [after]
    split
    · exact .inr rfl
    · split
      · exact .inr rfl
      · exact .inl rfl
  | _ => exact .inl rfl

namespace Annals

variable {a b : Annals} {event : Event} {allowed : Annals → Event → Prop}

theorem step_since (taken : a.step event = some b) (i : Slot) (past : (a.note i).since ≤ a.clock) :
    (a.note i).since ≤ (b.note i).since ∧ (b.note i).since ≤ b.clock := by
  cases event with
  | tick =>
    cases taken
    exact ⟨Nat.le_refl _, Nat.le_succ_of_le past⟩
  | move move =>
    obtain ⟨clock, _, note⟩ := step_move taken
    rw [clock, note i]
    rcases after_since a.clock (a.table.task i) (b.table.task i) (a.note i) move with same | now
    · rw [same]
      exact ⟨Nat.le_refl _, past⟩
    · rw [now]
      exact ⟨past, Nat.le_refl _⟩

theorem since_le_clock (reached : Reaches allowed a) (i : Slot) : (a.note i).since ≤ a.clock := by
  refine Reach.invariant (I := fun a => (a.note i).since ≤ a.clock) ?_ ?_ reached
  · intro a starts
    rw [starts.note i]
    exact Nat.zero_le _
  · intro a event b past _ taken
    exact (step_since taken i past).2

theorem step_waits {i : Slot} {tick : Nat} (taken : a.step event = some b)
    (before : tick ≤ a.clock ∧ ((a.table.task i).state = .runnable → tick ≤ (a.note i).since)) :
    tick ≤ b.clock ∧ ((b.table.task i).state = .runnable → tick ≤ (b.note i).since) := by
  obtain ⟨past, waits⟩ := before
  cases event with
  | tick =>
    cases taken
    exact ⟨Nat.le_succ_of_le past, waits⟩
  | move move =>
    obtain ⟨clock, moved, note⟩ := step_move taken
    have changed := Mlfq.change moved i
    rw [clock, note i]
    refine ⟨past, fun runnable => ?_⟩
    generalize b.table.task i = q at *
    generalize a.table.task i = p at *
    rcases after_since a.clock p q (a.note i) move with same | now
    · by_cases was : p.state = .runnable
      · rw [same]
        exact waits was
      cases changed with
      | kept => exact absurd runnable was
      | published _ here => rwa [after_published here rfl]
      | passed => exact absurd (Task.rested_state.symm.trans runnable) was
      | dispatched _ _ here => exact absurd here was
      | yielded _ here => rwa [after_yielded here rfl]
      | woken _ here => rwa [after_woken here rfl]
      | created | refused | abandoned | slept | exited | reaped => cases runnable
    · rwa [now]

/-- A part of a timely run. -/
abbrev Leads (c a : Annals) : Prop :=
  Reach (fun s => s = c) (fun s event t => s.step event = some t) Timely a

/-- In every timely run a pass raises a process by one level only, when the
process has been RUNNABLE throughout the starvation period, and only more than
that period after it was woken or raised before, wherever in the run. -/
theorem boosts_spaced {a b : Annals} {now : Nat} {i : Slot}
    (reached : Reaches Timely a) (timely : a.Timely (.move (.pass now)))
    (taken : a.step (.move (.pass now)) = some b) (raised : Raises a b i) :
    Due a b i ∧
    (∀ c, Leads c a → a.clock ≤ c.clock + TSTARV → (c.table.task i).state = .runnable) ∧
    ∀ c d event, Reaches Timely c → c.step event = some d → Renews c d i event →
      Leads d a → c.clock + TSTARV < a.clock := by
  have due : Due a b i := by
    obtain ⟨starving, one⟩ := raised.starving taken
    have punctual := punctual reached
    have onTime := punctual.onTime i
    have far := punctual.clock
    have unraised := timely.2 i starving
    unfold Task.starving at starving
    simp only [Bool.and_eq_true, beq_iff_eq, decide_eq_true_eq] at starving
    obtain ⟨⟨runnable, pos⟩, late⟩ := starving
    have small : (a.table.task i).lastSched + TSTARV < 2 ^ 32 := by
      have past := onTime.sched
      omega
    refine ⟨runnable, one, ?_⟩
    rw [onTime.waiting runnable pos unraised]
    rw [u32, Nat.mod_eq_of_lt small] at late
    exact late.trans_le timely.1
  have waited := due.waited
  refine ⟨due, fun c onwards recent => ?_, fun c d event before happened renews onwards => ?_⟩
  · by_contra other
    have waits : c.clock ≤ a.clock ∧
        ((a.table.task i).state = .runnable → c.clock ≤ (a.note i).since) := by
      refine Reach.invariant (I := fun a => c.clock ≤ a.clock ∧
        ((a.table.task i).state = .runnable → c.clock ≤ (a.note i).since)) ?_ ?_ onwards
      · rintro a rfl
        exact ⟨Nat.le_refl _, fun runnable => absurd runnable other⟩
      · exact fun a event b waits _ taken => step_waits taken waits
    have since := waits.2 due.runnable
    omega
  · have later : (d.note i).since ≤ (a.note i).since ∧ (a.note i).since ≤ a.clock := by
      refine Reach.invariant (I := fun a => (d.note i).since ≤ (a.note i).since ∧
        (a.note i).since ≤ a.clock) ?_ ?_ onwards
      · rintro a rfl
        exact ⟨Nat.le_refl _, (step_since happened i (since_le_clock before i)).2⟩
      · intro a event b both _ taken
        have next := step_since taken i both.2
        exact ⟨both.1.trans next.1, next.2⟩
    rw [renews.since happened] at later
    omega

/-! ## Some runs -/

/-- What a test of a pass at tick 101 looks at. -/
def passFacts (i : Slot) (a : Annals) : Option (Nat × Nat × Nat × Nat) :=
  (a.step (.move (.pass 101))).map fun b =>
    ((b.table.task i).priority, (a.table.task i).priority, (a.note i).since, a.clock)

theorem passFacts_some {i : Slot} {new old since clock : Nat}
    (shown : passFacts i a = some (new, old, since, clock)) :
    ∃ b, a.step (.move (.pass 101)) = some b ∧
      (b.table.task i).priority = new ∧ (a.table.task i).priority = old ∧
      (a.note i).since = since ∧ a.clock = clock := by
  obtain ⟨b, taken, facts⟩ := Option.map_eq_some_iff.mp shown
  simp only [Prod.mk.injEq] at facts
  exact ⟨b, taken, facts⟩

/-- After these events a pass in tick 101 raises process `i`, for which it is too
early: it has been ready since tick `since` only. -/
def RaisedEarly (events : List Event) (i : Slot) (since : Nat) : Prop :=
  ∃ a b, events.foldlM step origin = some a ∧ Reaches (fun _ _ => True) a ∧
    a.step (.move (.pass 101)) = some b ∧ Raises a b i ∧ (a.note i).since = since ∧
    a.clock = 101 ∧ ¬ Due a b i

theorem raisedEarly {events : List Event} {i : Slot} {since : Nat}
    (shown : (events.foldlM step origin).bind (passFacts i) = some (0, 1, since, 101))
    (early : 101 ≤ since + TSTARV) : RaisedEarly events i since := by
  obtain ⟨a, reaches, shown⟩ := Option.bind_eq_some_iff.mp shown
  obtain ⟨b, taken, new, old, since, clock⟩ := passFacts_some shown
  refine ⟨a, b, reaches, Reach.foldlM (.start origin_starts) reaches, taken, ?_, since, clock,
    fun due => ?_⟩
  · unfold Raises
    omega
  · have waited := due.waited
    omega

/-- The process sleeps at level 1 for longer than the starvation period. -/
def longSleep : List Event :=
  births 0 ++ charges 0 5 ++ [.move (.pass 0), .move (.sleep 0)] ++
    List.replicate 101 .tick ++ [.move (.wakeup 0)]

/-- The second process waits at level 2, and two passes follow each other in one
tick. -/
def twoPasses : List Event :=
  births 0 ++ births 1 ++ [.move (.pass 0), .move (.sleep 0)] ++ charges 1 10 ++
    [.move (.wakeup 0)] ++ List.replicate 101 .tick ++ [.move (.pass 101)]

/-- The process runs at level 1 for 50 ticks and waits for 51. -/
def longTurn : List Event :=
  births 0 ++ charges 0 5 ++ [.move (.pass 0)] ++ List.replicate 50 .tick ++
    [.move (.yield 0)] ++ List.replicate 51 .tick

/-- A process is raised in the tick in which it was woken, one in the tick in
which it was raised already, and one that has waited for 51 ticks. -/
theorem boosts_crowded :
    RaisedEarly longSleep 0 101 ∧ RaisedEarly twoPasses 1 101 ∧ RaisedEarly longTurn 0 50 := by
  refine ⟨raisedEarly ?_ (by decide), raisedEarly ?_ (by decide), raisedEarly ?_ (by decide)⟩
  all_goals decide +kernel

instance (a : Annals) (event : Event) : Decidable (a.Timely event) :=
  match event with
  | .tick => inferInstanceAs (Decidable (_ < _))
  | .move (.wakeup _) | .move (.yield _) => inferInstanceAs (Decidable (_ ∨ _))
  | .move (.pass _) => inferInstanceAs (Decidable (_ ∧ ∀ _, _ → _))
  | .move (.create _) | .move (.abandon _) | .move (.publish _) | .move (.sleep _)
  | .move (.exit _) | .move (.reap _) => inferInstanceAs (Decidable True)

/-- The process waits at level 1 for longer than the starvation period. -/
def longWait : List Event :=
  births 0 ++ charges 0 5 ++ List.replicate 101 .tick

theorem longWait_due : ∃ a b, Reaches Timely a ∧
    a.step (.move (.pass 101)) = some b ∧ Raises a b 0 ∧ Due a b 0 := by
  have run : (longWait.foldlM (fun a event =>
      if decide (a.Timely event) then a.step event else none) origin).bind
        (fun a => if decide (a.Timely (.move (.pass 101))) then
          passFacts 0 a else none) = some (0, 1, 0, 101) := by
    decide +kernel
  obtain ⟨a, reaches, shown⟩ := Option.bind_eq_some_iff.mp run
  obtain ⟨timely, facts⟩ := Option.ite_none_right_eq_some.mp shown
  obtain ⟨b, taken, new, old, _⟩ := passFacts_some facts
  have reached : Reaches Timely a :=
    Reach.checked (fun _ _ => of_decide_eq_true) (.start origin_starts) reaches
  have raised : Raises a b 0 := by
    unfold Raises
    omega
  exact ⟨a, b, reached, taken, raised,
    (boosts_spaced reached (of_decide_eq_true timely) taken raised).1⟩

end Annals

end Xv6
