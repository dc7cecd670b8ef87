/-
Purpose: The scheduler with a record of what happened to each process: when it
  was last dispatched, woken or boosted, and how many ticks it was charged at
  each level.
-/
import Xv6.Proofs.Selection

namespace Xv6

/-! ## The record -/

/-- The history of one process.  `since` is the tick of the latest of its last
dispatch, its last boost and the last move that made it RUNNABLE, `raised` says
whether it was boosted since its last dispatch, and `total` counts the ticks
charged at each level since it was created. -/
structure Note where
  since : Nat
  raised : Bool
  total : Nat → Nat

/-- One tick more at a level. -/
def Note.charge (n : Note) (level : Nat) : Note :=
  { n with total := Function.update n.total level (n.total level + 1) }

/-- The history after a move that takes the proc from `p` to `q`. -/
def Note.after (clock : Nat) (p q : Task) (n : Note) : Mlfq.Move → Note
  | .create _ =>
    if p.state = .unused ∧ q.state = .embryo then
      { n with total := fun _ => 0 }
    else n
  | .pass _ =>
    if p.state = .runnable ∧ q.state = .running then
      { n with since := clock, raised := false }
    else if q.priority < p.priority then
      { n with since := clock, raised := true }
    else n
  | .publish _ =>
    if p.state = .embryo ∧ q.state = .runnable then
      { n with since := clock }
    else n
  | .yield _ =>
    if p.state = .running ∧ q.state = .runnable then
      { n.charge p.priority with since := clock }
    else n
  | .wakeup _ =>
    if p.state = .sleeping ∧ q.state = .runnable then
      { n with since := clock }
    else n
  | _ => n

/-- The process table, the number of timer interrupts and the histories.  The
kernel's `ticks` is the number of interrupts, in 32 bits. -/
structure Annals where
  table : Mlfq
  clock : Nat
  note : Slot → Note

namespace Annals

/-- A timer interrupt, or a move of the scheduler model. -/
inductive Event where
  | tick
  | move (move : Mlfq.Move)
deriving DecidableEq

/-- One event, if it is possible. -/
def step (a : Annals) : Event → Option Annals
  | .tick => some { a with clock := a.clock + 1 }
  | .move move =>
    (a.table.step move).map fun t =>
      { a with
        table := t
        note := fun i => (a.note i).after a.clock (a.table.task i) (t.task i) move }

/-- The machine starts. -/
structure Starts (a : Annals) : Prop where
  table : a.table.Starts
  clock : a.clock = 0
  note : ∀ i, a.note i = { since := 0, raised := false, total := fun _ => 0 }

/-- States reached by events that meet `allowed`. -/
abbrev Reaches (allowed : Annals → Event → Prop) : Annals → Prop :=
  Reach Starts (fun a event b => a.step event = some b) allowed

end Annals

namespace Note

variable {n : Note} {p : Task} {clock : Nat} {move : Mlfq.Move}

theorem after_kept (other : ∀ now, move ≠ .pass now) : n.after clock p p move = n := by
  cases move with
  | pass now => exact absurd rfl (other now)
  | create _ => exact if_neg fun both => nomatch both.1.symm.trans both.2
  | publish _ => exact if_neg fun both => nomatch both.1.symm.trans both.2
  | yield _ => exact if_neg fun both => nomatch both.1.symm.trans both.2
  | wakeup _ => exact if_neg fun both => nomatch both.1.symm.trans both.2
  | _ => rfl

theorem after_passed (now : Nat) : n.after clock p (p.rested now) (.pass now) =
      if p.starving now then { n with since := clock, raised := true }
      else n := by
  simp only [Note.after]
  rw [if_neg fun both => nomatch both.1.symm.trans (Task.rested_state.symm.trans both.2)]
  cases starving : p.starving now with
  | true =>
    have pos : 0 < p.priority := by
      unfold Task.starving at starving
      simp only [Bool.and_eq_true, decide_eq_true_eq] at starving
      exact starving.1.2
    have lower : (p.rested now).priority < p.priority := by
      unfold Task.rested
      rw [if_pos starving]
      exact Nat.sub_lt pos Nat.one_pos
    rw [if_pos lower, if_pos rfl]
  | false =>
    rw [Task.rested_fed starving, if_neg (Nat.lt_irrefl _), if_neg (by decide)]

theorem after_dispatched {q : Task} {now : Nat} (before : p.state = .runnable)
    (after : q.state = .running) : n.after clock p q (.pass now) =
      { n with since := clock, raised := false } :=
  if_pos ⟨before, after⟩

theorem after_published {q : Task} {i : Slot} (before : p.state = .embryo)
    (after : q.state = .runnable) : n.after clock p q (.publish i) = { n with since := clock } :=
  if_pos ⟨before, after⟩

theorem after_yielded {q : Task} {i : Slot} (before : p.state = .running)
    (after : q.state = .runnable) :
    n.after clock p q (.yield i) = { n.charge p.priority with since := clock } :=
  if_pos ⟨before, after⟩

theorem after_woken {q : Task} {i : Slot} (before : p.state = .sleeping)
    (after : q.state = .runnable) : n.after clock p q (.wakeup i) = { n with since := clock } :=
  if_pos ⟨before, after⟩

end Note

namespace Annals

variable {a b : Annals} {move : Mlfq.Move} {allowed : Annals → Event → Prop}

theorem step_move (taken : a.step (.move move) = some b) : b.clock = a.clock ∧
    a.table.step move = some b.table ∧
    ∀ i, b.note i = (a.note i).after a.clock (a.table.task i) (b.table.task i) move := by
  obtain ⟨t, moved, rfl⟩ := Option.map_eq_some_iff.mp taken
  exact ⟨rfl, moved, fun _ => rfl⟩

/-- The table alone is a run of the scheduler model. -/
theorem table_reaches (reached : Reaches allowed a) : Mlfq.Reaches (fun _ _ => True) a.table := by
  refine Reach.invariant (I := fun a => Mlfq.Reaches (fun _ _ => True) a.table) ?_ ?_ reached
  · exact fun a starts => .start starts.table
  · intro a event b before _ taken
    cases event with
    | tick =>
      cases taken
      exact before
    | move move => exact .next before trivial (step_move taken).2.1

/-! ## Parts of runs -/

/-- The machine starts, as a value. -/
def origin : Annals where
  table := Mlfq.start
  clock := 0
  note := fun _ => { since := 0, raised := false, total := fun _ => 0 }

theorem origin_starts : origin.Starts := ⟨fun _ => rfl, rfl, fun _ => rfl⟩

/-- The process of slot `i` is dispatched and charged `n` times in tick 0. -/
def charges (i : Slot) (n : Nat) : List Event :=
  (List.replicate n [Event.move (.pass 0), Event.move (.yield i)]).flatten

/-- A process is created in slot `i`. -/
def births (i : Slot) : List Event :=
  [.move (.create true), .move (.publish i)]

end Annals

end Xv6
