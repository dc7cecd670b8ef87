/-
Purpose: When the scheduler's tick accounting is exact, and a run in which it
  is not: a slot keeps its ticks when it is used again or its process is
  boosted.
-/
import Xv6.Proofs.Selection

namespace Xv6

/-- The ticks of a process are those charged at its level, they are below the
quota, and the last tick of the quota is the one that demotes. -/
structure Task.Exact (p : Task) : Prop where
  ticks : p.ticks = p.charged
  below : p.priority < NPRIOR - 1 → p.ticks < tickQuota p.priority
  demoted : p.priority < NPRIOR - 1 → (p.updateTicks.priority = p.priority + 1 ↔
      p.charged + 1 = tickQuota p.priority)

namespace Task

variable {p q : Task}

theorem tickQuota_le (level : Nat) : tickQuota level ≤ 20 := by
  unfold tickQuota
  split <;> decide

/-- The third part of `Exact` follows from the others. -/
theorem exact_of (ticks : p.ticks = p.charged)
    (below : p.priority < NPRIOR - 1 → p.ticks < tickQuota p.priority) : p.Exact := by
  refine ⟨ticks, below, fun inner => ?_⟩
  have room := below inner
  have small := tickQuota_le p.priority
  have next : u32 (p.ticks + 1) = p.ticks + 1 := Nat.mod_eq_of_lt (by omega)
  unfold updateTicks
  simp only [next]
  split
  · rename_i last
    constructor
    · intro _
      omega
    · intro _
      rfl
  · rename_i more
    constructor
    · intro same
      exact absurd same (Nat.succ_ne_self _).symm
    · intro last
      exact absurd ⟨inner, by omega⟩ more

theorem Exact.congr (exact : p.Exact)
    (priority : q.priority = p.priority) (ticks : q.ticks = p.ticks)
    (charged : q.charged = p.charged) : q.Exact := by
  refine exact_of ?_ ?_
  · rw [ticks, charged]
    exact exact.ticks
  · rw [priority, ticks]
    exact exact.below

/-- A process that comes to a level without ticks starts its quota there. -/
theorem exact_fresh (ticks : p.ticks = 0) (charged : p.charged = 0) : p.Exact := by
  refine exact_of (ticks.trans charged.symm) fun _ => ?_
  rw [ticks]
  unfold tickQuota
  split <;> decide

/-- `update_ticks` keeps the account, unless `ticks` wraps at the last
level. -/
theorem Exact.updateTicks (exact : p.Exact)
    (fits : p.ticks + 1 < 2 ^ 32) : p.updateTicks.Exact := by
  have next : u32 (p.ticks + 1) = p.ticks + 1 := Nat.mod_eq_of_lt fits
  unfold Task.updateTicks
  simp only [next]
  split
  · exact exact_fresh rfl rfl
  · rename_i more
    refine exact_of ?_ fun inner => ?_
    · rw [exact.ticks]
    · exact Nat.lt_of_not_le fun last => more ⟨inner, last⟩

/-- The boost loop. -/
theorem Exact.rested {now : Nat} (exact : p.Exact) (boosted : p.starving now = true → p.ticks = 0) :
    (p.rested now).Exact := by
  unfold Task.rested
  split
  · rename_i starving
    exact exact_fresh (boosted starving) rfl
  · exact exact

theorem Exact.change {i : Slot} {move : Mlfq.Move}
    (changed : Change i move p q) (exact : p.state ≠ .unused → p.Exact) (used : q.state ≠ .unused)
    (taken : move = .create true → p.state = .unused → p.ticks = 0)
    (boosted : ∀ now, move = .pass now → p.starving now = true → p.ticks = 0)
    (fits : move = .yield i → p.ticks + 1 < 2 ^ 32) : q.Exact := by
  have known : ∀ {state}, p.state = state → state ≠ .unused → p.Exact :=
    fun here other => exact (here ▸ other)
  cases changed with
  | kept => exact exact used
  | created _ unused => exact exact_fresh (taken rfl unused) rfl
  | refused => exact absurd rfl used
  | abandoned => exact absurd rfl used
  | published _ embryo | slept _ embryo | woken _ embryo | exited _ embryo =>
    exact (known embryo (by decide)).congr rfl rfl rfl
  | passed now =>
    rw [rested_state] at used
    exact (exact used).rested (boosted now rfl)
  | dispatched now _ runnable =>
    exact ((known runnable (by decide)).rested (boosted now rfl)).congr rfl rfl rfl
  | yielded _ running =>
    exact ((known running (by decide)).updateTicks (fits rfl)).congr rfl rfl rfl
  | reaped => exact absurd rfl used

end Task

namespace Mlfq

/-- What the accounting asks of a move: a slot is taken, and a process boosted,
only when its `ticks` is 0, and `ticks` does not wrap. -/
def Clean (s : Mlfq) : Move → Prop
  | .create _ => ∀ i, s.unusedSlot = some i → (s.task i).ticks = 0
  | .pass now => ∀ i, (s.task i).starving now = true → (s.task i).ticks = 0
  | .yield i => (s.task i).ticks + 1 < 2 ^ 32
  | _ => True

/-- Every slot in use has an exact account. -/
def Accounted (s : Mlfq) : Prop :=
  ∀ i, (s.task i).state ≠ .unused → (s.task i).Exact

theorem Accounted.step {s t : Mlfq} (accounted : s.Accounted) {move : Move}
    (clean : s.Clean move) (taken : s.step move = some t) : t.Accounted := by
  intro i used
  refine Task.Exact.change (change taken i) (accounted i) used ?_ ?_ ?_
  · rintro rfl unused
    exact clean i (create_slot taken unused used)
  · rintro now rfl
    exact clean i
  · rintro rfl
    exact clean

/-- Quota accounting is exact in every run that takes slots and boosts
processes only without ticks. -/
theorem quota_exact {s : Mlfq} (reached : Reaches Clean s) :
    ∀ i, (s.task i).state ≠ .unused → (s.task i).Exact := by
  refine Reach.invariant (I := Accounted) ?_ ?_ reached
  · intro s starts i used
    rw [starts i] at used
    exact absurd rfl used
  · intro s move t accounted clean taken
    exact accounted.step clean taken

instance (s : Mlfq) (move : Move) : Decidable (s.Clean move) :=
  match move with
  | .create _ => inferInstanceAs (Decidable (∀ _, _ → _))
  | .pass _ => inferInstanceAs (Decidable (∀ _, _ → _))
  | .yield _ => inferInstanceAs (Decidable (_ < _))
  | .abandon _ | .publish _ | .sleep _ | .wakeup _ | .exit _ | .reap _ =>
    inferInstanceAs (Decidable True)

/-- What a test of a run looks at. -/
def facts (i : Slot) (s : Mlfq) : ProcState × Nat × Nat × Nat :=
  ((s.task i).state, (s.task i).priority, (s.task i).ticks, (s.task i).charged)

/-- A process runs for `n` ticks. -/
def turns (n : Nat) : List Move :=
  [.create true, .publish 0] ++ (List.replicate n [Move.pass 0, Move.yield 0]).flatten

theorem turns_exact : ∃ s, Reaches Clean s ∧
    s.facts 0 = (.runnable, 1, 1, 1) ∧ (s.task 0).Exact := by
  have run : ((turns 6).foldlM (fun s move =>
      if decide (s.Clean move) then s.step move else none) start).map
        (facts 0) = some (.runnable, 1, 1, 1) := by
    decide +kernel
  obtain ⟨s, reaches, shown⟩ := Option.map_eq_some_iff.mp run
  have reached : Reaches Clean s :=
    Reach.checked (fun _ _ => of_decide_eq_true) (.start fun _ => rfl) reaches
  refine ⟨s, reached, shown, quota_exact reached 0 ?_⟩
  have state : (s.task 0).state = .runnable := congrArg Prod.fst shown
  rw [state]
  decide

/-- The second slot is used twice: its process is charged one tick, exits and
is reaped. -/
def reuse : List Move :=
  [.create true, .publish 0, .create true, .publish 1, .pass 0, .sleep 0,
    .pass 0, .yield 1, .pass 1, .exit 1, .wakeup 0, .reap 1, .create true]

/-- A new process has a tick nobody charged to it, and a boosted one more ticks
than the quota of its level. -/
theorem quota_inexact : (∃ s, Reaches (fun _ _ => True) s ∧ s.facts 1 = (.embryo, 0, 1, 0) ∧
      ¬ (s.task 1).Exact) ∧
    ∃ s, Reaches (fun _ _ => True) s ∧ s.facts 0 = (.running, 1, 8, 0) ∧ tickQuota 1 < 8 ∧
      ¬ (s.task 0).Exact := by
  have first : (reuse.foldlM step start).map (facts 1) = some (.embryo, 0, 1, 0) := by
    decide +kernel
  have second : ((turns 18 ++ [Move.pass 101]).foldlM step start).map (facts 0) =
      some (.running, 1, 8, 0) := by
    decide +kernel
  obtain ⟨s, reachesS, shownS⟩ := Option.map_eq_some_iff.mp first
  obtain ⟨t, reachesT, shownT⟩ := Option.map_eq_some_iff.mp second
  refine ⟨⟨s, Reach.foldlM (.start fun _ => rfl) reachesS, shownS, fun exact => ?_⟩,
    t, Reach.foldlM (.start fun _ => rfl) reachesT, shownT, by decide, fun exact => ?_⟩
  · simp only [facts, Prod.mk.injEq] at shownS
    have ticks := exact.ticks
    omega
  · simp only [facts, Prod.mk.injEq] at shownT
    have below := exact.below
    rw [shownT.2.1, shownT.2.2.1] at below
    exact absurd (below (by decide)) (by decide)

end Mlfq

end Xv6
