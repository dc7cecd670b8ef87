/-
Purpose: When `getpinfo` reports the ticks charged to a process, and a run in
  which it hides one.
-/
import Xv6.Proofs.TickHistory

namespace Xv6

open Note Function

namespace Annals

variable {a b : Annals} {allowed : Annals → Event → Prop}
variable {i : Slot} {p q : Task} {n : Note}

/-- `getpinfo` reports the ticks charged to the process of slot `i`. -/
def Reports (pid : Slot → Nat) (a : Annals) (i : Slot) : Prop :=
  ∀ level < NPRIOR, (a.table.getpinfo pid).ticks i level = (a.note i).total level

/-- The process used up the quota of every level above its own, was never below
it, and its ticks fit into an `int`. -/
structure Regular (a : Annals) (i : Slot) : Prop where
  before : ∀ level < (a.table.task i).priority, (a.note i).total level = tickQuota level
  here : (a.note i).total (a.table.task i).priority < 2 ^ 31
  beyond : ∀ level, (a.table.task i).priority < level → level < NPRIOR → (a.note i).total level = 0

/-- `ticks_used` has the ticks charged, in 32 bits. -/
def Counted (p : Task) (n : Note) : Prop :=
  p.state ≠ .unused → ∀ level < NPRIOR, p.ticksUsed level = u32 (n.total level)

theorem Counted.change {clock : Nat}
    {move : Mlfq.Move} (counted : Counted p n) (changed : Task.Change i move p q) :
    Counted q (n.after clock p q move) := by
  cases changed with
  | kept _ _ other =>
    rw [after_kept other]
    exact counted
  | created _ here =>
    intro _ level small
    change (if level < NPRIOR then 0 else p.ticksUsed level) =
      u32 ((if p.state = .unused ∧ p.claimed.state = .embryo then
        { n with total := fun _ => 0 } else n : Note).total level)
    rw [if_pos small, if_pos ⟨here, rfl⟩]
    rfl
  | refused => exact fun used => absurd rfl used
  | abandoned => exact fun used => absurd rfl used
  | published _ here =>
    rw [after_published here rfl]
    exact fun _ => counted (by rw [here]; decide)
  | passed now =>
    unfold Counted
    rw [Task.rested_state, Task.rested_ticksUsed, after_passed]
    split
    · exact counted
    · exact counted
  | dispatched now _ here =>
    rw [after_dispatched here rfl]
    intro _
    rw [Task.rested_ticksUsed]
    exact counted (by rw [here]; decide)
  | yielded _ here =>
    rw [after_yielded here rfl]
    intro _ level small
    have before := counted (by rw [here]; decide)
    have used : p.updateTicks.ticksUsed = update p.ticksUsed p.priority
          (u32 (p.ticksUsed p.priority + 1)) := by
      unfold Task.updateTicks
      dsimp only
      split <;> rfl
    change p.updateTicks.ticksUsed level = u32 (update n.total p.priority _ level)
    rw [used]
    by_cases same : level = p.priority
    · subst same
      rw [update_self, update_self, before _ small]
      exact Nat.mod_add_mod ..
    · rw [update_of_ne same, update_of_ne same]
      exact before level small
  | slept _ here => exact fun _ => counted (by rw [here]; decide)
  | woken _ here =>
    rw [after_woken here rfl]
    exact fun _ => counted (by rw [here]; decide)
  | exited _ here => exact fun _ => counted (by rw [here]; decide)
  | reaped => exact fun used => absurd rfl used

theorem counted (reached : Reaches allowed a) (i : Slot) : Counted (a.table.task i) (a.note i) := by
  refine Reach.invariant (I := fun a => Counted (a.table.task i) (a.note i)) ?_ ?_ reached
  · intro a starts used
    rw [starts.table i] at used
    exact absurd rfl used
  · intro a event b counted _ taken
    cases event with
    | tick =>
      cases taken
      exact counted
    | move move =>
      obtain ⟨_, moved, note⟩ := step_move taken
      rw [note i]
      exact counted.change (Mlfq.change moved i)

theorem toInt32_u32 (n : Nat) : toInt32 (u32 n) = n ↔ n < 2 ^ 31 := by
  unfold toInt32 u32
  split
  · omega
  · omega

theorem reports_iff (reached : Reaches allowed a) (pid : Slot → Nat)
    (used : (a.table.task i).state ≠ .unused) : Reports pid a i ↔ Regular a i := by
  have range := Mlfq.priority_lt (table_reaches reached) i
  have counted := counted reached i used
  constructor
  · intro reports
    constructor
    case before =>
      intro level above
      have shown := reports level (above.trans range)
      simp only [Mlfq.getpinfo] at shown
      rw [if_pos above] at shown
      exact (Int.ofNat.inj shown).symm
    case here =>
      have shown := reports _ range
      simp only [Mlfq.getpinfo] at shown
      rw [if_neg (Nat.lt_irrefl _), if_pos trivial, counted _ range, toInt32_u32] at shown
      exact shown
    case beyond =>
      intro level below small
      have shown := reports level small
      simp only [Mlfq.getpinfo] at shown
      rw [if_neg (by omega), if_neg (by omega)] at shown
      omega
  · intro regular level small
    simp only [Mlfq.getpinfo]
    split
    · rename_i above
      rw [regular.before level above]
    · rename_i notAbove
      split
      · rename_i same
        subst same
        rw [counted _ range, toInt32_u32]
        exact regular.here
      · rw [regular.beyond level (by omega) small]
        rfl

/-! ## Runs without boosts -/

/-- Nobody is boosted, and a slot is taken only when the ticks of the process
before it are gone. -/
def Steady (a : Annals) : Event → Prop
  | .move (.create _) => ∀ i, a.table.unusedSlot = some i → (a.table.task i).ticks = 0
  | .move (.pass now) => ∀ i, (a.table.task i).starving now = false
  | .move (.yield i) => (a.table.task i).ticks + 1 < 2 ^ 32
  | _ => True

/-- The ticks of a process are those charged at its level, it has left the
levels above with their quotas, and none of those below was reached. -/
structure Level (p : Task) (n : Note) : Prop where
  ticks : n.total p.priority = p.ticks
  left : p.priority < NPRIOR - 1 → p.ticks < tickQuota p.priority
  before : ∀ level < p.priority, n.total level = tickQuota level
  beyond : ∀ level, p.priority < level → n.total level = 0

theorem Level.congr {m : Note} (level : Level p n)
    (priority : q.priority = p.priority) (ticks : q.ticks = p.ticks)
    (total : m.total = n.total) : Level q m := by
  obtain ⟨here, left, before, beyond⟩ := level
  constructor
  · rw [total, priority, ticks]
    exact here
  · rw [priority, ticks]
    exact left
  · rw [total, priority]
    exact before
  · rw [total, priority]
    exact beyond

theorem Level.yield (level : Level p n) (fits : p.ticks + 1 < 2 ^ 32) :
    Level p.updateTicks (n.charge p.priority) := by
  obtain ⟨ticks, left, before, beyond⟩ := level
  have next : u32 (p.ticks + 1) = p.ticks + 1 := Nat.mod_eq_of_lt fits
  have here : (n.charge p.priority).total p.priority = p.ticks + 1 := by
    rw [← ticks]
    exact update_self ..
  have other : ∀ level ≠ p.priority, (n.charge p.priority).total level = n.total level :=
    fun level different => update_of_ne different ..
  unfold Task.updateTicks
  simp only [next]
  split
  · rename_i full
    have room := left full.1
    refine ⟨?_, fun _ => ?_, fun level above => ?_, fun level below => ?_⟩
    · exact (other _ (Nat.succ_ne_self _)).trans (beyond _ (Nat.lt_succ_self _))
    · change 0 < tickQuota (p.priority + 1)
      unfold tickQuota
      split <;> decide
    · rcases Nat.lt_succ_iff_lt_or_eq.mp above with less | same
      · rw [other level (Nat.ne_of_lt less)]
        exact before level less
      · subst same
        rw [here]
        omega
    · change p.priority + 1 < level at below
      rw [other level (by omega)]
      exact beyond level (by omega)
  · rename_i more
    refine ⟨here, fun inner => ?_, fun level above => ?_, fun level below => ?_⟩
    · exact Nat.lt_of_not_le fun last => more ⟨inner, last⟩
    · rw [other level (Nat.ne_of_lt above)]
      exact before level above
    · rw [other level (Nat.ne_of_gt below)]
      exact beyond level below

theorem Level.step {move : Mlfq.Move} (level : (a.table.task i).state ≠ .unused →
      Level (a.table.task i) (a.note i)) (steady : a.Steady (.move move))
    (taken : a.step (.move move) = some b) (used : (b.table.task i).state ≠ .unused) :
    Level (b.table.task i) (b.note i) := by
  obtain ⟨_, moved, note⟩ := step_move taken
  have changed := Mlfq.change moved i
  rw [note i]
  generalize after : b.table.task i = q at changed used
  generalize before : a.table.task i = p at changed level
  cases changed with
  | kept _ _ other =>
    rw [after_kept other]
    exact level used
  | created _ here =>
    have slot : a.table.unusedSlot = some i :=
      Mlfq.create_slot moved (by rwa [before]) (by rwa [after])
    have zero : p.ticks = 0 := by
      rw [← before]
      exact steady i slot
    have fresh : (a.note i).after a.clock p p.claimed (.create true) =
        { a.note i with total := fun _ => 0 } := if_pos ⟨here, rfl⟩
    rw [fresh]
    refine ⟨zero.symm, fun _ => ?_, nofun, fun _ _ => rfl⟩
    change p.ticks < 5
    omega
  | refused => exact absurd rfl used
  | abandoned => exact absurd rfl used
  | published _ here =>
    rw [after_published here rfl]
    exact (level (by rw [here]; decide)).congr rfl rfl rfl
  | slept _ here | exited _ here =>
    exact (level (by rw [here]; decide)).congr rfl rfl rfl
  | passed now =>
    have calm := steady i
    rw [before] at calm
    rw [after_passed, if_neg (by rw [calm]; decide), Task.rested_fed calm]
    rw [Task.rested_fed calm] at used
    exact level used
  | dispatched now _ here =>
    have calm := steady i
    rw [before] at calm
    rw [after_dispatched here rfl, Task.rested_fed calm]
    exact (level (by rw [here]; decide)).congr rfl rfl rfl
  | yielded _ here =>
    rw [after_yielded here rfl]
    have fits : p.ticks + 1 < 2 ^ 32 := by
      rw [← before]
      exact steady
    exact ((level (by rw [here]; decide)).yield fits).congr rfl rfl rfl
  | woken _ here =>
    rw [after_woken here rfl]
    exact (level (by rw [here]; decide)).congr rfl rfl rfl
  | reaped => exact absurd rfl used

/-- Without boosts every process is regular, as long as its ticks fit. -/
theorem steady_regular (reached : Reaches Steady a) (used : (a.table.task i).state ≠ .unused)
    (fits : (a.note i).total (a.table.task i).priority < 2 ^ 31) : Regular a i := by
  have level : (a.table.task i).state ≠ .unused → Level (a.table.task i) (a.note i) := by
    refine Reach.invariant (I := fun a => (a.table.task i).state ≠ .unused →
      Level (a.table.task i) (a.note i)) ?_ ?_ reached
    · intro a starts used
      rw [starts.table i] at used
      exact absurd rfl used
    · intro a event b level steady taken
      cases event with
      | tick =>
        cases taken
        exact level
      | move move => exact Level.step level steady taken
  obtain ⟨_, _, before, beyond⟩ := level used
  exact ⟨before, fits, fun level below _ => beyond level below⟩

/-- `getpinfo` reports the ticks charged to a process exactly if the process
is regular, which all are in runs without boosts. -/
theorem getpinfo_true_iff (a : Annals) :
    (Reaches (fun _ _ => True) a → ∀ (pid : Slot → Nat) (i : Slot),
      (a.table.task i).state ≠ .unused → (Reports pid a i ↔ Regular a i)) ∧
    (Reaches Steady a → ∀ i : Slot, (a.table.task i).state ≠ .unused →
      (a.note i).total (a.table.task i).priority < 2 ^ 31 → Regular a i) :=
  ⟨fun reached pid _ used => reports_iff reached pid used,
    fun reached _ used fits => steady_regular reached used fits⟩

/-- One tick at level 1, and then a boost. -/
def boostedBack : List Event :=
  births 0 ++ charges 0 6 ++ List.replicate 101 .tick ++ [.move (.pass 101)]

/-- The tick at level 1 is reported as none. -/
theorem boostedBack_hidden : ∃ a, Reaches (fun _ _ => True) a ∧
    (a.table.task 0).state ≠ .unused ∧ (a.note 0).total 1 = 1 ∧
    ∀ pid : Slot → Nat, (a.table.getpinfo pid).ticks 0 1 = 0 ∧ ¬ Reports pid a 0 := by
  have run : (boostedBack.foldlM step origin).map (fun a =>
      ((a.table.task 0).state, (a.note 0).total 1,
        (a.table.task 0).priority)) = some (.running, 1, 0) := by
    decide +kernel
  obtain ⟨a, reaches, shown⟩ := Option.map_eq_some_iff.mp run
  simp only [Prod.mk.injEq] at shown
  obtain ⟨state, total, priority⟩ := shown
  refine ⟨a, Reach.foldlM (.start origin_starts) reaches, ?_, total, fun pid => ?_⟩
  · rw [state]
    decide
  · have none : (a.table.getpinfo pid).ticks 0 1 = 0 := by
      simp [Mlfq.getpinfo, priority]
    refine ⟨none, fun reports => ?_⟩
    have shown := reports 1 (by decide)
    rw [none, total] at shown
    cases shown

instance (a : Annals) (event : Event) : Decidable (a.Steady event) :=
  match event with
  | .move (.create _) => inferInstanceAs (Decidable (∀ _, _ → _))
  | .move (.pass _) => inferInstanceAs (Decidable (∀ _, _ = _))
  | .move (.yield _) => inferInstanceAs (Decidable (_ < _))
  | .tick | .move (.abandon _) | .move (.publish _) | .move (.wakeup _)
  | .move (.sleep _) | .move (.exit _) | .move (.reap _) =>
    inferInstanceAs (Decidable True)

theorem charged_reported : ∃ a, Reaches Steady a ∧ (a.note 0).total 0 = 5 ∧ (a.note 0).total 1 = 1 ∧
    Reports (fun _ => 1) a 0 := by
  have run : ((births 0 ++ charges 0 6).foldlM (fun a event =>
      if decide (a.Steady event) then a.step event else none) origin).map
        (fun a => ((a.table.task 0).state, (a.table.task 0).priority,
          (a.note 0).total 0, (a.note 0).total 1)) =
      some (.runnable, 1, 5, 1) := by
    decide +kernel
  obtain ⟨a, reaches, shown⟩ := Option.map_eq_some_iff.mp run
  simp only [Prod.mk.injEq] at shown
  obtain ⟨state, priority, first, second⟩ := shown
  have reached : Reaches Steady a :=
    Reach.checked (fun _ _ => of_decide_eq_true) (.start origin_starts) reaches
  have used : (a.table.task 0).state ≠ .unused := by
    rw [state]
    decide
  have regular := (getpinfo_true_iff a).2 reached 0 used (by
    rw [priority, second]
    decide)
  have anyhow := Reach.weaken (fun _ _ _ => trivial) reached
  exact ⟨a, reached, first, second,
    ((getpinfo_true_iff a).1 anyhow (fun _ => 1) 0 used).mpr regular⟩

end Annals

end Xv6
