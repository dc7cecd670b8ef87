/-
Purpose: Whom `kill` reaches.  It looks for a pid in every slot, so that pid 0
  marks a slot without a process, and the next process of that slot is born
  marked.
-/
import Xv6.Conc.WaitWakeup

namespace Xv6

open Ptable Sched PanicM
open Option (ite_none_right_eq_some map_eq_some_iff)

variable {i : Slot} {p : Proc} {pid : Int}

/-! ## Slots marked before their process starts -/

/-- The slot has no process yet, and is marked as killed. -/
def Proc.Doomed (p : Proc) : Prop :=
  (p.state = .unused ∨ p.state = .embryo) ∧ p.killed = true

/-- No slot becomes doomed. -/
def Doomless (s t : Kernel) : Prop :=
  ∀ i, (t.proc i).Doomed → (s.proc i).Doomed

instance : IsPreorder Kernel Doomless where
  refl _ _ doomed := doomed
  trans _ _ _ one two i doomed := one i (two i doomed)

variable {s t : Kernel} {img : Image}

theorem Doomless.of_table (same : t.ptable = s.ptable) : Doomless s t := by
  intro i doomed
  have proc : t.proc = s.proc := congrArg proc same
  rwa [proc] at doomed

theorem Doomless.set (table : t.ptable.proc = (s.ptable.set i p).proc)
    (clean : p.Doomed → (s.proc i).Doomed) : Doomless s t := by
  intro j doomed
  change (t.ptable.proc j).Doomed at doomed
  rw [table] at doomed
  by_cases same : j = i
  · subst same
    rw [set_proc_self] at doomed
    exact clean doomed
  · rwa [set_proc_of_ne _ _ same] at doomed

theorem Proc.not_doomed (unused : p.state ≠ .unused) (embryo : p.state ≠ .embryo) : ¬ p.Doomed := by
  rintro ⟨early | early, _⟩
  · exact unused early
  · exact embryo early

theorem relates_updProc {update : Proc → Proc} (clean : ∀ p, (update p).Doomed → p.Doomed) :
    Relates Doomless (updProc i update) :=
  .modify fun s => .set rfl (clean (s.proc i))

theorem relates_frames {α : Type} {program : KM α}
    (frames : FramePtable program) : Relates Doomless program :=
  .of_frames frames fun _ _ same => .of_table same

theorem relates_deleteRef (d : Nat) : Relates Doomless (deleteRef d) := by
  refine .of_wp fun s => ?_
  simp only [deleteRef, wp_bind, wp_get, wp_set, wp_pure]
  exact fun _ doomed => doomed

theorem relates_addRef (d : Nat) : Relates Doomless (addRef d) :=
  .modify fun _ _ doomed => doomed

/-! ## The calls -/

theorem relates_reapDir (cur child : Slot) : Relates Doomless (reapDir img cur child) := by
  unfold reapDir
  refine .bind .get fun s => .bind (relates_deleteRef _) fun left => ?_
  refine .ite (.throw _) (.ite ?_ (.pure _))
  refine .bind (relates_frames (shmRelease_frames img _ _ _)) fun _ => ?_
  refine .bind (relates_updProc fun _ doomed => doomed) fun _ => ?_
  exact relates_frames (freevm_frames img cur _).ptable

theorem relates_reapStack (child : Slot) : Relates Doomless (reapStack img child) := by
  unfold reapStack
  refine .bind .get fun s => ?_
  refine .bind (relates_frames (kfree_frames img _).ptable) fun _ => ?_
  exact relates_updProc fun _ doomed => doomed

theorem relates_reapSlot (child : Slot) : Relates Doomless (reapSlot child) :=
  relates_updProc fun _ doomed => nomatch doomed.2

theorem relates_noZombie (cur : Slot) (kid : Slot → Bool) :
    Relates Doomless (noZombie cur kid) := by
  unfold noZombie
  refine .bind .get fun s => .ite (.pure _) ?_
  refine .bind (relates_updProc fun p => ?_) fun _ => .pure _
  exact fun doomed => absurd doomed (Proc.not_doomed nofun nofun)

theorem relates_wait (cur : Slot) : Relates Doomless (wait img cur) := by
  unfold wait
  refine .bind .get fun s => ?_
  split
  · refine .bind (relates_reapStack _) fun _ => ?_
    refine .bind (relates_reapDir cur _) fun _ => ?_
    refine .bind (relates_updProc fun _ doomed => doomed) fun _ => ?_
    exact .bind (relates_reapSlot _) fun _ => .pure _
  · exact relates_noZombie cur _

theorem relates_join (cur : Slot) (stack : Nat) : Relates Doomless (join img cur stack) := by
  unfold join
  refine .bind .get fun s => ?_
  split
  · refine .bind (relates_reapStack _) fun _ => ?_
    refine .bind (relates_frames (storeUser_frames cur _ _).ptable) fun _ => ?_
    refine .bind (relates_reapDir cur _) fun _ => ?_
    exact .bind (relates_reapSlot _) fun _ => .pure _
  · exact relates_noZombie cur _

theorem doomless_exit {cur : Slot} (exited : Exited s.ptable cur t.ptable) : Doomless s t := by
  intro i doomed
  change (t.ptable.proc i).Doomed at doomed
  by_cases self : i = cur
  · subst self
    rw [exited.zombie] at doomed
    exact absurd doomed (Proc.not_doomed nofun nofun)
  · by_cases roused : s.ptable.roused cur i
    · rw [exited.woken i self roused] at doomed
      exact absurd doomed (Proc.not_doomed nofun nofun)
    · rw [exited.kept i self roused] at doomed
      unfold Proc.orphaned at doomed
      split at doomed
      · exact doomed
      · exact doomed

theorem doomless_claim {r : Option Slot}
    (claimed : Claimed s.ptable r t.ptable) : Doomless s t := by
  generalize table : t.ptable = after at claimed
  cases claimed with
  | full => exact .of_table table
  | noPage i idle | taken i page idle =>
    refine .set (i := i) (by rw [table]; rfl) fun doomed => ?_
    exact ⟨.inl idle, doomed.2⟩

theorem doomless_copy {np : Slot} {ok : Bool} (embryo : (s.proc np).state = .embryo)
    (copied : Copied s.ptable np ok t.ptable) : Doomless s t := by
  generalize table : t.ptable = after at copied
  cases copied with
  | done d =>
    exact .set (congrArg proc table) fun doomed => doomed
  | failed d =>
    refine .set (congrArg proc table) fun doomed => ?_
    exact ⟨.inr embryo, doomed.2⟩

/-! ## What `kill` does -/

/-- The first slot with the pid, in use or not. -/
def Kernel.killSlot (s : Kernel) (pid : Int) : Option Slot :=
  (List.finRange NPROC).find? fun i => ((s.proc i).pid : Int) == pid

/-- The record of a process that was killed. -/
def Proc.marked (p : Proc) : Proc :=
  { p with
    killed := true
    state := if p.state = .sleeping then .runnable else p.state }

theorem kill_eq (s : Kernel) (pid : Int) : kill pid s = .ok (match s.killSlot pid with
      | none => (-1, s)
      | some i => (0, s.setProc i (s.proc i).marked)) := by
  have run : wp (kill pid) (fun result after =>
      (result, after) = match s.killSlot pid with
        | none => (-1, s)
        | some i => (0, s.setProc i (s.proc i).marked))
      (fun _ => False) s := by
    unfold kill
    rw [wp_bind, wp_get]
    change wp (match s.killSlot pid with | none => _ | some i => _) _ _ _
    cases s.killSlot pid with
    | none => rfl
    | some i => rfl
  obtain ⟨result, after, ran, same⟩ := wp_returns run
  rw [ran, same]

theorem Kernel.killSlot_some (found : s.killSlot pid = some i) : ((s.proc i).pid : Int) = pid := by
  have test := List.find?_some found
  simpa using test

theorem Kernel.killSlot_none (none : s.killSlot pid = none)
    (i : Slot) : ((s.proc i).pid : Int) ≠ pid := by
  have test := List.find?_eq_none.mp none i (List.mem_finRange i)
  simpa using test

/-- A process has the pid. -/
def Kernel.Live (s : Kernel) (pid : Int) : Prop :=
  ∃ i, (s.proc i).state ≠ .unused ∧ ((s.proc i).pid : Int) = pid

/-- `kill` returns 0 if a process has the pid, and otherwise -1, and then it
changes nothing. -/
def Kernel.KillRight (s : Kernel) (pid : Int) : Prop :=
  ∃ result t, kill pid s = .ok (result, t) ∧
    (result = 0 ↔ s.Live pid) ∧ (¬ s.Live pid → result = -1 ∧ t = s)

theorem kill_right_iff (s : Kernel) (pid : Int) : s.KillRight pid ↔ s.Live pid ∨
      ∀ i, (s.proc i).state = .unused → ((s.proc i).pid : Int) ≠ pid := by
  unfold Kernel.KillRight
  rw [kill_eq]
  cases found : s.killSlot pid with
  | none =>
    have dead : ¬ s.Live pid := by
      rintro ⟨i, _, same⟩
      exact Kernel.killSlot_none found i same
    constructor
    · intro _
      exact .inr fun i _ => Kernel.killSlot_none found i
    · intro _
      refine ⟨-1, s, rfl, ⟨fun zero => ?_, fun live => absurd live dead⟩, fun _ => ⟨rfl, rfl⟩⟩
      cases zero
  | some i =>
    have here := Kernel.killSlot_some found
    constructor
    · rintro ⟨result, t, ran, zero, _⟩
      have value : (0 : Int) = result := by
        injection ran with pair
        exact congrArg Prod.fst pair
      exact .inl (zero.mp value.symm)
    · intro right
      have live : s.Live pid := by
        rcases right with live | unused
        · exact live
        · exact ⟨i, fun idle => unused i idle here, here⟩
      exact ⟨0, _, rfl, ⟨fun _ => live, fun _ => rfl⟩, fun dead => absurd live dead⟩

/-! ## Whole runs -/

namespace Sched

variable {m after : Sched}
variable {α : Type} {i np : Slot}

/-- Whoever is killed has started. -/
def Aimed (m : Sched) (move : Move) : Prop :=
  ∀ i pid, move = .call i (.kill pid) → ∀ k, ((m.kernel.proc k).pid : Int) = pid →
    (m.kernel.proc k).state ≠ .unused ∧ (m.kernel.proc k).state ≠ .embryo

theorem doomless_run {program : KM α} {next : α → Slot → Control}
    (relates : Relates Doomless program) (ran : m.run program next = some after) :
    Doomless m.kernel after.kernel := by
  obtain ⟨value, returned, _⟩ := run_some ran
  exact relates _ _ _ returned

theorem doomless_kill {pid : Int} (aimed : m.Aimed (.call i (.kill pid)))
    (ran : m.run (kill pid) (fun _ => m.control) = some after) :
    Doomless m.kernel after.kernel := by
  obtain ⟨value, returned, _⟩ := run_some ran
  rw [kill_eq] at returned
  cases found : m.kernel.killSlot pid with
  | none =>
    rw [found] at returned
    injection returned with pair
    have same : m.kernel = after.kernel := congrArg Prod.snd pair
    rw [← same]
    exact fun _ doomed => doomed
  | some k =>
    rw [found] at returned
    injection returned with pair
    have marked : m.kernel.setProc k (m.kernel.proc k).marked =
      after.kernel := congrArg Prod.snd pair
    rw [← marked]
    obtain ⟨unused, embryo⟩ := aimed i pid rfl k (Kernel.killSlot_some found)
    refine .set rfl fun doomed => absurd doomed (Proc.not_doomed ?_ ?_)
    · unfold Proc.marked
      dsimp only
      split
      · decide
      · exact unused
    · unfold Proc.marked
      dsimp only
      split
      · decide
      · exact embryo

theorem doomless_create {birth : Birth} {next : Slot → Control}
    (ran : m.create i birth next = some after) : Doomless m.kernel after.kernel := by
  have rule := wp_allocproc_table (s := m.kernel)
  unfold wp at rule
  unfold create at ran
  split at ran
  · rename_i kernel outcome
    rw [outcome] at rule
    cases ran
    exact doomless_claim rule
  · rename_i np kernel outcome
    rw [outcome] at rule
    cases ran
    exact doomless_claim rule
  · cases ran

theorem doomless_enter {call : Call}
    (aimed : m.Aimed (.call i call)) (ran : m.enter img i call = some after) :
    Doomless m.kernel after.kernel := by
  cases call with
  | exit =>
    obtain ⟨_, exited, _⟩ := run_wp wp_exit_table ran
    exact doomless_exit exited
  | wait => exact doomless_run (relates_wait i) ran
  | join stack => exact doomless_run (relates_join i stack) ran
  | fork => exact doomless_create ran
  | clone fcn arg stack => exact doomless_create ran
  | exec file argv =>
    exact doomless_run (relates_frames (execLoad_frames img i file argv).ptable) ran
  | kill pid => exact doomless_kill aimed ran

theorem relates_woken {scan : KM α}
    (scans : Relates Doomless scan) : Relates Doomless (woken i scan) := by
  unfold woken
  exact .bind (relates_updProc fun _ doomed => doomed) fun _ => scans

theorem relates_publish (np : Slot) : Relates Doomless (publish np) := by
  refine relates_updProc fun _ doomed => ?_
  exact absurd doomed (Proc.not_doomed (by nofun) (by nofun))

theorem relates_countRef (np : Slot) : Relates Doomless (countRef np) := by
  unfold countRef
  exact .bind .get fun s => relates_addRef _

theorem relates_cloneStack (cur np : Slot) (fcn arg stack : Nat) :
    Relates Doomless (cloneStack cur np fcn arg stack) := by
  refine .of_wp fun s => ?_
  refine wp_imp wp_cloneStack_table fun ok after table => ?_
  split at table
  · exact .set (congrArg proc table) fun doomed => doomed
  · exact .of_table table

theorem doomless_proceed {c : Control} (unborn : ∀ np, c.unborn = some np →
      (m.kernel.proc np).state = .embryo) (ran : m.proceed img i c = some after) :
    Doomless m.kernel after.kernel := by
  cases c with
  | user => cases ran
  | waiting => exact doomless_run (relates_woken (relates_wait i)) ran
  | joining stack =>
    exact doomless_run (relates_woken (relates_join i stack)) ran
  | commit new =>
    obtain ⟨_, execed, _⟩ := run_wp (wp_commitExec_table img) ran
    obtain ⟨sz, tf, ustack, table⟩ := execed.record
    have procs := congrArg proc table
    exact .set procs fun doomed => doomed
  | copy np =>
    obtain ⟨_, copied, _⟩ := run_wp (wp_forkCopy_table img) ran
    exact doomless_copy (unborn np rfl) copied
  | fill birth np =>
    cases birth with
    | fork =>
      obtain ⟨_, table, _⟩ := run_wp wp_forkFill_table ran
      exact .set (congrArg proc table) fun doomed => doomed
    | clone fcn arg stack =>
      simp only [proceed] at ran
      obtain ⟨_, table, _⟩ := run_wp wp_cloneFill_table ran
      exact .set (congrArg proc table) fun doomed => doomed
  | publish birth np =>
    simp only [proceed] at ran
    exact doomless_run (relates_publish np) ran
  | count birth np =>
    cases birth with
    | fork | clone fcn arg stack =>
      simp only [proceed] at ran
      exact doomless_run (relates_countRef np) ran
  | stack fcn arg stack np =>
    exact doomless_run (relates_cloneStack i np fcn arg stack) ran

theorem relates_switch (i : Slot) : Relates Doomless (switch i) := by
  unfold switch
  refine .bind (relates_frames (switchuvm_frames i).ptable) fun _ => ?_
  refine relates_updProc fun _ doomed => ?_
  exact absurd doomed (Proc.not_doomed (by nofun) (by nofun))

theorem doomless_step {move : Move} (settled : Settled m.kernel.ptable m.control)
    (aimed : m.Aimed move) (taken : m.step img move = some after) :
    Doomless m.kernel after.kernel := by
  cases move with
  | dispatch i =>
    obtain ⟨_, taken⟩ := ite_none_right_eq_some.mp taken
    obtain ⟨switched, ran, rfl⟩ := map_eq_some_iff.mp taken
    have kept := doomless_run (relates_switch i) ran
    exact kept
  | tick i | rouse i =>
    obtain ⟨_, ran⟩ := ite_none_right_eq_some.mp taken
    refine doomless_run (relates_updProc fun _ doomed => ?_) ran
    exact absurd doomed (Proc.not_doomed (by nofun) (by nofun))
  | call i call =>
    obtain ⟨_, taken⟩ := ite_none_right_eq_some.mp taken
    split at taken
    · exact doomless_enter aimed taken
    · cases taken
  | go i =>
    obtain ⟨_, taken⟩ := ite_none_right_eq_some.mp taken
    exact doomless_proceed (settled.unborn i) taken
  | pause i =>
    obtain ⟨_, taken⟩ := ite_none_right_eq_some.mp taken
    split at taken
    · refine doomless_run (relates_updProc fun _ doomed => ?_) taken
      exact absurd doomed (Proc.not_doomed (by nofun) (by nofun))
    · cases taken

theorem doomed_start (starts : m.Starts img) (i : Slot) : ¬ (m.kernel.proc i).Doomed := by
  obtain ⟨boot, initcode, boots, ran⟩ := starts.boot
  obtain ⟨first, p, made⟩ := wp_ok (wp_userinit_table img) ran
  change ¬ (m.kernel.ptable.proc i).Doomed
  rw [made.table]
  by_cases self : i = first
  · subst self
    rw [set_proc_self]
    apply Proc.not_doomed
    · rw [made.state]
      decide
    · rw [made.state]
      decide
  · have zero : boot.ptable.proc i = Proc.zero := boots.proc i
    rw [set_proc_of_ne _ _ self, zero]
    exact fun doomed => nomatch doomed.2

theorem doomed_reached (reached : Reaches img Aimed m) (i : Slot) : ¬ (m.kernel.proc i).Doomed := by
  induction reached with
  | start starts => exact doomed_start starts i
  | next before aimed taken ih =>
    exact fun doomed =>
      ih (doomless_step (Settled.reached before) aimed taken i doomed)

/-- A proc that its creator is about to make runnable is not marked. -/
theorem unborn_unmarked (reached : Reaches img Aimed m) (creates : (m.control i).unborn = some np) :
    (m.kernel.proc np).killed = false := by
  have embryo := (Settled.reached reached).unborn i np creates
  cases marked : (m.kernel.proc np).killed with
  | false => rfl
  | true => exact absurd ⟨.inr embryo, marked⟩ (doomed_reached reached np)

theorem published {birth : Birth} (here : m.control i = .publish birth np)
    (taken : m.step img (.go i) = some after) :
    after.kernel.proc np =
      { m.kernel.proc np with state := .runnable } := by
  obtain ⟨_, ran⟩ := ite_none_right_eq_some.mp taken
  rw [here] at ran
  simp only [proceed, publish] at ran
  obtain ⟨_, table, _⟩ := run_wp wp_updProc_eq ran
  change after.kernel.ptable.proc np = _
  rw [table, set_proc_self]
  rfl

end Sched

/-- In every state of a run of fork, clone, exec, exit, wait, join and kill in
which nobody is killed before they started: no slot without a process is
marked, nor is one that is being created, so every process that fork or clone
makes runnable is unmarked.  In any state `kill` returns 0 exactly if a process
has the pid, and otherwise returns -1 and changes nothing, for exactly the pids
that some process has or no unused slot has. -/
theorem kill_reaches_live (img : Image) :
    (∀ m, Sched.Reaches img Sched.Aimed m →
      (∀ i, (m.kernel.proc i).state = .unused ∨ (m.kernel.proc i).state = .embryo →
        (m.kernel.proc i).killed = false) ∧
      ∀ i birth np after, m.control i = .publish birth np → m.step img (.go i) = some after →
        (after.kernel.proc np).state = .runnable ∧ (after.kernel.proc np).killed = false) ∧
    ∀ (s : Kernel) pid, s.KillRight pid ↔ s.Live pid ∨ ∀ i, (s.proc i).state = .unused →
        ((s.proc i).pid : Int) ≠ pid := by
  refine ⟨fun m reached => ⟨?_, ?_⟩, kill_right_iff⟩
  · intro i early
    cases marked : (m.kernel.proc i).killed with
    | false => rfl
    | true =>
      exact absurd ⟨early, marked⟩ (doomed_reached reached i)
  · intro i birth np after here taken
    have record := published here taken
    have creates : (m.control i).unborn = some np := by rw [here]; rfl
    rw [record]
    exact ⟨rfl, unborn_unmarked reached creates⟩

instance (m : Sched) (move : Move) : Decidable (m.Aimed move) :=
  match move with
  | .call _ (.kill pid) =>
    decidable_of_iff (∀ k, ((m.kernel.proc k).pid : Int) = pid →
        (m.kernel.proc k).state ≠ .unused ∧ (m.kernel.proc k).state ≠ .embryo)
      ⟨fun aimed _ _ same => by cases same; exact aimed, fun aimed => aimed _ _ rfl⟩
  | .call _ .exit | .call _ .wait | .call _ (.join _) | .call _ .fork
  | .call _ (.clone _ _ _) | .call _ (.exec _ _) | .dispatch _ | .tick _
  | .go _ | .pause _ | .rouse _ => isTrue nofun

/-- The first process forks, and its child is about to become runnable. -/
def forkToPublish : List Move :=
  [.call 0 .fork, .go 0, .go 0]

/-- It kills pid 0 before that, and the child becomes runnable. -/
def killZeroThenFork : List Move :=
  .dispatch 0 :: .call 0 (.kill 0) :: forkToPublish ++ [.go 0]

/-- The child of a process that has killed itself starts unmarked. -/
theorem kill_reaches_live_fork : ∃ m after : Sched, Sched.Reaches smallImage Sched.Aimed m ∧
    (m.kernel.proc 0).killed = true ∧ m.control 0 = .publish .fork 1 ∧
    m.step smallImage (.go 0) = some after ∧
    (after.kernel.proc 1).state = .runnable ∧
    (after.kernel.proc 1).killed = false := by
  have facts : ((Move.dispatch 0 :: Move.call 0 (.kill 1) :: forkToPublish).foldlM
      (fun m move => if decide (m.Aimed move) then
        replay smallImage m move else none) small).map
      (fun m => ((m.kernel.proc 0).killed, m.control 0, (m.step smallImage (.go 0)).isSome)) =
      some (true, .publish .fork 1, true) := by
    decide +kernel
  obtain ⟨m, ran, shown⟩ := map_eq_some_iff.mp facts
  simp only [Prod.mk.injEq] at shown
  obtain ⟨killed, here, some⟩ := shown
  obtain ⟨after, taken⟩ := Option.isSome_iff_exists.mp some
  rw [replay_eq_step] at ran
  have reached : Sched.Reaches smallImage Sched.Aimed m :=
    Reach.checked (fun _ _ => of_decide_eq_true) (.start small_starts) ran
  exact ⟨m, after, reached, killed, here, taken,
    ((kill_reaches_live smallImage).1 m reached).2 0 .fork 1 after here taken⟩

/-- The first process kills pid 0, which no process has: `kill` returns 0, and
the next child of the first process is born marked. -/
theorem killZero_marks : ∃ (m after : Sched) (s : Kernel),
    Sched.Reaches smallImage (fun _ _ => True) m ∧
    ¬ m.kernel.Live 0 ∧ kill 0 m.kernel = .ok (0, s) ∧
    ¬ m.kernel.KillRight 0 ∧
    Sched.Reaches smallImage (fun _ _ => True) after ∧
    (after.kernel.proc 1).parent = some 0 ∧
    (after.kernel.proc 1).state = .runnable ∧
    (after.kernel.proc 1).killed = true := by
  have facts : (small.step smallImage (.dispatch 0)).map (fun m =>
      (decide (∀ i, (m.kernel.proc i).state = .unused ∨ ((m.kernel.proc i).pid : Int) ≠ 0),
        (m.kernel.proc 1).state, (m.kernel.proc 1).pid)) =
      some (true, .unused, 0) := by
    decide +kernel
  obtain ⟨m, ran, shown⟩ := map_eq_some_iff.mp facts
  simp only [Prod.mk.injEq, decide_eq_true_eq] at shown
  obtain ⟨others, unused, zero⟩ := shown
  have dead : ¬ m.kernel.Live 0 := by
    rintro ⟨i, used, same⟩
    rcases others i with idle | other
    · exact used idle
    · exact other same
  have wrong : ¬ m.kernel.KillRight 0 := by
    rw [kill_right_iff]
    rintro (live | none)
    · exact dead live
    · exact none 1 unused (by rw [zero]; rfl)
  obtain ⟨k, found⟩ : ∃ k, m.kernel.killSlot 0 = some k := by
    cases found : m.kernel.killSlot 0 with
    | some k => exact ⟨k, rfl⟩
    | none =>
      exact absurd (by rw [zero]; rfl) (Kernel.killSlot_none found 1)
  have later : (killZeroThenFork.foldlM (replay smallImage) small).map (fun m : Sched =>
        ((m.kernel.proc 1).parent, (m.kernel.proc 1).state,
          (m.kernel.proc 1).killed)) = some (some 0, .runnable, true) := by
    decide +kernel
  obtain ⟨after, onwards, born⟩ := map_eq_some_iff.mp later
  simp only [Prod.mk.injEq] at born
  have killed := kill_eq m.kernel 0
  rw [found] at killed
  exact ⟨m, after, _, .next (.start small_starts) trivial ran, dead,
    killed, wrong, small_reaches onwards, born⟩

end Xv6
