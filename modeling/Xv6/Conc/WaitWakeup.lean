/-
Purpose: No lost wakeup in wait and join: whoever sleeps there has no zombie
  that it should have found.
-/
import Xv6.Conc.SchedSteps

namespace Xv6

open Function (update update_self update_of_ne update_apply forall_update_iff)

/-!
A sleeper in `wait` or `join` has looked through the table and sleeps on its
own slot.  A zombie can only appear when a child exits, which wakes the parent,
or when the parent exits, which wakes the first process.  Everything else
leaves zombies and sleepers alone, because it changes a proc that is neither:
the proc that runs, or one that its creator has not published yet.
-/

/-- The invariant of the tables and positions. -/
structure Settled (t : Ptable) (control : Slot → Control) : Prop where
  /-- Sleepers in `wait` and `join` sleep on themselves, others on no proc. -/
  asleep : ∀ i, (t.proc i).state = .sleeping → (control i).scans = true ∧ (t.proc i).chan = some i ∨
      control i = .user ∧ (t.proc i).chan = none
  /-- No sleeper has a zombie that it looks for. -/
  none : ∀ i j, (t.proc i).state = .sleeping → ¬ t.ZombieKid (t.kid i (control i)) j
  unborn : ∀ i np, (control i).unborn = some np → (t.proc np).state = .embryo
  apart : ∀ i j np, (control i).unborn = some np → (control j).unborn = some np → i = j
  root : ∀ i, (t.proc i).parent = some i → i = t.initproc

theorem Birth.filled_state (birth : Birth) (child parent : Proc) (i : Slot) :
    (birth.filled child parent i).state = child.state := by
  cases birth <;> rfl

theorem Birth.filled_parent (birth : Birth) (child parent : Proc) (i : Slot) :
    (birth.filled child parent i).parent = some i := by
  cases birth <;> rfl

namespace Settled

variable {t t' : Ptable} {control : Slot → Control} {i : Slot}
variable {j np : Slot} {c : Control} {p : Proc} {img : Image} {m : Sched}

theorem kid_congr (c : Control) (parent : (t'.proc j).parent = (t.proc j).parent)
    (child : (t'.proc j).pgdir = (t.proc j).pgdir) (own : (t'.proc i).pgdir = (t.proc i).pgdir) :
    t'.kid i c j = t.kid i c j := by
  cases c <;> simp only [Ptable.kid, parent, child, own]

theorem goto (settled : Settled t control) (awake : (t.proc i).state ≠ .sleeping)
    (unborn : ∀ np, c.unborn = some np → (t.proc np).state = .embryo ∧
      ∀ k, k ≠ i → (control k).unborn ≠ some np) : Settled t (update control i c) := by
  have same : ∀ k, (t.proc k).state = .sleeping → update control i c k = control k := by
    intro k asleep
    refine update_of_ne ?_ ..
    rintro rfl
    exact awake asleep
  refine ⟨?_, ?_, ?_, ?_, settled.root⟩
  · intro k asleep
    rw [same k asleep]
    exact settled.asleep k asleep
  · intro k j asleep
    rw [same k asleep]
    exact settled.none k j asleep
  · exact (forall_update_iff control fun _ now => ∀ np, now.unborn = some np →
      (t.proc np).state = .embryo).mpr
        ⟨fun np creates => (unborn np creates).1, fun k _ => settled.unborn k⟩
  · intro k l np one two
    simp only [update_apply] at one two
    split_ifs at one two with first second second
    · rw [first, second]
    · exact absurd two ((unborn np one).2 l second)
    · exact absurd one ((unborn np two).2 k first)
    · exact settled.apart k l np one two

theorem leave (settled : Settled t control)
    (awake : (t.proc i).state ≠ .sleeping) (nothing : c.unborn = Option.none) :
    Settled t (update control i c) := by
  refine settled.goto awake fun np creates => ?_
  rw [nothing] at creates
  cases creates

theorem carry (settled : Settled t control) (awake : (t.proc i).state ≠ .sleeping)
    (same : c.unborn = (control i).unborn) : Settled t (update control i c) := by
  refine settled.goto awake fun np creates => ?_
  rw [same] at creates
  exact ⟨settled.unborn i np creates, fun k other shared =>
    other (settled.apart k i np shared creates)⟩

/-- A proc may be found asleep: it sleeps where it should, and there is no
zombie that it looks for. -/
structure Rests (t : Ptable) (control : Slot → Control) (i : Slot) (p : Proc) : Prop where
  place : (control i).scans = true ∧ p.chan = some i ∨ control i = .user ∧ p.chan = Option.none
  dir : p.pgdir = (t.proc i).pgdir
  none : ∀ j, ¬ t.ZombieKid (t.kid i (control i)) j

section

variable (settled : Settled t control)
include settled

theorem set (proc : t'.proc = update t.proc i p) (init : t'.initproc = t.initproc)
    (rests : p.state = .sleeping → Rests t control i p)
    (zombie : p.state = .zombie → (t.proc i).state = .zombie ∧
      p.parent = (t.proc i).parent ∧ p.pgdir = (t.proc i).pgdir)
    (unborn : ∀ k, (control k).unborn = some i → p.state = .embryo)
    (root : p.parent = some i → i = t.initproc) : Settled t' control := by
  have self : t'.proc i = p := by rw [proc, update_self]
  have other : ∀ k, k ≠ i → t'.proc k = t.proc k := by
    intro k ne
    rw [proc, update_of_ne ne]
  refine ⟨?_, ?_, ?_, settled.apart, ?_⟩
  · rw [proc]
    exact (forall_update_iff t.proc fun k now => now.state = .sleeping →
      (control k).scans = true ∧ now.chan = some k ∨ control k = .user ∧ now.chan = Option.none).mpr
        ⟨fun asleep => (rests asleep).place, fun k _ => settled.asleep k⟩
  · rintro k j asleep ⟨child, dead⟩
    -- the sleeper was settled before, or has just looked through the table
    have before : (t'.proc k).pgdir = (t.proc k).pgdir ∧ ¬ t.ZombieKid (t.kid k (control k)) j := by
      by_cases changed : k = i
      · subst changed
        rw [self] at asleep ⊢
        exact ⟨(rests asleep).dir, (rests asleep).none j⟩
      · rw [other k changed] at asleep ⊢
        exact ⟨rfl, settled.none k j asleep⟩
    refine before.2 ?_
    by_cases changed : j = i
    · subst changed
      rw [self] at dead
      obtain ⟨was, parent, dir⟩ := zombie dead
      have same : t'.kid k (control k) j = t.kid k (control k) j :=
        kid_congr _ (by rw [self, parent]) (by rw [self, dir]) before.1
      exact ⟨same ▸ child, was⟩
    · rw [other j changed] at dead
      have same : t'.kid k (control k) j = t.kid k (control k) j :=
        kid_congr _ (by rw [other j changed]) (by rw [other j changed]) before.1
      exact ⟨same ▸ child, dead⟩
  · intro k
    rw [proc]
    exact (forall_update_iff t.proc fun np now => (control k).unborn = some np →
      now.state = .embryo).mpr ⟨unborn k, fun np _ => settled.unborn k np⟩
  · rw [proc, init]
    exact (forall_update_iff t.proc fun k now => now.parent = some k → k = t.initproc).mpr
      ⟨root, fun k _ => settled.root k⟩

theorem not_unborn (old : (t.proc i).state ≠ .embryo) (k : Slot) : (control k).unborn ≠ some i :=
  fun creates => old (settled.unborn k i creates)

theorem touch (proc : t'.proc = update t.proc i p) (init : t'.initproc = t.initproc)
    (old : (t.proc i).state ≠ .embryo) (awake : p.state ≠ .sleeping) (alive : p.state ≠ .zombie)
    (parent : p.parent = (t.proc i).parent ∨ p.parent = Option.none) : Settled t' control := by
  refine settled.set proc init (fun asleep => absurd asleep awake) (fun dead => absurd dead alive)
    (fun k creates => absurd creates (settled.not_unborn old k)) fun own => ?_
  rcases parent with same | gone
  · exact settled.root i (same.symm.trans own)
  · rw [gone] at own
    cases own

/-- The reference table says nothing of sleepers. -/
theorem recount (refs : RefTable.Table Nat NPROC) : Settled { t with refs := refs } control :=
  ⟨settled.asleep, settled.none, settled.unborn, settled.apart, settled.root⟩

theorem keep (state : p.state = (t.proc i).state) (chan : p.chan = (t.proc i).chan)
    (parent : p.parent = (t.proc i).parent)
    (dir : p.pgdir = (t.proc i).pgdir) : Settled (t.set i p) control := by
  refine settled.set rfl rfl ?_ ?_ ?_ ?_
  · intro asleep
    rw [state] at asleep
    exact ⟨chan ▸ settled.asleep i asleep, dir, fun j =>
      settled.none i j asleep⟩
  · intro dead
    exact ⟨state ▸ dead, parent, dir⟩
  · intro k creates
    rw [state]
    exact settled.unborn k i creates
  · intro own
    exact settled.root i (parent ▸ own)

theorem sleep (proc : t'.proc = update t.proc i p) (init : t'.initproc = t.initproc)
    (running : (t.proc i).state = .running) (state : p.state = .sleeping)
    (parent : p.parent = (t.proc i).parent) (rests : Rests t control i p) : Settled t' control := by
  refine settled.set proc init (fun _ => rests) ?_ ?_ ?_
  · intro dead
    rw [state] at dead
    cases dead
  · intro k creates
    exact absurd creates (settled.not_unborn (by rw [running]; decide) k)
  · intro own
    exact settled.root i (parent.symm.trans own)

/-- A sleeper that still sleeps after an exit is not one of those that the
exit wakes. -/
theorem unroused {k : Slot} (asleep : (t.proc k).state = .sleeping)
    (scans : (control k).scans = true) (quiet : ¬ t.roused i k) :
    (t.proc i).parent ≠ some k ∧ (k = t.initproc → ¬ t.orphansZombie i) := by
  have chan : (t.proc k).chan = some k := by
    rcases settled.asleep k asleep with ⟨-, chan⟩ | ⟨user, -⟩
    · exact chan
    · rw [user] at scans
      cases scans
  constructor
  · intro parent
    exact quiet ⟨asleep, .inl (chan.trans parent.symm)⟩
  · intro first orphans
    exact quiet ⟨asleep, .inr ⟨orphans, first ▸ chan⟩⟩

end

theorem kid_scans (child : t.kid i c j = true) : c.scans = true ∧ (t.proc j).parent = some i := by
  cases c <;> simp_all [Ptable.kid, Control.scans]

section

variable (settled : Settled t control)
include settled

/-- The exit of a running proc: the sleepers that are left have no new
zombie. -/
theorem exit (running : (t.proc i).state = .running) (exited : Exited t i t') :
    Settled t' control := by
  have tree : (t.proc i).parent ≠ some i := fun own =>
    exited.alive (settled.root i own)
  refine ⟨?_, ?_, ?_, settled.apart, ?_⟩
  · intro k asleep
    rw [exited.chan]
    exact settled.asleep k (exited.sleeping asleep).2.2
  · rintro k j asleep ⟨child, dead⟩
    obtain ⟨other, quiet, before⟩ := exited.sleeping asleep
    obtain ⟨scans, parent⟩ := kid_scans child
    obtain ⟨notParent, notFirst⟩ := settled.unroused before scans quiet
    rw [exited.parent] at parent
    rcases exited.dead dead with rfl | ⟨elsewhere, zombie⟩
    · -- the new zombie is a child of `k`, which was woken
      rw [if_neg tree] at parent
      exact notParent parent
    · by_cases orphan : (t.proc j).parent = some i
      · -- a zombie that the first process inherits, which was woken
        rw [if_pos orphan] at parent
        exact notFirst (Option.some.inj parent).symm ⟨j, orphan, zombie⟩
      · rw [if_neg orphan] at parent
        have same : t'.kid k (control k) j = t.kid k (control k) j :=
          kid_congr _ (by rw [exited.parent, if_neg orphan]) (exited.pgdir j) (exited.pgdir k)
        exact settled.none k j before ⟨same ▸ child, zombie⟩
  · intro k np creates
    have embryo := settled.unborn k np creates
    have other : np ≠ i := by
      rintro rfl
      rw [running] at embryo
      cases embryo
    have quiet : ¬ t.roused i np := by
      rintro ⟨asleep, -⟩
      rw [embryo] at asleep
      cases asleep
    rw [exited.state other quiet]
    exact embryo
  · intro k own
    rw [exited.initproc]
    rw [exited.parent] at own
    split at own
    · exact (Option.some.inj own).symm
    · exact settled.root k own

theorem scan {asleep : Control} {r : Option Int} (running : (t.proc i).state = .running)
    (scans : asleep.scans = true) (scanned : Scanned t i (t.kid i asleep) r t') :
    Settled t' (update control i (if r.isSome then .user else asleep)) := by
  have awake : (t.proc i).state ≠ .sleeping := by
    rw [running]
    decide
  have nothing : asleep.unborn = Option.none := by
    cases asleep <;> simp_all [Control.scans, Control.unborn]
  cases scanned with
  | reaped child p found counted gone =>
    exact (settled.leave awake rfl).touch (i := child) (p := p) rfl rfl (by simp [found.2])
      (by simp [gone.state]) (by simp [gone.state]) (.inr gone.parent)
  | refused => exact settled.leave awake rfl
  | asleep missing =>
    refine (settled.leave awake nothing).sleep rfl rfl running rfl rfl ⟨?_, rfl, ?_⟩
    · left
      rw [update_self]
      exact ⟨scans, rfl⟩
    · intro j
      rw [update_self]
      exact missing j

theorem create {birth : Birth} (running : (t.proc i).state = .running)
    (claimed : Claimed t (some np) t') :
    Settled t' (update (update control np .user) i (birth.first np)) := by
  cases claimed with
  | taken _ page idle =>
    have ne : i ≠ np := by
      rintro rfl
      rw [running] at idle
      cases idle
    have free : ∀ k, (control k).unborn ≠ some np := settled.not_unborn (by rw [idle]; decide)
    have reset : Settled t (update control np .user) := settled.leave (by rw [idle]; decide) rfl
    have claimed : Settled (t.claim np page .embryo) (update control np .user) :=
      reset.touch (i := np) rfl rfl (by rw [idle]; decide) nofun nofun (.inl rfl)
    refine claimed.goto ?_ fun q creates => ?_
    · have same : (t.claim np page .embryo).proc i = t.proc i := update_of_ne ne _ _
      rw [same, running]
      decide
    · have same : q = np := by
        cases birth <;> exact (Option.some.inj creates).symm
      subst same
      refine ⟨?_, fun k other => ?_⟩
      · have self : (t.claim q page .embryo).proc q = (t.proc q).claimed t.nextpid page .embryo :=
          update_self _ _ _
        rw [self]
        rfl
      · by_cases self : k = q
        · rw [self, update_self]
          exact nofun
        · rw [update_of_ne self]
          exact free k

theorem kill : Settled (t.set i
      { t.proc i with
        killed := true
        state := if (t.proc i).state = .sleeping then .runnable
          else (t.proc i).state }) control := by
  by_cases asleep : (t.proc i).state = .sleeping
  · exact settled.touch rfl rfl (by simp [asleep]) (by simp [asleep]) (by simp [asleep]) (.inl rfl)
  · refine settled.set rfl rfl ?_ ?_ ?_ (settled.root i)
    · intro sleeps
      simp [asleep] at sleeps
    · intro dead
      simp only [asleep, if_false] at dead
      exact ⟨dead, rfl, rfl⟩
    · intro k creates
      simp only [asleep, if_false]
      exact settled.unborn k i creates

theorem nurse (running : (t.proc i).state = .running) (creates : (control i).unborn = some np)
    (proc : t'.proc = update t.proc np p) (init : t'.initproc = t.initproc)
    (awake : p.state ≠ .sleeping) (alive : p.state ≠ .zombie)
    (next : c.unborn = some np ∧ p.state = .embryo ∨ c.unborn = Option.none)
    (tree : p.parent = (t.proc np).parent ∨ p.parent = some i) :
    Settled t' (update control i c) := by
  have embryo := settled.unborn i np creates
  have ne : i ≠ np := by
    rintro rfl
    rw [running] at embryo
    cases embryo
  have root : p.parent = some np → np = t.initproc := by
    intro own
    rcases tree with same | creator
    · exact settled.root np (same.symm.trans own)
    · exact absurd (Option.some.inj (creator.symm.trans own)) ne
  rcases next with ⟨carries, still⟩ | nothing
  · have changed : Settled t' control :=
      settled.set proc init (fun asleep => absurd asleep awake)
        (fun dead => absurd dead alive) (fun _ _ => still) root
    refine changed.carry ?_ (carries.trans creates.symm)
    rw [proc, update_of_ne ne, running]
    decide
  · have left : Settled t (update control i c) := settled.leave (by rw [running]; decide) nothing
    refine left.set proc init (fun asleep => absurd asleep awake)
      (fun dead => absurd dead alive) (fun k shared => ?_) root
    by_cases self : k = i
    · rw [self, update_self, nothing] at shared
      cases shared
    · rw [update_of_ne self] at shared
      exact absurd (settled.apart k i np shared creates) self

theorem step {control' : Slot → Control} {move : Move} (turn : Turn t control move t' control') :
    Settled t' control' := by
  cases turn with
  | dispatch runnable | tick runnable | rouse runnable chan =>
    exact settled.touch rfl rfl (by rw [runnable]; decide) nofun nofun (.inl rfl)
  | exit running here exited => exact settled.exit running exited
  | @scan i _ asleep chan _ _ running scans here scanned =>
    have cleared : Settled (t.set i { t.proc i with chan := chan }) control :=
      settled.touch rfl rfl (by rw [running]; decide) (by simp [running])
        (by simp [running]) (.inl rfl)
    refine cleared.scan ?_ scans scanned
    rw [Ptable.set_proc_self]
    exact running
  | refuse running here claimed =>
    cases claimed with
    | full => exact settled
    | noPage _ idle =>
      exact settled.touch rfl rfl (by rw [idle]; decide) nofun nofun (.inl rfl)
  | create begins running here claimed => exact settled.create running claimed
  | loadFailed running here => exact settled
  | load new running here | stackFailed running here =>
    exact settled.leave (by rw [running]; decide) rfl
  | commit running here execed =>
    obtain ⟨-, sz, tf, ustack, rfl⟩ := execed
    exact (settled.leave (by simp [running]) rfl).touch rfl rfl (by simp [running])
      (by simp [running]) (by simp [running]) (.inl rfl)
  | kill running here killed =>
    cases killed with
    | missing => exact settled
    | marked i => exact settled.kill
  | copy running here copied =>
    have creates := congrArg Control.unborn here
    have embryo := settled.unborn _ _ creates
    cases copied with
    | done d =>
      exact settled.nurse running creates rfl rfl (by simp [embryo])
        (by simp [embryo]) (.inl ⟨rfl, embryo⟩) (.inl rfl)
    | failed d =>
      exact settled.nurse running creates rfl rfl nofun nofun (.inr rfl) (.inl rfl)
  | @fill i np birth running here =>
    have creates := congrArg Control.unborn here
    have state : (birth.filled (t.proc np) (t.proc i) i).state = .embryo :=
      (birth.filled_state _ _ _).trans (settled.unborn i np creates)
    exact settled.nurse running creates rfl rfl (by rw [state]; decide)
      (by rw [state]; decide) (.inl ⟨rfl, state⟩)
      (.inr (birth.filled_parent _ _ _))
  | publish birth running here =>
    exact settled.nurse running (congrArg Control.unborn here) rfl rfl nofun
      nofun (.inr rfl) (.inl rfl)
  | count birth running here =>
    refine (settled.recount _).leave (by rw [running]; decide) ?_
    cases birth <;> rfl
  | @stack i np fcn arg stack running here =>
    exact (settled.leave (by rw [running]; decide) rfl).keep rfl rfl rfl rfl
  | pause running here =>
    refine settled.sleep rfl rfl running rfl rfl ⟨.inr ⟨here, rfl⟩, rfl, ?_⟩
    rintro j ⟨child, -⟩
    rw [here] at child
    cases child

end

theorem start (starts : m.Starts img) : Settled m.kernel.ptable m.control := by
  obtain ⟨boot, initcode, boots, ran⟩ := starts.boot
  obtain ⟨first, p, made⟩ := PanicM.wp_ok (wp_userinit_table img) ran
  have zero : ∀ i, boot.ptable.proc i = Proc.zero := boots.proc
  have fields : ∀ i, (m.kernel.ptable.proc i).state ≠ .sleeping ∧
      (m.kernel.ptable.proc i).parent = Option.none := by
    intro i
    rw [made.table]
    by_cases self : i = first
    · subst self
      rw [Ptable.set_proc_self]
      refine ⟨?_, made.parent.trans ?_⟩
      · rw [made.state]
        decide
      · rw [zero]
        rfl
    · rw [Ptable.set_proc_of_ne _ _ self, zero]
      exact ⟨nofun, rfl⟩
  refine ⟨fun i asleep => absurd asleep (fields i).1,
    fun i _ asleep => absurd asleep (fields i).1, ?_, ?_, ?_⟩
  · simp [starts.control, Control.unborn]
  · simp [starts.control, Control.unborn]
  · intro i own
    rw [(fields i).2] at own
    cases own

theorem reached {allowed : Sched → Move → Prop} (reached : Sched.Reaches img allowed m) :
    Settled m.kernel.ptable m.control :=
  Reach.invariant (I := fun m : Sched => Settled m.kernel.ptable m.control)
    (fun _ starts => start starts)
    (fun _ _ _ settled _ taken => settled.step (Sched.step_turn taken)) reached

end Settled

/-- In every state of every run, a proc that sleeps in `wait` sleeps on itself
and has no zombie child with another page directory, and one that sleeps in
`join` sleeps on itself and has no zombie child with its own. -/
theorem wait_join_wakeups {img : Image} {m : Sched}
    (reached : Sched.Reaches img (fun _ _ => True) m) (i : Slot)
    (asleep : (m.kernel.proc i).state = .sleeping) :
    (m.control i = .waiting → (m.kernel.proc i).chan = some i ∧
      ∀ j, (m.kernel.proc j).parent = some i → (m.kernel.proc j).state = .zombie →
        (m.kernel.proc j).pgdir = (m.kernel.proc i).pgdir) ∧
    (∀ stack, m.control i = .joining stack → (m.kernel.proc i).chan = some i ∧
      ∀ j, (m.kernel.proc j).parent = some i → (m.kernel.proc j).state = .zombie →
        (m.kernel.proc j).pgdir ≠ (m.kernel.proc i).pgdir) := by
  have settled := Settled.reached reached
  have chan : (m.control i).scans = true → (m.kernel.proc i).chan = some i := by
    intro scans
    rcases settled.asleep i asleep with ⟨-, chan⟩ | ⟨user, -⟩
    · exact chan
    · rw [user] at scans
      cases scans
  constructor
  · intro waits
    refine ⟨chan (by rw [waits]; rfl), fun j parent zombie => ?_⟩
    by_contra other
    refine settled.none i j asleep ⟨?_, zombie⟩
    rw [waits]
    simp [Ptable.kid, parent, other]
  · intro stack joins
    refine ⟨chan (by rw [joins]; rfl), fun j parent zombie same => ?_⟩
    refine settled.none i j asleep ⟨?_, zombie⟩
    rw [joins]
    simp [Ptable.kid, parent, same]

/-- The first process forks a child and clones a thread; the thread exits, and
the first process waits for its child. -/
def waitPastThread : List Move :=
  [.dispatch 0, .call 0 .fork, .go 0, .go 0, .go 0, .go 0,
    .call 0 (.clone 16 7 0), .go 0, .go 0, .go 0, .go 0,
    .dispatch 2, .call 2 .exit, .call 0 .wait]

/-- The thread is a zombie that the first process, asleep in `wait`, does not
look for: its page directory is the sleeper's own. -/
theorem wait_join_wakeups_thread : ∃ m : Sched, Sched.Reaches smallImage (fun _ _ => True) m ∧
      (m.kernel.proc 0).state = .sleeping ∧ m.control 0 = .waiting ∧
      (m.kernel.proc 2).parent = some 0 ∧
      (m.kernel.proc 2).state = .zombie ∧
      (m.kernel.proc 2).pgdir = (m.kernel.proc 0).pgdir := by
  have facts : (waitPastThread.foldlM (Sched.replay smallImage) Sched.small).map (fun m : Sched =>
        ((m.kernel.proc 0).state, m.control 0, (m.kernel.proc 2).parent, (m.kernel.proc 2).state)) =
      some (.sleeping, .waiting, some 0, .zombie) := by
    decide +kernel
  obtain ⟨m, ran, eq⟩ := Option.map_eq_some_iff.mp facts
  simp only [Prod.mk.injEq] at eq
  obtain ⟨asleep, waits, parent, zombie⟩ := eq
  have reached := Sched.small_reaches ran
  exact ⟨m, reached, asleep, waits, parent, zombie,
    ((wait_join_wakeups reached 0 asleep).1 waits).2 2 parent zombie⟩

end Xv6
