/-
Purpose: What each function of proc.c and exec.c does to the process table and
  the reference table, whatever it does to memory.
-/
import Xv6.Proofs.KernelFrames

namespace Xv6

open RefTable Kernel PanicM

variable (img : Image)
variable {i np cur : Slot} {Q : Unit → Kernel → Prop} {stack : Nat} {p : Proc}

/-!
Each lemma takes a function from a state `s` to what holds of the tables of
the state it returns in.  A panic ends the run, so nothing is asked of it.
-/

/-- Nothing is asked of a panic. -/
abbrev AnyPanic : Panic → Prop := fun _ => True

/-- Replace the proc in one slot. -/
def Ptable.set (t : Ptable) (i : Slot) (p : Proc) : Ptable :=
  { t with proc := Function.update t.proc i p }

@[simp] theorem Ptable.set_set (t : Ptable) (i : Slot) (p q : Proc) :
    (t.set i p).set i q = t.set i q := by
  simp [Ptable.set]

@[simp] theorem Ptable.set_self (t : Ptable) (i : Slot) : t.set i (t.proc i) = t := by
  simp [Ptable.set]

@[simp] theorem Ptable.set_proc_self (t : Ptable) (i : Slot) (p : Proc) :
    (t.set i p).proc i = p := by
  simp [Ptable.set]

theorem Ptable.set_proc_of_ne (t : Ptable) {j : Slot} (p : Proc)
    (other : j ≠ i) : (t.set i p).proc j = t.proc j := by
  simp [Ptable.set, other]

@[simp] theorem Kernel.ptable_proc (s : Kernel) : s.ptable.proc = s.proc := rfl

@[simp] theorem Kernel.ptable_initproc (s : Kernel) : s.ptable.initproc = s.initproc := rfl

@[simp] theorem Kernel.ptable_refs (s : Kernel) : s.ptable.refs = s.refs := rfl

variable {s : Kernel}

theorem wp_updProc_table {update : Proc → Proc} (next : ∀ after : Kernel,
      after.ptable = s.ptable.set i (update (s.ptable.proc i)) → Q () after) :
    wp (updProc i update) Q AnyPanic s :=
  next _ rfl

/-! ## Creation -/

/-- The record of a slot that `allocproc` has taken. -/
def Proc.claimed (p : Proc) (pid kstack : Nat) (state : ProcState) : Proc :=
  { p with
    state := state
    pid := pid
    shm := USERTOP
    shmKeyMask := 0
    kstack := kstack }

/-- The table after `allocproc` used slot `i`, which keeps `state`. -/
def Ptable.claim (t : Ptable) (i : Slot) (kstack : Nat) (state : ProcState) : Ptable :=
  { t.set i ((t.proc i).claimed t.nextpid kstack state) with
    nextpid := t.nextpid + 1 }

/-- What `allocproc` does: it takes an unused slot, or fails, and a failure
for want of a page still uses up a pid. -/
inductive Claimed (t : Ptable) : Option Slot → Ptable → Prop where
  | full : Claimed t none t
  | noPage (i : Slot) (idle : (t.proc i).state = .unused) : Claimed t none (t.claim i 0 .unused)
  | taken (i : Slot) (page : Nat) (idle : (t.proc i).state = .unused) :
      Claimed t (some i) (t.claim i page .embryo)

theorem wp_allocproc_table : wp allocproc (fun r after => Claimed s.ptable r after.ptable)
      AnyPanic s := by
  unfold allocproc
  simp only [wp_bind, wp_get]
  cases found : (List.finRange NPROC).find? (fun i => (s.proc i).state == .unused) with
  | none => exact .full
  | some i =>
    have idle : (s.proc i).state = .unused := by
      simpa using List.find?_some found
    simp only [wp_bind, wp_modify]
    refine kalloc_frames.ptable.wp fun page middle same => ?_
    have claimed : middle.ptable =
        { s.ptable.set i
            { s.proc i with
              state := .embryo
              pid := s.nextpid
              shm := USERTOP
              shmKeyMask := 0 } with
          nextpid := s.nextpid + 1 } := same
    have last : ∀ kstack state, middle.ptable.set i
        { middle.ptable.proc i with kstack := kstack, state := state } =
        s.ptable.claim i kstack state := by
      intro kstack state
      rw [claimed]
      simp [Ptable.claim, Ptable.set, Proc.claimed, ptable]
    cases page with
    | none =>
      rw [wp_bind]
      refine wp_updProc_table fun after eq => ?_
      rw [wp_pure, eq, last]
      exact .noPage i idle
    | some page =>
      rw [wp_bind]
      refine wp_updProc_table fun after eq => ?_
      have embryo : (middle.ptable.proc i).state = .embryo := by
        rw [claimed]
        simp [Ptable.set]
      have kept : { middle.ptable.proc i with kstack := page } =
          { middle.ptable.proc i with
            kstack := page
            state := .embryo } := by
        rw [← embryo]
      rw [wp_pure, eq, kept, last]
      exact .taken i page idle

/-- The record that `userinit` gives the first process. -/
def Proc.first (p : Proc) (pid kstack d : Nat) : Proc :=
  { p.claimed pid kstack .runnable with
    pgdir := d
    sz := PGSIZE
    tf := { eax := 0, eip := 0, esp := PGSIZE } }

/-- The table when the first process, with record `p`, is in slot `i`. -/
structure FirstProc (t : Ptable) (i : Slot) (p : Proc) (t' : Ptable) : Prop where
  idle : (t.proc i).state = .unused
  table : t' =
    { t.set i p with
      initproc := i
      nextpid := t.nextpid + 1
      refs := retain t.refs p.pgdir }
  state : p.state = .runnable
  pid : p.pid = t.nextpid
  parent : p.parent = (t.proc i).parent
  chan : p.chan = (t.proc i).chan

theorem wp_userinit_table {initcode : List UInt8} : wp (userinit img initcode)
      (fun _ after => ∃ i p, FirstProc s.ptable i p after.ptable)
      AnyPanic s := by
  unfold userinit
  rw [wp_bind]
  refine wp_imp wp_allocproc_table fun r claimed table => ?_
  cases r with
  | none => trivial
  | some i =>
    obtain ⟨page, idle, claimedEq⟩ : ∃ page, (s.ptable.proc i).state = .unused ∧
        claimed.ptable = s.ptable.claim i page .embryo := by
      generalize claimed.ptable = t at table
      cases table with
      | taken _ page idle => exact ⟨page, idle, rfl⟩
    simp only [wp_bind, wp_modify]
    refine (setupkvm_frames img).ptable.wp fun dir mapped mappedEq => ?_
    cases dir with
    | none => trivial
    | some d =>
      simp only [wp_bind]
      refine wp_updProc_table fun directed directedEq => ?_
      refine (inituvm_frames d initcode).ptable.wp fun _ loaded loadedEq => ?_
      refine wp_updProc_table fun filled filledEq => ?_
      unfold publish addRef
      refine wp_updProc_table fun published publishedEq => ?_
      have whole : published.ptable =
          { s.ptable.set i ((s.proc i).first s.nextpid page d) with
            initproc := i
            nextpid := s.nextpid + 1 } := by
        have begun : mapped.ptable =
            { s.ptable.claim i page .embryo with initproc := i } :=
          mappedEq.trans (congrArg (fun t : Ptable => { t with initproc := i }) claimedEq)
        rw [publishedEq, filledEq, loadedEq, directedEq, begun]
        simp [Ptable.set, Ptable.claim, ptable, Proc.first, Proc.claimed]
      rw [wp_modify]
      refine ⟨i, (s.proc i).first s.nextpid page d, idle, ?_, rfl, rfl, rfl, rfl⟩
      have refs : published.refs = s.refs := congrArg Ptable.refs whole
      change { published.ptable with
        refs := retain published.refs d } = _
      rw [refs, whole]
      rfl

theorem wp_forkUndo_table (next : ∀ after : Kernel, after.ptable = s.ptable.set np
        { s.ptable.proc np with kstack := 0, state := .unused } →
      Q () after) :
    wp (forkUndo img np) Q AnyPanic s := by
  unfold forkUndo
  simp only [wp_bind, wp_get]
  refine (kfree_frames img _).ptable.wp fun _ middle same => ?_
  refine wp_updProc_table fun after eq => next after ?_
  rw [eq, same]

/-- What `forkCopy` does to the new proc: it gets a directory, and its slot is
given back when the copy fails. -/
inductive Copied (t : Ptable) (np : Slot) : Bool → Ptable → Prop where
  | done (d : Nat) : Copied t np true (t.set np { t.proc np with pgdir := d })
  | failed (d : Nat) : Copied t np false (t.set np
        { t.proc np with pgdir := d, kstack := 0, state := .unused })

theorem wp_forkCopy_table : wp (forkCopy img cur np)
      (fun r after => Copied s.ptable np r after.ptable) AnyPanic s := by
  unfold forkCopy
  simp only [wp_bind, wp_get]
  refine (copyuvm_frames img cur _ _).ptable.wp fun dir copied same => ?_
  cases dir with
  | none =>
    simp only [wp_bind]
    refine wp_updProc_table fun marked markedEq => ?_
    refine wp_forkUndo_table img fun after eq => ?_
    rw [wp_pure, eq, markedEq, same]
    simpa using Copied.failed (t := s.ptable) 0
  | some d =>
    simp only [wp_bind]
    refine wp_updProc_table fun marked markedEq => ?_
    refine (copyshm_frames _ _ d).ptable.wp fun ok shared sharedEq => ?_
    cases ok with
    | true =>
      change Copied s.ptable np true shared.ptable
      rw [sharedEq, markedEq, same]
      exact .done d
    | false =>
      change wp (forkUndo img np >>= fun _ => pure false) _ _ _
      rw [wp_bind]
      refine wp_forkUndo_table img fun after eq => ?_
      rw [wp_pure, eq, sharedEq, markedEq, same]
      simpa using Copied.failed (t := s.ptable) d

theorem wp_forkFill_table : wp (forkFill cur np)
      (fun _ after => after.ptable = s.ptable.set np
        ((s.ptable.proc np).inherit (s.ptable.proc cur) cur)) AnyPanic s := by
  unfold forkFill
  simp only [wp_bind, wp_get]
  refine (shmAddCount_frames _ _).wp fun _ middle same => ?_
  refine wp_updProc_table fun after eq => ?_
  rw [eq, same]
  rfl

theorem wp_cloneFill_table : wp (cloneFill cur np)
      (fun _ after => after.ptable = s.ptable.set np
        { (s.ptable.proc np).inherit (s.ptable.proc cur) cur with
          pgdir := (s.ptable.proc cur).pgdir }) AnyPanic s := by
  unfold cloneFill
  simp only [wp_bind, wp_get]
  exact wp_updProc_table fun _ eq => eq

theorem wp_cloneStack_table {fcn arg : Nat} :
    wp (cloneStack cur np fcn arg stack) (fun r after => after.ptable = if r then
          s.ptable.set np
            { s.ptable.proc np with
              ustack := stack
              tf :=
                { (s.ptable.proc np).tf with
                  esp := threadSp stack
                  eip := fcn } }
        else s.ptable) AnyPanic s := by
  unfold cloneStack
  simp only [wp_bind, wp_get]
  refine (copyout_frames cur _ _ _).ptable.wp fun ok middle same => ?_
  cases ok with
  | false => exact same
  | true =>
    change wp (updProc np _ >>= fun _ => pure true) _ _ _
    rw [wp_bind]
    refine wp_updProc_table fun after eq => ?_
    rw [wp_pure, eq, same]
    rfl

/-! ## Exit and kill -/

/-- A child of `cur` becomes a child of `init`. -/
def Proc.orphaned (p : Proc) (cur init : Slot) : Proc :=
  if p.parent = some cur then { p with parent := some init } else p

/-- Some child of `cur` is a zombie. -/
def Ptable.orphansZombie (t : Ptable) (cur : Slot) : Prop :=
  ∃ i, (t.proc i).parent = some cur ∧ (t.proc i).state = .zombie

/-- The slot sleeps on one of the channels that the exit of `cur` wakes. -/
def Ptable.roused (t : Ptable) (cur i : Slot) : Prop :=
  (t.proc i).state = .sleeping ∧ ((t.proc i).chan = (t.proc cur).parent ∨
      t.orphansZombie cur ∧ (t.proc i).chan = some t.initproc)

/-- What the exit of `cur` makes of the table: its parent is awake, its
children belong to the first process, which is awake if one of them is a
zombie, and it is a zombie itself. -/
structure Exited (t : Ptable) (cur : Slot) (t' : Ptable) : Prop where
  alive : cur ≠ t.initproc
  initproc : t'.initproc = t.initproc
  nextpid : t'.nextpid = t.nextpid
  refs : t'.refs = t.refs
  zombie : t'.proc cur =
    { (t.proc cur).orphaned cur t.initproc with state := .zombie }
  woken : ∀ i, i ≠ cur → t.roused cur i →
    t'.proc i = { (t.proc i).orphaned cur t.initproc with state := .runnable }
  kept : ∀ i, i ≠ cur → ¬ t.roused cur i → t'.proc i = (t.proc i).orphaned cur t.initproc

/-- A sleeper on `chan` becomes runnable. -/
def Proc.wake (p : Proc) (chan : Option Slot) : Proc :=
  if p.state = .sleeping ∧ p.chan = chan then { p with state := .runnable }
  else p

@[simp] theorem Proc.wake_with_state (p : Proc) (chan : Option Slot) (state : ProcState) :
    { p.wake chan with state := state } = { p with state := state } := by
  unfold Proc.wake
  split <;> rfl

theorem Proc.wake_of_sleeping {chan : Option Slot}
    (asleep : p.state = .sleeping) (same : p.chan = chan) :
    p.wake chan = { p with state := .runnable } :=
  if_pos ⟨asleep, same⟩

theorem Proc.wake_of_not {chan : Option Slot}
    (other : ¬ (p.state = .sleeping ∧ p.chan = chan)) : p.wake chan = p :=
  if_neg other

@[simp] theorem Proc.orphaned_state (p : Proc) (cur init : Slot) :
    (p.orphaned cur init).state = p.state := by
  unfold Proc.orphaned
  split <;> rfl

@[simp] theorem Proc.orphaned_chan (p : Proc) (cur init : Slot) :
    (p.orphaned cur init).chan = p.chan := by
  unfold Proc.orphaned
  split <;> rfl

theorem Proc.orphaned_wake (p : Proc) (cur init : Slot) (chan : Option Slot) :
    (p.wake chan).orphaned cur init = (p.orphaned cur init).wake chan := by
  unfold Proc.wake
  rw [Proc.orphaned_state, Proc.orphaned_chan]
  split
  · unfold Proc.orphaned
    split <;> rfl
  · rfl

/-- The kernel just before the exiting `cur` becomes a zombie. -/
def Kernel.leaving (s : Kernel) (cur : Slot) (orphanZombie : Bool) : Kernel :=
  let adopted := reparent cur (wakeup1 (s.proc cur).parent s)
  if orphanZombie then wakeup1 (some s.initproc) adopted else adopted

theorem Kernel.leaving_proc (cur : Slot) (orphanZombie : Bool) (i : Slot) :
    (s.leaving cur orphanZombie).proc i = if orphanZombie then
        (((s.proc i).orphaned cur s.initproc).wake (s.proc cur).parent).wake (some s.initproc)
      else
        ((s.proc i).orphaned cur s.initproc).wake (s.proc cur).parent := by
  rw [← Proc.orphaned_wake]
  cases orphanZombie <;> rfl

/-- The state in which the exit of `cur` leaves the kernel. -/
def Kernel.exited (s : Kernel) (cur : Slot) (orphanZombie : Bool) : Kernel :=
  (s.leaving cur orphanZombie).setProc cur
    { (s.leaving cur orphanZombie).proc cur with state := .zombie }

theorem Kernel.exited_ptable (first : cur ≠ s.initproc) {orphanZombie : Bool}
    (zombie : orphanZombie = true ↔ s.ptable.orphansZombie cur) :
    Exited s.ptable cur (s.exited cur orphanZombie).ptable := by
  have other : ∀ i, i ≠ cur → (s.exited cur orphanZombie).proc i =
      (s.leaving cur orphanZombie).proc i := fun i ne =>
    Function.update_of_ne ne _ _
  simp only [leaving_proc] at other
  refine ⟨first, ?_, ?_, ?_, ?_, ?_, ?_⟩
  · cases orphanZombie <;> rfl
  · cases orphanZombie <;> rfl
  · cases orphanZombie <;> rfl
  · have self : (s.exited cur orphanZombie).proc cur =
        { (s.leaving cur orphanZombie).proc cur with state := .zombie } :=
      Function.update_self _ _ _
    refine self.trans ?_
    rw [leaving_proc]
    cases orphanZombie with
    | false => exact Proc.wake_with_state _ _ _
    | true =>
      exact (Proc.wake_with_state _ _ _).trans (Proc.wake_with_state _ _ _)
  · rintro i ne ⟨asleep, reason⟩
    refine (other i ne).trans ?_
    by_cases parent : (s.proc i).chan = (s.proc cur).parent
    · have once : ((s.proc i).orphaned cur s.initproc).wake (s.proc cur).parent =
          { (s.proc i).orphaned cur s.initproc with state := .runnable } :=
        Proc.wake_of_sleeping (by simpa using asleep) (by simpa using parent)
      rw [once, Proc.wake_of_not (by simp), ite_self]
      rfl
    · obtain ⟨orphans, init⟩ := reason.resolve_left parent
      have passed : ((s.proc i).orphaned cur s.initproc).wake
          (s.proc cur).parent = (s.proc i).orphaned cur s.initproc :=
        Proc.wake_of_not (by simp [parent])
      rw [passed, if_pos (zombie.mpr orphans)]
      exact Proc.wake_of_sleeping (by simpa using asleep) (by simpa using init)
  · intro i ne quiet
    refine (other i ne).trans ?_
    have unparented : ((s.proc i).orphaned cur s.initproc).wake
        (s.proc cur).parent = (s.proc i).orphaned cur s.initproc := by
      refine Proc.wake_of_not fun sleeper => quiet ?_
      exact ⟨by simpa using sleeper.1, .inl (by simpa using sleeper.2)⟩
    rw [unparented]
    cases orphanZombie with
    | false => rfl
    | true =>
      refine Proc.wake_of_not fun sleeper => quiet ?_
      exact ⟨by simpa using sleeper.1, .inr ⟨zombie.mp rfl, by simpa using sleeper.2⟩⟩

theorem wp_exit_table : wp (exit cur) (fun _ after => Exited s.ptable cur after.ptable)
      AnyPanic s := by
  unfold exit
  simp only [wp_bind, wp_get]
  by_cases first : cur = s.initproc
  · rw [if_pos first]
    trivial
  rw [if_neg first]
  simp only [wp_bind, wp_modify, updProc]
  by_cases zombie : s.ptable.orphansZombie cur
  · have found : decide (∃ i, (s.proc i).parent = some cur ∧
        (s.proc i).state = .zombie) = true := decide_eq_true zombie
    rw [found]
    exact exited_ptable first (iff_of_true rfl zombie)
  · have missing : decide (∃ i, (s.proc i).parent = some cur ∧
        (s.proc i).state = .zombie) = false := decide_eq_false zombie
    rw [missing]
    exact exited_ptable first (iff_of_false Bool.false_ne_true zombie)

namespace Exited

variable {t t' : Ptable}

section

variable (exited : Exited t cur t')
include exited

theorem record (i : Slot) : ∃ state, t'.proc i =
      { (t.proc i).orphaned cur t.initproc with state := state } := by
  by_cases self : i = cur
  · subst self
    exact ⟨_, exited.zombie⟩
  by_cases roused : t.roused cur i
  · exact ⟨_, exited.woken i self roused⟩
  · exact ⟨_, exited.kept i self roused⟩

theorem pgdir (i : Slot) : (t'.proc i).pgdir = (t.proc i).pgdir := by
  obtain ⟨state, eq⟩ := exited.record i
  rw [eq]
  unfold Proc.orphaned
  split <;> rfl

theorem chan (i : Slot) : (t'.proc i).chan = (t.proc i).chan := by
  obtain ⟨state, eq⟩ := exited.record i
  rw [eq]
  exact Proc.orphaned_chan _ _ _

/-- A child of `cur` has the first process for its parent, any other proc the
parent it had. -/
theorem parent (i : Slot) : (t'.proc i).parent =
      if (t.proc i).parent = some cur then some t.initproc
      else (t.proc i).parent := by
  obtain ⟨state, eq⟩ := exited.record i
  rw [eq]
  unfold Proc.orphaned
  split <;> rfl

theorem state (other : i ≠ cur)
    (quiet : ¬ t.roused cur i) : (t'.proc i).state = (t.proc i).state := by
  rw [exited.kept i other quiet]
  exact Proc.orphaned_state _ _ _

theorem sleeping (asleep : (t'.proc i).state = .sleeping) :
    i ≠ cur ∧ ¬ t.roused cur i ∧ (t.proc i).state = .sleeping := by
  by_cases self : i = cur
  · subst self
    rw [exited.zombie] at asleep
    cases asleep
  by_cases roused : t.roused cur i
  · rw [exited.woken i self roused] at asleep
    cases asleep
  · exact ⟨self, roused, exited.state self roused ▸ asleep⟩

theorem dead (zombie : (t'.proc i).state = .zombie) :
    i = cur ∨ i ≠ cur ∧ (t.proc i).state = .zombie := by
  by_cases self : i = cur
  · exact .inl self
  refine .inr ⟨self, ?_⟩
  by_cases roused : t.roused cur i
  · rw [exited.woken i self roused] at zombie
    cases zombie
  · exact exited.state self roused ▸ zombie

end

end Exited

/-- What `kill` does: nothing, or it marks one slot and wakes it. -/
inductive Killed (t : Ptable) : Ptable → Prop where
  | missing : Killed t t
  | marked (i : Slot) : Killed t (t.set i
      { t.proc i with
        killed := true
        state := if (t.proc i).state = .sleeping then .runnable
          else (t.proc i).state })

theorem wp_kill_table {pid : Int} : wp (kill pid) (fun _ after => Killed s.ptable after.ptable)
      AnyPanic s := by
  unfold kill
  simp only [wp_bind, wp_get]
  cases (List.finRange NPROC).find? fun i =>
      ((s.proc i).pid : Int) == pid with
  | none => exact .missing
  | some i => exact .marked i

/-! ## Wait and join -/

/-- What is left in the slot of a reaped proc. -/
structure Reaped (before after : Proc) : Prop where
  state : after.state = .unused
  pid : after.pid = 0
  parent : after.parent = none
  pgdir : after.pgdir = before.pgdir
  chan : after.chan = before.chan

/-- The table after the proc in slot `child`, which becomes `p`, was
reaped. -/
def Ptable.reap (t : Ptable) (child : Slot) (p : Proc) : Ptable :=
  { t.set child p with
    refs := (release t.refs (t.proc child).pgdir).2 }

@[simp] theorem Ptable.reap_set (t : Ptable) (child : Slot) (p q : Proc) :
    (t.reap child p).set child q = t.reap child q := by
  simp [Ptable.reap, Ptable.set]

@[simp] theorem Ptable.reap_proc_self (t : Ptable) (child : Slot)
    (p : Proc) : (t.reap child p).proc child = p := by
  simp [Ptable.reap]

theorem Ptable.set_reap (t : Ptable) {child : Slot} (q : Proc)
    (same : p.pgdir = (t.proc child).pgdir) : (t.set child p).reap child q = t.reap child q := by
  simp [Ptable.reap, Ptable.set, same]

/-- A zombie among the kids. -/
def Ptable.ZombieKid (t : Ptable) (kid : Slot → Bool) (i : Slot) : Prop :=
  kid i = true ∧ (t.proc i).state = .zombie

/-- What a scan of `wait` or `join` over the children `kid` does: it reaps a
zombie and returns its pid; it gives up; or it goes to sleep. -/
inductive Scanned (t : Ptable) (cur : Slot) (kid : Slot → Bool) : Option Int → Ptable → Prop where
  | reaped (child : Slot) (p : Proc) (found : t.ZombieKid kid child)
      (counted : 0 ≤ (release t.refs (t.proc child).pgdir).1.getD (-1))
      (gone : Reaped (t.proc child) p) :
      Scanned t cur kid (some (t.proc child).pid) (t.reap child p)
  | refused : Scanned t cur kid (some (-1)) t
  | asleep (missing : ∀ i, ¬ t.ZombieKid kid i) : Scanned t cur kid none (t.set cur
        { t.proc cur with chan := some cur, state := .sleeping })

theorem wp_noZombie_table {kid : Slot → Bool} (none : zombieKid s kid = none) :
    wp (noZombie cur kid) (fun r after => Scanned s.ptable cur kid r after.ptable) AnyPanic s := by
  have missing : ∀ i, ¬ s.ptable.ZombieKid kid i := by
    rintro i ⟨child, zombie⟩
    have absent := List.find?_eq_none.mp none i (List.mem_finRange i)
    have zombie' : (s.proc i).state = .zombie := zombie
    simp [child, zombie'] at absent
  unfold noZombie
  simp only [wp_bind, wp_get]
  split
  · exact .refused
  · exact .asleep missing

/-- The table while a proc is being reaped: its record is `p` and its
reference may be dropped. -/
theorem wp_reapDir_table {cur child : Slot} (next : ∀ (after : Kernel) (shm mask : Nat),
      0 ≤ (release s.refs (s.proc child).pgdir).1.getD (-1) →
      after.ptable = s.ptable.reap child
        { s.proc child with shm := shm, shmKeyMask := mask } →
      Q () after) :
    wp (reapDir img cur child) Q AnyPanic s := by
  unfold reapDir deleteRef
  simp only [wp_bind, wp_get, wp_set, wp_pure]
  split
  · trivial
  · rename_i counted
    have counted := not_lt.mp counted
    split
    · rw [wp_bind]
      refine (shmRelease_frames img _ _ _).wp fun _ released same => ?_
      rw [wp_bind]
      refine wp_updProc_table fun cleared clearedEq => ?_
      refine (freevm_frames img cur _).ptable.wp fun _ after eq => ?_
      refine next after USERTOP 0 counted ?_
      rw [eq, clearedEq, same]
      rfl
    · refine next _ (s.proc child).shm (s.proc child).shmKeyMask counted ?_
      simp [ptable, Ptable.reap, Ptable.set]

theorem wp_reapStack_table {child : Slot} (next : ∀ after : Kernel,
      after.ptable = s.ptable.set child { s.proc child with kstack := 0 } →
      Q () after) :
    wp (reapStack img child) Q AnyPanic s := by
  unfold reapStack
  simp only [wp_bind, wp_get]
  refine (kfree_frames img _).ptable.wp fun _ middle same => ?_
  refine wp_updProc_table fun after eq => next after ?_
  rw [eq, same]
  rfl

theorem zombieKid_some {kid : Slot → Bool} {child : Slot} (found : zombieKid s kid = some child) :
    s.ptable.ZombieKid kid child := by
  have tested := List.find?_some found
  simp only [Bool.and_eq_true, beq_iff_eq] at tested
  exact tested

/-- The directory of a proc whose kernel stack is gone is dropped. -/
theorem wp_reapDir_stacked {cur child : Slot}
    {stacked : Kernel}
    (stackedEq : stacked.ptable = s.ptable.set child { s.proc child with kstack := 0 })
    (next : ∀ (after : Kernel) (p : Proc), 0 ≤ (release s.refs (s.proc child).pgdir).1.getD (-1) →
      after.ptable = s.ptable.reap child p →
      p.pgdir = (s.proc child).pgdir → p.chan = (s.proc child).chan →
      Q () after) :
    wp (reapDir img cur child) Q AnyPanic stacked := by
  have record : stacked.proc child = { s.proc child with kstack := 0 } := by
    rw [← ptable_proc, stackedEq, Ptable.set_proc_self]
  have dir : (stacked.proc child).pgdir = (s.proc child).pgdir := by
    rw [record]
  have refs : stacked.refs = s.refs := by
    rw [← ptable_refs, stackedEq]
    rfl
  refine wp_reapDir_table img fun dropped shm mask counted droppedEq => ?_
  rw [dir, refs] at counted
  rw [stackedEq, Ptable.set_reap] at droppedEq
  · exact next dropped _ counted droppedEq dir (by rw [record])
  · rfl

theorem wp_reapSlot_table {cur child : Slot} {kid : Slot → Bool}
    {dropped : Kernel} (found : s.ptable.ZombieKid kid child)
    (counted : 0 ≤ (release s.refs (s.proc child).pgdir).1.getD (-1))
    (droppedEq : dropped.ptable = s.ptable.reap child p) (dir : p.pgdir = (s.proc child).pgdir)
    (chan : p.chan = (s.proc child).chan) :
    wp (do
        reapSlot child
        pure (some ((s.proc child).pid : Int)))
      (fun r after => Scanned s.ptable cur kid r after.ptable)
      AnyPanic dropped := by
  rw [wp_bind]
  unfold reapSlot
  refine wp_updProc_table fun after eq => ?_
  rw [droppedEq, Ptable.reap_set, Ptable.reap_proc_self] at eq
  rw [wp_pure, eq]
  exact .reaped child _ found counted ⟨rfl, rfl, rfl, dir, chan⟩

theorem wp_wait_table : wp (wait img cur)
      (fun r after => Scanned s.ptable cur (waitKid s cur) r after.ptable)
      AnyPanic s := by
  unfold wait
  simp only [wp_bind, wp_get]
  cases found : zombieKid s (waitKid s cur) with
  | none => exact wp_noZombie_table found
  | some child =>
    rw [wp_bind]
    refine wp_reapStack_table img fun stacked stackedEq => ?_
    rw [wp_bind]
    refine wp_reapDir_stacked img stackedEq fun dropped p counted droppedEq dir chan => ?_
    rw [wp_bind]
    refine wp_updProc_table fun cleared clearedEq => ?_
    rw [droppedEq, Ptable.reap_set, Ptable.reap_proc_self] at clearedEq
    exact wp_reapSlot_table (zombieKid_some found) counted clearedEq dir chan

theorem wp_join_table : wp (join img cur stack)
      (fun r after => Scanned s.ptable cur (joinKid s cur) r after.ptable)
      AnyPanic s := by
  unfold join
  simp only [wp_bind, wp_get]
  cases found : zombieKid s (joinKid s cur) with
  | none => exact wp_noZombie_table found
  | some child =>
    rw [wp_bind]
    refine wp_reapStack_table img fun stacked stackedEq => ?_
    rw [wp_bind]
    refine (storeUser_frames cur stack _).ptable.wp fun _ stored same => ?_
    rw [wp_bind]
    refine wp_reapDir_stacked img (same.trans stackedEq)
      fun dropped p counted droppedEq dir chan => ?_
    exact wp_reapSlot_table (zombieKid_some found) counted droppedEq dir chan

/-! ## Exec -/

/-- What a successful `exec` of `cur` into directory `d` does: its reference
moves, and its record is that of the new image. -/
structure Execed (t : Ptable) (cur : Slot) (d : Nat) (t' : Ptable) : Prop where
  counted : 0 ≤ (release t.refs (t.proc cur).pgdir).1.getD (-1)
  record : ∃ sz tf ustack, t' =
    { t.set cur
        { t.proc cur with
          pgdir := d
          sz := sz
          tf := tf
          ustack := ustack
          shm := USERTOP
          shmKeyMask := 0 } with
      refs := retain (release t.refs (t.proc cur).pgdir).2 d }

theorem wp_commitExec_table {d sz esp entry : Nat} :
    wp (commitExec img cur d sz esp entry)
      (fun _ after => Execed s.ptable cur d after.ptable) AnyPanic s := by
  unfold commitExec deleteRef addRef
  simp only [wp_bind, wp_get, wp_set, wp_pure, wp_modify]
  refine wp_updProc_table fun moved movedEq => ?_
  refine (switchuvm_frames cur).ptable.wp fun _ switched switchedEq => ?_
  split
  · trivial
  · rename_i counted
    have counted := not_lt.mp counted
    have last : ∀ after : Kernel, after.ptable = switched.ptable →
        wp (updProc cur fun p => { p with shm := USERTOP, shmKeyMask := 0 })
          (fun _ after => Execed s.ptable cur d after.ptable)
          AnyPanic after := by
      intro released releasedEq
      refine wp_updProc_table fun after eq => ⟨counted, ?_⟩
      rw [eq, releasedEq, switchedEq, movedEq]
      refine ⟨sz, { (s.proc cur).tf with eip := entry, esp := esp }, pgrounddown sz, ?_⟩
      simp [Ptable.set, ptable]
    split
    · simp only [wp_bind, wp_get]
      refine (shmRelease_frames img _ _ _).wp fun _ released releasedEq => ?_
      refine (freevm_frames img cur _).ptable.wp fun _ freed freedEq => ?_
      exact last freed (freedEq.trans releasedEq)
    · exact last switched rfl

end Xv6
