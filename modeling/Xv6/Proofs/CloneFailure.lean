/-
Purpose: When a failed `clone` has created nothing.  The new thread is made
  runnable before its stack is written, and stays when that fails.
-/
import Xv6.Kernel.Machine
import Xv6.Proofs.Copyout
import Xv6.Proofs.FileRefs
import Xv6.Proofs.NewProc
import Xv6.Proofs.Replay

namespace Xv6

open PanicM
open Function (update_self update_of_ne)

/-- A thread that calls `clone` with a stack that passes the checks of
`sys_clone`: its first word lies below `sz`. -/
structure Cloning (m : Machine) (cur : Slot) (stack : Nat) : Prop where
  running : (m.kernel.proc cur).state = .running
  states : ∀ i, m.files.state i = (m.kernel.proc i).state
  walk : ∃ table, (m.kernel.dirs (m.kernel.proc cur).pgdir).pde 0 = some table
  size : (m.kernel.proc cur).sz ≤ USERTOP
  checked : stack + 4 ≤ (m.kernel.proc cur).sz
  cwd : ∃ cwd, m.files.fs.cwd cur = some cwd
  counted : ∀ fd f, m.files.ofile cur fd = some f → 1 ≤ (m.files.ftable f).ref

/-- No process has come or gone or changed; the reference counts and the free
pages are as before.  Of an unused slot only its state counts. -/
structure NothingNew (m m' : Machine) : Prop where
  states : ∀ i, (m'.kernel.proc i).state = (m.kernel.proc i).state
  procs : ∀ i, (m.kernel.proc i).state ≠ .unused → m'.kernel.proc i = m.kernel.proc i
  dirs : m'.kernel.refs = m.kernel.refs
  files : ∀ f, (m'.files.ftable f).ref = (m.files.ftable f).ref
  inodes : ∀ ip, (m'.files.fs.icache ip).ref = (m.files.fs.icache ip).ref
  free : ∀ page, page ∈ m'.kernel.freelist ↔ page ∈ m.kernel.freelist

/-- A call that fails creates nothing. -/
def CloneKept (m : Machine) (cur : Slot) (fcn arg stack : Nat) : Prop :=
  ∀ m', m.clone cur fcn arg stack = some (-1, m') → NothingNew m m'

/-- A call that fails leaves every slot of the process table as it was, also
those that are unused. -/
def CloneKeptSlots (m : Machine) (cur : Slot) (fcn arg stack : Nat) : Prop :=
  ∀ m', m.clone cur fcn arg stack = some (-1, m') → NothingNew m m' ∧ m'.kernel.proc = m.kernel.proc

/-- The two words below the top of the new stack are user memory. -/
def StackWritable (s : Kernel) (cur : Slot) (stack : Nat) : Prop :=
  ∀ i < 8, (s.dirs (s.proc cur).pgdir).userFrame (vpn (stack + PGSIZE - 8 + i)) ≠ none

/-- An unused slot whose record is what `allocproc` makes of it when it finds
no page. -/
def Kernel.Stale (s : Kernel) (np : Slot) : Prop :=
  (s.proc np).pid = s.nextpid ∧ (s.proc np).shm = USERTOP ∧
    (s.proc np).shmKeyMask = 0 ∧ (s.proc np).kstack = 0

section Kernel

variable {s : Kernel} {cur : Slot} {stack : Nat} {E : Panic → Prop}

/-- A new thread before its stack is written. -/
def Kernel.started (s : Kernel) (cur np : Slot) (page : Nat) (rest : List Nat) : Kernel :=
  { s.embryo np page rest with
    proc := Function.update s.proc np
      { (s.claimed np .embryo page).inherit (s.proc cur) cur with
        pgdir := (s.proc cur).pgdir
        state := .runnable }
    refs := RefTable.retain s.refs (s.proc cur).pgdir }

theorem threadSp_eq (low : stack ≤ USERTOP) : threadSp stack = stack + PGSIZE - 8 := by
  unfold threadSp u32
  simp only [PGSIZE, USERTOP] at *
  omega

/-- How `clone` ends. -/
inductive CloneEnds (s : Kernel) (cur : Slot) (stack : Nat) : Int → Kernel → Prop
  | full : s.unusedSlot = none → CloneEnds s cur stack (-1) s
  | short (np : Slot) : s.unusedSlot = some np → s.freelist = [] →
      CloneEnds s cur stack (-1) (s.unclaimed np)
  | done (t : Kernel) : s.freelist ≠ [] → StackWritable s cur stack →
      CloneEnds s cur stack s.nextpid t
  | failed (np : Slot) (page : Nat) (rest : List Nat) (mem : Nat → UInt8) :
      s.unusedSlot = some np → s.freelist = page :: rest →
      ¬ StackWritable s cur stack →
      CloneEnds s cur stack (-1) { s.started cur np page rest with mem := mem }

theorem wp_clone (fcn arg : Nat) (running : (s.proc cur).state = .running)
    (walk : ∃ table, (s.dirs (s.proc cur).pgdir).pde 0 = some table) (low : stack ≤ USERTOP) :
    wp (clone cur fcn arg stack) (CloneEnds s cur stack) E s := by
  unfold clone
  rw [wp_bind]
  refine wp_allocproc_cases .full .short ?_
  intro np page rest found list
  have other : cur ≠ np := by
    rintro rfl
    rw [s.unusedSlot_unused found] at running
    cases running
  dsimp only
  rw [wp_bind, cloneFill, wp_bind, wp_get, updProc, wp_modify, wp_bind,
    publish, updProc, wp_modify, wp_bind, wp_get, wp_bind, addRef, wp_modify,
    wp_bind]
  simp only [Kernel.embryo, Kernel.setProc, update_self,
    update_of_ne other, Function.update_idem, Proc.inherit,
    Kernel.claimed]
  change wp (cloneStack cur np fcn arg stack) _ E (s.started cur np page rest)
  have pgdir : ((s.started cur np page rest).proc np).pgdir = (s.proc cur).pgdir := by
    simp only [Kernel.started, update_self]
  unfold cloneStack
  rw [wp_bind, wp_get, wp_bind, pgdir, threadSp_eq low]
  refine wp_copyoutLoop _ le_rfl ?_ ?_ ?_ ?_
  · rw [threadWords_length]
    simp only [PGSIZE, USERTOP] at *
    omega
  · intro k inside _ none
    rw [threadWords_length] at inside
    have first : pdx (stack + PGSIZE - 8 + k) = 0 := by
      unfold pdx
      simp only [PGSIZE, USERTOP] at *
      omega
    rw [first] at none
    exact absurd none (Option.ne_none_iff_exists'.mpr walk)
  · intro writable
    rw [if_pos rfl, wp_bind, updProc, wp_modify, wp_pure, if_pos rfl, wp_pure]
    refine .done _ ?_ fun i inside => (writable i inside).2
    rw [list]
    exact List.cons_ne_nil page rest
  · intro k inside _ _ missing
    rw [if_neg Bool.false_ne_true, wp_pure, if_neg Bool.false_ne_true, wp_pure]
    exact .failed np page rest _ found list fun writable =>
      writable k inside missing

end Kernel

section Files

variable {s : Files} {p np : Slot} {E : Files.Stop → Prop}

theorem wp_dupFiles_counted (list : List (Fin NOFILE)) (other : p ≠ np)
    (counted : ∀ fd f, s.ofile p fd = some f → 1 ≤ (s.ftable f).ref) :
    wp (Files.dupFiles p np list) (fun _ t => t.fs = s.fs) E s := by
  induction list generalizing s with
  | nil => exact rfl
  | cons fd rest ih =>
    rw [Files.dupFiles, wp_bind, wp_get]
    cases points : s.ofile p fd with
    | none => exact ih counted
    | some f =>
      dsimp only
      rw [wp_bind, Files.filedup, wp_bind, wp_get,
        if_neg (by have := counted fd f points; omega), Files.updFile,
        wp_modify, wp_bind, wp_modify]
      refine ih fun gd g holds => ?_
      simp only [Files.setFd, Files.setFile, update_of_ne other] at holds ⊢
      have before := counted gd g holds
      by_cases same : g = f
      · subst same
        rw [update_self]
        dsimp only
        omega
      · rw [update_of_ne same]
        exact before

theorem wp_share_counted (cwd : Fs.InodePtr) (other : p ≠ np)
    (counted : ∀ fd f, s.ofile p fd = some f → 1 ≤ (s.ftable f).ref) :
    wp (Files.share p np cwd) (fun _ _ => True) E s := by
  unfold Files.share
  refine wp_seq (wp_dupFiles_counted _ other counted) fun _ _ _ => ?_
  exact trivial

end Files

namespace Cloning

variable {m : Machine} {cur : Slot} {stack : Nat}

/-- Both halves take the same slot. -/
theorem search (call : Cloning m cur stack) :
    ((List.finRange NPROC).find? fun i => m.files.state i == .unused) =
      m.kernel.unusedSlot := by
  unfold Kernel.unusedSlot
  simp only [call.states]

variable {E : Files.Stop → Prop} (kstack written : Bool)

/-- References are taken only with a slot and a page. -/
theorem wp_files (call : Cloning m cur stack) :
    wp (Files.withCwd cur fun cwd => Files.clone cur cwd kstack written)
      (fun _ files => m.kernel.unusedSlot = none ∨ kstack = false → files = m.files) E m.files := by
  obtain ⟨cwd, here⟩ := call.cwd
  rw [Files.withCwd, wp_bind, wp_get, here]
  dsimp only
  rw [Files.clone, wp_bind, Files.allocproc, wp_bind, wp_get, call.search]
  cases found : m.kernel.unusedSlot with
  | none => exact fun _ => rfl
  | some np =>
    cases kstack with
    | false => exact fun _ => rfl
    | true =>
      have other : cur ≠ np := by
        rintro rfl
        have running := call.running
        rw [m.kernel.unusedSlot_unused found] at running
        cases running
      dsimp only
      rw [if_pos rfl, wp_bind, wp_modify, wp_pure]
      refine wp_seq (wp_share_counted cwd other call.counted) ?_
      rintro _ _ _ (absent | short)
      · cases absent
      · cases short

theorem returns (call : Cloning m cur stack) (fcn arg : Nat) :
    ∃ result m', m.clone cur fcn arg stack = some (result, m') ∧
      CloneEnds m.kernel cur stack result m'.kernel ∧
      (m.kernel.unusedSlot = none ∨ m.kernel.freelist = [] → m'.files = m.files) := by
  have low : stack ≤ USERTOP := by
    have := call.checked
    have := call.size
    omega
  obtain ⟨result, kernel, ran, ends⟩ := wp_returns (wp_clone fcn arg call.running call.walk low)
  obtain ⟨_, files, shared, same⟩ := wp_returns
    (call.wp_files (m.kernel.freelist ≠ []) (result ≠ -1))
  refine ⟨result, ⟨kernel, files⟩, ?_, ends, fun refused => same ?_⟩
  · unfold Machine.clone
    rw [ran]
    dsimp only
    rw [shared]
  · exact refused.imp_right fun empty => by rw [empty]; rfl

end Cloning

variable {m m' : Machine} {cur np : Slot} {stack : Nat}

theorem NothingNew.unclaimed (found : m.kernel.unusedSlot = some np)
    (kernel : m'.kernel = m.kernel.unclaimed np) (files : m'.files = m.files) :
    NothingNew m m' := by
  have unused := m.kernel.unusedSlot_unused found
  constructor
  case states =>
    intro i
    rw [kernel]
    by_cases here : i = np
    · subst here
      simp only [Kernel.unclaimed, Kernel.claimed, update_self, unused]
    · simp only [Kernel.unclaimed, update_of_ne here]
  case procs =>
    intro i used
    have here : i ≠ np := by
      rintro rfl
      exact used unused
    rw [kernel]
    simp only [Kernel.unclaimed, update_of_ne here]
  case dirs =>
    rw [kernel]
    rfl
  case files =>
    intro f
    rw [files]
  case inodes =>
    intro ip
    rw [files]
  case free =>
    intro page
    rw [kernel]
    rfl

theorem Kernel.unclaimed_proc (s : Kernel) (found : s.unusedSlot = some np) :
    (s.unclaimed np).proc = s.proc ↔ s.Stale np := by
  have unused := s.unusedSlot_unused found
  unfold Kernel.Stale
  constructor
  · intro same
    have record := congrFun same np
    simp only [Kernel.unclaimed, update_self, Kernel.claimed] at record
    rw [← record]
    exact ⟨rfl, rfl, rfl, rfl⟩
  · rintro ⟨pid, shm, mask, kstack⟩
    funext i
    by_cases here : i = np
    · subst here
      simp only [Kernel.unclaimed, update_self, Kernel.claimed]
      revert unused pid shm mask kstack
      generalize s.proc i = record
      cases record
      rintro rfl rfl rfl rfl rfl
      rfl
    · simp only [Kernel.unclaimed, update_of_ne here]

/-- A thread whose stack could not be written can run. -/
theorem NothingNew.not_started {page : Nat} {rest : List Nat}
    {mem : Nat → UInt8} (found : m.kernel.unusedSlot = some np)
    (kernel : m'.kernel =
      { m.kernel.started cur np page rest with mem := mem }) :
    ¬ NothingNew m m' := by
  intro same
  have runnable := same.states np
  rw [kernel, m.kernel.unusedSlot_unused found] at runnable
  simp only [Kernel.started, update_self] at runnable
  cases runnable

theorem NothingNew.refl (m : Machine) : NothingNew m m :=
  ⟨fun _ => rfl, fun _ _ => rfl, rfl, fun _ => rfl, fun _ => rfl, fun _ => Iff.rfl⟩

/-- What holds of a failed call, for a call whose outcome is known. -/
theorem failed_iff {P : Machine → Prop} {result : Int} :
    (∀ after, some (result, m') = some (-1, after) → P after) ↔ (result = -1 → P m') := by
  constructor
  · rintro all rfl
    exact all m' rfl
  · rintro one after same
    cases same
    exact one rfl

/-- A failed `clone` has created nothing unless the slot and the page were
there and only the stack could not be written.  If every field of an unused
slot counts, the page must be there as well. -/
theorem clone_kept_iff (m : Machine) (cur : Slot) (fcn arg stack : Nat)
    (call : Cloning m cur stack) :
    (CloneKept m cur fcn arg stack ↔ m.kernel.unusedSlot = none ∨ m.kernel.freelist = [] ∨
        StackWritable m.kernel cur stack) ∧
    (CloneKeptSlots m cur fcn arg stack ↔ ∀ np, m.kernel.unusedSlot = some np →
        if m.kernel.freelist = [] then m.kernel.Stale np
        else StackWritable m.kernel cur stack) := by
  obtain ⟨result, m', ran, ends, files⟩ := call.returns fcn arg
  rw [CloneKept, CloneKeptSlots, ran, failed_iff, failed_iff]
  generalize state : m'.kernel = kernel at ends
  cases ends with
  | full absent =>
    have same : m' = m := by
      cases m
      cases m'
      simp only at state files
      rw [state, files (.inl absent)]
    subst same
    refine ⟨⟨fun _ => .inl absent, fun _ _ => .refl m'⟩,
      fun _ np found => ?_, fun _ _ => ⟨.refl m', rfl⟩⟩
    rw [absent] at found
    cases found
  | short np found empty =>
    have kept := NothingNew.unclaimed found state (files (.inr empty))
    refine ⟨⟨fun _ => .inr (.inl empty), fun _ _ => kept⟩, ?_⟩
    have record := m.kernel.unclaimed_proc found
    refine ⟨fun all other taken => ?_, fun all => ?_⟩
    · rw [found] at taken
      cases taken
      rw [if_pos empty]
      exact record.mp (all rfl).2
    · have stale := all np found
      rw [if_pos empty] at stale
      exact fun _ => ⟨kept, record.mpr stale⟩
  | done _ nonempty writable =>
    have pos : (m.kernel.nextpid : Int) ≠ -1 := by omega
    refine ⟨⟨fun _ => .inr (.inr writable), fun _ fails => absurd fails pos⟩,
      fun _ _ _ => ?_, fun _ fails => absurd fails pos⟩
    rw [if_neg nonempty]
    exact writable
  | failed np page rest mem found list fails =>
    have changed := NothingNew.not_started found state
    refine ⟨⟨fun kept => absurd (kept rfl) changed, ?_⟩,
      fun kept => absurd (kept rfl).1 changed, fun all => ?_⟩
    · rintro (absent | empty | writable)
      · rw [found] at absent
        cases absent
      · rw [list] at empty
        cases empty
      · exact absurd writable fails
    · have writable := all np found
      rw [list, if_neg (List.cons_ne_nil page rest)] at writable
      exact absurd writable fails

/-! ## A thread in the last page -/

/-- A process of one page, with the kernel's free pages. -/
def lastPage (free : List Nat) : Machine where
  kernel := onePage free
  files :=
    { Files.booted with
      state := fun i => if i = 0 then .running else .unused }

theorem lastPage_cloning (free : List Nat) {stack : Nat} (checked : stack + 4 ≤ 4096) :
    Cloning (lastPage free) 0 stack where
  running := rfl
  states _ := rfl
  walk := ⟨0x201000, rfl⟩
  size := show 4096 ≤ USERTOP by decide
  checked := checked
  cwd := ⟨0, rfl⟩
  counted := by
    intro fd f holds
    cases holds

/-- Without a free page the call fails and has created nothing. -/
theorem noPage_kept : Cloning (lastPage []) 0 0 ∧
    ((lastPage []).clone 0 0 7 0).map Prod.fst = some (-1) ∧ CloneKept (lastPage []) 0 0 7 0 := by
  have call : Cloning (lastPage []) 0 0 := lastPage_cloning [] (by decide)
  refine ⟨call, by decide +kernel, (clone_kept_iff (lastPage []) 0 0 7 0 call).1.mpr ?_⟩
  exact .inr (.inl rfl)

/-- The top of the stack lies above the page: the call fails, and slot 1 holds
a thread that can run. -/
theorem lastPage_split : Cloning (lastPage [0x600000]) 0 4088 ∧
    ((lastPage [0x600000]).kernel.proc 1).state = .unused ∧
    ((lastPage [0x600000]).kernel.refs 0).count = 1 ∧
    ((lastPage [0x600000]).clone 0 0 7 4088).map (fun (result, after) =>
      (result, (after.kernel.proc 1).state, (after.kernel.refs 0).count,
        after.kernel.freelist)) = some (-1, .runnable, 2, []) ∧
    ¬ CloneKept (lastPage [0x600000]) 0 0 7 4088 := by
  have ran : ((lastPage [0x600000]).clone 0 0 7 4088).map (fun (result, after) =>
      (result, (after.kernel.proc 1).state, (after.kernel.refs 0).count,
        after.kernel.freelist)) = some (-1, .runnable, 2, []) := by
    decide +kernel
  refine ⟨lastPage_cloning _ (by decide), rfl, rfl, ran, fun kept => ?_⟩
  obtain ⟨⟨result, after⟩, returned, seen⟩ := Option.map_eq_some_iff.mp ran
  simp only [Prod.mk.injEq] at seen
  obtain ⟨rfl, runnable, _⟩ := seen
  have unused := (kept after returned).states 1
  rw [runnable] at unused
  cases unused

end Xv6
