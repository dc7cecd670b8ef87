/-
Purpose: The argument vector of a program that `exec` has started.  The commit
  frees the old address space and leaves every byte of the new one alone.
-/
import Xv6.Proofs.ExecLoad
import Xv6.Proofs.Replay

namespace Xv6

open PanicM

/-- A process whose address space can be replaced: its pages, its tables and
the pages of its keys are pages of the allocator, and none of them is free. -/
structure ExecReady (img : Image) (s : Kernel) (cur : Slot) : Prop
    extends ExecCaller img s cur where
  walk : ∃ table, (s.dirs (s.proc cur).pgdir).pde 0 = some table
  aligned : (s.proc cur).shm % PGSIZE = 0
  space : ∀ page ∈ (s.dirs (s.proc cur).pgdir).owned (s.proc cur).pgdir
    userPages, img.Page page ∧ page ∉ s.freelist
  keys : ∀ key, shmKeyUsed key (s.proc cur).shmKeyMask = true →
    ∀ page ∈ (s.shmTab key).pages, img.Page page ∧ page ∉ s.freelist
  first : present ((s.dirs (s.proc cur).pgdir).pte 0) = true

/-- The process runs the new image, and pages that were free before the call
hold what they held before the commit. -/
structure Committed (s : Kernel) (cur : Slot) (new : Loaded) (t w : Kernel) : Prop where
  pgdir : (w.proc cur).pgdir = new.dir
  sz : (w.proc cur).sz = new.sz
  esp : (w.proc cur).tf.esp = new.esp
  dir : w.dirs new.dir = t.dirs new.dir
  mem : ∀ page ∈ s.freelist, ∀ a, InPage page a → w.mem a = t.mem a

section Commit

variable {img : Image} {s t : Kernel} {cur : Slot} {new : Loaded}
  {E : Panic → Prop}

/-- The process has the new directory; the old one is still there. -/
def Kernel.switched (t : Kernel) (cur : Slot) (new : Loaded) : Kernel :=
  { t with
    refs := RefTable.retain (RefTable.release t.refs (t.proc cur).pgdir).2 new.dir
    proc := Function.update t.proc cur
      { t.proc cur with
        pgdir := new.dir
        sz := new.sz
        tf := { (t.proc cur).tf with eip := new.entry, esp := new.esp }
        ustack := pgrounddown new.sz } }

/-- Pages in use before the call share no byte with pages that were free. -/
theorem ExecCaller.apart (caller : ExecCaller img s cur) {pages : List Nat}
    (inUse : ∀ page ∈ pages, img.Page page ∧ page ∉ s.freelist) {page a : Nat}
    (free : page ∈ s.freelist) (inside : InPage page a) : ∀ other ∈ pages, ¬ InPage other a := by
  intro other member there
  obtain ⟨ok, away⟩ := inUse other member
  have same := inside.unique there (caller.stocked.page page free).aligned ok.aligned
  exact away (same ▸ free)

seal PanicM.wp in
/-- The old address space is released, whatever state `m` the process is in by
then. -/
theorem wp_releaseOld {Q : Unit → Kernel → Prop} {rest : KM Unit} {m : Kernel}
    (ready : ExecReady img s cur) (shm : (m.proc cur).shm = (s.proc cur).shm)
    (dirs : m.dirs (s.proc cur).pgdir = s.dirs (s.proc cur).pgdir) (shmTab : m.shmTab = s.shmTab)
    (next : ∀ w, w.ptable = m.ptable → (∀ e, e ≠ (s.proc cur).pgdir → w.dirs e = m.dirs e) →
      (∀ page ∈ s.freelist, ∀ a, InPage page a → w.mem a = m.mem a) →
      wp rest Q E w) :
    wp (do
      shmRelease img (s.proc cur).pgdir (s.proc cur).shm (s.proc cur).shmKeyMask
      freevm img cur (s.proc cur).pgdir
      rest) Q E m := by
  have top := ready.shm
  have keys : ∀ page ∈ m.dropped (s.proc cur).shmKeyMask
      (List.finRange MAX_SHM_KEY), img.Page page ∧ page ∉ s.freelist := by
    intro page member
    unfold Kernel.dropped at member
    rw [shmTab] at member
    obtain ⟨key, _, member⟩ := List.mem_flatMap.mp member
    split at member
    · rename_i used
      exact ready.keys key used.1 page member
    · cases member
  have frames : ∀ w < userPages, ∀ p,
      (s.dirs (s.proc cur).pgdir).frame w = some p → img.Page p := by
    intro w small p holds
    refine (ready.space p ?_).1
    unfold PgDir.owned
    simp only [List.mem_append]
    exact .inl (.inl (PgDir.mem_frames.mpr ⟨w, by omega, holds⟩))
  have start : (s.proc cur).shm = (s.proc cur).shm / PGSIZE * PGSIZE :=
    (Nat.div_mul_cancel (Nat.dvd_of_mod_eq_zero ready.aligned)).symm
  have count : (s.proc cur).shm / PGSIZE + (userPages - (s.proc cur).shm / PGSIZE) = userPages := by
    simp only [PGSIZE, USERTOP, userPages] at *
    omega
  rw [wp_bind]
  rw [start]
  refine wp_shmRelease_released (by rw [dirs]; exact ready.walk) count ?_
    (fun page member => (keys page member).1) fun u released => ?_
  · intro w _ below p holds
    rw [dirs] at holds
    exact Nat.ne_of_gt (frames w (by omega) p holds).pos
  have proc : u.proc = m.proc := congrArg (fun ptable => ptable.proc) released.ptable
  have pages : ∀ page ∈ (u.dirs (s.proc cur).pgdir).owned (s.proc cur).pgdir
      (pagesOf (u.proc cur).shm), img.Page page ∧ page ∉ s.freelist := by
    intro page member
    apply ready.space
    rw [← dirs]
    exact released.owned (pagesOf_le (by rw [proc, shm]; exact top)) member
  rw [wp_bind]
  refine wp_freevm_freed ?_ (by rw [proc, shm]; exact top)
    (fun page member => (pages page member).1) fun w freed => ?_
  · rw [released.pde, dirs]
    exact ready.walk
  refine next w ?_ ?_ ?_
  · exact (congrArg Prod.fst freed.records).trans released.ptable
  · intro e other
    rw [freed.dirs e other, released.dirs e other]
  · intro page free a inside
    rw [freed.outside a (ready.apart pages free inside),
      released.outside a (ready.apart keys free inside)]

seal PanicM.wp in
theorem wp_commitExec {Q : Unit → Kernel → Prop}
    (ready : ExecReady img s cur) (records : t.records = s.records)
    (dirs : ∀ e ∉ s.freelist, t.dirs e = s.dirs e) (taken : new.dir ∈ s.freelist)
    (bad : (RefTable.release s.refs (s.proc cur).pgdir).1.getD (-1) < 0 → E .pgdirRef)
    (next : ∀ w, Committed s cur new t w → Q () w) :
    wp (commitExec img cur new.dir new.sz new.esp new.entry) Q E t := by
  have proc : t.proc = s.proc := Kernel.proc_eq records
  have refs : t.refs = s.refs := congrArg (fun records => records.1.refs) records
  have real : new.dir ≠ 0 := Nat.ne_of_gt (ready.stocked.page _ taken).pos
  have away : new.dir ≠ (s.proc cur).pgdir := by
    intro same
    exact ready.used (same ▸ taken)
  have here : (t.switched cur new).proc cur = { s.proc cur with
      pgdir := new.dir
      sz := new.sz
      tf := { (s.proc cur).tf with eip := new.entry, esp := new.esp }
      ustack := pgrounddown new.sz } := by
    unfold Kernel.switched
    rw [proc]
    dsimp only
    rw [Function.update_self]
  unfold commitExec
  simp only [deleteRef, addRef, updProc, switchuvm, wp_bind, wp_get, wp_set, wp_modify, wp_pure]
  change wp (if ((t.switched cur new).proc cur).pgdir = 0 then _ else _) _ E (t.switched cur new)
  rw [here, if_neg real, wp_pure, proc, refs]
  -- The last assignment, to `shm` and to the mask.
  have final : ∀ w, w.ptable = (t.switched cur new).ptable → w.dirs new.dir = t.dirs new.dir →
      (∀ page ∈ s.freelist, ∀ a, InPage page a → w.mem a = t.mem a) →
      wp (modify fun s => s.setProc cur { s.proc cur with
        shm := USERTOP
        shmKeyMask := 0 }) Q E w := by
    intro w ptable dir mem
    have same : w.proc cur = (t.switched cur new).proc cur :=
      congrArg (fun ptable => ptable.proc cur) ptable
    rw [here] at same
    rw [wp_modify]
    refine next _ ⟨?_, ?_, ?_, dir, mem⟩
    all_goals
      simp only [Kernel.setProc, Function.update_self, same]
  split
  · rename_i negative
    rw [wp_bind, wp_throw]
    exact bad negative
  split
  · rw [wp_bind, wp_get, here]
    refine wp_releaseOld ready ?_ ?_ ?_ fun w ptable others mem => ?_
    · rw [here]
    · exact dirs _ ready.used
    · exact congrArg Prod.snd records
    · exact final w ptable (others _ away) mem
  · exact final _ rfl rfl fun _ _ _ _ => rfl

end Commit

/-! ## The argument vector -/

section Layout

variable {img : Image} {s t w : Kernel} {cur : Slot} {new : Loaded}
  {file : Option FileImage} {argv : List (List UInt8)} {tables pages : List Nat}
  {page : Nat} {segments grown : Kernel}

/-- The argument vector of the process in slot `cur`. -/
def LaidOut (w : Kernel) (cur : Slot) (argv : List (List UInt8)) : Prop :=
  ∃ ptrs : List Nat, ptrs.length = argv.length ∧
    ArgLayout w (w.proc cur).pgdir (w.proc cur).sz (w.proc cur).tf.esp argv ptrs

theorem NewImage.taken (image : NewImage img s cur argv new tables pages page segments grown t) :
    new.dir ∈ s.freelist :=
  image.fresh.free.subset (List.mem_append_left _ List.mem_cons_self)

section NewImage

variable (stocked : Stocked img s)
  (image : NewImage img s cur argv new tables pages page segments grown t)

include stocked image

theorem NewImage.space : Open img grown new.dir new.sz := by
  have space := image.fresh.space stocked
  rw [List.length_append, List.length_singleton, ← image.size] at space
  exact space

/-- The commit leaves the bytes of the new address space alone. -/
theorem Committed.userByte (committed : Committed s cur new t w) {a : Nat} (below : a < new.sz) :
    w.userByte new.dir a = t.userByte new.dir a := by
  apply Kernel.userByte_congr
  · rw [committed.dir]
  · intro p holds
    have same : t.dirs new.dir = grown.dirs new.dir := by
      rw [image.state]
      rfl
    rw [same] at holds
    have maps := (image.space stocked).maps below
    rw [image.fresh.frame stocked maps.1] at holds
    split at holds
    · rename_i inside
      cases holds
      refine committed.mem _ ?_ _ (InPage.of_offset (Nat.mod_lt a (by decide)))
      apply image.fresh.free.subset
      exact List.mem_append_left _ (List.mem_cons_of_mem _
        (List.mem_append_right _ (getD_mem inside)))
    · cases holds

theorem NewImage.layout (committed : Committed s cur new t w) :
    ArgLayout w (w.proc cur).pgdir (w.proc cur).sz (w.proc cur).tf.esp argv
      (argPtrs new.sz argv) := by
  rw [committed.pgdir, committed.sz, committed.esp, image.esp]
  refine ArgLayout.kept ?_ length_argPtrs fun a below =>
    committed.userByte stocked image below
  rw [image.state]
  exact (image.space stocked).layout image.fits

end NewImage

/-- The stack page of the new image ends at `top`: the program has been loaded
and the page allocated. -/
def StackEnds (img : Image) (s : Kernel) (cur : Slot)
    (file : Option FileImage) (top : Nat) : Prop :=
  ∃ image elf d s₁ sz s₂ s₃, program file = some (image, elf) ∧ setupkvm img s = .ok (some d, s₁) ∧
    loadSegments img cur d image.bytes elf.phoff 0 elf.phnum s₁ = .ok (some sz, s₂) ∧
    allocuvm img cur d (pgroundup sz) (u32 (pgroundup sz + PGSIZE)) s₂ = .ok (top, s₃) ∧ top ≠ 0

/-- How `exec` ends: with -1, or with 0 and a new image. -/
inductive ExecEnds (img : Image) (s : Kernel) (cur : Slot)
    (file : Option FileImage) (argv : List (List UInt8)) (F : Prop)
    (I : Nat → List Nat → Nat → Kernel → Prop) : Int → Kernel → Prop
  | failed (w : Kernel) : program file = none ∨ s.freelist.length < 13 ∨
      NotLoaded img s cur argv F I → ExecEnds img s cur file argv F I (-1) w
  | done (new : Loaded) (tables pages : List Nat) (page sz : Nat) (before grown t w : Kernel) :
      NewImage img s cur argv new tables pages page before grown t →
      I new.dir pages sz before → pages.length = pagesOf sz →
      Committed s cur new t w → ExecEnds img s cur file argv F I 0 w

seal PanicM.wp in
theorem wp_exec_ends {E : Panic → Prop} (F : Prop) (I : Nat → List Nat → Nat → Kernel → Prop)
    (ready : ExecReady img s cur) (strings : Strings argv)
    (segments : ∀ image elf d tables t, program file = some (image, elf) →
      setupkvm img s = .ok (some d, t) → Fresh img s d tables [] t →
      wp (loadSegments img cur d image.bytes elf.phoff 0 elf.phnum)
        (Segments img s cur d tables F (I d)) E t) (bad : ∀ new tables pages page sz before grown t,
      NewImage img s cur argv new tables pages page before grown t →
      I new.dir pages sz before → pages.length = pagesOf sz →
      (RefTable.release s.refs (s.proc cur).pgdir).1.getD (-1) < 0 →
      E .pgdirRef) : wp (exec img cur file argv) (ExecEnds img s cur file argv F I) E s := by
  rw [exec_eq_load_commit]
  refine wp_seq (wp_execLoad_ends F I ready.toExecCaller strings ?_ segments) ?_
  · intro absent
    rw [ready.first] at absent
    cases absent
  intro result t ends
  cases ends with
  | absent none => exact (wp_pure _).mpr (.failed _ (.inl none))
  | empty _ none =>
    exact (wp_pure _).mpr (.failed _ (.inr (.inl (by simp [none]))))
  | short _ _ _ few _ _ _ =>
    exact (wp_pure _).mpr (.failed _ (.inr (.inl few)))
  | undone _ _ _ _ _ _ why =>
    exact (wp_pure _).mpr (.failed _ (.inr (.inr why)))
  | done _ _ new tables pages page sz before grown _ _ _ image holds size =>
    dsimp only
    rw [wp_bind]
    refine wp_commitExec ready ?_ ?_ image.taken
      (bad new tables pages page sz before grown t image holds size)
      fun w committed => ?_
    · rw [image.state]
      exact image.fresh.records
    · intro e away
      rw [image.state]
      exact image.fresh.dirs e fun same => away (same ▸ image.taken)
    · rw [wp_pure]
      exact .done new tables pages page sz before grown t w image holds size committed

theorem StackEnds.top_eq {d sz top : Nat} {u v : Kernel}
    (caller : ExecCaller img s cur) (fresh : Fresh img s d tables pages u)
    (size : pages.length = pagesOf sz) (bound : sz ≤ (s.proc cur).shm)
    (ran : allocuvm img cur d (pgroundup sz) (u32 (pgroundup sz + PGSIZE)) u =
      .ok (top, v)) (some : top ≠ 0) : top = (pagesOf sz + 1) * PGSIZE := by
  have low := bound.trans caller.shm
  have within := pagesOf_le low
  have whole : pagesOf (pgroundup sz) = pagesOf sz := by
    rw [pgroundup_pages low]
    unfold pagesOf
    simp only [PGSIZE]
    omega
  have stop : u32 (pgroundup sz + PGSIZE) = (pagesOf sz + 1) * PGSIZE := by
    rw [pgroundup_pages low, Nat.succ_mul]
    apply u32_of_lt
    simp only [PGSIZE, userPages] at *
    omega
  rw [stop] at ran
  have shm : (u.proc cur).shm ≤ USERTOP := by
    rw [fresh.proc]
    exact caller.shm
  have result := wp_ok (wp_allocuvm_fresh (E := fun _ => True)
    (Q := fun result _ => result = 0 ∨ result = (pagesOf sz + 1) * PGSIZE)
    caller.stocked fresh (size.trans whole.symm) shm (fun _ _ _ => .inl rfl)
    (fun less => by
      rw [pgroundup_pages low] at less
      simp only [PGSIZE] at less
      omega)
    (fun _ _ _ _ _ _ _ => .inr rfl)) ran
  exact result.resolve_left some

/-- `exec` lays out the argument vector, and returns -1 when it does not fit
above address 0. -/
theorem exec_lays_out (img : Image) (s : Kernel) (cur : Slot)
    (file : Option FileImage) (argv : List (List UInt8))
    (ready : ExecReady img s cur) (_straight : Straight file) (strings : Strings argv) :
    (∀ w, exec img cur file argv s = .ok (0, w) → LaidOut w cur argv) ∧
    (∀ top, StackEnds img s cur file top → ¬ StackFits top argv →
      ∃ w, exec img cur file argv s = .ok (-1, w)) := by
  have caller := ready.toExecCaller
  constructor
  · intro w ran
    have ends := wp_ok (wp_exec_ends (E := fun _ => True) True (fun _ _ _ _ => True) ready strings
      (fun image elf d tables t _ _ fresh => wp_loadSegments_any elf.phnum
        caller fresh rfl (Nat.zero_le _) trivial trivial)
      fun _ _ _ _ _ _ _ _ _ _ _ _ => trivial) ran
    generalize result : (0 : Int) = r at ends
    cases ends with
    | failed => cases result
    | done new tables pages page sz before grown t _ image _ _ committed =>
      exact ⟨argPtrs new.sz argv, length_argPtrs, image.layout caller.stocked committed⟩
  · intro top ends tooFar
    obtain ⟨image, elf, d, s₁, sz, s₂, s₃, here, made, loaded, stack, real⟩ := ends
    -- The run of the loop over the headers is known.
    have known : ∀ {tables}, Fresh img s d tables [] s₁ →
        Segments img s cur d tables False (fun _ size _ => size = sz) (some sz) s₂ := by
      intro tables fresh
      obtain ⟨pages, after, size, bound, _⟩ := wp_ok
        (wp_loadSegments_any (E := fun _ => True) elf.phnum caller fresh rfl
          (Nat.zero_le _) trivial trivial) loaded
      exact ⟨pages, after, size, bound, rfl⟩
    have segments : ∀ image' elf' d' tables t, program file = some (image', elf') →
        setupkvm img s = .ok (some d', t) → Fresh img s d' tables [] t →
        wp (loadSegments img cur d' image'.bytes elf'.phoff 0 elf'.phnum)
          (Segments img s cur d' tables False fun _ size _ => size = sz)
          (fun _ => False) t := by
      intro image' elf' d' tables t same ran fresh
      rw [here] at same
      rw [made] at ran
      cases same
      cases ran
      refine wp_intro (fun result after returned => ?_) fun reason panicked => ?_
      · rw [loaded] at returned
        cases returned
        exact known fresh
      · rw [loaded] at panicked
        cases panicked
    have unfit : ∀ {new tables pages page size before grown t},
        NewImage img s cur argv new tables pages page before grown t →
        size = sz → pages.length = pagesOf size → False := by
      intro new tables pages page size before grown t built same count
      have fits := built.fits
      rw [built.size, count, same] at fits
      have setup := wp_ok (wp_setupkvm_ends (E := fun _ => True) img s) made
      cases setup with
      | done _ tables _ fresh _ _ _ =>
        obtain ⟨pages, after, length, bound, _⟩ := known fresh
        have last := StackEnds.top_eq caller after length bound stack real
        exact tooFar (last ▸ fits)
    obtain ⟨result, w, ran, outcome⟩ := wp_returns (wp_exec_ends False
      (fun _ _ size _ => size = sz) ready strings segments
      fun new tables pages page size before grown t built same count _ =>
        unfit built same count)
    cases outcome with
    | failed => exact ⟨w, ran⟩
    | done new tables pages page size before grown t _ built same count _ =>
      exact (unfit built same count).elim

end Layout

/-! ## A program without segments -/

theorem onePage_ready {free : List Nat} (nodup : free.Nodup)
    (pages : ∀ page ∈ free, smallImage.Page page)
    (away : ∀ page ∈ [0x400000, 0x201000, 0x200000], page ∉ free) :
    ExecReady smallImage (onePage free) 0 where
  stocked := ⟨nodup, pages⟩
  shm := Nat.le_refl USERTOP
  used := away 0x200000 (by decide)
  walk := ⟨0x201000, rfl⟩
  aligned := show USERTOP % PGSIZE = 0 by decide
  space := by
    intro page member
    have listed : page ∈ [0x400000, 0x201000, 0x200000] := by
      unfold PgDir.owned at member
      rw [onePage_tables, List.append_assoc, List.mem_append] at member
      rcases member with framed | other
      · obtain ⟨w, _, holds⟩ := PgDir.mem_frames.mp framed
        rw [onePage_frame] at holds
        split at holds
        · cases holds
          exact List.mem_cons_self
        · cases holds
      · exact List.mem_cons_of_mem _ other
    have valid : ∀ page ∈ [0x400000, 0x201000, 0x200000], smallImage.Page page := by decide
    exact ⟨valid page listed, away page listed⟩
  keys := by
    intro key used
    simp [shmKeyUsed, onePage] at used
  first := show present 0x400007 = true by decide

/-- An ELF header without program headers. -/
def stackOnly : FileImage where
  bytes := [0x7F, 0x45, 0x4C, 0x46] ++ List.replicate 48 0
  short := by decide

/-- Pages for a directory, its tables and a stack. -/
def fourteen : List Nat := (List.range 14).map fun i => 0x600000 + i * PGSIZE

theorem fourteen_ready : ExecReady smallImage (onePage fourteen) 0 := by
  apply onePage_ready
  · decide
  · decide
  · decide

theorem stackOnly_runs : ∃ w, exec smallImage 0 (some stackOnly) [[0x61]]
    (onePage fourteen) = .ok (0, w) := by
  have header : program (some stackOnly) = some (stackOnly,
      { magic := ELF_MAGIC, entry := 0, phoff := 0, phnum := 0 }) := by
    rfl
  have strings : Strings [[0x61]] := by decide
  have counted : ¬ (RefTable.release (onePage fourteen).refs
      ((onePage fourteen).proc 0).pgdir).1.getD (-1) < 0 := by
    decide +kernel
  obtain ⟨result, w, ran, ends⟩ := wp_returns (wp_exec_ends False
    (fun _ _ sz _ => sz = 0) fourteen_ready strings
    (fun image elf d tables t here _ fresh => by
      rw [header] at here
      cases here
      exact ⟨[], fresh, rfl, Nat.zero_le _, rfl⟩)
    fun _ _ _ _ _ _ _ _ _ _ _ bad => counted bad)
  cases ends with
  | done => exact ⟨w, ran⟩
  | failed _ why =>
    exfalso
    rcases why with absent | few | impossible | ⟨d, tables, pages, sz,
      before, fresh, zero, size, tooFar | none | unfit⟩
    · rw [header] at absent
      cases absent
    · exact absurd few (by decide)
    · exact impossible
    · subst zero
      rw [size, fresh.proc] at tooFar
      exact absurd tooFar (by decide)
    · subst zero
      have length := fresh.free.length_eq
      have count := fresh.count
      simp only [none, List.length_append, List.length_cons, List.length_nil, size] at length
      change _ = 14 at length
      rw [show pagesOf 0 = 0 from rfl] at length
      omega
    · subst zero
      rw [size] at unfit
      exact unfit ⟨by decide, by decide⟩

/-- One argument, in a stack of one page. -/
theorem stackOnly_laid_out : ∃ w, exec smallImage 0 (some stackOnly) [[0x61]]
    (onePage fourteen) = .ok (0, w) ∧ LaidOut w 0 [[0x61]] := by
  obtain ⟨w, ran⟩ := stackOnly_runs
  have strings : Strings [[0x61]] := by decide
  have straight : Straight (some stackOnly) := by
    rintro image elf ⟨⟩ k few
    exact absurd few (Nat.not_lt_zero k)
  exact ⟨w, ran, (exec_lays_out smallImage (onePage fourteen) 0
    (some stackOnly) [[0x61]] fourteen_ready straight strings).1 w ran⟩

end Xv6
