/-
Purpose: When a failed `shmgetat` leaves everything as it was.  `allocshm`
  unmaps the pages it has taken when it runs out of memory, but does not give
  them back.
-/
import Xv6.Proofs.Replay
import Xv6.Proofs.UserPages

namespace Xv6

open PanicM

/-- A process that may attach shared memory.  It has a byte of memory or
more: `exec` gives it a stack, and `growproc` never stores a size of zero. -/
structure ShmProc (img : Image) (s : Kernel) (cur : Slot) : Prop where
  dir : UserDir img s (s.proc cur).pgdir
  nonempty : 0 < (s.proc cur).sz
  size : (s.proc cur).sz ≤ (s.proc cur).shm
  top : (s.proc cur).shm ≤ USERTOP
  aligned : (s.proc cur).shm % PGSIZE = 0

/-- The tables of the kernel, all mappings and the set of free pages are as
before. -/
structure Unattached (s t : Kernel) : Prop where
  records : t.records = s.records
  pde : ∀ e, (t.dirs e).pde = (s.dirs e).pde
  entry : ∀ e v, (t.dirs e).entry v = (s.dirs e).entry v
  free : ∀ page, page ∈ t.freelist ↔ page ∈ s.freelist

/-- A call that fails changes nothing. -/
def ShmKept (s : Kernel) (cur : Slot) (key numPages : Int) (stack : Nat → Nat) : Prop :=
  ∀ t, shmgetat cur key numPages stack s = .ok (none, t) → Unattached s t

/-- The call makes new pages for a key: it is not refused and nobody holds the
key. -/
structure MakesPages (s : Kernel) (cur : Slot) (key numPages : Int) : Prop where
  key : ∃ k : Key, key = (k : Nat) ∧
    shmKeyUsed k (s.proc cur).shmKeyMask = false ∧ (s.shmTab k).count = 0
  few : 0 ≤ numPages ∧ numPages ≤ MAX_SHM_PGNUM
  room : (s.proc cur).sz + numPages.toNat * PGSIZE ≤ (s.proc cur).shm

/-- There are enough pages; or there is none, and nothing is mapped where they
would go; or the call meets a page that is mapped already and does not
return. -/
def ShmSafe (s : Kernel) (cur : Slot) (key numPages : Int) : Prop :=
  MakesPages s cur key numPages → numPages.toNat ≤ s.freelist.length ∨
    (s.freelist = [] ∧ ∀ v, v < (s.proc cur).shm / PGSIZE →
      (s.proc cur).shm / PGSIZE ≤ v + numPages.toNat →
      (s.dirs (s.proc cur).pgdir).entry v = none) ∨
    ∃ v, v < (s.proc cur).shm / PGSIZE - numPages.toNat + s.freelist.length ∧
      v < (s.proc cur).shm / PGSIZE ∧
      (s.proc cur).shm / PGSIZE ≤ v + numPages.toNat ∧
      (s.dirs (s.proc cur).pgdir).entry v ≠ none

section Loop

variable {img : Image} {s t u : Kernel} {E : Panic → Prop} {d : Nat}

/-- The loop of `allocshm`, by induction on its rounds. -/
theorem wp_allocShmLoop {Q : Option (List Nat) → Kernel → Prop}
    {first count : Nat} (n : Nat) {s : Kernel} {v : Nat} {taken : List Nat}
    (ok : UserDir img s d) (limit : v + n ≤ userPages) (within : first + count ≤ userPages)
    (grown : ∀ t pages, Grown d v pages zeros s t → pages.length = n →
      Q (some (taken.reverse ++ pages)) t)
    (short : ∀ t u pages, Grown d v pages zeros s t → pages.length < n → t.freelist = [] →
      (∀ w, v ≤ w → w < v + pages.length → (s.dirs d).frame w = none) →
      Unmapped d first count t u → Q none u)
    (remap : ∀ w, v ≤ w → w < v + n → w < v + s.freelist.length →
      (s.dirs d).frame w ≠ none → E .remap) :
    wp (allocShmLoop d (first * PGSIZE) ((first + count) * PGSIZE) (v * PGSIZE) taken n) Q E s := by
  induction n generalizing v s taken with
  | zero =>
    have done := grown s [] (.refl d v zeros s) rfl
    rw [List.append_nil] at done
    exact done
  | succ n ih =>
    rw [allocShmLoop, wp_bind]
    apply wp_kalloc
    · intro empty
      rw [wp_bind]
      refine wp_deallocshm_unmapped ok.walk within ?_ ?_
      · intro w _ below p holds
        exact Nat.ne_of_gt (ok.page w (by omega) p holds).1.pos
      · intro u unmapped
        refine short s u [] (.refl d v zeros s) (by simp) empty ?_ unmapped
        intro w above below
        rw [List.length_nil] at below
        exact absurd below (by omega)
    · intro page rest list
      rw [wp_bind, zeroPage, wp_modify, wp_bind]
      refine wp_mapNew_grown zeros ok.walk (by omega) list rfl
        rfl rfl (fun o inside => if_pos (InPage.of_offset inside))
        (fun a outside => if_neg outside) ?_ ?_
      · exact remap v le_rfl (by omega) (by rw [list]; simp)
      · intro absent t one
        have free : s.freelist = page :: t.freelist := one.free
        rw [← Nat.add_one_mul]
        refine ih (one.userDir ok) (by omega) ?_ ?_ ?_
        · intro x pages more count
          have done := grown x (page :: pages) (.extend ok one more) (by simp [count])
          rwa [List.append_cons, ← List.reverse_cons] at done
        · intro x y pages more few empty apart unmapped
          exact short x y (page :: pages) (.extend ok one more)
            (by simpa using few) empty (one.absent absent apart) unmapped
        · intro w above below reached there
          rw [one.frame_of_ne (by omega)] at there
          refine remap w (by omega) (by omega) ?_ there
          rw [free, List.length_cons]
          omega

end Loop

section Call

variable {img : Image} {s t : Kernel} {cur : Slot} {key numPages : Int}
  {stack : Nat → Nat} {E : Panic → Prop}

theorem ShmProc.refused_iff (proc : ShmProc img s cur) (newShm : Nat)
    (aligned : newShm % PGSIZE = 0) :
    shmRefused (s.proc cur).shm newShm (s.proc cur).sz = true ↔ newShm < (s.proc cur).sz := by
  have top := proc.top
  unfold shmRefused
  simp only [proc.aligned, aligned, Bool.or_eq_true, decide_eq_true_eq]
  simp
  omega

theorem shmBelow_aligned {shm : Nat} (aligned : shm % PGSIZE = 0)
    (n : Nat) : shmBelow shm n % PGSIZE = 0 := by
  unfold shmBelow u32
  simp only [PGSIZE] at *
  omega

theorem shmBelow_room {shm n : Nat} (room : n * PGSIZE ≤ shm)
    (top : shm ≤ USERTOP) : shmBelow shm n = shm - n * PGSIZE := by
  unfold shmBelow u32
  simp only [PGSIZE, USERTOP] at *
  omega

/-- Pages that do not fit below `shm` are pages at the end of the address
space, of which none is below `shm`. -/
theorem shmPages_wrapped {shm n : Nat} (tooFar : shm < n * PGSIZE)
    (few : n ≤ 4) (top : shm ≤ USERTOP) :
    shmPages (shmBelow shm n) shm = 0 ∧ USERTOP < shmBelow shm n := by
  unfold shmPages pagesTo shmBelow u32
  simp only [PGSIZE, USERTOP] at *
  omega

theorem wp_shmgetat_other (proc : ShmProc img s cur) (other : ¬ MakesPages s cur key numPages) :
    wp (shmgetat cur key numPages stack) (fun r t => r = none → t = s) (fun _ => True) s := by
  unfold shmgetat
  split
  case isFalse => exact fun _ => rfl
  rename_i inRange
  split
  case isFalse => exact fun _ => rfl
  rename_i count
  dsimp only
  rw [wp_bind, wp_get, wp_ite]
  refine ⟨fun _ impossible => absurd impossible (by simp), fun unused => ?_⟩
  rw [wp_ite]
  constructor
  · intro fresh
    unfold allocshm
    rw [wp_bind, wp_ite]
    refine ⟨fun _ _ => rfl, fun taken => ?_⟩
    rw [proc.refused_iff _ (shmBelow_aligned proc.aligned _)] at taken
    have tooFar : (s.proc cur).shm < numPages.toNat * PGSIZE := by
      by_contra fits
      refine other ⟨⟨_, (Int.toNat_of_nonneg inRange.1).symm, ?_, fresh⟩, count, ?_⟩
      · exact Bool.eq_false_iff.mpr unused
      · rw [shmBelow_room (by omega) proc.top] at taken
        omega
    have few : numPages.toNat ≤ 4 := by
      have le := count.2
      simp only [MAX_SHM_PGNUM] at le
      omega
    obtain ⟨none, high⟩ := shmPages_wrapped tooFar few proc.top
    have pos := proc.nonempty
    rw [none, wp_bind, allocShmLoop, wp_pure, wp_pure, if_neg (by omega)]
    exact fun impossible => absurd impossible (Option.some_ne_none _)
  · intro held
    unfold mapshm
    rw [wp_bind, wp_ite]
    refine ⟨fun _ _ => rfl, fun taken => ?_⟩
    rw [proc.refused_iff _ (shmBelow_aligned proc.aligned _)] at taken
    have pos := proc.nonempty
    rw [wp_bind]
    refine wp_intro (fun _ mapped _ => ?_) fun _ _ => trivial
    rw [wp_pure, if_pos (by simp only [decide_eq_true_eq]; omega)]
    exact fun impossible => absurd impossible (Option.some_ne_none _)

/-- The call has mapped all free pages, not enough of them, and unmapped them
again. -/
structure RanOut (s : Kernel) (cur : Slot) (n : Nat) (t u : Kernel) (pages : List Nat) : Prop where
  grown : Grown (s.proc cur).pgdir ((s.proc cur).shm / PGSIZE - n) pages zeros s t
  few : pages.length < n
  out : t.freelist = []
  absent : ∀ w, (s.proc cur).shm / PGSIZE - n ≤ w →
    w < (s.proc cur).shm / PGSIZE - n + pages.length →
    (s.dirs (s.proc cur).pgdir).frame w = none
  unmapped : Unmapped (s.proc cur).pgdir ((s.proc cur).shm / PGSIZE - n) n t u

theorem wp_shmgetat_new (stack : Nat → Nat) {Q : Option Nat → Kernel → Prop}
    (proc : ShmProc img s cur) (makes : MakesPages s cur key numPages)
    (done : numPages.toNat ≤ s.freelist.length → ∀ t va, Q (some va) t)
    (short : ∀ t u pages, RanOut s cur numPages.toNat t u pages → Q none u)
    (remap : ∀ w, (s.proc cur).shm / PGSIZE - numPages.toNat ≤ w → w < (s.proc cur).shm / PGSIZE →
      w < (s.proc cur).shm / PGSIZE - numPages.toNat + s.freelist.length →
      (s.dirs (s.proc cur).pgdir).frame w ≠ none → E .remap) :
    wp (shmgetat cur key numPages stack) Q E s := by
  obtain ⟨⟨k, rfl, unused, fresh⟩, count, room⟩ := makes
  have top := proc.top
  have aligned := proc.aligned
  have pos := proc.nonempty
  have inRange : 0 ≤ ((k : Nat) : Int) ∧ ((k : Nat) : Int) < MAX_SHM_KEY :=
    ⟨Int.natCast_nonneg _, by exact_mod_cast k.isLt⟩
  have start := shmBelow_room (Nat.le_of_add_left_le room) top
  have shm : (s.proc cur).shm = ((s.proc cur).shm / PGSIZE - numPages.toNat + numPages.toNat) *
        PGSIZE := by
    simp only [PGSIZE] at *
    omega
  have newShm : (s.proc cur).shm - numPages.toNat * PGSIZE =
      ((s.proc cur).shm / PGSIZE - numPages.toNat) * PGSIZE := by
    simp only [PGSIZE] at *
    omega
  have pages : shmPages (((s.proc cur).shm / PGSIZE - numPages.toNat) *
      PGSIZE) (s.proc cur).shm = numPages.toNat := by
    unfold shmPages
    rw [pagesTo_pages]
    unfold pagesOf
    simp only [PGSIZE] at *
    omega
  have notRefused : ¬ shmRefused (s.proc cur).shm
      (((s.proc cur).shm / PGSIZE - numPages.toNat) * PGSIZE)
      (s.proc cur).sz = true := by
    rw [proc.refused_iff _ (Nat.mul_mod_left _ _), ← newShm]
    omega
  unfold shmgetat
  rw [dif_pos inRange, if_pos count]
  dsimp only
  rw [wp_bind, wp_get]
  simp only [Int.toNat_natCast, Fin.eta]
  rw [if_neg (by rw [unused]; exact Bool.false_ne_true), if_pos fresh, start,
    newShm, allocshm, if_neg notRefused, pages, wp_bind, wp_bind]
  nth_rewrite 2 [shm]
  refine wp_allocShmLoop _ proc.dir (by
      simp only [PGSIZE, USERTOP, userPages] at *
      omega) (by
      simp only [PGSIZE, USERTOP, userPages] at *
      omega) ?_ ?_ ?_
  · intro t pages grown count
    have taken := congrArg List.length grown.free
    rw [List.length_append, count] at taken
    rw [wp_pure, if_neg (by rw [← newShm]; omega)]
    exact done (by omega) _ _
  · intro t u pages grown few out absent unmapped
    rw [wp_pure, ite_self]
    exact short t u pages ⟨grown, few, out, absent, unmapped⟩
  · intro w above below reached there
    exact remap w above (by
      simp only [PGSIZE] at *
      omega) reached there

/-- The pages are lost, and the whole range is unmapped. -/
theorem RanOut.unattached_iff {n : Nat} {u : Kernel} {pages : List Nat}
    (ran : RanOut s cur n t u pages) (room : n ≤ (s.proc cur).shm / PGSIZE) :
    Unattached s u ↔ s.freelist = [] ∧ ∀ v, v < (s.proc cur).shm / PGSIZE →
      (s.proc cur).shm / PGSIZE ≤ v + n →
      (s.dirs (s.proc cur).pgdir).entry v = none := by
  have all : s.freelist = pages := by
    rw [ran.grown.free, ran.out, List.append_nil]
  have none : u.freelist = [] := ran.unmapped.free.trans ran.out
  constructor
  · intro same
    constructor
    · apply List.eq_nil_iff_forall_not_mem.mpr
      intro page mem
      have free := (same.free page).mpr mem
      rw [none] at free
      exact List.not_mem_nil free
    · intro v below above
      rw [← same.entry, ran.unmapped.entry, if_pos (by omega)]
  · rintro ⟨empty, absent⟩
    have noPages : pages = [] := all.symm.trans empty
    constructor
    case records => exact ran.unmapped.records.trans ran.grown.records
    case pde =>
      intro e
      by_cases here : e = (s.proc cur).pgdir
      · rw [here, ran.unmapped.pde, ran.grown.pde]
      · rw [ran.unmapped.dirs e here, ran.grown.dirs e here]
    case entry =>
      refine ran.grown.entry_undo ran.unmapped.toCleared ran.few.le ?_
      intro w above below
      exact PgDir.entry_eq_none.mp (absent w (by omega) (by omega))
    case free =>
      intro page
      rw [none, empty]

end Call

/-- A failed `shmgetat` leaves everything as it was, unless it runs out of
pages after it has taken one or where a page is mapped already. -/
theorem shmgetat_kept_iff (img : Image) (s : Kernel) (cur : Slot)
    (key numPages : Int) (stack : Nat → Nat) (proc : ShmProc img s cur) :
    ShmKept s cur key numPages stack ↔ ShmSafe s cur key numPages := by
  by_cases makes : MakesPages s cur key numPages
  · have fits : numPages.toNat ≤ (s.proc cur).shm / PGSIZE := by
      have room := makes.room
      simp only [PGSIZE] at *
      omega
    constructor
    · intro kept _
      by_contra fails
      rw [not_or, not_or, not_exists] at fails
      obtain ⟨few, lost, unmet⟩ := fails
      -- Nothing stops the call before it runs out of pages.
      obtain ⟨r, u, run, rfl, t, pages, ran⟩ := wp_returns (wp_shmgetat_new
        stack (Q := fun r u => r = none ∧
          ∃ t pages, RanOut s cur numPages.toNat t u pages) proc makes
        (fun enough => absurd enough few)
        (fun t u pages ran => ⟨rfl, t, pages, ran⟩)
        fun w above below reached there => unmet w ⟨reached, below, by omega,
          fun none => there (PgDir.entry_eq_none.mp none)⟩)
      exact lost ((ran.unattached_iff fits).mp (kept u run))
    · intro safe u run
      obtain ⟨t, pages, ran⟩ := wp_ok (wp_shmgetat_new
        stack (E := fun _ => True) (Q := fun r u => r = none →
          ∃ t pages, RanOut s cur numPages.toNat t u pages) proc makes
        (fun _ _ _ impossible => absurd impossible (Option.some_ne_none _))
        (fun t u pages ran _ => ⟨t, pages, ran⟩)
        fun _ _ _ _ _ => trivial) run rfl
      have all : s.freelist.length = pages.length := by
        rw [ran.grown.free, ran.out, List.append_nil]
      have few := ran.few
      rcases safe makes with enough | unattached | ⟨v, reached, _, above, there⟩
      · omega
      · exact (ran.unattached_iff fits).mpr unattached
      · exact absurd (PgDir.entry_eq_none.mpr (ran.absent v (by omega) (by omega))) there
  · refine iff_of_true ?_ fun impossible => absurd impossible makes
    intro t run
    have same := wp_ok (wp_shmgetat_other proc makes) run rfl
    rw [same]
    exact ⟨rfl, fun _ => rfl, fun _ _ => rfl, fun _ => Iff.rfl⟩

theorem onePage_shmProc {free : List Nat} (nodup : free.Nodup)
    (pages : ∀ page ∈ free, smallImage.Page page)
    (used : 0x400000 ∉ free) : ShmProc smallImage (onePage free) 0 where
  dir := onePage_userDir nodup pages (by decide) used _
  nonempty := show 0 < 4096 by decide
  size := show 4096 ≤ USERTOP by decide
  top := Nat.le_refl USERTOP
  aligned := show USERTOP % PGSIZE = 0 by decide

/-- Two pages when none is free. -/
theorem onePage_shm_refused : ShmProc smallImage (onePage []) 0 ∧
      ShmKept (onePage []) 0 0 2 fun _ => 0 := by
  have proc : ShmProc smallImage (onePage []) 0 :=
    onePage_shmProc (by decide) (by decide) (by decide)
  refine ⟨proc, (shmgetat_kept_iff _ _ _ _ _ _ proc).mpr fun _ =>
    Or.inr (Or.inl ⟨rfl, fun v _ above => ?_⟩)⟩
  change 160 ≤ v + 2 at above
  rw [onePage_entry, if_neg (by omega)]

/-- Whether the call fails, and the free pages after it. -/
def freeAfter (result : Except Panic (Option Nat × Kernel)) : Option (Bool × List Nat) :=
  match result with
  | .ok (r, t) => some (r.isNone, t.freelist)
  | .error _ => none

/-- Two pages when one is free: it is lost. -/
theorem onePage_shm_leaks : ShmProc smallImage (onePage [0x300000]) 0 ∧
      freeAfter (shmgetat 0 0 2 (fun _ => 0) (onePage [0x300000])) = some (true, []) ∧
      ¬ ShmKept (onePage [0x300000]) 0 0 2 fun _ => 0 := by
  have lost : freeAfter (shmgetat 0 0 2 (fun _ => 0) (onePage [0x300000])) = some (true, []) := by
    decide +kernel
  refine ⟨onePage_shmProc (by decide) (by decide) (by decide), lost, fun kept => ?_⟩
  cases ran : shmgetat 0 0 2 (fun _ => 0) (onePage [0x300000]) with
  | error reason => simp [ran, freeAfter] at lost
  | ok result =>
    obtain ⟨r, t⟩ := result
    simp only [ran, freeAfter, Option.some.injEq, Prod.mk.injEq, Option.isNone_iff_eq_none] at lost
    have free := (kept t (lost.1 ▸ ran)).free 0x300000
    rw [lost.2] at free
    exact absurd (free.mpr List.mem_cons_self) List.not_mem_nil

end Xv6
