/-
Purpose: What `growproc` does for every size and argument, and when that is
  what `sbrk` promises.  A process that gives all its memory back is told that
  the call failed, and one that asks for a size below zero that it succeeded.
-/
import Xv6.Proofs.Replay
import Xv6.Proofs.UserPages

namespace Xv6

open Kernel PanicM
open Or (inl inr)

/-- A process whose memory below `sz` and shared memory are mapped. -/
structure Sized (img : Image) (s : Kernel) (cur : Slot) : Prop where
  dir : UserDir img s (s.proc cur).pgdir
  pgdir : (s.proc cur).pgdir ≠ 0
  size : (s.proc cur).sz ≤ (s.proc cur).shm
  top : (s.proc cur).shm ≤ USERTOP
  mapped : ∀ v, v * PGSIZE < (s.proc cur).sz → ((s.dirs (s.proc cur).pgdir).entry v).isSome
  shared : ∀ v < userPages, (s.proc cur).shm ≤ v * PGSIZE →
    ((s.dirs (s.proc cur).pgdir).entry v).isSome

/-- The size, every mapping and the set of free pages are as before, and so is
every byte outside the free pages. -/
structure Untouched (s t : Kernel) (cur : Slot) : Prop where
  size : (t.proc cur).sz = (s.proc cur).sz
  entry : ∀ e v, (t.dirs e).entry v = (s.dirs e).entry v
  mem : ∀ a, (∀ page ∈ s.freelist, ¬ InPage page a) → t.mem a = s.mem a
  free : ∀ page, page ∈ t.freelist ↔ page ∈ s.freelist

/-- The size has changed by `n` bytes, and the memory with it. -/
structure Resized (s t : Kernel) (cur : Slot) (n : Int) : Prop where
  size : ((t.proc cur).sz : Int) = (s.proc cur).sz + n
  fits : (t.proc cur).sz ≤ (s.proc cur).shm
  mapped : ∀ v < userPages, ((t.dirs (s.proc cur).pgdir).entry v).isSome ↔
      v * PGSIZE < (t.proc cur).sz ∨ (s.proc cur).shm ≤ v * PGSIZE
  bytes : ∀ va, va < (s.proc cur).sz → va < (t.proc cur).sz →
    t.userByte (s.proc cur).pgdir va = s.userByte (s.proc cur).pgdir va
  zero : ∀ v < userPages, (s.dirs (s.proc cur).pgdir).entry v = none →
    ((t.dirs (s.proc cur).pgdir).entry v).isSome → ∀ o < PGSIZE,
    t.userByte (s.proc cur).pgdir (v * PGSIZE + o) = some 0

/-- What a call with result `r` promises. -/
def Promise (s : Kernel) (cur : Slot) (n r : Int) (t : Kernel) : Prop :=
  (r = -1 → Untouched s t cur) ∧ (r = 0 → Resized s t cur n)

/-- A call that fails changes nothing, and one that succeeds does what it
says. -/
def SbrkKept (img : Image) (s : Kernel) (cur : Slot) (n : Int) : Prop :=
  ∀ r t, growproc img cur n s = .ok (r, t) → Promise s cur n r t

/-- A page is mapped between the end of the process and its shared memory; a
thread with the same directory and a greater size has put it there. -/
def Kernel.Stray (s : Kernel) (cur : Slot) (v : Nat) : Prop :=
  pagesOf (s.proc cur).sz ≤ v ∧ v * PGSIZE < (s.proc cur).shm ∧
    ((s.dirs (s.proc cur).pgdir).entry v).isSome

/-- When a call keeps its promise.  A call that asks for more and meets a
stray page does not return, and one that runs out of pages unmaps all stray
pages in the range. -/
structure SbrkSafe (s : Kernel) (cur : Slot) (n : Int) : Prop where
  shrink : n < 0 → (s.proc cur).sz ≠ 0 → 0 < (s.proc cur).sz + n ∧ ∀ v, ¬ s.Stray cur v
  stay : n = 0 → ∀ v, ¬ s.Stray cur v
  grow : 0 < n → (s.proc cur).sz + n ≤ (s.proc cur).shm → (∀ v, ¬ s.Stray cur v) ∨
    (∃ v, s.Stray cur v ∧ v < pagesOf ((s.proc cur).sz + n).toNat ∧
      v < pagesOf (s.proc cur).sz + s.freelist.length) ∨
    (s.freelist.length < pagesOf ((s.proc cur).sz + n).toNat - pagesOf (s.proc cur).sz ∧
      ∀ v, s.Stray cur v → pagesOf ((s.proc cur).sz + n).toNat ≤ v)

section Outcomes

variable {img : Image} {s t : Kernel} {cur : Slot} {n : Int}
  {E : Panic → Prop}

/-- `proc->sz = sz; switchuvm(proc); return 0`. -/
def Kernel.resize (s : Kernel) (cur : Slot) (sz : Nat) : Kernel :=
  s.setProc cur { s.proc cur with sz := sz }

theorem wp_resize {Q : Int → Kernel → Prop} {sz : Nat}
    (pgdir : (s.proc cur).pgdir ≠ 0) (next : Q 0 (s.resize cur sz)) :
    wp (do
      updProc cur fun p => { p with sz := sz }
      switchuvm cur
      pure 0) Q E s := by
  have switched : ((s.resize cur sz).proc cur).pgdir ≠ 0 := by
    simp only [resize, setProc, Function.update_self]
    exact pgdir
  rw [wp_bind, updProc, wp_modify, wp_bind, switchuvm, wp_bind, wp_get]
  change wp (if ((s.resize cur sz).proc cur).pgdir = 0 then _ else _) _ _ _
  rw [if_neg switched]
  exact next

@[simp] theorem Kernel.resize_sz (s : Kernel) (cur : Slot) (sz : Nat) :
    ((s.resize cur sz).proc cur).sz = sz := by
  simp [resize, setProc]

theorem Sized.entry_iff (sized : Sized img s cur) {v : Nat} (inside : v < userPages) :
    ((s.dirs (s.proc cur).pgdir).entry v).isSome ↔ v < pagesOf (s.proc cur).sz ∨ s.Stray cur v ∨
        (s.proc cur).shm ≤ v * PGSIZE := by
  constructor
  · intro there
    by_cases below : v < pagesOf (s.proc cur).sz
    · exact inl below
    · by_cases shared : (s.proc cur).shm ≤ v * PGSIZE
      · exact inr (inr shared)
      · exact inr (inl ⟨by omega, by omega, there⟩)
  · rintro (below | stray | shared)
    · exact sized.mapped v (lt_pagesOf.mp below)
    · exact stray.2.2
    · exact sized.shared v inside shared

theorem Sized.stray_lt (sized : Sized img s cur) {v : Nat}
    (stray : s.Stray cur v) : v < userPages := by
  have top := sized.top
  have below := stray.2.1
  simp only [USERTOP, PGSIZE, userPages] at *
  omega

theorem Untouched.refl (s : Kernel) (cur : Slot) : Untouched s s cur where
  size := rfl
  entry _ _ := rfl
  mem _ _ := rfl
  free _ := Iff.rfl

/-! ## The outcomes of a call -/

/-- How a call can end, with the state it leaves. -/
inductive Sbrk (s : Kernel) (cur : Slot) (n : Int) : Int → Kernel → Prop where
  | refused (tooFar : 0 < n ∧ (s.proc cur).shm < (s.proc cur).sz + n ∨
      n < 0 ∧ (s.proc cur).sz = 0) : Sbrk s cur n (-1) s
  /-- A size below zero is a size of almost `2^32`, to which `deallocuvm`
  need not shrink. -/
  | wrapped (nonempty : (s.proc cur).sz ≠ 0) (below : (s.proc cur).sz + n < 0) :
      Sbrk s cur n 0 (s.resize cur (s.proc cur).sz)
  | stay (zero : n = 0) : Sbrk s cur n 0 (s.resize cur (s.proc cur).sz)
  /-- The new size 0 is taken for a failure. -/
  | emptied (nonempty : (s.proc cur).sz ≠ 0) (zero : (s.proc cur).sz + n = 0) (t : Kernel)
      (shrunk : Shrunk (s.proc cur).pgdir 0 (pagesOf (s.proc cur).sz) s t) :
      Sbrk s cur n (-1) t
  | shrunk (newSize : Nat) (size : (newSize : Int) = (s.proc cur).sz + n)
      (negative : n < 0) (nonempty : 0 < newSize) (t : Kernel)
      (shrunk : Shrunk (s.proc cur).pgdir (pagesOf newSize)
        (pagesOf (s.proc cur).sz - pagesOf newSize) s t) :
      Sbrk s cur n 0 (t.resize cur newSize)
  | grown (newSize : Nat) (size : (newSize : Int) = (s.proc cur).sz + n)
      (positive : 0 < n) (fits : newSize ≤ (s.proc cur).shm) (t : Kernel)
      (pages : List Nat)
      (grown : Grown (s.proc cur).pgdir (pagesOf (s.proc cur).sz) pages zeros s t)
      (count : pages.length = pagesOf newSize - pagesOf (s.proc cur).sz)
      (absent : ∀ w, pagesOf (s.proc cur).sz ≤ w → w < pagesOf newSize →
        (s.dirs (s.proc cur).pgdir).frame w = none) :
      Sbrk s cur n 0 (t.resize cur newSize)
  | short (newSize : Nat) (size : (newSize : Int) = (s.proc cur).sz + n)
      (positive : 0 < n) (fits : newSize ≤ (s.proc cur).shm) (t u : Kernel)
      (pages : List Nat)
      (grown : Grown (s.proc cur).pgdir (pagesOf (s.proc cur).sz) pages zeros s t)
      (few : pages.length < pagesOf newSize - pagesOf (s.proc cur).sz)
      (out : t.freelist = [])
      (absent : ∀ w, pagesOf (s.proc cur).sz ≤ w → w < pagesOf (s.proc cur).sz + pages.length →
        (s.dirs (s.proc cur).pgdir).frame w = none)
      (shrunk : Shrunk (s.proc cur).pgdir (pagesOf (s.proc cur).sz)
        (pagesOf newSize - pagesOf (s.proc cur).sz) t u) :
      Sbrk s cur n (-1) u

/-- The call met a stray page before it ran out of pages. -/
def Kernel.Meets (s : Kernel) (cur : Slot) (n : Int) : Prop :=
  0 < n ∧ ∃ v, s.Stray cur v ∧ v < pagesOf ((s.proc cur).sz + n).toNat ∧
    v < pagesOf (s.proc cur).sz + s.freelist.length

theorem wp_growproc (sized : Sized img s cur) (lower : -2 ^ 31 ≤ n) (upper : n < 2 ^ 31) :
    wp (growproc img cur n) (Sbrk s cur n) (fun _ => s.Meets cur n) s := by
  have size := sized.size
  have top := sized.top
  simp only [USERTOP] at top
  have pages : ∀ w < pagesOf (s.proc cur).sz, ∀ p,
      (s.dirs (s.proc cur).pgdir).frame w = some p → img.Page p := by
    intro w below p holds
    have limit := pagesOf_le (size.trans sized.top)
    exact (sized.dir.page w (by omega) p holds).1
  unfold growproc
  rw [wp_bind, wp_get]
  dsimp only
  rcases Int.lt_trichotomy n 0 with negative | zero | pos
  · rw [if_neg (by omega), if_pos negative, wp_bind]
    by_cases below : (s.proc cur).sz + n < 0
    · rw [toU32_of_neg below (by omega), deallocuvm, if_pos (by omega), wp_pure]
      by_cases empty : (s.proc cur).sz = 0
      · rw [if_pos ⟨by omega, empty⟩, wp_pure]
        exact .refused (inr ⟨negative, empty⟩)
      · rw [if_neg fun both => empty both.2]
        exact wp_resize sized.pgdir (.wrapped empty below)
    · obtain ⟨newSize, sum⟩ := Int.eq_ofNat_of_zero_le
        (show 0 ≤ ((s.proc cur).sz : Int) + n by omega)
      rw [sum, toU32_of_nonneg (by omega) (by omega), Int.toNat_natCast]
      refine wp_deallocuvm_shrunk sized.dir.walk
        (by simp only [USERTOP]; omega) (fun w _ below => pages w below) ?_ ?_
      · intro impossible
        exact absurd impossible (by omega)
      · intro smaller t shrunk
        have records : t.proc = s.proc := congrArg (fun r => r.1.proc) shrunk.records
        by_cases zero : newSize = 0
        · rw [if_pos ⟨by omega, zero⟩, wp_pure]
          subst zero
          exact .emptied (by omega) sum t shrunk
        · rw [if_neg fun both => zero both.2]
          exact wp_resize (by rw [records]; exact sized.pgdir)
            (.shrunk newSize sum.symm negative (by omega) t shrunk)
  · rw [if_neg (by omega), if_neg (by omega), wp_bind, wp_pure, if_neg fun both => both.1 zero]
    exact wp_resize sized.pgdir (.stay zero)
  · obtain ⟨newSize, sum⟩ := Int.eq_ofNat_of_zero_le (show 0 ≤ ((s.proc cur).sz : Int) + n by omega)
    rw [if_pos pos, sum, toU32_of_nonneg (by omega) (by omega), Int.toNat_natCast, wp_bind]
    refine wp_allocuvm_grown sized.dir sized.top ?_ ?_ ?_ ?_ ?_
    · intro tooFar
      rw [if_pos ⟨by omega, rfl⟩, wp_pure]
      exact .refused (inl ⟨pos, by omega⟩)
    · intro impossible
      exact absurd impossible (by omega)
    · intro _ fits t pages grown count absent
      have records : t.proc = s.proc := congrArg (fun r => r.1.proc) grown.records
      rw [if_neg (by omega)]
      exact wp_resize (by rw [records]; exact sized.pgdir)
        (.grown newSize sum.symm pos fits t pages grown count absent)
    · intro _ fits t u pages grown few out absent shrunk
      rw [if_pos ⟨by omega, rfl⟩, wp_pure]
      exact .short newSize sum.symm pos fits t u pages grown few out absent shrunk
    · intro fits w above below reached there
      have start := lt_pagesOf.mp below
      refine ⟨pos, w, ⟨above, by omega, ?_⟩, ?_, reached⟩
      · rw [Option.isSome_iff_ne_none, Ne, PgDir.entry_eq_none]
        exact there
      · rw [sum]
        exact below

/-! ## Which outcomes keep the promise -/

theorem promise_failed : Promise s cur n (-1) t ↔ Untouched s t cur :=
  ⟨fun promise => promise.1 rfl, fun untouched =>
    ⟨fun _ => untouched, fun impossible => absurd impossible (by decide)⟩⟩

theorem promise_done : Promise s cur n 0 t ↔ Resized s t cur n :=
  ⟨fun promise => promise.2 rfl, fun resized =>
    ⟨fun impossible => absurd impossible (by decide), fun _ => resized⟩⟩

/-- The pages of the new size are mapped, and stray pages beyond it. -/
theorem Sized.resized_iff (sized : Sized img s cur) {newSize : Nat}
    (size : (newSize : Int) = (s.proc cur).sz + n) (fits : newSize ≤ (s.proc cur).shm)
    (entries : ∀ v < userPages, ((t.dirs (s.proc cur).pgdir).entry v).isSome ↔ v < pagesOf newSize ∨
        s.Stray cur v ∨ (s.proc cur).shm ≤ v * PGSIZE)
    (above : ∀ v, s.Stray cur v → pagesOf newSize ≤ v)
    (bytes : ∀ va, va < (s.proc cur).sz → va < newSize →
      t.userByte (s.proc cur).pgdir va = s.userByte (s.proc cur).pgdir va)
    (zero : ∀ v < userPages, (s.dirs (s.proc cur).pgdir).entry v = none →
      ((t.dirs (s.proc cur).pgdir).entry v).isSome → ∀ o < PGSIZE,
      t.userByte (s.proc cur).pgdir (v * PGSIZE + o) = some 0) :
    Resized s (t.resize cur newSize) cur n ↔ ∀ v, ¬ s.Stray cur v := by
  constructor
  · intro resized v stray
    have inside := sized.stray_lt stray
    have mapped := resized.mapped v inside
    rw [resize_sz, ← lt_pagesOf] at mapped
    have listed := mapped.mp ((entries v inside).mpr (inr (inl stray)))
    have beyond := above v stray
    have unshared := stray.2.1
    omega
  · intro noStray
    constructor
    case size =>
      rw [resize_sz]
      exact size
    case fits =>
      rw [resize_sz]
      exact fits
    case mapped =>
      intro v inside
      rw [resize_sz, ← lt_pagesOf]
      have entry := entries v inside
      simp only [noStray v, false_or] at entry
      exact entry
    case bytes =>
      intro va old new
      rw [resize_sz] at new
      exact bytes va old new
    case zero => exact zero

theorem Sbrk.promise_iff {r : Int} (outcome : Sbrk s cur n r t) (sized : Sized img s cur) :
    Promise s cur n r t ↔ SbrkSafe s cur n := by
  have limit := pagesOf_le (sized.size.trans sized.top)
  cases outcome with
  | refused tooFar =>
    rw [promise_failed]
    refine iff_of_true (.refl s cur) ⟨?_, ?_, ?_⟩ <;> omega
  | wrapped nonempty below =>
    rw [promise_done]
    refine iff_of_false ?_ ?_
    · intro resized
      have size := resized.size
      rw [resize_sz] at size
      omega
    · intro safe
      have pos := (safe.shrink (by omega) nonempty).1
      omega
  | stay zero =>
    rw [promise_done, sized.resized_iff (by omega) sized.size
      (fun v inside => sized.entry_iff inside) (fun v stray => stray.1)
      (fun _ _ _ => rfl)]
    · exact ⟨fun noStray => ⟨by omega, fun _ => noStray, by omega⟩, fun safe => safe.stay zero⟩
    · intro v _ none some
      rw [none] at some
      exact absurd some (by simp)
  | emptied nonempty zero t shrunk =>
    rw [promise_failed]
    refine iff_of_false ?_ ?_
    · intro untouched
      have page : 0 < pagesOf (s.proc cur).sz := lt_pagesOf.mpr (by omega)
      have some := sized.mapped 0 (by omega)
      rw [← untouched.entry, shrunk.entry, if_pos (by omega)] at some
      exact absurd some (by simp)
    · intro safe
      have pos := (safe.shrink (by omega) nonempty).1
      omega
  | shrunk newSize size negative nonempty t shrunk =>
    have le := pagesOf_mono (show newSize ≤ (s.proc cur).sz by omega)
    rw [promise_done, sized.resized_iff size (by have fits := sized.size; omega)]
    · exact ⟨fun noStray => ⟨fun _ _ => ⟨by omega, noStray⟩, by omega,
        by omega⟩, fun safe => (safe.shrink negative (by omega)).2⟩
    · intro v inside
      rw [shrunk.entry]
      split
      · have start := lt_pagesOf.mp (show v < pagesOf (s.proc cur).sz by omega)
        have ordered := sized.size
        refine iff_of_false (by simp) ?_
        rintro (below | stray | shared)
        · omega
        · have beyond := stray.1
          omega
        · omega
      · have same : v < pagesOf (s.proc cur).sz ↔ v < pagesOf newSize := by
          omega
        rw [sized.entry_iff inside, same]
    · intro v stray
      exact le.trans stray.1
    · intro va _ new
      have page := vpn_lt_pagesOf new
      exact shrunk.userByte sized.dir (by omega) (by omega) (by omega)
    · intro v _ none some
      rw [shrunk.entry, none] at some
      split at some <;> exact absurd some (by simp)
  | grown newSize size pos fits t pages grown count absent =>
    have le := pagesOf_mono (show (s.proc cur).sz ≤ newSize by omega)
    have limit' := pagesOf_le (fits.trans sized.top)
    have target : ((s.proc cur).sz + n).toNat = newSize := by omega
    have above : ∀ v, s.Stray cur v → pagesOf newSize ≤ v := by
      intro v stray
      by_contra below
      have there := stray.2.2
      rw [PgDir.entry_eq_none.mpr (absent v stray.1 (by omega))] at there
      exact absurd there (by simp)
    rw [promise_done, sized.resized_iff size fits]
    · constructor
      · intro noStray
        exact ⟨by omega, by omega, fun _ _ => inl noStray⟩
      · intro safe
        rcases safe.grow pos (by omega) with
          noStray | ⟨v, stray, below, _⟩ | ⟨few, _⟩
        · exact noStray
        · rw [target] at below
          exact absurd (above v stray) (by omega)
        · have taken := congrArg List.length grown.free
          rw [List.length_append] at taken
          rw [target] at few
          omega
    · intro v inside
      rw [grown.entry, count]
      split
      · exact iff_of_true rfl (inl (by omega))
      · have same : v < pagesOf (s.proc cur).sz ↔ v < pagesOf newSize := by
          omega
        rw [sized.entry_iff inside, same]
    · exact above
    · intro va old _
      have page := vpn_lt_pagesOf old
      exact grown.userByte_old sized.dir (by omega) (by omega)
    · intro v _ none some o inside
      rw [grown.entry, none] at some
      split at some
      · rename_i range
        exact grown.userByte_new sized.dir inside range.1 range.2
      · exact absurd some (by simp)
  | short newSize size pos fits t u pages grown few out absent shrunk =>
    have le := pagesOf_mono (show (s.proc cur).sz ≤ newSize by omega)
    have target : ((s.proc cur).sz + n).toNat = newSize := by omega
    have all : s.freelist.length = pages.length := by
      rw [grown.free, out, List.append_nil]
    rw [promise_failed]
    constructor
    · -- A stray page in the range would be unmapped with the others.
      intro untouched
      refine ⟨by omega, by omega, fun _ _ => inr (inr ⟨?_, ?_⟩)⟩
      · rw [target, all]
        exact few
      · intro v stray
        rw [target]
        by_contra below
        have there := stray.2.2
        have first := stray.1
        rw [← untouched.entry, shrunk.entry, if_pos (by omega)] at there
        exact absurd there (by simp)
    · intro safe
      have clear : ∀ v, s.Stray cur v → pagesOf newSize ≤ v := by
        rcases safe.grow pos (by omega) with
          noStray | ⟨v, stray, _, reached⟩ | ⟨_, beyond⟩
        · exact fun v stray => absurd stray (noStray v)
        · have there := stray.2.2
          rw [PgDir.entry_eq_none.mpr (absent v stray.1 (by omega))] at there
          exact absurd there (by simp)
        · rw [target] at beyond
          exact beyond
      have restored := grown.undo shrunk sized.dir (by omega) (by
        intro w first last
        by_contra there
        have start := lt_pagesOf.mp (show w < pagesOf newSize by omega)
        refine absurd (clear w ⟨first, by omega, ?_⟩) (by omega)
        rw [Option.isSome_iff_ne_none, Ne, PgDir.entry_eq_none]
        exact there)
      exact {
        size := congrArg (fun r => (r.1.proc cur).sz) restored.records
        entry := restored.entry
        mem := restored.mem
        free := fun page => restored.free.mem_iff }

end Outcomes

/-- A failed `sbrk` changes nothing and a successful one does what it says,
exactly in these cases: the process keeps a byte or more, or has none; and no
stray page lies between its end and the shared memory, unless the call stops
before it could matter. -/
theorem sbrk_kept_iff (img : Image) (s : Kernel) (cur : Slot) (n : Int)
    (sized : Sized img s cur) (lower : -2 ^ 31 ≤ n) (upper : n < 2 ^ 31) :
    SbrkKept img s cur n ↔ SbrkSafe s cur n := by
  have run := wp_growproc sized lower upper
  unfold SbrkKept
  cases result : growproc img cur n s with
  | error reason =>
    obtain ⟨pos, v, stray, below, reached⟩ := wp_error run result
    refine iff_of_true (fun r t impossible => by cases impossible) ?_
    exact ⟨by omega, by omega, fun _ _ =>
      inr (inl ⟨v, stray, below, reached⟩)⟩
  | ok outcome =>
    obtain ⟨r, t⟩ := outcome
    rw [← (wp_ok run result).promise_iff sized]
    constructor
    · intro kept
      exact kept r t rfl
    · rintro promise _ _ ⟨⟩
      exact promise

theorem onePage_sized {free : List Nat} (nodup : free.Nodup)
    (pages : ∀ page ∈ free, smallImage.Page page)
    (used : 0x400000 ∉ free) : Sized smallImage (onePage free) 0 where
  dir := onePage_userDir nodup pages (by decide) used _
  pgdir := show 0x200000 ≠ 0 by decide
  size := show 4096 ≤ USERTOP by decide
  top := Nat.le_refl USERTOP
  mapped := by
    intro v below
    have first : v = 0 := by
      change v * 4096 < 4096 at below
      omega
    rw [onePage_entry, if_pos first]
    rfl
  shared := by
    intro v inside above
    change 0xA0000 ≤ v * 4096 at above
    simp only [userPages] at inside
    omega

theorem onePage_stray (free : List Nat) (v : Nat) : ¬ (onePage free).Stray 0 v := by
  rintro ⟨above, _, there⟩
  rw [onePage_entry] at there
  split at there
  · rename_i first
    subst first
    exact absurd above (show ¬ pagesOf 4096 ≤ 0 by decide)
  · exact absurd there (by simp)

/-- One page more. -/
theorem onePage_grows : Sized smallImage (onePage [0x300000]) 0 ∧
      SbrkKept smallImage (onePage [0x300000]) 0 4096 := by
  have sized : Sized smallImage (onePage [0x300000]) 0 :=
    onePage_sized (by decide) (by decide) (by decide)
  refine ⟨sized, (sbrk_kept_iff _ _ _ _ sized (by decide) (by decide)).mpr ?_⟩
  exact ⟨by omega, by omega, fun _ _ => inl (onePage_stray _)⟩

/-- What a call returns, the size and the mapping of the first page after it,
and the free pages. -/
def seen (result : Except Panic (Int × Kernel)) : Option (Int × Nat × Option Nat × List Nat) :=
  match result with
  | .ok (r, t) => some (r, (t.proc 0).sz, (t.dirs 0x200000).entry 0, t.freelist)
  | .error _ => none

/-- Giving the only page back frees it and fails; giving back one byte more
changes nothing and succeeds. -/
theorem onePage_given_back : Sized smallImage (onePage []) 0 ∧
      seen (.ok (0, onePage [])) = some (0, 4096, some 0x400007, []) ∧
      seen (growproc smallImage 0 (-4096) (onePage [])) = some (-1, 4096, none, [0x400000]) ∧
      ¬ SbrkKept smallImage (onePage []) 0 (-4096) ∧
      seen (growproc smallImage 0 (-4097) (onePage [])) = some (0, 4096, some 0x400007, []) ∧
      ¬ SbrkKept smallImage (onePage []) 0 (-4097) := by
  have all : seen (growproc smallImage 0 (-4096) (onePage [])) =
      some (-1, 4096, none, [0x400000]) := by decide +kernel
  have more : seen (growproc smallImage 0 (-4097) (onePage [])) =
      some (0, 4096, some 0x400007, []) := by decide +kernel
  refine ⟨onePage_sized (by decide) (by decide) (by decide), by decide +kernel, all, fun kept => ?_,
    more, fun kept => ?_⟩
  · cases ran : growproc smallImage 0 (-4096) (onePage []) with
    | error reason => simp [ran, seen] at all
    | ok result =>
      simp only [ran, seen, Option.some.injEq, Prod.mk.injEq] at all
      have free := ((kept _ _ ran).1 all.1).free 0x400000
      rw [all.2.2.2] at free
      exact absurd (free.mp List.mem_cons_self) List.not_mem_nil
  · cases ran : growproc smallImage 0 (-4097) (onePage []) with
    | error reason => simp [ran, seen] at more
    | ok result =>
      simp only [ran, seen, Option.some.injEq, Prod.mk.injEq] at more
      have size := ((kept _ _ ran).2 more.1).size
      rw [more.2.1] at size
      exact absurd size (by decide)

end Xv6
