/-
Purpose: How `exec` ends before it commits: it fails and has taken nothing, it
  fails in `setupkvm`, or the new address space is there.
-/
import Xv6.Proofs.ExecArgs

namespace Xv6

open PanicM

/-- A process that calls `exec`. -/
structure ExecCaller (img : Image) (s : Kernel) (cur : Slot) : Prop where
  stocked : Stocked img s
  shm : (s.proc cur).shm ≤ USERTOP
  used : (s.proc cur).pgdir ∉ s.freelist

/-! ## Loading -/

section Load

variable {img : Image} {s₀ s : Kernel} {cur : Slot} {d : Nat}
  {tables pages : List Nat} {file : List UInt8} {E : Panic → Prop}

variable {Q : Bool → Kernel → Prop} {addr offset sz : Nat}

theorem wp_loadLoop_any (left : Nat) {i : Nat} (exist : E .loaduvmExist)
    (next : ∀ result t, t.records = s.records → t.freelist = s.freelist →
      t.dirs = s.dirs → Q result t) : wp (loadLoop d addr file offset sz i left) Q E s := by
  induction left generalizing s i with
  | zero => exact next true s rfl rfl rfl
  | succ left ih =>
    rw [loadLoop, wp_bind]
    refine wp_walkpgdir (fun _ _ => ?_) (fun _ _ => exist) (fun _ impossible => nomatch impossible)
      (fun _ _ _ impossible => nomatch impossible)
    simp only [readPte, wp_bind, wp_get, wp_pure]
    split
    · exact next false s rfl rfl rfl
    · rw [wp_bind, wp_modify]
      split
      · exact ih fun result t records free dirs =>
          next result t records free dirs
      · exact next false _ rfl rfl rfl

theorem wp_loaduvm_any (align : E .loaduvmAlign) (exist : E .loaduvmExist)
    (next : ∀ result t, t.records = s.records → t.freelist = s.freelist →
      t.dirs = s.dirs → Q result t) : wp (loaduvm d addr file offset sz) Q E s := by
  unfold loaduvm
  split
  · exact align
  · exact wp_loadLoop_any _ exist next

/-- What the loop over the program headers leaves: a new directory with the
pages of the size it returns, of which `I` holds, or, when it can fail for the
reason `F`, one that `freevm` can free. -/
def Segments (img : Image) (s₀ : Kernel) (cur : Slot) (d : Nat)
    (tables : List Nat) (F : Prop) (I : List Nat → Nat → Kernel → Prop) :
    Option Nat → Kernel → Prop
  | some sz, t => ∃ pages, Fresh img s₀ d tables pages t ∧
      pages.length = pagesOf sz ∧ sz ≤ (s₀.proc cur).shm ∧ I pages sz t
  | none, t => F ∧ ∃ pages, Fresh img s₀ d tables pages t ∧ pages.length ≤ pagesOf (s₀.proc cur).shm

/-- The loop over the program headers, by induction on their number. -/
theorem wp_loadSegments_any (left : Nat) {pages : List Nat}
    {off : Nat} (caller : ExecCaller img s₀ cur) (fresh : Fresh img s₀ d tables pages s)
    (size : pages.length = pagesOf sz) (bound : sz ≤ (s₀.proc cur).shm)
    (align : E .loaduvmAlign) (exist : E .loaduvmExist) :
    wp (loadSegments img cur d file off sz left)
      (Segments img s₀ cur d tables True fun _ _ _ => True) E s := by
  have failed : ∀ {t pages}, Fresh img s₀ d tables pages t →
      pages.length ≤ pagesOf (s₀.proc cur).shm →
      Segments img s₀ cur d tables True (fun _ _ _ => True) none t :=
    fun fresh le => ⟨trivial, _, fresh, le⟩
  induction left generalizing s pages off sz with
  | zero => exact ⟨pages, fresh, size, bound, trivial⟩
  | succ left ih =>
    have le : pages.length ≤ pagesOf (s₀.proc cur).shm := by
      rw [size]
      exact pagesOf_mono bound
    rw [loadSegments]
    split
    · exact failed fresh le
    rename_i ph _
    split
    · exact ih fresh size bound
    split
    · exact failed fresh le
    rw [wp_bind]
    -- What follows once the size is known.
    have loaded : ∀ grown t more, Fresh img s₀ d tables more t →
        more.length = pagesOf grown → grown ≤ (s₀.proc cur).shm →
        wp (if grown = 0 then pure none else do
          if ← loaduvm d ph.va file ph.offset ph.filesz then
            loadSegments img cur d file (u32 (off + proghdrSize)) grown left
          else pure none)
          (Segments img s₀ cur d tables True fun _ _ _ => True) E t := by
      intro grown t more fresh size bound
      have le : more.length ≤ pagesOf (s₀.proc cur).shm := by
        rw [size]
        exact pagesOf_mono bound
      split
      · exact failed fresh le
      rw [wp_bind]
      refine wp_loaduvm_any align exist fun result u records free dirs => ?_
      have after := fresh.congr records free dirs
      cases result with
      | true => exact ih after size bound
      | false => exact failed after le
    have shm : (s.proc cur).shm ≤ USERTOP := by
      rw [fresh.proc]
      exact caller.shm
    refine wp_allocuvm_fresh caller.stocked fresh size shm ?_ ?_ ?_
    · intro _ t after
      rw [if_pos rfl]
      exact failed after le
    · exact fun _ => loaded sz s pages fresh size bound
    · intro _ fits t more _ after count
      rw [fresh.proc] at fits
      exact loaded _ t _ after count fits

end Load

/-! ## The new address space -/

/-- The file that `exec` starts to load, and its header. -/
def program (file : Option FileImage) : Option (FileImage × ElfHdr) :=
  file.bind fun image =>
    (readElfHdr image.bytes).bind fun elf =>
      if elf.magic = ELF_MAGIC then some (image, elf) else none

/-- No segment of the program wraps around the end of the address space.  One
that does is loaded through the kernel's own mappings, over free pages, page
tables or the strings of the caller, which the model keeps apart from the bytes
that `loaduvm` stores. -/
def Straight (file : Option FileImage) : Prop :=
  ∀ image elf, program file = some (image, elf) → ∀ k < elf.phnum, ∀ ph,
    readProgHdr image.bytes (u32 (elf.phoff + k * proghdrSize)) = some ph →
      ph.type = ELF_PROG_LOAD → ph.va + ph.memsz < 2 ^ 32

/-- The state `t` before the commit: `segments` is the state after the
segments, in which `I` holds of their pages, and `page` was added to them for
the stack. -/
structure NewImage (img : Image) (s₀ : Kernel) (cur : Slot)
    (argv : List (List UInt8)) (new : Loaded) (tables pages : List Nat)
    (page : Nat) (segments grown t : Kernel) : Prop where
  loaded : Fresh img s₀ new.dir tables pages segments
  stack : Grown new.dir pages.length [page] zeros segments grown
  fresh : Fresh img s₀ new.dir tables (pages ++ [page]) grown
  size : new.sz = (pages.length + 1) * PGSIZE
  bound : new.sz ≤ (s₀.proc cur).shm
  fits : StackFits new.sz argv
  few : argv.length ≤ MAXARG
  esp : new.esp = execEsp new.sz argv
  state : t = grown.stacked new.dir new.sz argv

section Cases

variable {img : Image} {s : Kernel} {cur : Slot} {file : Option FileImage}
  {argv : List (List UInt8)} {E : Panic → Prop}

-- Without this the elaborator runs `buildStack` to see what `wp` of it is.
seal PanicM.wp in
theorem wp_loadImage {Q : Option (Nat × Nat) → Kernel → Prop} {t : Kernel}
    {d : Nat} {tables : List Nat} {bytes : List UInt8} {elf : ElfHdr}
    {F : Prop} {I : List Nat → Nat → Kernel → Prop}
    (caller : ExecCaller img s cur) (strings : Strings argv)
    (trap : present ((s.dirs (s.proc cur).pgdir).pte 0) = false → E .trap) (taken : d ∈ s.freelist)
    (segments : wp (loadSegments img cur d bytes elf.phoff 0 elf.phnum)
      (Segments img s cur d tables F I) E t)
    (failed : ∀ u more, Fresh img s d tables more u → more.length ≤ pagesOf (s.proc cur).shm →
      (F ∨ ∃ pages sz before, Fresh img s d tables pages before ∧
        I pages sz before ∧ pages.length = pagesOf sz ∧
        NoStack before cur pages.length argv) → Q none u)
    (done : ∀ pages page sz u v, Fresh img s d tables pages u →
      pages.length = pagesOf sz → I pages sz u →
      Grown d pages.length [page] zeros u v →
      Fresh img s d tables (pages ++ [page]) v →
      (pages.length + 1) * PGSIZE ≤ (s.proc cur).shm →
      StackFits ((pages.length + 1) * PGSIZE) argv → argv.length ≤ MAXARG →
      Q (some ((pages.length + 1) * PGSIZE, execEsp ((pages.length + 1) * PGSIZE) argv))
        (v.stacked d ((pages.length + 1) * PGSIZE) argv)) :
    wp (loadImage img cur d bytes elf argv) Q E t := by
  unfold loadImage
  rw [wp_bind]
  refine wp_imp segments ?_
  intro result u outcome
  cases result with
  | none =>
    obtain ⟨why, more, after, le⟩ := outcome
    rw [wp_pure]
    exact failed u more after le (.inl why)
  | some sz =>
    obtain ⟨pages, after, size, bound, holds⟩ := outcome
    have proc := after.proc
    have away : (u.proc cur).pgdir ≠ d := by
      rw [proc]
      exact fun equal => caller.used (equal ▸ taken)
    have first : u.dirs (u.proc cur).pgdir = s.dirs (s.proc cur).pgdir := by
      rw [after.dirs _ away, proc]
    refine wp_buildStack caller.stocked after size
      (bound.trans caller.shm) (by rw [proc]; exact caller.shm)
      (by rw [proc, size]; exact pagesOf_mono bound) strings
      (by rw [first]; exact trap) away ?_ ?_
    · intro why v more later le
      rw [proc] at le
      exact failed v _ later le (.inr ⟨pages, sz, u, after, holds, size, why⟩)
    · intro v page grown later below fits few
      rw [proc] at below
      exact done pages page sz u v after size holds grown later below fits few

/-- The segments cannot be loaded, or there is no stack behind them. -/
def NotLoaded (img : Image) (s : Kernel) (cur : Slot) (argv : List (List UInt8)) (F : Prop)
    (I : Nat → List Nat → Nat → Kernel → Prop) : Prop :=
  F ∨ ∃ d tables pages sz before, Fresh img s d tables pages before ∧
    I d pages sz before ∧ pages.length = pagesOf sz ∧
    NoStack before cur pages.length argv

/-- How `exec` ends before its commit.  Of the state after the segments, for
the directory, its pages and the size, `I` is known. -/
inductive LoadEnds (img : Image) (s : Kernel) (cur : Slot)
    (file : Option FileImage) (argv : List (List UInt8)) (F : Prop)
    (I : Nat → List Nat → Nat → Kernel → Prop) :
    Option Loaded → Kernel → Prop
  | absent : program file = none → LoadEnds img s cur file argv F I none s
  | empty : program file ≠ none → s.freelist = [] → LoadEnds img s cur file argv F I none s
  | short (t : Kernel) : program file ≠ none → s.freelist ≠ [] →
      s.freelist.length < 13 → t.records = s.records → t.freelist = [] →
      (∀ e ∉ s.freelist, t.dirs e = s.dirs e) →
      LoadEnds img s cur file argv F I none t
  | undone (t : Kernel) : program file ≠ none → 13 ≤ s.freelist.length →
      t.records = s.records → t.freelist.Perm s.freelist →
      (∀ e ∉ s.freelist, t.dirs e = s.dirs e) →
      NotLoaded img s cur argv F I → LoadEnds img s cur file argv F I none t
  | done (image : FileImage) (elf : ElfHdr) (new : Loaded)
      (tables pages : List Nat) (page sz : Nat) (before grown t : Kernel) :
      program file = some (image, elf) → new.entry = elf.entry →
      NewImage img s cur argv new tables pages page before grown t →
      I new.dir pages sz before → pages.length = pagesOf sz →
      LoadEnds img s cur file argv F I (some new) t

/-- `exec` up to its commit.  `segments` is what is known of the loop over the
program headers. -/
theorem wp_execLoad_ends (F : Prop) (I : Nat → List Nat → Nat → Kernel → Prop)
    (caller : ExecCaller img s cur) (strings : Strings argv)
    (trap : present ((s.dirs (s.proc cur).pgdir).pte 0) = false → E .trap)
    (segments : ∀ image elf d tables t, program file = some (image, elf) →
      setupkvm img s = .ok (some d, t) → Fresh img s d tables [] t →
      wp (loadSegments img cur d image.bytes elf.phoff 0 elf.phnum)
        (Segments img s cur d tables F (I d)) E t) :
    wp (execLoad img cur file argv) (LoadEnds img s cur file argv F I) E s := by
  unfold execLoad
  cases file with
  | none => exact .absent rfl
  | some image =>
    dsimp only
    cases header : readElfHdr image.bytes with
    | none =>
      refine .absent ?_
      simp only [program, Option.bind_some, header, Option.bind_none]
    | some elf =>
      dsimp only
      by_cases magic : elf.magic = ELF_MAGIC
      · have here : program (some image) = some (image, elf) := by
          simp only [program, Option.bind_some, header, if_pos magic]
        have there : program (some image) ≠ none := by
          rw [here]
          exact Option.some_ne_none _
        rw [if_neg (not_not.mpr magic)]
        refine wp_seq (wp_run (wp_setupkvm_ends img s)) ?_
        rintro result t ⟨ran, ends⟩
        cases ends with
        | empty none => exact .empty there none
        | short _ filled few records free dirs =>
          exact .short t there filled few records free dirs
        | done d tables _ fresh enough list _ =>
          have taken : d ∈ s.freelist := by
            rw [list]
            exact List.mem_cons_self
          dsimp only
          -- Everything that was taken is given back.
          have freed : ∀ {u more}, Fresh img s d tables more u →
              more.length ≤ pagesOf (s.proc cur).shm →
              NotLoaded img s cur argv F I → wp (do
                freevm img cur d
                pure none)
                (LoadEnds img s cur (some image) argv F I) E u := by
            intro u more after le why
            have same : (u.proc cur).shm = (s.proc cur).shm := by
              rw [after.proc]
            rw [wp_bind]
            refine wp_freevm_fresh caller.stocked after
              (by rw [same]; exact caller.shm) (by rw [same]; exact le) ?_
            intro v records free dirs _
            refine .undone v there enough records free (fun e away => ?_) why
            exact dirs e fun equal => away (equal ▸ taken)
          generalize freevm img cur d = giveBack at freed ⊢
          rw [wp_bind]
          refine wp_loadImage caller strings trap taken
            (segments image elf d tables t here ran fresh)
            (fun u more after le why => freed after le (why.imp_right
              fun ⟨pages, sz, before, rest⟩ =>
                ⟨d, tables, pages, sz, before, rest⟩)) ?_
          intro pages page sz u v after size holds grown later below fits few
          exact .done image elf ⟨d, _, _, _⟩ tables pages page sz u v _
            here rfl ⟨after, grown, later, rfl, below, fits, few, rfl, rfl⟩ holds size
      · refine (if_pos magic).symm ▸ .absent ?_
        simp only [program, Option.bind_some, header, if_neg magic]

end Cases

end Xv6
