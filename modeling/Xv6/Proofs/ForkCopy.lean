/-
Purpose: The address space that `fork` makes: `copyuvm` copies the private
  pages into new ones or gives up, and `copyshm` maps the shared ones.
-/
import Xv6.Proofs.NewDir
import Xv6.Proofs.NewProc

namespace Xv6

open PanicM
open Function (update_self update_of_ne update_idem)

/-- The bytes behind the pages of a directory. -/
def Kernel.pageBytes (s : Kernel) (src w o : Nat) : UInt8 :=
  s.mem (pteAddr ((s.dirs src).pte w) + o)

/-- The pages that are mapped at `v` and the `n - 1` numbers after it are pages
of the allocator, and none of them is free. -/
def UsedPages (img : Image) (s : Kernel) (src v n : Nat) : Prop :=
  ∀ w, v ≤ w → w < v + n → ∀ p, (s.dirs src).frame w = some p → img.Page p ∧ p ∉ s.freelist

section Copy

variable {img : Image} {s t : Kernel} {d v src : Nat} {E : Panic → Prop}
variable {sz : Nat}

theorem Grown.content_congr {pages : List Nat} {content content' : Nat → Nat → UInt8}
    (grown : Grown d v pages content s t) (same : ∀ w, v ≤ w → w < v + pages.length → ∀ o < PGSIZE,
      content w o = content' w o) : Grown d v pages content' s t :=
  { grown with
    inside := fun i small o inside => by
      rw [grown.inside i small o inside, same _ (Nat.le_add_right v i) (by omega) o inside] }

theorem Grown.pageBytes {page : Nat} {content : Nat → Nat → UInt8} {w o : Nat}
    (one : Grown d v [page] content s t) (ok : UserDir img s d) (other : src ≠ d)
    (used : ∀ p, (s.dirs src).frame w = some p → img.Page p ∧ p ∉ s.freelist)
    (here : present ((s.dirs src).pte w) = true) (inside : o < PGSIZE) :
    t.pageBytes src w o = s.pageBytes src w o := by
  unfold Kernel.pageBytes
  rw [one.dirs src other]
  apply one.outside
  intro q member there
  cases List.mem_singleton.mp member
  have free : page ∈ s.freelist := one.pages_subset List.mem_cons_self
  obtain ⟨real, away⟩ := used _ (PgDir.frame_eq_some.mpr ⟨here, rfl⟩)
  have same := there.unique (InPage.of_offset inside) (ok.free page free).aligned real.aligned
  exact away (same ▸ free)

/-- The loop of `copyuvm`, by induction on its rounds: it maps a copy in each
of them, finds a page missing, or runs out of pages. -/
theorem wp_copyLoop_grown {Q : Bool → Kernel → Prop} (n : Nat) (ok : UserDir img s d)
    (other : src ≠ d) (walk : ∃ table, (s.dirs src).pde 0 = some table) (limit : v + n ≤ userPages)
    (unmapped : ∀ w, v ≤ w → w < v + n → (s.dirs d).frame w = none)
    (absent : ∀ w, v ≤ w → w < v + n → present ((s.dirs src).pte w) = false → E .copyuvmPresent)
    (done : ∀ t pages content, Grown d v pages content s t → pages.length = n →
      (∀ w, v ≤ w → w < v + n → present ((s.dirs src).pte w) = true) →
      (UsedPages img s src v n → ∀ w, v ≤ w → w < v + n → ∀ o < PGSIZE,
        content w o = s.pageBytes src w o) → Q true t)
    (short : ∀ t pages content, Grown d v pages content s t →
      pages.length < n → t.freelist = [] → Q false t) :
    wp (copyLoop src d (v * PGSIZE) n) Q E s := by
  induction n generalizing v s with
  | zero =>
    refine done s [] zeros (.refl d v zeros s) rfl ?_ ?_
    · exact fun w above below => absurd below (by omega)
    · exact fun _ w above below => absurd below (by omega)
  | succ n ih =>
    rw [copyLoop, wp_bind]
    refine wp_walk_user walk (by omega) ?_
    simp only [readPte, wp_bind, wp_get, wp_pure]
    split
    rotate_left
    · rename_i missing
      exact absent v le_rfl (by omega) (Bool.eq_false_iff.mpr missing)
    rename_i here
    rw [wp_bind]
    apply wp_kalloc
    · intro empty
      exact short s [] zeros (.refl d v zeros s) (by simp) empty
    · intro page rest list
      rw [wp_bind, wp_modify, wp_bind]
      refine wp_mapNew_grown (s.pageBytes src) ok.walk (by omega) list rfl rfl
        rfl ?_ (fun a outside => if_neg outside) ?_ ?_
      · intro o inside
        refine (if_pos (InPage.of_offset inside)).trans ?_
        rw [Nat.add_sub_cancel_left]
        rfl
      · exact fun there => absurd (unmapped v le_rfl (by omega)) there
      · intro _ t one
        rw [if_pos rfl, ← Nat.add_one_mul]
        have source : t.dirs src = s.dirs src := one.dirs src other
        -- The contents of the first page and of the others in one function.
        have join : ∀ {u pages content}, Grown d (v + 1) pages content t u →
            Grown d v (page :: pages) (fun w o =>
              if w = v then s.pageBytes src v o else content w o) s u := by
          intro u pages content rest
          refine .extend ok (one.content_congr ?_) (rest.content_congr ?_)
          · intro w above below o _
            have first : w = v := by
              rw [List.length_singleton] at below
              omega
            rw [if_pos first, first]
          · intro w above _ o _
            rw [if_neg (by omega)]
        refine ih (one.userDir ok) (by rw [source]; exact walk) (by omega) ?_ ?_ ?_ ?_
        · intro w above below
          rw [one.frame_of_ne (by omega)]
          exact unmapped w (by omega) (by omega)
        · intro w above below
          rw [source]
          exact absent w (by omega) (by omega)
        · intro u pages content rest count present copied
          refine done u (page :: pages) _ (join rest) (by simp [count]) ?_ ?_
          · intro w above below
            by_cases first : w = v
            · rw [first]
              exact here
            · rw [← source]
              exact present w (by omega) (by omega)
          · intro used w above below o inside
            by_cases first : w = v
            · rw [if_pos first, first]
            · have there := present w (by omega) (by omega)
              rw [source] at there
              rw [if_neg first, copied ?_ w (by omega) (by omega) o inside]
              · exact one.pageBytes ok other (used w (by omega) (by omega)) there inside
              · intro w' above' below' p holds
                rw [source] at holds
                obtain ⟨real, away⟩ := used w' (by omega) (by omega) p holds
                refine ⟨real, fun free => away ?_⟩
                rw [one.free]
                exact List.mem_append_right _ free
        · intro u pages content rest few empty
          exact short u (page :: pages) _ (join rest) (by simpa using few) empty

/-- How `copyuvm` ends: `setupkvm` finds too few pages, the copies do not all
fit and everything is given back, or every page has been copied. -/
inductive CopyEnds (img : Image) (s : Kernel) (src sz : Nat) : Option Nat → Kernel → Prop
  | empty : s.freelist = [] → CopyEnds img s src sz none s
  | short (t : Kernel) : s.freelist ≠ [] → s.freelist.length < 13 →
      t.records = s.records → t.freelist = [] →
      (∀ e ∉ s.freelist, t.dirs e = s.dirs e) → CopyEnds img s src sz none t
  | undone (t : Kernel) : 13 ≤ s.freelist.length →
      s.freelist.length < 13 + pagesOf sz → t.records = s.records →
      t.freelist.Perm s.freelist → (∀ e ∉ s.freelist, t.dirs e = s.dirs e) →
      CopyEnds img s src sz none t
  | done (d : Nat) (tables pages : List Nat) (t : Kernel) :
      Fresh img s d tables pages t → pages.length = pagesOf sz →
      (∀ w < pagesOf sz, present ((s.dirs src).pte w) = true) →
      (UsedPages img s src 0 (pagesOf sz) → ∀ w < pagesOf sz, ∀ o < PGSIZE,
        t.mem (pages.getD w 0 + o) = s.pageBytes src w o) →
      (∀ a, (∀ page ∈ s.freelist, ¬ InPage page a) → t.mem a = s.mem a) →
      CopyEnds img s src sz (some d) t

theorem CopyEnds.records {result : Option Nat}
    (ends : CopyEnds img s src sz result t) : t.records = s.records := by
  cases ends with
  | empty => rfl
  | short _ _ _ records => exact records
  | undone _ _ _ records => exact records
  | done _ _ _ _ fresh => exact fresh.records

theorem wp_copyuvm_ends {cur : Slot} (stocked : Stocked img s) (inUse : src ∉ s.freelist)
    (walk : ∃ table, (s.dirs src).pde 0 = some table)
    (fits : sz ≤ (s.proc cur).shm) (top : (s.proc cur).shm ≤ USERTOP)
    (absent : 13 ≤ s.freelist.length → ∀ w < pagesOf sz,
      present ((s.dirs src).pte w) = false → E .copyuvmPresent) :
    wp (copyuvm img cur src sz) (CopyEnds img s src sz) E s := by
  have limit := pagesOf_le (fits.trans top)
  unfold copyuvm
  refine wp_seq (wp_setupkvm_ends img s) ?_
  intro result t ends
  cases ends with
  | empty none => exact .empty none
  | short _ filled few records free dirs =>
    exact .short t filled few records free dirs
  | done d tables _ fresh enough list outside =>
    have taken : d ∈ s.freelist := by
      rw [list]
      exact List.mem_cons_self
    have other : src ≠ d := fun same => inUse (same ▸ taken)
    have source : t.dirs src = s.dirs src := fresh.dirs src other
    have rest : t.freelist ⊆ s.freelist := by
      rw [list]
      exact List.subset_cons_of_subset d (List.subset_append_right _ _)
    have count := fresh.count
    have ok := fresh.userDir stocked
    dsimp only
    rw [wp_bind, pagesTo_zero, ← Nat.zero_mul PGSIZE]
    refine wp_copyLoop_grown (pagesOf sz) ok other (by rw [source]; exact walk) (by omega) ?_
      (fun w _ small => by rw [source]; exact absent enough w (by omega))
      ?_ ?_
    · intro w _ small
      rw [fresh.frame stocked (by omega), List.length_nil, if_neg (Nat.not_lt_zero w)]
    · intro u pages content grown length present copied
      have after := fresh.grow grown (by simp only [List.length_nil]; omega)
      rw [List.nil_append] at after
      rw [if_pos rfl, wp_pure]
      refine .done d tables pages u after length ?_ ?_ ?_
      · intro w small
        rw [← source]
        exact present w (Nat.zero_le w) (by omega)
      · intro used w small o inside
        have holds := grown.inside w (by omega) o inside
        rw [Nat.zero_add] at holds
        rw [holds, copied ?_ w (Nat.zero_le w) (by omega) o inside]
        · unfold Kernel.pageBytes
          rw [source]
          apply outside
          intro page free there
          obtain ⟨real, away⟩ := used w (Nat.zero_le w) (by omega) _ (PgDir.frame_eq_some.mpr ⟨by
              rw [← source]
              exact present w (Nat.zero_le w) (by omega), rfl⟩)
          have same := there.unique (InPage.of_offset inside)
            (stocked.page page free).aligned real.aligned
          exact away (same ▸ free)
        · intro w' above below p holds
          rw [source] at holds
          obtain ⟨real, away⟩ := used w' above below p holds
          exact ⟨real, fun free => away (rest free)⟩
      · intro a apart
        rw [grown.outside a fun page member =>
          apart page (rest (grown.pages_subset member)), outside a apart]
    · intro u pages content grown few empty
      have after := fresh.grow grown (by simp only [List.length_nil]; omega)
      rw [List.nil_append] at after
      have same : (u.proc cur).shm = (s.proc cur).shm := by
        rw [after.proc]
      have total : s.freelist.length < 13 + pagesOf sz := by
        rw [list, grown.free, empty]
        simp only [List.length_cons, List.length_append, List.length_nil]
        omega
      rw [if_neg Bool.false_ne_true, wp_bind]
      refine wp_freevm_fresh stocked after (by rw [same]; exact top)
        (by rw [same]; have := pagesOf_mono fits; omega) ?_
      intro x records free dirs _
      rw [wp_pure]
      exact .undone x enough total records free fun e away =>
        dirs e fun equal => away (equal ▸ taken)

end Copy

/-! ## Shared pages -/

/-- The pages at `v` and the `n - 1` numbers after it are those of `src`. -/
structure Shared (src d v n : Nat) (s t : Kernel) : Prop where
  records : t.records = s.records
  free : t.freelist = s.freelist
  mem : t.mem = s.mem
  dirs : ∀ e, e ≠ d → t.dirs e = s.dirs e
  pde : (t.dirs d).pde = (s.dirs d).pde
  pte : ∀ w, (t.dirs d).pte w = if v ≤ w ∧ w < v + n then
      mkPte (pteAddr ((s.dirs src).pte w)) (PTE_W ||| PTE_U)
    else (s.dirs d).pte w

section Share

variable {s t : Kernel} {d v src : Nat} {E : Panic → Prop}
variable {Q : Bool → Kernel → Prop}

section

variable {n : Nat} (other : src ≠ d) (walk : ∃ table, (s.dirs src).pde 0 = some table)
  (walk' : ∃ table, (s.dirs d).pde 0 = some table)
  (absent : ∀ w, v ≤ w → w < v + n → present ((s.dirs src).pte w) = false → E .copyshmPresent)
  (remap : ∀ w, v ≤ w → w < v + n → (s.dirs d).frame w ≠ none → E .remap)
  (next : ∀ t, Shared src d v n s t → (∀ w, v ≤ w → w < v + n →
    present ((s.dirs src).pte w) = true ∧ (s.dirs d).frame w = none) → Q true t)
include other walk walk' absent remap next

theorem wp_copyShmLoop_shared {shm : Nat} (limit : v + n ≤ userPages) :
    wp (copyShmLoop src d shm (v * PGSIZE) n) Q E s := by
  induction n generalizing v s with
  | zero =>
    refine next s ⟨rfl, rfl, rfl, fun _ _ => rfl, rfl, fun w => ?_⟩ ?_
    · rw [if_neg (by omega)]
    · exact fun w above below => absurd below (by omega)
  | succ n ih =>
    rw [copyShmLoop, wp_bind]
    refine wp_walk_user walk (by omega) ?_
    simp only [readPte, wp_bind, wp_get, wp_pure]
    split
    rotate_left
    · rename_i missing
      exact absent v le_rfl (by omega) (Bool.eq_false_iff.mpr missing)
    rename_i here
    rw [wp_bind]
    refine wp_mappages_checked walk' (by omega)
      (remap v le_rfl (by omega)) fun unmapped => ?_
    generalize first : s.setDir d ((s.dirs d).setPte v _) = t
    have source : t.dirs src = s.dirs src := by
      rw [← first]
      exact update_of_ne other _ _
    have target : t.dirs d = (s.dirs d).setPte v
        (mkPte (pteAddr ((s.dirs src).pte v)) (PTE_W ||| PTE_U)) := by
      rw [← first]
      exact update_self _ _ _
    have frames : ∀ w, w ≠ v → (t.dirs d).frame w = (s.dirs d).frame w := by
      intro w later
      rw [← first]
      exact Kernel.frame_setPte later
    rw [if_pos rfl, ← Nat.add_one_mul]
    refine ih (by rw [source]; exact walk) (by rw [target]; exact walk') ?_ ?_ ?_ (by omega)
    · intro w above below
      rw [source]
      exact absent w (by omega) (by omega)
    · intro w above below there
      rw [frames w (by omega)] at there
      exact remap w (by omega) (by omega) there
    · intro u rest all
      refine next u ⟨?_, ?_, ?_, ?_, ?_, ?_⟩ ?_
      · rw [rest.records, ← first]
        rfl
      · rw [rest.free, ← first]
        rfl
      · rw [rest.mem, ← first]
        rfl
      · intro e apart
        rw [rest.dirs e apart, ← first]
        exact update_of_ne apart _ _
      · rw [rest.pde, target]
        rfl
      · intro w
        rw [rest.pte, source, target]
        by_cases here : w = v
        · subst here
          rw [if_neg (by omega), if_pos (by omega)]
          exact update_self _ _ _
        · by_cases inside : v + 1 ≤ w ∧ w < v + 1 + n
          · rw [if_pos inside, if_pos (by omega)]
          · rw [if_neg inside, if_neg (by omega)]
            exact update_of_ne here _ _
      · intro w above below
        by_cases start : w = v
        · rw [start]
          exact ⟨here, unmapped⟩
        · have later := all w (by omega) (by omega)
          rw [source, frames w start] at later
          exact later

theorem wp_copyshm_shared (count : v + n = userPages) : wp (copyshm src (v * PGSIZE) d) Q E s := by
  have rounds : pagesTo (v * PGSIZE) USERTOP = n := by
    unfold pagesTo
    simp only [PGSIZE, USERTOP, userPages] at *
    omega
  unfold copyshm
  rw [rounds]
  exact wp_copyShmLoop_shared other walk walk' absent remap next (by omega)

end

/-- Every key of the mask is counted once more. -/
def Kernel.attached (s : Kernel) (mask : Nat) (keys : List Key) : Kernel :=
  { s with
    shmTab := fun key =>
      if key ∈ keys ∧ shmKeyUsed key mask = true then
        { s.shmTab key with count := (s.shmTab key).count + 1 }
      else s.shmTab key }

theorem wp_shmAddCount {Q : Unit → Kernel → Prop} {mask : Nat}
    (keys : List Key) (nodup : keys.Nodup) (next : Q () (s.attached mask keys)) :
    wp (shmAddCount mask keys) Q E s := by
  induction keys generalizing s with
  | nil =>
    have same : s.attached mask [] = s := by
      unfold Kernel.attached
      simp
    rw [same] at next
    exact next
  | cons key rest ih =>
    obtain ⟨fresh, nodup⟩ := List.nodup_cons.mp nodup
    rw [shmAddCount]
    split
    · rename_i used
      rw [wp_bind, shmCount, wp_modify]
      refine ih nodup ?_
      convert next using 1
      unfold Kernel.attached Kernel.setShm
      congr 1
      funext other
      by_cases here : other = key
      · subst here
        rw [if_neg (by tauto), if_pos ⟨List.mem_cons_self, used⟩]
        exact update_self _ _ _
      · simp only [update_of_ne here, List.mem_cons, here, false_or]
    · rename_i unused
      refine ih nodup ?_
      convert next using 1
      unfold Kernel.attached
      congr 1
      funext other
      by_cases here : other = key
      · subst here
        rw [if_neg (by tauto), if_neg (by tauto)]
      · simp only [List.mem_cons, here, false_or]

end Share

/-! ## The whole call -/

/-- A process that calls `fork`. -/
structure Forker (img : Image) (s : Kernel) (cur : Slot) : Prop where
  stocked : Stocked img s
  inUse : (s.proc cur).pgdir ∉ s.freelist
  walk : ∃ table, (s.dirs (s.proc cur).pgdir).pde 0 = some table
  fits : (s.proc cur).sz ≤ (s.proc cur).shm
  top : (s.proc cur).shm ≤ USERTOP
  aligned : (s.proc cur).shm % PGSIZE = 0
  here : (s.proc cur).state ≠ .unused

namespace Kernel

variable (s : Kernel) (cur np : Slot)

/-- The slot and its kernel stack are given back. -/
def forkUndone : Kernel :=
  { s.freed (s.proc np).kstack with
    proc := Function.update s.proc np
      { s.proc np with pgdir := 0, kstack := 0, state := .unused } }

/-- The new directory is in the slot. -/
def withDir (d : Nat) : Kernel :=
  { s with proc := Function.update s.proc np { s.proc np with pgdir := d } }

/-- The child is complete and can be scheduled. -/
def forked : Kernel :=
  { s.attached (s.proc cur).shmKeyMask (List.finRange MAX_SHM_KEY) with
    proc := Function.update s.proc np
      { (s.proc np).inherit (s.proc cur) cur with state := .runnable }
    refs := RefTable.retain s.refs (s.proc np).pgdir }

end Kernel

/-- How `fork` ends: there is no slot, no page for a kernel stack, not enough
memory for the copy, or a child. -/
inductive ForkEnds (img : Image) (s : Kernel) (cur : Slot) : Int → Kernel → Prop
  | full : s.unusedSlot = none → ForkEnds img s cur (-1) s
  | noPage (np : Slot) : s.unusedSlot = some np → s.freelist = [] →
      ForkEnds img s cur (-1) (s.unclaimed np)
  | failed (np : Slot) (page : Nat) (rest : List Nat) (t : Kernel) :
      s.unusedSlot = some np → s.freelist = page :: rest →
      CopyEnds img (s.embryo np page rest) (s.proc cur).pgdir (s.proc cur).sz
        none t → ForkEnds img s cur (-1) (t.forkUndone np)
  | done (np : Slot) (page : Nat) (rest : List Nat) (d v n : Nat) (t u : Kernel) :
      s.unusedSlot = some np → s.freelist = page :: rest →
      CopyEnds img (s.embryo np page rest) (s.proc cur).pgdir (s.proc cur).sz (some d) t →
      v * PGSIZE = (s.proc cur).shm → v + n = userPages →
      Shared (s.proc cur).pgdir d v n (t.withDir np d) u →
      (∀ w, v ≤ w → w < userPages → present ((s.dirs (s.proc cur).pgdir).pte w) = true) →
      ForkEnds img s cur s.nextpid (u.forked cur np)

section Fork

variable {img : Image} {s t : Kernel} {cur np : Slot} {E : Panic → Prop}

theorem Forker.other (forker : Forker img s cur) (found : s.unusedSlot = some np) : cur ≠ np := by
  rintro rfl
  exact forker.here (Kernel.unusedSlot_unused found)

theorem wp_forkUndo {Q : Bool → Kernel → Prop} (real : img.Page (t.proc np).kstack)
    (next : Q false (t.forkUndone np)) :
    wp (do
      updProc np fun q => { q with pgdir := 0 }
      forkUndo img np
      pure false) Q E t := by
  unfold forkUndo
  simp only [updProc, wp_bind, wp_modify, wp_get, Kernel.setProc, update_self]
  refine wp_kfree_page real ?_
  simp only [Kernel.freed, update_self, update_idem, wp_pure]
  exact next

theorem wp_forkFill {Q : Int → Kernel → Prop} (next : Q (t.proc np).pid (t.forked cur np)) : wp (do
      forkFill cur np
      publish np
      let s ← get
      addRef (s.proc np).pgdir
      pure (Int.ofNat (s.proc np).pid)) Q E t := by
  unfold forkFill
  simp only [wp_bind, wp_get]
  refine wp_shmAddCount _ (List.nodup_finRange _) ?_
  simp only [updProc, publish, addRef, wp_modify, wp_pure, Kernel.setProc, update_self, update_idem]
  exact next

/-- `fork` panics only when a page below `sz` or above `shm` is missing, and
not before it has a directory. -/
theorem wp_fork_ends (forker : Forker img s cur)
    (absent : 14 ≤ s.freelist.length → ∀ w < pagesOf (s.proc cur).sz,
      present ((s.dirs (s.proc cur).pgdir).pte w) = false → E .copyuvmPresent)
    (absent' : 14 ≤ s.freelist.length → ∀ w, (s.proc cur).shm ≤ w * PGSIZE → w < userPages →
      present ((s.dirs (s.proc cur).pgdir).pte w) = false →
      E .copyshmPresent) : wp (fork img cur) (ForkEnds img s cur) E s := by
  unfold fork
  rw [wp_bind]
  refine wp_allocproc_cases ?_ ?_ ?_
  · exact fun none => .full none
  · exact fun np found empty => .noPage np found empty
  intro np page rest found list
  have other := forker.other found
  have caller : (s.embryo np page rest).proc cur = s.proc cur := update_of_ne other _ _
  have nodup := forker.stocked.nodup
  rw [list, List.nodup_cons] at nodup
  have inUse := forker.inUse
  rw [list] at inUse
  have stocked : Stocked img (s.embryo np page rest) :=
    ⟨nodup.2, fun p member => forker.stocked.page p (by
      rw [list]
      exact List.mem_cons_of_mem page member)⟩
  have real : img.Page page := forker.stocked.page page (by
    rw [list]
    exact List.mem_cons_self)
  have away : (s.proc cur).pgdir ∉ rest := fun member =>
    inUse (List.mem_cons_of_mem page member)
  dsimp only
  rw [wp_bind]
  unfold forkCopy
  rw [wp_bind, wp_get, caller]
  dsimp only
  refine wp_seq (wp_copyuvm_ends (s := s.embryo np page rest) stocked away
    forker.walk (by rw [caller]; exact forker.fits)
    (by rw [caller]; exact forker.top) fun enough => absent (by
      rw [list, List.length_cons]
      exact Nat.succ_le_succ enough)) ?_
  intro result t ends
  have proc : t.proc = (s.embryo np page rest).proc := Kernel.proc_eq ends.records
  have slot : t.proc np = s.claimed np .embryo page := by
    rw [proc]
    exact update_self _ _ _
  cases result with
  | none =>
    dsimp only
    refine wp_forkUndo (by rw [slot]; exact real) ?_
    rw [if_neg Bool.false_ne_true, wp_pure]
    exact .failed np page rest t found list ends
  | some d =>
    have copied := ends
    cases ends with
    | done _ tables pages _ fresh length =>
    have taken : d ∈ rest := fresh.free.subset (List.mem_append_left _ List.mem_cons_self)
    have apart : (s.proc cur).pgdir ≠ d := fun same => away (same ▸ taken)
    have start : (s.proc cur).shm / PGSIZE * PGSIZE = (s.proc cur).shm :=
      Nat.div_mul_cancel (Nat.dvd_of_mod_eq_zero forker.aligned)
    have count : (s.proc cur).shm / PGSIZE +
        (userPages - (s.proc cur).shm / PGSIZE) = userPages := by
      have top := forker.top
      simp only [PGSIZE, USERTOP, userPages] at *
      omega
    dsimp only
    rw [wp_bind, updProc, wp_modify, wp_bind, ← start]
    change wp _ _ E (t.withDir np d)
    have source : t.dirs (s.proc cur).pgdir = s.dirs (s.proc cur).pgdir := fresh.dirs _ apart
    refine wp_copyshm_shared apart ?_ fresh.walk ?_ ?_ ?_ count
    · change ∃ table, (t.dirs _).pde 0 = some table
      rw [source]
      exact forker.walk
    · intro w above below
      change present ((t.dirs _).pte w) = false → _
      rw [source]
      refine absent' ?_ w ?_ (by omega)
      · have length := fresh.free.length_eq
        have tables := fresh.count
        simp only [List.length_append, List.length_cons] at length
        change _ = rest.length at length
        rw [list, List.length_cons]
        omega
      rw [← start]
      exact Nat.mul_le_mul_right PGSIZE above
    · intro w above below there
      refine absurd ?_ there
      change (t.dirs d).frame w = none
      have beyond : pagesOf (s.proc cur).sz ≤ w := by
        have fits := forker.fits
        have aligned := forker.aligned
        unfold pagesOf
        simp only [PGSIZE] at *
        omega
      rw [fresh.frame stocked (by omega), if_neg (by omega)]
    intro u shared all
    have child : u.proc np = { s.claimed np .embryo page with pgdir := d } := by
      rw [Kernel.proc_eq shared.records]
      change Function.update t.proc np _ np = _
      rw [update_self, slot]
    rw [if_pos rfl, wp_pure, if_pos rfl]
    refine wp_forkFill ?_
    rw [child]
    exact .done np page rest d _ _ t u found list copied start count shared fun w above below => by
        have there := (all w above (by omega)).1
        change present ((t.dirs _).pte w) = true at there
        rw [source] at there
        exact there

end Fork

end Xv6
