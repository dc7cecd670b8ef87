/-
Purpose: What `freevm` and `shm_release` give back to the allocator, exactly:
  which pages, in which order, and that no byte of another page changes.
-/
import Xv6.Proofs.UserPages

namespace Xv6

open Function Kernel PanicM
open List (append_assoc finRange range)

variable {img : Image} {s t u : Kernel} {E : Panic → Prop} {d : Nat}
variable {Q : Unit → Kernel → Prop} {n v : Nat}

/-- The page tables of a directory, in the order of its entries. -/
def PgDir.tables (dir : PgDir) : List Nat :=
  (range NPDENTRIES).filterMap dir.pde

/-! ## Pages given to `kfree` -/

/-- The pages were given to `kfree` one after the other, and that is all. -/
structure GivenBack (pages : List Nat) (s t : Kernel) : Prop where
  records : t.records = s.records
  free : t.freelist = pages.reverse ++ s.freelist
  dirs : t.dirs = s.dirs
  outside : ∀ a, (∀ page ∈ pages, ¬ InPage page a) → t.mem a = s.mem a

theorem GivenBack.refl (s : Kernel) : GivenBack [] s s :=
  ⟨rfl, rfl, rfl, fun _ _ => rfl⟩

theorem GivenBack.cons {page : Nat} {pages : List Nat} (rest : GivenBack pages (s.freed page) t) :
    GivenBack (page :: pages) s t where
  records := rest.records
  free := by
    rw [rest.free, List.reverse_cons, append_assoc]
    rfl
  dirs := rest.dirs
  outside a apart := by
    rw [rest.outside a fun other mem =>
      apart other (List.mem_cons_of_mem page mem)]
    exact if_neg (apart page List.mem_cons_self)

theorem wp_freeTables_back (entries : List Nat)
    (pages : ∀ table ∈ entries.filterMap (s.dirs d).pde, img.Page table)
    (next : ∀ t, GivenBack (entries.filterMap (s.dirs d).pde) s t → Q () t) :
    wp (freeTables img d entries) Q E s := by
  induction entries generalizing s with
  | nil => exact next s (.refl s)
  | cons i rest ih =>
    rw [freeTables, wp_bind, wp_get]
    cases entry : (s.dirs d).pde i with
    | none =>
      rw [List.filterMap_cons_none entry] at pages next
      exact ih pages next
    | some table =>
      rw [List.filterMap_cons_some entry] at pages next
      dsimp only
      rw [wp_bind]
      refine wp_kfree_page (pages table List.mem_cons_self) ?_
      refine ih ?_ ?_
      · exact fun other mem =>
          pages other (List.mem_cons_of_mem table mem)
      · exact fun t back => next t back.cons

theorem wp_freePages_back (pages : List Nat) (ok : ∀ page ∈ pages, img.Page page)
    (next : ∀ t, GivenBack pages s t → Q () t) : wp (shmRm.freePages img pages) Q E s := by
  induction pages generalizing s with
  | nil => exact next s (.refl s)
  | cons page rest ih =>
    rw [shmRm.freePages, wp_bind]
    refine wp_kfree_page (ok page List.mem_cons_self) ?_
    refine ih ?_ ?_
    · exact fun other mem => ok other (List.mem_cons_of_mem page mem)
    · exact fun t back => next t back.cons

/-! ## A directory freed -/

/-- The pages that `freevm` gives back when it walks `n` user pages. -/
def PgDir.owned (dir : PgDir) (d n : Nat) : List Nat :=
  dir.frames 0 n ++ dir.tables ++ [d]

/-- The directory `d` is gone, with the first `n` of its user pages. -/
structure DirFreed (d n : Nat) (s t : Kernel) : Prop where
  records : t.records = s.records
  free : t.freelist = ((s.dirs d).owned d n).reverse ++ s.freelist
  dirs : ∀ e, e ≠ d → t.dirs e = s.dirs e
  outside : ∀ a, (∀ page ∈ (s.dirs d).owned d n, ¬ InPage page a) → t.mem a = s.mem a

/-- User pages, tables and the directory, one after the other. -/
theorem Shrunk.dirFreed (shrunk : Shrunk d 0 n s t)
    (back : GivenBack ((s.dirs d).tables ++ [d]) t u) : DirFreed d n s u where
  records := back.records.trans shrunk.records
  free := by
    rw [back.free, shrunk.free, ← append_assoc, ← List.reverse_append, PgDir.owned, append_assoc]
  dirs e other := by rw [back.dirs, shrunk.dirs e other]
  outside a apart := by
    unfold PgDir.owned at apart
    rw [append_assoc] at apart
    rw [back.outside a fun page mem =>
        apart page (List.mem_append_right _ mem),
      shrunk.outside a fun page mem =>
        apart page (List.mem_append_left _ mem)]

theorem GivenBack.append {one two : List Nat} (first : GivenBack one s t)
    (second : GivenBack two t u) : GivenBack (one ++ two) s u where
  records := second.records.trans first.records
  free := by
    rw [second.free, first.free, List.reverse_append, append_assoc]
  dirs := second.dirs.trans first.dirs
  outside a apart := by
    rw [second.outside a fun page mem =>
        apart page (List.mem_append_right one mem),
      first.outside a fun page mem =>
        apart page (List.mem_append_left two mem)]

theorem wp_freevm_freed {cur : Slot} (walk : ∃ table, (s.dirs d).pde 0 = some table)
    (top : (s.proc cur).shm ≤ USERTOP)
    (pages : ∀ page ∈ (s.dirs d).owned d (pagesOf (s.proc cur).shm), img.Page page)
    (next : ∀ t, DirFreed d (pagesOf (s.proc cur).shm) s t → Q () t) :
    wp (freevm img cur d) Q E s := by
  unfold PgDir.owned at pages
  have frames : ∀ w < pagesOf (s.proc cur).shm, ∀ p, (s.dirs d).frame w = some p → img.Page p := by
    intro w small p holds
    apply pages
    simp only [List.mem_append]
    exact .inl (.inl (PgDir.mem_frames.mpr ⟨w, by omega, holds⟩))
  have tables : ∀ table ∈ (s.dirs d).tables, img.Page table :=
    fun table mem => pages table (by simp [mem])
  have dir : img.Page d := pages d (by simp)
  unfold freevm
  rw [if_neg (Nat.ne_of_gt dir.pos), wp_bind, wp_get, wp_bind]
  have all : (range NPDENTRIES).filterMap (s.dirs d).pde = (s.dirs d).tables := by
    rw [PgDir.tables]
  generalize range NPDENTRIES = entries at all ⊢
  -- The rest of the call, once the user pages are gone.
  have finish : ∀ n t, n = pagesOf (s.proc cur).shm → Shrunk d 0 n s t → wp (do
        freeTables img d entries
        kfree img d) Q E t := by
    rintro n t rfl shrunk
    rw [← shrunk.pde] at all
    rw [wp_bind]
    refine wp_freeTables_back entries (by rw [all]; exact tables) fun u back => ?_
    rw [all] at back
    refine wp_kfree_page dir ?_
    exact next _ (shrunk.dirFreed (back.append (.cons (.refl _))))
  refine wp_deallocuvm_shrunk walk top ?_ ?_ ?_
  · intro w _ below
    exact frames w below
  · intro nothing
    refine finish 0 _ ?_ ⟨⟨rfl, fun _ _ => rfl, rfl, fun w => ?_⟩, rfl, fun _ _ => rfl⟩
    · have zero : (s.proc cur).shm = 0 := Nat.le_zero.mp nothing
      rw [zero]
      rfl
    · rw [if_neg (by omega)]
  · intro _ t shrunk
    exact finish _ t rfl shrunk

/-! ## Keys released -/

/-- The pages of a key. -/
def SharedMem.pages (entry : SharedMem) : List Nat :=
  (range entry.numPages).map entry.physAddr

/-- The pages of the keys of `mask` that nobody else holds. -/
def Kernel.dropped (s : Kernel) (mask : Nat) (keys : List Key) : List Nat :=
  keys.flatMap fun key =>
    if shmKeyUsed key mask = true ∧ (s.shmTab key).count = 1 then
      (s.shmTab key).pages
    else []

/-- The keys of `mask` have one holder less. -/
structure KeysDropped (mask : Nat) (keys : List Key) (s t : Kernel) : Prop where
  ptable : t.ptable = s.ptable
  free : t.freelist = (s.dropped mask keys).reverse ++ s.freelist
  dirs : t.dirs = s.dirs
  shm : ∀ key, t.shmTab key = if key ∈ keys ∧ shmKeyUsed key mask = true then
      { s.shmTab key with count := (s.shmTab key).count - 1 }
    else s.shmTab key
  outside : ∀ a, (∀ page ∈ s.dropped mask keys, ¬ InPage page a) → t.mem a = s.mem a

section Keys

variable {mask : Nat} {key : Key} {keys : List Key}
variable {Q : Unit → Kernel → Prop}

theorem Kernel.dropped_cons (s : Kernel) (key : Key) (keys : List Key) :
    s.dropped mask (key :: keys) = s.dropped mask [key] ++ s.dropped mask keys := by
  unfold dropped
  rw [List.flatMap_cons, List.flatMap_singleton]

theorem Kernel.dropped_update {entry : SharedMem} (fresh : key ∉ keys)
    (shm : t.shmTab = update s.shmTab key entry) : t.dropped mask keys = s.dropped mask keys := by
  unfold dropped
  apply List.flatMap_congr
  intro other mem
  have away : other ≠ key := ne_of_mem_of_not_mem mem fresh
  rw [shm, update_of_ne away]

/-- What is left of the entry of one key. -/
def SharedMem.release (entry : SharedMem) (used : Bool) : SharedMem :=
  if used = true then { entry with count := entry.count - 1 } else entry

/-- One key is released. -/
structure KeyDropped (mask : Nat) (key : Key) (s t : Kernel) : Prop where
  ptable : t.ptable = s.ptable
  free : t.freelist = (s.dropped mask [key]).reverse ++ s.freelist
  dirs : t.dirs = s.dirs
  shm : t.shmTab = update s.shmTab key ((s.shmTab key).release (shmKeyUsed key mask))
  outside : ∀ a, (∀ page ∈ s.dropped mask [key], ¬ InPage page a) → t.mem a = s.mem a

theorem KeyDropped.cons (one : KeyDropped mask key s t) (fresh : key ∉ keys)
    (rest : KeysDropped mask keys t u) : KeysDropped mask (key :: keys) s u := by
  have later : t.dropped mask keys = s.dropped mask keys := dropped_update fresh one.shm
  constructor
  case ptable => exact rest.ptable.trans one.ptable
  case free =>
    rw [rest.free, one.free, later, s.dropped_cons key keys, List.reverse_append, append_assoc]
  case dirs => exact rest.dirs.trans one.dirs
  case shm =>
    intro other
    rw [rest.shm, one.shm]
    by_cases here : other = key
    · subst here
      rw [if_neg fun both => fresh both.1, update_self]
      simp only [SharedMem.release, List.mem_cons, true_or, true_and]
    · rw [update_of_ne here]
      simp only [List.mem_cons, here, false_or]
  case outside =>
    intro a apart
    rw [s.dropped_cons key keys] at apart
    rw [rest.outside a, one.outside a]
    · exact fun page mem => apart page (List.mem_append_left _ mem)
    · rw [later]
      exact fun page mem => apart page (List.mem_append_right _ mem)

/-- A key of the mask loses a holder; if it was the last one, the pages go
back. -/
theorem wp_dropKey {rest : KM Unit} (used : shmKeyUsed key mask = true)
    (ok : ∀ page ∈ s.dropped mask [key], img.Page page)
    (next : ∀ t, KeyDropped mask key s t → wp rest Q E t) :
    wp (do
      shmCount key (-1)
      let s ← get
      if (s.shmTab key).count = 0 then do
        shmRm img key
        rest
      else rest) Q E s := by
  have release : (s.shmTab key).release (shmKeyUsed key mask) =
      { s.shmTab key with count := (s.shmTab key).count + -1 } := by
    unfold SharedMem.release
    rw [if_pos used]
    rfl
  simp only [shmCount, wp_bind, wp_modify, wp_get]
  generalize counted : s.setShm key
    { s.shmTab key with count := (s.shmTab key).count + -1 } = m
  have shm : m.shmTab = update s.shmTab key ((s.shmTab key).release (shmKeyUsed key mask)) := by
    rw [← counted, release]
    rfl
  have entry : m.shmTab key =
      { s.shmTab key with count := (s.shmTab key).count + -1 } := by
    rw [shm, update_self, release]
  rw [entry]
  by_cases last : (s.shmTab key).count = 1
  · have pages : s.dropped mask [key] = (s.shmTab key).pages := by
      unfold dropped
      rw [List.flatMap_singleton, if_pos ⟨used, last⟩]
    rw [if_pos (by dsimp only; omega), wp_bind, shmRm, wp_bind, wp_get, wp_bind, entry]
    rw [pages] at ok
    refine wp_freePages_back _ ok fun u back => ?_
    rw [wp_modify]
    have same : u.shmTab = m.shmTab := congrArg Prod.snd back.records
    refine next _ ⟨?_, ?_, ?_, ?_, ?_⟩
    · change u.ptable = s.ptable
      rw [show u.ptable = m.ptable from congrArg Prod.fst back.records, ← counted]
      rfl
    · change u.freelist = _
      rw [back.free, ← counted, pages]
      rfl
    · change u.dirs = _
      rw [back.dirs, ← counted]
      rfl
    · change update u.shmTab key
        { u.shmTab key with count := 0 } = _
      rw [same, entry, shm, update_idem, release, last]
      rfl
    · intro a apart
      change u.mem a = _
      rw [pages] at apart
      rw [back.outside a apart, ← counted]
      rfl
  · have none : s.dropped mask [key] = [] := by
      unfold dropped
      rw [List.flatMap_singleton, if_neg fun both => last both.2]
    rw [if_neg (by dsimp only; omega)]
    refine next m ⟨?_, ?_, ?_, shm, ?_⟩
    · rw [← counted]
      rfl
    · rw [none, ← counted]
      rfl
    · rw [← counted]
      rfl
    · intro a _
      rw [← counted]
      rfl

theorem wp_releaseKeys_dropped (keys : List Key) (nodup : keys.Nodup)
    (ok : ∀ page ∈ s.dropped mask keys, img.Page page)
    (next : ∀ t, KeysDropped mask keys s t → Q () t) : wp (releaseKeys img mask keys) Q E s := by
  induction keys generalizing s with
  | nil =>
    refine next s ⟨rfl, rfl, rfl, fun key => ?_, fun _ _ => rfl⟩
    rw [if_neg (by simp)]
  | cons key rest ih =>
    rw [List.nodup_cons] at nodup
    rw [s.dropped_cons] at ok
    have continued : ∀ t, KeyDropped mask key s t → wp (releaseKeys img mask rest) Q E t := by
      intro t one
      refine ih nodup.2 ?_ fun u more =>
        next u (one.cons nodup.1 more)
      rw [dropped_update nodup.1 one.shm]
      exact fun page mem => ok page (List.mem_append_right _ mem)
    rw [releaseKeys]
    by_cases used : shmKeyUsed key mask = true
    · rw [if_pos used]
      exact wp_dropKey used (fun page mem => ok page (List.mem_append_left _ mem)) continued
    · have none : s.dropped mask [key] = [] := by
        unfold dropped
        rw [List.flatMap_singleton, if_neg fun both => used both.1]
      rw [if_neg used]
      refine continued s ⟨rfl, ?_, rfl, ?_, fun _ _ => rfl⟩
      · rw [none]
        rfl
      · unfold SharedMem.release
        rw [if_neg used, update_eq_self]

end Keys

/-! ## The shared memory of a directory released -/

/-- The `n` pages of `d` from `v` on are unmapped, and the keys of `mask` have
one holder less. -/
structure ShmReleased (d v n mask : Nat) (s t : Kernel) : Prop where
  ptable : t.ptable = s.ptable
  free : t.freelist = (s.dropped mask (finRange MAX_SHM_KEY)).reverse ++ s.freelist
  dirs : ∀ e, e ≠ d → t.dirs e = s.dirs e
  pde : (t.dirs d).pde = (s.dirs d).pde
  entry : ∀ w, (t.dirs d).entry w = if v ≤ w ∧ w < v + n then none else (s.dirs d).entry w
  shm : ∀ key, t.shmTab key = (s.shmTab key).release (shmKeyUsed key mask)
  outside : ∀ a, (∀ page ∈ s.dropped mask (finRange MAX_SHM_KEY),
    ¬ InPage page a) → t.mem a = s.mem a

theorem ShmReleased.frame {mask w p : Nat} (released : ShmReleased d v n mask s t)
    (holds : (t.dirs d).frame w = some p) : (s.dirs d).frame w = some p := by
  unfold PgDir.frame at holds ⊢
  rw [released.entry] at holds
  split at holds
  · cases holds
  · exact holds

theorem ShmReleased.owned {mask k m page : Nat} (released : ShmReleased d v n mask s t) (le : k ≤ m)
    (mem : page ∈ (t.dirs d).owned d k) : page ∈ (s.dirs d).owned d m := by
  unfold PgDir.owned PgDir.tables at mem ⊢
  rw [released.pde] at mem
  simp only [List.mem_append] at mem ⊢
  refine mem.imp_left fun mem => mem.imp_left fun mem => ?_
  obtain ⟨w, inside, holds⟩ := PgDir.mem_frames.mp mem
  exact PgDir.mem_frames.mpr ⟨w, by omega, released.frame holds⟩

theorem wp_shmRelease_released {mask : Nat} (walk : ∃ table, (s.dirs d).pde 0 = some table)
    (top : v + n = userPages)
    (real : ∀ w, v ≤ w → w < v + n → ∀ p, (s.dirs d).frame w = some p → p ≠ 0)
    (ok : ∀ page ∈ s.dropped mask (finRange MAX_SHM_KEY), img.Page page)
    (next : ∀ t, ShmReleased d v n mask s t → Q () t) :
    wp (shmRelease img d (v * PGSIZE) mask) Q E s := by
  unfold shmRelease
  rw [wp_bind, show USERTOP = (v + n) * PGSIZE by rw [top]; rfl]
  refine wp_deallocshm_unmapped walk (Nat.le_of_eq top) real fun t unmapped => ?_
  have shm : t.shmTab = s.shmTab := congrArg Prod.snd unmapped.records
  have same : t.dropped mask (finRange MAX_SHM_KEY) = s.dropped mask (finRange MAX_SHM_KEY) := by
    unfold dropped
    rw [shm]
  refine wp_releaseKeys_dropped _ (List.nodup_finRange _) (by rwa [same]) fun u dropped => ?_
  refine next u ⟨?_, ?_, ?_, ?_, ?_, ?_, ?_⟩
  · exact dropped.ptable.trans (congrArg Prod.fst unmapped.records)
  · rw [dropped.free, same, unmapped.free]
  · intro e other
    rw [dropped.dirs, unmapped.dirs e other]
  · rw [dropped.dirs, unmapped.pde]
  · intro w
    rw [dropped.dirs, unmapped.entry]
  · intro key
    rw [dropped.shm, shm]
    simp only [List.mem_finRange, true_and, SharedMem.release]
  · intro a apart
    rw [dropped.outside a (by rwa [same]), unmapped.mem]

theorem onePage_tables (free : List Nat) (d : Nat) :
    ((onePage free).dirs d).tables = [0x201000] := by
  unfold PgDir.tables
  rw [show NPDENTRIES = 1 + 1023 from rfl, List.range_add,
    List.filterMap_append, List.filterMap_map]
  have rest : (range 1023).filterMap (((onePage free).dirs d).pde ∘ fun i => 1 + i) = [] := by
    apply List.filterMap_eq_nil_iff.mpr
    intro i _
    change (if 1 + i = 0 then _ else _) = _
    rw [if_neg (by omega)]
  rw [rest]
  rfl

end Xv6
