/-
Purpose: kalloc.c with its list threaded through the free pages: after kinit the list and the
  allocated pages are always the pages above the kernel, and the counter is too high by all of them.
-/
import Mathlib.Data.List.Nodup
import Xv6.Lib.Bytes
import Xv6.Lib.Run
import Xv6.Param

namespace Xv6

open Bytes

/-- The memory and `kmem`.  `allocated` is read by no code: the pages that `kalloc` has returned and
`kfree` has not got back. -/
structure Kmem where
  mem : Store
  freelist : Nat
  freecount : Int
  allocated : List Nat

namespace Kmem

/-- `kfree`; `none` is its panic. -/
def kfree (s : Kmem) (kend v : Nat) : Option Kmem :=
  if v % PGSIZE ≠ 0 ∨ v < kend ∨ PHYSTOP ≤ v then none
  else some { s with
    mem := put (fill s.mem v 1 PGSIZE) v (le32 s.freelist)
    freelist := v
    freecount := s.freecount + 1
    allocated := s.allocated.erase v }

/-- `kalloc`, with the page it returns. -/
def kalloc (s : Kmem) : Nat × Kmem :=
  if s.freelist ≠ 0 then (s.freelist, { s with
    freelist := word32 s.mem s.freelist
    freecount := s.freecount - 1
    allocated := s.freelist :: s.allocated })
  else (0, s)

def getfreecount (s : Kmem) : Int := s.freecount

/-- The loop of `kinit`; `none` is the panic of `kfree`, or a loop of more rounds. -/
def kinitLoop (kend : Nat) : Nat → Nat → Kmem → Option Kmem
  | 0, _, _ => none
  | rounds + 1, p, s =>
    if u32 (p + PGSIZE) ≤ PHYSTOP then do
      let s ← s.kfree kend p
      kinitLoop kend rounds (u32 (p + PGSIZE)) { s with freecount := s.freecount + 1 }
    else some s

/-- `kinit`, on whatever the memory holds. -/
def kinit (kend : Nat) (mem : Store) : Option Kmem :=
  kinitLoop kend (PHYSTOP / PGSIZE + 1) (pgroundup kend) ⟨mem, 0, 0, []⟩

/-- A call, or a byte that other code stores. -/
inductive Move where
  | kalloc
  | kfree (v : Nat)
  | store (a : Nat) (byte : UInt8)

def step (kend : Nat) (s : Kmem) : Move → Option Kmem
  | .kalloc => some s.kalloc.2
  | .kfree v => s.kfree kend v
  | .store a byte => some { s with mem := Function.update s.mem a byte }

/-- Only allocated pages are freed, and no byte is stored to a free page. -/
def Permitted (kend : Nat) (s : Kmem) : Move → Prop
  | .kalloc => True
  | .kfree v => v ∈ s.allocated
  | .store a _ => a < pgroundup kend ∨ PHYSTOP ≤ a ∨ pgrounddown a ∈ s.allocated

/-- The states after `kinit` and any calls. -/
abbrev Reaches (kend : Nat) : Kmem → Prop :=
  Reach (fun s => ∃ mem, kinit kend mem = some s) (fun s move t => step kend s move = some t)
    (Permitted kend)

/-! ## The list -/

variable {mem mem' : Store} {kend first v n : Nat} {list : List Nat} {s t : Kmem}

/-- The words at the start of the pages lead from `first` through a list of pages to 0. -/
def Threaded (mem : Store) : Nat → List Nat → Prop
  | first, [] => first = 0
  | first, page :: rest => first = page ∧ first ≠ 0 ∧ Threaded mem (word32 mem page) rest

theorem Threaded.congr (threaded : Threaded mem first list)
    (same : ∀ page ∈ list, ∀ i < 4, mem' (page + i) = mem (page + i)) :
    Threaded mem' first list := by
  induction list generalizing first with
  | nil => exact threaded
  | cons page rest ih =>
    obtain ⟨here, some, onward⟩ := threaded
    obtain ⟨sameHere, sameRest⟩ := List.forall_mem_cons.mp same
    rw [← word32_congr sameHere] at onward
    exact ⟨here, some, ih onward sameRest⟩

/-- A page is put in front of the list: `memset`, and the store to `r->next`. -/
theorem Threaded.push (threaded : Threaded mem first list) (some : v ≠ 0) (small : first < 2 ^ 32)
    (apart : ∀ page ∈ list, page + 4 ≤ v ∨ v + PGSIZE ≤ page) :
    Threaded (put (fill mem v 1 PGSIZE) v (le32 first)) v (v :: list) := by
  refine ⟨rfl, some, ?_⟩
  rw [word32_put_le32 small]
  refine threaded.congr fun page member i less => ?_
  have away := apart page member
  rw [put_outside (by simp only [le32, PGSIZE, List.length_cons, List.length_nil] at away ⊢; omega)]
  exact if_neg (by omega)

/-! ## The pages -/

/-- The first `n` pages above the kernel. -/
def pages (kend n : Nat) : List Nat := (List.range n).map fun i => pgroundup kend + i * PGSIZE

theorem mem_pages {page : Nat} :
    page ∈ pages kend n ↔ ∃ i < n, pgroundup kend + i * PGSIZE = page := by
  simp [pages]

theorem pages_succ : pages kend (n + 1) = pages kend n ++ [pgroundup kend + n * PGSIZE] := by
  simp [pages, List.range_succ]

theorem nodup_pages : (pages kend n).Nodup := by
  refine List.nodup_range.map fun i j same => ?_
  simp only [PGSIZE] at same
  omega

theorem aligned_of_mem {page : Nat} (member : page ∈ pages kend n) : page % PGSIZE = 0 := by
  obtain ⟨i, -, rfl⟩ := mem_pages.mp member
  unfold pgroundup
  simp only [PGSIZE]
  omega

/-- Free and allocated pages are the first `n` above the kernel, and the counter counts them twice
when they are all free. -/
structure Accounts (kend n : Nat) (s : Kmem) (list : List Nat) : Prop where
  threaded : Threaded s.mem s.freelist list
  perm : (list ++ s.allocated).Perm (pages kend n)
  valid : ∀ page ∈ pages kend n, kend ≤ page ∧ page < PHYSTOP
  count : s.freecount = list.length + n

namespace Accounts

variable (accounts : Accounts kend n s list)
include accounts

theorem free_mem {page : Nat} (member : page ∈ list) : page ∈ pages kend n :=
  accounts.perm.mem_iff.mp (List.mem_append_left _ member)

theorem allocated_mem {page : Nat} (member : page ∈ s.allocated) : page ∈ pages kend n :=
  accounts.perm.mem_iff.mp (List.mem_append_right _ member)

theorem nodup : (list ++ s.allocated).Nodup := accounts.perm.nodup_iff.mpr nodup_pages

theorem disjoint {page : Nat} (free : page ∈ list) : page ∉ s.allocated :=
  fun taken => (List.nodup_append.mp accounts.nodup).2.2 page free page taken rfl

theorem freelist_lt : s.freelist < 2 ^ 32 := by
  have threaded := accounts.threaded
  cases list with
  | nil =>
    rw [show s.freelist = 0 from threaded]
    decide
  | cons page rest =>
    rw [threaded.1]
    exact (accounts.valid page (accounts.free_mem List.mem_cons_self)).2.trans (by decide)

theorem freed (real : 0 < kend) (low : kend ≤ v) (whole : v % PGSIZE = 0) (new : v ∉ list) :
    Threaded (put (fill s.mem v 1 PGSIZE) v (le32 s.freelist)) v (v :: list) := by
  refine accounts.threaded.push (by omega) accounts.freelist_lt fun page member => ?_
  have other : page ≠ v := ne_of_mem_of_not_mem member new
  have aligned := aligned_of_mem (accounts.free_mem member)
  simp only [PGSIZE] at *
  omega

end Accounts

theorem kfree_eq_some : s.kfree kend v = some t ↔ (v % PGSIZE = 0 ∧ kend ≤ v ∧ v < PHYSTOP) ∧ t =
    { s with
      mem := put (fill s.mem v 1 PGSIZE) v (le32 s.freelist)
      freelist := v
      freecount := s.freecount + 1
      allocated := s.allocated.erase v } := by
  unfold kfree
  split_ifs with refused
  · exact iff_of_false nofun fun ⟨passes, _⟩ => by omega
  · rw [Option.some.injEq, eq_comm]
    exact (and_iff_right (by omega)).symm

/-! ## `kinit` -/

/-- The loop of `kinit` after `n` rounds. -/
theorem Accounts.kinitLoop {rounds p : Nat} (accounts : Accounts kend n s list) (real : 0 < kend)
    (untaken : s.allocated = []) (here : p = pgroundup kend + n * PGSIZE)
    (ran : kinitLoop kend rounds p s = some t) :
    ∃ n' list', Accounts kend n' t list' ∧ PHYSTOP < pgroundup kend + n' * PGSIZE + PGSIZE := by
  induction rounds generalizing n p s list with
  | zero => cases ran
  | succ rounds ih =>
    unfold Kmem.kinitLoop at ran
    split at ran
    · obtain ⟨u, freed, onward⟩ := Option.bind_eq_some_iff.mp ran
      obtain ⟨⟨whole, low, high⟩, rfl⟩ := kfree_eq_some.mp freed
      have next : u32 (p + PGSIZE) = pgroundup kend + (n + 1) * PGSIZE := by
        rw [u32_of_lt (by simp only [PHYSTOP, PGSIZE] at *; omega), here, Nat.succ_mul,
          Nat.add_assoc]
      have new : p ∉ list := by
        intro member
        obtain ⟨i, less, same⟩ := mem_pages.mp (accounts.free_mem member)
        simp only [PGSIZE] at *
        omega
      refine ih ⟨accounts.freed real low whole new, ?_, ?_, ?_⟩ (by simp [untaken]) next onward
      · have perm := accounts.perm
        rw [untaken, List.append_nil] at perm
        rw [untaken, pages_succ, ← here, List.erase_nil, List.append_nil]
        exact (perm.cons p).trans (List.perm_append_singleton ..).symm
      · rw [pages_succ, ← here]
        exact List.forall_mem_append.mpr ⟨accounts.valid, List.forall_mem_singleton.mpr ⟨low, high⟩⟩
      · have count := accounts.count
        simp only [List.length_cons]
        omega
    · cases ran
      rename_i ends
      have le : u32 (p + PGSIZE) ≤ p + PGSIZE := Nat.mod_le ..
      refine ⟨n, list, accounts, ?_⟩
      omega

/-- The pages of the allocator. -/
def total (kend : Nat) : Nat := (PHYSTOP - pgroundup kend) / PGSIZE

theorem kinit_accounts (real : 0 < kend) (ran : kinit kend mem = some s) :
    ∃ list, Accounts kend (total kend) s list := by
  have empty : Accounts kend 0 ⟨mem, 0, 0, []⟩ [] := ⟨rfl, .nil, by simp [pages], rfl⟩
  obtain ⟨n, list, accounts, ends⟩ := empty.kinitLoop real rfl (by simp) ran
  have all : n = total kend := by
    unfold total
    cases n with
    | zero =>
      simp only [PGSIZE] at ends ⊢
      omega
    | succ n =>
      have last : pgroundup kend + n * PGSIZE ∈ pages kend (n + 1) := by simp [pages_succ]
      have aligned := aligned_of_mem last
      have below := (accounts.valid _ last).2
      simp only [PGSIZE, PHYSTOP] at *
      omega
  exact ⟨list, all ▸ accounts⟩

/-! ## Runs -/

theorem Accounts.kalloc (accounts : Accounts kend n s list) :
    ∃ list', Accounts kend n s.kalloc.2 list' := by
  have threaded := accounts.threaded
  unfold Kmem.kalloc
  cases list with
  | nil =>
    have null : s.freelist = 0 := threaded
    rw [if_neg (not_not.mpr null)]
    exact ⟨[], accounts⟩
  | cons page rest =>
    obtain ⟨here, some, onward⟩ := threaded
    rw [if_pos some, here]
    refine ⟨rest, onward, List.perm_middle.trans accounts.perm, accounts.valid, ?_⟩
    have count := accounts.count
    simp only [List.length_cons] at count ⊢
    omega

theorem Accounts.kfree (accounts : Accounts kend n s list) (real : 0 < kend)
    (taken : v ∈ s.allocated) : ∃ t list', s.kfree kend v = some t ∧ Accounts kend n t list' := by
  have member := accounts.allocated_mem taken
  obtain ⟨low, high⟩ := accounts.valid v member
  have new : v ∉ list := fun free => accounts.disjoint free taken
  refine ⟨_, v :: list, kfree_eq_some.mpr ⟨⟨aligned_of_mem member, low, high⟩, rfl⟩,
    accounts.freed real low (aligned_of_mem member) new, ?_, accounts.valid, ?_⟩
  · refine List.perm_middle.symm.trans (.trans ?_ accounts.perm)
    exact (List.perm_cons_erase taken).symm.append_left list
  · have count := accounts.count
    simp only [List.length_cons]
    omega

theorem Accounts.store {a : Nat} (accounts : Accounts kend n s list) (byte : UInt8)
    (permitted : s.Permitted kend (.store a byte)) :
    Accounts kend n { s with mem := Function.update s.mem a byte } list := by
  refine { accounts with threaded := accounts.threaded.congr fun page member i less => ?_ }
  refine Function.update_of_ne ?_ ..
  rintro rfl
  have inside := accounts.free_mem member
  have aligned := aligned_of_mem inside
  have valid := accounts.valid page inside
  rcases permitted with low | high | taken
  · obtain ⟨j, -, rfl⟩ := mem_pages.mp inside
    omega
  · simp only [PGSIZE, PHYSTOP] at *
    omega
  · have same : pgrounddown (page + i) = page := by
      unfold pgrounddown
      simp only [PGSIZE] at *
      omega
    exact accounts.disjoint member (same ▸ taken)

theorem accounts_of_reaches (real : 0 < kend) (reached : Reaches kend s) :
    ∃ list, Accounts kend (total kend) s list := by
  refine reached.invariant (I := fun s => ∃ list, Accounts kend (total kend) s list) ?_ ?_
  · rintro s ⟨mem, ran⟩
    exact kinit_accounts real ran
  · rintro s move t ⟨list, accounts⟩ permitted taken
    cases move with
    | kalloc =>
      cases taken
      exact accounts.kalloc
    | kfree v =>
      obtain ⟨t, list', ran, after⟩ := accounts.kfree real permitted
      cases ran.symm.trans taken
      exact ⟨list', after⟩
    | store a byte =>
      cases taken
      exact ⟨list, accounts.store byte permitted⟩

theorem kinitLoop_isSome {rounds p : Nat} (whole : p % PGSIZE = 0) (low : kend ≤ p)
    (high : p ≤ 2 ^ 32 - 2 * PGSIZE) (enough : PHYSTOP < p + rounds * PGSIZE + PGSIZE) :
    (kinitLoop kend (rounds + 1) p s).isSome := by
  have next : u32 (p + PGSIZE) = p + PGSIZE := u32_of_lt (by simp only [PGSIZE] at *; omega)
  induction rounds generalizing p s with
  | zero =>
    rw [kinitLoop, next, if_neg (by omega)]
    rfl
  | succ rounds ih =>
    rw [kinitLoop, next]
    split
    · have freed := kfree_eq_some (s := s).mpr
        ⟨⟨whole, low, by simp only [PGSIZE] at *; omega⟩, rfl⟩
      rw [freed, Option.bind_eq_bind, Option.bind_some]
      refine ih ?_ ?_ ?_ ?_ (u32_of_lt ?_)
      all_goals
        simp only [PGSIZE, PHYSTOP] at *
        omega
    · rfl

/-- Before and after any calls the free list has no duplicates and is, with the pages that are
allocated, all of the memory above the kernel; but `kinit` has counted every page twice, and
`getfreecount` returns the length of the list only if there is no page at all. -/
theorem free_pages_counted (kend : Nat) (real : 0 < kend) :
    (kend ≤ 2 ^ 32 - 2 * PGSIZE → ∀ mem, (kinit kend mem).isSome) ∧
    ∀ s, Reaches kend s → ∃ list, Threaded s.mem s.freelist list ∧ list.Nodup ∧
      (∀ page ∈ list, page ∉ s.allocated) ∧
      (∀ page, page ∈ list ∨ page ∈ s.allocated ↔
        page % PGSIZE = 0 ∧ pgroundup kend ≤ page ∧ page < PHYSTOP) ∧
      (∀ v ∈ s.allocated, (s.kfree kend v).isSome) ∧
      s.getfreecount = list.length + total kend ∧
      (s.getfreecount = list.length ↔ PHYSTOP < pgroundup kend + PGSIZE) := by
  constructor
  · intro high mem
    apply kinitLoop_isSome <;> simp only [pgroundup, u32, PGSIZE, PHYSTOP] at * <;> omega
  · intro s reached
    obtain ⟨list, accounts⟩ := accounts_of_reaches real reached
    refine ⟨list, accounts.threaded, (List.nodup_append.mp accounts.nodup).1,
      fun _ => accounts.disjoint, ?_, ?_, accounts.count, ?_⟩
    · intro page
      rw [← List.mem_append, accounts.perm.mem_iff]
      constructor
      · intro member
        obtain ⟨i, -, rfl⟩ := mem_pages.mp member
        exact ⟨aligned_of_mem member, Nat.le_add_right .., (accounts.valid _ member).2⟩
      · rintro ⟨whole, low, high⟩
        have start : pgroundup kend % PGSIZE = 0 := Nat.mul_mod_left ..
        refine mem_pages.mpr ⟨(page - pgroundup kend) / PGSIZE, ?_, ?_⟩
        all_goals
          simp only [total, PGSIZE, PHYSTOP] at *
          omega
    · intro v taken
      obtain ⟨t, -, ran, -⟩ := accounts.kfree real taken
      rw [ran]
      rfl
    · have count := accounts.count
      simp only [getfreecount, total, PGSIZE, PHYSTOP] at *
      omega

/-- A kernel up to the last page. -/
theorem no_page_counted : ∃ s list, kinit (PHYSTOP - 1) (fun _ => 0) = some s ∧
    Threaded s.mem s.freelist list ∧ s.getfreecount = list.length := by
  obtain ⟨finishes, counts⟩ := free_pages_counted (PHYSTOP - 1) (by decide)
  obtain ⟨s, ran⟩ := Option.isSome_iff_exists.mp (finishes (by decide) fun _ => 0)
  obtain ⟨list, threaded, -, -, -, -, -, counted⟩ := counts s (.start ⟨_, ran⟩)
  exact ⟨s, list, ran, threaded, counted.mpr (by decide)⟩

/-- A kernel that leaves one page: the counter is 2. -/
theorem one_page_counted_twice : ∃ s, kinit (PHYSTOP - PGSIZE) (fun _ => 0) = some s ∧
    Threaded s.mem s.freelist [PHYSTOP - PGSIZE] ∧ s.getfreecount = 2 ∧
    s.getfreecount ≠ [PHYSTOP - PGSIZE].length :=
  ⟨_, rfl, ⟨rfl, by decide, word32_put_le32 (by decide)⟩, rfl, by decide⟩

end Kmem

end Xv6
