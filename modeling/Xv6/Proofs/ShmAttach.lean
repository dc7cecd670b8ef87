/-
Purpose: What shmgetat maps when it attaches to a key that is in use: the pages
  of the key for the first cells, and for the others whatever the uninitialised
  local array holds.
-/
import Xv6.Proofs.Kvm

namespace Xv6

open Function PanicM

/-! ## The loop of mapshm -/

/-- The entries of the `n` pages from `v` on are replaced. -/
def PgDir.mapped (dir : PgDir) (v n : Nat) (word : Nat → Nat) : PgDir where
  pde := dir.pde
  pte := fun u => if v ≤ u ∧ u < v + n then word (u - v) else dir.pte u

theorem PgDir.mapped_zero (dir : PgDir) (v : Nat) (word : Nat → Nat) :
    dir.mapped v 0 word = dir := by
  have same : (dir.mapped v 0 word).pte = dir.pte := by
    funext u
    exact if_neg (by omega)
  cases dir with
  | mk pde pte => exact congrArg (PgDir.mk pde) same

theorem PgDir.mapped_succ (dir : PgDir) (v n : Nat) (word : Nat → Nat) :
    (dir.setPte v (word 0)).mapped (v + 1) n (fun j => word (j + 1)) =
      dir.mapped v (n + 1) word := by
  unfold PgDir.mapped PgDir.setPte
  congr 1
  funext u
  dsimp only
  by_cases first : u = v
  · subst first
    rw [if_neg (by omega), update_self, if_pos (by omega), Nat.sub_self]
  · rw [update_of_ne first]
    by_cases inside : v ≤ u ∧ u < v + (n + 1)
    · rw [if_pos (by omega), if_pos inside]
      congr 1
      omega
    · rw [if_neg (by omega), if_neg inside]

theorem Kernel.setDir_self (s : Kernel) (d : Nat) : s.setDir d (s.dirs d) = s := by
  simp [Kernel.setDir]

theorem Kernel.setDir_setDir (s : Kernel) (d : Nat) (one two : PgDir) :
    (s.setDir d one).setDir d two = s.setDir d two := by
  simp [Kernel.setDir]

variable {s : Kernel} {E : Panic → Prop} {d v : Nat}

theorem wp_mapShmLoop {Q : Unit → Kernel → Prop} (left : Nat) {i : Nat} (physAddr : Nat → Nat)
    (walk : ∃ table, (s.dirs d).pde 0 = some table) (inside : v + left ≤ userPages)
    (unmapped : ∀ u, v ≤ u → u < v + left → present ((s.dirs d).pte u) = false)
    (next : Q () (s.setDir d ((s.dirs d).mapped v left fun j =>
      mkPte (physAddr (i + j)) (PTE_W ||| PTE_U)))) :
    wp (mapShmLoop d (v * PGSIZE) i physAddr left) Q E s := by
  induction left generalizing v i s with
  | zero =>
    rw [PgDir.mapped_zero, Kernel.setDir_self] at next
    rw [mapShmLoop, wp_pure]
    exact next
  | succ left ih =>
    rw [mapShmLoop, wp_bind]
    refine wp_mappages_user walk (by omega) (unmapped v (le_refl v) (by omega)) ?_
    have dir : ∀ new, (s.setDir d new).dirs d = new := by
      intro new
      simp [Kernel.setDir]
    rw [← Nat.add_one_mul]
    refine ih ?_ (by omega) ?_ ?_
    · rw [dir]
      exact walk
    · intro u above below
      have other : u ≠ v := by omega
      rw [dir]
      simp only [PgDir.setPte, update_of_ne other]
      exact unmapped u (by omega) (by omega)
    · have order : ∀ j, i + 1 + j = i + (j + 1) := by
        intro j
        omega
      simp only [order]
      rw [Kernel.setDir_setDir, dir]
      have rest := PgDir.mapped_succ (s.dirs d) v left fun j =>
        mkPte (physAddr (i + j)) (PTE_W ||| PTE_U)
      rw [Nat.add_zero] at rest
      rw [rest]
      exact next

/-! ## Attaching -/

/-- A key that is in use, and a process that has not attached it and has room
for its pages below its shared memory. -/
structure Attachable (s : Kernel) (cur : Slot) (k : Key) : Prop where
  live : (s.shmTab k).count ≠ 0
  few : (s.shmTab k).numPages ≤ MAX_SHM_PGNUM
  pages : ∀ i, i < (s.shmTab k).numPages → (s.shmTab k).physAddr i % PGSIZE = 0
  unattached : shmKeyUsed k (s.proc cur).shmKeyMask = false
  walk : ∃ table, (s.dirs (s.proc cur).pgdir).pde 0 = some table
  sized : 0 < (s.proc cur).sz
  aligned : (s.proc cur).shm % PGSIZE = 0
  top : (s.proc cur).shm ≤ USERTOP
  room : (s.proc cur).sz + (s.shmTab k).numPages * PGSIZE ≤ (s.proc cur).shm
  unmapped : ∀ v, v * PGSIZE < (s.proc cur).shm →
    (s.proc cur).shm ≤ (v + (s.shmTab k).numPages) * PGSIZE →
    present ((s.dirs (s.proc cur).pgdir).pte v) = false

/-- Bit `PTE_W` of an entry. -/
def writable (pte : Nat) : Bool := pte / 2 % 2 = 1

/-- Directory `d` maps the pages of a key at `va`, for the user to read and
write. -/
def Kernel.MapsKey (s : Kernel) (k : Key) (d va : Nat) : Prop :=
  va % PGSIZE = 0 ∧ ∀ i, i < (s.shmTab k).numPages → present ((s.dirs d).pte (vpn va + i)) = true ∧
    userPage ((s.dirs d).pte (vpn va + i)) = true ∧
    writable ((s.dirs d).pte (vpn va + i)) = true ∧
    pteAddr ((s.dirs d).pte (vpn va + i)) = (s.shmTab k).physAddr i

/-- Physical address behind a user address. -/
def Kernel.userAddr (s : Kernel) (d a : Nat) : Nat :=
  pteAddr ((s.dirs d).pte (vpn a)) + a % PGSIZE

/-- `shmgetat` returns an address at which the key is mapped, and its bytes are
those of every other address at which the key was mapped. -/
def Attaches (s : Kernel) (cur : Slot) (k : Key) (n : Nat) (stack : Nat → Nat) : Prop :=
  ∃ va t, shmgetat cur (k : Nat) n stack s = .ok (some va, t) ∧ t.MapsKey k (s.proc cur).pgdir va ∧
    ∀ d vb, s.MapsKey k d vb → ∀ off, off < (s.shmTab k).numPages * PGSIZE →
      t.userAddr (s.proc cur).pgdir (va + off) = t.userAddr d (vb + off)

/-- The address `shmgetat` returns. -/
def Kernel.attachAt (s : Kernel) (cur : Slot) (k : Key) : Nat :=
  (s.proc cur).shm - (s.shmTab k).numPages * PGSIZE

/-- The entry `shmgetat` stores for page `i` of the key. -/
def Kernel.attachWord (s : Kernel) (k : Key) (n : Nat) (stack : Nat → Nat) (i : Nat) : Nat :=
  mkPte (if i < n then (s.shmTab k).physAddr i else stack i) (PTE_W ||| PTE_U)

/-- The directory of the caller after `shmgetat`. -/
def Kernel.attachDir (s : Kernel) (cur : Slot) (k : Key) (n : Nat) (stack : Nat → Nat) : PgDir :=
  (s.dirs (s.proc cur).pgdir).mapped (vpn (s.attachAt cur k))
    (s.shmTab k).numPages (s.attachWord k n stack)

section Attach

variable {cur : Slot} {k : Key} {n : Nat} {stack : Nat → Nat}

theorem Attachable.below (ready : Attachable s cur k) :
    shmBelow (s.proc cur).shm (s.shmTab k).numPages = s.attachAt cur k ∧
      s.attachAt cur k = vpn (s.attachAt cur k) * PGSIZE ∧
      vpn (s.attachAt cur k) + (s.shmTab k).numPages = (s.proc cur).shm / PGSIZE ∧
      (s.proc cur).sz ≤ s.attachAt cur k := by
  have room := ready.room
  have aligned := ready.aligned
  have top := ready.top
  have few := ready.few
  unfold shmBelow Kernel.attachAt vpn u32
  simp only [PGSIZE, USERTOP, MAX_SHM_PGNUM] at *
  omega

theorem Attachable.accepted (ready : Attachable s cur k) :
    shmRefused (s.proc cur).shm (s.attachAt cur k) (s.proc cur).sz = false := by
  obtain ⟨-, page, -, size⟩ := ready.below
  have aligned := ready.aligned
  have top := ready.top
  have even : s.attachAt cur k % PGSIZE = 0 := by
    rw [page]
    exact Nat.mul_mod_left _ _
  simp only [shmRefused, aligned, even, ne_eq, not_true_eq_false,
    decide_false, Bool.false_or, Bool.or_eq_false_iff, decide_eq_false_iff_not]
  omega

theorem Attachable.count (ready : Attachable s cur k) :
    shmPages (s.attachAt cur k) (s.proc cur).shm = (s.shmTab k).numPages := by
  have room := ready.room
  unfold shmPages pagesTo Kernel.attachAt
  simp only [PGSIZE] at *
  omega

theorem wp_shmgetat_attach (stack : Nat → Nat)
    (ready : Attachable s cur k) (small : n ≤ MAX_SHM_PGNUM) :
    wp (shmgetat cur (k : Nat) n stack) (fun result t => result = some (s.attachAt cur k) ∧
        t.dirs = update s.dirs (s.proc cur).pgdir (s.attachDir cur k n stack) ∧
        (t.shmTab k).numPages = (s.shmTab k).numPages ∧
        (t.shmTab k).physAddr = (s.shmTab k).physAddr)
      (fun _ => False) s := by
  have inRange : (0 : Int) ≤ (k : Nat) ∧ ((k : Nat) : Int) < MAX_SHM_KEY :=
    ⟨by omega, by exact_mod_cast k.isLt⟩
  have request : (0 : Int) ≤ (n : Int) ∧ (n : Int) ≤ MAX_SHM_PGNUM :=
    ⟨by omega, by exact_mod_cast small⟩
  obtain ⟨below, page, pages, size⟩ := ready.below
  have notZero : s.attachAt cur k ≠ 0 := by
    have sized := ready.sized
    omega
  have address : ∀ physAddr left, mapShmLoop (s.proc cur).pgdir (s.attachAt cur k) 0 physAddr left =
        mapShmLoop (s.proc cur).pgdir (vpn (s.attachAt cur k) * PGSIZE) 0 physAddr left := by
    intro physAddr left
    rw [← page]
  unfold shmgetat
  rw [dif_pos inRange, if_pos request]
  simp only [Int.toNat_natCast, Fin.eta, wp_bind, wp_get, ready.unattached,
    Bool.false_eq_true, if_false, ready.live]
  rw [below]
  unfold mapshm
  rw [ready.accepted]
  simp only [Bool.false_eq_true, if_false, wp_bind, ready.count]
  rw [address]
  refine wp_mapShmLoop _ _ ready.walk ?_ ?_ ?_
  · have top := ready.top
    rw [pages]
    simp only [PGSIZE, USERTOP, userPages] at *
    omega
  · intro u above under
    have aligned := ready.aligned
    refine ready.unmapped u ?_ ?_ <;> simp only [PGSIZE] at * <;> omega
  · simp only [wp_pure, ne_eq, notZero, not_false_eq_true, decide_true,
      if_true, shmCount, attach, wp_bind, wp_modify, Nat.zero_add]
    refine ⟨trivial, ?_, ?_, ?_⟩
    · simp only [Kernel.setProc, Kernel.setShm, Kernel.setDir]
      rfl
    · simp [Kernel.setProc, Kernel.setShm, Kernel.setDir]
    · simp [Kernel.setProc, Kernel.setShm, Kernel.setDir]

/-! ## The pages of the key -/

theorem attachWord_bits (s : Kernel) (k : Key) (n : Nat) (stack : Nat → Nat) (i : Nat) :
    present (s.attachWord k n stack i) = true ∧ userPage (s.attachWord k n stack i) = true ∧
      writable (s.attachWord k n stack i) = true := by
  have bits : ∀ pa j, j < 3 → (mkPte pa (PTE_W ||| PTE_U)).testBit j = true := by
    intro pa j small
    have flags : (PTE_W ||| PTE_U ||| PTE_P).testBit j = true := by
      have cases : j = 0 ∨ j = 1 ∨ j = 2 := by omega
      rcases cases with rfl | rfl | rfl <;> decide
    unfold mkPte
    rw [Nat.or_assoc, Nat.testBit_or, flags, Bool.or_true]
  have first := bits (if i < n then (s.shmTab k).physAddr i else stack i) 1 (by decide)
  have second := bits (if i < n then (s.shmTab k).physAddr i else stack i) 2 (by decide)
  rw [Nat.testBit_eq_decide_div_mod_eq] at first second
  exact ⟨present_mkPte _ _, second, first⟩

theorem attachWord_addr (i : Nat) : pteAddr (s.attachWord k n stack i) =
      (if i < n then (s.shmTab k).physAddr i else stack i) / PGSIZE * PGSIZE :=
  pteAddr_mkPte user_perm

theorem attachDir_pte (stack : Nat → Nat) {i : Nat} (inside : i < (s.shmTab k).numPages) :
    (s.attachDir cur k n stack).pte (vpn (s.attachAt cur k) + i) = s.attachWord k n stack i := by
  have first : vpn (s.attachAt cur k) ≤ vpn (s.attachAt cur k) + i ∧ vpn (s.attachAt cur k) + i <
        vpn (s.attachAt cur k) + (s.shmTab k).numPages := by omega
  simp only [Kernel.attachDir, PgDir.mapped, if_pos first, Nat.add_sub_cancel_left]

theorem Attachable.attachDir_present (ready : Attachable s cur k) {v : Nat}
    (mapped : present ((s.dirs (s.proc cur).pgdir).pte v) = true) :
    (s.attachDir cur k n stack).pte v = (s.dirs (s.proc cur).pgdir).pte v := by
  obtain ⟨-, -, pages, -⟩ := ready.below
  refine if_neg fun inside => ?_
  have aligned := ready.aligned
  have absent : present ((s.dirs (s.proc cur).pgdir).pte v) = false := by
    refine ready.unmapped v ?_ ?_ <;> simp only [PGSIZE] at * <;> omega
  rw [absent] at mapped
  cases mapped

theorem Kernel.MapsKey.userAddr {va off : Nat} (maps : s.MapsKey k d va)
    (inside : off < (s.shmTab k).numPages * PGSIZE) :
    s.userAddr d (va + off) = (s.shmTab k).physAddr (off / PGSIZE) + off % PGSIZE := by
  obtain ⟨aligned, entries⟩ := maps
  have number : vpn (va + off) = vpn va + off / PGSIZE := by
    unfold vpn
    simp only [PGSIZE] at *
    omega
  have rest : (va + off) % PGSIZE = off % PGSIZE := by
    simp only [PGSIZE] at *
    omega
  have index : off / PGSIZE < (s.shmTab k).numPages := by
    simp only [PGSIZE] at *
    omega
  unfold Kernel.userAddr
  rw [number, rest, (entries _ index).2.2.2]

/-- What is known once `shmgetat` has returned. -/
structure Attached (s : Kernel) (cur : Slot) (k : Key) (n : Nat)
    (stack : Nat → Nat) (t : Kernel) : Prop where
  ran : shmgetat cur (k : Nat) n stack s = .ok (some (s.attachAt cur k), t)
  dirs : t.dirs = update s.dirs (s.proc cur).pgdir (s.attachDir cur k n stack)
  count : (t.shmTab k).numPages = (s.shmTab k).numPages
  phys : (t.shmTab k).physAddr = (s.shmTab k).physAddr

theorem Attachable.attached (ready : Attachable s cur k)
    (small : n ≤ MAX_SHM_PGNUM) (stack : Nat → Nat) : ∃ t, Attached s cur k n stack t := by
  obtain ⟨result, t, ran, rfl, dirs, count, phys⟩ :=
    wp_returns (wp_shmgetat_attach stack ready small)
  exact ⟨t, ran, dirs, count, phys⟩

namespace Attached

variable {t : Kernel}

section

variable (attached : Attached s cur k n stack t)
include attached

theorem word {i : Nat} (inside : i < (s.shmTab k).numPages) :
    (t.dirs (s.proc cur).pgdir).pte (vpn (s.attachAt cur k) + i) = s.attachWord k n stack i := by
  rw [attached.dirs, update_self]
  exact attachDir_pte stack inside

/-- The unfilled cells named the right pages. -/
theorem lucky (attaches : Attaches s cur k n stack) {i : Nat} (above : n ≤ i)
    (inside : i < (s.shmTab k).numPages) : stack i / PGSIZE * PGSIZE = (s.shmTab k).physAddr i := by
  obtain ⟨va, t', ran, ⟨-, maps⟩, -⟩ := attaches
  rw [attached.ran] at ran
  cases ran
  rw [attached.count] at maps
  have same := (maps i inside).2.2.2
  rw [attached.word inside, attachWord_addr, if_neg (by omega), attached.phys] at same
  exact same

theorem maps (ready : Attachable s cur k) (lucky : ∀ i, n ≤ i → i < (s.shmTab k).numPages →
      stack i / PGSIZE * PGSIZE = (s.shmTab k).physAddr i) :
    t.MapsKey k (s.proc cur).pgdir (s.attachAt cur k) := by
  refine ⟨?_, ?_⟩
  · rw [ready.below.2.1]
    exact Nat.mul_mod_left _ _
  · intro i inside
    rw [attached.count] at inside
    rw [attached.word inside, attached.phys]
    obtain ⟨here, user, write⟩ := attachWord_bits s k n stack i
    refine ⟨here, user, write, ?_⟩
    rw [attachWord_addr]
    split
    · exact Nat.div_mul_cancel (Nat.dvd_of_mod_eq_zero (ready.pages i inside))
    · rename_i beyond
      exact lucky i (by omega) inside

theorem still_maps (ready : Attachable s cur k) {vb : Nat} (other : s.MapsKey k d vb) :
    t.MapsKey k d vb := by
  refine ⟨other.1, fun i inside => ?_⟩
  rw [attached.count] at inside
  have before := other.2 i inside
  have same : (t.dirs d).pte (vpn vb + i) = (s.dirs d).pte (vpn vb + i) := by
    rw [attached.dirs]
    by_cases own : d = (s.proc cur).pgdir
    · subst own
      rw [update_self]
      exact ready.attachDir_present before.1
    · rw [update_of_ne own]
  rw [same, attached.phys]
  exact before

end

end Attached

/-- Attaching maps the same memory exactly when the cells of the local array
that `shmgetat` does not fill happen to name the pages of the key. -/
theorem attaches_iff {s : Kernel} {cur : Slot} {k : Key} {n : Nat}
    {stack : Nat → Nat} (ready : Attachable s cur k) (small : n ≤ MAX_SHM_PGNUM) :
    Attaches s cur k n stack ↔ ∀ i, n ≤ i → i < (s.shmTab k).numPages →
        stack i / PGSIZE * PGSIZE = (s.shmTab k).physAddr i := by
  obtain ⟨t, attached⟩ := ready.attached small stack
  constructor
  · intro attaches i above inside
    exact attached.lucky attaches above inside
  · intro lucky
    have maps := attached.maps ready lucky
    refine ⟨s.attachAt cur k, t, attached.ran, maps, ?_⟩
    intro d vb other off inside
    rw [← attached.count] at inside
    rw [maps.userAddr inside, (attached.still_maps ready other).userAddr inside]

/-- One process with a page of memory, and a key of two pages that another
process holds. -/
def keySmall : Kernel where
  freelist := []
  freecount := 0
  mem := fun _ => 0
  dirs := fun _ =>
    { pde := fun i => if i = 0 then some 0x201000 else none
      pte := fun v => if v = 0 then 0x400007 else 0 }
  proc := fun _ =>
    { sz := 4096, pgdir := 0x200000, kstack := 0x202000, state := .running
      pid := 1, parent := none, tf := { eax := 0, eip := 0, esp := 0 }
      chan := none, killed := false, shm := USERTOP, shmKeyMask := 0
      shmVa := fun _ => 0, ustack := 0 }
  nextpid := 2
  initproc := 0
  refs := fun _ => { addr := 0, count := 0 }
  shmTab := fun _ =>
    { count := 1, numPages := 2, physAddr := fun i => 0x300000 + i * 4096 }

theorem keySmall_attachable : Attachable keySmall 0 0 where
  live := by decide
  few := by decide
  pages := by
    intro i _
    change (0x300000 + i * 4096) % 4096 = 0
    omega
  unattached := rfl
  walk := ⟨0x201000, rfl⟩
  sized := by decide
  aligned := rfl
  top := by decide
  room := by decide
  unmapped := by
    intro v below above
    have high : v ≠ 0 := by
      rintro rfl
      revert above
      decide
    change present (if v = 0 then 0x400007 else 0) = false
    rw [if_neg high]
    rfl

theorem keySmall_attaches : Attaches keySmall 0 0 2 fun _ => 0 := by
  refine (attaches_iff keySmall_attachable (by decide)).mpr ?_
  intro i above inside
  exact absurd inside (Nat.not_lt.mpr above)

/-- Asking for one page of the two leaves the second one mapped to whatever
the local array held. -/
theorem keySmall_unattached : Attachable keySmall 0 0 ∧ ¬ Attaches keySmall 0 0 1 fun _ => 0 := by
  refine ⟨keySmall_attachable, fun attaches => ?_⟩
  obtain ⟨t, attached⟩ := keySmall_attachable.attached (show 1 ≤ MAX_SHM_PGNUM by decide) fun _ => 0
  have wrong : 0 / PGSIZE * PGSIZE = (keySmall.shmTab 0).physAddr 1 :=
    attached.lucky attaches (le_refl 1) (by decide)
  revert wrong
  decide

end Attach

end Xv6
