/-
Purpose: Rules for the page allocator and the page-table walk, and the
  directory that setupkvm builds: the kernel ranges mapped to themselves
  through twelve page tables, and nothing below USERTOP.
-/
import Xv6.Kernel.Vm

namespace Xv6

open Kernel Function PanicM
open Bytes (fill)

variable {img : Image} {s : Kernel} {E : Panic → Prop}
variable {Q : Option Nat → Kernel → Prop} {i j u : Nat}

/-! ## Rules of the allocator and the walk -/

theorem wp_kalloc (empty : s.freelist = [] → Q none s)
    (taken : ∀ page rest, s.freelist = page :: rest → Q (some page)
        { s with freelist := rest, freecount := s.freecount - 1 }) :
    wp kalloc Q E s := by
  unfold kalloc
  rw [wp_bind, wp_get]
  cases list : s.freelist with
  | nil => exact empty list
  | cons page rest => exact taken page rest list

/-- The state after `kfree` of a page that passes its check. -/
def Kernel.freed (s : Kernel) (page : Nat) : Kernel :=
  { s with
    mem := fill s.mem page 1 PGSIZE
    freelist := page :: s.freelist
    freecount := s.freecount + 1 }

theorem wp_walkpgdir {d va : Nat}
    {create : Bool}
    (found : ∀ table, (s.dirs d).pde (pdx va) = some table → Q (some (vpn va)) s)
    (missing : (s.dirs d).pde (pdx va) = none → create = false → Q none s)
    (full : (s.dirs d).pde (pdx va) = none → create = true → s.freelist = [] → Q none s)
    (created : ∀ table rest, (s.dirs d).pde (pdx va) = none →
      create = true → s.freelist = table :: rest →
      Q (some (vpn va)) (setDir
          { s with
            freelist := rest
            freecount := s.freecount - 1
            mem := fill s.mem table 0 PGSIZE }
          d ((s.dirs d).addTable (pdx va) table))) :
    wp (walkpgdir d va create) Q E s := by
  unfold walkpgdir
  rw [wp_bind, wp_get]
  cases entry : (s.dirs d).pde (pdx va) with
  | some table => exact found table entry
  | none =>
    cases create with
    | false => exact missing entry rfl
    | true =>
      simp only [if_true, wp_bind]
      apply wp_kalloc
      · intro list
        exact full entry rfl list
      · intro table rest list
        exact created table rest entry rfl list

/-- One page-table entry replaced. -/
def PgDir.setPte (dir : PgDir) (v word : Nat) : PgDir where
  pde := dir.pde
  pte := update dir.pte v word

theorem wp_writePte {Q : Unit → Kernel → Prop} {d v word : Nat}
    (next : Q () (s.setDir d ((s.dirs d).setPte v word))) :
    wp (writePte d v word) Q E s := next

/-- One round of the loop of `mappages`, after its walk. -/
theorem wp_mapLoop_succ {Q : Bool → Kernel → Prop} {d a pa perm left : Nat}
    (full : (s.dirs d).pde (pdx a) = none → s.freelist = [] → Q false s)
    (found : ∀ table, (s.dirs d).pde (pdx a) = some table →
      present ((s.dirs d).pte (vpn a)) = false ∧
      wp (mapLoop d (a + PGSIZE) (pa + PGSIZE) perm left) Q E
        (s.setDir d ((s.dirs d).setPte (vpn a) (mkPte pa perm))))
    (created : ∀ table rest t, (s.dirs d).pde (pdx a) = none → s.freelist = table :: rest →
      t = setDir
        { s with
          freelist := rest
          freecount := s.freecount - 1
          mem := fill s.mem table 0 PGSIZE }
        d ((s.dirs d).addTable (pdx a) table) →
      present ((t.dirs d).pte (vpn a)) = false ∧
      wp (mapLoop d (a + PGSIZE) (pa + PGSIZE) perm left) Q E
        (t.setDir d ((t.dirs d).setPte (vpn a) (mkPte pa perm)))) :
    wp (mapLoop d a pa perm (left + 1)) Q E s := by
  simp only [mapLoop, wp_bind]
  apply wp_walkpgdir
  · intro table entry
    obtain ⟨unmapped, next⟩ := found table entry
    simp only [readPte, wp_bind, wp_get, wp_pure, unmapped, Bool.false_eq_true, if_false]
    exact wp_writePte next
  · intro _ impossible
    cases impossible
  · intro missing _ empty
    exact full missing empty
  · intro table rest missing _ list
    obtain ⟨unmapped, next⟩ := created table rest _ missing list rfl
    simp only [readPte, wp_bind, wp_get, wp_pure, unmapped, Bool.false_eq_true, if_false]
    exact wp_writePte next

/-! ## The kernel part of a directory -/

/-- Pages that `kmap` maps: from the I/O hole to the end of memory, and the
devices. -/
def kernelPage (v : Nat) : Prop :=
  160 ≤ v ∧ v < 4096 ∨ 0xFE000 ≤ v ∧ v < 0x100000

instance (v : Nat) : Decidable (kernelPage v) :=
  inferInstanceAs (Decidable (_ ∨ _))

variable (img) in
/-- Only the kernel's text is mapped read-only. -/
def kernelPerm (v : Nat) : Nat :=
  if 256 ≤ v ∧ v < img.data / PGSIZE then 0 else PTE_W

/-- Position, in the order of allocation, of the page table of a directory
entry. -/
def tableIndex (i : Nat) : Option Nat :=
  if i < 4 then some i
  else if 1016 ≤ i ∧ i < 1024 then some (i - 1012)
  else none

/-- Page tables in place once the kernel pages below `v` are mapped. -/
def tablesBelow (v : Nat) : Nat :=
  if v ≤ 160 then 0
  else if v ≤ 4096 then (v - 1) / 1024 + 1
  else if v ≤ 0xFE000 then 4
  else (v - 1) / 1024 - 1011

variable (img) in
/-- The kernel pages below `v`, mapped through `tables`. -/
def kernelDir (tables : List Nat) (v : Nat) : PgDir where
  pde i := (tableIndex i).bind fun j => tables[j]?
  pte u := if kernelPage u ∧ u < v then mkPte (u * PGSIZE) (kernelPerm img u) else 0

variable (img) in
/-- `setupkvm` has taken `d` and `tables`, `rest` is still free, and the
kernel pages below `v` are mapped. -/
def Kernel.building (s : Kernel) (d : Nat) (tables rest : List Nat) (v : Nat) : Kernel :=
  { s with
    freelist := rest
    freecount := s.freecount - 1 - tables.length
    mem := tables.foldl (fun mem table => fill mem table 0 PGSIZE) (fill s.mem d 0 PGSIZE)
    dirs := update s.dirs d (kernelDir img tables v) }

theorem kernelDir_start : kernelDir img [] 160 = PgDir.empty := by
  have pde : ∀ i, (kernelDir img [] 160).pde i = none := by
    intro i
    cases index : tableIndex i <;> simp [kernelDir]
  have pte : ∀ u, (kernelDir img [] 160).pte u = 0 := by
    intro u
    apply if_neg
    unfold kernelPage
    omega
  unfold PgDir.empty
  rw [← funext pde, ← funext pte]

theorem kernelDir_pde {tables : List Nat} {v : Nat} (index : tableIndex i = some j) :
    (kernelDir img tables v).pde i = tables[j]? := by
  simp [kernelDir, index]

/-- No kernel page lies between the end of memory and the devices. -/
theorem kernelDir_gap (tables : List Nat) :
    kernelDir img tables 4096 = kernelDir img tables 0xFE000 := by
  unfold kernelDir
  congr 1
  funext u
  have same : (kernelPage u ∧ u < 4096) ↔ (kernelPage u ∧ u < 0xFE000) := by
    unfold kernelPage
    omega
  exact if_congr same rfl rfl

theorem kernelDir_pte_above {tables : List Nat} {v : Nat} (above : v ≤ u) :
    (kernelDir img tables v).pte u = 0 := by
  apply if_neg
  rintro ⟨-, below⟩
  omega

theorem kernelDir_succ {tables : List Nat} {v : Nat} (inside : kernelPage v) :
    (kernelDir img tables v).setPte v (mkPte (v * PGSIZE) (kernelPerm img v)) =
      kernelDir img tables (v + 1) := by
  unfold PgDir.setPte
  congr 1
  funext u
  simp only [kernelDir]
  by_cases here : u = v
  · subst here
    simp [inside]
  · rw [update_of_ne here]
    apply if_congr _ rfl rfl
    apply and_congr_right
    intro _
    omega

/-- The table of the next page is in place, or it is the next table to
allocate and nothing is mapped through it. -/
theorem tableIndex_page {v : Nat} (inside : kernelPage v) : ∃ j, tableIndex (v / 1024) = some j ∧
      (j < tablesBelow v ∧ tablesBelow (v + 1) = tablesBelow v ∨
        j = tablesBelow v ∧ tablesBelow (v + 1) = tablesBelow v + 1 ∧
          ∀ u, u < v → kernelPage u → u / 1024 ≠ v / 1024) := by
  unfold kernelPage at *
  unfold tablesBelow
  -- A table starts at every multiple of 1024 and at the first kernel page.
  by_cases low : v < 4096
  · refine ⟨v / 1024, if_pos (by omega), ?_⟩
    by_cases first : v = 160 ∨ v % 1024 = 0
    · refine Or.inr ⟨?_, ?_, by omega⟩
      · split_ifs <;> omega
      · split_ifs <;> omega
    · left
      split_ifs <;> omega
  · have index : tableIndex (v / 1024) = some (v / 1024 - 1012) := by
      unfold tableIndex
      rw [if_neg (by omega), if_pos (by omega)]
    refine ⟨v / 1024 - 1012, index, ?_⟩
    by_cases first : v % 1024 = 0
    · refine Or.inr ⟨?_, ?_, by omega⟩
      · split_ifs <;> omega
      · split_ifs <;> omega
    · left
      split_ifs <;> omega

theorem tableIndex_inj {k : Nat} (left : tableIndex i = some k)
    (right : tableIndex j = some k) : i = j := by
  unfold tableIndex at left right
  split_ifs at left right <;> simp at left right <;> omega

theorem kernelDir_addTable {tables : List Nat} {v table : Nat}
    (index : tableIndex (v / 1024) = some tables.length)
    (unused : ∀ u, u < v → kernelPage u → u / 1024 ≠ v / 1024) :
    (kernelDir img tables v).addTable (v / 1024) table = kernelDir img (tables ++ [table]) v := by
  have pde : ∀ i, ((kernelDir img tables v).addTable (v / 1024) table).pde i =
      (kernelDir img (tables ++ [table]) v).pde i := by
    intro i
    simp only [PgDir.addTable, kernelDir]
    by_cases here : i = v / 1024
    · rw [here, update_self, index]
      simp
    · rw [update_of_ne here]
      cases other : tableIndex i with
      | none => rfl
      | some j =>
        have ne : j ≠ tables.length := by
          rintro rfl
          exact here (tableIndex_inj other index)
        simp only [Option.bind_some]
        rcases Nat.lt_or_gt_of_ne ne with below | above
        · rw [List.getElem?_append_left below]
        · rw [List.getElem?_eq_none (by omega), List.getElem?_eq_none (by simp; omega)]
  have pte : ∀ u, ((kernelDir img tables v).addTable (v / 1024) table).pte u =
      (kernelDir img (tables ++ [table]) v).pte u := by
    intro u
    simp only [PgDir.addTable, kernelDir]
    by_cases here : u / 1024 = v / 1024
    · rw [if_pos here, if_neg]
      rintro ⟨inside, below⟩
      exact unused u below inside here
    · rw [if_neg here]
  unfold PgDir.addTable at pde pte ⊢
  simp only at pde pte
  rw [funext pde, funext pte]

theorem tablesBelow_mono {v : Nat} (le : u ≤ v) : tablesBelow u ≤ tablesBelow v := by
  unfold tablesBelow
  split_ifs <;> omega

/-! ## The loops of setupkvm -/

section Loops

variable {d : Nat} {tables rest : List Nat} {v : Nat}
variable {Q : Bool → Kernel → Prop} {perm n stop : Nat}

theorem pdx_page (small : v < 0x100000) : pdx (v * PGSIZE) = v / 1024 := by
  simp only [pdx, PGSIZE]
  omega

theorem vpn_page : vpn (v * PGSIZE) = v := by
  simp only [vpn, PGSIZE]
  omega

@[simp] theorem building_dir :
    (s.building img d tables rest v).dirs d = kernelDir img tables v := by
  simp [building]

theorem building_addTable {table : Nat} (index : tableIndex (v / 1024) = some tables.length)
    (unused : ∀ u, u < v → kernelPage u → u / 1024 ≠ v / 1024) :
    setDir
        { s.building img d tables (table :: rest) v with
          freelist := rest
          freecount := (s.building img d tables (table :: rest) v).freecount - 1
          mem := fill (s.building img d tables (table :: rest) v).mem table 0 PGSIZE }
        d ((kernelDir img tables v).addTable (v / 1024) table) =
      s.building img d (tables ++ [table]) rest v := by
  rw [kernelDir_addTable index unused]
  simp only [setDir, building, List.foldl_append,
    List.foldl_cons, List.foldl_nil, List.length_append, List.length_cons,
    List.length_nil, update_idem]
  congr 1
  omega

theorem building_succ (inside : kernelPage v) : (s.building img d tables rest v).setDir d
        (((s.building img d tables rest v).dirs d).setPte v
          (mkPte (v * PGSIZE) (kernelPerm img v))) =
      s.building img d tables rest (v + 1) := by
  rw [building_dir, kernelDir_succ inside]
  simp [setDir, building]

/-- Mapping pages of the kernel, in order: all of them, or none after the
last free page has become a page table. -/
theorem wp_mapLoop_kernel (n : Nat)
    (inside : ∀ u, v ≤ u → u < v + n → kernelPage u ∧ kernelPerm img u = perm)
    (placed : tables.length = tablesBelow v)
    (done : ∀ more left, rest = more ++ left → (tables ++ more).length = tablesBelow (v + n) →
      Q true (s.building img d (tables ++ more) left (v + n)))
    (full : ∀ u, (tables ++ rest).length < tablesBelow (v + n) →
      Q false (s.building img d (tables ++ rest) [] u)) :
    wp (mapLoop d (v * PGSIZE) (v * PGSIZE) perm n) Q E (s.building img d tables rest v) := by
  induction n generalizing v tables rest with
  | zero =>
    have result := done [] rest rfl (by simpa using placed)
    simpa [mapLoop] using result
  | succ n ih =>
    obtain ⟨here, rfl⟩ := inside v le_rfl (by omega)
    have small : v < 0x100000 := by
      unfold kernelPage at here
      omega
    obtain ⟨j, index, known⟩ := tableIndex_page here
    have later : v + (n + 1) = v + 1 + n := by omega
    rw [later] at done full
    -- What remains once the table of page `v` is in place.
    have onwards : ∀ more rest', rest = more ++ rest' →
        (tables ++ more).length = tablesBelow (v + 1) →
        present (((s.building img d (tables ++ more) rest' v).dirs d).pte
          (vpn (v * PGSIZE))) = false ∧
        wp (mapLoop d (v * PGSIZE + PGSIZE) (v * PGSIZE + PGSIZE) (kernelPerm img v) n) Q E
          ((s.building img d (tables ++ more) rest' v).setDir d
            (((s.building img d (tables ++ more) rest' v).dirs d).setPte (vpn (v * PGSIZE))
              (mkPte (v * PGSIZE) (kernelPerm img v)))) := by
      rintro more rest' rfl placed'
      rw [vpn_page, building_succ here, ← Nat.succ_mul, building_dir,
        kernelDir_pte_above le_rfl]
      refine ⟨rfl, ?_⟩
      apply ih
      case inside =>
        intro u low high
        exact inside u (by omega) (by omega)
      case placed => exact placed'
      case done =>
        rintro more' left rfl total
        rw [List.append_assoc] at total ⊢
        exact done (more ++ more') left (List.append_assoc ..).symm total
      case full =>
        rw [List.append_assoc]
        exact full
    have entryOf : ((s.building img d tables rest v).dirs d).pde
        (pdx (v * PGSIZE)) = tables[j]? := by
      rw [pdx_page small, building_dir, kernelDir_pde index]
    apply wp_mapLoop_succ
    case full =>
      intro missing empty
      rw [entryOf, List.getElem?_eq_none_iff] at missing
      have listEmpty : rest = [] := empty
      subst listEmpty
      have grows := tablesBelow_mono (Nat.le_add_right (v + 1) n)
      have result := full v (by simp only [List.append_nil]; omega)
      rwa [List.append_nil] at result
    case found =>
      intro table entry
      rw [entryOf] at entry
      have present := (List.getElem?_eq_some_iff.mp entry).1
      have result := onwards [] rest rfl (by simp only [List.append_nil]; omega)
      rwa [List.append_nil] at result
    case created =>
      intro table left t missing list made
      rw [entryOf, List.getElem?_eq_none_iff] at missing
      have listSplit : rest = table :: left := list
      subst listSplit
      rcases known with ⟨low, -⟩ | ⟨rfl, next, unused⟩
      · omega
      · rw [← placed] at index
        rw [building_dir, pdx_page small, building_addTable index unused] at made
        rw [made]
        exact onwards [table] left rfl (by simp; omega)

theorem mappages_pages {pa : Nat} (low : 0 < v) (some : 0 < n)
    (fits : v + n ≤ 0x100000) (stops : stop = (v + n) * PGSIZE % 2 ^ 32) :
    mappages d (v * PGSIZE) (u32 (stop + 2 ^ 32 - v * PGSIZE)) pa perm =
      mapLoop d (v * PGSIZE) pa perm n := by
  have size : u32 (stop + 2 ^ 32 - v * PGSIZE) = n * PGSIZE := by
    simp only [u32, PGSIZE] at *
    omega
  have last : pgrounddown (u32 (v * PGSIZE + n * PGSIZE - 1)) = (v + n - 1) * PGSIZE := by
    simp only [pgrounddown, u32, PGSIZE]
    omega
  have first : pgrounddown (v * PGSIZE) = v * PGSIZE := by
    simp only [pgrounddown, PGSIZE]
    omega
  have count : u32 ((v + n - 1) * PGSIZE + 2 ^ 32 - v * PGSIZE) / PGSIZE + 1 =
      n := by
    simp only [u32, PGSIZE]
    omega
  unfold mappages
  rw [size, last, first]
  simp only [count]

theorem wp_mapKernel_cons {ranges : List (Nat × Nat × Nat)} {start : Nat}
    (starts : start = v * PGSIZE) (stops : stop = (v + n) * PGSIZE % 2 ^ 32)
    (low : 0 < v) (some : 0 < n) (fits : v + n ≤ 0x100000)
    (inside : ∀ u, v ≤ u → u < v + n → kernelPage u ∧ kernelPerm img u = perm)
    (placed : tables.length = tablesBelow v)
    (next : ∀ more left, rest = more ++ left → (tables ++ more).length = tablesBelow (v + n) →
      wp (mapKernel d ranges) Q E (s.building img d (tables ++ more) left (v + n)))
    (full : ∀ u, (tables ++ rest).length < tablesBelow (v + n) →
      Q false (s.building img d (tables ++ rest) [] u)) :
    wp (mapKernel d ((start, stop, perm) :: ranges)) Q E (s.building img d tables rest v) := by
  subst starts
  simp only [mapKernel, wp_bind]
  rw [mappages_pages low some fits stops]
  exact wp_mapLoop_kernel n inside placed next full

theorem building_gap : s.building img d tables rest 4096 =
      s.building img d tables rest 0xFE000 := by
  unfold building
  rw [kernelDir_gap]

/-- All kernel ranges: twelve tables, or the free list is used up. -/
theorem wp_mapKernel (short : ∀ u, rest.length < 12 → Q false (s.building img d rest [] u))
    (done : ∀ tables left, rest = tables ++ left → tables.length = 12 →
      Q true (s.building img d tables left 0x100000)) :
    wp (mapKernel d (kmap img)) Q E (s.building img d [] rest 160) := by
  have above := img.text_lt_data
  have below := lt_of_lt_of_le img.data_lt_kend img.kend_le
  have aligned := img.data_aligned
  simp only [PGSIZE, PHYSTOP] at above below aligned
  have stuck : ∀ (tables : List Nat) u v, rest = tables → v ≤ 0x100000 →
      tables.length < tablesBelow v →
      Q false (s.building img d tables [] u) := by
    intro tables u v same fits few
    have most := tablesBelow_mono fits
    subst same
    exact short u (lt_of_lt_of_le few most)
  apply wp_mapKernel_cons (v := 160) (n := 96) rfl rfl (by decide) (by decide) (by decide)
  case placed => rfl
  case inside =>
    intro u low high
    exact ⟨Or.inl (by omega), if_neg (by omega)⟩
  case full => exact fun u => stuck _ u _ rfl (by decide)
  rintro first rest rfl placed
  apply wp_mapKernel_cons (v := 256) (n := img.data / 4096 - 256) rfl
  case stops =>
    simp only [PGSIZE]
    omega
  case low => decide
  case some | fits => omega
  case inside =>
    intro u low high
    exact ⟨Or.inl (by omega), if_pos (by simp only [PGSIZE]; omega)⟩
  case placed => exact placed
  case full => exact fun u => stuck _ u _ (by simp) (by omega)
  rintro second rest rfl placed
  rw [show 256 + (img.data / 4096 - 256) = img.data / 4096 by omega] at *
  apply wp_mapKernel_cons (n := 4096 - img.data / 4096)
  case starts =>
    simp only [PGSIZE]
    omega
  case stops =>
    simp only [PGSIZE, PHYSTOP]
    omega
  case low | some | fits => omega
  case inside =>
    intro u low high
    exact ⟨Or.inl (by omega), if_neg (by simp only [PGSIZE]; omega)⟩
  case placed => exact placed
  case full => exact fun u => stuck _ u _ (by simp) (by omega)
  rintro third rest rfl placed
  rw [show img.data / 4096 + (4096 - img.data / 4096) = 4096 by omega] at *
  rw [building_gap]
  apply wp_mapKernel_cons (v := 0xFE000) (n := 0x2000) rfl rfl (by decide) (by decide) (by decide)
  case inside =>
    intro u low high
    exact ⟨Or.inr (by omega), if_neg (by simp only [PGSIZE]; omega)⟩
  case placed => exact placed
  case full => exact fun u => stuck _ u _ (by simp) (by decide)
  rintro fourth rest rfl placed
  exact done _ rest (by simp) placed

end Loops

/-- `setupkvm` takes a page for the directory and twelve for its tables, or
uses the free list up. -/
theorem wp_setupkvm (empty : s.freelist = [] → Q none s)
    (short : ∀ d tables v, s.freelist = d :: tables → tables.length < 12 →
      Q none (s.building img d tables [] v))
    (done : ∀ d tables rest, s.freelist = d :: (tables ++ rest) → tables.length = 12 →
      Q (some d) (s.building img d tables rest 0x100000)) : wp (setupkvm img) Q E s := by
  unfold setupkvm
  rw [wp_bind]
  apply wp_kalloc
  · exact empty
  intro d rest list
  simp only [wp_bind, zeroPage, wp_modify]
  have begun : setDir
      { s with
        freelist := rest
        freecount := s.freecount - 1
        mem := fill s.mem d 0 PGSIZE } d PgDir.empty =
      s.building img d [] rest 160 := by
    unfold building
    rw [kernelDir_start]
    simp [setDir]
  rw [begun]
  apply wp_mapKernel
  · intro u few
    exact short d rest u list few
  · rintro tables left rfl count
    exact done d tables left list count

/-! ## User pages -/

/-- User pages of a directory: those below `USERTOP`. -/
abbrev userPages : Nat := 160

section UserPages

variable {s : Kernel} {E : Panic → Prop} {d v : Nat}
variable {pa perm : Nat}

theorem pdx_user (inside : v < userPages) : pdx (v * PGSIZE) = 0 := by
  unfold pdx
  simp only [PGSIZE, userPages] at inside ⊢
  omega

/-- The first page table serves all user pages. -/
theorem wp_walk_user {Q : Option Nat → Kernel → Prop} {create : Bool}
    (walk : ∃ table, (s.dirs d).pde 0 = some table) (inside : v < userPages) (next : Q (some v) s) :
    wp (walkpgdir d (v * PGSIZE) create) Q E s := by
  obtain ⟨table, entry⟩ := walk
  have missing : (s.dirs d).pde (pdx (v * PGSIZE)) ≠ none := by
    rw [pdx_user inside, entry]
    exact nofun
  refine wp_walkpgdir ?_ ?_ ?_ ?_
  · intro _ _
    rw [vpn_page]
    exact next
  · intro none
    exact absurd none missing
  · intro none
    exact absurd none missing
  · intro _ _ none
    exact absurd none missing

theorem user_perm : PTE_W ||| PTE_U < 4096 := by decide

theorem mappages_one (inside : v < userPages) :
    mappages d (v * PGSIZE) PGSIZE pa perm = mapLoop d (v * PGSIZE) pa perm 1 := by
  have last : pgrounddown (u32 (v * PGSIZE + PGSIZE - 1)) = v * PGSIZE := by
    simp only [pgrounddown, u32, PGSIZE, userPages] at inside ⊢
    omega
  have first : pgrounddown (v * PGSIZE) = v * PGSIZE := by
    simp only [pgrounddown, PGSIZE]
    omega
  have count : u32 (v * PGSIZE + 2 ^ 32 - v * PGSIZE) / PGSIZE + 1 = 1 := by
    rw [Nat.add_sub_cancel_left]
    rfl
  unfold mappages
  rw [last, first]
  simp only [count]

theorem wp_mappages_user {Q : Bool → Kernel → Prop} (walk : ∃ table, (s.dirs d).pde 0 = some table)
    (inside : v < userPages) (unmapped : present ((s.dirs d).pte v) = false)
    (next : Q true (s.setDir d ((s.dirs d).setPte v (mkPte pa perm)))) :
    wp (mappages d (v * PGSIZE) PGSIZE pa perm) Q E s := by
  rw [mappages_one inside, mapLoop, wp_bind]
  refine wp_walk_user walk inside ?_
  simp only [readPte, wp_bind, wp_get, wp_pure, unmapped, Bool.false_eq_true, if_false]
  exact wp_writePte next

end UserPages

end Xv6
